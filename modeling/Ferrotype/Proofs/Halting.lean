import Ferrotype.Grammar.Cursor
import Ferrotype.Proofs.Halting.Items

/-!
# Every rule comes to an end

From any place of any list of tokens, each rule ends behind what it reads or with a fault of the
tokens. So no input, however malformed, makes the reader of a file go on for ever.
-/

namespace Ferrotype

open Grammar

/-- The rules that a reader may start from. -/
inductive RuleName where
  | advance
  /-- A test that looks ahead. -/
  | look (test : List Token → Bool)
  | expect (kind : Kind) (note : String)
  | expectFinish (note : String)
  | expectName
  | skipTree
  | skipToSemicolon
  | skipToBlockOrSemicolon
  | outerAttributes
  | innerAttributes
  | attributeBody (style : DocStyle)
  | attributeMeta (style : DocStyle) (line : Nat)
  | simplePath
  | file
  | visibility
  | item
  | fnQualifiers
  | otherItem
  | macroBody
  | generics
  | parameterRest
  | skipWhere
  | structDef
  | namedFields
  | tupleFields
  | enumDef
  | variant
  | traitDef
  | traitMember
  | signature
  | param
  | type (allowPlus : Bool)
  | typePath
  | qualifiedPath
  | genericArgs
  | genericArg
  | bareFn
  | bounds (allowPlus : Bool)
  | binary (least : Nat)
  | cast
  | unary
  | suffixed
  | callArgs
  | primary
  | pathExpr

namespace RuleName

/--
What is found is left out. A generic argument may be a type from its first token on, so its rules
have a layer more than there are tokens.
-/
def rule : RuleName → Rule Unit
  | advance => discard Rule.advance
  | look test => discard (Rule.ahead test)
  | expect kind note => discard (Rule.expect kind note)
  | expectFinish note => Rule.expectFinish note
  | expectName => discard Rule.expectName
  | skipTree => Rule.skipTree
  | skipToSemicolon => Rule.skipToSemicolon
  | skipToBlockOrSemicolon => Rule.skipToBlockOrSemicolon
  | outerAttributes => discard (Rule.whole Grammar.outerAttributes)
  | innerAttributes => discard (Rule.whole Grammar.innerAttributes)
  | attributeBody style => discard (Rule.whole fun R => Grammar.attributeBody R style)
  | attributeMeta style line => discard (Rule.whole fun R => Grammar.attributeMeta R style line)
  | simplePath => discard Grammar.simplePath
  | file => discard sourceFile
  | visibility => discard Grammar.visibility
  | item => discard Grammar.item
  | fnQualifiers => discard Grammar.fnQualifiers
  | otherItem => discard Grammar.otherItem
  | macroBody => Grammar.macroBody
  | generics => discard (Rule.whole Grammar.generics)
  | parameterRest => Rule.dropping (dropParameterRest 0)
  | skipWhere => Grammar.skipWhere
  | structDef => discard Grammar.structDef
  | namedFields => discard Grammar.namedFields
  | tupleFields => discard Grammar.tupleFields
  | enumDef => discard Grammar.enumDef
  | variant => discard Grammar.variant
  | traitDef => discard Grammar.traitDef
  | traitMember => discard Grammar.traitMember
  | signature => discard Grammar.signature
  | param => discard Grammar.param
  | type allowPlus => discard (wholeType allowPlus)
  | typePath => discard (Rule.whole Grammar.typePath)
  | qualifiedPath => discard (Rule.whole Grammar.qualifiedPath)
  | genericArgs => discard (Rule.whole Grammar.genericArgs)
  | genericArg => discard fun ts => Grammar.genericArg (rules (ts.length + 1)) ts
  | bareFn => discard (Rule.whole Grammar.bareFn)
  | bounds allowPlus => discard (Rule.whole fun R => Grammar.bounds R allowPlus)
  | binary least => discard (Rule.whole fun R => Grammar.binary R least)
  | cast => discard (Rule.whole Grammar.cast)
  | unary => discard (Rule.whole Grammar.unary)
  | suffixed => discard (Rule.whole Grammar.suffixed)
  | callArgs => discard (Rule.whole Grammar.callArgs)
  | primary => discard (Rule.whole Grammar.primary)
  | pathExpr => discard (Rule.whole Grammar.pathExpr)

/-- Whether a rule cannot succeed without reading a token. -/
def reads : RuleName → Bool
  | advance | look _ | expectFinish _ | outerAttributes | innerAttributes | file | visibility
  | fnQualifiers | generics | parameterRest | skipWhere => false
  | _ => true

theorem genericArg_one_layer (ts : List Token) :
    Rule.Halts (fun ts => Grammar.genericArg (rules (ts.length + 1)) ts) (fun _ => true) ts :=
  .congr (genericArg_halts (rules_halts (ts.length + 1)) (Nat.lt_succ_self _)) rfl

theorem expectFinish_halts (note : String) (ts : List Token) :
    (Rule.expectFinish note).Halts (fun _ => false) ts := by
  refine .get ?_
  cases ts with
  | nil => exact .pure rfl
  | cons t ts => exact .throw (by simp)

theorem rule_halts (m : RuleName) (ts : List Token) : m.rule.Halts (fun _ => m.reads) ts := by
  have hn := Nat.le_refl ts.length
  cases m with
  | advance => exact .discard .advance
  | look test => exact .discard (.ahead (.pure rfl))
  | expect kind note => exact .discard .expect
  | expectFinish note => exact expectFinish_halts note ts
  | expectName => exact .discard .expectName
  | skipTree => exact .skipTree
  | skipToSemicolon => exact .skipToSemicolon
  | skipToBlockOrSemicolon => exact .skipToBlockOrSemicolon
  | outerAttributes => exact .discard outerAttributes_halts
  | innerAttributes => exact .discard innerAttributes_halts
  | attributeBody style => exact .discard (Rule.whole_halts fun hR => attributeBody_halts hR hn style)
  | attributeMeta style line =>
    exact .discard (Rule.whole_halts fun hR => attributeMeta_halts hR hn style line)
  | simplePath => exact .discard simplePath_halts
  | file => exact .discard sourceFile_halts
  | visibility => exact .discard visibility_halts
  | item => exact .discard item_halts
  | fnQualifiers => exact .discard fnQualifiers_halts
  | otherItem => exact .discard otherItem_halts
  | macroBody => exact macroBody_halts
  | generics => exact .discard wholeGenerics_halts
  | parameterRest => exact .parameterRest
  | skipWhere => exact skipWhere_halts
  | structDef => exact .discard structDef_halts
  | namedFields => exact .discard namedFields_halts
  | tupleFields => exact .discard tupleFields_halts
  | enumDef => exact .discard enumDef_halts
  | variant => exact .discard variant_halts
  | traitDef => exact .discard traitDef_halts
  | traitMember => exact .discard traitMember_halts
  | signature => exact .discard signature_halts
  | param => exact .discard param_halts
  | type allowPlus => exact .discard (wholeType_halts allowPlus)
  | typePath => exact .discard (Rule.whole_halts fun hR => typePath_halts hR hn)
  | qualifiedPath => exact .discard (Rule.whole_halts fun hR => qualifiedPath_halts hR hn)
  | genericArgs => exact .discard (Rule.whole_halts fun hR => genericArgs_halts hR hn)
  | genericArg => exact .discard (genericArg_one_layer ts)
  | bareFn => exact .discard (Rule.whole_halts fun hR => bareFn_halts hR hn)
  | bounds allowPlus => exact .discard (Rule.whole_halts fun hR => bounds_halts hR hn allowPlus)
  | binary least => exact .discard (Rule.whole_halts fun hR => binary_halts hR hn least)
  | cast => exact .discard (Rule.whole_halts fun hR => cast_halts hR hn)
  | unary => exact .discard (Rule.whole_halts fun hR => unary_halts hR hn)
  | suffixed => exact .discard (Rule.whole_halts fun hR => suffixed_halts hR hn)
  | callArgs => exact .discard (Rule.whole_halts fun hR => callArgs_halts hR hn)
  | primary => exact .discard (Rule.whole_halts fun hR => primary_halts hR hn)
  | pathExpr => exact .discard (Rule.whole_halts fun hR => pathExpr_halts hR hn)

end RuleName

/-- A fault of the tokens, and not the mark of a rule that goes on for ever. -/
def SyntaxError.OfTokens (e : SyntaxError) : Prop :=
  ∃ fault, e.cause = .grammar fault ∧ fault ≠ .endless

/--
From any place in a list of tokens each rule ends, and the reader of a file does so. A rule that
fails names a fault of the tokens. One that succeeds moves forward, and to the end of the list at
most; it stays where it is only if it is one that may find nothing.
-/
theorem Cursor.read_ends :
    (∀ (m : RuleName) (c : Cursor), c.rest <:+ c.tokens.list →
      (∃ e, c.read m.rule = .error e ∧ e.OfTokens) ∨
        ∃ d : Cursor, c.read m.rule = .ok ((), d) ∧ d.tokens = c.tokens ∧ d.rest <:+ c.tokens.list ∧
          c.position ≤ d.position ∧ d.position ≤ c.tokens.list.length ∧
            (m.reads = true → c.position < d.position)) ∧
      ∀ tokens : Tokens, (∃ e, SourceFile.ofTokens tokens = .error e ∧ e.OfTokens) ∨
        ∃ file, SourceFile.ofTokens tokens = .ok file := by
  refine ⟨fun m c hc => ?_, fun tokens => ?_⟩
  · obtain ⟨hne, hok⟩ := m.rule_halts c.rest
    unfold Cursor.read
    cases h : m.rule c.rest with
    | error fault =>
      refine .inl ⟨_, rfl, fault, rfl, ?_⟩
      rintro rfl
      exact hne h
    | ok r =>
      obtain ⟨hs, hl⟩ := hok r.1 r.2 h
      have hle := hs.length_le
      have hle' := hc.length_le
      refine .inr ⟨⟨c.tokens, r.2⟩, rfl, rfl, hs.trans hc, ?_, ?_, fun hm => ?_⟩
      all_goals simp only [Cursor.position]
      · omega
      · omega
      · have := hl hm
        omega
  · have hf : sourceFile.Halts (fun _ => false) tokens.list := sourceFile_halts
    unfold SourceFile.ofTokens Cursor.read Cursor.start
    cases h : sourceFile tokens.list with
    | error fault =>
      refine .inl ⟨_, rfl, fault, rfl, ?_⟩
      rintro rfl
      exact hf.1 h
    | ok r => exact .inr ⟨r.1, rfl⟩

/-- A struct is read from the start of its tokens, and the place behind it is another one. -/
theorem Cursor.read_ends_struct :
    ∃ tokens, tokenize "struct S;" = .ok tokens ∧ (start tokens).rest <:+ (start tokens).tokens.list ∧
      ∃ d, (start tokens).read RuleName.item.rule = .ok ((), d) ∧
        (start tokens).position < d.position := by
  obtain ⟨tokens, ht⟩ : ∃ tokens, tokenize "struct S;" = .ok tokens :=
    exists_ok_of_isSome (by decide +kernel)
  have hok : (tokenize "struct S;").toOption.all
      (fun tokens => ((start tokens).read RuleName.item.rule).toOption.isSome) = true := by
    decide +kernel
  have hs : (start tokens).rest <:+ (start tokens).tokens.list := List.suffix_refl _
  refine ⟨tokens, ht, hs, ?_⟩
  rcases read_ends.1 .item (start tokens) hs with ⟨e, he, -⟩ | ⟨d, hd, -, -, -, -, hl⟩
  · rw [ht] at hok
    simp [Except.toOption, he] at hok
  · exact ⟨d, hd, hl rfl⟩

end Ferrotype
