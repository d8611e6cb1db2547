import Ferrotype.Proofs.Grammar.Exposed
import Ferrotype.Proofs.Plain.Items

/-!
# Headers of functions

A function that is no member of a trait is read over, up to its body or its semicolon. Reading over
trees looks at what stands outside of all groups, and angle brackets are no group: a brace between
them, or that of a macro, is taken for the body, though the type is fine anywhere else.
-/

namespace Ferrotype

/-- An identifier, whatever its text. -/
def Word.identifier (text : String) : Word := ⟨.identifier, text, false⟩

namespace Grammar

open Rule

variable {ts rest : List Token} {p : Position}

/-! ## Types in a field -/

/-- All tokens are of a type, if a closing brace stands behind them. -/
def IsFieldType (p : Position) (ts : List Token) (ty : Ty) : Prop :=
  wholeType true (ts ++ [(Word.closer .brace).token p]) = .ok (ty, [(Word.closer .brace).token p])

theorem isFieldType_of_rest (h : (wholeType true (ts ++ [(Word.closer .brace).token p])).toOption.map
    Prod.snd = some [(Word.closer .brace).token p]) : ∃ ty, IsFieldType p ts ty := by
  obtain ⟨⟨ty, rest⟩, ht, rfl⟩ := Option.map_eq_some_iff.1 h
  exact ⟨ty, ok_of_toOption ht⟩

theorem IsFieldType.balanced {ty : Ty} (h : IsFieldType p ts ty) (hs : Unmistakable ts) :
    Balanced ts := by
  have hc : Unmistakable (ts ++ [(Word.closer .brace).token p]) := by
    intro t ht
    obtain ht | ht := List.mem_append.1 ht
    · exact hs t ht
    · obtain rfl := List.mem_singleton.1 ht
      exact fun _ => (ofText?_delim .brace).2
  obtain ⟨read, hr, hb⟩ := (wholeType_local (w := ⟨0, []⟩) true _ [] hc _ _ h).1
  obtain rfl := List.append_cancel_right hr
  exact hb

theorem expect_identifier (text : String) (p : Position) (ts : List Token) :
    expect .identifier "identifier" ((Word.identifier text).token p :: ts) =
      .ok ((Word.identifier text).token p, ts) :=
  run_expect.2 ⟨rfl, rfl⟩

theorem expectName_identifier (text : String) (p : Position) (ts : List Token) :
    expectName ((Word.identifier text).token p :: ts) = .ok (text, ts) := by
  unfold expectName
  rw [bind_ok (expect_identifier text p ts)]
  rfl

theorem namedField_type {ty : Ty} {name : String} {p q r : Position} (h : IsFieldType r ts ty) :
    namedField ((Word.identifier name).token p :: (Word.mark .colon).token q ::
        (ts ++ [(Word.closer .brace).token r])) =
      .ok (⟨name, ty, .inherited, [], p.line⟩, [(Word.closer .brace).token r]) := by
  have hv (ts : List Token) : visibility ((Word.identifier name).token p :: ts) =
      .ok (.inherited, (Word.identifier name).token p :: ts) := rfl
  unfold namedField
  rw [bind_ok (outerAttributes_word (by rintro ⟨⟩) (by rintro ⟨⟩) _ _), bind_ok (hv _),
    bind_ok (expect_identifier _ _ _), bind_ok (expect_mark _ _ _ _), bind_ok h]
  rfl

/-- A struct from behind its keyword on. -/
theorem structDef_word (name : String) (p q : Position) (hb : headIs (.punct .lt) ts = false)
    (hw : headIs (.keyword .whereKw) ts = false) :
    structDef ((Word.keyword .structKw).token p :: (Word.identifier name).token q :: ts) = (do
      if ← isAt (.opener .brace) then return ⟨name, .named (← namedFields), []⟩
      else if ← isAt (.opener .paren) then
        let fields ← tupleFields
        skipWhere
        discard <| expect (.punct .semicolon) ""
        return ⟨name, .tuple fields, []⟩
      else if ← accept (.punct .semicolon) then return ⟨name, .unit, []⟩
      else refuse .structBody "" : Rule StructDef) ts := by
  unfold structDef
  rw [bind_ok (expect_keyword _ _ _ _), bind_ok (expectName_identifier _ _ _),
    bind_ok (generics_none hb), bind_ok (skipWhere_none hw)]

theorem item_struct {d : StructDef}
    (h : structDef ((Word.keyword .structKw).token p :: ts) = .ok (d, rest)) :
    item ((Word.keyword .structKw).token p :: ts) =
      .ok (⟨[], .inherited, p.line, .structDef d⟩, rest) := by
  unfold item
  rw [bind_ok (outerAttributes_word (by rintro ⟨⟩) (by rintro ⟨⟩) _ _)]
  change (structDef >>= fun d => pure ⟨[], .inherited, p.line, .structDef d⟩ : Rule Item) _ = _
  rw [bind_ok h]
  rfl

theorem item_unit (name : String) (p q r : Position) (ts : List Token) :
    item ((Word.keyword .structKw).token p :: (Word.identifier name).token q ::
        (Word.mark .semicolon).token r :: ts) =
      .ok (⟨[], .inherited, p.line, .structDef ⟨name, .unit, []⟩⟩, ts) :=
  item_struct (structDef_word name p q rfl rfl)

/-- A struct of one field, of which the tokens are the type. -/
theorem item_field {ty : Ty} {ws : List Token} (name field : String) (h : IsFieldType p ts ty)
    (hw : Spells [.keyword .structKw, .identifier name, .opener .brace, .identifier field,
      .mark .colon] ws) :
    ∃ line line', item (ws ++ ts ++ [(Word.closer .brace).token p]) =
      .ok (⟨[], .inherited, line,
        .structDef ⟨name, .named [⟨field, ty, .inherited, [], line'⟩], []⟩⟩, []) := by
  obtain ⟨a, _, rfl, ha⟩ := hw.cons
  obtain ⟨b, _, rfl, hb⟩ := ha.cons
  obtain ⟨c, _, rfl, hc⟩ := hb.cons
  obtain ⟨d, _, rfl, hd⟩ := hc.cons
  obtain ⟨e, rfl⟩ := hd.single
  have hf : commaList (.closer .brace) namedField ((Word.identifier field).token d ::
      (Word.mark .colon).token e :: (ts ++ [(Word.closer .brace).token p])) =
        .ok ([⟨field, ty, .inherited, [], d.line⟩], [(Word.closer .brace).token p]) := by
    apply many_last
    rw [isAt_else rfl, bind_ok (namedField_type h), bind_ok (accept_eq_false rfl)]
    rfl
  have hn : namedFields ((Word.opener .brace).token c :: (Word.identifier field).token d ::
      (Word.mark .colon).token e :: (ts ++ [(Word.closer .brace).token p])) =
        .ok ([⟨field, ty, .inherited, [], d.line⟩], []) := by
    unfold namedFields
    rw [bind_ok (expect_opener _ _ _ _), bind_ok hf, bind_ok (expect_closer _ _ _ _)]
    rfl
  refine ⟨a.line, d.line, ?_⟩
  simp only [List.cons_append, List.nil_append]
  apply item_struct
  rw [structDef_word name a b rfl rfl]
  change (namedFields >>= fun fields => pure ⟨name, .named fields, []⟩ : Rule StructDef) _ = _
  rw [bind_ok hn]
  rfl

/-! ## Functions -/

/-- What ends the header of a function. -/
def endsHeader (kind : Kind) : Bool := kind == .punct .semicolon || kind == .opener .brace

theorem run_skipToBlockOrSemicolon {u : Unit} :
    skipToBlockOrSemicolon ts = .ok (u, rest) ↔
      ∃ mid, dropTreesUntil endsHeader ts = .ok mid ∧ dropTree mid = .ok rest := by
  unfold skipToBlockOrSemicolon
  simp only [run_bind, run_skipTo, run_skipTree, exists_const]
  rfl

theorem qualifiedItem_fn (name : String) (p q : Position) (ts : List Token) :
    qualifiedItem ((Word.keyword .fnKw).token p :: (Word.identifier name).token q :: ts) = (do
      skipToBlockOrSemicolon
      return .other .fn name : Rule ItemBody) ts := by
  have hq : fnQualifiers ((Word.keyword .fnKw).token p :: (Word.identifier name).token q :: ts) =
      .ok ([], (Word.keyword .fnKw).token p :: (Word.identifier name).token q :: ts) :=
    many_stop rfl
  unfold qualifiedItem
  rw [bind_ok (run_get.2 ⟨rfl, rfl⟩), bind_ok hq, bind_ok (accept_keyword _ _ _), if_pos rfl,
    bind_ok (expectName_identifier _ _ _)]

theorem run_item_fn {i : Item} (name : String) (p q : Position) :
    item ((Word.keyword .fnKw).token p :: (Word.identifier name).token q :: ts) = .ok (i, rest) ↔
      i = ⟨[], .inherited, p.line, .other .fn name⟩ ∧
        ∃ mid, dropTreesUntil endsHeader ts = .ok mid ∧ dropTree mid = .ok rest := by
  unfold item
  rw [bind_ok (outerAttributes_word (by rintro ⟨⟩) (by rintro ⟨⟩) _ _)]
  change (qualifiedItem >>= fun body => pure (Item.mk [] .inherited p.line body)) _ = _ ↔ _
  rw [run_bind]
  simp only [qualifiedItem_fn, run_bind, run_pure, run_skipToBlockOrSemicolon]
  grind

/-- The header goes on to the braces behind it, unless a token of it ends it before. -/
theorem header_ends (hb : Balanced ts) (p q : Position) (rest : List Token) :
    (∃ mid, dropTreesUntil endsHeader
        (ts ++ (Word.opener .brace).token p :: (Word.closer .brace).token q :: rest) = .ok mid ∧
      dropTree mid = .ok rest) ↔ ¬Exposed endsHeader ts := by
  constructor
  · rintro ⟨mid, hmid, hd⟩ he
    obtain ⟨xs, t, ys, rfl, -, hx, ht⟩ := dropTreesUntil_exposed hb he
      ((Word.opener .brace).token p :: (Word.closer .brace).token q :: rest)
    obtain rfl := Except.ok.inj (ht.symm.trans hmid)
    -- What is left then still holds the braces.
    obtain ⟨as, bs, rfl, -, -, -, hr⟩ := dropTree_balanced (hx.append_iff.1 hb)
    rw [List.append_assoc, hr] at hd
    have hl := congrArg List.length (Except.ok.inj hd)
    simp at hl
    omega
  · intro he
    refine ⟨(Word.opener .brace).token p :: (Word.closer .brace).token q :: rest, ?_, ?_⟩
    · rw [dropTreesUntil_past hb he, dropTreesUntil_cons, if_pos (by rfl)]
    · simp [dropTree, closeGroup, Word.token, Word.opener, Word.closer]

/-- A function ends with the braces behind the type of its result. -/
theorem item_fn {ws body : List Token} (name : String) (hb : Balanced ts)
    (hw : Spells [.keyword .fnKw, .identifier name, .opener .paren, .closer .paren, .mark .arrow] ws)
    (hbody : Spells [.opener .brace, .closer .brace] body) (rest : List Token) :
    (∃ line, item (ws ++ ts ++ body ++ rest) =
      .ok (⟨[], .inherited, line, .other .fn name⟩, rest)) ↔ ¬Exposed endsHeader ts := by
  obtain ⟨a, _, rfl, ha⟩ := hw.cons
  obtain ⟨b, _, rfl, hb'⟩ := ha.cons
  obtain ⟨c, _, rfl, hc⟩ := hb'.cons
  obtain ⟨d, _, rfl, hd⟩ := hc.cons
  obtain ⟨e, rfl⟩ := hd.single
  obtain ⟨p, _, rfl, hp⟩ := hbody.cons
  obtain ⟨q, rfl⟩ := hp.single
  -- The inputs and the arrow are read over as trees.
  have hin (us : List Token) : dropTreesUntil endsHeader ((Word.opener .paren).token c ::
      (Word.closer .paren).token d :: (Word.mark .arrow).token e :: us) =
        dropTreesUntil endsHeader us := by
    rw [dropTreesUntil_cons, if_neg (by rintro ⟨⟩)]
    change dropTreesUntil endsHeader ((Word.mark .arrow).token e :: us) = _
    rw [dropTreesUntil_cons, if_neg (by rintro ⟨⟩)]
    rfl
  rw [← header_ends hb p q rest]
  simp only [List.cons_append, List.append_assoc, List.nil_append, run_item_fn, hin]
  constructor
  · rintro ⟨line, -, h⟩
    exact h
  · intro h
    exact ⟨a.line, rfl, h⟩

end Grammar

open Grammar

namespace SourceFile

/-- A file from a keyword on is read as its items. -/
theorem ofTokens_items {ts : List Token} {items : List Item} (k : Keyword) (p finish : Position)
    (h : ItemsOf ((Word.keyword k).token p :: ts) items) :
    ofTokens ⟨(Word.keyword k).token p :: ts, finish⟩ = .ok ⟨[], items⟩ := by
  apply ofTokens_eq_ok.2
  use []
  unfold sourceFile
  rw [Rule.bind_ok (innerAttributes_word (by rintro ⟨⟩) (by rintro ⟨⟩) _ _)]
  change (Rule.many itemTurn >>= _) _ = _
  rw [Rule.bind_ok (many_of_itemsOf h)]
  rfl

/-- A file is a function that ends in front of `behind`, and a struct without fields behind it. -/
def IsFnThenUnit (fn unit : String) (front behind : List Token) (finish : Position) : Prop :=
  ∃ line line', item (front ++ behind) = .ok (⟨[], .inherited, line, .other .fn fn⟩, behind) ∧
    ofTokens ⟨front ++ behind, finish⟩ = .ok ⟨[], [⟨[], .inherited, line, .other .fn fn⟩,
      ⟨[], .inherited, line', .structDef ⟨unit, .unit, []⟩⟩]⟩

/--
A type that a field may have may also be the result of a function, and the function ends at its own
body, if no brace and no semicolon of the type stands outside of all groups. If one does, then the
function ends somewhere else.
-/
theorem fn_ends_at_body {ts : List Token} {ty : Ty} {p : Position} (hs : Spelled ts)
    (ht : IsFieldType p ts ty) {struct field fn unit : String}
    {fieldHead fnHead body behind : List Token}
    (hfield : Spells [.keyword .structKw, .identifier struct, .opener .brace, .identifier field,
      .mark .colon] fieldHead)
    (hfn : Spells [.keyword .fnKw, .identifier fn, .opener .paren, .closer .paren, .mark .arrow]
      fnHead)
    (hbody : Spells [.opener .brace, .closer .brace] body)
    (hunit : Spells [.keyword .structKw, .identifier unit, .mark .semicolon] behind)
    (finish : Position) :
    (∃ line line', ofTokens ⟨fieldHead ++ ts ++ [(Word.closer .brace).token p], finish⟩ =
      .ok ⟨[], [⟨[], .inherited, line,
        .structDef ⟨struct, .named [⟨field, ty, .inherited, [], line'⟩], []⟩⟩]⟩) ∧
    (IsFnThenUnit fn unit (fnHead ++ ts ++ body) behind finish ↔ ¬Exposed endsHeader ts) := by
  constructor
  · obtain ⟨line, line', hi⟩ := item_field struct field ht hfield
    obtain ⟨a, us, rfl, -⟩ := hfield.cons
    refine ⟨line, line', ofTokens_items _ _ _ (.cons hi ?_ .nil)⟩
    simp
  · rw [← item_fn fn (ht.balanced hs.unmistakable) hfn hbody behind]
    constructor
    · rintro ⟨line, line', hi, -⟩
      exact ⟨line, hi⟩
    · rintro ⟨line, hi⟩
      obtain ⟨a, us, rfl, ha⟩ := hunit.cons
      obtain ⟨b, vs, rfl, hb⟩ := ha.cons
      obtain ⟨c, rfl⟩ := hb.single
      refine ⟨line, a.line, hi, ?_⟩
      have hz := ItemsOf.cons (item_unit unit a b c []) (by simp) .nil
      obtain ⟨q, us, rfl, -⟩ := hfn.cons
      apply ofTokens_items
      refine .cons hi ?_ hz
      simp
      omega

/-- `Vec<[u8; 3]>` is a type anywhere; `Foo<{ 1 }>` is one in a field, but not behind an arrow. -/
theorem fn_ends_at_body_block :
    let ident := Word.identifier
    let vec := layout ⟨1, 20⟩ [ident "Vec", .mark .lt, .opener .bracket, ident "u8",
      .mark .semicolon, ⟨.int, "3", false⟩, .closer .bracket, .mark .gt]
    let block := layout ⟨1, 20⟩ [ident "Foo", .mark .lt, .opener .brace, ⟨.int, "1", false⟩,
      .closer .brace, .mark .gt]
    let head := layout .start [.keyword .fnKw, ident "g", .opener .paren, .closer .paren,
      .mark .arrow]
    let body := layout ⟨1, 50⟩ [.opener .brace, .closer .brace]
    let behind := layout ⟨1, 60⟩ [.keyword .structKw, ident "Z", .mark .semicolon]
    IsFnThenUnit "g" "Z" (head ++ vec ++ body) behind ⟨1, 80⟩ ∧
      ¬IsFnThenUnit "g" "Z" (head ++ block ++ body) behind ⟨1, 80⟩ := by
  intro ident vec block head body behind
  have hf : Spells [.keyword .structKw, ident "S", .opener .brace, ident "f", .mark .colon]
    (layout .start [.keyword .structKw, ident "S", .opener .brace, ident "f", .mark .colon]) := rfl
  obtain ⟨_, hv⟩ : ∃ ty, IsFieldType ⟨1, 40⟩ vec ty :=
    isFieldType_of_rest (by decide +kernel)
  obtain ⟨_, hb⟩ : ∃ ty, IsFieldType ⟨1, 40⟩ block ty :=
    isFieldType_of_rest (by decide +kernel)
  constructor
  · exact (fn_ends_at_body (by decide) hv hf (by rfl) (by rfl) (by rfl) ⟨1, 80⟩).2.2 (by decide)
  · intro h
    exact (fn_ends_at_body (by decide) hb hf (by rfl) (by rfl) (by rfl) ⟨1, 80⟩).2.1 h (by decide)

end SourceFile

end Ferrotype
