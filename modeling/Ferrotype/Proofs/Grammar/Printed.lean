import Ferrotype.Proofs.Grammar.Shape
import Ferrotype.Proofs.Token.Words
import Ferrotype.Token.Lexeme

/-!
# Expressions in words

Expressions are written without more brackets than they have. What a tree does not keep, such as
the contents of a block, cannot be written.
-/

namespace Ferrotype

/-! ## Words of operators and operands -/

def UnaryOp.words : UnaryOp → List Word
  | neg => [.mark .minus]
  | not => [.mark .bang]
  | deref => [.mark .star]
  | ref double mutable =>
    .mark (if double then .andAnd else .and) :: if mutable then [.keyword .mutKw] else []

def BinaryOp.word : BinaryOp → Word
  | or => .mark .pipePipe
  | and => .mark .andAnd
  | eq => .mark .eqEq
  | ne => .mark .bangEq
  | lt => .mark .lt
  | gt => .mark .gt
  | le => .mark .ltEq
  | ge => .mark .gtEq
  | bitOr => .mark .pipe
  | bitXor => .mark .caret
  | bitAnd => .mark .and
  | shl => .shift .lt
  | shr => .shift .gt
  | add => .mark .plus
  | sub => .mark .minus
  | mul => .mark .star
  | div => .mark .slash
  | rem => .mark .percent

/-- The kind of token that a literal is. -/
def LiteralKind.kind (value : String) : LiteralKind → Kind
  | str => .string
  | int => .int
  | float => .float
  | char => .char
  | bool => .keyword (if value = "false" then .falseKw else .trueKw)
  | byte => .byte
  | byteStr => .byteString

/-- A word of a path. One that is no word of paths by itself is written as a raw name. -/
def pathWordOf (name : String) : Word :=
  ⟨if (wordKind name.toList).isPathWord then wordKind name.toList else .identifier, name, false⟩

def pathWords : List String → List Word
  | [] => []
  | name :: names => pathWordOf name :: names.flatMap fun name => [.mark .colonColon, pathWordOf name]

/-- A member is a name or, of a tuple, a number. -/
def memberWord (name : String) : Word :=
  ⟨if name.toList.head?.any Text.isDigit then .int else .identifier, name, false⟩

/-! ## Words of expressions -/

mutual

/-- The words of an expression. Casts, blocks and macros are not written. -/
def Expr.words : Expr → List Word
  | .literal value kind => [⟨kind.kind value, value, false⟩]
  | .path segments leading _ =>
    (if leading then [.mark .colonColon] else []) ++ pathWords segments
  | .unary op e => op.words ++ e.words
  | .binary l op r => l.words ++ op.word :: r.words
  | .call f arguments => f.words ++ .opener .paren :: (listWords arguments ++ [.closer .paren])
  | .member e name => e.words ++ [.mark .dot, memberWord name]
  | .index base i => base.words ++ .opener .bracket :: (i.words ++ [.closer .bracket])
  | .paren e => .opener .paren :: (e.words ++ [.closer .paren])
  | .tuple [e] => .opener .paren :: (e.words ++ [.mark .comma, .closer .paren])
  | .tuple es => .opener .paren :: (listWords es ++ [.closer .paren])
  | .array es => .opener .bracket :: (listWords es ++ [.closer .bracket])
  | .question e => e.words ++ [.mark .question]
  | .cast .. | .block | .macroCall _ => []

/-- The words of expressions with commas between them. -/
def listWords : List Expr → List Word
  | [] => []
  | e :: es => e.words ++ moreWords es

/-- The words of expressions with a comma before each. -/
def moreWords : List Expr → List Word
  | [] => []
  | e :: es => .mark .comma :: (e.words ++ moreWords es)

end

theorem moreWords_eq (es : List Expr) : moreWords es = commaBefore (es.map Expr.words) := by
  induction es with
  | nil => rfl
  | cons e es ih => rw [moreWords, ih, List.map_cons, commaBefore]

theorem listWords_eq (es : List Expr) : listWords es = commaBetween (es.map Expr.words) := by
  cases es with
  | nil => rfl
  | cons e es => rw [listWords, moreWords_eq, List.map_cons, commaBetween]

/-- The expressions that can be written: no cast, string, block or macro is in them. -/
inductive Expr.Plain : Expr → Prop where
  | literal {value : String} {kind : LiteralKind} (h : kind ≠ .str) : Plain (.literal value kind)
  | path {segments : List String} {leading : Bool} (h : segments ≠ []) :
    Plain (.path segments leading false)
  | unary {op : UnaryOp} {e : Expr} (h : e.Plain) : Plain (.unary op e)
  | binary {l r : Expr} {op : BinaryOp} (hl : l.Plain) (hr : r.Plain) : Plain (.binary l op r)
  | call {f : Expr} {arguments : List Expr} (hf : f.Plain) (ha : ∀ a ∈ arguments, a.Plain) :
    Plain (.call f arguments)
  | member {e : Expr} {name : String} (h : e.Plain) : Plain (.member e name)
  | index {base i : Expr} (hb : base.Plain) (hi : i.Plain) : Plain (.index base i)
  | paren {e : Expr} (h : e.Plain) : Plain (.paren e)
  | tuple {es : List Expr} (h : ∀ e ∈ es, e.Plain) : Plain (.tuple es)
  | array {es : List Expr} (h : ∀ e ∈ es, e.Plain) : Plain (.array es)
  | question {e : Expr} (h : e.Plain) : Plain (.question e)

/-! ## First words -/

/-- The marks of unary operators. -/
def Kind.isUnaryMark : Kind → Bool
  | .punct .minus | .punct .bang | .punct .star | .punct .and | .punct .andAnd => true
  | _ => false

/-- Tokens at which an operand starts. -/
def Kind.startsOperand : Kind → Bool
  | .int | .float | .char | .byte | .byteString | .keyword .trueKw | .keyword .falseKw
  | .opener .paren | .opener .bracket | .punct .colonColon => true
  | kind => kind.isPathWord

theorem isPathWord_pathWordOf (name : String) : (pathWordOf name).kind.isPathWord = true := by
  unfold pathWordOf
  split
  · assumption
  · rfl

theorem Kind.startsOperand_of_isPathWord {kind : Kind} (h : kind.isPathWord = true) :
    kind.startsOperand = true := by
  unfold startsOperand
  split <;> first | rfl | exact h

/-- An expression that is no operation starts with an operand. -/
theorem Expr.Plain.operand {e : Expr} (h : e.Plain) (hs : e.Shaped) (hr : 12 ≤ e.rank) :
    ∃ w ws, e.words = w :: ws ∧ w.kind.startsOperand = true := by
  induction h with
  | @literal value kind h =>
    refine ⟨_, _, rfl, ?_⟩
    cases kind with
    | str => exact absurd rfl h
    | bool =>
      simp only [LiteralKind.kind]
      split <;> rfl
    | _ => rfl
  | @path segments leading h =>
    cases leading with
    | true => exact ⟨_, _, rfl, rfl⟩
    | false =>
      cases segments with
      | nil => exact absurd rfl h
      | cons name names =>
        exact ⟨_, _, rfl, Kind.startsOperand_of_isPathWord (isPathWord_pathWordOf name)⟩
  | unary =>
    have hr : 12 ≤ 11 := hr
    omega
  | @binary l r op =>
    have := op.precedence_le
    simp only [rank] at hr
    omega
  | call hf ha ih =>
    cases hs with
    | call hs hr =>
      obtain ⟨w, ws, hw, hk⟩ := ih hs hr
      exact ⟨w, _, by rw [words, hw]; rfl, hk⟩
  | member h ih =>
    cases hs with
    | member hs hr =>
      obtain ⟨w, ws, hw, hk⟩ := ih hs hr
      exact ⟨w, _, by rw [words, hw]; rfl, hk⟩
  | index hb hi ih =>
    cases hs with
    | index hs hr =>
      obtain ⟨w, ws, hw, hk⟩ := ih hs hr
      exact ⟨w, _, by rw [words, hw]; rfl, hk⟩
  | question h ih =>
    cases hs with
    | question hs hr =>
      obtain ⟨w, ws, hw, hk⟩ := ih hs hr
      exact ⟨w, _, by rw [words, hw]; rfl, hk⟩
  | paren h => exact ⟨_, _, rfl, rfl⟩
  | @tuple es h =>
    match es with
    | [] => exact ⟨_, _, rfl, rfl⟩
    | [e] => exact ⟨_, _, rfl, rfl⟩
    | _ :: _ :: _ => exact ⟨_, _, rfl, rfl⟩
  | array h => exact ⟨_, _, rfl, rfl⟩

/-- Every expression starts with an operand or a unary operator. -/
theorem Expr.Plain.first {e : Expr} (h : e.Plain) (hs : e.Shaped) :
    ∃ w ws, e.words = w :: ws ∧ (w.kind.startsOperand = true ∨ w.kind.isUnaryMark = true) := by
  by_cases hr : 12 ≤ e.rank
  · obtain ⟨w, ws, hw, hk⟩ := h.operand hs hr
    exact ⟨w, ws, hw, .inl hk⟩
  · cases h with
    | @unary op e h =>
      cases op with
      | ref double mutable => cases double <;> exact ⟨_, _, rfl, .inr rfl⟩
      | _ => exact ⟨_, _, rfl, .inr rfl⟩
    | binary hl =>
      cases hs with
      | binary hs =>
        obtain ⟨w, ws, hw, hk⟩ := first hl hs
        exact ⟨w, _, by rw [words, hw]; rfl, hk⟩
    | _ => exact absurd (Nat.le_refl _) hr

end Ferrotype
