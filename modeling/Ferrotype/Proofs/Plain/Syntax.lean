import Ferrotype.Proofs.Token.Integer
import Ferrotype.Schema.Extract

/-!
# Plain declarations

A fragment of the source language: structs with named fields, enums of bare variants, and traits
of functions that take `&self`. Everything in it is well formed, and has words, a tree, and a
declaration that it stands for.
-/

namespace Ferrotype

/-! ## Names and numbers -/

/-- A word of ASCII. -/
structure AsciiWord where
  text : String
  ascii : isAsciiWord text.toList = true

/-- A word of ASCII that is no keyword and not the underscore. -/
structure Name extends AsciiWord where
  bare : text ≠ "_"
  free : ∀ k : Keyword, k.text ≠ text

/-- Decimal digits, at most 4300 of them, of a number of at most 63 bits. -/
structure Decimal where
  text : String
  filled : text.toList ≠ []
  digits : ∀ d ∈ text.toList, d.isDigit = true
  short : text.toList.length ≤ 4300
  small : Nat.ofDigitChars 10 text.toList 0 < 2 ^ 63

def Decimal.value (d : Decimal) : Nat := Nat.ofDigitChars 10 d.text.toList 0

namespace Decimal

/-- The digits alone are an integer. -/
def integer (d : Decimal) : IntegerText where
  toNumeral := .plain d.text.toList d.filled d.digits
  suffix := []
  unmarked := fun _ _ => nofun
  apart := nofun
  word := nofun

theorem text_integer (d : Decimal) : d.integer.text = d.text := by
  simp [IntegerText.text, IntegerText.chars, Numeral.chars, integer, Numeral.plain, Radix.mark]

end Decimal

/-! ## Types -/

/-- Paths, of which the last word may have arguments, references, tuples and slices. -/
inductive PlainType where
  | path (scope : List Name) (name : Name)
  | generic (scope : List Name) (name : Name) (arguments : List PlainType)
  | reference (lifetime : Option AsciiWord) (mutable : Bool) (t : PlainType)
  | tuple (ts : List PlainType)
  | slice (t : PlainType)

/-- The types in a list are parts, too. -/
@[elab_as_elim] theorem PlainType.induct {P : PlainType → Prop}
    (path : ∀ scope name, P (.path scope name))
    (generic : ∀ scope name arguments, (∀ t ∈ arguments, P t) → P (.generic scope name arguments))
    (reference : ∀ lifetime mutable t, P t → P (.reference lifetime mutable t))
    (tuple : ∀ ts, (∀ t ∈ ts, P t) → P (.tuple ts)) (slice : ∀ t, P t → P (.slice t))
    (t : PlainType) : P t :=
  @PlainType.rec P (fun ts => ∀ t ∈ ts, P t) path generic reference tuple slice (by simp)
    (fun _ _ ht hts => List.forall_mem_cons.2 ⟨ht, hts⟩) t

/-! ## Items -/

structure PlainField where
  name : Name
  type : PlainType

inductive PlainValue where
  | number (value : Decimal)
  | symbol (name : Name)

structure PlainVariant where
  name : Name
  value : Option PlainValue

/-- A function of a trait. The receiver is no parameter. -/
structure PlainMethod where
  name : Name
  params : List PlainField
  result : Option PlainType

inductive PlainItem where
  | struct (name : Name) (fields : List PlainField)
  | enumeration (name : Name) (variants : List PlainVariant)
  | trait (name : Name) (methods : List PlainMethod)

def PlainItem.name : PlainItem → Name
  | struct name _ | enumeration name _ | trait name _ => name

/-! ## Words -/

namespace AsciiWord

def word (w : AsciiWord) : Word := ⟨.identifier, w.text, false⟩

def lifetime (w : AsciiWord) : Word := ⟨.lifetime, "'" ++ w.text, false⟩

end AsciiWord

/-- Names with `::` behind each. -/
def scopeWords (scope : List Name) : List Word :=
  scope.flatMap fun name => [name.word, .mark .colonColon]

mutual

def PlainType.words : PlainType → List Word
  | .path scope name => scopeWords scope ++ [name.word]
  | .generic scope name arguments =>
    scopeWords scope ++
      name.word :: .mark .lt :: (commaBetween (wordsOfTypes arguments) ++ [.mark .gt])
  | .reference lifetime mutable t =>
    .mark .and :: (lifetime.toList.map AsciiWord.lifetime ++
      ((if mutable then [.keyword .mutKw] else []) ++ t.words))
  | .tuple ts =>
    .opener .paren :: (commaBetween (wordsOfTypes ts) ++
      ((if ts.length = 1 then [.mark .comma] else []) ++ [.closer .paren]))
  | .slice t => .opener .bracket :: (t.words ++ [.closer .bracket])

def wordsOfTypes : List PlainType → List (List Word)
  | [] => []
  | t :: ts => t.words :: wordsOfTypes ts

end

theorem wordsOfTypes_eq (ts : List PlainType) : wordsOfTypes ts = ts.map PlainType.words := by
  induction ts with
  | nil => rfl
  | cons t ts ih => rw [wordsOfTypes, ih, List.map_cons]

def PlainField.words (f : PlainField) : List Word := f.name.word :: .mark .colon :: f.type.words

def PlainValue.word : PlainValue → Word
  | number value => ⟨.int, value.text, false⟩
  | symbol name => name.word

def PlainVariant.words (v : PlainVariant) : List Word :=
  v.name.word :: v.value.elim [] fun value => [.mark .eq, value.word]

/-- The words of a function, up to its semicolon. -/
def PlainMethod.signatureWords (m : PlainMethod) : List Word :=
  .keyword .fnKw :: m.name.word :: .opener .paren ::
    (commaBetween ([.mark .and, .keyword .selfValueKw] :: m.params.map PlainField.words) ++
      .closer .paren :: m.result.elim [] fun t => .mark .arrow :: t.words)

def PlainMethod.words (m : PlainMethod) : List Word := m.signatureWords ++ [.mark .semicolon]

def PlainItem.words : PlainItem → List Word
  | struct name fields =>
    .keyword .structKw :: name.word :: .opener .brace ::
      (commaBetween (fields.map PlainField.words) ++ [.closer .brace])
  | enumeration name variants =>
    .keyword .enumKw :: name.word :: .opener .brace ::
      (commaBetween (variants.map PlainVariant.words) ++ [.closer .brace])
  | trait name methods =>
    .keyword .traitKw :: name.word :: .opener .brace ::
      (methods.flatMap PlainMethod.words ++ [.closer .brace])

/-- Items as a source text. -/
def sourceOf (items : List PlainItem) : String := spaced (items.flatMap PlainItem.words)

/-! ## Trees -/

mutual

def PlainType.tree : PlainType → Ty
  | .path scope name =>
    .path none false (scope.map (fun n => .mk n.text .none) ++ [.mk name.text .none])
  | .generic scope name arguments =>
    .path none false (scope.map (fun n => .mk n.text .none) ++
      [.mk name.text (.angle ((treesOfTypes arguments).map .type))])
  | .reference lifetime mutable t =>
    .reference (lifetime.map fun l => l.lifetime.text) mutable t.tree
  | .tuple ts => .tuple (treesOfTypes ts)
  | .slice t => .slice t.tree

def treesOfTypes : List PlainType → List Ty
  | [] => []
  | t :: ts => t.tree :: treesOfTypes ts

end

theorem treesOfTypes_eq (ts : List PlainType) : treesOfTypes ts = ts.map PlainType.tree := by
  induction ts with
  | nil => rfl
  | cons t ts ih => rw [treesOfTypes, ih, List.map_cons]

def PlainField.tree (f : PlainField) : Field := ⟨f.name.text, f.type.tree, .inherited, [], 1⟩

def PlainValue.tree : PlainValue → Expr
  | number value => .literal value.text .int
  | symbol name => .path [name.text] false false

def PlainVariant.tree (v : PlainVariant) : Variant :=
  ⟨v.name.text, .unit, v.value.map PlainValue.tree, [], 1⟩

/-- A parameter; its name is a pattern. -/
def PlainField.input (f : PlainField) : FnInput := ⟨[], .typed f.name.text f.type.tree⟩

def PlainMethod.signature (m : PlainMethod) : Signature :=
  ⟨m.name.text, ⟨[], .receiver true false none⟩ :: m.params.map PlainField.input,
    m.result.map PlainType.tree, [], [], false⟩

def PlainMethod.tree (m : PlainMethod) : Member := ⟨[], 1, .fn m.signature false⟩

def PlainItem.body : PlainItem → ItemBody
  | struct name fields => .structDef ⟨name.text, .named (fields.map PlainField.tree), []⟩
  | enumeration name variants => .enumDef ⟨name.text, variants.map PlainVariant.tree, []⟩
  | trait name methods =>
    .traitDef ⟨name.text, methods.map PlainMethod.tree, [], [], false, false⟩

def PlainItem.tree (i : PlainItem) : Item := ⟨[], .inherited, 1, i.body⟩

/-! ## Declarations -/

/-- `Option<T>` is written as `T`, and `Vec<T>` as an array. What is no path is `any`. -/
def PlainType.text : PlainType → String
  | path _ name => (namedType name.text).text
  | generic _ name [t] =>
    if name.text = "Option" then t.text
    else if name.text = "Vec" then t.text ++ "[]"
    else (namedType name.text).text
  | generic _ name _ => (namedType name.text).text
  | reference .. | tuple _ | slice _ => "any"

/-- The shape that is `any`, if one is. -/
def PlainType.unsupported : PlainType → Option String
  | path .. => none
  | generic _ name [t] =>
    if name.text = "Option" ∨ name.text = "Vec" then t.unsupported else none
  | generic .. => none
  | reference .. => some "Reference"
  | tuple _ => some "Tuple"
  | slice _ => some "Slice"

def PlainType.isOption : PlainType → Bool
  | path _ name | generic _ name _ => name.text == "Option"
  | _ => false

def PlainType.notices (declaration : String) (t : PlainType) : List Notice :=
  t.unsupported.toList.map fun shape => .unsupportedType shape declaration (some 1)

def PlainField.declared (f : PlainField) : InterfaceField :=
  ⟨camelCase f.name.text, f.type.text, f.type.isOption, none⟩

def PlainValue.declared : PlainValue → EnumValue
  | number value => .number value.value
  | symbol name => .identifier name.text

def PlainVariant.declared (v : PlainVariant) : EnumMember :=
  ⟨v.name.text, v.value.map PlainValue.declared, none⟩

def PlainMethod.declared (m : PlainMethod) : Method where
  name := m.name.text
  params := m.params.mapIdx fun i p => ⟨"arg" ++ toString i, p.type.text⟩
  result := m.result.elim "void" PlainType.text
  doc := none

def PlainMethod.notices (declaration : String) (m : PlainMethod) : List Notice :=
  m.params.flatMap (·.type.notices declaration) ++
    m.result.toList.flatMap (PlainType.notices declaration)

/-- The declaration that an item stands for. -/
def PlainItem.declared : PlainItem → Declaration
  | struct name fields => .interface name.text (fields.map PlainField.declared) none
  | enumeration name variants => .enumeration name.text (variants.map PlainVariant.declared) none
  | trait name methods => .trait name.text (methods.map PlainMethod.declared) none

def PlainItem.notices : PlainItem → List Notice
  | struct name fields => fields.flatMap (·.type.notices name.text)
  | enumeration .. => []
  | trait name methods => methods.flatMap (PlainMethod.notices name.text)

end Ferrotype
