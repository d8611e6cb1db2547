import Ferrotype.Proofs.Grammar.Printed

/-!
# Types in words

Types are written without more brackets than they have. Bounds, macros and blocks are not kept
by a tree as they were, so types with these in them are not written.
-/

namespace Ferrotype

/-! ## Words of types -/

def lifetimeWord (name : String) : Word := ⟨.lifetime, name, false⟩

def nameWord (name : String) : Word := ⟨.identifier, name, false⟩

mutual

/-- The words of a type. Trait objects, `impl` types and macros are not written. -/
def Ty.words : Ty → List Word
  | .path none leading segments =>
    (if leading then [.mark .colonColon] else []) ++ segmentWords segments
  | .path (some t) _ segments =>
    .mark .lt :: (t.words ++ .mark .gt :: .mark .colonColon :: segmentWords segments)
  | .reference lifetime mutable t =>
    .mark .and :: (lifetime.toList.map lifetimeWord ++
      ((if mutable then [.keyword .mutKw] else []) ++ t.words))
  | .pointer mutable t => .mark .star :: .keyword (if mutable then .mutKw else .constKw) :: t.words
  | .tuple ts =>
    .opener .paren :: (commaBetween (typesWords ts) ++
      ((if ts.length = 1 then [.mark .comma] else []) ++ [.closer .paren]))
  | .slice t => .opener .bracket :: (t.words ++ [.closer .bracket])
  | .array t length =>
    .opener .bracket :: (t.words ++ .mark .semicolon :: (length.words ++ [.closer .bracket]))
  | .paren t => .opener .paren :: (t.words ++ [.closer .paren])
  | .bareFn inputs output =>
    .keyword .fnKw :: .opener .paren :: (commaBetween (typesWords inputs) ++
      .closer .paren :: outputWords output)
  | .never => [.mark .bang]
  | .infer => [⟨.underscore, "_", false⟩]
  | .traitObject .. | .implTrait _ | .macroCall _ => []

def Segment.words : Segment → List Word
  | .mk name arguments => pathWordOf name :: arguments.words

def Arguments.words : Arguments → List Word
  | .none => []
  | .angle arguments => .mark .lt :: (commaBetween (argumentsWords arguments) ++ [.mark .gt])
  | .paren inputs output =>
    .opener .paren :: (commaBetween (typesWords inputs) ++ .closer .paren :: outputWords output)

/-- The words of a generic argument. Constraints are not written. -/
def GenericArg.words : GenericArg → List Word
  | .type t => t.words
  | .lifetime name => [lifetimeWord name]
  | .const value => value.words
  | .binding name t => nameWord name :: .mark .eq :: t.words
  | .constraint _ => []

/-- The words of segments with `::` between them. -/
def segmentWords : List Segment → List Word
  | [] => []
  | s :: ss => s.words ++ moreSegmentWords ss

/-- The words of segments with `::` before each. -/
def moreSegmentWords : List Segment → List Word
  | [] => []
  | s :: ss => .mark .colonColon :: (s.words ++ moreSegmentWords ss)

def outputWords : Option Ty → List Word
  | none => []
  | some t => .mark .arrow :: t.words

def typesWords : List Ty → List (List Word)
  | [] => []
  | t :: ts => t.words :: typesWords ts

def argumentsWords : List GenericArg → List (List Word)
  | [] => []
  | a :: as => a.words :: argumentsWords as

end

theorem typesWords_eq (ts : List Ty) : typesWords ts = ts.map Ty.words := by
  induction ts with
  | nil => rfl
  | cons t ts ih => rw [typesWords, ih, List.map_cons]

theorem argumentsWords_eq (as : List GenericArg) : argumentsWords as = as.map GenericArg.words := by
  induction as with
  | nil => rfl
  | cons a as ih => rw [argumentsWords, ih, List.map_cons]

/-! ## The types that can be written -/

/-- An integer literal, or one behind a minus. -/
inductive Expr.IsInteger : Expr → Prop where
  | plain {value : String} : IsInteger (.literal value .int)
  | negative {value : String} : IsInteger (.unary .neg (.literal value .int))

/-- Whether a segment ends in `-> T`. -/
def Segment.hasOutput : Segment → Bool
  | .mk _ (.paren _ (some _)) => true
  | _ => false

/-- There are segments, and none but the last one ends in `-> T`. -/
structure OutputLast (segments : List Segment) : Prop where
  ne_nil : segments ≠ []
  last : ∀ s ∈ segments.dropLast, s.hasOutput = false

mutual

/-- The types that can be written: no bounds, macro or block is in them. -/
inductive Ty.Plain : Ty → Prop where
  | path {leading : Bool} {segments : List Segment} (hs : ∀ s ∈ segments, s.Plain)
    (ho : OutputLast segments) : Ty.Plain (.path none leading segments)
  | qualified {t : Ty} {segments : List Segment} (ht : t.Plain) (hs : ∀ s ∈ segments, s.Plain)
    (ho : OutputLast segments) : Ty.Plain (.path (some t) false segments)
  | reference {lifetime : Option String} {mutable : Bool} {t : Ty} (h : t.Plain) :
    Ty.Plain (.reference lifetime mutable t)
  | pointer {mutable : Bool} {t : Ty} (h : t.Plain) : Ty.Plain (.pointer mutable t)
  | tuple {ts : List Ty} (h : ∀ t ∈ ts, t.Plain) : Ty.Plain (.tuple ts)
  | slice {t : Ty} (h : t.Plain) : Ty.Plain (.slice t)
  | array {t : Ty} {length : Expr} (h : t.Plain) (hl : length.IsInteger) :
    Ty.Plain (.array t length)
  | paren {t : Ty} (h : t.Plain) : Ty.Plain (.paren t)
  | bareFn {inputs : List Ty} {output : Option Ty} (hi : ∀ t ∈ inputs, t.Plain)
    (ho : ∀ t ∈ output, t.Plain) : Ty.Plain (.bareFn inputs output)
  | never : Ty.Plain .never
  | infer : Ty.Plain .infer

inductive Segment.Plain : Segment → Prop where
  | mk {name : String} {arguments : Arguments} (h : arguments.Plain) :
    Segment.Plain (.mk name arguments)

inductive Arguments.Plain : Arguments → Prop where
  | none : Arguments.Plain .none
  | angle {arguments : List GenericArg} (h : ∀ a ∈ arguments, a.Plain) :
    Arguments.Plain (.angle arguments)
  | paren {inputs : List Ty} {output : Option Ty} (hi : ∀ t ∈ inputs, t.Plain)
    (ho : ∀ t ∈ output, t.Plain) : Arguments.Plain (.paren inputs output)

inductive GenericArg.Plain : GenericArg → Prop where
  | type {t : Ty} (h : t.Plain) : GenericArg.Plain (.type t)
  | lifetime {name : String} : GenericArg.Plain (.lifetime name)
  | const {value : Expr} (h : value.IsInteger) : GenericArg.Plain (.const value)
  | binding {name : String} {t : Ty} (h : t.Plain) : GenericArg.Plain (.binding name t)

end

/-! ## First words -/

/-- Tokens with which a type starts that can be written. -/
def Kind.startsType : Kind → Bool
  | .punct .colonColon | .punct .lt | .punct .and | .punct .star | .punct .bang | .underscore
  | .opener .paren | .opener .bracket | .keyword .fnKw => true
  | kind => kind.isPathWord

theorem Kind.startsType_of_isPathWord {kind : Kind} (h : kind.isPathWord = true) :
    kind.startsType = true := by
  unfold startsType
  split <;> first | rfl | exact h

theorem Ty.Plain.first {t : Ty} (h : t.Plain) :
    ∃ w ws, t.words = w :: ws ∧ w.kind.startsType = true := by
  cases h with
  | @path leading segments hs ho =>
    cases leading with
    | true => exact ⟨_, _, rfl, rfl⟩
    | false =>
      obtain ⟨⟨name, arguments⟩, ss, rfl⟩ := List.exists_cons_of_ne_nil ho.ne_nil
      exact ⟨_, _, rfl, Kind.startsType_of_isPathWord (isPathWord_pathWordOf name)⟩
  | _ => exact ⟨_, _, rfl, rfl⟩

end Ferrotype
