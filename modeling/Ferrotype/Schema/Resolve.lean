import Ferrotype.Schema.Type
import Ferrotype.Tree.Item

/-!
# From source types to types of declarations

`Option<T>` stands for `T` and `Vec<T>` for an array. Any other path is known by its last
segment, and any other type is `any`.
-/

namespace Ferrotype

/-- A type, and the name of the shape that had to become `any`, if one had to. -/
structure Resolved where
  type : TsType Empty
  unsupported : Option String

namespace Resolved

def ofType (type : TsType Empty) : Resolved := ⟨type, none⟩

def array (r : Resolved) : Resolved := { r with type := .array r.type }

end Resolved

def namedType (name : String) : TsType Empty :=
  if name ∈ ["String", "str"] then .primitive .string
  else if name ∈ ["i8", "i16", "i32", "i64", "i128", "isize", "u8", "u16", "u32", "u64", "u128",
      "usize", "f32", "f64"] then .primitive .number
  else if name = "bool" then .primitive .boolean
  else if name = "Vec" then .reference "Array"
  else .reference name

/-- What messages call a type that is no path. -/
def Ty.shapeName : Ty → String
  | .path .. => "Path"
  | .reference .. => "Reference"
  | .pointer .. => "Raw pointer"
  | .tuple .. => "Tuple"
  | .slice .. => "Slice"
  | .array .. => "Array"
  | .paren .. => "Parenthesized"
  | .traitObject .. => "Trait object"
  | .implTrait .. => "impl Trait"
  | .bareFn .. => "Function pointer"
  | .never => "Never"
  | .infer => "Inferred"
  | .macroCall .. => "Macro"

mutual

def Ty.resolve : Ty → Resolved
  | .path _ _ segments => resolveLast segments
  | t => ⟨.primitive .any, some t.shapeName⟩

/-- A path without segments is `any`, too, but of no shape. -/
def resolveLast : List Segment → Resolved
  | [] => .ofType (.primitive .any)
  | [s] => s.resolve
  | _ :: s :: ss => resolveLast (s :: ss)

def Segment.resolve : Segment → Resolved
  | .mk name (.angle [.type t]) =>
    if name = "Option" then t.resolve
    else if name = "Vec" then t.resolve.array
    else .ofType (namedType name)
  | .mk name _ => .ofType (namedType name)

end

/-- Only the last segment of a path counts. -/
theorem resolveLast_append (ss : List Segment) (s : Segment) :
    resolveLast (ss ++ [s]) = s.resolve := by
  induction ss with
  | nil => rw [List.nil_append, resolveLast]
  | cons r ss ih =>
    cases ss with
    | nil => rw [List.singleton_append, resolveLast, resolveLast]
    | cons q ss => rw [List.cons_append, List.cons_append, resolveLast, ← List.cons_append, ih]

/-- A segment that has no single type as its argument is known by its name. -/
theorem Segment.resolve_named {s : Segment} (h : s.typeArgument? = none) :
    s.resolve = .ofType (namedType s.name) := by
  obtain ⟨name, arguments⟩ := s
  rw [Segment.resolve]
  · rfl
  · rintro t rfl
    cases h

theorem Segment.resolve_wrapper {s : Segment} {t : Ty} (hn : s.name = "Option" ∨ s.name = "Vec")
    (ha : s.typeArgument? = some t) : s.resolve.unsupported = t.resolve.unsupported := by
  obtain ⟨name, arguments⟩ := s
  unfold typeArgument? at ha
  split at ha
  · next u hu =>
    cases ha
    obtain rfl : arguments = _ := hu
    rw [Segment.resolve]
    obtain rfl | rfl : name = "Option" ∨ name = "Vec" := hn
    · rfl
    · rfl
  · cases ha

/-- A segment that has a shape to note wraps a type that has it. -/
theorem Segment.exists_wrapped {s : Segment} {shape : String}
    (h : s.resolve.unsupported = some shape) :
    (s.name = "Option" ∨ s.name = "Vec") ∧ ∃ t, s.typeArgument? = some t := by
  obtain ⟨name, arguments⟩ := s
  unfold Segment.resolve at h
  split at h
  · next name t he =>
    cases he
    refine ⟨?_, t, rfl⟩
    split at h
    · next hn => exact .inl hn
    · split at h
      · next hn => exact .inr hn
      · cases h
  · cases h

theorem Ty.resolve_path (qualifier : Option Ty) (leading : Bool) {segments : List Segment}
    {s : Segment} (hs : segments.getLast? = some s) :
    (Ty.path qualifier leading segments).resolve = s.resolve := by
  obtain ⟨before, rfl⟩ := List.getLast?_eq_some_iff.1 hs
  rw [Ty.resolve, resolveLast_append]

/-- Whether a type is a path that ends in `Option`, whatever its arguments. -/
def Ty.isOption (t : Ty) : Bool := t.lastSegment?.any fun s => s.name == "Option"

end Ferrotype
