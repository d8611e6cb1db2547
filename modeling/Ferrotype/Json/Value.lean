import Ferrotype.Text.Quoted

/-! # JSON values -/

namespace Ferrotype

/-! ## Strings -/

/-- A character of a string. An escape may also stand for half of one. -/
inductive JsonChar where
  | char (c : Char)
  /-- A surrogate without the other one of its pair, counted from `U+D800`. -/
  | half (offset : Fin 0x800)
  deriving Repr, DecidableEq

/-- A string of JSON, which is a text if no half stands in it. -/
structure JsonText where
  chars : List JsonChar
  deriving Repr, DecidableEq

def JsonChar.isHalf : JsonChar → Bool
  | char _ => false
  | half _ => true

/-- Messages show a half as the escape that stands for it. -/
def JsonChar.shown : JsonChar → List Char
  | char c => [c]
  | half offset => Text.escapeCode (0xD800 + offset)

namespace JsonText

def ofString (s : String) : JsonText := ⟨s.toList.map .char⟩

instance : Coe String JsonText := ⟨ofString⟩

@[simp] theorem ofString_inj {s t : String} : ofString s = ofString t ↔ s = t := by
  have hc : ∀ c d, JsonChar.char c = .char d → c = d := fun _ _ => JsonChar.char.inj
  rw [ofString, ofString, mk.injEq, List.map_inj_right hc, String.toList_inj]

def shown (t : JsonText) : String := String.ofList (t.chars.flatMap JsonChar.shown)

def join (ts : List JsonText) : JsonText := ⟨ts.flatMap chars⟩

end JsonText

/-! ## Encoding -/

/-- Halves in a row: where they start, the first of them, and how many there are. -/
structure EncodeFault where
  offset : Nat
  first : Fin 0x800
  count : Nat
  deriving Repr, DecidableEq

def EncodeFault.message (f : EncodeFault) : String :=
  let what :=
    if f.count = 1 then
      "character '" ++ String.ofList (JsonChar.half f.first).shown ++ "' in position " ++
        toString f.offset
    else
      "characters in position " ++ toString f.offset ++ "-" ++ toString (f.offset + f.count - 1)
  "'utf-8' codec can't encode " ++ what ++ ": surrogates not allowed"

/-- The characters from `offset` on, which halves are none of. -/
def encodeFrom (offset : Nat) : List JsonChar → Except EncodeFault (List Char)
  | [] => .ok []
  | .char c :: cs => (encodeFrom (offset + 1) cs).map (c :: ·)
  | .half first :: cs => .error ⟨offset, first, (cs.takeWhile JsonChar.isHalf).length + 1⟩

/-- A string as a text that may be written. -/
def JsonText.encode (t : JsonText) : Except EncodeFault String :=
  (encodeFrom 0 t.chars).map String.ofList

/-! ## Values -/

/-- A number keeps its text. The members of an object keep their order. -/
inductive JsonValue where
  | null
  | bool (value : Bool)
  | number (text : String)
  | string (value : JsonText)
  | array (elements : List JsonValue)
  | object (members : List (JsonText × JsonValue))
  deriving Inhabited

namespace JsonValue

/-- Adds a member. A repeated name keeps its place and takes the new value. -/
def putMember (name : JsonText) (value : JsonValue) :
    List (JsonText × JsonValue) → List (JsonText × JsonValue)
  | [] => [(name, value)]
  | m :: ms => if m.1 = name then (name, value) :: ms else m :: putMember name value ms

end JsonValue

end Ferrotype
