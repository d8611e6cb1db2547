import Ferrotype.Json.Value
import Ferrotype.Options

/-!
# Options documents

A document is an object with the sections `extract` and `generate`, each an object of options.
The first fault counts: the shape of the document, then its sections in its order, then the
options of `extract`, then those of `generate`.
-/

namespace Ferrotype

inductive OptionType where
  | bool
  | textOrNull
  deriving Repr, DecidableEq

def OptionType.name : OptionType → String
  | bool => "bool"
  | textOrNull => "str or null"

inductive DocumentFault where
  | notObject
  | unknownSection (name : JsonText)
  | sectionNotObject (name : String)
  | unknownOption (sectionName : String) (name : JsonText)
  | wrongType (sectionName : String) (name : JsonText) (expected : OptionType)
  deriving Repr, DecidableEq

def DocumentFault.message : DocumentFault → String
  | notObject => "options file must contain a JSON object"
  | unknownSection name => "unknown options section \"" ++ name.shown ++ "\""
  | sectionNotObject name => "\"" ++ name ++ "\" must be an object"
  | unknownOption sectionName name =>
    "unknown option \"" ++ sectionName ++ "." ++ name.shown ++ "\""
  | wrongType sectionName name expected =>
    "option \"" ++ sectionName ++ "." ++ name.shown ++ "\" must be " ++ expected.name

/-! ## Configurations -/

/-- Options of the output, as a document gives them: their texts may have halves in them. -/
structure RenderSettings where
  namespaceName : Option JsonText := none
  preamble : Option JsonText := some (defaultPreamble : String)
  sumTypes : Bool := false
  sortAlphabetically : Bool := false
  deriving Repr, DecidableEq

structure Configuration where
  extract : ExtractOptions := {}
  render : RenderSettings := {}
  deriving Repr, DecidableEq

def RenderOptions.settings (o : RenderOptions) : RenderSettings where
  namespaceName := o.namespaceName.map .ofString
  preamble := o.preamble.map .ofString
  sumTypes := o.sumTypes
  sortAlphabetically := o.sortAlphabetically

/-- Options are a configuration without a half. -/
def Options.configuration (o : Options) : Configuration := ⟨o.extract, o.render.settings⟩

/-! ## Sections -/

/-- An option of a section: its type, and how a value of that type changes the section. -/
inductive OptionSetter (σ : Type) where
  | bool (put : Bool → σ → σ)
  | textOrNull (put : Option JsonText → σ → σ)

def OptionSetter.type : OptionSetter σ → OptionType
  | bool _ => .bool
  | textOrNull _ => .textOrNull

/-- The section with an option set to a value, if the value has the right type. -/
def OptionSetter.apply? (setter : OptionSetter σ) (s : σ) : JsonValue → Option σ :=
  match setter with
  | bool put => fun
    | .bool b => some (put b s)
    | _ => none
  | textOrNull put => fun
    | .string text => some (put (some text) s)
    | .null => some (put none s)
    | _ => none

abbrev SectionOptions (σ : Type) := List (JsonText × OptionSetter σ)

def extractSection : SectionOptions ExtractOptions :=
  [("embed_structs", .bool fun b o => { o with embedStructs := b }),
    ("follow_structs", .bool fun b o => { o with followStructs := b }),
    ("no_anon_structs", .bool fun b o => { o with noAnonStructs := b }),
    ("sort_alphabetically", .bool fun b o => { o with sortAlphabetically := b })]

def renderSection : SectionOptions RenderSettings :=
  [("namespace", .textOrNull fun t o => { o with namespaceName := t }),
    ("preamble", .textOrNull fun t o => { o with preamble := t }),
    ("generate_enums_as_sum_types", .bool fun b o => { o with sumTypes := b }),
    ("sort_alphabetically", .bool fun b o => { o with sortAlphabetically := b })]

def readMembers (accepted : SectionOptions σ) (sectionName : String) (s : σ) :
    List (JsonText × JsonValue) → Except DocumentFault σ
  | [] => .ok s
  | (name, value) :: ms =>
    match accepted.lookup name with
    | none => .error (.unknownOption sectionName name)
    | some setter =>
      match setter.apply? s value with
      | none => .error (.wrongType sectionName name setter.type)
      | some s => readMembers accepted sectionName s ms

/-- A section of a document. A missing one has the options that it starts from. -/
def readSection (accepted : SectionOptions σ) (sectionName : String) (s : σ) :
    Option JsonValue → Except DocumentFault σ
  | none => .ok s
  | some (.object ms) => readMembers accepted sectionName s ms
  | some _ => .error (.sectionNotObject sectionName)

/-! ## Documents -/

def sectionNames : List JsonText := ["extract", "generate"]

def Configuration.ofDocument (document : JsonValue) : Except DocumentFault Configuration :=
  match document with
  | .object ms =>
    match ms.find? fun m => !sectionNames.contains m.1 with
    | some (name, _) => .error (.unknownSection name)
    | none => do
      let extract ← readSection extractSection "extract" {} (ms.lookup (.ofString "extract"))
      let render ← readSection renderSection "generate" {} (ms.lookup (.ofString "generate"))
      return ⟨extract, render⟩
  | _ => .error .notObject

end Ferrotype
