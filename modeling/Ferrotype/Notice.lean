/-!
# Notices

A notice tells where the declarations are looser than the source. None of them ends a run.
-/

namespace Ferrotype

inductive Severity where
  | warning | info
  deriving Repr, DecidableEq

def Severity.name : Severity → String
  | warning => "warning"
  | info => "info"

inductive Construct where
  | discriminant | item | option | traitItem | tupleField | type
  deriving Repr, DecidableEq

namespace Construct

/-- Every construct, in the order of the names. -/
def all : List Construct := [.discriminant, .item, .option, .traitItem, .tupleField, .type]

def name : Construct → String
  | discriminant => "discriminant"
  | item => "item"
  | option => "option"
  | traitItem => "trait item"
  | tupleField => "tuple field"
  | type => "type"

end Construct

/-- A declaration with an empty name, or no line, is not known. -/
inductive Notice where
  | unsupportedType (shape declaration : String) (line : Option Int)
  | traitItemSkipped (kind declaration : String) (line : Option Int)
  | discriminantIgnored (variant declaration : String) (line : Option Int)
  | unnamedFieldSkipped (index : Int) (declaration : String) (line : Option Int)
  | itemSkipped (kind : String) (line : Option Int)
  | reservedOption (option : String)
  deriving Repr, DecidableEq

namespace Notice

def construct : Notice → Construct
  | unsupportedType .. => .type
  | traitItemSkipped .. => .traitItem
  | discriminantIgnored .. => .discriminant
  | unnamedFieldSkipped .. => .tupleField
  | itemSkipped .. => .item
  | reservedOption .. => .option

def severity : Notice → Severity
  | itemSkipped .. | reservedOption .. => .info
  | _ => .warning

def code : Notice → String
  | unsupportedType .. => "W001"
  | traitItemSkipped .. => "W002"
  | discriminantIgnored .. => "W003"
  | unnamedFieldSkipped .. => "W004"
  | itemSkipped .. => "I001"
  | reservedOption .. => "I002"

def message : Notice → String
  | unsupportedType shape _ _ => shape ++ " type is not supported; using \"any\"."
  | traitItemSkipped kind _ _ =>
    "Trait " ++ kind ++ " item was skipped (only functions are emitted)."
  | discriminantIgnored variant _ _ =>
    "Discriminant of variant \"" ++ variant ++
      "\" is not a literal or identifier; its ordinal position is used instead."
  | unnamedFieldSkipped index _ _ => "Unnamed field " ++ toString index ++ " was skipped."
  | itemSkipped kind _ => kind ++ " item produces no TypeScript declaration."
  | reservedOption option =>
    "Extraction option \"" ++ option ++ "\" is reserved and has no effect."

def declaration : Notice → String
  | unsupportedType _ declaration _ | traitItemSkipped _ declaration _
  | discriminantIgnored _ declaration _ | unnamedFieldSkipped _ declaration _ => declaration
  | itemSkipped .. | reservedOption .. => ""

def line : Notice → Option Int
  | unsupportedType _ _ line | traitItemSkipped _ _ line | discriminantIgnored _ _ line
  | unnamedFieldSkipped _ _ line | itemSkipped _ line => line
  | reservedOption .. => none

def isWarning (n : Notice) : Bool := n.severity == .warning

/-- The declaration and the line, as far as they are known. Line 0 is none. -/
def location (n : Notice) : String :=
  match n.line with
  | none | some 0 => n.declaration
  | some line =>
    if n.declaration = "" then "line " ++ toString line
    else n.declaration ++ ":" ++ toString line

def text (n : Notice) : String :=
  let location := if n.location = "" then "" else n.location ++ ": "
  "[" ++ n.severity.name ++ "] " ++ location ++ n.message ++ " (" ++ n.code ++ ")"

end Notice

/-! ## Collecting -/

namespace Collector

/-- What a collector is told: to keep a notice, or to forget what it has. -/
inductive Call where
  | record (n : Notice)
  | clear
  deriving Repr, DecidableEq

def Call.apply (kept : List Notice) : Call → List Notice
  | record n => kept ++ [n]
  | clear => []

/-- What is kept behind calls, one after the other. -/
def after (calls : List Call) : List Notice := calls.foldl Call.apply []

end Collector

/-! ## Reports -/

namespace Report

def warnings (notices : List Notice) : List Notice := notices.filter Notice.isWarning

def infos (notices : List Notice) : List Notice := notices.filter (!·.isWarning)

/-- The notices of each construct that has some, in the order of the constructs' names. -/
def groups (notices : List Notice) : List (Construct × List Notice) :=
  (Construct.all.map fun c => (c, notices.filter (·.construct == c))).filter fun g => !g.2.isEmpty

/-- The warnings, counted by construct, on one line. -/
def summary (notices : List Notice) : String :=
  match groups (warnings notices) with
  | [] => "No generator warnings."
  | gs =>
    "Generator warnings: " ++
      ", ".intercalate (gs.map fun g => toString g.2.length ++ " " ++ g.1.name)

def groupLines (verbose : Bool) (g : Construct × List Notice) : List String :=
  ("  " ++ g.1.name ++ ": " ++ toString g.2.length ++ " occurrence(s)") ::
    if verbose then g.2.map fun n => "    " ++ n.text else []

def warningLines (verbose : Bool) (notices : List Notice) : List String :=
  match warnings notices with
  | [] => []
  | ws =>
    "" :: ("Generator warnings (" ++ toString ws.length ++ "):") ::
      (groups ws).flatMap (groupLines verbose)

def infoLines (notices : List Notice) : List String :=
  match infos notices with
  | [] => []
  | is =>
    "" :: ("Generator info (" ++ toString is.length ++ "):") :: is.map fun n => "  " ++ n.text

/-- The report at the end of a run. Only a verbose one shows each notice and the infos. -/
def lines (verbose : Bool) (notices : List Notice) : List String :=
  warningLines verbose notices ++ if verbose then infoLines notices else []

def print (verbose : Bool) (notices : List Notice) : String :=
  String.join ((lines verbose notices).map (· ++ "\n"))

end Report

end Ferrotype
