import Ferrotype.Text.Quoted

/-!
# Command line arguments

Long options may be shortened as long as only one is meant. Short options may stand together,
and the value of an option may stand in the same word. Behind `--` there are no options.
-/

namespace Ferrotype.Command

inductive Flag where
  | help | output | stdout | namespaceName | preamble | noPreamble | sumTypes | sort | config
  | verbose
  deriving Repr, DecidableEq

namespace Flag

def all : List Flag :=
  [.help, .output, .stdout, .namespaceName, .preamble, .noPreamble, .sumTypes, .sort, .config,
    .verbose]

def names : Flag → List String
  | help => ["-h", "--help"]
  | output => ["-o", "--output"]
  | stdout => ["--stdout"]
  | namespaceName => ["--namespace"]
  | preamble => ["--preamble"]
  | noPreamble => ["--no-preamble"]
  | sumTypes => ["--sum-types"]
  | sort => ["--sort"]
  | config => ["--config"]
  | verbose => ["-v", "--verbose"]

/-- What messages call the option. -/
def title (f : Flag) : String := "/".intercalate f.names

def takesValue : Flag → Bool
  | output | namespaceName | preamble | config => true
  | _ => false

/-- Every name with its option. -/
def table : List (String × Flag) := all.flatMap fun f => f.names.map fun name => (name, f)

end Flag

/-! ## Faults -/

inductive UsageFault where
  | ambiguous (word : String) (names : List String)
  | needsArgument (flag : Flag)
  | ignoredArgument (flag : Flag) (argument : String)
  | conflict (flag other : Flag)
  | missingInput
  | unrecognized (words : List String)
  deriving Repr, DecidableEq

def argumentMessage (flag : Flag) (message : String) : String :=
  "argument " ++ flag.title ++ ": " ++ message

def UsageFault.message : UsageFault → String
  | ambiguous word names =>
    "ambiguous option: " ++ word ++ " could match " ++ ", ".intercalate names
  | needsArgument flag => argumentMessage flag "expected one argument"
  | ignoredArgument flag argument =>
    argumentMessage flag ("ignored explicit argument " ++ Text.quoted argument)
  | conflict flag other => argumentMessage flag ("not allowed with argument " ++ other.title)
  | missingInput => "the following arguments are required: input"
  | unrecognized words => "unrecognized arguments: " ++ " ".intercalate words

/-! ## Words -/

inductive Word where
  | plain (text : String)
  | separator
  /-- A long option, and what stands behind its `=`. -/
  | long (flag : Flag) (value : Option String)
  /-- A short option, and all that stands behind its letter. -/
  | short (flag : Flag) (letters : List Char)
  | unknown (text : String)
  deriving Repr, DecidableEq

/-- The text before the first `=`, and the text behind it. -/
def splitEquals (s : List Char) : List Char × Option String :=
  match s.dropWhile (· ≠ '=') with
  | [] => (s, none)
  | _ :: value => (s.takeWhile (· ≠ '='), some (String.ofList value))

def isLong (s : List Char) : Bool := ['-', '-'].isPrefixOf s

/-- The readings of a word that is no option by itself. -/
def readings (s : List Char) : List (String × Word) :=
  if isLong s then
    (Flag.table.filter fun e => (splitEquals s).1.isPrefixOf e.1.toList).map fun e =>
      (e.1, .long e.2 (splitEquals s).2)
  else
    (Flag.table.filter fun e => e.1.toList == s.take 2).map fun e => (e.1, .short e.2 (s.drop 2))

/-- A text without the line break at its end. One break is dropped at most. -/
def dropFinalBreak (s : List Char) : List Char := if s.getLast? = some '\n' then s.dropLast else s

/--
Whether a text is a negative number, which is no option. Its digits may be of any script, and a
line break may follow it.
-/
def isNegativeNumber (s : List Char) : Bool :=
  match dropFinalBreak s with
  | '-' :: s =>
    match s.dropWhile Text.isDecimal with
    | [] => s != []
    | '.' :: digits => digits != [] && digits.all Text.isDecimal
    | _ => false
  | _ => false

/-- The one reading of a word that starts with a hyphen. -/
def readOption (text : String) : Except UsageFault Word :=
  let s := text.toList
  match Flag.table.lookup (String.ofList (splitEquals s).1) with
  | some flag => .ok (if isLong s then .long flag (splitEquals s).2 else .short flag (s.drop 2))
  | none =>
    match readings s with
    | [(_, word)] => .ok word
    | [] => .ok (if isNegativeNumber s || s.contains ' ' then .plain text else .unknown text)
    | words => .error (.ambiguous text (words.map Prod.fst))

def readWord (text : String) : Except UsageFault Word :=
  match text.toList with
  | '-' :: _ :: _ => readOption text
  | _ => .ok (.plain text)

def readWords : List String → Except UsageFault (List Word)
  | [] => .ok []
  | text :: texts =>
    if text = "--" then .ok (.separator :: texts.map .plain)
    else do
      let word ← readWord text
      return word :: (← readWords texts)

/-! ## Arguments -/

structure Arguments where
  input : Option String := none
  output : Option String := none
  stdout : Bool := false
  namespaceName : Option String := none
  preamble : Option String := none
  noPreamble : Bool := false
  sumTypes : Bool := false
  sort : Bool := false
  config : Option String := none
  verbose : Bool := false
  help : Bool := false
  deriving Repr, DecidableEq

namespace Arguments

def setFlag (a : Arguments) (flag : Flag) : Except UsageFault Arguments :=
  match flag with
  | .help => .ok { a with help := true }
  | .stdout => .ok { a with stdout := true }
  | .noPreamble =>
    if a.preamble.isSome then .error (.conflict .noPreamble .preamble)
    else .ok { a with noPreamble := true }
  | .sumTypes => .ok { a with sumTypes := true }
  | .sort => .ok { a with sort := true }
  | .verbose => .ok { a with verbose := true }
  | _ => .ok a

/-- Sets an option to a value. The last value counts. -/
def setValue (a : Arguments) (flag : Flag) (value : String) : Except UsageFault Arguments :=
  match flag with
  | .output => .ok { a with output := some value }
  | .namespaceName => .ok { a with namespaceName := some value }
  | .preamble =>
    if a.noPreamble then .error (.conflict .preamble .noPreamble)
    else .ok { a with preamble := some value }
  | .config => .ok { a with config := some value }
  | _ => .ok a

end Arguments

/-! ## Reading the words -/

structure Progress where
  arguments : Arguments := {}
  /-- The option that waits for its value in the next word. -/
  waiting : Option Flag := none
  /-- Whether the word before was taken as the input. -/
  behindInput : Bool := false
  unrecognized : List String := []

/-- Sets an option, or waits for its value. -/
def Progress.take (p : Progress) (flag : Flag) : Except UsageFault Progress :=
  if flag.takesValue then .ok { p with waiting := some flag }
  else return { p with arguments := ← p.arguments.setFlag flag }

def Progress.takeValue (p : Progress) (flag : Flag) (value : String) :
    Except UsageFault Progress :=
  return { p with arguments := ← p.arguments.setValue flag value }

/-- Takes a long option with a value in the same word. -/
def Progress.takeGiven (p : Progress) (flag : Flag) (value : String) :
    Except UsageFault Progress :=
  if flag.takesValue then p.takeValue flag value else .error (.ignoredArgument flag value)

/-! ### Letters -/

/-- How the letters behind a short option are read, which two editions of the reader differ in. -/
inductive Edition where
  /-- An `=` counts behind the first letter only. -/
  | early
  /-- An `=` counts behind every letter, and what is no option is set aside. -/
  | late
  deriving Repr, DecidableEq

def shortFlag? (c : Char) : Option Flag := Flag.table.lookup (String.ofList ['-', c])

/-- Takes a short option and what stands behind it: its value, or more options if it takes none. -/
def Progress.takeEarly (p : Progress) (flag : Flag) : List Char → Except UsageFault Progress
  | [] => p.take flag
  | c :: s =>
    if flag.takesValue then p.takeValue flag (String.ofList (c :: s))
    else match shortFlag? c with
      | none => .error (.ignoredArgument flag (String.ofList (c :: s)))
      | some next => do (← p.take flag).takeEarly next s

def Progress.takeLate (p : Progress) (flag : Flag) : List Char → Except UsageFault Progress
  | [] => p.take flag
  | c :: s =>
    if c = '=' then p.takeGiven flag (String.ofList s)
    else if flag.takesValue then p.takeValue flag (String.ofList (c :: s))
    else if c = '-' then .error (.ignoredArgument flag (String.ofList (c :: s)))
    else do
      let p ← p.take flag
      match shortFlag? c with
      | none => return { p with unrecognized := p.unrecognized ++ [String.ofList ('-' :: c :: s)] }
      | some next => p.takeLate next s

def Progress.takeLetters (edition : Edition) (p : Progress) (flag : Flag) (letters : List Char) :
    Except UsageFault Progress :=
  match edition, letters with
  | .early, ['='] => p.takeGiven flag ""
  | .early, '=' :: s => p.takeEarly flag s
  | .early, s => p.takeEarly flag s
  | .late, s => p.takeLate flag s

/-! ### Whole words -/

/-- Takes the next word. Behind a request for help no more words are taken. -/
def Progress.step (edition : Edition) (p : Progress) (word : Word) :
    Except UsageFault Progress :=
  if p.arguments.help && p.waiting.isNone then .ok p
  else match p.waiting, word with
  | some flag, .plain value =>
    Progress.takeValue { p with waiting := none } flag value
  | some flag, _ => .error (.needsArgument flag)
  | none, .plain text =>
    if p.arguments.input.isNone then
      .ok { p with arguments := { p.arguments with input := some text }, behindInput := true }
    else .ok { p with unrecognized := p.unrecognized ++ [text], behindInput := false }
  | none, .separator =>
    if p.arguments.input.isNone || p.behindInput then .ok { p with behindInput := false }
    else .ok { p with unrecognized := p.unrecognized ++ ["--"] }
  | none, .long flag none => Progress.take { p with behindInput := false } flag
  | none, .long flag (some value) => Progress.takeGiven { p with behindInput := false } flag value
  | none, .short flag letters =>
    Progress.takeLetters edition { p with behindInput := false } flag letters
  | none, .unknown text =>
    .ok { p with unrecognized := p.unrecognized ++ [text], behindInput := false }

/-- The arguments of a command line. A request for help needs no input. -/
def readArguments (edition : Edition) (argv : List String) : Except UsageFault Arguments := do
  let p ← (← readWords argv).foldlM (Progress.step edition) {}
  if let some flag := p.waiting then throw (.needsArgument flag)
  if p.arguments.help then return p.arguments
  if p.arguments.input.isNone then throw .missingInput
  if p.unrecognized != [] then throw (.unrecognized p.unrecognized)
  return p.arguments

end Ferrotype.Command
