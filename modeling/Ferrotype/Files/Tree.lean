import Ferrotype.Files.Path
import Ferrotype.Text.Quoted

/-!
# File trees

A snapshot of the files and directories that a run can reach. Locations are lists of names from
the working directory, with `..` only at the front; absolute ones start with `/`.
-/

namespace Ferrotype

inductive Node where
  | file (bytes : List UInt8)
  | directory
  deriving Repr, DecidableEq

abbrev Location := List String

structure Files where
  nodes : List (Location × Node)
  deriving Repr, DecidableEq

/-! ## Faults -/

inductive FileReason where
  | missing | alreadyExists | notDirectory | isDirectory
  deriving Repr, DecidableEq

def FileReason.text : FileReason → String
  | missing => "[Errno 2] No such file or directory"
  | alreadyExists => "[Errno 17] File exists"
  | notDirectory => "[Errno 20] Not a directory"
  | isDirectory => "[Errno 21] Is a directory"

/-- A failed operation, and the path that it was asked for. -/
structure FileFault where
  reason : FileReason
  path : String
  deriving Repr, DecidableEq

def FileFault.message (f : FileFault) : String := f.reason.text ++ ": " ++ Text.quoted f.path

def Location.toText : Location → String
  | "/" :: names => "/" ++ "/".intercalate names
  | names => "/".intercalate names

namespace Files

/-! ## Locations -/

def startOf (p : Path) : Location := if p.absolute then ["/"] else []

def above (l : Location) : Location :=
  match l.getLast? with
  | none | some ".." => l ++ [".."]
  | some "/" => l
  | some _ => l.dropLast

/-- Where a path leads if every name before the last is a directory. -/
def locationOf (p : Path) : Location :=
  p.parts.foldl (fun l name => if name = ".." then above l else l ++ [name]) (startOf p)

/-- Whether a location is a directory whatever the snapshot says. -/
def isAnchor (l : Location) : Bool := l == ["/"] || l.all (· == "..")

def node? (files : Files) (l : Location) : Option Node :=
  if isAnchor l then some .directory else files.nodes.lookup l

def put (files : Files) (l : Location) (node : Node) : Files :=
  ⟨files.nodes.filter (·.1 != l) ++ [(l, node)]⟩

/-- Follows names from a location. Each one but the last has to lead to a directory. -/
def walk (files : Files) (l : Location) : List String → Except FileReason Location
  | [] => .ok l
  | name :: names =>
    match files.node? l with
    | none => .error .missing
    | some (.file _) => .error .notDirectory
    | some .directory => walk files (if name = ".." then above l else l ++ [name]) names

/-- Where a path leads; there may be nothing yet. -/
def locate (files : Files) (p : Path) : Except FileReason Location :=
  walk files (startOf p) p.parts

/-- What a path leads to, if it leads to anything. -/
def find? (files : Files) (p : Path) : Option Node :=
  match files.locate p with
  | .ok l => files.node? l
  | .error _ => none

def isFile (files : Files) (p : Path) : Bool :=
  match files.find? p with
  | some (.file _) => true
  | _ => false

def isDirectory (files : Files) (p : Path) : Bool := files.find? p == some .directory

/-- The nodes in which two trees differ, as the second tree has them. -/
def changes (before after : Files) : List (Location × Node) :=
  after.nodes.filter fun n => before.nodes.lookup n.1 != some n.2

/-! ## Reading -/

/-- Whether a path as written can only mean a directory. -/
def meansDirectory (text : String) : Bool :=
  match (Text.splitAtChar '/' text.toList).getLast? with
  | some [] | some ['.'] => true
  | _ => false

/-- The bytes of a file, by its path as written. -/
def read (files : Files) (text : String) : Except FileFault (List UInt8) :=
  let p := Path.ofString text
  match files.locate p with
  | .error reason => .error ⟨reason, text⟩
  | .ok l =>
    match files.node? l with
    | none => .error ⟨.missing, text⟩
    | some .directory => .error ⟨.isDirectory, text⟩
    | some (.file bytes) =>
      if meansDirectory text then .error ⟨.notDirectory, text⟩ else .ok bytes

/-! ## Writing -/

/-- Makes one directory, in a directory that is there. -/
def makeDirectory (files : Files) (p : Path) : Except FileReason Files := do
  let l ← files.locate p
  match files.node? l with
  | some _ => throw .alreadyExists
  | none =>
    match files.node? (above l) with
    | some .directory => return files.put l .directory
    | some (.file _) => throw .notDirectory
    | none => throw .missing

/-- A directory that is there already is no fault. -/
def allowDirectory (files : Files) (p : Path) (result : Except FileReason Files) :
    Except FileFault Files :=
  match result with
  | .ok files => .ok files
  | .error reason =>
    if files.isDirectory p then .ok files else .error ⟨reason, p.toText⟩

/-- Makes a directory and the ones above it, as far as they are missing. -/
def makeDirectories (files : Files) (p : Path) : Except FileFault Files :=
  match files.makeDirectory p with
  | .error .missing =>
    if _h : p.parts = [] then .error ⟨.missing, p.toText⟩
    else do
      let files ← makeDirectories files p.parent
      files.allowDirectory p (files.makeDirectory p)
  | result => files.allowDirectory p result
termination_by p.parts.length
decreasing_by
  have := List.length_pos_iff.2 _h
  simp [Path.parent]
  omega

/-- Puts bytes into a file, new or old. Its directory has to be there. -/
def writeBytes (files : Files) (p : Path) (bytes : List UInt8) : Except FileFault Files :=
  match files.locate p with
  | .error reason => .error ⟨reason, p.toText⟩
  | .ok l =>
    match files.node? l with
    | some .directory => .error ⟨.isDirectory, p.toText⟩
    | _ => .ok (files.put l (.file bytes))

/-- Puts bytes into a file, and makes the directories above it. -/
def write (files : Files) (p : Path) (bytes : List UInt8) : Except FileFault Files := do
  (← files.makeDirectories p.parent).writeBytes p bytes

end Files

end Ferrotype
