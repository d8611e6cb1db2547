import Ferrotype.Command.Run

/-! # The command -/

namespace Ferrotype.Command

/-- What stands on the disk under a path whose directory is there. -/
def nodeOnDisk (path : String) : IO (Option Node) := do
  try
    let bytes ← IO.FS.readBinFile path
    return some (.file bytes.toList)
  catch
    | .noFileOrDirectory .. => return none
    | _ => return some .directory

/-- The part of the disk that lies on the way to paths. -/
def snapshot (paths : List Path) : IO Files := do
  let mut files : Files := ⟨[]⟩
  for path in paths do
    for count in [1:path.parts.length + 1] do
      let front : Path := { path with parts := path.parts.take count }
      if files.isDirectory front.parent then
        if let some node ← nodeOnDisk front.toText then
          files := files.put (Files.locationOf front) node
  return files

def applyChange (change : Location × Node) : IO Unit := do
  match change with
  | (location, .directory) => IO.FS.createDirAll location.toText
  | (location, .file bytes) => IO.FS.writeBinFile location.toText ⟨bytes.toArray⟩

def pathsOf (argv : List String) : List Path :=
  match readArguments .early argv with
  | .ok arguments => arguments.paths
  | .error _ => []

def runOnDisk (argv : List String) : IO UInt32 := do
  let stdin ← if argv.contains "-" then (← IO.getStdin).readBinToEnd else pure .empty
  let files ← snapshot (pathsOf argv)
  let outcome := run .early argv files stdin.toList
  (files.changes outcome.files).forM applyChange
  IO.print outcome.stdout
  IO.eprint outcome.stderr
  if let some escape := outcome.escape then IO.eprintln escape.message
  return outcome.code.toUInt32

end Ferrotype.Command

def main (argv : List String) : IO UInt32 := Ferrotype.Command.runOnDisk argv
