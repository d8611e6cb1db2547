import Ferrotype.Output.Module

/-!
# The chunks of a module

A preamble with a line break, the line that opens the namespace, the declarations with a blank line
behind each, and the line that closes the namespace.
-/

namespace Ferrotype.Output

/-- What stands before the declarations: a preamble and the opening of a namespace, if there are. -/
def chunksBefore (options : RenderOptions) : List String :=
  (match options.preamble with
    | some text => [text ++ "\n"]
    | none => []) ++
  match options.namespaceName with
    | some name => ["export namespace " ++ name ++ " \x7b\n"]
    | none => []

/-- What stands behind the declarations. -/
def chunksBehind (options : RenderOptions) : List String :=
  match options.namespaceName with
  | some _ => [" \x7d\n"]
  | none => []

/-- The chunk of what stands under a name, or the value that is no declaration. -/
def Entry.chunk (options : RenderOptions) : Entry → Except Scalar String
  | declaration d => .ok (declarationText options d ++ "\n\n")
  | foreign value => .error value

/-- The chunks of a module, from the texts of its declarations. -/
def chunks (options : RenderOptions) (texts : List String) : List String :=
  chunksBefore options ++ texts.map (· ++ "\n\n") ++ chunksBehind options

theorem piecesBefore_eq (options : RenderOptions) :
    preamblePieces options ++ openingPieces options = chunksBefore options := by
  unfold preamblePieces openingPieces chunksBefore
  cases options.preamble <;> cases options.namespaceName <;> rfl

theorem closingPieces_eq (options : RenderOptions) :
    closingPieces options = chunksBehind options := by
  unfold closingPieces chunksBehind
  cases options.namespaceName <;> rfl

theorem Entry.piece_eq (options : RenderOptions) (e : Entry) :
    e.piece options = e.chunk options := by
  cases e <;> rfl

theorem pieces_eq (options : RenderOptions) (entries : List (String × Entry)) :
    pieces options entries =
      (chunksBefore options).map .ok ++
        (ordered options.sortAlphabetically Prod.fst entries).map (fun e => e.2.chunk options) ++
        (chunksBehind options).map .ok := by
  simp only [pieces, piecesBefore_eq, closingPieces_eq, Entry.piece_eq]

theorem moduleText_eq (options : RenderOptions) (schema : Schema) :
    moduleText options schema =
      String.join (chunks options
        ((ordered options.sortAlphabetically Prod.fst schema).map fun e =>
          declarationText options e.2)) := by
  rw [moduleText, piecesBefore_eq, closingPieces_eq, chunks, List.map_map]
  rfl

end Ferrotype.Output
