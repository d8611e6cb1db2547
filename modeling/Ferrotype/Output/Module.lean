import Ferrotype.Output.Declaration
import Ferrotype.Schema.Type

/-!
# Modules

A module is written in pieces: the preamble, the opening of the namespace, each declaration,
and the closing of the namespace. A writer may refuse a piece, and then gets no more.
-/

namespace Ferrotype.Output

/-! ## Pieces -/

/-- What may stand under a name: a declaration, or a value that is none. -/
inductive Entry where
  | declaration (d : Declaration)
  | foreign (value : Scalar)
  deriving Repr, DecidableEq

def preamblePieces (options : RenderOptions) : List String :=
  options.preamble.toList.map (· ++ "\n")

def openingPieces (options : RenderOptions) : List String :=
  options.namespaceName.toList.map fun name => "export namespace " ++ name ++ " \x7b\n"

def closingPieces (options : RenderOptions) : List String :=
  options.namespaceName.toList.map fun _ => " \x7d\n"

def declarationPiece (options : RenderOptions) (d : Declaration) : String :=
  declarationText options d ++ "\n\n"

def Entry.piece (options : RenderOptions) : Entry → Except Scalar String
  | declaration d => .ok (declarationPiece options d)
  | foreign value => .error value

/-- The pieces of a module; where a value is no declaration, the value. -/
def pieces (options : RenderOptions) (entries : List (String × Entry)) :
    List (Except Scalar String) :=
  (preamblePieces options ++ openingPieces options).map .ok ++
    (ordered options.sortAlphabetically Prod.fst entries).map (fun e => e.2.piece options) ++
    (closingPieces options).map .ok

def moduleText (options : RenderOptions) (schema : Schema) : String :=
  String.join <|
    preamblePieces options ++ openingPieces options ++
      (ordered options.sortAlphabetically Prod.fst schema).map
        (fun e => declarationPiece options e.2) ++
      closingPieces options

/-! ## Writing -/

inductive WriteStop where
  | refused
  | foreign (value : Scalar)
  deriving Repr, DecidableEq

/-- What a writer took, and why it took no more. -/
structure Delivery where
  accepted : List String
  stop : Option WriteStop
  deriving Repr, DecidableEq

/-- Writes pieces to a writer that takes a number of them, or any number. -/
def deliver (limit : Option Nat) : List (Except Scalar String) → Delivery
  | [] => ⟨[], none⟩
  | .error value :: _ => ⟨[], some (.foreign value)⟩
  | .ok piece :: pieces =>
    if limit = some 0 then ⟨[], some .refused⟩
    else
      let rest := deliver (limit.map (· - 1)) pieces
      ⟨piece :: rest.accepted, rest.stop⟩

end Ferrotype.Output
