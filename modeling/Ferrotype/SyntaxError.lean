import Ferrotype.Token.Lexeme
import Ferrotype.Grammar.Fault

/-! # Errors in the source -/

namespace Ferrotype

inductive SyntaxCause where
  | lexical (fault : LexFault)
  | grammar (fault : GrammarFault)
  | escape (fault : EscapeFault)
  | integer (text : String)
  deriving Repr, DecidableEq

namespace SyntaxCause

def message : SyntaxCause → String
  | lexical fault => fault.message
  | grammar fault => fault.message
  | escape fault => fault.message
  | integer text => "invalid integer literal: " ++ text

end SyntaxCause

/-- A fault of the source, with its place where one is known. -/
structure SyntaxError where
  cause : SyntaxCause
  place : Option Position
  deriving Repr, DecidableEq

namespace SyntaxError

def message (e : SyntaxError) : String :=
  match e.place with
  | some p =>
    e.cause.message ++ " at line " ++ toString p.line ++ ", column " ++ toString p.column
  | none => e.cause.message

/-- Every fault of the grammar has a place: its token's, or the end of the text. -/
def ofGrammar (finish : Position) (fault : GrammarFault) : SyntaxError :=
  ⟨.grammar fault, some (fault.token?.elim finish Token.place)⟩

end SyntaxError

def cookStringAt (text : String) (place : Option Position) : Except SyntaxError String :=
  (cookString text).mapError fun fault => ⟨.escape fault, place⟩

end Ferrotype
