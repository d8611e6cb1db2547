import Ferrotype.Token.Basic
import Ferrotype.Token.Literal

/-! # Why a list of tokens is refused -/

namespace Ferrotype

def showToken : Option Token → String
  | some t => "'" ++ t.text ++ "'"
  | none => "end of file"

inductive Expectation where
  | token (kind : Kind)
  | finish
  | path
  | item
  | macroBody
  | macroArguments
  | moduleBody
  | structBody
  | parameterEnd
  | argumentEnd
  | traitMember
  | pointerKind
  | type
  | pathWord
  | member
  | expression
  deriving Repr, DecidableEq

namespace Expectation

def text : Expectation → String
  | token kind => kind.name
  | finish => "EOF"
  | path => "path"
  | item => "item"
  | macroBody => "macro body"
  | macroArguments => "macro arguments"
  | moduleBody => "'\x7b' or ';' after module name"
  | structBody => "'\x7b', '(' or ';' after struct name"
  | parameterEnd => "',' or '>' in generic parameters"
  | argumentEnd => "',' or '>' in generic arguments"
  | traitMember => "trait item"
  | pointerKind => "'mut' or 'const' in raw pointer type"
  | type => "type"
  | pathWord => "identifier in path"
  | member => "field name after '.'"
  | expression => "expression"

end Expectation

/--
Where a place is `none`, it is the end of the file. `endless` is no fault of the tokens: it stands
for a repetition or a recursion that would go on for ever without reading, and no rule has any.
-/
inductive GrammarFault where
  | expected (what : Expectation) (found : Option Token) (note : String)
  | unexpectedCloser (closer : Token)
  | unexpectedFinish
  | unclosed (opener : Token)
  | mismatched (opener closer : Token)
  | finishInParameters
  | badString (cause : EscapeFault) (literal : Token)
  | endless
  deriving Repr, DecidableEq

namespace GrammarFault

def message : GrammarFault → String
  | expected what found note =>
    "expected " ++ what.text ++ ", found " ++ showToken found ++
      if note.isEmpty then "" else ": " ++ note
  | unexpectedCloser closer => "unexpected closing delimiter " ++ showToken closer
  | unexpectedFinish => "unexpected end of file"
  | unclosed opener => "unclosed delimiter '" ++ opener.text ++ "'"
  | mismatched opener closer =>
    "mismatched closing delimiter " ++ showToken closer ++ " for '" ++ opener.text ++
      "' opened at line " ++ toString opener.place.line
  | finishInParameters => "unexpected end of file in generic parameters"
  | badString cause _ => cause.message
  | endless => "endless rule"

/-- The token at fault, or `none` for the end of the file. -/
def token? : GrammarFault → Option Token
  | expected _ found _ => found
  | unexpectedCloser closer => closer
  | unexpectedFinish => none
  | unclosed opener => opener
  | mismatched _ closer => closer
  | finishInParameters => none
  | badString _ literal => literal
  | endless => none

end GrammarFault

end Ferrotype
