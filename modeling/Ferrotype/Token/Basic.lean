import Ferrotype.Position
import Ferrotype.Token.Keyword
import Ferrotype.Token.Punct

/-! # Tokens -/

namespace Ferrotype

/-- A doc comment documents what follows it, or what it stands in. -/
inductive DocStyle where
  | outer | inner
  deriving Repr, DecidableEq

inductive Kind where
  | keyword (k : Keyword)
  | punct (p : Punct)
  | underscore
  | opener (d : Delim)
  | closer (d : Delim)
  | int | float | string | byteString | char | byte
  | lifetime
  | identifier
  | doc (style : DocStyle)
  deriving Repr, DecidableEq

namespace Kind

def name : Kind → String
  | keyword k => k.name
  | punct p => p.name
  | underscore => "UNDERSCORE"
  | opener d => d.openName
  | closer d => d.closeName
  | int => "INTEGER"
  | float => "FLOAT"
  | string => "STRING_LITERAL"
  | byteString => "BYTE_STRING_LITERAL"
  | char => "CHAR_LITERAL"
  | byte => "BYTE_LITERAL"
  | lifetime => "LIFETIME"
  | identifier => "IDENTIFIER"
  | doc .outer => "DOC_COMMENT"
  | doc .inner => "INNER_DOC_COMMENT"

/-- Words that may be a segment of a path. -/
def isPathWord : Kind → Bool
  | identifier | keyword .selfValueKw | keyword .selfTypeKw | keyword .superKw
  | keyword .crateKw => true
  | _ => false

def isOpener : Kind → Bool
  | opener _ => true
  | _ => false

end Kind

/-- A token with its text and the place where its lexeme starts. -/
structure Token where
  kind : Kind
  text : String
  place : Position
  deriving Repr, DecidableEq

/--
The tokens of a text and the place behind its last character. The end of the file is not a
token, so a rule that looks past the last token sees nothing.
-/
structure Tokens where
  list : List Token
  finish : Position
  deriving Repr, DecidableEq

end Ferrotype
