import Ferrotype.Files.Tree
import Ferrotype.Json.Reader
import Ferrotype.Options.Document
import Ferrotype.Text.Lines
import Ferrotype.Text.Utf8

/-! # Options files -/

namespace Ferrotype

/-- The text of a file: strict UTF-8, every line break as `\n`. -/
def textOfBytes (bytes : List UInt8) : Except Text.Utf8Fault (List Char) :=
  (Text.decodeUtf8 bytes).map Text.normalizeNewlines

inductive OptionsFault where
  | unreadable (path : String) (fault : FileFault)
  | decoding (fault : Text.Utf8Fault)
  /-- The message names the place in the document. -/
  | notJson (path message : String)
  /-- An integer of more decimal digits than are read. -/
  | tooManyDigits (count : Nat)
  | document (fault : DocumentFault)
  deriving Repr, DecidableEq

def OptionsFault.message : OptionsFault → String
  | unreadable path fault => "cannot read options file " ++ path ++ ": " ++ fault.message
  | decoding fault => fault.message
  | notJson path message => "invalid JSON in options file " ++ path ++ ": " ++ message
  | tooManyDigits count => Text.tooManyDigits count
  | document fault => fault.message

/-- A fault in the text of an options file. -/
def OptionsFault.ofJson (path : String) (text : List Char) : JsonFault → OptionsFault
  | .malformed cause left => notJson path (cause.messageAt left text)
  | .tooManyDigits count => tooManyDigits count

def Configuration.load (files : Files) (path : String) : Except OptionsFault Configuration := do
  let bytes ← (files.read path).mapError (.unreadable path)
  let text ← (textOfBytes bytes).mapError .decoding
  let document ← (Json.document text).mapError (.ofJson path text)
  (ofDocument document).mapError .document

end Ferrotype
