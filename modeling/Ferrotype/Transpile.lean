import Ferrotype.Grammar.Cursor
import Ferrotype.Output.Module
import Ferrotype.Schema.Extract

/-! # From source text to output text -/

namespace Ferrotype

variable {options : ExtractOptions} {source : String} {file : SourceFile} {error : SyntaxError}

def parseSource (source : String) : Extraction SourceFile :=
  ExceptT.mk (pure ((SourceFile.ofText source).mapError .source))

def extract (options : ExtractOptions) (source : String) : Extraction Schema := do
  extractFile options (← parseSource source)

/-- Of a text that can be read, only the file counts. -/
theorem extract_of_file (h : SourceFile.ofText source = .ok file) :
    extract options source = extractFile options file := by
  have hp : parseSource source = pure file := by
    rw [parseSource, h]
    rfl
  rw [extract, hp, pure_bind]

/-- A text that cannot be read leaves no notices. -/
theorem extract_of_error (h : SourceFile.ofText source = .error error) :
    (extract options source).run = ⟨.error (.source error), []⟩ := by
  have hp : (parseSource source).run = ⟨.error (.source error), []⟩ := by
    rw [parseSource, h]
    rfl
  exact Extraction.run_bind_error hp _

def transpile (options : Options) (source : String) : Extraction String := do
  return Output.moduleText options.render (← extract options.extract source)

/-- Writes the output in one piece, once all of it is known. -/
def transpileTo (options : Options) (limit : Option Nat) (source : String) :
    Extraction Output.Delivery := do
  return Output.deliver limit [.ok (← transpile options source)]

end Ferrotype
