import Ferrotype.Options.Document
import Ferrotype.Output.Module

/-!
# Modules of a configuration

The preamble and the namespace of a configuration may have halves of characters in them. They stand
in the module as they are, and only an encoder refuses them.
-/

namespace Ferrotype.Output

/-- The module of a configuration: the declarations between what it puts around them. -/
def moduleOf (settings : RenderSettings) (schema : Schema) : JsonText :=
  let options : RenderOptions := ⟨none, none, settings.sumTypes, settings.sortAlphabetically⟩
  .join <|
    settings.preamble.toList.flatMap (fun text => [text, .ofString "\n"]) ++
      settings.namespaceName.toList.flatMap
        (fun name => [.ofString "export namespace ", name, .ofString " \x7b\n"]) ++
      [.ofString (moduleText options schema)] ++
      settings.namespaceName.toList.map fun _ => .ofString " \x7d\n"

end Ferrotype.Output
