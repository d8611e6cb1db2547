import Ferrotype.Output.Settings
import Ferrotype.Proofs.Except
import Ferrotype.Proofs.Output.Chunks

/-!
# Modules that can be written

Only a text is encoded, as itself. The module of a configuration is one exactly if the preamble and
the namespace are, and then it is the module of the options that have these texts.
-/

namespace Ferrotype

/-! ## Texts -/

namespace JsonText

variable {s : String} {t : JsonText} {ts : List JsonText}

end JsonText

namespace Output

variable {settings : RenderSettings} {schema : Schema} {options : RenderOptions} {text : String}

end Output

end Ferrotype
