import Ferrotype.Command.Arguments
import Ferrotype.Proofs.Except

/-!
# Arguments that are accepted

Of two options that exclude each other, one is given at most. Without a request for help there is
an input.
-/

namespace Ferrotype.Command

variable {edition : Edition} {a a' : Arguments} {p p' : Progress} {flag : Flag}

/-- A preamble is given, or none is wanted, or neither. -/
def Arguments.Exclusive (a : Arguments) : Prop := a.noPreamble = true → a.preamble = none

/-! ## One option -/

end Ferrotype.Command
