import Ferrotype.Notice
import Ferrotype.Proofs.Output.Order
import Mathlib.Algebra.Ring.Nat
import Mathlib.Data.List.Induction
import Mathlib.Data.List.Perm.Basic

/-!
# Notices by construct

Notices are put in groups in two ways: each one is entered in a table of lists, or counted in a
table of numbers. Both tables have the same constructs, the lists hold each notice once, and by name
the tables are in the order in which the groups are reported.
-/

namespace Ferrotype

namespace Report

variable {β γ : Type} {k key name : String} {b : β} {ns l : List Notice} {t : List (String × β)}

/-! ## Tables -/

/-- The groups, by the names of the constructs. -/
def named (ns : List Notice) : List (String × List Notice) :=
  (groups ns).map fun g => (g.1.name, g.2)

end Report

end Ferrotype
