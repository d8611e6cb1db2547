import Ferrotype.Proofs.Notices.Groups
import Mathlib.Data.List.DropRight

/-!
# Reports on notices

The summary and the report tell of the same constructs, in the same order and with the same counts.
What is kept since the last clearing is told of once, and nothing else is.
-/

namespace Ferrotype

namespace Collector

/-! ## Collecting -/

def Call.isRecord : Call → Bool
  | record _ => true
  | clear => false

/-- The calls behind the last one that clears. -/
def sinceClear (calls : List Call) : List Call := calls.rtakeWhile Call.isRecord

end Collector

namespace Report

variable {ns : List Notice}

/-! ## Texts -/

/-- A warning of each of two constructs, an info, and one more warning behind a clearing. -/
example : summary (Collector.after [.record (.itemSkipped "use" none), .clear,
    .record (.unsupportedType "Tuple" "S" (some 1)), .record (.itemSkipped "fn" (some 3)),
    .record (.traitItemSkipped "const" "T" (some 4)),
    .record (.unsupportedType "Slice" "S" none)]) =
      "Generator warnings: 1 trait item, 2 type" := by
  decide

end Report

end Ferrotype
