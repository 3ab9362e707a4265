import Klite.Safety.NodeDrain
import Klite.Safety.Writers

/-!
# Uncordon against an older drain

A Drain stream asserts its phase again at every poll while instances remain on the node,
from whatever the record then says.
-/

namespace Klite
open Lib

section Order
variable {cfg : Config} {n : String} {s : Klited} {l : Step}

end Order

section Cordon
variable {cfg : Config} {g : Call} {h : Log} {w : World}

end Cordon

section Runs
variable {cfg : Config} {n : String} {s : Klited} {l : Step}

end Runs

section Examples

end Examples

end Klite
