import Baley.Ledger.Effects

/-!
# What lasts

Whatever recording any event keeps, every call of the port keeps.  A request that has a document has
one from then on.
-/

namespace Baley

open Json Ledger

namespace RequestProjector

end RequestProjector

namespace Ledger

section Keeps

variable {port : Port} {kept : Ledger → Prop}
  (step : ∀ ledger event after, ledger.append port.allProjectors event = .ok after →
    kept ledger → kept after)

include step

end Keeps

end Ledger

end Baley
