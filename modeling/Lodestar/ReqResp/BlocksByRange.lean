import Lodestar.Chain.ArchiveBlocks

/-!
# BeaconBlocksByRange

`handlers/beaconBlocksByRange.ts`. The blocks up to the last finalized one come
from the archive by slot, the later ones from the hot database by the roots the
fork choice has above its head.
-/

namespace Lodestar.ReqResp

open Lodestar.Base Lodestar.Chain Lodestar.ForkChoice

structure BeaconBlocksByRangeRequest where
  startSlot : Nat
  count : Nat
  step : Nat

/-- `getHeadRoot`; the constructor has set the head. -/
def getHeadRoot (forkChoice : ForkChoice) : RootHex :=
  (forkChoice.head.map (·.blockRoot)).getD HEX_ZERO_HASH

end Lodestar.ReqResp
