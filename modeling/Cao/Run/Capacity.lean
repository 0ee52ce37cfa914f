import Cao.Archive.Preflight

/-!
# Capacity demands

What a Capacity Check is asked for (`run/capacity.rs`): each Mod Root's estimated bytes.
-/

namespace Cao

/-- `Demand`: each root once, in the order of first addition, with its summed estimate. -/
structure Demand where
  roots : List (Path × Nat)
  total : Nat
  deriving DecidableEq, Repr

namespace Demand

/-- `CapacityCheck::demand`. -/
def empty : Demand := ⟨[], 0⟩

/-- The estimates by root, once some bytes were added. -/
def addTo (root : Path) (bytes : Nat) : List (Path × Nat) → List (Path × Nat)
  | [] => [(root, bytes)]
  | (added, demand) :: roots =>
    if added = root then (added, saturatingAdd demand bytes) :: roots else (added, demand) :: addTo root bytes roots

/-- `Demand::add`. -/
def add (demand : Demand) (root : Path) (bytes : Nat) : Demand :=
  ⟨addTo root bytes demand.roots, saturatingAdd demand.total bytes⟩

end Demand

end Cao
