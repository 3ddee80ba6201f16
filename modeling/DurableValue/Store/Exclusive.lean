/-
  DurableValue.Store.Exclusive — a store that nobody else in the process can open on the same file while its guard is
  held.
-/
import DurableValue.Store.Atomic
import DurableValue.Store.Registry

namespace DurableValue.Store

structure Exclusive where
  store : Atomic
  guard : Guard
  deriving DecidableEq, Repr

/-- Registers the canonical key of the path and opens a store there. A refusal leaves the registry as it was. -/
def openExclusive {F H : Type} [Disk.FileSystem F H] (disk : F) (r : Registry) (p : Path) (o : Options) :
    Except Error Exclusive × Registry :=
  match Atomic.new p o with
  | .error e => (.error e, r)
  | .ok store =>
    match r.acquire (Disk.FileSystem.canonicalKey disk p) with
    | (.error e, r) => (.error e, r)
    | (.ok guard, r) => (.ok ⟨store, guard⟩, r)

end DurableValue.Store
