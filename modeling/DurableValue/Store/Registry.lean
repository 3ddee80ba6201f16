/-
  DurableValue.Store.Registry — the paths in use by the stores and cells of a process.

  An entry is a path taken step by step, so two spellings with the same steps are one entry. A guard stands for an
  entry; giving it up removes the entry, whoever made it.
-/
import DurableValue.Store.Error

namespace DurableValue.Store

structure Registry where
  active : List (List Path.Component) := []
  deriving DecidableEq, Repr, Inhabited

/-- Proof of having acquired a path, to be given up once. -/
structure Guard where
  path : Path
  deriving DecidableEq, Repr

namespace Registry

def isActive (r : Registry) (p : Path) : Bool := r.active.contains p.components

def acquire (r : Registry) (p : Path) : Except Error Guard × Registry :=
  if r.isActive p then (.error (.pathInUse p), r)
  else (.ok ⟨p⟩, { active := p.components :: r.active })

def release (r : Registry) (p : Path) : Registry := { active := r.active.filter (· != p.components) }

/-- Gives a guard up. -/
def drop (r : Registry) (g : Guard) : Registry := r.release g.path

end Registry

end DurableValue.Store
