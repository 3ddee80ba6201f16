/-
  DurableValue.Proofs.Cell.Run — runs of a cell, one event at a time.

  Requests reach the worker in some order. Between two of them the receivers of the subscriptions may do what they
  like with their ends, and the disk may change by other hands: a fault is armed, another file comes and goes. What
  such a change may do is up to the statement about the run.
-/
import DurableValue.Proofs.Cell.Frame

namespace DurableValue.Cell

open Disk (FileSystem)

inductive Event (F V : Type) where
  | request (r : Request V)
  /-- The receivers take items, leave, or ask for a subscription. -/
  | receivers (f : List (Feed V) → List (Feed V))
  | outside (f : F → F)

namespace Session

variable {F H V : Type} [FileSystem F H]

def happen (e : Event F V) (c : Session F V) : List (Reply V) × Session F V :=
  match e with
  | .request r => c.serve [r]
  | .receivers f => ([], c.onWorker fun w => { w with feeds := f w.feeds })
  | .outside f => ([], { c with bench.disk := f c.bench.disk })

def run : List (Event F V) → Session F V → List (Reply V) × Session F V
  | [], c => ([], c)
  | e :: es, c =>
    let (as, c) := c.happen e
    let (bs, c) := run es c
    (as ++ bs, c)

theorem run_cons (e : Event F V) (es : List (Event F V)) (c : Session F V) :
    c.run (e :: es) = ((c.happen e).1 ++ ((c.happen e).2.run es).1, ((c.happen e).2.run es).2) := rfl

theorem run_append (c : Session F V) (xs ys : List (Event F V)) :
    (c.run (xs ++ ys)).2 = ((c.run xs).2.run ys).2 := by
  induction xs generalizing c with
  | nil => rfl
  | cons e xs ih => exact ih _

/-! ## Out of service -/

/-- A cell that is out of service answers nothing that would bring it back. -/
theorem not_inService_handle (r : Request V) {c : Session F V} (down : ¬ c.InService)
    (serving : c.worker.life = .serving) :
    ¬ (c.handle r).2.InService := by
  have final : ∃ t, c.worker.state = .final t :=
    Classical.byContradiction fun none => down ⟨serving, fun t ht => none ⟨t, ht⟩⟩
  obtain ⟨t, ht⟩ := final
  have refused : c.ensureReady = (.error (.final t), c) := by simp [ensureReady, ht]
  intro up
  refine up.2 t ?_
  have same : (c.handle r).2.core.state = c.core.state := by
    cases r with
    | update f isAwaited =>
      cases isAwaited <;> simp [handle, refused]
      rfl
    | read isAwaited => cases isAwaited <;> simp [handle, refused]
    | subscribe i => simp only [handle, refused]; split <;> rfl
    | close => simp [handle]
  exact same.trans ht

theorem inService_happen {e : Event F V} {c : Session F V} (up : (c.happen e).2.InService) : c.InService := by
  refine Classical.byContradiction fun down => ?_
  cases e with
  | request r =>
    simp only [happen, serve] at up
    cases life : c.worker.life <;> simp only [life] at up
    · exact not_inService_handle r down life up
    · have := (congrArg Core.life (core_refuse c r)).symm.trans up.1
      cases life.symm.trans this
    · have := (congrArg Core.life (core_forsake c r)).symm.trans up.1
      cases life.symm.trans this
  | receivers f => exact down up
  | outside f => exact down up

theorem inService_run {es : List (Event F V)} {c : Session F V} (up : (c.run es).2.InService) : c.InService := by
  induction es generalizing c with
  | nil => exact up
  | cons e es ih => exact inService_happen (ih up)

/-- A cell in service takes its next request. -/
theorem happen_request {r : Request V} {c : Session F V} (up : c.InService) :
    c.happen (.request r) = ([(c.handle r).1], (c.handle r).2) := by
  simp [happen, serve, up.1]

end Session

variable {F H V : Type} [FileSystem F H]

def newCell (s : Setup V) (p : Path) (b : Bench F) : Option (Session F V) :=
  match build s (some (.path p)) true b with
  | (.ok w, b) => some ⟨w, b⟩
  | (.error _, _) => none

theorem build_of_newCell {s : Setup V} {p : Path} {b : Bench F} {c : Session F V}
    (h : newCell s p b = some c) :
    build s (some (.path p)) true b = (.ok c.worker, c.bench) := by
  unfold newCell at h
  split at h
  · rename_i built
    cases h
    exact built
  · cases h

def switch : Setup Bool where
  codec := { default := false, decode := fun bs => .ok (bs = [1]), encode := fun v => .ok [if v then 1 else 0] }
  same x y := decide (x = y)
  marks := default

def switchStore (p : Path) : Store.Atomic := ⟨p, p.withSuffix Store.defaultSuffix, true⟩

theorem new_switchStore {p : Path} (accepted : (Store.checkPath p).isOk = true) :
    Store.Atomic.new p switch.config.storeOptions = .ok (switchStore p) := by
  unfold Store.Atomic.new
  cases h : Store.checkPath p with
  | error e => rw [h] at accepted; cases accepted
  | ok _ => rfl

end DurableValue.Cell
