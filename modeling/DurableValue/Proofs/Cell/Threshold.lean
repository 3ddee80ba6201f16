/-
  DurableValue.Proofs.Cell.Threshold — cells under a higher threshold of the journal.

  A journal that was raised to a threshold holds, of its lines, those that are at or above it (`Journal.raised`). A
  cell does nothing to its journal but to add lines, whatever it finds in it. So raising commutes with every operation
  of a cell; there is one equation for each.

  Proved:
  - `Journal.add_raised`: it makes no difference whether a journal is raised before a line is added or after.
  - `Task.indifferent_firstValue`: the same for the work on a job.
  - `Session.handle_raised`, `Session.submit_raised`: the same for a request, and for a queue of them.
-/
import DurableValue.Cell.Building
import DurableValue.Proofs.Cell.Matched

namespace DurableValue

open Disk (FileSystem)

namespace Journal

/-- The journal as it were if its threshold had been `t` at least from the start. -/
def raised (t : Severity) (j : Journal) : Journal where
  least := if j.least ≤ t then t else j.least
  noted := j.noted.filter fun l => t ≤ l.severity

variable (t : Severity) (j : Journal)

theorem keeps_raised (s : Severity) : (j.raised t).keeps s = (j.keeps s && decide (t ≤ s)) := by
  have order : j.least ≤ t ∨ t ≤ j.least := Nat.le_total _ _
  have trans {a b c : Severity} (h : a ≤ b) (h' : b ≤ c) : a ≤ c := Nat.le_trans h h'
  simp only [keeps, raised, ← Bool.decide_and]
  split
  · rename_i below
    exact decide_eq_decide.mpr ⟨fun h => ⟨trans below h, h⟩, fun h => h.2⟩
  · rename_i above
    exact decide_eq_decide.mpr ⟨fun h => ⟨h, trans (order.resolve_left above) h⟩, fun h => h.1⟩

theorem add_raised (l : Line) : (j.raised t).add l = (j.add l).raised t := by
  simp only [add, keeps_raised]
  cases j.keeps l.severity with
  | false => rfl
  | true => by_cases high : t ≤ l.severity <;> simp [high, raised]

@[simp] theorem note_raised (s : Severity) (e : String) (fields : List Field) :
    (j.raised t).note s e fields = (j.note s e fields).raised t := add_raised t j _

theorem raised_blank {s t : Severity} (le : s ≤ t) : ({ least := s } : Journal).raised t = { least := t } :=
  congrArg (fun l => ({ least := l } : Journal)) (if_pos le)

/-- On each channel, what is left are the lines at or above the threshold, in the same order. -/
theorem linesOn_raised (c : Channel) :
    (j.raised t).linesOn c = (j.linesOn c).filter fun l => t ≤ l.severity := by
  simp only [linesOn, lines, raised, ← List.filter_reverse, List.filter_filter, Bool.and_comm]

end Journal

namespace Cell

variable {F H V α : Type} [FileSystem F H]

/-! ## Work -/

def Bench.raised (t : Journal.Severity) (b : Bench F) : Bench F :=
  { b with
    journal := b.journal.raised t
    moments := b.moments.map fun m => { m with journal := m.journal.raised t } }

def Job.raised (t : Journal.Severity) (i : Job F) : Job F := { i with bench := i.bench.raised t }

namespace Task

def Indifferent (work : Task F α) : Prop :=
  ∀ t i, work.run (i.raised t) = ((work.run i).1, (work.run i).2.raised t)

/-- All work on a store bears with raising. -/
theorem bears_raised (t : Journal.Severity) (codec : Codec V) (store : Store.Atomic) :
    Bears codec store (fun i j : Job F => j = i.raised t) fun i j => j = i.raised t where
  stop raised := raised
  line l raised := by simp only [raised, Job.raised, Bench.raised, Journal.add_raised]
  lineStopped l raised := by simp only [raised, Job.raised, Bench.raised, Journal.add_raised]
  record _ raised := by cases raised; rfl
  pass _ raised := by cases raised; rfl
  count _ raised := by cases raised; rfl
  encodes raised := by cases raised; exact ⟨rfl, rfl⟩
  decodes raised := by cases raised; exact ⟨rfl, rfl⟩
  read := by
    rintro i j rfl
    rw [run_readStore, run_readStore]
    exact ⟨rfl, rfl, fun _ _ => ⟨rfl, trivial⟩⟩
  replace := by
    rintro v bs - i j rfl
    have kept : ((replace store bs).run (i.raised t)).2 = ((replace store bs).run i).2.raised t := by
      simp [run_replace, Job.raised, Bench.raised]
    refine ⟨?_, kept, fun _ _ => ⟨kept, trivial⟩⟩
    rw [run_replace, run_replace]
    rfl

theorem Matched.indifferent {Q : α → Prop} {work : Task F α}
    (h : ∀ t, Matched (fun i j : Job F => j = i.raised t) (fun i j => j = i.raised t) Q work work) :
    Indifferent work := by
  intro t i
  have ends := h t i _ rfl
  exact Prod.ext ends.result.symm ends.stopped

theorem indifferent_writeValue (s : Setup V) (store : Store.Atomic) (v : V) :
    Indifferent (F := F) (writeValue s store v) :=
  Matched.indifferent fun t => matched_writeValue (bears_raised t s.codec store) v

theorem indifferent_firstValue (s : Setup V) (store : Store.Atomic) (label : String) :
    Indifferent (F := F) (firstValue s store label) :=
  Matched.indifferent fun t => matched_firstValue (bears_raised t s.codec store) label

end Task

/-! ## Operations -/

namespace Session

def raised (t : Journal.Severity) (c : Session F V) : Session F V := { c with bench := c.bench.raised t }

variable (t : Journal.Severity) (c : Session F V)

@[simp] theorem worker_raised : (c.raised t).worker = c.worker := rfl

@[simp] theorem onWorker_raised (f : Worker V → Worker V) : (c.raised t).onWorker f = (c.onWorker f).raised t := rfl

@[simp] theorem note_raised (s : Journal.Severity) (e : Journal.Event) (extra : List Journal.Field) :
    (c.raised t).note s e extra = (c.note s e extra).raised t := by
  simp only [note, raised, Bench.note, Bench.raised, Journal.note_raised]

@[simp] theorem call_raised (x : Call) : (c.raised t).call x = (c.call x).raised t := rfl

theorem perform_raised {work : Task F α} (indifferent : Task.Indifferent work) :
    (c.raised t).perform work = ((c.perform work).1, (c.perform work).2.raised t) := by
  have same : work.run ⟨(c.raised t).bench, (c.raised t).worker.tally⟩ = _ := indifferent t ⟨c.bench, c.worker.tally⟩
  simp only [perform, same]
  rfl

@[simp] theorem stopError_raised (work : String) (stop : Stop) :
    (c.raised t).stopError work stop = c.stopError work stop := by
  cases stop <;> rfl

@[simp] theorem checkAttached_raised : (c.raised t).checkAttached = c.checkAttached.raised t := by
  simp only [checkAttached, worker_raised, onWorker_raised, note_raised]
  split
  · rfl
  · split <;> rfl

@[simp] theorem publish_raised (v : V) : (c.raised t).publish v = (c.publish v).raised t := by
  simp only [publish, onWorker_raised, checkAttached_raised]

@[simp] theorem attach_raised (v : V) (i : Nat) : (c.raised t).attach v i = (c.attach v i).raised t := by
  simp only [attach, onWorker_raised, checkAttached_raised]

@[simp] theorem turnAway_raised (i : Nat) (e : Error) : (c.raised t).turnAway i e = (c.turnAway i e).raised t := rfl

@[simp] theorem letGo_raised (i : Nat) : (c.raised t).letGo i = (c.letGo i).raised t := rfl

@[simp] theorem enterFinal_raised (cause : Error) :
    (c.raised t).enterFinal cause = ((c.enterFinal cause).1, (c.enterFinal cause).2.raised t) := by
  simp only [enterFinal, note_raised, onWorker_raised]

@[simp] theorem shutDown_raised : (c.raised t).shutDown = c.shutDown.raised t := by
  have released (c : Session F V) : (c.raised t).releasePath = c.releasePath.raised t := rfl
  simp only [shutDown, onWorker_raised, released, note_raised]

theorem resolve_raised : (c.raised t).resolve = (c.resolve.1, c.resolve.2.raised t) := by
  simp only [resolve, worker_raised]
  split
  · rfl
  · rfl
  · rfl
  · rename_i p deferred
    have opened : Store.openExclusive ((c.raised t).bench.record (.produce (.gives p))).disk
        ((c.raised t).bench.record (.produce (.gives p))).registry p c.worker.setup.config.storeOptions =
      Store.openExclusive (c.bench.record (.produce (.gives p))).disk
        (c.bench.record (.produce (.gives p))).registry p c.worker.setup.config.storeOptions := rfl
    rw [opened]
    split <;> rfl

theorem ensureReady_raised : (c.raised t).ensureReady = (c.ensureReady.1, c.ensureReady.2.raised t) := by
  simp only [ensureReady, worker_raised, onWorker_raised, resolve_raised]
  split
  · rfl
  · rfl
  · rcases (c.onWorker (·.reveal .initializing)).resolve with ⟨store | e | _, c₁⟩
    · simp only [worker_raised, perform_raised _ _ (Task.indifferent_firstValue _ _ _)]
      rcases c₁.perform (Task.firstValue c₁.worker.setup store c₁.worker.label) with ⟨stop | v, c₂⟩
      · simp only [enterFinal_raised, stopError_raised]
      · rfl
    · simp only [enterFinal_raised]
    · rfl

theorem commit_raised (v : V) (n : Nat) :
    (c.raised t).commit v n = ((c.commit v n).1, (c.commit v n).2.raised t) := by
  simp only [commit, worker_raised]
  split
  · rename_i e target
    simp only [perform_raised _ _ (Task.indifferent_writeValue _ _ _)]
    rcases c.perform (Task.writeValue c.worker.setup e.store v) with ⟨stop | size, c₁⟩
    · simp only [enterFinal_raised, stopError_raised]
    · simp only [note_raised, onWorker_raised, publish_raised]
  · simp only [enterFinal_raised]

theorem update_raised (transform : V → Outcome V) :
    (c.raised t).update transform = ((c.update transform).1, (c.update transform).2.raised t) := by
  simp only [update, worker_raised, call_raised, onWorker_raised, note_raised, commit_raised]
  cases c.worker.state with
  | uninitialized => rfl
  | final terminal => rfl
  | ready v n =>
    cases result : (transform v).result with
    | error reason => simp only [result]
    | ok next =>
      simp only [result]
      split <;> rfl

@[simp] theorem read_raised : (c.raised t).read = c.read := rfl

/-! ## Requests -/

theorem handle_raised (r : Request V) : (c.raised t).handle r = ((c.handle r).1, (c.handle r).2.raised t) := by
  cases r with
  | update transform isAwaited =>
    cases isAwaited with
    | false => simp only [handle, onWorker_raised, note_raised]
    | true =>
      simp only [handle, ensureReady_raised]
      rcases c.ensureReady with ⟨halt | ⟨⟩, c₁⟩
      · rfl
      · simp only [update_raised]
  | read isAwaited =>
    cases isAwaited with
    | false => rfl
    | true =>
      simp only [handle, ensureReady_raised]
      rcases c.ensureReady with ⟨halt | ⟨⟩, c₁⟩ <;> rfl
  | subscribe i =>
    simp only [handle, worker_raised, ensureReady_raised]
    split
    · rcases c.ensureReady with ⟨(terminal | _) | ⟨⟩, c₁⟩
      · rfl
      · rfl
      · simp only [worker_raised, attach_raised, letGo_raised]
        split <;> rfl
    · rfl
  | close => simp only [handle, shutDown_raised]

theorem refuse_raised (r : Request V) : (c.raised t).refuse r = ((c.refuse r).1, (c.refuse r).2.raised t) := by
  unfold refuse
  split <;> rfl

theorem forsake_raised (r : Request V) : (c.raised t).forsake r = ((c.forsake r).1, (c.forsake r).2.raised t) := by
  unfold forsake
  split
  · rfl
  · exact refuse_raised t c _

theorem serve_raised (rs : List (Request V)) :
    (c.raised t).serve rs = ((c.serve rs).1, (c.serve rs).2.raised t) := by
  induction rs generalizing c with
  | nil => rfl
  | cons r rs ih =>
    simp only [serve, worker_raised, handle_raised, refuse_raised, forsake_raised]
    cases c.worker.life <;> simp only [ih]

theorem refuseAll_raised (rs : List (Request V)) :
    (c.raised t).refuseAll rs = ((c.refuseAll rs).1, (c.refuseAll rs).2.raised t) := by
  induction rs generalizing c with
  | nil => rfl
  | cons r rs ih => simp only [refuseAll, refuse_raised, ih]

/-- Requests are served the same under a higher threshold. -/
theorem submit_raised (rs : List (Request V)) :
    (c.raised t).submit rs = ((c.submit rs).1, (c.submit rs).2.raised t) := by
  simp only [submit, worker_raised]
  split
  · exact refuseAll_raised t c rs
  · exact serve_raised t c rs

end Session

/-! ## Building -/

/-- A cell is built the same under a higher threshold. -/
theorem build_raised (t : Journal.Severity) (s : Setup V) (location : Option Location) (hasRuntime : Bool) (b : Bench F) :
    build s location hasRuntime (b.raised t) =
      ((build s location hasRuntime b).1, (build s location hasRuntime b).2.raised t) := by
  have claims (l : Location) : claim s l (b.raised t) = ((claim s l b).1, (claim s l b).2.raised t) := by
    cases l <;> rfl
  unfold build
  split
  · rfl
  · split
    · rfl
    · rfl
    · rename_i l valid
      rw [claims l]
      rcases claim s l b with ⟨e | ⟨target, label⟩, b₁⟩
      · rfl
      · simp only [Bench.raised, Journal.event, Journal.note_raised]

end Cell

end DurableValue
