/-
  DurableValue.Proofs.Cell.Unread — what a cell writes down and never reads.

  The *plain* of a session is the session without its journal, without its counts, without the calls of transforms and
  without its subscriptions. No work of a cell reads anything that the plain leaves out: on two jobs with the same
  plain it ends the same way and leaves the same plain (`Task.Blind`). The lemmas about the operations say what each
  does to the plain, in terms of the plain alone.
-/
import DurableValue.Proofs.Cell.Matched
import DurableValue.Proofs.Cell.Steps

namespace DurableValue.Cell

open Disk (FileSystem)

variable {F H V : Type} [FileSystem F H]

/-! ## The plain -/

def Call.isTransform : Call → Bool
  | transform => true
  | _ => false

/-- A bench without what was noted and without the calls of transforms. A crash point that was passed keeps its disk. -/
def Bench.plain (b : Bench F) : Bench F :=
  { b with
    journal := {}
    calls := b.calls.filter (!·.1.isTransform)
    moments := b.moments.map fun m => { m with journal := {} } }

def Job.plain (j : Job F) : Job F := ⟨j.bench.plain, { j.tally with counters := {} }⟩

def Session.plain (c : Session F V) : Session F V where
  worker := { c.worker with feeds := [], attached := [], isHigh := false, tally.counters := {} }
  bench := c.bench.plain

namespace Bench

omit [FileSystem F H] in
theorem plain_record (b : Bench F) (c : Call) :
    (b.record c).plain = if c.isTransform then b.plain else b.plain.record c := by
  cases c <;> rfl

end Bench

/-! ## Work -/

namespace Task

variable {α : Type}

def SamePlain (i j : Job F) : Prop := j.plain = i.plain

def Blind (t : Task F α) : Prop :=
  ∀ i j : Job F, SamePlain i j → (t.run j).1 = (t.run i).1 ∧ SamePlain (t.run i).2 (t.run j).2

theorem Matched.blind {Q : α → Prop} {t : Task F α} (h : Matched SamePlain SamePlain Q t t) : Blind t := by
  intro i j same
  have ends := h i j same
  exact ⟨ends.result.symm, ends.stopped⟩

/-- A step that does to the plain of a job what it does to the job. -/
theorem matched_of_plain {t : Task F α}
    (plain : ∀ j, (t.run j).1 = (t.run j.plain).1 ∧ (t.run j).2.plain = (t.run j.plain).2) :
    Matched SamePlain SamePlain (fun _ => True) t t := by
  intro i j same
  have kept : SamePlain (t.run i).2 (t.run j).2 := by
    unfold SamePlain
    rw [(plain i).2, (plain j).2, same]
  refine ⟨?_, kept, fun _ _ => ⟨kept, trivial⟩⟩
  rw [(plain i).1, (plain j).1, same]

theorem plain_replace (store : Store.Atomic) (bs : Bytes) (j : Job F) :
    ((replace store bs).run j).2.plain = ((replace store bs).run j.plain).2 := by
  rw [run_replace, run_replace]
  simp only [Job.plain, Bench.plain, List.map_append, List.map_reverse, List.map_map]
  rfl

theorem bears_samePlain (codec : Codec V) (store : Store.Atomic) :
    Bears codec store (SamePlain (F := F)) SamePlain where
  stop same := same
  line _ same := same
  lineStopped _ same := same
  record {i j} c same := by
    have bench : j.bench.plain = i.bench.plain := congrArg Job.bench same
    simp only [SamePlain, Job.plain, Bench.plain_record, bench, Job.mk.injEq, true_and]
    exact congrArg Job.tally same
  pass p same := by
    have passed := congrArg (fun k : Job F => { k with bench := k.bench.pass p }) same
    exact passed
  count _ same := same
  encodes same := by
    have counted := congrArg (fun k : Job F => { k with tally.encodes := k.tally.encodes + 1 }) same
    exact ⟨congrArg (·.tally.encodes) same.symm, counted⟩
  decodes same := by
    have counted := congrArg (fun k : Job F => { k with tally.decodes := k.tally.decodes + 1 }) same
    exact ⟨congrArg (·.tally.decodes) same.symm, counted⟩
  read := matched_of_plain fun j => by
    rw [run_readStore, run_readStore]
    exact ⟨rfl, rfl⟩
  replace _ := matched_of_plain fun j => by
    refine ⟨?_, plain_replace _ _ j⟩
    rw [run_replace, run_replace]
    rfl

theorem blind_writeValue (s : Setup V) (store : Store.Atomic) (v : V) : Blind (F := F) (writeValue s store v) :=
  (matched_writeValue (bears_samePlain s.codec store) v).blind

theorem blind_firstValue (s : Setup V) (store : Store.Atomic) (label : String) :
    Blind (F := F) (firstValue s store label) :=
  (matched_firstValue (bears_samePlain s.codec store) label).blind

end Task

/-! ## Operations -/

namespace Session

variable {c c' : Session F V}

/-- The gist keeps all that the plain does. -/
theorem plain_of_gist (h : c'.gist = c.gist) : c'.plain = c.plain := by
  have plains := congrArg plain h
  exact plains

variable (c)

theorem plain_call (x : Call) : (c.call x).plain = if x.isTransform then c.plain else c.plain.call x := by
  cases x <;> rfl

theorem plain_enterFinal (cause : Error) :
    (c.enterFinal cause).2.plain = c.plain.onWorker (·.enter (.final (.final cause))) :=
  congrArg plain (gist_enterFinal c cause)

theorem plain_shutDown : c.shutDown.plain =
    { worker := { c.plain.worker with
        target := .unavailable, life := .closed, shown := .closed :: c.plain.worker.shown }
      bench := { c.plain.bench with registry := c.plain.releasePath.bench.registry } } :=
  congrArg plain (gist_shutDown c)

/-- A store is resolved by the plain. -/
theorem plain_resolve : c.plain.resolve = (c.resolve.1, c.resolve.2.plain) := by
  have target : c.plain.worker.target = c.worker.target := rfl
  simp only [resolve, target]
  split
  · rfl
  · rfl
  · rfl
  · rename_i p deferred
    have opened : Store.openExclusive (c.plain.bench.record (.produce (.gives p))).disk
        (c.plain.bench.record (.produce (.gives p))).registry p c.plain.worker.setup.config.storeOptions =
      Store.openExclusive (c.bench.record (.produce (.gives p))).disk
        (c.bench.record (.produce (.gives p))).registry p c.worker.setup.config.storeOptions := rfl
    rw [opened]
    split <;> rfl

variable {c}

/-- Blind work comes to the same on two sessions with the same plain. -/
theorem plain_perform {α : Type} {t : Task F α} (blind : Task.Blind t) (same : c'.plain = c.plain) :
    (c'.perform t).1 = (c.perform t).1 ∧ (c'.perform t).2.plain = (c.perform t).2.plain := by
  have jobs := congrArg job same
  obtain ⟨result, job⟩ := blind c.job c'.job jobs
  refine ⟨result, ?_⟩
  have rebuilt (d : Session F V) : (d.perform t).2.plain =
      { worker := { d.plain.worker with tally := (t.run d.job).2.plain.tally }
        bench := (t.run d.job).2.plain.bench } := rfl
  rw [rebuilt, rebuilt, job, same]

end Session

end DurableValue.Cell
