/-
  DurableValue.Proofs.Cell.Task — how the pieces of work on a job run, one equation for each step that touches the
  job.
-/
import DurableValue.Cell.Opening

namespace DurableValue.Cell.Task

open Disk (FileSystem)

variable {F H V α β : Type} [FileSystem F H]

@[simp] theorem run_pure (a : α) (j : Job F) : (pure a : Task F α).run j = (.ok a, j) := rfl

@[simp] theorem run_throw (e : Stop) (j : Job F) : (throw e : Task F α).run j = (.error e, j) := rfl

@[simp] theorem run_fail (e : Error) (j : Job F) : (fail e : Task F α).run j = (.error (.failed e), j) := rfl

@[simp] theorem run_onBench (f : Bench F → Bench F) (j : Job F) :
    (onBench f).run j = (.ok (), { j with bench := f j.bench }) := rfl

@[simp] theorem run_count (f : Counters → Counters) (j : Job F) :
    (count f : Task F Unit).run j = (.ok (), { j with tally := { j.tally with counters := f j.tally.counters } }) :=
  rfl

@[simp] theorem run_get (j : Job F) : (get : Task F (Job F)).run j = (.ok j, j) := rfl

@[simp] theorem run_set (j j' : Job F) : (set j' : Task F PUnit).run j = (.ok ⟨⟩, j') := rfl

@[simp] theorem run_modify (f : Job F → Job F) (j : Job F) : (modify f : Task F PUnit).run j = (.ok ⟨⟩, f j) := rfl

/-- Work goes on after a step that returned, and ends with one that stopped. -/
theorem run_bind (t : Task F α) (f : α → Task F β) (j : Job F) :
    (t >>= f).run j =
      match t.run j with
      | (.ok a, j) => (f a).run j
      | (.error e, j) => (.error e, j) := by
  change ExceptT.bindCont f (t.run j).1 (t.run j).2 = _
  rcases t.run j with ⟨e | a, j'⟩ <;> rfl

/-- A replacement reports how the store's write ended, and leaves its disk. -/
theorem run_replace (store : Store.Atomic) (bs : Bytes) (j : Job F) :
    (replace store bs).run j =
      ((store.write bs j.bench.disk).1.mapError fun e => .failed (.ofStore e),
        { j with bench := { j.bench with
            disk := (store.write bs j.bench.disk).2
            moments := ((store.crashPoints bs j.bench.disk).map fun m => ⟨m.1, m.2, j.bench.journal⟩).reverse
              ++ j.bench.moments
            commits := ⟨store, bs, j.bench.disk⟩ :: j.bench.commits } }) := by
  rcases h : store.write bs j.bench.disk with ⟨e | ⟨⟩, disk⟩ <;> simp only [replace, run_bind, run_get, h] <;> rfl

theorem run_readStore (store : Store.Atomic) (j : Job F) :
    (readStore store).run j =
      ((store.read j.bench.disk).1.mapError fun e => .failed (.ofStore e),
        { j with bench.disk := (store.read j.bench.disk).2 }) := by
  rcases h : store.read j.bench.disk with ⟨e | found, disk⟩ <;> simp only [readStore, run_bind, run_get, h] <;> rfl

/-- The scope around an initialization is noted in the journal, whatever becomes of the work inside. -/
theorem run_firstValue (s : Setup V) (store : Store.Atomic) (label : String) (j : Job F) :
    (firstValue s store label).run j =
      let start := { j with bench.journal := (scope s label).opening j.bench.journal }
      let (result, j) := (readInitial s store label >>= applyMigrations s store label).run start
      (result, { j with bench.journal := (scope s label).close s.marks.elapsed (ending result) j.bench.journal }) := rfl

def encoded (s : Setup V) (call : Nat) (v : V) : Except Stop Bytes :=
  match s.encodeMishap call with
  | some (.fails e) => .error (.failed (.codecFailed e))
  | some (.panics m) => .error (.broke m)
  | none => (s.codec.encode v).mapError fun e => .failed (.codecFailed e)

theorem encoded_ok {s : Setup V} {call : Nat} {v : V} {bs : Bytes} (h : encoded s call v = .ok bs) :
    s.codec.encode v = .ok bs := by
  unfold encoded at h
  split at h
  · cases h
  · cases h
  · cases e : s.codec.encode v <;> rw [e] at h <;> cases h
    rfl

theorem run_encode (s : Setup V) (v : V) (j : Job F) :
    (encode s v).run j = (encoded s j.tally.encodes v, { j with tally.encodes := j.tally.encodes + 1 }) := by
  simp only [encode, run_bind, run_get, run_modify, encoded]
  rcases s.encodeMishap j.tally.encodes with _ | ⟨e⟩ | ⟨m⟩
  · cases h : s.codec.encode v <;> rfl
  · rfl
  · rfl

def made (s : Setup V) : Except Stop V :=
  match s.defaultPanic with
  | none => .ok s.codec.default
  | some m => .error (.broke m)

theorem run_makeDefault (s : Setup V) (j : Job F) : (makeDefault s).run j = (made s, j) := by
  unfold makeDefault made
  cases s.defaultPanic <;> rfl

/-- A commit that returns has put the value's encoding out. -/
theorem writeValue_ok {s : Setup V} {store : Store.Atomic} {v : V} {j j' : Job F} {n : Nat}
    (h : (writeValue s store v).run j = (.ok n, j')) :
    ∃ bs, s.codec.encode v = .ok bs ∧ store.write bs j.bench.disk = (.ok (), j'.bench.disk) ∧
      j'.bench.commits = ⟨store, bs, j.bench.disk⟩ :: j.bench.commits ∧ j'.bench.registry = j.bench.registry := by
  simp only [writeValue, run_bind, run_encode] at h
  rcases he : encoded s j.tally.encodes v with e | bs <;> rw [he] at h
  · cases h
  · refine ⟨bs, encoded_ok he, ?_⟩
    simp only [run_replace, run_count, run_pure] at h
    rcases hw : store.write bs j.bench.disk with ⟨e | ⟨⟩, disk⟩ <;> rw [hw] at h <;> cases h
    exact ⟨rfl, rfl, rfl⟩

end DurableValue.Cell.Task
