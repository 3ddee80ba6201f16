/-
  DurableValue.Proofs.Cell.Migrations — a pass over the migrations of a cell.

  Each migration is asked whether it applies to the value so far and is run if it says so, until one fails (`trial`).
  Then the value is committed, once, if a migration ran and it is not the value that the pass started from; and only
  behind that the migrations that ran clean up. A pass ends in one of five ways (`Pass`): each says what was called,
  on which disk, what was committed and what was counted.

  Proved:
  - `trial_complete`: what a trial in which nothing failed has called.
  - `run_migrateEach`, `run_cleanUpEach`: the two loops over migrations.
  - `settled_commitChange`: the ways in which the commit between them ends.
  - `a_pass_commits_once_and_then_cleans_up`: how a pass ends, and what its clean-ups find in the file.
-/
import DurableValue.Proofs.Cell.Initialization

namespace DurableValue.Cell

open Disk (FileSystem)

variable {F H V : Type} [FileSystem F H]

/-! ## The trial of the migrations -/

/-- What a migration is called for at a value: whether it applies, and to migrate if it answered that. -/
def Migration.calls (m : Migration V) (i : Nat) (v : V) : List Call :=
  .applies i :: if (m.applies v).result.toOption = some true then [.migrate i] else []

inductive Migration.Turn (m : Migration V) (i : Nat) (v : V) : Prop
  | unasked {reason : String} (asked : (m.applies v).result = .error reason)
      (outcome : m.outcome v = .error reason) (calls : m.calls i v = [.applies i])
  | skipped (asked : (m.applies v).result = .ok false) (outcome : m.outcome v = .ok none)
      (calls : m.calls i v = [.applies i])
  | broken {reason : String} (asked : (m.applies v).result = .ok true) (made : (m.migrate v).result = .error reason)
      (outcome : m.outcome v = .error reason) (calls : m.calls i v = [.applies i, .migrate i])
  | ran {w : V} (asked : (m.applies v).result = .ok true) (made : (m.migrate v).result = .ok w)
      (outcome : m.outcome v = .ok (some w)) (calls : m.calls i v = [.applies i, .migrate i])

theorem Migration.turn (m : Migration V) (i : Nat) (v : V) : m.Turn i v := by
  cases asked : (m.applies v).result with
  | error reason => exact .unasked asked (by simp only [outcome, asked]) (by simp only [calls, asked]; rfl)
  | ok applies =>
    cases applies with
    | false => exact .skipped asked (by simp only [outcome, asked]) (by simp only [calls, asked]; rfl)
    | true =>
      have called : m.calls i v = [.applies i, .migrate i] := by simp only [calls, asked]; rfl
      cases made : (m.migrate v).result with
      | error reason => exact .broken asked made (by simp only [outcome, asked, made]; rfl) called
      | ok w => exact .ran asked made (by simp only [outcome, asked, made]; rfl) called

structure Trial (V : Type) where
  /-- Oldest first. -/
  calls : List Call
  /-- The migrations that ran, in their order. -/
  ran : List (Nat × Migration V)
  /-- The value that all of them made, or the failure that ended it. -/
  outcome : Except Error V

def Trial.behind (t : Trial V) (calls : List Call) (ran : List (Nat × Migration V)) : Trial V :=
  { t with calls := calls ++ t.calls, ran := ran ++ t.ran }

/-- The trial of migrations from a value: each goes by the value that those before it made, and the first failure ends
it. -/
def trial : List (Nat × Migration V) → V → Trial V
  | [], v => ⟨[], [], .ok v⟩
  | (i, m) :: ms, v =>
    match m.outcome v with
    | .error reason => ⟨m.calls i v, [], .error (.collaboratorFailed (Task.migrationName m) reason)⟩
    | .ok none => (trial ms v).behind (m.calls i v) []
    | .ok (some w) => (trial ms w).behind (m.calls i v) [(i, m)]

section

variable {m : Migration V} {i : Nat} {ms : List (Nat × Migration V)} {v w : V}

theorem trial_error {reason : String} (outcome : m.outcome v = .error reason) :
    trial ((i, m) :: ms) v = ⟨m.calls i v, [], .error (.collaboratorFailed (Task.migrationName m) reason)⟩ := by
  simp only [trial, outcome]

theorem trial_skipped (outcome : m.outcome v = .ok none) :
    trial ((i, m) :: ms) v = (trial ms v).behind (m.calls i v) [] := by
  simp only [trial, outcome]

theorem trial_ran (outcome : m.outcome v = .ok (some w)) :
    trial ((i, m) :: ms) v = (trial ms w).behind (m.calls i v) [(i, m)] := by
  simp only [trial, outcome]

/-- Only migrations that there are run, each once at most and in their order. -/
theorem ran_sublist (ms : List (Nat × Migration V)) (v : V) : (trial ms v).ran.Sublist ms := by
  induction ms generalizing v with
  | nil => exact List.Sublist.refl []
  | cons m ms ih =>
    obtain ⟨i, m⟩ := m
    cases m.turn i v with
    | unasked _ outcome _ => rw [trial_error outcome]; exact List.nil_sublist _
    | skipped _ outcome _ => rw [trial_skipped outcome]; exact (ih v).cons _
    | broken _ _ outcome _ => rw [trial_error outcome]; exact List.nil_sublist _
    | ran _ _ outcome _ => rw [trial_ran outcome]; exact (ih _).cons_cons _

/-- A trial comes to what its migrations make of the value, and a migration ran in it if any applied. -/
theorem migrated_iff {hasRun : Bool} :
    migrated (ms.map (·.2)) v = .ok (w, hasRun) ↔
      (trial ms v).outcome = .ok w ∧ hasRun = !(trial ms v).ran.isEmpty := by
  induction ms generalizing v w hasRun with
  | nil => simp [migrated, trial, eq_comm]
  | cons m ms ih =>
    obtain ⟨i, m⟩ := m
    rw [List.map_cons, migrated]
    cases m.turn i v with
    | unasked _ made _ => simp [made, trial_error made]
    | broken _ _ made _ => simp [made, trial_error made]
    | skipped _ made _ =>
      rw [made, trial_skipped made]
      exact ih
    | @ran x _ _ made _ =>
      rw [made, trial_ran made]
      change (migrated (ms.map (·.2)) x).map _ = _ ↔ _
      constructor
      · intro applied
        cases came : migrated (ms.map (·.2)) x with
        | error reason => rw [came] at applied; cases applied
        | ok r =>
          rw [came] at applied
          cases applied
          exact ⟨(ih.mp came).1, rfl⟩
      · rintro ⟨outcome, rfl⟩
        have rest : migrated (ms.map (·.2)) x = .ok (w, !(trial ms x).ran.isEmpty) := ih.mpr ⟨outcome, rfl⟩
        rw [rest]
        rfl

/-- A trial in which none ran leaves the value as it is. -/
theorem eq_of_none_ran (outcome : (trial ms v).outcome = .ok w) (none : (trial ms v).ran = []) : w = v :=
  migrated_unapplied (migrated_iff.mpr ⟨outcome, by rw [none]; rfl⟩)

def Call.isApplies : Call → Bool
  | .applies _ => true
  | _ => false

def Call.isMigrate : Call → Bool
  | .migrate _ => true
  | _ => false

theorem Migration.ne_cleanUp_of_mem_calls {c : Call} (called : c ∈ m.calls i v) (n : Nat) : c ≠ .cleanUp n := by
  cases m.turn i v with
  | unasked _ _ calls | skipped _ _ calls =>
    rw [calls, List.mem_singleton] at called
    rw [called]
    exact Call.noConfusion
  | broken _ _ _ calls | ran _ _ _ calls =>
    simp only [calls, List.mem_cons, List.not_mem_nil, or_false] at called
    rcases called with rfl | rfl <;> exact Call.noConfusion

/-- A trial cleans nothing up. -/
theorem ne_cleanUp_of_mem_trial {c : Call} (called : c ∈ (trial ms v).calls) (n : Nat) : c ≠ .cleanUp n := by
  induction ms generalizing v with
  | nil => cases called
  | cons m ms ih =>
    obtain ⟨i, m⟩ := m
    have here (called : c ∈ m.calls i v) : c ≠ .cleanUp n := Migration.ne_cleanUp_of_mem_calls called n
    cases m.turn i v with
    | unasked _ outcome _ | broken _ _ outcome _ =>
      rw [trial_error outcome] at called
      exact here called
    | skipped _ outcome _ =>
      rw [trial_skipped outcome] at called
      exact (List.mem_append.mp called).elim here ih
    | ran _ _ outcome _ =>
      rw [trial_ran outcome] at called
      exact (List.mem_append.mp called).elim here ih

/-- **A trial in which nothing failed has asked every migration, in order, and called those to migrate that ran.** -/
theorem trial_complete (outcome : (trial ms v).outcome = .ok w) :
    (trial ms v).calls.filter Call.isApplies = ms.map (fun m => .applies m.1) ∧
      (trial ms v).calls.filter Call.isMigrate = (trial ms v).ran.map fun m => .migrate m.1 := by
  induction ms generalizing v with
  | nil => exact ⟨rfl, rfl⟩
  | cons m ms ih =>
    obtain ⟨i, m⟩ := m
    cases m.turn i v with
    | unasked _ made _ => rw [trial_error made] at outcome; cases outcome
    | broken _ _ made _ => rw [trial_error made] at outcome; cases outcome
    | skipped _ made calls =>
      rw [trial_skipped made] at outcome ⊢
      obtain ⟨asked, migrated⟩ := ih outcome
      simp only [Trial.behind, calls, List.filter_append, asked, migrated]
      exact ⟨rfl, rfl⟩
    | ran _ _ made calls =>
      rw [trial_ran made] at outcome ⊢
      obtain ⟨asked, migrated⟩ := ih outcome
      simp only [Trial.behind, calls, List.filter_append, asked, migrated]
      exact ⟨rfl, rfl⟩

end

/-! ## The two loops -/

def Migration.cleanUpFailure? (m : Migration V) : Option Error :=
  match m.cleanUp.result with
  | .ok () => none
  | .error reason => some (.collaboratorFailed ("clean-up of " ++ Task.migrationName m) reason)

def firstFailure? (ran : List (Nat × Migration V)) : Option Error := ran.findSome? fun m => m.2.cleanUpFailure?

def cleanUpCalls (ran : List (Nat × Migration V)) : List Call := ran.map fun m => .cleanUp m.1

def logged (calls : List Call) (disk : F) : List (Call × F) := (calls.map fun c => (c, disk)).reverse

theorem logged_append (cs ds : List Call) (disk : F) : logged (cs ++ ds) disk = logged ds disk ++ logged cs disk := by
  rw [logged, List.map_append, List.reverse_append]
  rfl

namespace Task

theorem run_consult {α : Type} (c : Call) (collaborator : String) (o : Outcome α) (j : Job F) :
    (consult c collaborator o).run j =
      (o.result.mapError fun reason => .failed (.collaboratorFailed collaborator reason),
        { j with bench := j.bench.record c }) := by
  simp only [consult, run_bind, run_onBench]
  cases o.result <;> rfl

/-- **Running migrations is their trial**, and nothing but calls and lines in the journal. -/
theorem run_migrateEach (s : Setup V) (label : String) (ms : List (Nat × Migration V)) (v : V) (j : Job F) :
    ∃ journal : Journal, (migrateEach s label ms v).run j =
      (((trial ms v).outcome.mapError Stop.failed).map fun w => (w, (trial ms v).ran),
        { j with
          bench.calls := logged (trial ms v).calls j.bench.disk ++ j.bench.calls
          bench.journal := journal }) := by
  induction ms generalizing v j with
  | nil => exact ⟨j.bench.journal, rfl⟩
  | cons m ms ih =>
    obtain ⟨i, m⟩ := m
    unfold migrateEach
    cases m.turn i v with
    | unasked asked outcome calls =>
      rw [trial_error outcome, calls]
      refine ⟨j.bench.journal, ?_⟩
      simp only [run_bind, run_consult, asked]
      rfl
    | skipped asked outcome calls =>
      rw [trial_skipped outcome, calls]
      obtain ⟨journal, rest⟩ := ih v { j with bench := j.bench.record (.applies i) }
      refine ⟨journal, ?_⟩
      rw [run_bind, run_consult, asked]
      refine rest.trans ?_
      simp only [Trial.behind, logged_append, List.append_assoc]
      rfl
    | broken asked made outcome calls =>
      rw [trial_error outcome, calls]
      refine ⟨j.bench.journal, ?_⟩
      rw [run_bind, run_consult, asked]
      change (consult _ _ _ >>= _).run _ = _
      rw [run_bind, run_consult, made]
      rfl
    | @ran w asked made outcome calls =>
      rw [trial_ran outcome, calls]
      let noted := ((note s label .info .migrationApplied [("migration", m.name)]).run
        { j with bench := (j.bench.record (.applies i)).record (.migrate i) }).2
      obtain ⟨journal, rest⟩ := ih w noted
      refine ⟨journal, ?_⟩
      rw [run_bind, run_consult, asked]
      change (consult _ _ _ >>= _).run _ = _
      rw [run_bind, run_consult, made]
      change (migrateEach s label ms w >>= _).run noted = _
      rw [run_bind, rest]
      simp only [Trial.behind, logged_append, List.append_assoc]
      cases (trial ms w).outcome <;> rfl

/-- **Every migration that ran cleans up**, whatever the others came to. -/
theorem run_cleanUpEach (s : Setup V) (label : String) (ms : List (Nat × Migration V)) (first : Option Error)
    (j : Job F) : ∃ journal : Journal, (cleanUpEach s label ms first).run j =
      (.ok (first.or (firstFailure? ms)),
        { j with
          bench.calls := logged (cleanUpCalls ms) j.bench.disk ++ j.bench.calls
          bench.journal := journal }) := by
  induction ms generalizing first j with
  | nil =>
    refine ⟨j.bench.journal, ?_⟩
    have none : first.or (firstFailure? ([] : List (Nat × Migration V))) = first := Option.or_none
    rw [none]
    rfl
  | cons m ms ih =>
    obtain ⟨i, m⟩ := m
    have calls (disk : F) : logged (cleanUpCalls ((i, m) :: ms)) disk =
        logged (cleanUpCalls ms) disk ++ [(.cleanUp i, disk)] := logged_append [.cleanUp i] (cleanUpCalls ms) disk
    unfold cleanUpEach
    rw [run_bind, run_onBench, calls]
    cases cleaned : m.cleanUp.result with
    | ok done =>
      obtain ⟨journal, rest⟩ := ih first { j with bench := j.bench.record (.cleanUp i) }
      refine ⟨journal, rest.trans ?_⟩
      have none : firstFailure? ((i, m) :: ms) = firstFailure? ms := by
        simp only [firstFailure?, List.findSome?_cons, Migration.cleanUpFailure?, cleaned]
      rw [none, List.append_assoc]
      rfl
    | error reason =>
      let failure := Error.collaboratorFailed ("clean-up of " ++ migrationName m) reason
      let noted := ((note s label .error .migrationCleanUpFailed [("migration", m.name), ("reason", reason)]).run
        { j with bench := j.bench.record (.cleanUp i) }).2
      obtain ⟨journal, rest⟩ := ih (first.or (some failure)) noted
      refine ⟨journal, rest.trans ?_⟩
      have some : firstFailure? ((i, m) :: ms) = some failure := by
        simp only [firstFailure?, List.findSome?_cons, Migration.cleanUpFailure?, cleaned, failure]
      rw [some, Option.or_assoc, Option.some_or, List.append_assoc]
      rfl

end Task

/-! ## A pass -/

namespace Job

/-- Whether a job shows these calls and commits, newest first, on top of those of another, and has counted them. -/
structure Adds (j k : Job F) (calls : List (Call × F)) (commits : List (Commit F)) (encodes applied : Nat) : Prop where
  calls : k.bench.calls = calls ++ j.bench.calls
  commits : k.bench.commits = commits ++ j.bench.commits
  encodes : k.tally.encodes = j.tally.encodes + encodes
  applied : k.tally.counters.migrationsApplied = j.tally.counters.migrationsApplied + .ofNat applied

theorem Adds.trans {j k l : Job F} {calls calls' : List (Call × F)} {commits commits' : List (Commit F)}
    {encodes encodes' applied applied' : Nat} (first : j.Adds k calls commits encodes applied)
    (second : k.Adds l calls' commits' encodes' applied') :
    j.Adds l (calls' ++ calls) (commits' ++ commits) (encodes + encodes') (applied + applied') where
  calls := by rw [second.calls, first.calls, List.append_assoc]
  commits := by rw [second.commits, first.commits, List.append_assoc]
  encodes := by rw [second.encodes, first.encodes, Nat.add_assoc]
  applied := by rw [second.applied, first.applied, UInt64.ofNat_add, UInt64.add_assoc]

end Job

namespace Setup

variable (s : Setup V) (start : V)

def trial : Trial V := Cell.trial (Task.numbered s.migrations) start

/-- Whether a pass from `start` commits `v`: that is what the migrations that ran made of it, and it differs. -/
structure Commits (v : V) : Prop where
  outcome : (s.trial start).outcome = .ok v
  ran : (s.trial start).ran ≠ []
  differs : s.same v start = false

end Setup

def afterCleanUp (ran : List (Nat × Migration V)) (v : V) : Except Stop V :=
  match firstFailure? ran with
  | none => .ok v
  | some e => .error (.failed e)

/-- How a pass over the migrations ends that starts from a value at a job. -/
inductive Pass (s : Setup V) (store : Store.Atomic) (start : V) (j : Job F) : Except Stop V → Job F → Prop
  /-- A migration failed, and nothing else was done. -/
  | failed {e : Error} {k : Job F} (outcome : (s.trial start).outcome = .error e) (disk : k.bench.disk = j.bench.disk)
      (adds : j.Adds k (logged (s.trial start).calls j.bench.disk) [] 0 0) : Pass s store start j (.error (.failed e)) k
  /-- The value that was to be committed had no encoding. -/
  | unencoded {v : V} {stop : Stop} {k : Job F} (commits : s.Commits start v)
      (encoded : Task.encoded s j.tally.encodes v = .error stop) (disk : k.bench.disk = j.bench.disk)
      (adds : j.Adds k (logged (s.trial start).calls j.bench.disk) [] 1 0) : Pass s store start j (.error stop) k
  /-- The store failed to write it. -/
  | unwritten {v : V} {bs : Bytes} {e : Store.Error} {k : Job F} (commits : s.Commits start v)
      (encoded : Task.encoded s j.tally.encodes v = .ok bs)
      (written : store.write bs j.bench.disk = (.error e, k.bench.disk))
      (adds : j.Adds k (logged (s.trial start).calls j.bench.disk) [⟨store, bs, j.bench.disk⟩] 1 0) :
      Pass s store start j (.error (.failed (.ofStore e))) k
  /-- Nothing was to be committed, and what ran cleaned up. -/
  | unchanged {v : V} {k : Job F} (outcome : (s.trial start).outcome = .ok v)
      (settled : (s.trial start).ran = [] ∨ s.same v start = true) (disk : k.bench.disk = j.bench.disk)
      (adds : j.Adds k
        (logged (cleanUpCalls (s.trial start).ran) k.bench.disk ++ logged (s.trial start).calls j.bench.disk) []
        0 (s.trial start).ran.length) : Pass s store start j (afterCleanUp (s.trial start).ran v) k
  /-- The value was committed, and what ran cleaned up behind that. -/
  | committed {v : V} {bs : Bytes} {k : Job F} (commits : s.Commits start v)
      (encoded : Task.encoded s j.tally.encodes v = .ok bs)
      (written : store.write bs j.bench.disk = (.ok (), k.bench.disk))
      (adds : j.Adds k
        (logged (cleanUpCalls (s.trial start).ran) k.bench.disk ++ logged (s.trial start).calls j.bench.disk)
        [⟨store, bs, j.bench.disk⟩] 1 (s.trial start).ran.length) :
      Pass s store start j (afterCleanUp (s.trial start).ran v) k

namespace Task

def commitChange (s : Setup V) (store : Store.Atomic) (label : String) (start v : V) : Task F Unit := do
  if !s.same v start then
    let size ← writeValue s store v
    onBench (·.pass .afterMigrationCommit)
    note s label .info .commit [("version", "0"), ("bytes", toString size)]

def finishPass (s : Setup V) (label : String) (ran : List (Nat × Migration V)) (v : V) : Task F V := do
  count (·.recordMigrations ran.length)
  match ← cleanUpEach s label ran none with
  | none => pure v
  | some failure => fail failure

/-- A pass tries the migrations, and if one ran it commits the change and finishes. -/
theorem applyMigrations_eq (s : Setup V) (store : Store.Atomic) (label : String) (start : V) :
    (applyMigrations s store label start : Task F V) = (do
      let r ← migrateEach s label (numbered s.migrations) start
      if r.2.isEmpty then pure r.1
      else
        commitChange s store label start r.1
        finishPass s label r.2 r.1) := by
  unfold applyMigrations
  refine bind_congr fun r => ?_
  obtain ⟨v, ran⟩ := r
  simp only []
  by_cases none : ran.isEmpty = true
  · rw [if_pos none, if_pos none]
  · rw [if_neg none, if_neg none]
    unfold commitChange
    cases s.same v start with
    | true => simp only [Bool.not_true, Bool.false_eq_true, if_false, pure_bind]; rfl
    | false => simp only [Bool.not_false, if_true, bind_assoc]; rfl

inductive Settled (s : Setup V) (store : Store.Atomic) (start v : V) (j : Job F) : Except Stop Unit × Job F → Prop
  | unchanged {k : Job F} (same : s.same v start = true) (disk : k.bench.disk = j.bench.disk)
      (adds : j.Adds k [] [] 0 0) : Settled s store start v j (.ok (), k)
  | unencoded {stop : Stop} {k : Job F} (differs : s.same v start = false)
      (encoded : Task.encoded s j.tally.encodes v = .error stop) (disk : k.bench.disk = j.bench.disk)
      (adds : j.Adds k [] [] 1 0) : Settled s store start v j (.error stop, k)
  | unwritten {bs : Bytes} {e : Store.Error} {k : Job F} (differs : s.same v start = false)
      (encoded : Task.encoded s j.tally.encodes v = .ok bs)
      (written : store.write bs j.bench.disk = (.error e, k.bench.disk))
      (adds : j.Adds k [] [⟨store, bs, j.bench.disk⟩] 1 0) :
      Settled s store start v j (.error (.failed (.ofStore e)), k)
  | committed {bs : Bytes} {k : Job F} (differs : s.same v start = false)
      (encoded : Task.encoded s j.tally.encodes v = .ok bs)
      (written : store.write bs j.bench.disk = (.ok (), k.bench.disk))
      (adds : j.Adds k [] [⟨store, bs, j.bench.disk⟩] 1 0) : Settled s store start v j (.ok (), k)

theorem settled_commitChange (s : Setup V) (store : Store.Atomic) (label : String) (start v : V) (j : Job F) :
    Settled s store start v j ((commitChange s store label start v).run j) := by
  have uncounted := (UInt64.add_zero j.tally.counters.migrationsApplied).symm
  unfold commitChange
  cases same : s.same v start with
  | true => exact .unchanged same rfl ⟨rfl, rfl, rfl, uncounted⟩
  | false =>
    simp only [Bool.not_false, if_true, writeValue, run_bind, run_encode]
    cases encoded : Task.encoded s j.tally.encodes v with
    | error stop => exact .unencoded same encoded rfl ⟨rfl, rfl, rfl, uncounted⟩
    | ok bs =>
      simp only [run_replace, run_count, run_pure]
      rcases written : store.write bs j.bench.disk with ⟨e | ⟨⟩, disk⟩
      · exact .unwritten same encoded written ⟨rfl, rfl, rfl, uncounted⟩
      · exact .committed same encoded written ⟨rfl, rfl, rfl, uncounted⟩

/-- When the value stands, the migrations that ran are counted and clean up. -/
theorem run_finishPass (s : Setup V) (label : String) (ran : List (Nat × Migration V)) (v : V) (j : Job F) :
    ∃ k : Job F, (finishPass s label ran v).run j = (afterCleanUp ran v, k) ∧ k.bench.disk = j.bench.disk ∧
      j.Adds k (logged (cleanUpCalls ran) k.bench.disk) [] 0 ran.length := by
  let counted : Job F := { j with tally.counters := j.tally.counters.recordMigrations ran.length }
  obtain ⟨journal, each⟩ := run_cleanUpEach s label ran none counted
  refine ⟨{ counted with
      bench.calls := logged (cleanUpCalls ran) j.bench.disk ++ j.bench.calls
      bench.journal := journal }, ?_, rfl, ⟨rfl, rfl, rfl, rfl⟩⟩
  unfold finishPass
  rw [run_bind, run_count]
  change (cleanUpEach s label ran none >>= _).run counted = _
  rw [run_bind, each, afterCleanUp]
  cases firstFailure? ran <;> rfl

/-- **A pass ends in one of five ways.** -/
theorem pass_applyMigrations (s : Setup V) (store : Store.Atomic) (label : String) (start : V) (j : Job F) :
    Pass s store start j ((applyMigrations s store label start).run j).1
      ((applyMigrations s store label start).run j).2 := by
  obtain ⟨journal, ran⟩ := run_migrateEach s label (numbered s.migrations) start j
  let t := s.trial start
  let tried : Job F := { j with
    bench.calls := logged t.calls j.bench.disk ++ j.bench.calls
    bench.journal := journal }
  have ran : (migrateEach s label (numbered s.migrations) start).run j =
      ((t.outcome.mapError Stop.failed).map fun w => (w, t.ran), tried) := ran
  have first : j.Adds tried (logged t.calls j.bench.disk) [] 0 0 := ⟨rfl, rfl, rfl, (UInt64.add_zero _).symm⟩
  rw [applyMigrations_eq, run_bind]
  cases outcome : t.outcome with
  | error e =>
    have stopped : (migrateEach s label (numbered s.migrations) start).run j = (.error (.failed e), tried) := by
      rw [ran, outcome]
      rfl
    rw [stopped]
    exact .failed outcome rfl first
  | ok v =>
    have came : (migrateEach s label (numbered s.migrations) start).run j = (.ok (v, t.ran), tried) := by
      rw [ran, outcome]
      rfl
    simp only [came]
    -- Where no migration ran there is no commit, and there are no clean-ups either.
    by_cases none : t.ran = []
    · have ends : (.ok v : Except Stop V) = afterCleanUp t.ran v := by rw [none]; rfl
      rw [if_pos (List.isEmpty_iff.mpr none), run_pure, ends]
      refine .unchanged outcome (Or.inl none) rfl ?_
      change j.Adds tried (logged (cleanUpCalls t.ran) _ ++ _) [] 0 t.ran.length
      rw [none]
      exact first
    · rw [if_neg (mt List.isEmpty_iff.mp none), run_bind]
      have settled := settled_commitChange s store label start v tried
      revert settled
      generalize (commitChange s store label start v).run tried = change
      intro settled
      cases settled with
      | unencoded differs encoded disk adds => exact .unencoded ⟨outcome, none, differs⟩ encoded disk (first.trans adds)
      | unwritten differs encoded written adds =>
        exact .unwritten ⟨outcome, none, differs⟩ encoded written (first.trans adds)
      | @unchanged k same disk adds =>
        obtain ⟨l, finished, disk', more⟩ := run_finishPass s label t.ran v k
        have whole := first.trans (adds.trans more)
        simp only [Nat.zero_add, List.append_nil] at whole
        simp only [finished]
        exact .unchanged outcome (Or.inr same) (disk'.trans disk) whole
      | @committed bs k differs encoded written adds =>
        obtain ⟨l, finished, disk, more⟩ := run_finishPass s label t.ran v k
        have whole := first.trans (adds.trans more)
        simp only [Nat.zero_add, List.append_nil] at whole
        simp only [finished]
        exact .committed ⟨outcome, none, differs⟩ encoded (disk ▸ written) whole

end Task

/-- What a clean-up behind a commit finds in the file is the encoding of the value. -/
theorem Pass.holds {s : Setup V} {store : Store.Atomic} {start v : V} {j k : Job F} {result : Except Stop V}
    (pass : Pass s store start j result k) (commits : s.Commits start v) {held : F → Option Bytes}
    (puts : ∀ bs d, (store.write bs d).1 = .ok () → held (store.write bs d).2 = some bs) {called : List (Call × F)}
    (calls : k.bench.calls = called ++ j.bench.calls) {i : Nat} {d : F} (cleaned : (.cleanUp i, d) ∈ called) :
    ∃ bs, s.codec.encode v = .ok bs ∧ held d = some bs := by
  -- the calls of the pass are those that its ending tells of
  have added {more : List (Call × F)} {begun : List (Commit F)} {encodes applied : Nat}
      (adds : j.Adds k more begun encodes applied) : (.cleanUp i, d) ∈ more :=
    List.append_cancel_right (calls.symm.trans adds.calls) ▸ cleaned
  have tried (early : (.cleanUp i, d) ∈ logged (s.trial start).calls j.bench.disk) : False := by
    obtain ⟨c, called, same⟩ := List.mem_map.mp (List.mem_reverse.mp early)
    exact ne_cleanUp_of_mem_trial called i (congrArg Prod.fst same)
  cases pass with
  | failed outcome _ _ => cases commits.outcome.symm.trans outcome
  | unencoded _ _ _ adds => exact (tried (added adds)).elim
  | unwritten _ _ _ adds => exact (tried (added adds)).elim
  | unchanged outcome settled _ _ =>
    cases commits.outcome.symm.trans outcome
    rcases settled with none | same
    · exact absurd none commits.ran
    · rw [commits.differs] at same
      cases same
  | committed committed encoded written adds =>
    cases commits.outcome.symm.trans committed.outcome
    rcases List.mem_append.mp (added adds) with behind | before
    · obtain ⟨c, -, same⟩ := List.mem_map.mp (List.mem_reverse.mp behind)
      have disk : k.bench.disk = d := congrArg Prod.snd same
      have put := puts _ j.bench.disk (congrArg Prod.fst written)
      rw [written, disk] at put
      exact ⟨_, Task.encoded_ok encoded, put⟩
    · exact (tried before).elim

/-- **A pass commits once, and what ran cleans up behind that.** The trial of the migrations asks each in its order on
the value so far and calls it to migrate if it answered so, up to the first failure. A value that a migration made and
that differs from the start is committed, once; nothing else is. The migrations that ran clean up if nothing failed up
to there, each once and in their order, all of them, and the pass ends with the first failure among them; they are
counted then and only then. What the clean-ups behind a commit find in the file is the encoding of the value. -/
theorem a_pass_commits_once_and_then_cleans_up (s : Setup V) (store : Store.Atomic) (label : String) (start : V)
    (j : Job F) :
    let t := s.trial start
    let result := ((Task.applyMigrations s store label start).run j).1
    let k := ((Task.applyMigrations s store label start).run j).2
    Pass s store start j result k ∧
    t.ran.Sublist (Task.numbered s.migrations) ∧
    (∀ v, t.outcome = .ok v →
      t.calls.filter Call.isApplies = (Task.numbered s.migrations).map (fun m => .applies m.1) ∧
      t.calls.filter Call.isMigrate = t.ran.map (fun m => .migrate m.1) ∧
      (t.ran = [] → v = start)) ∧
    ∀ held : F → Option Bytes, (∀ bs d, (store.write bs d).1 = .ok () → held (store.write bs d).2 = some bs) →
      ∀ v, s.Commits start v → ∀ called, k.bench.calls = called ++ j.bench.calls →
        ∀ i d, (.cleanUp i, d) ∈ called → ∃ bs, s.codec.encode v = .ok bs ∧ held d = some bs := by
  intro t result k
  have pass := Task.pass_applyMigrations s store label start j
  refine ⟨pass, ran_sublist _ start, fun v outcome => ?_, ?_⟩
  · obtain ⟨asked, migrated⟩ := trial_complete outcome
    exact ⟨asked, migrated, eq_of_none_ran outcome⟩
  · intro held puts v commits called calls i d cleaned
    exact pass.holds commits puts calls cleaned

/-- A switch with a migration that does not apply, one that flips it and cannot clean up, and one that keeps it and
panics when it cleans up. -/
def flippedSwitch : Setup Bool :=
  { switch with
    migrations := [
      ⟨"skip", fun _ => .returned false, fun v => .returned v, .returned ()⟩,
      ⟨"flip", fun v => .returned !v, fun v => .returned !v, .failed "kept"⟩,
      ⟨"keep", fun v => .returned v, fun v => .returned v, .panicked none⟩] }

/-- It is committed once, both that ran clean up behind that, and the first of them has failed. -/
theorem a_flip_is_stored_before_it_is_cleaned_up :
    let store := switchStore ⟨"/d/v"⟩
    let j : Job Disk.Memory := ⟨{ disk := diskWith [0], registry := {}, journal := {} }, {}⟩
    let ran := (Task.applyMigrations flippedSwitch store "/d/v" false).run j
    flippedSwitch.Commits false true ∧
      ran.2.bench.calls.map (·.1) =
        [.cleanUp 2, .cleanUp 1, .migrate 2, .applies 2, .migrate 1, .applies 1, .applies 0] ∧
      ran.2.bench.commits.length = 1 ∧ ran.2.tally.counters.migrationsApplied = 2 ∧
      ran.1.isOk = false ∧
      ∀ i d, (.cleanUp i, d) ∈ ran.2.bench.calls → d.get? store.path.place = some [1] := by
  intro store j ran
  have commits : flippedSwitch.Commits false true := ⟨rfl, List.cons_ne_nil _ _, rfl⟩
  obtain ⟨-, -, -, file⟩ := a_pass_commits_once_and_then_cleans_up flippedSwitch store "/d/v" false j
  refine ⟨commits, by decide +kernel, by decide +kernel, by decide +kernel, by decide +kernel, fun i d cleaned => ?_⟩
  have called : ran.2.bench.calls = ran.2.bench.calls ++ j.bench.calls := (List.append_nil _).symm
  obtain ⟨bs, encoded, held⟩ := file (·.get? store.path.place) (fun _ _ => Store.Atomic.write_ok_contents) true commits
    ran.2.bench.calls called i d cleaned
  cases encoded
  exact held

end DurableValue.Cell
