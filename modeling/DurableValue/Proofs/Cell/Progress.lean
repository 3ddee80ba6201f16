/-
  DurableValue.Proofs.Cell.Progress — what an initialization has done, step by step.

  An initialization reads the file, may ask the corruption handler for a replacement and commit it, runs the
  migrations and may commit what they made of the value. `Report` says which commits it began, for which values, and
  what it asked the handler; `Progress` says that a job shows just that: on the disk, among its commits and calls, at
  the crash points it passed and in its counters.

  Proved:
  - `Progress.note`, `Progress.call`, … `Progress.committed`: each step keeps the progress with its own addition to
    the report.
  - `progress_readInitial`, `brings_applyMigrations`: so do the two halves of an initialization.
  - `progress_firstValue`: a whole one commits the values that are due (`Setup.due`), newest last, and a value comes
    out only if all of them were committed.
-/
import DurableValue.Proofs.Cell.Commits

namespace DurableValue.Cell

open Disk (FileSystem)
open Store (Keeper)

variable {F H V : Type} [FileSystem F H]

/-! ## What an initialization goes by -/

/-- What a migration makes of a value: nothing, where it does not apply. -/
def Migration.outcome (m : Migration V) (v : V) : Except String (Option V) :=
  match (m.applies v).result with
  | .error reason => .error reason
  | .ok false => .ok none
  | .ok true => (m.migrate v).result.map some

/-- What migrations make of a value, one after another, and whether any of them applied. -/
def migrated : List (Migration V) → V → Except String (V × Bool)
  | [], v => .ok (v, false)
  | m :: ms, v =>
    match m.outcome v with
    | .error reason => .error reason
    | .ok none => migrated ms v
    | .ok (some w) => (migrated ms w).map fun r => (r.1, true)

/-- Migrations none of which applied leave the value as it is. -/
theorem migrated_unapplied {ms : List (Migration V)} {v w : V} (h : migrated ms v = .ok (w, false)) : w = v := by
  induction ms generalizing v with
  | nil => cases h; rfl
  | cons m ms ih =>
    unfold migrated at h
    split at h
    · cases h
    · exact ih h
    · rename_i x _
      cases rest : migrated ms x <;> rw [rest] at h <;> cases h

def Task.decoded (s : Setup V) (call : Nat) (bs : Bytes) : Except Stop (Except Codec.Error V) :=
  match s.decodeMishap call with
  | none => .ok (s.codec.decode bs)
  | some (.fails e) => .ok (.error e)
  | some (.panics m) => .error (.broke m)

namespace Setup

variable (s : Setup V)

def corruption? (call : Nat) : Except Store.Error (Option Bytes) → Option Codec.Error
  | .ok (some bs) =>
    match Task.decoded s call bs with
    | .ok (.error e) => if e.isCorruption then some e else none
    | _ => none
  | _ => none

def replacement? (e : Codec.Error) : Option V :=
  match s.handler with
  | none => none
  | some handler => (handler e).result.toOption

theorem handler_of_replacement {s : Setup V} {e : Codec.Error} {v : V} (h : s.replacement? e = some v) : s.handler.isSome = true := by
  unfold replacement? at h
  cases handler : s.handler <;> rw [handler] at h
  · cases h
  · rfl

/-- The value that an initialization starts from, given what was read, and whether it replaces corrupt bytes. -/
def start? (call : Nat) : Except Store.Error (Option Bytes) → Option (V × Bool)
  | .error _ => none
  | .ok none => if s.defaultPanic.isSome then none else some (s.codec.default, false)
  | .ok (some bs) =>
    match Task.decoded s call bs with
    | .error _ => none
    | .ok (.ok v) => some (v, false)
    | .ok (.error e) => if e.isCorruption then (s.replacement? e).map (·, true) else none

/-- Corrupt bytes are replaced by what the handler gives for them, if it gives anything. -/
theorem start?_of_corruption {s : Setup V} {call : Nat} {found : Except Store.Error (Option Bytes)} {e : Codec.Error}
    (h : s.corruption? call found = some e) : s.start? call found = (s.replacement? e).map (·, true) := by
  rcases found with _ | _ | bs
  · cases h
  · cases h
  · simp only [corruption?] at h
    simp only [start?]
    rcases decoded : Task.decoded s call bs with stop | e' | v <;> rw [decoded] at h
    · cases h
    · simp only [] at h ⊢
      split at h <;> cases h
      rename_i corrupt
      rw [if_pos corrupt]
    · cases h

def asks (call : Nat) (found : Except Store.Error (Option Bytes)) : List Codec.Error :=
  if s.handler.isSome then (s.corruption? call found).toList else []

def repair (start : V × Bool) : List V := if start.2 then [start.1] else []

theorem length_repair (start : V × Bool) : (repair start).length = start.2.toNat := by
  obtain ⟨u, _ | _⟩ := start <;> rfl

def revised? (u : V) : Option V :=
  match migrated s.migrations u with
  | .ok (v, true) => if s.same v u then none else some v
  | _ => none

/-- The values that are committed on the way from a first value, newest first: what the migrations changed it to, and
before that the value itself, if it replaces corrupt bytes. -/
def due (start : V × Bool) : List V := (s.revised? start.1).toList ++ repair start

end Setup

/-! ## Commits in a row -/

namespace Commit

def isReturned (c : Commit F) : Bool := (c.store.write c.bytes c.disk).1.isOk

theorem isReturned_iff {c : Commit F} : c.isReturned = true ↔ c.HasReturned := by
  unfold isReturned HasReturned
  cases (c.store.write c.bytes c.disk).1 with
  | error e => simp [Except.isOk, Except.toBool]
  | ok _ => simp [Except.isOk, Except.toBool]

end Commit

def returned (cs : List (Commit F)) : Nat := cs.countP Commit.isReturned

def payload : List (Commit F) → Nat
  | [] => 0
  | c :: cs => if c.isReturned then payload cs + c.bytes.length else payload cs

def diskBehind (start : F) : List (Commit F) → F
  | [] => start
  | c :: _ => (c.store.write c.bytes c.disk).2

/-- Whether each commit began on the disk that the one before it left. -/
def Chained (start : F) : List (Commit F) → Prop
  | [] => True
  | c :: cs => c.disk = diskBehind start cs ∧ Chained start cs

/-- The real file behind commits in a row is what the newest published one put out. -/
theorem real_behind {store : Store.Atomic} (k : Keeper F store) {start : F} (fine : k.fine start)
    {cs : List (Commit F)} (chained : Chained start cs) (own : ∀ c ∈ cs, c.store = store) :
    k.fine (diskBehind start cs) ∧ k.real (diskBehind start cs) = published (k.real start) cs := by
  induction cs with
  | nil => exact ⟨fine, rfl⟩
  | cons c cs ih =>
    obtain ⟨began, chained⟩ := chained
    obtain ⟨fine', real'⟩ := ih chained fun c hc => own c (List.mem_cons_of_mem _ hc)
    obtain ⟨st, bs, disk⟩ := c
    cases own _ List.mem_cons_self
    cases began
    obtain ⟨fine'', real'', -⟩ := k.settle_real fine' (k.ready_makeParent bs _) real'
    refine ⟨fine'', ?_⟩
    rw [published_cons]
    exact real''

/-! ## Reports -/

structure Report (F V : Type) where
  /-- The commits that were begun, newest first. -/
  begun : List (Commit F) := []
  /-- The values they are for, newest first. -/
  values : List V := []
  asked : List Codec.Error := []
  recoveries : Nat := 0
  /-- The commits of what migrations made, one at most. -/
  migrations : Nat := 0
  /-- The migrations that were counted as applied. -/
  applied : Nat := 0

/-- Whether every commit that returned was booked as a recovery or as one of the migrations, and neither twice. -/
structure Report.Balanced (r : Report F V) : Prop where
  returned : returned r.begun = r.recoveries + r.migrations
  recoveries : r.recoveries ≤ 1
  migrations : r.migrations ≤ 1

def Call.handled? : Call → Option Codec.Error
  | .handle e => some e
  | _ => none

namespace Bench

def handled (b : Bench F) : List Codec.Error := b.calls.filterMap (·.1.handled?)

def passed (p : CrashPoint) (b : Bench F) : Nat := b.moments.countP fun m => m.point = p

theorem passed_pass_same (p : CrashPoint) (b : Bench F) : (b.pass p).passed p = b.passed p + 1 := by
  simp [passed, pass]

theorem passed_pass_other {p q : CrashPoint} (b : Bench F) (other : q ≠ p) : (b.pass q).passed p = b.passed p := by
  simp [passed, pass, other]

/-- No crash point inside a write is one of an initialization. -/
theorem passed_write {p : CrashPoint} (own : p = .afterRecoveryCommit ∨ p = .afterMigrationCommit) {b : Bench F}
    {store : Store.Atomic} {bs : Bytes} {disk : F} {commits : List (Commit F)} :
    passed p { b with
      disk := disk
      moments := ((store.crashPoints bs b.disk).map fun m => ⟨m.1, m.2, b.journal⟩).reverse ++ b.moments
      commits := commits } = b.passed p := by
  have none : ∀ m ∈ store.crashPoints bs b.disk, m.1 ≠ p := by
    intro m hm
    obtain ⟨k, -, inside⟩ := List.mem_flatMap.mp hm
    obtain ⟨q, hq, rfl⟩ := List.mem_map.mp inside
    rintro rfl
    rcases own with rfl | rfl <;> cases phase : k.1 <;> rw [phase] at hq <;> simp [Store.Phase.crashPoints] at hq
  simp only [passed, List.countP_append, List.countP_reverse, List.countP_map]
  rw [List.countP_eq_zero.mpr fun m hm => by simpa using none m hm, Nat.zero_add]

end Bench

/-- Whether a job that began as `i`, and read the disk to `start`, shows a report. -/
structure Progress (s : Setup V) (store : Store.Atomic) (i : Job F) (start : F) (r : Report F V) (j : Job F) :
    Prop where
  commits : j.bench.commits = r.begun ++ i.bench.commits
  chained : Chained start r.begun
  disk : j.bench.disk = diskBehind start r.begun
  own : ∀ c ∈ r.begun, c.store = store
  encoded : r.begun.map (fun c => .ok c.bytes) = r.values.map s.codec.encode
  asked : j.bench.handled = r.asked ++ i.bench.handled
  recoveries : j.bench.passed .afterRecoveryCommit = r.recoveries + i.bench.passed .afterRecoveryCommit
  migrations : j.bench.passed .afterMigrationCommit = r.migrations + i.bench.passed .afterMigrationCommit
  counters : j.tally.counters = { i.tally.counters with
    commits := i.tally.counters.commits + .ofNat (returned r.begun)
    bytesWritten := i.tally.counters.bytesWritten + .ofNat (payload r.begun)
    corruptionRecoveries := i.tally.counters.corruptionRecoveries + .ofNat r.recoveries
    migrationsApplied := i.tally.counters.migrationsApplied + .ofNat r.applied }

namespace Progress

variable {s : Setup V} {store : Store.Atomic} {i j : Job F} {start : F} {r : Report F V}

theorem initial (s : Setup V) (store : Store.Atomic) (i : Job F) : Progress s store i i.bench.disk {} i where
  commits := rfl
  chained := trivial
  disk := rfl
  own _ hc := nomatch hc
  encoded := rfl
  asked := rfl
  recoveries := (Nat.zero_add _).symm
  migrations := (Nat.zero_add _).symm
  counters := by simp [returned, payload]

/-- Lines in the journal are no progress. -/
theorem note (h : Progress s store i start r j) (f : Journal → Journal) :
    Progress s store i start r { j with bench.journal := f j.bench.journal } := { h with }

/-- Nor is a call, unless it is to the corruption handler. -/
theorem call (h : Progress s store i start r j) {c : Call} (other : c.handled? = none) :
    Progress s store i start r { j with bench := j.bench.record c } :=
  { h with asked := by rw [← h.asked]; simp [Bench.handled, Bench.record, other] }

theorem ask (h : Progress s store i start r j) (e : Codec.Error) :
    Progress s store i start { r with asked := e :: r.asked } { j with bench := j.bench.record (.handle e) } :=
  { h with asked := by rw [List.cons_append, ← h.asked]; rfl }

theorem read (h : Progress s store i start {} j) :
    Progress s store i (store.read start).2 {} { j with bench.disk := (store.read j.bench.disk).2 } := by
  have disk : j.bench.disk = start := h.disk
  exact { h with disk := by rw [disk]; rfl, chained := trivial }

theorem encode (h : Progress s store i start r j) :
    Progress s store i start r { j with tally.encodes := j.tally.encodes + 1 } := { h with }

theorem decode (h : Progress s store i start r j) :
    Progress s store i start r { j with tally.decodes := j.tally.decodes + 1 } := { h with }

theorem apply (h : Progress s store i start r j) (n : Nat) :
    Progress s store i start { r with applied := r.applied + n }
      { j with tally.counters := j.tally.counters.recordMigrations n } :=
  { h with counters := by simp only [Counters.recordMigrations, h.counters, UInt64.ofNat_add, UInt64.add_assoc] }

theorem recover (h : Progress s store i start r j) :
    Progress s store i start { r with recoveries := r.recoveries + 1 }
      { j with bench := j.bench.pass .afterRecoveryCommit, tally.counters := j.tally.counters.recordRecovery } :=
  { h with
    recoveries := by rw [Bench.passed_pass_same, h.recoveries, Nat.add_right_comm]
    migrations := (Bench.passed_pass_other _ (by decide)).trans h.migrations
    counters := by simp only [Counters.recordRecovery, h.counters, UInt64.ofNat_add, UInt64.add_assoc]; rfl }

theorem migrate (h : Progress s store i start r j) :
    Progress s store i start { r with migrations := r.migrations + 1 }
      { j with bench := j.bench.pass .afterMigrationCommit } :=
  { h with
    recoveries := (Bench.passed_pass_other _ (by decide)).trans h.recoveries
    migrations := by rw [Bench.passed_pass_same, h.migrations, Nat.add_right_comm] }

/-- A commit that came back from the store, with the counters that it leaves. -/
theorem replaced (h : Progress s store i start r j) {v : V} {bs : Bytes} (encoded : s.codec.encode v = .ok bs)
    {counters : Counters} (balanced : counters = { i.tally.counters with
      commits := i.tally.counters.commits + .ofNat (returned (⟨store, bs, j.bench.disk⟩ :: r.begun))
      bytesWritten := i.tally.counters.bytesWritten + .ofNat (payload (⟨store, bs, j.bench.disk⟩ :: r.begun))
      corruptionRecoveries := i.tally.counters.corruptionRecoveries + .ofNat r.recoveries
      migrationsApplied := i.tally.counters.migrationsApplied + .ofNat r.applied }) :
    Progress s store i start { r with begun := ⟨store, bs, j.bench.disk⟩ :: r.begun, values := v :: r.values }
      { ((Task.replace store bs).run j).2 with tally.counters := counters } := by
  rw [Task.run_replace]
  refine ⟨?_, ⟨h.disk, h.chained⟩, rfl, ?_, ?_, h.asked, ?_, ?_, balanced⟩
  · rw [List.cons_append, ← h.commits]
  · intro c hc
    rcases List.mem_cons.mp hc with rfl | hc
    · rfl
    · exact h.own c hc
  · rw [List.map_cons, List.map_cons, h.encoded, encoded]
  · rw [← h.recoveries]
    exact Bench.passed_write (Or.inl rfl)
  · rw [← h.migrations]
    exact Bench.passed_write (Or.inr rfl)

theorem failed (h : Progress s store i start r j) {v : V} {bs : Bytes} (encoded : s.codec.encode v = .ok bs)
    (unreturned : (store.write bs j.bench.disk).1.isOk = false) :
    Progress s store i start { r with begun := ⟨store, bs, j.bench.disk⟩ :: r.begun, values := v :: r.values }
      ((Task.replace store bs).run j).2 := by
  have kept : returned (⟨store, bs, j.bench.disk⟩ :: r.begun) = returned r.begun ∧
      payload (⟨store, bs, j.bench.disk⟩ :: r.begun) = payload r.begun := by
    simp [returned, payload, Commit.isReturned, unreturned]
  have balanced := h.counters
  rw [← kept.1, ← kept.2] at balanced
  have done := h.replaced encoded balanced
  rwa [Task.run_replace] at done ⊢

theorem committed (h : Progress s store i start r j) {v : V} {bs : Bytes} (encoded : s.codec.encode v = .ok bs)
    (ok : (store.write bs j.bench.disk).1.isOk = true) :
    Progress s store i start { r with begun := ⟨store, bs, j.bench.disk⟩ :: r.begun, values := v :: r.values }
      { ((Task.replace store bs).run j).2 with tally.counters := j.tally.counters.recordCommit bs.length } := by
  refine h.replaced encoded ?_
  have more : returned (⟨store, bs, j.bench.disk⟩ :: r.begun) = returned r.begun + 1 ∧
      payload (⟨store, bs, j.bench.disk⟩ :: r.begun) = payload r.begun + bs.length := by
    simp [returned, payload, Commit.isReturned, ok, Nat.add_comm]
  rw [more.1, more.2]
  simp only [Counters.recordCommit, h.counters, UInt64.ofNat_add, UInt64.add_assoc]
  rfl

end Progress

/-! ## Work that goes by what it brings -/

namespace Task

variable {α β : Type} {s : Setup V} {store : Store.Atomic} {i : Job F} {start : F} {r : Report F V}
  {P : Job F → Prop} {C : α → Prop} {Q : α → Job F → Prop} {R : β → Job F → Prop} {E : Job F → Prop}

/-- How a piece of work ends: as `Q` says if it returns, as `E` says if it stops. -/
def Yields (Q : α → Job F → Prop) (E : Job F → Prop) : Except Stop α × Job F → Prop
  | (.ok a, j) => Q a j
  | (.error _, j) => E j

def Brings (P : Job F → Prop) (t : Task F α) (Q : α → Job F → Prop) (E : Job F → Prop) : Prop :=
  ∀ j, P j → Yields Q E (t.run j)

theorem brings_pure {a : α} (h : ∀ j, P j → Q a j) : Brings P (pure a) Q E := h

theorem brings_throw {e : Stop} (h : ∀ j, P j → E j) : Brings P (throw e) Q E := h

theorem Yields.imp {Q' : α → Job F → Prop} {E' : Job F → Prop} {x : Except Stop α × Job F} (h : Yields Q E x)
    (post : ∀ a j, Q a j → Q' a j) (stop : ∀ j, E j → E' j) : Yields Q' E' x := by
  rcases x with ⟨e | a, j⟩
  · exact stop j h
  · exact post a j h

theorem brings_bind {t : Task F α} {f : α → Task F β} (first : Brings P t (fun a j => C a ∧ Q a j) E)
    (rest : ∀ a, C a → Brings (Q a) (f a) R E) : Brings P (t >>= f) R E := by
  intro j h
  have ends := first j h
  rw [run_bind]
  rcases ran : t.run j with ⟨e | a, k⟩ <;> rw [ran] at ends
  · exact ends
  · exact rest a ends.1 k ends.2

/-- What only notes lines and calls, but not the corruption handler, leaves a job as it is to `P`. -/
structure Deaf (P : Job F → Prop) : Prop where
  note : ∀ {j}, P j → ∀ f : Journal → Journal, P { j with bench.journal := f j.bench.journal }
  call : ∀ {j}, P j → ∀ c : Call, c.handled? = none → P { j with bench := j.bench.record c }

section

variable (deaf : Deaf P) (stop : ∀ j, P j → E j)

include deaf

theorem brings_note (label : String) (severity : Journal.Severity) (e : Journal.Event) (extra : List Journal.Field) :
    Brings P (note s label severity e extra) (fun _ j => True ∧ P j) E :=
  fun _ h => ⟨trivial, deaf.note h _⟩

theorem brings_cleanUpEach (label : String) (ms : List (Nat × Migration V)) (first : Option Error) :
    Brings P (cleanUpEach s label ms first) (fun _ j => True ∧ P j) E := by
  induction ms generalizing first with
  | nil => exact brings_pure fun _ h => ⟨trivial, h⟩
  | cons m ms ih =>
    obtain ⟨n, m⟩ := m
    refine brings_bind (C := fun _ => True) (Q := fun _ => P) (fun _ h => ⟨trivial, deaf.call h _ rfl⟩) fun _ _ => ?_
    cases m.cleanUp.result with
    | ok _ => exact ih first
    | error reason => exact brings_bind (brings_note deaf label _ _ _) fun _ _ => ih _

include stop

theorem brings_consult {c : Call} (other : c.handled? = none) (collaborator : String) (o : Outcome α) :
    Brings P (consult c collaborator o) (fun a j => o.result = .ok a ∧ P j) E := by
  refine brings_bind (C := fun _ => True) (Q := fun _ => P) (fun _ h => ⟨trivial, deaf.call h c other⟩) fun _ _ => ?_
  cases o.result with
  | error reason => exact brings_throw stop
  | ok a => exact brings_pure fun _ h => ⟨rfl, h⟩

/-- Running migrations is what `migrated` says. -/
theorem brings_migrateEach (label : String) (ms : List (Nat × Migration V)) (v : V) :
    Brings P (migrateEach s label ms v)
      (fun ran j => migrated (ms.map (·.2)) v = .ok (ran.1, !ran.2.isEmpty) ∧ P j) E := by
  induction ms generalizing v with
  | nil => exact brings_pure fun _ h => ⟨rfl, h⟩
  | cons m ms ih =>
    obtain ⟨n, m⟩ := m
    refine brings_bind (brings_consult deaf stop rfl _ _) fun applies asked => ?_
    cases applies with
    | false =>
      have outcome : m.outcome v = .ok none := by simp only [Migration.outcome, asked]
      simp only [List.map_cons, migrated, outcome]
      exact ih v
    | true =>
      refine brings_bind (brings_consult deaf stop rfl _ _) fun w made => ?_
      refine brings_bind (brings_note deaf label _ _ _) fun _ _ => ?_
      refine brings_bind (ih w) fun ran rest => ?_
      refine brings_pure fun _ h => ⟨?_, h⟩
      have outcome : m.outcome v = .ok (some w) := by simp only [Migration.outcome, asked, made]; rfl
      simp only [List.map_cons, migrated, outcome, rest]
      rfl

end

theorem deaf_progress (s : Setup V) (store : Store.Atomic) (i : Job F) (start : F) (r : Report F V) :
    Deaf (Progress s store i start r) :=
  ⟨Progress.note, fun h _ => h.call⟩

/-! ## Commits -/

/-- Whether a job shows that the commits it reports returned and are booked as such. -/
def Reached (s : Setup V) (store : Store.Atomic) (i : Job F) (start : F) (asked : List Codec.Error) (values : List V)
    (recoveries migrations : Nat) (j : Job F) : Prop :=
  ∃ begun applied, (∀ c ∈ begun, c.isReturned = true) ∧
    Progress s store i start ⟨begun, values, asked, recoveries, migrations, applied⟩ j

def Stopped (s : Setup V) (store : Store.Atomic) (i : Job F) (start : F) (asked : List Codec.Error) (due : List V)
    (j : Job F) : Prop :=
  ∃ r, Progress s store i start r j ∧ r.Balanced ∧ r.asked = asked ∧ r.values <:+ due

variable {asked : List Codec.Error} {values due : List V} {recoveries migrations : Nat} {j : Job F}

theorem deaf_reached : Deaf (Reached s store i start asked values recoveries migrations) where
  note := fun ⟨begun, applied, ok, h⟩ f => ⟨begun, applied, ok, h.note f⟩
  call := fun ⟨begun, applied, ok, h⟩ _ other => ⟨begun, applied, ok, h.call other⟩

/-- Where all commits returned, there is one for each value. -/
theorem Reached.returned {begun : List (Commit F)} {applied : Nat} (ok : ∀ c ∈ begun, c.isReturned = true)
    (h : Progress s store i start ⟨begun, values, asked, recoveries, migrations, applied⟩ j) :
    Cell.returned begun = values.length := by
  have lengths := congrArg List.length h.encoded
  rw [List.length_map, List.length_map] at lengths
  exact (List.countP_eq_length.mpr ok).trans lengths

theorem Reached.stopped (h : Reached s store i start asked values recoveries migrations j) (within : values <:+ due)
    (booked : values.length = recoveries + migrations) (once : recoveries ≤ 1) (once' : migrations ≤ 1) :
    Stopped s store i start asked due j := by
  obtain ⟨begun, applied, ok, h⟩ := h
  exact ⟨_, h, ⟨(Reached.returned ok h).trans booked, once, once'⟩, rfl, within⟩

theorem Stopped.mono (h : Stopped s store i start asked values j) (more : values <:+ due) :
    Stopped s store i start asked due j := by
  obtain ⟨r, shown, balanced, same, within⟩ := h
  exact ⟨r, shown, balanced, same, within.trans more⟩

/-- A commit returns, or it fails before it was begun or with its bytes on the way. -/
theorem yields_writeValue (h : Progress s store i start r j) (v : V) :
    Yields
      (fun _ k => ∃ c : Commit F, c.isReturned = true ∧
        Progress s store i start { r with begun := c :: r.begun, values := v :: r.values } k)
      (fun k => Progress s store i start r k ∨ ∃ c : Commit F, c.isReturned = false ∧
        Progress s store i start { r with begun := c :: r.begun, values := v :: r.values } k)
      ((writeValue s store v).run j) := by
  simp only [writeValue, run_bind, run_encode]
  cases put : encoded s j.tally.encodes v with
  | error e => exact Or.inl h.encode
  | ok bs =>
    have fails := h.encode.failed (encoded_ok put)
    have returns := h.encode.committed (encoded_ok put)
    simp only [run_replace, run_count, run_pure] at fails returns ⊢
    rcases ends : store.write bs j.bench.disk with ⟨e | ⟨⟩, disk⟩ <;> simp only [ends] at fails returns ⊢
    · refine Or.inr ⟨_, ?_, fails rfl⟩
      simp only [Commit.isReturned, ends]
      rfl
    · refine ⟨_, ?_, returns rfl⟩
      simp only [Commit.isReturned, ends]
      rfl

theorem brings_writeValue {v : V} (within : v :: values <:+ due) (booked : values.length = recoveries + migrations)
    (once : recoveries ≤ 1) (once' : migrations ≤ 1) :
    Brings (Reached s store i start asked values recoveries migrations) (writeValue s store v)
      (fun _ j => True ∧ Reached s store i start asked (v :: values) recoveries migrations j)
      (Stopped s store i start asked due) := by
  rintro j ⟨begun, applied, ok, h⟩
  refine (yields_writeValue h v).imp (fun _ k ⟨c, back, shown⟩ => ?_) fun k stopped => ?_
  · refine ⟨trivial, _, applied, fun d hd => ?_, shown⟩
    rcases List.mem_cons.mp hd with rfl | hd
    · exact back
    · exact ok d hd
  · rcases stopped with shown | ⟨c, failed, shown⟩
    · exact Reached.stopped ⟨begun, applied, ok, shown⟩ ((List.suffix_cons v values).trans within) booked once once'
    · refine ⟨_, shown, ⟨?_, once, once'⟩, rfl, within⟩
      rw [← booked, ← Reached.returned ok h, Cell.returned, List.countP_cons, failed]
      rfl

/-! ## The first value -/

/-- A recovery is booked at its crash point and in the counters. -/
theorem brings_recovered {rest : Task F β}
    (h : Brings (Reached s store i start asked values (recoveries + 1) migrations) rest R E) :
    Brings (Reached s store i start asked values recoveries migrations)
      (onBench (·.pass .afterRecoveryCommit) >>= fun _ => count (·.recordRecovery) >>= fun _ => rest) R E := by
  rintro j ⟨begun, applied, ok, shown⟩
  simp only [run_bind, run_onBench, run_count]
  exact h _ ⟨begun, applied, ok, shown.recover⟩

theorem reached_initial (h : Progress s store i start {} j) : Reached s store i start [] [] 0 0 j := by
  refine ⟨[], 0, fun c hc => ?_, h⟩
  cases hc

/-- Asking the corruption handler is on record, whatever it answers. -/
theorem brings_ask {e : Codec.Error} {o : Outcome V} (stop : ∀ j, Reached s store i start [e] [] 0 0 j → E j) :
    Brings (Progress s store i start {}) (consult (.handle e) "corruption handler" o)
      (fun v j => o.result = .ok v ∧ Reached s store i start [e] [] 0 0 j) E := by
  refine brings_bind (C := fun _ => True) (Q := fun _ => Reached s store i start [e] [] 0 0) (fun j h => ?_)
    fun _ _ => ?_
  · refine ⟨trivial, [], 0, fun c hc => ?_, h.ask e⟩
    cases hc
  · cases o.result with
    | error reason => exact brings_throw stop
    | ok v => exact brings_pure fun _ h => ⟨rfl, h⟩

theorem brings_recover (label : String) (e : Codec.Error) :
    Brings (Progress s store i start {}) (recover s store label e)
      (fun v j => s.replacement? e = some v ∧ Reached s store i start [e] [v] 1 0 j)
      (Stopped s store i start (if s.handler.isSome then [e] else []) (s.replacement? e).toList) := by
  have unbooked {asked : List Codec.Error} {due : List V} {j : Job F}
      (h : Reached s store i start asked [] 0 0 j) : Stopped s store i start asked due j :=
    h.stopped List.nil_suffix rfl (Nat.zero_le 1) (Nat.zero_le 1)
  refine brings_bind (brings_note (deaf_progress s store i start {}) label _ _ _) fun _ _ => ?_
  unfold Setup.replacement?
  cases s.handler with
  | none => exact brings_throw fun _ h => unbooked (reached_initial h)
  | some handler =>
    refine brings_bind (brings_ask fun _ h => unbooked h) fun v gave => ?_
    simp only [gave]
    refine brings_bind (brings_writeValue (List.suffix_refl [v]) rfl (Nat.zero_le 1) (Nat.zero_le 1)) fun size _ => ?_
    refine brings_recovered (brings_bind (brings_note deaf_reached label _ _ _) fun _ _ => ?_)
    exact brings_pure fun _ h => ⟨rfl, h⟩

def dueFrom (s : Setup V) (start : Option (V × Bool)) : List V := (start.map s.due).getD []

theorem run_decode (s : Setup V) (bs : Bytes) (j : Job F) :
    (decode s bs).run j = (decoded s j.tally.decodes bs, { j with tally.decodes := j.tally.decodes + 1 }) := by
  simp only [decode, run_bind, run_get, run_modify, decoded]
  rcases s.decodeMishap j.tally.decodes with _ | ⟨e⟩ | ⟨m⟩ <;> rfl

/-- After the file was read, the value that an initialization starts from is there, and committed if it has to be. -/
theorem progress_readInitial (label : String) (h : Progress s store i i.bench.disk {} j)
    (call : j.tally.decodes = i.tally.decodes) {found : Except Store.Error (Option Bytes)}
    (read : (store.read i.bench.disk).1 = found) :
    Yields
      (fun v k => ∃ isReplacement, s.start? i.tally.decodes found = some (v, isReplacement) ∧
        Reached s store i (store.read i.bench.disk).2 (s.asks i.tally.decodes found)
          (Setup.repair (v, isReplacement)) isReplacement.toNat 0 k)
      (Stopped s store i (store.read i.bench.disk).2 (s.asks i.tally.decodes found)
        (dueFrom s (s.start? i.tally.decodes found)))
      ((readInitial s store label).run j) := by
  have disk : j.bench.disk = i.bench.disk := h.disk
  have afterRead := h.read
  have unbooked {due : List V} {k : Job F} (h : Progress s store i (store.read i.bench.disk).2 {} k) :
      Stopped s store i (store.read i.bench.disk).2 [] due k :=
    (reached_initial h).stopped List.nil_suffix rfl (Nat.zero_le 1) (Nat.zero_le 1)
  simp only [readInitial, run_bind, run_readStore, disk, read] at afterRead ⊢
  -- nothing could be read, nothing is there, or these bytes are
  rcases found with e | _ | bs
  · have asks : s.asks i.tally.decodes (.error e) = [] := by simp [Setup.asks, Setup.corruption?]
    rw [asks]
    exact unbooked afterRead
  · have asks : s.asks i.tally.decodes (.ok none) = [] := by simp [Setup.asks, Setup.corruption?]
    have mapped : (Except.ok none : Except Store.Error (Option Bytes)).mapError
        (fun e => Stop.failed (.ofStore e)) = .ok none := rfl
    simp only [asks, mapped, run_makeDefault, made]
    cases panics : s.defaultPanic with
    | none => exact ⟨false, by rw [Setup.start?, panics]; rfl, reached_initial afterRead⟩
    | some m => exact unbooked afterRead
  · have afterDecode := afterRead.decode
    have mapped : (Except.ok (some bs) : Except Store.Error (Option Bytes)).mapError
        (fun e => Stop.failed (.ofStore e)) = .ok (some bs) := rfl
    simp only [mapped, run_bind, run_decode, call] at afterDecode ⊢
    simp only [Setup.start?, Setup.asks, Setup.corruption?]
    rcases decoded s i.tally.decodes bs with stop | e | v
    · simp only [Option.toList_none, ite_self]
      exact unbooked afterDecode
    · simp only []
      cases corrupt : e.isCorruption with
      | false =>
        simp only [Bool.false_eq_true, if_false, Option.toList_none, ite_self]
        exact unbooked afterDecode
      | true =>
        simp only [if_true, Option.toList_some]
        refine (brings_recover label e _ afterDecode).imp (fun v k ⟨gave, reached⟩ => ⟨true, ?_, ?_⟩) ?_
        · rw [gave]
          rfl
        · rw [Setup.handler_of_replacement gave]
          exact reached
        · refine fun k stopped => stopped.mono ?_
          cases s.replacement? e with
          | none => exact List.nil_suffix
          | some v => exact List.suffix_append _ _
    · simp only [Option.toList_none, ite_self]
      exact ⟨false, rfl, reached_initial afterDecode⟩

theorem numbered_migrations (ms : List (Migration V)) : (numbered ms).map (·.2) = ms := by
  rw [numbered, List.map_map]
  exact List.zipIdx_map_fst 0 ms

/-- A migration commit is booked at its crash point. -/
theorem brings_booked {rest : Task F β}
    (h : Brings (Reached s store i start asked values recoveries (migrations + 1)) rest R E) :
    Brings (Reached s store i start asked values recoveries migrations)
      (onBench (·.pass .afterMigrationCommit) >>= fun _ => rest) R E := by
  rintro j ⟨begun, applied, ok, shown⟩
  exact h _ ⟨begun, applied, ok, shown.migrate⟩

/-- When the value stands, the migrations that ran are counted and clean up. -/
theorem brings_cleanUp (label : String) (v : V) (ran : List (Nat × Migration V))
    (booked : values.length = recoveries + migrations) (once : recoveries ≤ 1) (once' : migrations ≤ 1) :
    Brings (Reached s store i start asked values recoveries migrations)
      (do
        count (·.recordMigrations ran.length)
        match ← cleanUpEach s label ran none with
        | none => pure v
        | some failure => fail failure)
      (fun w j => w = v ∧ Reached s store i start asked values recoveries migrations j)
      (Stopped s store i start asked values) := by
  have counted : Brings (Reached s store i start asked values recoveries migrations)
      (count (·.recordMigrations ran.length))
      (fun _ j => True ∧ Reached s store i start asked values recoveries migrations j)
      (Stopped s store i start asked values) :=
    fun _ ⟨begun, applied, ok, shown⟩ => ⟨trivial, begun, applied + ran.length, ok, shown.apply ran.length⟩
  refine brings_bind counted fun _ _ => ?_
  refine brings_bind (brings_cleanUpEach deaf_reached label ran none) fun failure _ => ?_
  cases failure with
  | none => exact brings_pure fun _ h => ⟨rfl, h⟩
  | some failure => exact brings_throw fun _ h => h.stopped (List.suffix_refl values) booked once once'

/-- The migrations commit what they changed, and that only. -/
theorem brings_applyMigrations (label : String) (first : V × Bool) :
    Brings (Reached s store i start asked (Setup.repair first) first.2.toNat 0)
      (applyMigrations s store label first.1)
      (fun v j => (∃ hasRun, migrated s.migrations first.1 = .ok (v, hasRun)) ∧
        Reached s store i start asked (s.due first) first.2.toNat (s.revised? first.1).toList.length j)
      (Stopped s store i start asked (s.due first)) := by
  have booked : (Setup.repair first).length = first.2.toNat + 0 := Setup.length_repair first
  have older : Setup.repair first <:+ s.due first := List.suffix_append _ _
  have once : first.2.toNat ≤ 1 := first.2.toNat_le
  refine brings_bind (brings_migrateEach deaf_reached
    (fun j h => h.stopped older booked once (Nat.zero_le 1)) label _ first.1) fun ran outcome => ?_
  obtain ⟨v, ran⟩ := ran
  rw [numbered_migrations] at outcome
  simp only [] at outcome ⊢
  cases empty : ran.isEmpty <;> rw [empty] at outcome
  · have found {E : V → Job F → Prop} (w : V) (j : Job F) (h : w = v ∧ E w j) :
        (∃ hasRun, migrated s.migrations first.1 = .ok (w, hasRun)) ∧ E w j := by
      obtain ⟨rfl, h⟩ := h
      exact ⟨⟨_, outcome⟩, h⟩
    cases same : s.same v first.1
    · have revised : s.revised? first.1 = some v := by simp [Setup.revised?, outcome, same]
      have due : s.due first = v :: Setup.repair first := by simp only [Setup.due, revised]; rfl
      rw [due, revised]
      refine brings_bind (brings_writeValue (List.suffix_refl _) booked once (Nat.zero_le 1)) fun size _ => ?_
      refine brings_booked (brings_bind (brings_note deaf_reached label _ _ _) fun _ _ => ?_)
      refine fun j h => (brings_cleanUp label v ran ?_ once (Nat.le_refl 1) j h).imp found fun _ h => h
      rw [List.length_cons, booked]
    · have revised : s.revised? first.1 = none := by simp [Setup.revised?, outcome, same]
      have due : s.due first = Setup.repair first := by simp only [Setup.due, revised]; rfl
      rw [due, revised]
      exact fun j h => (brings_cleanUp label v ran booked once (Nat.zero_le 1) j h).imp found fun _ h => h
  · -- No migration ran, so nothing is due behind the start.
    have revised : s.revised? first.1 = none := by simp [Setup.revised?, outcome]
    have due : s.due first = Setup.repair first := by simp only [Setup.due, revised]; rfl
    cases migrated_unapplied outcome
    rw [due, revised]
    exact brings_pure fun _ h => ⟨⟨_, outcome⟩, h⟩

def Opens (s : Setup V) (store : Store.Atomic) (i : Job F) (found : Except Store.Error (Option Bytes)) (v : V)
    (k : Job F) : Prop :=
  ∃ first hasRun, s.start? i.tally.decodes found = some first ∧
    migrated s.migrations first.1 = .ok (v, hasRun) ∧
    Reached s store i (store.read i.bench.disk).2 (s.asks i.tally.decodes found) (s.due first) first.2.toNat
      (s.revised? first.1).toList.length k

def Breaks (s : Setup V) (store : Store.Atomic) (i : Job F) (found : Except Store.Error (Option Bytes)) (k : Job F) :
    Prop :=
  Stopped s store i (store.read i.bench.disk).2 (s.asks i.tally.decodes found)
    (dueFrom s (s.start? i.tally.decodes found)) k

/-- **What an initialization comes to.** It asks the corruption handler about corrupt bytes only; it commits what is due,
in order, and all of it before a value comes out; and every commit that returned is booked once. -/
theorem progress_firstValue (s : Setup V) (store : Store.Atomic) (label : String) (i : Job F)
    {found : Except Store.Error (Option Bytes)} (read : (store.read i.bench.disk).1 = found) :
    Yields (Opens s store i found) (Breaks s store i found) ((firstValue s store label).run i) := by
  let opened : Job F := { i with bench.journal := (scope s label).opening i.bench.journal }
  have begins := progress_readInitial (j := opened) label ((Progress.initial s store i).note _) rfl read
  have whole : Yields (Opens s store i found) (Breaks s store i found)
      ((readInitial s store label >>= applyMigrations s store label).run opened) := by
    rw [run_bind]
    rcases ran : (readInitial s store label).run opened with ⟨e | u, k⟩ <;> rw [ran] at begins
    · exact begins
    · obtain ⟨isReplacement, start, reached⟩ := begins
      refine (brings_applyMigrations label (u, isReplacement) k reached).imp ?_ ?_
      · exact fun v j ⟨⟨hasRun, outcome⟩, h⟩ => ⟨(u, isReplacement), hasRun, start, outcome, h⟩
      · intro j h
        rw [Breaks, start]
        exact h
  rcases ran : (readInitial s store label >>= applyMigrations s store label).run
    { i with bench.journal := (scope s label).opening i.bench.journal } with ⟨e | v, k⟩
  · rw [show _ = _ from ran] at whole
    obtain ⟨r, shown, rest⟩ := whole
    simp only [run_firstValue, ran]
    exact ⟨r, shown.note _, rest⟩
  · rw [show _ = _ from ran] at whole
    obtain ⟨first, hasRun, start, outcome, reached⟩ := whole
    simp only [run_firstValue, ran]
    exact ⟨first, hasRun, start, outcome, deaf_reached.note reached _⟩

end Task

end DurableValue.Cell
