/-
  DurableValue.Proofs.Cell.Metrics — what the counters of a cell add up to.

  The counters are raised in many places, on the ways that succeed and on those that fail. What they have to agree
  with is read off a run without them: the commits that were begun and how each write ended, the crash points that an
  initialization passes behind its commits, what every update was answered (`Fate`), and which subscriptions got a
  first value.

  Proved:
  - `meters_opened`, `meters_committed`: each operation changes the meters by what it did.
  - `metered_happen`, `metered_run`: each event keeps them balanced, and so does every run.
  - `counters_balance`: the balances, and the one update that can fall through. Where the producer of the path panics,
    the worker is gone, and the update that asked for the value is answered that the cell is closed and counted
    nowhere (`an_update_over_a_panicking_producer_is_not_counted`).
-/
import DurableValue.Proofs.Cell.Initialization
import DurableValue.Proofs.Cell.Standstill

namespace DurableValue.Cell

open Disk (FileSystem Memory)

variable {F H V : Type} [FileSystem F H]

/-! ## What becomes of an update -/

inductive Fate where
  /-- Nobody was told anything. -/
  | cancelled
  /-- The transform failed. -/
  | rejected
  | unchanged
  | committed
  /-- The cell was final, or became so. -/
  | terminal
  /-- The cell did not serve to the end. -/
  | lost
  deriving DecidableEq, Repr

def Fate.record : Fate → Counters → Counters
  | cancelled => (·.recordCancelled)
  | rejected => (·.recordTransformFailure)
  | unchanged => (·.recordUnchanged)
  | committed | terminal | lost => id

namespace Session

def fate (before after : Nat) : List (Reply V) → Fate
  | [.answer (.ok _)] => if after = before then .unchanged else .committed
  | [.answer (.error e)] =>
    match e.code with
    | .transformFailed => .rejected
    | .terminal => .terminal
    | _ => .lost
  | _ => .cancelled

def fate? (e : Event F V) (c : Session F V) : Option Fate :=
  match e, c.worker.life with
  | .request (.update _ _), .serving => some (fate c.version (c.happen e).2.version (c.happen e).1)
  | _, _ => none

def fates : List (Event F V) → Session F V → List Fate
  | [], _ => []
  | e :: es, c => (c.fate? e).toList ++ fates es (c.happen e).2

def updates : List (Event F V) → Session F V → Nat
  | [], _ => 0
  | e :: es, c =>
    (match e, c.worker.life with
      | .request (.update _ _), .serving => 1
      | _, _ => 0) + updates es (c.happen e).2

def isValue (before after : Feed V) : Bool :=
  match after.sent.drop before.sent.length with
  | [.ok _] => true
  | _ => false

/-- Whether an event is the request for a subscription that is given its first value. -/
def delivers (e : Event F V) (c : Session F V) : Bool :=
  match e with
  | .request (.subscribe i) =>
    match c.worker.feeds[i]?, (c.happen e).2.worker.feeds[i]? with
    | some f, some f' => isValue f f'
    | _, _ => false
  | _ => false

def deliveries : List (Event F V) → Session F V → Nat
  | [], _ => 0
  | e :: es, c => (c.delivers e).toNat + deliveries es (c.happen e).2

theorem length_fates (es : List (Event F V)) (c : Session F V) : (c.fates es).length = c.updates es := by
  induction es generalizing c with
  | nil => rfl
  | cons e es ih =>
    simp only [fates, updates, List.length_append, ih, fate?]
    split <;> rfl

end Session

/-- Every fate is one of six. -/
theorem Fate.length_eq_counts (fates : List Fate) :
    fates.length = fates.count .cancelled + fates.count .rejected + fates.count .unchanged + fates.count .committed +
      fates.count .terminal + fates.count .lost := by
  induction fates with
  | nil => rfl
  | cons fate fates ih =>
    simp only [List.length_cons, ih, List.count_cons]
    cases fate <;> simp only [beq_self_eq_true, if_true] <;> simp <;> omega

/-! ## Meters -/

theorem payload_append (xs ys : List (Commit F)) : payload (xs ++ ys) = payload xs + payload ys := by
  induction xs with
  | nil => exact (Nat.zero_add _).symm
  | cons c xs ih =>
    simp only [List.cons_append, payload]
    split
    · rw [ih]
      omega
    · exact ih

structure Meters (F : Type) where
  commits : List (Commit F)
  /-- How often the crash point behind the commit of a replacement was passed. -/
  recoveries : Nat
  /-- The same for what migrations made. -/
  migrations : Nat
  counters : Counters
  live : List Nat

namespace Meters

def counted (f : Counters → Counters) (m : Meters F) : Meters F := { m with counters := f m.counters }

def relisted (live : List Nat) (m : Meters F) : Meters F :=
  { m with live := live, counters := m.counters.setLive live.length }

def booked (r : Report F V) (m : Meters F) : Meters F :=
  { m with
    commits := r.begun ++ m.commits
    recoveries := r.recoveries + m.recoveries
    migrations := r.migrations + m.migrations
    counters := { m.counters with
      commits := m.counters.commits + .ofNat (returned r.begun)
      bytesWritten := m.counters.bytesWritten + .ofNat (payload r.begun)
      corruptionRecoveries := m.counters.corruptionRecoveries + .ofNat r.recoveries
      migrationsApplied := m.counters.migrationsApplied + .ofNat r.applied } }

/-- Whether the counters agree with what became of the updates and how many subscriptions got a value, and with the
commits since the meters stood at `base`. -/
structure Balanced (m base : Meters F) (fates : List Fate) (delivered : Nat) : Prop where
  books : ∃ begun recoveries migrations, m.commits = begun ++ base.commits ∧
    m.recoveries = recoveries + base.recoveries ∧ m.migrations = migrations + base.migrations ∧
    returned begun = recoveries + migrations + fates.count .committed ∧
    m.counters.commits = .ofNat (returned begun) ∧ m.counters.bytesWritten = .ofNat (payload begun) ∧
    m.counters.corruptionRecoveries = .ofNat recoveries
  cancelled : m.counters.updatesCancelled = .ofNat (fates.count .cancelled)
  rejected : m.counters.transformFailures = .ofNat (fates.count .rejected)
  unchanged : m.counters.updatesUnchanged = .ofNat (fates.count .unchanged)
  attached : m.counters.subscribersAttached = .ofNat delivered
  live : m.counters.subscribersLive = .ofNat m.live.length

namespace Balanced

variable {base m : Meters F} {fates : List Fate} {delivered : Nat}

theorem relisted (h : m.Balanced base fates delivered) (live : List Nat) :
    (m.relisted live).Balanced base fates delivered := { h with live := rfl }

/-- An update that ends without a commit is counted by its fate. -/
theorem told (h : m.Balanced base fates delivered) (fate : Fate) (uncommitted : fate ≠ .committed) :
    (m.counted fate.record).Balanced base (fates ++ [fate]) delivered := by
  obtain ⟨begun, recoveries, migrations, books⟩ := h.books
  have kept : (fates ++ [fate]).count .committed = fates.count .committed := by simp [uncommitted]
  refine ⟨⟨begun, recoveries, migrations, ?_⟩, ?_, ?_, ?_, ?_, ?_⟩
  · rw [kept]
    cases fate <;> exact books
  · cases fate <;> simp [counted, Fate.record, Counters.recordCancelled, Counters.recordTransformFailure,
      Counters.recordUnchanged, h.cancelled, UInt64.ofNat_add]
  · cases fate <;> simp [counted, Fate.record, Counters.recordCancelled, Counters.recordTransformFailure,
      Counters.recordUnchanged, h.rejected, UInt64.ofNat_add]
  · cases fate <;> simp [counted, Fate.record, Counters.recordCancelled, Counters.recordTransformFailure,
      Counters.recordUnchanged, h.unchanged, UInt64.ofNat_add]
  · cases fate <;> exact h.attached
  · cases fate <;> exact h.live

theorem attach (h : m.Balanced base fates delivered) :
    (m.counted (·.recordSubscriber)).Balanced base fates (delivered + 1) :=
  { h with attached := by simp [counted, Counters.recordSubscriber, h.attached, UInt64.ofNat_add] }

/-- What a report says was done is booked, if its commits that returned are recoveries, migrations and one more for an
update that committed. -/
theorem booked (h : m.Balanced base fates delivered) {r : Report F V} {more : List Fate}
    (returned : Cell.returned r.begun = r.recoveries + r.migrations + more.count .committed)
    (only : ∀ fate ∈ more, fate = .committed) : (m.booked r).Balanced base (fates ++ more) delivered := by
  obtain ⟨begun, recoveries, migrations, commits, recovered, changed, balance, written, bytes, repairs⟩ := h.books
  have apart {fate : Fate} (other : fate ≠ .committed) : (fates ++ more).count fate = fates.count fate := by
    rw [List.count_append, List.count_eq_zero.mpr fun mem => other (only fate mem), Nat.add_zero]
  have total : Cell.returned (r.begun ++ begun) = Cell.returned r.begun + Cell.returned begun := List.countP_append
  refine ⟨⟨r.begun ++ begun, r.recoveries + recoveries, r.migrations + migrations, ?_, ?_, ?_, ?_, ?_, ?_, ?_⟩,
    ?_, ?_, ?_, h.attached, h.live⟩
  · simp only [Meters.booked, commits, List.append_assoc]
  · simp only [Meters.booked, recovered, Nat.add_assoc]
  · simp only [Meters.booked, changed, Nat.add_assoc]
  · rw [total, returned, balance, List.count_append]
    omega
  · simp only [Meters.booked, written, total, UInt64.ofNat_add, UInt64.add_comm]
  · simp only [Meters.booked, bytes, payload_append, UInt64.ofNat_add, UInt64.add_comm]
  · simp only [Meters.booked, repairs, UInt64.ofNat_add, UInt64.add_comm]
  · rw [apart (by decide)]
    exact h.cancelled
  · rw [apart (by decide)]
    exact h.rejected
  · rw [apart (by decide)]
    exact h.unchanged

/-- What no update committed is booked as recoveries and migrations alone. -/
theorem unbooked (h : m.Balanced base fates delivered) {r : Report F V}
    (returned : Cell.returned r.begun = r.recoveries + r.migrations) :
    (m.booked r).Balanced base fates delivered := by
  have booked : (m.booked r).Balanced base (fates ++ []) delivered := h.booked returned (List.forall_mem_nil _)
  rwa [List.append_nil] at booked

end Balanced

end Meters

/-! ## What the operations do to the meters -/

namespace Session

def meters (c : Session F V) : Meters F where
  commits := c.bench.commits
  recoveries := c.bench.passed .afterRecoveryCommit
  migrations := c.bench.passed .afterMigrationCommit
  counters := c.worker.tally.counters
  live := c.worker.attached

section

variable (c : Session F V)

theorem meters_checkAttached : c.checkAttached.meters = c.meters.relisted c.worker.attached := by
  simp only [checkAttached]
  split
  · rfl
  · split <;> rfl

theorem meters_publish (v : V) : ∃ live, (c.publish v).meters = c.meters.relisted live := by
  unfold publish
  rw [meters_checkAttached]
  simp only [onWorker, Worker.tell_eq]
  exact ⟨_, rfl⟩

theorem meters_attach (v : V) (i : Nat) :
    ∃ live, (c.attach v i).meters = (c.meters.counted (·.recordSubscriber)).relisted live := by
  unfold attach
  rw [meters_checkAttached]
  exact ⟨_, rfl⟩

theorem meters_enterFinal (cause : Error) : (c.enterFinal cause).2.meters = c.meters.relisted [] := by
  simp only [enterFinal, onWorker, Worker.tell_eq, Worker.dismiss_eq]
  rfl

theorem meters_shutDown : c.shutDown.meters = c.meters.relisted [] := by
  simp only [shutDown, onWorker, releasePath, Worker.dismiss_eq]
  cases c.worker.target <;> rfl

theorem meters_refuse (r : Request V) : (c.refuse r).2.meters = c.meters := by
  unfold refuse
  split <;> rfl

theorem meters_forsake (r : Request V) : (c.forsake r).2.meters = c.meters := by
  unfold forsake
  split
  · rfl
  · exact meters_refuse c _

end

variable {c c' : Session F V}

theorem Resolving.meters {x : Resolved} (h : Resolving c x c') : c'.meters = c.meters := by cases h <;> rfl

/-- Work changes the meters by what it reports. -/
theorem meters_of_progress {α : Type} {t : Task F α} {a : Except Stop α} {s : Setup V} {store : Store.Atomic} {start : F}
    {r : Report F V} (performs : c.perform t = (a, c')) (h : Progress s store c.job start r c'.job) :
    c'.meters = c.meters.booked r := by
  obtain ⟨-, worker, -⟩ := of_perform performs
  have live : c'.worker.attached = c.worker.attached := by rw [worker]
  have commits : c'.bench.commits = r.begun ++ c.bench.commits := h.commits
  have recoveries : c'.bench.passed .afterRecoveryCommit = _ := h.recoveries
  have migrations : c'.bench.passed .afterMigrationCommit = _ := h.migrations
  have counters : c'.worker.tally.counters = _ := h.counters
  simp only [Session.meters, commits, recoveries, migrations, counters, live]
  rfl

/-- An initialization is booked, whether a value comes out or not. -/
theorem meters_initialized {s : Setup V} {store : Store.Atomic} {label : String} {a : Except Stop V}
    (performs : c.perform (Task.firstValue s store label) = (a, c')) :
    ∃ r : Report F V, r.Balanced ∧ c'.meters = c.meters.booked r := by
  obtain ⟨ran, -, -⟩ := of_perform performs
  have ran : (Task.firstValue s store label).run c.job = (a, c'.job) := ran
  have progress := Task.progress_firstValue s store label c.job rfl
  rw [ran] at progress
  cases a with
  | error stop =>
    obtain ⟨r, shown, balanced, -⟩ := progress
    exact ⟨r, balanced, meters_of_progress performs shown⟩
  | ok v =>
    obtain ⟨first, hasRun, start, outcome, begun, applied, ok, shown⟩ := progress
    refine ⟨_, ⟨?_, first.2.toNat_le, ?_⟩, meters_of_progress performs shown⟩
    · rw [Task.Reached.returned ok shown, Setup.due, List.length_append, Setup.length_repair]
      exact Nat.add_comm _ _
    · cases s.revised? first.1 <;> simp

/-- A commit is booked: one that returned if it succeeds, and none if it fails. -/
theorem meters_committed {s : Setup V} {store : Store.Atomic} {v : V} {a : Except Stop Nat}
    (performs : c.perform (Task.writeValue s store v) = (a, c')) :
    ∃ r : Report F V, returned r.begun = (if a.isOk then 1 else 0) ∧ r.recoveries = 0 ∧ r.migrations = 0 ∧
      c'.meters = c.meters.booked r := by
  obtain ⟨ran, -, -⟩ := of_perform performs
  have ran : (Task.writeValue s store v).run c.job = (a, c'.job) := ran
  have yields := Task.yields_writeValue (Progress.initial s store c.job) v
  rw [ran] at yields
  cases a with
  | error stop =>
    rcases yields with shown | ⟨commit, failed, shown⟩
    · exact ⟨_, rfl, rfl, rfl, meters_of_progress performs shown⟩
    · refine ⟨_, ?_, rfl, rfl, meters_of_progress performs shown⟩
      simp only [returned, List.countP_cons, failed]
      rfl
  | ok size =>
    obtain ⟨commit, back, shown⟩ := yields
    refine ⟨_, ?_, rfl, rfl, meters_of_progress performs shown⟩
    simp only [returned, List.countP_cons, back]
    rfl

/-- Seeing to a value books an initialization if there was none before, and lets the subscriptions go if that fails. -/
theorem meters_opened {a : Except Halt Unit} (h : Opened c a c') :
    ∃ m, (m = c.meters ∨ c.worker.state = .uninitialized ∧ c'.worker.state ≠ .uninitialized ∧
        ∃ r : Report F V, r.Balanced ∧ m = c.meters.booked r) ∧
      (c'.meters = m ∨ c'.meters = m.relisted []) := by
  have resolves {x : Resolved} {c₁ : Session F V} (h : Resolving (c.onWorker (·.reveal .initializing)) x c₁) :
      c₁.meters = c.meters := h.meters
  cases h with
  | ready => exact ⟨_, Or.inl rfl, Or.inl rfl⟩
  | final => exact ⟨_, Or.inl rfl, Or.inl rfl⟩
  | broke _ resolved =>
    have still := resolves resolved
    exact ⟨_, Or.inl rfl, Or.inl still⟩
  | refused _ resolved =>
    refine ⟨_, Or.inl rfl, Or.inr ?_⟩
    rw [meters_enterFinal, resolves resolved]
  | failed fresh resolved performs =>
    obtain ⟨r, balanced, booked⟩ := meters_initialized performs
    rw [resolves resolved] at booked
    refine ⟨_, Or.inr ⟨fresh, fun again => ?_, r, balanced, rfl⟩, Or.inr ?_⟩
    · cases again
    · rw [meters_enterFinal, booked]
  | began fresh resolved performs =>
    obtain ⟨r, balanced, booked⟩ := meters_initialized performs
    rw [resolves resolved] at booked
    refine ⟨_, Or.inr ⟨fresh, fun again => ?_, r, balanced, rfl⟩, Or.inl booked⟩
    cases again

/-- An update that is answered with a value moved the version on by one, or not at all. -/
theorem fate_ok (n m : Nat) (v : V) : fate n m [.answer (.ok v)] = if m = n then .unchanged else .committed := rfl

/-- What becomes of a transform, with the state that it leaves. -/
theorem fate_updated {transform : V → Outcome V} {v : V} {n : Nat} {a : Except Error V}
    (state : c.worker.state = .ready v n) (h : Updated c transform v n a c') :
    (fate n c'.version [.answer a] ≠ .committed ∧ c'.worker.state = .ready v n ∨
      fate n c'.version [.answer a] = .committed ∧ (∃ next, c'.worker.state = .ready next (n + 1)) ∨
      fate n c'.version [.answer a] = .terminal ∧ ∃ t, c'.worker.state = .final t) ∧
    fate n c'.version [.answer a] ≠ .lost := by
  cases h with
  | rejected => exact ⟨Or.inl ⟨Fate.noConfusion, state⟩, Fate.noConfusion⟩
  | @unchanged next =>
    have ready : ((c.call .transform).onWorker (·.count (·.recordUnchanged))).worker.state = .ready v n := state
    rw [version_ready ready, fate_ok, if_pos rfl]
    exact ⟨Or.inl ⟨by decide, state⟩, by decide⟩
  | @committed next e size c₁ result changed target performs =>
    have ready : (((c₁.note .info .commit [("version", toString (n + 1)), ("bytes", toString size)]).onWorker
        (·.enter (.ready next (n + 1)))).publish next).worker.state = .ready next (n + 1) :=
      state_of_gist (gist_publish _ _)
    rw [version_ready ready, fate_ok, if_neg (Nat.succ_ne_self n)]
    exact ⟨Or.inr (Or.inl ⟨rfl, next, ready⟩), by decide⟩
  | lost => exact ⟨Or.inr (Or.inr ⟨rfl, _, rfl⟩), Fate.noConfusion⟩
  | homeless => exact ⟨Or.inr (Or.inr ⟨rfl, _, rfl⟩), Fate.noConfusion⟩

/-- A transform of the value is counted by what becomes of it, and is no initialization. -/
theorem balanced_updated {base : Meters F} {fates : List Fate} {delivered : Nat} {transform : V → Outcome V} {v : V}
    {n : Nat} {a : Except Error V} (state : c.worker.state = .ready v n) (h : Updated c transform v n a c')
    (balanced : c.meters.Balanced base fates delivered) :
    c'.meters.Balanced base (fates ++ [fate n c'.version [.answer a]]) delivered ∧
      c'.meters.recoveries = c.meters.recoveries ∧ c'.meters.migrations = c.meters.migrations := by
  cases h with
  | rejected => exact ⟨balanced.told .rejected (by decide), rfl, rfl⟩
  | @unchanged next =>
    have version : ((c.call .transform).onWorker (·.count (·.recordUnchanged))).version = n := version_ready state
    rw [version, fate_ok, if_pos rfl]
    exact ⟨balanced.told .unchanged (by decide), rfl, rfl⟩
  | @committed next e size c₁ result changed target performs =>
    have ready : (((c₁.note .info .commit [("version", toString (n + 1)), ("bytes", toString size)]).onWorker
        (·.enter (.ready next (n + 1)))).publish next).worker.state = .ready next (n + 1) :=
      state_of_gist (gist_publish _ _)
    obtain ⟨r, returned, recoveries, migrations, booked⟩ := meters_committed performs
    obtain ⟨live, published⟩ := meters_publish ((c₁.note .info .commit [("version", toString (n + 1)),
      ("bytes", toString size)]).onWorker (·.enter (.ready next (n + 1)))) next
    have meters : _ = (c.meters.booked r).relisted live := published.trans (congrArg (Meters.relisted live) booked)
    rw [version_ready ready, fate_ok, if_neg (Nat.succ_ne_self n), meters]
    refine ⟨(balanced.booked ?_ ?_).relisted live, ?_, ?_⟩
    · rw [returned, recoveries, migrations]
      rfl
    · simp
    · simp [Meters.relisted, Meters.booked, recoveries]
    · simp [Meters.relisted, Meters.booked, migrations]
  | @lost next e stop c₁ result changed target performs =>
    obtain ⟨r, returned, recoveries, migrations, booked⟩ := meters_committed performs
    rw [meters_enterFinal, booked]
    -- The write has failed, so that the report has nothing to book.
    have uncommitted := balanced.unbooked (by rw [returned, recoveries, migrations]; rfl)
    refine ⟨(uncommitted.told .terminal (by decide)).relisted [], ?_, ?_⟩
    · simp [Meters.relisted, Meters.booked, recoveries]
      rfl
    · simp [Meters.relisted, Meters.booked, migrations]
      rfl
  | homeless =>
    rw [meters_enterFinal]
    exact ⟨(balanced.told .terminal (by decide)).relisted [], rfl, rfl⟩

/-! ## Events -/

/-- Whether the meters of a session are in order after updates that came to `fates`. A cell that has not tried for a value
has booked no initialization; and an update was lost only with the worker. -/
structure Metered (base : Meters F) (fates : List Fate) (delivered : Nat) (c : Session F V) : Prop where
  balanced : c.meters.Balanced base fates delivered
  once : c.meters.recoveries ≤ base.recoveries + 1 ∧ c.meters.migrations ≤ base.migrations + 1
  fresh : c.worker.state = .uninitialized →
    c.meters.recoveries = base.recoveries ∧ c.meters.migrations = base.migrations
  version : (∀ t, c.worker.state ≠ .final t) → fates.count .committed = c.version
  lost : fates.count .lost = 0 ∨ fates.count .lost = 1 ∧ c.worker.life = .broken

variable {base : Meters F} {fates : List Fate} {delivered : Nat}

theorem Metered.kept (h : c.Metered base fates delivered) (serving : c.worker.life = .serving) :
    fates.count .lost = 0 := by
  rcases h.lost with none | ⟨-, broken⟩
  · exact none
  · cases serving.symm.trans broken

/-- What touches neither the state nor an initialization only has to keep the balance. -/
theorem Metered.of_balanced (h : c.Metered base fates delivered) (kept : fates.count .lost = 0)
    {more : List Fate} {delivered' : Nat} (balanced : c'.meters.Balanced base (fates ++ more) delivered')
    (quiet : ∀ fate ∈ more, fate ≠ .committed ∧ fate ≠ .lost) (recoveries : c'.meters.recoveries = c.meters.recoveries)
    (migrations : c'.meters.migrations = c.meters.migrations) (state : c'.worker.state = c.worker.state) :
    c'.Metered base (fates ++ more) delivered' := by
  have count {fate : Fate} (other : fate ∉ more) : (fates ++ more).count fate = fates.count fate := by
    rw [List.count_append, List.count_eq_zero.mpr other, Nat.add_zero]
  refine ⟨balanced, ?_, ?_, ?_, Or.inl ?_⟩
  · rw [recoveries, migrations]
    exact h.once
  · rw [recoveries, migrations, state]
    exact h.fresh
  · rw [state, count fun mem => (quiet _ mem).1 rfl, Session.version, state]
    exact h.version
  · rw [count fun mem => (quiet _ mem).2 rfl]
    exact kept

theorem Metered.of_meters (h : c.Metered base fates delivered) (meters : c'.meters = c.meters)
    (state : c'.worker.state = c.worker.state) (life : c'.worker.life = c.worker.life) :
    c'.Metered base fates delivered := by
  obtain ⟨balanced, once, fresh, version, lost⟩ := h
  refine ⟨?_, ?_, ?_, ?_, ?_⟩
  · rwa [meters]
  · rwa [meters]
  · rwa [meters, state]
  · rw [state, Session.version, state]
    exact version
  · rwa [life]

/-- Seeing to a value moves no version, and nobody goes back to where no value was tried for. -/
theorem version_opened {a : Except Halt Unit} (h : Opened c a c') :
    (c'.worker.state = .uninitialized → c.worker.state = .uninitialized) ∧
      ((∀ t, c'.worker.state ≠ .final t) → (∀ t, c.worker.state ≠ .final t) ∧ c'.version = c.version) := by
  cases h with
  | ready => exact ⟨id, fun alive => ⟨alive, rfl⟩⟩
  | final => exact ⟨id, fun alive => ⟨alive, rfl⟩⟩
  | @broke c₁ fresh resolved =>
    have state : c₁.worker.state = .uninitialized := by cases resolved; exact fresh
    refine ⟨fun _ => fresh, fun _ => ⟨fun t final => ?_, ?_⟩⟩
    · cases fresh.symm.trans final
    · simp only [Session.version, onWorker, state, fresh]
  | refused fresh => exact ⟨fun _ => fresh, fun alive => absurd rfl (alive _)⟩
  | failed fresh => exact ⟨fun _ => fresh, fun alive => absurd rfl (alive _)⟩
  | began fresh =>
    refine ⟨fun _ => fresh, fun _ => ⟨fun t final => ?_, ?_⟩⟩
    · cases fresh.symm.trans final
    · simp only [Session.version, fresh]
      rfl

theorem metered_opened {a : Except Halt Unit} (serving : c.worker.life = .serving)
    (h : c.Metered base fates delivered) (ensured : c.ensureReady = (a, c')) :
    c'.Metered base fates delivered := by
  have ends := opened c
  rw [ensured] at ends
  obtain ⟨m, first, last⟩ := meters_opened ends
  have balanced : m.Balanced base fates delivered := by
    rcases first with rfl | ⟨-, -, r, books, rfl⟩
    · exact h.balanced
    · exact h.balanced.unbooked books.returned
  have recoveries : c'.meters.recoveries = m.recoveries ∧ c'.meters.migrations = m.migrations := by
    rcases last with same | same <;> rw [same] <;> exact ⟨rfl, rfl⟩
  refine ⟨?_, ?_, ?_, ?_, Or.inl (h.kept serving)⟩
  · rcases last with same | same <;> rw [same]
    · exact balanced
    · exact balanced.relisted []
  · rw [recoveries.1, recoveries.2]
    rcases first with rfl | ⟨fresh, -, r, books, rfl⟩
    · exact h.once
    · obtain ⟨before, before'⟩ := h.fresh fresh
      have once := books.recoveries
      have once' := books.migrations
      simp only [Meters.booked, before, before']
      omega
  · rw [recoveries.1, recoveries.2]
    intro untried
    rcases first with rfl | ⟨-, tried, -⟩
    · exact h.fresh ((version_opened ends).1 untried)
    · exact absurd untried tried
  · intro alive
    obtain ⟨before, same⟩ := (version_opened ends).2 alive
    rw [same]
    exact h.version before

/-- An update of the value leaves the meters in order, with one fate more. -/
theorem metered_updated {transform : V → Outcome V} {v : V} {n : Nat} {a : Except Error V}
    (serving : c.worker.life = .serving) (h : c.Metered base fates delivered)
    (state : c.worker.state = .ready v n) (ends : Updated c transform v n a c') :
    c'.Metered base (fates ++ [fate n c'.version [.answer a]]) delivered := by
  obtain ⟨balanced, recoveries, migrations⟩ := balanced_updated state ends h.balanced
  obtain ⟨moves, served⟩ := fate_updated state ends
  refine ⟨balanced, ?_, ?_, ?_, Or.inl ?_⟩
  · rw [recoveries, migrations]
    exact h.once
  · rintro fresh
    rcases moves with ⟨-, ready⟩ | ⟨-, next, ready⟩ | ⟨-, t, ready⟩ <;> cases fresh.symm.trans ready
  · intro alive
    have before := h.version fun t final => by cases state.symm.trans final
    rw [version_ready state] at before
    rcases moves with ⟨uncommitted, ready⟩ | ⟨committed, next, ready⟩ | ⟨-, t, final⟩
    · rw [List.count_append, before, List.count_eq_zero.mpr (by simpa using Ne.symm uncommitted), version_ready ready]
      rfl
    · rw [List.count_append, before, committed, version_ready ready]
      rfl
    · exact absurd final (alive t)
  · rw [List.count_append, h.kept serving, List.count_eq_zero.mpr (by simpa using Ne.symm served)]

/-- Closing lets the subscriptions go. -/
theorem metered_shutDown (serving : c.worker.life = .serving) (h : c.Metered base fates delivered) :
    c.shutDown.Metered base fates delivered := by
  have balanced : c.shutDown.meters.Balanced base (fates ++ []) delivered := by
    rw [meters_shutDown, List.append_nil]
    exact h.balanced.relisted []
  have done := h.of_balanced (h.kept serving) balanced (List.forall_mem_nil _) ?_ ?_ (state_shutDown c)
  · rwa [List.append_nil] at done
  · rw [meters_shutDown]
    rfl
  · rw [meters_shutDown]
    rfl

/-! ## First values -/

/-- A subscription that is turned away is given no value. -/
theorem isValue_turned (f : Feed V) (e : Error) : isValue f (f.send (.error e)).finish = false := by
  cases dropped : f.isDropped <;> simp [isValue, Feed.send, Feed.finish, dropped]

theorem isValue_finish (f : Feed V) : isValue f f.finish = false := by simp [isValue, Feed.finish]

theorem isValue_sent {f : Feed V} (present : f.isDropped = false) (v : V) : isValue f (f.send (.ok v)) = true := by
  simp [isValue, Feed.send, present]

/-- Whether a request for a subscription is given a value is told by what is done to its feed. -/
theorem delivers_subscribe {i : Nat} {g : Feed V → Feed V}
    (feed : (c.happen (.request (.subscribe i))).2.worker.feeds[i]? = c.worker.feeds[i]?.map g) :
    c.delivers (.request (.subscribe i)) = c.worker.feeds[i]?.any fun f => isValue f (g f) := by
  simp only [delivers, feed]
  cases c.worker.feeds[i]? <;> rfl

theorem feed_turnAway (c : Session F V) (i : Nat) (e : Error) :
    (c.turnAway i e).worker.feeds[i]? = c.worker.feeds[i]?.map fun f => (f.send (.error e)).finish := by
  simp [turnAway, onWorker, Worker.onFeed]

theorem feed_letGo (c : Session F V) (i : Nat) : (c.letGo i).worker.feeds[i]? = c.worker.feeds[i]?.map Feed.finish := by
  simp [letGo, onWorker, Worker.onFeed]

/-- A subscription that is not given a value is told of an error or let go. -/
theorem not_delivers {i : Nat} {g : Feed V → Feed V} (nothing : ∀ f, isValue f (g f) = false)
    (feed : (c.happen (.request (.subscribe i))).2.worker.feeds[i]? = c.worker.feeds[i]?.map g) :
    c.delivers (.request (.subscribe i)) = false := by
  rw [delivers_subscribe feed]
  cases c.worker.feeds[i]? with
  | none => rfl
  | some f => exact nothing f

/-- A subscription that is sent the value is given it, if its receiver is there. -/
theorem delivers_of_attached {i : Nat} (listener : c.worker.hasListener i = true) {v : V}
    (feed : (c.happen (.request (.subscribe i))).2.worker.feeds[i]? = c.worker.feeds[i]?.map (·.send (.ok v))) :
    c.delivers (.request (.subscribe i)) = true := by
  rw [delivers_subscribe feed]
  unfold Worker.hasListener at listener
  cases found : c.worker.feeds[i]? with
  | none => simp [found] at listener
  | some f =>
    have present : f.isDropped = false := by simpa [found] using listener
    exact isValue_sent present v

/-- What a cell that does not serve does for a subscription is to turn it away. -/
theorem delivers_of_down (down : c.worker.life ≠ .serving) (e : Event F V) : c.delivers e = false := by
  cases e with
  | receivers f => rfl
  | outside f => rfl
  | request r =>
    cases r with
    | subscribe i =>
      cases life : c.worker.life with
      | serving => exact absurd life down
      | closed =>
        refine not_delivers (fun f => isValue_turned f .closed) ?_
        simp only [happen, serve, life]
        exact feed_turnAway c i .closed
      | broken =>
        refine not_delivers isValue_finish ?_
        simp only [happen, serve, life]
        exact feed_letGo c i
    | _ => rfl

/-! ## Runs -/

theorem fate?_of_down (down : c.worker.life ≠ .serving) (e : Event F V) : c.fate? e = none := by
  cases life : c.worker.life with
  | serving => exact absurd life down
  | closed => simp only [fate?, life]
  | broken => simp only [fate?, life]

/-- A subscription is served once there is a value, or turned away. -/
theorem metered_subscribe {i : Nat} (serving : c.worker.life = .serving) (listed : c.Listed)
    (h : c.Metered base fates delivered) :
    (c.happen (.request (.subscribe i))).2.Metered base fates
      (delivered + (c.delivers (.request (.subscribe i))).toNat) := by
  have happens : (c.happen (.request (.subscribe i))).2 = (c.handle (.subscribe i)).2 := by
    simp only [happen, serve, serving]
  cases listener : c.worker.hasListener i with
  | false =>
    have ends : (c.handle (.subscribe i)).2 = c.letGo i := by simp only [handle, listener]; rfl
    rw [not_delivers isValue_finish (by rw [happens, ends]; exact feed_letGo c i), happens, ends]
    exact h.of_meters rfl rfl rfl
  | true =>
    rcases ensured : c.ensureReady with ⟨(t | _) | ⟨⟩, c₁⟩
    all_goals
      have opened := metered_opened serving h ensured
      have feeds := feeds_of_ensured listed ensured
    · have ends : (c.handle (.subscribe i)).2 = c₁.turnAway i t := by simp only [handle, listener, ensured, if_true]
      rw [not_delivers (fun f => isValue_turned f t) (by rw [happens, ends, feed_turnAway, feeds]), happens, ends]
      exact opened.of_meters rfl rfl rfl
    · have ends : (c.handle (.subscribe i)).2 = c₁.letGo i := by simp only [handle, listener, ensured, if_true]
      rw [not_delivers isValue_finish (by rw [happens, ends, feed_letGo, feeds]), happens, ends]
      exact opened.of_meters rfl rfl rfl
    · obtain ⟨life, v, n, state⟩ := ready_of_ensured ensured
      have ends : (c.handle (.subscribe i)).2 = c₁.attach v i := by
        simp only [handle, listener, ensured, if_true, state]
      have feed : (c.happen (.request (.subscribe i))).2.worker.feeds[i]? = c.worker.feeds[i]?.map (·.send (.ok v)) := by
        rw [happens, ends, feed_attach, feeds]
      have given := delivers_of_attached listener feed
      rw [given, happens, ends]
      obtain ⟨live, meters⟩ := meters_attach c₁ v i
      have balanced : (c₁.attach v i).meters.Balanced base (fates ++ []) (delivered + 1) := by
        rw [meters, List.append_nil]
        exact opened.balanced.attach.relisted live
      have done := opened.of_balanced (h.kept serving) balanced (List.forall_mem_nil _) (by rw [meters]; rfl)
        (by rw [meters]; rfl) (state_of_gist (gist_attach c₁ v i))
      rwa [List.append_nil] at done

/-- An update that the worker takes has one fate, and is counted by it. -/
theorem metered_update {transform : V → Outcome V} {isAwaited : Bool} (serving : c.worker.life = .serving)
    (coherent : c.Coherent) (h : c.Metered base fates delivered) :
    (c.happen (.request (.update transform isAwaited))).2.Metered base
      (fates ++ (c.fate? (.request (.update transform isAwaited))).toList) delivered := by
  have happens : c.happen (.request (.update transform isAwaited)) =
      ([(c.handle (.update transform isAwaited)).1], (c.handle (.update transform isAwaited)).2) := by
    simp only [happen, serve, serving]
  have becomes : (c.fate? (.request (.update transform isAwaited))).toList = [fate c.version
      (c.handle (.update transform isAwaited)).2.version [(c.handle (.update transform isAwaited)).1]] := by
    simp only [fate?, serving, happens]
    rfl
  rw [becomes, happens]
  cases isAwaited with
  | false =>
    have counted : ((c.onWorker (·.count (·.recordCancelled))).note .info .updateCancelled []).Metered base
        (fates ++ [.cancelled]) delivered :=
      h.of_balanced (h.kept serving) (h.balanced.told .cancelled (by decide)) (by decide) rfl rfl rfl
    exact counted
  | true =>
    rcases ensured : c.ensureReady with ⟨(t | _) | ⟨⟩, c₁⟩
    all_goals
      have opened := metered_opened serving h ensured
      simp only [handle, ensured]
    · have final := final_of_ensured ensured
      obtain ⟨cause, rfl, -⟩ := (coherent_ensured serving ensured coherent).final t final
      have ended : c₁.Metered base (fates ++ [.terminal]) delivered :=
        opened.of_balanced (h.kept serving) (opened.balanced.told .terminal (by decide)) (by decide) rfl rfl rfl
      exact ended
    · obtain ⟨life, -⟩ := broken_of_ensured ensured
      obtain ⟨balanced, once, fresh, version, -⟩ := opened
      refine ⟨balanced.told .lost (by decide), once, fresh, fun alive => ?_, Or.inr ⟨?_, life⟩⟩
      · rw [← version alive, List.count_append]
        rfl
      · rw [List.count_append, h.kept serving]
        rfl
    · obtain ⟨life, v, n, state⟩ := ready_of_ensured ensured
      rw [← version_of_ensured ensured state]
      exact metered_updated (life.trans serving) opened state (updated state transform)

/-- Every event leaves the meters in order. -/
theorem metered_happen (e : Event F V) (coherent : c.Coherent) (listed : c.Listed)
    (h : c.Metered base fates delivered) :
    (c.happen e).2.Metered base (fates ++ (c.fate? e).toList) (delivered + (c.delivers e).toNat) := by
  have plain {c' : Session F V} (same : c'.Metered base fates delivered) :
      c'.Metered base (fates ++ (none : Option Fate).toList) (delivered + false.toNat) := by simpa using same
  cases e with
  | receivers f => exact plain (h.of_meters rfl rfl rfl)
  | outside f => exact plain (h.of_meters rfl rfl rfl)
  | request r =>
    cases life : c.worker.life with
    | closed =>
      have down : c.worker.life ≠ .serving := by rw [life]; decide
      rw [fate?_of_down down, delivers_of_down down]
      simp only [happen, serve, life]
      exact plain (h.of_meters (meters_refuse c r) (state_of_gist (gist_refuse c r)) (life_of_gist (gist_refuse c r)))
    | broken =>
      have down : c.worker.life ≠ .serving := by rw [life]; decide
      rw [fate?_of_down down, delivers_of_down down]
      simp only [happen, serve, life]
      exact plain (h.of_meters (meters_forsake c r) (state_of_gist (gist_forsake c r)) (life_of_gist (gist_forsake c r)))
    | serving =>
      cases r with
      | update transform isAwaited => exact metered_update life coherent h
      | subscribe i =>
        have served := metered_subscribe life listed h (i := i)
        rwa [← List.append_nil fates] at served
      | close =>
        simp only [happen, serve, life]
        exact plain (metered_shutDown life h)
      | read isAwaited =>
        simp only [happen, serve, life]
        cases isAwaited with
        | false => exact plain h
        | true =>
          rcases ensured : c.ensureReady with ⟨(t | _) | ⟨⟩, c₁⟩
          all_goals
            have opened := plain (metered_opened life h ensured)
            simp only [handle, ensured]
            exact opened

/-- Every run leaves the meters in order. -/
theorem metered_run (es : List (Event F V)) (coherent : c.Coherent) (listed : c.Listed)
    (h : c.Metered base fates delivered) :
    (c.run es).2.Metered base (fates ++ c.fates es) (delivered + c.deliveries es) := by
  induction es generalizing c fates delivered with
  | nil =>
    rw [Session.fates, Session.deliveries, List.append_nil]
    exact h
  | cons e es ih =>
    have done := ih (coherent_happen e coherent) (listed_happen e listed) (metered_happen e coherent listed h)
    rwa [List.append_assoc, Nat.add_assoc] at done

end Session

/-! ## From the start -/

/-- **The counters of a cell add up.** After any run of any cell, up to the size of a counter, it has counted the commits
that returned, their bytes, and the replacements among them: one at most was a replacement and one at most was made by
the migrations, both behind an initialization, and each of the others was an update that committed, of which there are as
many as the version says while there is a value. Every update that the worker took is counted by what became of it, and
none is counted twice; none is lost but the one that called a producer that panics. The subscriptions that were given a
first value are counted, and the gauge shows how many are on the list, on which there is nobody in a cell that is final or
does not serve. -/
theorem counters_balance {s : Setup V} {location : Location} {hasRuntime : Bool} {b b' : Bench F} {w : Worker V}
    (built : build s (some location) hasRuntime b = (.ok w, b')) (es : List (Event F V)) :
    let c₀ := Session.mk w b'
    let c := (c₀.run es).2
    let k := c.worker.tally.counters
    let fates := c₀.fates es
    (∃ begun recoveries migrations, c.bench.commits = begun ++ b.commits ∧
      c.bench.passed .afterRecoveryCommit = recoveries + b.passed .afterRecoveryCommit ∧ recoveries ≤ 1 ∧
      c.bench.passed .afterMigrationCommit = migrations + b.passed .afterMigrationCommit ∧ migrations ≤ 1 ∧
      returned begun = recoveries + migrations + fates.count .committed ∧
      (∀ v n, c.worker.state = .ready v n → fates.count .committed = n) ∧
      k.commits = .ofNat (returned begun) ∧ k.bytesWritten = .ofNat (payload begun) ∧
      k.corruptionRecoveries = .ofNat recoveries) ∧
    (c₀.updates es = fates.count .cancelled + fates.count .rejected + fates.count .unchanged + fates.count .committed +
        fates.count .terminal + fates.count .lost ∧
      k.updatesCancelled = .ofNat (fates.count .cancelled) ∧ k.transformFailures = .ofNat (fates.count .rejected) ∧
      k.updatesUnchanged = .ofNat (fates.count .unchanged) ∧
      (fates.count .lost = 0 ∨ fates.count .lost = 1 ∧ ∃ m, location = .produced (.panics m))) ∧
    k.subscribersAttached = .ofNat (c₀.deliveries es) ∧ k.subscribersLive = .ofNat c.worker.attached.length ∧
      ((c.worker.life ≠ .serving ∨ ∃ t, c.worker.state = .final t) → c.worker.attached = []) := by
  intro c₀ c k fates
  obtain ⟨-, -, listed⟩ := fresh_of_build built
  have start : c₀.Metered ⟨b.commits, b.passed .afterRecoveryCommit, b.passed .afterMigrationCommit, {}, []⟩ [] 0 := by
    obtain ⟨target, label, registry, fields, rfl, rfl, -⟩ := build_ok built
    exact ⟨⟨⟨[], 0, 0, rfl, (Nat.zero_add _).symm, (Nat.zero_add _).symm, rfl, rfl, rfl, rfl⟩, rfl, rfl, rfl, rfl, rfl⟩,
      ⟨Nat.le_succ _, Nat.le_succ _⟩, fun _ => ⟨rfl, rfl⟩, fun _ => rfl, Or.inl rfl⟩
  have metered := Session.metered_run es (coherent_of_build built) listed start
  rw [List.nil_append, Nat.zero_add] at metered
  obtain ⟨begun, recoveries, migrations, commits, recovered, changed, returned, written, bytes, repairs⟩ :=
    metered.balanced.books
  refine ⟨⟨begun, recoveries, migrations, commits, recovered, ?_, changed, ?_, returned, fun v n ready => ?_, written,
    bytes, repairs⟩, ⟨?_, metered.balanced.cancelled, metered.balanced.rejected, metered.balanced.unchanged, ?_⟩,
    metered.balanced.attached, metered.balanced.live, fun down => ?_⟩
  · -- the initialization commits twice at most, once for the repair and once for the migrations
    have once := metered.once.1
    rw [recovered, Nat.add_comm] at once
    exact Nat.le_of_add_le_add_left once
  · have once := metered.once.2
    rw [changed, Nat.add_comm] at once
    exact Nat.le_of_add_le_add_left once
  · rw [← Session.version_ready ready]
    exact metered.version fun t final => by cases ready.symm.trans final
  · rw [← Session.length_fates]
    exact Fate.length_eq_counts _
  · -- only a worker that broke has lost an update, and it broke over the producer
    rcases metered.lost with none | ⟨one, broken⟩
    · exact Or.inl none
    · exact Or.inr ⟨one, (asked_of_broken built broken).1⟩
  · rcases Session.listed_run es listed with nobody | ⟨serving, v, n, ready⟩
    · exact nobody
    · rcases down with down | ⟨t, final⟩
      · exact absurd serving down
      · cases ready.symm.trans final

/-- A torn switch is replaced, flipped by its migration, and switched on; asked for the same again it is left alone. -/
theorem a_mended_switch_counts_three_commits :
    let b : Bench Memory := { disk := diskWith [7], registry := {}, journal := {} }
    let turnOn : Request Bool := .update (fun _ => .returned true) true
    let es : List (Event Memory Bool) := [.request turnOn, .request turnOn]
    ∃ w b', build mendedSwitch (some (.path ⟨"/d/v"⟩)) true b = (.ok w, b') ∧
      (Session.mk w b').fates es = [.committed, .unchanged] ∧
      ∃ begun, ((Session.mk w b').run es).2.bench.commits = begun ∧ returned begun = 3 ∧
        ((Session.mk w b').run es).2.worker.tally.counters.commits = 3 := by
  intro b turnOn es
  have checked : ((newCell mendedSwitch ⟨"/d/v"⟩ b).any fun c =>
      decide (c.fates es = [.committed, .unchanged] ∧ (c.run es).2.bench.passed .afterRecoveryCommit = 1 ∧
        (c.run es).2.bench.passed .afterMigrationCommit = 1)) = true := by decide +kernel
  rcases found : newCell mendedSwitch ⟨"/d/v"⟩ b with _ | ⟨w, b'⟩ <;> rw [found] at checked
  · cases checked
  · have built := build_of_newCell found
    obtain ⟨fates, recovered, changed⟩ := of_decide_eq_true checked
    obtain ⟨⟨begun, recoveries, migrations, commits, recovers, -, changes, -, sum, -, written, -⟩, -⟩ :=
      counters_balance built es
    have none : b.passed .afterRecoveryCommit = 0 ∧ b.passed .afterMigrationCommit = 0 := ⟨rfl, rfl⟩
    have total : returned begun = 3 := by
      rw [sum, fates, ← Nat.add_zero recoveries, ← none.1, ← recovers, recovered, ← Nat.add_zero migrations, ← none.2,
        ← changes, changed]
      rfl
    refine ⟨w, b', built, fates, begun, ?_, total, ?_⟩
    · rw [commits, List.append_nil]
    · rw [written, total]
      rfl

/-- Where the producer of a path panics, the update that called it is taken and answered, and counted nowhere. -/
theorem an_update_over_a_panicking_producer_is_not_counted :
    let b : Bench Memory := { disk := { namespaceId := "0" }, registry := {}, journal := {} }
    let es : List (Event Memory Bool) := [.request (.update (fun _ => .returned true) true)]
    ∃ w b', build switch (some (.produced (.panics "kaput"))) true b = (.ok w, b') ∧
      ((Session.mk w b').run es).1 = [.answer (.error .closed)] ∧ (Session.mk w b').updates es = 1 ∧
      (Session.mk w b').fates es = [.lost] ∧ ((Session.mk w b').run es).2.worker.tally.counters = {} :=
  ⟨_, _, rfl, rfl, rfl, rfl, rfl⟩

end DurableValue.Cell
