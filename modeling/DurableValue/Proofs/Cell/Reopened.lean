/-
  DurableValue.Proofs.Cell.Reopened — JSON values that were committed, read by the next cell.

  A cell that reports a commit has put the encoding of the value into its file, and there it stays while nothing else
  is committed (`Stored`). What a fresh cell makes of that is a matter of the codec alone: the JSON codec writes
  values of any depth and reads those only that are nested in less than 128 levels.

  Proved:
  - `stored_happen`, `stored_run`: what was committed stays in the file.
  - `finds_run`: what the next cell finds.
  - `committed_json_is_read_again`: it is the value, if that is nested less deep than the limit; otherwise the value
    is reported as committed, and is corrupt for the cell that is opened next (`a_list_nested_too_deep_is_lost`).
-/
import DurableValue.Proofs.Cell.Restart
import DurableValue.Proofs.Cell.Steps
import DurableValue.Proofs.Json.Roundtrip

namespace DurableValue.Cell

open Disk (FileSystem Memory)
open Store (Atomic)

namespace Session

/-! ## Versions -/

section

variable {F H V : Type} [FileSystem F H] {c c' : Session F V} {transform : V → Outcome V} {v : V} {n : Nat}

/-- The version of the value; none counts as the first. -/
def version (c : Session F V) : Nat :=
  match c.worker.state with
  | .ready _ n => n
  | _ => 0

omit [FileSystem F H] in
theorem version_ready (state : c.worker.state = .ready v n) : c.version = n := by
  rw [version, state]

/-- Whether an update was answered with a value, and the version moved: the value was committed. -/
def Reports (transform : V → Outcome V) (v : V) (c : Session F V) : Prop :=
  (c.happen (.request (.update transform true))).1 = [.answer (.ok v)] ∧
    c.version < (c.happen (.request (.update transform true))).2.version

/-- To see to the value of a cell does not move the version on. -/
theorem le_version_of_ensured (ensured : c.ensureReady = (.ok (), c')) (state : c'.worker.state = .ready v n) :
    n ≤ c.version := by
  cases before : c.worker.state with
  | ready w m =>
    rw [ensureReady_ready c before] at ensured
    cases ensured
    exact Nat.le_of_eq (version_ready state).symm
  | final t => simp [ensureReady, before] at ensured
  | uninitialized =>
    obtain ⟨-, w, -, -, ready, -⟩ := ensureReady_ok before ensured
    cases ready.symm.trans state
    exact Nat.zero_le _

theorem ready_of_reports (reports : c.Reports transform v) :
    ∃ n, (c.happen (.request (.update transform true))).2.worker.state = .ready v (n + 1) := by
  obtain ⟨answered, moved⟩ := reports
  cases life : c.worker.life with
  | closed => simp [happen, serve, life, refuse] at answered
  | broken => simp [happen, serve, life, forsake, refuse] at answered
  | serving =>
    rcases ensured : c.ensureReady with ⟨halt | ⟨⟩, c₁⟩
    · simp [happen, serve, life, handle, ensured] at answered
    · obtain ⟨-, w, m, state⟩ := ready_of_ensured ensured
      have way := updated state transform
      rcases update : c₁.update transform with ⟨a, c₂⟩
      simp only [happen, serve, life, handle, ensured, update, List.cons.injEq, Reply.answer.injEq] at answered moved ⊢
      rw [update] at way
      obtain ⟨rfl, -⟩ := answered
      cases way with
      | unchanged result same =>
        exact absurd moved (Nat.not_lt.mpr (Nat.le_trans (Nat.le_of_eq (version_ready state))
          (le_version_of_ensured ensured state)))
      | committed result changed target performs => exact ⟨m, state_of_gist (gist_publish _ _)⟩

theorem state_updated {a : Except Error V} (state : c.worker.state = .ready v n)
    (way : Updated c transform v n a c') :
    c'.worker.state = .ready v n ∨ (∃ next, c'.worker.state = .ready next (n + 1)) ∨
      ∃ t, c'.worker.state = .final t := by
  cases way with
  | rejected => exact Or.inl ((state_of_gist (gist_note _ _ (by decide) _)).trans state)
  | unchanged => exact Or.inl state
  | committed => exact Or.inr (Or.inl ⟨_, state_of_gist (gist_publish _ _)⟩)
  | lost => exact Or.inr (Or.inr ⟨_, rfl⟩)
  | homeless => exact Or.inr (Or.inr ⟨_, rfl⟩)

def Goes (v : V) (n : Nat) (c : Session F V) : Prop :=
  c.worker.state = .ready v n ∨ n < c.version ∨ ∃ t, c.worker.state = .final t

theorem goes_run (es : List (Event F V)) (goes : c.Goes v n) : (c.run es).2.Goes v n := by
  induction es generalizing c with
  | nil => exact goes
  | cons e es ih =>
    refine ih (happen_keeps ?_ ?_ ?_ ?_ ?_ goes)
    · intro c c' gist goes
      have same : c'.worker.state = c.worker.state := state_of_gist gist
      simpa only [Goes, version, same] using goes
    · intro c _ goes
      have same : c.shutDown.worker.state = c.worker.state := state_shutDown c
      simpa only [Goes, version, same] using goes
    · intro c a c' _ way goes
      have fresh (uninitialized : c.worker.state = .uninitialized) : False := by
        rcases goes with ready | later | ⟨t, final⟩
        · cases uninitialized.symm.trans ready
        · simp [version, uninitialized] at later
        · cases uninitialized.symm.trans final
      cases way with
      | ready => exact goes
      | final => exact goes
      | broke uninitialized => exact (fresh uninitialized).elim
      | refused uninitialized => exact (fresh uninitialized).elim
      | failed uninitialized => exact (fresh uninitialized).elim
      | began uninitialized => exact (fresh uninitialized).elim
    · intro c transform w m a c' _ state way goes
      have version : c.version = m := version_ready state
      rcases state_updated state way with same | ⟨next, same⟩ | ⟨t, final⟩
      · simpa only [Goes, Session.version, same, state] using goes
      · refine Or.inr (Or.inl ?_)
        rw [version_ready same]
        rcases goes with ready | later | ⟨t, final⟩
        · cases ready.symm.trans state
          exact Nat.lt_succ_self n
        · omega
        · cases final.symm.trans state
      · exact Or.inr (Or.inr ⟨t, final⟩)
    · exact fun _ goes => goes

/-- A value stays what it is as long as its version does. -/
theorem stays_ready {es : List (Event F V)} (state : c.worker.state = .ready v (n + 1))
    (same : (c.run es).2.version = n + 1) : (c.run es).2.worker.state = .ready v (n + 1) := by
  rcases goes_run es (Or.inl state) with ready | later | ⟨t, final⟩
  · exact ready
  · omega
  · simp [version, final] at same

end

/-! ## What was committed stays in the file -/

section

variable {V : Type} {c c' : Session Memory V} {codec : Codec V} {p : Path} {accounted : Nat → Prop}

def AtPath (p : Path) (w : Worker V) : Prop :=
  match w.target with
  | .opened e => e.store.path = p ∧ Store.checkPath p = .ok ()
  | .deferred (.gives q) => q = p
  | .deferred (.panics _) | .unavailable => True

theorem AtPath.same {w w' : Worker V} (home : AtPath p w) (target : w'.target = w.target) : AtPath p w' := by
  rwa [AtPath, target]

theorem target_of_perform {α : Type} {t : Task Memory α} {a : Except Stop α} (h : c.perform t = (a, c')) :
    c'.worker.target = c.worker.target := by rw [(of_perform h).2.1]

theorem setup_of_perform {α : Type} {t : Task Memory α} {a : Except Stop α} (h : c.perform t = (a, c')) :
    c'.worker.setup = c.worker.setup := by rw [(of_perform h).2.1]

theorem target_enterFinal (c : Session Memory V) (cause : Error) :
    (c.enterFinal cause).2.worker.target = c.worker.target := congrArg (·.worker.target) (gist_enterFinal c cause)

theorem setup_enterFinal (c : Session Memory V) (cause : Error) :
    (c.enterFinal cause).2.worker.setup = c.worker.setup := congrArg (·.worker.setup) (gist_enterFinal c cause)

/-- Whether the file of a cell holds the encoding of a value that the cell has committed, if the version before that is
one of those that are accounted for. -/
structure Stored (codec : Codec V) (p : Path) (accounted : Nat → Prop) (c : Session Memory V) : Prop where
  home : AtPath p c.worker
  setup : c.worker.setup.codec = codec
  accepted : ∀ v n, c.worker.state = .ready v n → Store.checkPath p = .ok ()
  holds : ∀ v n, accounted n → c.worker.state = .ready v (n + 1) →
    ∃ bs, codec.encode v = .ok bs ∧ c.bench.disk.get? p.place = some bs

theorem Resolving.atPath {x : Resolved} (way : Resolving c x c') (home : AtPath p c.worker) :
    AtPath p c'.worker ∧ ∀ store, x = .found store → store.path = p ∧ Store.checkPath p = .ok () := by
  cases way with
  | opened target =>
    refine ⟨home, fun store same => ?_⟩
    cases same
    rw [AtPath, target] at home
    exact home
  | unavailable => exact ⟨home, nofun⟩
  | panicked => exact ⟨trivial, nofun⟩
  | claimed target exclusive =>
    rw [AtPath, target] at home
    subst home
    have new := openExclusive_new exclusive
    have there := And.intro (new_path new) (new_accepted new)
    exact ⟨there, fun store same => by cases same; exact there⟩
  | taken => exact ⟨trivial, nofun⟩

/-- Other hands that leave the file alone. -/
def LeavesAlone (p : Path) (es : List (Event Memory V)) : Prop :=
  ∀ f, .outside f ∈ es → ∀ d : Memory, (f d).get? p.place = d.get? p.place

/-- What is stored is told by the target, the setup, the state and the disk. -/
theorem Stored.same (stored : Stored codec p accounted c) (target : c'.worker.target = c.worker.target)
    (setup : c'.worker.setup = c.worker.setup) (state : c'.worker.state = c.worker.state)
    (disk : c'.bench.disk = c.bench.disk) : Stored codec p accounted c' where
  home := stored.home.same target
  setup := setup ▸ stored.setup
  accepted := fun v n ready => stored.accepted v n (state ▸ ready)
  holds := fun v n due ready => disk ▸ stored.holds v n due (state ▸ ready)

theorem Stored.of_gist (stored : Stored codec p accounted c) (gist : c'.gist = c.gist) : Stored codec p accounted c' :=
  stored.same (congrArg (·.worker.target) gist) (congrArg (·.worker.setup) gist) (state_of_gist gist)
    (congrArg (·.bench.disk) gist)

theorem stored_shutDown (stored : Stored codec p accounted c) : Stored codec p accounted c.shutDown where
  home := by
    have gone : c.shutDown.worker.target = .unavailable := congrArg (·.worker.target) (gist_shutDown c)
    rw [AtPath, gone]
    trivial
  setup := (congrArg (·.worker.setup.codec) (gist_shutDown c)).trans stored.setup
  accepted := fun v n ready => stored.accepted v n ((state_shutDown c).symm.trans ready)
  holds := fun v n due ready => by
    have disk : c.shutDown.bench.disk = c.bench.disk := congrArg (·.bench.disk) (gist_shutDown c)
    exact disk ▸ stored.holds v n due ((state_shutDown c).symm.trans ready)

/-- A cell that has no value of a later version than the first has nothing to hold. -/
theorem stored_of_home {c' : Session Memory V} (home : AtPath p c'.worker) (setup : c'.worker.setup.codec = codec)
    (accepted : ∀ v n, c'.worker.state = .ready v n → Store.checkPath p = .ok () ∧ n = 0) :
    Stored codec p accounted c' where
  home := home
  setup := setup
  accepted := fun v n ready => (accepted v n ready).1
  holds := fun v n _ ready => nomatch (accepted v (n + 1) ready).2

theorem stored_opened {a : Except Halt Unit} (way : Opened c a c') (stored : Stored codec p accounted c) :
    Stored codec p accounted c' := by
  have setup : c'.worker.setup.codec = codec := (congrArg Setup.codec (setup_opened way)).trans stored.setup
  have start : AtPath p (c.onWorker (·.reveal .initializing)).worker := stored.home
  cases way with
  | ready => exact stored
  | final => exact stored
  | broke uninitialized resolved =>
    refine stored_of_home (resolved.atPath start).1 setup fun v n ready => ?_
    cases resolved
    cases uninitialized.symm.trans ready
  | refused _ resolved => exact stored_of_home ((resolved.atPath start).1.same (target_enterFinal _ _)) setup nofun
  | failed _ resolved performs =>
    have performed := (resolved.atPath start).1.same (target_of_perform performs)
    exact stored_of_home (performed.same (target_enterFinal _ _)) setup nofun
  | began _ resolved performs =>
    obtain ⟨home, found⟩ := resolved.atPath start
    have performed := home.same (target_of_perform performs)
    refine stored_of_home (performed.same rfl) setup fun v n ready => ?_
    cases ready
    exact ⟨(found _ rfl).2, rfl⟩

theorem stored_updated {transform : V → Outcome V} {v : V} {n : Nat} {a : Except Error V}
    (way : Updated c transform v n a c') (stored : Stored codec p accounted c) :
    Stored codec p accounted c' := by
  have called : Stored codec p accounted (c.call .transform) := stored.same rfl rfl rfl rfl
  cases way with
  | rejected =>
    have told : Stored codec p accounted ((c.call .transform).onWorker (·.count (·.recordTransformFailure))) :=
      called.same rfl rfl rfl rfl
    exact told.of_gist (gist_note _ _ (by decide) _)
  | unchanged => exact called.same rfl rfl rfl rfl
  | @committed next e size c₁ result changed target performs =>
    obtain ⟨ran, -⟩ := of_perform performs
    obtain ⟨bs, encoded, wrote, -⟩ := Task.writeValue_ok ran
    have home : e.store.path = p ∧ Store.checkPath p = .ok () := by
      have home := stored.home
      rwa [AtPath, target] at home
    have here : AtPath p c₁.worker := called.home.same (target_of_perform performs)
    -- This is where the account starts again: the write has returned, so the file holds the new value.
    have entered : Stored codec p accounted ((c₁.note .info .commit
        [("version", toString (n + 1)), ("bytes", toString size)]).onWorker (·.enter (.ready next (n + 1)))) :=
      { home := here
        setup := (congrArg Setup.codec (setup_of_perform performs)).trans stored.setup
        accepted := fun _ _ _ => home.2
        holds := fun v m _ ready => by
          cases ready
          refine ⟨bs, stored.setup ▸ encoded, ?_⟩
          have ok : (e.store.write bs (c.call .transform).bench.disk).1 = .ok () := congrArg Prod.fst wrote
          have contents := Atomic.write_ok_contents ok
          rw [wrote, home.1] at contents
          exact contents }
    exact entered.of_gist (gist_publish _ _)
  | lost _ _ _ performs =>
    have performed := called.home.same (target_of_perform performs)
    refine stored_of_home (performed.same (target_enterFinal _ _)) ?_ nofun
    exact (congrArg Setup.codec ((setup_enterFinal _ _).trans (setup_of_perform performs))).trans stored.setup
  | homeless =>
    exact stored_of_home (called.home.same (target_enterFinal _ _))
      ((congrArg Setup.codec (setup_enterFinal _ _)).trans stored.setup) nofun

theorem stored_happen {e : Event Memory V} (quiet : (∀ n, ¬ accounted n) ∨ LeavesAlone p [e])
    (stored : Stored codec p accounted c) : Stored codec p accounted (c.happen e).2 := by
  refine happen_keeps (fun gist stored => stored.of_gist gist) (fun _ => stored_shutDown) (fun _ => stored_opened)
    (fun _ _ => stored_updated) ?_ stored
  intro c f same stored
  refine ⟨stored.home, stored.setup, stored.accepted, fun v n due state => ?_⟩
  obtain ⟨bs, encoded, held⟩ := stored.holds v n due state
  have alone := quiet.resolve_left fun none => none n due
  exact ⟨bs, encoded, (alone f (by simp [same]) c.bench.disk).trans held⟩

theorem stored_run {es : List (Event Memory V)} (quiet : (∀ n, ¬ accounted n) ∨ LeavesAlone p es)
    (stored : Stored codec p accounted c) : Stored codec p accounted (c.run es).2 := by
  induction es generalizing c with
  | nil => exact stored
  | cons e es ih =>
    refine ih (quiet.imp_right fun alone f hf => alone f (List.mem_cons_of_mem _ hf))
      (stored_happen (quiet.imp_right fun alone f hf => ?_) stored)
    exact alone f (by rw [List.mem_singleton.mp hf]; exact List.mem_cons_self)

/-- A cell as it was built accounts for no version yet. -/
theorem stored_of_build {s : Setup V} {location : Location} {hasRuntime : Bool} {b b' : Bench Memory} {w : Worker V}
    (built : build s (some location) hasRuntime b = (.ok w, b')) (path : location.path? = some p) :
    Stored s.codec p accounted ⟨w, b'⟩ := by
  obtain ⟨target, registry, core, isPath, uses⟩ := build_core built
  have state : w.state = .uninitialized := congrArg Core.state core
  have setup : w.setup = s := congrArg Core.setup core
  obtain rfl : target = w.target := (congrArg Core.target core).symm
  refine stored_of_home ?_ (congrArg Setup.codec setup) fun v n ready => by cases state.symm.trans ready
  have place := isPath.trans path
  unfold AtPath
  split
  · rename_i e opened
    have new := uses p e.store path (by rw [opened]; rfl)
    exact ⟨new_path new, new_accepted new⟩
  · rename_i q deferred
    rw [deferred] at place
    exact Option.some.inj place
  · trivial
  · trivial

/-- What a cell reports as committed is in its file. -/
theorem stored_of_reports {transform : V → Outcome V} {v : V} (stored : Stored codec p (fun _ => False) c)
    (reports : c.Reports transform v) :
    ∃ n, (c.happen (.request (.update transform true))).2.worker.state = .ready v (n + 1) ∧
      Stored codec p (· = n) (c.happen (.request (.update transform true))).2 := by
  obtain ⟨n, ready⟩ := ready_of_reports reports
  have moved : c.version < n + 1 := Nat.lt_of_lt_of_eq reports.2 (version_ready ready)
  -- the version that is accounted for was not there before
  have none : Stored codec p (· = n) c := by
    refine ⟨stored.home, stored.setup, stored.accepted, fun w m due state => ?_⟩
    have version : c.version = m + 1 := version_ready state
    omega
  exact ⟨n, ready, stored_happen (Or.inr fun f hf => by simp at hf) none⟩

/-- What a cell has reported as committed stays in its file, as long as it commits nothing else and the file is left
alone. -/
theorem stays_stored {s : Setup V} {location : Location} {hasRuntime : Bool} {b b' : Bench Memory} {w : Worker V}
    {before after : List (Event Memory V)} {transform : V → Outcome V} {v : V}
    (built : build s (some location) hasRuntime b = (.ok w, b')) (path : location.path? = some p)
    (reports : ((Session.mk w b').run before).2.Reports transform v)
    (still : ((Session.mk w b').run (before ++ .request (.update transform true) :: after)).2.version =
      ((Session.mk w b').run (before ++ [.request (.update transform true)])).2.version)
    (quiet : LeavesAlone p after) :
    ∃ bs, s.codec.encode v = .ok bs ∧
      ((Session.mk w b').run (before ++ .request (.update transform true) :: after)).2.bench.disk.get? p.place = some bs ∧
      Store.checkPath p = .ok () := by
  -- up to the report nothing is accounted for
  have begun : Stored s.codec p (fun _ => False) ((Session.mk w b').run before).2 :=
    stored_run (Or.inl fun _ => id) (stored_of_build built path)
  obtain ⟨n, ready, reported⟩ := stored_of_reports begun reports
  rw [run_append, run_append] at still
  rw [run_append]
  have stored := stored_run (Or.inr quiet) reported
  have stays := stays_ready ready (still.trans (version_ready ready))
  obtain ⟨bs, encoded, held⟩ := stored.holds v n rfl stays
  exact ⟨bs, encoded, held, stored.accepted v _ stays⟩

/-! ## What a fresh cell finds -/

/-- Whether a cell that has not looked yet will find `v` in its file, and one that has looked is not final because of
what it found. -/
structure Finds (p : Path) (v : V) (c : Session Memory V) : Prop where
  plain : c.worker.setup.migrations = []
  sound : ∀ n, c.worker.setup.decodeMishap n = none
  fresh : c.worker.state = .uninitialized → c.worker.life = .serving →
    ∃ e, c.worker.target = .opened e ∧ e.store.path = p ∧
      ∃ bs, c.bench.disk.get? p.place = some bs ∧ c.worker.setup.codec.decode bs = .ok v
  whole : ∀ cause, c.worker.state = .final (.final cause) → cause.code ≠ .dataCorruption

/-- A cell that has looked is not asked what it would find. -/
theorem Finds.settled {v : V} (finds : Finds p v c) (setup : c'.worker.setup = c.worker.setup)
    (looked : c'.worker.state ≠ .uninitialized)
    (whole : ∀ cause, c'.worker.state = .final (.final cause) → cause.code ≠ .dataCorruption) : Finds p v c' :=
  ⟨setup ▸ finds.plain, setup ▸ finds.sound, fun fresh => absurd fresh looked, whole⟩

theorem Finds.ready {v w : V} {n : Nat} (finds : Finds p v c) (setup : c'.worker.setup = c.worker.setup)
    (state : c'.worker.state = .ready w n) : Finds p v c' :=
  finds.settled setup (fun fresh => by cases fresh.symm.trans state) fun _ final => by cases final.symm.trans state

/-- A file that is there is read as it is, or not at all. -/
theorem read_present {s : Atomic} {m : Memory} {bs : Bytes} (there : m.get? s.path.place = some bs) :
    (s.read m).1 = .ok (some bs) ∨ ∃ e, (s.read m).1 = .error e := by
  cases armed : m.isArmed .read with
  | false =>
    rw [Atomic.read_unarmed s m armed, there]
    exact Or.inl rfl
  | true =>
    have armed' : ({ m with reads := m.reads + 1 } : Memory).isArmed .read = true := armed
    have failed : FileSystem.read m s.path =
        (.error Disk.Fault.read.error, ({ m with reads := m.reads + 1 } : Memory).disarm .read) := by
      change Memory.read m s.path = _
      rw [Memory.read, Memory.guarded, if_pos armed']
    have other : ¬ Disk.Fault.read.error.kind = .notFound := by decide
    refine Or.inr ⟨.readFailed s.path Disk.Fault.read.error, ?_⟩
    simp only [Atomic.read, failed, other, if_false]

theorem code_ofStore (e : Store.Error) : (Error.ofStore e).code ≠ .dataCorruption := by
  unfold Error.ofStore Error.code
  cases e.code.isConfiguration <;> exact nofun

/-- A commit does not fail for what is in the file. -/
theorem code_of_writeValue {s : Setup V} {store : Atomic} {v : V} {stop : Stop} {j j' : Job Memory}
    (failed : (Task.writeValue s store v).run j = (.error stop, j')) (c : Session Memory V) (work : String) :
    (c.stopError work stop).code ≠ .dataCorruption := by
  simp only [Task.writeValue, Task.run_bind, Task.run_encode] at failed
  rcases encoded : Task.encoded s j.tally.encodes v with e | bs <;> rw [encoded] at failed
  · cases failed
    unfold Task.encoded at encoded
    split at encoded
    · cases encoded
      intro same
      cases same
    · cases encoded
      intro same
      cases same
    · cases answer : s.codec.encode v <;> rw [answer] at encoded <;> cases encoded
      intro same
      cases same
  · simp only [Task.run_replace, Task.run_count, Task.run_pure] at failed
    rcases wrote : store.write bs j.bench.disk with ⟨e | ⟨⟩, disk⟩ <;> rw [wrote] at failed <;> cases failed
    exact code_ofStore e

theorem finds_opened {v : V} {a : Except Halt Unit} (serving : c.worker.life = .serving) (way : Opened c a c')
    (finds : Finds p v c) : Finds p v c' := by
  have setup : c'.worker.setup = c.worker.setup := setup_opened way
  have resolved (uninitialized : c.worker.state = .uninitialized) {x : Resolved} {c₁ : Session Memory V}
      (way : Resolving (c.onWorker (·.reveal .initializing)) x c₁) :
      c₁ = c.onWorker (·.reveal .initializing) ∧ ∃ store, x = .found store ∧ store.path = p ∧
        ∃ bs, c.bench.disk.get? p.place = some bs ∧ c.worker.setup.codec.decode bs = .ok v := by
    obtain ⟨e, target, home, held⟩ := finds.fresh uninitialized serving
    cases way with
    | opened target' =>
      cases target.symm.trans target'
      exact ⟨rfl, e.store, rfl, home, held⟩
    | unavailable target' => cases target.symm.trans target'
    | panicked target' => cases target.symm.trans target'
    | claimed target' => cases target.symm.trans target'
    | taken target' => cases target.symm.trans target'
  cases way with
  | ready => exact finds
  | final => exact finds
  | broke uninitialized way =>
    obtain ⟨-, store, impossible, -⟩ := resolved uninitialized way
    cases impossible
  | refused uninitialized way =>
    obtain ⟨-, store, impossible, -⟩ := resolved uninitialized way
    cases impossible
  | began => exact finds.ready setup rfl
  | @failed _ c₂ store stop uninitialized way performs =>
    obtain ⟨rfl, store', same, home, bs, held, decoded⟩ := resolved uninitialized way
    cases same
    refine finds.settled setup nofun fun cause state => ?_
    cases state
    -- What is there is read or not; if it is, it is what was stored.
    have failed : ((Task.firstValue c.worker.setup store c.worker.label).run ⟨c.bench, c.worker.tally⟩).1 =
        .error stop := congrArg Prod.fst (of_perform performs).1
    rw [run_firstValue_none finds.plain, run_readInitial _ (finds.sound _)] at failed
    rw [← home] at held
    rcases read_present held with found | ⟨e, found⟩ <;> simp only [found] at failed
    · rw [decoded] at failed
      cases failed
    · cases failed
      exact code_ofStore e

theorem finds_updated {transform : V → Outcome V} {v w : V} {n : Nat} {a : Except Error V}
    (state : c.worker.state = .ready w n) (way : Updated c transform w n a c') (finds : Finds p v c) :
    Finds p v c' := by
  have setup : c'.worker.setup = c.worker.setup := (Worker.of_fixed (fixed_updated way)).1
  cases way with
  | rejected => exact finds.ready setup ((state_of_gist (gist_note _ _ (by decide) _)).trans state)
  | unchanged => exact finds.ready setup state
  | committed => exact finds.ready setup (state_of_gist (gist_publish _ _))
  | lost _ _ _ performs =>
    refine finds.settled setup nofun fun cause final => ?_
    cases final
    exact code_of_writeValue (of_perform performs).1 _ _
  | homeless =>
    refine finds.settled setup nofun fun cause final => ?_
    cases final
    exact nofun

/-- What a cell finds is told by its worker but for the counts and the subscriptions, and by the disk. -/
theorem Finds.of_gist {v : V} (finds : Finds p v c) (gist : c'.gist = c.gist) : Finds p v c' := by
  have whole : Finds p v c'.gist := by
    rw [gist]
    exact ⟨finds.plain, finds.sound, finds.fresh, finds.whole⟩
  exact ⟨whole.plain, whole.sound, whole.fresh, whole.whole⟩

theorem finds_shutDown {v : V} (finds : Finds p v c) : Finds p v c.shutDown := by
  have setup : c.shutDown.worker.setup = c.worker.setup := congrArg (·.worker.setup) (gist_shutDown c)
  refine ⟨setup ▸ finds.plain, setup ▸ finds.sound, fun _ serving => ?_, fun cause final => ?_⟩
  · cases (life_shutDown c).symm.trans serving
  · exact finds.whole cause ((state_shutDown c).symm.trans final)

theorem finds_run {v : V} {es : List (Event Memory V)} (quiet : LeavesAlone p es) (finds : Finds p v c) :
    Finds p v (c.run es).2 := by
  induction es generalizing c with
  | nil => exact finds
  | cons e es ih =>
    refine ih (fun f hf => quiet f (List.mem_cons_of_mem _ hf)) (happen_keeps
      (fun gist finds => finds.of_gist gist) (fun _ => finds_shutDown) finds_opened (fun _ => finds_updated) ?_ finds)
    · intro c f same finds
      refine ⟨finds.plain, finds.sound, fun fresh serving => ?_, finds.whole⟩
      obtain ⟨e, target, home, bs, held, decoded⟩ := finds.fresh fresh serving
      exact ⟨e, target, home, bs, (quiet f (by simp [same]) c.bench.disk).trans held, decoded⟩

end

end Session

/-! ## A fresh cell -/

def document : Setup Json.Value where
  codec := Codec.json.codec .compact .null
  same := Json.Value.same
  marks := default

def answersLike (v : Json.Value) : List (Reply Json.Value) → Bool
  | [.answer (.ok w)] => v.same w
  | _ => false

def answersWith (e : Error) : Reply Json.Value → Bool
  | .answer (.error e') => decide (e' = e)
  | _ => false

/-- A report can be checked by running the update, as far as values can be compared. -/
theorem reports_of_same {c : Session Memory Json.Value} {transform : Json.Value → Outcome Json.Value} {v : Json.Value}
    (exact : v.Exact) (answered : answersLike v (c.happen (.request (.update transform true))).1 = true)
    (moved : c.version < (c.happen (.request (.update transform true))).2.version) : c.Reports transform v := by
  refine ⟨?_, moved⟩
  unfold answersLike at answered
  split at answered
  · rename_i reply
    rw [reply, Json.Value.eq_of_same exact answered]
  · cases answered

/-- **What was committed is read again unless it is nested too deep.** When a JSON cell has reported a value as committed,
a value without floats, and has committed nothing since, whatever else happened and be it closed, its path is free and
its file was left alone: then a fresh JSON cell can be built at the path, in either layout, and one without migrations and
without a corruption handler reads exactly that value on a disk without faults and is never final with corrupt data, if
the value is nested in less than 128 levels. If it is nested deeper, the fresh cell is final with corrupt data at once. -/
theorem committed_json_is_read_again {layout layout' : Json.Layout} {default default' v : Json.Value}
    {s s' : Setup Json.Value} {location : Location} {hasRuntime : Bool} {p : Path} {b b' : Bench Memory}
    {w : Worker Json.Value} {before after : List (Event Memory Json.Value)} {transform : Json.Value → Outcome Json.Value}
    {registry : Store.Registry} {journal : Journal}
    (codec : s.codec = Codec.json.codec layout default) (codec' : s'.codec = Codec.json.codec layout' default')
    (path : location.path? = some p) (built : build s (some location) hasRuntime b = (.ok w, b'))
    (reports : ((Session.mk w b').run before).2.Reports transform v) (exact : v.Exact)
    (still : ((Session.mk w b').run (before ++ .request (.update transform true) :: after)).2.version =
      ((Session.mk w b').run (before ++ [.request (.update transform true)])).2.version)
    (quiet : Session.LeavesAlone p after) (valid : s'.config.validate = .ok ()) (plain : s'.migrations = [])
    (unhandled : s'.handler = none) (sound : ∀ n, s'.decodeMishap n = none) :
    let c := ((Session.mk w b').run (before ++ .request (.update transform true) :: after)).2
    registry.isActive (FileSystem.canonicalKey ({ c.bench.disk with armed := [] } : Memory) p) = false →
    ∃ w' b'', build s' (some (.path p)) true
        { disk := { c.bench.disk with armed := [] }, registry := registry, journal := journal } = (.ok w', b'') ∧
      (v.nesting < Json.Reader.depthLimit →
        ((Session.mk w' b'').handle (.read true)).1 = .answer (.ok v) ∧
        ∀ es, Session.LeavesAlone p es → ∀ cause,
          ((Session.mk w' b'').run es).2.worker.state = .final (.final cause) → cause.code ≠ .dataCorruption) ∧
      (Json.Reader.depthLimit ≤ v.nesting → ∃ line column, ((Session.mk w' b'').handle (.read true)).1 =
        .answer (.error (.final (.dataCorruption (Codec.Format.errorOf (.bad .tooDeep line column)))))) := by
  intro c free
  obtain ⟨bs, encoded, held, accepted⟩ := Session.stays_stored built path reports still quiet
  have written : bs = (Codec.json.chunks layout v).flatten := by
    rw [codec] at encoded
    exact (Except.ok.inj encoded).symm
  subst written
  obtain ⟨w', b'', e, rebuilt, setup, opened, place, fresh, tally, disk⟩ := @build_at Memory _ _ _ s' p
    { disk := { c.bench.disk with armed := [] }, registry := registry, journal := journal } valid accepted free
  have there : b''.disk.get? p.place = some (Codec.json.chunks layout v).flatten :=
    (congrArg (Memory.get? · p.place) disk).trans held
  have reads : ((Session.mk w' b'').handle (.read true)).1 = .answer (s'.codec.opensAt b''.disk p) := by
    rw [← place]
    refine Session.first_read_memory fresh opened setup plain (sound _) (fun absent => ?_)
      (congrArg (Memory.isArmed · .read) disk) (Or.inl unhandled)
    rw [place, there] at absent
    cases absent
  refine ⟨w', b'', rebuilt, fun shallow => ?_, fun deep => ?_⟩
  · have decoded : s'.codec.decode (Codec.json.chunks layout v).flatten = .ok v := by
      rw [codec']
      exact Codec.decode_encoded layout exact shallow
    refine ⟨?_, fun es alone => ?_⟩
    · rw [reads]
      simp only [Codec.opensAt, there, decoded]
    · refine (Session.finds_run (v := v) alone ?_).whole
      subst setup
      exact ⟨plain, sound, fun _ _ => ⟨e, opened, place, _, there, decoded⟩,
        fun _ final => by cases fresh.symm.trans final⟩
  · obtain ⟨line, column, decoded⟩ := Codec.decode_tooDeep layout exact deep
    refine ⟨line, column, ?_⟩
    have corrupt : s'.codec.decode (Codec.json.chunks layout v).flatten =
        .error (Codec.Format.errorOf (.bad .tooDeep line column)) := by
      rw [codec']
      exact decoded
    rw [reads]
    simp only [Codec.opensAt, there, corrupt, Codec.Format.errorOf, Codec.Error.isCorruption, if_true]

/-- A list of the deepest nesting that is read. -/
theorem a_list_nested_to_the_limit_is_read_again :
    let v := Json.Value.wrapped 127
    let put : Event Memory Json.Value := .request (.update (fun _ => .returned v) true)
    let b : Bench Memory := { disk := { namespaceId := "0" }, registry := {}, journal := {} }
    ∃ w b', build document (some (.path ⟨"/d/v"⟩)) true b = (.ok w, b') ∧
      let c := ((Session.mk w b').run [put, .request .close]).2
      ∃ w' b'', build document (some (.path ⟨"/d/v"⟩)) true
          { disk := { c.bench.disk with armed := [] }, registry := c.bench.registry, journal := c.bench.journal } =
            (.ok w', b'') ∧
        ((Session.mk w' b'').handle (.read true)).1 = .answer (.ok v) := by
  intro v put b
  have checked : ((newCell document ⟨"/d/v"⟩ b).any fun c =>
      answersLike v (c.happen put).1 &&
      decide (c.version < (c.happen put).2.version ∧
        (c.run [put, .request .close]).2.version = (c.run [put]).2.version ∧
        (c.run [put, .request .close]).2.bench.registry.isActive (FileSystem.canonicalKey
          { (c.run [put, .request .close]).2.bench.disk with armed := [] } ⟨"/d/v"⟩) = false)) = true := by
    decide +kernel
  rcases start : newCell document ⟨"/d/v"⟩ b with _ | ⟨w, b'⟩ <;> rw [start] at checked
  · cases checked
  · obtain ⟨answered, computed⟩ := Bool.and_eq_true_iff.mp checked
    obtain ⟨moved, still, free⟩ := of_decide_eq_true computed
    have built := build_of_newCell start
    have shallow : v.nesting < Json.Reader.depthLimit := by
      rw [Json.Value.nesting_wrapped]
      decide
    have quiet : Session.LeavesAlone ⟨"/d/v"⟩ ([.request .close] : List (Event Memory Json.Value)) := by
      intro f hf
      simp at hf
    have exact := Json.Value.exact_wrapped 127
    obtain ⟨w', b'', rebuilt, finds, -⟩ := @committed_json_is_read_again .compact .compact .null .null v document
      document (.path ⟨"/d/v"⟩) true ⟨"/d/v"⟩ b b' w [] [.request .close] _ _ _ rfl rfl rfl built
      (reports_of_same exact answered moved) exact still quiet rfl rfl rfl (fun _ => rfl) free
    exact ⟨w, b', built, w', b'', rebuilt, (finds shallow).1⟩

/-- One list more around it, and the value is reported as committed and is corrupt for the next cell. -/
theorem a_list_nested_too_deep_is_lost :
    let v := Json.Value.wrapped 128
    let put : Event Memory Json.Value := .request (.update (fun _ => .returned v) true)
    let b : Bench Memory := { disk := { namespaceId := "0" }, registry := {}, journal := {} }
    v.Exact ∧ ∃ c, newCell document ⟨"/d/v"⟩ b = some c ∧ c.Reports (fun _ => .returned v) v ∧
      ∃ c', newCell document ⟨"/d/v"⟩ (c.run [put, .request .close]).2.bench = some c' ∧
        (c'.handle (.read true)).1 =
          .answer (.error (.final (.dataCorruption (Codec.Format.errorOf (.bad .tooDeep 1 128))))) := by
  intro v put b
  have exact := Json.Value.exact_wrapped 128
  have checked : ((newCell document ⟨"/d/v"⟩ b).any fun c =>
      answersLike v (c.happen put).1 &&
      decide (c.version < (c.happen put).2.version) &&
      (newCell document ⟨"/d/v"⟩ (c.run [put, .request .close]).2.bench).any fun c' =>
        answersWith (.final (.dataCorruption (Codec.Format.errorOf (.bad .tooDeep 1 128))))
          (c'.handle (.read true)).1) = true := by
    decide +kernel
  rcases start : newCell document ⟨"/d/v"⟩ b with _ | c <;> rw [start] at checked
  · cases checked
  · obtain ⟨first, next⟩ := Bool.and_eq_true_iff.mp checked
    obtain ⟨answered, moved⟩ := Bool.and_eq_true_iff.mp first
    refine ⟨exact, c, rfl, reports_of_same exact answered (of_decide_eq_true moved), ?_⟩
    rcases again : newCell document ⟨"/d/v"⟩ (c.run [put, .request .close]).2.bench with _ | c' <;> rw [again] at next
    · cases next
    · refine ⟨c', rfl, ?_⟩
      rw [Option.any_some, answersWith.eq_def] at next
      split at next
      · rename_i reply
        rw [reply, of_decide_eq_true next]
      · cases next

end DurableValue.Cell
