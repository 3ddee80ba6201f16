/-
  DurableValue.Proofs.Cell.Restart — what a cell finds when it is opened again.

  However a run of a cell ends, and wherever between two operations of the file system its process does, the file
  holds the bytes of the newest published commit, or the old contents if none was published. All commits but the
  newest have returned, so the commit that is found is the last one that returned, or the newest one, which was under
  way or failed behind its rename.

  Proved:
  - `newest_published`: which commit that is.
  - `first_read`, `first_read_memory`: the first read is answered by the initialization, and without migrations from
    what the file holds.
  - `restart_finds_newest`: a cell that is opened there afterwards starts from the value of that commit, or from what
    the old file gives.
-/
import DurableValue.Proofs.Cell.Commits
import DurableValue.Proofs.Store.Doomed
import DurableValue.Proofs.Store.Unarmed

namespace DurableValue

open Disk (FileSystem Memory Doomed)

/-- What a cell without migrations makes of what is at its path. -/
def Codec.opensAt {V : Type} (codec : Codec V) (m : Memory) (p : Path) : Except Cell.Error V :=
  match m.get? p.place with
  | some bs =>
    match codec.decode bs with
    | .ok v => .ok v
    | .error e => .error (.final (if e.isCorruption then .dataCorruption e else .codecFailed e))
  | none =>
    if m.hasDir p.place then .error (.final (.ofStore (.readFailed p (Memory.noFile p.place))))
    else .ok codec.default

namespace Cell

open Store (Atomic Keeper)

/-! ## Reading again -/

variable {F H V : Type} [FileSystem F H]

/-- What is read at the first attempt, when no mishap befalls the codec. -/
theorem run_readInitial {s : Setup V} {store : Atomic} (label : String) {j : Job F}
    (sound : s.decodeMishap j.tally.decodes = none) :
    ((Task.readInitial s store label).run j).1 = match (store.read j.bench.disk).1 with
      | .error e => .error (.failed (.ofStore e))
      | .ok none => Task.made s
      | .ok (some bs) =>
        match s.codec.decode bs with
        | .ok v => .ok v
        | .error e =>
          if e.isCorruption then
            ((Task.recover s store label e).run
              ⟨{ j.bench with disk := (store.read j.bench.disk).2 }, { j.tally with decodes := j.tally.decodes + 1 }⟩).1
          else .error (.failed (.codecFailed e)) := by
  simp only [Task.readInitial, Task.run_bind, Task.run_readStore]
  rcases store.read j.bench.disk with ⟨e | _ | bs, d⟩
  · rfl
  · have mapped : (Except.ok none : Except Store.Error (Option Bytes)).mapError
        (fun e => Stop.failed (.ofStore e)) = .ok none := rfl
    simp only [mapped, Task.run_makeDefault]
  · have mapped : (Except.ok (some bs) : Except Store.Error (Option Bytes)).mapError
        (fun e => Stop.failed (.ofStore e)) = .ok (some bs) := rfl
    simp only [mapped, Task.decode, Task.run_bind, Task.run_get, Task.run_modify, sound, Task.run_pure]
    cases s.codec.decode bs with
    | ok v => rfl
    | error e =>
      simp only []
      split
      · rfl
      · rfl

theorem run_applyMigrations_none {s : Setup V} (none : s.migrations = []) (store : Atomic) (label : String) (v : V)
    (j : Job F) : (Task.applyMigrations s store label v).run j = (.ok v, j) := by
  simp only [Task.applyMigrations, Task.numbered, none]
  rfl

/-- Without migrations the first value is what was read. -/
theorem run_firstValue_none {s : Setup V} (none : s.migrations = []) (store : Atomic) (label : String) (j : Job F) :
    ((Task.firstValue s store label).run j).1 =
      ((Task.readInitial s store label).run
        { j with bench.journal := (Task.scope s label).opening j.bench.journal }).1 := by
  rw [Task.run_firstValue]
  simp only [Task.run_bind]
  rcases (Task.readInitial s store label).run
    { j with bench.journal := (Task.scope s label).opening j.bench.journal } with ⟨e | v, j'⟩
  · rfl
  · simp only [run_applyMigrations_none none]

namespace Session

/-- The first answer of a cell is the first value, or says why there is none. -/
theorem first_read {c : Session F V} {e : Store.Exclusive} (fresh : c.worker.state = .uninitialized)
    (opened : c.worker.target = .opened e) :
    (c.handle (.read true)).1 = .answer
      ((((Task.firstValue c.worker.setup e.store c.worker.label).run ⟨c.bench, c.worker.tally⟩).1).mapError
        fun stop => .final (c.stopError "initialization" stop)) := by
  have resolved : (c.onWorker (·.reveal .initializing)).resolve =
      (.found e.store, c.onWorker (·.reveal .initializing)) := by
    have target : (c.onWorker (·.reveal .initializing)).worker.target = .opened e := opened
    simp only [resolve, target]
  simp only [handle, ensureReady, fresh, resolved]
  rcases performed : (c.onWorker (·.reveal .initializing)).perform
    (Task.firstValue (c.onWorker (·.reveal .initializing)).worker.setup e.store
      (c.onWorker (·.reveal .initializing)).worker.label) with ⟨stop | v, c'⟩
  · obtain ⟨ran, same, -⟩ := of_perform performed
    have ran' : (Task.firstValue c.worker.setup e.store c.worker.label).run ⟨c.bench, c.worker.tally⟩ = _ := ran
    have setup := congrArg Worker.setup same
    have setup : c'.worker.setup = c.worker.setup := setup
    have cause : c'.stopError "initialization" stop = c.stopError "initialization" stop := by
      cases stop <;> simp only [stopError, setup]
    rw [ran']
    exact congrArg (fun cause => Reply.answer (.error (.final cause))) cause
  · obtain ⟨ran, -, -⟩ := of_perform performed
    have ran' : (Task.firstValue c.worker.setup e.store c.worker.label).run ⟨c.bench, c.worker.tally⟩ = _ := ran
    rw [ran']
    rfl

/-- The first answer of a cell without migrations, on a disk without faults. -/
theorem first_read_memory {s : Setup V} {c : Session Memory V} {e : Store.Exclusive}
    (fresh : c.worker.state = .uninitialized) (opened : c.worker.target = .opened e) (setup : c.worker.setup = s)
    (none : s.migrations = []) (sound : s.decodeMishap c.worker.tally.decodes = .none)
    (made : c.bench.disk.get? e.store.path.place = .none → s.defaultPanic = .none)
    (unarmed : c.bench.disk.isArmed .read = false)
    (unrepaired : s.handler = .none ∨ ∃ v, s.codec.opensAt c.bench.disk e.store.path = .ok v) :
    (c.handle (.read true)).1 = .answer (s.codec.opensAt c.bench.disk e.store.path) := by
  rw [first_read fresh opened, setup, run_firstValue_none none, run_readInitial _ sound]
  have found := Atomic.read_unarmed e.store c.bench.disk unarmed
  simp only [found, Atomic.unarmedReading, Codec.opensAt] at unrepaired ⊢
  cases held : c.bench.disk.get? e.store.path.place with
  | none =>
    simp only [Task.made, made held]
    cases c.bench.disk.hasDir e.store.path.place <;> rfl
  | some bs =>
    simp only [held] at unrepaired ⊢
    cases decoded : s.codec.decode bs with
    | ok v => rfl
    | error x =>
      simp only [decoded] at unrepaired ⊢
      split
      · rename_i corrupt
        rcases unrepaired with unrepaired | ⟨v, impossible⟩
        · simp only [Task.recover, Task.run_bind, unrepaired]
          rfl
        · cases impossible
      · rfl

end Session

/-! ## The newest commit -/

/-- Where the newest published commit stands among the others: what is newer has failed, and is one at most; what is
older has returned; and it has returned itself unless it is the newest of all. -/
theorem newest_published {cs : List (Commit F)} {commit : Commit F} (returned : ∀ c ∈ cs.tail, c.HasReturned)
    (found : cs.find? Commit.isPublished = some commit) :
    ∃ newer older, cs = newer ++ commit :: older ∧ newer.length ≤ 1 ∧ (∀ c ∈ newer, ¬ c.HasReturned) ∧
      (∀ c ∈ older, c.HasReturned) ∧ (commit.HasReturned ∨ newer = []) := by
  obtain ⟨-, newer, older, rfl, unpublished⟩ := List.find?_eq_some_iff_append.mp found
  have failed : ∀ c ∈ newer, ¬ c.HasReturned := by
    intro c hc done
    have := unpublished c hc
    rw [Commit.isPublished_of_returned done] at this
    cases this
  refine ⟨newer, older, rfl, ?_, failed, ?_, ?_⟩
  · rcases newer with _ | ⟨c, _ | ⟨d, newer⟩⟩
    · exact Nat.zero_le 1
    · exact Nat.le_refl 1
    · exact absurd (returned d (by simp)) (failed d (by simp))
  · intro c hc
    refine returned c ?_
    rcases newer with _ | ⟨d, newer⟩ <;> simp [hc]
  · rcases newer with _ | ⟨d, newer⟩
    · exact Or.inr rfl
    · exact Or.inl (returned commit (by simp))

/-- From the building of a cell to wherever its run ended, the file is accounted for. -/
theorem kept_of_build {s : Setup V} {location : Location} {hasRuntime : Bool} {store : Atomic} {b b' : Bench Doomed}
    {w : Worker V} {es : List (Event Doomed V)} (path : location.path? = some store.path)
    (accepted : Atomic.new store.path s.config.storeOptions = .ok store)
    (apart : store.scratch.place ≠ store.path.place)
    (built : build s (some location) hasRuntime b = (.ok w, b')) (unbegun : b.commits = [])
    (quiet : ∀ f, .outside f ∈ es → ∀ d, (f d).disk.get? store.path.place = d.disk.get? store.path.place ∧
      (f d).disk.hasDir store.path.place = d.disk.hasDir store.path.place) :
    Kept (Keeper.doomed store (new_accepted accepted) apart (b.disk.disk.hasDir store.path.place)) s.codec
      (b.disk.disk.get? store.path.place) ((Session.mk w b').run es).2.bench.ledger := by
  let k := Keeper.doomed store (new_accepted accepted) apart (b.disk.disk.hasDir store.path.place)
  obtain ⟨target, registry, core, -, uses⟩ := build_core built
  have setup : w.setup = s := congrArg Core.setup core
  have disk : b'.disk = b.disk := congrArg Core.disk core
  have start : Session.Accounts k w.setup.codec (b'.disk.disk.get? store.path.place) (Session.mk w b') := by
    have unbegun' : b'.commits = [] := (congrArg Core.commits core).trans unbegun
    refine Session.accounts_of_start (k := k) (c := ⟨w, b'⟩) (fun st hst => ?_) ?_ (fun _ h => h.elim) unbegun'
    · have hst : w.target.Uses w.setup.config.storeOptions st := hst
      rw [setup, show w.target = target from congrArg Core.target core] at hst
      cases accepted.symm.trans (uses _ st path hst)
      rfl
    · exact congrArg (fun d : Doomed => d.disk.hasDir store.path.place) disk
  rw [setup, disk] at start
  refine (Session.run_kept start fun f hf d hd => ?_).kept
  obtain ⟨contents, dir⟩ := quiet f hf d
  exact ⟨dir.trans hd, contents, fun _ h => h.elim⟩

/-- **A restart finds the newest published commit.** Whatever one cell went through, and wherever its process ended, a
cell that is opened at the same path afterwards, with no migrations and no fault armed, starts from the value of the
newest commit whose rename took effect, or from what the old file gives if there was none. Only in the second case can
the codec's default be asked for, which must not panic then. -/
theorem restart_finds_newest {s s' : Setup V} {location : Location} {hasRuntime : Bool} {p : Path} {store : Atomic}
    {b b' : Bench Doomed} {w : Worker V} {es : List (Event Doomed V)} {registry : Store.Registry} {journal : Journal}
    (path : location.path? = some p) (accepted : Atomic.new p s.config.storeOptions = .ok store)
    (apart : store.scratch.place ≠ store.path.place)
    (law : ∀ v bs, s.codec.encode v = .ok bs → s.codec.decode bs = .ok v)
    (built : build s (some location) hasRuntime b = (.ok w, b')) (unbegun : b.commits = [])
    (quiet : ∀ f, .outside f ∈ es → ∀ d, (f d).disk.get? p.place = d.disk.get? p.place ∧
      (f d).disk.hasDir p.place = d.disk.hasDir p.place)
    (codec : s'.codec = s.codec) (none : s'.migrations = []) (sound : ∀ n, s'.decodeMishap n = .none)
    (valid : s'.config.validate = .ok ())
    (free : registry.isActive (FileSystem.canonicalKey ((Session.mk w b').run es).2.bench.disk p) = false) :
    let c := ((Session.mk w b').run es).2
    ∃ w' b'', build s' (some (.path p)) true
        { disk := { c.bench.disk.disk with armed := [] }, registry := registry, journal := journal } = (.ok w', b'') ∧
      match c.bench.commits.find? Commit.isPublished with
      | .none => s'.defaultPanic = .none → s'.handler = .none ∨ (∃ v, s.codec.opensAt b.disk.disk p = .ok v) →
          ((Session.mk w' b'').handle (.read true)).1 = .answer (s.codec.opensAt b.disk.disk p)
      | some commit => (∃ v, s.codec.encode v = .ok commit.bytes ∧
            ((Session.mk w' b'').handle (.read true)).1 = .answer (.ok v)) ∧
          ∃ newer older, c.bench.commits = newer ++ commit :: older ∧ newer.length ≤ 1 ∧
            (∀ d ∈ newer, ¬ d.HasReturned) ∧ (∀ d ∈ older, d.HasReturned) ∧ (commit.HasReturned ∨ newer = []) := by
  intro c
  obtain rfl : store.path = p := new_path accepted
  have kept : Kept _ s.codec (b.disk.disk.get? store.path.place) c.bench.ledger :=
    kept_of_build path accepted apart built unbegun quiet
  have real : c.bench.disk.disk.get? store.path.place = published _ c.bench.commits := kept.real
  obtain ⟨w', b'', e, rebuilt, setup, opened, place, fresh, tally, disk⟩ := @build_at Memory _ V _ s' store.path
    { disk := { c.bench.disk.disk with armed := [] }, registry := registry, journal := journal } valid
    (new_accepted accepted) free
  refine ⟨w', b'', rebuilt, ?_⟩
  -- What the new cell answers first, in terms of the disk that the process left.
  have reads (made : c.bench.disk.disk.get? store.path.place = .none → s'.defaultPanic = .none)
      (unrepaired : s'.handler = .none ∨ ∃ v, s.codec.opensAt c.bench.disk.disk store.path = .ok v) :
      ((Session.mk w' b'').handle (.read true)).1 = .answer (s.codec.opensAt c.bench.disk.disk store.path) := by
    have same : s'.codec.opensAt b''.disk e.store.path = s.codec.opensAt c.bench.disk.disk store.path := by
      rw [codec, place, disk]
      rfl
    rw [← same] at unrepaired ⊢
    refine Session.first_read_memory fresh opened setup none (sound _) (fun absent => made ?_) ?_ unrepaired
    · rw [place, disk] at absent
      exact absent
    · exact congrArg (Memory.isArmed · .read) disk
  cases found : c.bench.commits.find? Commit.isPublished with
  | none =>
    simp only []
    intro made unrepaired
    have same : s.codec.opensAt c.bench.disk.disk store.path = s.codec.opensAt b.disk.disk store.path := by
      rw [published, found] at real
      have dir : c.bench.disk.disk.hasDir store.path.place = b.disk.disk.hasDir store.path.place := kept.fine
      simp only [Codec.opensAt, real, dir]
    rw [← same] at unrepaired ⊢
    exact reads (fun _ => made) unrepaired
  | some commit =>
    obtain ⟨v, encoded⟩ := kept.encoded commit (List.mem_of_find?_eq_some found)
    rw [published, found] at real
    have finds : s.codec.opensAt c.bench.disk.disk store.path = .ok v := by
      simp only [Codec.opensAt, real, law v commit.bytes encoded]
    refine ⟨⟨v, encoded, ?_⟩, newest_published kept.returned found⟩
    rw [reads (fun absent => by cases real.symm.trans absent) (Or.inr ⟨v, finds⟩), finds]

/-- The process ends while the second flip is being written: the first one is what is found. -/
theorem a_torn_second_flip_leaves_the_first :
    let flip : Event Doomed Bool := .request (.update (fun v => .returned !v) true)
    let b : Bench Doomed := { disk := ⟨{ namespaceId := "0" }, 10, 0, false⟩, registry := {}, journal := {} }
    ∃ w b', build switch (some (.path ⟨"/d/v"⟩)) true b = (.ok w, b') ∧
      ∃ w' b'', build switch (some (.path ⟨"/d/v"⟩)) true
          { disk := { ((Session.mk w b').run [flip, flip]).2.bench.disk.disk with armed := [] }, registry := {},
            journal := {} } = (.ok w', b'') ∧
        ((Session.mk w' b'').handle (.read true)).1 = .answer (.ok true) := by
  intro flip b
  have checked : ((newCell switch ⟨"/d/v"⟩ b).any fun c =>
      decide (((c.run [flip, flip]).2.bench.commits.find? Commit.isPublished).map Commit.bytes = some [1])) = true := by
    decide +kernel
  rcases start : newCell switch ⟨"/d/v"⟩ b with _ | ⟨w, b'⟩ <;> rw [start] at checked
  · cases checked
  · have built := build_of_newCell start
    have accepted : Atomic.new ⟨"/d/v"⟩ switch.config.storeOptions = .ok (switchStore ⟨"/d/v"⟩) :=
      new_switchStore (by decide +kernel)
    have law : ∀ v bs, switch.codec.encode v = .ok bs → switch.codec.decode bs = .ok v := by
      intro v bs h
      cases v <;> cases h <;> rfl
    have valid : switch.config.validate = .ok () := by rfl
    have quiet : ∀ f, .outside f ∈ [flip, flip] → ∀ d : Doomed,
        (f d).disk.get? (Path.mk "/d/v").place = d.disk.get? (Path.mk "/d/v").place ∧
          (f d).disk.hasDir (Path.mk "/d/v").place = d.disk.hasDir (Path.mk "/d/v").place := by
      intro f hf
      simp [flip] at hf
    obtain ⟨w', b'', rebuilt, finds⟩ := @restart_finds_newest Bool switch switch (.path ⟨"/d/v"⟩) true ⟨"/d/v"⟩ _ b b' w
      [flip, flip] {} {} rfl accepted (by decide +kernel) law built rfl quiet rfl rfl (fun _ => rfl) valid rfl
    refine ⟨w, b', built, w', b'', rebuilt, ?_⟩
    have newest := of_decide_eq_true checked
    cases found : ((Session.mk w b').run [flip, flip]).2.bench.commits.find? Commit.isPublished with
    | none => rw [found] at newest; cases newest
    | some commit =>
      simp only [found] at newest finds
      obtain ⟨⟨v, encoded, answer⟩, -⟩ := finds
      have bytes : commit.bytes = [1] := Option.some.inj newest
      rw [bytes] at encoded
      cases v with
      | true => exact answer
      | false => cases encoded

end Cell

end DurableValue
