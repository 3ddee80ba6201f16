/-
  DurableValue.Proofs.Cell.Frame — what the operations of a session leave alone.

  The *core* of a session is what decides about its value: the setup, the place of the value, the state, the life of
  the worker, and the disk with the commits begun on it. The journal, the counts and the subscriptions lie around it.
  Noting, counting and everything done for subscriptions keep the core as it is; what the remaining operations do to
  it is said in one lemma for each (`ensureReady_ok`, `ensureReady_error`, `commit_cases`, `build_core`).
-/
import DurableValue.Cell.Building
import DurableValue.Proofs.Cell.Task

namespace DurableValue.Cell

open Disk (FileSystem)

def Target.path? : Target → Option Path
  | opened e => some e.store.path
  | deferred (.gives p) => some p
  | deferred (.panics _) | unavailable => none

def Target.Uses (o : Store.Options) (store : Store.Atomic) : Target → Prop
  | opened e => e.store = store
  | deferred (.gives p) => Store.Atomic.new p o = .ok store
  | deferred (.panics _) | unavailable => False

def Location.path? : Location → Option Path
  | path p => some p
  | produced (.gives p) => some p
  | produced (.panics _) => none

theorem openExclusive_new {F H : Type} [FileSystem F H] {disk : F} {r r' : Store.Registry} {p : Path}
    {o : Store.Options} {e : Store.Exclusive} (h : Store.openExclusive disk r p o = (.ok e, r')) :
    Store.Atomic.new p o = .ok e.store := by
  unfold Store.openExclusive at h
  split at h
  · cases h
  · rename_i store new
    split at h <;> cases h
    exact new

theorem new_accepted {p : Path} {o : Store.Options} {store : Store.Atomic} (h : Store.Atomic.new p o = .ok store) :
    Store.checkPath p = .ok () := by
  unfold Store.Atomic.new at h
  cases hp : Store.checkPath p with
  | error e => rw [hp] at h; cases h
  | ok _ => rfl

/-- A store is at the path that was asked for. -/
theorem new_path {p : Path} {o : Store.Options} {store : Store.Atomic} (h : Store.Atomic.new p o = .ok store) :
    store.path = p := by
  unfold Store.Atomic.new at h
  cases hp : Store.checkPath p <;> rw [hp] at h <;> cases h
  rfl

namespace Worker

variable {V : Type}

/-! ## Subscriptions -/

theorem foldl_onFeed (f : Feed V → Feed V) (ns : List Nat) (w : Worker V) :
    ns.foldl (fun (w : Worker V) n => w.onFeed n f) w =
      { w with feeds := ns.foldl (fun fs n => fs.modify n f) w.feeds } := by
  induction ns generalizing w with
  | nil => rfl
  | cons n ns ih => exact ih (w.onFeed n f)

theorem tell_eq (i : Except Error V) (w : Worker V) :
    w.tell i = { w with feeds := w.attached.foldl (fun fs n => fs.modify n (·.send i)) w.feeds } :=
  foldl_onFeed _ _ w

theorem dismiss_eq (w : Worker V) :
    w.dismiss = ({ w with
      feeds := w.attached.foldl (fun fs n => fs.modify n Feed.finish) w.feeds, attached := [] } : Worker V).count
        (·.setLive 0) := by
  unfold dismiss
  rw [foldl_onFeed]

end Worker

structure Core (F V : Type) where
  setup : Setup V
  target : Target
  state : State V
  life : Life
  disk : F
  commits : List (Commit F)
  registry : Store.Registry

namespace Session

variable {F H V : Type} [FileSystem F H] (c : Session F V)

def core (c : Session F V) : Core F V :=
  ⟨c.worker.setup, c.worker.target, c.worker.state, c.worker.life, c.bench.disk, c.bench.commits,
    c.bench.registry⟩

/-! ## Operations that keep the core -/

@[simp] theorem core_note (severity : Journal.Severity) (e : Journal.Event) (extra : List Journal.Field) :
    (c.note severity e extra).core = c.core := rfl

@[simp] theorem core_call (x : Call) : (c.call x).core = c.core := rfl

@[simp] theorem core_enter (s : State V) : (c.onWorker (·.enter s)).core = { c.core with state := s } := rfl

@[simp] theorem core_checkAttached : c.checkAttached.core = c.core := by
  simp only [checkAttached]
  split
  · rfl
  · split <;> rfl

@[simp] theorem core_publish (v : V) : (c.publish v).core = c.core := by
  unfold publish
  rw [core_checkAttached]
  simp only [onWorker, Worker.tell_eq]
  rfl

@[simp] theorem core_attach (v : V) (i : Nat) : (c.attach v i).core = c.core := by
  unfold attach
  rw [core_checkAttached]
  rfl

@[simp] theorem core_turnAway (i : Nat) (e : Error) : (c.turnAway i e).core = c.core := rfl

@[simp] theorem core_letGo (i : Nat) : (c.letGo i).core = c.core := rfl

/-! ## Final and closed -/

@[simp] theorem core_enterFinal (cause : Error) :
    (c.enterFinal cause).2.core = { c.core with state := .final (Error.final cause) } := by
  simp only [enterFinal, onWorker, Worker.tell_eq, Worker.dismiss_eq]
  rfl

@[simp] theorem core_shutDown : c.shutDown.core =
    { c.core with target := .unavailable, life := .closed, registry := c.releasePath.bench.registry } := by
  simp only [shutDown, onWorker, releasePath, Worker.dismiss_eq]
  cases c.worker.target <;> simp only [Worker.count] <;> rfl

@[simp] theorem core_refuse (r : Request V) : (c.refuse r).2.core = c.core := by
  unfold refuse
  split <;> rfl

@[simp] theorem core_forsake (r : Request V) : (c.forsake r).2.core = c.core := by
  unfold forsake
  split
  · rfl
  · exact core_refuse c _

/-! ## The value -/

/-- A store is found only by opening it, and nothing of the value changes by that. -/
theorem resolve_found {c c' : Session F V} {store : Store.Atomic} (h : c.resolve = (.found store, c')) :
    ∃ e, e.store = store ∧ c.worker.target.path? = some store.path ∧
      c'.core = { c.core with target := .opened e, registry := c'.bench.registry } ∧
      c'.worker.feeds = c.worker.feeds := by
  simp only [resolve] at h
  split at h
  · rename_i e ht
    cases h
    refine ⟨e, rfl, by rw [ht]; rfl, ?_, rfl⟩
    simp only [core, ht]
  · cases h
  · cases h
  · rename_i p ht
    split at h <;> cases h
    rename_i e he
    refine ⟨e, rfl, ?_, rfl, rfl⟩
    rw [ht, new_path (openExclusive_new (Prod.ext he rfl))]
    rfl

/-- Work changes the tally and the bench, and nothing else of the worker. -/
theorem of_perform {α : Type} {t : Task F α} {c c' : Session F V} {r : Except Stop α} (h : c.perform t = (r, c')) :
    t.run ⟨c.bench, c.worker.tally⟩ = (r, ⟨c'.bench, c'.worker.tally⟩) ∧
      c'.worker = { c.worker with tally := c'.worker.tally } ∧
      c'.core = { c.core with
        disk := c'.bench.disk, commits := c'.bench.commits, registry := c'.bench.registry } := by
  simp only [perform] at h
  rcases hr : t.run ⟨c.bench, c.worker.tally⟩ with ⟨r', j⟩
  rw [hr] at h
  cases h
  exact ⟨rfl, rfl, rfl⟩

/-- Whether the cell takes requests and has not become final. -/
def InService (c : Session F V) : Prop := c.worker.life = .serving ∧ ∀ t, c.worker.state ≠ .final t

instance : Decidable c.InService :=
  match h : c.worker.state with
  | .final t => isFalse fun up => up.2 t h
  | .uninitialized | .ready _ _ =>
    decidable_of_iff (c.worker.life = .serving)
      ⟨fun serving => ⟨serving, fun t ht => by rw [h] at ht; cases ht⟩, And.left⟩

theorem inService_of_core {c c' : Session F V} (h : c'.core = c.core) (up : c'.InService) : c.InService :=
  ⟨(congrArg Core.life h).symm.trans up.1, fun t ht => up.2 t ((congrArg Core.state h).trans ht)⟩

theorem not_inService_enterFinal (cause : Error) : ¬ (c.enterFinal cause).2.InService := by
  intro h
  exact h.2 _ (congrArg Core.state (core_enterFinal c cause))

/-- A cell that got its first value is ready, with its store open; nothing but the disk's side has changed besides. -/
theorem ensureReady_ok {c c' : Session F V} (fresh : c.worker.state = .uninitialized)
    (h : c.ensureReady = (.ok (), c')) :
    ∃ e v, c.worker.target.path? = some e.store.path ∧ c'.worker.target = .opened e ∧
      c'.worker.state = .ready v 0 ∧ c'.worker.setup = c.worker.setup ∧ c'.worker.life = c.worker.life ∧
      c'.worker.feeds = c.worker.feeds := by
  simp only [ensureReady, fresh] at h
  split at h
  · cases h
  · cases h
  · rename_i store c₁ found
    obtain ⟨e, rfl, path, core, feeds⟩ := resolve_found found
    split at h
    · rename_i v c₂ performed
      cases h
      obtain ⟨-, same, -⟩ := of_perform performed
      refine ⟨e, v, path, (congrArg Worker.target same).trans (congrArg Core.target core), rfl,
        (congrArg Worker.setup same).trans (congrArg Core.setup core),
        (congrArg Worker.life same).trans (congrArg Core.life core), (congrArg Worker.feeds same).trans feeds⟩
    · cases h

/-- A cell that is refused a value is out of service. -/
theorem ensureReady_error {c c' : Session F V} {halt : Halt} (h : c.ensureReady = (.error halt, c')) :
    ¬ c'.InService := by
  simp only [ensureReady] at h
  split at h
  · cases h
  · rename_i t ht
    cases h
    exact fun up => up.2 t ht
  · split at h
    · cases h
      exact fun up => by cases up.1
    · cases h
      exact not_inService_enterFinal _ _
    · split at h
      · cases h
      · cases h
        exact not_inService_enterFinal _ _

theorem ensureReady_ready {v : V} {n : Nat} (h : c.worker.state = .ready v n) : c.ensureReady = (.ok (), c) := by
  simp [ensureReady, h]

/-- A commit puts the value's encoding out and makes it the value, or leaves the cell final. -/
theorem commit_cases (v : V) (n : Nat) :
    (∃ c', c.commit v n = (.ok v, c') ∧ ∃ e bs disk, c.worker.target = .opened e ∧
        c.worker.setup.codec.encode v = .ok bs ∧ e.store.write bs c.bench.disk = (.ok (), disk) ∧
        c'.core = { c.core with
          state := .ready v n, disk := disk, commits := ⟨e.store, bs, c.bench.disk⟩ :: c.bench.commits }) ∨
      ∃ t c', c.commit v n = (.error t, c') ∧ ¬ c'.InService := by
  simp only [commit]
  split
  · rename_i e ht
    split
    · rename_i size c' performed
      refine Or.inl ⟨_, rfl, e, ?_⟩
      obtain ⟨ran, -, kept⟩ := of_perform performed
      obtain ⟨bs, encoded, written, begun, registry⟩ := Task.writeValue_ok ran
      refine ⟨bs, _, ht, encoded, written, ?_⟩
      have begun : c'.bench.commits = ⟨e.store, bs, c.bench.disk⟩ :: c.bench.commits := begun
      have registry : c'.bench.registry = c.bench.registry := registry
      rw [core_publish, core_enter, core_note, kept, begun, registry]
      rfl
    · exact Or.inr ⟨_, _, rfl, not_inService_enterFinal _ _⟩
  · exact Or.inr ⟨_, _, rfl, not_inService_enterFinal _ _⟩

end Session

/-! ## From the start -/

/-- A cell that was built has been asked nothing, and its path is claimed or to be made. -/
theorem build_core {F H V : Type} [FileSystem F H] {s : Setup V} {location : Location} {hasRuntime : Bool}
    {b b' : Bench F} {w : Worker V} (built : build s (some location) hasRuntime b = (.ok w, b')) :
    ∃ target registry, (Session.mk w b').core = ⟨s, target, .uninitialized, .serving, b.disk, b.commits, registry⟩ ∧
      target.path? = location.path? ∧
      ∀ p store, location.path? = some p → target.Uses s.config.storeOptions store →
        Store.Atomic.new p s.config.storeOptions = .ok store := by
  unfold build at built
  split at built
  · cases built
  · split at built
    · cases built
    · cases built
    · rename_i given
      cases given
      split at built
      · cases built
      · rename_i target label b₁ claimed
        cases built
        refine ⟨target, b₁.registry, ?_⟩
        cases location with
        | produced producer =>
          cases claimed
          cases producer with
          | panics m => exact ⟨rfl, rfl, fun _ _ none => by cases none⟩
          | gives p => exact ⟨rfl, rfl, fun _ _ path uses => by cases path; exact uses⟩
        | path p =>
          simp only [claim] at claimed
          rcases opened : Store.openExclusive b.disk b.registry p s.config.storeOptions with ⟨e | e, r⟩ <;>
            rw [opened] at claimed <;> cases claimed
          have new := openExclusive_new opened
          refine ⟨rfl, congrArg some (new_path new), fun _ _ path uses => ?_⟩
          cases path
          cases uses
          exact new

/-- A cell that is built at an accepted path which is free owns that path, and has only claimed it so far. -/
theorem build_free {F H V : Type} [FileSystem F H] {s : Setup V} {p : Path} {b : Bench F}
    (valid : s.config.validate = .ok ()) (accepted : Store.checkPath p = .ok ())
    (free : b.registry.isActive (FileSystem.canonicalKey b.disk p) = false) :
    ∃ w b', build s (some (.path p)) true b = (.ok w, b') ∧ w.setup = s ∧
      w.target = .opened ⟨⟨p, p.withSuffix s.config.scratchSuffix, s.config.syncDirectory⟩,
        ⟨FileSystem.canonicalKey b.disk p⟩⟩ ∧
      w.state = .uninitialized ∧ w.tally = {} ∧ w.life = .serving ∧ b'.disk = b.disk ∧ b'.commits = b.commits ∧
      b'.registry = ⟨(FileSystem.canonicalKey b.disk p).components :: b.registry.active⟩ := by
  have opened : Store.openExclusive b.disk b.registry p s.config.storeOptions =
      (.ok ⟨⟨p, p.withSuffix s.config.scratchSuffix, s.config.syncDirectory⟩, ⟨FileSystem.canonicalKey b.disk p⟩⟩,
        ⟨(FileSystem.canonicalKey b.disk p).components :: b.registry.active⟩) := by
    simp only [Store.openExclusive, Store.Atomic.new, accepted, Store.Registry.acquire, free]
    rfl
  simp only [build, valid, claim, opened]
  exact ⟨_, _, rfl, rfl, rfl, rfl, rfl, rfl, rfl, rfl, rfl⟩

/-- A cell can be built at any accepted path that is free. -/
theorem build_at {F H V : Type} [FileSystem F H] {s : Setup V} {p : Path} {b : Bench F}
    (valid : s.config.validate = .ok ()) (accepted : Store.checkPath p = .ok ())
    (free : b.registry.isActive (FileSystem.canonicalKey b.disk p) = false) :
    ∃ w b' e, build s (some (.path p)) true b = (.ok w, b') ∧ w.setup = s ∧ w.target = .opened e ∧
      e.store.path = p ∧ w.state = .uninitialized ∧ w.tally = {} ∧ b'.disk = b.disk := by
  obtain ⟨w, b', built, setup, target, fresh, tally, -, disk, -⟩ := build_free valid accepted free
  exact ⟨w, b', _, built, setup, target, rfl, fresh, tally, disk⟩

end DurableValue.Cell
