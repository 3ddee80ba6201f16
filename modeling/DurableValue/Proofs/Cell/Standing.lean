/-
  DurableValue.Proofs.Cell.Standing — how a subscription stands, from its request on.

  Until its request is taken nothing is sent to a subscription; once it was taken there is a first item; and one that
  was refused holds the error of a closed cell and has ended (`Standing`).

  Proved:
  - `stands_happen`: events that are not its own leave a subscription where it stands, as long as its receiver stays.
  - `stands_subscribe`: its own request moves it on.
  - `length_handle`, `length_refuse`: requests make no feed and lose none.
  - `adds_run`: a cell has added to the registry what it holds, and nothing else, so a closed one leaves no trace
    there.
-/
import DurableValue.Proofs.Cell.Owners
import DurableValue.Proofs.Cell.Streams

namespace DurableValue.Cell

open Disk (FileSystem)

variable {F H V : Type} [FileSystem F H]

/-! ## The number of feeds -/

theorem length_foldl_modify (f : Feed V → Feed V) (ns : List Nat) (fs : List (Feed V)) :
    (ns.foldl (fun fs n => fs.modify n f) fs).length = fs.length := by
  induction ns generalizing fs with
  | nil => rfl
  | cons n ns ih => rw [List.foldl_cons, ih, List.length_modify]

namespace Worker

@[simp] theorem length_tell (x : Except Error V) (w : Worker V) : (w.tell x).feeds.length = w.feeds.length := by
  rw [tell_eq]
  exact length_foldl_modify _ _ _

@[simp] theorem length_dismiss (w : Worker V) : w.dismiss.feeds.length = w.feeds.length := by
  rw [dismiss_eq]
  exact length_foldl_modify _ _ _

@[simp] theorem length_onFeed (i : Nat) (f : Feed V → Feed V) (w : Worker V) :
    (w.onFeed i f).feeds.length = w.feeds.length := List.length_modify _ _ _

end Worker

namespace Session

variable {c c' : Session F V} {i : Nat}

theorem length_publish (v : V) : (c.publish v).worker.feeds.length = c.worker.feeds.length := by
  unfold publish
  rw [(feeds_checkAttached _).1]
  simp only [onWorker, Worker.length_tell]
  rfl

theorem length_attach (v : V) : (c.attach v i).worker.feeds.length = c.worker.feeds.length := by
  unfold attach
  rw [(feeds_checkAttached _).1]
  exact Worker.length_onFeed _ _ _

theorem length_enterFinal (cause : Error) :
    (c.enterFinal cause).2.worker.feeds.length = c.worker.feeds.length := by
  have told := Worker.length_dismiss (c.worker.tell (.error (.final cause)))
  rw [Worker.length_tell] at told
  exact told

theorem length_updated {transform : V → Outcome V} {v : V} {n : Nat} {a : Except Error V}
    (h : Updated c transform v n a c') : c'.worker.feeds.length = c.worker.feeds.length := by
  cases h with
  | rejected => rfl
  | unchanged => rfl
  | committed result changed target performs =>
    rw [length_publish]
    exact congrArg List.length (lists_of_performed performs).1
  | lost result changed target performs =>
    rw [length_enterFinal, (lists_of_performed performs).1]
    rfl
  | homeless => exact length_enterFinal _

theorem length_handle (listed : c.Listed) (r : Request V) :
    (c.handle r).2.worker.feeds.length = c.worker.feeds.length := by
  have ensures := congrArg List.length (lists_opened listed (opened c)).1
  cases r with
  | update transform isAwaited =>
    cases isAwaited with
    | false => rfl
    | true =>
      rcases ensured : c.ensureReady with ⟨halt | ⟨⟩, c₁⟩ <;> rw [ensured] at ensures <;> simp only [handle, ensured]
      · exact ensures
      · obtain ⟨-, v, n, state⟩ := ready_of_ensured ensured
        exact (length_updated (updated state transform)).trans ensures
  | read isAwaited =>
    cases isAwaited with
    | false => rfl
    | true => rcases ensured : c.ensureReady with ⟨halt | ⟨⟩, c₁⟩ <;> rw [ensured] at ensures <;>
        simp only [handle, ensured] <;> exact ensures
  | subscribe j =>
    simp only [handle]
    split
    · rcases ensured : c.ensureReady with ⟨(t | _) | ⟨⟩, c₁⟩ <;> rw [ensured] at ensures
      · exact (Worker.length_onFeed _ _ _).trans ensures
      · exact (Worker.length_onFeed _ _ _).trans ensures
      · obtain ⟨-, v, n, state⟩ := ready_of_ensured ensured
        simp only [state]
        exact (length_attach v).trans ensures
    · exact Worker.length_onFeed _ _ _
  | close => exact Worker.length_dismiss c.worker

theorem length_refuse (r : Request V) : (c.refuse r).2.worker.feeds.length = c.worker.feeds.length := by
  unfold refuse
  split
  · rfl
  · rfl
  · rfl
  · rfl
  · exact Worker.length_onFeed _ _ _
  · rfl

end Session

/-! ## Receivers -/

/-- What one receiver does is no matter to another. -/
theorem keeps_modify {i j : Nat} (ne : j ≠ i) (f : Feed V → Feed V) : Keeps i (·.modify j f) := by
  intro fs
  have same : (fs.modify j f)[i]? = fs[i]? := by simp [ne]
  cases found : fs[i]? with
  | some x => exact ⟨x, same.trans found, rfl, rfl, rfl⟩
  | none =>
    intro y hy
    cases (same.trans found).symm.trans hy

/-- To take an item changes nothing that was sent. -/
theorem keeps_next (i j : Nat) : Keeps i (·.modify j fun f : Feed V => f.next.2) := by
  by_cases ne : j = i
  · subst ne
    intro fs
    have taken : (fs.modify j fun f => f.next.2)[j]? = fs[j]?.map fun f => f.next.2 := by simp
    cases found : fs[j]? with
    | some x =>
      refine ⟨x.next.2, taken.trans (by rw [found]; rfl), ?_⟩
      unfold Feed.next
      split <;> exact ⟨rfl, rfl, rfl⟩
    | none =>
      intro y hy
      rw [found] at taken
      cases taken.symm.trans hy
  · exact keeps_modify ne _

/-! ## Where a subscription stands -/

inductive Standing where
  /-- Its request was not taken yet. -/
  | asked
  /-- It was sent something. -/
  | answered
  /-- It was refused by a closed cell. -/
  | refused
  deriving DecidableEq

namespace Session

variable {c : Session F V} {i : Nat}

def Stands (i : Nat) (c : Session F V) : Standing → Prop
  | .asked => Unheard i c
  | .answered => ∃ sent isOpen, sent ≠ [] ∧ Stream i sent isOpen c
  | .refused => Stream i [.error .closed] false c

theorem stands_happen {e : Event F V} {standing : Standing} (passes : Passes i e) (listed : c.Listed)
    (stands : Stands i c standing) : Stands i (c.happen e).2 standing := by
  cases standing with
  | asked => exact unheard_happen passes listed stands
  | refused => exact ended_happen passes listed stands
  | answered =>
    obtain ⟨sent, isOpen, some, stream⟩ := stands
    cases isOpen with
    | false => exact ⟨sent, false, some, ended_happen passes listed stream⟩
    | true =>
      -- An open stream has a place on the list, which only a cell keeps that is ready.
      have place : c.worker.attached.count i = 1 := by
        obtain ⟨f, seat, -⟩ := stream
        exact congrArg Seat.places seat
      rcases listed with nobody | ⟨serving, v, n, ready⟩
      · rw [nobody] at place
        cases place
      · rcases goesOn_happen serving ready passes stream with ⟨v', -, -, stream', -⟩ | ⟨-, stream', -⟩
        · exact ⟨_, true, by simp [some], stream'⟩
        · exact ⟨_, false, by simp [some], stream'⟩

/-- The request for a subscription is answered by a cell that serves, and refused by one that is closed. -/
theorem stands_subscribe (unheard : Unheard i c) (made : i < c.worker.feeds.length) (listed : c.Listed)
    (calm : ∀ m, c.worker.target ≠ .deferred (.panics m)) (sound : c.worker.life ≠ .broken) :
    Stands i (c.happen (.request (.subscribe i))).2 (if c.worker.life = .closed then .refused else .answered) := by
  have listens : c.worker.hasListener i = true := by
    have found : c.worker.feeds[i]? = some c.worker.feeds[i] := List.getElem?_eq_getElem made
    simp [Worker.hasListener, found, (unheard.2 _ found).2.2]
  rcases stream_of_subscribe unheard listens listed calm sound rfl with
    ⟨serving, -, v, n, -, stream⟩ | ⟨serving, t, -, stream⟩ | ⟨closed, -, stream⟩
  · rw [if_neg (by simp [serving])]
    exact ⟨_, true, by simp, stream⟩
  · rw [if_neg (by simp [serving])]
    exact ⟨_, false, by simp, stream⟩
  · rw [if_pos closed]
    exact stream

/-- A subscription that was answered has ended once the cell is closed. -/
theorem ended_of_closed {sent : List (Except Error V)} {isOpen : Bool} (closed : c.worker.life = .closed)
    (listed : c.Listed) (stream : Stream i sent isOpen c) : isOpen = false := by
  obtain ⟨f, seat, -⟩ := stream
  have place : c.worker.attached.count i = isOpen.toNat := congrArg Seat.places seat
  rcases listed with nobody | ⟨serving, -⟩
  · rw [nobody] at place
    cases isOpen
    · rfl
    · cases place
  · cases closed.symm.trans serving

/-! ## Serving -/

/-- A request that is not to close leaves a cell in service, if its path is made without a panic. -/
theorem life_handle {r : Request V} (other : r ≠ .close) (serving : c.worker.life = .serving)
    (calm : ∀ m, c.worker.target ≠ .deferred (.panics m)) : (c.handle r).2.worker.life = .serving := by
  have ensures : c.ensureReady.2.worker.life = .serving := by
    rcases ensured : c.ensureReady with ⟨(t | _) | ⟨⟩, c₁⟩
    · have ended := opened c
      rw [ensured] at ended
      have resolves {x : Resolved} {c₂ : Session F V} (h : Resolving (c.onWorker (·.reveal .initializing)) x c₂) :
          c₂.worker.life = .serving := by cases h <;> exact serving
      have enters (c : Session F V) (cause : Error) : (c.enterFinal cause).2.worker.life = c.worker.life :=
        (Worker.of_fixed (fixed_enterFinal cause)).2.2.2
      cases ended with
      | final => exact serving
      | refused _ resolved => exact (enters _ _).trans (resolves resolved)
      | failed _ resolved performs =>
        exact (enters _ _).trans ((Worker.of_fixed (fixed_of_perform performs)).2.2.2.trans (resolves resolved))
    · obtain ⟨-, m, panics⟩ := broken_of_ensured ensured
      exact absurd panics (calm m)
    · exact (ready_of_ensured ensured).1.trans serving
  have way := served c r
  generalize (c.handle r).2 = c' at way ⊢
  cases way with
  | idle _ gist => exact (life_of_gist gist).trans serving
  | closed => exact absurd rfl other
  | ensured _ gist => exact (life_of_gist gist).trans ensures
  | updated _ life state => exact (life_updated (updated state _)).trans (life.trans serving)

/-! ## The registry -/

/-- Whether a cell has added what it holds to a registry, and nothing else. -/
def Adds (base : Store.Registry) (c : Session F V) : Prop :=
  match c.worker.held with
  | none => c.bench.registry = base
  | some k => k ∉ base.active ∧ c.bench.registry = ⟨k :: base.active⟩

theorem adds_happen {base : Store.Registry} (e : Event F V) (adds : Adds base c) : Adds base (c.happen e).2 := by
  unfold Adds at adds ⊢
  cases shifts_happen e (c := c) with
  | still same kept =>
    rw [same, kept]
    exact adds
  | claimed p before after free entered =>
    rw [before] at adds
    rw [after, entered, adds]
    refine ⟨fun mem => ?_, rfl⟩
    have active := Store.Registry.isActive_iff.mpr (adds ▸ mem)
    cases free.symm.trans active
  | freed p _ before after left =>
    rw [before] at adds
    rw [after, left, adds.2]
    have others : base.active.filter (fun k => k != p.components) = base.active :=
      List.filter_eq_self.mpr fun k hk => by
        have ne : k ≠ p.components := fun same => adds.1 (same ▸ hk)
        simpa using ne
    simp [Store.Registry.release, others]

theorem adds_run {base : Store.Registry} (es : List (Event F V)) (adds : Adds base c) : Adds base (c.run es).2 := by
  induction es generalizing c with
  | nil => exact adds
  | cons e es ih => exact ih (adds_happen e adds)

end Session

/-- A cell that was built has added the entry of its path, if that is known, and nothing else. -/
theorem adds_of_build {s : Setup V} {location : Location} {hasRuntime : Bool} {b b' : Bench F} {w : Worker V}
    (built : build s (some location) hasRuntime b = (.ok w, b')) : Session.Adds b.registry ⟨w, b'⟩ := by
  obtain ⟨target, label, registry, fields, rfl, rfl, place⟩ := build_ok built
  cases location with
  | produced producer =>
    obtain ⟨rfl, rfl⟩ := place
    rfl
  | path p =>
    obtain ⟨e, rfl, opened⟩ := place
    obtain ⟨-, -, -, free, rfl⟩ := Store.openExclusive_ok opened
    refine ⟨fun mem => ?_, rfl⟩
    have active := Store.Registry.isActive_iff.mpr mem
    cases free.symm.trans active

end DurableValue.Cell
