/-
  DurableValue.Proofs.Cell.Alike — two sessions that nobody can tell apart.

  Two sessions are alike when they have the same plain and every subscription is seated alike in both, but for some
  that are hidden. A subscription whose receiver is gone may still have places on one list and none on the other:
  nothing is sent to it either way, and only the end of it that nobody sees may differ.

  Proved:
  - `Alike.handle`, `Alike.refuse`, `Alike.forsake`: a request is answered alike in both sessions and leaves them
    alike, one lemma for each operation behind it.
  - `Alike.happen`: so does every event.
-/
import DurableValue.Proofs.Cell.Streams
import DurableValue.Proofs.Cell.Unread

namespace DurableValue.Cell

open Disk (FileSystem)

variable {F H V : Type} [FileSystem F H]

/-! ## Feeds without a receiver -/

namespace Feed

variable {f : Feed V}

theorem send_of_dropped (dropped : f.isDropped = true) (x : Except Error V) : f.send x = f := by
  simp [send, dropped]

theorem repeat_send_of_dropped (dropped : f.isDropped = true) (x : Except Error V) (n : Nat) :
    Nat.repeat (·.send x) n f = f := by
  induction n with
  | zero => rfl
  | succ n ih =>
    rw [Nat.repeat, ih]
    exact send_of_dropped dropped x

theorem finish_repeat_finish (f : Feed V) (n : Nat) : (Nat.repeat Feed.finish n f).finish = f.finish := by
  induction n with
  | zero => rfl
  | succ n ih =>
    rw [Nat.repeat, ih]
    rfl

theorem isDropped_repeat_finish (f : Feed V) (n : Nat) : (Nat.repeat Feed.finish n f).isDropped = f.isDropped := by
  have rest := congrArg isDropped (finish_repeat_finish f n)
  exact rest

def Mild (g : Feed V → Feed V) : Prop :=
  ∀ f, f.isDropped = true → (g f).isDropped = true ∧ (g f).finish = g f.finish

theorem mild_send (x : Except Error V) : Mild (·.send x) := by
  intro f dropped
  have here : f.send x = f := send_of_dropped dropped x
  have there : f.finish.send x = f.finish := send_of_dropped (f := f.finish) dropped x
  exact ⟨(congrArg isDropped here).trans dropped, (congrArg finish here).trans there.symm⟩

theorem mild_finish : Mild (V := V) Feed.finish := fun _ dropped => ⟨dropped, rfl⟩

theorem mild_drop : Mild (V := V) Feed.drop := fun _ _ => ⟨rfl, rfl⟩

theorem mild_drain : Mild (V := V) (·.drain.2) := fun _ dropped => ⟨dropped, rfl⟩

theorem mild_next : Mild (V := V) (·.next.2) := by
  intro f dropped
  cases next : f.sent[f.taken]? with
  | none => simp [Feed.next, Feed.finish, next, dropped]
  | some x => simp [Feed.next, Feed.finish, next, dropped]

theorem Mild.comp {g h : Feed V → Feed V} (mild : Mild g) (mild' : Mild h) : Mild fun f => h (g f) := by
  intro f dropped
  obtain ⟨still, e⟩ := mild f dropped
  obtain ⟨still', e'⟩ := mild' (g f) still
  exact ⟨still', e'.trans (congrArg h e)⟩

end Feed

/-! ## Seats -/

namespace Seat

theorem feed_pruned (s : Seat V) : s.pruned.feed = s.feed := by
  unfold pruned
  split <;> rfl

/-- Two seats of one subscription that its receiver cannot tell apart. Once it is gone, the places do not count any
more, and nobody sees whether the sender's end is held. Of a hidden seat it only counts that the feed is there. -/
inductive Alike (isHidden : Prop) : Seat V → Seat V → Prop where
  | empty : Alike isHidden ⟨none, 0⟩ ⟨none, 0⟩
  | same (f : Feed V) (n : Nat) : Alike isHidden ⟨some f, n⟩ ⟨some f, n⟩
  | gone {f f' : Feed V} (n n' : Nat) (dropped : f.isDropped = true) (rest : f'.finish = f.finish) :
    Alike isHidden ⟨some f, n⟩ ⟨some f', n'⟩
  | hidden (f f' : Feed V) (n n' : Nat) (hidden : isHidden) : Alike isHidden ⟨some f, n⟩ ⟨some f', n'⟩

namespace Alike

variable {isHidden : Prop} {s s' : Seat V}

theorem refl {s : Seat V} (present : s.feed = none → s.places = 0) : Alike isHidden s s := by
  obtain ⟨feed | f, n⟩ := s
  · cases (present rfl)
    exact .empty
  · exact .same f n

theorem told (h : Alike isHidden s s') (x : Except Error V) : Alike isHidden (s.told x) (s'.told x) := by
  cases h with
  | empty => exact .empty
  | same f n => exact .same _ n
  | @gone f f' n n' dropped rest =>
    have dropped' : f'.isDropped = true := (congrArg Feed.isDropped rest).trans dropped
    simp only [Seat.told, Option.map_some, Feed.repeat_send_of_dropped dropped,
      Feed.repeat_send_of_dropped dropped']
    exact .gone n n' dropped rest
  | hidden f f' n n' hidden => exact .hidden _ _ n n' hidden

theorem dismissed (h : Alike isHidden s s') : Alike isHidden s.dismissed s'.dismissed := by
  cases h with
  | empty => exact .empty
  | same f n => exact .same _ 0
  | @gone f f' n n' dropped rest =>
    refine .gone 0 0 ((Feed.isDropped_repeat_finish f n).trans dropped) ?_
    rw [Feed.finish_repeat_finish, Feed.finish_repeat_finish, rest]
  | hidden f f' n n' hidden => exact .hidden _ _ 0 0 hidden

/-- A seat may lose the places of a receiver that is gone, here or there. -/
theorem pruned_left (h : Alike isHidden s s') : Alike isHidden s.pruned s' := by
  cases h with
  | empty => exact .empty
  | same f n =>
    unfold Seat.pruned
    split
    · exact .same f n
    · rename_i gone
      exact .gone 0 n (by simpa [Seat.hasListener] using gone) rfl
  | gone n n' dropped rest =>
    unfold Seat.pruned
    split <;> exact .gone _ n' dropped rest
  | hidden f f' n n' hidden =>
    unfold Seat.pruned
    split <;> exact .hidden _ _ _ n' hidden

theorem pruned (h : Alike isHidden s s') : Alike isHidden s.pruned s'.pruned := by
  cases h with
  | empty => exact .empty
  | same f n =>
    unfold Seat.pruned
    split
    · exact .same f n
    · exact .same f 0
  | gone n n' dropped rest =>
    unfold Seat.pruned
    split <;> split <;> exact .gone _ _ dropped rest
  | hidden f f' n n' hidden =>
    unfold Seat.pruned
    split <;> split <;> exact .hidden _ _ _ _ hidden

theorem onFeed (h : Alike isHidden s s') {g : Feed V → Feed V} (mild : Feed.Mild g) :
    Alike isHidden { s with feed := s.feed.map g } { s' with feed := s'.feed.map g } := by
  cases h with
  | empty => exact .empty
  | same f n => exact .same _ n
  | @gone f f' n n' dropped rest =>
    have dropped' : f'.isDropped = true := (congrArg Feed.isDropped rest).trans dropped
    refine .gone n n' (mild f dropped).1 ?_
    rw [(mild f dropped).2, (mild f' dropped').2, rest]
  | hidden f f' n n' hidden => exact .hidden _ _ n n' hidden

/-- A seat that has a feed gets one place more. -/
theorem seated (h : Alike isHidden s s') (present : s.feed.isSome) :
    Alike isHidden { s with places := s.places + 1 } { s' with places := s'.places + 1 } := by
  cases h with
  | empty => cases present
  | same f n => exact .same f (n + 1)
  | gone n n' dropped rest => exact .gone _ _ dropped rest
  | hidden f f' n n' hidden => exact .hidden _ _ _ _ hidden

/-- Nobody asks what becomes of a hidden seat, as long as its feed is there. -/
theorem of_hidden (h : Alike isHidden s s') (hidden : isHidden) {t : Seat V} (present : t.feed.isSome = s.feed.isSome)
    (places : s.feed = none → t.places = s.places) : Alike isHidden t s' := by
  obtain ⟨feed, k⟩ := t
  cases h with
  | empty =>
    cases feed with
    | none =>
      cases (show k = 0 from places rfl)
      exact .empty
    | some f => cases present
  | same | gone | hidden =>
    cases feed with
    | none => cases present
    | some f => exact .hidden _ _ _ _ hidden

theorem hasListener (h : Alike isHidden s s') (shown : ¬ isHidden) : s'.hasListener = s.hasListener := by
  cases h with
  | empty => rfl
  | same f n => rfl
  | @gone f f' n n' dropped rest =>
    have dropped' : f'.isDropped = true := (congrArg Feed.isDropped rest).trans dropped
    simp [Seat.hasListener, dropped, dropped']
  | hidden f f' n n' hidden => exact absurd hidden shown

theorem isSome (h : Alike isHidden s s') : s'.feed.isSome = s.feed.isSome := by cases h <;> rfl

end Alike

end Seat

/-! ## Sessions -/

/-- Whoever listens has a feed. -/
theorem Worker.isSome_of_hasListener {w : Worker V} {i : Nat} (listens : w.hasListener i = true) :
    (w.feeds[i]?).isSome = true := by
  unfold Worker.hasListener at listens
  cases found : w.feeds[i]? with
  | none => simp [found] at listens
  | some f => rfl

namespace Session

structure Alike (hidden : List Nat) (c c' : Session F V) : Prop where
  plain : c'.plain = c.plain
  seats : ∀ i, Seat.Alike (i ∈ hidden) (c.worker.seat i) (c'.worker.seat i)

variable {hidden : List Nat} {c c' d d' : Session F V}

namespace Alike

/-! ## What the plain tells -/

theorem setup (h : Alike hidden c c') : c'.worker.setup = c.worker.setup := congrArg (·.worker.setup) h.plain

theorem target (h : Alike hidden c c') : c'.worker.target = c.worker.target := congrArg (·.worker.target) h.plain

theorem label (h : Alike hidden c c') : c'.worker.label = c.worker.label := congrArg (·.worker.label) h.plain

theorem state (h : Alike hidden c c') : c'.worker.state = c.worker.state := congrArg (·.worker.state) h.plain

theorem life (h : Alike hidden c c') : c'.worker.life = c.worker.life := congrArg (·.worker.life) h.plain

theorem hasListener (h : Alike hidden c c') {i : Nat} (shown : i ∉ hidden) :
    c'.worker.hasListener i = c.worker.hasListener i := (h.seats i).hasListener shown

theorem stopError (h : Alike hidden c c') (work : String) (stop : Stop) :
    c'.stopError work stop = c.stopError work stop := by
  cases stop <;> simp only [Session.stopError, h.setup]

/-! ## Operations -/

/-- What changes no seat keeps sessions alike if it keeps their plains the same. -/
theorem of_seats (h : Alike hidden c c') (plain : d'.plain = d.plain)
    (seats : ∀ i, d.worker.seat i = c.worker.seat i) (seats' : ∀ i, d'.worker.seat i = c'.worker.seat i) :
    Alike hidden d d' := by
  refine ⟨plain, fun i => ?_⟩
  rw [seats, seats']
  exact h.seats i

/-- What changes neither the gist nor a seat goes unnoticed, here and there. -/
theorem of_gist (h : Alike hidden c c') (gist : d.gist = c.gist) (gist' : d'.gist = c'.gist)
    (seats : ∀ i, d.worker.seat i = c.worker.seat i) (seats' : ∀ i, d'.worker.seat i = c'.worker.seat i) :
    Alike hidden d d' :=
  h.of_seats ((plain_of_gist gist').trans (h.plain.trans (plain_of_gist gist).symm)) seats seats'

theorem enterFinal (h : Alike hidden c c') (cause : Error) :
    Alike hidden (c.enterFinal cause).2 (c'.enterFinal cause).2 := by
  refine ⟨?_, fun i => ?_⟩
  · rw [plain_enterFinal, plain_enterFinal, h.plain]
  · rw [seat_enterFinal, seat_enterFinal]
    exact ((h.seats i).told _).dismissed

theorem shutDown (h : Alike hidden c c') : Alike hidden c.shutDown c'.shutDown := by
  refine ⟨?_, fun i => ?_⟩
  · rw [plain_shutDown, plain_shutDown, h.plain]
  · rw [seat_shutDown, seat_shutDown]
    exact (h.seats i).dismissed

theorem publish (h : Alike hidden c c') (v : V) : Alike hidden (c.publish v) (c'.publish v) := by
  refine ⟨?_, fun i => ?_⟩
  · rw [plain_of_gist (gist_publish c v), plain_of_gist (gist_publish c' v), h.plain]
  · rw [seat_publish, seat_publish]
    exact (h.seats i).pruned.told _

theorem onFeed (h : Alike hidden c c') {g : Feed V → Feed V} (mild : Feed.Mild g) (i : Nat) :
    Alike hidden (c.onWorker (·.onFeed i g)) (c'.onWorker (·.onFeed i g)) := by
  refine ⟨h.plain, fun j => ?_⟩
  simp only [onWorker]
  by_cases same : i = j
  · subst same
    rw [Worker.seat_onFeed, Worker.seat_onFeed]
    exact (h.seats i).onFeed mild
  · rw [Worker.seat_onFeed_ne same, Worker.seat_onFeed_ne same]
    exact h.seats j

/-- What is done to a hidden subscription goes unnoticed. -/
theorem onFeed_left (h : Alike hidden c c') {i : Nat} (mem : i ∈ hidden) (g : Feed V → Feed V) :
    Alike hidden (c.onWorker (·.onFeed i g)) c' := by
  refine ⟨h.plain, fun j => ?_⟩
  simp only [onWorker]
  by_cases same : i = j
  · subst same
    rw [Worker.seat_onFeed]
    exact (h.seats i).of_hidden mem (by simp) fun _ => rfl
  · rw [Worker.seat_onFeed_ne same]
    exact h.seats j

theorem attach (h : Alike hidden c c') (v : V) {i : Nat} (present : (c.worker.feeds[i]?).isSome) :
    Alike hidden (c.attach v i) (c'.attach v i) := by
  refine ⟨?_, fun j => ?_⟩
  · rw [plain_of_gist (gist_attach c v i), plain_of_gist (gist_attach c' v i), h.plain]
  · by_cases same : i = j
    · subst same
      rw [seat_attach, seat_attach]
      refine ((h.seats i).onFeed (Feed.mild_send (.ok v))).pruned.seated ?_
      rw [Seat.feed_pruned]
      simpa [Worker.seat] using present
    · rw [seat_attach_ne _ _ same, seat_attach_ne _ _ same]
      exact (h.seats j).pruned

theorem attach_left (h : Alike hidden c c') (v : V) {i : Nat} (mem : i ∈ hidden)
    (present : (c.worker.feeds[i]?).isSome) : Alike hidden (c.attach v i) c' := by
  refine ⟨h.plain.trans (plain_of_gist (gist_attach c v i)).symm, fun j => ?_⟩
  by_cases same : i = j
  · subst same
    rw [seat_attach]
    refine (h.seats i).of_hidden mem ?_ fun none => ?_
    · simp [Seat.feed_pruned]
    · rw [show c.worker.feeds[i]? = .none from none] at present
      cases present
  · rw [seat_attach_ne _ _ same]
    exact (h.seats j).pruned_left

theorem turnAway (h : Alike hidden c c') (i : Nat) (e : Error) : Alike hidden (c.turnAway i e) (c'.turnAway i e) :=
  h.onFeed ((Feed.mild_send (.error e)).comp Feed.mild_finish) i

theorem letGo (h : Alike hidden c c') (i : Nat) : Alike hidden (c.letGo i) (c'.letGo i) := h.onFeed Feed.mild_finish i

/-! ## The value -/

/-- Two endings that agree come to one result, in sessions that are alike. -/
theorem one_result {α : Type} {x y : α × Session F V} (ends : y.1 = x.1 ∧ Alike hidden x.2 y.2) :
    ∃ a d d', x = (a, d) ∧ y = (a, d') ∧ Alike hidden d d' :=
  ⟨x.1, x.2, y.2, rfl, Prod.ext ends.1 rfl, ends.2⟩

theorem resolve (h : Alike hidden c c') : c'.resolve.1 = c.resolve.1 ∧ Alike hidden c.resolve.2 c'.resolve.2 := by
  have resolved := plain_resolve c
  have resolved' := plain_resolve c'
  rw [h.plain, resolved] at resolved'
  obtain ⟨result, plain⟩ := Prod.mk.inj resolved'
  exact ⟨result.symm, h.of_seats plain.symm (fun i => seat_of_lists (resolving c).lists) fun i =>
    seat_of_lists (resolving c').lists⟩

theorem perform (h : Alike hidden c c') {α : Type} {t : Task F α} (blind : Task.Blind t) :
    (c'.perform t).1 = (c.perform t).1 ∧ Alike hidden (c.perform t).2 (c'.perform t).2 := by
  obtain ⟨result, plain⟩ := plain_perform blind h.plain
  exact ⟨result, h.of_seats plain (fun i => seat_of_lists (lists_of_performed rfl)) fun i =>
    seat_of_lists (lists_of_performed rfl)⟩

theorem ensureReady (h : Alike hidden c c') :
    c'.ensureReady.1 = c.ensureReady.1 ∧ Alike hidden c.ensureReady.2 c'.ensureReady.2 := by
  simp only [Session.ensureReady, h.state]
  split
  · exact ⟨rfl, h⟩
  · exact ⟨rfl, h⟩
  · have shown : Alike hidden (c.onWorker (·.reveal .initializing)) (c'.onWorker (·.reveal .initializing)) := by
      have plain := congrArg (fun d : Session F V => d.onWorker (·.reveal .initializing)) h.plain
      exact h.of_seats plain (fun _ => rfl) fun _ => rfl
    obtain ⟨r, c₁, c₁', resolved, resolved', alike₁⟩ := one_result shown.resolve
    simp only [resolved, resolved']
    cases r with
    | broken =>
      have plain := congrArg (fun d : Session F V => d.onWorker fun w => { w with life := .broken }) alike₁.plain
      exact ⟨rfl, alike₁.of_seats plain (fun _ => rfl) fun _ => rfl⟩
    | refused e => exact ⟨rfl, alike₁.enterFinal e⟩
    | found store =>
      obtain ⟨x, c₂, c₂', performed, performed', alike₂⟩ :=
        one_result (alike₁.perform (Task.blind_firstValue c₁.worker.setup store c₁.worker.label))
      simp only [alike₁.setup, alike₁.label, performed, performed']
      cases x with
      | ok v =>
        have plain := congrArg (fun d : Session F V => d.onWorker (·.enter (.ready v 0))) alike₂.plain
        exact ⟨rfl, alike₂.of_seats plain (fun _ => rfl) fun _ => rfl⟩
      | error stop =>
        simp only [alike₂.stopError]
        exact ⟨rfl, alike₂.enterFinal _⟩

theorem call (h : Alike hidden c c') (x : Call) : Alike hidden (c.call x) (c'.call x) := by
  refine h.of_seats ?_ (fun _ => rfl) fun _ => rfl
  rw [plain_call, plain_call, h.plain]

theorem commit (h : Alike hidden c c') (v : V) (n : Nat) :
    (c'.commit v n).1 = (c.commit v n).1 ∧ Alike hidden (c.commit v n).2 (c'.commit v n).2 := by
  simp only [Session.commit, h.target, h.setup]
  split
  · rename_i e _
    obtain ⟨x, c₁, c₁', performed, performed', alike₁⟩ :=
      one_result (h.perform (Task.blind_writeValue c.worker.setup e.store v))
    simp only [performed, performed']
    cases x with
    | ok size =>
      have plain := congrArg (fun d : Session F V => d.onWorker (·.enter (.ready v n))) alike₁.plain
      have entered : Alike hidden
          ((c₁.note .info .commit [("version", toString n), ("bytes", toString size)]).onWorker (·.enter (.ready v n)))
          ((c₁'.note .info .commit [("version", toString n), ("bytes", toString size)]).onWorker
            (·.enter (.ready v n))) :=
        alike₁.of_seats plain (fun _ => rfl) fun _ => rfl
      exact ⟨rfl, entered.publish v⟩
    | error stop =>
      simp only [alike₁.stopError]
      exact ⟨rfl, alike₁.enterFinal _⟩
  · exact ⟨rfl, h.enterFinal _⟩

theorem update (h : Alike hidden c c') (transform : V → Outcome V) :
    (c'.update transform).1 = (c.update transform).1 ∧
      Alike hidden (c.update transform).2 (c'.update transform).2 := by
  have called := h.call .transform
  simp only [Session.update, h.state, called.setup]
  split
  · exact ⟨rfl, h⟩
  · exact ⟨rfl, h⟩
  · split
    · exact ⟨rfl, called.of_seats called.plain (fun _ => rfl) fun _ => rfl⟩
    · split
      · exact ⟨rfl, called.of_seats called.plain (fun _ => rfl) fun _ => rfl⟩
      · exact called.commit _ _

/-! ## Requests -/

theorem read (h : Alike hidden c c') : c'.read = c.read := by
  simp only [Session.read, h.state]

/-- To see to the value leaves the subscriptions alone, as long as there is one. -/
theorem feeds_of_ready (ready : c.ensureReady = (.ok (), d)) : d.worker.feeds = c.worker.feeds := by
  cases state : c.worker.state with
  | ready v n =>
    rw [ensureReady_ready c state] at ready
    cases ready
    rfl
  | final t => simp [Session.ensureReady, state] at ready
  | uninitialized =>
    obtain ⟨e, v, -, -, -, -, -, feeds⟩ := ensureReady_ok state ready
    exact feeds

/-- A request that is not for a hidden subscription is handled alike. -/
theorem handle (h : Alike hidden c c') {r : Request V} (shown : ∀ i ∈ hidden, r ≠ .subscribe i) :
    (c'.handle r).1 = (c.handle r).1 ∧ Alike hidden (c.handle r).2 (c'.handle r).2 := by
  obtain ⟨a, c₁, c₁', ensured, ensured', alike₁⟩ := one_result h.ensureReady
  cases r with
  | update transform isAwaited =>
    cases isAwaited with
    | false => exact ⟨rfl, h.of_seats h.plain (fun _ => rfl) fun _ => rfl⟩
    | true =>
      cases a with
      | error halt =>
        simp only [Session.handle, ensured, ensured']
        exact ⟨trivial, alike₁⟩
      | ok _ =>
        obtain ⟨answer, updated⟩ := alike₁.update transform
        simp only [Session.handle, ensured, ensured', answer]
        exact ⟨trivial, updated⟩
  | read isAwaited =>
    cases isAwaited with
    | false => exact ⟨rfl, h⟩
    | true =>
      cases a with
      | error halt =>
        simp only [Session.handle, ensured, ensured']
        exact ⟨trivial, alike₁⟩
      | ok _ =>
        simp only [Session.handle, ensured, ensured', alike₁.read]
        exact ⟨trivial, alike₁⟩
  | subscribe i =>
    have listens : c'.worker.hasListener i = c.worker.hasListener i := h.hasListener fun mem => shown i mem rfl
    simp only [Session.handle, ensured, ensured', listens]
    split
    · rename_i listener
      rcases a with (t | _) | ⟨⟩
      · exact ⟨rfl, alike₁.turnAway i t⟩
      · exact ⟨rfl, alike₁.letGo i⟩
      · simp only [alike₁.state]
        split
        · refine ⟨rfl, alike₁.attach _ ?_⟩
          rw [feeds_of_ready ensured]
          exact Worker.isSome_of_hasListener listener
        · exact ⟨rfl, alike₁.letGo i⟩
    · exact ⟨rfl, h.letGo i⟩
  | close => exact ⟨rfl, h.shutDown⟩

theorem refuse (h : Alike hidden c c') (r : Request V) :
    (c'.refuse r).1 = (c.refuse r).1 ∧ Alike hidden (c.refuse r).2 (c'.refuse r).2 := by
  cases r with
  | update transform isAwaited => cases isAwaited <;> exact ⟨rfl, h⟩
  | read isAwaited => cases isAwaited <;> exact ⟨rfl, h⟩
  | subscribe i => exact ⟨rfl, h.turnAway i .closed⟩
  | close => exact ⟨rfl, h⟩

theorem forsake (h : Alike hidden c c') (r : Request V) :
    (c'.forsake r).1 = (c.forsake r).1 ∧ Alike hidden (c.forsake r).2 (c'.forsake r).2 := by
  cases r with
  | subscribe i => exact ⟨rfl, h.letGo i⟩
  | _ => exact h.refuse _

end Alike

/-! ## Events -/

/-- What the receivers' side may do: somebody comes for a subscription, or a receiver takes the next item or all there
is, or goes. -/
inductive Gesture : (List (Feed V) → List (Feed V)) → Prop where
  | come : Gesture (· ++ [({} : Feed V)])
  | take (i : Nat) : Gesture (·.modify i (·.next.2))
  | takeAll (i : Nat) : Gesture (·.modify i (·.drain.2))
  | go (i : Nat) : Gesture (·.modify i Feed.drop)

namespace Alike

theorem length (h : Alike hidden c c') : c'.worker.feeds.length = c.worker.feeds.length := by
  have isSome (i : Nat) : (c'.worker.feeds[i]?).isSome = (c.worker.feeds[i]?).isSome := (h.seats i).isSome
  have here := isSome c.worker.feeds.length
  have there := isSome c'.worker.feeds.length
  simp only [List.getElem?_eq_none (Nat.le_refl _), Option.isSome_none, Option.isSome_eq_false_iff,
    Option.isNone_iff_eq_none, List.getElem?_eq_none_iff, Bool.false_eq] at here there
  omega

/-- A number that nobody has yet has no places. -/
theorem count_of_none (h : Alike hidden c c') {i : Nat} (none : c.worker.feeds[i]? = none) :
    c.worker.attached.count i = 0 ∧ c'.worker.attached.count i = 0 := by
  have seats := h.seats i
  have none' : c'.worker.feeds[i]? = .none := by simpa [Worker.seat, none] using seats.isSome
  simp only [Worker.seat, none, none'] at seats
  generalize c.worker.attached.count i = n at seats ⊢
  generalize c'.worker.attached.count i = n' at seats ⊢
  cases seats
  exact ⟨rfl, rfl⟩

theorem come (h : Alike hidden c c') :
    Alike hidden (c.onWorker fun w => { w with feeds := w.feeds ++ [({} : Feed V)] })
      (c'.onWorker fun w => { w with feeds := w.feeds ++ [({} : Feed V)] }) := by
  refine ⟨h.plain, fun i => ?_⟩
  have len := h.length
  simp only [onWorker, Worker.seat]
  rcases Nat.lt_or_ge i c.worker.feeds.length with old | new
  · rw [List.getElem?_append_left old, List.getElem?_append_left (len.symm ▸ old)]
    exact h.seats i
  · obtain ⟨none, none'⟩ := h.count_of_none (List.getElem?_eq_none new)
    rw [none, none', List.getElem?_append_right new, List.getElem?_append_right (len.symm ▸ new), len]
    exact .refl fun _ => rfl

theorem receivers (h : Alike hidden c c') {f : List (Feed V) → List (Feed V)} (gesture : Gesture f) :
    Alike hidden (c.onWorker fun w => { w with feeds := f w.feeds })
      (c'.onWorker fun w => { w with feeds := f w.feeds }) := by
  cases gesture with
  | come => exact h.come
  | take i => exact h.onFeed Feed.mild_next i
  | takeAll i => exact h.onFeed Feed.mild_drain i
  | go i => exact h.onFeed Feed.mild_drop i

/-- What happens to two sessions that are alike gets the same replies and leaves them alike, unless it is a request for
a hidden subscription. -/
theorem happen (h : Alike hidden c c') {e : Event F V} (shown : ∀ i ∈ hidden, e ≠ .request (.subscribe i))
    (gestures : ∀ f, e = .receivers f → Gesture f) :
    (c'.happen e).1 = (c.happen e).1 ∧ Alike hidden (c.happen e).2 (c'.happen e).2 := by
  cases e with
  | request r =>
    have passes {x y : Reply V × Session F V} (same : y.1 = x.1 ∧ Alike hidden x.2 y.2) :
        [y.1] = [x.1] ∧ Alike hidden x.2 y.2 := ⟨by rw [same.1], same.2⟩
    have life := h.life
    cases here : c.worker.life <;> rw [here] at life <;> simp only [Session.happen, serve, here, life]
    · exact passes (h.handle fun i mem own => shown i mem (congrArg _ own))
    · exact passes (h.refuse r)
    · exact passes (h.forsake r)
  | receivers f => exact ⟨rfl, h.receivers (gestures f rfl)⟩
  | outside f =>
    have plain := congrArg (fun d : Session F V => { d with bench.disk := f d.bench.disk }) h.plain
    exact ⟨rfl, h.of_seats plain (fun _ => rfl) fun _ => rfl⟩

end Alike

end Session

end DurableValue.Cell
