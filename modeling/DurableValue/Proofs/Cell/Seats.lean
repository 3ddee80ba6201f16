/-
  DurableValue.Proofs.Cell.Seats — what reaches a subscription.

  The *seat* of a subscription is its feed, with the number of its places on the list of those that get what is
  committed. Everything a cell does to its subscriptions comes down to four changes of a seat: it is told an item for
  each of its places, it is dismissed, it loses its places when its receiver is gone, and it gets a place.

  Proved:
  - `seat_publish`, `seat_attach`, `seat_enterFinal`, `seat_shutDown`: what each operation does to a seat.
  - `seat_attach_ne`: to attach one subscription takes others off the list at most.
  - `listed_happen`, `listed_run`: a cell that is not ready, or does not serve, keeps no list.
-/
import DurableValue.Proofs.Cell.Steps

namespace DurableValue.Cell

open Disk (FileSystem)

variable {F H V : Type} [FileSystem F H]

structure Seat (V : Type) where
  feed : Option (Feed V)
  places : Nat

namespace Seat

def hasListener (s : Seat V) : Bool := s.feed.any (!·.isDropped)

def told (x : Except Error V) (s : Seat V) : Seat V := { s with feed := s.feed.map (Nat.repeat (·.send x) s.places) }

def dismissed (s : Seat V) : Seat V := ⟨s.feed.map (Nat.repeat Feed.finish s.places), 0⟩

def pruned (s : Seat V) : Seat V := if s.hasListener then s else { s with places := 0 }

section

variable {s : Seat V} (none : s.places = 0)

include none

/-- A seat without a place is told nothing. -/
theorem told_of_no_place (x : Except Error V) : s.told x = s := by
  obtain ⟨feed, places⟩ := s
  cases none
  cases feed <;> rfl

theorem dismissed_of_no_place : s.dismissed = s := by
  obtain ⟨feed, places⟩ := s
  cases none
  cases feed <;> rfl

theorem pruned_of_no_place : s.pruned = s := by
  obtain ⟨feed, places⟩ := s
  cases none
  unfold pruned
  split <;> rfl

end

end Seat

theorem Feed.repeat_comm (f : Feed V → Feed V) (k : Nat) (x : Feed V) :
    Nat.repeat f k (f x) = f (Nat.repeat f k x) := by
  induction k with
  | zero => rfl
  | succ k ih => exact congrArg f ih

theorem getElem?_foldl_modify (f : Feed V → Feed V) (ns : List Nat) (fs : List (Feed V)) (i : Nat) :
    (ns.foldl (fun fs n => fs.modify n f) fs)[i]? = fs[i]?.map (Nat.repeat f (ns.count i)) := by
  induction ns generalizing fs with
  | nil =>
    rw [List.foldl_nil]
    cases fs[i]? <;> rfl
  | cons n ns ih =>
    rw [List.foldl_cons, ih, List.getElem?_modify]
    by_cases same : n = i
    · subst same
      cases fs[n]? with
      | none => rfl
      | some x => simp [Nat.repeat, Feed.repeat_comm]
    · cases fs[i]? with
      | none => rfl
      | some x => simp [same]

namespace Worker

def seat (i : Nat) (w : Worker V) : Seat V := ⟨w.feeds[i]?, w.attached.count i⟩

theorem seat_tell (x : Except Error V) (i : Nat) (w : Worker V) : (w.tell x).seat i = (w.seat i).told x := by
  rw [tell_eq]
  simp only [seat, Seat.told, getElem?_foldl_modify]

theorem seat_dismiss (i : Nat) (w : Worker V) : w.dismiss.seat i = (w.seat i).dismissed := by
  rw [dismiss_eq]
  simp only [seat, Seat.dismissed, count, getElem?_foldl_modify, List.count_nil]

theorem seat_pruned (i : Nat) (w : Worker V) : w.pruned.seat i = (w.seat i).pruned := by
  have listener : (w.seat i).hasListener = w.hasListener i := rfl
  unfold Seat.pruned
  rw [listener]
  cases h : w.hasListener i with
  | true =>
    simp only [seat, pruned, if_true]
    rw [List.count_filter h]
  | false =>
    have gone : i ∉ w.attached.filter w.hasListener := by simp [h]
    simp only [seat, pruned, List.count_eq_zero.mpr gone]
    rfl

theorem seat_onFeed_ne {i j : Nat} (ne : j ≠ i) (f : Feed V → Feed V) (w : Worker V) :
    (w.onFeed j f).seat i = w.seat i := by
  simp [seat, onFeed, ne]

theorem seat_onFeed (i : Nat) (f : Feed V → Feed V) (w : Worker V) :
    (w.onFeed i f).seat i = { w.seat i with feed := (w.seat i).feed.map f } := by
  simp [seat, onFeed]

end Worker

namespace Session

variable (c : Session F V) (i : Nat)

/-! ## Operations -/

theorem feeds_checkAttached : c.checkAttached.worker.feeds = c.worker.feeds ∧
    c.checkAttached.worker.attached = c.worker.attached := by
  simp only [checkAttached]
  split
  · exact ⟨rfl, rfl⟩
  · split <;> exact ⟨rfl, rfl⟩

theorem seat_checkAttached : c.checkAttached.worker.seat i = c.worker.seat i := by
  obtain ⟨feeds, attached⟩ := feeds_checkAttached c
  simp only [Worker.seat, feeds, attached]

theorem seat_publish (v : V) : (c.publish v).worker.seat i = (c.worker.seat i).pruned.told (.ok v) := by
  unfold publish
  rw [seat_checkAttached]
  simp only [onWorker, Worker.seat_tell, Worker.seat_pruned]

/-- A subscription that is attached gets the value first, then a place, after those whose receivers are gone lost
theirs. -/
theorem seat_attach (v : V) : (c.attach v i).worker.seat i =
    let s := ({ c.worker.seat i with feed := (c.worker.seat i).feed.map (·.send (.ok v)) } : Seat V).pruned
    { s with places := s.places + 1 } := by
  unfold attach
  rw [seat_checkAttached]
  have given := Worker.seat_pruned i (c.worker.onFeed i (·.send (.ok v)))
  rw [Worker.seat_onFeed] at given
  simp only [onWorker, ← given]
  simp [Worker.seat, Worker.count]

theorem feed_attach (v : V) : (c.attach v i).worker.feeds[i]? = c.worker.feeds[i]?.map (·.send (.ok v)) := by
  have pruned (s : Seat V) : s.pruned.feed = s.feed := by
    unfold Seat.pruned
    split <;> rfl
  exact (congrArg Seat.feed (seat_attach c i v)).trans (pruned _)

theorem seat_attach_ne {j : Nat} (ne : j ≠ i) (v : V) :
    (c.attach v j).worker.seat i = (c.worker.seat i).pruned := by
  unfold attach
  rw [seat_checkAttached]
  have given := Worker.seat_pruned i (c.worker.onFeed j (·.send (.ok v)))
  rw [Worker.seat_onFeed_ne ne] at given
  simp only [onWorker, ← given]
  simp [Worker.seat, Worker.count, List.count_append, ne]

theorem seat_enterFinal (cause : Error) :
    (c.enterFinal cause).2.worker.seat i = ((c.worker.seat i).told (.error (.final cause))).dismissed := by
  have told := Worker.seat_tell (.error (.final cause)) i c.worker
  rw [← told, ← Worker.seat_dismiss]
  rfl

theorem seat_shutDown : c.shutDown.worker.seat i = (c.worker.seat i).dismissed := by
  rw [← Worker.seat_dismiss]
  rfl

/-! ## Requests -/

variable {c} {c' : Session F V}

def Listed (c : Session F V) : Prop :=
  c.worker.attached = [] ∨ c.worker.life = .serving ∧ ∃ v n, c.worker.state = .ready v n

theorem Resolving.lists {x : Resolved} (h : Resolving c x c') :
    c'.worker.feeds = c.worker.feeds ∧ c'.worker.attached = c.worker.attached := by
  cases h <;> exact ⟨rfl, rfl⟩

theorem lists_of_performed {α : Type} {t : Task F α} {a : Except Stop α} (h : c.perform t = (a, c')) :
    c'.worker.feeds = c.worker.feeds ∧ c'.worker.attached = c.worker.attached := by
  obtain ⟨-, worker, -⟩ := of_perform h
  rw [worker]
  exact ⟨rfl, rfl⟩

/-- A cell that has nobody on its list becomes final without telling anybody. -/
theorem lists_enterFinal (nobody : c.worker.attached = []) (cause : Error) :
    (c.enterFinal cause).2.worker.feeds = c.worker.feeds ∧ (c.enterFinal cause).2.worker.attached = [] := by
  simp only [enterFinal, onWorker, Worker.tell_eq, Worker.dismiss_eq]
  have noted : (c.note .fatal .cellFinal [("code", cause.code.name), ("reason", cause.display)]).worker.attached = [] :=
    nobody
  simp only [noted]
  exact ⟨rfl, rfl⟩

/-- Seeing to a value tells nobody anything: whoever waits for it is not on the list yet. -/
theorem lists_opened {a : Except Halt Unit} (listed : c.Listed) (h : Opened c a c') :
    c'.worker.feeds = c.worker.feeds ∧ c'.worker.attached = c.worker.attached := by
  have nobody (fresh : c.worker.state = .uninitialized) : c.worker.attached = [] := by
    rcases listed with nobody | ⟨-, v, n, ready⟩
    · exact nobody
    · cases fresh.symm.trans ready
  cases h with
  | ready => exact ⟨rfl, rfl⟩
  | final => exact ⟨rfl, rfl⟩
  | broke fresh resolved => exact resolved.lists
  | refused fresh resolved =>
    obtain ⟨feeds, attached⟩ := resolved.lists
    have nobody' := attached.trans (nobody fresh)
    obtain ⟨feeds', attached'⟩ := lists_enterFinal nobody' _
    exact ⟨feeds'.trans feeds, attached'.trans (nobody fresh).symm⟩
  | failed fresh resolved performs =>
    obtain ⟨feeds, attached⟩ := resolved.lists
    obtain ⟨feeds', attached'⟩ := lists_of_performed performs
    have nobody' := attached'.trans (attached.trans (nobody fresh))
    obtain ⟨feeds'', attached''⟩ := lists_enterFinal nobody' _
    exact ⟨feeds''.trans (feeds'.trans feeds), attached''.trans (nobody fresh).symm⟩
  | began fresh resolved performs =>
    obtain ⟨feeds, attached⟩ := resolved.lists
    obtain ⟨feeds', attached'⟩ := lists_of_performed performs
    exact ⟨feeds'.trans feeds, attached'.trans attached⟩

theorem feeds_of_ensured {a : Except Halt Unit} (listed : c.Listed) (ensured : c.ensureReady = (a, c')) :
    c'.worker.feeds = c.worker.feeds := by
  have lists := lists_opened listed (opened c)
  rw [ensured] at lists
  exact lists.1

theorem listed_opened {a : Except Halt Unit} (listed : c.Listed) (h : Opened c a c') : c'.Listed := by
  rcases listed with nobody | ⟨serving, v, n, ready⟩
  · exact Or.inl ((lists_opened (Or.inl nobody) h).2.trans nobody)
  · cases h with
    | ready => exact Or.inr ⟨serving, v, n, ready⟩
    | final final => cases ready.symm.trans final
    | broke fresh => cases ready.symm.trans fresh
    | refused fresh => cases ready.symm.trans fresh
    | failed fresh => cases ready.symm.trans fresh
    | began fresh => cases ready.symm.trans fresh

theorem listed_updated {transform : V → Outcome V} {v : V} {n : Nat} {a : Except Error V}
    (serving : c.worker.life = .serving) (state : c.worker.state = .ready v n) (h : Updated c transform v n a c') :
    c'.Listed := by
  cases h with
  | rejected result => exact Or.inr ⟨serving, v, n, state⟩
  | unchanged result same => exact Or.inr ⟨serving, v, n, state⟩
  | committed result changed target performs =>
    rename_i next _ _ c₁
    obtain ⟨-, worker, -⟩ := of_perform performs
    have life : c₁.worker.life = .serving := by
      rw [worker]
      exact serving
    exact Or.inr ⟨(life_of_gist (gist_publish _ next)).trans life, next, n + 1, state_of_gist (gist_publish _ next)⟩
  | lost => exact Or.inl rfl
  | homeless => exact Or.inl rfl

theorem listed_handle (r : Request V) (serving : c.worker.life = .serving) (listed : c.Listed) :
    (c.handle r).2.Listed := by
  have ensures := listed_opened listed (opened c)
  cases r with
  | update transform isAwaited =>
    cases isAwaited with
    | false => exact listed
    | true =>
      rcases ensured : c.ensureReady with ⟨halt | ⟨⟩, c₁⟩ <;> rw [ensured] at ensures <;> simp only [handle, ensured]
      · exact ensures
      · obtain ⟨life, v, n, state⟩ := ready_of_ensured ensured
        exact listed_updated (life.trans serving) state (updated state transform)
  | read isAwaited =>
    cases isAwaited with
    | false => exact listed
    | true =>
      rcases ensured : c.ensureReady with ⟨halt | ⟨⟩, c₁⟩ <;> rw [ensured] at ensures <;> simp only [handle, ensured]
      · exact ensures
      · exact ensures
  | subscribe j =>
    simp only [handle]
    split
    · rcases ensured : c.ensureReady with ⟨(t | _) | ⟨⟩, c₁⟩ <;> rw [ensured] at ensures
      · exact ensures
      · exact ensures
      · obtain ⟨life, v, n, state⟩ := ready_of_ensured ensured
        simp only [state]
        exact Or.inr ⟨(life_of_gist (gist_attach c₁ v j)).trans (life.trans serving), v, n,
          (state_of_gist (gist_attach c₁ v j)).trans state⟩
    · exact listed
  | close => exact Or.inl rfl

theorem listed_happen (e : Event F V) (listed : c.Listed) : (c.happen e).2.Listed := by
  cases e with
  | request r =>
    cases life : c.worker.life with
    | serving =>
      simp only [happen, serve, life]
      exact listed_handle r life listed
    | closed =>
      simp only [happen, serve, life, refuse]
      split <;> exact listed
    | broken =>
      simp only [happen, serve, life, forsake]
      split
      · exact listed
      · unfold refuse
        split <;> exact listed
  | receivers f => exact listed
  | outside f => exact listed

theorem listed_run (es : List (Event F V)) (listed : c.Listed) : (c.run es).2.Listed := by
  induction es generalizing c with
  | nil => exact listed
  | cons e es ih => exact ih (listed_happen e listed)

end Session

end DurableValue.Cell
