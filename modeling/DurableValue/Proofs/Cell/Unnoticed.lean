/-
  DurableValue.Proofs.Cell.Unnoticed — requests that nobody else notices.

  A request leaves no trace if nobody waits for it any more when it is handled, or if it finds the cell ready and asks
  for no more than the value, or for a change that fails or changes nothing (`Traceless`).

  Proved:
  - `Alike.traceless`: such a request leaves a session like the one it found.
  - `alike_thinned`: two runs that differ in such requests alone, one with all of them and one with any part of them
    left out, go side by side through sessions that nobody can tell apart. What they write down is not the same, but
    it is never read.
  - `requests_without_effect_are_unnoticed`: that, and a caller who leaves once its request is taken is noticed by
    nobody either, whatever happens next.
-/
import DurableValue.Proofs.Cell.Alike
import DurableValue.Proofs.Cell.Departed

namespace DurableValue.Cell

open Disk (FileSystem Memory)

variable {F H V : Type} [FileSystem F H]

/-- What the receiver of a feed can come to see of it: nothing more of the sender's end once it is gone. -/
def Feed.visible (f : Feed V) : List (Except Error V) × Nat × Bool × Bool :=
  (f.sent, f.taken, f.isDropped, f.isOpen && !f.isDropped)

namespace Session

/-! ## Requests without a trace -/

def IsReady (c : Session F V) : Prop := c.worker.life = .serving ∧ ∃ v n, c.worker.state = .ready v n

/-- Whether a request leaves no trace in what others see of a cell: its caller or receiver is gone, or the cell is
ready and gives what it has, or is asked for a change that fails or makes no difference. -/
def Traceless (c : Session F V) : Request V → Prop
  | .update transform isAwaited =>
    isAwaited = false ∨ c.worker.life = .serving ∧ ∃ v n, c.worker.state = .ready v n ∧
      ∀ next, (transform v).result = .ok next → c.worker.setup.same next v = true
  | .read isAwaited => isAwaited = false ∨ c.IsReady
  | .subscribe i => c.worker.hasListener i = false ∨ c.IsReady
  | .close => False

variable {hidden : List Nat} {c c' : Session F V}

theorem Alike.traceless (h : Alike hidden c c') {r : Request V} (traceless : c.Traceless r)
    (own : ∀ i, r = .subscribe i → i ∈ hidden) : Alike hidden (c.happen (.request r)).2 c' := by
  cases r with
  | update transform isAwaited =>
    cases isAwaited with
    | false =>
      cases life : c.worker.life <;> simp only [Session.happen, serve, life]
      · exact h.of_seats h.plain (fun _ => rfl) fun _ => rfl
      · exact h
      · exact h
    | true =>
      obtain ⟨⟨⟩⟩ | ⟨serving, v, n, state, same⟩ := traceless
      have called : Alike hidden (c.call .transform) c' := h.of_seats h.plain (fun _ => rfl) fun _ => rfl
      have ended := updated state transform
      simp only [Session.happen, serve, serving, Session.handle, ensureReady_ready c state]
      generalize c.update transform = ending at ended ⊢
      obtain ⟨a, c₁⟩ := ending
      cases ended with
      | rejected => exact called.of_seats called.plain (fun _ => rfl) fun _ => rfl
      | unchanged => exact called.of_seats called.plain (fun _ => rfl) fun _ => rfl
      -- A request without a trace makes no change, so these three did not happen.
      | committed result changed => cases (same _ result).symm.trans changed
      | lost result changed => cases (same _ result).symm.trans changed
      | homeless result changed => cases (same _ result).symm.trans changed
  | read isAwaited =>
    cases isAwaited with
    | false => cases life : c.worker.life <;> simp only [Session.happen, serve, life] <;> exact h
    | true =>
      obtain ⟨⟨⟩⟩ | ⟨serving, v, n, state⟩ := traceless
      simp only [Session.happen, serve, serving, Session.handle, ensureReady_ready c state]
      exact h
  | subscribe i =>
    have mem := own i rfl
    rcases traceless with gone | ⟨serving, v, n, state⟩
    · cases life : c.worker.life <;> simp only [Session.happen, serve, life]
      · simp only [Session.handle, gone]
        exact h.onFeed_left mem _
      · exact h.onFeed_left mem _
      · exact h.onFeed_left mem _
    · simp only [Session.happen, serve, serving, Session.handle, ensureReady_ready c state, state]
      split
      · rename_i listener
        exact h.attach_left v mem (Worker.isSome_of_hasListener listener)
      · exact h.onFeed_left mem _
  | close => exact traceless.elim

end Session

/-! ## Runs with requests left out -/

def Event.asks : Event F V → Option Nat
  | .request (.subscribe i) => some i
  | _ => none

/-- Every event of a run, whether it is to be left out or not. -/
def entire (es : List (Event F V × Bool)) : List (Event F V) := es.map (·.1)

def kept (es : List (Event F V × Bool)) : List (Event F V) := (es.filter (·.2)).map (·.1)

def hidden (es : List (Event F V × Bool)) : List Nat := (es.filter (!·.2)).filterMap (·.1.asks)

omit [FileSystem F H] in
theorem mem_hidden {es : List (Event F V × Bool)} {i : Nat} (mem : (.request (.subscribe i), false) ∈ es) :
    i ∈ hidden es :=
  List.mem_filterMap.mpr ⟨_, List.mem_filter.mpr ⟨mem, rfl⟩, rfl⟩

namespace Session

variable {c c' : Session F V} {es : List (Event F V × Bool)}

/-- A run in which some requests are marked to be left out: each leaves no trace where it is handled, and a
subscription is asked for by those that are left out or by those that are kept. What receivers do is left in. -/
structure Thinned (c : Session F V) (es : List (Event F V × Bool)) : Prop where
  gestures : ∀ f k, (Event.receivers f, k) ∈ es → Gesture f
  traceless : ∀ xs e ys, es = xs ++ (e, false) :: ys →
    ∃ r, e = .request r ∧ (c.run (entire xs)).2.Traceless r
  apart : ∀ i ∈ hidden es, (.request (.subscribe i), true) ∉ es

/-- Two sessions that are alike stay so when some requests without a trace are left out of the second run. -/
theorem alike_thinned {hid : List Nat} (alike : Alike hid c c')
    (gestures : ∀ f k, (Event.receivers f, k) ∈ es → Gesture f)
    (traceless : ∀ xs e ys, es = xs ++ (e, false) :: ys →
      ∃ r, e = .request r ∧ (c.run (entire xs)).2.Traceless r ∧ ∀ i, r = .subscribe i → i ∈ hid)
    (apart : ∀ i ∈ hid, (.request (.subscribe i), true) ∉ es) :
    Alike hid (c.run (entire es)).2 (c'.run (kept es)).2 := by
  induction es generalizing c c' with
  | nil => exact alike
  | cons e es ih =>
    obtain ⟨e, keep⟩ := e
    have later : ∀ xs e' ys, es = xs ++ (e', false) :: ys →
        ∃ r, e' = .request r ∧ ((c.happen e).2.run (entire xs)).2.Traceless r ∧ ∀ i, r = .subscribe i → i ∈ hid :=
      fun xs e' ys split => traceless ((e, keep) :: xs) e' ys (by rw [split]; rfl)
    have gestures' : ∀ f k, (Event.receivers f, k) ∈ es → Gesture f :=
      fun f k mem => gestures f k (List.mem_cons_of_mem _ mem)
    have apart' : ∀ i ∈ hid, (.request (.subscribe i), true) ∉ es :=
      fun i mem kept => apart i mem (List.mem_cons_of_mem _ kept)
    cases keep with
    | true =>
      refine ih ((alike.happen ?_ ?_).2) gestures' later apart'
      · rintro i mem rfl
        exact apart i mem List.mem_cons_self
      · rintro f rfl
        exact gestures f true List.mem_cons_self
    | false =>
      obtain ⟨r, rfl, here, own⟩ := traceless [] e es rfl
      exact ih (alike.traceless here own) gestures' later apart'

/-- Up to any moment of a run, nobody can tell whether the marked requests were left out. -/
theorem Thinned.alike (thinned : c.Thinned es) (alike : Alike (hidden es) c c') {xs ys : List (Event F V × Bool)}
    (split : es = xs ++ ys) : Alike (hidden es) (c.run (entire xs)).2 (c'.run (kept xs)).2 := by
  have within : ∀ e, e ∈ xs → e ∈ es := fun e mem => by
    rw [split]
    exact List.mem_append_left ys mem
  refine alike_thinned alike (fun f k mem => thinned.gestures f k (within _ mem)) ?_
    fun i mem kept => thinned.apart i mem (within _ kept)
  intro front e rest here
  obtain ⟨r, rfl, traceless⟩ := thinned.traceless front e (rest ++ ys) (by rw [split, here, List.append_assoc]; rfl)
  refine ⟨r, rfl, traceless, ?_⟩
  rintro i rfl
  refine mem_hidden (within _ ?_)
  rw [here]
  exact List.mem_append_right front List.mem_cons_self

end Session

theorem Seat.Alike.visible {isHidden : Prop} {s s' : Seat V} (h : Seat.Alike isHidden s s') (shown : ¬ isHidden) :
    s'.feed.map Feed.visible = s.feed.map Feed.visible := by
  cases h with
  | empty => rfl
  | same f n => rfl
  | @gone f f' n n' dropped rest =>
    have sent := congrArg Feed.sent rest
    have taken := congrArg Feed.taken rest
    have dropped' : f'.isDropped = true := (congrArg Feed.isDropped rest).trans dropped
    simp only [Feed.finish] at sent taken
    simp [Feed.visible, sent, taken, dropped, dropped']
  | hidden f f' n n' hidden => exact absurd hidden shown

/-- **Requests without effect are invisible.** Leave any of the requests that leave no trace out of a run: those whose
caller or receiver is gone, and those that find the cell ready and only read, subscribe, fail or change nothing. At
every moment the plain of the cell is the same, and with it the status, the value and its version, the disk with every
file and every fault, the path and the commits; every subscription that is not left out has been sent, and shows, the
same; and every event that is kept gets the same replies. A caller who leaves once its request is taken is missed by
nobody: from then on the two mailboxes differ in its own entry alone. -/
theorem requests_without_effect_are_unnoticed {s : Setup V} {location : Location} {hasRuntime : Bool} {b b' : Bench F}
    {w : Worker V} (built : build s (some location) hasRuntime b = (.ok w, b')) :
    let c := Session.mk w b'
    (∀ es, c.Thinned es →
      (∀ xs ys, es = xs ++ ys →
        let c₁ := (c.run (entire xs)).2
        let c₂ := (c.run (kept xs)).2
        c₂.plain = c₁.plain ∧ ∀ i, i ∉ hidden es →
          (c₂.worker.feeds[i]?).map Feed.visible = (c₁.worker.feeds[i]?).map Feed.visible) ∧
      ∀ xs e ys, es = xs ++ (e, true) :: ys →
        ((c.run (kept xs)).2.happen e).1 = ((c.run (entire xs)).2.happen e).1) ∧
    ∀ (as bs : List (Act F V)) (n : Nat), ((Mailbox.new c).run as).Taken n →
      Mailbox.Apart n ((Mailbox.new c).run (as ++ bs)) ((Mailbox.new c).run (as ++ .leave n :: bs)) := by
  intro c
  have start (hid : List Nat) : Session.Alike hid c c := by
    obtain ⟨target, label, registry, fields, rfl, rfl, -⟩ := build_ok built
    exact ⟨rfl, fun i => .refl fun _ => rfl⟩
  refine ⟨fun es thinned => ⟨fun xs ys split => ?_, fun xs e ys split => ?_⟩, fun as bs n taken => ?_⟩
  · have alike := thinned.alike (start (hidden es)) split
    exact ⟨alike.plain, fun i shown => (alike.seats i).visible shown⟩
  · have alike := thinned.alike (start (hidden es)) split
    have mem : (e, true) ∈ es := by
      rw [split]
      exact List.mem_append_right xs List.mem_cons_self
    refine (alike.happen ?_ ?_).1
    · rintro i hid rfl
      exact thinned.apart i hid mem
    · rintro f rfl
      exact thinned.gestures f true mem
  · have parted (cs : List (Act F V)) : (Mailbox.new c).run (as ++ cs) = ((Mailbox.new c).run as).run cs :=
      List.foldl_append
    rw [parted, parted]
    exact Mailbox.apart_run (Mailbox.apart_leave taken) taken bs

/-- A switch is flipped twice, and nobody can tell whether it was read in between. Somebody who flips it and leaves at
once is not missed. -/
theorem a_switch_is_read_unnoticed :
    let b : Bench Memory := { disk := { namespaceId := "0" }, registry := {}, journal := {} }
    let invert : Bool → Outcome Bool := fun v => .returned !v
    let flip : Event Memory Bool := .request (.update invert true)
    let look : Event Memory Bool := .request (.read true)
    let before : List (Act Memory Bool) := [.ask (.update invert), .work]
    ∃ w b', build switch (some (.path ⟨"/d/v"⟩)) true b = (.ok w, b') ∧
      (Session.mk w b').Thinned [(flip, true), (look, false), (flip, true)] ∧
      ((Session.mk w b').run [flip, flip]).2.plain = ((Session.mk w b').run [flip, look, flip]).2.plain ∧
      ((Mailbox.new (Session.mk w b')).run before).Taken 0 ∧
      ((Mailbox.new (Session.mk w b')).run (before ++ [.leave 0, .work])).session =
        ((Mailbox.new (Session.mk w b')).run (before ++ [.work])).session := by
  intro b invert flip look before
  have checked : ((newCell switch ⟨"/d/v"⟩ b).any fun c => decide (
      (c.run [flip]).2.worker.life = .serving ∧ (c.run [flip]).2.value?.isSome = true ∧
      ((Mailbox.new c).run before).callers.length = 1 ∧ ((Mailbox.new c).run before).feed? 0 = none ∧
      ((Mailbox.new c).run before).queue.length = 0)) = true := by
    decide +kernel
  rcases found : newCell switch ⟨"/d/v"⟩ b with _ | ⟨w, b'⟩ <;> rw [found] at checked
  · cases checked
  · have built := build_of_newCell found
    obtain ⟨serving, value, sent, plain, empty⟩ := of_decide_eq_true checked
    have ready : ((Session.mk w b').run [flip]).2.IsReady := by
      refine ⟨serving, ?_⟩
      unfold Session.value? at value
      cases state : ((Session.mk w b').run [flip]).2.worker.state <;> rw [state] at value
      · cases value
      · exact ⟨_, _, rfl⟩
      · cases value
    have thinned : (Session.mk w b').Thinned [(flip, true), (look, false), (flip, true)] := by
      refine ⟨fun f k mem => ?_, fun xs e ys split => ?_, fun i mem => ?_⟩
      · simp [flip, look] at mem
      · obtain _ | ⟨x, _ | ⟨y, _ | ⟨z, xs⟩⟩⟩ := xs
        · cases (List.cons.inj split).1
        · obtain ⟨rfl, rest⟩ := List.cons.inj split
          cases (List.cons.inj rest).1
          exact ⟨.read true, rfl, Or.inr ready⟩
        · cases (List.cons.inj (List.cons.inj (List.cons.inj split).2).2).1
        · cases xs <;> simp at split
      · cases mem
    have taken : ((Mailbox.new (Session.mk w b')).run before).Taken 0 := by
      refine ⟨by rw [sent]; exact Nat.one_pos, plain, fun l mem => ?_⟩
      rw [List.length_eq_zero_iff.mp empty] at mem
      cases mem
    obtain ⟨runs, leaves⟩ := requests_without_effect_are_unnoticed built
    exact ⟨w, b', built, thinned, ((runs _ thinned).1 _ [] (List.append_nil _).symm).1, taken,
      congrArg (·.session) (leaves before [.work] 0 taken).rest⟩

end DurableValue.Cell
