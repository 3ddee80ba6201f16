/-
  DurableValue.Proofs.Cell.Streams — what a subscription is sent, from the request for it to its end.

  A subscription that reaches a cell with a value is sent that value, then every value that is committed, in order,
  and the terminal error if the cell becomes final; it ends when the cell does. A subscription that comes too late is
  sent the reason and ends (`Stream`).

  Proved:
  - `unheard_run`: until its request is handled a subscription is sent nothing.
  - `seat_of_no_place`: nobody but the handling of that request puts it on the list.
  - `goesOn_happen`, `stream_run`: a stream goes on with every event, and over a run.
  - `subscription_streams`: the whole of what is sent, for a request at any place of a run.
-/
import Mathlib.Data.List.Chain
import DurableValue.Proofs.Cell.Final
import DurableValue.Proofs.Cell.Seats

namespace DurableValue.Cell

open Disk (FileSystem Memory)

variable {F H V : Type} [FileSystem F H]

/-! ## Receiving -/

def Feed.sees : Nat → Feed V → List (Feed.Next V)
  | 0, _ => []
  | n + 1, f => f.next.1 :: sees n f.next.2

/-- A receiver sees what was sent, in order, and then the end if there is one. -/
theorem Feed.sees_all (f : Feed V) (n : Nat) (left : f.taken + n = f.sent.length) :
    f.sees (n + 1) = (f.sent.drop f.taken).map .item ++ [if f.isOpen then .pending else .ended] := by
  induction n generalizing f with
  | zero =>
    have none : f.sent[f.taken]? = none := List.getElem?_eq_none (by omega)
    have drop : f.sent.drop f.taken = [] := List.drop_eq_nil_of_le (by omega)
    simp [sees, next, none, drop]
  | succ n ih =>
    have lt : f.taken < f.sent.length := by omega
    have here : f.sent[f.taken]? = some f.sent[f.taken] := List.getElem?_eq_getElem lt
    have next : f.next = (.item f.sent[f.taken], { f with taken := f.taken + 1 }) := by simp [Feed.next, here]
    rw [sees, next, ih { f with taken := f.taken + 1 } (by simp only; omega), List.drop_eq_getElem_cons lt]
    rfl

/-- Whether the receiver of a subscription stays, whatever the others do. It may take items, and it may come with a new
feed. -/
def Keeps (i : Nat) (f : List (Feed V) → List (Feed V)) : Prop :=
  ∀ fs, match fs[i]? with
    | some x => ∃ y, (f fs)[i]? = some y ∧ y.sent = x.sent ∧ y.isOpen = x.isOpen ∧ y.isDropped = x.isDropped
    | none => ∀ y ∈ (f fs)[i]?, y.sent = [] ∧ y.isOpen = true ∧ y.isDropped = false

/-- A new subscription disturbs no other. -/
theorem keeps_newFeed (i : Nat) : Keeps i (· ++ [({} : Feed V)]) := by
  intro fs
  cases found : fs[i]? with
  | some x =>
    exact ⟨x, (List.getElem?_append_left (List.getElem?_eq_some_iff.mp found).1).trans found, rfl, rfl, rfl⟩
  | none =>
    intro y hy
    have new : y ∈ [({} : Feed V)] := by
      rw [Option.mem_def, List.getElem?_append_right (List.getElem?_eq_none_iff.mp found)] at hy
      exact List.mem_of_getElem? hy
    cases List.mem_singleton.mp new
    exact ⟨rfl, rfl, rfl⟩

namespace Session

/-! ## What is committed -/

def news (c c' : Session F V) : List V :=
  match c.worker.state, c'.worker.state with
  | .ready _ n, .ready v m => if n < m then [v] else []
  | _, _ => []

/-- The values that are committed in the course of some events, in order. -/
def committed : List (Event F V) → Session F V → List V
  | [], _ => []
  | e :: es, c => c.news (c.happen e).2 ++ committed es (c.happen e).2

def lastWord (c : Session F V) : List (Except Error V) :=
  match c.worker.state with
  | .final t => [.error t]
  | _ => []

variable {c c' : Session F V} {i : Nat}

/-! ## Seats without a place -/

theorem seat_of_lists (lists : c'.worker.feeds = c.worker.feeds ∧ c'.worker.attached = c.worker.attached) :
    c'.worker.seat i = c.worker.seat i := by
  simp only [Worker.seat, lists.1, lists.2]

/-- What a transform of the value does to a seat, with what it does to the state and what it answers. -/
theorem seat_updated {transform : V → Outcome V} {v : V} {n : Nat} {a : Except Error V}
    (state : c.worker.state = .ready v n) (h : Updated c transform v n a c') :
    (c'.worker.seat i = c.worker.seat i ∧ c'.worker.state = .ready v n ∧
        ∀ x, a = .ok x → c.worker.setup.same x v = true) ∨
      (∃ next, c'.worker.seat i = (c.worker.seat i).pruned.told (.ok next) ∧ c'.worker.state = .ready next (n + 1) ∧
        c.worker.setup.same next v = false ∧ a = .ok next) ∨
      ∃ t, c'.worker.seat i = ((c.worker.seat i).told (.error t)).dismissed ∧ c'.worker.state = .final t ∧
        a = .error t := by
  have called : (c.call .transform).worker.seat i = c.worker.seat i := rfl
  cases h with
  | rejected => exact Or.inl ⟨rfl, state, fun x ok => by cases ok⟩
  | unchanged _ same => exact Or.inl ⟨rfl, state, fun x ok => Except.ok.inj ok ▸ same⟩
  | committed result changed target performs =>
    rename_i next _ _ c₁
    refine Or.inr (Or.inl ⟨next, ?_, state_of_gist (gist_publish _ _), changed, rfl⟩)
    have before : c₁.worker.seat i = c.worker.seat i := (seat_of_lists (lists_of_performed performs)).trans called
    rw [seat_publish, ← before]
    rfl
  | lost _ _ _ performs =>
    refine Or.inr (Or.inr ⟨_, ?_, rfl, rfl⟩)
    rw [seat_enterFinal, seat_of_lists (lists_of_performed performs), called]
  | homeless =>
    refine Or.inr (Or.inr ⟨_, ?_, rfl, rfl⟩)
    rw [seat_enterFinal, called]

theorem seat_ensured (listed : c.Listed) : c.ensureReady.2.worker.seat i = c.worker.seat i :=
  seat_of_lists (lists_opened listed (opened c))

theorem seat_refuse {r : Request V} (other : r ≠ .subscribe i) : (c.refuse r).2.worker.seat i = c.worker.seat i := by
  cases r with
  | update transform isAwaited => cases isAwaited <;> rfl
  | read isAwaited => cases isAwaited <;> rfl
  | subscribe j =>
    have ne : j ≠ i := fun same => other (same ▸ rfl)
    exact Worker.seat_onFeed_ne ne _ _
  | close => rfl

theorem seat_forsake {r : Request V} (other : r ≠ .subscribe i) : (c.forsake r).2.worker.seat i = c.worker.seat i := by
  cases r with
  | subscribe j =>
    have ne : j ≠ i := fun same => other (same ▸ rfl)
    exact Worker.seat_onFeed_ne ne _ _
  | _ => exact seat_refuse other

/-- What is done for others leaves a seat without a place as it is. -/
theorem seat_handle {r : Request V} (none : (c.worker.seat i).places = 0) (other : r ≠ .subscribe i)
    (listed : c.Listed) : (c.handle r).2.worker.seat i = c.worker.seat i := by
  have ensures := seat_ensured (i := i) listed
  cases r with
  | update transform isAwaited =>
    cases isAwaited with
    | false => rfl
    | true =>
      rcases ensured : c.ensureReady with ⟨halt | ⟨⟩, c₁⟩ <;> rw [ensured] at ensures <;> simp only [handle, ensured]
      · exact ensures
      · obtain ⟨-, v, n, state⟩ := ready_of_ensured ensured
        have none₁ : (c₁.worker.seat i).places = 0 := (congrArg Seat.places ensures).trans none
        rcases seat_updated (i := i) state (updated state transform) with ⟨same, -⟩ | ⟨next, told, -⟩ | ⟨t, told, -⟩
        · exact same.trans ensures
        · rw [told, Seat.pruned_of_no_place none₁, Seat.told_of_no_place none₁]
          exact ensures
        · rw [told, Seat.told_of_no_place none₁, Seat.dismissed_of_no_place none₁]
          exact ensures
  | read isAwaited =>
    cases isAwaited with
    | false => rfl
    | true =>
      rcases ensured : c.ensureReady with ⟨halt | ⟨⟩, c₁⟩ <;> rw [ensured] at ensures <;> simp only [handle, ensured]
      · exact ensures
      · exact ensures
  | subscribe j =>
    have ne : j ≠ i := fun same => other (same ▸ rfl)
    simp only [handle]
    split
    · rcases ensured : c.ensureReady with ⟨(t | _) | ⟨⟩, c₁⟩ <;> rw [ensured] at ensures
      · exact (Worker.seat_onFeed_ne ne _ _).trans ensures
      · exact (Worker.seat_onFeed_ne ne _ _).trans ensures
      · have none₁ : (c₁.worker.seat i).places = 0 := (congrArg Seat.places ensures).trans none
        obtain ⟨-, v, n, state⟩ := ready_of_ensured ensured
        simp only [state]
        rw [seat_attach_ne _ _ ne, Seat.pruned_of_no_place none₁]
        exact ensures
    · exact Worker.seat_onFeed_ne ne _ _
  | close =>
    rw [← Seat.dismissed_of_no_place none]
    exact seat_shutDown c i

/-- A seat without a place stays as it is, unless its own request is handled. -/
theorem seat_of_no_place {r : Request V} (none : (c.worker.seat i).places = 0) (other : r ≠ .subscribe i)
    (listed : c.Listed) : (c.happen (.request r)).2.worker.seat i = c.worker.seat i := by
  cases life : c.worker.life with
  | serving =>
    simp only [happen, serve, life]
    exact seat_handle none other listed
  | closed =>
    simp only [happen, serve, life]
    exact seat_refuse other
  | broken =>
    simp only [happen, serve, life]
    exact seat_forsake other

/-! ## One subscription -/

/-- A subscription with a receiver that was sent some items; while it is open it has one place. -/
def Stream (i : Nat) (sent : List (Except Error V)) (isOpen : Bool) (c : Session F V) : Prop :=
  ∃ f, c.worker.seat i = ⟨some f, isOpen.toNat⟩ ∧ f.sent = sent ∧ f.isOpen = isOpen ∧ f.isDropped = false

/-- Nothing was sent to a subscription yet, nor has it ended, if it is there at all. -/
def Unheard (i : Nat) (c : Session F V) : Prop :=
  (c.worker.seat i).places = 0 ∧ ∀ f ∈ c.worker.feeds[i]?, f.sent = [] ∧ f.isOpen = true ∧ f.isDropped = false

/-- An event of which a subscription notices no more than its cell does: its request is not handled, and its receiver
stays. -/
def Passes (i : Nat) (e : Event F V) : Prop :=
  e ≠ .request (.subscribe i) ∧ ∀ f, e = .receivers f → Keeps i f

variable {sent : List (Except Error V)} {isOpen : Bool}

theorem stream_receivers {f : List (Feed V) → List (Feed V)} (keeps : Keeps i f) (stream : Stream i sent isOpen c) :
    Stream i sent isOpen (c.happen (.receivers f)).2 := by
  obtain ⟨x, seat, isSent, opened, present⟩ := stream
  have feed : c.worker.feeds[i]? = some x := congrArg Seat.feed seat
  have places : c.worker.attached.count i = isOpen.toNat := congrArg Seat.places seat
  have kept := keeps c.worker.feeds
  rw [feed] at kept
  obtain ⟨y, after, sent', opened', present'⟩ := kept
  refine ⟨y, ?_, sent'.trans isSent, opened'.trans opened, present'.trans present⟩
  simp only [happen, onWorker, Worker.seat, after, places]

/-- A subscription that has ended has ended for good. -/
theorem ended_happen {e : Event F V} (passes : Passes i e) (listed : c.Listed) (ended : Stream i sent false c) :
    Stream i sent false (c.happen e).2 := by
  cases e with
  | request r =>
    obtain ⟨f, seat, rest⟩ := ended
    have other : r ≠ .subscribe i := fun same => passes.1 (same ▸ rfl)
    refine ⟨f, ?_, rest⟩
    rw [seat_of_no_place (congrArg Seat.places seat) other listed]
    exact seat
  | receivers f => exact stream_receivers (passes.2 f rfl) ended
  | outside f => exact ended

theorem ended_run {es : List (Event F V)} (passes : ∀ e ∈ es, Passes i e) (listed : c.Listed)
    (ended : Stream i sent false c) : Stream i sent false (c.run es).2 := by
  induction es generalizing c with
  | nil => exact ended
  | cons e es ih =>
    exact ih (fun e he => passes e (List.mem_cons_of_mem _ he)) (listed_happen e listed)
      (ended_happen (passes e List.mem_cons_self) listed ended)

theorem unheard_happen {e : Event F V} (passes : Passes i e) (listed : c.Listed) (unheard : Unheard i c) :
    Unheard i (c.happen e).2 := by
  obtain ⟨none, fresh⟩ := unheard
  cases e with
  | request r =>
    have other : r ≠ .subscribe i := fun same => passes.1 (same ▸ rfl)
    have seat := seat_of_no_place none other listed
    refine ⟨(congrArg Seat.places seat).trans none, ?_⟩
    have feed : (c.happen (.request r)).2.worker.feeds[i]? = c.worker.feeds[i]? := congrArg Seat.feed seat
    rw [feed]
    exact fresh
  | receivers f =>
    refine ⟨none, fun y hy => ?_⟩
    have kept := passes.2 f rfl c.worker.feeds
    cases found : c.worker.feeds[i]? with
    | none =>
      rw [found] at kept
      exact kept y hy
    | some x =>
      rw [found] at kept
      obtain ⟨y', after, sent', opened', present'⟩ := kept
      have same : y' = y := Option.some.inj (after.symm.trans hy)
      obtain ⟨isSent, opened, present⟩ := fresh x found
      subst same
      exact ⟨sent'.trans isSent, opened'.trans opened, present'.trans present⟩
  | outside f => exact ⟨none, fresh⟩

theorem unheard_run {es : List (Event F V)} (passes : ∀ e ∈ es, Passes i e) (listed : c.Listed)
    (unheard : Unheard i c) : Unheard i (c.run es).2 := by
  induction es generalizing c with
  | nil => exact unheard
  | cons e es ih =>
    exact ih (fun e he => passes e (List.mem_cons_of_mem _ he)) (listed_happen e listed)
      (unheard_happen (passes e List.mem_cons_self) listed unheard)

/-! ## Out of service -/

/-- A cell that is out of service stays in its state. -/
theorem state_of_down {e : Event F V} (down : ¬ c.InService) : (c.happen e).2.worker.state = c.worker.state := by
  cases life : c.worker.life with
  | serving =>
    obtain ⟨t, final⟩ : ∃ t, c.worker.state = .final t :=
      Classical.byContradiction fun none => down ⟨life, fun t ht => none ⟨t, ht⟩⟩
    rw [final]
    exact (happen_final final e).1
  | closed =>
    cases e with
    | request r =>
      simp only [happen, serve, life]
      exact state_of_gist (gist_refuse c r)
    | receivers f => rfl
    | outside f => rfl
  | broken =>
    cases e with
    | request r =>
      simp only [happen, serve, life]
      exact state_of_gist (gist_forsake c r)
    | receivers f => rfl
    | outside f => rfl

theorem news_of_same (same : c'.worker.state = c.worker.state) : c.news c' = [] := by
  unfold news
  rw [same]
  cases c.worker.state <;> simp

/-- A cell that is out of service commits nothing, and has said its last word. -/
theorem quiet_of_down {es : List (Event F V)} (down : ¬ c.InService) :
    committed es c = [] ∧ (c.run es).2.lastWord = c.lastWord := by
  induction es generalizing c with
  | nil => exact ⟨rfl, rfl⟩
  | cons e es ih =>
    have state := state_of_down (e := e) down
    obtain ⟨nothing, word⟩ := ih (c := (c.happen e).2) fun up => down (inService_happen up)
    refine ⟨?_, word.trans ?_⟩
    · rw [committed, nothing, news_of_same state]
      rfl
    · unfold lastWord
      rw [state]

/-! ## In service -/

theorem Stream.told {x : Except Error V} (stream : Stream i sent true c)
    (seat : c'.worker.seat i = (c.worker.seat i).pruned.told x) : Stream i (sent ++ [x]) true c' := by
  obtain ⟨f, before, isSent, opened, present⟩ := stream
  have pruned : (c.worker.seat i).pruned = c.worker.seat i := by
    rw [before, Seat.pruned]
    simp [Seat.hasListener, present]
  rw [pruned, before] at seat
  refine ⟨f.send x, seat, ?_, ?_, ?_⟩
  · simp [Feed.send, present, isSent]
  · simp [Feed.send, present, opened]
  · simp [Feed.send, present]

theorem Stream.dismissed (stream : Stream i sent true c)
    (seat : c'.worker.seat i = (c.worker.seat i).dismissed) : Stream i sent false c' := by
  obtain ⟨f, before, isSent, opened, present⟩ := stream
  rw [before] at seat
  exact ⟨f.finish, seat, isSent, rfl, present⟩

theorem Stream.ended {x : Except Error V} (stream : Stream i sent true c)
    (seat : c'.worker.seat i = ((c.worker.seat i).told x).dismissed) : Stream i (sent ++ [x]) false c' := by
  obtain ⟨f, before, isSent, opened, present⟩ := stream
  rw [before] at seat
  refine ⟨(f.send x).finish, seat, ?_, rfl, ?_⟩
  · simp [Feed.finish, Feed.send, present, isSent]
  · simp [Feed.finish, Feed.send, present]

theorem stream_of_seat (stream : Stream i sent isOpen c) (seat : c'.worker.seat i = c.worker.seat i) :
    Stream i sent isOpen c' := by
  obtain ⟨f, before, rest⟩ := stream
  exact ⟨f, seat.trans before, rest⟩

/-- How a cell in service goes on, as a subscription sees it: it stays in service, with at most one new value that
differs from the last one and was sent, or it goes out of service, and the subscription ends with its last word. -/
def GoesOn (i : Nat) (sent : List (Except Error V)) (v : V) (n : Nat) (c c' : Session F V) : Prop :=
  (∃ v', c'.worker.life = .serving ∧ c'.worker.state = .ready v' (n + (c.news c').length) ∧
      Stream i (sent ++ (c.news c').map .ok) true c' ∧
      (c.news c' = [] ∧ v' = v ∨ c.news c' = [v'] ∧ c.worker.setup.same v' v = false)) ∨
    ¬ c'.InService ∧ Stream i (sent ++ c'.lastWord) false c' ∧ c.news c' = []

theorem goesOn_of_same {v : V} {n : Nat} (state : c.worker.state = .ready v n) (stream : Stream i sent true c)
    (life' : c'.worker.life = .serving) (state' : c'.worker.state = .ready v n)
    (seat : c'.worker.seat i = c.worker.seat i) : GoesOn i sent v n c c' := by
  have nothing : c.news c' = [] := news_of_same (state'.trans state.symm)
  unfold GoesOn
  rw [nothing, List.map_nil, List.append_nil]
  exact Or.inl ⟨v, life', state', stream_of_seat stream seat, Or.inl ⟨rfl, rfl⟩⟩

theorem goesOn_updated {transform : V → Outcome V} {v : V} {n : Nat} {a : Except Error V}
    (life : c.worker.life = .serving) (state : c.worker.state = .ready v n) (stream : Stream i sent true c)
    (way : Updated c transform v n a c') : GoesOn i sent v n c c' := by
  have life' := (life_updated way).trans life
  rcases seat_updated (i := i) state way with
    ⟨seat, state', -⟩ | ⟨next, told, state', changed, -⟩ | ⟨t, told, final, -⟩
  · exact goesOn_of_same state stream life' state' seat
  · have one : c.news c' = [next] := by simp [news, state, state']
    unfold GoesOn
    rw [one]
    exact Or.inl ⟨next, life', state', stream.told told, Or.inr ⟨rfl, changed⟩⟩
  · refine Or.inr ⟨fun up => up.2 t final, ?_, by simp [news, state, final]⟩
    have word : c'.lastWord = [.error t] := by simp [lastWord, final]
    rw [word]
    exact stream.ended told

theorem goesOn_shutDown {v : V} {n : Nat} (state : c.worker.state = .ready v n) (stream : Stream i sent true c) :
    GoesOn i sent v n c c.shutDown := by
  have state' : c.shutDown.worker.state = .ready v n := (state_shutDown c).trans state
  have down : ¬ c.shutDown.InService := fun up => by cases (life_shutDown c).symm.trans up.1
  refine Or.inr ⟨down, ?_, news_of_same (state'.trans state.symm)⟩
  have word : c.shutDown.lastWord = [] := by simp [lastWord, state']
  rw [word, List.append_nil]
  exact stream.dismissed (seat_shutDown c i)

theorem goesOn_happen {v : V} {n : Nat} {e : Event F V} (life : c.worker.life = .serving)
    (state : c.worker.state = .ready v n) (passes : Passes i e) (stream : Stream i sent true c) :
    GoesOn i sent v n c (c.happen e).2 := by
  have ready := c.ensureReady_ready state
  cases e with
  | request r =>
    simp only [happen, serve, life]
    cases r with
    | update transform isAwaited =>
      cases isAwaited with
      | false => exact goesOn_of_same state stream life state rfl
      | true =>
        simp only [handle, ready]
        exact goesOn_updated life state stream (updated state transform)
    | read isAwaited =>
      cases isAwaited with
      | false => exact goesOn_of_same state stream life state rfl
      | true =>
        simp only [handle, ready]
        exact goesOn_of_same state stream life state rfl
    | subscribe j =>
      have ne : j ≠ i := fun same => passes.1 (same ▸ rfl)
      simp only [handle, ready, state]
      split
      · have pruned : (c.worker.seat i).pruned = c.worker.seat i := by
          obtain ⟨f, seat, -, -, present⟩ := stream
          rw [seat, Seat.pruned]
          simp [Seat.hasListener, present]
        exact goesOn_of_same state stream ((life_of_gist (gist_attach c v j)).trans life)
          ((state_of_gist (gist_attach c v j)).trans state) ((seat_attach_ne c i ne v).trans pruned)
      · exact goesOn_of_same state stream life state (Worker.seat_onFeed_ne ne _ _)
    | close => exact goesOn_shutDown state stream
  | receivers f =>
    have nothing : c.news (c.happen (.receivers f)).2 = [] := news_of_same rfl
    unfold GoesOn
    rw [nothing, List.map_nil, List.append_nil]
    exact Or.inl ⟨v, life, state, stream_receivers (passes.2 f rfl) stream, Or.inl ⟨rfl, rfl⟩⟩
  | outside f => exact goesOn_of_same state stream life state rfl

/-- What a subscription is sent from a moment at which the cell is in service. -/
theorem stream_run {v : V} {n : Nat} {es : List (Event F V)} (life : c.worker.life = .serving)
    (state : c.worker.state = .ready v n) (listed : c.Listed) (passes : ∀ e ∈ es, Passes i e)
    (stream : Stream i sent true c) :
    Stream i (sent ++ (committed es c).map .ok ++ (c.run es).2.lastWord) (decide (c.run es).2.InService)
        (c.run es).2 ∧
      (v :: committed es c).IsChain (fun x y => c.worker.setup.same y x = false) ∧
      ((c.run es).2.InService → (c.run es).2.worker.state =
        .ready ((committed es c).getLast?.getD v) (n + (committed es c).length)) := by
  induction es generalizing c v n sent with
  | nil =>
    have up : c.InService := ⟨life, fun t final => by cases state.symm.trans final⟩
    have word : c.lastWord = [] := by simp [lastWord, state]
    refine ⟨?_, List.IsChain.singleton v, fun _ => state⟩
    simpa [committed, run, word, up] using stream
  | cons e es ih =>
    have passes' : ∀ e ∈ es, Passes i e := fun e he => passes e (List.mem_cons_of_mem _ he)
    have listed' := listed_happen e listed
    have same : (c.happen e).2.worker.setup = c.worker.setup := setup_happen e
    rw [run_cons]
    rcases goesOn_happen life state (passes e List.mem_cons_self) stream with
      ⟨v', life', state', stream', news⟩ | ⟨down, ended, nothing⟩
    · -- the cell stays in service, with the value it had or one new value
      obtain ⟨whole, chain, current⟩ := ih life' state' listed' passes' stream'
      rw [same] at chain
      refine ⟨?_, ?_⟩
      · simpa only [committed, List.map_append, List.append_assoc] using whole
      · rcases news with ⟨nothing, rfl⟩ | ⟨one, changed⟩
        · rw [nothing] at current
          simp only [committed, nothing, List.nil_append]
          exact ⟨chain, current⟩
        · rw [one] at current
          simp only [committed, one, List.singleton_append]
          refine ⟨List.isChain_cons_cons.mpr ⟨changed, chain⟩, fun up => (current up).trans ?_⟩
          have count (k : Nat) : n + [v'].length + k = n + (k + 1) := by simp only [List.length_singleton]; omega
          rw [count, List.getLast?_cons, Option.getD_some, List.length_cons]
    · -- the cell goes out of service, and nothing is committed behind that
      obtain ⟨nothing', word⟩ : committed es (c.happen e).2 = [] ∧ _ = (c.happen e).2.lastWord := quiet_of_down down
      have down' : ¬ ((c.happen e).2.run es).2.InService := fun up => down (inService_run up)
      have none : committed (e :: es) c = [] := by rw [committed, nothing, nothing']; rfl
      refine ⟨?_, ?_, fun up => absurd up down'⟩
      · rw [none, List.map_nil, List.append_nil, word, decide_eq_false down']
        exact ended_run passes' listed' ended
      · rw [none]
        exact List.IsChain.singleton v

/-- An update that is answered with a value leaves the cell in service with that value. -/
theorem answered_update (exact : ∀ x y, c.worker.setup.same x y = true → x = y) {transform : V → Outcome V} {x : V}
    (answer : (c.happen (.request (.update transform true))).1 = [.answer (.ok x)]) :
    (c.happen (.request (.update transform true))).2.InService ∧
      ∃ m, (c.happen (.request (.update transform true))).2.worker.state = .ready x m := by
  cases life : c.worker.life with
  | serving =>
    simp only [happen, serve, life] at answer ⊢
    rcases ensured : c.ensureReady with ⟨halt | ⟨⟩, c₁⟩ <;> simp only [handle, ensured] at answer ⊢
    · cases answer
    · obtain ⟨life₁, v, n, state⟩ := ready_of_ensured ensured
      have setup : c₁.worker.setup = c.worker.setup := by
        have kept := setup_opened (opened c)
        rwa [ensured] at kept
      have ok : (c₁.update transform).1 = .ok x := by simpa using answer
      have way := updated state transform
      have serving := (life_updated way).trans (life₁.trans life)
      obtain ⟨m, ready⟩ : ∃ m, (c₁.update transform).2.worker.state = .ready x m := by
        rcases seat_updated (i := 0) state way with ⟨-, state', same⟩ | ⟨next, -, state', -, ok'⟩ | ⟨t, -, -, failed⟩
        · have := exact _ _ (setup ▸ same x ok)
          exact ⟨n, this ▸ state'⟩
        · cases ok.symm.trans ok'
          exact ⟨n + 1, state'⟩
        · cases ok.symm.trans failed
      exact ⟨⟨serving, fun t final => by cases ready.symm.trans final⟩, m, ready⟩
  | closed => simp [happen, serve, life, refuse] at answer
  | broken => simp [happen, serve, life, forsake, refuse] at answer

/-! ## The request itself -/

theorem stream_turnAway {f : Feed V} (seat : c.worker.seat i = ⟨some f, 0⟩)
    (fresh : f.sent = [] ∧ f.isOpen = true ∧ f.isDropped = false) (e : Error) :
    Stream i [.error e] false (c.turnAway i e) := by
  have after : (c.turnAway i e).worker.seat i = ⟨some ((f.send (.error e)).finish), 0⟩ :=
    (Worker.seat_onFeed i _ c.worker).trans (by rw [seat]; rfl)
  obtain ⟨nothing, -, present⟩ := fresh
  refine ⟨_, after, ?_, rfl, ?_⟩
  · simp [Feed.finish, Feed.send, present, nothing]
  · simp [Feed.finish, Feed.send, present]

/-- The request for a subscription that was sent nothing yet starts its stream, or ends it at once. -/
theorem stream_of_subscribe (unheard : Unheard i c) (listens : c.worker.hasListener i = true) (listed : c.Listed)
    (calm : ∀ m, c.worker.target ≠ .deferred (.panics m)) (sound : c.worker.life ≠ .broken)
    (handled : (c.happen (.request (.subscribe i))).2 = c') :
    (c.worker.life = .serving ∧ c'.worker.life = .serving ∧
        ∃ v n, c'.worker.state = .ready v n ∧ Stream i [.ok v] true c') ∨
      (c.worker.life = .serving ∧ ∃ t, c'.worker.state = .final t ∧ Stream i [.error t] false c') ∨
        c.worker.life = .closed ∧ c'.worker.life = .closed ∧ Stream i [.error .closed] false c' := by
  obtain ⟨places, pristine⟩ := unheard
  obtain ⟨f, feed⟩ : ∃ f, c.worker.feeds[i]? = some f := by
    cases found : c.worker.feeds[i]? with
    | none => simp [Worker.hasListener, found] at listens
    | some f => exact ⟨f, rfl⟩
  have fresh := pristine f feed
  have seat : c.worker.seat i = ⟨some f, 0⟩ := by rw [← feed, ← places]; rfl
  cases life : c.worker.life with
  | serving =>
    have ensures := seat_ensured (i := i) listed
    rcases ensured : c.ensureReady with ⟨(t | _) | ⟨⟩, c₁⟩ <;> rw [ensured] at ensures
    · have final := final_of_ensured ensured
      simp only [happen, serve, life, handle, listens, if_true, ensured] at handled
      subst handled
      exact Or.inr (Or.inl ⟨rfl, t, final, stream_turnAway (ensures.trans seat) fresh t⟩)
    · obtain ⟨-, m, panics⟩ := broken_of_ensured ensured
      exact absurd panics (calm m)
    · obtain ⟨life₁, v, n, state⟩ := ready_of_ensured ensured
      simp only [happen, serve, life, handle, listens, if_true, ensured, state] at handled
      subst handled
      refine Or.inl ⟨rfl, (life_of_gist (gist_attach c₁ v i)).trans (life₁.trans life), v, n,
        (state_of_gist (gist_attach c₁ v i)).trans state, ?_⟩
      obtain ⟨nothing, opened, present⟩ := fresh
      have seat₁ : c₁.worker.seat i = ⟨some f, 0⟩ := ensures.trans seat
      refine ⟨f.send (.ok v), ?_, ?_, ?_, ?_⟩
      · rw [seat_attach, seat₁]
        simp [Seat.pruned, Seat.hasListener, Feed.send, present]
      · simp [Feed.send, present, nothing]
      · simp [Feed.send, present, opened]
      · simp [Feed.send, present]
  | closed =>
    simp only [happen, serve, life, refuse] at handled
    subst handled
    exact Or.inr (Or.inr ⟨rfl, life, stream_turnAway seat fresh .closed⟩)
  | broken => exact absurd life sound

/-! ## Cells that do not break -/

theorem sound_opened {a : Except Halt Unit} (h : Opened c a c')
    (sound : (∀ m, c.worker.target ≠ .deferred (.panics m)) ∧ c.worker.life ≠ .broken) :
    (∀ m, c'.worker.target ≠ .deferred (.panics m)) ∧ c'.worker.life ≠ .broken := by
  have resolves {x : Resolved} {c₁ : Session F V} (h : Resolving (c.onWorker (·.reveal .initializing)) x c₁)
      (found : x ≠ .broken) :
      (∀ m, c₁.worker.target ≠ .deferred (.panics m)) ∧ c₁.worker.life ≠ .broken := by
    cases h with
    | opened => exact sound
    | unavailable => exact sound
    | panicked => exact absurd rfl found
    | claimed => exact ⟨fun m => nofun, sound.2⟩
    | taken => exact ⟨fun m => nofun, sound.2⟩
  have keeps {c₁ c₂ : Session F V} (fixed : c₂.worker.fixed = c₁.worker.fixed)
      (sound : (∀ m, c₁.worker.target ≠ .deferred (.panics m)) ∧ c₁.worker.life ≠ .broken) :
      (∀ m, c₂.worker.target ≠ .deferred (.panics m)) ∧ c₂.worker.life ≠ .broken := by
    obtain ⟨-, target, -, life⟩ := Worker.of_fixed fixed
    rw [target, life]
    exact sound
  cases h with
  | ready => exact sound
  | final => exact sound
  | broke _ resolved =>
    cases resolved with
    | panicked target => exact absurd target (sound.1 _)
  | refused _ resolved => exact keeps (fixed_enterFinal _) (resolves resolved nofun)
  | failed _ resolved performs =>
    exact keeps (fixed_enterFinal _) (keeps (fixed_of_perform performs) (resolves resolved nofun))
  | began _ resolved performs =>
    have performed := keeps (fixed_of_perform performs) (resolves resolved nofun)
    exact performed

/-- A cell whose path is given, or made without a panic, never breaks. -/
theorem sound_run {es : List (Event F V)}
    (start : (∀ m, c.worker.target ≠ .deferred (.panics m)) ∧ c.worker.life ≠ .broken) :
    (∀ m, (c.run es).2.worker.target ≠ .deferred (.panics m)) ∧ (c.run es).2.worker.life ≠ .broken := by
  induction es generalizing c with
  | nil => exact start
  | cons e es ih =>
    refine ih (happen_keeps
      (P := fun c => (∀ m, c.worker.target ≠ .deferred (.panics m)) ∧ c.worker.life ≠ .broken) ?_ ?_ ?_ ?_ ?_ start)
    · intro c c' gist sound
      have target : c'.worker.target = c.worker.target := congrArg (·.worker.target) gist
      rw [target, life_of_gist gist]
      exact sound
    · intro c _ _
      have target : c.shutDown.worker.target = .unavailable := congrArg (·.worker.target) (gist_shutDown c)
      rw [target, life_shutDown]
      exact ⟨fun m => nofun, nofun⟩
    · intro c a c' _ h sound
      exact sound_opened h sound
    · intro c transform v n a c' _ _ h sound
      obtain ⟨-, target, -, life⟩ := Worker.of_fixed (fixed_updated h)
      rw [target, life]
      exact sound
    · exact fun _ sound => sound

/-! ## From the request to the end -/

/-- A subscription whose receiver is there holds some items. One that asks for those it has not taken sees them in
order, and then the end, unless there may be more. -/
def Holds (i : Nat) (items : List (Except Error V)) (isOpen : Bool) (c : Session F V) : Prop :=
  ∃ f, c.worker.feeds[i]? = some f ∧ f.sent = items ∧ f.isOpen = isOpen ∧ f.isDropped = false ∧
    ∀ n, f.taken + n = items.length →
      f.sees (n + 1) = (items.drop f.taken).map .item ++ [if isOpen then .pending else .ended]

theorem Stream.holds (stream : Stream i sent isOpen c) : Holds i sent isOpen c := by
  obtain ⟨f, seat, rfl, rfl, present⟩ := stream
  exact ⟨f, congrArg Seat.feed seat, rfl, rfl, present, fun n left => f.sees_all n left⟩

/-- What a subscription comes to hold that has reached a cell with the value `v` in version `n`. -/
def Follows (i : Nat) (v : V) (n : Nat) (post : List (Event F V)) (c : Session F V) : Prop :=
  let later := committed post c
  let c' := (c.run post).2
  Holds i (.ok v :: later.map .ok ++ c'.lastWord) (decide c'.InService) c' ∧
    (v :: later).IsChain (· ≠ ·) ∧
    (c'.InService → c'.worker.state = .ready (later.getLast?.getD v) (n + later.length)) ∧
    ∀ xs transform ys x, post = xs ++ .request (.update transform true) :: ys →
      ((c.run xs).2.happen (.request (.update transform true))).1 = [.answer (.ok x)] →
        ∃ items, Holds i (items ++ [.ok x]) true ((c.run xs).2.happen (.request (.update transform true))).2

/-- An update that is answered with a value has sent it to the subscription before. -/
theorem holds_answered {v : V} {n : Nat} {xs : List (Event F V)} {transform : V → Outcome V} {x : V}
    (life : c.worker.life = .serving) (state : c.worker.state = .ready v n) (listed : c.Listed)
    (exact : ∀ x y, c.worker.setup.same x y = true ↔ x = y)
    (passes : ∀ e ∈ xs ++ [.request (.update transform true)], Passes i e) (stream : Stream i [.ok v] true c)
    (answer : ((c.run xs).2.happen (.request (.update transform true))).1 = [.answer (.ok x)]) :
    ∃ items, Holds i (items ++ [.ok x]) true ((c.run xs).2.happen (.request (.update transform true))).2 := by
  obtain ⟨upTo, -, value⟩ := stream_run life state listed passes stream
  have step : (c.run (xs ++ [.request (.update transform true)])).2 =
      ((c.run xs).2.happen (.request (.update transform true))).2 := run_append c xs _
  rw [step] at upTo value
  have setup : (c.run xs).2.worker.setup = c.worker.setup := setup_run xs
  obtain ⟨up, m, ready⟩ := answered_update (fun x y => by rw [setup]; exact (exact x y).mp) answer
  have last : (committed (xs ++ [.request (.update transform true)]) c).getLast?.getD v = x := by
    have both := (value up).symm.trans ready
    injection both
  have word : ((c.run xs).2.happen (.request (.update transform true))).2.lastWord = [] := by simp [lastWord, ready]
  rw [word, List.append_nil, decide_eq_true up] at upTo
  generalize committed (xs ++ [.request (.update transform true)]) c = news at upTo last
  rcases List.eq_nil_or_concat news with rfl | ⟨front, y, rfl⟩
  · cases last
    exact ⟨[], upTo.holds⟩
  · rw [List.concat_eq_append, List.getLast?_concat, Option.getD_some] at last
    refine ⟨.ok v :: front.map .ok, ?_⟩
    simpa [last] using upTo.holds

theorem follows_of_stream {v : V} {n : Nat} {post : List (Event F V)} (life : c.worker.life = .serving)
    (state : c.worker.state = .ready v n) (listed : c.Listed)
    (exact : ∀ x y, c.worker.setup.same x y = true ↔ x = y) (passes : ∀ e ∈ post, Passes i e)
    (stream : Stream i [.ok v] true c) : Follows i v n post c := by
  obtain ⟨whole, chain, current⟩ := stream_run life state listed passes stream
  refine ⟨whole.holds, chain.imp fun x y differ same => ?_, current, fun xs transform ys x split answer => ?_⟩
  · rw [(exact y x).mpr same.symm] at differ
    cases differ
  · refine holds_answered life state listed exact (fun e he => passes e ?_) stream answer
    rw [split, List.append_cons]
    exact List.mem_append_left ys he

end Session

/-- **A subscription is sent exactly what is committed.** One whose request finds or makes the cell ready holds the
value of that moment, every value that is committed later, in order, each other than the one before it, and the terminal
error if the cell becomes final; it ends when the cell is closed or final. The value that an update is answered with is
there before the answer. One whose request finds or makes the cell final holds the terminal error and has ended, and one
that comes behind the closing holds the error of a closed cell and has ended. Equality of values is taken to be true
equality, and a producer of the path not to panic. -/
theorem subscription_streams {s : Setup V} {location : Location} {hasRuntime : Bool} {b b' : Bench F} {w : Worker V}
    {i : Nat} {pre post : List (Event F V)} (built : build s (some location) hasRuntime b = (.ok w, b'))
    (exact : ∀ x y, s.same x y = true ↔ x = y) (calm : ∀ m, location ≠ .produced (.panics m))
    (passes : ∀ e ∈ pre ++ post, Session.Passes i e)
    (listens : ((Session.mk w b').run pre).2.worker.hasListener i = true) :
    let c := ((Session.mk w b').run pre).2
    let c₁ := (c.happen (.request (.subscribe i))).2
    let c' := (c₁.run post).2
    (c.worker.life = .serving ∧ ∃ v n, c₁.worker.state = .ready v n ∧ Session.Follows i v n post c₁) ∨
      (c.worker.life = .serving ∧ ∃ t, c₁.worker.state = .final t ∧ c'.Holds i [.error t] false) ∨
      c.worker.life = .closed ∧ c'.Holds i [.error .closed] false := by
  intro c c₁ c'
  have start : (Session.mk w b').worker.setup = s ∧ (Session.mk w b').Listed ∧ (Session.mk w b').Unheard i ∧
      (∀ m, w.target ≠ .deferred (.panics m)) ∧ w.life ≠ .broken := by
    obtain ⟨target, label, registry, fields, rfl, -, place⟩ := build_ok built
    refine ⟨rfl, Or.inl rfl, ⟨rfl, nofun⟩, fun m panics => ?_, nofun⟩
    cases location with
    | path p =>
      obtain ⟨e, opened, -⟩ := place
      cases opened.symm.trans panics
    | produced producer =>
      cases place.1.symm.trans panics
      exact calm m rfl
  obtain ⟨setup, listed, unheard, sound⟩ := start
  have before : ∀ e ∈ pre, Session.Passes i e := fun e he => passes e (List.mem_append_left post he)
  have after : ∀ e ∈ post, Session.Passes i e := fun e he => passes e (List.mem_append_right pre he)
  have listed₀ : c.Listed := Session.listed_run pre listed
  have listed₁ : c₁.Listed := Session.listed_happen _ listed₀
  obtain ⟨calm₀, sound₀⟩ : (∀ m, c.worker.target ≠ .deferred (.panics m)) ∧ c.worker.life ≠ .broken :=
    Session.sound_run sound
  have unheard₀ := Session.unheard_run before listed unheard
  have handled : (c.happen (.request (.subscribe i))).2 = c₁ := rfl
  rcases Session.stream_of_subscribe unheard₀ listens listed₀ calm₀ sound₀ handled with
    ⟨life, life₁, v, n, ready, stream⟩ | ⟨life, t, final, ended⟩ | ⟨life, -, ended⟩
  · refine Or.inl ⟨life, v, n, ready, Session.follows_of_stream life₁ ready listed₁ ?_ after stream⟩
    have kept : c₁.worker.setup = s := (Session.setup_happen _).trans ((Session.setup_run pre).trans setup)
    rw [kept]
    exact exact
  · exact Or.inr (Or.inl ⟨life, t, final, (Session.ended_run after listed₁ ended).holds⟩)
  · exact Or.inr (Or.inr ⟨life, (Session.ended_run after listed₁ ended).holds⟩)

/-- A switch is flipped twice and closed while somebody watches it. -/
theorem a_switch_streams_its_flips :
    let b : Bench Memory := { disk := { namespaceId := "0" }, registry := {}, journal := {} }
    let flip : Event Memory Bool := .request (.update (fun v => .returned !v) true)
    let pre : List (Event Memory Bool) := [.receivers (· ++ [({} : Feed Bool)])]
    let post : List (Event Memory Bool) := [flip, flip, .request .close]
    ∃ w b', build switch (some (.path ⟨"/d/v"⟩)) true b = (.ok w, b') ∧
      ((((Session.mk w b').run pre).2.happen (.request (.subscribe 0))).2.run post).2.Holds 0
        [.ok false, .ok true, .ok false] false := by
  intro b flip pre post
  let c₁ (c : Session Memory Bool) := ((c.run pre).2.happen (.request (.subscribe 0))).2
  have checked : ((newCell switch ⟨"/d/v"⟩ b).any fun c =>
      decide ((c.run pre).2.worker.hasListener 0 = true ∧ (c.run pre).2.worker.life = .serving ∧
        (c₁ c).read.toOption = some false ∧ Session.committed post (c₁ c) = [true, false] ∧
        ((c₁ c).run post).2.read.toOption = some false ∧ ¬ ((c₁ c).run post).2.InService)) = true := by
    decide +kernel
  rcases found : newCell switch ⟨"/d/v"⟩ b with _ | ⟨w, b'⟩ <;> rw [found] at checked
  · cases checked
  · have built := build_of_newCell found
    obtain ⟨listens, serving, first, later, last, down⟩ := of_decide_eq_true checked
    refine ⟨w, b', built, ?_⟩
    have passes : ∀ e ∈ pre ++ post, Session.Passes 0 e := by
      intro e he
      refine ⟨?_, fun f same => ?_⟩
      · rintro rfl
        simp [pre, post, flip] at he
      · subst same
        simp only [pre, post, flip, List.cons_append, List.nil_append, List.mem_cons, List.not_mem_nil,
          Event.receivers.injEq, reduceCtorEq, or_false] at he
        subst he
        exact keeps_newFeed 0
    rcases subscription_streams built (fun x y => decide_eq_true_iff) (fun m => nofun) passes listens with
      ⟨-, v, n, ready, whole, -⟩ | ⟨-, t, final, -⟩ | ⟨closed, -⟩
    · have state : (c₁ ⟨w, b'⟩).worker.state = .ready v n := ready
      rw [Session.read, state] at first
      cases first
      have word : ((c₁ ⟨w, b'⟩).run post).2.lastWord = [] := by
        unfold Session.lastWord
        unfold Session.read at last
        split
        · rename_i final
          rw [final] at last
          cases last
        · rfl
      change Session.Holds 0 (.ok false :: (Session.committed post (c₁ ⟨w, b'⟩)).map .ok ++
        ((c₁ ⟨w, b'⟩).run post).2.lastWord) (decide ((c₁ ⟨w, b'⟩).run post).2.InService) _ at whole
      rw [later, word, decide_eq_false down] at whole
      exact whole
    · have state : (c₁ ⟨w, b'⟩).worker.state = .final t := final
      rw [Session.read, state] at first
      cases first
    · cases serving.symm.trans closed

end DurableValue.Cell
