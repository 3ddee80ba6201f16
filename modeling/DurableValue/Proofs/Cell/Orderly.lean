/-
  DurableValue.Proofs.Cell.Orderly — a mailbox in order.

  What the cell has done is a run of the requests that were taken, in that order (`Ran`), and every subscription
  stands where its letter is (`Subscribed`). Together with the books and the answers this is what a mailbox in order
  has (`Orderly`).

  Proved:
  - `ran_acted`, `subscribed_acted`: an act keeps the run and where the subscriptions stand.
  - `orderly_acted`, `orderly_run`: an act leaves a mailbox in order, and so does a run.
-/
import DurableValue.Proofs.Cell.Fair

namespace DurableValue.Cell

open Disk (FileSystem)

variable {F H V : Type} [FileSystem F H]

/-! ## What the cell has done -/

def Event.request? : Event F V → Option (Request V)
  | request r => some r
  | _ => none

namespace Session

/-- Whether a session comes from another without a request: receivers took items, left or came, or the disk changed. The
subscriptions with `P` pass all of that. -/
structure Idles (P : Nat → Prop) (c c' : Session F V) : Prop where
  ran : ∃ es : List (Event F V), c' = (c.run es).2 ∧ (c.run es).1 = [] ∧ es.filterMap Event.request? = [] ∧
    ∀ i, P i → ∀ e ∈ es, Passes i e
  attached : c'.worker.attached = c.worker.attached
  feeds : c.worker.feeds.length ≤ c'.worker.feeds.length

theorem Idles.refl (P : Nat → Prop) (c : Session F V) : Idles P c c :=
  ⟨⟨[], rfl, rfl, rfl, fun _ _ _ => nofun⟩, rfl, Nat.le_refl _⟩

theorem idles_receivers {P : Nat → Prop} (c : Session F V) {f : List (Feed V) → List (Feed V)}
    (keeps : ∀ i, P i → Keeps i f) (length : c.worker.feeds.length ≤ (f c.worker.feeds).length) :
    Idles P c (c.onWorker fun w => { w with feeds := f w.feeds }) where
  ran := by
    refine ⟨[.receivers f], rfl, rfl, rfl, fun i hi e he => ?_⟩
    cases List.mem_singleton.mp he
    refine ⟨nofun, fun g same => ?_⟩
    cases same
    exact keeps i hi
  attached := rfl
  feeds := length

theorem idles_outside (c : Session F V) (f : F → F) :
    Idles (fun _ => True) c { c with bench.disk := f c.bench.disk } where
  ran := by
    refine ⟨[.outside f], rfl, rfl, rfl, fun i _ e he => ?_⟩
    cases List.mem_singleton.mp he
    exact ⟨nofun, nofun⟩
  attached := rfl
  feeds := Nat.le_refl _

end Session

namespace Mailbox

theorem idles_join (m : Mailbox F V) (q : Query V) : Session.Idles (fun _ => True) m.session (m.join q).session := by
  unfold join
  cases q.isSubscribe with
  | false => exact .refl _ _
  | true =>
    refine Session.idles_receivers m.session (fun i _ => keeps_newFeed i) ?_
    simp

theorem idles_onFeed (m : Mailbox F V) (n : Nat) {P : Nat → Prop} {f : Feed V → Feed V}
    (keeps : ∀ i j, m.feed? n = some j → P i → Keeps i (·.modify j f)) :
    Session.Idles P m.session (m.onFeed n f).session := by
  unfold onFeed
  cases feed : m.feed? n with
  | none => exact .refl _ _
  | some j =>
    refine Session.idles_receivers m.session (fun i hi => keeps i j feed hi) ?_
    exact Nat.le_of_eq (List.length_modify _ _ _).symm

/-- One who leaves is no matter to the others. -/
theorem idles_leave (m : Mailbox F V) (n : Nat) :
    Session.Idles (fun i => m.feed? n ≠ some i) m.session (m.onFeed n Feed.drop).session :=
  m.idles_onFeed n fun i j feed other => keeps_modify (fun same : j = i => other (same ▸ feed)) _

theorem idles_receive (m : Mailbox F V) (n : Nat) :
    Session.Idles (fun _ => True) m.session (m.onFeed n fun f => f.next.2).session :=
  m.idles_onFeed n fun i j _ _ => keeps_next i j

/-- Whether the cell has run the requests that were taken, in that order: those that were handled, with the answers to
them, and, once it is shut down, a request to close and what was refused after that. -/
def Ran (c : Session F V) (m : Mailbox F V) : Prop :=
  ∃ es later replies, m.session = (c.run es).2 ∧
    es.filterMap Event.request? = m.handled.map (fun s => s.letter.request s.isAwaited) ++
      (if m.turn.isServing then [] else .close :: later) ∧
    (c.run es).1 = m.handled.map (·.reply) ++ (if m.turn.isServing then [] else .acknowledged :: replies)

section

variable {c : Session F V} {m m' : Mailbox F V} {a : Act F V}

theorem run_append_fst (c : Session F V) (xs ys : List (Event F V)) :
    (c.run (xs ++ ys)).1 = (c.run xs).1 ++ ((c.run xs).2.run ys).1 := by
  induction xs generalizing c with
  | nil => rfl
  | cons e xs ih =>
    simp only [List.cons_append, Session.run_cons, ih, List.append_assoc]

theorem Ran.idles (ran : m.Ran c) {P : Nat → Prop} (idles : Session.Idles P m.session m'.session)
    (handled : m'.handled = m.handled) (serving : m'.turn.isServing = m.turn.isServing) : m'.Ran c := by
  obtain ⟨es, later, replies, session, requests, answers⟩ := ran
  obtain ⟨more, session', nothing, none, -⟩ := idles.ran
  refine ⟨es ++ more, later, replies, ?_, ?_, ?_⟩
  · rw [session', session, Session.run_append]
  · rw [List.filterMap_append, none, List.append_nil, requests, handled, serving]
  · rw [run_append_fst, ← session, nothing, List.append_nil, answers, handled, serving]

/-- A request that a cell took while it was not shut down. -/
theorem Ran.request (ran : m.Ran c) (serves : m.turn.isServing = true) {r : Request V} {reply : Reply V}
    (happens : m.session.happen (.request r) = ([reply], m'.session))
    (goesOn : (m'.turn.isServing = true ∧ ∃ s : Service V, s.letter.request s.isAwaited = r ∧ s.reply = reply ∧
        m'.handled = m.handled ++ [s]) ∨
      m'.turn.isServing = false ∧ r = .close ∧ reply = .acknowledged ∧ m'.handled = m.handled) : m'.Ran c := by
  obtain ⟨es, later, replies, session, requests, answers⟩ := ran
  rw [serves, if_pos rfl, List.append_nil] at requests answers
  have step : m.session.run [.request r] = ([reply], m'.session) := by
    rw [Session.run_cons, happens]
    rfl
  refine ⟨es ++ [.request r], [], [], ?_, ?_, ?_⟩
  · rw [Session.run_append, ← session, step]
  · rw [List.filterMap_append, requests]
    rcases goesOn with ⟨serves', s, same, -, handled⟩ | ⟨stops, rfl, -, handled⟩
    · rw [handled, serves', if_pos rfl, ← same]
      simp [Event.request?]
    · rw [handled, stops]
      rfl
  · rw [run_append_fst, answers, ← session, step]
    rcases goesOn with ⟨serves', s, -, same, handled⟩ | ⟨stops, -, rfl, handled⟩
    · rw [handled, serves', if_pos rfl, ← same]
      simp
    · rw [handled, stops]
      rfl

/-- A request that came too late. -/
theorem Ran.refused (ran : m.Ran c) (stopped : m.turn.isServing = false) {r : Request V} {reply : Reply V}
    (happens : m.session.happen (.request r) = ([reply], m'.session)) (handled : m'.handled = m.handled)
    (stopped' : m'.turn.isServing = false) : m'.Ran c := by
  obtain ⟨es, later, replies, session, requests, answers⟩ := ran
  rw [stopped] at requests answers
  have step : m.session.run [.request r] = ([reply], m'.session) := by
    rw [Session.run_cons, happens]
    rfl
  refine ⟨es ++ [.request r], later ++ [r], replies ++ [reply], ?_, ?_, ?_⟩
  · rw [Session.run_append, ← session, step]
  · rw [List.filterMap_append, requests, handled, stopped']
    simp [Event.request?]
  · rw [run_append_fst, answers, ← session, step, handled, stopped']
    simp

theorem happen_of_serving (serving : m.session.worker.life = .serving) (r : Request V) :
    m.session.happen (.request r) = ([(m.session.handle r).1], (m.session.handle r).2) := by
  simp [Session.happen, Session.serve, serving]

theorem happen_of_closed {c : Session F V} (closed : c.worker.life = .closed) (r : Request V) :
    c.happen (.request r) = ([(c.refuse r).1], (c.refuse r).2) := by
  simp [Session.happen, Session.serve, closed]

theorem ran_acted (books : m.Books) (ran : m.Ran c) (way : Acted m a m') : m'.Ran c := by
  cases way with
  | nothing => exact ran
  | rested => exact ran
  | handles => exact ran
  | left n => exact ran.idles (m.idles_leave n) rfl rfl
  | received n => exact ran.idles (m.idles_receive n) rfl rfl
  | outside f => exact ran.idles (Session.idles_outside m.session f) rfl rfl
  | asked q => exact ran.idles (m.idles_join q) rfl rfl
  | turnedAway q some isShut =>
    have joined : (m.join q).Ran c := ran.idles (m.idles_join q) rfl rfl
    have stopped : m.turn.isServing = false := by
      refine Bool.eq_false_iff.mpr fun serves => ?_
      rw [(books.serving serves).2.1] at isShut
      cases isShut
    exact joined.refused stopped (happen_of_closed ((m.life_join q).trans (books.shut stopped)) _) rfl stopped
  | took l rest turn queue regular =>
    have serves : m.turn.isServing = true := by rw [turn]; rfl
    exact ran.request serves (happen_of_serving (books.serving serves).1 _)
      (Or.inl ⟨rfl, ⟨l, m.isWaiting l.number, _⟩, rfl, rfl, rfl⟩)
  | closing l rest turn queue closes =>
    have serves : m.turn.isServing = true := by rw [turn]; rfl
    exact ran.request serves (happen_of_serving (books.serving serves).1 .close) (Or.inr ⟨rfl, rfl, rfl, rfl⟩)
  | deserted turn queue handles =>
    have serves : m.turn.isServing = true := by rw [turn]; rfl
    exact ran.request serves (happen_of_serving (books.serving serves).1 .close) (Or.inr ⟨rfl, rfl, rfl, rfl⟩)
  | answered n a turn => exact ran.idles (.refl (fun _ => True) _) rfl (by rw [turn]; rfl)
  | sealed turn => exact ran.idles (.refl (fun _ => True) _) rfl (by rw [turn]; rfl)
  | drained l rest turn queue =>
    have stopped : m.turn.isServing = false := by rw [turn]; rfl
    exact ran.refused stopped (happen_of_closed (books.shut stopped) _) rfl stopped
  | finished turn queue => exact ran.idles (.refl (fun _ => True) _) rfl (by rw [turn]; rfl)

end

/-! ## Where the subscriptions stand -/

def standing (m : Mailbox F V) (n : Nat) : Standing :=
  if n ∈ m.queue.map (·.number) then .asked
  else if n ∈ (m.drained ++ m.turnedAway).map (·.number) then .refused
  else .answered

structure Subscribed (m : Mailbox F V) : Prop where
  made : ∀ l ∈ m.letters, l.query.isSubscribe = true → l.feed < m.session.worker.feeds.length
  apart : ∀ l ∈ m.letters, ∀ l' ∈ m.letters, l.query.isSubscribe = true → l'.query.isSubscribe = true →
    l.feed = l'.feed → l.number = l'.number
  /-- No place is kept for a feed that is yet to be made. -/
  vacant : ∀ i, m.session.worker.feeds.length ≤ i → (m.session.worker.seat i).places = 0
  stands : ∀ (n : Nat) (k : Caller V), m.callers[n]? = some k → k.letter.query.isSubscribe = true →
    k.isWaiting = true → Session.Stands k.letter.feed m.session (m.standing n)

structure Steady (c : Session F V) : Prop where
  listed : c.Listed
  calm : ∀ e, c.worker.target ≠ .deferred (.panics e)
  sound : c.worker.life ≠ .broken

theorem Steady.run {c : Session F V} (steady : Steady c) (es : List (Event F V)) : Steady (c.run es).2 :=
  have ⟨calm, sound⟩ : (∀ e, (c.run es).2.worker.target ≠ .deferred (.panics e)) ∧ (c.run es).2.worker.life ≠ .broken :=
    Session.sound_run ⟨steady.calm, steady.sound⟩
  ⟨Session.listed_run es steady.listed, calm, sound⟩

section

variable {m m' : Mailbox F V} {a : Act F V}

theorem Session.stands_idles {P : Nat → Prop} {c c' : Session F V} {i : Nat} {standing : Standing}
    (idles : Session.Idles P c c') (hi : P i) (listed : c.Listed) (stands : Session.Stands i c standing) :
    Session.Stands i c' standing := by
  obtain ⟨es, rfl, -, -, passes⟩ := idles.ran
  have own := passes i hi
  clear passes idles
  induction es generalizing c with
  | nil => exact stands
  | cons e es ih =>
    exact ih (Session.listed_happen e listed) (Session.stands_happen (own e List.mem_cons_self) listed stands)
      fun e he => own e (List.mem_cons_of_mem _ he)

omit [FileSystem F H] in
theorem mem_letters {n : Nat} {k : Caller V} (found : m.callers[n]? = some k) : k.letter ∈ m.letters :=
  List.mem_map_of_mem (List.mem_of_getElem? found)

omit [FileSystem F H] in
theorem Numbered.of_caller (numbered : m.Numbered) {n : Nat} {k : Caller V} (found : m.callers[n]? = some k) :
    k.letter.number = n := by
  refine numbered n k.letter ?_
  rw [letters, List.getElem?_map, found]
  rfl

/-- Receivers and other hands leave every subscription where it stands, if its receiver stays. -/
theorem Subscribed.idles (subscribed : m.Subscribed) (listed : m.session.Listed) {P : Nat → Prop}
    {session : Session F V} (idles : Session.Idles P m.session session) {callers : List (Caller V)}
    (letters : callers.map (·.letter) = m.letters)
    (stay : ∀ (n : Nat) (k : Caller V), callers[n]? = some k → k.isWaiting = true → k.letter.query.isSubscribe = true →
      P k.letter.feed ∧ ∃ k₀, m.callers[n]? = some k₀ ∧ k₀.letter = k.letter ∧ k₀.isWaiting = true) :
    ({ m with session := session, callers := callers } : Mailbox F V).Subscribed where
  made := fun l mem sub =>
    Nat.lt_of_lt_of_le (subscribed.made l (letters ▸ mem) sub) idles.feeds
  apart := fun l mem l' mem' => subscribed.apart l (letters ▸ mem) l' (letters ▸ mem')
  vacant := fun i beyond => by
    have places := subscribed.vacant i (Nat.le_trans idles.feeds beyond)
    simpa [Worker.seat, idles.attached] using places
  stands := fun n k found sub waiting => by
    obtain ⟨passes, k₀, found₀, letter, waiting₀⟩ := stay n k found waiting sub
    have stands := subscribed.stands n k₀ found₀ (letter ▸ sub) waiting₀
    rw [letter] at stands
    exact Session.stands_idles idles passes listed stands

/-- A request that the cell takes moves its own subscription on, if it is for one, and leaves the others alone. -/
theorem Subscribed.request (subscribed : m.Subscribed) (steady : Steady m.session) {r : Request V}
    (happens : m'.session = (m.session.happen (.request r)).2) (letters : m'.letters = m.letters)
    (made : ∀ i, r = .subscribe i → i < m.session.worker.feeds.length)
    (callers : ∀ (n : Nat) (k : Caller V), m'.callers[n]? = some k →
      ∃ k₀, m.callers[n]? = some k₀ ∧ k₀.letter = k.letter ∧ k₀.isWaiting = k.isWaiting)
    (moves : ∀ (n : Nat) (k : Caller V), m.callers[n]? = some k → k.letter.query.isSubscribe = true →
      (r ≠ .subscribe k.letter.feed ∧ m'.standing n = m.standing n) ∨
        (r = .subscribe k.letter.feed ∧ m.standing n = .asked ∧
          m'.standing n = if m.session.worker.life = .closed then .refused else .answered)) : m'.Subscribed := by
  have length : m'.session.worker.feeds.length = m.session.worker.feeds.length := by
    rw [happens]
    cases life : m.session.worker.life with
    | serving =>
      rw [happen_of_serving life]
      exact Session.length_handle steady.listed r
    | closed =>
      rw [happen_of_closed life]
      exact Session.length_refuse r
    | broken => exact absurd life steady.sound
  exact {
    made := fun l mem sub => by
      rw [length]
      exact subscribed.made l (letters ▸ mem) sub
    apart := fun l mem l' mem' => subscribed.apart l (letters ▸ mem) l' (letters ▸ mem')
    vacant := fun i beyond => by
      rw [length] at beyond
      have none := subscribed.vacant i beyond
      have other : r ≠ .subscribe i := fun same => Nat.lt_irrefl i (Nat.lt_of_lt_of_le (made i same) beyond)
      rw [happens, Session.seat_of_no_place none other steady.listed]
      exact none
    stands := fun n k found sub waiting => by
      obtain ⟨k₀, found₀, letter, wait⟩ := callers n k found
      have before := subscribed.stands n k₀ found₀ (letter ▸ sub) (wait ▸ waiting)
      have move := moves n k₀ found₀ (letter ▸ sub)
      rw [letter] at before move
      rw [happens]
      rcases move with ⟨other, same⟩ | ⟨own, asked, after⟩
      · rw [same]
        exact Session.stands_happen ⟨fun same => other (Event.request.inj same), nofun⟩ steady.listed before
      · rw [asked] at before
        rw [own, after]
        exact Session.stands_subscribe before (made _ own) steady.listed steady.calm steady.sound }

omit [FileSystem F H] in
theorem request_subscribe {l : Letter V} {isAwaited : Bool} {i : Nat} (h : l.request isAwaited = .subscribe i) :
    l.query.isSubscribe = true ∧ l.feed = i := by
  unfold Letter.request at h
  split at h <;> cases h
  rename_i query
  exact ⟨by rw [query]; rfl, rfl⟩

omit [FileSystem F H] in
theorem request_of_subscribe {l : Letter V} (isAwaited : Bool) (sub : l.query.isSubscribe = true) :
    l.request isAwaited = .subscribe l.feed := by
  unfold Letter.request
  cases query : l.query <;> rw [query] at sub <;> first | rfl | cases sub

omit [FileSystem F H] in
/-- Which subscription a letter moves on: its own, and no other. -/
theorem Subscribed.moves (subscribed : m.Subscribed) (numbered : m.Numbered) {l : Letter V} (mem : l ∈ m.letters)
    (isAwaited : Bool) {m' : Mailbox F V} {after : Standing} (asked : m.standing l.number = .asked)
    (own : l.query.isSubscribe = true → m'.standing l.number = after)
    (others : ∀ n, n ≠ l.number → m'.standing n = m.standing n) (n : Nat) (k : Caller V)
    (found : m.callers[n]? = some k) (sub : k.letter.query.isSubscribe = true) :
    (l.request isAwaited ≠ .subscribe k.letter.feed ∧ m'.standing n = m.standing n) ∨
      (l.request isAwaited = .subscribe k.letter.feed ∧ m.standing n = .asked ∧ m'.standing n = after) := by
  by_cases same : n = l.number
  · subst same
    have sender := numbered.sender mem found
    rw [sender] at sub ⊢
    exact Or.inr ⟨request_of_subscribe isAwaited sub, asked, own sub⟩
  · refine Or.inl ⟨fun collides => same ?_, others n same⟩
    obtain ⟨sub', feed⟩ := request_subscribe collides
    exact (numbered.of_caller found).symm.trans (subscribed.apart _ (mem_letters found) l mem sub sub' feed.symm)

omit [FileSystem F H] in
theorem standing_congr {m m' : Mailbox F V} {n : Nat}
    (queue : n ∈ m'.queue.map (·.number) ↔ n ∈ m.queue.map (·.number))
    (refused : n ∈ (m'.drained ++ m'.turnedAway).map (·.number) ↔ n ∈ (m.drained ++ m.turnedAway).map (·.number)) :
    m'.standing n = m.standing n := by
  simp only [standing, queue, refused]

omit [FileSystem F H] in
theorem standing_queued {m : Mailbox F V} {n : Nat} (mem : n ∈ m.queue.map (·.number)) : m.standing n = .asked :=
  if_pos mem

include H in
theorem subscribed_asked (subscribed : m.Subscribed) (listed : m.session.Listed) (q : Query V) :
    ({ m.join q with queue := m.queue ++ [m.letter q] } : Mailbox F V).Subscribed := by
  have idles := m.idles_join q
  have number : (m.letter q).number = m.callers.length := rfl
  have last (n : Nat) (k : Caller V) (found : (m.join q).callers[n]? = some k) :
      m.callers[n]? = some k ∧ n ≠ m.callers.length ∨ k = { letter := m.letter q } ∧ n = m.callers.length := by
    rcases Nat.lt_trichotomy n m.callers.length with lt | rfl | gt
    · exact Or.inl ⟨(List.getElem?_append_left lt).symm.trans found, Nat.ne_of_lt lt⟩
    · exact Or.inr ⟨(Option.some.inj (List.getElem?_concat_length.symm.trans found)).symm, rfl⟩
    · have none : (m.join q).callers[n]? = none :=
        List.getElem?_eq_none (by simp only [join, List.length_append, List.length_singleton]; omega)
      cases none.symm.trans found
  have grown (sub : q.isSubscribe = true) :
      (m.join q).session.worker.feeds = m.session.worker.feeds ++ [({} : Feed V)] := by
    simp [join, sub, Session.onWorker, Worker.newFeed]
  -- Feeds are numbered in the order they are made, so a new one is that of no earlier letter.
  have fresh (l : Letter V) (mem : l ∈ m.letters) (sub : l.query.isSubscribe = true) : l.feed ≠ (m.letter q).feed :=
    Nat.ne_of_lt (subscribed.made l mem sub)
  have split {l : Letter V} (mem : l ∈ (m.join q).letters) : l ∈ m.letters ∨ l = m.letter q := by
    rw [letters_join] at mem
    simpa using mem
  exact {
    made := fun l mem sub => by
      rcases split mem with mem | rfl
      · exact Nat.lt_of_lt_of_le (subscribed.made l mem sub) idles.feeds
      · change m.session.worker.feeds.length < (m.join q).session.worker.feeds.length
        rw [grown sub]
        simp
    apart := fun l mem l' mem' sub sub' feed => by
      rcases split mem with old | rfl <;> rcases split mem' with old' | rfl
      · exact subscribed.apart l old l' old' sub sub' feed
      · exact absurd feed (fresh l old sub)
      · exact absurd feed.symm (fresh l' old' sub')
      · rfl
    vacant := fun i beyond => by
      have places := subscribed.vacant i (Nat.le_trans idles.feeds beyond)
      simpa [Worker.seat, idles.attached] using places
    stands := fun n k found sub waiting => by
      rcases last n k found with ⟨found₀, old⟩ | ⟨rfl, rfl⟩
      · have same : ({ m.join q with queue := m.queue ++ [m.letter q] } : Mailbox F V).standing n = m.standing n := by
          refine standing_congr ?_ Iff.rfl
          simp [number, old]
        rw [same]
        exact Session.stands_idles idles trivial listed (subscribed.stands n k found₀ sub waiting)
      · have asked : ({ m.join q with queue := m.queue ++ [m.letter q] } : Mailbox F V).standing m.callers.length =
            .asked := standing_queued (by simp [number])
        rw [asked]
        refine ⟨?_, fun f hf => ?_⟩
        · have places := subscribed.vacant m.session.worker.feeds.length (Nat.le_refl _)
          change (m.join q).session.worker.attached.count m.session.worker.feeds.length = 0
          rw [idles.attached]
          exact places
        · have made : (m.join q).session.worker.feeds[m.session.worker.feeds.length]? = some f := hf
          rw [grown sub, List.getElem?_concat_length] at made
          cases made
          exact ⟨rfl, rfl, rfl⟩ }

omit [FileSystem F H] in
/-- What a caller was before somebody was told an answer. -/
theorem before_hear {ks : List (Caller V)} {n i : Nat} {b : Reply V} {k : Caller V}
    (found : (ks.modify n (·.hear b))[i]? = some k) :
    ∃ k₀, ks[i]? = some k₀ ∧ k₀.letter = k.letter ∧ k₀.isWaiting = k.isWaiting := by
  rw [List.getElem?_modify] at found
  obtain ⟨k₀, found₀, rfl⟩ := Option.map_eq_some_iff.mp found
  refine ⟨k₀, found₀, ?_⟩
  split
  · exact ⟨(letter_hear b k₀).symm, (isWaiting_hear b k₀).symm⟩
  · exact ⟨rfl, rfl⟩

omit [FileSystem F H] in
/-- Every letter stands in the queue once. -/
theorem Answering.once_queued (answering : m.Answering) {l : Letter V} {rest : List (Letter V)}
    (queue : m.queue = l :: rest) : l.number ∉ rest.map (·.number) := by
  have nodup := (List.nodup_append.mp answering.fair.nodup).2.1
  rw [queue] at nodup
  exact (List.nodup_cons.mp nodup).1

omit [FileSystem F H] in
theorem isClose_of_subscribe {q : Query V} (sub : q.isSubscribe = true) : q.isClose = false := by
  cases q <;> first | rfl | cases sub

include H in
/-- A subscription that was dropped is one that nobody waits for any more. -/
theorem subscribed_left (numbered : m.Numbered) (subscribed : m.Subscribed) (listed : m.session.Listed) (n : Nat) :
    ({ m.onFeed n Feed.drop with callers := m.callers.modify n Caller.leave } : Mailbox F V).Subscribed := by
  refine subscribed.idles listed (m.idles_leave n) (letters_modify Caller.leave (fun _ => rfl) n _)
    fun i k found waiting sub => ?_
  obtain ⟨k₀, found₀, -, letter, waited⟩ := before_leave found
  refine ⟨fun own => ?_, k₀, found₀, letter.symm, waited waiting⟩
  -- The feed of another number is another feed, and whoever left does not wait.
  obtain ⟨kₙ, foundₙ, feed⟩ := Option.map_eq_some_iff.mp own
  obtain ⟨foundₙ, subₙ⟩ := Option.filter_eq_some_iff.mp foundₙ
  have same := subscribed.apart _ (mem_letters foundₙ) _ (mem_letters found₀) subₙ (letter ▸ sub)
    (feed.trans (congrArg Letter.feed letter))
  rw [numbered.of_caller foundₙ, numbered.of_caller found₀] at same
  subst same
  rw [List.getElem?_modify_eq, found₀] at found
  cases found
  cases waiting

omit [FileSystem F H] in
theorem before_dismissed {i : Nat} {k : Caller V} (found : m.dismissed[i]? = some k) :
    ∃ k₀, m.callers[i]? = some k₀ ∧ k₀.letter = k.letter ∧ k₀.isWaiting = k.isWaiting := by
  unfold dismissed at found
  split at found
  · exact before_hear found
  · exact ⟨k, found, rfl, rfl⟩

include H in
/-- Nobody's subscription is touched while an answer is told. -/
theorem Subscribed.told (subscribed : m.Subscribed) (listed : m.session.Listed) {callers : List (Caller V)}
    (letters : callers.map (·.letter) = m.letters)
    (before : ∀ (n : Nat) (k : Caller V), callers[n]? = some k →
      ∃ k₀, m.callers[n]? = some k₀ ∧ k₀.letter = k.letter ∧ k₀.isWaiting = k.isWaiting) :
    ({ m with callers := callers } : Mailbox F V).Subscribed :=
  subscribed.idles listed (.refl (fun _ => True) m.session) letters fun n k found waiting _ => by
    obtain ⟨k₀, found₀, letter, wait⟩ := before n k found
    exact ⟨trivial, k₀, found₀, letter, wait.trans waiting⟩

/-- A letter that stood in the queue is given to the cell, whether it serves or has closed. -/
theorem Subscribed.given (subscribed : m.Subscribed) (numbered : m.Numbered) (steady : Steady m.session) {l : Letter V}
    (mem : l ∈ m.letters) (isAwaited : Bool) (asked : m.standing l.number = .asked)
    (happens : m'.session = (m.session.happen (.request (l.request isAwaited))).2) (letters : m'.letters = m.letters)
    (callers : ∀ (n : Nat) (k : Caller V), m'.callers[n]? = some k →
      ∃ k₀, m.callers[n]? = some k₀ ∧ k₀.letter = k.letter ∧ k₀.isWaiting = k.isWaiting)
    (own : l.query.isSubscribe = true →
      m'.standing l.number = if m.session.worker.life = .closed then .refused else .answered)
    (others : ∀ n, n ≠ l.number → m'.standing n = m.standing n) : m'.Subscribed := by
  have made (i : Nat) (same : l.request isAwaited = .subscribe i) : i < m.session.worker.feeds.length :=
    (request_subscribe same).2 ▸ subscribed.made l mem (request_subscribe same).1
  exact subscribed.request steady happens letters made callers
    (subscribed.moves numbered mem isAwaited asked own others)

include H in
theorem Subscribed.turnedAway (subscribed : m.Subscribed) (books : m.Books) (answering : m.Answering)
    (steady : Steady m.session) (q : Query V) (isShut : m.isOpen = false) :
    ({ m.join q with
      session := ((m.join q).session.refuse ((m.letter q).request true)).2
      callers := (m.join q).callers.modify m.callers.length
        (·.hear ((m.join q).session.refuse ((m.letter q).request true)).1)
      turnedAway := m.turnedAway ++ [m.letter q] } : Mailbox F V).Subscribed := by
  have stopped : m.turn.isServing = false := by
    refine Bool.eq_false_iff.mpr fun serves => ?_
    rw [(books.serving serves).2.1] at isShut
    cases isShut
  have closed : (m.join q).session.worker.life = .closed := (m.life_join q).trans (books.shut stopped)
  have unqueued : m.callers.length ∉ m.queue.map (·.number) := fun mem =>
    Nat.lt_irrefl _ (answering.fair.known _ (List.mem_append_right _ mem))
  have number : (m.letter q).number = m.callers.length := rfl
  have steady' : Steady (m.join q).session := by
    obtain ⟨es, same, -⟩ := (m.idles_join (H := H) q).ran
    exact same ▸ steady.run es
  have mem : m.letter q ∈ (m.join q).letters := by simp [letters_join]
  -- It is as if the letter had joined the queue and were refused out of it at once.
  refine (subscribed_asked (H := H) subscribed steady.listed q).given (H := H) (l := m.letter q)
    (books.numbered.join q) steady' mem true (standing_queued (by simp)) ?_ (letters_hear _ _ _)
    (fun _ _ => before_hear) (fun _ => ?_) fun n ne => ?_
  · rw [happen_of_closed closed]
  · rw [if_pos closed]
    simp [standing, number, unqueued, join]
  · exact standing_congr (by simp [join, ne]) (by simp [join, ne])

include H in
/-- Shutting down is to the session as a request to close, and that is no subscription. -/
theorem Subscribed.shutDown (subscribed : m.Subscribed) (steady : Steady m.session)
    (serving : m.session.worker.life = .serving) (session : m'.session = m.session.shutDown)
    (callers : m'.callers = m.callers)
    (others : ∀ (n : Nat) (k : Caller V), m.callers[n]? = some k → k.letter.query.isSubscribe = true →
      m'.standing n = m.standing n) : m'.Subscribed := by
  refine subscribed.request (H := H) steady (r := .close) ?_ (congrArg (List.map _) callers) (fun i same => by cases same)
    (fun n k found => ⟨k, callers ▸ found, rfl, rfl⟩) fun n k found sub =>
      Or.inl ⟨(fun same => by cases same), others n k found sub⟩
  rw [session, happen_of_serving serving]
  rfl

theorem subscribed_acted (books : m.Books) (answering : m.Answering) (steady : Steady m.session)
    (subscribed : m.Subscribed) (way : Acted m a m') : m'.Subscribed := by
  cases way with
  | nothing => exact subscribed
  | rested => exact subscribed
  | handles => exact ⟨subscribed.made, subscribed.apart, subscribed.vacant, subscribed.stands⟩
  | sealed => exact ⟨subscribed.made, subscribed.apart, subscribed.vacant, subscribed.stands⟩
  | left n => exact subscribed_left books.numbered subscribed steady.listed n
  | received n =>
    exact subscribed.idles steady.listed (m.idles_receive n) rfl fun i k found waiting _ =>
      ⟨trivial, k, found, rfl, waiting⟩
  | outside f =>
    exact subscribed.idles steady.listed (Session.idles_outside m.session f) rfl fun i k found waiting _ =>
      ⟨trivial, k, found, rfl, waiting⟩
  | asked q => exact subscribed_asked subscribed steady.listed q
  | turnedAway q some isShut => exact subscribed.turnedAway books answering steady q isShut
  | took l rest turn queue regular =>
    have serves : m.turn.isServing = true := by rw [turn]; rfl
    obtain ⟨serving, isOpen, -⟩ := books.serving serves
    obtain ⟨undrained, nobody⟩ := books.unsealed isOpen
    have unqueued := answering.once_queued queue
    refine subscribed.given books.numbered steady (books.queued queue) (m.isWaiting l.number)
      (standing_queued (by simp [queue])) ?_ rfl (fun n k found => ⟨k, found, rfl, rfl⟩) (fun _ => ?_) fun n ne => ?_
    · rw [happen_of_serving serving]
    · simp [standing, unqueued, undrained, nobody, serving]
    · exact standing_congr (by simp [queue, ne]) Iff.rfl
  | closing l rest turn queue closes =>
    have serves : m.turn.isServing = true := by rw [turn]; rfl
    refine subscribed.shutDown steady (books.serving serves).1 rfl rfl fun n k found sub => standing_congr ?_ Iff.rfl
    -- The letter that is gone from the queue is one to close.
    have ne : n ≠ l.number := fun same => by
      subst same
      rw [books.numbered.sender (books.queued queue) found] at sub
      rw [isClose_of_subscribe sub] at closes
      cases closes
    simp [queue, ne]
  | deserted turn queue handles =>
    have serves : m.turn.isServing = true := by rw [turn]; rfl
    exact subscribed.shutDown steady (books.serving serves).1 rfl rfl fun _ _ _ _ => rfl
  | answered n a turn =>
    have told := subscribed.told steady.listed (letters_hear n a m.callers) fun _ _ => before_hear
    exact ⟨told.made, told.apart, told.vacant, told.stands⟩
  | drained l rest turn queue =>
    have stopped : m.turn.isServing = false := by rw [turn]; rfl
    have closed := books.shut stopped
    have unqueued := answering.once_queued queue
    refine subscribed.given books.numbered steady (books.queued queue) (m.isWaiting l.number)
      (standing_queued (by simp [queue])) ?_ (letters_hear _ _ _) (fun _ _ => before_hear) (fun _ => ?_) fun n ne => ?_
    · rw [happen_of_closed closed]
    · simp [standing, unqueued, closed]
    · exact standing_congr (by simp [queue, ne]) (by simp [ne])
  | finished turn queue =>
    have told := subscribed.told steady.listed m.letters_dismissed fun _ _ => before_dismissed
    exact ⟨told.made, told.apart, told.vacant, told.stands⟩

end

/-! ## Runs -/

structure Orderly (c : Session F V) (m : Mailbox F V) : Prop where
  books : m.Books
  answering : m.Answering
  ran : m.Ran c
  subscribed : m.Subscribed

section

variable {c : Session F V} {m m' : Mailbox F V}

theorem Ran.steady (ran : m.Ran c) (steady : Steady c) : Steady m.session := by
  obtain ⟨es, -, -, session, -⟩ := ran
  exact session ▸ steady.run es

theorem orderly_acted {a : Act F V} (steady : Steady c) (orderly : m.Orderly c) (way : Acted m a m') : m'.Orderly c :=
  have now := orderly.ran.steady steady
  { books := books_acted now.calm orderly.books way
    answering := answering_acted orderly.books orderly.answering way
    ran := ran_acted orderly.books orderly.ran way
    subscribed := subscribed_acted orderly.books orderly.answering now orderly.subscribed way }

theorem orderly_new (serving : c.worker.life = .serving) (nobody : c.worker.attached = []) : (new c).Orderly c where
  books := {
    numbered := nofun
    placed := rfl
    regular := nofun
    closes := nofun
    serving := fun _ => ⟨serving, rfl, rfl⟩
    shut := nofun
    unsealed := fun _ => ⟨rfl, rfl⟩
    sealed := fun late => by rcases late with late | late <;> cases late
    finished := nofun
    deserted := nofun
    inHand := nofun }
  answering := ⟨⟨List.nodup_nil, nofun, nofun, nofun, nofun, nofun⟩, nofun⟩
  ran := ⟨[], [], [], rfl, rfl, rfl⟩
  subscribed := ⟨nofun, nofun, fun i _ => by simp [new, Worker.seat, nobody], nofun⟩

theorem orderly_run (steady : Steady c) (as : List (Act F V)) (orderly : m.Orderly c) : (m.run as).Orderly c := by
  induction as generalizing m with
  | nil => exact orderly
  | cons a as ih =>
    exact ih (orderly_acted steady orderly (acted m (orderly.ran.steady steady).sound a))

end

end Mailbox

end DurableValue.Cell
