/-
  DurableValue.Proofs.Cell.Answers — every request is answered, and once.

  What callers have heard is read off the books: a letter that was handled is answered with the reply that the cell
  gave, one that came too late is refused, and one to close is acknowledged once the cell has given everything back.
  That a caller who waits is answered at all is a matter of the worker's turns, and of those alone.

  Proved:
  - `resting_run`: what is done to the ends of subscriptions and to the disk by other hands does not change what is
    answered.
  - `Orderly.accounted`: in a mailbox in order everyone was answered as is due (`Accounted`).
  - `every_request_is_answered_once`: so it is after every run, and under a fair schedule nobody waits for ever.
-/
import DurableValue.Proofs.Cell.Final
import DurableValue.Proofs.Cell.Waiting
import Mathlib.Data.List.Nodup

namespace DurableValue.Cell

open Disk (FileSystem Memory)

variable {F H V : Type} [FileSystem F H]

/-- A session of which nothing changed but what was sent to subscriptions, and the disk by other hands. -/
def Session.resting (c : Session F V) (feeds : List (Feed V)) (disk : F) : Session F V where
  worker := { c.worker with feeds := feeds }
  bench := { c.bench with disk := disk }

namespace Mailbox

/-- Whether the cell of a mailbox has given everything back: its path left the registry, which is what it was before the
cell, it shows that it is closed, and every subscription has ended. One that still stands in the queue has not begun. -/
structure Released (base : Store.Registry) (m : Mailbox F V) : Prop where
  closed : m.session.worker.life = .closed
  registry : m.session.bench.registry = base
  status : m.session.worker.status = .closed
  nobody : m.session.worker.attached = []
  ended : ∀ (n : Nat) (k : Caller V), m.callers[n]? = some k → k.letter.query.isSubscribe = true →
    k.isWaiting = true → n ∉ m.queue.map (·.number) →
    ∃ f, m.session.worker.feeds[k.letter.feed]? = some f ∧ f.isOpen = false

/-- Whether everyone was answered as is due. -/
structure Accounted (c : Session F V) (base : Store.Registry) (m : Mailbox F V) : Prop where
  books : m.Books
  ran : m.Ran c
  once : ∀ n, (m.answers n).length ≤ 1
  /-- A request that was handled is answered with the reply that the cell gave. -/
  handled : ∀ s ∈ m.handled, s.letter.query.isSubscribe = false → ∀ a ∈ m.answers s.letter.number, a = s.reply
  /-- A request that came too late hears that the cell is closed. -/
  refused : ∀ l ∈ m.drained ++ m.turnedAway, l.query.isClose = false →
    (l.query.isSubscribe = true → m.isWaiting l.number = true) →
    ∀ a ∈ m.answers l.number, a = .answer (.error .closed)
  /-- A request to close is acknowledged, and not before everything was given back. -/
  closes : ∀ l ∈ m.letters, l.query.isClose = true →
    ∀ a ∈ m.answers l.number, a = .acknowledged ∧ m.Released base
  released : m.turn.isServing = false → m.Released base

section

variable {c : Session F V} {base : Store.Registry} {m m' : Mailbox F V} {a : Act F V}

/-! ## What a closed cell does -/

theorem refuse_resting (c : Session F V) (r : Request V) : ∃ feeds, (c.refuse r).2 = c.resting feeds c.bench.disk := by
  unfold Session.refuse
  split <;> exact ⟨_, rfl⟩

omit [FileSystem F H] in
theorem join_resting (m : Mailbox F V) (q : Query V) :
    ∃ feeds, (m.join q).session = m.session.resting feeds m.session.bench.disk := by
  unfold join
  cases q.isSubscribe <;> exact ⟨_, rfl⟩

omit [FileSystem F H] in
theorem onFeed_resting (m : Mailbox F V) (n : Nat) (f : Feed V → Feed V) :
    ∃ feeds, (m.onFeed n f).session = m.session.resting feeds m.session.bench.disk := by
  unfold onFeed
  cases m.feed? n <;> exact ⟨_, rfl⟩

/-- Once the worker has shut down no act does more than to send to subscriptions, other hands apart. -/
theorem resting_acted (stopped : m.turn.isServing = false) (way : Acted m a m') :
    m'.turn.isServing = false ∧
      ∃ feeds, m'.session = m.session.resting feeds (a.byOthers m.session.bench.disk) := by
  cases way with
  | nothing other inside => exact ⟨stopped, m.session.worker.feeds, by rw [inside]; rfl⟩
  | rested => exact ⟨stopped, m.session.worker.feeds, rfl⟩
  | handles n other inside => exact ⟨stopped, m.session.worker.feeds, by rw [inside]; rfl⟩
  | sealed => exact ⟨rfl, m.session.worker.feeds, rfl⟩
  | finished => exact ⟨rfl, m.session.worker.feeds, rfl⟩
  | asked q => exact ⟨stopped, m.join_resting q⟩
  | turnedAway q =>
    obtain ⟨feeds, joined⟩ := m.join_resting q
    obtain ⟨feeds', refused⟩ := refuse_resting (m.join q).session ((m.letter q).request true)
    refine ⟨stopped, feeds', refused.trans ?_⟩
    rw [joined]
    rfl
  | left n => exact ⟨stopped, m.onFeed_resting n _⟩
  | received n => exact ⟨stopped, m.onFeed_resting n _⟩
  | outside f => exact ⟨stopped, _, rfl⟩
  | took l rest turn | closing l rest turn | deserted turn | answered n b turn =>
    rw [turn] at stopped
    cases stopped
  | drained l rest turn => exact ⟨stopped, refuse_resting _ _⟩

theorem resting_run (steady : Steady c) (orderly : m.Orderly c) (stopped : m.turn.isServing = false)
    (as : List (Act F V)) :
    ∃ feeds, (m.run as).session =
      m.session.resting feeds (as.foldl (fun d a => a.byOthers d) m.session.bench.disk) := by
  induction as generalizing m with
  | nil => exact ⟨m.session.worker.feeds, rfl⟩
  | cons a as ih =>
    have way := acted m (orderly.ran.steady steady).sound a
    obtain ⟨stopped', feeds, step⟩ := resting_acted stopped way
    obtain ⟨feeds', rest⟩ := ih (orderly_acted steady orderly way) stopped'
    refine ⟨feeds', rest.trans ?_⟩
    rw [step]
    rfl

/-- A subscription that is not asked for any more was sent something. -/
theorem Orderly.heard (orderly : m.Orderly c) {n : Nat} {k : Caller V} (found : m.callers[n]? = some k)
    (sub : k.letter.query.isSubscribe = true) (waiting : k.isWaiting = true) (taken : n ∉ m.queue.map (·.number)) :
    ∃ sent isOpen, sent ≠ [] ∧ Session.Stream k.letter.feed sent isOpen m.session := by
  have stands := orderly.subscribed.stands n k found sub waiting
  unfold standing at stands
  rw [if_neg taken] at stands
  split at stands
  · exact ⟨_, _, List.cons_ne_nil _ _, stands⟩
  · exact stands

theorem Orderly.released {before : List Journal.Line} (steady : Steady c) (adds : Session.Adds base c)
    (tells : Session.Tells before c.gist) (orderly : m.Orderly c) (stopped : m.turn.isServing = false) :
    m.Released base := by
  have closed := orderly.books.shut stopped
  have now := orderly.ran.steady steady
  obtain ⟨es, -, -, session, -⟩ := orderly.ran
  exact {
    closed := closed
    registry := by
      have whole := session ▸ Session.adds_run es adds
      simpa [Session.Adds, Worker.held, closed] using whole
    status := (session ▸ Session.tells_run es tells : Session.Tells before m.session.gist).closed closed
    nobody := by
      rcases now.listed with nobody | ⟨serving, -⟩
      · exact nobody
      · cases closed.symm.trans serving
    ended := fun n k found sub waiting taken => by
      obtain ⟨sent, isOpen, -, stream⟩ := orderly.heard found sub waiting taken
      obtain rfl := Session.ended_of_closed closed now.listed stream
      obtain ⟨f, seat, -, shut, -⟩ := stream
      exact ⟨f, congrArg Seat.feed seat, shut⟩ }

/-! ## What callers have heard -/

omit [FileSystem F H] in
theorem Books.nodup (books : m.Books) : (m.letters.map (·.number)).Nodup := by
  have same : m.letters.map (·.number) = List.range m.letters.length := by
    refine List.ext_getElem (by simp) fun i h _ => ?_
    have here : i < m.letters.length := by simpa using h
    simpa using books.numbered i _ (List.getElem?_eq_getElem here)
  rw [same]
  exact List.nodup_range

omit [FileSystem F H] in
/-- Whoever did not subscribe has got what it heard. -/
theorem answers_of_caller {n : Nat} {k : Caller V} (found : m.callers[n]? = some k)
    (other : k.letter.query.isSubscribe = false) : m.answers n = k.heard := by
  simp [answers, found, other]

omit [FileSystem F H] in
theorem caller_of_answer {n : Nat} {b : Reply V} (mem : b ∈ m.answers n) : ∃ k, m.callers[n]? = some k := by
  unfold answers at mem
  split at mem
  · cases mem
  · exact ⟨_, ‹_›⟩

/-- What was heard for a letter was due to it. -/
theorem Orderly.due (orderly : m.Orderly c) {l : Letter V} (mem : l ∈ m.letters) (other : l.query.isSubscribe = false)
    {b : Reply V} (got : b ∈ m.answers l.number) : (l.number, b) ∈ m.dues := by
  obtain ⟨k, found⟩ := caller_of_answer got
  have sender := orderly.books.numbered.sender mem found
  rw [answers_of_caller found (sender ▸ other)] at got
  exact orderly.answering.fair.due l.number k found b got

omit [FileSystem F H] in
theorem Books.dues_nodup (books : m.Books) : (m.dues.map (·.1)).Nodup := by
  have nodup := books.nodup
  rw [books.placed] at nodup
  simp only [dues, List.map_append, List.map_map, List.append_assoc] at nodup ⊢
  refine nodup.sublist ?_
  refine List.Sublist.append (List.Sublist.refl _) (List.Sublist.append (List.Sublist.refl _)
    (List.Sublist.append (List.Sublist.refl _) ?_))
  exact List.sublist_append_right _ _

omit [FileSystem F H] in
/-- One thing is due to a letter. -/
theorem Books.due_unique (books : m.Books) {n : Nat} {x y : Reply V} (hx : (n, x) ∈ m.dues) (hy : (n, y) ∈ m.dues) :
    x = y :=
  congrArg Prod.snd (List.inj_on_of_nodup_map books.dues_nodup hx hy rfl)

omit [FileSystem F H] in
theorem once_answered (fair : Fair m.callers m.owed m.dues) (n : Nat) : (m.answers n).length ≤ 1 := by
  unfold answers
  split
  · exact Nat.zero_le 1
  · split
    · exact Option.length_toList_le
    · exact fair.once n _ ‹_›

omit [FileSystem F H] in
/-- What was sent first to a subscription is the answer to its request. -/
theorem answers_of_stream {n : Nat} {k : Caller V} (found : m.callers[n]? = some k)
    (sub : k.letter.query.isSubscribe = true) {x : Except Error V} {xs : List (Except Error V)} {isOpen : Bool}
    (stream : Session.Stream k.letter.feed (x :: xs) isOpen m.session) : m.answers n = [.answer x] := by
  obtain ⟨f, seat, sent, -⟩ := stream
  have feed : m.session.worker.feeds[k.letter.feed]? = some f := congrArg Seat.feed seat
  simp [answers, found, sub, feed, sent]

omit [FileSystem F H] in
theorem dues_of_refused {l : Letter V} (mem : l ∈ m.drained ++ m.turnedAway) : (l.number, l.refusal) ∈ m.dues :=
  List.mem_append_right _ (List.mem_map.mpr ⟨l, mem, rfl⟩)

omit [FileSystem F H] in
theorem other_of_close {q : Query V} (closes : q.isClose = true) : q.isSubscribe = false := by
  cases q <;> first | rfl | cases closes

omit [FileSystem F H] in
/-- What was refused is not in the queue any more. -/
theorem Books.apart (books : m.Books) {n : Nat} (queued : n ∈ m.queue.map (·.number))
    (refused : n ∈ (m.drained ++ m.turnedAway).map (·.number)) : False := by
  have nodup := books.nodup
  rw [books.placed] at nodup
  simp only [List.map_append] at nodup refused
  obtain ⟨-, late, before⟩ := List.nodup_append.mp (List.nodup_append.mp (List.nodup_append.mp nodup).2.1).2.1
  rcases List.mem_append.mp refused with drained | turnedAway
  · exact before n drained n (List.mem_append_left _ queued) rfl
  · exact (List.nodup_append.mp late).2.2 n queued n turnedAway rfl

/-- A subscription that came too late was sent the error of a closed cell. -/
theorem Orderly.refused_stream (orderly : m.Orderly c) {l : Letter V} (mem : l ∈ m.drained ++ m.turnedAway)
    (sub : l.query.isSubscribe = true) (waiting : m.isWaiting l.number = true) {b : Reply V}
    (got : b ∈ m.answers l.number) : b = .answer (.error .closed) := by
  have books := orderly.books
  have letter : l ∈ m.letters := by
    rw [books.placed]
    simp only [List.mem_append] at mem ⊢
    tauto
  obtain ⟨k, found⟩ := caller_of_answer got
  obtain rfl := books.numbered.sender letter found
  have stands := orderly.subscribed.stands _ k found sub (by simpa [isWaiting, found] using waiting)
  have standing : m.standing k.letter.number = .refused := by
    have number := List.mem_map_of_mem (f := (·.number)) mem
    unfold Mailbox.standing
    rw [if_neg fun queued => books.apart queued number, if_pos number]
  rw [standing] at stands
  rw [answers_of_stream found sub stands] at got
  exact List.mem_singleton.mp got

omit [FileSystem F H] in
/-- Where a letter is that was ever sent. -/
theorem Books.mem_letters (books : m.Books) (l : Letter V) : l ∈ m.letters ↔
    l ∈ m.handled.map (·.letter) ∨ l ∈ m.closer ∨ l ∈ m.drained ++ m.turnedAway ∨ l ∈ m.queue := by
  rw [books.placed]
  simp only [List.mem_append, Option.mem_toList]
  tauto

omit [FileSystem F H] in
/-- Nobody closes a cell that goes on serving, and it refuses nobody. -/
theorem Books.stopped (books : m.Books) (late : m.closer ≠ none ∨ m.drained ++ m.turnedAway ≠ []) :
    m.turn.isServing = false := by
  refine Bool.eq_false_iff.mpr fun serves => ?_
  obtain ⟨-, isOpen, alone⟩ := books.serving serves
  obtain ⟨undrained, nobody⟩ := books.unsealed isOpen
  rcases late with late | late
  · exact late alone
  · exact late (by rw [undrained, nobody]; rfl)

theorem Orderly.accounted {before : List Journal.Line} (steady : Steady c) (adds : Session.Adds base c)
    (tells : Session.Tells before c.gist) (orderly : m.Orderly c) : m.Accounted c base := by
  have books := orderly.books
  have released := orderly.released steady adds tells
  have placed := books.mem_letters
  exact {
    books := books
    ran := orderly.ran
    once := once_answered orderly.answering.fair
    handled := fun s mem other b got => by
      have letter : s.letter ∈ m.letters := (placed _).mpr (Or.inl (List.mem_map_of_mem mem))
      have due : (s.letter.number, s.reply) ∈ m.dues :=
        List.mem_append_left _ (List.mem_append_left _ (List.mem_map.mpr ⟨s, mem, rfl⟩))
      exact books.due_unique (orderly.due letter other got) due
    refused := fun l mem regular waits b got => by
      have letter : l ∈ m.letters := (placed _).mpr (Or.inr (Or.inr (Or.inl mem)))
      cases query : l.query with
      | close =>
        rw [query] at regular
        cases regular
      | subscribe =>
        have sub : l.query.isSubscribe = true := by rw [query]; rfl
        exact orderly.refused_stream mem sub (waits sub) got
      | update | read =>
        have due := orderly.due letter (by rw [query]; rfl) got
        refine (books.due_unique due (dues_of_refused mem)).trans ?_
        simp [Letter.refusal, query]
    closes := fun l mem closes b got => by
      have due := orderly.due mem (other_of_close closes) got
      rcases (placed l).mp mem with mem | mem | mem | mem
      · obtain ⟨s, served, rfl⟩ := List.mem_map.mp mem
        rw [books.regular s served] at closes
        cases closes
      · have acknowledged : (l.number, .acknowledged) ∈ m.dues := by simp [dues, Option.mem_def.mp mem]
        refine ⟨books.due_unique due acknowledged, released (books.stopped (Or.inl ?_))⟩
        rw [Option.mem_def.mp mem]
        exact Option.some_ne_none l
      · refine ⟨(books.due_unique due (dues_of_refused mem)).trans ?_, released (books.stopped (Or.inr ?_))⟩
        · unfold Letter.refusal
          cases query : l.query <;> rw [query] at closes <;> cases closes
        · exact List.ne_nil_of_mem mem
      · -- Nobody in the queue has heard anything.
        obtain ⟨k, found⟩ := caller_of_answer got
        have other : k.letter.query.isSubscribe = false := by
          rw [books.numbered.sender ((placed l).mpr (by tauto)) found]
          exact other_of_close closes
        rw [answers_of_caller found other,
          orderly.answering.fair.patient _ k found (queued_owed (List.mem_map_of_mem mem))] at got
        cases got
    released := released }

/-- Whoever waits and is owed nothing has got its one answer. -/
theorem Orderly.got (orderly : m.Orderly c) {n : Nat} (sent : n < m.callers.length) (unowed : n ∉ m.owed)
    (waiting : m.isWaiting n = true) : (m.answers n).length = 1 := by
  have found : m.callers[n]? = some m.callers[n] := List.getElem?_eq_getElem sent
  have waits : m.callers[n].isWaiting = true := by simpa [isWaiting, found] using waiting
  cases sub : m.callers[n].letter.query.isSubscribe with
  | false =>
    have heard := orderly.answering.fair.served n _ found unowed waits sub
    rw [answers_of_caller found sub]
    exact Nat.le_antisymm (orderly.answering.fair.once n _ found) (List.length_pos_iff.mpr heard)
  | true =>
    obtain ⟨sent, isOpen, some, stream⟩ := orderly.heard found sub waits fun queued => unowed (queued_owed queued)
    obtain ⟨x, xs, rfl⟩ := List.exists_cons_of_ne_nil some
    rw [answers_of_stream found sub stream]
    rfl

end

end Mailbox

/-- A cell as it was built takes requests in order. -/
theorem steady_of_build {s : Setup V} {location : Location} {hasRuntime : Bool} {b b' : Bench F} {w : Worker V}
    (built : build s (some location) hasRuntime b = (.ok w, b')) (calm : ∀ e, location ≠ .produced (.panics e)) :
    Mailbox.Steady ⟨w, b'⟩ ∧ (Mailbox.new (Session.mk w b')).Orderly ⟨w, b'⟩ := by
  obtain ⟨target, label, registry, fields, rfl, rfl, place⟩ := build_ok built
  refine ⟨⟨Or.inl rfl, fun e panics => ?_, nofun⟩, Mailbox.orderly_new rfl rfl⟩
  cases location with
  | produced producer =>
    obtain ⟨rfl, rfl⟩ := place
    cases panics
    exact calm e rfl
  | path p =>
    obtain ⟨e, rfl, -⟩ := place
    cases panics

/-- **Every request is answered, and once.** Whatever is asked of a new cell, through however many handles that come and
go, and whoever leaves before the answer: after any acts everyone was answered as is due, and nobody twice
(`Mailbox.Accounted`). Once the worker has shut down, nothing that is asked changes the cell, the registry or the disk; it
only sends a last item to subscriptions. And as long as the worker gets its turn again and again, everyone who waits
gets an answer, and a cell whose handles are all gone comes to its end. -/
theorem every_request_is_answered_once {s : Setup V} {location : Location} {hasRuntime : Bool} {b b' : Bench F}
    {w : Worker V} (built : build s (some location) hasRuntime b = (.ok w, b'))
    (calm : ∀ e, location ≠ .produced (.panics e)) :
    let m := Mailbox.new (Session.mk w b')
    (∀ as, (m.run as).Accounted ⟨w, b'⟩ b.registry) ∧
    (∀ as, (m.run as).turn.isServing = false → ∀ later, ∃ feeds, (m.run (as ++ later)).session =
      (m.run as).session.resting feeds (later.foldl (fun d a => a.byOthers d) (m.run as).session.bench.disk)) ∧
    ∀ schedule, Mailbox.KeepsWorking schedule → ∀ t,
      (∀ n < (m.after schedule t).callers.length, ∃ t', t ≤ t' ∧ ∀ t'', t' ≤ t'' →
        (m.after schedule t'').isWaiting n = true → ((m.after schedule t'').answers n).length = 1) ∧
      ((m.after schedule t).handles = 0 → ∃ t', t ≤ t' ∧ (m.after schedule t').turn = .done) := by
  intro m
  obtain ⟨steady, orderly⟩ := steady_of_build built calm
  have now (as : List (Act F V)) : (m.run as).Orderly ⟨w, b'⟩ := Mailbox.orderly_run steady as orderly
  refine ⟨fun as => (now as).accounted steady (adds_of_build built) (tells_of_build built), fun as stopped later => ?_,
    fun schedule works t => ⟨fun n sent => ?_, Mailbox.eventually_done steady orderly works⟩⟩
  · have split : m.run (as ++ later) = (m.run as).run later := List.foldl_append
    rw [split]
    exact Mailbox.resting_run steady (now as) stopped later
  · obtain ⟨t', later, unowed⟩ := Mailbox.eventually_unowed steady orderly works n t
    refine ⟨t', later, fun t'' after waiting => ?_⟩
    have sent' := Mailbox.sent_after steady orderly sent later
    obtain ⟨known, free⟩ := Mailbox.unowed_after steady orderly sent' unowed after
    exact (now _).got known free waiting

theorem a_switch_answers_what_comes_too_late :
    let b : Bench Memory := { disk := { namespaceId := "0" }, registry := {}, journal := {} }
    let flip : Query Bool := .update fun v => .returned !v
    let asks : List (Act Memory Bool) := [.ask flip, .clone, .ask .close, .ask flip, .ask .close, .drop, .drop]
    ∃ w b', build switch (some (.path ⟨"/d/v"⟩)) true b = (.ok w, b') ∧
      let m := (Mailbox.new (Session.mk w b')).run (asks ++ List.replicate 7 .work)
      m.Accounted ⟨w, b'⟩ {} ∧ m.Released {} ∧ m.handled.length = 1 ∧ m.drained.length = 2 := by
  intro b flip asks
  have checked : ((newCell switch ⟨"/d/v"⟩ b).any fun c =>
      let m := (Mailbox.new c).run (asks ++ List.replicate 7 .work)
      !m.turn.isServing && m.handled.length == 1 && m.drained.length == 2) = true := by decide +kernel
  rcases found : newCell switch ⟨"/d/v"⟩ b with _ | ⟨w, b'⟩ <;> rw [found] at checked
  · cases checked
  · have built := build_of_newCell found
    obtain ⟨accounted, -⟩ := every_request_is_answered_once built nofun
    simp only [Option.any_some, Bool.and_eq_true, Bool.not_eq_true', beq_iff_eq] at checked
    obtain ⟨⟨stopped, handled⟩, drained⟩ := checked
    exact ⟨w, b', built, accounted _, (accounted _).released stopped, handled, drained⟩

end DurableValue.Cell
