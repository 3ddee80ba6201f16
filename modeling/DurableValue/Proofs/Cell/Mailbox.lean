/-
  DurableValue.Proofs.Cell.Mailbox — the books of a mailbox.

  An act goes in one of fifteen ways (`Acted`), and what is kept by acts is shown for each of them. The first that is
  kept are the books: every letter that was ever sent is in exactly one place. It was handled while the cell served,
  it made the cell shut down, it was refused out of the queue, it is still in the queue, or a handle turned it away;
  and these places, one after another, hold the letters in the order of their arrival (`Books`).

  Proved:
  - `acted`: there is no other way for an act to go.
  - `Books.asked`, `Books.turnedAway`, … `Books.drained`: the acts that move letters, one by one.
  - `books_acted`: every act keeps the books.
-/
import DurableValue.Cell.Mailbox
import DurableValue.Proofs.Cell.Standing

namespace DurableValue.Cell

open Disk (FileSystem)

variable {F H V : Type} [FileSystem F H]

def Turn.isServing : Turn V → Bool
  | next | answer _ _ => true
  | _ => false

def Act.byOthers : Act F V → F → F
  | .outside f, d => f d
  | _, d => d

namespace Mailbox

/-! ## The ways of an act -/

/-- How an act goes in a cell that does not break, with the mailbox it leads to. -/
inductive Acted (m : Mailbox F V) : Act F V → Mailbox F V → Prop where
  | nothing {a : Act F V} (other : a ≠ .work) (inside : ∀ d, a.byOthers d = d) : Acted m a m
  | handles {a : Act F V} (n : Nat) (other : a ≠ .work) (inside : ∀ d, a.byOthers d = d)
    (none : m.handles = 0 → n = 0) : Acted m a { m with handles := n }
  | asked (q : Query V) (some : m.handles ≠ 0) (isOpen : m.isOpen = true) :
    Acted m (.ask q) { m.join q with queue := m.queue ++ [m.letter q] }
  | turnedAway (q : Query V) (some : m.handles ≠ 0) (isShut : m.isOpen = false) :
    Acted m (.ask q) { m.join q with
      session := ((m.join q).session.refuse ((m.letter q).request true)).2
      callers := (m.join q).callers.modify m.callers.length
        (·.hear ((m.join q).session.refuse ((m.letter q).request true)).1)
      turnedAway := m.turnedAway ++ [m.letter q] }
  | left (n : Nat) :
    Acted m (.leave n) { m.onFeed n Feed.drop with callers := m.callers.modify n Caller.leave }
  | received (n : Nat) : Acted m (.receive n) (m.onFeed n fun f => f.next.2)
  | outside (f : F → F) : Acted m (.outside f) { m with session.bench.disk := f m.session.bench.disk }
  | rested (still : m.turn = .done ∨ m.turn = .next ∧ m.queue = [] ∧ m.handles ≠ 0) : Acted m .work m
  | took (l : Letter V) (rest : List (Letter V)) (turn : m.turn = .next) (queue : m.queue = l :: rest)
    (regular : l.query.isClose = false) :
    Acted m .work { m with
      queue := rest
      session := (m.session.handle (l.request (m.isWaiting l.number))).2
      turn := .answer l.number (m.session.handle (l.request (m.isWaiting l.number))).1
      handled := m.handled ++
        [⟨l, m.isWaiting l.number, (m.session.handle (l.request (m.isWaiting l.number))).1⟩] }
  | closing (l : Letter V) (rest : List (Letter V)) (turn : m.turn = .next) (queue : m.queue = l :: rest)
    (closes : l.query.isClose = true) :
    Acted m .work { m with queue := rest, session := m.session.shutDown, turn := .seal, closer := some l }
  | deserted (turn : m.turn = .next) (queue : m.queue = []) (handles : m.handles = 0) :
    Acted m .work { m with session := m.session.shutDown, turn := .seal, closer := none }
  | answered (n : Nat) (a : Reply V) (turn : m.turn = .answer n a) :
    Acted m .work { m with callers := m.callers.modify n (·.hear a), turn := .next }
  | sealed (turn : m.turn = .seal) : Acted m .work { m with turn := .drain, isOpen := false }
  | drained (l : Letter V) (rest : List (Letter V)) (turn : m.turn = .drain) (queue : m.queue = l :: rest) :
    Acted m .work { m with
      queue := rest
      session := (m.session.refuse (l.request (m.isWaiting l.number))).2
      drained := m.drained ++ [l]
      callers := m.callers.modify l.number (·.hear (m.session.refuse (l.request (m.isWaiting l.number))).1) }
  | finished (turn : m.turn = .drain) (queue : m.queue = []) :
    Acted m .work { m with turn := .done, callers := m.dismissed }

theorem acted (m : Mailbox F V) (sound : m.session.worker.life ≠ .broken) (a : Act F V) : Acted m a (m.act a) := by
  cases a with
  | ask q =>
    simp only [act, ask]
    split
    · exact .nothing nofun fun _ => rfl
    · split
      · rename_i some isOpen
        exact .asked q some isOpen
      · rename_i some isShut
        exact .turnedAway q some (Bool.eq_false_iff.mpr isShut)
  | leave n => exact Acted.left (m := m) n
  | receive n => exact Acted.received (m := m) n
  | clone =>
    simp only [act]
    split
    · exact .nothing nofun fun _ => rfl
    · rename_i some
      exact .handles _ nofun (fun _ => rfl) fun none => absurd none some
  | drop => exact .handles _ nofun (fun _ => rfl) fun none => by rw [none]
  | outside f => exact Acted.outside (m := m) f
  | work =>
    simp only [act, work]
    split
    · rename_i turn
      split
      · rename_i queue
        split
        · exact .deserted turn queue ‹_›
        · exact .rested (Or.inr ⟨turn, queue, ‹_›⟩)
      · rename_i l rest queue
        split
        · exact .closing l rest turn queue ‹_›
        · rename_i regular
          exact .took l rest turn queue (Bool.eq_false_iff.mpr regular)
    · rename_i n a turn
      have life : (m.tell n a).session.worker.life ≠ .broken := sound
      split
      · exact absurd ‹_› life
      · exact .answered n a turn
    · exact .sealed ‹_›
    · rename_i turn
      split
      · rename_i l rest queue
        have way := Acted.drained l rest turn queue
        unfold dispose
        split
        · exact absurd ‹_› sound
        · exact way
      · exact .finished turn ‹_›
    · exact .rested (Or.inl ‹_›)

/-! ## Where the letters are -/

def letters (m : Mailbox F V) : List (Letter V) := m.callers.map (·.letter)

def Numbered (m : Mailbox F V) : Prop := ∀ (n : Nat) (l : Letter V), m.letters[n]? = some l → l.number = n

structure Books (m : Mailbox F V) : Prop where
  numbered : m.Numbered
  /-- Every letter is in one place, and the places follow each other in the order of arrival. -/
  placed : m.letters = m.handled.map (·.letter) ++ (m.closer.toList ++ (m.drained ++ (m.queue ++ m.turnedAway)))
  regular : ∀ s ∈ m.handled, s.letter.query.isClose = false
  closes : ∀ l ∈ m.closer, l.query.isClose = true
  serving : m.turn.isServing = true → m.session.worker.life = .serving ∧ m.isOpen = true ∧ m.closer = none
  shut : m.turn.isServing = false → m.session.worker.life = .closed
  unsealed : m.isOpen = true → m.drained = [] ∧ m.turnedAway = []
  sealed : m.turn = .drain ∨ m.turn = .done → m.isOpen = false
  finished : m.turn = .done → m.queue = []
  /-- A worker that shut down because every handle was gone had handled everything. -/
  deserted : m.turn.isServing = false → m.closer = none →
    m.handles = 0 ∧ m.queue = [] ∧ m.drained = [] ∧ m.turnedAway = []
  inHand : ∀ n a, m.turn = .answer n a → ∃ front s, m.handled = front ++ [s] ∧ s.letter.number = n ∧ s.reply = a

section

omit [FileSystem F H]

theorem letters_modify (f : Caller V → Caller V) (same : ∀ k, (f k).letter = k.letter) (n : Nat)
    (ks : List (Caller V)) :
    (ks.modify n f).map (·.letter) = ks.map (·.letter) := by
  refine List.ext_getElem? fun i => ?_
  rw [List.getElem?_map, List.getElem?_map, List.getElem?_modify]
  split
  · cases ks[i]? with
    | none => rfl
    | some k => simp [same]
  · cases ks[i]? <;> rfl

@[simp] theorem letter_hear (a : Reply V) (k : Caller V) : (k.hear a).letter = k.letter := by
  unfold Caller.hear
  split
  · rfl
  · split <;> rfl

@[simp] theorem isWaiting_hear (a : Reply V) (k : Caller V) : (k.hear a).isWaiting = k.isWaiting := by
  unfold Caller.hear
  split
  · rfl
  · split <;> rfl

theorem letters_hear (n : Nat) (a : Reply V) (ks : List (Caller V)) :
    (ks.modify n (·.hear a)).map (·.letter) = ks.map (·.letter) := letters_modify _ (letter_hear a) n ks

variable (m : Mailbox F V)

theorem letters_dismissed : m.dismissed.map (·.letter) = m.letters := by
  unfold dismissed
  split
  · exact letters_hear _ _ _
  · rfl

theorem letters_join (q : Query V) : (m.join q).letters = m.letters ++ [m.letter q] := List.map_append

@[simp] theorem life_join (q : Query V) : (m.join q).session.worker.life = m.session.worker.life := by
  unfold join
  cases q.isSubscribe <;> rfl

@[simp] theorem life_onFeed (n : Nat) (f : Feed V → Feed V) :
    (m.onFeed n f).session.worker.life = m.session.worker.life := by
  unfold onFeed
  cases m.feed? n <;> rfl

end

omit [FileSystem F H] in
theorem length_letters (m : Mailbox F V) : m.letters.length = m.callers.length := List.length_map _

section

variable {m m' : Mailbox F V} {a : Act F V}

omit [FileSystem F H] in
theorem Numbered.join (numbered : m.Numbered) (q : Query V) : (m.join q).Numbered := by
  intro n l found
  rw [letters_join] at found
  rcases Nat.lt_or_ge n m.letters.length with lt | ge
  · rw [List.getElem?_append_left lt] at found
    exact numbered n l found
  · rw [List.getElem?_append_right ge] at found
    rw [List.getElem?_singleton] at found
    split at found
    · cases found
      have count := m.length_letters
      change m.callers.length = n
      omega
    · cases found

/-- The books are about the letters, not about who waits, and about the life of the cell, not about its feeds. -/
theorem Books.same (books : m.Books) (session : Session F V) {callers : List (Caller V)}
    (life : session.worker.life = m.session.worker.life) (letters : callers.map (·.letter) = m.letters) :
    ({ m with session := session, callers := callers } : Mailbox F V).Books :=
  { books with
    numbered := fun n l found => books.numbered n l (letters ▸ found)
    placed := letters.trans books.placed
    serving := fun serves => ⟨life.trans (books.serving serves).1, (books.serving serves).2⟩
    shut := fun shut => life.trans (books.shut shut) }

/-- A letter that is sent is the newest one, and goes where the others are that came when it did. -/
theorem Books.asked (books : m.Books) (q : Query V) (some : m.handles ≠ 0) (isOpen : m.isOpen = true) :
    ({ m.join q with queue := m.queue ++ [m.letter q] } : Mailbox F V).Books := by
  obtain ⟨-, nobody⟩ := books.unsealed isOpen
  exact {
    numbered := books.numbered.join q
    placed := by
      change (m.join q).letters = _
      rw [letters_join, books.placed, nobody]
      simp [join, nobody]
    regular := books.regular
    closes := books.closes
    serving := fun serves => ⟨(m.life_join q).trans (books.serving serves).1, (books.serving serves).2⟩
    shut := fun shut => (m.life_join q).trans (books.shut shut)
    unsealed := books.unsealed
    sealed := books.sealed
    finished := fun done => by
      have isShut := books.sealed (Or.inr done)
      rw [isOpen] at isShut
      cases isShut
    deserted := fun shut alone => absurd (books.deserted shut alone).1 some
    inHand := books.inHand }

theorem Books.turnedAway (books : m.Books) (q : Query V) (some : m.handles ≠ 0) (isShut : m.isOpen = false)
    {session : Session F V} {callers : List (Caller V)} (life : session.worker.life = m.session.worker.life)
    (letters : callers.map (·.letter) = (m.join q).letters) :
    ({ m.join q with session := session, callers := callers, turnedAway := m.turnedAway ++ [m.letter q] } :
      Mailbox F V).Books where
  numbered n l found := books.numbered.join q n l (letters ▸ found)
  placed := by
    refine letters.trans ?_
    rw [letters_join, books.placed]
    simp [join]
  regular := books.regular
  closes := books.closes
  serving serves := ⟨life.trans (books.serving serves).1, (books.serving serves).2⟩
  shut shut := life.trans (books.shut shut)
  unsealed isOpen := by
    have isOpen : m.isOpen = true := isOpen
    rw [isShut] at isOpen
    cases isOpen
  sealed := books.sealed
  finished := books.finished
  deserted shut alone := absurd (books.deserted shut alone).1 some
  inHand := books.inHand

omit [FileSystem F H] in
/-- A worker that is about to take a letter serves, and nothing was refused yet. -/
theorem Books.next (books : m.Books) (turn : m.turn = .next) :
    m.session.worker.life = .serving ∧ m.isOpen = true ∧ m.closer = none ∧ m.drained = [] ∧ m.turnedAway = [] := by
  obtain ⟨serving, isOpen, alone⟩ := books.serving (by rw [turn]; rfl)
  exact ⟨serving, isOpen, alone, books.unsealed isOpen⟩

omit [FileSystem F H] in
theorem Books.took (books : m.Books) {l : Letter V} {rest : List (Letter V)} (turn : m.turn = .next)
    (queue : m.queue = l :: rest) (regular : l.query.isClose = false) {session : Session F V}
    (serving : session.worker.life = .serving) (isAwaited : Bool) (reply : Reply V) :
    ({ m with
      queue := rest, session := session, turn := .answer l.number reply
      handled := m.handled ++ [⟨l, isAwaited, reply⟩] } : Mailbox F V).Books := by
  obtain ⟨-, isOpen, alone, undrained, -⟩ := books.next turn
  exact { books with
    placed := by
      refine books.placed.trans ?_
      simp [alone, undrained, queue]
    regular := fun s hs => by
      rcases List.mem_append.mp hs with hs | hs
      · exact books.regular s hs
      · cases List.mem_singleton.mp hs
        exact regular
    serving := fun _ => ⟨serving, isOpen, alone⟩
    shut := nofun
    sealed := nofun
    finished := nofun
    deserted := nofun
    inHand := fun n a same => by
      cases same
      exact ⟨_, _, rfl, rfl, rfl⟩ }

/-- The worker shuts down for a letter that asks for it, or because there is none and there will be none. -/
theorem Books.shutDown (books : m.Books) {closer : Option (Letter V)} {rest : List (Letter V)} (turn : m.turn = .next)
    (queue : m.queue = closer.toList ++ rest) (closes : ∀ l ∈ closer, l.query.isClose = true)
    (deserted : closer = none → m.handles = 0 ∧ rest = []) :
    ({ m with queue := rest, session := m.session.shutDown, turn := .seal, closer := closer } : Mailbox F V).Books := by
  obtain ⟨-, -, alone, undrained, nobody⟩ := books.next turn
  exact { books with
    placed := by
      refine books.placed.trans ?_
      simp [alone, undrained, queue]
    closes := closes
    serving := nofun
    shut := fun _ => Session.life_shutDown _
    sealed := nofun
    finished := nofun
    deserted := fun _ none => ⟨(deserted none).1, (deserted none).2, undrained, nobody⟩
    inHand := nofun }

omit [FileSystem F H] in
theorem Books.drained (books : m.Books) {l : Letter V} {rest : List (Letter V)} (turn : m.turn = .drain)
    (queue : m.queue = l :: rest) :
    ({ m with queue := rest, drained := m.drained ++ [l] } : Mailbox F V).Books :=
  { books with
    placed := by
      refine books.placed.trans ?_
      simp [queue]
    unsealed := fun isOpen => by
      have isOpen : m.isOpen = true := isOpen
      rw [books.sealed (Or.inl turn)] at isOpen
      cases isOpen
    finished := fun done => by
      have done : m.turn = .done := done
      rw [turn] at done
      cases done
    deserted := fun stopped alone => by
      have none := (books.deserted stopped alone).2.1
      rw [queue] at none
      cases none }

theorem books_acted (calm : ∀ e, m.session.worker.target ≠ .deferred (.panics e)) (books : m.Books)
    (way : Acted m a m') : m'.Books := by
  cases way with
  | nothing => exact books
  | rested => exact books
  | handles n _ _ none =>
    exact { books with
      deserted := fun shut alone =>
        have ⟨handles, places⟩ := books.deserted shut alone
        ⟨none handles, places⟩ }
  | left n => exact books.same _ (m.life_onFeed n _) (letters_modify Caller.leave (fun _ => rfl) n _)
  | received n => exact books.same _ (m.life_onFeed n _) rfl
  | outside f => exact books.same _ rfl rfl
  | asked q some isOpen => exact books.asked q some isOpen
  | turnedAway q some isShut =>
    exact books.turnedAway q some isShut ((Session.life_of_gist (Session.gist_refuse _ _)).trans (m.life_join q))
      (letters_hear _ _ _)
  | took l rest turn queue regular =>
    have other : l.request (m.isWaiting l.number) ≠ .close := by
      unfold Letter.request
      cases query : l.query <;> simp [query, Query.isClose] at regular ⊢
    exact books.took turn queue regular (Session.life_handle other (books.next turn).1 calm) _ _
  | closing l rest turn queue closes => exact books.shutDown turn queue (by rintro _ ⟨⟩; exact closes) nofun
  | deserted turn queue handles =>
    have gone : m.queue = (none : Option (Letter V)).toList ++ [] := queue
    have shut := books.shutDown turn gone nofun fun _ => ⟨handles, rfl⟩
    rwa [← queue] at shut
  | answered n a turn =>
    have told := books.same m.session rfl (letters_hear n a m.callers)
    have serves : m.turn.isServing = true := by rw [turn]; rfl
    exact { told with
      serving := fun _ => books.serving serves
      shut := nofun
      sealed := nofun
      finished := nofun
      deserted := nofun
      inHand := nofun }
  | sealed turn =>
    have stopped : m.turn.isServing = false := by rw [turn]; rfl
    exact { books with
      serving := nofun
      shut := fun _ => books.shut stopped
      unsealed := nofun
      sealed := fun _ => rfl
      finished := nofun
      deserted := fun _ => books.deserted stopped
      inHand := nofun }
  | drained l rest turn queue =>
    exact (books.drained turn queue).same _ (Session.life_of_gist (Session.gist_refuse _ _)) (letters_hear l.number _ _)
  | finished turn queue =>
    have stopped : m.turn.isServing = false := by rw [turn]; rfl
    have told := books.same m.session rfl m.letters_dismissed
    exact { told with
      serving := nofun
      shut := fun _ => books.shut stopped
      sealed := fun _ => books.sealed (Or.inl turn)
      finished := fun _ => queue
      deserted := fun _ => books.deserted stopped
      inHand := nofun }

end

end Mailbox

end DurableValue.Cell
