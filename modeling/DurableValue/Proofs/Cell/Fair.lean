/-
  DurableValue.Proofs.Cell.Fair — who has heard what.

  Every caller has heard the one answer that is due to its letter, or nothing while the letter is still owed one
  (`Fair`). An answer is due from the moment it is given: by the cell to a request that it handled, by the worker to
  the one that made it shut down, and by the refusal of what came too late.

  Proved:
  - `Answering.left`, `Answering.asked`, … `Answering.finished`: the acts that change who has heard what, one by one.
  - `answering_acted`: every act keeps it so.
-/
import DurableValue.Proofs.Cell.Mailbox

namespace DurableValue.Cell

open Disk (FileSystem)

variable {F H V : Type} [FileSystem F H]

def Letter.refusal (l : Letter V) : Reply V :=
  match l.query with
  | .update _ | .read => .answer (.error .closed)
  | .subscribe => .silence
  | .close => .acknowledged

namespace Mailbox

/-! ## Who has heard what -/

section

omit [FileSystem F H]

/-- The numbers of the letters that are still owed an answer: the one that was handled or made the worker shut down,
and those in the queue. -/
def owed (m : Mailbox F V) : List Nat :=
  (match m.turn with
    | .answer n _ => [n]
    | .seal | .drain => m.closer.toList.map (·.number)
    | .next | .done => []) ++ m.queue.map (·.number)

def dues (m : Mailbox F V) : List (Nat × Reply V) :=
  m.handled.map (fun s => (s.letter.number, s.reply)) ++ m.closer.toList.map (fun l => (l.number, .acknowledged)) ++
    (m.drained ++ m.turnedAway).map fun l => (l.number, l.refusal)

/-- Whether every caller has heard the one answer that is due, or nothing while it is still owed one. -/
structure Fair (callers : List (Caller V)) (owed : List Nat) (dues : List (Nat × Reply V)) : Prop where
  nodup : owed.Nodup
  known : ∀ n ∈ owed, n < callers.length
  patient : ∀ (n : Nat) (k : Caller V), callers[n]? = some k → n ∈ owed → k.heard = []
  once : ∀ (n : Nat) (k : Caller V), callers[n]? = some k → k.heard.length ≤ 1
  served : ∀ (n : Nat) (k : Caller V), callers[n]? = some k → n ∉ owed → k.isWaiting = true →
    k.letter.query.isSubscribe = false → k.heard ≠ []
  due : ∀ (n : Nat) (k : Caller V), callers[n]? = some k → ∀ a ∈ k.heard, (n, a) ∈ dues

/-- What a caller was before somebody left. -/
theorem before_leave {ks : List (Caller V)} {n i : Nat} {k : Caller V}
    (found : (ks.modify n Caller.leave)[i]? = some k) :
    ∃ k₀, ks[i]? = some k₀ ∧ k.heard = k₀.heard ∧ k.letter = k₀.letter ∧
      (k.isWaiting = true → k₀.isWaiting = true) := by
  rw [List.getElem?_modify] at found
  obtain ⟨k₀, found₀, rfl⟩ := Option.map_eq_some_iff.mp found
  refine ⟨k₀, found₀, ?_⟩
  split
  · exact ⟨rfl, rfl, fun waiting => by cases waiting⟩
  · exact ⟨rfl, rfl, id⟩

/-- What somebody hears who has heard nothing before: the answer, unless it is none, or comes too late. -/
theorem heard_hear (a : Reply V) {k : Caller V} (nothing : k.heard = []) :
    (k.hear a).isWaiting = k.isWaiting ∧
      ((k.hear a).heard = [] ∧ (k.isWaiting = true → a = .silence) ∨ (k.hear a).heard = [a] ∧ a ≠ .silence) := by
  unfold Caller.hear
  split
  · exact ⟨rfl, Or.inl ⟨nothing, fun _ => rfl⟩⟩
  · rename_i noise
    split
    · exact ⟨rfl, Or.inr ⟨by simp [nothing], noise⟩⟩
    · rename_i gone
      exact ⟨rfl, Or.inl ⟨nothing, fun waiting => absurd waiting gone⟩⟩

namespace Fair

variable {ks : List (Caller V)} {owed : List Nat} {dues : List (Nat × Reply V)} (fair : Fair ks owed dues)

include fair

theorem mono {dues' : List (Nat × Reply V)} (more : dues ⊆ dues') : Fair ks owed dues' :=
  { fair with due := fun n k found a heard => more (fair.due n k found a heard) }

/-- A caller joins, and is owed an answer. -/
theorem joined (l : Letter V) : Fair (ks ++ [{ letter := l }]) (owed ++ [ks.length]) dues := by
  have new : ks.length ∉ owed := fun mem => Nat.lt_irrefl _ (fair.known _ mem)
  have cases {n : Nat} {k : Caller V} (found : (ks ++ [{ letter := l }])[n]? = some k) :
      (n < ks.length ∧ ks[n]? = some k) ∨ (n = ks.length ∧ k = { letter := l }) := by
    rcases Nat.lt_trichotomy n ks.length with lt | rfl | gt
    · rw [List.getElem?_append_left lt] at found
      exact Or.inl ⟨lt, found⟩
    · rw [List.getElem?_concat_length] at found
      exact Or.inr ⟨rfl, (Option.some.inj found).symm⟩
    · rw [List.getElem?_eq_none (by simp only [List.length_append, List.length_singleton]; omega)] at found
      cases found
  have old {n : Nat} (lt : n < ks.length) : n ∈ owed ++ [ks.length] ↔ n ∈ owed := by
    simp [Nat.ne_of_lt lt]
  exact {
    nodup := List.nodup_append.mpr ⟨fair.nodup, by simp, fun x hx y hy same => by
      cases List.mem_singleton.mp hy
      exact new (same ▸ hx)⟩
    known := fun n mem => by
      simp only [List.length_append, List.length_singleton]
      rcases List.mem_append.mp mem with mem | mem
      · have := fair.known n mem
        omega
      · cases List.mem_singleton.mp mem
        omega
    patient := fun n k found mem => by
      rcases cases found with ⟨lt, found⟩ | ⟨-, rfl⟩
      · exact fair.patient n k found ((old lt).mp mem)
      · rfl
    once := fun n k found => by
      rcases cases found with ⟨-, found⟩ | ⟨-, rfl⟩
      · exact fair.once n k found
      · exact Nat.zero_le 1
    served := fun n k found unowed => by
      rcases cases found with ⟨lt, found⟩ | ⟨rfl, -⟩
      · exact fair.served n k found fun mem => unowed ((old lt).mpr mem)
      · exact absurd (by simp) unowed
    due := fun n k found => by
      rcases cases found with ⟨-, found⟩ | ⟨-, rfl⟩
      · exact fair.due n k found
      · exact nofun }

/-- A caller leaves. -/
theorem left (n : Nat) : Fair (ks.modify n Caller.leave) owed dues := by
  exact {
    nodup := fair.nodup
    known := fun i mem => (List.length_modify _ _ _).symm ▸ fair.known i mem
    patient := fun i k found mem => by
      obtain ⟨k₀, found₀, heard, -⟩ := before_leave found
      exact heard.trans (fair.patient i k₀ found₀ mem)
    once := fun i k found => by
      obtain ⟨k₀, found₀, heard, -⟩ := before_leave found
      exact heard ▸ fair.once i k₀ found₀
    served := fun i k found unowed waiting other => by
      obtain ⟨k₀, found₀, heard, letter, waited⟩ := before_leave found
      exact heard ▸ fair.served i k₀ found₀ unowed (waited waiting) (letter ▸ other)
    due := fun i k found => by
      obtain ⟨k₀, found₀, heard, -⟩ := before_leave found
      exact heard ▸ fair.due i k₀ found₀ }

/-- A caller is told an answer that is due, and is owed none any more. -/
theorem told {n : Nat} {a : Reply V} {xs ys : List Nat} (split : owed = xs ++ n :: ys)
    (due : a = .silence ∨ (n, a) ∈ dues)
    (spoken : ∀ k, ks[n]? = some k → k.isWaiting = true → k.letter.query.isSubscribe = false → a ≠ .silence) :
    Fair (ks.modify n (·.hear a)) (xs ++ ys) dues := by
  have mem : n ∈ owed := by simp [split]
  have nodup := fair.nodup
  rw [split] at nodup
  obtain ⟨unowed, distinct⟩ := List.nodup_cons.mp (List.perm_middle.nodup_iff.mp nodup)
  have others {i : Nat} (ne : i ≠ n) : i ∈ owed ↔ i ∈ xs ++ ys := by simp [split, ne]
  have elsewhere {i : Nat} (ne : i ≠ n) : (ks.modify n (·.hear a))[i]? = ks[i]? := by simp [Ne.symm ne]
  -- The caller itself has heard nothing yet.
  have here {k : Caller V} (found : (ks.modify n (·.hear a))[n]? = some k) :
      ∃ k₀, ks[n]? = some k₀ ∧ k = k₀.hear a ∧ k₀.heard = [] := by
    rw [List.getElem?_modify] at found
    obtain ⟨k₀, found₀, rfl⟩ := Option.map_eq_some_iff.mp found
    exact ⟨k₀, found₀, if_pos rfl, fair.patient n k₀ found₀ mem⟩
  exact {
    nodup := distinct
    known := fun i hi => by
      rw [List.length_modify]
      refine fair.known i ?_
      rw [split]
      exact List.Sublist.subset (List.Sublist.append_left (List.sublist_cons_self n ys) xs) hi
    patient := fun i k found hi => by
      have ne : i ≠ n := fun same => unowed (same ▸ hi)
      exact fair.patient i k (elsewhere ne ▸ found) ((others ne).mpr hi)
    once := fun i k found => by
      by_cases same : i = n
      · subst same
        obtain ⟨k₀, -, rfl, nothing⟩ := here found
        rcases (heard_hear a nothing).2 with ⟨none, -⟩ | ⟨one, -⟩
        · rw [none]
          exact Nat.zero_le 1
        · rw [one]
          exact Nat.le_refl 1
      · exact fair.once i k (elsewhere same ▸ found)
    served := fun i k found unowed' waiting other => by
      by_cases same : i = n
      · subst same
        obtain ⟨k₀, found₀, rfl, nothing⟩ := here found
        obtain ⟨wait, outcome⟩ := heard_hear a nothing
        rcases outcome with ⟨-, silent⟩ | ⟨one, -⟩
        · exact absurd (silent (wait ▸ waiting)) (spoken k₀ found₀ (wait ▸ waiting) (letter_hear a k₀ ▸ other))
        · rw [one]
          exact List.cons_ne_nil _ _
      · exact fair.served i k (elsewhere same ▸ found) (fun hi => unowed' ((others same).mp hi)) waiting other
    due := fun i k found b hb => by
      by_cases same : i = n
      · subst same
        obtain ⟨k₀, -, rfl, nothing⟩ := here found
        rcases (heard_hear a nothing).2 with ⟨none, -⟩ | ⟨one, noise⟩
        · rw [none] at hb
          cases hb
        · rw [one] at hb
          cases List.mem_singleton.mp hb
          exact due.resolve_left noise
      · exact fair.due i k (elsewhere same ▸ found) b hb }

end Fair

end

/-! ## What is answered -/

theorem refusal_ne_silence {l : Letter V} (other : l.query.isSubscribe = false) : l.refusal ≠ .silence := by
  unfold Letter.refusal
  split
  · exact nofun
  · exact nofun
  · rename_i query
    rw [query] at other
    cases other
  · exact nofun

/-- What is refused is refused in the way of its kind, and in silence if nobody waits. -/
theorem refuse_request (c : Session F V) (l : Letter V) (isAwaited : Bool) :
    (c.refuse (l.request isAwaited)).1 = l.refusal ∨
      isAwaited = false ∧ (c.refuse (l.request isAwaited)).1 = .silence := by
  unfold Letter.request Letter.refusal
  cases l.query <;> cases isAwaited <;> simp [Session.refuse]

/-- Whoever waits for a value is not left in silence. -/
theorem handle_request_ne_silence (c : Session F V) {l : Letter V} (regular : l.query.isClose = false)
    (other : l.query.isSubscribe = false) : (c.handle (l.request true)).1 ≠ .silence := by
  unfold Letter.request
  cases query : l.query with
  | update transform =>
    simp only [Session.handle]
    split <;> intro same <;> cases same
  | read =>
    simp only [Session.handle]
    split <;> intro same <;> cases same
  | subscribe =>
    rw [query] at other
    cases other
  | close =>
    rw [query] at regular
    cases regular

structure Answering (m : Mailbox F V) : Prop where
  fair : Fair m.callers m.owed m.dues
  /-- Whoever waits for the answer in hand will hear something. -/
  spoken : ∀ n a, m.turn = .answer n a → ∀ k, m.callers[n]? = some k → k.isWaiting = true →
    k.letter.query.isSubscribe = false → a ≠ .silence

section

variable {m m' : Mailbox F V} {a : Act F V}

omit [FileSystem F H] in
/-- The caller with the number of a letter is the one who sent it. -/
theorem Numbered.sender (numbered : m.Numbered) {l : Letter V} (mem : l ∈ m.letters) {k : Caller V}
    (found : m.callers[l.number]? = some k) : k.letter = l := by
  obtain ⟨i, at_⟩ := List.mem_iff_getElem?.mp mem
  have number := numbered i l at_
  have same : m.letters[l.number]? = some k.letter := by
    rw [letters, List.getElem?_map, found]
    rfl
  rw [number] at same
  exact Option.some.inj (same.symm.trans at_)

omit [FileSystem F H] in
theorem Books.queued (books : m.Books) {l : Letter V} {rest : List (Letter V)} (queue : m.queue = l :: rest) :
    l ∈ m.letters := by
  rw [books.placed, queue]
  simp

omit [FileSystem F H] in
/-- A caller who waits is heard to wait by whoever looks up its letter. -/
theorem isWaiting_sender {l : Letter V} {k : Caller V} (found : m.callers[l.number]? = some k)
    (waiting : k.isWaiting = true) : m.isWaiting l.number = true := by
  simp [isWaiting, found, waiting]

namespace Answering

omit [FileSystem F H]

theorem left (answering : m.Answering) (n : Nat) :
    ({ m.onFeed n Feed.drop with callers := m.callers.modify n Caller.leave } : Mailbox F V).Answering := by
  refine ⟨answering.fair.left n, fun i a turn k found waiting other => ?_⟩
  obtain ⟨k₀, found₀, -, letter, waited⟩ := before_leave found
  exact answering.spoken i a turn k₀ found₀ (waited waiting) (letter ▸ other)

theorem asked (answering : m.Answering) (q : Query V) :
    ({ m.join q with queue := m.queue ++ [m.letter q] } : Mailbox F V).Answering := by
  refine ⟨?_, fun n a turn k found waiting other => ?_⟩
  · have joined := answering.fair.joined (m.letter q)
    have owed : m.owed ++ [m.callers.length] =
        ({ m.join q with queue := m.queue ++ [m.letter q] } : Mailbox F V).owed := by
      simp only [Mailbox.owed, List.map_append, List.append_assoc]
      rfl
    rw [owed] at joined
    exact joined
  · have turn : m.turn = .answer n a := turn
    have known : n < m.callers.length := answering.fair.known n (by simp [Mailbox.owed, turn])
    exact answering.spoken n a turn k ((List.getElem?_append_left known).symm.trans found) waiting other

/-- Whoever is turned away is told so at once. -/
theorem turnedAway (answering : m.Answering) (books : m.Books) (q : Query V) (isShut : m.isOpen = false)
    (session : Session F V) :
    ({ m.join q with
      session := session
      callers := (m.join q).callers.modify m.callers.length (·.hear (m.letter q).refusal)
      turnedAway := m.turnedAway ++ [m.letter q] } : Mailbox F V).Answering := by
  refine ⟨?_, fun n a turn => ?_⟩
  · have more : m.dues ⊆ m.dues ++ [((m.letter q).number, (m.letter q).refusal)] := List.subset_append_left _ _
    have told := ((answering.fair.joined (m.letter q)).mono more).told (a := (m.letter q).refusal)
      (show m.owed ++ [m.callers.length] = m.owed ++ m.callers.length :: [] from rfl) (Or.inr (by simp [letter]))
      fun k found _ other => by
        rw [List.getElem?_concat_length] at found
        cases found
        exact refusal_ne_silence other
    have dues : m.dues ++ [((m.letter q).number, (m.letter q).refusal)] =
        ({ m.join q with turnedAway := m.turnedAway ++ [m.letter q] } : Mailbox F V).dues := by
      simp [Mailbox.dues, join]
    rw [dues, List.append_nil] at told
    exact told
  · have serves := (books.serving (by rw [show m.turn = _ from turn]; rfl)).2.1
    rw [isShut] at serves
    cases serves

/-- A letter that is handled is owed its answer as before, which is due from now on. -/
theorem took (answering : m.Answering) (books : m.Books) {l : Letter V} {rest : List (Letter V)} (turn : m.turn = .next)
    (queue : m.queue = l :: rest) {reply : Reply V}
    (speaks : m.isWaiting l.number = true → l.query.isSubscribe = false → reply ≠ .silence) (session : Session F V)
    (isAwaited : Bool) :
    ({ m with
      queue := rest, session := session, turn := .answer l.number reply
      handled := m.handled ++ [⟨l, isAwaited, reply⟩] } : Mailbox F V).Answering := by
  refine ⟨?_, fun n a same k found waiting other => ?_⟩
  · have fair := answering.fair
    have owed : m.owed = l.number :: rest.map (·.number) := by simp [Mailbox.owed, turn, queue]
    rw [owed] at fair
    refine fair.mono fun x hx => ?_
    simp only [Mailbox.dues, List.map_append, List.mem_append] at hx ⊢
    tauto
  · cases same
    have sender := books.numbered.sender (books.queued queue) found
    exact speaks (isWaiting_sender found waiting) (sender ▸ other)

/-- A letter that is refused out of the queue gets its answer at once, if somebody waits for one. -/
theorem drained (answering : m.Answering) (books : m.Books) {l : Letter V} {rest : List (Letter V)}
    (turn : m.turn = .drain) (queue : m.queue = l :: rest) {reply : Reply V}
    (refused : reply = l.refusal ∨ m.isWaiting l.number = false ∧ reply = .silence) (session : Session F V) :
    ({ m with
      queue := rest, session := session, drained := m.drained ++ [l]
      callers := m.callers.modify l.number (·.hear reply) } : Mailbox F V).Answering := by
  have owed : m.owed = m.closer.toList.map (·.number) ++ l.number :: rest.map (·.number) := by
    simp [Mailbox.owed, turn, queue]
  have more : m.dues ⊆ ({ m with drained := m.drained ++ [l] } : Mailbox F V).dues := fun x hx => by
    simp only [Mailbox.dues, List.map_append, List.mem_append] at hx ⊢
    tauto
  have told := (answering.fair.mono more).told (a := reply) owed ?_ ?_
  · refine ⟨?_, fun n a same => ?_⟩
    · simp only [Mailbox.owed, turn]
      exact told
    · cases turn.symm.trans same
  · rcases refused with refused | ⟨-, silent⟩
    · refine Or.inr ?_
      rw [refused]
      simp [Mailbox.dues]
    · exact Or.inl silent
  · intro k found waiting other
    have sender := books.numbered.sender (books.queued queue) found
    rcases refused with refused | ⟨gone, -⟩
    · rw [refused]
      exact refusal_ne_silence (sender ▸ other)
    · cases gone.symm.trans (isWaiting_sender found waiting)

/-- The worker that stops answers the letter that it stopped for, if there is one. -/
theorem finished (answering : m.Answering) (turn : m.turn = .drain) (queue : m.queue = []) :
    ({ m with turn := .done, callers := m.dismissed } : Mailbox F V).Answering := by
  have fair := answering.fair
  refine ⟨?_, fun n a same => by cases same⟩
  simp only [Mailbox.owed, Mailbox.dues, queue, dismissed]
  cases closer : m.closer with
  | none =>
    simp only [Mailbox.owed, Mailbox.dues, turn, queue, closer] at fair
    exact fair
  | some l =>
    have owed : m.owed = [] ++ l.number :: [] := by simp [Mailbox.owed, turn, queue, closer]
    have due : (l.number, .acknowledged) ∈ m.dues := by simp [Mailbox.dues, closer]
    have told := fair.told owed (Or.inr due) fun _ _ _ _ same => by cases same
    simp only [Mailbox.dues, closer] at told
    exact told

end Answering

theorem answering_acted (books : m.Books) (answering : m.Answering) (way : Acted m a m') : m'.Answering := by
  have fair := answering.fair
  cases way with
  | nothing => exact answering
  | rested => exact answering
  | handles => exact ⟨fair, answering.spoken⟩
  | received => exact ⟨fair, answering.spoken⟩
  | outside => exact ⟨fair, answering.spoken⟩
  | left n => exact answering.left n
  | asked q _ _ => exact answering.asked q
  | turnedAway q _ isShut =>
    have reply : ((m.join q).session.refuse ((m.letter q).request true)).1 = (m.letter q).refusal :=
      (refuse_request _ _ true).resolve_right fun same => by cases same.1
    rw [reply]
    exact answering.turnedAway books q isShut _
  | took l rest turn queue regular =>
    refine answering.took books turn queue (fun awaited other => ?_) _ _
    rw [awaited]
    exact handle_request_ne_silence _ regular other
  | closing l rest turn queue closes =>
    have owed : m.owed = l.number :: rest.map (·.number) := by simp [Mailbox.owed, turn, queue]
    rw [owed] at fair
    obtain ⟨-, -, alone⟩ := books.serving (by rw [turn]; rfl)
    refine ⟨fair.mono fun x hx => ?_, fun n a same => by cases same⟩
    simp only [Mailbox.dues, alone, List.mem_append] at hx ⊢
    rcases hx with (hx | hx) | hx
    · exact Or.inl (Or.inl hx)
    · cases hx
    · exact Or.inr hx
  | deserted turn queue handles =>
    have owed : m.owed = [] := by simp [Mailbox.owed, turn, queue]
    obtain ⟨-, -, alone⟩ := books.serving (by rw [turn]; rfl)
    refine ⟨?_, fun n a same => by cases same⟩
    simp only [Mailbox.dues, alone, owed] at fair
    simp only [Mailbox.dues, Mailbox.owed, queue]
    exact fair
  | answered n a turn =>
    obtain ⟨front, s, handled, number, reply⟩ := books.inHand n a turn
    have due : (n, a) ∈ m.dues := by simp [Mailbox.dues, handled, number, reply]
    have owed : m.owed = [] ++ n :: m.queue.map (·.number) := by simp [Mailbox.owed, turn]
    exact ⟨fair.told owed (Or.inr due) fun k found => answering.spoken n a turn k found,
      fun n a same => by cases same⟩
  | sealed turn =>
    have owed : m.owed = m.closer.toList.map (·.number) ++ m.queue.map (·.number) := by simp [Mailbox.owed, turn]
    rw [owed] at fair
    exact ⟨fair, fun n a same => by cases same⟩
  | drained l rest turn queue => exact answering.drained books turn queue (refuse_request _ _ _) _
  | finished turn queue => exact answering.finished turn queue

end

end Mailbox

end DurableValue.Cell
