/-
  DurableValue.Proofs.Cell.Departed — a caller who leaves after its request was taken.

  Whether a caller still waits is asked when its request comes out of the queue, and when it is to hear something. So
  one whose request is no longer in the queue, and who holds no subscription, is missed by nobody when it leaves.

  Proved:
  - `apart_act`, `apart_run`: two mailboxes that differ in what becomes of this caller alone go on to do so, whatever
    is done.
  - `apart_leave`: leaving makes no other difference.
-/
import DurableValue.Proofs.Cell.Mailbox

namespace DurableValue.Cell.Mailbox

open Disk (FileSystem)

variable {F H V : Type} [FileSystem F H]

/-! ## Callers -/

/-- Two lists of callers that differ at most in whether the one with number `n` waits, and in what it has heard. -/
structure Near (n : Nat) (ks ks' : List (Caller V)) : Prop where
  letters : ks'.map (·.letter) = ks.map (·.letter)
  others : ∀ i, i ≠ n → ks'[i]? = ks[i]?

namespace Near

variable {n : Nat} {ks ks' : List (Caller V)}

theorem length (near : Near n ks ks') : ks'.length = ks.length := by
  simpa using congrArg List.length near.letters

theorem modify (near : Near n ks ks') (f : Caller V → Caller V) (same : ∀ k, (f k).letter = k.letter) (i : Nat) :
    Near n (ks.modify i f) (ks'.modify i f) where
  letters := by rw [letters_modify f same, letters_modify f same, near.letters]
  others j other := by rw [List.getElem?_modify, List.getElem?_modify, near.others j other]

/-- Whatever befalls a caller, it stays near. -/
theorem of_modify (n : Nat) (f : Caller V → Caller V) (same : ∀ k, (f k).letter = k.letter) (ks : List (Caller V)) :
    Near n ks (ks.modify n f) where
  letters := letters_modify f same n ks
  others j other := by simp [Ne.symm other]

theorem append (near : Near n ks ks') (k : Caller V) : Near n (ks ++ [k]) (ks' ++ [k]) where
  letters := by rw [List.map_append, List.map_append, near.letters]
  others j other := by
    have len := near.length
    rcases Nat.lt_or_ge j ks.length with old | new
    · rw [List.getElem?_append_left old, List.getElem?_append_left (len.symm ▸ old), near.others j other]
    · rw [List.getElem?_append_right new, List.getElem?_append_right (len.symm ▸ new), len]

end Near

/-! ## Acts -/

/-- Whether a request was taken out of the queue, and is not for a subscription. -/
structure Taken (n : Nat) (m : Mailbox F V) : Prop where
  sent : n < m.callers.length
  plain : m.feed? n = none
  taken : ∀ l ∈ m.queue, l.number ≠ n

/-- Two mailboxes that differ in the caller with number `n` alone. -/
structure Apart (n : Nat) (m m' : Mailbox F V) : Prop where
  rest : m' = { m with callers := m'.callers }
  callers : Near n m.callers m'.callers

variable {n : Nat} {m m' : Mailbox F V} {ks : List (Caller V)}

omit [FileSystem F H] in
/-- Whether somebody subscribed is said by the letter. -/
theorem feed?_eq (m : Mailbox F V) (i : Nat) :
    m.feed? i = (m.letters[i]?.filter (·.query.isSubscribe)).map (·.feed) := by
  simp only [feed?, letters, List.getElem?_map]
  cases m.callers[i]? with
  | none => rfl
  | some k => cases sub : k.letter.query.isSubscribe <;> simp [Option.filter, sub]

omit [FileSystem F H] in
theorem letter_of_length (h : ks.length = m.callers.length) (q : Query V) :
    ({ m with callers := ks } : Mailbox F V).letter q = m.letter q := by
  simp only [letter, h]

omit [FileSystem F H] in
theorem onFeed_of_letters (h : ks.map (·.letter) = m.callers.map (·.letter)) (i : Nat) (f : Feed V → Feed V) :
    ({ m with callers := ks } : Mailbox F V).onFeed i f = { m.onFeed i f with callers := ks } := by
  have letters : ({ m with callers := ks } : Mailbox F V).letters = m.letters := h
  simp only [onFeed, feed?_eq, letters]

omit [FileSystem F H] in
theorem ask_open {q : Query V} (some : m.handles ≠ 0) (isOpen : m.isOpen = true) :
    m.ask q = { m.join q with queue := m.queue ++ [m.letter q] } := by
  have isOpen : (m.join q).isOpen = true := isOpen
  unfold ask
  rw [if_neg some]
  exact if_pos isOpen

omit [FileSystem F H] in
theorem ask_shut {q : Query V} (some : m.handles ≠ 0) (isShut : m.isOpen = false) :
    m.ask q = ({ m.join q with
      session := ((m.join q).session.refuse ((m.letter q).request true)).2
      turnedAway := m.turnedAway ++ [m.letter q] } : Mailbox F V).tell (m.letter q).number
        ((m.join q).session.refuse ((m.letter q).request true)).1 := by
  have isShut : ¬ (m.join q).isOpen = true := Bool.eq_false_iff.mp isShut
  unfold ask
  rw [if_neg some]
  exact if_neg isShut

/-- What is asked of a mailbox is asked of one that differs in one caller. -/
theorem apart_ask (near : Near n m.callers ks) (q : Query V) :
    Apart n (m.ask q) (({ m with callers := ks } : Mailbox F V).ask q) := by
  have letter := letter_of_length near.length q
  have joined := near.append { letter := m.letter q }
  by_cases none : m.handles = 0
  · have same : m.ask q = m := if_pos none
    have same' : ({ m with callers := ks } : Mailbox F V).ask q = { m with callers := ks } := if_pos none
    rw [same, same']
    exact ⟨rfl, near⟩
  · rcases Bool.eq_false_or_eq_true m.isOpen with opened | shut
    · rw [ask_open none opened, ask_open (m := { m with callers := ks }) none opened]
      simp only [join, letter]
      exact ⟨rfl, joined⟩
    · rw [ask_shut none shut, ask_shut (m := { m with callers := ks }) none shut]
      simp only [join, letter]
      exact ⟨rfl, joined.modify _ (letter_hear _) _⟩

/-- The worker takes, answers and refuses requests without asking after a caller whose request was taken before. -/
theorem apart_work (near : Near n m.callers ks) (taken : m.Taken n) :
    Apart n m.work ({ m with callers := ks } : Mailbox F V).work := by
  have waits {l : Letter V} (mem : l ∈ m.queue) :
      ({ m with callers := ks } : Mailbox F V).isWaiting l.number = m.isWaiting l.number := by
    simp only [isWaiting, near.others _ (taken.taken l mem)]
  simp only [work]
  split
  · split
    · split <;> exact ⟨rfl, near⟩
    · rename_i l rest queue
      have waits : ({ m with queue := rest, callers := ks } : Mailbox F V).isWaiting l.number =
          ({ m with queue := rest } : Mailbox F V).isWaiting l.number :=
        waits (by rw [queue]; exact List.mem_cons_self)
      split
      · exact ⟨rfl, near⟩
      · simp only [take, waits]
        exact ⟨rfl, near⟩
  · rename_i i a _
    simp only [tell]
    split <;> exact ⟨rfl, near.modify _ (letter_hear a) i⟩
  · exact ⟨rfl, near⟩
  · split
    · rename_i l rest queue
      have waits : ({ m with queue := rest, callers := ks } : Mailbox F V).isWaiting l.number =
          ({ m with queue := rest } : Mailbox F V).isWaiting l.number :=
        waits (by rw [queue]; exact List.mem_cons_self)
      simp only [dispose, waits]
      exact ⟨rfl, near.modify _ (letter_hear _) _⟩
    · refine ⟨rfl, ?_⟩
      simp only [dismissed]
      split
      · exact near.modify _ (letter_hear _) _
      · exact near
  · exact ⟨rfl, near⟩

theorem apart_act (apart : Apart n m m') (taken : m.Taken n) (a : Act F V) : Apart n (m.act a) (m'.act a) := by
  obtain ⟨rest, near⟩ := apart
  generalize m'.callers = ks at rest near
  subst rest
  cases a with
  | ask q => exact apart_ask near q
  | leave i =>
    simp only [act, leave, onFeed_of_letters near.letters]
    exact ⟨rfl, near.modify Caller.leave (fun _ => rfl) i⟩
  | receive i =>
    simp only [act, onFeed_of_letters near.letters]
    exact ⟨rfl, near⟩
  | clone =>
    simp only [act]
    split <;> exact ⟨rfl, near⟩
  | drop => exact ⟨rfl, near⟩
  | outside f => exact ⟨rfl, near⟩
  | work => exact apart_work near taken

/-- Nobody who asked is forgotten, and nobody's request is queued again. -/
theorem grows_act (m : Mailbox F V) (a : Act F V) :
    (∃ ls, (m.act a).letters = m.letters ++ ls) ∧
      ∀ l ∈ (m.act a).queue, l ∈ m.queue ∨ l.number = m.callers.length := by
  have same {m' : Mailbox F V} (letters : m'.letters = m.letters) (queue : ∀ l ∈ m'.queue, l ∈ m.queue) :
      (∃ ls, m'.letters = m.letters ++ ls) ∧ ∀ l ∈ m'.queue, l ∈ m.queue ∨ l.number = m.callers.length :=
    ⟨⟨[], letters.trans (List.append_nil _).symm⟩, fun l mem => Or.inl (queue l mem)⟩
  cases a with
  | ask q =>
    by_cases none : m.handles = 0
    · rw [show m.act (.ask q) = m from if_pos none]
      exact same rfl fun _ => id
    · rcases Bool.eq_false_or_eq_true m.isOpen with opened | shut
      · rw [show m.act (.ask q) = _ from ask_open none opened]
        refine ⟨⟨[m.letter q], m.letters_join q⟩, fun l mem => ?_⟩
        rcases List.mem_append.mp mem with mem | mem
        · exact Or.inl mem
        · exact Or.inr (by rw [List.mem_singleton.mp mem, letter])
      · rw [show m.act (.ask q) = _ from ask_shut none shut]
        exact ⟨⟨[m.letter q], (letters_hear _ _ _).trans (m.letters_join q)⟩, fun l mem => Or.inl mem⟩
  | leave i => exact same (letters_modify Caller.leave (fun _ => rfl) i _) fun _ => id
  | receive i => exact same rfl fun _ => id
  | clone =>
    simp only [act]
    split <;> exact same rfl fun _ => id
  | drop => exact same rfl fun _ => id
  | outside f => exact same rfl fun _ => id
  | work =>
    have behind {l : Letter V} {rest : List (Letter V)} (queue : m.queue = l :: rest) (l' : Letter V)
        (mem : l' ∈ rest) : l' ∈ m.queue := by
      rw [queue]
      exact List.mem_cons_of_mem l mem
    simp only [act, work]
    split
    · split
      · split <;> exact same rfl fun _ => id
      · split <;> exact same rfl (behind ‹_›)
    · simp only [tell]
      split <;> exact same (letters_hear _ _ _) fun _ => id
    · exact same rfl fun _ => id
    · split
      · exact same (letters_hear _ _ _) (behind ‹_›)
      · exact same m.letters_dismissed fun _ => id
    · exact same rfl fun _ => id

theorem taken_act (taken : m.Taken n) (a : Act F V) : (m.act a).Taken n := by
  obtain ⟨⟨ls, letters⟩, queue⟩ := grows_act m a
  have sent : n < m.letters.length := by
    rw [length_letters]
    exact taken.sent
  refine ⟨?_, ?_, fun l mem => ?_⟩
  · rw [← length_letters, letters, List.length_append]
    omega
  · rw [feed?_eq, letters, List.getElem?_append_left sent, ← feed?_eq]
    exact taken.plain
  · rcases queue l mem with mem | new
    · exact taken.taken l mem
    · have := taken.sent
      omega

theorem apart_run (apart : Apart n m m') (taken : m.Taken n) (as : List (Act F V)) :
    Apart n (m.run as) (m'.run as) := by
  induction as generalizing m m' with
  | nil => exact apart
  | cons a as ih => exact ih (apart_act apart taken a) (taken_act taken a)

/-- Whoever leaves after its request was taken changes its own entry only. -/
theorem apart_leave (taken : m.Taken n) : Apart n m (m.leave n) := by
  have here : m.onFeed n Feed.drop = m := by
    unfold onFeed
    rw [taken.plain]
  unfold leave
  rw [here]
  exact ⟨rfl, .of_modify n Caller.leave (fun _ => rfl) _⟩

end DurableValue.Cell.Mailbox
