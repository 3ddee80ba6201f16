/-
  DurableValue.Proofs.Cell.Waiting — how long a letter waits.

  Along an endless schedule in which the worker gets its turn again and again, every letter that is owed an answer
  comes to be owed none. Its rank is how many turns of the worker it is away from that (`Mailbox.wait`). For the
  request that makes the worker shut down the queue that is still to be refused counts too, and that grows until it is
  sealed; so the rank has two parts. In the same way a cell whose handles are all gone comes to an end
  (`Mailbox.left`).

  Proved:
  - `wait_acted`, `left_acted`: no act raises the rank, and every turn of the worker lowers it (one step).
  - `eventually_unowed`, `eventually_done`: so it runs out.
-/
import DurableValue.Proofs.Cell.Orderly
import Mathlib.Data.Prod.Lex

namespace DurableValue.Cell

open Disk (FileSystem)

/-! ## Ranks -/

/-- What is pending while a rank falls, again and again, does not stay pending. -/
theorem eventually_not {R : Type} [Preorder R] [WellFoundedLT R] {works pending : Nat → Prop} (rank : Nat → R)
    (again : ∀ t, ∃ t', t ≤ t' ∧ works t')
    (falls : ∀ t, pending t → pending (t + 1) → rank (t + 1) ≤ rank t ∧ (works t → rank (t + 1) < rank t)) (t : Nat) :
    ∃ t', t ≤ t' ∧ ¬pending t' := by
  by_contra never
  have always {t' : Nat} (later : t ≤ t') : pending t' := by
    by_contra passed
    exact never ⟨t', later, passed⟩
  have impossible (r : R) : ∀ t', t ≤ t' → rank t' = r → False := by
    induction r using WellFoundedLT.induction with
    | ind r ih =>
      intro t₀ later same
      obtain ⟨t₁, le, work⟩ := again t₀
      have down : rank t₁ ≤ rank t₀ := by
        clear work
        induction le with
        | refl => exact le_rfl
        | @step t₂ le ih =>
          exact ((falls t₂ (always (later.trans le)) (always (later.trans (Nat.le_succ_of_le le)))).1).trans ih
      have onward := later.trans le
      have below := (falls t₁ (always onward) (always (Nat.le_succ_of_le onward))).2 work
      exact ih _ (same ▸ below.trans_le down) (t₁ + 1) (Nat.le_succ_of_le onward) rfl
  exact impossible (rank t) t (Nat.le_refl t) rfl

variable {F H V : Type} [FileSystem F H]

namespace Mailbox

/-! ## Letters -/

def wait (m : Mailbox F V) (n : Nat) : Nat ×ₗ Nat :=
  let place := (m.queue.map (·.number)).idxOf n
  toLex <| match m.turn with
    | .next => (2, 2 * place + 2)
    | .answer k _ => (2, if k = n then 1 else 2 * place + 3)
    | .seal => if n ∈ m.closer.toList.map (·.number) then (1, 0) else (2, place + 2)
    | .drain => if n ∈ m.closer.toList.map (·.number) then (0, m.queue.length + 1) else (2, place + 1)
    | .done => (0, 0)

section

variable {m m' : Mailbox F V} {a : Act F V}

omit [FileSystem F H] in
theorem queued_owed {n : Nat} (mem : n ∈ m.queue.map (·.number)) : n ∈ m.owed := List.mem_append_right _ mem

theorem callers_acted (way : Acted m a m') : m.callers.length ≤ m'.callers.length := by
  cases way with
  | asked | turnedAway => simp [join]
  | left | answered | drained => simp
  | finished =>
    have same := congrArg List.length m.letters_dismissed
    rw [length_letters, List.length_map] at same
    exact same.ge
  | _ => exact Nat.le_refl _

/-- No act makes an answer owed again. -/
theorem owed_acted (way : Acted m a m') {n : Nat} (owed : n ∈ m'.owed) :
    n ∈ m.owed ∨ n = m.callers.length := by
  cases way with
  | asked q =>
    simp only [Mailbox.owed, List.map_append, List.mem_append, List.map_cons, List.map_nil,
      List.mem_singleton] at owed ⊢
    tauto
  | took l rest turn queue =>
    simp only [Mailbox.owed, turn, queue, List.map_cons] at owed ⊢
    exact Or.inl owed
  | closing l rest turn queue =>
    simp only [Mailbox.owed, turn, queue, List.map_cons] at owed ⊢
    exact Or.inl owed
  | deserted turn queue =>
    simp only [Mailbox.owed, queue] at owed
    cases owed
  | answered k b turn =>
    simp only [Mailbox.owed] at owed
    exact Or.inl (queued_owed owed)
  | sealed turn =>
    simp only [Mailbox.owed, turn] at owed ⊢
    exact Or.inl owed
  | drained l rest turn queue =>
    simp only [Mailbox.owed, turn, queue, List.map_cons, List.mem_append, List.mem_cons] at owed ⊢
    tauto
  | finished turn queue =>
    simp only [Mailbox.owed, queue] at owed
    cases owed
  | _ => exact Or.inl owed

/-- A letter that arrives stands behind the others. -/
theorem wait_asked (books : m.Books) (isOpen : m.isOpen = true) (q : Query V) {n : Nat} (owed : n ∈ m.owed) :
    ({ m.join q with queue := m.queue ++ [m.letter q] } : Mailbox F V).wait n = m.wait n := by
  have place (mem : n ∈ m.queue.map (·.number)) :
      ((m.queue ++ [m.letter q]).map (·.number)).idxOf n = (m.queue.map (·.number)).idxOf n := by
    rw [List.map_append, List.idxOf_append_of_mem mem]
  match turn : m.turn with
  | .next =>
    simp only [Mailbox.owed, turn, List.nil_append] at owed
    simp only [wait, join, turn, place owed]
  | .answer k b =>
    by_cases hand : k = n
    · simp only [wait, join, turn, hand, if_pos]
    · have queued : n ∈ m.queue.map (·.number) := by
        simpa only [Mailbox.owed, turn, List.mem_append, List.mem_singleton, Ne.symm hand, false_or] using owed
      simp only [wait, join, turn, place queued]
  | .seal =>
    by_cases closes : n ∈ m.closer.toList.map (·.number)
    · simp only [wait, join, turn, closes, if_pos]
    · have queued : n ∈ m.queue.map (·.number) := by
        simpa only [Mailbox.owed, turn, List.mem_append, closes, false_or] using owed
      simp only [wait, join, turn, place queued]
  | .drain =>
    rw [books.sealed (Or.inl turn)] at isOpen
    cases isOpen
  | .done => simp [Mailbox.owed, turn, books.finished turn] at owed

theorem wait_acted (books : m.Books) (answering : m.Answering) (way : Acted m a m') {n : Nat} (owed : n ∈ m.owed)
    (still : n ∈ m'.owed) : m'.wait n ≤ m.wait n ∧ (a = .work → m'.wait n < m.wait n) := by
  have lowers (lt : m'.wait n < m.wait n) : m'.wait n ≤ m.wait n ∧ (a = .work → m'.wait n < m.wait n) :=
    ⟨lt.le, fun _ => lt⟩
  cases way with
  | nothing other => exact ⟨le_rfl, fun same => absurd same other⟩
  | handles _ other => exact ⟨le_rfl, fun same => absurd same other⟩
  | asked q some isOpen => exact ⟨(wait_asked books isOpen q owed).le, fun work => by cases work⟩
  | rested stays =>
    rcases stays with done | ⟨next, queue, -⟩
    · simp [Mailbox.owed, done, books.finished done] at owed
    · simp [Mailbox.owed, next, queue] at owed
  | took l rest turn queue =>
    refine lowers ?_
    by_cases first : l.number = n
    · simp [wait, turn, queue, first, Prod.Lex.toLex_lt_toLex]
    · simp [wait, turn, queue, first, List.idxOf_cons_ne, Prod.Lex.toLex_lt_toLex]
      omega
  | closing l rest turn queue =>
    refine lowers ?_
    by_cases first : l.number = n
    · simp [wait, turn, queue, first, Prod.Lex.toLex_lt_toLex]
    · simp [wait, turn, queue, first, Ne.symm first, List.idxOf_cons_ne, Prod.Lex.toLex_lt_toLex]
      omega
  | deserted turn queue => simp [Mailbox.owed, turn, queue] at owed
  | answered k b turn =>
    refine lowers ?_
    have nodup := answering.fair.nodup
    simp only [Mailbox.owed, turn] at nodup still
    -- Whoever is answered now is owed nothing behind this act.
    have other : k ≠ n := fun same => (List.nodup_cons.mp nodup).1 (same ▸ still)
    simp [wait, turn, other, Prod.Lex.toLex_lt_toLex]
  | sealed turn =>
    refine lowers ?_
    by_cases closes : n ∈ m.closer.toList.map (·.number)
    · simp only [wait, turn, closes, if_true, Prod.Lex.toLex_lt_toLex]
      simp
    · simp only [wait, turn, closes, if_false, Prod.Lex.toLex_lt_toLex]
      simp
  | drained l rest turn queue =>
    refine lowers ?_
    have other : l.number ≠ n := fun same => by
      have nodup := answering.fair.nodup
      simp only [Mailbox.owed, turn, queue, List.map_cons] at nodup still
      have once := List.nodup_cons.mp (List.perm_middle.nodup_iff.mp nodup)
      exact once.1 (same ▸ still)
    by_cases closes : n ∈ m.closer.toList.map (·.number)
    · simp only [wait, turn, queue, closes, if_true, Prod.Lex.toLex_lt_toLex]
      simp
    · simp only [wait, turn, queue, closes, if_false, Prod.Lex.toLex_lt_toLex]
      simp [List.idxOf_cons_ne, other]
  | finished turn queue => simp [Mailbox.owed, queue] at still
  | _ => exact ⟨le_rfl, fun work => by cases work⟩

end

/-! ## The end of a cell without handles -/

def left (m : Mailbox F V) : Nat :=
  match m.turn with
  | .next => 2 * m.queue.length + 3
  | .answer _ _ => 2 * m.queue.length + 4
  | .seal => m.queue.length + 2
  | .drain => m.queue.length + 1
  | .done => 0

section

variable {m m' : Mailbox F V} {a : Act F V}

/-- Handles come from handles. -/
theorem handles_acted (way : Acted m a m') (none : m.handles = 0) : m'.handles = 0 := by
  cases way with
  | handles n _ _ still => exact still none
  | _ => exact none

theorem left_acted (way : Acted m a m') (none : m.handles = 0) (passed : m.turn ≠ .done) :
    m'.left ≤ m.left ∧ (a = .work → m'.left < m.left) := by
  have lowers (lt : m'.left < m.left) : m'.left ≤ m.left ∧ (a = .work → m'.left < m.left) := ⟨lt.le, fun _ => lt⟩
  cases way with
  | nothing other => exact ⟨le_rfl, fun same => absurd same other⟩
  | handles _ other => exact ⟨le_rfl, fun same => absurd same other⟩
  | asked _ some => exact absurd none some
  | turnedAway _ some => exact absurd none some
  | rested stays =>
    rcases stays with done | ⟨-, -, some⟩
    · exact absurd done passed
    · exact absurd none some
  | took l rest turn queue | closing l rest turn queue | drained l rest turn queue =>
    refine lowers ?_
    simp only [left, turn, queue, List.length_cons]
    omega
  | deserted turn queue | finished turn queue =>
    refine lowers ?_
    simp [left, turn, queue]
  | answered _ _ turn | sealed turn =>
    refine lowers ?_
    simp only [left, turn]
    omega
  | _ => exact ⟨le_rfl, fun work => by cases work⟩

end

/-! ## Endless schedules -/

def after (schedule : Nat → Act F V) (t : Nat) (m : Mailbox F V) : Mailbox F V := m.run ((List.range t).map schedule)

/-- Whether the worker gets its turn again and again. -/
def KeepsWorking (schedule : Nat → Act F V) : Prop := ∀ t, ∃ t', t ≤ t' ∧ schedule t' = .work

section

variable {c : Session F V} {schedule : Nat → Act F V} {m : Mailbox F V}

theorem after_succ (schedule : Nat → Act F V) (t : Nat) (m : Mailbox F V) :
    m.after schedule (t + 1) = (m.after schedule t).act (schedule t) := by
  simp [after, run, List.range_succ, List.foldl_append]

theorem acted_after (steady : Steady c) (orderly : m.Orderly c) (schedule : Nat → Act F V) (t : Nat) :
    (m.after schedule t).Orderly c ∧
      Acted (m.after schedule t) (schedule t) (m.after schedule (t + 1)) := by
  have now : (m.after schedule t).Orderly c := orderly_run steady _ orderly
  refine ⟨now, ?_⟩
  rw [after_succ]
  exact acted _ (now.ran.steady steady).sound _

theorem sent_after (steady : Steady c) (orderly : m.Orderly c) {n t : Nat}
    (sent : n < (m.after schedule t).callers.length) {t' : Nat} (later : t ≤ t') :
    n < (m.after schedule t').callers.length := by
  induction later with
  | refl => exact sent
  | step _ ih => exact Nat.lt_of_lt_of_le ih (callers_acted (acted_after steady orderly schedule _).2)

/-- A letter that was sent and is owed no answer is never owed one again. -/
theorem unowed_after (steady : Steady c) (orderly : m.Orderly c) {n t : Nat}
    (sent : n < (m.after schedule t).callers.length) (unowed : n ∉ (m.after schedule t).owed) {t' : Nat}
    (later : t ≤ t') :
    n < (m.after schedule t').callers.length ∧ n ∉ (m.after schedule t').owed := by
  refine ⟨sent_after steady orderly sent later, ?_⟩
  induction later with
  | refl => exact unowed
  | step later ih =>
    intro owed
    rcases owed_acted (acted_after steady orderly schedule _).2 owed with before | new
    · exact ih before
    · exact Nat.ne_of_lt (sent_after steady orderly sent later) new

theorem eventually_unowed (steady : Steady c) (orderly : m.Orderly c) (works : KeepsWorking schedule) (n t : Nat) :
    ∃ t', t ≤ t' ∧ n ∉ (m.after schedule t').owed :=
  eventually_not (fun t => (m.after schedule t).wait n) works
    (fun t owed still =>
      have ⟨now, way⟩ := acted_after steady orderly schedule t
      wait_acted now.books now.answering way owed still) t

theorem eventually_done (steady : Steady c) (orderly : m.Orderly c) (works : KeepsWorking schedule) {t : Nat}
    (none : (m.after schedule t).handles = 0) : ∃ t', t ≤ t' ∧ (m.after schedule t').turn = .done := by
  have gone (d : Nat) : (m.after schedule (t + d)).handles = 0 := by
    induction d with
    | zero => exact none
    | succ d ih => exact handles_acted (acted_after steady orderly schedule (t + d)).2 ih
  have again (d : Nat) : ∃ d', d ≤ d' ∧ schedule (t + d') = .work := by
    obtain ⟨t', later, work⟩ := works (t + d)
    refine ⟨t' - t, by omega, ?_⟩
    rwa [Nat.add_sub_cancel' (by omega)]
  obtain ⟨d, -, passed⟩ := eventually_not (fun d => (m.after schedule (t + d)).left) again
    (fun d passed _ => left_acted (acted_after steady orderly schedule (t + d)).2 (gone d) passed) 0
  exact ⟨t + d, Nat.le_add_right t d, not_not.mp passed⟩

end

end Mailbox

end DurableValue.Cell
