/-
  DurableValue.Proofs.Json.Reads — what a reader makes of the bytes in front of it.

  A reader that succeeds gives a result and leaves the rest (`Reads`), and one that does not complains of something
  (`Fails`); where in the document it stands matters for neither. Both are shown for a reader from what they are for
  its parts (`Reads.bind`, `Fails.bind`), so no later proof follows the cursor.
-/
import DurableValue.Json.Reader

namespace DurableValue.Json.Reading

variable {α β : Type} {r : Reading α} {f : α → Reading β} {xs ys zs : Bytes} {a : α} {p : Problem}

/-- Whether a reader gives `a` for the bytes `xs` of a source that just ends, and leaves `ys`. -/
def Reads (r : Reading α) (xs : Bytes) (a : α) (ys : Bytes) : Prop :=
  ∀ c : Cursor, c.rest = xs → c.ending = .stop → ∃ c', r c = .ok (a, c') ∧ c'.rest = ys ∧ c'.ending = .stop

def Fails (r : Reading α) (xs : Bytes) (p : Problem) : Prop :=
  ∀ c : Cursor, c.rest = xs → c.ending = .stop → ∃ line column, r c = .error (.bad p line column)

theorem bind_apply (r : Reading α) (f : α → Reading β) (c : Cursor) :
    (r >>= f) c = match r c with
      | .ok (a, c) => f a c
      | .error e => .error e := by
  change Except.bind (r c) _ = _
  rcases r c with e | ⟨a, c'⟩ <;> rfl

theorem Reads.bind {b : β} (first : Reads r xs a ys) (second : Reads (f a) ys b zs) : Reads (r >>= f) xs b zs := by
  intro c rest ending
  obtain ⟨c₁, ran, rest₁, ending₁⟩ := first c rest ending
  obtain ⟨c₂, ran₂, end₂⟩ := second c₁ rest₁ ending₁
  exact ⟨c₂, by rw [bind_apply, ran]; exact ran₂, end₂⟩

theorem Reads.fails (first : Reads r xs a ys) (second : Fails (f a) ys p) : Fails (r >>= f) xs p := by
  intro c rest ending
  obtain ⟨c₁, ran, rest₁, ending₁⟩ := first c rest ending
  obtain ⟨line, column, ran₂⟩ := second c₁ rest₁ ending₁
  exact ⟨line, column, by rw [bind_apply, ran]; exact ran₂⟩

theorem Fails.bind (first : Fails r xs p) : Fails (r >>= f) xs p := by
  intro c rest ending
  obtain ⟨line, column, ran⟩ := first c rest ending
  exact ⟨line, column, by rw [bind_apply, ran]⟩

theorem reads_pure (a : α) (xs : Bytes) : Reads (pure a) xs a xs := fun c rest ending => ⟨c, rfl, rest, ending⟩

/-- A reader may look at how much is left before it starts. -/
theorem Reads.sized {r : Nat → Reading α} (reads : Reads (r (xs.length + 1)) xs a ys) :
    Reads (fun c => r (c.rest.length + 1) c) xs a ys := fun c rest ending => by
  subst rest
  exact reads c rfl ending

theorem Fails.sized {r : Nat → Reading α} (fails : Fails (r (xs.length + 1)) xs p) :
    Fails (fun c => r (c.rest.length + 1) c) xs p := fun c rest ending => by
  subst rest
  exact fails c rfl ending

theorem fails_failAhead (p : Problem) (xs : Bytes) : Fails (failAhead p : Reading α) xs p :=
  fun _ _ _ => ⟨_, _, rfl⟩

/-! ## Bytes -/

@[simp] theorem rest_past (c : Cursor) (b : UInt8) (bs : Bytes) : (c.past b bs).rest = bs := by
  unfold Cursor.past
  split <;> rfl

@[simp] theorem ending_past (c : Cursor) (b : UInt8) (bs : Bytes) : (c.past b bs).ending = c.ending := by
  unfold Cursor.past
  split <;> rfl

theorem reads_peek (xs : Bytes) : Reads peek xs xs.head? xs := by
  rintro c rfl ending
  unfold peek
  cases rest : c.rest with
  | nil => exact ⟨c, by simp [ending], rest, ending⟩
  | cons b bs => exact ⟨_, rfl, rfl, ending⟩

theorem reads_take (b : UInt8) (bs : Bytes) : Reads take (b :: bs) (some b) bs := by
  intro c rest ending
  exact ⟨c.past b bs, by simp [take, rest], by simp, by simp [ending]⟩

theorem reads_drop (b : UInt8) (bs : Bytes) : Reads drop (b :: bs) () bs := by
  intro c rest ending
  exact ⟨c.past b bs, by simp [drop, Cursor.skip, rest], by simp, by simp [ending]⟩

theorem reads_word (w ys : Bytes) : Reads (word w) (w ++ ys) () ys := by
  induction w with
  | nil => exact reads_pure () ys
  | cons b bs ih => exact (reads_take b (bs ++ ys)).bind (by simpa using ih)

/-! ## Blanks -/

def Dark (xs : Bytes) : Prop := ∀ b ∈ xs.head?, isBlank b = false

theorem reads_blanks {lead : Bytes} (blank : ∀ b ∈ lead, isBlank b = true) (dark : Dark xs) :
    Reads blanks (lead ++ xs) xs.head? xs := by
  have past (c : Cursor) : (pastBlanks c (lead ++ xs)).ending = c.ending ∧
      (c.rest = lead ++ xs → (pastBlanks c (lead ++ xs)).rest = xs) := by
    induction lead generalizing c with
    | nil =>
      cases xs with
      | nil => exact ⟨rfl, id⟩
      | cons b bs =>
        have : isBlank b = false := dark b rfl
        simp [pastBlanks, this]
    | cons b bs ih =>
      have here : isBlank b = true := blank b List.mem_cons_self
      obtain ⟨ending, rest⟩ := ih (fun b hb => blank b (List.mem_cons_of_mem _ hb)) (c.past b (bs ++ xs))
      simp only [List.cons_append, pastBlanks, here, if_true]
      exact ⟨ending.trans (by simp), fun _ => rest (by simp)⟩
  intro c rest ending
  obtain ⟨same, found⟩ := past c
  unfold blanks
  rw [rest]
  exact reads_peek xs _ (found rest) (same.trans ending)

theorem reads_next (dark : Dark xs) : Reads blanks xs xs.head? xs := by
  have lead : ∀ b ∈ ([] : Bytes), isBlank b = true := nofun
  simpa using reads_blanks lead dark

/-! ## Digits -/

theorem reads_digits {ds : Bytes} (all : ∀ d ∈ ds, Decimal.isDigit d = true)
    (last : ∀ b ∈ xs.head?, Decimal.isDigit b = false) : Reads digits (ds ++ xs) (ds, xs.head?) xs := by
  have from_ (c : Cursor) : (digitsFrom c (ds ++ xs)).1 = ds ∧ (digitsFrom c (ds ++ xs)).2.ending = c.ending ∧
      (c.rest = ds ++ xs → (digitsFrom c (ds ++ xs)).2.rest = xs) := by
    induction ds generalizing c with
    | nil =>
      cases xs with
      | nil => exact ⟨rfl, rfl, id⟩
      | cons b bs =>
        have : Decimal.isDigit b = false := last b rfl
        simp [digitsFrom, this]
    | cons d ds ih =>
      have here : Decimal.isDigit d = true := all d List.mem_cons_self
      obtain ⟨same, ending, rest⟩ := ih (fun d hd => all d (List.mem_cons_of_mem _ hd)) (c.past d (ds ++ xs))
      simp only [List.cons_append, digitsFrom, here, if_true, same]
      exact ⟨trivial, ending.trans (by simp), fun _ => rest (by simp)⟩
  intro c rest ending
  obtain ⟨same, ended, left⟩ := from_ c
  obtain ⟨c', peeked, stands⟩ := reads_peek xs (digitsFrom c (ds ++ xs)).2 (left rest) (ended.trans ending)
  refine ⟨c', ?_, stands⟩
  unfold digits
  rw [rest]
  simp only [peeked, same]

end DurableValue.Json.Reading
