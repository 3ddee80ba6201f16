/-
  DurableValue.Proofs.Json.Steady — what a reader made of a source that fails, had the source gone on.

  A reader takes the bytes in order and never goes back, so what it did before its source failed stands: what it gave
  it gives again, and where it complained it complains again, however the source goes on (`Follows`). If it did
  neither, it passes on the error of the source. This is shown for each reader from what it is for its parts. The
  loops have one round for each byte, which is more the longer the source is; as every round takes a byte, the number
  does not matter (`follows_rounds`).
-/
import DurableValue.Json.Record
import DurableValue.Proofs.Json.Reads

namespace DurableValue.Json

def Cursor.extended (c : Cursor) (more : Bytes) (ending : Ending) : Cursor :=
  { c with rest := c.rest ++ more, ending := ending }

namespace Reading

variable {α β : Type}

def Refused (ran : Except Error (α × Cursor)) : Prop := ∃ p line column, ran = .error (.bad p line column)

/-- Whether what `r` does at a place of which `P` holds stands for a source that goes on: where the source fails, `r'`
gives the same of the longer one and stands at the same place, or complains if `r` did. Of what is given `Q` holds. -/
structure Follows (more : Bytes) (ending : Ending) (P : Cursor → Prop) (r r' : Reading α) (Q : α → Cursor → Prop) :
    Prop where
  ok : ∀ {c : Cursor} {a : α} {d : Cursor}, P c → r c = .ok (a, d) → Q a d ∧ d.ending = c.ending ∧
    ∀ e, c.ending = .fail e → r' (c.extended more ending) = .ok (a, d.extended more ending)
  bad : ∀ {c : Cursor}, P c → Refused (r c) → ∀ e, c.ending = .fail e → Refused (r' (c.extended more ending))
  source : ∀ {c : Cursor} {e : Disk.IoError}, P c → r c = .error (.source e) → c.ending = .fail e

section

variable {more : Bytes} {ending : Ending} {P P' : Cursor → Prop} {Q Q' : α → Cursor → Prop} {R : β → Cursor → Prop}
  {r r' s s' : Reading α} {f f' : α → Reading β}

theorem bind_of_ok {c d : Cursor} {a : α} (ran : r c = .ok (a, d)) : (r >>= f) c = f a d := by rw [bind_apply, ran]

theorem bind_cases (r : Reading α) (f : α → Reading β) (c : Cursor) :
    (∃ e, r c = .error e ∧ (r >>= f) c = .error e) ∨ ∃ a d, r c = .ok (a, d) ∧ (r >>= f) c = f a d := by
  rw [bind_apply]
  rcases r c with e | ⟨a, d⟩
  · exact Or.inl ⟨e, rfl, rfl⟩
  · exact Or.inr ⟨a, d, rfl, rfl⟩

theorem Refused.bind {c : Cursor} (refused : Refused (r c)) : Refused ((r >>= f) c) := by
  obtain ⟨p, line, column, ran⟩ := refused
  exact ⟨p, line, column, by rw [bind_apply, ran]⟩

theorem Follows.bind (first : Follows more ending P r r' Q)
    (second : ∀ a, Follows more ending (Q a) (f a) (f' a) R) : Follows more ending P (r >>= f) (r' >>= f') R where
  ok {c b d} start ran := by
    rcases bind_cases r f c with ⟨e, -, whole⟩ | ⟨a, c₁, read, whole⟩ <;> rw [whole] at ran
    · cases ran
    · obtain ⟨there, same, onward⟩ := first.ok start read
      obtain ⟨there', same', onward'⟩ := (second a).ok there ran
      exact ⟨there', same'.trans same, fun e failing => (bind_of_ok (onward e failing)).trans
        (onward' e (same.trans failing))⟩
  bad {c} start refused e failing := by
    rcases bind_cases r f c with ⟨e', read, whole⟩ | ⟨a, c₁, read, whole⟩ <;> rw [whole] at refused
    · obtain ⟨p, line, column, bad⟩ := refused
      exact (first.bad start ⟨p, line, column, read.trans (congrArg _ (Except.error.inj bad))⟩ e failing).bind
    · obtain ⟨there, same, onward⟩ := first.ok start read
      rw [bind_of_ok (onward e failing)]
      exact (second a).bad there refused e (same.trans failing)
  source {c e} start ran := by
    rcases bind_cases r f c with ⟨e', read, whole⟩ | ⟨a, c₁, read, whole⟩ <;> rw [whole] at ran
    · exact first.source start (read.trans (congrArg _ (Except.error.inj ran)))
    · obtain ⟨there, same, -⟩ := first.ok start read
      exact same.symm.trans ((second a).source there ran)

theorem Follows.imp (follows : Follows more ending P r r' Q) (before : ∀ c, P' c → P c)
    (after : ∀ a c, Q a c → Q' a c) : Follows more ending P' r r' Q' where
  ok start ran := ⟨after _ _ (follows.ok (before _ start) ran).1, (follows.ok (before _ start) ran).2⟩
  bad start := follows.bad (before _ start)
  source start := follows.source (before _ start)

theorem follows_pure {a : α} (given : ∀ c, P c → Q a c) : Follows more ending P (pure a) (pure a) Q where
  ok start ran := by
    cases ran
    exact ⟨given _ start, rfl, fun _ _ => rfl⟩
  bad _ refused := by
    obtain ⟨_, _, _, ran⟩ := refused
    cases ran
  source _ ran := by cases ran

/-- A complaint that nothing can change. -/
theorem follows_refused (refused : ∀ c, Refused (r c)) (refused' : ∀ c, Refused (r' c)) :
    Follows more ending P r r' Q where
  ok {c a d} _ ran := by
    obtain ⟨_, _, _, bad⟩ := refused c
    cases bad.symm.trans ran
  bad {c} _ _ _ _ := refused' _
  source {c e} _ ran := by
    obtain ⟨_, _, _, bad⟩ := refused c
    cases bad.symm.trans ran

theorem follows_ite {p : Prop} [Decidable p] (yes : p → Follows more ending P r r' Q)
    (no : ¬ p → Follows more ending P s s' Q) :
    Follows more ending P (if p then r else s) (if p then r' else s') Q := by
  split
  · exact yes ‹_›
  · exact no ‹_›

def Alike (ran ran' : Except Error (α × Cursor)) : Prop := ran = ran' ∨ Refused ran ∧ Refused ran'

theorem Follows.alike (follows : Follows more ending P s s' Q) (alike : ∀ c, Alike (r c) (s c))
    (alike' : ∀ c, Alike (r' c) (s' c)) : Follows more ending P r r' Q where
  ok {c a d} start ran := by
    rcases alike c with same | ⟨⟨p, line, column, bad⟩, -⟩
    · obtain ⟨there, stays, onward⟩ := follows.ok start (same.symm.trans ran)
      refine ⟨there, stays, fun e failing => ?_⟩
      rcases alike' (c.extended more ending) with same' | ⟨-, p, line, column, bad⟩
      · exact same'.trans (onward e failing)
      · cases bad.symm.trans (onward e failing)
    · cases bad.symm.trans ran
  bad {c} start refused e failing := by
    have refused : Refused (s c) := (alike c).elim (fun same => same ▸ refused) And.right
    rcases alike' (c.extended more ending) with same' | ⟨bad, -⟩
    · exact same' ▸ follows.bad start refused e failing
    · exact bad
  source {c e} start ran := by
    rcases alike c with same | ⟨⟨p, line, column, bad⟩, -⟩
    · exact follows.source start (same.symm.trans ran)
    · cases bad.symm.trans ran

theorem refused_failHere (p : Problem) (c : Cursor) : Refused ((failHere p : Reading α) c) := ⟨_, _, _, rfl⟩

theorem refused_failAhead (p : Problem) (c : Cursor) : Refused ((failAhead p : Reading α) c) := ⟨_, _, _, rfl⟩

theorem follows_failHere (p : Problem) : Follows more ending P (failHere p) (failHere p) Q :=
  follows_refused (refused_failHere p) (refused_failHere p)

theorem follows_failAhead (p : Problem) : Follows more ending P (failAhead p) (failAhead p) Q :=
  follows_refused (refused_failAhead p) (refused_failAhead p)

/-- A reader may be another one at each place, as long as that shows where the source fails. -/
theorem follows_at (each : ∀ c, P c → ∃ s s', r c = s c ∧ Follows more ending P s s' Q ∧
      ∀ e, c.ending = .fail e → s c = .error (.source e) ∨ r' (c.extended more ending) = s' (c.extended more ending)) :
    Follows more ending P r r' Q where
  ok {c a d} start ran := by
    obtain ⟨s, s', same, follows, onward⟩ := each c start
    obtain ⟨there, stays, longer⟩ := follows.ok start (same.symm.trans ran)
    refine ⟨there, stays, fun e failing => ?_⟩
    rcases onward e failing with met | same'
    · cases met.symm.trans (same.symm.trans ran)
    · exact same'.trans (longer e failing)
  bad {c} start refused e failing := by
    obtain ⟨s, s', same, follows, onward⟩ := each c start
    rcases onward e failing with met | same'
    · obtain ⟨p, line, column, ran⟩ := refused
      cases met.symm.trans (same.symm.trans ran)
    · rw [same']
      exact follows.bad start (same ▸ refused) e failing
  source {c e} start ran := by
    obtain ⟨s, s', same, follows, -⟩ := each c start
    exact follows.source start (same.symm.trans ran)

end

/-! ## What is left to read -/

def Under (n : Nat) (c : Cursor) : Prop := c.rest.length < n

/-- Whether less than `n` bytes are left, one of them at least if a next one was seen. -/
def Behind (n : Nat) (next : Option UInt8) (c : Cursor) : Prop := Under n c ∧ (next.isSome = true → c.rest ≠ [])

def Runs (P : Nat → Cursor → Prop) (r : Reading α) (Q : Nat → α → Cursor → Prop) : Prop :=
  ∀ n more ending, Follows more ending (P n) r r (Q n)

abbrev Stays (r : Reading α) : Prop := Runs (fun n => Under n) r fun n _ => Under n

abbrev Eats (r : Reading α) : Prop := Runs (fun n => Under (n + 1)) r fun n _ => Under n

section

variable {P P' : Nat → Cursor → Prop} {Q Q' : Nat → α → Cursor → Prop} {R : Nat → β → Cursor → Prop}
  {r s : Reading α} {f : α → Reading β}

theorem Runs.bind (first : Runs P r Q) (second : ∀ a, Runs (fun n => Q n a) (f a) R) : Runs P (r >>= f) R :=
  fun n more ending => (first n more ending).bind fun a => second a n more ending

theorem Runs.imp (runs : Runs P r Q) (before : ∀ n c, P' n c → P n c) (after : ∀ n a c, Q n a c → Q' n a c) :
    Runs P' r Q' := fun n more ending => (runs n more ending).imp (before n) (after n)

theorem Runs.before (runs : Runs P r Q) (before : ∀ n c, P' n c → P n c) : Runs P' r Q :=
  runs.imp before fun _ _ _ => id

theorem runs_pure {a : α} (given : ∀ n c, P n c → Q n a c) : Runs P (pure a) Q :=
  fun n _ _ => follows_pure (given n)

theorem stays_pure (a : α) : Stays (pure a) := runs_pure fun _ _ => id

theorem runs_failHere (p : Problem) : Runs P (failHere p) Q := fun _ _ _ => follows_failHere p

theorem runs_failAhead (p : Problem) : Runs P (failAhead p) Q := fun _ _ _ => follows_failAhead p

theorem runs_ite {p : Prop} [Decidable p] (yes : p → Runs P r Q) (no : ¬ p → Runs P s Q) :
    Runs P (if p then r else s) Q :=
  fun n more ending => follows_ite (fun h => yes h n more ending) fun h => no h n more ending

theorem not_under_zero (c : Cursor) : ¬ Under 0 c := Nat.not_lt_zero _

theorem Under.succ {n : Nat} {c : Cursor} (under : Under n c) : Under (n + 1) c := Nat.lt_succ_of_lt under

theorem not_behind_zero {next : Option UInt8} (c : Cursor) : ¬ Behind 0 next c := fun behind =>
  not_under_zero c behind.1

/-- A reader that takes a byte may be used where none has to be taken. -/
theorem Runs.slack (eats : Runs (fun n => P (n + 1)) r fun n _ => Under n) (void : ∀ c, ¬ P 0 c) :
    Runs P r fun n _ => Under n := fun n more ending => by
  cases n with
  | zero =>
    exact ⟨fun start => absurd start (void _), fun start => absurd start (void _), fun start => absurd start (void _)⟩
  | succ n => exact (eats n more ending).imp (fun _ => id) fun _ _ => Under.succ

theorem Eats.stays (eats : Eats r) : Stays r := Runs.slack eats not_under_zero

theorem Stays.later (stays : Stays r) : Runs (fun n => Under (n + 1)) r fun n _ => Under (n + 1) :=
  fun n => stays (n + 1)

end

/-! ## Bytes -/

@[simp] theorem extended_rest (c : Cursor) (more : Bytes) (ending : Ending) :
    (c.extended more ending).rest = c.rest ++ more := rfl

@[simp] theorem past_extended (c : Cursor) (b : UInt8) (bs more : Bytes) (ending : Ending) :
    (c.extended more ending).past b (bs ++ more) = (c.past b bs).extended more ending := by
  unfold Cursor.past
  split <;> rfl

/-- What can be next: a byte, the end, or the failure of the source. -/
theorem next_cases (c : Cursor) :
    (∃ b bs, c.rest = b :: bs ∧ peek c = .ok (some b, { c with looked := true }) ∧ take c = .ok (some b, c.past b bs)) ∨
      (c.ending = .stop ∧ peek c = .ok (none, c) ∧ take c = .ok (none, c)) ∨
      ∃ e, c.ending = .fail e ∧ peek c = .error (.source e) ∧ take c = .error (.source e) := by
  unfold peek take
  cases rest : c.rest with
  | cons b bs => exact Or.inl ⟨b, bs, rfl, rfl, rfl⟩
  | nil =>
    cases ending : c.ending with
    | stop => exact Or.inr (Or.inl ⟨rfl, rfl, rfl⟩)
    | fail e => exact Or.inr (Or.inr ⟨e, rfl, rfl, rfl⟩)

theorem extended_cons {c : Cursor} {b : UInt8} {bs : Bytes} (rest : c.rest = b :: bs) (more : Bytes)
    (ending : Ending) : (c.extended more ending).rest = b :: (bs ++ more) := by
  rw [extended_rest, rest]
  rfl

theorem peek_of_rest {c : Cursor} {b : UInt8} {bs : Bytes} (rest : c.rest = b :: bs) :
    peek c = .ok (some b, { c with looked := true }) := by
  unfold peek
  rw [rest]

theorem peek_of_end {c : Cursor} {e : Disk.IoError} (rest : c.rest = []) (failing : c.ending = .fail e) :
    peek c = .error (.source e) := by
  unfold peek
  rw [rest, failing]

theorem take_of_rest {c : Cursor} {b : UInt8} {bs : Bytes} (rest : c.rest = b :: bs) :
    take c = .ok (some b, c.past b bs) := by
  unfold take
  rw [rest]

theorem Under.past {n : Nat} {c : Cursor} {b : UInt8} {bs : Bytes} (rest : c.rest = b :: bs) (under : Under (n + 1) c) :
    Under n (c.past b bs) := by
  rw [Under, rest] at under
  rw [Under, rest_past]
  exact Nat.lt_of_succ_lt_succ under

theorem runs_peek : Runs (fun n => Under n) peek fun n next => Behind n next := fun n more ending => by
  constructor
  · intro c next d under ran
    rcases next_cases c with ⟨b, bs, rest, looked, -⟩ | ⟨stop, looked, -⟩ | ⟨e, -, looked, -⟩
    · cases looked.symm.trans ran
      exact ⟨⟨under, fun _ => rest ▸ List.cons_ne_nil b bs⟩, rfl, fun _ _ => peek_of_rest (extended_cons rest _ _)⟩
    · cases looked.symm.trans ran
      exact ⟨⟨under, nofun⟩, rfl, fun e failing => nomatch stop.symm.trans failing⟩
    · cases looked.symm.trans ran
  · rintro c - ⟨p, line, column, ran⟩
    rcases next_cases c with ⟨b, bs, -, looked, -⟩ | ⟨-, looked, -⟩ | ⟨e, -, looked, -⟩ <;>
      cases looked.symm.trans ran
  · intro c e _ ran
    rcases next_cases c with ⟨b, bs, -, looked, -⟩ | ⟨-, looked, -⟩ | ⟨e', failing, looked, -⟩ <;>
      cases looked.symm.trans ran
    exact failing

/-- A byte that is taken is one less that is left. -/
theorem runs_take : Runs (fun n => Under (n + 1)) take fun n next c => next.isSome = true → Under n c :=
  fun n more ending => by
    constructor
    · intro c next d under ran
      rcases next_cases c with ⟨b, bs, rest, -, taken⟩ | ⟨stop, -, taken⟩ | ⟨e, -, -, taken⟩
      · cases taken.symm.trans ran
        refine ⟨fun _ => under.past rest, ending_past c b bs, fun e _ => ?_⟩
        rw [take_of_rest (extended_cons rest more ending), past_extended]
      · cases taken.symm.trans ran
        exact ⟨nofun, rfl, fun e failing => nomatch stop.symm.trans failing⟩
      · cases taken.symm.trans ran
    · rintro c - ⟨p, line, column, ran⟩
      rcases next_cases c with ⟨b, bs, -, -, taken⟩ | ⟨-, -, taken⟩ | ⟨e, -, -, taken⟩ <;>
        cases taken.symm.trans ran
    · intro c e _ ran
      rcases next_cases c with ⟨b, bs, -, -, taken⟩ | ⟨-, -, taken⟩ | ⟨e', failing, -, taken⟩ <;>
        cases taken.symm.trans ran
      exact failing

/-- A byte that was seen is dropped. -/
theorem eats_drop (b : UInt8) : Runs (fun n => Behind (n + 1) (some b)) drop fun n _ => Under n :=
  fun n more ending => by
    constructor
    · rintro c a d ⟨under, some⟩ ran
      obtain ⟨b, bs, rest⟩ := List.exists_cons_of_ne_nil (some rfl)
      have skipped : c.skip = c.past b bs := by rw [Cursor.skip, rest]
      cases ran
      rw [skipped]
      refine ⟨under.past rest, ending_past c b bs, fun e _ => ?_⟩
      rw [drop, Cursor.skip, extended_cons rest]
      simp only [past_extended]
    · rintro c - ⟨p, line, column, ran⟩
      cases ran
    · intro c e _ ran
      cases ran

theorem stays_drop (b : UInt8) : Runs (fun n => Behind n (some b)) drop fun n _ => Under n :=
  (eats_drop b).slack not_behind_zero

theorem runs_word (w : Bytes) : Stays (word w) := by
  induction w with
  | nil => exact stays_pure ()
  | cons b w ih =>
    refine Runs.slack (runs_take.bind fun next => ?_) not_under_zero
    cases next with
    | none => exact runs_failHere _
    | some found => exact runs_ite (fun _ => ih.before fun n c left => left rfl) fun _ => runs_failHere _

/-- A word that starts with a byte that was seen. -/
theorem eats_word {α : Type} {b : UInt8} {w : Bytes} {f : Unit → Reading α} {Q : Nat → α → Cursor → Prop}
    (rest : ∀ u, Runs (fun n => Under n) (f u) Q) :
    Runs (fun n => Behind (n + 1) (some b)) (drop >>= fun _ => word w >>= f) Q :=
  (eats_drop b).bind fun _ => (runs_word w).bind rest

/-! ## Moving on and looking -/

def looking {γ : Type} (go : Cursor → γ × Cursor) : Reading (γ × Option UInt8) := fun c =>
  match peek (go c).2 with
  | .ok (next, d) => .ok (((go c).1, next), d)
  | .error e => .error e

/-- Whether a move goes by the bytes that it passes and the one where it stops. -/
structure Moves {γ : Type} (go : Cursor → γ × Cursor) : Prop where
  ending : ∀ c, (go c).2.ending = c.ending
  shorter : ∀ c, (go c).2.rest.length ≤ c.rest.length
  onward : ∀ c more ending, (go c).2.rest ≠ [] →
    go (c.extended more ending) = ((go c).1, (go c).2.extended more ending)

theorem looking_cases {γ : Type} (go : Cursor → γ × Cursor) (c : Cursor) :
    (∃ e, peek (go c).2 = .error e ∧ looking go c = .error e) ∨
      ∃ next d, peek (go c).2 = .ok (next, d) ∧ looking go c = .ok (((go c).1, next), d) := by
  unfold looking
  rcases peek (go c).2 with e | ⟨next, d⟩
  · exact Or.inl ⟨e, rfl, rfl⟩
  · exact Or.inr ⟨next, d, rfl, rfl⟩

theorem not_refused_peek (c : Cursor) : ¬ Refused (peek c) := by
  rintro ⟨p, line, column, ran⟩
  rcases next_cases c with ⟨b, bs, -, looked, -⟩ | ⟨-, looked, -⟩ | ⟨e, -, looked, -⟩ <;>
    cases looked.symm.trans ran

theorem not_refused_looking {γ : Type} (go : Cursor → γ × Cursor) (c : Cursor) : ¬ Refused (looking go c) := by
  rintro ⟨p, line, column, ran⟩
  rcases looking_cases go c with ⟨e, read, whole⟩ | ⟨next, d, -, whole⟩ <;> cases whole.symm.trans ran
  exact not_refused_peek _ ⟨p, line, column, read⟩

theorem runs_looking {γ : Type} {go : Cursor → γ × Cursor} (moves : Moves go) :
    Runs (fun n => Under n) (looking go) fun n found => Behind n found.2 := fun n more ending => by
  have peeks := runs_peek n more ending
  constructor
  · intro c found d under ran
    rcases looking_cases go c with ⟨e, -, whole⟩ | ⟨next, d, read, whole⟩ <;> cases whole.symm.trans ran
    obtain ⟨there, same, onward⟩ := peeks.ok (Nat.lt_of_le_of_lt (moves.shorter c) under) read
    refine ⟨there, same.trans (moves.ending c), fun e failing => ?_⟩
    have failing := (moves.ending c).trans failing
    -- Where the source fails, the look was at a byte that was there.
    have some : (go c).2.rest ≠ [] := fun rest => nomatch (peek_of_end rest failing).symm.trans read
    unfold looking
    rw [moves.onward c more ending some, onward e failing]
  · intro c _ refused
    exact absurd refused (not_refused_looking go c)
  · intro c e under ran
    rcases looking_cases go c with ⟨e', read, whole⟩ | ⟨next, d, -, whole⟩ <;> cases whole.symm.trans ran
    exact (moves.ending c).symm.trans (peeks.source (Nat.lt_of_le_of_lt (moves.shorter c) under) read)

def overBlanks (c : Cursor) : Unit × Cursor := ((), pastBlanks c c.rest)

theorem moves_overBlanks : Moves overBlanks := by
  have all (bs : Bytes) (c : Cursor) (rest : c.rest = bs) : (pastBlanks c bs).ending = c.ending ∧
      (pastBlanks c bs).rest.length ≤ bs.length ∧ ∀ more ending, (pastBlanks c bs).rest ≠ [] →
        pastBlanks (c.extended more ending) (bs ++ more) = (pastBlanks c bs).extended more ending := by
    induction bs generalizing c with
    | nil => exact ⟨rfl, Nat.le_of_eq (congrArg List.length rest), fun _ _ some => absurd rest some⟩
    | cons b bs ih =>
      obtain ⟨same, shorter, onward⟩ := ih (c.past b bs) (rest_past c b bs)
      by_cases blank : isBlank b = true
      · simp only [List.cons_append, pastBlanks, blank, if_true, past_extended]
        exact ⟨same.trans (ending_past c b bs), Nat.le_succ_of_le shorter, onward⟩
      · simp only [List.cons_append, pastBlanks, blank]
        exact ⟨rfl, Nat.le_of_eq (congrArg List.length rest), fun _ _ _ => rfl⟩
  exact ⟨fun c => (all _ c rfl).1, fun c => (all _ c rfl).2.1,
    fun c more ending some => congrArg (Prod.mk ()) ((all _ c rfl).2.2 more ending some)⟩

theorem runs_blanks : Runs (fun n => Under n) blanks fun n next => Behind n next := by
  have same : blanks = looking overBlanks >>= fun found => pure found.2 := by
    funext c
    rcases looking_cases overBlanks c with ⟨e, read, whole⟩ | ⟨next, d, read, whole⟩
    · rw [bind_apply, whole]
      exact read
    · rw [bind_apply, whole]
      exact read
  rw [same]
  exact (runs_looking moves_overBlanks).bind fun found => runs_pure fun n c => id

def overDigits (c : Cursor) : Bytes × Cursor := digitsFrom c c.rest

theorem digitsFrom_spec (bs : Bytes) (c : Cursor) (rest : c.rest = bs) : (digitsFrom c bs).2.ending = c.ending ∧
    (digitsFrom c bs).2.rest.length ≤ bs.length ∧ ∀ more ending,
      (digitsFrom c bs).1 <+: (digitsFrom (c.extended more ending) (bs ++ more)).1 ∧
      ((digitsFrom c bs).2.rest ≠ [] → digitsFrom (c.extended more ending) (bs ++ more) =
        ((digitsFrom c bs).1, (digitsFrom c bs).2.extended more ending)) := by
  induction bs generalizing c with
  | nil =>
    exact ⟨rfl, Nat.le_of_eq (congrArg List.length rest), fun _ _ => ⟨List.nil_prefix, fun some => absurd rest some⟩⟩
  | cons b bs ih =>
    obtain ⟨same, shorter, onward⟩ := ih (c.past b bs) (rest_past c b bs)
    by_cases digit : Decimal.isDigit b = true
    · simp only [List.cons_append, digitsFrom, digit, if_true, past_extended]
      refine ⟨same.trans (ending_past c b bs), Nat.le_succ_of_le shorter, fun more ending => ?_⟩
      obtain ⟨begins, onward⟩ := onward more ending
      exact ⟨List.cons_prefix_cons.mpr ⟨rfl, begins⟩, fun some => by rw [onward some]⟩
    · simp only [List.cons_append, digitsFrom, digit]
      exact ⟨rfl, Nat.le_of_eq (congrArg List.length rest), fun _ _ => ⟨List.nil_prefix, fun _ => rfl⟩⟩

theorem moves_overDigits : Moves overDigits :=
  ⟨fun c => (digitsFrom_spec _ c rfl).1, fun c => (digitsFrom_spec _ c rfl).2.1,
    fun c more ending some => ((digitsFrom_spec _ c rfl).2.2 more ending).2 some⟩

theorem digits_eq : digits = looking overDigits := by
  funext c
  unfold digits looking overDigits
  rfl

theorem runs_digits : Runs (fun n => Under n) digits fun n found => Behind n found.2 :=
  digits_eq ▸ runs_looking moves_overDigits

/-! ## Loops -/

/-- A loop takes a byte in each round, so that the rounds left over make no difference. -/
theorem follows_rounds {ι α : Type} {more : Bytes} {ending : Ending} {f : Nat → ι → Reading α}
    (round : ∀ k n m, (∀ i, Follows more ending (Under k) (f n i) (f m i) fun _ => Under k) →
      ∀ i, Follows more ending (Under (k + 1)) (f (n + 1) i) (f (m + 1) i) fun _ => Under (k + 1))
    {k n m : Nat} (enough : k ≤ n) (enough' : k ≤ m) (i : ι) :
    Follows more ending (Under k) (f n i) (f m i) fun _ => Under k := by
  -- By the bytes that are left: a round leaves fewer, and both loops have a round for each.
  induction k generalizing n m i with
  | zero =>
    exact ⟨fun start => absurd start (not_under_zero _), fun start => absurd start (not_under_zero _),
      fun start => absurd start (not_under_zero _)⟩
  | succ k ih =>
    obtain ⟨n, rfl⟩ := Nat.exists_eq_add_one_of_ne_zero (Nat.ne_of_gt (Nat.zero_lt_of_lt enough))
    obtain ⟨m, rfl⟩ := Nat.exists_eq_add_one_of_ne_zero (Nat.ne_of_gt (Nat.zero_lt_of_lt enough'))
    exact round k n m (ih (Nat.le_of_succ_le_succ enough) (Nat.le_of_succ_le_succ enough')) i

/-- A loop may have as many rounds as bytes are left. -/
theorem stays_sized {α : Type} {f : Nat → Reading α}
    (each : ∀ more ending k n m, k ≤ n → k ≤ m →
      Follows more ending (Under k) (f n) (f m) fun _ => Under k) :
    Stays fun c => f (c.rest.length + 1) c := fun n more ending => by
  -- The longer source has more bytes left, so that its loop is given more rounds.
  have here (c : Cursor) := each more ending (c.rest.length + 1) (c.rest.length + 1)
    ((c.extended more ending).rest.length + 1) (Nat.le_refl _)
    (by rw [extended_rest, List.length_append]; omega)
  have start (c : Cursor) : Under (c.rest.length + 1) c := Nat.lt_succ_self _
  constructor
  · intro c a d under ran
    obtain ⟨there, same, onward⟩ := (here c).ok (start c) ran
    exact ⟨Nat.lt_of_lt_of_le there under, same, onward⟩
  · exact fun _ refused => (here _).bad (start _) refused
  · exact fun _ ran => (here _).source (start _) ran

/-- A byte may be dropped before a reader goes on. -/
theorem runs_dropIf {α : Type} {p : Prop} [Decidable p] {next : Option UInt8} (some : p → next.isSome = true)
    {f : Unit → Reading α} {g : Nat → Nat} {Q : Nat → α → Cursor → Prop}
    (rest : ∀ u, Runs (fun n => Under (g n)) (f u) Q) :
    Runs (fun n => Behind (g n) next) (if p then drop >>= f else f ()) Q := by
  refine runs_ite (fun holds => ?_) fun _ => (rest ()).before fun _ _ => And.left
  obtain ⟨b, rfl⟩ := Option.isSome_iff_exists.mp (some holds)
  exact Runs.bind (fun n => stays_drop b (g n)) rest

end Reading

end DurableValue.Json
