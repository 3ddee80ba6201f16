/-
  DurableValue.Proofs.Json.Gives — what a reader can give at all.

  Whatever the bytes of a source that just ends, a reader gives values of some kind, or complains of the bytes
  (`Gives`). A value that is read holds its members in order, its whole numbers are of 64 bits, and its containers are
  nested less deep than the reader allows.

  Proved:
  - `gives_value`, `gives_document`: this for each reader, from what it is for its parts.
  - `Value.exact_of_parse`: a value that is read and has no float in it can be written and read again without loss.
  - `corrupt_of_decode`: bytes that are no document are corrupt, and nothing else is wrong with them.
-/
import DurableValue.Proofs.Json.Onward
import DurableValue.Proofs.Json.Roundtrip

namespace DurableValue.Json

namespace Reading

variable {α β : Type} {P : α → Prop} {Q : β → Prop} {r : Reading α} {f : α → Reading β}

/-- Whether a reader gives nothing but what `P` allows, at a source that just ends, and complains of the bytes if it
gives nothing. -/
def Gives (P : α → Prop) (r : Reading α) : Prop :=
  ∀ c : Cursor, c.ending = .stop →
    (∃ a c', r c = .ok (a, c') ∧ P a ∧ c'.ending = .stop) ∨ ∃ p line column, r c = .error (.bad p line column)

abbrev Sane (r : Reading α) : Prop := Gives (fun _ => True) r

theorem Gives.bind (first : Gives P r) (second : ∀ a, P a → Gives Q (f a)) : Gives Q (r >>= f) := by
  intro c stop
  rw [bind_apply]
  rcases first c stop with ⟨a, c', ran, given, stop'⟩ | ⟨p, line, column, ran⟩
  · rw [ran]
    exact second a given c' stop'
  · rw [ran]
    exact Or.inr ⟨p, line, column, rfl⟩

theorem gives_pure {a : α} (given : P a) : Gives P (pure a) := fun c stop => Or.inl ⟨a, c, rfl, given, stop⟩

theorem gives_failHere (p : Problem) : Gives P (failHere p) := fun _ _ => Or.inr ⟨_, _, _, rfl⟩

theorem gives_failAhead (p : Problem) : Gives P (failAhead p) := fun _ _ => Or.inr ⟨_, _, _, rfl⟩

/-- A reader may look at where it stands before it starts. -/
theorem gives_at {r : Cursor → Reading α} (gives : ∀ c, Gives P (r c)) : Gives P fun c => r c c :=
  fun c stop => gives c c stop

theorem gives_ite {p : Prop} [Decidable p] {r r' : Reading α} (yes : p → Gives P r) (no : ¬ p → Gives P r') :
    Gives P (if p then r else r') := by
  split
  · exact yes ‹_›
  · exact no ‹_›

/-- A reader that follows itself gives something or complains: only a source that fails can stop it otherwise. -/
theorem Runs.sane {P : Nat → Cursor → Prop} {Q : Nat → α → Cursor → Prop} (runs : Runs P r Q)
    (start : ∀ c, ∃ n, P n c) : Sane r := by
  intro c stop
  obtain ⟨n, there⟩ := start c
  have follows := runs n [] .stop
  rcases ran : r c with (⟨p, line, column⟩ | e) | ⟨a, d⟩
  · exact Or.inr ⟨p, line, column, rfl⟩
  · cases (follows.source there ran).symm.trans stop
  · exact Or.inl ⟨a, d, rfl, trivial, (follows.ok there ran).2.1.trans stop⟩

theorem under_some (c : Cursor) : ∃ n, Under n c := ⟨_, Nat.lt_succ_self _⟩

theorem sane_peek : Sane peek := runs_peek.sane under_some

theorem sane_take : Sane take := runs_take.sane fun _ => ⟨_, Nat.lt_succ_self _⟩

theorem sane_drop : Sane drop := by
  intro c stop
  refine Or.inl ⟨(), c.skip, rfl, trivial, ?_⟩
  unfold Cursor.skip
  split
  · exact stop
  · exact (ending_past c _ _).trans stop

/-- A byte may be dropped before a reader goes on. -/
theorem gives_dropIf {p : Prop} [Decidable p] {f : Unit → Reading α} (gives : ∀ u, Gives P (f u)) :
    Gives P (if p then drop >>= f else f ()) :=
  gives_ite (fun _ => sane_drop.bind fun u _ => gives u) fun _ => gives ()

theorem gives_get : Gives (fun c : Cursor => c.ending = .stop) (get : Reading Cursor) :=
  fun c stop => Or.inl ⟨c, c, rfl, stop, stop⟩

theorem sane_set {c : Cursor} (stop : c.ending = .stop) : Sane (set c : Reading PUnit) :=
  fun _ _ => Or.inl ⟨⟨⟩, c, rfl, trivial, stop⟩

theorem sane_blanks : Sane blanks := runs_blanks.sane under_some

theorem sane_word (w : Bytes) : Sane (word w) := (runs_word w).sane under_some

theorem sane_digits : Sane digits := runs_digits.sane under_some

end Reading

open Reading

/-! ## Numbers -/

mutual

def Value.isFloatless : Value → Bool
  | .float _ => false
  | .array items => areFloatless items
  | .object members => areFloatlessMembers members
  | _ => true

def Value.areFloatless : List Value → Bool
  | [] => true
  | v :: vs => v.isFloatless && areFloatless vs

def Value.areFloatlessMembers : List (String × Value) → Bool
  | [] => true
  | (_, v) :: ms => v.isFloatless && areFloatlessMembers ms

end

/-- Whether a value can come from a text in which `levels` containers may stand in each other: it is nested less deep,
and programs hold it as it is, floats apart. -/
structure Value.Given (levels : Nat) (v : Value) : Prop where
  exact : v.isFloatless = true → v.Exact
  shallow : v.nesting < levels

namespace Number

variable {levels : Nat}

theorem given_signed (negative : Bool) (x : Decimal.Binary64) : (signed negative x).Given (levels + 1) :=
  ⟨nofun, Nat.succ_pos levels⟩

theorem given_whole {n : Nat} (fits : n < Nat.pow 2 64) (negative : Bool) : (whole negative n).Given (levels + 1) := by
  have least : Decimal.signedLeast = -9223372036854775808 := by decide
  have bound : Int.pow 2 64 = 18446744073709551616 := by decide
  have limit : Nat.pow 2 64 = 18446744073709551616 := by decide
  have half : Nat.pow 2 63 = 9223372036854775808 := by decide
  cases negative with
  | false => exact ⟨fun _ => by change _ ∧ _; omega, Nat.succ_pos levels⟩
  | true =>
    unfold whole
    rw [if_neg (by decide)]
    split
    · exact ⟨nofun, Nat.succ_pos levels⟩
    · exact ⟨fun _ => by change _ ∧ _; omega, Nat.succ_pos levels⟩

theorem absorb_lt {n : Nat} (fits : n < Nat.pow 2 64) (ds : Bytes) : (absorb n ds).1 < Nat.pow 2 64 := by
  induction ds generalizing n with
  | nil => exact fits
  | cons d ds ih =>
    unfold absorb
    simp only []
    split
    · exact ih ‹_›
    · exact fits

theorem gives_fromParts (negative : Bool) (significand : Nat) (exponent : Int) :
    Gives (Value.Given (levels + 1)) (fromParts negative significand exponent) := by
  unfold fromParts
  split
  · exact gives_pure (given_signed negative _)
  · exact gives_failHere _

theorem gives_readExponent (negative : Bool) (significand : Nat) (exponent : Int) :
    Gives (Value.Given (levels + 1)) (readExponent negative significand exponent) := by
  refine sane_drop.bind fun _ _ => sane_peek.bind fun sign _ => ?_
  dsimp only
  refine gives_dropIf fun _ => sane_take.bind fun next _ => ?_
  cases next with
  | none => exact gives_failHere _
  | some d =>
    refine gives_ite (fun _ => gives_failHere _) fun _ => gives_get.bind fun start stop => ?_
    split
    · refine gives_ite (fun _ => ?_) fun _ => ?_
      · exact Gives.bind (sane_set (by exact stop)) fun _ _ => gives_failHere _
      exact sane_digits.bind fun _ _ => gives_pure (given_signed negative _)
    · exact sane_digits.bind fun _ _ => gives_fromParts _ _ _

theorem gives_readFraction (negative : Bool) (significand : Nat) (exponent : Int) :
    Gives (Value.Given (levels + 1)) (readFraction negative significand exponent) := by
  refine sane_drop.bind fun _ _ => sane_digits.bind fun found _ => ?_
  refine gives_ite (fun _ => gives_failAhead _) fun _ => ?_
  exact gives_ite (fun _ => gives_readExponent _ _ _) fun _ => gives_fromParts _ _ _

theorem gives_readRest (negative : Bool) {significand : Nat} (fits : significand < Nat.pow 2 64) (dropped : Nat)
    (next : Option UInt8) : Gives (Value.Given (levels + 1)) (readRest negative significand dropped next) := by
  refine gives_ite (fun _ => gives_readFraction _ _ _) fun _ => ?_
  refine gives_ite (fun _ => gives_readExponent _ _ _) fun _ => ?_
  exact gives_ite (fun _ => gives_pure (given_whole fits negative)) fun _ => gives_fromParts _ _ _

theorem gives_read (negative : Bool) : Gives (Value.Given (levels + 1)) (read negative) := by
  have zero : 0 < Nat.pow 2 64 := by decide
  refine sane_take.bind fun next _ => ?_
  cases next with
  | none => exact gives_failHere _
  | some d =>
    dsimp only
    refine gives_ite (fun _ => sane_peek.bind fun next _ => ?_) fun _ => ?_
    · exact gives_ite (fun _ => gives_failAhead _) fun _ => gives_readRest negative zero 0 next
    · refine gives_ite (fun _ => sane_digits.bind fun found _ => ?_) fun _ => gives_failHere _
      exact gives_readRest negative (absorb_lt zero _) _ _

end Number

/-! ## Lists and objects -/

namespace Value

theorem areFloatless_iff {vs : List Value} : areFloatless vs = true ↔ ∀ v ∈ vs, v.isFloatless = true := by
  induction vs with
  | nil => simp [areFloatless]
  | cons v vs ih => rw [areFloatless, Bool.and_eq_true, ih, List.forall_mem_cons]

theorem areFloatlessMembers_iff {ms : List (String × Value)} :
    areFloatlessMembers ms = true ↔ ∀ m ∈ ms, m.2.isFloatless = true := by
  induction ms with
  | nil => simp [areFloatlessMembers]
  | cons m ms ih => rw [areFloatlessMembers, Bool.and_eq_true, ih, List.forall_mem_cons]

variable {levels : Nat}

theorem nestingItems_lt {vs : List Value} (room : 0 < levels) (shallow : ∀ v ∈ vs, v.nesting < levels) :
    nestingItems vs < levels := by
  induction vs with
  | nil => exact room
  | cons v vs ih =>
    obtain ⟨here, rest⟩ := List.forall_mem_cons.mp shallow
    exact Nat.max_lt.mpr ⟨here, ih rest⟩

theorem nestingMembers_lt {ms : List (String × Value)} (room : 0 < levels) (shallow : ∀ m ∈ ms, m.2.nesting < levels) :
    nestingMembers ms < levels := by
  induction ms with
  | nil => exact room
  | cons m ms ih =>
    obtain ⟨here, rest⟩ := List.forall_mem_cons.mp shallow
    exact Nat.max_lt.mpr ⟨here, ih rest⟩

theorem given_array {vs : List Value} (room : levels ≠ 0) (all : ∀ v ∈ vs, v.Given levels) :
    (Value.array vs).Given (levels + 1) := by
  refine ⟨fun floatless => exactItems_iff.mpr fun v mem => ?_, Nat.succ_lt_succ ?_⟩
  · exact (all v mem).exact (areFloatless_iff.mp floatless v mem)
  · exact nestingItems_lt (Nat.pos_of_ne_zero room) fun v mem => (all v mem).shallow

def Sorted {α : Type} (ms : List (String × α)) : Prop := (ms.map (·.1)).Pairwise (· < ·)

theorem given_object {ms : List (String × Value)} (room : levels ≠ 0) (sorted : Sorted ms)
    (all : ∀ m ∈ ms, m.2.Given levels) : (Value.object ms).Given (levels + 1) := by
  refine ⟨fun floatless => ⟨sorted, exactMembers_iff.mpr fun m mem => ?_⟩, Nat.succ_lt_succ ?_⟩
  · exact (all m mem).exact (areFloatlessMembers_iff.mp floatless m mem)
  · exact nestingMembers_lt (Nat.pos_of_ne_zero room) fun m mem => (all m mem).shallow

theorem mem_insert {α : Type} {k : String} {v : α} {ms : List (String × α)} {m : String × α}
    (mem : m ∈ insert k v ms) : m = (k, v) ∨ m ∈ ms := by
  induction ms with
  | nil => exact Or.inl (List.mem_singleton.mp mem)
  | cons n ms ih =>
    unfold insert at mem
    split at mem
    · exact List.mem_cons.mp mem
    · split at mem
      · exact (List.mem_cons.mp mem).imp_right (List.mem_cons_of_mem n)
      · rcases List.mem_cons.mp mem with rfl | mem
        · exact Or.inr List.mem_cons_self
        · exact (ih mem).imp_right (List.mem_cons_of_mem n)

/-- A member is put in its place. -/
theorem sorted_insert {α : Type} {ms : List (String × α)} (sorted : Sorted ms) (k : String) (v : α) :
    Sorted (insert k v ms) := by
  induction ms with
  | nil => exact List.pairwise_singleton _ _
  | cons n ms ih =>
    obtain ⟨below, rest⟩ := List.pairwise_cons.mp sorted
    unfold insert
    split
    · rename_i first
      refine List.pairwise_cons.mpr ⟨fun l mem => ?_, sorted⟩
      rcases List.mem_cons.mp mem with rfl | mem
      · exact first
      · exact String.lt_trans first (below l mem)
    · rename_i notFirst
      split
      · rename_i same
        exact List.pairwise_cons.mpr ⟨fun l mem => same ▸ below l mem, rest⟩
      · rename_i other
        refine List.pairwise_cons.mpr ⟨fun l mem => ?_, ih rest⟩
        obtain ⟨m, among, rfl⟩ := List.mem_map.mp mem
        rcases mem_insert among with rfl | among
        · exact Std.lt_of_le_of_ne (String.not_lt.mp notFirst) (Ne.symm other)
        · exact below m.1 (List.mem_map_of_mem among)

end Value

namespace Reader

variable {α : Type} {P : α → Prop} {item : Reading α} {levels : Nat}

/-- Every item of a list is one that its reader gives. -/
theorem gives_items (each : Gives P item) (rounds : Nat) (first : Bool) :
    Gives (fun vs => ∀ v ∈ vs, P v) (items item rounds first) := by
  induction rounds generalizing first with
  | zero => exact gives_failAhead _
  | succ rounds ih =>
    refine ((stays_anotherItem first).sane under_some).bind fun another _ => gives_ite (fun _ => ?_) fun _ => ?_
    · exact each.bind fun v given => (ih false).bind fun vs all => gives_pure (List.forall_mem_cons.mpr ⟨given, all⟩)
    · exact gives_pure (List.forall_mem_nil P)

/-- The members of an object come in the order of their keys. -/
theorem gives_members (each : Gives P item) (rounds : Nat) (first : Bool) {found : List (String × α)}
    (sorted : Value.Sorted found) (all : ∀ m ∈ found, P m.2) :
    Gives (fun ms => Value.Sorted ms ∧ ∀ m ∈ ms, P m.2) (members item rounds first found) := by
  induction rounds generalizing first found with
  | zero => exact gives_failAhead _
  | succ rounds ih =>
    refine ((runs_anotherKey first).sane under_some).bind fun another _ => gives_ite (fun _ => ?_) fun _ =>
      gives_pure ⟨sorted, all⟩
    have sane_key : Sane key := sane_drop.bind fun _ _ => Literal.stays_read.sane under_some
    refine sane_key.bind fun k _ => (stays_colon.sane under_some).bind fun _ _ => each.bind fun v given => ?_
    refine ih false (Value.sorted_insert sorted k v) fun m mem => ?_
    rcases Value.mem_insert mem with rfl | mem
    · exact given
    · exact all m mem

theorem gives_list (each : Gives P item) : Gives (fun vs => ∀ v ∈ vs, P v) (list item) := by
  refine sane_drop.bind fun _ _ => (gives_at fun c => gives_items each _ _).bind fun vs all => ?_
  exact (stays_endList.sane under_some).bind fun _ _ => gives_pure all

theorem gives_object (each : Gives P item) :
    Gives (fun ms => Value.Sorted ms ∧ ∀ m ∈ ms, P m.2) (object item) := by
  have none : Value.Sorted ([] : List (String × α)) := List.Pairwise.nil
  refine sane_drop.bind fun _ _ =>
    (gives_at fun c => gives_members each _ _ none (List.forall_mem_nil _)).bind fun ms all => ?_
  exact (stays_endObject.sane under_some).bind fun _ _ => gives_pure all

/-! ## Values -/

theorem gives_value (levels : Nat) : Gives (Value.Given levels) (value levels) := by
  induction levels with
  | zero => exact gives_failAhead _
  | succ levels ih =>
    have plain {v : Value} (exact : v.isFloatless = true → v.Exact) (flat : v.nesting = 0) :
        v.Given (levels + 1) := ⟨exact, flat ▸ Nat.succ_pos levels⟩
    refine sane_blanks.bind fun next _ => ?_
    cases next with
    | none => exact gives_failAhead _
    | some b =>
      refine gives_ite (fun _ => ?_) fun _ => gives_ite (fun _ => ?_) fun _ => gives_ite (fun _ => ?_) fun _ => ?_
      · exact sane_drop.bind fun _ _ => (sane_word _).bind fun _ _ => gives_pure (plain (fun _ => trivial) rfl)
      · exact sane_drop.bind fun _ _ => (sane_word _).bind fun _ _ => gives_pure (plain (fun _ => trivial) rfl)
      · exact sane_drop.bind fun _ _ => (sane_word _).bind fun _ _ => gives_pure (plain (fun _ => trivial) rfl)
      refine gives_ite (fun _ => sane_drop.bind fun _ _ => Number.gives_read true) fun _ => ?_
      refine gives_ite (fun _ => Number.gives_read false) fun _ => gives_ite (fun _ => ?_) fun _ => ?_
      · exact sane_drop.bind fun _ _ => (Literal.stays_read.sane under_some).bind fun s _ =>
          gives_pure (plain (fun _ => trivial) rfl)
      refine gives_ite (fun _ => gives_ite (fun _ => gives_failAhead _) fun room => ?_) fun _ => ?_
      · exact (gives_list ih).bind fun vs all => gives_pure (Value.given_array room all)
      refine gives_ite (fun _ => gives_ite (fun _ => gives_failAhead _) fun room => ?_) fun _ => gives_failAhead _
      exact (gives_object ih).bind fun ms all => gives_pure (Value.given_object room all.1 all.2)

theorem gives_document (each : Gives P item) {c : Cursor} (stop : c.ending = .stop) :
    (∃ a, document item c = .ok a ∧ P a) ∨ ∃ p line column, document item c = .error (.bad p line column) := by
  have whole : Gives P (do let v ← item; finish; pure v) := by
    refine each.bind fun v given => Gives.bind (P := fun _ => True) (sane_blanks.bind fun next _ => ?_) fun _ _ =>
      gives_pure given
    cases next with
    | none => exact gives_pure trivial
    | some b => exact gives_failAhead _
  unfold document
  rcases whole c stop with ⟨a, c', ran, given, -⟩ | ⟨p, line, column, ran⟩ <;> rw [ran]
  · exact Or.inl ⟨a, rfl, given⟩
  · exact Or.inr ⟨p, line, column, rfl⟩

end Reader

/-- **A value that is read from a text and has no float in it can be written and read again without loss.** -/
theorem Value.exact_of_parse {text : String} {v : Value} (parsed : Value.parse text = .ok v)
    (floatless : v.isFloatless = true) : v.Exact ∧ v.nesting < Reader.depthLimit := by
  rcases Reader.gives_document (c := .whole (Text.encode text)) (Reader.gives_value Reader.depthLimit) rfl with
    ⟨w, read, given⟩ | ⟨p, line, column, failed⟩
  · cases parsed.symm.trans read
    exact ⟨given.exact floatless, given.shallow⟩
  · cases parsed.symm.trans failed

end DurableValue.Json

/-- **Bytes that do not decode are corrupt**, and not in error in any other way. -/
theorem DurableValue.Codec.corrupt_of_decode {bs : Bytes} {e : Codec.Error} (failed : Codec.json.decode bs = .error e) :
    e.isCorruption = true := by
  have decoded : Codec.json.decode bs =
    (Json.Reader.document Codec.json.read (.stream bs .stop)).mapError Codec.Format.errorOf := rfl
  rcases Json.Reader.gives_document (c := .stream bs .stop) (Json.Reader.gives_value Json.Reader.depthLimit) rfl with
    ⟨w, read, given⟩ | ⟨p, line, column, bad⟩
  · rw [decoded, show Json.Reader.document Codec.json.read _ = _ from read] at failed
    cases failed
  · rw [decoded, show Json.Reader.document Codec.json.read _ = _ from bad] at failed
    cases failed
    rfl
