/-
  DurableValue.Proofs.Json.Roundtrip — values read as they were written, as far as the reader goes.

  A value without floats is written without loss in both layouts. What the reader makes of the bytes depends on how
  deep its containers are nested.

  Proved:
  - `reads_value`: the bytes are read back to the value, if it is nested less deep than the reader allows.
  - `fails_value`: one that is nested deeper is written all the same, and what was written is refused.
  - `decode_encoded`, `decode_tooDeep`: the same of whole documents.
-/
import DurableValue.Codec.Json
import DurableValue.Proofs.Json.Literal
import DurableValue.Proofs.Json.Number

namespace DurableValue.Json

open Reading Reader Printer

namespace Value

mutual

/-- How many containers of a value stand in each other. -/
def nesting : Value → Nat
  | array items => nestingItems items + 1
  | object members => nestingMembers members + 1
  | _ => 0

def nestingItems : List Value → Nat
  | [] => 0
  | v :: vs => max v.nesting (nestingItems vs)

def nestingMembers : List (String × Value) → Nat
  | [] => 0
  | (_, v) :: ms => max v.nesting (nestingMembers ms)

end

mutual

/-- Whether a value is one that programs hold, and has no float in it: its whole numbers are of 64 bits, and the members
of its objects stand in the order of their keys, each key once. -/
def Exact : Value → Prop
  | null | bool _ | string _ => True
  | int n => Decimal.signedLeast ≤ n ∧ n < Int.pow 2 64
  | float _ => False
  | array items => ExactItems items
  | object members => (members.map (·.1)).Pairwise (· < ·) ∧ ExactMembers members

def ExactItems : List Value → Prop
  | [] => True
  | v :: vs => v.Exact ∧ ExactItems vs

def ExactMembers : List (String × Value) → Prop
  | [] => True
  | (_, v) :: ms => v.Exact ∧ ExactMembers ms

end

mutual

/-- Values without floats that are equal for programs are equal. -/
theorem eq_of_same : ∀ {v w : Value}, v.Exact → same v w = true → v = w
  | .null, .null, _, _ => rfl
  | .bool a, .bool b, _, alike => by rw [eq_of_beq (a := a) (b := b) alike]
  | .int a, .int b, _, alike => by rw [eq_of_beq (a := a) (b := b) alike]
  | .string a, .string b, _, alike => by rw [eq_of_beq (a := a) (b := b) alike]
  | .array _, .array _, exact, alike => by rw [eq_of_sameItems exact alike]
  | .object _, .object _, exact, alike => by rw [eq_of_sameMembers exact.2 alike]

theorem eq_of_sameItems : ∀ {vs ws : List Value}, ExactItems vs → sameItems vs ws = true → vs = ws
  | [], [], _, _ => rfl
  | v :: vs, w :: ws, exact, alike => by
    obtain ⟨first, rest⟩ := Bool.and_eq_true_iff.mp alike
    rw [eq_of_same exact.1 first, eq_of_sameItems exact.2 rest]

theorem eq_of_sameMembers : ∀ {ms ns : List (String × Value)}, ExactMembers ms → sameMembers ms ns = true → ms = ns
  | [], [], _, _ => rfl
  | (k, v) :: ms, (l, w) :: ns, exact, alike => by
    obtain ⟨first, rest⟩ := Bool.and_eq_true_iff.mp alike
    obtain ⟨key, value⟩ := Bool.and_eq_true_iff.mp first
    rw [eq_of_beq (a := k) (b := l) key, eq_of_same exact.1 value, eq_of_sameMembers exact.2 rest]

end

mutual

/-- A value without floats is equal to itself for programs. -/
theorem same_self : ∀ {v : Value}, v.Exact → same v v = true
  | .null, _ => rfl
  | .bool _, _ | .int _, _ | .string _, _ => beq_self_eq_true _
  | .array _, exact => sameItems_self exact
  | .object _, exact => sameMembers_self exact.2

theorem sameItems_self : ∀ {vs : List Value}, ExactItems vs → sameItems vs vs = true
  | [], _ => rfl
  | _ :: _, exact => Bool.and_eq_true_iff.mpr ⟨same_self exact.1, sameItems_self exact.2⟩

theorem sameMembers_self : ∀ {ms : List (String × Value)}, ExactMembers ms → sameMembers ms ms = true
  | [], _ => rfl
  | (k, _) :: _, exact => Bool.and_eq_true_iff.mpr
      ⟨Bool.and_eq_true_iff.mpr ⟨beq_self_eq_true k, same_self exact.1⟩, sameMembers_self exact.2⟩

end

theorem exactItems_iff {vs : List Value} : ExactItems vs ↔ ∀ v ∈ vs, v.Exact := by
  induction vs with
  | nil => exact ⟨fun _ => nofun, fun _ => trivial⟩
  | cons v vs ih => rw [ExactItems, ih, List.forall_mem_cons]

theorem exactMembers_iff {ms : List (String × Value)} : ExactMembers ms ↔ ∀ m ∈ ms, m.2.Exact := by
  induction ms with
  | nil => exact ⟨fun _ => nofun, fun _ => trivial⟩
  | cons m ms ih => rw [ExactMembers, ih, List.forall_mem_cons]

theorem nesting_le_items {vs : List Value} {v : Value} (mem : v ∈ vs) : v.nesting ≤ nestingItems vs := by
  induction mem with
  | head => exact Nat.le_max_left _ _
  | tail _ _ ih => exact Nat.le_trans ih (Nat.le_max_right _ _)

theorem nesting_le_members {ms : List (String × Value)} {m : String × Value} (mem : m ∈ ms) :
    m.2.nesting ≤ nestingMembers ms := by
  induction mem with
  | head => exact Nat.le_max_left _ _
  | tail _ _ ih => exact Nat.le_trans ih (Nat.le_max_right _ _)

/-- So many lists around null, each the only item of the next. -/
def wrapped : Nat → Value
  | 0 => .null
  | n + 1 => .array [wrapped n]

theorem nesting_wrapped (n : Nat) : (wrapped n).nesting = n := by
  induction n with
  | zero => rfl
  | succ n ih => simp only [wrapped, nesting, nestingItems, ih, Nat.max_zero]

theorem exact_wrapped (n : Nat) : (wrapped n).Exact := by
  induction n with
  | zero => trivial
  | succ n ih => exact ⟨ih, trivial⟩

/-- A member with the last of the keys stands at the end. -/
theorem insert_last {α : Type} {ms : List (String × α)} {k : String} (v : α) (last : ∀ m ∈ ms, m.1 < k) :
    insert k v ms = ms ++ [(k, v)] := by
  induction ms with
  | nil => rfl
  | cons m ms ih =>
    have below : m.1 < k := last m List.mem_cons_self
    have notAbove : ¬ k < m.1 := String.lt_asymm below
    have other : k ≠ m.1 := fun same => String.lt_irrefl k (same ▸ below)
    rw [insert, if_neg notAbove, if_neg other, ih fun x hx => last x (List.mem_cons_of_mem _ hx), List.cons_append]

end Value

/-! ## What is written -/

section

variable (layout : Layout) (depth : Nat)

theorem bytes_null : Text.encode "null" = [0x6E, 0x75, 0x6C, 0x6C] := Text.encode_ofList ['n', 'u', 'l', 'l']

theorem bytes_true : Text.encode "true" = [0x74, 0x72, 0x75, 0x65] := Text.encode_ofList ['t', 'r', 'u', 'e']

theorem bytes_false : Text.encode "false" = [0x66, 0x61, 0x6C, 0x73, 0x65] :=
  Text.encode_ofList ['f', 'a', 'l', 's', 'e']

/-- The bytes of a list: none of its layout shows if it is empty. -/
theorem bytes_array (vs : List Value) : (Printer.chunks layout depth (.array vs)).flatten =
    0x5B :: ((itemChunks layout (depth + 1) true vs).flatten ++
      ((if vs = [] then [] else closeLead layout depth) ++ [0x5D])) := by
  cases vs with
  | nil => rfl
  | cons v vs => simp [Printer.chunks]

theorem bytes_object (ms : List (String × Value)) : (Printer.chunks layout depth (.object ms)).flatten =
    0x7B :: ((memberChunks layout (depth + 1) true ms).flatten ++
      ((if ms = [] then [] else closeLead layout depth) ++ [0x7D])) := by
  cases ms with
  | nil => rfl
  | cons m ms => simp [Printer.chunks]

def Blank (lead : Bytes) : Prop := ∀ b ∈ lead, isBlank b = true

theorem blank_nil : Blank [] := nofun

theorem blank_newline : Blank (newline depth) := by
  intro b hb
  rcases List.mem_cons.mp hb with rfl | hb
  · rfl
  · cases List.eq_of_mem_replicate hb
    rfl

theorem blank_closeLead : Blank (closeLead layout depth) := by
  cases layout with
  | compact => exact nofun
  | pretty => exact blank_newline depth

theorem blank_close (empty : Prop) [Decidable empty] : Blank (if empty then [] else closeLead layout depth) := by
  split
  · exact nofun
  · exact blank_closeLead layout depth

/-- What stands before an item is a comma, unless it is the first, and then blanks. -/
theorem itemLead_eq (first : Bool) : ∃ lead, Blank lead ∧
    itemLead layout depth first = (if first then [] else [0x2C]) ++ lead := by
  cases layout with
  | compact => exact ⟨[], nofun, rfl⟩
  | pretty => exact ⟨newline depth, blank_newline depth, rfl⟩

def Begins (xs : Bytes) : Prop := ∃ b bs, xs = b :: bs ∧ isBlank b = false ∧ b ≠ 0x5D

theorem Begins.append {xs : Bytes} (begins : Begins xs) (ys : Bytes) : Begins (xs ++ ys) := by
  obtain ⟨b, bs, rfl, dark, other⟩ := begins
  exact ⟨b, bs ++ ys, rfl, dark, other⟩

/-- A digit is none of the bytes that mean something else. -/
theorem ne_of_isDigit {d : UInt8} (digit : Decimal.isDigit d = true) (b : UInt8) (other : Decimal.isDigit b = false) :
    d ≠ b := fun same => by
  rw [same, other] at digit
  cases digit

theorem dark_of_isDigit {d : UInt8} (digit : Decimal.isDigit d = true) : isBlank d = false := by
  simp [isBlank, ne_of_isDigit digit 0x20, ne_of_isDigit digit 0x0A, ne_of_isDigit digit 0x09,
    ne_of_isDigit digit 0x0D, Decimal.isDigit]

theorem begins_digits (n : Nat) : Begins (Decimal.ofNat n) := by
  obtain ⟨d, ds, same, digit, -⟩ := Decimal.ofNat_cons n
  exact ⟨d, ds, same, dark_of_isDigit digit, ne_of_isDigit digit _ (by decide)⟩

theorem begins_chunks {v : Value} (exact : v.Exact) : Begins (Printer.chunks layout depth v).flatten := by
  cases v with
  | null => exact ⟨0x6E, [0x75, 0x6C, 0x6C], by simp [Printer.chunks, bytes_null], by decide, by decide⟩
  | bool b =>
    cases b with
    | true => exact ⟨0x74, [0x72, 0x75, 0x65], by simp [Printer.chunks, bytes_true], by decide, by decide⟩
    | false => exact ⟨0x66, [0x61, 0x6C, 0x73, 0x65], by simp [Printer.chunks, bytes_false], by decide, by decide⟩
  | int n =>
    simp only [Printer.chunks, List.flatten_singleton, Decimal.ofInt]
    split
    · exact ⟨0x2D, _, rfl, by decide, by decide⟩
    · exact begins_digits _
  | float x => exact exact.elim
  | string s =>
    refine ⟨0x22, (Text.encode s).flatMap escapeByte ++ [0x22], ?_, by decide, by decide⟩
    simp [Printer.chunks, stringBytes, quoteByte]
  | array items => exact ⟨0x5B, _, bytes_array layout depth items, by decide, by decide⟩
  | object members => exact ⟨0x7B, _, bytes_object layout depth members, by decide, by decide⟩

end

/-! ## Items and members -/

section

variable {layout : Layout} {depth : Nat} {lead xs ys : Bytes}

theorem Begins.dark (begins : Begins xs) : Dark xs := by
  obtain ⟨b, bs, rfl, dark, -⟩ := begins
  intro x hx
  cases hx
  exact dark

theorem dark_cons {b : UInt8} (bs : Bytes) (dark : isBlank b = false) : Dark (b :: bs) := by
  intro x hx
  cases hx
  exact dark

/-- Where an item stands another one is found, and the reader stops in front of it. -/
theorem reads_anotherItem (layout : Layout) (depth : Nat) (first : Bool) (begins : Begins xs) :
    Reads (anotherItem first) (itemLead layout depth first ++ xs) true xs := by
  obtain ⟨lead, blank, same⟩ := itemLead_eq layout depth first
  obtain ⟨b, bs, rfl, dark, other⟩ := begins
  rw [same]
  cases first with
  | true =>
    refine (reads_blanks blank (dark_cons bs dark)).bind ?_
    simp only [List.head?_cons, if_true]
    exact reads_pure true _
  | false =>
    rw [if_neg Bool.false_ne_true, List.append_assoc]
    refine (reads_next (dark_cons _ (by decide))).bind ((reads_drop 0x2C _).bind ?_)
    refine (reads_blanks blank (dark_cons bs dark)).bind ?_
    simp only [List.head?_cons]
    exact reads_pure true _

/-- Where the bracket stands no other item is found. -/
theorem reads_lastItem (first : Bool) (blank : Blank lead) (ys : Bytes) :
    Reads (anotherItem first) (lead ++ 0x5D :: ys) false (0x5D :: ys) :=
  (reads_blanks blank (dark_cons ys (by decide))).bind (reads_pure false _)

/-- Where a key stands another one is found, and the reader stops at its quote. -/
theorem reads_anotherKey (layout : Layout) (depth : Nat) (first : Bool) (xs : Bytes) :
    Reads (anotherKey first) (itemLead layout depth first ++ 0x22 :: xs) true (0x22 :: xs) := by
  obtain ⟨lead, blank, same⟩ := itemLead_eq layout depth first
  rw [same]
  cases first with
  | true => exact (reads_blanks blank (dark_cons xs (by decide))).bind (reads_pure true _)
  | false =>
    rw [if_neg Bool.false_ne_true, List.append_assoc]
    refine (reads_next (dark_cons _ (by decide))).bind ((reads_drop 0x2C _).bind ?_)
    exact (reads_blanks blank (dark_cons xs (by decide))).bind (reads_pure true _)

/-- Where the brace stands no other key is found. -/
theorem reads_lastKey (first : Bool) (blank : Blank lead) (ys : Bytes) :
    Reads (anotherKey first) (lead ++ 0x7D :: ys) false (0x7D :: ys) :=
  (reads_blanks blank (dark_cons ys (by decide))).bind (reads_pure false _)

theorem stringBytes_append (s : String) (ys : Bytes) :
    stringBytes s ++ ys = 0x22 :: ((Text.encode s).flatMap escapeByte ++ 0x22 :: ys) := by
  simp [stringBytes, quoteByte]

theorem reads_key (k : String) (ys : Bytes) : Reads key (stringBytes k ++ ys) k ys := by
  rw [stringBytes_append]
  exact (reads_drop 0x22 _).bind (Literal.reads_read k ys)

/-- Behind the colon the value follows, maybe after a blank. -/
theorem reads_colon (layout : Layout) (ys : Bytes) :
    ∃ lead, Blank lead ∧ Reads Reader.colon (Printer.colon layout ++ ys) () (lead ++ ys) := by
  have colon (ys : Bytes) : Reads Reader.colon (0x3A :: ys) () ys :=
    (reads_next (dark_cons ys (by decide))).bind (reads_drop 0x3A ys)
  cases layout with
  | compact => exact ⟨[], nofun, colon ys⟩
  | pretty => exact ⟨[0x20], by simp [Blank, isBlank], colon (0x20 :: ys)⟩

theorem reads_endList (ys : Bytes) : Reads endList (0x5D :: ys) () ys :=
  (reads_next (dark_cons ys (by decide))).bind (reads_drop 0x5D ys)

theorem reads_endObject (ys : Bytes) : Reads endObject (0x7D :: ys) () ys :=
  (reads_next (dark_cons ys (by decide))).bind (reads_drop 0x7D ys)

theorem parted_cons {b : UInt8} (ys : Bytes)
    (parted : Decimal.isDigit b = false ∧ b ≠ 0x2E ∧ Number.isExponentMark (some b) = false) :
    Number.Parted (b :: ys) := by
  intro x hx
  cases hx
  exact parted

theorem parted_blank {b : UInt8} (blank : isBlank b = true) :
    Decimal.isDigit b = false ∧ b ≠ 0x2E ∧ Number.isExponentMark (some b) = false := by
  simp only [isBlank, Bool.or_eq_true, decide_eq_true_eq] at blank
  rcases blank with ((rfl | rfl) | rfl) | rfl <;> decide

/-- Blanks part a number from what follows. -/
theorem parted_blanks (blank : Blank lead) : Number.Parted lead := fun b head =>
  parted_blank (blank b (List.mem_of_mem_head? head))

/-- So does what ends a container. -/
theorem parted_close (blank : Blank lead) {b : UInt8} (ys : Bytes)
    (parted : Decimal.isDigit b = false ∧ b ≠ 0x2E ∧ Number.isExponentMark (some b) = false) :
    Number.Parted (lead ++ b :: ys) := by
  cases lead with
  | nil => exact parted_cons ys parted
  | cons x lead => exact parted_cons _ (parted_blank (blank x List.mem_cons_self))

/-- So does a comma. -/
theorem parted_itemLead (layout : Layout) (depth : Nat) (xs : Bytes) :
    Number.Parted (itemLead layout depth false ++ xs) := by
  cases layout <;> exact parted_cons _ (by decide)

/-- What follows an item does not go on with it. -/
theorem parted_items (layout : Layout) (depth : Nat) (vs : List Value) (ys : Bytes) (blank : Blank lead) :
    Number.Parted ((itemChunks layout depth false vs).flatten ++ (lead ++ 0x5D :: ys)) := by
  cases vs with
  | nil => exact parted_close blank ys (by decide)
  | cons v vs =>
    rw [itemChunks, List.flatten_cons, List.append_assoc]
    exact parted_itemLead layout depth _

theorem parted_members (layout : Layout) (depth : Nat) (ms : List (String × Value)) (ys : Bytes) (blank : Blank lead) :
    Number.Parted ((memberChunks layout depth false ms).flatten ++ (lead ++ 0x7D :: ys)) := by
  cases ms with
  | nil => exact parted_close blank ys (by decide)
  | cons m ms =>
    rw [memberChunks, List.flatten_cons, List.append_assoc]
    exact parted_itemLead layout depth _

/-- Every item takes a byte, so that there are enough rounds for all of them. -/
theorem length_items {vs : List Value} (exact : Value.ExactItems vs) (layout : Layout) (depth : Nat) (first : Bool) :
    vs.length ≤ (itemChunks layout depth first vs).flatten.length := by
  induction vs generalizing first with
  | nil => exact Nat.le_refl 0
  | cons v vs ih =>
    obtain ⟨here, rest⟩ := exact
    obtain ⟨b, bs, some, -⟩ := begins_chunks layout depth here
    have more := ih rest false
    simp only [itemChunks, List.flatten_cons, List.flatten_append, List.length_append, List.length_cons, some]
    omega

theorem length_members (ms : List (String × Value)) (layout : Layout) (depth : Nat) (first : Bool) :
    ms.length ≤ (memberChunks layout depth first ms).flatten.length := by
  induction ms generalizing first with
  | nil => exact Nat.le_refl 0
  | cons m ms ih =>
    have more := ih false
    simp only [memberChunks, List.flatten_cons, List.flatten_append, List.length_append, List.length_cons, stringBytes]
    omega

end

/-! ## Values -/

theorem natAbs_of_fits {n : Int} (fits : Decimal.signedLeast ≤ n ∧ n < Int.pow 2 64) : n.natAbs < Nat.pow 2 64 := by
  have least : Decimal.signedLeast = -9223372036854775808 := by decide
  have bound : Int.pow 2 64 = 18446744073709551616 := by decide
  have limit : Nat.pow 2 64 = 18446744073709551616 := by decide
  omega

theorem whole_of_nonneg {n : Int} (nonnegative : 0 ≤ n) : Number.whole false n.natAbs = .int n :=
  congrArg Value.int (Int.natAbs_of_nonneg nonnegative)

theorem whole_of_neg {n : Int} (negative : n < 0) (least : Decimal.signedLeast ≤ n) :
    Number.whole true n.natAbs = .int n := by
  have signed : Decimal.signedLeast = -9223372036854775808 := by decide
  have bound : Nat.pow 2 63 = 9223372036854775808 := by decide
  have small : ¬ (n.natAbs = 0 ∨ Nat.pow 2 63 < n.natAbs) := by omega
  have same : -(n.natAbs : Int) = n := by omega
  simp only [Number.whole, Bool.not_true, Bool.false_eq_true, if_false, small, same]

/-- A number of 64 bits is written with its sign, if it has one, and read behind it. -/
theorem ofInt_cases {n : Int} (fits : Decimal.signedLeast ≤ n ∧ n < Int.pow 2 64) :
    (∃ bs, Decimal.ofInt n = 0x2D :: bs ∧
      ∀ {ys : Bytes}, Number.Parted ys → Reads (Number.read true) (bs ++ ys) (.int n) ys) ∨
    ∃ d ds, Decimal.ofInt n = d :: ds ∧ Decimal.isDigit d = true ∧
      ∀ {ys : Bytes}, Number.Parted ys → Reads (Number.read false) (d :: (ds ++ ys)) (.int n) ys := by
  have small : n.natAbs < Nat.pow 2 64 := natAbs_of_fits fits
  by_cases negative : n < 0
  · refine Or.inl ⟨Decimal.ofNat n.natAbs, by simp [Decimal.ofInt, negative], fun parted => ?_⟩
    exact whole_of_neg negative fits.1 ▸ Number.reads_read parted true small
  · obtain ⟨d, ds, digits, digit, -⟩ := Decimal.ofNat_cons n.natAbs
    refine Or.inr ⟨d, ds, by simp [Decimal.ofInt, negative, digits], digit, fun parted => ?_⟩
    have number := Number.reads_read parted false small
    rwa [whole_of_nonneg (Int.not_lt.mp negative), digits] at number

/-- Whether a reader gives `a` for what is written of `v`, wherever that stands, if what follows does not go on with a
number. -/
def Restores {α : Type} (r : Reading α) (layout : Layout) (v : Value) (a : α) : Prop :=
  ∀ (depth : Nat) {lead ys : Bytes}, Blank lead → Number.Parted ys →
    Reads r (lead ++ ((Printer.chunks layout depth v).flatten ++ ys)) a ys

section

variable {α : Type} {item : Reading α} {written : α → Value} {layout : Layout}

/-- Items are read one by one, by whatever reads each of them. -/
theorem reads_items (as : List α) (each : ∀ a ∈ as, (written a).Exact ∧ Restores item layout (written a) a)
    (depth : Nat) (first : Bool) {rounds : Nat} (enough : as.length < rounds) {lead : Bytes} (ys : Bytes)
    (blank : Blank lead) :
    Reads (items item rounds first) ((itemChunks layout depth first (as.map written)).flatten ++ (lead ++ 0x5D :: ys))
      as (0x5D :: ys) := by
  induction as generalizing first rounds with
  | nil =>
    obtain ⟨rounds, rfl⟩ := Nat.exists_eq_add_one_of_ne_zero (Nat.ne_of_gt enough)
    exact (reads_lastItem first blank ys).bind (reads_pure [] _)
  | cons a as ih =>
    obtain ⟨rounds, rfl⟩ := Nat.exists_eq_add_one_of_ne_zero (Nat.ne_of_gt (Nat.zero_lt_of_lt enough))
    obtain ⟨exact, restores⟩ := each a List.mem_cons_self
    rw [List.map_cons, itemChunks, List.flatten_cons, List.flatten_append, List.append_assoc, List.append_assoc]
    refine (reads_anotherItem layout depth first ((begins_chunks layout depth exact).append _)).bind ?_
    simp only [if_true]
    refine (restores depth blank_nil (parted_items layout depth _ ys blank)).bind ?_
    have onward := ih (fun a mem => each a (List.mem_cons_of_mem _ mem)) false (Nat.lt_of_succ_lt_succ enough)
    exact onward.bind (reads_pure _ _)

theorem reads_list (as : List α) (each : ∀ a ∈ as, (written a).Exact ∧ Restores item layout (written a) a)
    (depth : Nat) (ys : Bytes) :
    Reads (Reader.list item) ((Printer.chunks layout depth (.array (as.map written))).flatten ++ ys) as ys := by
  rw [bytes_array, List.cons_append, List.append_assoc, List.append_assoc]
  refine (reads_drop 0x5B _).bind ?_
  refine (Reads.sized (r := fun rounds => items item rounds true) ?_).bind
    ((reads_endList ys).bind (reads_pure as ys))
  refine reads_items as each (depth + 1) true ?_ ys (blank_close layout depth _)
  have exact : Value.ExactItems (as.map written) := Value.exactItems_iff.mpr fun v mem => by
    obtain ⟨a, among, rfl⟩ := List.mem_map.mp mem
    exact (each a among).1
  have count := length_items exact layout (depth + 1) true
  simp only [List.length_append, List.length_map] at count ⊢
  omega

/-- The members of an object are read one by one too, and stay in the order of their keys. -/
theorem reads_members (ms : List (String × α)) (each : ∀ m ∈ ms, Restores item layout (written m.2) m.2)
    (depth : Nat) (first : Bool) {rounds : Nat} (enough : ms.length < rounds) {found : List (String × α)}
    (sorted : ((found ++ ms).map (·.1)).Pairwise (· < ·)) {lead : Bytes} (ys : Bytes) (blank : Blank lead) :
    Reads (members item rounds first found)
      ((memberChunks layout depth first (ms.map fun m => (m.1, written m.2))).flatten ++ (lead ++ 0x7D :: ys))
      (found ++ ms) (0x7D :: ys) := by
  induction ms generalizing first rounds found with
  | nil =>
    obtain ⟨rounds, rfl⟩ := Nat.exists_eq_add_one_of_ne_zero (Nat.ne_of_gt enough)
    rw [List.append_nil]
    exact (reads_lastKey first blank ys).bind (reads_pure found _)
  | cons m ms ih =>
    obtain ⟨k, a⟩ := m
    obtain ⟨rounds, rfl⟩ := Nat.exists_eq_add_one_of_ne_zero (Nat.ne_of_gt (Nat.zero_lt_of_lt enough))
    have last : ∀ m ∈ found, m.1 < k := fun m hm => by
      rw [List.map_append] at sorted
      exact (List.pairwise_append.mp sorted).2.2 _ (List.mem_map_of_mem hm) k (by simp)
    have sorted' : (((found ++ [(k, a)]) ++ ms).map (·.1)).Pairwise (· < ·) := by
      rwa [List.append_assoc, List.singleton_append]
    rw [List.map_cons, memberChunks, List.flatten_cons, List.flatten_cons, List.flatten_cons, List.flatten_append]
    simp only [List.append_assoc]
    obtain ⟨lead', blank', colon⟩ := reads_colon layout
      ((Printer.chunks layout depth (written a)).flatten ++
        ((memberChunks layout depth false (ms.map fun m => (m.1, written m.2))).flatten ++ (lead ++ 0x7D :: ys)))
    refine (reads_anotherKey layout depth first _).bind ?_
    simp only [if_true]
    refine (reads_key k _).bind (colon.bind ?_)
    have here := each (k, a) List.mem_cons_self
    refine (here depth blank' (parted_members layout depth _ ys blank)).bind ?_
    rw [Value.insert_last a last]
    have whole := ih (fun m mem => each m (List.mem_cons_of_mem _ mem)) false (Nat.lt_of_succ_lt_succ enough) sorted'
    rwa [List.append_assoc, List.singleton_append] at whole

theorem reads_object (ms : List (String × α)) (each : ∀ m ∈ ms, Restores item layout (written m.2) m.2)
    (sorted : (ms.map (·.1)).Pairwise (· < ·)) (depth : Nat) (ys : Bytes) :
    Reads (Reader.object item)
      ((Printer.chunks layout depth (.object (ms.map fun m => (m.1, written m.2)))).flatten ++ ys) ms ys := by
  rw [bytes_object, List.cons_append, List.append_assoc, List.append_assoc]
  refine (reads_drop 0x7B _).bind ?_
  refine (Reads.sized (r := fun rounds => members item rounds true []) ?_).bind
    ((reads_endObject ys).bind (reads_pure ms ys))
  have sorted : ((([] : List (String × α)) ++ ms).map (·.1)).Pairwise (· < ·) := sorted
  refine reads_members ms each (depth + 1) true ?_ sorted ys (blank_close layout depth _)
  have count := length_members (ms.map fun m => (m.1, written m.2)) layout (depth + 1) true
  simp only [List.length_append, List.length_map] at count ⊢
  omega

end

/-- **A value is read as it was written**, if the reader goes deep enough. -/
theorem reads_value (layout : Layout) (v : Value) (exact : v.Exact) {levels : Nat} (deep : v.nesting < levels) :
    Restores (value levels) layout v v := by
  -- By the levels that are left, as the reader counts them down where a container opens.
  induction levels generalizing v with
  | zero => exact absurd deep (Nat.not_lt_zero _)
  | succ levels ih =>
    intro depth lead ys blank parted
    refine (reads_blanks blank (((begins_chunks layout depth exact).append ys).dark)).bind ?_
    cases v with
    | null =>
      simp only [Printer.chunks, List.flatten_singleton, bytes_null]
      exact (reads_drop 0x6E _).bind ((reads_word [0x75, 0x6C, 0x6C] ys).bind (reads_pure _ ys))
    | bool b =>
      cases b with
      | true =>
        simp only [Printer.chunks, List.flatten_singleton, bytes_true]
        exact (reads_drop 0x74 _).bind ((reads_word [0x72, 0x75, 0x65] ys).bind (reads_pure _ ys))
      | false =>
        simp only [Printer.chunks, List.flatten_singleton, bytes_false]
        exact (reads_drop 0x66 _).bind ((reads_word [0x61, 0x6C, 0x73, 0x65] ys).bind (reads_pure _ ys))
    | int n =>
      simp only [Printer.chunks, List.flatten_singleton]
      rcases ofInt_cases exact with ⟨bs, written, number⟩ | ⟨d, ds, written, digit, number⟩ <;>
        simp only [written, List.cons_append, List.head?_cons]
      · exact (reads_drop 0x2D _).bind (number parted)
      · simp only [digit, ne_of_isDigit digit 0x6E (by decide), ne_of_isDigit digit 0x74 (by decide),
          ne_of_isDigit digit 0x66 (by decide), ne_of_isDigit digit 0x2D (by decide), if_true, if_false]
        exact number parted
    | float x => exact exact.elim
    | string s =>
      simp only [Printer.chunks, List.flatten_singleton, stringBytes_append]
      exact (reads_drop 0x22 _).bind ((Literal.reads_read s ys).bind (reads_pure _ ys))
    | array vs =>
      have room : levels ≠ 0 := Nat.ne_of_gt (Nat.zero_lt_of_lt (Nat.lt_of_succ_lt_succ deep))
      have list := @reads_list _ (value levels) id layout vs (fun v mem =>
        have here := Value.exactItems_iff.mp exact v mem
        ⟨here, ih v here (Nat.lt_of_le_of_lt (Value.nesting_le_items mem) (Nat.lt_of_succ_lt_succ deep))⟩) depth ys
      rw [List.map_id] at list
      rw [bytes_array] at list ⊢
      simp only [List.cons_append, List.head?_cons, room, if_false]
      exact list.bind (reads_pure _ ys)
    | object ms =>
      have room : levels ≠ 0 := Nat.ne_of_gt (Nat.zero_lt_of_lt (Nat.lt_of_succ_lt_succ deep))
      have object := @reads_object _ (value levels) id layout ms (fun m mem =>
        ih m.2 (Value.exactMembers_iff.mp exact.2 m mem)
          (Nat.lt_of_le_of_lt (Value.nesting_le_members mem) (Nat.lt_of_succ_lt_succ deep))) exact.1 depth ys
      rw [show (ms.map fun m => (m.1, id m.2)) = ms from List.map_id ms] at object
      rw [bytes_object] at object ⊢
      simp only [List.cons_append, List.head?_cons, room, if_false]
      exact object.bind (reads_pure _ ys)

/-- A reader that may not open a level does not start. -/
theorem fails_flat {levels : Nat} (none : levels ≤ 0) (xs : Bytes) : Fails (value levels) xs .tooDeep := by
  cases Nat.le_zero.mp none
  exact fails_failAhead .tooDeep xs

mutual

/-- **A value that is nested too deep for the reader is refused**, for that reason. -/
theorem fails_value (layout : Layout) : ∀ (v : Value), v.Exact → ∀ {levels : Nat}, levels ≤ v.nesting →
    ∀ (depth : Nat) {lead : Bytes} (ys : Bytes), Blank lead →
    Fails (value levels) (lead ++ ((Printer.chunks layout depth v).flatten ++ ys)) .tooDeep
  | .null, _, _, deep, _, _, _, _ => fails_flat deep _
  | .bool _, _, _, deep, _, _, _, _ => fails_flat deep _
  | .int _, _, _, deep, _, _, _, _ => fails_flat deep _
  | .float _, _, _, deep, _, _, _, _ => fails_flat deep _
  | .string _, _, _, deep, _, _, _, _ => fails_flat deep _
  | .array _, _, 0, _, _, _, _, _ => fails_failAhead .tooDeep _
  | .object _, _, 0, _, _, _, _, _ => fails_failAhead .tooDeep _
  | .array vs, exact, levels + 1, deep, depth, lead, ys, blank => by
    have deep : levels ≤ Value.nestingItems vs := Nat.le_of_succ_le_succ deep
    rw [bytes_array, List.cons_append, List.append_assoc, List.append_assoc]
    refine (reads_blanks blank (dark_cons _ (by decide))).fails ?_
    simp only [List.head?_cons]
    by_cases last : levels = 0
    · simp only [last, if_true]
      exact fails_failAhead .tooDeep _
    · simp only [last, if_false]
      refine Fails.bind ((reads_drop 0x5B _).fails (Fails.bind ?_))
      refine Fails.sized (r := fun rounds => items (value levels) rounds true) ?_
      refine fails_items layout vs exact (Nat.pos_of_ne_zero last) deep (depth + 1) true ?_ ys
        (blank_close layout depth _)
      have count := length_items exact layout (depth + 1) true
      simp only [List.length_append]
      omega
  | .object ms, exact, levels + 1, deep, depth, lead, ys, blank => by
    have deep : levels ≤ Value.nestingMembers ms := Nat.le_of_succ_le_succ deep
    rw [bytes_object, List.cons_append, List.append_assoc, List.append_assoc]
    refine (reads_blanks blank (dark_cons _ (by decide))).fails ?_
    simp only [List.head?_cons]
    by_cases last : levels = 0
    · simp only [last, if_true]
      exact fails_failAhead .tooDeep _
    · simp only [last, if_false]
      refine Fails.bind ((reads_drop 0x7B _).fails (Fails.bind ?_))
      refine Fails.sized (r := fun rounds => members (value levels) rounds true []) ?_
      refine fails_members layout ms exact.2 (Nat.pos_of_ne_zero last) deep (depth + 1) true ?_ [] ys
        (blank_close layout depth _)
      have count := length_members ms layout (depth + 1) true
      simp only [List.length_append]
      omega

theorem fails_items (layout : Layout) : ∀ (vs : List Value), Value.ExactItems vs → ∀ {levels : Nat}, 0 < levels →
    levels ≤ Value.nestingItems vs → ∀ (depth : Nat) (first : Bool) {rounds : Nat}, vs.length < rounds →
    ∀ {lead : Bytes} (ys : Bytes), Blank lead →
    Fails (items (value levels) rounds first) ((itemChunks layout depth first vs).flatten ++ (lead ++ 0x5D :: ys))
      .tooDeep
  | [], _, _, room, deep, _, _, _, _, _, _, _ => absurd room (Nat.not_lt.mpr deep)
  | v :: vs, exact, levels, room, deep, depth, first, rounds + 1, enough, lead, ys, blank => by
    obtain ⟨here, rest⟩ := exact
    have enough : vs.length < rounds := Nat.lt_of_succ_lt_succ enough
    rw [itemChunks, List.flatten_cons, List.flatten_append, List.append_assoc, List.append_assoc]
    refine (reads_anotherItem layout depth first ((begins_chunks layout depth here).append _)).fails ?_
    simp only [if_true]
    rcases Nat.lt_or_ge v.nesting levels with shallow | tooDeep
    · have whole : levels ≤ max v.nesting (Value.nestingItems vs) := deep
      have deep : levels ≤ Value.nestingItems vs := by omega
      refine (reads_value layout v here shallow depth blank_nil (parted_items layout depth vs ys blank)).fails ?_
      exact (fails_items layout vs rest room deep depth false enough ys blank).bind
    · exact (fails_value layout v here tooDeep depth _ blank_nil).bind

theorem fails_members (layout : Layout) : ∀ (ms : List (String × Value)), Value.ExactMembers ms → ∀ {levels : Nat},
    0 < levels → levels ≤ Value.nestingMembers ms → ∀ (depth : Nat) (first : Bool) {rounds : Nat}, ms.length < rounds →
    ∀ (found : List (String × Value)) {lead : Bytes} (ys : Bytes), Blank lead →
    Fails (members (value levels) rounds first found)
      ((memberChunks layout depth first ms).flatten ++ (lead ++ 0x7D :: ys)) .tooDeep
  | [], _, _, room, deep, _, _, _, _, _, _, _, _ => absurd room (Nat.not_lt.mpr deep)
  | (k, v) :: ms, exact, levels, room, deep, depth, first, rounds + 1, enough, found, lead, ys, blank => by
    obtain ⟨here, rest⟩ := exact
    have enough : ms.length < rounds := Nat.lt_of_succ_lt_succ enough
    rw [memberChunks, List.flatten_cons, List.flatten_cons, List.flatten_cons, List.flatten_append]
    simp only [List.append_assoc]
    obtain ⟨lead', blank', colon⟩ := reads_colon layout
      ((Printer.chunks layout depth v).flatten ++
        ((memberChunks layout depth false ms).flatten ++ (lead ++ 0x7D :: ys)))
    refine (reads_anotherKey layout depth first _).fails ?_
    simp only [if_true]
    refine (reads_key k _).fails (colon.fails ?_)
    rcases Nat.lt_or_ge v.nesting levels with shallow | tooDeep
    · have whole : levels ≤ max v.nesting (Value.nestingMembers ms) := deep
      have deep : levels ≤ Value.nestingMembers ms := by omega
      refine (reads_value layout v here shallow depth blank' (parted_members layout depth ms ys blank)).fails ?_
      exact fails_members layout ms rest room deep depth false enough _ ys blank
    · exact (fails_value layout v here tooDeep depth _ blank').bind

end

/-! ## Documents -/

variable {layout : Layout} {v : Value}

/-- A document may have blanks behind it. -/
theorem document_of_reads_blank {α : Type} {r : Reading α} {c : Cursor} {a : α} {trail : Bytes}
    (reads : Reads r c.rest a trail) (blank : Blank trail) (ending : c.ending = .stop) : document r c = .ok a := by
  have dark : Dark [] := nofun
  have last : Reads finish trail () [] := by
    have blanks := reads_blanks blank dark
    rw [List.append_nil] at blanks
    exact blanks.bind (reads_pure () [])
  have whole : Reads (do let v ← r; finish; pure v) c.rest a [] := reads.bind (last.bind (reads_pure a []))
  obtain ⟨c', ran, -⟩ := whole c rfl ending
  unfold document
  rw [ran]

theorem document_of_reads {α : Type} {r : Reading α} {c : Cursor} {a : α} (reads : Reads r c.rest a [])
    (ending : c.ending = .stop) : document r c = .ok a :=
  document_of_reads_blank reads blank_nil ending

theorem document_of_fails {α : Type} {r : Reading α} {bs : Bytes} {p : Problem} (fails : Fails r bs p) :
    ∃ line column, document r (.stream bs .stop) = .error (.bad p line column) := by
  have whole : Fails (do let v ← r; finish; pure v) bs p := fails.bind
  obtain ⟨line, column, ran⟩ := whole (.stream bs .stop) rfl rfl
  refine ⟨line, column, ?_⟩
  unfold document
  rw [ran]

end DurableValue.Json

namespace DurableValue.Codec

open Json (Layout Value)

/-- **The codec reads what it wrote** of a value without floats, if that is nested in less levels than the reader
counts. -/
theorem decode_encoded (layout : Layout) {v : Value} (exact : v.Exact) (shallow : v.nesting < Json.Reader.depthLimit) :
    json.decode (json.chunks layout v).flatten = .ok v := by
  have parted : Json.Number.Parted [] := nofun
  have reads := Json.reads_value layout v exact shallow 0 Json.blank_nil parted
  rw [List.append_nil] at reads
  exact congrArg (Except.mapError Format.errorOf) (Json.document_of_reads reads rfl)

/-- What it wrote of a value that is nested deeper is corrupt. -/
theorem decode_tooDeep (layout : Layout) {v : Value} (exact : v.Exact) (deep : Json.Reader.depthLimit ≤ v.nesting) :
    ∃ line column, json.decode (json.chunks layout v).flatten =
      .error (Format.errorOf (.bad .tooDeep line column)) := by
  have fails := Json.fails_value layout v exact deep 0 [] Json.blank_nil
  rw [List.append_nil] at fails
  obtain ⟨line, column, document⟩ := Json.document_of_fails fails
  exact ⟨line, column, congrArg (Except.mapError Format.errorOf) document⟩

end DurableValue.Codec
