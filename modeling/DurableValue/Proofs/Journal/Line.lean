/-
  DurableValue.Proofs.Journal.Line — journal lines read back.

  Every character of a text stands in a line as itself or as an escape, and is read back from that: a printable one as
  it is, the rest behind a backslash. So a line is one JSON object that has the event, the severity and the fields for
  its members, in this order, and nothing in a field can end the line or add a member to it.

  Proved:
  - `reads_escape`: a text is read as it was escaped, behind its opening quote.
  - `isControl_body`: no control character stands in a line before the newline that ends it.
  - `pairs_body`: the members of a line, one by one, whatever the fields are.
  - `sortedByKey_sortedFields`: the order of the fields, and that it depends on nothing but the keys if these differ.
  - `a_line_tells_its_call_and_nothing_else`: all of that about one line, and that no other call writes it.
-/
import DurableValue.Journal.Basic
import DurableValue.Proofs.Json.Members
import Mathlib.Data.List.Nodup

namespace DurableValue.Json.Literal

open Reading

/-- Whether `xs` is read up to a closing quote for the bytes `bs`, in any number of rounds that is enough for it. -/
def Closes (xs bs ys : Bytes) : Prop := ∀ rounds, xs.length < rounds → Reads (content rounds) xs bs ys

variable {xs zs bs ys e : Bytes}

/-- One byte takes one round. -/
theorem closes_cons {b : UInt8}
    (next : ∀ rounds, xs.length < rounds → Reads (content (rounds + 1)) (b :: xs) bs ys) : Closes (b :: xs) bs ys := by
  intro rounds enough
  obtain ⟨rounds, rfl⟩ := Nat.exists_eq_add_one_of_ne_zero (Nat.ne_of_gt (Nat.zero_lt_of_lt enough))
  exact next rounds (Nat.lt_of_succ_lt_succ enough)

theorem closes_end (ys : Bytes) : Closes (0x22 :: ys) [] ys := closes_cons fun rounds _ => reads_content_end rounds ys

theorem Closes.escape (esc : Reads escape xs e zs) (shorter : zs.length ≤ xs.length) (rest : Closes zs bs ys) :
    Closes (0x5C :: xs) (e ++ bs) ys := by
  refine closes_cons fun rounds enough => ?_
  exact reads_content_escape esc (rest rounds (by omega))

/-- Bytes that mean nothing else stand for themselves. -/
theorem Closes.plain {ps : Bytes} (plain : ∀ b ∈ ps, b ≠ 0x22 ∧ b ≠ 0x5C ∧ ¬ b < 0x20) (rest : Closes xs bs ys) :
    Closes (ps ++ xs) (ps ++ bs) ys := by
  induction ps with
  | nil => exact rest
  | cons b ps ih =>
    have more := ih fun p hp => plain p (List.mem_cons_of_mem b hp)
    obtain ⟨quote, slash, printable⟩ := plain b List.mem_cons_self
    refine closes_cons fun rounds enough => ?_
    exact reads_content_plain quote slash printable (more rounds enough)

theorem pointBytes_toNat (c : Char) : pointBytes c.toNat = String.utf8EncodeChar c := by
  have text : c.toString = .ofList [c] := rfl
  simp only [pointBytes, Char.ofNat_toNat, text, Text.encode_ofList, List.flatMap_cons, List.flatMap_nil,
    List.append_nil]

end DurableValue.Json.Literal

namespace DurableValue.Journal

open Json (Reading Value)
open Json.Reading Json.Reader Json.Literal

namespace Line

/-! ## Escapes -/

abbrev bytes (cs : List Char) : Bytes := cs.flatMap String.utf8EncodeChar

theorem bytes_append (cs ds : List Char) : bytes (cs ++ ds) = bytes cs ++ bytes ds := List.flatMap_append

theorem encode_eq (s : String) : Text.encode s = bytes s.toList := by
  have whole := Text.encode_ofList s.toList
  rwa [String.ofList_toList] at whole

/-- A character that is printable and no quote or backslash has no byte that means something else. -/
theorem plain_utf8 {c : Char} (quote : c ≠ '"') (slash : c ≠ '\\') (printable : 0x20 ≤ c.toNat) :
    ∀ b ∈ String.utf8EncodeChar c, b ≠ 0x22 ∧ b ≠ 0x5C ∧ ¬ b < 0x20 := by
  intro b hb
  have notQuote : c.toNat ≠ 0x22 := fun same => quote (Char.toNat_inj.mp same)
  have notSlash : c.toNat ≠ 0x5C := fun same => slash (Char.toNat_inj.mp same)
  have small : c.toNat < 0x110000 := by
    rcases c.valid with low | ⟨-, high⟩
    · exact Nat.lt_trans low (by decide)
    · exact high
  -- a character is one byte of its own number, or all its bytes are beyond ASCII
  suffices b.toNat = c.toNat ∨ 0x80 ≤ b.toNat by
    simp only [ne_eq, ← UInt8.toNat_inj, UInt8.lt_iff_toNat_lt, UInt8.reduceToNat]
    omega
  have same : c.val.toNat = c.toNat := rfl
  unfold String.utf8EncodeChar at hb
  simp only [same] at hb
  repeat' split at hb
  all_goals
    simp only [List.mem_cons, List.not_mem_nil, or_false] at hb
    rcases hb with rfl | rfl | rfl | rfl <;> simp <;> omega

/-- **A character is read as it was escaped**, whatever follows. -/
theorem closes_escapeChar (c : Char) {xs bs ys : Bytes} (rest : Closes xs bs ys) :
    Closes (bytes (escapeChar c) ++ xs) (String.utf8EncodeChar c ++ bs) ys := by
  have short (e : UInt8) {v : Bytes} (reads : Reads Json.Literal.escape (e :: xs) v xs) :
      Closes (0x5C :: e :: xs) (v ++ bs) ys := rest.escape reads (Nat.le_succ _)
  unfold escapeChar
  split
  · subst c
    exact short 0x22 ((reads_takeByte 0x22 xs).bind (reads_pure [0x22] xs))
  split
  · subst c
    exact short 0x5C ((reads_takeByte 0x5C xs).bind (reads_pure [0x5C] xs))
  split
  · subst c
    exact short 0x6E ((reads_takeByte 0x6E xs).bind (reads_pure [0x0A] xs))
  split
  · subst c
    exact short 0x72 ((reads_takeByte 0x72 xs).bind (reads_pure [0x0D] xs))
  split
  · subst c
    exact short 0x74 ((reads_takeByte 0x74 xs).bind (reads_pure [0x09] xs))
  split
  · rename_i control
    have low : c.toNat < 0xD800 := by
      simp only [isControl, Bool.or_eq_true, Bool.and_eq_true, decide_eq_true_eq] at control
      omega
    have digits : bytes (['\\', 'u'] ++ (Text.hex4 c.toNat).toList) ++ xs =
        0x5C :: 0x75 :: (Text.encode (Text.hex4 c.toNat) ++ xs) := by
      rw [bytes_append, encode_eq]
      rfl
    have point : Reads unicodeEscape (Text.encode (Text.hex4 c.toNat) ++ xs) (String.utf8EncodeChar c) xs := by
      rw [← pointBytes_toNat]
      exact reads_unicodeEscape low
    rw [digits]
    refine rest.escape ((reads_takeByte 0x75 _).bind point) ?_
    simp only [List.length_cons, List.length_append]
    omega
  · rename_i quote slash _ _ _ printable
    have printable : 0x20 ≤ c.toNat := by
      simp only [isControl, Bool.or_eq_true, decide_eq_true_eq, not_or] at printable
      omega
    have one : bytes [c] = String.utf8EncodeChar c := List.append_nil _
    rw [one]
    exact rest.plain (plain_utf8 quote slash printable)

theorem closes_escape (cs : List Char) (ys : Bytes) :
    Closes (bytes (cs.flatMap escapeChar) ++ 0x22 :: ys) (bytes cs) ys := by
  induction cs with
  | nil => exact closes_end ys
  | cons c cs ih =>
    rw [List.flatMap_cons, bytes_append, List.append_assoc]
    exact closes_escapeChar c ih

/-- **A text is read as it was escaped**, behind its opening quote. -/
theorem reads_escape (s : String) (ys : Bytes) : Reads Json.Literal.read (bytes (escape s) ++ 0x22 :: ys) s ys := by
  refine Reads.sized (r := fun rounds => do decoded (← content rounds)) ?_
  have closes := closes_escape s.toList ys
  rw [← encode_eq] at closes
  exact (closes _ (Nat.lt_succ_self _)).bind (reads_decoded s ys)

theorem isControl_hexDigit {n : Nat} (small : n < 16) : isControl (Text.hexDigit n) = false := by
  have all : ∀ n : Fin 16, isControl (Text.hexDigit n) = false := by decide
  exact all ⟨n, small⟩

/-- **No control character is left in what was escaped.** -/
theorem isControl_escapeChar {c d : Char} (hd : d ∈ escapeChar c) : isControl d = false := by
  have pair {a b : Char} (left : isControl a = false) (right : isControl b = false) (hd : d ∈ [a, b]) :
      isControl d = false := by
    simp only [List.mem_cons, List.not_mem_nil, or_false] at hd
    rcases hd with rfl | rfl
    · exact left
    · exact right
  unfold escapeChar at hd
  split at hd
  · exact pair (by decide) (by decide) hd
  split at hd
  · exact pair (by decide) (by decide) hd
  split at hd
  · exact pair (by decide) (by decide) hd
  split at hd
  · exact pair (by decide) (by decide) hd
  split at hd
  · exact pair (by decide) (by decide) hd
  split at hd
  · rcases List.mem_append.mp hd with lead | digit
    · exact pair (by decide) (by decide) lead
    · have small (k : Nat) : k % 16 < 16 := Nat.mod_lt k (by decide)
      simp only [Text.hex4, String.toList_ofList, List.mem_cons, List.not_mem_nil, or_false] at digit
      rcases digit with rfl | rfl | rfl | rfl <;> exact isControl_hexDigit (small _)
  · rename_i printable
    rw [List.mem_singleton.mp hd]
    exact Bool.eq_false_iff.mpr printable

theorem isControl_member {f : Field} {d : Char} (hd : d ∈ member f.1 f.2) : isControl d = false := by
  have escaped {s : String} (hd : d ∈ escape s) : isControl d = false := by
    obtain ⟨c, -, hd⟩ := List.mem_flatMap.mp hd
    exact isControl_escapeChar hd
  simp only [member, List.mem_append, List.mem_cons, List.not_mem_nil, or_false] at hd
  rcases hd with (((rfl | key) | rfl | rfl | rfl) | value) | rfl
  · decide
  · exact escaped key
  · decide
  · decide
  · decide
  · exact escaped value
  · decide

/-! ## Members -/

theorem intercalate_cons {α : Type} (sep m : List α) (ms : List (List α)) :
    sep.intercalate (m :: ms) = m ++ ms.flatMap fun n => sep ++ n := by
  induction ms generalizing m with
  | nil => simp
  | cons n ms ih => simp only [List.intercalate_cons_cons, ih, List.flatMap_cons, List.append_assoc]

/-- A line is its first member and every other one behind a comma. -/
theorem body_eq (l : Line) : l.body = '{' :: (member "event" l.event ++
    ((("severity", l.severity.name) :: l.sortedFields).flatMap (fun f => ',' :: member f.1 f.2) ++ ['}'])) := by
  have rest (fs : List Field) : (fs.map fun f => member f.1 f.2).flatMap (fun n => [','] ++ n) =
      fs.flatMap fun f => ',' :: member f.1 f.2 := by
    rw [List.flatMap_map]
    rfl
  unfold body members
  rw [List.map_cons, intercalate_cons, rest]
  simp

/-- **A line is not broken**: no control character stands in it. -/
theorem isControl_body {l : Line} {d : Char} (hd : d ∈ l.body) : isControl d = false := by
  rw [body_eq] at hd
  rcases List.mem_cons.mp hd with rfl | hd
  · decide
  rcases List.mem_append.mp hd with first | hd
  · exact isControl_member (f := ("event", l.event)) first
  rcases List.mem_append.mp hd with other | brace
  · obtain ⟨f, -, hd⟩ := List.mem_flatMap.mp other
    rcases List.mem_cons.mp hd with rfl | hd
    · decide
    · exact isControl_member hd
  · rw [List.mem_singleton.mp brace]
    decide

def told (fs : List Field) : List (String × Value) := fs.map fun f => (f.1, .string f.2)

theorem bytes_member (f : Field) (ys : Bytes) : bytes (member f.1 f.2) ++ ys =
    0x22 :: (bytes (escape f.1) ++ 0x22 :: 0x3A :: 0x22 :: (bytes (escape f.2) ++ 0x22 :: ys)) := by
  have quote : bytes ['"'] = [0x22] := by decide
  have colon : bytes ['"', ':', '"'] = [0x22, 0x3A, 0x22] := by decide
  unfold member
  rw [bytes_append, bytes_append, bytes_append, bytes_append, quote, colon]
  simp only [List.append_assoc, List.cons_append, List.nil_append]

/-- Where a member stands, behind a comma unless it is the first, it is read, and then what follows it. -/
theorem reads_member {levels rounds : Nat} (first : Bool) (f : Field) {xs ys : Bytes} {ms : List (String × Value)}
    (rest : Reads (pairs (value (levels + 1)) rounds false) xs ms ys) :
    Reads (pairs (value (levels + 1)) (rounds + 1) first)
      (Json.Printer.itemLead .compact 0 first ++ (bytes (member f.1 f.2) ++ xs)) ((f.1, .string f.2) :: ms) ys := by
  rw [bytes_member]
  refine (Json.reads_anotherKey .compact 0 first _).bind ?_
  simp only [if_true]
  refine Reads.bind ((reads_drop 0x22 _).bind (reads_escape f.1 _)) ?_
  refine Reads.bind ((reads_next (Json.dark_cons _ (by decide))).bind (reads_drop 0x3A _)) ?_
  have text : Reads (value (levels + 1)) (0x22 :: (bytes (escape f.2) ++ 0x22 :: xs)) (.string f.2) xs := by
    refine (reads_next (Json.dark_cons _ (by decide))).bind ?_
    exact (reads_drop 0x22 _).bind ((reads_escape f.2 xs).bind (reads_pure _ xs))
  exact text.bind (rest.bind (reads_pure _ ys))

/-- The members that go on an object, each behind a comma, are read up to the brace. -/
theorem reads_members (levels : Nat) (fs : List Field) {rounds : Nat} (enough : fs.length < rounds) (ys : Bytes) :
    Reads (pairs (value (levels + 1)) rounds false)
      (bytes (fs.flatMap fun f => ',' :: member f.1 f.2) ++ 0x7D :: ys) (told fs) (0x7D :: ys) := by
  induction fs generalizing rounds with
  | nil =>
    obtain ⟨rounds, rfl⟩ := Nat.exists_eq_add_one_of_ne_zero (Nat.ne_of_gt enough)
    exact (Json.reads_lastKey false Json.blank_nil ys).bind (reads_pure [] _)
  | cons f fs ih =>
    obtain ⟨rounds, rfl⟩ := Nat.exists_eq_add_one_of_ne_zero (Nat.ne_of_gt (Nat.zero_lt_of_lt enough))
    rw [List.flatMap_cons, bytes_append, List.append_assoc]
    exact reads_member false f (ih (Nat.lt_of_succ_lt_succ enough))

theorem length_le_members (fs : List Field) :
    fs.length ≤ (bytes (fs.flatMap fun f => ',' :: member f.1 f.2)).length := by
  induction fs with
  | nil => exact Nat.le_refl 0
  | cons f fs ih =>
    have comma : bytes (',' :: member f.1 f.2) = 0x2C :: bytes (member f.1 f.2) := rfl
    rw [List.flatMap_cons, bytes_append, comma]
    simp only [List.length_append, List.length_cons]
    omega

theorem reads_object (levels : Nat) (f : Field) (fs : List Field) :
    Reads (pairsOfValue (value (levels + 1)))
      (0x7B :: (bytes (member f.1 f.2) ++ (bytes (fs.flatMap fun f => ',' :: member f.1 f.2) ++ [0x7D])))
      (told (f :: fs)) [] := by
  refine (reads_next (Json.dark_cons _ (by decide))).bind ?_
  refine (reads_drop 0x7B _).bind (Reads.bind ?_ ((Json.reads_endObject []).bind (reads_pure (told (f :: fs)) [])))
  refine Reads.sized (r := fun rounds => pairs (value (levels + 1)) rounds true) ?_
  refine reads_member true f (reads_members levels fs ?_ [])
  have count := length_le_members fs
  rw [List.length_append, List.length_append, List.length_singleton]
  omega

/-- **A line is one JSON object, and its members are the event, the severity and the fields**, in this order. -/
theorem pairs_body (l : Line) : Value.pairs (.ofList l.body) = .ok (told l.members) := by
  have text : Text.encode (.ofList l.body) = 0x7B :: (bytes (member "event" l.event) ++
      (bytes ((("severity", l.severity.name) :: l.sortedFields).flatMap fun f => ',' :: member f.1 f.2) ++
        [0x7D])) := by
    rw [Text.encode_ofList, body_eq, List.flatMap_cons, List.flatMap_append, List.flatMap_append]
    rfl
  have reads := reads_object 126 ("event", l.event) (("severity", l.severity.name) :: l.sortedFields)
  rw [← text] at reads
  exact Json.document_of_reads reads rfl

/-! ## The order of the fields -/

/-- Whether `sorted` is `given` in the order of the keys, and equal keys in the order they were given. -/
structure SortedByKey (given sorted : List Field) : Prop where
  ordered : sorted.Pairwise fun a b => a.1 ≤ b.1
  perm : sorted.Perm given
  stable : ∀ k, sorted.filter (fun f => f.1 = k) = given.filter fun f => f.1 = k

theorem sortedByKey_sortedFields (l : Line) : SortedByKey l.fields l.sortedFields := by
  have trans (a b c : Field) (ab : decide (a.1 ≤ b.1) = true) (bc : decide (b.1 ≤ c.1) = true) :
      decide (a.1 ≤ c.1) = true := by
    rw [decide_eq_true_eq] at ab bc ⊢
    exact String.le_trans ab bc
  have total (a b : Field) : (decide (a.1 ≤ b.1) || decide (b.1 ≤ a.1)) = true := by
    simp only [Bool.or_eq_true, decide_eq_true_eq]
    exact String.le_total a.1 b.1
  have perm : l.sortedFields.Perm l.fields := List.mergeSort_perm l.fields _
  refine ⟨?_, perm, fun k => ?_⟩
  · exact (List.pairwise_mergeSort trans total l.fields).imp of_decide_eq_true
  · -- the fields of one key are in order as they were given, so sorting leaves them in this order
    let here (f : Field) : Bool := f.1 = k
    have inOrder : (l.fields.filter here).Pairwise fun a b => decide (a.1 ≤ b.1) = true := by
      refine List.pairwise_of_forall_mem_list fun a ha b hb => ?_
      have left : a.1 = k := of_decide_eq_true (List.mem_filter.mp ha).2
      have right : b.1 = k := of_decide_eq_true (List.mem_filter.mp hb).2
      rw [left, right]
      exact decide_eq_true (String.le_refl k)
    have within : List.Sublist (l.fields.filter here) l.sortedFields :=
      List.sublist_mergeSort trans total inOrder List.filter_sublist
    have kept : List.Sublist (l.fields.filter here) (l.sortedFields.filter here) := by
      have narrowed := within.filter here
      rwa [List.filter_filter, List.filter_congr (fun f _ => Bool.and_self (here f))] at narrowed
    exact (kept.eq_of_length (perm.filter here).length_eq.symm).symm

/-- **If the keys differ, their order in the call does not matter.** -/
theorem sortedFields_of_perm {l l' : Line} (differ : (l.fields.map (·.1)).Nodup) (perm : l'.fields.Perm l.fields) :
    l'.sortedFields = l.sortedFields := by
  have sorted := sortedByKey_sortedFields l
  have sorted' := sortedByKey_sortedFields l'
  have same : l'.sortedFields.Perm l.sortedFields := (sorted'.perm.trans perm).trans sorted.perm.symm
  refine List.Perm.eq_of_pairwise ?_ sorted'.ordered sorted.ordered same
  intro a b ha hb below above
  have given : a ∈ l.fields := perm.subset (sorted'.perm.subset ha)
  exact List.inj_on_of_nodup_map differ given (sorted.perm.subset hb) (String.le_antisymm below above)

/-! ## A line and its call -/

theorem told_inj {fs gs : List Field} (same : told fs = told gs) : fs = gs := by
  refine List.map_injective_iff.mpr ?_ same
  intro f g same
  injection same with key value
  injection value with text
  exact Prod.ext key text

theorem name_inj {s t : Severity} (same : s.name = t.name) : s = t := by
  revert same
  cases s <;> cases t <;> decide

theorem render_eq (l : Line) : l.render = .ofList l.body ++ "\n" := String.ofList_append

/-- A line is written by one call only, up to the order in which it was given its fields. -/
theorem eq_of_render {l l' : Line} (same : l'.render = l.render) :
    l'.severity = l.severity ∧ l'.event = l.event ∧ l'.sortedFields = l.sortedFields := by
  have bodies : l'.body = l.body := by
    have chars := congrArg String.toList same
    simp only [render, String.toList_ofList] at chars
    exact List.append_cancel_right chars
  have read := pairs_body l'
  rw [bodies, pairs_body l] at read
  injection read with told
  have members : l.members = l'.members := told_inj told
  injection members with event rest
  injection rest with severity fields
  exact ⟨name_inj (congrArg Prod.snd severity).symm, (congrArg Prod.snd event).symm, fields.symm⟩

/-- **A line tells its call and nothing else.** It is one JSON object and the newline behind it. Its members are the
event, the severity and the fields in the order of their keys, with the texts that the call gave; another call that
writes the same line gave the same, and if the keys differ it may have given the fields in any order. -/
theorem a_line_tells_its_call_and_nothing_else (l : Line) :
    ∃ body : String, l.render = body ++ "\n" ∧ '\n' ∉ body.toList ∧
      Value.pairs body = .ok (told (("event", l.event) :: ("severity", l.severity.name) :: l.sortedFields)) ∧
      Value.parse body = .ok (.object (Value.keep [] (told l.members))) ∧
      SortedByKey l.fields l.sortedFields ∧
      (∀ l' : Line, l'.render = l.render →
        l'.severity = l.severity ∧ l'.event = l.event ∧ l'.sortedFields = l.sortedFields) ∧
      ((l.fields.map (·.1)).Nodup → ∀ fields : List Field, fields.Perm l.fields →
        ({ l with fields := fields } : Line).render = l.render) := by
  refine ⟨.ofList l.body, render_eq l, ?_, pairs_body l, Json.parse_of_pairs (pairs_body l),
    sortedByKey_sortedFields l, fun _ => eq_of_render, fun differ fields perm => ?_⟩
  · intro broken
    rw [String.toList_ofList] at broken
    exact absurd (isControl_body broken) (by decide)
  · have sorted : ({ l with fields := fields } : Line).sortedFields = l.sortedFields := sortedFields_of_perm differ perm
    unfold render body members
    rw [sorted]

def unruly : Line where
  severity := .warn
  event := "up\n"
  fields := [("path", "a\"b\\\n"), ("event", "down")]

/-- It is written the same with its fields the other way round. -/
theorem two_orders_of_unruly_fields_write_one_line :
    (unruly.fields.map (·.1)).Nodup ∧ unruly.fields.reverse.Perm unruly.fields ∧
      ({ unruly with fields := unruly.fields.reverse } : Line).render = unruly.render ∧
      ({ unruly with fields := unruly.fields.reverse } : Line).sortedFields = unruly.sortedFields := by
  obtain ⟨body, -, -, -, -, -, only, anyOrder⟩ := a_line_tells_its_call_and_nothing_else unruly
  have differ : (unruly.fields.map (·.1)).Nodup := by decide
  have perm : unruly.fields.reverse.Perm unruly.fields := List.reverse_perm unruly.fields
  have same := anyOrder differ unruly.fields.reverse perm
  exact ⟨differ, perm, same, (only _ same).2.2⟩

end Line

end DurableValue.Journal
