/-
  DurableValue.Proofs.Json.Onward — each reader follows itself.

  What a reader of strings, numbers, lists, objects or whole documents made of a source that fails, it makes of every
  source that starts alike. Readers that are made of each other are shown in the order in which they are defined, from
  the bytes of a string (`stays_escape`) over numbers (`runs_readRest`), lists and objects (`follows_items`,
  `follows_members`) to the values of each type.
-/
import DurableValue.Proofs.Json.Steady

namespace DurableValue.Json

open Reading

/-! ## Strings -/

namespace Literal

theorem eats_takeByte : Eats takeByte := by
  refine runs_take.bind fun next => ?_
  cases next with
  | none => exact runs_failHere _
  | some b => exact runs_pure fun _ _ left => left rfl

theorem stays_hexEscape : Stays hexEscape := by
  refine eats_takeByte.stays.bind fun a => eats_takeByte.stays.bind fun b => ?_
  refine eats_takeByte.stays.bind fun c => eats_takeByte.stays.bind fun d => ?_
  split
  · exact stays_pure _
  · exact runs_failHere _

theorem stays_pairByte (b : UInt8) : Stays (pairByte b) := by
  refine runs_peek.bind fun next => ?_
  cases next with
  | none => exact runs_failHere _
  | some found =>
    exact (stays_drop found).bind fun _ => runs_ite (fun _ => stays_pure ()) fun _ => runs_failHere _

theorem stays_unicodeEscape : Stays unicodeEscape := by
  refine stays_hexEscape.bind fun n => runs_ite (fun _ => runs_failHere _) fun _ => ?_
  refine runs_ite (fun _ => stays_pure _) fun _ => ?_
  refine (stays_pairByte _).bind fun _ => (stays_pairByte _).bind fun _ => stays_hexEscape.bind fun m => ?_
  exact runs_ite (fun _ => runs_failHere _) fun _ => stays_pure _

theorem stays_escape : Stays escape := by
  refine eats_takeByte.stays.bind fun b => ?_
  iterate 6 refine runs_ite (fun _ => stays_pure _) fun _ => ?_
  exact runs_ite (fun _ => stays_unicodeEscape) fun _ => runs_failHere _

theorem follows_content {more : Bytes} {ending : Ending} {k n m : Nat} (enough : k ≤ n) (enough' : k ≤ m) :
    Follows more ending (Under k) (content n) (content m) fun _ => Under k := by
  refine follows_rounds (f := fun n (_ : Unit) => content n) (fun k _ _ rest _ => ?_) enough enough' ()
  refine Follows.imp ((eats_takeByte k more ending).bind fun b => ?_) (fun _ => id) fun _ _ => Under.succ
  refine follows_ite (fun _ => stays_pure [] k more ending) fun _ => follows_ite (fun _ => ?_) fun _ => ?_
  · exact (stays_escape k more ending).bind fun e => (rest ()).bind fun bs => stays_pure (e ++ bs) k more ending
  · refine follows_ite (fun _ => follows_failHere _) fun _ => ?_
    exact (rest ()).bind fun bs => stays_pure (b :: bs) k more ending

theorem stays_decoded (bs : Bytes) : Stays (decoded bs) := by
  unfold decoded
  cases Text.decode? bs with
  | some s => exact stays_pure s
  | none => exact fun _ _ _ => follows_refused (fun _ => ⟨_, _, _, rfl⟩) fun _ => ⟨_, _, _, rfl⟩

theorem stays_read : Stays read :=
  stays_sized fun more ending k _ _ enough enough' =>
    (follows_content enough enough').bind fun bs => stays_decoded bs k more ending

theorem follows_skip {more : Bytes} {ending : Ending} {k n m : Nat} (enough : k ≤ n) (enough' : k ≤ m) :
    Follows more ending (Under k) (skip n) (skip m) fun _ => Under k := by
  refine follows_rounds (f := fun n (_ : Unit) => skip n) (fun k _ _ rest _ => ?_) enough enough' ()
  refine Follows.imp ((eats_takeByte k more ending).bind fun b => ?_) (fun _ => id) fun _ _ => Under.succ
  refine follows_ite (fun _ => stays_pure () k more ending) fun _ => follows_ite (fun _ => ?_) fun _ => ?_
  · refine (eats_takeByte.stays k more ending).bind fun e => follows_ite (fun _ => ?_) fun _ => ?_
    · exact (stays_hexEscape k more ending).bind fun _ => rest ()
    · exact follows_ite (fun _ => rest ()) fun _ => follows_failHere _
  · exact follows_ite (fun _ => follows_failHere _) fun _ => rest ()

end Literal

/-! ## Numbers -/

namespace Number

theorem runs_fromParts {P : Nat → Cursor → Prop} (negative : Bool) (significand : Nat) (exponent : Int) :
    Runs P (fromParts negative significand exponent) fun n _ => P n := by
  unfold fromParts
  split
  · exact runs_pure fun _ _ => id
  · exact runs_failHere _

theorem overflowAt_append {exponent taken k : Nat} {ds : Bytes} (found : overflowAt exponent taken ds = some k)
    (more : Bytes) : overflowAt exponent taken (ds ++ more) = some k := by
  induction ds generalizing exponent taken with
  | nil => cases found
  | cons d ds ih =>
    simp only [List.cons_append, overflowAt] at found ⊢
    split at found
    · rw [if_pos ‹_›]
      exact ih found
    · rwa [if_neg ‹_›]

def powered (negative : Bool) (significand : Nat) (exponent : Int) (sign : Option UInt8) (ds : Bytes)
    (start : Cursor) : Reading Value :=
  match overflowAt 0 0 ds with
  | some taken =>
    if significand ≠ 0 ∧ sign ≠ some 0x2D then do
      set { start with column := start.column + (taken - 1) }
      failHere .numberOutOfRange
    else do
      let _ ← digits
      pure (signed negative .zero)
  | none => do
    let _ ← digits
    fromParts negative significand
      (if sign = some 0x2D then exponent - Decimal.value ds else exponent + Decimal.value ds)

section

variable {more : Bytes} {ending : Ending} {n : Nat} (negative : Bool) (significand : Nat) (exponent : Int)
  (sign : Option UInt8) {ds ds' : Bytes} (start start' : Cursor)

theorem follows_digits {f : Bytes × Option UInt8 → Reading Value} (parts : ∀ found, Stays (f found)) :
    Follows more ending (Under n) (digits >>= f) (digits >>= f) fun _ => Under n :=
  ((runs_digits n more ending).imp (fun _ => id) fun _ _ => And.left).bind fun found => parts found n more ending

/-- Once the exponent has overflowed, the digits behind make no difference. -/
theorem follows_powered_some {taken : Nat} (overflow : overflowAt 0 0 ds = some taken)
    (overflow' : overflowAt 0 0 ds' = some taken) :
    Follows more ending (Under n) (powered negative significand exponent sign ds start)
      (powered negative significand exponent sign ds' start') fun _ => Under n := by
  unfold powered
  rw [overflow, overflow']
  refine follows_ite (fun _ => ?_) fun _ => follows_digits fun _ => stays_pure _
  exact follows_refused (fun _ => ⟨_, _, _, rfl⟩) fun _ => ⟨_, _, _, rfl⟩

theorem follows_powered_none (fits : overflowAt 0 0 ds = none) :
    Follows more ending (Under n) (powered negative significand exponent sign ds start)
      (powered negative significand exponent sign ds start') fun _ => Under n := by
  unfold powered
  rw [fits]
  exact follows_digits fun _ => runs_fromParts _ _ _

end

theorem digits_of_end {c : Cursor} {e : Disk.IoError} (rest : (digitsFrom c c.rest).2.rest = [])
    (failing : c.ending = .fail e) : digits c = .error (.source e) := by
  have read := peek_of_end rest ((moves_overDigits.ending c).trans failing)
  simp only [digits, read]

/-- The exponent is judged by all digits that are there, and a longer source may have more of them. -/
theorem stays_powered (negative : Bool) (significand : Nat) (exponent : Int) (sign : Option UInt8) (d : UInt8) :
    Stays (do
      let start ← get
      powered negative significand exponent sign (d :: (digitsFrom start start.rest).1) start) := by
  intro n more ending
  have reads (c : Cursor) : (do
        let start ← get
        powered negative significand exponent sign (d :: (digitsFrom start start.rest).1) start) c =
      powered negative significand exponent sign (d :: (digitsFrom c c.rest).1) c c := rfl
  refine follows_at fun c under => ?_
  obtain ⟨begins, same⟩ := (digitsFrom_spec _ c rfl).2.2 more ending
  cases overflow : overflowAt 0 0 (d :: (digitsFrom c c.rest).1) with
  | some taken =>
    obtain ⟨further, whole⟩ := begins
    have again := overflowAt_append overflow further
    rw [List.cons_append, whole] at again
    exact ⟨_, _, reads c, follows_powered_some _ _ _ _ _ _ overflow again,
      fun e _ => Or.inr (reads (c.extended more ending))⟩
  | none =>
    refine ⟨_, _, reads c, follows_powered_none _ _ _ _ c (c.extended more ending) overflow, fun e failing => ?_⟩
    by_cases rest : (digitsFrom c c.rest).2.rest = []
    -- If the digits go on to the failure, reading them meets it; otherwise the longer source has the same.
    · left
      unfold powered
      rw [overflow]
      change (digits >>= _) c = _
      rw [bind_apply, digits_of_end rest failing]
    · right
      refine (reads (c.extended more ending)).trans ?_
      rw [extended_rest, same rest]

theorem isSome_of_sign {next : Option UInt8} (sign : (next = some 0x2B || next = some 0x2D) = true) :
    next.isSome = true := by
  cases next with
  | none => cases sign
  | some b => rfl

theorem runs_readExponent (negative : Bool) (significand : Nat) (exponent : Int) (b : UInt8) :
    Runs (fun n => Behind n (some b)) (readExponent negative significand exponent) fun n _ => Under n := by
  refine (stays_drop b).bind fun _ => runs_peek.bind fun sign => ?_
  dsimp only
  refine runs_dropIf isSome_of_sign fun _ => Runs.slack (runs_take.bind fun next => ?_) not_under_zero
  cases next with
  | none => exact runs_failHere _
  | some d =>
    refine runs_ite (fun _ => runs_failHere _) fun _ => Runs.before ?_ fun n c left => left rfl
    exact stays_powered negative significand exponent sign d

theorem isSome_of_mark {next : Option UInt8} (mark : isExponentMark next = true) : next.isSome = true := by
  cases next with
  | none => cases mark
  | some b => rfl

/-- What comes behind the digits before an exponent, if there is one. -/
theorem runs_exponentOr {α : Type} {next : Option UInt8} {r s : Reading α}
    (exponent : ∀ b, Runs (fun n => Behind n (some b)) r fun n _ => Under n) (rest : Stays s) :
    Runs (fun n => Behind n next) (if isExponentMark next then r else s) fun n _ => Under n := by
  refine runs_ite (fun mark => ?_) fun _ => rest.before fun _ _ => And.left
  obtain ⟨b, rfl⟩ := Option.isSome_iff_exists.mp (isSome_of_mark mark)
  exact exponent b

theorem runs_readFraction (negative : Bool) (significand : Nat) (exponent : Int) (b : UInt8) :
    Runs (fun n => Behind n (some b)) (readFraction negative significand exponent) fun n _ => Under n :=
  (stays_drop b).bind fun _ => runs_digits.bind fun _ =>
    runs_ite (fun _ => runs_failAhead _) fun _ => runs_exponentOr (runs_readExponent _ _ _) (runs_fromParts _ _ _)

theorem runs_readRest (negative : Bool) (significand dropped : Nat) (next : Option UInt8) :
    Runs (fun n => Behind n next) (readRest negative significand dropped next) fun n _ => Under n := by
  refine runs_ite (fun point => ?_) fun _ => runs_exponentOr (runs_readExponent _ _ _) ?_
  · subst point
    exact runs_readFraction _ _ _ _
  · exact runs_ite (fun _ => stays_pure _) fun _ => runs_fromParts _ _ _

theorem eats_read (negative : Bool) : Eats (read negative) := by
  refine runs_take.bind fun next => ?_
  cases next with
  | none => exact runs_failHere _
  | some d =>
    refine Runs.before (P := fun n => Under n) ?_ fun _ _ left => left rfl
    refine runs_ite (fun _ => runs_peek.bind fun next => ?_) fun _ => runs_ite (fun _ => ?_) fun _ => runs_failHere _
    · exact runs_ite (fun _ => runs_failAhead _) fun _ => runs_readRest negative 0 0 next
    · exact runs_digits.bind fun found => runs_readRest negative _ _ found.2

end Number

/-! ## Lists and objects -/

namespace Reader

variable {α : Type} {item : Reading α}

theorem stays_anotherItem (first : Bool) : Stays (anotherItem first) := by
  refine runs_blanks.bind fun next => ?_
  split
  · exact runs_failAhead _
  · exact runs_pure fun _ _ => And.left
  · rename_i b _
    refine runs_ite (fun _ => runs_pure fun _ _ => And.left) fun _ => runs_ite (fun _ => ?_) fun _ => runs_failAhead _
    refine (stays_drop b).bind fun _ => runs_blanks.bind fun next => ?_
    split
    · exact runs_failAhead _
    · exact runs_failAhead _
    · exact runs_pure fun _ _ => And.left

/-- If another key follows, it is next. -/
theorem runs_anotherKey (first : Bool) :
    Runs (fun n => Under n) (anotherKey first) fun n another c => Under n c ∧ (another = true → c.rest ≠ []) := by
  have seen (b : UInt8) : Runs (fun n => Behind n (some b)) (pure true : Reading Bool) fun n another c =>
      Under n c ∧ (another = true → c.rest ≠ []) := runs_pure fun _ _ behind => ⟨behind.1, fun _ => behind.2 rfl⟩
  refine runs_blanks.bind fun next => ?_
  split
  · exact runs_failAhead _
  · exact runs_pure fun _ _ behind => ⟨behind.1, nofun⟩
  · rename_i b _
    refine runs_ite (fun _ => runs_ite (fun _ => seen b) fun _ => runs_failAhead _) fun _ => ?_
    refine runs_ite (fun _ => (stays_drop b).bind fun _ => runs_blanks.bind fun next => ?_) fun _ => runs_failAhead _
    split
    · exact runs_failAhead _
    · exact seen _
    · exact runs_failAhead _
    · exact runs_failAhead _

theorem eats_key : Runs (fun n c => Under (n + 1) c ∧ c.rest ≠ []) key fun n _ => Under n :=
  ((eats_drop 0x22).bind fun _ => Literal.stays_read).before fun _ _ there => ⟨there.1, fun _ => there.2⟩

theorem stays_colon : Stays colon := by
  refine runs_blanks.bind fun next => ?_
  split
  · exact runs_failAhead _
  · exact stays_drop _
  · exact runs_failAhead _

theorem refused_extraItem (c : Cursor) : Refused ((extraItem : Reading α) c) := by
  unfold extraItem
  split <;> exact ⟨_, _, _, rfl⟩

theorem stays_endList : Stays endList := by
  refine runs_blanks.bind fun next => ?_
  split
  · exact runs_failAhead _
  · exact stays_drop _
  · exact (stays_drop _).bind fun _ _ _ _ => follows_refused refused_extraItem refused_extraItem
  · exact runs_failAhead _

theorem stays_endObject : Stays endObject := by
  refine runs_blanks.bind fun next => ?_
  split
  · exact runs_failAhead _
  · exact stays_drop _
  · exact runs_failAhead _
  · exact runs_failAhead _

section

variable {more : Bytes} {ending : Ending} {k n m : Nat}

theorem follows_items (each : Eats item) (enough : k ≤ n) (enough' : k ≤ m) (first : Bool) :
    Follows more ending (Under k) (items item n first) (items item m first) fun _ => Under k := by
  refine follows_rounds (fun k _ _ rest first => ?_) enough enough' first
  refine ((stays_anotherItem first).later k more ending).bind fun another => follows_ite (fun _ => ?_) fun _ => ?_
  · exact (each k more ending).bind fun v => (rest false).bind fun vs => follows_pure fun _ => Under.succ
  · exact follows_pure fun _ => id

theorem follows_members (each : Eats item) (enough : k ≤ n) (enough' : k ≤ m) (first : Bool)
    (found : List (String × α)) :
    Follows more ending (Under k) (members item n first found) (members item m first found) fun _ => Under k := by
  refine follows_rounds (f := fun n (at' : Bool × List (String × α)) => members item n at'.1 at'.2)
    (fun k _ _ rest at' => ?_) enough enough' (first, found)
  refine (runs_anotherKey at'.1 (k + 1) more ending).bind fun another => follows_ite (fun more' => ?_) fun _ => ?_
  · refine Follows.imp (P := fun c => Under (k + 1) c ∧ c.rest ≠ []) ?_
      (fun c there => ⟨there.1, there.2 more'⟩) fun _ _ => Under.succ
    refine (eats_key k more ending).bind fun key => (stays_colon k more ending).bind fun _ => ?_
    exact (each.stays k more ending).bind fun v => rest (false, Value.insert key v at'.2)
  · exact follows_pure fun _ => And.left

end

theorem eats_list (each : Eats item) (b : UInt8) :
    Runs (fun n => Behind (n + 1) (some b)) (list item) fun n _ => Under n :=
  (eats_drop b).bind fun _ =>
    (stays_sized fun _ _ _ _ _ enough enough' => follows_items each enough enough' true).bind fun vs =>
      stays_endList.bind fun _ => stays_pure vs

theorem eats_object (each : Eats item) (b : UInt8) :
    Runs (fun n => Behind (n + 1) (some b)) (object item) fun n _ => Under n :=
  (eats_drop b).bind fun _ =>
    (stays_sized fun _ _ _ _ _ enough enough' => follows_members each enough enough' true []).bind fun ms =>
      stays_endObject.bind fun _ => stays_pure ms

/-! ## Values -/

/-- A look at the byte behind blanks, before a byte is taken. -/
theorem runs_blanks_eats {next : Option UInt8 → Reading α}
    (each : ∀ found, Runs (fun n => Behind (n + 1) found) (next found) fun n _ => Under n) : Eats (blanks >>= next) :=
  Runs.bind (fun n => runs_blanks (n + 1)) each

theorem eats_value (levels : Nat) : Eats (value levels) := by
  induction levels with
  | zero => exact runs_failAhead _
  | succ levels ih =>
    refine runs_blanks_eats fun next => ?_
    cases next with
    | none => exact runs_failAhead _
    | some b =>
      iterate 3 refine runs_ite (fun _ => eats_word fun _ => stays_pure _) fun _ => ?_
      refine runs_ite (fun _ => ?_) fun _ => runs_ite (fun _ => ?_) fun _ => ?_
      · exact (eats_drop b).bind fun _ => (Number.eats_read true).stays
      · exact (Number.eats_read false).before fun _ _ => And.left
      refine runs_ite (fun _ => ?_) fun _ => ?_
      · exact (eats_drop b).bind fun _ => Literal.stays_read.bind fun _ => stays_pure _
      refine runs_ite (fun _ => runs_ite (fun _ => runs_failAhead _) fun _ => ?_) fun _ => ?_
      · exact (eats_list ih b).bind fun _ => stays_pure _
      refine runs_ite (fun _ => runs_ite (fun _ => runs_failAhead _) fun _ => ?_) fun _ => runs_failAhead _
      exact (eats_object ih b).bind fun _ => stays_pure _

end Reader

/-! ## Values of a fixed type -/

namespace Shape

variable {α : Type} {item : Reading α}

theorem runs_mismatch (expected : String) {Q : Nat → α → Cursor → Prop} :
    Runs (fun n => Under (n + 1)) (mismatch expected : Reading α) Q := by
  unfold mismatch
  dsimp only
  refine Runs.bind (fun n => runs_peek (n + 1)) fun next => ?_
  cases next with
  | none => exact runs_failAhead _
  | some b =>
    iterate 3 refine runs_ite (fun _ => eats_word fun _ => runs_failHere _) fun _ => ?_
    refine runs_ite (fun _ => ?_) fun _ => runs_ite (fun _ => ?_) fun _ => ?_
    · refine runs_dropIf (fun _ => rfl) fun _ => (Number.eats_read _).bind fun v => ?_
      split
      · exact runs_failHere _
      · exact runs_failHere _
      · exact runs_failAhead _
    · exact (eats_drop b).bind fun _ => Literal.stays_read.bind fun _ => runs_failHere _
    · exact runs_ite (fun _ => runs_failHere _) fun _ => runs_ite (fun _ => runs_failHere _) fun _ => runs_failAhead _

theorem runs_start {next : UInt8 → Reading α}
    (each : ∀ b, Runs (fun n => Behind (n + 1) (some b)) (next b) fun n _ => Under n) : Eats (start >>= next) := by
  refine Runs.bind (Q := fun n b => Behind (n + 1) (some b)) ?_ each
  refine Runs.bind (fun n => runs_blanks (n + 1)) fun found => ?_
  cases found with
  | none => exact runs_failAhead _
  | some b => exact runs_pure fun _ _ => id

theorem eats_string : Eats string := by
  refine runs_start fun b => runs_ite (fun _ => ?_) fun _ => ?_
  · exact (eats_drop b).bind fun _ => Literal.stays_read
  · exact (runs_mismatch _).before fun _ _ => And.left

theorem eats_bool : Eats bool := by
  refine runs_start fun b => ?_
  iterate 2 refine runs_ite (fun _ => eats_word fun _ => stays_pure _) fun _ => ?_
  exact (runs_mismatch _).before fun _ _ => And.left

theorem eats_integer (expected : String) (least bound : Int) : Eats (integer expected least bound) := by
  refine runs_start fun b => runs_ite (fun _ => ?_) fun _ => (runs_mismatch _).before fun _ _ => And.left
  refine runs_dropIf (fun _ => rfl) fun _ => (Number.eats_read _).bind fun v => ?_
  split
  · exact runs_ite (fun _ => stays_pure _) fun _ => runs_failHere _
  · exact runs_failHere _
  · exact runs_failAhead _

theorem eats_list (each : Eats item) : Eats (list item) :=
  runs_start fun b => runs_ite (fun _ => Reader.eats_list each b) fun _ => (runs_mismatch _).before fun _ _ => And.left

theorem eats_map (each : Eats item) : Eats (map item) :=
  runs_start fun b => runs_ite (fun _ => Reader.eats_object each b) fun _ =>
    (runs_mismatch _).before fun _ _ => And.left

theorem eats_option (each : Eats item) : Eats (option item) := by
  refine Reader.runs_blanks_eats fun found => runs_ite (fun null => ?_) fun _ => ?_
  · subst null
    exact eats_word fun _ => stays_pure none
  · rw [map_eq_pure_bind]
    exact (each.bind fun a => stays_pure (some a)).before fun _ _ => And.left

end Shape

/-! ## Values that are skipped -/

namespace Skip

theorem runs_skipDigits : Runs (fun n => Under n) skipDigits fun n next => Behind n next :=
  runs_digits.bind fun _ => runs_pure fun _ _ => id

theorem runs_skipExponent (b : UInt8) : Runs (fun n => Behind n (some b)) skipExponent fun n _ => Under n := by
  refine (stays_drop b).bind fun _ => runs_peek.bind fun sign => ?_
  dsimp only
  refine runs_dropIf (Number.isSome_of_sign) fun _ => Runs.slack (runs_take.bind fun next => ?_) not_under_zero
  cases next with
  | none => exact runs_failHere _
  | some d =>
    refine Runs.before (P := fun n => Under n) ?_ fun _ _ left => left rfl
    refine runs_ite (fun _ => runs_skipDigits.bind fun _ => runs_pure fun _ _ => And.left) fun _ => runs_failHere _

theorem runs_skipFraction (b : UInt8) : Runs (fun n => Behind n (some b)) skipFraction fun n _ => Under n :=
  (stays_drop b).bind fun _ => runs_digits.bind fun _ =>
    runs_ite (fun _ => runs_failAhead _) fun _ => Number.runs_exponentOr runs_skipExponent (stays_pure ())

theorem eats_skipNumber : Eats skipNumber := by
  have behind (next : Option UInt8) : Runs (fun n => Behind n next)
      (if next = some 0x2E then skipFraction else if Number.isExponentMark next then skipExponent else pure ())
      fun n _ => Under n := by
    refine runs_ite (fun point => ?_) fun _ => Number.runs_exponentOr runs_skipExponent (stays_pure ())
    subst point
    exact runs_skipFraction _
  refine runs_take.bind fun next => ?_
  cases next with
  | none => exact runs_failHere _
  | some d =>
    refine Runs.before (P := fun n => Under n) ?_ fun _ _ left => left rfl
    refine runs_ite (fun _ => runs_peek.bind fun next => ?_) fun _ => runs_ite (fun _ => ?_) fun _ => runs_failHere _
    · exact runs_ite (fun _ => runs_failAhead _) fun _ => behind next
    · exact runs_skipDigits.bind behind

theorem stays_skipText : Stays skipText :=
  stays_sized fun _ _ _ _ _ enough enough' => Literal.follows_skip enough enough'

theorem stays_skipKey : Stays skipKey := by
  refine runs_blanks.bind fun next => ?_
  split
  · exact runs_failAhead _
  · exact (stays_drop _).bind fun _ => stays_skipText.bind fun _ => Reader.stays_colon
  · exact runs_failAhead _

theorem eats_skipStart : Eats skipStart := by
  refine Reader.runs_blanks_eats fun next => ?_
  cases next with
  | none => exact runs_failAhead _
  | some b =>
    iterate 3 refine runs_ite (fun _ => eats_word fun _ => stays_pure _) fun _ => ?_
    refine runs_ite (fun _ => ?_) fun _ => runs_ite (fun _ => ?_) fun _ => runs_ite (fun _ => ?_) fun _ => ?_
    · exact (eats_drop b).bind fun _ => eats_skipNumber.stays.bind fun _ => stays_pure none
    · exact (eats_skipNumber.bind fun _ => stays_pure none).before fun _ _ => And.left
    · exact (eats_drop b).bind fun _ => stays_skipText.bind fun _ => stays_pure none
    · refine runs_ite (fun _ => ?_) fun _ => runs_ite (fun _ => ?_) fun _ => runs_failAhead _
      · exact (eats_drop b).bind fun _ => stays_pure _
      · exact (eats_drop b).bind fun _ => stays_pure _

theorem stays_skipBetween (fresh : Bool) (stack : List Bracket) : Stays (skipBetween fresh stack) := by
  induction stack generalizing fresh with
  | nil => exact stays_pure []
  | cons b outer ih =>
    refine runs_blanks.bind fun next => ?_
    cases next with
    | none => exact runs_failAhead _
    | some found =>
      refine runs_ite (fun _ => (stays_drop found).bind fun _ => stays_pure _) fun _ => ?_
      refine runs_ite (fun _ => (stays_drop found).bind fun _ => ih false) fun _ => ?_
      exact runs_ite (fun _ => runs_pure fun _ _ => And.left) fun _ => runs_failAhead _

theorem follows_skipWithin {more : Bytes} {ending : Ending} {k n m : Nat} (enough : k ≤ n) (enough' : k ≤ m)
    (stack : List Bracket) :
    Follows more ending (Under k) (skipWithin n stack) (skipWithin m stack) fun _ => Under k := by
  refine follows_rounds (fun k _ _ rest stack => ?_) enough enough' stack
  refine Follows.imp ((eats_skipStart k more ending).bind fun opened => ?_) (fun _ => id) fun _ _ => Under.succ
  cases opened <;> refine (stays_skipBetween _ _ k more ending).bind fun left => ?_
  all_goals
    cases left with
    | nil => exact stays_pure () k more ending
    | cons b bs => exact follows_ite (fun _ => (stays_skipKey k more ending).bind fun _ => rest _) fun _ => rest _

theorem stays_value : Stays value :=
  stays_sized fun _ _ _ _ _ enough enough' => follows_skipWithin enough enough' []

end Skip

/-! ## Records -/

namespace Record

variable {σ ρ α β : Type}

def Snag.atOnce : Snag → Error
  | placed e => e
  | whole p c => c.errorHere p

/-- The filling in of a record that does not wait for its end to complain. -/
def plain (fill : Filling α) : Reading α := fun c => (fill c).mapError Snag.atOnce

@[simp] theorem plain_placed (r : Reading α) : plain (placed r) = r := by
  funext c
  unfold plain placed
  rcases r c with e | ⟨a, d⟩ <;> rfl

@[simp] theorem plain_bind (fill : Filling α) (f : α → Filling β) :
    plain (fill >>= f) = plain fill >>= fun a => plain (f a) := by
  funext c
  change ((fill c).bind fun (a, d) => f a d).mapError _ = ((fill c).mapError _).bind fun (a, d) => plain (f a) d
  rcases fill c with e | ⟨a, d⟩ <;> rfl

/-- Brackets around a record change where its complaints are placed, and nothing else. -/
theorem alike_enclosed (fill : Filling ρ) (close : UInt8) (closing : Reading Unit) (c : Cursor) :
    Alike (enclosed fill close closing c) ((do let v ← plain fill; closing; pure v : Reading ρ) c) := by
  unfold enclosed
  rw [bind_apply]
  unfold plain
  rcases fill c with (e | ⟨p, d⟩) | ⟨v, d⟩
  · exact Or.inl rfl
  · exact Or.inr ⟨⟨_, _, _, rfl⟩, _, _, _, rfl⟩
  · exact Or.inl rfl

theorem runs_enclosed {P : Nat → Cursor → Prop} {fill : Filling ρ} {close : UInt8} {closing : Reading Unit}
    (fills : Runs P (plain fill) fun n _ => Under n) (closes : Stays closing) :
    Runs P (enclosed fill close closing) fun n _ => Under n := fun n more ending =>
  (fills.bind (fun v => closes.bind fun _ => stays_pure v) n more ending).alike (alike_enclosed fill close closing)
    (alike_enclosed fill close closing)

theorem stays_completed (r : Record σ ρ) (s : σ) : Stays (plain (r.completed s)) := by
  unfold completed
  split
  · exact stays_pure _
  · exact runs_failHere _

section

variable {r : Record σ ρ} (each : ∀ f ∈ r.fields, ∀ s, Stays (f.read s))

include each

theorem stays_fromItems {fs : List (Field σ)} (known : ∀ f ∈ fs, f ∈ r.fields) (count : Nat) (first : Bool) (s : σ) :
    Stays (plain (r.fromItems fs count first s)) := by
  induction fs generalizing count first s with
  | nil => exact stays_pure s
  | cons f fs ih =>
    obtain ⟨here, known⟩ := List.forall_mem_cons.mp known
    unfold fromItems
    rw [plain_bind, plain_placed]
    refine (Reader.stays_anotherItem first).bind fun another => ?_
    split
    · rw [plain_bind, plain_placed]
      exact (each f here s).bind fun s => ih known _ _ s
    · split
      · exact ih known _ _ s
      · exact runs_failHere _

theorem follows_fromMembers {more : Bytes} {ending : Ending} {k n m : Nat} (enough : k ≤ n) (enough' : k ≤ m)
    (first : Bool) (s : σ) :
    Follows more ending (Under k) (plain (r.fromMembers n first s)) (plain (r.fromMembers m first s)) fun _ =>
      Under k := by
  refine follows_rounds (f := fun n (at' : Bool × σ) => plain (r.fromMembers n at'.1 at'.2))
    (fun k n m rest at' => ?_) enough enough' (first, s)
  simp only [fromMembers, plain_bind, plain_placed]
  refine (Reader.runs_anotherKey at'.1 (k + 1) more ending).bind fun another => ?_
  cases another with
  | false => exact follows_pure fun _ => And.left
  | true =>
    simp only [if_true, plain_bind, plain_placed]
    refine Follows.imp (P := fun c => Under (k + 1) c ∧ c.rest ≠ []) ?_ (fun c there => ⟨there.1, there.2 trivial⟩)
      fun _ _ => Under.succ
    refine (Reader.eats_key k more ending).bind fun key => ?_
    split
    · rename_i f found
      split
      · exact follows_failHere _
      · simp only [plain_bind, plain_placed]
        refine (Reader.stays_colon k more ending).bind fun _ => ?_
        exact (each f (List.mem_of_find?_eq_some found) at'.2 k more ending).bind fun s => rest (false, s)
    · split
      · exact follows_failHere _
      · simp only [plain_bind, plain_placed]
        refine (Reader.stays_colon k more ending).bind fun _ => ?_
        exact (Skip.stays_value k more ending).bind fun _ => rest (false, at'.2)

theorem eats_read : Eats r.read := by
  refine Shape.runs_start fun b => runs_ite (fun _ => ?_) fun _ => runs_ite (fun _ => ?_) fun _ => ?_
  · refine (eats_drop b).bind fun _ => runs_enclosed ?_ Reader.stays_endList
    rw [plain_bind]
    exact (stays_fromItems each (fun _ => id) 0 true r.blank).bind (stays_completed r)
  · refine (eats_drop b).bind fun _ => runs_enclosed ?_ Reader.stays_endObject
    refine stays_sized (f := fun n => plain (r.fromMembers n true r.blank >>= r.completed)) ?_
    intro more ending k n m enough enough'
    simp only [plain_bind]
    exact (follows_fromMembers each enough enough' true r.blank).bind fun s => stays_completed r s k more ending
  · exact (Shape.runs_mismatch _).before fun _ _ => And.left

end

end Record

end DurableValue.Json
