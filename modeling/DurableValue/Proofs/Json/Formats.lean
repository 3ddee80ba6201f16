/-
  DurableValue.Proofs.Json.Formats — the formats of the codec, each read as it was written.

  What is written of a value is restored by the reader of its type. The two layouts differ in blanks outside strings
  only.

  Proved:
  - `restores_integer`, `restores_list`, `Record.restores_read`, …: the reader of each type, on its own.
  - `squeezes_chunks`: the one layout is the other without its blanks, for every value there is.
  - `stored_values_are_read_again`: what a codec does to the values that it keeps.
-/
import DurableValue.Codec.Settings
import DurableValue.Proofs.Json.Roundtrip

namespace DurableValue.Json

open Reading Reader Printer

variable {α : Type} {r : Reading α} {layout : Layout} {lead xs ys : Bytes}

/-! ## Types -/

namespace Shape

theorem reads_start (blank : Blank lead) {b : UInt8} (dark : isBlank b = false) (bs : Bytes) :
    Reads start (lead ++ b :: bs) b (b :: bs) :=
  (reads_blanks blank (dark_cons bs dark)).bind (reads_pure b _)

theorem restores_string (s : String) : Restores string layout (.string s) s := by
  intro depth lead ys blank _
  simp only [Printer.chunks, List.flatten_singleton, stringBytes_append]
  exact (reads_start blank (by decide) _).bind ((reads_drop 0x22 _).bind (Literal.reads_read s ys))

theorem restores_bool (b : Bool) : Restores bool layout (.bool b) b := by
  intro depth lead ys blank _
  cases b with
  | true =>
    simp only [Printer.chunks, List.flatten_singleton, bytes_true]
    refine (reads_start blank (by decide) _).bind ((reads_drop 0x74 _).bind ?_)
    exact (reads_word [0x72, 0x75, 0x65] ys).bind (reads_pure _ ys)
  | false =>
    simp only [Printer.chunks, List.flatten_singleton, bytes_false]
    refine (reads_start blank (by decide) _).bind ((reads_drop 0x66 _).bind ?_)
    exact (reads_word [0x61, 0x6C, 0x73, 0x65] ys).bind (reads_pure _ ys)

/-- The whole numbers of a type, if the type is not wider than 64 bits. -/
theorem exact_int {least bound n : Int} (wide : Decimal.signedLeast ≤ least ∧ bound ≤ Int.pow 2 64)
    (fits : least ≤ n ∧ n < bound) : (Value.int n).Exact :=
  ⟨Int.le_trans wide.1 fits.1, Int.lt_of_lt_of_le fits.2 wide.2⟩

theorem wide_u32 : Decimal.signedLeast ≤ 0 ∧ Int.pow 2 32 ≤ Int.pow 2 64 := by decide

theorem wide_u64 : Decimal.signedLeast ≤ 0 ∧ Int.pow 2 64 ≤ Int.pow 2 64 := by decide

theorem wide_i64 : Decimal.signedLeast ≤ Decimal.signedLeast ∧ Decimal.signedBound ≤ Int.pow 2 64 := by decide

theorem restores_integer {expected : String} {least bound n : Int}
    (wide : Decimal.signedLeast ≤ least ∧ bound ≤ Int.pow 2 64) (fits : least ≤ n ∧ n < bound) :
    Restores (integer expected least bound) layout (.int n) n := by
  intro depth lead ys blank parted
  have inRange : (decide (least ≤ n) && decide (n < bound)) = true := by simp [fits]
  simp only [Printer.chunks, List.flatten_singleton]
  rcases ofInt_cases (exact_int wide fits) with ⟨bs, written, number⟩ | ⟨d, ds, written, digit, number⟩ <;>
    simp only [written, List.cons_append]
  · refine (reads_start blank (by decide) _).bind ((reads_drop 0x2D _).bind ((number parted).bind ?_))
    simp only [inRange, if_true]
    exact reads_pure n ys
  · refine (reads_start blank (dark_of_isDigit digit) _).bind ?_
    simp only [digit, Bool.or_true, if_true, ne_of_isDigit digit 0x2D (by decide), if_false, decide_false]
    refine (number parted).bind ?_
    simp only [inRange, if_true]
    exact reads_pure n ys

theorem restores_list {item : Reading α} {written : α → Value} {as : List α}
    (each : ∀ a ∈ as, (written a).Exact ∧ Restores item layout (written a) a) :
    Restores (list item) layout (.array (as.map written)) as := by
  intro depth lead ys blank _
  have list := reads_list as each depth ys
  rw [bytes_array] at list ⊢
  exact (reads_start blank (by decide) _).bind list

theorem restores_map {item : Reading α} {written : α → Value} {ms : List (String × α)}
    (each : ∀ m ∈ ms, Restores item layout (written m.2) m.2) (sorted : (ms.map (·.1)).Pairwise (· < ·)) :
    Restores (map item) layout (.object (ms.map fun m => (m.1, written m.2))) ms := by
  intro depth lead ys blank _
  have object := reads_object ms each sorted depth ys
  rw [bytes_object] at object ⊢
  exact (reads_start blank (by decide) _).bind object

theorem restores_none {item : Reading α} : Restores (option item) layout .null none := by
  intro depth lead ys blank _
  simp only [Printer.chunks, List.flatten_singleton, bytes_null]
  refine (reads_blanks blank (dark_cons _ (by decide))).bind ((reads_drop 0x6E _).bind ?_)
  exact (reads_word [0x75, 0x6C, 0x6C] ys).bind (reads_pure _ ys)

/-- A number does not begin like null, and is read as it is alone. -/
theorem restores_some {item : Reading α} {n : Int} {a : α} (exact : (Value.int n).Exact)
    (reads : Restores item layout (.int n) a) : Restores (option item) layout (.int n) (some a) := by
  intro depth lead ys blank parted
  have begins := (begins_chunks layout depth exact).append ys
  have other : ((Printer.chunks layout depth (.int n)).flatten ++ ys).head? ≠ some 0x6E := by
    simp only [Printer.chunks, List.flatten_singleton]
    rcases ofInt_cases exact with ⟨bs, written, -⟩ | ⟨d, ds, written, digit, -⟩ <;>
      rw [written, List.cons_append, List.head?_cons, ne_eq, Option.some.injEq]
    · decide
    · exact ne_of_isDigit digit _ (by decide)
  refine (reads_blanks blank begins.dark).bind ?_
  rw [if_neg other]
  exact (reads depth blank_nil parted).bind (f := fun a => pure (some a)) (reads_pure (some a) ys)

end Shape

/-! ## Records -/

namespace Record

variable {σ ρ β : Type} {fill : Filling α} {a : α} {zs : Bytes}

def Fills (fill : Filling α) (xs : Bytes) (a : α) (ys : Bytes) : Prop :=
  ∀ c : Cursor, c.rest = xs → c.ending = .stop → ∃ c', fill c = .ok (a, c') ∧ c'.rest = ys ∧ c'.ending = .stop

theorem fills_placed (reads : Reads r xs a ys) : Fills (placed r) xs a ys := by
  intro c rest ending
  obtain ⟨c', ran, left⟩ := reads c rest ending
  exact ⟨c', by rw [placed, ran]; rfl, left⟩

theorem fills_pure (a : α) (xs : Bytes) : Fills (pure a) xs a xs := fun c rest ending => ⟨c, rfl, rest, ending⟩

theorem Fills.bind {f : α → Filling β} {b : β} (first : Fills fill xs a ys) (second : Fills (f a) ys b zs) :
    Fills (fill >>= f) xs b zs := by
  intro c rest ending
  obtain ⟨c₁, ran, rest₁, ending₁⟩ := first c rest ending
  obtain ⟨c₂, ran₂, left⟩ := second c₁ rest₁ ending₁
  refine ⟨c₂, ?_, left⟩
  change Except.bind (fill c) _ = _
  rw [ran]
  exact ran₂

/-- Filling in the members of an object one by one: each is a field that is not read yet, and is read as written. -/
inductive Takes (rec : Record σ ρ) (layout : Layout) : σ → List (String × Value) → σ → Prop
  | done (s : σ) : Takes rec layout s [] s
  | field {s s₁ s' : σ} {k : String} {v : Value} {ms : List (String × Value)} {f : Field σ}
      (known : rec.fields.find? (fun f => f.name = k) = some f) (unread : f.isRead s = false)
      (restores : Restores (f.read s) layout v s₁) (rest : Takes rec layout s₁ ms s') :
      Takes rec layout s ((k, v) :: ms) s'

theorem fills_fromMembers {rec : Record σ ρ} {s s' : σ} {ms : List (String × Value)} (takes : rec.Takes layout s ms s')
    (depth : Nat) (first : Bool) {rounds : Nat} (enough : ms.length < rounds) (ys : Bytes) (blank : Blank lead) :
    Fills (rec.fromMembers rounds first s)
      ((memberChunks layout depth first ms).flatten ++ (lead ++ 0x7D :: ys)) s' (0x7D :: ys) := by
  induction takes generalizing first rounds with
  | done s =>
    obtain ⟨rounds, rfl⟩ := Nat.exists_eq_add_one_of_ne_zero (Nat.ne_of_gt enough)
    exact (fills_placed (reads_lastKey first blank ys)).bind (fills_pure s _)
  | @field s s₁ s' k v ms f known unread restores _ ih =>
    obtain ⟨rounds, rfl⟩ := Nat.exists_eq_add_one_of_ne_zero (Nat.ne_of_gt (Nat.zero_lt_of_lt enough))
    rw [memberChunks, List.flatten_cons, List.flatten_cons, List.flatten_cons, List.flatten_append]
    simp only [List.append_assoc]
    obtain ⟨lead', blank', colon⟩ := reads_colon layout
      ((Printer.chunks layout depth v).flatten ++
        ((memberChunks layout depth false ms).flatten ++ (lead ++ 0x7D :: ys)))
    refine (fills_placed (reads_anotherKey layout depth first _)).bind ?_
    simp only [if_true]
    refine (fills_placed (reads_key k _)).bind ?_
    simp only [known, unread, Bool.false_eq_true, if_false]
    refine (fills_placed colon).bind ?_
    refine (fills_placed (restores depth blank' (parted_members layout depth ms ys blank))).bind ?_
    exact ih false (Nat.lt_of_succ_lt_succ enough)

/-- **A record is read as its members were written**, if they fill it. -/
theorem restores_read {rec : Record σ ρ} {s : σ} {v : ρ} {ms : List (String × Value)}
    (takes : rec.Takes layout rec.blank ms s) (finished : rec.finish s = .ok v) :
    Restores rec.read layout (.object ms) v := by
  intro depth lead ys blank _
  rw [bytes_object, List.cons_append, List.append_assoc, List.append_assoc]
  refine (Shape.reads_start blank (by decide) _).bind ?_
  simp only []
  refine (reads_drop 0x7B _).bind ?_
  intro c rest ending
  have count := length_members ms layout (depth + 1) true
  have enough : ms.length < c.rest.length + 1 := by
    rw [rest]
    simp only [List.length_append]
    omega
  have members := fills_fromMembers takes (depth + 1) true enough ys (blank_close layout depth (ms = []))
  have completed : Fills (rec.completed s) (0x7D :: ys) v (0x7D :: ys) := by
    rw [completed, finished]
    exact fills_pure v _
  obtain ⟨c₁, ran, rest₁, ending₁⟩ := members.bind completed c rest ending
  obtain ⟨c₂, closed, left⟩ := ((reads_endObject ys).bind (f := fun _ => pure v) (reads_pure v ys)) c₁ rest₁ ending₁
  exact ⟨c₂, by rw [enclosed, ran]; exact closed, left⟩

end Record

/-! ## Blanks outside strings -/

inductive Scan where
  | outside
  | inside
  | escaped
  deriving DecidableEq, Repr

/-- The bytes without the blanks that stand outside strings. -/
def unspaced : Scan → Bytes → Bytes
  | _, [] => []
  | .outside, b :: bs =>
    if isBlank b then unspaced .outside bs else b :: unspaced (if b = quoteByte then .inside else .outside) bs
  | .inside, b :: bs =>
    b :: unspaced (if b = quoteByte then .outside else if b = 0x5C then .escaped else .inside) bs
  | .escaped, b :: bs => b :: unspaced .inside bs

/-- Whether `zs` is left of `xs` where no string is open, and none is open behind it. -/
def Squeezes (xs zs : Bytes) : Prop := ∀ ys, unspaced .outside (xs ++ ys) = zs ++ unspaced .outside ys

theorem squeezes_nil : Squeezes [] [] := fun _ => rfl

theorem Squeezes.append {xs' zs zs' : Bytes} (first : Squeezes xs zs) (second : Squeezes xs' zs') :
    Squeezes (xs ++ xs') (zs ++ zs') := fun ys => by
  rw [List.append_assoc, first, second, List.append_assoc]

theorem squeezes_blank (blank : Blank lead) : Squeezes lead [] := by
  intro ys
  induction lead with
  | nil => rfl
  | cons b lead ih =>
    have here : isBlank b = true := blank b List.mem_cons_self
    simp only [List.cons_append, unspaced, here, if_true]
    exact ih fun b mem => blank b (List.mem_cons_of_mem _ mem)

def isInert (b : UInt8) : Bool := !isBlank b && b != quoteByte

theorem squeezes_inert (inert : xs.all isInert = true) : Squeezes xs xs := by
  intro ys
  induction xs with
  | nil => rfl
  | cons b xs ih =>
    simp only [List.all_cons, isInert, Bool.and_eq_true, Bool.not_eq_true', bne_iff_ne] at inert
    obtain ⟨⟨dark, plain⟩, inert⟩ := inert
    simp only [List.cons_append, unspaced, dark, plain, if_false, Bool.false_eq_true]
    rw [ih inert]

theorem plain_hexByte {n : Nat} (small : n < 16) : Literal.hexByte n ≠ 0x22 ∧ Literal.hexByte n ≠ 0x5C := by
  have all : ∀ n : Fin 16, Literal.hexByte n.val ≠ 0x22 ∧ Literal.hexByte n.val ≠ 0x5C := by decide
  exact all ⟨n, small⟩

/-- A string stays open behind what is written of a byte. -/
theorem unspaced_escapeByte (b : UInt8) (ys : Bytes) :
    unspaced .inside (escapeByte b ++ ys) = escapeByte b ++ unspaced .inside ys := by
  unfold escapeByte
  repeat' split
  all_goals try rfl
  · have small (k : Nat) : k % 16 < 16 := Nat.mod_lt k (by decide)
    simp [Literal.encode_hex4, unspaced, quoteByte, plain_hexByte, small]
  · rename_i quote slash _ _ _ _ _ _
    simp [unspaced, quoteByte, quote, slash]

theorem squeezes_string (s : String) : Squeezes (stringBytes s) (stringBytes s) := by
  intro ys
  have inner (bs : Bytes) : unspaced .inside (bs.flatMap escapeByte ++ 0x22 :: ys) =
      bs.flatMap escapeByte ++ 0x22 :: unspaced .outside ys := by
    induction bs with
    | nil => rfl
    | cons b bs ih => rw [List.flatMap_cons, List.append_assoc, unspaced_escapeByte, ih, List.append_assoc]
  rw [stringBytes_append, stringBytes_append, ← inner]
  rfl

theorem squeezes_itemLead (layout : Layout) (depth depth' : Nat) (first : Bool) :
    Squeezes (itemLead layout depth first) (itemLead .compact depth' first) := by
  obtain ⟨lead, blank, same⟩ := itemLead_eq layout depth first
  have comma : Squeezes (if first then [] else [0x2C]) (if first then [] else [0x2C]) := by
    cases first with
    | true => exact squeezes_nil
    | false => exact squeezes_inert (by decide)
  rw [same]
  exact comma.append (squeezes_blank blank)

theorem squeezes_closeLead (layout : Layout) (depth depth' : Nat) :
    Squeezes (closeLead layout depth) (closeLead .compact depth') := squeezes_blank (blank_closeLead layout depth)

theorem squeezes_colon (layout : Layout) : Squeezes (Printer.colon layout) (Printer.colon .compact) := by
  have colon : Squeezes [0x3A] [0x3A] := squeezes_inert (by decide)
  cases layout with
  | compact => exact colon
  | pretty =>
    have blank : Blank [0x20] := by simp [Blank, isBlank]
    exact colon.append (squeezes_blank blank)

theorem inert_ofNat (n : Nat) : (Decimal.ofNat n).all isInert = true := List.all_eq_true.mpr fun b mem => by
  have digit := Decimal.isDigit_of_mem_ofNat mem
  have plain : b ≠ quoteByte := ne_of_isDigit digit _ (by decide)
  simp [isInert, dark_of_isDigit digit, plain]

theorem squeezes_int (n : Int) : Squeezes (Decimal.ofInt n) (Decimal.ofInt n) := by
  refine squeezes_inert ?_
  unfold Decimal.ofInt
  split
  · exact inert_ofNat _
  · exact inert_ofNat _

/-- A float is written with digits, a point, an `e` and signs. -/
theorem inert_magnitudeText (x : Decimal.Binary64) : x.magnitudeText.all isInert = true := by
  have first (n k : Nat) : ((Decimal.ofNat n).take k).all isInert = true :=
    List.all_eq_true.mpr fun b mem => List.all_eq_true.mp (inert_ofNat n) b (List.mem_of_mem_take mem)
  have last (n k : Nat) : ((Decimal.ofNat n).drop k).all isInert = true :=
    List.all_eq_true.mpr fun b mem => List.all_eq_true.mp (inert_ofNat n) b (List.mem_of_mem_drop mem)
  have zeros (k : Nat) : (List.replicate k Decimal.zeroByte).all isInert = true :=
    List.all_eq_true.mpr fun b mem => List.eq_of_mem_replicate mem ▸ by decide
  have point : isInert Decimal.Binary64.pointByte = true := by decide
  have zero : isInert Decimal.zeroByte = true := by decide
  have mark : isInert 0x65 = true := by decide
  have minus : isInert 0x2D = true := by decide
  have plus : isInert 0x2B = true := by decide
  unfold Decimal.Binary64.magnitudeText
  simp only []
  split
  · split <;> simp only [List.all_append, List.all_cons, List.all_nil, inert_ofNat, first, last, zeros, point, zero,
      Bool.and_true]
  · split
    · simp only [List.all_append, List.all_cons, List.all_nil, inert_ofNat, zeros, point, zero, Bool.and_true]
    · split <;> split <;>
        simp only [List.all_append, List.all_cons, List.all_nil, inert_ofNat, first, last, point, mark, minus, plus,
          Bool.and_true]

theorem squeezes_float (x : Decimal.Binary64) : Squeezes x.text x.text := by
  refine squeezes_inert ?_
  have sign : (if x.negative then [0x2D] else []).all isInert = true := by split <;> decide
  unfold Decimal.Binary64.text
  rw [List.all_append, sign, Bool.true_and]
  split
  · decide
  · exact inert_magnitudeText x

mutual

/-- **The layouts differ in blanks outside strings only**: without them the compact form is left. -/
theorem squeezes_chunks (layout : Layout) (depth depth' : Nat) : ∀ v : Value,
    Squeezes (Printer.chunks layout depth v).flatten (Printer.chunks .compact depth' v).flatten
  | .null => squeezes_inert (by rw [Printer.chunks, List.flatten_singleton, bytes_null]; decide)
  | .bool true => squeezes_inert (by rw [Printer.chunks, List.flatten_singleton, bytes_true]; decide)
  | .bool false => squeezes_inert (by rw [Printer.chunks, List.flatten_singleton, bytes_false]; decide)
  | .int n => by simpa only [Printer.chunks, List.flatten_singleton] using squeezes_int n
  | .float x => by simpa only [Printer.chunks, List.flatten_singleton] using squeezes_float x
  | .string s => by simpa only [Printer.chunks, List.flatten_singleton] using squeezes_string s
  | .array vs => by
    have opening : Squeezes [0x5B] [0x5B] := squeezes_inert (by decide)
    have closing : Squeezes [0x5D] [0x5D] := squeezes_inert (by decide)
    have items := squeezes_items layout (depth + 1) (depth' + 1) true vs
    rw [bytes_array, bytes_array]
    refine opening.append (items.append (Squeezes.append ?_ closing))
    split
    · exact squeezes_nil
    · exact squeezes_closeLead layout depth depth'
  | .object ms => by
    have opening : Squeezes [0x7B] [0x7B] := squeezes_inert (by decide)
    have closing : Squeezes [0x7D] [0x7D] := squeezes_inert (by decide)
    have members := squeezes_members layout (depth + 1) (depth' + 1) true ms
    rw [bytes_object, bytes_object]
    refine opening.append (members.append (Squeezes.append ?_ closing))
    split
    · exact squeezes_nil
    · exact squeezes_closeLead layout depth depth'

theorem squeezes_items (layout : Layout) (depth depth' : Nat) (first : Bool) : ∀ vs : List Value,
    Squeezes (itemChunks layout depth first vs).flatten (itemChunks .compact depth' first vs).flatten
  | [] => squeezes_nil
  | v :: vs => by
    simp only [itemChunks, List.flatten_cons, List.flatten_append]
    refine (squeezes_itemLead layout depth depth' first).append ?_
    exact (squeezes_chunks layout depth depth' v).append (squeezes_items layout depth depth' false vs)

theorem squeezes_members (layout : Layout) (depth depth' : Nat) (first : Bool) : ∀ ms : List (String × Value),
    Squeezes (memberChunks layout depth first ms).flatten (memberChunks .compact depth' first ms).flatten
  | [] => squeezes_nil
  | (k, v) :: ms => by
    simp only [memberChunks, List.flatten_cons, List.flatten_append]
    refine (squeezes_itemLead layout depth depth' first).append ((squeezes_string k).append ?_)
    refine (squeezes_colon layout).append ((squeezes_chunks layout depth depth' v).append ?_)
    exact squeezes_members layout depth depth' false ms

end

end DurableValue.Json

namespace DurableValue

open Json (Layout Value)

namespace Settings

variable {layout : Layout}

theorem restores_format {s : Settings} (fits : 0 ≤ s.fontSize ∧ s.fontSize < Int.pow 2 32) :
    Json.Restores format.read layout (format.toValue s) s := by
  have theme : Json.Restores (do return { ({} : Partial) with theme := some (← Json.Shape.string) }) layout
      (.string s.theme) ⟨some s.theme, none⟩ := fun depth _ _ blank parted =>
    (Json.Shape.restores_string s.theme depth blank parted).bind (Json.Reading.reads_pure _ _)
  have size : Json.Restores (do return { (⟨some s.theme, none⟩ : Partial) with fontSize := some (← Json.Shape.u32) })
      layout (.int s.fontSize) ⟨some s.theme, some s.fontSize⟩ := fun depth _ _ blank parted =>
    (Json.Shape.restores_integer Json.Shape.wide_u32 fits depth blank parted).bind (Json.Reading.reads_pure _ _)
  exact Json.Record.restores_read (.field rfl rfl theme (.field rfl rfl size (.done _))) rfl

end Settings

namespace Codec

open Json.Shape (wide_u32 wide_u64 wide_i64)

variable {α : Type} {f : Format α} {v : α} {layout : Layout}

/-- The values that a format of the codec keeps: those of its type, without floats and nested as deep as documents may
be. -/
inductive Keeps : {α : Type} → Format α → α → Prop
  | json {v : Value} (exact : v.Exact) (shallow : v.nesting ≤ 127) : Keeps json v
  | settings {s : Settings} (fits : 0 ≤ s.fontSize ∧ s.fontSize < Int.pow 2 32) : Keeps Settings.format s
  | u32s {ns : List Int} (fits : ∀ n ∈ ns, 0 ≤ n ∧ n < Int.pow 2 32) : Keeps u32s ns
  | u64 {n : Int} (fits : 0 ≤ n ∧ n < Int.pow 2 64) : Keeps u64 n
  | i64 {n : Int} (fits : Decimal.signedLeast ≤ n ∧ n < Decimal.signedBound) : Keeps i64 n
  | string (s : String) : Keeps string s
  | bool (b : Bool) : Keeps bool b
  | map {ms : List (String × Int)} (sorted : (ms.map (·.1)).Pairwise (· < ·))
      (fits : ∀ m ∈ ms, Decimal.signedLeast ≤ m.2 ∧ m.2 < Decimal.signedBound) : Keeps map ms
  | none : Keeps option none
  | some {n : Int} (fits : Decimal.signedLeast ≤ n ∧ n < Decimal.signedBound) : Keeps option (some n)

theorem Keeps.restores (keeps : Keeps f v) (layout : Layout) : Json.Restores f.read layout (f.toValue v) v := by
  cases keeps with
  | json exact shallow => exact Json.reads_value layout _ exact (Nat.lt_succ_of_le shallow)
  | settings fits => exact Settings.restores_format fits
  | u32s fits =>
    refine Json.Shape.restores_list fun n mem => ?_
    exact ⟨Json.Shape.exact_int wide_u32 (fits n mem), Json.Shape.restores_integer wide_u32 (fits n mem)⟩
  | u64 fits => exact Json.Shape.restores_integer wide_u64 fits
  | i64 fits => exact Json.Shape.restores_integer wide_i64 fits
  | string => exact Json.Shape.restores_string _
  | bool => exact Json.Shape.restores_bool _
  | none => exact Json.Shape.restores_none
  | map sorted fits =>
    exact Json.Shape.restores_map (fun m mem => Json.Shape.restores_integer wide_i64 (fits m mem)) sorted
  | some fits =>
    exact Json.Shape.restores_some (Json.Shape.exact_int wide_i64 fits) (Json.Shape.restores_integer wide_i64 fits)

/-- **The codec reads what it wrote**, with blanks around it or none. -/
theorem decode_of_keeps (keeps : Keeps f v) (layout : Layout) {lead trail : Bytes} (blank : Json.Blank lead)
    (blank' : Json.Blank trail) : f.decode (lead ++ (f.chunks layout v).flatten ++ trail) = .ok v := by
  have reads := keeps.restores layout 0 blank (Json.parted_blanks blank')
  rw [← List.append_assoc] at reads
  exact congrArg (Except.mapError Format.errorOf) (Json.document_of_reads_blank reads blank' rfl)

/-- The codec stores a value in either layout, reads it again whatever the layout and the blanks around it, and stores
no other value alike; the layouts differ in blanks outside strings. -/
theorem stored_values_are_read_again (keeps : Keeps f v) (layout layout' : Layout) (default default' : α) :
    ∃ bs, (f.codec layout default).encode v = .ok bs ∧
      (∀ lead trail, Json.Blank lead → Json.Blank trail →
        (f.codec layout' default').decode (lead ++ bs ++ trail) = .ok v) ∧
      (f.codec .compact default).encode v = .ok (Json.unspaced .outside bs) ∧
      ∀ w, Keeps f w → (f.codec layout' default').encode w = .ok bs → w = v := by
  refine ⟨(f.chunks layout v).flatten, rfl, ?_, ?_, fun w kept same => ?_⟩
  · exact fun lead trail blank blank' => decode_of_keeps keeps layout blank blank'
  · have squeezed := Json.squeezes_chunks layout 0 0 (f.toValue v) []
    rw [List.append_nil] at squeezed
    exact congrArg Except.ok (squeezed.trans (List.append_nil _)).symm
  · have same : (f.chunks layout' w).flatten = (f.chunks layout v).flatten := Except.ok.inj same
    have again := decode_of_keeps keeps layout Json.blank_nil Json.blank_nil
    rw [← same, decode_of_keeps kept layout' Json.blank_nil Json.blank_nil] at again
    exact Except.ok.inj again

theorem a_document_is_read_again_in_another_layout :
    ∃ bs, (json.codec .pretty .null).encode
        (.object [("a", .array [.int (-1), .string "\n"]), ("b", .array [])]) = .ok bs ∧
      (json.codec .compact .null).decode ([0x20] ++ bs ++ [0x0A]) =
        .ok (.object [("a", .array [.int (-1), .string "\n"]), ("b", .array [])]) := by
  have keeps : Keeps json (.object [("a", .array [.int (-1), .string "\n"]), ("b", .array [])]) :=
    .json ⟨by decide, ⟨Json.Shape.exact_int wide_i64 (by decide), trivial, trivial⟩, trivial, trivial⟩ (by decide)
  obtain ⟨bs, written, read, -⟩ := stored_values_are_read_again keeps .pretty .compact .null .null
  exact ⟨bs, written, read [0x20] [0x0A] (by simp [Json.Blank, Json.Reading.isBlank])
    (by simp [Json.Blank, Json.Reading.isBlank])⟩

end Codec

end DurableValue
