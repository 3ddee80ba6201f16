/-
  DurableValue.Proofs.Json.Literal — strings read as they were written.

  Every byte of a string is written as itself or as an escape, and is read back from that, whatever follows
  (`reads_content_byte`, `reads_content`); so the bytes between the quotes are those of the string, and these are the
  text again (`reads_read`).
-/
import DurableValue.Json.Printer
import DurableValue.Proofs.Json.Reads
import DurableValue.Proofs.Text

namespace DurableValue.Json.Literal

open Reading

variable {ys : Bytes}

theorem reads_takeByte (b : UInt8) (bs : Bytes) : Reads takeByte (b :: bs) b bs :=
  (reads_take b bs).bind (reads_pure b bs)

/-! ## Escapes -/

def hexByte (n : Nat) : UInt8 := if n < 10 then 0x30 + .ofNat n else 0x57 + .ofNat n

theorem hexValue?_hexByte {n : Nat} (small : n < 16) : hexValue? (hexByte n) = some n := by
  have all : ∀ n : Fin 16, hexValue? (hexByte n) = some n.val := by decide
  exact all ⟨n, small⟩

theorem utf8_hexDigit {n : Nat} (small : n < 16) : String.utf8EncodeChar (Text.hexDigit n) = [hexByte n] := by
  have all : ∀ n : Fin 16, String.utf8EncodeChar (Text.hexDigit n) = [hexByte n] := by decide
  exact all ⟨n, small⟩

theorem encode_hex4 (n : Nat) : Text.encode (Text.hex4 n) =
    [hexByte (n / 4096 % 16), hexByte (n / 256 % 16), hexByte (n / 16 % 16), hexByte (n % 16)] := by
  have small (k : Nat) : k % 16 < 16 := Nat.mod_lt k (by decide)
  simp only [Text.hex4, Text.encode_ofList, List.flatMap_cons, List.flatMap_nil, utf8_hexDigit (small _)]
  rfl

theorem reads_hexEscape {n : Nat} (small : n < 65536) : Reads hexEscape (Text.encode (Text.hex4 n) ++ ys) n ys := by
  rw [encode_hex4]
  refine (reads_takeByte _ _).bind ((reads_takeByte _ _).bind ?_)
  refine (reads_takeByte _ _).bind ((reads_takeByte _ _).bind ?_)
  have digit (k : Nat) : hexValue? (hexByte (k % 16)) = some (k % 16) := hexValue?_hexByte (Nat.mod_lt k (by decide))
  simp only [digit]
  have whole : ((n / 4096 % 16 * 16 + n / 256 % 16) * 16 + n / 16 % 16) * 16 + n % 16 = n := by omega
  rw [whole]
  exact reads_pure n ys

theorem pointBytes_control {b : UInt8} (control : b < 0x20) : pointBytes b.toNat = [b] := by
  have all : ∀ n : Fin 32, String.utf8EncodeChar (Char.ofNat n.val) = [UInt8.ofNat n.val] := by decide
  have small : b.toNat < 32 := UInt8.lt_iff_toNat_lt.mp control
  have one := all ⟨b.toNat, small⟩
  simp only [UInt8.ofNat_toNat] at one
  have text : (Char.ofNat b.toNat).toString = .ofList [Char.ofNat b.toNat] := rfl
  simp only [pointBytes, text, Text.encode_ofList, List.flatMap_cons, List.flatMap_nil, one, List.append_nil]

/-- Four digits below the surrogates stand for their code point. -/
theorem reads_unicodeEscape {n : Nat} (low : n < 0xD800) :
    Reads unicodeEscape (Text.encode (Text.hex4 n) ++ ys) (pointBytes n) ys := by
  refine (reads_hexEscape (by omega)).bind ?_
  have notLow : ¬ ((decide (0xDC00 ≤ n) && decide (n ≤ 0xDFFF)) = true) := by
    simp only [Bool.and_eq_true, decide_eq_true_eq]
    omega
  have notHigh : (decide (n < 0xD800) || decide (0xDBFF < n)) = true := by
    simp only [Bool.or_eq_true, decide_eq_true_eq]
    omega
  rw [if_neg notLow, if_pos notHigh]
  exact reads_pure (pointBytes n) ys

/-! ## What stands between the quotes -/

section

variable {rounds : Nat} {xs bs : Bytes}

theorem reads_content_end (rounds : Nat) (ys : Bytes) : Reads (content (rounds + 1)) (0x22 :: ys) [] ys :=
  (reads_takeByte _ _).bind (reads_pure [] ys)

theorem reads_content_escape {e zs : Bytes} (esc : Reads escape xs e zs) (rest : Reads (content rounds) zs bs ys) :
    Reads (content (rounds + 1)) (0x5C :: xs) (e ++ bs) ys :=
  (reads_takeByte _ _).bind (esc.bind (rest.bind (reads_pure _ _)))

theorem reads_content_plain {b : UInt8} (quote : b ≠ 0x22) (slash : b ≠ 0x5C) (printable : ¬ b < 0x20)
    (rest : Reads (content rounds) xs bs ys) : Reads (content (rounds + 1)) (b :: xs) (b :: bs) ys := by
  refine (reads_takeByte _ _).bind ?_
  rw [if_neg quote, if_neg slash, if_neg printable]
  exact rest.bind (reads_pure _ _)

/-- A byte is read as it was written. -/
theorem reads_content_byte (b : UInt8) (rest : Reads (content rounds) xs bs ys) :
    Reads (content (rounds + 1)) (Printer.escapeByte b ++ xs) (b :: bs) ys := by
  unfold Printer.escapeByte
  split
  · subst b
    exact reads_content_escape ((reads_takeByte 0x22 _).bind (reads_pure [0x22] _)) rest
  split
  · subst b
    exact reads_content_escape ((reads_takeByte 0x5C _).bind (reads_pure [0x5C] _)) rest
  split
  · subst b
    exact reads_content_escape ((reads_takeByte 0x62 _).bind (reads_pure [0x08] _)) rest
  split
  · subst b
    exact reads_content_escape ((reads_takeByte 0x66 _).bind (reads_pure [0x0C] _)) rest
  split
  · subst b
    exact reads_content_escape ((reads_takeByte 0x6E _).bind (reads_pure [0x0A] _)) rest
  split
  · subst b
    exact reads_content_escape ((reads_takeByte 0x72 _).bind (reads_pure [0x0D] _)) rest
  split
  · subst b
    exact reads_content_escape ((reads_takeByte 0x74 _).bind (reads_pure [0x09] _)) rest
  split
  · rename_i control
    have small : b.toNat < 32 := UInt8.lt_iff_toNat_lt.mp control
    have low : b.toNat < 0xD800 := Nat.lt_trans small (by decide)
    have point : Reads unicodeEscape (Text.encode (Text.hex4 b.toNat) ++ xs) [b] xs := by
      rw [← pointBytes_control control]
      exact reads_unicodeEscape low
    exact reads_content_escape ((reads_takeByte 0x75 _).bind point) rest
  · exact reads_content_plain ‹_› ‹_› ‹_› rest

theorem escapeByte_ne_nil (b : UInt8) : Printer.escapeByte b ≠ [] := by
  unfold Printer.escapeByte
  repeat' split
  all_goals exact List.cons_ne_nil _ _

/-- The bytes of a string are read up to its closing quote. -/
theorem reads_content (bs ys : Bytes) (enough : bs.length < rounds) :
    Reads (content rounds) (bs.flatMap Printer.escapeByte ++ 0x22 :: ys) bs ys := by
  induction bs generalizing rounds with
  | nil =>
    obtain ⟨rounds, rfl⟩ := Nat.exists_eq_add_one_of_ne_zero (Nat.ne_of_gt enough)
    exact reads_content_end rounds ys
  | cons b bs ih =>
    obtain ⟨rounds, rfl⟩ := Nat.exists_eq_add_one_of_ne_zero (Nat.ne_of_gt (Nat.zero_lt_of_lt enough))
    rw [List.flatMap_cons, List.append_assoc]
    exact reads_content_byte b (ih (Nat.lt_of_succ_lt_succ enough))

theorem length_le_escaped (bs : Bytes) : bs.length ≤ (bs.flatMap Printer.escapeByte).length := by
  induction bs with
  | nil => exact Nat.le_refl 0
  | cons b bs ih =>
    have some := List.length_pos_iff.mpr (escapeByte_ne_nil b)
    rw [List.flatMap_cons, List.length_append, List.length_cons]
    omega

end

theorem reads_decoded (s : String) (ys : Bytes) : Reads (decoded (Text.encode s)) ys s ys := fun c rest ending =>
  ⟨c, by simp only [decoded, Text.decode?_encode], rest, ending⟩

/-- **A string is read as it was written**, behind its opening quote. -/
theorem reads_read (s : String) (ys : Bytes) :
    Reads read ((Text.encode s).flatMap Printer.escapeByte ++ 0x22 :: ys) s ys := by
  refine Reads.sized (r := fun rounds => do decoded (← content rounds)) ?_
  refine (reads_content (Text.encode s) ys ?_).bind (reads_decoded s ys)
  have shorter := length_le_escaped (Text.encode s)
  simp only [List.length_append]
  omega

end DurableValue.Json.Literal
