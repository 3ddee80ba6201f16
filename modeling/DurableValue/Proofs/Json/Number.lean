/-
  DurableValue.Proofs.Json.Number — whole numbers read as they were written.

  The digits of a number stand for it (`value_ofNat`), and a number that fits 64 bits is read from its digits without
  loss, if what follows does not go on with it (`reads_read`).
-/
import DurableValue.Json.Number
import DurableValue.Proofs.Json.Reads

namespace DurableValue

namespace Decimal

theorem isDigit_small {k : Nat} (small : k < 10) : isDigit (zeroByte + .ofNat k) = true := by
  have all : ∀ k : Fin 10, isDigit (zeroByte + .ofNat k.val) = true := by decide
  exact all ⟨k, small⟩

theorem digitValue_small {k : Nat} (small : k < 10) : digitValue (zeroByte + .ofNat k) = k := by
  have all : ∀ k : Fin 10, digitValue (zeroByte + .ofNat k.val) = k.val := by decide
  exact all ⟨k, small⟩

theorem isDigit_of_mem_ofNat {n : Nat} {d : UInt8} (mem : d ∈ ofNat n) : isDigit d = true := by
  induction n using Nat.strongRecOn with
  | ind n ih =>
    rw [ofNat] at mem
    split at mem
    · cases List.mem_singleton.mp mem
      exact isDigit_small ‹_›
    · rcases List.mem_append.mp mem with mem | mem
      · exact ih _ (by omega) mem
      · cases List.mem_singleton.mp mem
        exact isDigit_small (by omega)

theorem value_ofNat (n : Nat) : value (ofNat n) = n := by
  induction n using Nat.strongRecOn with
  | ind n ih =>
    rw [ofNat]
    split
    · simp [value, digitValue_small ‹_›]
    · have front := ih (n / 10) (by omega)
      simp only [value, List.foldl_append, List.foldl_cons, List.foldl_nil] at front ⊢
      rw [front, digitValue_small (by omega)]
      omega

/-- The digits of a number begin with a zero only if that is the number. -/
theorem ofNat_cons (n : Nat) : ∃ d ds, ofNat n = d :: ds ∧ isDigit d = true ∧ (d = zeroByte → n = 0 ∧ ds = []) := by
  induction n using Nat.strongRecOn with
  | ind n ih =>
    rw [ofNat]
    split
    · rename_i small
      refine ⟨_, [], rfl, isDigit_small small, fun zero => ⟨?_, rfl⟩⟩
      have same := digitValue_small small
      rw [zero] at same
      exact same.symm
    · obtain ⟨d, ds, front, digit, leading⟩ := ih (n / 10) (by omega)
      refine ⟨d, _, by rw [front]; rfl, digit, fun zero => ?_⟩
      have := (leading zero).1
      omega

end Decimal

namespace Json.Number

open Reading
open Decimal (isDigit digitValue)

def Parted (ys : Bytes) : Prop := ∀ b ∈ ys.head?, isDigit b = false ∧ b ≠ 0x2E ∧ isExponentMark (some b) = false

variable {ys : Bytes}

/-- Digits that stand for a number of 64 bits are all absorbed. -/
theorem absorb_fits {ds : Bytes} {s : Nat} (fits : ds.foldl (fun n b => n * 10 + digitValue b) s < Nat.pow 2 64) :
    absorb s ds = (ds.foldl (fun n b => n * 10 + digitValue b) s, []) := by
  have grows (ds : Bytes) (s : Nat) : s ≤ ds.foldl (fun n b => n * 10 + digitValue b) s := by
    induction ds generalizing s with
    | nil => exact Nat.le_refl s
    | cons d ds ih =>
      have step := ih (s * 10 + digitValue d)
      rw [List.foldl_cons]
      omega
  induction ds generalizing s with
  | nil => rfl
  | cons d ds ih =>
    rw [List.foldl_cons] at fits ⊢
    rw [absorb, if_pos (Nat.lt_of_le_of_lt (grows ds _) fits)]
    exact ih fits

theorem reads_readRest (parted : Parted ys) (negative : Bool) (n : Nat) :
    Reads (readRest negative n 0 ys.head?) ys (whole negative n) ys := by
  unfold readRest
  cases head : ys.head? with
  | none => exact reads_pure _ ys
  | some b =>
    obtain ⟨-, point, mark⟩ := parted b head
    rw [if_neg fun same => point (Option.some.inj same), if_neg (by rw [mark]; exact Bool.false_ne_true), if_pos rfl]
    exact reads_pure _ ys

/-- **A number of 64 bits is read as it was written**, behind its sign. -/
theorem reads_read (parted : Parted ys) (negative : Bool) {n : Nat} (fits : n < Nat.pow 2 64) :
    Reads (read negative) (Decimal.ofNat n ++ ys) (whole negative n) ys := by
  obtain ⟨d, ds, digits, digit, leading⟩ := Decimal.ofNat_cons n
  rw [digits]
  refine (reads_take d (ds ++ ys)).bind ?_
  by_cases zero : d = Decimal.zeroByte
  · obtain ⟨rfl, rfl⟩ := leading zero
    have single : ys.head?.any isDigit = false := by
      cases head : ys.head? with
      | none => rfl
      | some b => exact (parted b head).1
    simp only [zero, if_true]
    refine (reads_peek ys).bind ?_
    rw [if_neg (by rw [single]; exact Bool.false_ne_true)]
    exact reads_readRest parted negative 0
  · have all : ∀ d ∈ ds, isDigit d = true := fun x hx =>
      Decimal.isDigit_of_mem_ofNat (n := n) (by rw [digits]; exact List.mem_cons_of_mem _ hx)
    have whole : (d :: ds).foldl (fun n b => n * 10 + digitValue b) 0 = n := digits ▸ Decimal.value_ofNat n
    simp only [zero, if_false, digit, if_true]
    refine (reads_digits all fun b hb => (parted b hb).1).bind ?_
    have absorbed := absorb_fits (whole ▸ fits)
    rw [whole] at absorbed
    simp only [absorbed]
    exact reads_readRest parted negative n

end Json.Number

end DurableValue
