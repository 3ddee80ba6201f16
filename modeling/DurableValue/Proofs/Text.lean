/-
  DurableValue.Proofs.Text — text and its bytes.

  Encoding is undone by decoding (`decode?_encode`), and a text given by its characters is encoded character by
  character (`encode_ofList`).
-/
import DurableValue.Text.Bytes

namespace DurableValue.Text

theorem toList_eq (bs : ByteArray) : bs.toList = bs.data.toList := by
  have loop (i : Nat) (r : List UInt8) : ByteArray.toList.loop bs i r = r.reverse ++ bs.data.toList.drop i := by
    fun_induction ByteArray.toList.loop bs i r with
    | case1 i r h ih =>
      have inside : i < bs.data.size := h
      have split : bs.data.toList.drop i = bs.get! i :: bs.data.toList.drop (i + 1) := by
        rw [List.drop_eq_getElem_cons (by simpa using inside), ByteArray.get!, getElem!_pos bs.data i inside]
        rfl
      rw [ih, split]
      simp
    | case2 i r h =>
      have outside : bs.data.toList.length ≤ i := Nat.le_of_not_lt h
      rw [List.drop_of_length_le outside, List.append_nil]
  exact loop 0 []

/-- What was written as text is read as that text. -/
theorem decode?_encode (s : String) : decode? (encode s) = some s := by
  have same : (⟨(encode s).toArray⟩ : ByteArray) = s.toByteArray := by
    simp only [encode, toList_eq, Array.toArray_toList, String.toUTF8]
  unfold decode? String.fromUTF8?
  rw [same, dif_pos s.isValidUTF8]
  rfl

theorem encode_ofList (cs : List Char) : encode (.ofList cs) = cs.flatMap String.utf8EncodeChar := by
  simp only [encode, toList_eq, String.toUTF8, String.toByteArray_ofList, List.utf8Encode, List.data_toByteArray]

end DurableValue.Text
