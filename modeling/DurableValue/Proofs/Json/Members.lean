/-
  DurableValue.Proofs.Json.Members — the members of an object as they stand.

  The reader of values keeps the members of an object in the order of their keys, and of two with one key the later
  one. `Reader.pairs` is the same loop with nothing sorted and nothing dropped: what the reader keeps is what came of
  these members (`members_eq`), so a text that has its members told one by one is one that the reader accepts
  (`parse_of_pairs`).
-/
import DurableValue.Proofs.Json.Roundtrip

namespace DurableValue.Json

open Reading

namespace Value

/-- What an object keeps of members that came in this order, beside those it had. -/
def keep {α : Type} (found ms : List (String × α)) : List (String × α) :=
  ms.foldl (fun kept m => insert m.1 m.2 kept) found

@[simp] theorem keep_cons {α : Type} (found ms : List (String × α)) (k : String) (v : α) :
    keep found ((k, v) :: ms) = keep (insert k v found) ms := rfl

end Value

namespace Reader

variable {α : Type}

def pairs (value : Reading α) : (rounds : Nat) → (first : Bool) → Reading (List (String × α))
  | 0, _ => failAhead .endInObject
  | rounds + 1, first => do
    if ← anotherKey first then
      let k ← key
      colon
      let v ← value
      return (k, v) :: (← pairs value rounds false)
    else pure []

def pairsOfObject (value : Reading α) : Reading (List (String × α)) := do
  drop
  let ms ← fun c => pairs value (c.rest.length + 1) true c
  endObject
  pure ms

def pairsOfValue (value : Reading α) : Reading (List (String × α)) := do
  match ← blanks with
  | none => failAhead .endInValue
  | some b => if b = 0x7B then pairsOfObject value else failAhead .expectedValue

/-- **The reader keeps what came of the members as they stand**, or complains as soon and of the same. -/
theorem members_eq (value : Reading α) (rounds : Nat) (first : Bool) (found : List (String × α)) :
    members value rounds first found = Value.keep found <$> pairs value rounds first := by
  induction rounds generalizing first found with
  | zero => rfl
  | succ rounds ih =>
    unfold members pairs
    simp only [map_bind]
    refine bind_congr fun another => ?_
    cases another with
    | false => simp [Value.keep]
    | true =>
      simp only [if_true, map_bind, ih]
      refine bind_congr fun k => bind_congr fun _ => bind_congr fun v => ?_
      simp

theorem object_eq (value : Reading α) : object value = Value.keep [] <$> pairsOfObject value := by
  have loop : (fun c => members value (c.rest.length + 1) true [] c) =
      Functor.map (f := Reading) (Value.keep []) fun c => pairs value (c.rest.length + 1) true c := by
    funext c
    rw [members_eq]
    rfl
  simp [object, pairsOfObject, loop]

/-- Where the members of an object are read, the reader of values finds the object. -/
theorem value_of_pairs {levels : Nat} (room : levels ≠ 0) {c c' : Cursor} {ms : List (String × Value)}
    (read : pairsOfValue (value levels) c = .ok (ms, c')) :
    value (levels + 1) c = .ok (.object (Value.keep [] ms), c') := by
  unfold pairsOfValue at read
  unfold value
  rw [bind_apply] at read ⊢
  cases next : blanks c with
  | error e => simp [next] at read
  | ok looked =>
    obtain ⟨here, c₁⟩ := looked
    rw [next] at read
    cases here with
    | none => cases read
    | some b =>
      by_cases brace : b = 0x7B
      · subst brace
        have whole : (Value.object <$> object (value levels)) c₁ = .ok (.object (Value.keep [] ms), c') := by
          have read : pairsOfObject (value levels) c₁ = .ok (ms, c') := read
          rw [object_eq]
          change Except.map _ (Except.map _ (pairsOfObject (value levels) c₁)) = _
          rw [read]
          rfl
        have digit : Decimal.isDigit 0x7B = false := by decide
        simpa [room, digit] using whole
      · simp only [brace, if_false] at read
        cases read

/-- A document for one reader is one for another that gives as much where it stands. -/
theorem document_map {β : Type} {r : Reading α} {r' : Reading β} {f : α → β} {c : Cursor} {a : α}
    (follows : ∀ {a c'}, r c = .ok (a, c') → r' c = .ok (f a, c')) (read : document r c = .ok a) :
    document r' c = .ok (f a) := by
  unfold document at read ⊢
  rw [bind_apply] at read ⊢
  cases first : r c with
  | error e => simp [first] at read
  | ok found =>
    obtain ⟨v, c'⟩ := found
    rw [first] at read
    rw [follows first]
    simp only [bind_apply] at read ⊢
    cases ended : finish c' with
    | error e => simp [ended] at read
    | ok rest =>
      rw [ended] at read
      cases read
      rfl

end Reader

def Value.pairs (text : String) : Except Error (List (String × Value)) :=
  Reader.document (Reader.pairsOfValue (Reader.value (Reader.depthLimit - 1))) (.whole (Text.encode text))

/-- **A text whose members are read one by one is JSON for the reader**, and of two members with one key it keeps the
later. -/
theorem parse_of_pairs {text : String} {ms : List (String × Value)} (read : Value.pairs text = .ok ms) :
    Value.parse text = .ok (.object (Value.keep [] ms)) := by
  have follows : ∀ {ms c'}, Reader.pairsOfValue (Reader.value (Reader.depthLimit - 1)) (.whole (Text.encode text)) =
      .ok (ms, c') → Reader.value Reader.depthLimit (.whole (Text.encode text)) =
        .ok (Value.object (Value.keep [] ms), c') := Reader.value_of_pairs (by decide)
  exact Reader.document_map (f := fun ms => Value.object (Value.keep [] ms)) follows read

end DurableValue.Json
