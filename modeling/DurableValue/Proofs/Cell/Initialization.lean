/-
  DurableValue.Proofs.Cell.Initialization — what an initialization leaves in its file.

  A first value comes from the codec's default, from the file, or from the corruption handler, and the migrations fold
  it into the value that the cell starts with.

  Proved:
  - `leaves_of_opens`: what the file holds behind the steps of an initialization that has come to a value.
  - `initialization_leaves_its_file`: the file is left alone where there was nothing to repair and the migrations
    changed nothing; otherwise it ends up with the encoding of the newest value that was committed, whatever fault
    strikes on the way.
  - `a_zero_of_the_other_sign_is_not_stored`: whether the migrations changed anything is told by the equality of the
    value type. Where that takes two values for equal that are not the same, as JSON does with its two zeros, the
    older of the two stays in the file.
-/
import DurableValue.Proofs.Cell.Progress
import DurableValue.Proofs.Cell.Reopened

namespace DurableValue.Cell

open Disk (Memory)
open Store (Atomic Keeper)

variable {V : Type}

/-- What is read is the file, or that there is none. -/
theorem read_contents {store : Atomic} {m : Memory} {found : Option Bytes} (read : (store.read m).1 = .ok found) :
    found = m.get? store.path.place := by
  cases armed : m.isArmed .read with
  | false =>
    rw [Atomic.read_unarmed store m armed] at read
    unfold Atomic.unarmedReading at read
    cases held : m.get? store.path.place with
    | some bs =>
      rw [held] at read
      exact (Except.ok.inj read).symm
    | none =>
      simp only [held] at read
      split at read <;> cases read
      rfl
  | true =>
    have armed' : ({ m with reads := m.reads + 1 } : Memory).isArmed .read = true := armed
    have failed : Disk.FileSystem.read m store.path =
        (.error Disk.Fault.read.error, ({ m with reads := m.reads + 1 } : Memory).disarm .read) := by
      change Memory.read m store.path = _
      simp only [Memory.read, Memory.guarded, armed', if_true]
    simp only [Atomic.read, failed] at read
    cases read

/-- The file behind an initialization is what its newest published commit put out. -/
theorem Progress.file {s : Setup V} {store : Atomic} {i j : Job Memory} {r : Report Memory V}
    (apart : store.scratch.place ≠ store.path.place)
    (h : Progress s store i (store.read i.bench.disk).2 r j) :
    j.bench.disk.get? store.path.place = published (i.bench.disk.get? store.path.place) r.begun := by
  let k := Keeper.memory store apart i.bench.disk
  obtain ⟨fine, kept, -⟩ := read_calm k (d := i.bench.disk) fun _ _ _ => rfl
  rw [h.disk]
  exact (real_behind k fine h.chained h.own).2.trans (congrArg (published · r.begun) kept)

/-- Where every commit returned, the file holds the encoding of the newest value, if there was one. -/
theorem Progress.newest {s : Setup V} {store : Atomic} {i j : Job Memory} {start : Memory} {r : Report Memory V}
    (h : Progress s store i start r j) (ok : ∀ c ∈ r.begun, c.isReturned = true) (old : Option Bytes) :
    match r.values with
    | [] => published old r.begun = old
    | v :: _ => ∃ bs, s.codec.encode v = .ok bs ∧ published old r.begun = some bs := by
  have encoded := h.encoded
  cases begun : r.begun with
  | nil =>
    rw [begun, List.map_nil] at encoded
    rw [List.map_eq_nil_iff.mp encoded.symm]
    rfl
  | cons c cs =>
    rw [begun, List.map_cons] at encoded
    have out := Commit.isPublished_of_returned (Commit.isReturned_iff.mp (ok c (begun ▸ List.mem_cons_self)))
    cases values : r.values with
    | nil => rw [values] at encoded; cases encoded
    | cons v vs =>
      rw [values, List.map_cons] at encoded
      refine ⟨c.bytes, (List.cons.inj encoded).1.symm, ?_⟩
      rw [published_cons, out, if_pos rfl]

/-- Whether the file is as a value asks for that came out of a start, given what the file was and is now. -/
structure Setup.Leaves (s : Setup V) (old now : Option Bytes) (u : V) (isReplacement hasRun : Bool) (v : V) : Prop where
  /-- What the migrations left unchanged stays as it is in the file, or as the replacement was put there. -/
  unchanged : hasRun = false ∨ s.same v u = true →
    if isReplacement then ∃ bs, s.codec.encode u = .ok bs ∧ now = some bs else now = old
  changed : hasRun = true → s.same v u = false → ∃ bs, s.codec.encode v = .ok bs ∧ now = some bs

/-- With an equality that is true, the file is untouched or holds the value itself. -/
theorem Setup.Leaves.exact {s : Setup V} {old now : Option Bytes} {u v : V} {isReplacement hasRun : Bool}
    (h : s.Leaves old now u isReplacement hasRun v) (outcome : migrated s.migrations u = .ok (v, hasRun))
    (truly : ∀ x y, s.same x y = true ↔ x = y) :
    (isReplacement = false → v = u → now = old) ∧
      (isReplacement = true ∨ v ≠ u → ∃ bs, s.codec.encode v = .ok bs ∧ now = some bs) := by
  refine ⟨fun genuine same => ?_, fun cause => ?_⟩
  · have kept := h.unchanged (Or.inr ((truly v u).mpr same))
    rwa [genuine] at kept
  · by_cases same : v = u
    · have replaced : isReplacement = true := cause.resolve_right fun differs => differs same
      have kept := h.unchanged (Or.inr ((truly v u).mpr same))
      rw [replaced, if_pos rfl, ← same] at kept
      exact kept
    · cases hasRun with
      | false => exact absurd (migrated_unapplied outcome) same
      | true => exact h.changed rfl (Bool.eq_false_iff.mpr fun equal => same ((truly v u).mp equal))

theorem leaves_of_opens {s : Setup V} {store : Atomic} {i k : Job Memory} {u v : V} {isReplacement hasRun : Bool}
    {asked : List Codec.Error} {recoveries migrations : Nat} (apart : store.scratch.place ≠ store.path.place)
    (outcome : migrated s.migrations u = .ok (v, hasRun))
    (h : Task.Reached s store i (store.read i.bench.disk).2 asked (s.due (u, isReplacement)) recoveries migrations k) :
    s.Leaves (i.bench.disk.get? store.path.place) (k.bench.disk.get? store.path.place) u isReplacement hasRun v := by
  obtain ⟨begun, applied, ok, shown⟩ := h
  have newest := shown.newest ok (i.bench.disk.get? store.path.place)
  rw [← shown.file apart] at newest
  simp only [Setup.due] at newest
  constructor
  · intro quiet
    have revised : s.revised? u = none := by
      rw [Setup.revised?, outcome]
      cases hasRun with
      | false => rfl
      | true => simpa using quiet
    rw [revised] at newest
    cases isReplacement <;> exact newest
  · rintro rfl differs
    have revised : s.revised? u = some v := by simp [Setup.revised?, outcome, differs]
    rw [revised] at newest
    exact newest

/-- **An initialization leaves its value in the file.** What it starts from is the codec's default, the decoded file or
the handler's replacement, and what it ends with is what the migrations make of that. The handler is asked about a
corruption that decoding reports, once, and about nothing else. If a value comes out, the file is as it was where nothing
was replaced and the migrations changed nothing, and otherwise it holds the newest value that was committed: the migrated
one, or the replacement if the migrations left that unchanged; with an equality that is true that is the value itself.
However an initialization ends, the file holds what the newest commit put out whose rename took effect, or its old
contents if none did, and what was committed is what was due, in order. -/
theorem initialization_leaves_its_file (s : Setup V) (store : Atomic) (label : String) (i : Job Memory)
    (apart : store.scratch.place ≠ store.path.place) :
    let found := (store.read i.bench.disk).1
    let old := i.bench.disk.get? store.path.place
    let result := ((Task.firstValue s store label).run i).1
    let after := ((Task.firstValue s store label).run i).2
    let now := after.bench.disk.get? store.path.place
    (∀ bs, found = .ok bs → bs = old) ∧
    after.bench.handled = s.asks i.tally.decodes found ++ i.bench.handled ∧
    (∀ v, result = .ok v → ∃ u isReplacement hasRun,
      s.start? i.tally.decodes found = some (u, isReplacement) ∧ migrated s.migrations u = .ok (v, hasRun) ∧
      s.Leaves old now u isReplacement hasRun v ∧
      ((∀ x y, s.same x y = true ↔ x = y) →
        (isReplacement = false → v = u → now = old) ∧
        (isReplacement = true ∨ v ≠ u → ∃ bs, s.codec.encode v = .ok bs ∧ now = some bs))) ∧
    ∃ begun values, after.bench.commits = begun ++ i.bench.commits ∧
      begun.map (fun c => .ok c.bytes) = values.map s.codec.encode ∧
      values <:+ Task.dueFrom s (s.start? i.tally.decodes found) ∧ now = published old begun := by
  intro found old result after now
  have progress := Task.progress_firstValue s store label i (rfl : (store.read i.bench.disk).1 = found)
  refine ⟨fun bs read => read_contents read, ?_⟩
  rcases ran : (Task.firstValue s store label).run i with ⟨e | v, k⟩ <;> rw [ran] at progress <;>
    simp only [result, now, after, ran]
  · obtain ⟨r, shown, -, asked, within⟩ := progress
    refine ⟨asked ▸ shown.asked, fun v impossible => ?_, r.begun, r.values, shown.commits, shown.encoded, within,
      shown.file apart⟩
    cases impossible
  · obtain ⟨⟨u, isReplacement⟩, hasRun, start, outcome, reached⟩ := progress
    have leaves := leaves_of_opens apart outcome reached
    obtain ⟨begun, applied, ok, shown⟩ := reached
    refine ⟨shown.asked, fun w same => ?_, begun, _, shown.commits, shown.encoded, ?_, shown.file apart⟩
    · cases same
      exact ⟨u, isReplacement, hasRun, start, outcome, leaves, leaves.exact outcome⟩
    · rw [start]
      exact List.suffix_refl _

theorem ok_of_toOption {ε α : Type} {x : Except ε α} {a : α} (h : x.toOption = some a) : x = .ok a := by
  cases x <;> cases h
  rfl

def diskWith (bs : Bytes) : Memory :=
  { files := [(⟨true, ["d", "v"]⟩, bs)], dirs := [⟨true, ["d"]⟩], namespaceId := "0" }

def mendedSwitch : Setup Bool :=
  { switch with
    decodeMishap := fun _ => some (.fails (.corruption "torn" none))
    handler := some fun _ => .returned true
    migrations := [⟨"flip", fun _ => .returned true, fun v => .returned !v, .returned ()⟩] }

/-- The replacement and what the migration made of it are committed in turn, and the file holds the latter. -/
theorem a_torn_switch_is_replaced_and_flipped :
    let store := switchStore ⟨"/d/v"⟩
    let ran := (Task.firstValue mendedSwitch store "/d/v").run
      ⟨{ disk := diskWith [7], registry := {}, journal := {} }, {}⟩
    store.scratch.place ≠ store.path.place ∧ ran.1 = .ok false ∧
      ran.2.bench.disk.get? store.path.place = some [0] ∧ ran.2.bench.handled.length = 1 := by
  intro store ran
  have apart : store.scratch.place ≠ store.path.place := by decide +kernel
  have read : (store.read (diskWith [7])).1 = .ok (some [7]) := ok_of_toOption (by decide +kernel)
  have ends : ran.1 = .ok false := ok_of_toOption (by decide +kernel)
  obtain ⟨-, asked, opens, -⟩ := initialization_leaves_its_file mendedSwitch store "/d/v"
    ⟨{ disk := diskWith [7], registry := {}, journal := {} }, {}⟩ apart
  rw [read] at asked opens
  obtain ⟨u, isReplacement, hasRun, start, outcome, -, exact⟩ := opens false ends
  cases start
  cases outcome
  obtain ⟨bs, encoded, now⟩ := (exact fun x y => by cases x <;> cases y <;> decide).2 (Or.inl rfl)
  cases encoded
  exact ⟨apart, ends, now, congrArg List.length asked⟩

def mendedDocument : Setup Json.Value :=
  { document with
    handler := some fun _ => .returned (.float .zero)
    migrations := [⟨"negate", fun _ => .returned true, fun _ => .returned (.float Decimal.Binary64.zero.neg),
      .returned ()⟩] }

/-- The two zeros of JSON are equal, so the replacement stays in the file although the value is the other zero. -/
theorem a_zero_of_the_other_sign_is_not_stored :
    let store := switchStore ⟨"/d/v"⟩
    let i : Job Memory := ⟨{ disk := diskWith (Text.encode "\x7b"), registry := {}, journal := {} }, {}⟩
    let ran := (Task.firstValue mendedDocument store "/d/v").run i
    let u := Json.Value.float .zero
    let v := Json.Value.float Decimal.Binary64.zero.neg
    store.scratch.place ≠ store.path.place ∧
      mendedDocument.start? 0 (store.read i.bench.disk).1 = some (u, true) ∧
      migrated mendedDocument.migrations u = .ok (v, true) ∧ ran.1 = .ok v ∧
      mendedDocument.codec.encode v = .ok (Text.encode "-0.0") ∧
      ran.2.bench.disk.get? store.path.place = some (Text.encode "0.0") := by
  intro store i ran u v
  have read : (store.read i.bench.disk).1 = .ok (some (Text.encode "\x7b")) := ok_of_toOption (by decide +kernel)
  have torn : (mendedDocument.corruption? 0 (.ok (some (Text.encode "\x7b")))).isSome = true := by decide +kernel
  have encoded : mendedDocument.codec.encode v = .ok (Text.encode "-0.0") := ok_of_toOption (by decide +kernel)
  have put : ran.2.bench.disk.get? store.path.place = some (Text.encode "0.0") := by decide +kernel
  obtain ⟨e, corrupt⟩ := Option.isSome_iff_exists.mp torn
  have replaced : mendedDocument.start? 0 (store.read i.bench.disk).1 = some (u, true) := by
    rw [read]
    exact Setup.start?_of_corruption corrupt
  refine ⟨by decide +kernel, replaced, rfl, ?_, encoded, put⟩
  have progress := Task.progress_firstValue mendedDocument store "/d/v" i rfl
  rcases h : (Task.firstValue mendedDocument store "/d/v").run i with ⟨e | w, k⟩
  · have ends : ran.1.isOk = true := by decide +kernel
    rw [show ran = _ from h] at ends
    cases ends
  · rw [h] at progress
    obtain ⟨first, hasRun, start, outcome, -⟩ := progress
    cases replaced.symm.trans start
    cases outcome
    exact congrArg Prod.fst h

end DurableValue.Cell
