/-
  DurableValue.Proofs.Store.Unarmed — reading and writing in memory where no fault is armed.

  What is read goes by the real path alone (`read_unarmed`). A write can fail in one way only: the scratch file has no
  directory to be made in, because the store's path ends in a slash or a dot and its scratch file would have to lie
  below the real one. Whether that is so is told by the paths and by whether a directory stands at the real path
  (`verdict_unarmed`).
-/
import DurableValue.Proofs.Path
import DurableValue.Proofs.Store.Replacement

namespace DurableValue.Store

open Disk (FileSystem Memory Fault)

namespace Atomic

/-! ## Reading -/

def unarmedReading (s : Atomic) (found : Option Bytes) (isDir : Bool) : Except Error (Option Bytes) :=
  match found with
  | some bs => .ok (some bs)
  | none => if isDir then .error (.readFailed s.path (Memory.noFile s.path.place)) else .ok none

theorem read_unarmed (s : Atomic) (m : Memory) (unarmed : m.isArmed .read = false) :
    (s.read m).1 = s.unarmedReading (m.get? s.path.place) (m.hasDir s.path.place) := by
  have unarmed' : ({ m with reads := m.reads + 1 } : Memory).isArmed .read = false := unarmed
  have read : FileSystem.read m s.path = m.read s.path := rfl
  cases found : m.get? s.path.place with
  | some bs =>
    have found' : ({ m with reads := m.reads + 1 } : Memory).get? s.path.place = some bs := found
    simp only [Atomic.read, read, Memory.read, Memory.guarded, unarmed', found']
    rfl
  | none =>
    have found' : ({ m with reads := m.reads + 1 } : Memory).get? s.path.place = none := found
    have look : FileSystem.entryExists ({ m with reads := m.reads + 1 } : Memory) s.path =
        (m.hasDir s.path.place, { m with reads := m.reads + 1 }) := by
      change (Memory.entryExists _ s.path, _) = _
      rw [Memory.entryExists, found']
      rfl
    simp only [Atomic.read, read, Memory.read, Memory.guarded, unarmed', found', Bool.false_eq_true, if_false,
      Atomic.fileExists, look]
    cases m.hasDir s.path.place <;> rfl

/-! ## Where a scratch file can be made -/

/-- Whether the real file lies right below its directory, and the scratch file below one that is made for the real
file, or below the real file. -/
structure Sited (s : Atomic) : Prop where
  real : ∃ ds n, s.parent.place = ⟨true, ds⟩ ∧ s.path.place = ⟨true, ds ++ [n]⟩
  scratch : ∀ q, s.scratch.place.parent? = some q →
    q.isTop = true ∨ q ∈ s.parent.place.ancestors ∨ q = s.path.place

/-- Whether the scratch file can be made once the directories are; `isDir` says whether one stands at the real path. -/
def reachesScratch (s : Atomic) (isDir : Bool) : Bool :=
  match s.scratch.place.parent? with
  | none => true
  | some q => q.isTop || decide (q ∈ s.parent.place.ancestors) || (decide (q = s.path.place) && isDir)

def unarmedEnding (s : Atomic) (isDir : Bool) : Bool × Except Error Unit :=
  if s.reachesScratch isDir then (true, .ok ())
  else (false, .error (s.scratchNotCreated (Memory.noParent s.scratch.place)))

def Made (s : Atomic) (m : Memory) : Prop := ∀ q ∈ s.parent.place.ancestors, m.hasDir q = true

variable {s : Atomic} {m : Memory} {isDir : Bool}

/-- An accepted path with an accepted suffix is sited. -/
theorem sited_of_new {p : Path} {o : Options} (new : Atomic.new p o = .ok s) (free : '/' ∉ o.scratchSuffix.toList) :
    s.Sited := by
  unfold Atomic.new at new
  cases accepted : checkPath p with
  | error e => rw [accepted] at new; cases new
  | ok _ =>
    rw [accepted] at new
    cases new
    obtain ⟨ds, n, up, real⟩ := Path.place_of_accepted accepted
    refine ⟨⟨ds, n, up, real⟩, fun q hq => ?_⟩
    have above {ds' : List String} (h : ds' <+: ds) (e : q = ⟨true, ds'⟩) :
        q.isTop = true ∨ q ∈ (p.parent?.getD ⟨"/"⟩).place.ancestors := by
      subst e
      by_cases top : ds' = []
      · exact Or.inl (by simp [Place.isTop, top])
      · refine Or.inr ?_
        rw [up]
        exact Place.ancestors_of_prefix rfl top h
    rcases Path.scratch_place accepted free real with ⟨m, e⟩ | ⟨m, e⟩ | e <;> simp only at hq <;> rw [e] at hq
    · have : q = ⟨true, ds⟩ := by simpa [Place.parent?, Place.isTop] using hq.symm
      rcases above (List.prefix_refl ds) this with top | mem
      · exact Or.inl top
      · exact Or.inr (Or.inl mem)
    · have : q = ⟨true, ds ++ [n]⟩ := by simpa [Place.parent?, Place.isTop] using hq.symm
      exact Or.inr (Or.inr (this.trans real.symm))
    · unfold Place.parent? at hq
      split at hq
      · cases hq
      · cases hq
        rcases above (List.dropLast_prefix ds) rfl with top | mem
        · exact Or.inl top
        · exact Or.inr (Or.inl mem)

theorem real_not_above (sited : s.Sited) : s.path.place ∉ s.parent.place.ancestors := by
  obtain ⟨ds, n, up, real⟩ := sited.real
  rw [up, real]
  intro mem
  have len := (Place.mem_ancestors mem).2.2.length_le
  simp only [List.length_append, List.length_singleton] at len
  omega

theorem parentExists_real (sited : s.Sited) (made : s.Made m) : m.parentExists s.path.place = true := by
  obtain ⟨ds, n, up, real⟩ := sited.real
  have parent : s.path.place.parent? = some s.parent.place := by
    rw [real, up]
    simp [Place.parent?, Place.isTop]
  simp only [Memory.parentExists, parent]
  by_cases top : ds = []
  · rw [up, top]
    rfl
  · have mem : s.parent.place ∈ s.parent.place.ancestors := by
      rw [up]
      exact Place.ancestors_of_prefix rfl top (List.prefix_refl ds)
    rw [made _ mem, Bool.or_true]

theorem parentExists_scratch (sited : s.Sited) (made : s.Made m) (dir : m.hasDir s.path.place = isDir) :
    m.parentExists s.scratch.place = s.reachesScratch isDir := by
  simp only [Memory.parentExists, reachesScratch]
  cases parent : s.scratch.place.parent? with
  | none => rfl
  | some q =>
    simp only []
    rcases sited.scratch q parent with top | mem | rfl
    · rw [top, Bool.true_or, Bool.true_or, Bool.true_or]
    · rw [made q mem, decide_eq_true mem, Bool.or_true, Bool.true_or]
    · rw [decide_eq_false (real_not_above sited), decide_eq_true rfl, dir, Bool.or_false, Bool.true_and]

theorem verdict_unarmed (sited : s.Sited) (unarmed : m.armed = []) (bs : Bytes) :
    s.verdict bs m = s.unarmedEnding (m.hasDir s.path.place) := by
  have clear (f : Fault) : m.isArmed f = false := by rw [Memory.isArmed, unarmed]; rfl
  have clear' (f : Fault) : (m.addDirs s.parent.place).isArmed f = false := clear f
  have made : s.Made (m.addDirs s.parent.place) := fun q mem => (m.hasDir_addDirs _ _).mpr (Or.inr mem)
  have dir : (m.addDirs s.parent.place).hasDir s.path.place = m.hasDir s.path.place := by
    rw [Bool.eq_iff_iff, m.hasDir_addDirs]
    simp [real_not_above sited]
  simp only [verdict, closing, clear, clear', parentExists_scratch sited made dir, parentExists_real sited made,
    unarmedEnding]
  cases s.reachesScratch (m.hasDir s.path.place)
  · rfl
  · simp

end Atomic

end DurableValue.Store
