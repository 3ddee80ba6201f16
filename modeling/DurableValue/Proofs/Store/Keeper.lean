/-
  DurableValue.Proofs.Store.Keeper — what a store needs of a file system to replace a file as a whole.

  A *sight* of a store's two files says what they hold on a disk, which disks are in order, and which contents the
  real file has been seen with. A *keeper* is a file system on which a store's operations do to these two files what
  their names promise, whatever else happens: everything but the rename leaves the real file alone, and a rename that
  succeeds gives it the bytes of the scratch file.

  Proved, at every phase of a write:
  - `settle_ok_iff`: on any file system at all, a write returns without an error just if nothing fails of what it
    asks.
  - `course_real`: the real file holds the old contents before the rename and the new bytes after it.
  - `settle_real`: after a write the file holds the new bytes if they were published, else the old contents, and was
    never seen with anything else on the way.
  - `settle_ok`: the bytes of a write that returned without an error were published.
-/
import DurableValue.Store.Atomic

namespace DurableValue.Store

open Disk (FileSystem IoError)

namespace Atomic

variable {F H : Type} [FileSystem F H] {s : Atomic} {bs : Bytes} {phase next : Phase H} {disk disk' : F}

/-! ## The walk -/

theorem settle_next (step : s.advance bs phase disk = (.next next, disk')) :
    s.settle bs phase disk = s.settle bs next disk' := by
  rw [settle]
  split
  · rename_i h; rw [step] at h; cases h; rfl
  · rename_i h; rw [step] at h; cases h

theorem settle_done {outcome : Except Error Unit} (step : s.advance bs phase disk = (.done outcome, disk')) :
    s.settle bs phase disk = (outcome, disk') := by
  rw [settle]
  split
  · rename_i h; rw [step] at h; cases h
  · rename_i h; rw [step] at h; cases h; rfl

theorem course_next (step : s.advance bs phase disk = (.next next, disk')) :
    s.course bs phase disk = (phase, disk) :: s.course bs next disk' := by
  rw [course]
  split
  · rename_i h; rw [step] at h; cases h; rfl
  · rename_i h; rw [step] at h; cases h

theorem course_done {outcome : Except Error Unit} (step : s.advance bs phase disk = (.done outcome, disk')) :
    s.course bs phase disk = [(phase, disk)] := by
  rw [course]
  split
  · rename_i h; rw [step] at h; cases h
  · rfl

def sweep (s : Atomic) (cause : Error) (disk : F) : Step H × F :=
  match FileSystem.entryExists disk s.scratch with
  | (true, disk) => (.next (.removeScratch cause), disk)
  | (false, disk) => (.done (.error cause), disk)

theorem advance_discard_none (cause : Error) : s.advance bs (.discard none cause) disk = s.sweep cause disk := rfl

theorem advance_discard_some (h : H) (cause : Error) :
    s.advance bs (.discard (some h) cause) disk = s.sweep cause (FileSystem.close disk h) := rfl

/-- What holds of a phase once it holds of the one it leads to, if any, holds of every phase. -/
theorem walk_induction (s : Atomic) (bs : Bytes) {P : Phase H → F → Prop}
    (h : ∀ phase disk, (∀ next disk', s.advance bs phase disk = (.next next, disk') → P next disk') → P phase disk)
    (phase : Phase H) (disk : F) : P phase disk := by
  apply h
  intro next disk' step
  have : next.remaining < phase.remaining := remaining_advance (by rw [step])
  exact walk_induction s bs h next disk'
termination_by phase.remaining

/-- A write ends as it does from any phase on its way. -/
theorem settle_of_mem_course (s : Atomic) (bs : Bytes) (phase : Phase H) (disk : F) :
    ∀ k ∈ s.course bs phase disk, s.settle bs k.1 k.2 = s.settle bs phase disk := by
  induction phase, disk using @walk_induction F H _ s bs with
  | h phase disk ih =>
    intro k hk
    rcases step : s.advance bs phase disk with ⟨next | outcome, disk'⟩
    · rw [course_next step] at hk
      rcases List.mem_cons.mp hk with rfl | hk
      · rfl
      · rw [settle_next step]
        exact ih next disk' step k hk
    · rw [course_done step, List.mem_singleton] at hk
      rw [hk]

end Atomic

/-! ## What fails -/

section

variable {F H : Type} [FileSystem F H] {s : Atomic} {bs : Bytes} {phase next : Phase H} {d d' : F}

/-- Whether nothing fails of what a phase asks of the disk. The phases that clean up come only where something did. -/
def Phase.Succeeds (s : Atomic) (bs : Bytes) (d : F) : Phase H → Prop
  | makeParent => (FileSystem.createDirAll d s.parent).1 = .ok ()
  | openScratch => ∃ h : H, (FileSystem.create d s.scratch).1 = .ok h
  | fillScratch h => (FileSystem.writeAll d h bs).1 = .ok ()
  | syncScratch h => (FileSystem.sync d h).1 = .ok ()
  | publish => (FileSystem.rename d s.scratch s.path).1 = .ok ()
  | syncParent => s.syncDirectory = true → (FileSystem.syncDir d s.parent).1 = .ok ()
  | discard _ _ | removeScratch _ => False

namespace Atomic

/-- Behind a phase in which something failed there is only cleaning up. -/
theorem succeeds_of_next (step : s.advance bs phase d = (.next next, d')) (goes : next.Succeeds s bs d') :
    phase.Succeeds s bs d := by
  cases phase with
  | discard h cause => cases h <;> simp only [advance] at step <;> split at step <;> cases step <;> exact goes
  | removeScratch => cases step
  | makeParent =>
    simp only [advance] at step
    split at step <;> cases step
    exact congrArg Prod.fst ‹_›
  | syncParent =>
    simp only [advance] at step
    repeat' split at step
    all_goals cases step
  | openScratch =>
    simp only [advance] at step
    split at step <;> cases step
    · exact ⟨_, congrArg Prod.fst ‹_›⟩
    · exact goes.elim
  | _ =>
    simp only [advance] at step
    split at step <;> cases step
    · exact congrArg Prod.fst ‹_›
    · exact goes.elim

theorem succeeds_of_done {outcome : Except Error Unit} (step : s.advance bs phase d = (.done outcome, d')) :
    outcome = .ok () ↔ phase.Succeeds s bs d := by
  have failed {e : Error} {P : Prop} (fails : ¬ P) : (Except.error e : Except Error Unit) = .ok () ↔ P :=
    iff_of_false (fun ok => by cases ok) fails
  cases phase with
  | makeParent =>
    simp only [advance] at step
    split at step <;> cases step
    rename_i made
    exact failed fun ok => by cases (congrArg Prod.fst made).symm.trans ok
  | syncParent =>
    cases syncs : s.syncDirectory with
    | false =>
      simp only [advance, syncs] at step
      cases step
      exact iff_of_true rfl fun on => by cases syncs.symm.trans on
    | true =>
      simp only [advance, syncs, if_true] at step
      split at step <;> cases step <;> rename_i synced
      · exact iff_of_true rfl fun _ => congrArg Prod.fst synced
      · exact failed fun ok => by cases (congrArg Prod.fst synced).symm.trans (ok syncs)
  | discard h cause =>
    cases h <;> simp only [advance] at step <;> split at step <;> cases step <;> exact failed id
  | removeScratch cause =>
    cases step
    exact failed id
  | _ =>
    simp only [advance] at step
    split at step <;> cases step

/-- **A write returns if and only if nothing fails of what it asks of the disk**, whichever disk that is. -/
theorem settle_ok_iff (phase : Phase H) (d : F) :
    (s.settle bs phase d).1 = .ok () ↔ ∀ m ∈ s.course bs phase d, m.1.Succeeds s bs m.2 := by
  induction phase, d using @walk_induction F H _ s bs with
  | h phase d ih =>
    rcases step : s.advance bs phase d with ⟨next | outcome, d'⟩
    · rw [settle_next step, course_next step, List.forall_mem_cons, ih next d' step]
      refine ⟨fun all => ⟨succeeds_of_next step (all (next, d') ?_), all⟩, And.right⟩
      rw [course]
      exact List.mem_cons_self
    · rw [settle_done step, course_done step, List.forall_mem_singleton]
      exact succeeds_of_done step

end Atomic

end

/-! ## Published -/

/-- Whether the rename has been carried out when this phase begins. -/
def Phase.isPublished {H : Type} : Phase H → Bool
  | syncParent => true
  | _ => false

def Atomic.publishes {F H : Type} [FileSystem F H] (s : Atomic) (bs : Bytes) (phase : Phase H) (disk : F) : Bool :=
  (s.course bs phase disk).any (·.1.isPublished)

/-! ## Keepers -/

structure Sight (F H : Type) where
  real : F → Option Bytes
  scratch : F → Option Bytes
  /-- What is asked of a disk. -/
  fine : F → Prop
  /-- The contents that the real file has been seen with. -/
  seen : F → Option Bytes → Prop
  /-- Whether a handle is one of the scratch file. -/
  mine : H → Prop

namespace Sight

variable {F H : Type}

def Calm (v : Sight F H) (disk disk' : F) : Prop :=
  v.fine disk' ∧ v.real disk' = v.real disk ∧ ∀ c, v.seen disk' c → v.seen disk c ∨ c = v.real disk

def Ready (v : Sight F H) (bs : Bytes) : Phase H → F → Prop
  | .fillScratch h, disk => v.mine h ∧ v.scratch disk = some []
  | .syncScratch h, disk => v.mine h ∧ v.scratch disk = some bs
  | .publish, disk => v.scratch disk = some bs
  | .discard (some h) _, _ => v.mine h
  | _, _ => True

end Sight

/-- A file system that does to the two files of a store what its operations are named for. -/
structure Keeper (F : Type) {H : Type} [FileSystem F H] (s : Atomic) extends Sight F H where
  createDirAll : ∀ {d}, fine d → toSight.Calm d (FileSystem.createDirAll d s.parent).2
  read : ∀ {d}, fine d → toSight.Calm d (FileSystem.read d s.path).2
  realExists : ∀ {d}, fine d → toSight.Calm d (FileSystem.entryExists d s.path).2
  scratchExists : ∀ {d}, fine d → toSight.Calm d (FileSystem.entryExists d s.scratch).2
  create : ∀ {d}, fine d → toSight.Calm d (FileSystem.create d s.scratch).2
  create_ok : ∀ {d h}, fine d → (FileSystem.create d s.scratch).1 = .ok h →
    mine h ∧ scratch (FileSystem.create d s.scratch).2 = some []
  append : ∀ {d h} bs, fine d → mine h → toSight.Calm d (FileSystem.append d h bs).2
  append_ok : ∀ {d h bs old}, fine d → mine h → scratch d = some old → (FileSystem.append d h bs).1 = .ok () →
    scratch (FileSystem.append d h bs).2 = some (old ++ bs)
  sync : ∀ {d h}, fine d → mine h → toSight.Calm d (FileSystem.sync d h).2
  sync_scratch : ∀ {d h}, fine d → mine h → scratch (FileSystem.sync d h).2 = scratch d
  close : ∀ {d h}, fine d → mine h → toSight.Calm d (FileSystem.close d h)
  close_scratch : ∀ {d h}, fine d → mine h → scratch (FileSystem.close d h) = scratch d
  rename_error : ∀ {d e}, fine d → (FileSystem.rename d s.scratch s.path).1 = .error e →
    toSight.Calm d (FileSystem.rename d s.scratch s.path).2
  rename_ok : ∀ {d}, fine d → (FileSystem.rename d s.scratch s.path).1 = .ok () →
    fine (FileSystem.rename d s.scratch s.path).2 ∧ real (FileSystem.rename d s.scratch s.path).2 = scratch d ∧
      ∀ c, seen (FileSystem.rename d s.scratch s.path).2 c → seen d c ∨ c = real d ∨ c = scratch d
  removeScratch : ∀ {d}, fine d → toSight.Calm d (FileSystem.removeFile d s.scratch).2
  syncDir : ∀ {d}, fine d → toSight.Calm d (FileSystem.syncDir d s.parent).2

namespace Keeper

variable {F H : Type} [FileSystem F H] {s : Atomic} (k : Keeper F s) {bs : Bytes} {phase : Phase H} {d : F}

theorem calm_refl (hf : k.fine d) : k.Calm d d := ⟨hf, rfl, fun _ h => Or.inl h⟩

theorem calm_trans {d₁ d₂ d₃ : F} (h₁ : k.Calm d₁ d₂) (h₂ : k.Calm d₂ d₃) : k.Calm d₁ d₃ := by
  refine ⟨h₂.1, h₂.2.1.trans h₁.2.1, fun c hc => ?_⟩
  rcases h₂.2.2 c hc with hc | hc
  · exact h₁.2.2 c hc
  · exact Or.inr (hc.trans h₁.2.1)

/-- Writing all bytes to the fresh scratch file leaves the real one alone; when it succeeds they are all there. -/
theorem writeAll (bs : Bytes) {h : H} (hf : k.fine d) (hm : k.mine h) (he : k.scratch d = some []) :
    k.Calm d (FileSystem.writeAll d h bs).2 ∧
      ((FileSystem.writeAll d h bs).1 = .ok () → k.scratch (FileSystem.writeAll d h bs).2 = some bs) := by
  unfold FileSystem.writeAll
  by_cases hb : bs.isEmpty = true
  · rw [if_pos hb]
    refine ⟨k.calm_refl hf, fun _ => ?_⟩
    rw [he, List.isEmpty_iff.mp hb]
  · rw [if_neg hb]
    exact ⟨k.append bs hf hm, k.append_ok hf hm he⟩

/-! ## One phase -/

/-- A phase that leads to the parent's sync has published the bytes; every other one leaves the real file alone. -/
def Stepped (bs : Bytes) (d : F) (r : Step H × F) : Prop :=
  (∀ next, r.1 = .next next → k.Ready bs next r.2) ∧
    ((r.1 = .next .syncParent ∧ k.fine r.2 ∧ k.real r.2 = some bs ∧
        ∀ c, k.seen r.2 c → k.seen d c ∨ c = k.real d ∨ c = some bs) ∨
      (r.1 ≠ .next .syncParent ∧ k.Calm d r.2))

theorem stepped_calm {r : Step H × F} (hr : ∀ next, r.1 = .next next → k.Ready bs next r.2)
    (hp : r.1 ≠ .next .syncParent) (hc : k.Calm d r.2) : k.Stepped bs d r := ⟨hr, Or.inr ⟨hp, hc⟩⟩

/-- The look at the scratch file before it is discarded. -/
theorem stepped_look {d₁ : F} {cause : Error} (closed : k.Calm d d₁) :
    k.Stepped bs d (s.sweep cause d₁) := by
  have calm := k.scratchExists closed.1
  unfold Atomic.sweep
  rcases e : FileSystem.entryExists d₁ s.scratch with ⟨_ | _, d'⟩ <;> rw [e] at calm
  · exact k.stepped_calm (by intro _ h; cases h) (by simp) (k.calm_trans closed calm)
  · exact k.stepped_calm (by intro _ h; cases h; trivial) (by simp) (k.calm_trans closed calm)

theorem advance (hf : k.fine d) (hr : k.Ready bs phase d) : k.Stepped bs d (s.advance bs phase d) := by
  cases phase with
  | makeParent =>
    have calm := k.createDirAll hf
    simp only [Atomic.advance]
    rcases h : FileSystem.createDirAll d s.parent with ⟨_ | _, d'⟩ <;> rw [h] at calm <;>
      exact k.stepped_calm (by intro _ h; cases h <;> trivial) (by simp) calm
  | openScratch =>
    have calm := k.create hf
    have good := fun h => k.create_ok (h := h) hf
    simp only [Atomic.advance]
    rcases e : FileSystem.create d s.scratch with ⟨_ | h, d'⟩ <;> rw [e] at calm good
    · exact k.stepped_calm (by intro _ h; cases h; trivial) (by simp) calm
    · exact k.stepped_calm (by intro _ h; cases h; exact good h rfl) (by simp) calm
  | fillScratch h =>
    obtain ⟨hm, he⟩ := hr
    obtain ⟨calm, good⟩ := k.writeAll bs hf hm he
    simp only [Atomic.advance]
    rcases e : FileSystem.writeAll d h bs with ⟨_ | _, d'⟩ <;> rw [e] at calm good
    · exact k.stepped_calm (by intro _ h; cases h; exact hm) (by simp) calm
    · exact k.stepped_calm (by intro _ h; cases h; exact ⟨hm, good rfl⟩) (by simp) calm
  | syncScratch h =>
    obtain ⟨hm, he⟩ := hr
    have calm := k.sync hf hm
    have kept := k.sync_scratch hf hm
    simp only [Atomic.advance]
    rcases e : FileSystem.sync d h with ⟨_ | _, d'⟩ <;> rw [e] at calm kept
    · exact k.stepped_calm (by intro _ h; cases h; exact hm) (by simp) calm
    · have closed : k.scratch (FileSystem.close d' h) = some bs := (k.close_scratch calm.1 hm).trans (kept.trans he)
      exact k.stepped_calm (by intro _ h; cases h; exact closed) (by simp) (k.calm_trans calm (k.close calm.1 hm))
  | publish =>
    have bad := fun e => k.rename_error (e := e) hf
    have good := k.rename_ok hf
    have he : k.scratch d = some bs := hr
    simp only [Atomic.advance]
    rcases e : FileSystem.rename d s.scratch s.path with ⟨err | _, d'⟩ <;> rw [e] at bad good
    · exact k.stepped_calm (by intro _ h; cases h; trivial) (by simp) (bad err rfl)
    · -- the one step that changes the real file
      obtain ⟨hf', real, seen⟩ := good rfl
      rw [he] at real seen
      exact ⟨by intro _ h; cases h; trivial, Or.inl ⟨rfl, hf', real, seen⟩⟩
  | syncParent =>
    have calm := k.syncDir hf
    simp only [Atomic.advance]
    split
    · rcases e : FileSystem.syncDir d s.parent with ⟨_ | _, d'⟩ <;> rw [e] at calm <;>
        exact k.stepped_calm (by intro _ h; cases h) (by simp) calm
    · exact k.stepped_calm (by intro _ h; cases h) (by simp) (k.calm_refl hf)
  | discard h cause =>
    cases h with
    | none => exact k.stepped_look (k.calm_refl hf)
    | some h => exact k.stepped_look (k.close hf hr)
  | removeScratch cause => exact k.stepped_calm (by intro _ h; cases h) (by simp [Atomic.advance]) (k.removeScratch hf)

/-! ## The whole write -/

theorem ready_makeParent (bs : Bytes) (d : F) : k.Ready bs .makeParent d := trivial

/-- What the real file holds when a phase begins, if it held `old` when the write did. -/
def realAt (old : Option Bytes) (bs : Bytes) (phase : Phase H) : Option Bytes :=
  if phase.isPublished then some bs else old

theorem publishes_next {next : Phase H} {d' : F} (step : s.advance bs phase d = (.next next, d')) :
    s.publishes bs phase d = (phase.isPublished || s.publishes bs next d') := by
  simp [Atomic.publishes, Atomic.course_next step]

theorem publishes_done {outcome : Except Error Unit} {d' : F} (step : s.advance bs phase d = (.done outcome, d')) :
    s.publishes bs phase d = phase.isPublished := by
  simp [Atomic.publishes, Atomic.course_done step]

theorem publishes_published (h : phase.isPublished = true) : s.publishes bs phase d = true := by
  rw [Atomic.publishes, Atomic.course, List.any_cons, h, Bool.true_or]

/-- Only the sync of the parent directory follows the rename, and nothing follows that. -/
theorem advance_published {next : Phase H} {d' : F} (step : s.advance bs phase d = (.next next, d')) :
    phase.isPublished = false := by
  cases phase <;> try rfl
  simp only [Atomic.advance] at step
  split at step
  · split at step <;> cases step
  · cases step

/-- Only a rename that succeeds leads to the sync of the parent directory. -/
theorem advance_renamed (step : (s.advance bs phase d).1 = .next .syncParent) :
    phase = .publish ∧ (FileSystem.rename d s.scratch s.path).1 = .ok () := by
  cases phase with
  | publish =>
    refine ⟨rfl, ?_⟩
    simp only [Atomic.advance] at step
    split at step
    · rename_i h; rw [h]
    · cases step
  | makeParent => simp only [Atomic.advance] at step; split at step <;> cases step
  | openScratch => simp only [Atomic.advance] at step; split at step <;> cases step
  | fillScratch h => simp only [Atomic.advance] at step; split at step <;> cases step
  | syncScratch h => simp only [Atomic.advance] at step; split at step <;> cases step
  | syncParent => simp only [Atomic.advance] at step; (repeat' split at step) <;> cases step
  | discard h cause => simp only [Atomic.advance] at step; split at step <;> cases step
  | removeScratch cause => cases step

/-- The next phase begins as `realAt` says. -/
theorem next_real {next : Phase H} {d' : F} {old : Option Bytes} (hf : k.fine d) (hr : k.Ready bs phase d)
    (ho : k.real d = realAt old bs phase) (step : s.advance bs phase d = (.next next, d')) :
    k.fine d' ∧ k.Ready bs next d' ∧ k.real d' = realAt old bs next := by
  obtain ⟨ready, moved⟩ := k.advance hf hr
  rw [step] at ready moved
  refine ⟨?_, ready next rfl, ?_⟩
  · rcases moved with ⟨-, hf', -⟩ | ⟨-, hf', -⟩ <;> exact hf'
  · rcases moved with ⟨hn, -, real, -⟩ | ⟨hn, -, real, -⟩
    · cases hn; exact real
    · rw [real, ho]
      have : next.isPublished = false := by
        cases next <;> first | rfl | exact absurd rfl hn
      simp [realAt, this, advance_published step]

/-- At every phase the real file holds the old contents, or the new bytes once the rename is done. -/
theorem course_real {old : Option Bytes} (hf : k.fine d) (hr : k.Ready bs phase d)
    (ho : k.real d = realAt old bs phase) :
    ∀ m ∈ s.course bs phase d, k.fine m.2 ∧ k.Ready bs m.1 m.2 ∧ k.real m.2 = realAt old bs m.1 := by
  induction phase, d using @Atomic.walk_induction F H _ s bs with
  | h phase d ih =>
    intro m hm
    rcases step : s.advance bs phase d with ⟨next | outcome, d'⟩
    · rw [Atomic.course_next step] at hm
      rcases List.mem_cons.mp hm with rfl | hm
      · exact ⟨hf, hr, ho⟩
      · obtain ⟨hf', hr', ho'⟩ := k.next_real hf hr ho step
        exact ih next d' step hf' hr' ho' m hm
    · rw [Atomic.course_done step, List.mem_singleton] at hm
      subst hm
      exact ⟨hf, hr, ho⟩

/-- How a write ends: the real file holds the new bytes if they were published and the old contents otherwise, and it
was seen with nothing else on the way. -/
theorem settle_real {old : Option Bytes} (hf : k.fine d) (hr : k.Ready bs phase d)
    (ho : k.real d = realAt old bs phase) :
    k.fine (s.settle bs phase d).2 ∧
      k.real (s.settle bs phase d).2 = (if s.publishes bs phase d then some bs else old) ∧
      ∀ c, k.seen (s.settle bs phase d).2 c →
        k.seen d c ∨ c = old ∨ (s.publishes bs phase d = true ∧ c = some bs) := by
  induction phase, d using @Atomic.walk_induction F H _ s bs with
  | h phase d ih =>
    -- What the real file holds now is old, or new because the rename was before.
    have held : ∀ c, c = k.real d → c = old ∨ (phase.isPublished = true ∧ c = some bs) := by
      intro c hc
      rw [hc, ho]
      unfold realAt
      split
      · rename_i published
        exact Or.inr ⟨published, rfl⟩
      · exact Or.inl rfl
    have moved := (k.advance hf hr).2
    rcases step : s.advance bs phase d with ⟨next | outcome, d'⟩ <;> rw [step] at moved
    · obtain ⟨hf', hr', ho'⟩ := k.next_real hf hr ho step
      obtain ⟨fine, real, seen⟩ := ih next d' step hf' hr' ho'
      have before := advance_published step
      rw [Atomic.settle_next step, publishes_next step, before]
      refine ⟨fine, real, fun c hc => ?_⟩
      have first : c = k.real d → c = old := by
        intro hc
        rcases held c hc with e | ⟨published, -⟩
        · exact e
        · cases before.symm.trans published
      rcases seen c hc with here | later
      · rcases moved with ⟨hn, -, -, seen'⟩ | ⟨-, -, -, seen'⟩
        · cases hn
          rcases seen' c here with earlier | held | new
          · exact Or.inl earlier
          · exact Or.inr (Or.inl (first held))
          · exact Or.inr (Or.inr ⟨publishes_published rfl, new⟩)
        · exact (seen' c here).imp id fun held => Or.inl (first held)
      · exact Or.inr later
    · rw [Atomic.settle_done step, publishes_done step]
      rcases moved with ⟨hn, -⟩ | ⟨-, fine, real, seen⟩
      · cases hn
      · exact ⟨fine, real.trans ho, fun c hc => (seen c hc).imp id (held c)⟩

/-- A write that ends without an error has published its bytes. -/
theorem settle_ok (s : Atomic) (bs : Bytes) (phase : Phase H) (d : F) (ok : (s.settle bs phase d).1 = .ok ()) :
    s.publishes bs phase d = true := by
  induction phase, d using @Atomic.walk_induction F H _ s bs with
  | h phase d ih =>
    rcases step : s.advance bs phase d with ⟨next | outcome, d'⟩
    · rw [Atomic.settle_next step] at ok
      simp [publishes_next step, ih next d' step ok]
    · rw [Atomic.settle_done step] at ok
      rw [publishes_done step]
      cases phase with
      | syncParent => rfl
      | removeScratch cause => simp [Atomic.advance] at step; rw [← step.1] at ok; cases ok
      | makeParent => simp only [Atomic.advance] at step; split at step <;> cases step; cases ok
      | openScratch => simp only [Atomic.advance] at step; split at step <;> cases step
      | fillScratch h => simp only [Atomic.advance] at step; split at step <;> cases step
      | syncScratch h => simp only [Atomic.advance] at step; split at step <;> cases step
      | publish => simp only [Atomic.advance] at step; split at step <;> cases step
      | discard h cause => simp only [Atomic.advance] at step; split at step <;> cases step; cases ok

end Keeper

end DurableValue.Store
