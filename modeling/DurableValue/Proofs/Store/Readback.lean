/-
  DurableValue.Proofs.Store.Readback — what a store reads on a host after it has written.

  The scratch file of a path that ends in a step stands beside the real one, so a write that returns has put a new
  file in the place of what the path named. The scratch name is free again then, and so are the scratch names under
  other suffixes that were free before.

  Proved:
  - `stages_of_write`: the hosts that a write which returns goes through.
  - `read_after_write`: the next read gives the bytes of it, unless the way to the path led through the very entry
    that was replaced; then it fails.
  - `write_inRoot`: for a file in the root nothing of this can fail, if the file is no directory.
-/
import DurableValue.Proofs.Disk.Replace
import DurableValue.Proofs.Store.Beside
import DurableValue.Proofs.Store.Native
import DurableValue.Proofs.Store.Sibling
import DurableValue.Proofs.Store.Synced

namespace DurableValue.Store.Atomic

open Disk (FileSystem Host Trail)
open Disk.Host (Node LastStep Free Moved)

variable {s : Atomic} {bs : Bytes} {h h' : Host}

/-! ## A write that returns -/

/-- The hosts that a write which returns goes through: the directories are made, the scratch file is opened, filled and
given up, and renamed. -/
theorem stages_of_write (ok : s.write bs h = (.ok (), h')) : ∃ h₀ handle h₁,
    h.createDirAll s.parent = (.ok (), h₀) ∧ h₀.create s.scratch = (.ok handle, h₁) ∧
      (((FileSystem.writeAll h₁ handle bs).2.flushed handle).close handle).rename s.scratch s.path = (.ok (), h') := by
  -- Each phase but the last one goes on only if it did not fail; a failure ends in a discard, which is no success.
  unfold write at ok
  rcases made : FileSystem.createDirAll h s.parent with ⟨e | ⟨⟩, h₀⟩
  · have step : s.advance bs .makeParent h = (.done (.error (s.parentMissing e)), h₀) := by simp only [advance, made]
    rw [settle_done step] at ok
    cases ok
  have step : s.advance bs .makeParent h = (.next .openScratch, h₀) := by simp only [advance, made]
  rw [settle_next step] at ok
  rcases opened : FileSystem.create h₀ s.scratch with ⟨e | handle, h₁⟩
  · rw [settle_next (advance_openScratch_error (congrArg Prod.fst opened))] at ok
    exact absurd (congrArg Prod.fst ok) discard_not_ok
  rw [settle_next (advance_openScratch_ok (congrArg Prod.fst opened)), opened] at ok
  refine ⟨h₀, handle, h₁, made, opened, ?_⟩
  have filled : (FileSystem.writeAll h₁ handle bs).1 = .ok () := by
    unfold FileSystem.writeAll
    split <;> rfl
  rw [settle_next (advance_fillScratch_ok filled), settle_next (advance_syncScratch_ok rfl)] at ok
  have given : FileSystem.close (FileSystem.sync (FileSystem.writeAll h₁ handle bs).2 handle).2 handle =
    ((FileSystem.writeAll h₁ handle bs).2.flushed handle).close handle := rfl
  rw [given] at ok
  generalize ((FileSystem.writeAll h₁ handle bs).2.flushed handle).close handle = h₂ at ok ⊢
  rcases renamed : FileSystem.rename h₂ s.scratch s.path with ⟨e | ⟨⟩, h₃⟩
  · have step : s.advance bs (.publish : Phase Nat) h₂ =
        (.next (.discard none (.renameFailed s.scratch s.path e)), h₃) := by simp only [advance, renamed]
    rw [settle_next step] at ok
    exact absurd (congrArg Prod.fst ok) discard_not_ok
  · rw [settle_next (advance_publish_ok (congrArg Prod.fst renamed)), renamed] at ok
    obtain ⟨same, last⟩ := s.advance_syncParent bs h₃
    rcases step : s.advance bs (.syncParent : Phase Nat) h₃ with ⟨next | outcome, h₄⟩
    · exact absurd (congrArg Prod.fst step) (last next)
    · rw [settle_done step] at ok
      rw [step] at same
      cases same
      cases ok
      exact renamed

/-- A scratch file that was opened under a free name is there when it is filled and given up, with all the bytes, and is
all that has been added. -/
theorem filled_scratch {h₁ : Host} {handle : Nat} (absolute : s.scratch.isAbsolute = true) (free : h.Free s.scratch)
    (created : h.create s.scratch = (.ok handle, h₁)) (bs : Bytes) : ∃ h₂ dir n slash i,
      ((FileSystem.writeAll h₁ handle bs).2.flushed handle).close handle = h₂ ∧ h.Grows h₂ ∧
      h.lastStep s.scratch = .ok (.name dir n slash) ∧ h₂.bytesOf i = bs ∧
      ∀ t, h₂.node? t = if t = dir ++ [n] then some (.file i) else h.node? t := by
  obtain ⟨dir, n, slash, i, reached, entries, holds⟩ := Host.create_free absolute free created
  have filled := (Host.holds_flushed (Host.holds_writeAll holds bs)).1
  have grows : h.Grows h₁ := by
    have grows := h.grows_create absolute
    rwa [created] at grows
  have nodes : (((FileSystem.writeAll h₁ handle bs).2.flushed handle).close handle).nodes = h₁.nodes :=
    (Host.close_nodes _ _).trans ((Host.flushed_nodes _ _).trans (writeAll_nodes h₁ handle bs))
  exact ⟨_, dir, n, slash, i, rfl, grows.trans (Host.grows_of_nodes nodes), reached, Host.bytesOf_close filled,
    fun t => (Host.node?_of_nodes nodes t).trans (entries t)⟩

/-! ## Beside each other -/

/-- A suffix lengthens the last step of a path that ends in one. -/
theorem stepsOf_withSuffix {p : Path} {suffix : String} (absolute : p.isAbsolute = true) (step : p.endsInStep = true)
    (free : '/' ∉ suffix.toList) : ∃ init n, Host.stepsOf p.text = init ++ [n] ∧
      Host.stepsOf (p.withSuffix suffix).text = init ++ [n ++ suffix] := by
  obtain ⟨cs, text⟩ := Host.text_of_absolute absolute
  obtain ⟨init, last, before, after⟩ := Path.pieces_append cs suffix.toList free
  have lasting : last.isEmpty = false := by
    rw [Path.endsInStep_absolute text before] at step
    cases last with
    | nil => cases step
    | cons => rfl
  have lengthened : (p.withSuffix suffix).text.toList = '/' :: (cs ++ suffix.toList) := by simp [Path.withSuffix, text]
  refine ⟨(init.filter (!·.isEmpty)).map String.ofList, .ofList last, ?_, ?_⟩
  · rw [Host.stepsOf_absolute text, before]
    simp [lasting]
  · rw [Host.stepsOf_absolute lengthened, after]
    have more : (last ++ suffix.toList).isEmpty = false := by
      cases last with
      | nil => cases lasting
      | cons => rfl
    simp [more, String.ofList_append]

/-- A path and its scratch path never come to one name. -/
theorem names_differ {p : Path} {suffix : String} (absolute : p.isAbsolute = true)
    (absolute' : (p.withSuffix suffix).isAbsolute = true) (step : p.endsInStep = true) (some : suffix ≠ "")
    (free : '/' ∉ suffix.toList) {dir dir' : Trail} {n n' : String} {slash slash' : Bool}
    (reached : h.lastStep p = .ok (.name dir n slash))
    (reached' : h'.lastStep (p.withSuffix suffix) = .ok (.name dir' n' slash')) : dir' ++ [n'] ≠ dir ++ [n] := by
  obtain ⟨-, _, walk⟩ := (Host.lastStep_iff absolute).mp reached
  obtain ⟨-, _, walk'⟩ := (Host.lastStep_iff absolute').mp reached'
  obtain ⟨-, -, front, steps⟩ := walk.name
  obtain ⟨-, -, front', steps'⟩ := walk'.name
  obtain ⟨init, m, before, after⟩ := stepsOf_withSuffix absolute step free
  have last : n = m := List.singleton_inj.mp (List.append_inj' (steps.symm.trans before) rfl).2
  have last' : n' = m ++ suffix := List.singleton_inj.mp (List.append_inj' (steps'.symm.trans after) rfl).2
  intro same
  have same : n' = n := List.singleton_inj.mp (List.append_inj' same rfl).2
  rw [last, last'] at same
  have none := congrArg String.toList same
  exact some (String.toList_eq_nil_iff.mp (by simpa using none))

/-! ## Read again -/

def Unoccupied (s : Atomic) (h : Host) : Prop := (s.made h).Free s.scratch

/-- Whether the scratch path of a store on a path that ends in a step is that path with a suffix behind it. -/
structure Suffixed (s : Atomic) (suffix : String) : Prop where
  accepted : checkPath s.path = .ok ()
  step : s.path.endsInStep = true
  some : suffix ≠ ""
  free : '/' ∉ suffix.toList
  scratch : s.scratch = s.path.withSuffix suffix

/-- What a write that returns has changed of the entries: there is a new file with the bytes at the name of the path. -/
theorem moved_of_write {suffix : String} (suffixed : s.Suffixed suffix) (unoccupied : s.Unoccupied h)
    (ok : s.write bs h = (.ok (), h')) : ∃ (h₁ : Host) (source dir : Trail) (n : String) (slash : Bool) (i : Nat),
      h₁.lastStep s.path = .ok (.name dir n slash) ∧ n.utf8ByteSize ≤ Host.nameLimit ∧
      h₁.Moved h' source (dir ++ [n]) i ∧ h'.bytesOf i = bs ∧
      ∀ t, h₁.node? t = if t = source then some (.file i) else (s.made h).node? t := by
  obtain ⟨accepted, step, some, free, scratch⟩ := suffixed
  have absolute := Host.absolute_of_accepted accepted
  have absolute' : s.scratch.isAbsolute = true := scratch ▸ absolute_scratch accepted suffix
  obtain ⟨h₀, handle, h₁, made, created, renamed⟩ := stages_of_write ok
  have made : s.made h = h₀ := congrArg Prod.snd made
  rw [Unoccupied, made] at unoccupied
  obtain ⟨h₂, dir, n, slash, i, given, grows, reached, bytes, entries⟩ :=
    filled_scratch absolute' unoccupied created bs
  rw [given] at renamed
  have reached := (Host.lastStep_within absolute' grows.within reached).1
  obtain ⟨dir', n', slash', reached', fits, moved, same⟩ := Host.rename_file reached
    ((entries _).trans (if_pos rfl))
    (fun _ _ _ reached' => names_differ absolute (scratch ▸ absolute') step some free reached' (scratch ▸ reached))
    renamed
  exact ⟨h₂, _, dir', n', slash', i, reached', fits, moved, (same i).trans bytes, made ▸ entries⟩

/-- What can be read stands in a directory. -/
theorem isDir_parent_of_read (accepted : checkPath s.path = .ok ()) (read : h.read s.path = .ok bs) :
    h.isDir s.parent = true := by
  have absolute := Host.absolute_of_accepted accepted
  obtain ⟨up, -, -, -, parent, -⟩ := Path.accepted_cases accepted
  rw [Atomic.parent, parent, Option.getD_some]
  unfold Host.read at read
  split at read
  · cases read
  · rename_i found
    obtain ⟨last, reached, -⟩ := Host.lastStep_of_find absolute found
    exact Host.isDir_up absolute reached parent
  · cases read

/-- Under another suffix no scratch name is taken by the move either. -/
theorem unoccupied_of_moved {suffix : String} {h₁ : Host} {source dir : Trail} {n : String} {slash : Bool} {i : Nat}
    (suffixed : s.Suffixed suffix) (unoccupied : s.Unoccupied h)
    (reached : h₁.lastStep s.path = .ok (.name dir n slash)) (moved : h₁.Moved h' source (dir ++ [n]) i)
    (entries : ∀ t, h₁.node? t = if t = source then some (.file i) else (s.made h).node? t)
    (stands : s.made h' = h') : s.Unoccupied h' := by
  have absolute := Host.absolute_of_accepted suffixed.accepted
  have absolute' : s.scratch.isAbsolute = true := suffixed.scratch ▸ absolute_scratch suffixed.accepted suffix
  have ways : ∀ t m, ¬ dir ++ [n] <+: t → h'.node? t = some m → (∀ j, m ≠ .file j) →
      (s.made h).node? t = some m := by
    intro t m outside there other
    rw [moved.kept t outside, entries] at there
    split at there
    · cases there
    split at there
    · cases there
      exact absurd rfl (other i)
    · exact there
  rw [Unoccupied, stands]
  intro dir' n' slash' reached'
  have other : dir' ++ [n'] ≠ dir ++ [n] := names_differ absolute (suffixed.scratch ▸ absolute') suffixed.step
    suffixed.some suffixed.free reached (suffixed.scratch ▸ reached')
  obtain ⟨checked, left, walk⟩ := (Host.lastStep_iff absolute').mp reached'
  obtain ⟨walk, outside⟩ := walk.back ways moved.named moved.landed fun below => moved.named (List.prefix_nil.mp below)
  have outside : ¬ dir ++ [n] <+: dir' := outside
  have free := unoccupied dir' n' slash' ((Host.lastStep_iff absolute').mpr ⟨checked, left, walk⟩)
  rw [moved.kept _ (Host.not_prefix_concat outside other), entries]
  split
  · rfl
  · rename_i below
    have elsewhere : dir' ++ [n'] ≠ source := fun same => below (same ▸ List.prefix_refl _)
    rw [if_neg elsewhere]
    exact free

/-- **What a store reads after a write that returned** is what was written, if anything can be read at all. The scratch
name is free again then, and so is the scratch name under every other suffix under which it was free. -/
theorem read_after_write {suffix : String} {found : Option Bytes} (suffixed : s.Suffixed suffix)
    (unoccupied : s.Unoccupied h) (ok : s.write bs h = (.ok (), h')) (readable : (s.read h').1 = .ok found) :
    found = some bs ∧ ∀ (s' : Atomic) (suffix' : String), s'.Suffixed suffix' → s'.path = s.path →
      s'.Unoccupied h → s'.Unoccupied h' := by
  have absolute := Host.absolute_of_accepted suffixed.accepted
  obtain ⟨h₁, source, dir, n, slash, i, reached, fits, moved, bytes, entries⟩ :=
    moved_of_write suffixed unoccupied ok
  have asked : FileSystem.read h' s.path = (h'.read s.path, h') := rfl
  have read : h'.read s.path = .ok bs := by
    rcases moved.read absolute reached fits with read | blocked
    · rw [read, bytes]
    · have other : Disk.IoError.notDirectory.kind ≠ .notFound := by decide
      rw [Atomic.read, asked, blocked] at readable
      simp only [if_neg other] at readable
      cases readable
  refine ⟨?_, fun s' suffix' suffixed' path free => ?_⟩
  · rw [Atomic.read, asked, read] at readable
    cases readable
    rfl
  · have parent : s'.parent = s.parent := by rw [Atomic.parent, Atomic.parent, path]
    have there := isDir_parent_of_read suffixed.accepted read
    refine unoccupied_of_moved suffixed' free (path ▸ reached) moved ?_ ?_
    · rwa [made, parent]
    · rw [made, parent, Host.createDirAll_of_isDir (absolute_parent suffixed.accepted) there]

/-! ## In the root -/

theorem isDir_parent_inRoot (parent : s.parent = ⟨"/"⟩) (h : Host) : h.isDir s.parent = true :=
  Host.isDir_iff.mpr ⟨[], parent ▸ h.find_root⟩

theorem Unoccupied.node?_inRoot {m : String} (unoccupied : s.Unoccupied h) (scratch : Host.InRoot s.scratch m)
    (parent : s.parent = ⟨"/"⟩) : h.node? [m] = none := by
  have made : s.made h = h := by
    rw [made, Host.createDirAll_of_isDir (parent ▸ rfl) (isDir_parent_inRoot parent h)]
  rw [Unoccupied, made] at unoccupied
  exact unoccupied _ _ _ (scratch.lastStep h)

/-- **A write returns in the root** where the scratch name is free and the file is no directory. -/
theorem write_inRoot {n m : String} (path : Host.InRoot s.path n) (scratch : Host.InRoot s.scratch m) (apart : m ≠ n)
    (parent : s.parent = ⟨"/"⟩) (free : h.node? [m] = none) (other : h.node? [n] ≠ some .dir) (bs : Bytes) :
    ∃ h' i, s.write bs h = (.ok (), h') ∧ h'.node? [n] = some (.file i) := by
  have made : FileSystem.createDirAll h s.parent = (.ok (), h) :=
    Host.createDirAll_of_isDir (parent ▸ rfl) (isDir_parent_inRoot parent h)
  have step : s.advance bs .makeParent h = (.next .openScratch, h) := by simp only [advance, made]
  obtain ⟨handle, h₁, created⟩ := scratch.create free
  have asked : FileSystem.create h s.scratch = (.ok handle, h₁) := created
  have filled : (FileSystem.writeAll h₁ handle bs).1 = .ok () := by
    unfold FileSystem.writeAll
    split <;> rfl
  rw [write, settle_next step, settle_next (advance_openScratch_ok (congrArg Prod.fst asked)), asked,
    settle_next (advance_fillScratch_ok filled), settle_next (advance_syncScratch_ok rfl)]
  have named : h.Free s.scratch := by
    intro dir k slash reached
    cases (scratch.lastStep h).symm.trans reached
    exact free
  obtain ⟨h₂, dir, k, slash, i, given, -, reached, -, entries⟩ := filled_scratch scratch.absolute named created bs
  cases (scratch.lastStep h).symm.trans reached
  have given : FileSystem.close (FileSystem.sync (FileSystem.writeAll h₁ handle bs).2 handle).2 handle = h₂ := given
  rw [given]
  have file : h₂.node? [m] = some (.file i) := (entries _).trans (if_pos rfl)
  have one : [n] ≠ [m] := fun same => apart (List.singleton_inj.mp same).symm
  have elsewhere : h₂.node? [n] = h.node? [n] := (entries _).trans (if_neg one)
  obtain ⟨h₃, renamed⟩ := scratch.rename path apart file (by rwa [elsewhere])
  have asked' : FileSystem.rename h₂ s.scratch s.path = (.ok (), h₃) := renamed
  rw [settle_next (advance_publish_ok (congrArg Prod.fst asked')), asked']
  obtain ⟨dir', k', slash', reached', -, moved, -⟩ := Host.rename_file (scratch.lastStep h₂) file
    (fun dir' k' slash' reached' => by
      cases (path.lastStep h₂).symm.trans reached'
      exact one.symm) renamed
  cases (path.lastStep h₂).symm.trans reached'
  refine ⟨h₃, i, ?_, moved.landed⟩
  have sealed : FileSystem.syncDir h₃ s.parent = (.ok (), h₃) := by
    have asked : FileSystem.syncDir h₃ s.parent = (h₃.syncDir s.parent, h₃) := rfl
    rw [asked, Host.syncDir, parent, h₃.find_root]
    rfl
  cases sync : s.syncDirectory with
  | false => exact settle_done (by simp only [advance, sync]; rfl)
  | true => exact settle_done (by simp only [advance, sync, sealed, if_true])

end DurableValue.Store.Atomic
