/-
  DurableValue.Proofs.Store.Native — who owns a path on a host.

  A path is owned under a key that is made when the store is opened, and the store's own first write can change the
  key: it makes the directory of the path, and a directory that is there is found, through links, where it really is.
  So the owner stays the only one where the directory was there before, or is made where the text of the path says
  (`Anchored`).

  Proved:
  - `going_advance`, `throughout_kept`: no phase of a write touches what the way to the directory leads through.
  - `key_settled`: from the moment the directory is there the key stays what it is.
  - `given_away_of_adrift`: where the directory is made behind a link, the path is free under its new key, and is
    given to a second owner.
  - `owned_path_is_refused`: which paths are refused to a second owner, on every host.
-/
import DurableValue.Proofs.Disk.Key
import DurableValue.Proofs.Store.Keeper
import DurableValue.Store.Exclusive

namespace DurableValue.Store

open Disk (FileSystem Host Trail)
open Disk.Host (Node LastStep)

namespace Atomic

/-! ## The disks that writes lead through -/

section

variable {F H : Type} [FileSystem F H] {s : Atomic} {bs : Bytes} {phase : Phase H} {d d' : F} {K : F → Prop}

/-- Every disk that writes lead through, one after the other: as it is when a phase begins, and at the end. -/
def moments (s : Atomic) : List Bytes → F → List F
  | [], d => [d]
  | bs :: bss, d => (s.course bs (.makeParent (H := H)) d).map (·.2) ++ s.moments bss (s.write bs d).2

def Throughout (s : Atomic) (K : F → Prop) (bs : Bytes) (phase : Phase H) (d : F) : Prop :=
  (∀ m ∈ s.course bs phase d, K m.2) ∧ K (s.settle bs phase d).2

theorem throughout_next {next : Phase H} (step : s.advance bs phase d = (.next next, d')) (now : K d)
    (later : s.Throughout K bs next d') : s.Throughout K bs phase d := by
  refine ⟨fun m mem => ?_, ?_⟩
  · rw [course_next step] at mem
    rcases List.mem_cons.mp mem with rfl | mem
    · exact now
    · exact later.1 m mem
  · rw [settle_next step]
    exact later.2

theorem throughout_done {outcome : Except Error Unit} (step : s.advance bs phase d = (.done outcome, d')) (now : K d)
    (last : K d') : s.Throughout K bs phase d := by
  refine ⟨fun m mem => ?_, ?_⟩
  · rw [course_done step, List.mem_singleton] at mem
    rw [mem]
    exact now
  · rw [settle_done step]
    exact last

/-- What every phase keeps holds throughout. -/
theorem throughout_of_kept {I : Phase H → F → Prop} (now : ∀ phase d, I phase d → K d)
    (step : ∀ phase d, I phase d → K (s.advance bs phase d).2 ∧
      ∀ next, (s.advance bs phase d).1 = .next next → I next (s.advance bs phase d).2)
    (start : I phase d) : s.Throughout K bs phase d := by
  induction phase, d using @walk_induction F H _ s bs with
  | h phase d ih =>
    obtain ⟨last, goes⟩ := step phase d start
    rcases e : s.advance bs phase d with ⟨next | outcome, d'⟩ <;> rw [e] at last goes
    · exact throughout_next e (now phase d start) (ih next d' e (goes next rfl))
    · exact throughout_done e (now phase d start) last

theorem moments_kept (again : ∀ bs d, K d → s.Throughout K bs (.makeParent (H := H)) d) (bss : List Bytes)
    (start : K d) :
    ∀ d' ∈ s.moments bss d, K d' := by
  induction bss generalizing d with
  | nil =>
    intro d' mem
    rw [List.mem_singleton.mp mem]
    exact start
  | cons bs bss ih =>
    intro d' mem
    obtain ⟨along, last⟩ := again bs d start
    rcases List.mem_append.mp mem with mem | mem
    · obtain ⟨m, among, rfl⟩ := List.mem_map.mp mem
      exact along m among
    · exact ih last d' mem

/-- The first write makes the directories first of all. -/
theorem moments_from_made {bss : List Bytes} (again : ∀ bs d, K d → s.Throughout K bs (.makeParent (H := H)) d)
    (first : (∃ e, FileSystem.createDirAll d s.parent = (.error e, d')) ∧ K d' ∨
      FileSystem.createDirAll d s.parent = (.ok (), d') ∧ s.Throughout K bs (.openScratch (H := H)) d') :
    ∀ d'' ∈ (s.moments (bs :: bss) d).tail, K d'' := by
  intro d'' mem
  rw [moments] at mem
  rcases first with ⟨⟨e, failed⟩, now⟩ | ⟨made, along, last⟩
  · have step : s.advance bs (.makeParent (H := H)) d = (.done (.error (s.parentMissing e)), d') := by
      simp only [advance, failed]
    rw [course_done step, write, settle_done step] at mem
    exact moments_kept again bss now d'' mem
  · have step : s.advance bs (.makeParent (H := H)) d = (.next .openScratch, d') := by
      simp only [advance, made]
    rw [course_next step, write, settle_next step] at mem
    rcases List.mem_append.mp mem with mem | mem
    · obtain ⟨m, among, rfl⟩ := List.mem_map.mp mem
      exact along m among
    · exact moments_kept again bss last d'' mem

end

/-! ## The own entries of a store -/

section

variable {s : Atomic} {h d : Host}

/-- Where the two files of a store have their names. -/
def own (s : Atomic) (h : Host) : List Trail :=
  [s.path, s.scratch].filterMap fun p => match h.lastStep p with
    | .ok (.name dir n _) => some (dir ++ [n])
    | _ => none

theorem mem_own {p : Path} {dir : Trail} {n : String} {slash : Bool} (among : p = s.path ∨ p = s.scratch)
    (reached : h.lastStep p = .ok (.name dir n slash)) : dir ++ [n] ∈ s.own h := by
  refine List.mem_filterMap.mpr ⟨p, by simpa using among, ?_⟩
  rw [reached]

/-- Whether the ways to the two files of a store, and to the directory of its path, do not lead through links at the names
of the two files. -/
structure Aside (s : Atomic) (h : Host) : Prop where
  path : ∃ last, (h.without (s.own h)).lastStep s.path = .ok last
  scratch : ∃ last, (h.without (s.own h)).lastStep s.scratch = .ok last
  directory : ∃ found, (h.without (s.own h)).find s.path.resolvedParent = .ok found

/-- Own entries that are not there yet are not in the way. -/
theorem aside_of_free (free : ∀ t ∈ s.own h, h.node? t = none) (accepted : checkPath s.path = .ok ())
    (scratch : s.scratch.isAbsolute = true) (reached : ∃ last, h.lastStep s.path = .ok last)
    (reached' : ∃ last, h.lastStep s.scratch = .ok last) (found : ∃ found, h.find s.path.resolvedParent = .ok found) :
    s.Aside h := by
  have within : h.Within (h.without (s.own h)) := by
    intro t n stands
    rw [Host.node?_without, if_neg fun gone => ?_]
    · exact stands.1
    · cases (free t gone.1).symm.trans stands.1
  obtain ⟨last, reached⟩ := reached
  obtain ⟨last', reached'⟩ := reached'
  obtain ⟨⟨t, n⟩, found⟩ := found
  exact ⟨⟨last, (Host.lastStep_within (Host.absolute_of_accepted accepted) within reached).1⟩,
    ⟨last', (Host.lastStep_within scratch within reached').1⟩,
    ⟨_, (Host.find_within s.path.absolute_resolvedParent within found).1⟩⟩

/-- Whether there is still what was there but for the own entries. -/
def Kept (s : Atomic) (h d : Host) : Prop := (h.without (s.own h)).Within d

theorem kept_refl (s : Atomic) (h : Host) : s.Kept h h := h.without_within _

theorem kept_grows {d' : Host} (kept : s.Kept h d) (grows : d.Grows d') : s.Kept h d' := kept.trans grows.within

variable (accepted : checkPath s.path = .ok ()) (scratch : s.scratch.isAbsolute = true) (aside : s.Aside h)

include accepted aside in
theorem key_of_kept (kept : s.Kept h d) : d.canonicalKey s.path = h.canonicalKey s.path := by
  obtain ⟨⟨t, n⟩, found⟩ := aside.directory
  have absolute := s.path.absolute_resolvedParent
  exact Host.canonicalKey_of_found accepted (Host.find_within absolute (h.without_within _) found).1
    (Host.find_within absolute kept found).1

/-- A name that a walk comes to in a later host is one of the own ones. -/
theorem own_of_kept {p : Path} (among : p = s.path ∨ p = s.scratch) (absolute : p.isAbsolute = true)
    (reaches : ∃ last, (h.without (s.own h)).lastStep p = .ok last) (kept : s.Kept h d) {dir : Trail} {n : String}
    {slash : Bool} (reached : d.lastStep p = .ok (.name dir n slash)) : dir ++ [n] ∈ s.own h := by
  obtain ⟨last, first⟩ := reaches
  cases (Host.lastStep_within absolute kept first).1.symm.trans reached
  exact mem_own among (Host.lastStep_within absolute (h.without_within _) first).1

/-- What is no directory any more is not in the way of anything that was kept. -/
theorem clear_of_own {t o : Trail} {n : Node} (kept : s.Kept h d) (stands : (h.without (s.own h)).Stands t n)
    (mem : o ∈ s.own h) (other : d.node? o ≠ some .dir) : ¬ o <+: t :=
  fun below => other (kept o .dir (Host.dir_of_without stands mem below))

include scratch aside in
theorem kept_removeFile (kept : s.Kept h d) : s.Kept h (d.removeFile s.scratch).2 := by
  rcases d.removeFile_cases s.scratch with same | ⟨dir, n, slash, reached, other, removed⟩
  · rw [same]
    exact kept
  · rw [removed]
    intro t m stands
    have mem := own_of_kept (Or.inr rfl) scratch aside.scratch kept reached
    have clear := clear_of_own kept stands mem other
    rw [Host.node?_dropNode, if_neg fun same : t = dir ++ [n] => clear (same ▸ List.prefix_refl t)]
    exact kept t m stands

include accepted scratch aside in
theorem kept_rename (kept : s.Kept h d)
    (file : ∀ dir n slash, d.lastStep s.scratch = .ok (.name dir n slash) → d.node? (dir ++ [n]) ≠ some .dir) :
    s.Kept h (d.rename s.scratch s.path).2 := by
  rcases d.rename_cases s.scratch s.path with
    same | ⟨dir, n, slash, dir', n', slash', m, reached, reached', there, -, -, onto, moved⟩
  · rw [same]
    exact kept
  · rw [moved]
    intro t k stands
    have source := file dir n slash reached
    have target := onto fun same => source (by rw [there, same])
    have mem := own_of_kept (Or.inr rfl) scratch aside.scratch kept reached
    have mem' := own_of_kept (Or.inl rfl) (Host.absolute_of_accepted accepted) aside.path kept reached'
    have named : dir ++ [n] ≠ [] := by simp
    rw [Host.node?_moveTree d named (clear_of_own kept stands mem' target),
      if_neg (clear_of_own kept stands mem source)]
    exact kept t k stands

/-! ## Writing leaves the ways as they are -/

def OnFile (s : Atomic) (h d : Host) : Prop := ∀ dir n slash,
  (h.without (s.own h)).lastStep s.scratch = .ok (.name dir n slash) → d.node? (dir ++ [n]) ≠ some .dir

def Going (s : Atomic) (h : Host) : Phase Nat → Host → Prop
  | .fillScratch _, d | .syncScratch _, d | .publish, d => s.Kept h d ∧ s.OnFile h d
  | _, d => s.Kept h d

theorem Going.kept {phase : Phase Nat} (going : s.Going h phase d) : s.Kept h d := by
  cases phase with
  | fillScratch | syncScratch | publish => exact going.1
  | makeParent | openScratch | syncParent | discard | removeScratch => exact going

theorem onFile_of_nodes {d' : Host} (onFile : s.OnFile h d) (same : d'.nodes = d.nodes) : s.OnFile h d' := by
  intro dir n slash reached
  rw [Host.node?_of_nodes same]
  exact onFile dir n slash reached

theorem kept_of_nodes {d' : Host} (kept : s.Kept h d) (same : d'.nodes = d.nodes) : s.Kept h d' :=
  kept_grows kept (Host.grows_of_nodes same)

theorem writeAll_nodes (d : Host) (handle : Nat) (bs : Bytes) :
    (FileSystem.writeAll d handle bs).2.nodes = d.nodes := by
  unfold FileSystem.writeAll
  split
  · rfl
  · exact d.write_nodes handle bs

theorem absolute_parent (accepted : checkPath s.path = .ok ()) : s.parent.isAbsolute = true := by
  obtain ⟨up, -, -, -, parent, -⟩ := Path.accepted_cases accepted
  rw [Atomic.parent, parent, Option.getD_some]
  exact Host.absolute_up (Host.absolute_of_accepted accepted) parent

/-- The last phase looks at the directory, and that is the end. -/
theorem advance_syncParent (s : Atomic) (bs : Bytes) (d : Host) :
    (s.advance bs (.syncParent : Phase Nat) d).2 = d ∧
      ∀ next, (s.advance bs (.syncParent : Phase Nat) d).1 ≠ .next next := by
  simp only [advance]
  split
  · split <;> rename_i e <;> exact ⟨(congrArg Prod.snd e).symm, fun next same => by cases same⟩
  · exact ⟨rfl, fun next same => by cases same⟩

theorem sweep_host (s : Atomic) (cause : Error) (d : Host) : s.sweep cause d =
    if d.entryExists s.scratch then (.next (.removeScratch cause), d) else (.done (.error cause), d) := by
  have looked : FileSystem.entryExists d s.scratch = (d.entryExists s.scratch, d) := rfl
  rw [sweep, looked]
  cases d.entryExists s.scratch <;> rfl

theorem going_sweep (kept : s.Kept h d) (cause : Error) : s.Kept h (s.sweep cause d).2 ∧
    ∀ next, (s.sweep cause d).1 = .next next → s.Going h next (s.sweep cause d).2 := by
  rw [sweep_host]
  split
  · exact ⟨kept, fun next step => by cases step; exact kept⟩
  · exact ⟨kept, fun next stop => by cases stop⟩

include accepted scratch aside in
theorem going_advance (bs : Bytes) {phase : Phase Nat} (going : s.Going h phase d) :
    s.Kept h (s.advance bs phase d).2 ∧
      ∀ next, (s.advance bs phase d).1 = .next next → s.Going h next (s.advance bs phase d).2 := by
  have kept := going.kept
  cases phase with
  | makeParent =>
    have made := kept_grows kept (d.grows_createDirAll (absolute_parent accepted))
    simp only [advance]
    rcases e : FileSystem.createDirAll d s.parent with ⟨e | _, d'⟩ <;>
      rw [show d.createDirAll s.parent = _ from e] at made
    · exact ⟨made, fun next stop => by cases stop⟩
    · exact ⟨made, fun next same => by cases same; exact made⟩
  | openScratch =>
    have opened := kept_grows kept (d.grows_create scratch)
    simp only [advance]
    rcases e : FileSystem.create d s.scratch with ⟨e | handle, d'⟩ <;> rw [show d.create s.scratch = _ from e] at opened
    · exact ⟨opened, fun next same => by cases same; exact opened⟩
    · -- From here on the scratch name is not that of a directory, as the rename will need.
      refine ⟨opened, fun next same => ?_⟩
      cases same
      refine ⟨opened, fun dir n slash reached => ?_⟩
      obtain ⟨dir', n', slash', reached', other⟩ := Host.opened_of_create scratch e
      cases (Host.lastStep_within scratch opened reached).1.symm.trans reached'
      exact other
  | fillScratch handle =>
    have same := writeAll_nodes d handle bs
    simp only [advance]
    rcases e : FileSystem.writeAll d handle bs with ⟨e | _, d'⟩ <;> rw [e] at same
    · exact ⟨kept_of_nodes kept same, fun next step => by cases step; exact kept_of_nodes kept same⟩
    · exact ⟨kept_of_nodes kept same, fun next step => by
        cases step; exact ⟨kept_of_nodes kept same, onFile_of_nodes going.2 same⟩⟩
  | syncScratch handle =>
    have same : ((d.flushed handle).close handle).nodes = d.nodes :=
      (Host.close_nodes _ _).trans (d.flushed_nodes handle)
    have step : s.advance bs (.syncScratch handle) d = (.next .publish, (d.flushed handle).close handle) := rfl
    rw [step]
    exact ⟨kept_of_nodes kept same, fun next step => by
      cases step; exact ⟨kept_of_nodes kept same, onFile_of_nodes going.2 same⟩⟩
  | publish =>
    have moved : s.Kept h (d.rename s.scratch s.path).2 :=
      kept_rename accepted scratch aside kept fun dir n slash reached => by
        obtain ⟨last, first⟩ := aside.scratch
        cases (Host.lastStep_within scratch kept first).1.symm.trans reached
        exact going.2 dir n slash first
    simp only [advance]
    rcases e : FileSystem.rename d s.scratch s.path with ⟨e | _, d'⟩ <;>
      rw [show d.rename s.scratch s.path = _ from e] at moved
    · exact ⟨moved, fun next same => by cases same; exact moved⟩
    · exact ⟨moved, fun next same => by cases same; exact moved⟩
  | syncParent =>
    obtain ⟨same, stop⟩ := s.advance_syncParent bs d
    rw [same]
    exact ⟨kept, fun next step => absurd step (stop next)⟩
  | discard handle cause =>
    cases handle with
    | none => exact going_sweep kept cause
    | some handle => exact going_sweep (kept_of_nodes kept (d.close_nodes handle)) cause
  | removeScratch cause => exact ⟨kept_removeFile scratch aside kept, fun next stop => by cases stop⟩

include accepted scratch aside in
/-- Once the directories are there, what writes keep is kept throughout. -/
theorem throughout_kept {bs : Bytes} {phase : Phase Nat} (going : s.Going h phase d) :
    s.Throughout (s.Kept h) bs phase d :=
  throughout_of_kept (fun _ _ => Going.kept) (fun _ _ => going_advance accepted scratch aside bs) going

/-! ## The key settles -/

def made (s : Atomic) (h : Host) : Host := (h.createDirAll s.parent).2

/-- Whether the own entries stay out of the way, if a write gets as far as the scratch file. -/
def Undisturbed (s : Atomic) (h : Host) : Prop :=
  (h.createDirAll s.parent).1 = .ok () → (∃ last, (s.made h).lastStep s.scratch = .ok last) → s.Aside (s.made h)

include accepted scratch in
/-- From the moment the directories are made, the key stays what it is then. -/
theorem key_settled (undisturbed : s.Undisturbed h) (bs : Bytes) (bss : List Bytes) :
    ∀ d ∈ (s.moments (bs :: bss) h).tail, d.canonicalKey s.path = (s.made h).canonicalKey s.path := by
  have absolute := absolute_parent accepted
  rcases first : h.createDirAll s.parent with ⟨e | ⟨⟩, h'⟩ <;> have same : s.made h = h' := congrArg Prod.snd first
  · -- the directories cannot be made, now or later
    obtain ⟨e', again⟩ := Host.createDirAll_again absolute first
    have stays (bs : Bytes) (d : Host) (now : d = h') : s.Throughout (· = h') bs .makeParent d := by
      subst now
      have step : s.advance bs .makeParent d = (.done (.error (s.parentMissing e')), d) := by
        simp only [advance, show FileSystem.createDirAll d s.parent = _ from again]
      exact throughout_done step rfl rfl
    intro d mem
    rw [moments_from_made stays (Or.inl ⟨⟨e, first⟩, rfl⟩) d mem, same]
  · -- the directory is there for good; what is left is whether the scratch file can be made in it
    have there := Host.isDir_of_createDirAll first
    have again := Host.createDirAll_of_isDir absolute there
    by_cases reached : ∃ last, h'.lastStep s.scratch = .ok last
    · have aside : s.Aside h' := same ▸ undisturbed (congrArg Prod.fst first) (same ▸ reached)
      intro d mem
      rw [same]
      refine key_of_kept accepted aside ?_
      exact moments_from_made (fun bs d kept => throughout_kept accepted scratch aside kept)
        (Or.inr ⟨first, throughout_kept accepted scratch aside (kept_refl s h')⟩) d mem
    · -- the scratch file cannot be made, now or later
      obtain ⟨⟨e, refused⟩, missing⟩ := Host.unreached scratch fun last reaches => reached ⟨last, reaches⟩
      have opens (bs : Bytes) : s.Throughout (· = h') bs .openScratch h' := by
        have step : s.advance bs .openScratch h' = (.next (.discard none (s.scratchNotCreated e)), h') := by
          simp only [advance, show FileSystem.create h' s.scratch = _ from refused]
        have step' : s.advance bs (.discard none (s.scratchNotCreated e)) h' =
            (.done (.error (s.scratchNotCreated e)), h') := by
          rw [advance_discard_none, sweep_host, missing, if_neg Bool.false_ne_true]
        exact throughout_next step rfl (throughout_done step' rfl rfl)
      have stays (bs : Bytes) (d : Host) (now : d = h') : s.Throughout (· = h') bs .makeParent d := by
        subst now
        have step : s.advance bs .makeParent d = (.next .openScratch, d) := by
          simp only [advance, show FileSystem.createDirAll d s.parent = _ from again]
        exact throughout_next step rfl (opens bs)
      intro d mem
      rw [moments_from_made stays (Or.inr ⟨first, opens bs⟩) d mem, same]

/-- Whether the directory of a path is there, or is not, or is made where its text says. -/
def Anchored (s : Atomic) (h : Host) : Prop :=
  (∃ found, h.find s.path.resolvedParent = .ok found) ∨
    ∀ t n, (s.made h).find s.path.resolvedParent = .ok (t, n) → t = s.path.place.names.dropLast

include accepted in
theorem grows_made (h : Host) : h.Grows (s.made h) := h.grows_createDirAll (absolute_parent accepted)

include accepted in
/-- Where there is no link on the way, a directory is made where its text says. -/
theorem anchored_of_plain (plain : h.Plain s.path.place.names.dropLast) : s.Anchored h := by
  obtain ⟨n, -, proper, -⟩ := Host.canonicalKey_eq accepted
  exact Or.inr fun t m found => Host.find_plain (fun m mem => proper m (List.mem_append_left _ mem))
    ((grows_made accepted h).plain plain) found

include accepted in
theorem key_of_anchored (anchored : s.Anchored h) : (s.made h).canonicalKey s.path = h.canonicalKey s.path := by
  have stays {t : Trail} {n : Node} (found : h.find s.path.resolvedParent = .ok (t, n)) :=
    (Host.find_within s.path.absolute_resolvedParent (grows_made accepted h).within found).1
  rcases anchored with ⟨⟨t, n⟩, found⟩ | named
  · exact Host.canonicalKey_of_found accepted found (stays found)
  · obtain ⟨name, real, proper, key⟩ := Host.canonicalKey_eq accepted
    rcases found : h.find s.path.resolvedParent with e | ⟨t, n⟩
    · rw [key, key, found]
      rcases found' : (s.made h).find s.path.resolvedParent with e' | ⟨t, n⟩
      · rfl
      · simp only [named t n found', Host.rendered, Place.join_path proper, ← real]
    · exact Host.canonicalKey_of_found accepted found (stays found)

include accepted in
theorem not_same_of_not_anchored (adrift : ¬ s.Anchored h) :
    ¬ ((s.made h).canonicalKey s.path).Same (h.canonicalKey s.path) := by
  obtain ⟨missing, made⟩ := not_or.mp adrift
  simp only [Classical.not_forall] at made
  obtain ⟨t, n, found, elsewhere⟩ := made
  rcases missing' : h.find s.path.resolvedParent with e | found'
  · exact Host.not_same_of_elsewhere accepted missing' found elsewhere
  · exact absurd ⟨found', missing'⟩ missing

end

end Atomic

/-! ## Opening again -/

section

variable {r r' : Registry} {p : Path} {o : Options} {e : Exclusive}

/-- An accepted path is opened unless its key is taken. -/
theorem openExclusive_accepted (accepted : checkPath p = .ok ()) (d : Host) (r : Registry) (o : Options) :
    openExclusive d r p o = if r.isActive (d.canonicalKey p) then (.error (.pathInUse (d.canonicalKey p)), r)
      else (.ok ⟨⟨p, p.withSuffix o.scratchSuffix, o.syncDirectory⟩, ⟨d.canonicalKey p⟩⟩,
        ⟨(d.canonicalKey p).components :: r.active⟩) := by
  have key : FileSystem.canonicalKey d p = d.canonicalKey p := rfl
  simp only [openExclusive, Atomic.new, accepted, Registry.acquire, key]
  cases r.isActive (d.canonicalKey p) <;> rfl

theorem of_openExclusive {h : Host} (opened : openExclusive h r p o = (.ok e, r')) :
    checkPath p = .ok () ∧ e.store.path = p ∧ e.store.scratch = p.withSuffix o.scratchSuffix ∧
      e.guard.path = h.canonicalKey p ∧ r' = ⟨(h.canonicalKey p).components :: r.active⟩ := by
  cases accepted : checkPath p with
  | error cause =>
    simp only [openExclusive, Atomic.new, accepted] at opened
    cases opened
  | ok _ =>
    rw [openExclusive_accepted accepted] at opened
    split at opened
    · cases opened
    · cases opened
      exact ⟨rfl, rfl, rfl, rfl, rfl⟩

theorem absolute_scratch (accepted : checkPath p = .ok ()) (suffix : String) :
    (p.withSuffix suffix).isAbsolute = true := by
  obtain ⟨cs, text⟩ := Host.text_of_absolute (Host.absolute_of_accepted accepted)
  simp [Path.isAbsolute, Path.withSuffix, text]

section

variable {h : Host} (opened : openExclusive h r p o = (.ok e, r')) (undisturbed : e.store.Undisturbed h)

include opened undisturbed

/-- After the first write has begun the key is that of the made directory. -/
theorem key_after (bs : Bytes) (bss : List Bytes) : ∀ d ∈ (e.store.moments (bs :: bss) h).tail,
    d.canonicalKey p = (e.store.made h).canonicalKey p := by
  obtain ⟨accepted, path, scratch, -⟩ := of_openExclusive opened
  subst path
  exact Atomic.key_settled accepted (scratch ▸ absolute_scratch accepted _) undisturbed bs bss

theorem refused_of_anchored (anchored : e.store.Anchored h) (bss : List Bytes) : ∀ d ∈ e.store.moments bss h, ∀ r'' o',
    r''.isActive e.guard.path = true → openExclusive d r'' p o' = (.error (.pathInUse e.guard.path), r'') := by
  intro d mem r'' o' live
  obtain ⟨accepted, path, -, key, -⟩ := of_openExclusive opened
  have own : d.canonicalKey p = e.guard.path := by
    rcases bss with _ | ⟨bs, bss⟩
    · rw [List.mem_singleton.mp mem, key]
    · obtain ⟨rest, whole⟩ : ∃ rest, e.store.moments (bs :: bss) h = h :: rest := by
        rw [Atomic.moments, Atomic.course]
        exact ⟨_, rfl⟩
      have later := key_after opened undisturbed bs bss
      rw [whole] at mem later
      rcases List.mem_cons.mp mem with rfl | mem
      · exact key.symm
      · rw [later d mem, key]
        subst path
        exact Atomic.key_of_anchored accepted anchored
  rw [openExclusive_accepted accepted, own, if_pos live]

theorem given_away_of_adrift (adrift : ¬ e.store.Anchored h)
    (free : r.isActive ((e.store.made h).canonicalKey p) = false) (bs : Bytes) (bss : List Bytes) :
    ∀ d ∈ (e.store.moments (bs :: bss) h).tail, ∀ o',
      ∃ e' r'', openExclusive d r' p o' = (.ok e', r'') ∧ e'.store.path = e.store.path := by
  intro d mem o'
  obtain ⟨accepted, path, -, -, registry⟩ := of_openExclusive opened
  have free' : r'.isActive (d.canonicalKey p) = false := by
    rw [key_after opened undisturbed bs bss d mem, registry]
    subst path
    have ne : ((e.store.made h).canonicalKey e.store.path).components ≠ (h.canonicalKey e.store.path).components :=
      Atomic.not_same_of_not_anchored accepted adrift
    simpa [Registry.isActive, ne] using free
  rw [openExclusive_accepted accepted, free', if_neg Bool.false_ne_true]
  exact ⟨_, _, rfl, path.symm⟩

/-- **Who owns a path on a host.** A store was opened on a path, and the ways to its files do not lead through links at
their own names. If the directory of the path was there, through whatever links, or is made where the text of the path
says, as it is where no link is on the way, then every further attempt to open the path is refused, at every moment of
all writes of the store, as long as its guard is held. If the directory is made elsewhere, behind a link, then from that
moment on the path has another key and is open to a second owner, with the guard of the first one held, unless somebody
else holds the new key. -/
theorem owned_path_is_refused :
    (e.store.Anchored h → ∀ bss, ∀ d ∈ e.store.moments bss h, ∀ r'' o', r''.isActive e.guard.path = true →
      openExclusive d r'' p o' = (.error (.pathInUse e.guard.path), r'')) ∧
    (h.Plain p.place.names.dropLast → e.store.Anchored h) ∧
    (¬ e.store.Anchored h → r.isActive ((e.store.made h).canonicalKey p) = false →
      ∀ bs bss, ∀ d ∈ (e.store.moments (bs :: bss) h).tail, ∀ o',
        ∃ e' r'', openExclusive d r' p o' = (.ok e', r'') ∧ e'.store.path = e.store.path) := by
  refine ⟨refused_of_anchored opened undisturbed, ?_, given_away_of_adrift opened undisturbed⟩
  obtain ⟨accepted, path, -⟩ := of_openExclusive opened
  subst path
  exact Atomic.anchored_of_plain accepted

end

/-! ## A directory behind a link -/

def linked : Host := { nodes := [(["real"], .dir), (["link"], .link "/real")] }

def furnished : Host := linked.setNode (["real"] ++ ["sub"]) .dir

def behindLink : Atomic := ⟨⟨"/link/sub/v"⟩, ⟨"/link/sub/v.tmp"⟩, true⟩

/-- The link leads into the directory, whatever else is there. -/
theorem walk_linked {h : Host} (dir : h.node? ["real"] = some .dir) (link : h.node? ["link"] = some (.link "/real"))
    {slash : Bool} {n : String} {rest : List String} {last : LastStep} {left : Nat}
    (walk : h.Walk slash 39 ["real"] (n :: rest) last left) :
    h.Walk slash Host.linkLimit [] ("link" :: n :: rest) last left := by
  have steps : Host.stepsOf "/real" = ["real"] := by decide
  have start : Host.startOf [] "/real" = [] := ite_self _
  refine .link ⟨by decide, by decide⟩ (List.cons_ne_nil _ _) (by decide) link ?_
  rw [steps, start]
  exact .down ⟨by decide, by decide⟩ (List.cons_ne_nil _ _) (by decide) dir walk

theorem parent_behindLink : behindLink.parent = ⟨"/link/sub"⟩ ∧ behindLink.path.resolvedParent = ⟨"/link/sub"⟩ ∧
    Host.stepsOf "/link/sub" = ["link", "sub"] := by decide

theorem find_linked : linked.find ⟨"/link/sub"⟩ = .error .noEntry := by
  have free : linked.locate false ⟨"/link/sub"⟩ = .ok (.vacant (["real"] ++ ["sub"])) := by
    refine (Host.locate_iff (by decide)).mpr ⟨rfl, ?_⟩
    rw [parent_behindLink.2.2]
    exact .vacant (walk_linked rfl rfl (.stop (n := "sub") ⟨by decide, by decide⟩)) rfl (by decide) rfl
  rw [Host.find, free]

theorem find_furnished : furnished.find ⟨"/link/sub"⟩ = .ok (["real"] ++ ["sub"], .dir) := by
  refine (Host.find_iff (by decide)).mpr ⟨rfl, ?_⟩
  rw [parent_behindLink.2.2]
  exact .entry (walk_linked rfl rfl (.stop (n := "sub") ⟨by decide, by decide⟩)) rfl (by decide) rfl nofun
    fun _ => rfl

theorem lastStep_furnished {p : Path} {n : String} (checked : Host.checkText p = .ok ())
    (spelled : p.isAbsolute = true ∧ Host.stepsOf p.text = ["link", "sub", n]) (name : Host.IsName n) :
    furnished.lastStep p = .ok (.name (["real"] ++ ["sub"]) n (Host.endsInSlash p.text)) := by
  refine (Host.lastStep_iff spelled.1).mpr ⟨checked, 39, ?_⟩
  rw [spelled.2]
  exact walk_linked rfl rfl (.down ⟨by decide, by decide⟩ (List.cons_ne_nil _ _) (by decide) rfl (.stop name))

theorem aside_furnished : behindLink.Aside furnished := by
  have path := lastStep_furnished (p := behindLink.path) (n := "v") rfl (by decide) ⟨by decide, by decide⟩
  have scratch := lastStep_furnished (p := behindLink.scratch) (n := "v.tmp") rfl (by decide)
    ⟨by decide, by decide⟩
  have own : behindLink.own furnished = [["real", "sub", "v"], ["real", "sub", "v.tmp"]] := by
    simp only [Atomic.own, List.filterMap_cons, List.filterMap_nil, path, scratch]
    rfl
  refine Atomic.aside_of_free ?_ rfl (by decide) ⟨_, path⟩ ⟨_, scratch⟩
    ⟨_, parent_behindLink.2.1 ▸ find_furnished⟩
  rw [own]
  decide

/-- The key of the path, if its directory is found or not. -/
theorem canonicalKey_behindLink (h : Host) : h.canonicalKey ⟨"/link/sub/v"⟩ = match h.canonical ⟨"/link/sub"⟩ with
    | .ok up => up.join ⟨"v"⟩
    | .error _ => ⟨"/link/sub/v"⟩ := by
  have spelled : (Path.mk "/link/sub/v").place.path = ⟨"/link/sub/v"⟩ ∧
      (Path.mk "/link/sub/v").parent? = some ⟨"/link/sub"⟩ ∧ (Path.mk "/link/sub/v").fileName? = some "v" := by
    decide
  cases found : h.canonical ⟨"/link/sub"⟩ <;> simp only [Host.canonicalKey, spelled, found]

theorem a_directory_behind_a_link_keeps_its_owner :
    ∃ e r', openExclusive furnished {} ⟨"/link/sub/v"⟩ {} = (.ok e, r') ∧
      openExclusive (e.store.write [1] furnished).2 r' ⟨"/link/sub/v"⟩ {} =
        (.error (.pathInUse ⟨"/real/sub/v"⟩), r') := by
  have key : furnished.canonicalKey ⟨"/link/sub/v"⟩ = ⟨"/real/sub/v"⟩ := by
    rw [canonicalKey_behindLink, Host.canonical, find_furnished]
    decide
  have opened : openExclusive furnished {} ⟨"/link/sub/v"⟩ {} =
      (.ok ⟨behindLink, ⟨⟨"/real/sub/v"⟩⟩⟩, ⟨[(Path.mk "/real/sub/v").components]⟩) := by
    rw [openExclusive_accepted rfl, key]
    rfl
  have undisturbed : behindLink.Undisturbed furnished := by
    intro _ _
    have there := Host.isDir_iff.mpr ⟨_, find_furnished⟩
    rw [Atomic.made, parent_behindLink.1, Host.createDirAll_of_isDir (by decide) there]
    exact aside_furnished
  have anchored : behindLink.Anchored furnished := Or.inl ⟨_, by rw [parent_behindLink.2.1]; exact find_furnished⟩
  exact ⟨_, _, opened, (owned_path_is_refused opened undisturbed).1 anchored [[1]] _ (by simp [Atomic.moments]) _ _
    (by decide)⟩

/-- If the first write makes the directory behind the link, the path is free again. -/
theorem a_directory_made_behind_a_link_gets_a_second_owner :
    ∃ e r' e' r'', openExclusive linked {} ⟨"/link/sub/v"⟩ {} = (.ok e, r') ∧
      openExclusive (e.store.write [1] linked).2 r' ⟨"/link/sub/v"⟩ {} = (.ok e', r'') ∧
      e'.store.path = e.store.path := by
  have made : behindLink.made linked = furnished := by
    have last : linked.lastStep ⟨"/link/sub"⟩ = .ok (.name ["real"] "sub" (Host.endsInSlash "/link/sub")) := by
      refine (Host.lastStep_iff (by decide)).mpr ⟨rfl, 39, ?_⟩
      rw [parent_behindLink.2.2]
      exact walk_linked rfl rfl (.stop (n := "sub") ⟨by decide, by decide⟩)
    have free : linked.look ["real"] "sub" = .ok none := Host.look_eq_ok.mpr ⟨by decide, rfl⟩
    have first : linked.makeDir ⟨"/link/sub"⟩ = (.ok (), furnished) := by
      simp only [Host.makeDir, last, free, furnished]
    have named : (Path.mk "/link/sub").components.isEmpty = false := by decide
    simp only [Atomic.made, parent_behindLink, Host.createDirAll, Host.makeDirs, named, first, Bool.false_eq_true,
      if_false]
    split <;> rfl
  have key : linked.canonicalKey ⟨"/link/sub/v"⟩ = ⟨"/link/sub/v"⟩ := by
    rw [canonicalKey_behindLink, Host.canonical, find_linked]
    rfl
  have opened : openExclusive linked {} ⟨"/link/sub/v"⟩ {} =
      (.ok ⟨behindLink, ⟨⟨"/link/sub/v"⟩⟩⟩, ⟨[(Path.mk "/link/sub/v").components]⟩) := by
    rw [openExclusive_accepted rfl, key]
    rfl
  have undisturbed : behindLink.Undisturbed linked := fun _ _ => made ▸ aside_furnished
  have adrift : ¬ behindLink.Anchored linked := by
    rintro (⟨found, there⟩ | named)
    · rw [parent_behindLink.2.1, find_linked] at there
      cases there
    · have elsewhere := named _ _ (by rw [made, parent_behindLink.2.1]; exact find_furnished)
      revert elsewhere
      decide
  have moment : (behindLink.write [1] linked).2 ∈ (behindLink.moments [[1]] linked).tail := by
    rw [Atomic.moments, Atomic.course]
    simp [Atomic.moments]
  obtain ⟨e', r'', again, same⟩ := given_away_of_adrift opened undisturbed adrift rfl [1] [] _ moment {}
  exact ⟨_, _, e', r'', opened, again, same⟩

end

end DurableValue.Store
