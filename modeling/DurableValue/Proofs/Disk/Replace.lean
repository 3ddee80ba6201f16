/-
  DurableValue.Proofs.Disk.Replace — a file that is made under a free name and renamed onto another.

  A file opened under a free name is a new one, and empty. What is written to it comes to the file in the order of
  writing, however it is buffered on the way. A path that is a name in the root comes to that name on every host
  (`InRoot`).

  Proved:
  - `bytesOf_close`: all that was written is there when the handle is given up.
  - `rename_file`: a rename that succeeds takes the file to the other name.
  - `Moved.walk`, `Moved.read`: after that, a walk that came to its last step before comes to the same one, unless it
    went through the entry that was replaced; then it finds a file in its way.
  - `Walk.back`: a walk that passes nothing at or below the replaced entry went the same way before.
-/
import DurableValue.Proofs.Disk.Host

namespace DurableValue.Disk.Host

variable {h h' : Host} {source target here t : Trail} {i handle : Nat} {bs more : Bytes} {p : Path}

/-! ## Through the buffer -/

/-- Whether an open file is at the end of what was written to it: `bs`, the part in the buffer included. -/
def Holds (h : Host) (handle i : Nat) (bs : Bytes) : Prop :=
  ∃ pending, h.opened.lookup handle = some ⟨i, (h.bytesOf i).length, pending⟩ ∧ bs = h.bytesOf i ++ pending

theorem bytesOf_setBytes (h : Host) (i : Nat) (bs : Bytes) : (h.setBytes i bs).bytesOf i = bs := by
  simp [bytesOf, setBytes]

theorem overlay_at_end (old bs : Bytes) : overlay old old.length bs = old ++ bs := by
  simp [overlay]

theorem holds_openAt (empty : h.bytesOf i = []) : (h.openAt i).2.Holds (h.openAt i).1 i [] := by
  have same : (h.openAt i).2.bytesOf i = [] := empty
  exact ⟨[], by rw [same]; exact List.lookup_cons_self, by rw [same]; rfl⟩

theorem holds_setPending (holds : h.Holds handle i bs) (whole : bs = h.bytesOf i) (more : Bytes) :
    (h.setPending handle more).Holds handle i (bs ++ more) := by
  obtain ⟨pending, opened, -⟩ := holds
  refine ⟨more, ?_, ?_⟩ <;> simp only [setPending, opened]
  · exact List.lookup_cons_self
  · rw [whole]
    rfl

/-- A flush puts all of it into the file. -/
theorem holds_flushed (holds : h.Holds handle i bs) :
    (h.flushed handle).Holds handle i bs ∧ (h.flushed handle).bytesOf i = bs := by
  obtain ⟨pending, opened, rfl⟩ := holds
  unfold flushed
  simp only [opened]
  split
  · rename_i none
    rw [List.isEmpty_iff.mp none, List.append_nil]
    exact ⟨⟨[], by rw [opened, List.isEmpty_iff.mp none], (List.append_nil _).symm⟩, rfl⟩
  · have whole : (h.setBytes i (overlay (h.bytesOf i) (h.bytesOf i).length pending)).bytesOf i =
        h.bytesOf i ++ pending := by rw [bytesOf_setBytes, overlay_at_end]
    refine ⟨⟨[], List.lookup_cons_self.trans ?_, ?_⟩, whole⟩
    · change some _ = some (OpenFile.mk i (bytesOf (setBytes h i _) i).length [])
      rw [whole, List.length_append]
    · exact ((List.append_nil _).trans whole).symm

/-- What does not fit the buffer makes it be handed over first; nothing is lost on the way. -/
theorem holds_write (holds : h.Holds handle i bs) (more : Bytes) :
    (h.write handle more).Holds handle i (bs ++ more) := by
  obtain ⟨flushed, whole⟩ := holds_flushed holds
  obtain ⟨pending, opened, same⟩ := holds
  have queued (more : Bytes) : (h.setPending handle (pending ++ more)).Holds handle i (bs ++ more) := by
    refine ⟨pending ++ more, ?_, ?_⟩ <;> simp only [setPending, opened]
    · exact List.lookup_cons_self
    · rw [same, List.append_assoc]
      rfl
  have fresh := holds_setPending flushed whole.symm more
  unfold write
  simp only [opened]
  split
  · exact queued more
  split
  · -- a full buffer is handed over, and as much as that stays out of it
    rename_i big
    split
    · have none : pending = [] := List.length_eq_zero_iff.mp (by omega)
      have all := queued more
      rw [none, List.nil_append] at all
      exact (holds_flushed all).1
    · exact (holds_flushed fresh).1
  · split
    · exact queued more
    · exact fresh

/-- A file that is given up holds all that was written to it. -/
theorem bytesOf_close (holds : h.Holds handle i bs) : (h.close handle).bytesOf i = bs := (holds_flushed holds).2

theorem holds_writeAll (holds : h.Holds handle i []) (bs : Bytes) :
    (FileSystem.writeAll h handle bs).2.Holds handle i bs := by
  unfold FileSystem.writeAll
  split
  · rename_i none
    rwa [List.isEmpty_iff.mp none]
  · exact holds_write holds bs

/-! ## Under a free name -/

def Free (h : Host) (p : Path) : Prop :=
  ∀ dir n slash, h.lastStep p = .ok (.name dir n slash) → h.node? (dir ++ [n]) = none

/-- A file that is opened under a free name is a new one, and empty. -/
theorem create_free (absolute : p.isAbsolute = true) (free : h.Free p) (created : h.create p = (.ok handle, h')) :
    ∃ dir n slash i, h.lastStep p = .ok (.name dir n slash) ∧
      (∀ t, h'.node? t = if t = dir ++ [n] then some (.file i) else h.node? t) ∧ h'.Holds handle i [] := by
  have named {dir : Trail} {n : String} {slash : Bool} {left : Nat} (checked : checkText p = .ok ())
      (walk : h.Walk (endsInSlash p.text) linkLimit [] (stepsOf p.text) (.name dir n slash) left) :
      h.lastStep p = .ok (.name dir n slash) := (lastStep_iff absolute).mpr ⟨checked, left, walk⟩
  unfold create at created
  split at created
  · cases created
  · -- an entry that is there has the name of the path, or there is a link of that name
    rename_i located
    obtain ⟨checked, arrives⟩ := (locate_iff absolute).mp located
    generalize reached : Found.entry _ (Node.file _) = found at arrives
    cases arrives with
    | directory | vacant => cases reached
    | entry walk _ _ there => cases (free _ _ _ (named checked walk)).symm.trans there
    | link walk _ _ linked => cases (free _ _ _ (named checked walk)).symm.trans linked
  · cases created
  · rename_i located
    cases created
    obtain ⟨checked, arrives⟩ := (locate_iff absolute).mp located
    generalize reached : Found.vacant _ = found at arrives
    cases arrives with
    | directory | entry => cases reached
    | link walk _ _ linked => cases (free _ _ _ (named checked walk)).symm.trans linked
    | @vacant _ _ _ dir _ _ n walk =>
      cases reached
      refine ⟨dir, n, _, h.fresh, named checked walk, fun t => ?_, holds_openAt (bytesOf_setBytes _ _ _)⟩
      exact node?_setNode { h with fresh := h.fresh + 1 } dir n (.file h.fresh) t

/-! ## Onto another name -/

theorem lookup_moved_onto {source target rest : Trail} (apart : ¬ target <+: source ++ rest) (l : List (Trail × Node)) :
    ((l.filter fun e => !target.isPrefixOf e.1).map fun e =>
      if source.isPrefixOf e.1 then (target ++ e.1.drop source.length, e.2) else e).lookup (target ++ rest) =
        l.lookup (source ++ rest) := by
  induction l with
  | nil => rfl
  | cons e l ih =>
    obtain ⟨k, n⟩ := e
    cases gone : target.isPrefixOf k with
    | true =>
      have other : source ++ rest ≠ k := fun same => apart (same ▸ List.isPrefixOf_iff_prefix.mp gone)
      rw [List.filter_cons_of_neg (by simp [gone]), ih, List.lookup_cons, beq_eq_false_iff_ne.mpr other]
    | false =>
      rw [List.filter_cons_of_pos (by simp [gone]), List.map_cons]
      by_cases same : source ++ rest = k
      · subst same
        have below : source.isPrefixOf (source ++ rest) = true :=
          List.isPrefixOf_iff_prefix.mpr (List.prefix_append source rest)
        rw [if_pos below, List.drop_left, List.lookup_cons_self, List.lookup_cons_self]
      · have other : target ++ rest ≠ (if source.isPrefixOf k then (target ++ k.drop source.length, n) else (k, n)).1 := by
          split
          · rename_i below
            obtain ⟨rest', rfl⟩ := List.isPrefixOf_iff_prefix.mp below
            intro onto
            have onto : rest = rest' := by simpa using onto
            exact same (by rw [onto])
          · intro onto
            have onto : target ++ rest = k := onto
            rw [← onto, List.isPrefixOf_iff_prefix.mpr (List.prefix_append target rest)] at gone
            cases gone
        rw [List.lookup_cons, List.lookup_cons, beq_eq_false_iff_ne.mpr other, beq_eq_false_iff_ne.mpr same]
        exact ih

/-- What was at the old name of a move, or below it, is at the new one, or below that. -/
theorem node?_moveTree_onto (h : Host) (named : source ≠ []) (named' : target ≠ []) (rest : Trail)
    (apart : ¬ target <+: source ++ rest) : (h.moveTree source target).node? (target ++ rest) = h.node? (source ++ rest) := by
  have some : (source ++ rest).isEmpty = false := by simp [named]
  have some' : (target ++ rest).isEmpty = false := by simp [named']
  unfold node? moveTree
  simp only [some, some', Bool.false_eq_true, if_false]
  exact lookup_moved_onto apart h.nodes

structure Moved (h h' : Host) (source target : Trail) (i : Nat) : Prop where
  named : target ≠ []
  file : h.node? source = some (.file i)
  onto : h.node? target ≠ some .dir
  landed : h'.node? target = some (.file i)
  kept : ∀ t, ¬ target <+: t → h'.node? t = if source <+: t then none else h.node? t

/-- A file that is put on another name has moved there, unless it has that name already. -/
theorem moved_of_moveOnto {old : Option Node} (named : target ≠ []) (apart : source ≠ target)
    (file : h.node? source = some (.file i)) (there : h.node? target = old)
    (put : h.moveOnto source (.file i) target old = (.ok (), h')) :
    h.Moved h' source target i ∧ ∀ j, h'.bytesOf j = h.bytesOf j := by
  unfold moveOnto at put
  rw [if_neg apart] at put
  split at put
  · cases put
  split at put
  · cases put
  rename_i above
  have above : ¬ target <+: source := fun below => above (List.isPrefixOf_iff_prefix.mpr below)
  have some : source ≠ [] := by
    rintro rfl
    cases file
  have moved (onto : old ≠ .some .dir) (same : h.moveTree source target = h') :
      h.Moved h' source target i ∧ ∀ j, h'.bytesOf j = h.bytesOf j := by
    subst same
    have landed := node?_moveTree_onto h some named [] (by rwa [List.append_nil])
    rw [List.append_nil, List.append_nil, file] at landed
    exact ⟨⟨named, file, there ▸ onto, landed, fun t outside => node?_moveTree h some outside⟩, fun _ => rfl⟩
  split at put
  · exact moved (by simp) (congrArg Prod.snd put)
  · split at put
    · cases put
    split at put
    · cases put
    rename_i other
    split at put
    · cases put
    · refine moved (fun same => other ?_) (congrArg Prod.snd put)
      cases same
      rfl

theorem rename_file {q : Path} {dir : Trail} {n : String} {slash : Bool}
    (reached : h.lastStep p = .ok (.name dir n slash)) (file : h.node? (dir ++ [n]) = some (.file i))
    (other : ∀ dir' n' slash', h.lastStep q = .ok (.name dir' n' slash') → dir ++ [n] ≠ dir' ++ [n'])
    (renamed : h.rename p q = (.ok (), h')) : ∃ dir' n' slash', h.lastStep q = .ok (.name dir' n' slash') ∧
      n'.utf8ByteSize ≤ nameLimit ∧ h.Moved h' (dir ++ [n]) (dir' ++ [n']) i ∧ ∀ j, h'.bytesOf j = h.bytesOf j := by
  unfold rename at renamed
  split at renamed
  · cases renamed
  rw [reached] at renamed
  split at renamed
  · cases renamed
  · cases renamed
  · rename_i _ _ _ dir' n' slash' same reached'
    cases same
    split at renamed
    · cases renamed
    · cases renamed
    · cases renamed
    · rename_i m old looked looked'
      obtain ⟨-, there⟩ := look_eq_ok.mp looked
      obtain ⟨fits, there'⟩ := look_eq_ok.mp looked'
      cases there.symm.trans file
      split at renamed
      · cases renamed
      exact ⟨dir', n', slash', reached', fits,
        moved_of_moveOnto (by simp) (other dir' n' slash' reached') there there' renamed⟩
  · cases renamed

/-! ## Walks after the move -/

section

variable {links left : Nat} {slash : Bool} {steps : List String} {last : LastStep} {n : Node}

theorem not_prefix_dropLast (outside : ¬ target <+: here) : ¬ target <+: here.dropLast :=
  fun below => outside (below.trans (List.dropLast_prefix here))

theorem not_prefix_startOf (named : target ≠ []) (outside : ¬ target <+: here) (text : String) :
    ¬ target <+: startOf here text := by
  unfold startOf
  split
  · exact fun below => named (List.prefix_nil.mp below)
  · exact outside

theorem not_prefix_concat {name : String} (outside : ¬ target <+: here) (other : here ++ [name] ≠ target) :
    ¬ target <+: here ++ [name] := fun below =>
  (List.prefix_concat_iff.mp below).elim (fun same => other same.symm) outside

/-- What can be walked through, outside the place where the file was put, is what it was. -/
theorem Moved.way (moved : h.Moved h' source target i) (there : h.node? t = some n) (other : ∀ j, n ≠ .file j)
    (outside : ¬ target <+: t) (outside' : ¬ source <+: here) {name : String} (down : t = here ++ [name]) :
    h'.node? t = some n := by
  subst down
  rw [moved.kept _ outside, if_neg (not_prefix_concat outside' fun same => ?_)]
  · exact there
  · cases (same ▸ there).symm.trans moved.file
    exact other i rfl

/-- After the move a walk comes to the same last step as before, or finds a file in its way. -/
theorem Moved.walk (moved : h.Moved h' source target i) (walk : h.Walk slash links here steps last left)
    (outside : ¬ target <+: here) (outside' : ¬ source <+: here) :
    h'.approach links here slash steps = .ok (last, left) ∨
      h'.approach links here slash steps = .error .notDirectory := by
  have named : source ≠ [] := by
    rintro rfl
    cases moved.file
  induction walk with
  | stay => exact Or.inl (by rw [approach])
  | dot _ ih =>
    rw [approach, if_pos rfl]
    exact ih outside outside'
  | up _ ih =>
    rw [approach, if_neg (by decide), if_pos rfl]
    exact ih (not_prefix_dropLast outside) (not_prefix_dropLast outside')
  | stop name => exact Or.inl (by simp [approach, name.1, name.2])
  | @down _ _ here n _ _ name more fits dir _ ih =>
    have below : ¬ target <+: here ++ [n] := not_prefix_concat outside fun same => moved.onto (same ▸ dir)
    have stays := moved.way dir (by simp) below outside' rfl
    simp only [approach, name.1, name.2, List.isEmpty_eq_false_iff.mpr more, Nat.not_lt.mpr fits, stays, if_false,
      Bool.false_eq_true]
    refine ih below (not_prefix_concat outside' fun same => ?_)
    cases (same ▸ dir).symm.trans moved.file
  | @link _ _ here n text _ _ name more fits linked _ ih =>
    -- A link that stood at the target is now the new file, and no walk goes on through that.
    by_cases same : here ++ [n] = target
    · refine Or.inr ?_
      simp only [approach, name.1, name.2, List.isEmpty_eq_false_iff.mpr more, Nat.not_lt.mpr fits, same, moved.landed,
        if_false, Bool.false_eq_true]
    · have stays := moved.way linked (by simp) (not_prefix_concat outside same) outside' rfl
      simp only [approach, name.1, name.2, List.isEmpty_eq_false_iff.mpr more, Nat.not_lt.mpr fits, stays, if_false,
        Bool.false_eq_true]
      exact ih (not_prefix_startOf moved.named outside _) (not_prefix_startOf named outside' _)

/-- A path whose name the file has taken is read as the file, or not at all: there is a file in the way. -/
theorem Moved.read {dir : Trail} {name : String} (moved : h.Moved h' source (dir ++ [name]) i)
    (absolute : p.isAbsolute = true) (reached : h.lastStep p = .ok (.name dir name slash))
    (fits : name.utf8ByteSize ≤ nameLimit) :
    h'.read p = .ok (h'.bytesOf i) ∨ h'.read p = .error .notDirectory := by
  obtain ⟨checked, left, walk⟩ := (lastStep_iff absolute).mp reached
  have named : ¬ source <+: [] := fun below => by
    cases List.prefix_nil.mp below
    cases moved.file
  have located : h'.locate false p = h'.resolve false linkLimit [] (endsInSlash p.text) (stepsOf p.text) := by
    rw [locate, startOf_absolute absolute, checked]
    rfl
  rw [resolve_eq] at located
  rw [Host.read, find, located]
  rcases moved.walk walk (fun below => moved.named (List.prefix_nil.mp below)) named with same | blocked
  · have there : h'.look dir name = .ok (some (.file i)) := look_eq_ok.mpr ⟨fits, moved.landed⟩
    rw [same]
    simp only [there, Bool.false_and, Bool.false_eq_true, if_false]
    cases slash
    · exact Or.inl rfl
    · exact Or.inr rfl
  · rw [blocked]
    exact Or.inr rfl

/-- A walk that passes no place at or below some trail comes to the same last step in every host that has the ways
outside of it. -/
theorem Walk.back (ways : ∀ t n, ¬ target <+: t → h'.node? t = some n → (∀ j, n ≠ .file j) → h.node? t = some n)
    (named : target ≠ []) (blocked : h'.node? target = some (.file i)) (walk : h'.Walk slash links here steps last left)
    (outside : ¬ target <+: here) : h.Walk slash links here steps last left ∧ ¬ target <+: last.dir := by
  induction walk with
  | stay => exact ⟨.stay, outside⟩
  | dot _ ih => exact (ih outside).imp_left .dot
  | up _ ih => exact (ih (not_prefix_dropLast outside)).imp_left .up
  | stop name => exact ⟨.stop name, outside⟩
  | @down _ _ here n _ _ name more fits dir _ ih =>
    have below : ¬ target <+: here ++ [n] := not_prefix_concat outside fun same => by
      cases (same ▸ dir).symm.trans blocked
    exact (ih below).imp_left (.down name more fits (ways _ _ below dir (by simp)))
  | @link _ _ here n _ _ _ name more fits linked _ ih =>
    have below : ¬ target <+: here ++ [n] := not_prefix_concat outside fun same => by
      cases (same ▸ linked).symm.trans blocked
    exact (ih (not_prefix_startOf named outside _)).imp_left (.link name more fits (ways _ _ below linked (by simp)))

end

/-! ## In the root -/

structure InRoot (p : Path) (n : String) : Prop where
  absolute : p.isAbsolute = true
  checked : checkText p = .ok ()
  steps : stepsOf p.text = [n]
  name : IsName n
  fits : n.utf8ByteSize ≤ nameLimit
  plain : endsInSlash p.text = false

theorem find_root (h : Host) : h.find ⟨"/"⟩ = .ok ([], .dir) := by
  refine (find_iff rfl).mpr ⟨rfl, ?_⟩
  have steps : stepsOf "/" = [] := rfl
  rw [steps]
  exact .directory .stay

section

variable {n m : String} {q : Path}

theorem InRoot.walk (top : InRoot p n) (h : Host) :
    h.Walk (endsInSlash p.text) linkLimit [] (stepsOf p.text) (.name [] n (endsInSlash p.text)) linkLimit :=
  top.steps ▸ .stop top.name

theorem InRoot.lastStep (top : InRoot p n) (h : Host) : h.lastStep p = .ok (.name [] n false) := by
  rw [← top.plain]
  exact (lastStep_iff top.absolute).mpr ⟨top.checked, _, top.walk h⟩

theorem InRoot.hasNul (top : InRoot p n) : Host.hasNul p = false := by
  have checked := top.checked
  unfold checkText at checked
  split at checked
  · cases checked
  · rename_i none
    exact Bool.eq_false_iff.mpr none

/-- Nothing keeps one from reading a file in the root. -/
theorem InRoot.read (top : InRoot p n) (file : h.node? [n] = some (.file i)) : h.read p = .ok (h.bytesOf i) := by
  have found : h.find p = .ok ([n], .file i) := by
    refine (find_iff top.absolute).mpr ⟨top.checked, ?_⟩
    refine .entry (top.walk h) (Bool.false_and _) top.fits file (by simp) fun slash => ?_
    rw [top.plain] at slash
    cases slash
  rw [Host.read, found]

theorem InRoot.read_dir (top : InRoot p n) (dir : h.node? [n] = some .dir) :
    h.read p = .error .isDirectory := by
  have found : h.find p = .ok ([n], .dir) := by
    refine (find_iff top.absolute).mpr ⟨top.checked, ?_⟩
    exact .entry (top.walk h) (Bool.false_and _) top.fits dir (by simp) fun _ => rfl
  rw [Host.read, found]

theorem InRoot.find_free (top : InRoot p n) (free : h.node? [n] = none) : h.find p = .error .noEntry := by
  have located : h.locate false p = .ok (.vacant [n]) := by
    refine (locate_iff top.absolute).mpr ⟨top.checked, ?_⟩
    exact .vacant (top.walk h) (Bool.false_and _) top.fits free
  rw [find, located]

/-- Nothing keeps one from making a file under a free name in the root. -/
theorem InRoot.create (top : InRoot p n) (free : h.node? [n] = none) : ∃ handle h', h.create p = (.ok handle, h') := by
  have located : h.locate true p = .ok (.vacant [n]) := by
    refine (locate_iff top.absolute).mpr ⟨top.checked, ?_⟩
    exact .vacant (top.walk h) (by rw [top.plain]; rfl) top.fits free
  unfold Host.create
  rw [located]
  exact ⟨_, _, rfl⟩

/-- Nothing keeps one from moving a file in the root onto another name there that is no directory's. -/
theorem InRoot.rename (top : InRoot p m) (top' : InRoot q n) (apart : m ≠ n) (file : h.node? [m] = some (.file i))
    (other : h.node? [n] ≠ some .dir) : ∃ h', h.rename p q = (.ok (), h') := by
  have looked : h.look [] m = .ok (some (.file i)) := look_eq_ok.mpr ⟨top.fits, file⟩
  have looked' : h.look [] n = .ok (h.node? [n]) := look_eq_ok.mpr ⟨top'.fits, rfl⟩
  unfold Host.rename
  rw [top.hasNul, top'.hasNul, top.lastStep, top'.lastStep]
  simp only [looked, looked', Bool.or_self, Bool.and_false, Bool.false_eq_true, if_false, List.nil_append]
  unfold moveOnto
  have one : ¬ [m] = [n] := fun same => apart (List.singleton_inj.mp same)
  have below : [m].isPrefixOf [n] = false := by simp [List.isPrefixOf, apart]
  have above : [n].isPrefixOf [m] = false := by simp [List.isPrefixOf, Ne.symm apart]
  rw [if_neg one, below, above]
  simp only [Bool.false_eq_true, if_false]
  cases there : h.node? [n] with
  | none => exact ⟨_, rfl⟩
  | some old =>
    cases old with
    | dir => exact absurd there other
    | file j => exact ⟨_, rfl⟩
    | link target => exact ⟨_, rfl⟩

end

end DurableValue.Disk.Host
