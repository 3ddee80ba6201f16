/-
  DurableValue.Proofs.Disk.Host — what the operations of a host do to its entries.

  Making directories and opening files adds entries and takes none away (`Grows`); writing changes none. A rename
  moves one entry onto another name, and a removal takes one away that is not a directory; so no directory is ever
  lost but by a rename of its own.

  Proved:
  - `grows_createDirAll`, `grows_create`: what is added, and that asking for the directories again adds nothing
    (`createDirAll_again`).
  - `isDir_of_createDirAll`: the directory is there once it was made.
  - `rename_cases`, `removeFile_cases`: the two operations that take entries away.
-/
import DurableValue.Proofs.Disk.Memory
import DurableValue.Proofs.Disk.Walk
import DurableValue.Proofs.Path

namespace DurableValue.Disk.Host

variable {h h' h'' : Host} {t d : Trail} {n : Node} {p : Path} {last : LastStep}

/-! ## Entries -/

theorem node?_of_nodes (same : h'.nodes = h.nodes) (t : Trail) : h'.node? t = h.node? t := by
  rw [node?, node?, same]

theorem node?_setNode (h : Host) (dir : Trail) (name : String) (n : Node) (t : Trail) :
    (h.setNode (dir ++ [name]) n).node? t = if t = dir ++ [name] then some n else h.node? t := by
  unfold node? setNode
  by_cases same : t = dir ++ [name]
  · subst same
    simp
  · have other : (t == dir ++ [name]) = false := beq_eq_false_iff_ne.mpr same
    have kept : (t != dir ++ [name]) = true := bne_iff_ne.mpr same
    rw [List.lookup_cons, other, lookup_filter (· != dir ++ [name])]
    simp only [kept, same, if_true, if_false]

theorem node?_dropNode (h : Host) (dir : Trail) (name : String) (t : Trail) :
    (h.dropNode (dir ++ [name])).node? t = if t = dir ++ [name] then none else h.node? t := by
  unfold node? dropNode
  rw [lookup_filter (· != dir ++ [name])]
  by_cases same : t = dir ++ [name]
  · subst same
    simp
  · have kept : (t != dir ++ [name]) = true := bne_iff_ne.mpr same
    simp only [kept, same, if_true, if_false]

theorem lookup_moved {source target t : Trail} (apart : ¬ target <+: t) (l : List (Trail × Node)) :
    ((l.filter fun e => !target.isPrefixOf e.1).map fun e =>
      if source.isPrefixOf e.1 then (target ++ e.1.drop source.length, e.2) else e).lookup t =
        if source <+: t then none else l.lookup t := by
  induction l with
  | nil => split <;> rfl
  | cons e l ih =>
    obtain ⟨k, n⟩ := e
    have skip (k' : Trail) (other : t ≠ k') (e : Node) (l : List (Trail × Node)) :
        ((k', e) :: l).lookup t = l.lookup t := by
      rw [List.lookup_cons, beq_eq_false_iff_ne.mpr other]
    cases gone : target.isPrefixOf k with
    | true =>
      have other : t ≠ k := fun same => apart (same ▸ List.isPrefixOf_iff_prefix.mp gone)
      rw [List.filter_cons_of_neg (by simp [gone]), ih, skip k other]
    | false =>
      rw [List.filter_cons_of_pos (by simp [gone]), List.map_cons]
      cases below : source.isPrefixOf k with
      | true =>
        rw [if_pos rfl, skip _ fun same => apart ⟨_, same.symm⟩, ih]
        by_cases same : t = k
        · rw [if_pos (same ▸ List.isPrefixOf_iff_prefix.mp below),
            if_pos (same ▸ List.isPrefixOf_iff_prefix.mp below)]
        · rw [skip k same]
      | false =>
        rw [if_neg Bool.false_ne_true]
        by_cases same : t = k
        · have above : ¬ source <+: t := fun above => by
            rw [same, ← List.isPrefixOf_iff_prefix, below] at above
            cases above
          rw [if_neg above, same, List.lookup_cons_self, List.lookup_cons_self]
        · rw [skip k same, skip k same, ih]

/-- What is neither at nor below the names of a move stays; what was at or below the old name has gone from there. -/
theorem node?_moveTree (h : Host) {source target t : Trail} (named : source ≠ []) (apart : ¬ target <+: t) :
    (h.moveTree source target).node? t = if source <+: t then none else h.node? t := by
  unfold node? moveTree
  by_cases top : t = []
  · subst top
    rw [if_neg fun below => named (List.prefix_nil.mp below)]
    rfl
  · have some : t.isEmpty = false := by simpa using top
    simp only [some, Bool.false_eq_true, if_false]
    exact lookup_moved apart h.nodes

/-! ## New entries -/

/-- Whether a host has lost nothing, and has got no link. -/
def Grows (h h' : Host) : Prop :=
  ∀ t, h'.node? t = h.node? t ∨ h.node? t = none ∧ ∃ n, h'.node? t = some n ∧ ∀ target, n ≠ .link target

theorem Grows.refl (h : Host) : h.Grows h := fun _ => Or.inl rfl

theorem Grows.trans (grows : h.Grows h') (grows' : h'.Grows h'') : h.Grows h'' := by
  intro t
  rcases grows' t with same | ⟨none, new⟩
  · rcases grows t with same' | ⟨none, n, new, other⟩
    · exact Or.inl (same.trans same')
    · exact Or.inr ⟨none, n, same.trans new, other⟩
  · rcases grows t with same' | ⟨none', n, new', -⟩
    · exact Or.inr ⟨same' ▸ none, new⟩
    · cases none.symm.trans new'

theorem Grows.within (grows : h.Grows h') : h.Within h' := by
  intro t n stands
  rcases grows t with same | ⟨none, -⟩
  · exact same.trans stands.1
  · cases none.symm.trans stands.1

theorem grows_of_nodes (same : h'.nodes = h.nodes) : h.Grows h' := fun t => Or.inl (node?_of_nodes same t)

theorem grows_setNode {dir : Trail} {name : String} (none : h.node? (dir ++ [name]) = none)
    (other : ∀ target, n ≠ .link target) : h.Grows (h.setNode (dir ++ [name]) n) := by
  intro t
  rw [node?_setNode]
  by_cases same : t = dir ++ [name]
  · subst same
    rw [if_pos rfl]
    exact Or.inr ⟨none, n, rfl, other⟩
  · exact Or.inl (if_neg same)

/-! ## The text of a directory -/

theorem stepsOf_absolute {text : String} {cs : List Char} (h : text.toList = '/' :: cs) :
    stepsOf text = ((Path.pieces cs).filter (!·.isEmpty)).map String.ofList := by
  rw [stepsOf, h]
  rfl

theorem text_of_absolute (absolute : p.isAbsolute = true) : ∃ cs, p.text.toList = '/' :: cs := by
  cases e : p.text.toList with
  | nil => simp [Path.isAbsolute, e] at absolute
  | cons c cs =>
    simp [Path.isAbsolute, e] at absolute
    exact ⟨cs, by rw [absolute]⟩

variable {up : Path}

theorem absolute_up (absolute : p.isAbsolute = true) (parent : p.parent? = some up) : up.isAbsolute = true := by
  obtain ⟨cs, text⟩ := text_of_absolute absolute
  obtain ⟨init, last, -, -, spelled⟩ := Path.parent?_text text parent
  simp [Path.isAbsolute, spelled]

/-- A path goes on where its directory ends. -/
theorem stepsOf_up (absolute : p.isAbsolute = true) (parent : p.parent? = some up) :
    ∃ rest, rest ≠ [] ∧ stepsOf p.text = stepsOf up.text ++ rest := by
  obtain ⟨cs, text⟩ := text_of_absolute absolute
  obtain ⟨init, last, split, active, spelled⟩ := Path.parent?_text text parent
  have front : stepsOf up.text = ((Path.trimIdle init).filter (!·.isEmpty)).map String.ofList := by
    rw [stepsOf_absolute spelled]
    by_cases empty : Path.trimIdle init = []
    · rw [empty]
      rfl
    · rw [Path.pieces_trimmed split empty]
  obtain ⟨rest, whole, behind⟩ := Path.pieces_split split
  refine ⟨(rest.filter (!·.isEmpty)).map String.ofList, ?_, ?_⟩
  · have some : last.isEmpty = false := by
      cases last with
      | nil => cases active
      | cons => rfl
    refine List.ne_nil_of_mem (List.mem_map_of_mem (List.mem_filter.mpr ⟨behind, ?_⟩))
    rw [some]
    rfl
  · rw [stepsOf_absolute text, front, whole, List.filter_append, List.map_append]

theorem joinPieces_append (a b : List (List Char)) : ∃ rest, Path.joinPieces (a ++ b) = Path.joinPieces a ++ rest := by
  induction a with
  | nil => exact ⟨_, rfl⟩
  | cons x a ih =>
    obtain ⟨rest, joined⟩ := ih
    unfold Path.joinPieces at joined ⊢
    rcases a with _ | ⟨y, a⟩
    · rcases b with _ | ⟨y, b⟩
      · exact ⟨[], (List.append_nil _).symm⟩
      · refine ⟨['/'] ++ ['/'].intercalate (y :: b), ?_⟩
        rw [List.singleton_append, List.intercalate_cons_cons, List.append_assoc]
        simp
    · refine ⟨rest, ?_⟩
      rw [List.cons_append, List.cons_append, List.intercalate_cons_cons, List.intercalate_cons_cons,
        ← List.cons_append, joined]
      simp only [List.append_assoc]

/-- The text of a directory is a part of the text. -/
theorem text_up (absolute : p.isAbsolute = true) (parent : p.parent? = some up) : ∃ rest, p.text = up.text ++ rest := by
  obtain ⟨cs, text⟩ := text_of_absolute absolute
  obtain ⟨init, last, split, -, spelled⟩ := Path.parent?_text text parent
  obtain ⟨tail, whole, -⟩ := Path.pieces_split split
  obtain ⟨rest, joined⟩ := joinPieces_append (Path.trimIdle init) tail
  have same : Path.joinPieces (Path.pieces cs) = cs := by
    rw [Path.pieces_eq_splitOn]
    exact List.intercalate_splitOn '/'
  refine ⟨.ofList rest, String.ext ?_⟩
  rw [String.toList_append, String.toList_ofList, text, spelled, List.cons_append, ← joined, ← whole, same]

theorem checkText_up (absolute : p.isAbsolute = true) (parent : p.parent? = some up) (checked : checkText p = .ok ()) :
    checkText up = .ok () := by
  obtain ⟨rest, text⟩ := text_up absolute parent
  obtain ⟨cs, spelled⟩ := text_of_absolute (absolute_up absolute parent)
  unfold checkText at checked ⊢
  split at checked
  · cases checked
  rename_i clean
  split at checked
  · cases checked
  split at checked
  · cases checked
  rename_i short
  have clean' : hasNul up = false := by
    rw [Bool.not_eq_true] at clean
    simp only [hasNul, text, String.toList_append, List.contains_append, Bool.or_eq_false_iff] at clean
    exact clean.1
  have named : up.text.isEmpty = false := by
    refine Bool.eq_false_iff.mpr fun none => ?_
    rw [String.isEmpty_iff.mp none] at spelled
    cases spelled
  rw [text, String.utf8ByteSize_append] at short
  have short' : ¬ up.text.utf8ByteSize ≥ pathLimit := by omega
  simp only [clean', named, short', Bool.false_eq_true, if_false]

/-! ## Making directories -/

theorem isDir_iff : h.isDir p = true ↔ ∃ t, h.find p = .ok (t, .dir) := by
  unfold isDir
  rcases h.find p with e | ⟨t, _ | _ | _⟩ <;> simp

/-- A directory is made under a free name, or nothing is. -/
theorem makeDir_cases (h : Host) (p : Path) :
    (∃ e, h.makeDir p = (.error e, h)) ∨ ∃ dir n slash, h.lastStep p = .ok (.name dir n slash) ∧
      n.utf8ByteSize ≤ nameLimit ∧ h.node? (dir ++ [n]) = none ∧
        h.makeDir p = (.ok (), h.setNode (dir ++ [n]) .dir) := by
  unfold makeDir
  rcases h.lastStep p with e | ⟨dir, n, slash⟩ | t
  · exact Or.inl ⟨e, rfl⟩
  · simp only []
    rcases looked : h.look dir n with e | _ | m
    · exact Or.inl ⟨e, rfl⟩
    · obtain ⟨fits, none⟩ := look_eq_ok.mp looked
      exact Or.inr ⟨dir, n, slash, rfl, fits, none, rfl⟩
    · exact Or.inl ⟨_, rfl⟩
  · exact Or.inl ⟨_, rfl⟩

theorem grows_makeDir (h : Host) (p : Path) : h.Grows (h.makeDir p).2 := by
  rcases h.makeDir_cases p with ⟨e, made⟩ | ⟨dir, n, slash, -, -, none, made⟩ <;> rw [made]
  · exact .refl h
  · exact grows_setNode none nofun

theorem components_ne_nil (absolute : p.isAbsolute = true) : p.components.isEmpty = false := by
  obtain ⟨cs, text⟩ := text_of_absolute absolute
  rw [Path.components_absolute text]
  rfl

def unlessThere (h : Host) (p : Path) (e : IoError) : Except IoError Unit := if h.isDir p then .ok () else .error e

inductive Making (h : Host) (depth : Nat) (p : Path) : Except IoError Unit × Host → Prop where
  | made {h' : Host} (made : h.makeDir p = (.ok (), h')) : h.Making depth p (.ok (), h')
  | refused {e : IoError} (failed : h.makeDir p = (.error e, h)) (other : e.kind ≠ .notFound) :
    h.Making depth p (h.unlessThere p e, h)
  | topless {e cause : IoError} (failed : h.makeDir p = (.error e, h)) (top : p.parent? = none) :
    h.Making depth p (.error cause, h)
  | blocked {e cause : IoError} {up : Path} {h' : Host} (failed : h.makeDir p = (.error e, h))
    (missing : e.kind = .notFound) (parent : p.parent? = some up)
    (above : h.makeDirs depth up = (.error cause, h')) : h.Making depth p (.error cause, h')
  | below {e : IoError} {up : Path} {h' h'' : Host} (failed : h.makeDir p = (.error e, h))
    (missing : e.kind = .notFound) (parent : p.parent? = some up) (above : h.makeDirs depth up = (.ok (), h'))
    (made : h'.makeDir p = (.ok (), h'')) :
    h.Making depth p (.ok (), h'')
  | again {e cause : IoError} {up : Path} {h' : Host} (failed : h.makeDir p = (.error e, h))
    (missing : e.kind = .notFound) (parent : p.parent? = some up) (above : h.makeDirs depth up = (.ok (), h'))
    (failed' : h'.makeDir p = (.error cause, h')) :
    h.Making depth p (h'.unlessThere p cause, h')

theorem making (h : Host) (depth : Nat) (absolute : p.isAbsolute = true) :
    h.Making depth p (h.makeDirs (depth + 1) p) := by
  have error {h h' : Host} {e : IoError} (failed : h.makeDir p = (.error e, h')) : h' = h := by
    rcases h.makeDir_cases p with ⟨e', made⟩ | ⟨dir, n, slash, -, -, -, made⟩ <;> rw [made] at failed <;> cases failed
    rfl
  rw [makeDirs, if_neg (by rw [components_ne_nil absolute]; exact Bool.false_ne_true)]
  rcases first : h.makeDir p with ⟨e | _, h'⟩
  · cases error first
    simp only []
    split
    · rename_i other
      exact .refused first (by simpa using other)
    · rename_i missing
      have missing : e.kind = .notFound := by simpa using missing
      split
      · rename_i top
        exact .topless first top
      · rename_i up parent
        rcases above : h.makeDirs depth up with ⟨cause | _, h'⟩
        · exact .blocked first missing parent above
        · rcases second : h'.makeDir p with ⟨cause | _, h''⟩ <;> simp only [second]
          · cases error second
            exact .again first missing parent above second
          · exact .below first missing parent above second
  · exact .made first

/-- Directories are added, and only that, however far it gets. -/
theorem grows_makeDirs (h : Host) (depth : Nat) (absolute : p.isAbsolute = true) : h.Grows (h.makeDirs depth p).2 := by
  induction depth generalizing p with
  | zero => exact .refl h
  | succ depth ih =>
    have grown {h h' : Host} {a : Except IoError Unit} (made : h.makeDir p = (a, h')) : h.Grows h' := by
      have grows := h.grows_makeDir p
      rwa [made] at grows
    have raised {h' : Host} {a : Except IoError Unit} {up : Path} (parent : p.parent? = some up)
        (above : h.makeDirs depth up = (a, h')) : h.Grows h' := by
      have grows := ih (absolute_up absolute parent)
      rwa [above] at grows
    generalize e : h.makeDirs (depth + 1) p = r
    have way := h.making depth absolute
    rw [e] at way
    cases way with
    | made made => exact grown made
    | refused | topless => exact .refl h
    | blocked _ _ parent above => exact raised parent above
    | below _ _ parent above made => exact (raised parent above).trans (grown made)
    | again _ _ parent above => exact raised parent above

section

variable (absolute : p.isAbsolute = true)

include absolute

/-- What a path leads to is at its last step or behind a link there. -/
theorem lastStep_of_find (found : h.find p = .ok (t, n)) : ∃ last, h.lastStep p = .ok last ∧
    ∀ dir name slash, last = .name dir name slash → ∃ m, h.look dir name = .ok (some m) := by
  obtain ⟨checked, arrives⟩ := (find_iff absolute).mp found
  generalize reached : Found.entry t n = found at arrives
  cases arrives with
  | directory walk => exact ⟨_, (lastStep_iff absolute).mpr ⟨checked, _, walk⟩, nofun⟩
  | vacant => cases reached
  | entry walk plain fits there own asked =>
    refine ⟨_, (lastStep_iff absolute).mpr ⟨checked, _, walk⟩, fun dir name slash same => ?_⟩
    cases same
    exact ⟨_, look_eq_ok.mpr ⟨fits, there⟩⟩
  | link walk plain fits linked _ =>
    refine ⟨_, (lastStep_iff absolute).mpr ⟨checked, _, walk⟩, fun dir name slash same => ?_⟩
    cases same
    exact ⟨_, look_eq_ok.mpr ⟨fits, linked⟩⟩

theorem makeDir_of_isDir (there : h.isDir p = true) : h.makeDir p = (.error .entryExists, h) := by
  obtain ⟨t, found⟩ := isDir_iff.mp there
  obtain ⟨last, reached, looked⟩ := lastStep_of_find absolute found
  unfold makeDir
  rw [reached]
  cases last with
  | directory t => rfl
  | name dir name slash =>
    obtain ⟨m, looked⟩ := looked dir name slash rfl
    simp only [looked]

/-- A directory that is there is not made. -/
theorem makeDirs_of_isDir (there : h.isDir p = true) (depth : Nat) : h.makeDirs (depth + 1) p = (.ok (), h) := by
  have other : (IoError.entryExists.kind != .notFound) = true := by decide
  simp only [makeDirs, components_ne_nil absolute, makeDir_of_isDir absolute there, other, there, if_true,
    Bool.false_eq_true, if_false]

theorem isDir_of_makeDir (made : h.makeDir p = (.ok (), h')) : h'.isDir p = true := by
  rcases h.makeDir_cases p with ⟨e, failed⟩ | ⟨dir, n, slash, reached, fits, none, new⟩
  · cases failed.symm.trans made
  · cases new.symm.trans made
    have within := (grows_setNode none (n := .dir) nofun).within
    obtain ⟨checked, left, walk⟩ := (lastStep_iff absolute).mp (lastStep_within absolute within reached).1
    cases walk.name.1
    refine isDir_iff.mpr ⟨dir ++ [n], (find_iff absolute).mpr ⟨checked, .entry walk rfl fits ?_ nofun fun _ => rfl⟩⟩
    rw [node?_setNode, if_pos rfl]

theorem isDir_of_makeDirs {depth : Nat} (made : h.makeDirs depth p = (.ok (), h')) : h'.isDir p = true := by
  cases depth with
  | zero => cases made
  | succ depth =>
    have there {h : Host} {e : IoError} (ok : h.unlessThere p e = .ok ()) : h.isDir p = true := by
      unfold unlessThere at ok
      split at ok
      · assumption
      · cases ok
    have way := h.making depth absolute
    rw [made] at way
    generalize e : (Except.ok (), h') = r at way
    cases way with
    | made made => cases e; exact isDir_of_makeDir absolute made
    | refused =>
      obtain ⟨ok, rfl⟩ := Prod.mk.inj e
      exact there ok.symm
    | topless | blocked => cases e
    | below _ _ _ _ made => cases e; exact isDir_of_makeDir absolute made
    | again =>
      obtain ⟨ok, rfl⟩ := Prod.mk.inj e
      exact there ok.symm

/-- Where a path has its last step, its directory is. -/
theorem isDir_up (reached : h.lastStep p = .ok last) (parent : p.parent? = some up) : h.isDir up = true := by
  have absolute' := absolute_up absolute parent
  obtain ⟨checked, left, walk⟩ := (lastStep_iff absolute).mp reached
  obtain ⟨rest, more, steps⟩ := stepsOf_up absolute parent
  rw [steps] at walk
  obtain ⟨t, arrives⟩ := walk.through more (endsInSlash up.text)
  exact isDir_iff.mpr ⟨t, (find_iff absolute').mpr ⟨checkText_up absolute parent checked, arrives⟩⟩

/-- A directory cannot be made where the one above it is not. -/
theorem blocked_makeDir (parent : p.parent? = some up) (missing : h.isDir up = false) :
    (∃ e, h.makeDir p = (.error e, h)) ∧ h.isDir p = false := by
  have unreached {last : LastStep} : h.lastStep p ≠ .ok last := fun reached => by
    cases missing.symm.trans (isDir_up absolute reached parent)
  constructor
  · rcases h.makeDir_cases p with failed | ⟨dir, n, slash, reached, -⟩
    · exact failed
    · exact absurd reached unreached
  · refine Bool.eq_false_iff.mpr fun there => ?_
    obtain ⟨t, found⟩ := isDir_iff.mp there
    obtain ⟨last, reached, -⟩ := lastStep_of_find absolute found
    exact unreached reached

/-- Where the directory cannot be made, and those above it are as they are, nothing is made. -/
theorem stuck_makeDirs {depth : Nat} {e : IoError} (failed : h.makeDir p = (.error e, h)) (missing : h.isDir p = false)
    (above : ∀ up, p.parent? = some up → ∃ a, h.makeDirs depth up = (a, h)) :
    ∃ e', h.makeDirs (depth + 1) p = (.error e', h) := by
  have none (cause : IoError) : h.unlessThere p cause = .error cause := by
    rw [unlessThere, missing, if_neg Bool.false_ne_true]
  have same {h' : Host} {up : Path} {a : Except IoError Unit} (parent : p.parent? = some up)
      (made : h.makeDirs depth up = (a, h')) : h' = h := by
    obtain ⟨a', still⟩ := above up parent
    exact congrArg Prod.snd (made.symm.trans still)
  generalize result : h.makeDirs (depth + 1) p = r
  have way := h.making depth absolute
  rw [result] at way
  cases way with
  | made made => cases failed.symm.trans made
  | refused => exact ⟨_, by rw [none]⟩
  | topless => exact ⟨_, rfl⟩
  | blocked _ _ parent above =>
    cases same parent above
    exact ⟨_, rfl⟩
  | below _ _ parent above made =>
    cases same parent above
    cases failed.symm.trans made
  | again _ _ parent above =>
    cases same parent above
    exact ⟨_, by rw [none]⟩

/-- An attempt that failed fails again, and makes nothing then. -/
theorem makeDirs_again {depth : Nat} {e : IoError} (failed : h.makeDirs depth p = (.error e, h')) :
    ∃ e', h'.makeDirs depth p = (.error e', h') := by
  induction depth generalizing h h' p e with
  | zero =>
    cases failed
    exact ⟨_, rfl⟩
  | succ depth ih =>
    have way := h.making depth absolute
    rw [failed] at way
    generalize same : (Except.error e, h') = r at way
    cases way with
    | made | below => cases same
    | refused | topless =>
      obtain ⟨-, rfl⟩ := Prod.mk.inj same
      exact ⟨_, failed⟩
    | @blocked _ _ up h₁ first missing parent above =>
      cases same
      obtain ⟨e', still⟩ := ih (absolute_up absolute parent) above
      cases depth with
      | zero =>
        cases above
        exact ⟨_, failed⟩
      | succ depth =>
        -- A directory that were there would be made again without an error.
        have none : h'.isDir up = false := Bool.eq_false_iff.mpr fun there => by
          cases still.symm.trans (makeDirs_of_isDir (absolute_up absolute parent) there depth)
        obtain ⟨⟨e₂, failed₂⟩, none⟩ := blocked_makeDir absolute parent none
        refine stuck_makeDirs absolute failed₂ none fun up' parent' => ?_
        cases parent.symm.trans parent'
        exact ⟨_, still⟩
    | @again _ cause up h₁ first missing parent above second =>
      obtain ⟨refused, rfl⟩ := Prod.mk.inj same
      -- the second attempt is forgiven only if the directory is there
      have none : h'.isDir p = false := by
        unfold unlessThere at refused
        split at refused
        · cases refused
        · rename_i none
          exact Bool.eq_false_iff.mpr none
      refine stuck_makeDirs absolute second none fun up' parent' => ?_
      cases parent.symm.trans parent'
      have absolute' := absolute_up absolute parent
      cases depth with
      | zero => cases above
      | succ depth => exact ⟨_, makeDirs_of_isDir absolute' (isDir_of_makeDirs absolute' above) depth⟩

theorem createDirAll_of_isDir (there : h.isDir p = true) : h.createDirAll p = (.ok (), h) := by
  simp only [createDirAll, makeDirs_of_isDir absolute there, there, if_true]

omit absolute in
theorem isDir_of_createDirAll (made : h.createDirAll p = (.ok (), h')) : h'.isDir p = true := by
  unfold createDirAll at made
  split at made
  · cases made
  · split at made
    · rename_i there
      cases made
      exact there
    · cases made

theorem grows_createDirAll (h : Host) : h.Grows (h.createDirAll p).2 := by
  have grows := h.grows_makeDirs (p.text.length + 1) absolute
  unfold createDirAll
  rcases made : h.makeDirs (p.text.length + 1) p with ⟨e | ⟨⟩, h'⟩ <;> rw [made] at grows <;> simp only []
  · exact grows
  · split <;> exact grows

/-- Directories that could not be made cannot be made later, and nothing more is made of them. -/
theorem createDirAll_again {e : IoError} (failed : h.createDirAll p = (.error e, h')) :
    ∃ e', h'.createDirAll p = (.error e', h') := by
  unfold createDirAll at failed ⊢
  rcases first : h.makeDirs (p.text.length + 1) p with ⟨cause | ⟨⟩, h₁⟩ <;> simp only [first] at failed
  · cases failed
    obtain ⟨e', again⟩ := makeDirs_again absolute first
    exact ⟨e', by rw [again]⟩
  · rw [isDir_of_makeDirs absolute first, if_pos rfl] at failed
    cases failed

end

/-! ## Opening and writing -/

theorem flushed_nodes (h : Host) (handle : Nat) : (h.flushed handle).nodes = h.nodes := by
  unfold flushed
  split
  · rfl
  · split <;> rfl

theorem setPending_nodes (h : Host) (handle : Nat) (bs : Bytes) : (h.setPending handle bs).nodes = h.nodes := by
  unfold setPending
  split <;> rfl

theorem write_nodes (h : Host) (handle : Nat) (bs : Bytes) : (h.write handle bs).nodes = h.nodes := by
  unfold write
  split
  · rfl
  · split
    · exact setPending_nodes ..
    · have first (fits : Prop) [Decidable fits] : (if fits then h else h.flushed handle).nodes = h.nodes := by
        split
        · rfl
        · exact flushed_nodes ..
      simp only []
      split
      · rw [flushed_nodes, setPending_nodes, first]
      · rw [setPending_nodes, first]

theorem close_nodes (h : Host) (handle : Nat) : (h.close handle).nodes = h.nodes := flushed_nodes h handle

section

variable (absolute : p.isAbsolute = true)

include absolute

/-- Where something is found or may be made, a walk has come to its last step. -/
theorem lastStep_of_locate {making : Bool} {found : Found} (located : h.locate making p = .ok found) :
    ∃ last, h.lastStep p = .ok last := by
  obtain ⟨checked, arrives⟩ := (locate_iff absolute).mp located
  cases arrives with
  | directory walk | vacant walk | entry walk | link walk =>
    exact ⟨_, (lastStep_iff absolute).mpr ⟨checked, _, walk⟩⟩

theorem grows_create (h : Host) : h.Grows (h.create p).2 := by
  unfold create
  split
  · exact .refl h
  · exact grows_of_nodes rfl
  · exact .refl h
  · rename_i t located
    obtain ⟨dir, name, rfl, none⟩ := ((locate_iff absolute).mp located).2.free
    exact (grows_setNode none (n := .file h.fresh) nofun).trans (grows_of_nodes rfl)

/-- What was opened has a name, and is no directory. -/
theorem opened_of_create {handle : Nat} (created : h.create p = (.ok handle, h')) :
    ∃ dir n slash, h'.lastStep p = .ok (.name dir n slash) ∧ h'.node? (dir ++ [n]) ≠ some .dir := by
  have grows := h.grows_create absolute
  rw [created] at grows
  -- The walk to the name goes the same way behind the call; it is left to see that a file or a link is there.
  have named {dir : Trail} {n : String} {slash : Bool} (reached : h.lastStep p = .ok (.name dir n slash))
      (other : h'.node? (dir ++ [n]) ≠ some .dir) :
      ∃ dir n slash, h'.lastStep p = .ok (.name dir n slash) ∧ h'.node? (dir ++ [n]) ≠ some .dir :=
    ⟨dir, n, slash, (lastStep_within absolute grows.within reached).1, other⟩
  have kept {t : Trail} {m : Node} (there : h.node? t = some m) (other : m ≠ .dir) : h'.node? t ≠ some .dir := by
    rcases grows t with same | ⟨none, -⟩
    · rw [same, there]
      exact fun same => other (Option.some.inj same)
    · cases there.symm.trans none
  unfold create at created
  split at created
  · cases created
  · rename_i located
    obtain ⟨checked, arrives⟩ := (locate_iff absolute).mp located
    generalize reached : Found.entry _ (Node.file _) = found at arrives
    cases arrives with
    | directory | vacant => cases reached
    | entry walk _ _ there =>
      cases reached
      exact named ((lastStep_iff absolute).mpr ⟨checked, _, walk⟩) (kept there nofun)
    | link walk _ _ linked => exact named ((lastStep_iff absolute).mpr ⟨checked, _, walk⟩) (kept linked nofun)
  · cases created
  · rename_i t located
    cases created
    obtain ⟨checked, arrives⟩ := (locate_iff absolute).mp located
    generalize reached : Found.vacant _ = found at arrives
    cases arrives with
    | directory | entry => cases reached
    | @vacant _ _ _ dir _ _ n walk _ _ none =>
      cases reached
      have new := (node?_setNode h dir n (.file h.fresh) (dir ++ [n])).trans (if_pos rfl)
      exact named ((lastStep_iff absolute).mpr ⟨checked, _, walk⟩) fun dir => nomatch new.symm.trans dir
    | link walk _ _ linked => exact named ((lastStep_iff absolute).mpr ⟨checked, _, walk⟩) (kept linked nofun)

/-- What no walk comes to can be neither opened nor found. -/
theorem unreached (missing : ∀ last, h.lastStep p ≠ .ok last) :
    (∃ e, h.create p = (.error e, h)) ∧ h.entryExists p = false := by
  have located {making : Bool} : ∃ e, h.locate making p = .error e := by
    rcases located : h.locate making p with e | found
    · exact ⟨e, rfl⟩
    · obtain ⟨last, reached⟩ := lastStep_of_locate absolute located
      exact absurd reached (missing last)
  constructor
  · obtain ⟨e, located⟩ := @located true
    exact ⟨e, by rw [create, located]⟩
  · obtain ⟨e, located⟩ := @located false
    rw [entryExists, find, located]
    rfl

end

/-! ## Moving and removing -/

/-- A rename moves an entry that is there onto another name, neither above nor below it, or does nothing. It moves no
file onto a directory. -/
theorem rename_cases (h : Host) (source target : Path) : (h.rename source target).2 = h ∨
    ∃ dir n slash dir' n' slash' m, h.lastStep source = .ok (.name dir n slash) ∧
      h.lastStep target = .ok (.name dir' n' slash') ∧ h.node? (dir ++ [n]) = some m ∧
      ¬ dir ++ [n] <+: dir' ++ [n'] ∧ ¬ dir' ++ [n'] <+: dir ++ [n] ∧
      (m ≠ .dir → h.node? (dir' ++ [n']) ≠ some .dir) ∧
      (h.rename source target).2 = h.moveTree (dir ++ [n]) (dir' ++ [n']) := by
  unfold rename
  split
  · exact Or.inl rfl
  split
  · exact Or.inl rfl
  · exact Or.inl rfl
  · rename_i dir n slash dir' n' slash' reached reached'
    split
    · exact Or.inl rfl
    · exact Or.inl rfl
    · exact Or.inl rfl
    · rename_i m old looked looked'
      obtain ⟨-, there⟩ := look_eq_ok.mp looked
      obtain ⟨-, there'⟩ := look_eq_ok.mp looked'
      split
      · exact Or.inl rfl
      unfold moveOnto
      split
      · exact Or.inl rfl
      split
      · exact Or.inl rfl
      rename_i inside
      split
      · exact Or.inl rfl
      rename_i above
      rw [List.isPrefixOf_iff_prefix] at inside above
      -- Both names are known now, and neither lies below the other; what stands at the target decides.
      refine (?_ : _ ∨ ((m ≠ .dir → old ≠ some .dir) ∧ _ = h.moveTree _ _)).imp_right fun moved =>
        ⟨dir, n, slash, dir', n', slash', m, reached, reached', there, inside, above, there' ▸ moved.1, moved.2⟩
      split
      · exact Or.inr ⟨fun _ => nofun, rfl⟩
      · split
        · exact Or.inl rfl
        split
        · exact Or.inl rfl
        split
        · exact Or.inl rfl
        · rename_i other _
          refine Or.inr ⟨fun file same => other ?_, rfl⟩
          cases same
          simp [file]
  · exact Or.inl rfl

/-- A removal takes an entry away that is no directory, or does nothing. -/
theorem removeFile_cases (h : Host) (p : Path) : (h.removeFile p).2 = h ∨
    ∃ dir n slash, h.lastStep p = .ok (.name dir n slash) ∧ h.node? (dir ++ [n]) ≠ some .dir ∧
      (h.removeFile p).2 = h.dropNode (dir ++ [n]) := by
  unfold removeFile
  split
  · exact Or.inl rfl
  · exact Or.inl rfl
  · rename_i dir n slash reached
    split
    · exact Or.inl rfl
    · exact Or.inl rfl
    · exact Or.inl rfl
    · rename_i m other looked
      obtain ⟨-, there⟩ := look_eq_ok.mp looked
      split
      · exact Or.inl rfl
      · refine Or.inr ⟨dir, n, slash, reached, fun dir => ?_, rfl⟩
        cases there.symm.trans dir
        exact other rfl

/-! ## Without some of the entries -/

/-- The host without what is at some trails, directories apart. -/
def without (h : Host) (ts : List Trail) : Host :=
  { h with nodes := h.nodes.filter fun e => !ts.contains e.1 || h.node? e.1 == some .dir }

theorem node?_without (h : Host) (ts : List Trail) (t : Trail) :
    (h.without ts).node? t = if t ∈ ts ∧ h.node? t ≠ some .dir then none else h.node? t := by
  by_cases top : t = []
  · subst top
    rw [if_neg fun gone => gone.2 rfl]
    rfl
  · have some : t.isEmpty = false := by simpa using top
    have own : h.node? t = h.nodes.lookup t := by rw [node?, some, if_neg Bool.false_ne_true]
    have kept : (h.without ts).node? t = ({ h with nodes := (h.without ts).nodes } : Host).nodes.lookup t := by
      rw [node?, some, if_neg Bool.false_ne_true]
    rw [kept]
    simp only [without]
    rw [lookup_filter fun k => !ts.contains k || h.node? k == Option.some .dir, own]
    by_cases mem : t ∈ ts <;> by_cases dir : h.nodes.lookup t = Option.some .dir <;> simp [mem, dir]

theorem without_within (h : Host) (ts : List Trail) : (h.without ts).Within h := by
  intro t n stands
  have there := stands.1
  rw [node?_without] at there
  split at there
  · cases there
  · exact there

/-- What is left at one of the trails, or above something that is left, is a directory. -/
theorem dir_of_without {ts : List Trail} (stands : (h.without ts).Stands t n) (mem : d ∈ ts) (below : d <+: t) :
    (h.without ts).Stands d .dir := by
  have dir : (h.without ts).node? d = some .dir := by
    by_cases same : d = t
    · subst same
      have there := stands.1
      rw [node?_without] at there ⊢
      split at there
      · cases there
      · rename_i kept
        rw [if_neg kept]
        exact Decidable.byContradiction fun other => kept ⟨mem, other⟩
    · exact stands.2 d below same
  refine ⟨dir, fun e lower other => stands.2 e (lower.trans below) fun same => other ?_⟩
  subst same
  exact lower.eq_of_length (Nat.le_antisymm lower.length_le below.length_le)

end DurableValue.Disk.Host
