/-
  DurableValue.Proofs.Disk.Tree — trees of files and directories.

  What a host stores is a tree: every entry lies in a directory, up to the root. In memory, files and directories are
  kept apart from each other, so that nothing but the operations makes a tree of them (`Memory.IsTree`): what is
  stored lies in the root or in a stored directory, no place is a file and a directory, and nothing is stored below a
  file. The operations see to the first of that alone.

  Proved:
  - `Client.change_ask`: a call takes files away, stores one file with the directories above it, or makes directories.
  - `Client.rooted_run`: whatever is asked, what is stored lies in stored directories.
  - `Change.isTree_iff`: a call on a tree leaves a tree, unless it goes through where a file meets a directory or an
    entry comes to lie below a file. Some calls do (`a_file_is_made_of_a_directory`).
  - `Host.a_host_stays_a_tree`: a host stays a tree, whatever it is asked by absolute paths.
-/
import DurableValue.Proofs.Disk.Recorded
import DurableValue.Proofs.Disk.Replace
import DurableValue.Proofs.Disk.Spelling

namespace DurableValue

namespace Place

variable {p d e : Place}

/-! ## Above and below -/

def Above (d p : Place) : Prop := d.rooted = p.rooted ∧ d.names <+: p.names ∧ d.names.length < p.names.length

theorem Above.trans (h : d.Above e) (h' : e.Above p) : d.Above p :=
  ⟨h.1.trans h'.1, h.2.1.trans h'.2.1, Nat.lt_trans h.2.2 h'.2.2⟩

theorem not_above_self (p : Place) : ¬ p.Above p := fun h => Nat.lt_irrefl _ h.2.2

theorem Above.not_isTop (h : d.Above p) : p.isTop = false := by
  have some : p.names ≠ [] := List.length_pos_iff.mp (Nat.zero_lt_of_lt h.2.2)
  simpa [isTop] using some

theorem parent?_of_not_isTop (named : p.isTop = false) : p.parent? = some { p with names := p.names.dropLast } := by
  rw [parent?, named]
  rfl

theorem eq_or_above (rooted : d.rooted = p.rooted) (within : d.names <+: p.names) : d = p ∨ d.Above p := by
  rcases Nat.lt_or_eq_of_le within.length_le with short | same
  · exact Or.inr ⟨rooted, within, short⟩
  · obtain ⟨r, ns⟩ := d
    cases rooted
    cases within.eq_of_length same
    exact Or.inl rfl

theorem mem_ancestors_iff : d ∈ p.ancestors ↔ (d = p ∨ d.Above p) ∧ d.isTop = false := by
  have named : d.isTop = false ↔ d.names ≠ [] := by simp [isTop]
  rw [named]
  constructor
  · intro mem
    obtain ⟨rooted, named, within⟩ := mem_ancestors mem
    exact ⟨eq_or_above rooted within, named⟩
  · rintro ⟨rfl | above, named⟩
    · exact ancestors_of_prefix rfl named (List.prefix_refl _)
    · exact ancestors_of_prefix above.1 named above.2.1

theorem parent?_eq_some (h : p.parent? = some e) : p.isTop = false ∧ e = { p with names := p.names.dropLast } := by
  unfold parent? at h
  split at h <;> cases h
  exact ⟨Bool.eq_false_iff.mpr ‹_›, rfl⟩

theorem above_of_parent? (h : p.parent? = some e) : e.Above p := by
  obtain ⟨named, rfl⟩ := parent?_eq_some h
  have pos : 0 < p.names.length := List.length_pos_iff.mpr (by simpa [isTop] using named)
  refine ⟨rfl, List.dropLast_prefix _, ?_⟩
  simp only [List.length_dropLast]
  omega

/-- What lies above a place is its parent, or lies above that. -/
theorem above_iff_of_parent? (h : p.parent? = some e) : d.Above p ↔ d = e ∨ d.Above e := by
  have above := above_of_parent? h
  constructor
  · rintro ⟨rooted, within, short⟩
    refine eq_or_above (rooted.trans above.1.symm) (List.prefix_of_prefix_length_le within above.2.1 ?_)
    obtain ⟨-, rfl⟩ := parent?_eq_some h
    simp only [List.length_dropLast]
    omega
  · rintro (rfl | higher)
    · exact above
    · exact higher.trans above

end Place

namespace Disk.Memory

variable {m m' : Memory} {p q d : Place}

/-! ## Trees -/

def hasFile (m : Memory) (p : Place) : Bool := (m.get? p).isSome

def Stores (m : Memory) (p : Place) : Prop := m.hasFile p = true ∨ m.hasDir p = true

/-- Whether whatever is stored lies in a stored directory, or in the root. -/
def Rooted (m : Memory) : Prop := ∀ p, m.Stores p → m.parentExists p = true

structure IsTree (m : Memory) : Prop where
  rooted : m.Rooted
  /-- No place is a file and a directory. -/
  single : ∀ p, m.hasFile p = true → m.hasDir p = false
  /-- Nothing is stored below a file. -/
  leaf : ∀ p q, m.hasFile p = true → p.Above q → ¬ m.Stores q

theorem parentExists_iff : m.parentExists p = true ↔ ∀ d, p.parent? = some d → d.isTop = false → m.hasDir d = true := by
  unfold parentExists
  cases p.parent? with
  | none => simp
  | some d => cases top : d.isTop <;> simp [top]

/-- All directories above a stored entry are stored. -/
theorem Rooted.hasDir_of_above (h : m.Rooted) (stored : m.Stores p) (above : d.Above p) (named : d.isTop = false) :
    m.hasDir d = true := by
  generalize length : p.names.length = k
  induction k generalizing p with
  | zero => exact absurd above.2.2 (by omega)
  | succ k ih =>
    have parent := Place.parent?_of_not_isTop above.not_isTop
    have there := parentExists_iff.mp (h p stored) _ parent
    rcases (Place.above_iff_of_parent? parent).mp above with rfl | higher
    · exact there named
    · refine ih (Or.inr (there higher.not_isTop)) higher ?_
      simp only [List.length_dropLast]
      omega

theorem Rooted.of_more {q : Place} (h : m.Rooted) (dirs : ∀ d, m.hasDir d = true → m'.hasDir d = true)
    (stored : m.Stores q) : m'.parentExists q = true :=
  parentExists_iff.mpr fun d parent named => dirs d (parentExists_iff.mp (h q stored) d parent named)

/-- Where all directories above `p` are stored, so are those above whatever lies above it. -/
theorem parentExists_of_chain {q : Place} (chain : ∀ d, d.Above p → d.isTop = false → m.hasDir d = true)
    (h : q = p ∨ q.Above p) : m.parentExists q = true :=
  parentExists_iff.mpr fun d parent named => by
    have upper := Place.above_of_parent? parent
    rcases h with rfl | above
    · exact chain d upper named
    · exact chain d (upper.trans above) named

/-! ## Changes -/

structure Less (m' m : Memory) : Prop where
  files : ∀ q, m'.hasFile q = true → m.hasFile q = true
  dirs : ∀ q, m'.hasDir q = m.hasDir q

structure Filed (p : Place) (m m' : Memory) : Prop where
  files : ∀ q, m'.hasFile q = true ↔ q = p ∨ m.hasFile q = true
  dirs : ∀ q, m'.hasDir q = true ↔ m.hasDir q = true ∨ q.Above p ∧ q.isTop = false

structure Made (p : Place) (m m' : Memory) : Prop where
  files : ∀ q, m'.hasFile q = m.hasFile q
  dirs : ∀ q, m'.hasDir q = true ↔ m.hasDir q = true ∨ (q = p ∨ q.Above p) ∧ q.isTop = false

def BarsFile (m : Memory) (p : Place) : Prop :=
  m.hasDir p = true ∨ (∃ q, q.Above p ∧ m.hasFile q = true) ∨ ∃ q, p.Above q ∧ m.Stores q

def BarsDir (m : Memory) (p : Place) : Prop :=
  p.isTop = false ∧ ∃ q, (q = p ∨ q.Above p) ∧ m.hasFile q = true

theorem Less.refl (m : Memory) : m.Less m := ⟨fun _ => id, fun _ => rfl⟩

theorem Less.stores {q : Place} (h : m'.Less m) (stored : m'.Stores q) : m.Stores q :=
  stored.imp (h.files q) fun there => (h.dirs q).symm.trans there

theorem Less.rooted (h : m'.Less m) (rooted : m.Rooted) : m'.Rooted := fun _ stored =>
  rooted.of_more (fun d there => (h.dirs d).trans there) (h.stores stored)

theorem Less.isTree (h : m'.Less m) (tree : m.IsTree) : m'.IsTree where
  rooted := h.rooted tree.rooted
  single q file := (h.dirs q).trans (tree.single q (h.files q file))
  leaf p q file above stored := tree.leaf p q (h.files p file) above (h.stores stored)

theorem Filed.rooted (h : Filed p m m') (rooted : m.Rooted) : m'.Rooted := by
  intro q stored
  have old : m.Stores q → m'.parentExists q = true := rooted.of_more fun d there => (h.dirs d).mpr (Or.inl there)
  have new : q = p ∨ q.Above p → m'.parentExists q = true :=
    parentExists_of_chain fun d above named => (h.dirs d).mpr (Or.inr ⟨above, named⟩)
  rcases stored with file | dir
  · rcases (h.files q).mp file with here | file
    · exact new (Or.inl here)
    · exact old (Or.inl file)
  · rcases (h.dirs q).mp dir with dir | ⟨above, -⟩
    · exact old (Or.inr dir)
    · exact new (Or.inr above)

/-- A file may be stored where it is a leaf and nothing else. -/
theorem Filed.isTree_iff (h : Filed p m m') (tree : m.IsTree) : m'.IsTree ↔ ¬ m.BarsFile p := by
  have here : m'.hasFile p = true := (h.files p).mpr (Or.inl rfl)
  have kept {q : Place} (stored : m.Stores q) : m'.Stores q :=
    stored.imp (fun file => (h.files q).mpr (Or.inr file)) fun dir => (h.dirs q).mpr (Or.inl dir)
  constructor
  · rintro tree' (dir | ⟨q, above, file⟩ | ⟨q, below, stored⟩)
    · have free := tree'.single p here
      rw [(h.dirs p).mpr (Or.inl dir)] at free
      cases free
    · exact tree'.leaf q p ((h.files q).mpr (Or.inr file)) above (Or.inl here)
    · exact tree'.leaf p q here below (kept stored)
  · intro free
    refine ⟨h.rooted tree.rooted, fun q file => Bool.eq_false_iff.mpr fun dir => ?_, fun q r file below stored => ?_⟩
    · rcases (h.files q).mp file with rfl | file <;> rcases (h.dirs q).mp dir with dir | ⟨above, -⟩
      · exact free (Or.inl dir)
      · exact Place.not_above_self q above
      · cases (tree.single q file).symm.trans dir
      · exact free (Or.inr (Or.inl ⟨q, above, file⟩))
    · -- What is below a file is the new file, a directory above it, or was there before.
      have cases : r = p ∨ m.Stores r ∨ r.Above p := by
        rcases stored with file | dir
        · exact ((h.files r).mp file).imp_right fun file => Or.inl (Or.inl file)
        · exact Or.inr (((h.dirs r).mp dir).imp Or.inr And.left)
      rcases (h.files q).mp file with rfl | file
      · rcases cases with rfl | stored | above
        · exact Place.not_above_self r below
        · exact free (Or.inr (Or.inr ⟨r, below, stored⟩))
        · exact Place.not_above_self q (below.trans above)
      · rcases cases with rfl | stored | above
        · exact free (Or.inr (Or.inl ⟨q, below, file⟩))
        · exact tree.leaf q r file below stored
        · exact free (Or.inr (Or.inl ⟨q, below.trans above, file⟩))

theorem Made.rooted (h : Made p m m') (rooted : m.Rooted) : m'.Rooted := by
  intro q stored
  have old : m.Stores q → m'.parentExists q = true := rooted.of_more fun d there => (h.dirs d).mpr (Or.inl there)
  rcases stored with file | dir
  · exact old (Or.inl ((h.files q).symm.trans file))
  · rcases (h.dirs q).mp dir with dir | ⟨above, -⟩
    · exact old (Or.inr dir)
    · exact parentExists_of_chain (fun d above named => (h.dirs d).mpr (Or.inr ⟨Or.inr above, named⟩)) above

/-- Directories may be made where no file is. -/
theorem Made.isTree_iff (h : Made p m m') (tree : m.IsTree) : m'.IsTree ↔ ¬ m.BarsDir p := by
  constructor
  · rintro tree' ⟨named, q, above, file⟩
    have file : m'.hasFile q = true := (h.files q).trans file
    have dir : m'.hasDir p = true := (h.dirs p).mpr (Or.inr ⟨Or.inl rfl, named⟩)
    rcases above with rfl | above
    · cases (tree'.single q file).symm.trans dir
    · exact tree'.leaf q p file above (Or.inr dir)
  · intro free
    have barred {q r : Place} (file : m.hasFile q = true) (above : q = r ∨ q.Above r)
        (made : (r = p ∨ r.Above p) ∧ r.isTop = false) : m.BarsDir p := by
      refine ⟨?_, q, ?_, file⟩
      · rcases made with ⟨rfl | upper, named⟩
        · exact named
        · exact upper.not_isTop
      · rcases made.1 with rfl | upper
        · exact above
        · refine Or.inr ?_
          rcases above with rfl | above
          · exact upper
          · exact above.trans upper
    refine ⟨h.rooted tree.rooted, fun q file => Bool.eq_false_iff.mpr fun dir => ?_, fun q r file below stored => ?_⟩
    · have file := (h.files q).symm.trans file
      rcases (h.dirs q).mp dir with dir | made
      · cases (tree.single q file).symm.trans dir
      · exact free (barred file (Or.inl rfl) made)
    · have file := (h.files q).symm.trans file
      rcases stored with file' | dir
      · exact tree.leaf q r file below (Or.inl ((h.files r).symm.trans file'))
      · rcases (h.dirs r).mp dir with dir | made
        · exact tree.leaf q r file below (Or.inr dir)
        · exact free (barred file (Or.inr below) made)

inductive Change (m : Memory) (collides : Prop) (m' : Memory) : Prop where
  | less (calm : ¬ collides) (less : m'.Less m)
  | filed {m₁ : Memory} {p : Place} (less : m₁.Less m) (filed : Filed p m₁ m') (when : collides ↔ m₁.BarsFile p)
  | made {p : Place} (made : Made p m m') (when : collides ↔ m.BarsDir p)

variable {collides : Prop}

theorem Change.rooted (h : Change m collides m') (rooted : m.Rooted) : m'.Rooted := by
  cases h with
  | less _ less => exact less.rooted rooted
  | filed less filed => exact filed.rooted (less.rooted rooted)
  | made made => exact made.rooted rooted

theorem Change.isTree_iff (h : Change m collides m') (tree : m.IsTree) : m'.IsTree ↔ ¬ collides := by
  cases h with
  | less calm less => exact iff_of_true (less.isTree tree) calm
  | filed less filed when => exact (filed.isTree_iff (less.isTree tree)).trans (not_congr when.symm)
  | made made when => exact (made.isTree_iff tree).trans (not_congr when.symm)

/-! ## Operations -/

theorem Less.of_same (files : ∀ q, m'.hasFile q = m.hasFile q) (dirs : m'.dirs = m.dirs) : m'.Less m :=
  ⟨fun q file => (files q).symm.trans file, hasDir_of_dirs dirs⟩

theorem hasFile_of_get? {q : Place} (same : m'.get? q = m.get? q) : m'.hasFile q = m.hasFile q := by
  rw [hasFile, same, hasFile]

/-- A write finds its file or does nothing. -/
theorem hasFile_write (m : Memory) (h : Place) (bs : Bytes) (q : Place) :
    (m.write h bs).2.hasFile q = m.hasFile q := by
  by_cases here : q = h
  · subst here
    unfold write
    simp only [get?_disarm]
    split
    · rfl
    · rename_i old found
      split <;> simp [hasFile, found]
  · exact hasFile_of_get? (write_get? m bs here)

theorem less_erase (m : Memory) (p : Place) : (m.erase p).Less m := by
  refine ⟨fun q file => ?_, fun _ => rfl⟩
  rw [hasFile, get?_erase] at file
  split at file
  · cases file
  · exact file

theorem hasFile_set (p q : Place) (bs : Bytes) : (m.set p bs).hasFile q = true ↔ q = p ∨ m.hasFile q = true := by
  rw [hasFile, get?_set]
  by_cases here : q = p <;> simp [here, hasFile]

/-- Storing a file where its directory is. -/
theorem filed_set (rooted : m.Rooted) (parent : m.parentExists p = true) (bs : Bytes) : Filed p m (m.set p bs) := by
  refine ⟨fun q => hasFile_set p q bs, fun q => ⟨Or.inl, ?_⟩⟩
  rintro (dir | ⟨above, named⟩)
  · exact dir
  · have up := Place.parent?_of_not_isTop above.not_isTop
    have there := parentExists_iff.mp parent _ up
    rcases (Place.above_iff_of_parent? up).mp above with rfl | higher
    · exact there named
    · exact rooted.hasDir_of_above (Or.inr (there higher.not_isTop)) higher named

theorem filed_put (m : Memory) (p : Path) (bs : Bytes) : Filed p.place m (m.put p bs) := by
  simp only [put]
  generalize p.place = p
  cases up : p.parent? with
  | none =>
    have alone (q : Place) : ¬ q.Above p := fun above => by
      cases up.symm.trans (Place.parent?_of_not_isTop above.not_isTop)
    refine ⟨fun q => ?_, fun q => ⟨Or.inl, fun h => h.resolve_right fun above => alone q above.1⟩⟩
    exact hasFile_set p q bs
  | some d =>
    refine ⟨fun q => hasFile_set (m := m.addDirs d) p q bs, fun q => ?_⟩
    rw [Place.above_iff_of_parent? up, ← Place.mem_ancestors_iff]
    exact hasDir_addDirs m d q

theorem made_addDirs (m : Memory) (p : Place) : Made p m (m.addDirs p) :=
  ⟨fun _ => rfl, fun q => by rw [hasDir_addDirs, Place.mem_ancestors_iff]⟩

namespace Client

/-- Whether a call goes through, where a file and a directory come together or an entry comes to lie below a file. -/
def Collides (c : Client) : Call → Prop
  | .put p _ => c.disk.BarsFile p.place
  | .create p => (c.ask (.create p)).1 = .result (.ok ()) ∧ c.disk.BarsFile p.place
  | .createDirAll p => (c.ask (.createDirAll p)).1 = .result (.ok ()) ∧ c.disk.BarsDir p.place
  | .rename source target =>
    (c.ask (.rename source target)).1 = .result (.ok ()) ∧ (c.disk.erase source.place).BarsFile target.place
  | _ => False

theorem change_ask {c : Client} (rooted : c.disk.Rooted) (call : Call) :
    Change c.disk (c.Collides call) (c.ask call).2.disk := by
  have same {m' : Memory} (files : ∀ q, m'.get? q = c.disk.get? q) (dirs : m'.dirs = c.disk.dirs) :
      Change c.disk False m' := .less id (.of_same (fun q => hasFile_of_get? (files q)) dirs)
  have onFile (file : Nat) {work : Place → Answer × Client}
      (works : ∀ h, Change c.disk False (work h).2.disk) : Change c.disk False (c.onFile file work).2.disk := by
    unfold Client.onFile
    split
    · exact works _
    · exact .less id (.refl _)
  cases call with
  | put p bs => exact .filed (.refl _) (filed_put c.disk p bs) Iff.rfl
  | contents p => exact same (fun _ => rfl) rfl
  | listing => exact same (fun _ => rfl) rfl
  | counts => exact same (fun _ => rfl) rfl
  | arm f => exact same (fun _ => rfl) rfl
  | entryExists p => exact same (fun _ => rfl) rfl
  | canonicalKey p => exact same (fun _ => rfl) rfl
  | read p => exact same (read_get? c.disk p) (read_dirs c.disk p)
  | syncDir p => exact same (syncDir_get? c.disk p) (syncDir_dirs c.disk p)
  | flush file => exact onFile file fun h => same (fun _ => rfl) rfl
  | close file => exact onFile file fun h => same (fun _ => rfl) rfl
  | sync file => exact onFile file fun h => same (sync_get? c.disk h) (sync_dirs c.disk h)
  | write file bs =>
    exact onFile file fun h => .less id (.of_same (hasFile_write c.disk h bs) (write_dirs c.disk h bs))
  | removeFile p =>
    change Change c.disk False (c.disk.removeFile p).2
    unfold removeFile
    split
    · exact .less id (.refl _)
    · exact .less id (less_erase _ _)
  | create p =>
    simp only [Collides, ask, opened, FileSystem.create, Memory.create]
    cases parent : c.disk.parentExists p.place with
    | false => exact .less (fun h => by cases h.1) (.refl _)
    | true => exact .filed (.refl _) (filed_set rooted parent []) (and_iff_right rfl)
  | createDirAll p =>
    simp only [Collides, ask, after, FileSystem.createDirAll, Memory.createDirAll]
    rcases guarded_cases c.disk .createDir fun m => ((.ok (), m.addDirs p.place) : Except IoError Unit × Memory) with
      ⟨-, ran⟩ | ⟨-, ran⟩ <;> rw [ran]
    · exact .less (fun h => by cases h.1) (.of_same (fun _ => rfl) rfl)
    · exact .made (made_addDirs _ _) (and_iff_right rfl)
  -- Two changes in one: the source is taken away, and a file is put at the target.
  | rename source target =>
    have gone := less_erase c.disk source.place
    simp only [Collides, ask, after, FileSystem.rename, Memory.rename]
    rcases guarded_cases c.disk .rename _ with ⟨-, ran⟩ | ⟨-, ran⟩ <;> rw [ran]
    · exact .less (fun h => by cases h.1) (.of_same (fun _ => rfl) rfl)
    · cases parent : c.disk.parentExists target.place with
      | false => exact .less (fun h => by cases h.1) (.refl _)
      | true =>
        cases found : c.disk.get? source.place with
        | none => exact .less (fun h => by cases h.1) (.refl _)
        | some bs =>
          have filed := filed_set (gone.rooted rooted) (p := target.place) parent bs
          exact .filed gone ⟨filed.files, filed.dirs⟩ (and_iff_right rfl)

/-! ## Runs -/

theorem run_append (c : Client) (xs ys : List Call) : (c.run (xs ++ ys)).2 = ((c.run xs).2.run ys).2 := by
  induction xs generalizing c with
  | nil => rfl
  | cons call xs ih => exact ih _

/-- Whatever is asked, what is stored lies in stored directories. -/
theorem rooted_run {c : Client} (rooted : c.disk.Rooted) (calls : List Call) : (c.run calls).2.disk.Rooted := by
  induction calls generalizing c with
  | nil => exact rooted
  | cons call calls ih => exact ih ((change_ask rooted call).rooted rooted)

/-- Calls none of which collides leave a tree. -/
theorem isTree_run {c : Client} (tree : c.disk.IsTree) {calls : List Call}
    (apart : ∀ xs call, xs ++ [call] <+: calls → ¬ (c.run xs).2.Collides call) : (c.run calls).2.disk.IsTree := by
  induction calls generalizing c with
  | nil => exact tree
  | cons call calls ih =>
    have first : ¬ c.Collides call := apart [] call ⟨calls, rfl⟩
    refine ih (((change_ask tree.rooted call).isTree_iff tree).mpr first) fun xs later within => ?_
    exact apart (call :: xs) later (List.cons_prefix_cons.mpr ⟨rfl, within⟩)

end Client

/-! ## From the start -/

theorem isTree_empty (namespaceId : String) : IsTree { namespaceId } := by
  have nothing (p : Place) : ¬ Stores { namespaceId } p := by rintro (file | dir) <;> contradiction
  exact ⟨fun p stored => absurd stored (nothing p), fun p file => absurd (Or.inl file) (nothing p),
    fun p _ file => absurd (Or.inl file) (nothing p)⟩

/-- **A file system in memory is a tree until a file meets a directory.** Whatever is asked of it from the start, by
whatever paths, with whatever faults, the directory of every stored entry is the root or stored. It stays a tree on the
way if and only if no call goes through that stores a file where a directory is, or where something lies below, or makes
an entry below a file, or a directory where a file is. -/
theorem a_tree_until_a_file_meets_a_directory (namespaceId : String) (calls : List Call) :
    let c₀ : Client := ⟨{ namespaceId }, []⟩
    (c₀.run calls).2.disk.Rooted ∧
      ((∀ xs, xs <+: calls → (c₀.run xs).2.disk.IsTree) ↔
        ∀ xs call, xs ++ [call] <+: calls → ¬ (c₀.run xs).2.Collides call) := by
  intro c₀
  have tree : c₀.disk.IsTree := isTree_empty namespaceId
  refine ⟨Client.rooted_run tree.rooted calls, fun trees xs call within => ?_, fun apart xs within => ?_⟩
  · have before := trees xs ((List.prefix_append xs [call]).trans within)
    have after := trees (xs ++ [call]) within
    rw [Client.run_append] at after
    exact ((Client.change_ask before.rooted call).isTree_iff before).mp after
  · exact Client.isTree_run tree fun ys call begins => apart ys call (begins.trans within)

/-- A file can be opened for writing where the directory of another one is. That place is a file and a directory then,
and there is a file below it. -/
theorem a_file_is_made_of_a_directory :
    let c : Client := (Client.run ⟨{ namespaceId := "0" }, []⟩ [.put ⟨"/d/v"⟩ []]).2
    let (answer, c') := c.ask (.create ⟨"/d"⟩)
    answer = .result (.ok ()) ∧ c.disk.hasDir ⟨true, ["d"]⟩ = true ∧ c'.disk.hasDir ⟨true, ["d"]⟩ = true ∧
      c'.disk.hasFile ⟨true, ["d"]⟩ = true ∧ c'.disk.hasFile ⟨true, ["d", "v"]⟩ = true ∧ ¬ c'.disk.IsTree :=
  ⟨rfl, rfl, rfl, rfl, rfl, fun tree => nomatch tree.single ⟨true, ["d"]⟩ rfl⟩

end Disk.Memory

/-! ## The tree of a host -/

namespace Disk

variable {F H : Type}

def Operation.paths : Operation H → List Path
  | read p | create p | createDirAll p | removeFile p | entryExists p | syncDir p => [p]
  | rename source target => [source, target]
  | append _ _ | flush _ | sync _ | close _ => []

def Operation.after [FileSystem F H] (disk : F) : Operation H → F
  | read p => (FileSystem.read disk p).2
  | create p => (FileSystem.create disk p).2
  | append h bs => (FileSystem.append disk h bs).2
  | flush h => (FileSystem.flush disk h).2
  | sync h => (FileSystem.sync disk h).2
  | close h => FileSystem.close disk h
  | createDirAll p => (FileSystem.createDirAll disk p).2
  | rename source target => (FileSystem.rename disk source target).2
  | removeFile p => (FileSystem.removeFile disk p).2
  | entryExists p => (FileSystem.entryExists disk p).2
  | syncDir p => (FileSystem.syncDir disk p).2

namespace Host

variable {h h' : Host} {t d dir : Trail} {name : String} {n : Node} {p : Path}

/-- Whether every entry lies in a directory, and that one too, up to the root. -/
def IsTree (h : Host) : Prop := ∀ t n, h.node? t = some n → h.Stands t n

theorem Stands.of_same (stands : h.Stands t n) (same : ∀ d, d <+: t → h'.node? d = h.node? d) : h'.Stands t n :=
  ⟨(same t (List.prefix_refl t)).trans stands.1, fun d below other => (same d below).trans (stands.2 d below other)⟩

theorem IsTree.of_nodes (tree : h.IsTree) (same : h'.nodes = h.nodes) : h'.IsTree := fun t n found =>
  (tree t n ((node?_of_nodes same t).symm.trans found)).of_same fun d _ => node?_of_nodes same d

/-- A new entry in a directory. -/
theorem IsTree.setNode (tree : h.IsTree) (stands : h.Stands dir .dir) (vacant : h.node? (dir ++ [name]) = none)
    (n : Node) : (h.setNode (dir ++ [name]) n).IsTree := by
  intro t m found
  have kept {d : Trail} (other : d ≠ dir ++ [name]) : (h.setNode (dir ++ [name]) n).node? d = h.node? d := by
    rw [node?_setNode, if_neg other]
  by_cases same : t = dir ++ [name]
  · subst same
    refine ⟨found, fun d below other => ?_⟩
    rw [kept other]
    exact (stands.prefix_dir ((List.prefix_concat_iff.mp below).resolve_left other)).1
  · have before := tree t m ((kept same).symm.trans found)
    refine before.of_same fun d below => kept fun here => ?_
    subst here
    cases vacant.symm.trans (before.2 _ below (Ne.symm same))

/-- An entry that is taken away, with nothing below it. -/
theorem IsTree.dropNode (tree : h.IsTree) (other : h.node? (dir ++ [name]) ≠ some .dir) :
    (h.dropNode (dir ++ [name])).IsTree := by
  intro t m found
  rw [node?_dropNode] at found
  split at found
  · cases found
  · rename_i here
    have before := tree t m found
    refine before.of_same fun d below => ?_
    rw [node?_dropNode, if_neg fun same => ?_]
    subst same
    exact other (before.2 _ below (Ne.symm here))

/-- An entry that is moved into a directory, with all that is below it. -/
theorem IsTree.moveTree (tree : h.IsTree) {source : Trail} (named : source ≠ []) (stands : h.Stands dir .dir)
    (inside : ¬ source <+: dir ++ [name]) (above : ¬ dir ++ [name] <+: source) :
    (h.moveTree source (dir ++ [name])).IsTree := by
  have kept {d : Trail} (out : ¬ dir ++ [name] <+: d) (left : ¬ source <+: d) :
      (h.moveTree source (dir ++ [name])).node? d = h.node? d := by
    rw [node?_moveTree h named out, if_neg left]
  have landed (rest : Trail) : (h.moveTree source (dir ++ [name])).node? (dir ++ [name] ++ rest) =
      h.node? (source ++ rest) := by
    refine node?_moveTree_onto h named (by simp) rest fun below => ?_
    rcases List.prefix_or_prefix_of_prefix below (List.prefix_append source rest) with below | below
    · exact above below
    · exact inside below
  intro t m found
  by_cases moved : dir ++ [name] <+: t
  · obtain ⟨rest, rfl⟩ := moved
    refine ⟨found, fun d below other => ?_⟩
    by_cases further : dir ++ [name] <+: d
    · obtain ⟨rest', rfl⟩ := further
      rw [landed] at found ⊢
      have below : rest' <+: rest := (List.prefix_append_right_inj _).mp below
      refine (tree _ m found).2 _ ((List.prefix_append_right_inj _).mpr below) fun same => other ?_
      rw [List.append_cancel_left same]
    · have higher : d <+: dir := by
        rcases List.prefix_or_prefix_of_prefix below (List.prefix_append (dir ++ [name]) rest) with below | below
        · exact (List.prefix_concat_iff.mp below).resolve_left fun same => further (same ▸ List.prefix_refl d)
        · exact absurd below further
      rw [kept further fun below => inside (below.trans (higher.trans (List.prefix_append dir [name])))]
      exact (stands.prefix_dir higher).1
  · have left : ¬ source <+: t := fun below => by
      rw [node?_moveTree h named moved, if_pos below] at found
      cases found
    refine (tree t m ((kept moved left).symm.trans found)).of_same fun d below => ?_
    exact kept (fun onto => moved (onto.trans below)) fun onto => left (onto.trans below)

/-- The free name that a walk arrives at is in a directory. -/
theorem Arrives.vacant_in {making slash : Bool} {links : Nat} {here : Trail} {steps : List String}
    (arrives : h.Arrives making links here slash steps (.vacant t)) (stands : h.Stands here .dir) :
    ∃ dir name, t = dir ++ [name] ∧ h.Stands dir .dir ∧ h.node? (dir ++ [name]) = none := by
  have within : h.Within h := fun _ _ stands => stands.1
  generalize reached : Found.vacant t = found at arrives
  induction arrives with
  | directory | entry => cases reached
  | vacant walk _ _ none =>
    cases reached
    exact ⟨_, _, rfl, (walk.within within stands).2, none⟩
  | link walk _ _ _ _ ih => exact ih (((walk.within within stands).2).start _) reached

section

variable (absolute : p.isAbsolute = true)

include absolute

theorem stands_of_lastStep {last : LastStep} (reached : h.lastStep p = .ok last) : h.Stands last.dir .dir :=
  (lastStep_within absolute (fun _ _ stands => stands.1 : h.Within h) reached).2

theorem IsTree.create (tree : h.IsTree) : (h.create p).2.IsTree := by
  unfold Host.create
  split
  · exact tree
  · exact tree.of_nodes rfl
  · exact tree
  · rename_i t located
    obtain ⟨dir, name, rfl, stands, vacant⟩ := ((locate_iff absolute).mp located).2.vacant_in h.stands_nil
    exact (tree.setNode stands vacant (.file h.fresh)).of_nodes rfl

theorem IsTree.makeDir (tree : h.IsTree) : (h.makeDir p).2.IsTree := by
  rcases h.makeDir_cases p with ⟨e, made⟩ | ⟨dir, n, slash, reached, -, vacant, made⟩ <;> rw [made]
  · exact tree
  · exact tree.setNode (stands_of_lastStep absolute reached) vacant .dir

theorem IsTree.makeDirs (tree : h.IsTree) (depth : Nat) : (h.makeDirs depth p).2.IsTree := by
  induction depth generalizing p with
  | zero => exact tree
  | succ depth ih =>
    have made {h h' : Host} {a : Except IoError Unit} (made : h.makeDir p = (a, h')) (tree : h.IsTree) : h'.IsTree := by
      have after := tree.makeDir absolute
      rwa [made] at after
    have raised {h' : Host} {a : Except IoError Unit} {up : Path} (parent : p.parent? = some up)
        (above : h.makeDirs depth up = (a, h')) : h'.IsTree := by
      have after := ih (absolute_up absolute parent)
      rwa [above] at after
    generalize e : h.makeDirs (depth + 1) p = r
    have way := h.making depth absolute
    rw [e] at way
    cases way with
    | made first => exact made first tree
    | refused | topless => exact tree
    | blocked _ _ parent above => exact raised parent above
    | below _ _ parent above last => exact made last (raised parent above)
    | again _ _ parent above => exact raised parent above

theorem IsTree.createDirAll (tree : h.IsTree) : (h.createDirAll p).2.IsTree := by
  have after := tree.makeDirs absolute (p.text.length + 1)
  unfold Host.createDirAll
  rcases made : h.makeDirs (p.text.length + 1) p with ⟨e | ⟨⟩, h'⟩ <;> rw [made] at after <;> simp only []
  · exact after
  · split <;> exact after

omit absolute in
theorem IsTree.removeFile (tree : h.IsTree) : (h.removeFile p).2.IsTree := by
  rcases h.removeFile_cases p with same | ⟨dir, n, slash, -, other, removed⟩
  · rw [same]
    exact tree
  · rw [removed]
    exact tree.dropNode other

theorem IsTree.rename {source : Path} (tree : h.IsTree) : (h.rename source p).2.IsTree := by
  rcases h.rename_cases source p with
    same | ⟨dir, n, slash, dir', n', slash', m, -, reached, -, inside, above, -, moved⟩
  · rw [same]
    exact tree
  · rw [moved]
    exact tree.moveTree (by simp) (stands_of_lastStep absolute reached) inside above

end

theorem isTree_empty : IsTree {} := by
  intro t n found
  unfold node? at found
  split at found
  · rename_i top
    cases List.isEmpty_iff.mp top
    cases found
    exact stands_nil _
  · cases found

/-- Every operation leaves the tree of a host a tree. -/
theorem IsTree.after (tree : h.IsTree) {o : Operation Nat} (absolute : ∀ p ∈ o.paths, p.isAbsolute = true) :
    IsTree (o.after h) := by
  cases o with
  | read | entryExists | syncDir => exact tree
  | create p => exact tree.create (absolute p List.mem_cons_self)
  | createDirAll p => exact tree.createDirAll (absolute p List.mem_cons_self)
  | removeFile p => exact tree.removeFile
  | rename source target => exact tree.rename (absolute target (by simp [Operation.paths]))
  | append handle bs => exact tree.of_nodes (write_nodes h handle bs)
  | flush handle => exact tree.of_nodes (flushed_nodes h handle)
  | sync handle => exact tree.of_nodes (flushed_nodes h handle)
  | close handle => exact tree.of_nodes (close_nodes h handle)

/-- A host that is a tree stays one, whatever is asked of it by absolute paths. -/
theorem a_host_stays_a_tree (tree : h.IsTree) {os : List (Operation Nat)}
    (absolute : ∀ o ∈ os, ∀ p ∈ o.paths, p.isAbsolute = true) : (os.foldl Operation.after h).IsTree := by
  induction os generalizing h with
  | nil => exact tree
  | cons o os ih =>
    exact ih (tree.after (absolute o List.mem_cons_self)) fun o mem => absolute o (List.mem_cons_of_mem _ mem)

example : IsTree ([.createDirAll ⟨"/d"⟩, .create ⟨"/d/v"⟩, .create ⟨"/d"⟩].foldl Operation.after ({} : Host)) :=
  a_host_stays_a_tree isTree_empty (by decide)

end Host

end Disk

end DurableValue
