/-
  DurableValue.Proofs.Disk.Memory — what each operation of the file system in memory does to the stored files, fault
  or no fault.

  A file is changed only by an operation that names its place: `create` empties it, `write` and `append` add to it,
  `rename` puts it in another file's place, `removeFile` takes it away. The lemmas say so in one spelling, by `get?`
  (`create_get?`, `write_get?`, `rename_cases`, `removeFile_get?`), and later proofs use them in place of the lists
  behind it.
-/
import DurableValue.Disk.Memory

namespace DurableValue.Disk

/-- A table without some of its keys. -/
theorem lookup_filter {α β : Type} [BEq α] [LawfulBEq α] (keep : α → Bool) (l : List (α × β)) (k : α) :
    (l.filter fun e => keep e.1).lookup k = if keep k then l.lookup k else none := by
  induction l with
  | nil => simp
  | cons e l ih =>
    obtain ⟨k', v⟩ := e
    by_cases same : k = k'
    · subst same
      cases kept : keep k <;> simp [kept, ih]
    · have other : (k == k') = false := beq_eq_false_iff_ne.mpr same
      cases kept : keep k' <;> simp [kept, List.lookup_cons, other, ih]

namespace Memory

variable (m : Memory)

/-! ## The tree -/

theorem lookup_without (fs : List (Place × Bytes)) (p q : Place) :
    (fs.filter fun f => f.1 != p).lookup q = if q = p then none else fs.lookup q := by
  rw [lookup_filter (· != p)]
  by_cases same : q = p <;> simp [same]

@[simp] theorem get?_erase (p q : Place) : (m.erase p).get? q = if q = p then none else m.get? q :=
  lookup_without m.files p q

@[simp] theorem get?_set (p q : Place) (bs : Bytes) : (m.set p bs).get? q = if q = p then some bs else m.get? q := by
  have h := get?_erase m p q
  by_cases e : q = p
  · subst e; simp [get?, set]
  · have hne : (q == p) = false := by simpa using e
    rw [if_neg e] at h ⊢
    simpa [get?, set, List.lookup_cons, hne] using h

@[simp] theorem get?_addDirs (p q : Place) : (m.addDirs p).get? q = m.get? q := rfl

@[simp] theorem get?_disarm (f : Fault) (q : Place) : (m.disarm f).get? q = m.get? q := rfl

/-- Making a directory makes those above it too, and no other. -/
theorem hasDir_addDirs (p q : Place) : (m.addDirs p).hasDir q = true ↔ m.hasDir q = true ∨ q ∈ p.ancestors := by
  have grown (as ds : List Place) :
      q ∈ as.foldl (fun ds d => if ds.contains d then ds else d :: ds) ds ↔ q ∈ ds ∨ q ∈ as := by
    induction as generalizing ds with
    | nil => simp
    | cons a as ih =>
      rw [List.foldl_cons, ih, List.mem_cons]
      by_cases h : a ∈ ds
      · have here : ds.contains a = true := List.contains_iff_mem.mpr h
        rw [if_pos here]
        constructor
        · rintro (hq | hq)
          · exact Or.inl hq
          · exact Or.inr (Or.inr hq)
        · rintro (hq | rfl | hq)
          · exact Or.inl hq
          · exact Or.inl h
          · exact Or.inr hq
      · have missing : ¬ ds.contains a = true := fun e => h (List.contains_iff_mem.mp e)
        rw [if_neg missing, List.mem_cons]
        constructor
        · rintro ((rfl | hq) | hq)
          · exact Or.inr (Or.inl rfl)
          · exact Or.inl hq
          · exact Or.inr (Or.inr hq)
        · rintro (hq | rfl | hq)
          · exact Or.inl (Or.inr hq)
          · exact Or.inl (Or.inl rfl)
          · exact Or.inr hq
  rw [hasDir, hasDir, List.contains_iff_mem, List.contains_iff_mem]
  exact grown _ _

/-! ## Faults -/

theorem isArmed_disarm (f g : Fault) : (m.disarm f).isArmed g = (m.isArmed g && g != f) := by
  simp only [isArmed, disarm]
  rw [Bool.eq_iff_iff]
  simp

/-- A guarded operation either spends its fault and does nothing else, or runs. -/
theorem guarded_cases {α : Type} (f : Fault) (run : Memory → Except IoError α × Memory) :
    (m.isArmed f = true ∧ m.guarded f run = (.error f.error, m.disarm f)) ∨
      (m.isArmed f = false ∧ m.guarded f run = run m) := by
  unfold guarded
  cases h : m.isArmed f
  · exact Or.inr ⟨rfl, by simp⟩
  · exact Or.inl ⟨rfl, by simp⟩

theorem guarded_unarmed {α : Type} (h : m.armed = []) (f : Fault)
    (run : Memory → Except IoError α × Memory) : m.guarded f run = run m := by
  rcases m.guarded_cases f run with ⟨armed, -⟩ | ⟨-, e⟩
  · rw [isArmed, h] at armed
    cases armed
  · exact e

theorem guarded_get? {α : Type} {f : Fault} {run : Memory → Except IoError α × Memory} {q : Place}
    (h : (run m).2.get? q = m.get? q) : (m.guarded f run).2.get? q = m.get? q := by
  rcases guarded_cases m f run with ⟨-, e⟩ | ⟨-, e⟩
  · rw [e]; rfl
  · rw [e, h]

theorem guarded_dirs {α : Type} {f : Fault} {run : Memory → Except IoError α × Memory}
    (h : (run m).2.dirs = m.dirs) : (m.guarded f run).2.dirs = m.dirs := by
  rcases guarded_cases m f run with ⟨-, e⟩ | ⟨-, e⟩
  · rw [e]; rfl
  · rw [e, h]

theorem guarded_namespaceId {α : Type} {f : Fault} {run : Memory → Except IoError α × Memory}
    (h : (run m).2.namespaceId = m.namespaceId) : (m.guarded f run).2.namespaceId = m.namespaceId := by
  rcases guarded_cases m f run with ⟨-, e⟩ | ⟨-, e⟩
  · rw [e]; rfl
  · rw [e, h]

/-! ## Operations that change no file -/

@[simp] theorem read_get? (p : Path) (q : Place) : (m.read p).2.get? q = m.get? q := by
  unfold read
  refine guarded_get? _ ?_
  split <;> rfl

@[simp] theorem createDirAll_get? (p : Path) (q : Place) : (m.createDirAll p).2.get? q = m.get? q :=
  guarded_get? m rfl

@[simp] theorem sync_get? (h q : Place) : (m.sync h).2.get? q = m.get? q := guarded_get? m rfl

@[simp] theorem syncDir_get? (p : Path) (q : Place) : (m.syncDir p).2.get? q = m.get? q := guarded_get? m rfl

/-! ## Directories -/

theorem hasDir_of_dirs {m m' : Memory} (h : m'.dirs = m.dirs) (q : Place) : m'.hasDir q = m.hasDir q := by
  rw [hasDir, h, hasDir]

@[simp] theorem read_dirs (p : Path) : (m.read p).2.dirs = m.dirs := by
  unfold read
  refine guarded_dirs _ ?_
  split <;> rfl

@[simp] theorem create_dirs (p : Path) : (m.create p).2.dirs = m.dirs := by
  simp only [create]
  split <;> rfl

@[simp] theorem write_dirs (h : Place) (bs : Bytes) : (m.write h bs).2.dirs = m.dirs := by
  unfold write
  simp only []
  split
  · rfl
  · split <;> rfl

@[simp] theorem sync_dirs (h : Place) : (m.sync h).2.dirs = m.dirs := guarded_dirs m rfl

@[simp] theorem rename_dirs (p q : Path) : (m.rename p q).2.dirs = m.dirs := by
  refine guarded_dirs m ?_
  simp only []
  split
  · rfl
  · split <;> rfl

@[simp] theorem removeFile_dirs (p : Path) : (m.removeFile p).2.dirs = m.dirs := by
  unfold removeFile
  split <;> rfl

@[simp] theorem syncDir_dirs (p : Path) : (m.syncDir p).2.dirs = m.dirs := guarded_dirs m rfl

/-- The directories that are there after some were made. -/
theorem createDirAll_dirs {p : Path} {q : Place} (h : q ∉ p.place.ancestors) :
    (m.createDirAll p).2.hasDir q = m.hasDir q := by
  unfold createDirAll
  rcases guarded_cases m .createDir fun m => (.ok (), m.addDirs p.place) with ⟨-, e⟩ | ⟨-, e⟩ <;> rw [e]
  · rfl
  · rw [Bool.eq_iff_iff, hasDir_addDirs]
    simp [h]

/-! ## Operations on a file -/

theorem create_get? {p : Path} {q : Place} (h : q ≠ p.place) : (m.create p).2.get? q = m.get? q := by
  simp only [create]
  split
  · simp [h]
  · rfl

theorem create_ok {p : Path} {h : Place} (ok : (m.create p).1 = .ok h) :
    h = p.place ∧ (m.create p).2.get? p.place = some [] := by
  simp only [create] at ok ⊢
  split at ok
  · rename_i hp
    cases ok
    simp [hp]
  · cases ok

theorem write_get? {h q : Place} (bs : Bytes) (hq : q ≠ h) : (m.write h bs).2.get? q = m.get? q := by
  unfold write
  simp only []
  split
  · rfl
  · split <;> simp [hq]

theorem write_ok {h : Place} {bs : Bytes} {n : Nat} (ok : (m.write h bs).1 = .ok n) :
    ∃ old, m.get? h = some old ∧ (m.write h bs).2.get? h = some (old ++ bs) := by
  unfold write at ok ⊢
  simp only [get?_disarm] at ok ⊢
  split at ok
  · cases ok
  · rename_i old ho
    split at ok
    · cases ok
    · rename_i hn
      exact ⟨old, ho, by simp [hn]⟩

theorem append_ok {h : Place} {bs : Bytes} (ok : (m.append h bs).1 = .ok ()) :
    ∃ old, m.get? h = some old ∧ (m.append h bs).2.get? h = some (old ++ bs) := by
  change Except.map (fun _ => ()) (m.write h bs).1 = .ok () at ok
  rcases wrote : (m.write h bs).1 with e | n <;> rw [wrote] at ok
  · cases ok
  · exact m.write_ok wrote

theorem append_unarmed {h : Place} {bs old : Bytes} (held : m.get? h = some old) (unarmed : m.isArmed .write = false) :
    m.append h bs = (.ok (), (m.disarm .write).set h (old ++ bs)) := by
  simp only [append, write, get?_disarm, held, unarmed]
  rfl

theorem append_armed {h : Place} {bs old : Bytes} (held : m.get? h = some old) (armed : m.isArmed .write = true) :
    m.append h bs =
      (.error Fault.write.error, (m.disarm .write).set h (old ++ bs.take (bs.length / 2))) := by
  simp only [append, write, get?_disarm, held, armed]
  rfl

/-- A rename that fails changes no file; one that succeeds moves the source's bytes. -/
theorem rename_cases (p q : Path) :
    ((∃ e, (m.rename p q).1 = .error e) ∧ ∀ x, (m.rename p q).2.get? x = m.get? x) ∨
      ((m.rename p q).1 = .ok () ∧ ∃ bs, m.get? p.place = some bs ∧
        ∀ x, (m.rename p q).2.get? x = if x = q.place then some bs else if x = p.place then none else m.get? x) := by
  unfold rename
  rcases guarded_cases m .rename _ with ⟨-, e⟩ | ⟨-, e⟩
  · rw [e]; exact Or.inl ⟨⟨_, rfl⟩, fun _ => rfl⟩
  · rw [e]
    simp only []
    split
    · exact Or.inl ⟨⟨_, rfl⟩, fun _ => rfl⟩
    · split
      · exact Or.inl ⟨⟨_, rfl⟩, fun _ => rfl⟩
      · rename_i bs hb
        refine Or.inr ⟨rfl, bs, hb, fun x => ?_⟩
        have h := get?_set (m.erase p.place) q.place x bs
        rw [get?_erase] at h
        exact h

theorem removeFile_get? {p : Path} {q : Place} (h : q ≠ p.place) : (m.removeFile p).2.get? q = m.get? q := by
  unfold removeFile
  split
  · rfl
  · simp [h]

end Memory

end DurableValue.Disk
