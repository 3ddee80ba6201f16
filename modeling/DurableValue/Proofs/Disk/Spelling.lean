/-
  DurableValue.Proofs.Disk.Spelling — every spelling of a path.

  An absolute path is normalized to the text of its place, also when it was put together from another one and a
  relative rest. The file system in memory goes by places alone, and its keys follow the places too, each below a root
  that no other instance has.

  Proved:
  - `normalize_eq`, `place_join`: what normalizing and joining do to a place.
  - `Client.run_respell`: two spellings of a place cannot be told apart by any sequence of calls, and those of two
    places can (`interchangeable_iff`).
  - `Memory.components_canonicalKey`: the key of a place, below the root of the instance.
  - `Memory.every_spelling_is_one_file`: all of that of two paths and two instances.
-/
import DurableValue.Proofs.Disk.Key
import DurableValue.Proofs.Disk.Memory

namespace DurableValue

namespace Path

variable {p q r : Path}

/-! ## Paths put together -/

theorem pieces_slash (cs ds : List Char) : pieces (cs ++ '/' :: ds) = pieces cs ++ pieces ds := by
  induction cs with
  | nil => simp [pieces]
  | cons c cs ih =>
    by_cases slash : c = '/'
    · simp [pieces, slash, ih]
    · cases first : pieces cs with
      | nil => exact absurd first (pieces_ne_nil cs)
      | cons piece ps => simp [pieces, slash, ih, first]

theorem steps_append (ps qs : List (List Char)) : steps (ps ++ qs) = steps ps ++ steps qs := List.filterMap_append

/-- The components of a relative path are its steps, behind a `.` that it may begin with. -/
theorem components_relative (relative : r.isAbsolute = false) : r.components = steps (pieces r.text.toList) ∨
    r.components = .here :: steps (pieces r.text.toList) := by
  unfold components
  split
  · rename_i cs text
    rw [isAbsolute, text] at relative
    cases relative
  · split
    · rename_i ps first
      exact Or.inr (by rw [first]; rfl)
    · exact Or.inl rfl

theorem components_join (absolute : p.isAbsolute = true) (relative : r.isAbsolute = false) :
    (p.join r).components = p.components ++ steps (pieces r.text.toList) := by
  obtain ⟨cs, text⟩ := Disk.Host.text_of_absolute absolute
  rw [components_absolute text, List.cons_append, ← steps_append, join, relative, if_neg Bool.false_ne_true]
  split
  · rename_i ends
    rw [@components_absolute _ (cs ++ r.text.toList) (by rw [String.toList_append, text]; rfl)]
    refine congrArg _ ?_
    -- A slash at the end already parts the two texts; the root has no other piece.
    rcases List.eq_nil_or_concat cs with rfl | ⟨init, c, rfl⟩
    · rfl
    · rw [List.concat_eq_append] at text ⊢
      have slash : c = '/' := by
        rcases ends with none | last
        · rw [none] at text
          cases text
        · rw [text, ← List.cons_append, List.getLast?_concat] at last
          exact Option.some.inj last
      rw [slash, List.append_assoc, List.singleton_append, pieces_slash, pieces_slash, steps_append, List.append_assoc,
        steps_append]
      rfl
  · rw [@components_absolute _ (cs ++ '/' :: r.text.toList)
      (by rw [String.toList_append, String.toList_append, text]; simp), pieces_slash]

/-- A relative path that is read from inside an absolute one goes on from its place. -/
theorem place_join (absolute : p.isAbsolute = true) (relative : r.isAbsolute = false) :
    (p.join r).place = r.components.foldl Place.follow p.place := by
  rw [place, components_join absolute relative, List.foldl_append, ← place]
  rcases components_relative relative with steps | steps <;> rw [steps]
  rfl

theorem absolute_join (absolute : p.isAbsolute = true) (relative : r.isAbsolute = false) :
    (p.join r).isAbsolute = true := by
  obtain ⟨cs, text⟩ := Disk.Host.text_of_absolute absolute
  rw [join, relative, if_neg Bool.false_ne_true]
  split <;> simp [isAbsolute, text]

/-! ## Normal forms -/

theorem place_rooted (absolute : p.isAbsolute = true) : p.place = ⟨true, p.place.names⟩ := by
  obtain ⟨cs, text⟩ := Disk.Host.text_of_absolute absolute
  have rooted : p.place.rooted = true := by
    rw [place_absolute (components_absolute text)]
    exact rooted_foldl_follow rfl _
  rw [← rooted]

/-- A component is taken behind the text of a place as the place takes it. -/
theorem advance_path {names : List String} (proper : ∀ m ∈ names, Proper m) (c : Component)
    (named : ∀ n, c = .name n → Proper n) :
    (Place.path ⟨true, names⟩).advance c = (Place.follow ⟨true, names⟩ c).path := by
  cases c with
  | root => rfl
  | here => rfl
  | up =>
    rcases List.eq_nil_or_concat names with rfl | ⟨init, n, rfl⟩
    · rfl
    · rw [List.concat_eq_append] at proper ⊢
      simp only [advance, pop, Place.parent?_path proper, Option.getD_some, Place.follow, List.dropLast_concat]
  | name n =>
    refine Place.join_path fun m mem => ?_
    rcases List.mem_append.mp mem with mem | mem
    · exact proper m mem
    · exact List.mem_singleton.mp mem ▸ named n rfl

theorem foldl_advance_path (cs : List Component) {names : List String} (proper : ∀ m ∈ names, Proper m)
    (named : ∀ n, .name n ∈ cs → Proper n) :
    cs.foldl advance (Place.path ⟨true, names⟩) = (cs.foldl Place.follow ⟨true, names⟩).path := by
  induction cs generalizing names with
  | nil => rfl
  | cons c cs ih =>
    have own (n : String) (same : c = .name n) : Proper n := named n (same ▸ List.mem_cons_self)
    have rest (n : String) (mem : .name n ∈ cs) : Proper n := named n (List.mem_cons_of_mem _ mem)
    rw [List.foldl_cons, List.foldl_cons, advance_path proper c own]
    have next : ∀ m ∈ (Place.follow ⟨true, names⟩ c).names, Proper m := fun m mem => by
      rcases mem_names_foldl [c] mem with mem | mem
      · exact proper m mem
      · exact own m (List.mem_singleton.mp mem).symm
    have rooted : (Place.follow ⟨true, names⟩ c).rooted = true := rooted_follow rfl c
    generalize Place.follow ⟨true, names⟩ c = here at next rooted ⊢
    obtain ⟨_, names⟩ := here
    cases rooted
    exact ih next rest

/-- An absolute path is normalized to the text of its place. -/
theorem normalize_eq (absolute : p.isAbsolute = true) : p.normalize = p.place.path := by
  obtain ⟨cs, text⟩ := Disk.Host.text_of_absolute absolute
  have components := components_absolute text
  have top : ∀ m ∈ ([] : List String), Proper m := nofun
  rw [place_absolute components, normalize, components]
  exact foldl_advance_path _ top fun n mem => proper_of_mem_steps (slash_not_mem_pieces cs) mem

theorem components_normalize (absolute : p.isAbsolute = true) :
    p.normalize.components = .root :: p.place.names.map .name := by
  rw [normalize_eq absolute, place_rooted absolute]
  exact Place.components_path fun m mem => proper_of_mem_place absolute mem

theorem absolute_normalize (absolute : p.isAbsolute = true) : p.normalize.isAbsolute = true := by
  rw [normalize_eq absolute, place_rooted absolute]
  exact Place.absolute_path _

theorem foldl_follow_names (here : Place) (names : List String) :
    (names.map .name).foldl Place.follow here = { here with names := here.names ++ names } := by
  induction names generalizing here with
  | nil => simp
  | cons n names ih => simp [ih, Place.follow]

/-- The normal form is one more spelling of the same place. -/
theorem place_normalize (absolute : p.isAbsolute = true) : p.normalize.place = p.place := by
  rw [place, components_normalize absolute, List.foldl_cons, foldl_follow_names, place_rooted absolute]
  rfl

theorem normalize_eq_iff (absolute : p.isAbsolute = true) (absolute' : q.isAbsolute = true) :
    p.normalize = q.normalize ↔ p.place = q.place := by
  constructor <;> intro same
  · rw [← place_normalize absolute, same, place_normalize absolute']
  · rw [normalize_eq absolute, same, normalize_eq absolute']

/-- Every name in a place is one that a text can have. -/
theorem proper_of_mem_names {n : String} (mem : n ∈ p.place.names) : Proper n := by
  cases absolute : p.isAbsolute with
  | true => exact proper_of_mem_place absolute mem
  | false =>
    rcases mem_names_foldl p.components mem with mem | mem
    · cases mem
    · refine proper_of_mem_steps (slash_not_mem_pieces p.text.toList) ?_
      rcases components_relative absolute with steps | steps <;> rw [steps] at mem
      · exact mem
      · exact (List.mem_cons.mp mem).resolve_left nofun

end Path

namespace Disk.Memory

open DurableValue.Path (Proper steps pieces)

variable {m m' : Memory} {p q : Path}

/-! ## Keys -/

theorem toList_unrooted (names : List String) :
    (Place.path ⟨false, names⟩).text.toList = Path.joinPieces (names.map String.toList) := by
  simp only [Place.path, Bool.false_eq_true, if_false, String.empty_append, String.toList_intercalate]
  rfl

theorem unrooted_isRelative {names : List String} (proper : ∀ m ∈ names, Proper m) :
    (Place.path ⟨false, names⟩).isAbsolute = false := by
  cases absolute : (Place.path ⟨false, names⟩).isAbsolute with
  | false => rfl
  | true =>
    obtain ⟨cs, text⟩ := Host.text_of_absolute absolute
    rw [toList_unrooted] at text
    have some : names ≠ [] := by
      rintro rfl
      cases text
    have whole := Place.pieces_path some proper
    rw [text, Path.pieces, if_pos rfl] at whole
    -- The text begins with an empty piece, which no proper name is.
    cases names with
    | nil => exact absurd rfl some
    | cons n names => exact absurd (List.cons.inj whole).1.symm (proper n List.mem_cons_self).piece.2.2

def root (m : Memory) : Path := ⟨"/memory-" ++ m.namespaceId⟩

theorem absolute_root (m : Memory) : m.root.isAbsolute = true := by simp [root, Path.isAbsolute]

/-- A key has the steps of its instance's root, and behind them the names of the place. -/
theorem components_canonicalKey (m : Memory) (p : Path) :
    (m.canonicalKey p).components = m.root.components ++ p.place.names.map .name := by
  have proper : ∀ n ∈ p.place.names, Proper n := fun n => Path.proper_of_mem_names
  have relative := unrooted_isRelative proper
  refine (Path.components_join m.absolute_root relative).trans ?_
  rw [toList_unrooted, Place.steps_path proper]

theorem canonicalKey_same_iff (absolute : p.isAbsolute = true) (absolute' : q.isAbsolute = true) :
    (m.canonicalKey p).Same (m.canonicalKey q) ↔ p.place = q.place := by
  rw [Path.Same, components_canonicalKey, components_canonicalKey, List.append_cancel_left_eq,
    List.map_inj_right fun _ _ => Path.Component.name.inj]
  constructor <;> intro same
  · rw [Path.place_rooted absolute, same, ← Path.place_rooted absolute']
  · rw [same]

theorem components_root (plain : '/' ∉ m.namespaceId.toList) :
    m.root.components = [.root, .name ("memory-" ++ m.namespaceId)] := by
  have text : m.root.text.toList = '/' :: ("memory-".toList ++ m.namespaceId.toList) := by simp [root]
  have single : pieces ("memory-".toList ++ m.namespaceId.toList) = ["memory-".toList ++ m.namespaceId.toList] := by
    rw [Path.pieces_eq_splitOn]
    exact List.splitOn_eq_singleton (by simp [plain])
  rw [Path.components_absolute text, single, Path.steps_active (by simp [Path.isIdle]), if_neg (by simp),
    ← String.toList_append, String.ofList_toList]

/-- Instances with different namespaces share no key, whatever the paths. -/
theorem canonicalKey_apart (plain : '/' ∉ m.namespaceId.toList) (plain' : '/' ∉ m'.namespaceId.toList)
    (other : m.namespaceId ≠ m'.namespaceId) (p q : Path) : ¬ (m.canonicalKey p).Same (m'.canonicalKey q) := by
  intro same
  rw [Path.Same, components_canonicalKey, components_canonicalKey, components_root plain,
    components_root plain'] at same
  simp only [List.cons_append, List.cons.injEq, Path.Component.name.injEq, String.append_right_inj] at same
  exact other same.2.1

/-! ## Calls -/

/-- What a file system in memory can be asked: its operations, and what its tests set and look at. An open file is named
by how many were opened before it. -/
inductive Call where
  | put (p : Path) (bs : Bytes)
  | contents (p : Path)
  | listing
  | counts
  | arm (f : Fault)
  | read (p : Path)
  | create (p : Path)
  | write (file : Nat) (bs : Bytes)
  | flush (file : Nat)
  | sync (file : Nat)
  | close (file : Nat)
  | createDirAll (p : Path)
  | rename (source target : Path)
  | removeFile (p : Path)
  | entryExists (p : Path)
  | syncDir (p : Path)
  | canonicalKey (p : Path)

def Call.respell (spelling : Path → Path) : Call → Call
  | .put p bs => .put (spelling p) bs
  | .contents p => .contents (spelling p)
  | .read p => .read (spelling p)
  | .create p => .create (spelling p)
  | .createDirAll p => .createDirAll (spelling p)
  | .rename source target => .rename (spelling source) (spelling target)
  | .removeFile p => .removeFile (spelling p)
  | .entryExists p => .entryExists (spelling p)
  | .syncDir p => .syncDir (spelling p)
  | .canonicalKey p => .canonicalKey (spelling p)
  | call => call

inductive Answer where
  | done
  | notOpen
  | result (r : Except IoError Unit)
  | bytes (r : Except IoError Bytes)
  | taken (r : Except IoError Nat)
  | contents (stored : Option Bytes)
  | listing (files : List Place)
  | counts (reads renames : Nat)
  | present (there : Bool)
  | key (p : Path)

/-- A file system in memory with the files that were opened on it; one that was closed has lost its place. -/
structure Client where
  disk : Memory
  files : List (Option Place)

namespace Client

variable (c : Client)

def after {α : Type} (shown : α → Answer) (ran : α × Memory) : Answer × Client :=
  (shown ran.1, { c with disk := ran.2 })

def opened (ran : Except IoError Place × Memory) : Answer × Client :=
  match ran with
  | (.ok h, disk) => (.result (.ok ()), ⟨disk, c.files ++ [some h]⟩)
  | (.error e, disk) => (.result (.error e), { c with disk })

def onFile (file : Nat) (work : Place → Answer × Client) : Answer × Client :=
  match c.files[file]? with
  | some (some h) => work h
  | _ => (.notOpen, c)

def ask : Call → Answer × Client
  | .put p bs => (.done, { c with disk := c.disk.put p bs })
  | .contents p => (.contents (c.disk.contents p), c)
  | .listing => (.listing (c.disk.listing.map (·.1)), c)
  | .counts => (.counts c.disk.reads c.disk.renames, c)
  | .arm f => (.done, { c with disk := c.disk.arm f })
  | .read p => c.after .bytes (FileSystem.read c.disk p)
  | .create p => c.opened (FileSystem.create c.disk p)
  | .write file bs => c.onFile file fun h => c.after .taken (c.disk.write h bs)
  | .flush file => c.onFile file fun h => c.after .result (FileSystem.flush c.disk h)
  | .sync file => c.onFile file fun h => c.after .result (FileSystem.sync c.disk h)
  | .close file => c.onFile file fun h => (.done, ⟨FileSystem.close c.disk h, c.files.set file none⟩)
  | .createDirAll p => c.after .result (FileSystem.createDirAll c.disk p)
  | .rename source target => c.after .result (FileSystem.rename c.disk source target)
  | .removeFile p => c.after .result (FileSystem.removeFile c.disk p)
  | .entryExists p => c.after .present (FileSystem.entryExists c.disk p)
  | .syncDir p => c.after .result (FileSystem.syncDir c.disk p)
  | .canonicalKey p => (.key (FileSystem.canonicalKey c.disk p), c)

def run (c : Client) : List Call → List Answer × Client
  | [] => ([], c)
  | call :: calls =>
    let (answer, c) := c.ask call
    let (answers, c) := c.run calls
    (answer :: answers, c)

/-- Every operation goes by the places of its paths. -/
theorem ask_respell {spelling : Path → Path} (same : ∀ r, (spelling r).place = r.place) (call : Call) :
    c.ask (call.respell spelling) = c.ask call := by
  cases call with
  | listing | counts | arm | write | flush | sync | close | syncDir => rfl
  | put p bs => simp only [Call.respell, ask, Memory.put, same]
  | contents p => simp only [Call.respell, ask, Memory.contents, same]
  | read p => simp only [Call.respell, ask, FileSystem.read, Memory.read, same]
  | create p => simp only [Call.respell, ask, FileSystem.create, Memory.create, same]
  | createDirAll p => simp only [Call.respell, ask, FileSystem.createDirAll, Memory.createDirAll, same]
  | rename source target => simp only [Call.respell, ask, FileSystem.rename, Memory.rename, same]
  | removeFile p => simp only [Call.respell, ask, FileSystem.removeFile, Memory.removeFile, same]
  | entryExists p => simp only [Call.respell, ask, FileSystem.entryExists, Memory.entryExists, same]
  | canonicalKey p => simp only [Call.respell, ask, FileSystem.canonicalKey, Memory.canonicalKey, same]

theorem run_respell {spelling : Path → Path} (same : ∀ r, (spelling r).place = r.place) (calls : List Call) :
    c.run (calls.map (.respell spelling)) = c.run calls := by
  induction calls generalizing c with
  | nil => rfl
  | cons call calls ih => simp only [List.map_cons, run, ask_respell c same, ih]

end Client

def replaced (p q r : Path) : Path := if r = p then q else r

/-- Two paths can stand for each other in any sequence of calls, whatever is open: nothing is answered or left in
another way. -/
def Interchangeable (m : Memory) (p q : Path) : Prop :=
  ∀ (files : List (Option Place)) (calls : List Call),
    (Client.mk m files).run (calls.map (.respell (replaced p q))) = (Client.mk m files).run calls

theorem interchangeable_iff : m.Interchangeable p q ↔ p.place = q.place := by
  constructor
  · intro same
    -- A file that is stored under one of the paths stands at its place.
    have stored := congrArg (fun ran => ran.2.disk.files.head?) (same [] [.put p []])
    simp only [List.map_cons, List.map_nil, Call.respell, replaced, if_true, Client.run, Client.ask, put, set,
      List.head?_cons, Option.some.injEq, Prod.mk.injEq, and_true] at stored
    exact stored.symm
  · intro same files calls
    refine Client.run_respell _ (fun r => ?_) calls
    unfold replaced
    split
    · rename_i here
      rw [here, same]
    · rfl

/-- An absolute path is normalized to its place, which goes back over `..` as a stack does; the keys of one file
system, and whatever else it is asked, tell two paths apart just where their normal forms differ. -/
theorem every_spelling_is_one_file (absolute : p.isAbsolute = true) (absolute' : q.isAbsolute = true) :
    (p.normalize.isAbsolute = true ∧ (∀ c ∈ p.normalize.components, c ≠ .here ∧ c ≠ .up) ∧
      p.normalize = p.place.path ∧ p.normalize.components = .root :: p.place.names.map .name ∧
      p.normalize.normalize = p.normalize ∧
      ∀ r : Path, r.isAbsolute = false → (p.join r).normalize = (p.normalize.join r).normalize) ∧
    ∀ m : Memory,
      ((m.canonicalKey p).Same (m.canonicalKey q) ↔ p.normalize = q.normalize) ∧
      (m.Interchangeable p q ↔ p.normalize = q.normalize) ∧
      ∀ m' : Memory, m.namespaceId ≠ m'.namespaceId → '/' ∉ m.namespaceId.toList → '/' ∉ m'.namespaceId.toList →
        ∀ r r' : Path, ¬ (m.canonicalKey r).Same (m'.canonicalKey r') := by
  have normal := Path.absolute_normalize absolute
  have components := Path.components_normalize absolute
  have place := Path.place_normalize absolute
  refine ⟨⟨normal, fun c mem => ?_, Path.normalize_eq absolute, components, ?_, fun r relative => ?_⟩, fun m => ?_⟩
  · rw [components] at mem
    rcases List.mem_cons.mp mem with rfl | mem
    · exact ⟨nofun, nofun⟩
    · obtain ⟨n, -, rfl⟩ := List.mem_map.mp mem
      exact ⟨nofun, nofun⟩
  · exact (Path.normalize_eq_iff normal absolute).mpr place
  · refine (Path.normalize_eq_iff (Path.absolute_join absolute relative) (Path.absolute_join normal relative)).mpr ?_
    rw [Path.place_join absolute relative, Path.place_join normal relative, place]
  · rw [Path.normalize_eq_iff absolute absolute']
    exact ⟨canonicalKey_same_iff absolute absolute', interchangeable_iff,
      fun m' other plain plain' r r' => canonicalKey_apart plain plain' other r r'⟩

/-- Two spellings of one file, on two instances. -/
theorem dotted_spelling_is_one_file :
    (Path.mk "/data/./cells//a.json/").isAbsolute = true ∧ (Path.mk "/data/tmp/../cells/a.json").isAbsolute = true ∧
      ((⟨[], [], [], 0, 0, "one"⟩ : Memory).Interchangeable ⟨"/data/./cells//a.json/"⟩ ⟨"/data/tmp/../cells/a.json"⟩) ∧
      ¬ ((⟨[], [], [], 0, 0, "one"⟩ : Memory).canonicalKey ⟨"/data/./cells//a.json/"⟩).Same
        ((⟨[], [], [], 0, 0, "two"⟩ : Memory).canonicalKey ⟨"/data/./cells//a.json/"⟩) := by
  have absolute : (Path.mk "/data/./cells//a.json/").isAbsolute = true := by decide
  have absolute' : (Path.mk "/data/tmp/../cells/a.json").isAbsolute = true := by decide
  have same : (Path.mk "/data/./cells//a.json/").normalize = (Path.mk "/data/tmp/../cells/a.json").normalize := by
    decide
  obtain ⟨-, alike, apart⟩ := (every_spelling_is_one_file absolute absolute').2 ⟨[], [], [], 0, 0, "one"⟩
  exact ⟨absolute, absolute', alike.mpr same,
    apart ⟨[], [], [], 0, 0, "two"⟩ (by decide) (by decide) (by decide) _ _⟩

end Disk.Memory

end DurableValue
