/-
  DurableValue.Proofs.Disk.Key — the key of a path on a host.

  The key is made of the directory of the path, `.` and `..` resolved by their text. It depends on the host only by
  where that directory is found.

  Proved:
  - `canonicalKey_eq`, `canonicalKey_of_found`: what the key is where the directory is missing, and where it is found.
  - `find_plain`: as long as no link stands on the way, the directory is found where the text says.
  - `not_same_of_elsewhere`: found anywhere else, it gives another key than the text does.
-/
import DurableValue.Proofs.Disk.Host

namespace DurableValue

/-! ## Places as texts -/

namespace Path

theorem ext_toList {p q : Path} (same : p.text.toList = q.text.toList) : p = q := by
  cases p
  cases q
  exact congrArg Path.mk (String.toList_inj.mp same)

theorem joinPieces_concat {ps : List (List Char)} (some : ps ≠ []) (p : List Char) :
    joinPieces (ps ++ [p]) = joinPieces ps ++ '/' :: p := by
  unfold joinPieces
  induction ps with
  | nil => exact absurd rfl some
  | cons q ps ih =>
    cases ps with
    | nil =>
      rw [List.singleton_append, List.intercalate_cons_cons]
      simp
    | cons r ps =>
      have onward := ih nofun
      rw [List.cons_append, List.cons_append, List.intercalate_cons_cons, List.intercalate_cons_cons,
        ← List.cons_append, onward]
      simp only [List.append_assoc]

def Proper (n : String) : Prop := n ≠ "" ∧ n ≠ "." ∧ n ≠ ".." ∧ '/' ∉ n.toList

/-- A piece that is a step down. -/
theorem Proper.piece {n : String} (proper : Proper n) :
    isIdle n.toList = false ∧ n.toList ≠ ['.', '.'] ∧ n.toList ≠ [] := by
  obtain ⟨some, dot, up, -⟩ := proper
  have other {cs : List Char} {s : String} (text : s.toList = cs) (ne : n ≠ s) : n.toList ≠ cs :=
    fun same => ne (String.toList_inj.mp (same.trans text.symm))
  have none : n.toList ≠ [] := other rfl some
  have dot : n.toList ≠ ['.'] := other rfl dot
  exact ⟨by simp only [isIdle, none, dot, decide_false, Bool.or_false], other rfl up, none⟩

theorem mem_names_foldl {n : String} (cs : List Component) {here : Place}
    (mem : n ∈ (cs.foldl Place.follow here).names) : n ∈ here.names ∨ .name n ∈ cs := by
  induction cs generalizing here with
  | nil => exact Or.inl mem
  | cons c cs ih =>
    rcases ih mem with mem | mem
    · cases c with
      | root => cases mem
      | here => exact Or.inl mem
      | up => exact Or.inl (List.dropLast_subset _ mem)
      | name m =>
        rcases List.mem_append.mp mem with mem | mem
        · exact Or.inl mem
        · rw [List.mem_singleton.mp mem]
          exact Or.inr List.mem_cons_self
    · exact Or.inr (List.mem_cons_of_mem _ mem)

/-- A step that pieces name is a proper name. -/
theorem proper_of_mem_steps {ps : List (List Char)} {n : String} (free : ∀ piece ∈ ps, '/' ∉ piece)
    (mem : .name n ∈ steps ps) : Proper n := by
  obtain ⟨piece, among, named⟩ := List.mem_filterMap.mp mem
  unfold Component.ofPiece? at named
  split at named
  · cases named
  · rename_i active
    split at named
    · cases named
    · rename_i regular
      cases named
      have other {s : String} (ne : piece ≠ s.toList) : String.ofList piece ≠ s := fun same => by
        rw [← same, String.toList_ofList] at ne
        exact ne rfl
      refine ⟨other fun none => active ?_, other fun dot => active ?_, other regular, ?_⟩
      · rw [none]; rfl
      · rw [dot]; rfl
      · rw [String.toList_ofList]
        exact free piece among

theorem proper_of_mem_place {p : Path} {n : String} (absolute : p.isAbsolute = true) (mem : n ∈ p.place.names) :
    Proper n := by
  obtain ⟨cs, text⟩ := Disk.Host.text_of_absolute absolute
  rw [place_absolute (components_absolute text)] at mem
  rcases mem_names_foldl _ mem with mem | mem
  · cases mem
  · exact proper_of_mem_steps (slash_not_mem_pieces cs) mem

end Path

namespace Place

open DurableValue.Path (Proper pieces joinPieces trimIdle isIdle)

variable {names : List String} {n : String}

theorem toList_path (names : List String) :
    (Place.path ⟨true, names⟩).text.toList = '/' :: joinPieces (names.map String.toList) := by
  simp only [path, if_true, String.toList_append, String.toList_intercalate]
  rfl

theorem pieces_path (some : names ≠ []) (proper : ∀ m ∈ names, Proper m) :
    pieces (joinPieces (names.map String.toList)) = names.map String.toList := by
  refine Path.pieces_joinPieces (by simpa using some) fun piece among => ?_
  obtain ⟨n, mem, rfl⟩ := List.mem_map.mp among
  exact (proper n mem).2.2.2

theorem trimIdle_path (proper : ∀ m ∈ names, Proper m) :
    trimIdle (names.map String.toList) = names.map String.toList := by
  rcases List.eq_nil_or_concat names with rfl | ⟨init, n, rfl⟩
  · rfl
  · have active := (proper n (by simp)).piece.1
    simp [trimIdle, active]

theorem absolute_path (names : List String) : (Place.path ⟨true, names⟩).isAbsolute = true := by
  simp [Path.isAbsolute, toList_path]

theorem parent?_path (proper : ∀ m ∈ names ++ [n], Proper m) :
    (Place.path ⟨true, names ++ [n]⟩).parent? = some (Place.path ⟨true, names⟩) := by
  have some : names ++ [n] ≠ [] := by simp
  have trimmed : trimIdle (pieces (joinPieces ((names ++ [n]).map String.toList))) =
      names.map String.toList ++ [n.toList] := by
    rw [pieces_path some proper, trimIdle_path proper, List.map_append, List.map_singleton]
  unfold Path.parent?
  rw [toList_path]
  simp only [trimmed]
  split
  · rename_i none
    simp at none
  · rw [List.dropLast_concat, trimIdle_path fun m mem => proper m (List.mem_append_left _ mem)]
    exact congrArg Option.some (Path.ext_toList (by rw [String.toList_ofList, toList_path]))

theorem steps_path (proper : ∀ m ∈ names, Proper m) :
    Path.steps (pieces (joinPieces (names.map String.toList))) = names.map .name := by
  by_cases none : names = []
  · subst none
    rfl
  · rw [pieces_path none proper]
    clear none
    induction names with
    | nil => rfl
    | cons n names ih =>
      obtain ⟨active, regular, -⟩ := (proper n List.mem_cons_self).piece
      rw [List.map_cons, Path.steps, List.filterMap_cons, Path.ofPiece?_active active, if_neg regular,
        String.ofList_toList, List.map_cons]
      exact congrArg _ (ih fun m mem => proper m (List.mem_cons_of_mem _ mem))

theorem components_path (proper : ∀ m ∈ names, Proper m) :
    (Place.path ⟨true, names⟩).components = .root :: names.map .name := by
  rw [Path.components_absolute (toList_path names), steps_path proper]

/-- Two places with the same steps are one. -/
theorem eq_of_same {names' : List String} (proper : ∀ m ∈ names, Proper m) (proper' : ∀ m ∈ names', Proper m)
    (same : (Place.path ⟨true, names⟩).Same (Place.path ⟨true, names'⟩)) : names = names' := by
  rw [Path.Same, components_path proper, components_path proper'] at same
  exact (List.map_inj_right fun _ _ => Path.Component.name.inj).mp (List.cons.inj same).2

theorem fileName?_path (proper : ∀ m ∈ names ++ [n], Proper m) :
    (Place.path ⟨true, names ++ [n]⟩).fileName? = some n := by
  rw [Path.fileName?, components_path proper, List.map_append, List.map_singleton, ← List.cons_append,
    List.getLast?_concat]

theorem stepsOf_path (proper : ∀ m ∈ names, Proper m) :
    Disk.Host.stepsOf (Place.path ⟨true, names⟩).text = names := by
  rw [Disk.Host.stepsOf_absolute (toList_path names)]
  by_cases none : names = []
  · subst none
    rfl
  · rw [pieces_path none proper, List.filter_eq_self.mpr, List.map_map]
    · exact (List.map_congr_left fun n _ => String.ofList_toList).trans (List.map_id names)
    · intro piece among
      obtain ⟨n, mem, rfl⟩ := List.mem_map.mp among
      have some := (proper n mem).piece.2.2
      cases e : n.toList with
      | nil => exact absurd e some
      | cons => rfl

/-- A name behind the text of its directory. -/
theorem join_path (proper : ∀ m ∈ names ++ [n], Proper m) :
    (Place.path ⟨true, names⟩).join ⟨n⟩ = Place.path ⟨true, names ++ [n]⟩ := by
  have own := proper n (by simp)
  have relative : (Path.mk n).isAbsolute = false := by
    cases e : n.toList with
    | nil => exact absurd e own.piece.2.2
    | cons c cs =>
      have other : c ≠ '/' := fun same => own.2.2.2 (by simp [e, same])
      simp [Path.isAbsolute, e, other]
  rw [Path.join, relative, if_neg Bool.false_ne_true]
  by_cases top : names = []
  · subst top
    rw [if_pos (Or.inr (by rw [toList_path]; rfl))]
    refine Path.ext_toList ?_
    rw [String.toList_append, toList_path, toList_path]
    simp [joinPieces]
  · have some : names.map String.toList ≠ [] := by simpa using top
    have text := toList_path names
    -- The text ends in the last letter of a name, so the join puts a slash behind it.
    have inner : ¬ ((Place.path ⟨true, names⟩).text = "" ∨
        (Place.path ⟨true, names⟩).text.toList.getLast? = .some '/') := by
      rintro (none | slash)
      · rw [none] at text
        cases text
      · obtain ⟨init, m, rfl⟩ := (List.eq_nil_or_concat names).resolve_left top
        have last := proper m (by simp)
        obtain ⟨front, c, spelled⟩ : ∃ front c, m.toList = front ++ [c] := by
          rcases List.eq_nil_or_concat m.toList with none | ⟨front, c, spelled⟩
          · exact absurd none last.piece.2.2
          · exact ⟨front, c, by rw [spelled, List.concat_eq_append]⟩
        have ends : ∃ before, joinPieces ((init ++ [m]).map String.toList) = before ++ [c] := by
          rw [List.map_append, List.map_singleton, spelled]
          by_cases first : init = []
          · subst first
            exact ⟨front, by simp [joinPieces]⟩
          · rw [Path.joinPieces_concat (by simpa using first)]
            exact ⟨_, by rw [← List.cons_append, ← List.append_assoc]⟩
        obtain ⟨before, ends⟩ := ends
        rw [List.concat_eq_append] at slash
        rw [toList_path, ends, ← List.cons_append, List.getLast?_concat] at slash
        refine last.2.2.2 ?_
        rw [spelled, Option.some.inj slash]
        simp
    rw [if_neg inner]
    refine Path.ext_toList ?_
    rw [String.toList_append, String.toList_append, text, toList_path, List.map_append, List.map_singleton,
      Path.joinPieces_concat some]
    simp

end Place

def Path.resolvedParent (p : Path) : Path := Place.path ⟨true, p.place.names.dropLast⟩

theorem Path.absolute_resolvedParent (p : Path) : p.resolvedParent.isAbsolute = true := Place.absolute_path _

namespace Disk.Host

variable {h h' : Host} {p : Path} {names : List String}

/-! ## Keys -/

theorem absolute_of_accepted (accepted : Store.checkPath p = .ok ()) : p.isAbsolute = true := by
  obtain ⟨-, cs, -, -, -, text, -⟩ := Path.accepted_cases accepted
  simp [Path.isAbsolute, text]

/-- The key of an accepted path is told by where its directory is found. -/
theorem canonicalKey_eq (accepted : Store.checkPath p = .ok ()) : ∃ n, p.place = ⟨true, p.place.names.dropLast ++ [n]⟩ ∧
    (∀ m ∈ p.place.names.dropLast ++ [n], Path.Proper m) ∧ ∀ h : Host, h.canonicalKey p =
      match h.find p.resolvedParent with
      | .ok (t, _) => (rendered t).join ⟨n⟩
      | .error _ => p.place.path := by
  obtain ⟨ds, n, -, real⟩ := Path.place_of_accepted accepted
  have names : p.place.names = ds ++ [n] := congrArg Place.names real
  have proper : ∀ m ∈ ds ++ [n], Path.Proper m := fun m mem =>
    Path.proper_of_mem_place (absolute_of_accepted accepted) (names ▸ mem)
  rw [Path.resolvedParent, names, List.dropLast_concat]
  refine ⟨n, real, proper, fun h => ?_⟩
  unfold canonicalKey canonical
  simp only [real, Place.parent?_path proper, Place.fileName?_path proper]
  rcases h.find (Place.path ⟨true, ds⟩) with e | ⟨t, m⟩ <;> rfl

/-- Where the directory is found in the same place, the key is the same. -/
theorem canonicalKey_of_found (accepted : Store.checkPath p = .ok ()) {t : Trail} {n m : Node}
    (found : h.find p.resolvedParent = .ok (t, n)) (found' : h'.find p.resolvedParent = .ok (t, m)) :
    h'.canonicalKey p = h.canonicalKey p := by
  obtain ⟨name, -, -, key⟩ := canonicalKey_eq accepted
  rw [key h, key h', found, found']

/-- Whether no link stands where the names lead, or on the way there. -/
def Plain (h : Host) (names : Trail) : Prop := ∀ d, d <+: names → ∀ target, h.node? d ≠ some (.link target)

theorem Grows.plain (grows : h.Grows h') (plain : h.Plain names) : h'.Plain names := by
  intro d below target linked
  rcases grows d with same | ⟨-, n, new, other⟩
  · exact plain d below target (same.symm.trans linked)
  · cases new.symm.trans linked
    exact other target rfl

/-- A walk by names goes straight down where there is no link. -/
theorem Walk.straight {slash : Bool} {links left : Nat} {here : Trail} {steps : List String} {last : LastStep}
    (walk : h.Walk slash links here steps last left) (named : ∀ n ∈ steps, IsName n) (plain : h.Plain (here ++ steps)) :
    last = .directory (here ++ steps) ∨ ∃ dir n, last = .name dir n slash ∧ dir ++ [n] = here ++ steps := by
  induction walk with
  | stay => exact Or.inl (by rw [List.append_nil])
  | dot => exact absurd rfl (named "." List.mem_cons_self).1
  | up => exact absurd rfl (named ".." List.mem_cons_self).2
  | stop => exact Or.inr ⟨_, _, rfl, rfl⟩
  | @down _ _ here n rest _ _ _ _ _ _ ih =>
    have whole : here ++ [n] ++ rest = here ++ n :: rest := by simp
    rw [← whole] at plain ⊢
    exact ih (fun m mem => named m (List.mem_cons_of_mem _ mem)) plain
  | @link _ _ here n target rest _ _ _ _ linked _ _ =>
    exact absurd linked (plain (here ++ [n]) ⟨rest, by simp⟩ target)

/-- What is found by names alone is where they say. -/
theorem find_plain (proper : ∀ m ∈ names, Path.Proper m) (plain : h.Plain names) {t : Trail} {n : Node}
    (found : h.find (Place.path ⟨true, names⟩) = .ok (t, n)) : t = names := by
  obtain ⟨-, arrives⟩ := (find_iff (Place.absolute_path names)).mp found
  rw [Place.stepsOf_path proper] at arrives
  have named : ∀ m ∈ names, IsName m := fun m mem => ⟨(proper m mem).2.1, (proper m mem).2.2.1⟩
  generalize reached : Found.entry t n = found at arrives
  cases arrives with
  | directory walk =>
    cases reached
    rcases walk.straight named plain with same | ⟨_, _, same, -⟩ <;> cases same
    rfl
  | vacant => cases reached
  | entry walk =>
    cases reached
    rcases walk.straight named plain with same | ⟨_, _, same, whole⟩ <;> cases same
    exact whole
  | @link _ _ _ _ _ _ _ target _ walk _ _ linked =>
    rcases walk.straight named plain with same | ⟨_, _, same, whole⟩ <;> cases same
    rw [whole] at linked
    exact absurd linked (plain names (List.prefix_refl names) target)

/-! ## The names that are found -/

/-- A step is not empty and holds no slash. -/
theorem step_of_mem {text n : String} (mem : n ∈ stepsOf text) : n ≠ "" ∧ '/' ∉ n.toList := by
  obtain ⟨piece, among, rfl⟩ := List.mem_map.mp mem
  obtain ⟨among, some⟩ := List.mem_filter.mp among
  rw [String.toList_ofList]
  refine ⟨fun none => ?_, Path.slash_not_mem_pieces _ piece among⟩
  have empty := congrArg String.toList none
  rw [String.toList_ofList] at empty
  rw [empty] at some
  cases some

def LastStep.trail : LastStep → Trail
  | .name dir n _ => dir ++ [n]
  | .directory t => t

theorem proper_startOf {here : Trail} (proper : ∀ m ∈ here, Path.Proper m) (target : String) :
    ∀ m ∈ startOf here target, Path.Proper m := by
  unfold startOf
  split
  · exact nofun
  · exact proper

theorem Walk.proper {slash : Bool} {links left : Nat} {here : Trail} {steps : List String} {last : LastStep}
    (walk : h.Walk slash links here steps last left) (proper : ∀ m ∈ here, Path.Proper m)
    (named : ∀ m ∈ steps, m ≠ "" ∧ '/' ∉ m.toList) : ∀ m ∈ last.trail, Path.Proper m := by
  have below {here : Trail} {n : String} (proper : ∀ m ∈ here, Path.Proper m) (name : IsName n)
      (step : n ≠ "" ∧ '/' ∉ n.toList) : ∀ m ∈ here ++ [n], Path.Proper m := by
    intro m mem
    rcases List.mem_append.mp mem with mem | mem
    · exact proper m mem
    · rw [List.mem_singleton.mp mem]
      exact ⟨step.1, name.1, name.2, step.2⟩
  induction walk with
  | stay => exact proper
  | dot _ ih => exact ih proper fun m mem => named m (List.mem_cons_of_mem _ mem)
  | up _ ih =>
    exact ih (fun m mem => proper m (List.dropLast_subset _ mem)) fun m mem => named m (List.mem_cons_of_mem _ mem)
  | stop name => exact below proper name (named _ List.mem_cons_self)
  | down name _ _ _ _ ih =>
    exact ih (below proper name (named _ List.mem_cons_self)) fun m mem => named m (List.mem_cons_of_mem _ mem)
  | link _ _ _ _ _ ih =>
    refine ih (proper_startOf proper _) fun m mem => ?_
    rcases List.mem_append.mp mem with mem | mem
    · exact step_of_mem mem
    · exact named m (List.mem_cons_of_mem _ mem)

theorem Arrives.proper {making slash : Bool} {links : Nat} {here t : Trail} {steps : List String} {n : Node}
    (arrives : h.Arrives making links here slash steps (.entry t n)) (proper : ∀ m ∈ here, Path.Proper m)
    (named : ∀ m ∈ steps, m ≠ "" ∧ '/' ∉ m.toList) : ∀ m ∈ t, Path.Proper m := by
  generalize reached : Found.entry t n = found at arrives
  induction arrives with
  | directory walk =>
    cases reached
    exact walk.proper proper named
  | vacant => cases reached
  | entry walk =>
    cases reached
    exact walk.proper proper named
  | link walk _ _ _ _ ih =>
    have dir := fun m mem => walk.proper proper named m (List.mem_append_left _ mem)
    exact ih (proper_startOf dir _) (fun m mem => step_of_mem mem) reached

/-- A directory that is found elsewhere than the text says gives another key than the text. -/
theorem not_same_of_elsewhere (accepted : Store.checkPath p = .ok ()) {e : IoError} {t : Trail} {n : Node}
    (missing : h.find p.resolvedParent = .error e) (found : h'.find p.resolvedParent = .ok (t, n))
    (elsewhere : t ≠ p.place.names.dropLast) : ¬ (h'.canonicalKey p).Same (h.canonicalKey p) := by
  obtain ⟨name, real, proper, key⟩ := canonicalKey_eq accepted
  obtain ⟨-, arrives⟩ := (find_iff p.absolute_resolvedParent).mp found
  have proper' : ∀ m ∈ t ++ [name], Path.Proper m := by
    intro m mem
    rcases List.mem_append.mp mem with mem | mem
    · exact arrives.proper (by simp) (fun m mem => step_of_mem mem) m mem
    · exact proper m (List.mem_append_right _ mem)
  intro same
  rw [key h, key h', missing, found] at same
  simp only [rendered, Place.join_path proper'] at same
  rw [real] at same
  exact elsewhere (List.append_inj' (Place.eq_of_same proper' proper same) rfl).1

end Disk.Host

end DurableValue
