/-
  DurableValue.Proofs.Path — where a store's three paths lie.

  The path of a store names an entry right below the directory that the store makes. Its scratch path is the text of
  that path with a suffix.

  Proved:
  - `place_of_accepted`: where the entry is.
  - `scratch_place_step`: the scratch path is a sibling of the entry if the text ends in a step.
  - `scratch_place_idle`: behind a slash or a dot the suffix makes an entry below the real one instead, the real one
    itself, or the directory above.
-/
import DurableValue.Store.Atomic

namespace DurableValue

namespace Path

/-! ## Pieces -/

theorem pieces_eq_splitOn (cs : List Char) : pieces cs = cs.splitOn '/' := by
  induction cs with
  | nil => rfl
  | cons c cs ih =>
    rw [List.splitOn_cons_eq_if_modifyHead, ← ih, pieces]
    by_cases h : c = '/'
    · simp [h]
    · rw [if_neg h, if_neg (by simpa using h)]
      cases h : pieces cs with
      | nil => exact absurd (ih.symm.trans h) (List.splitOn_ne_nil _ _)
      | cons p ps => rfl

theorem pieces_ne_nil (cs : List Char) : pieces cs ≠ [] := by
  rw [pieces_eq_splitOn]
  exact List.splitOn_ne_nil _ _

theorem slash_not_mem_pieces (cs : List Char) : ∀ p ∈ pieces cs, '/' ∉ p := by
  induction cs with
  | nil => simp [pieces]
  | cons c cs ih =>
    intro p hp
    unfold pieces at hp
    split at hp
    · rcases List.mem_cons.mp hp with rfl | hp
      · simp
      · exact ih p hp
    · rename_i hc
      split at hp
      · rename_i none
        exact absurd none (pieces_ne_nil cs)
      · rename_i q qs hq
        rw [hq] at ih
        rcases List.mem_cons.mp hp with rfl | hp
        · have := ih q List.mem_cons_self
          simpa [Ne.symm hc] using this
        · exact ih p (List.mem_cons_of_mem _ hp)

theorem pieces_joinPieces {ps : List (List Char)} (h : ps ≠ []) (free : ∀ p ∈ ps, '/' ∉ p) :
    pieces (joinPieces ps) = ps := by
  rw [pieces_eq_splitOn]
  exact List.splitOn_intercalate '/' free h

/-- A suffix without a slash lengthens the last piece. -/
theorem pieces_append (cs suffix : List Char) (free : '/' ∉ suffix) :
    ∃ init last, pieces cs = init ++ [last] ∧ pieces (cs ++ suffix) = init ++ [last ++ suffix] := by
  induction cs with
  | nil =>
    refine ⟨[], [], rfl, ?_⟩
    rw [pieces_eq_splitOn]
    exact List.splitOn_eq_singleton free
  | cons c cs ih =>
    obtain ⟨init, last, before, after⟩ := ih
    by_cases h : c = '/'
    · subst h
      exact ⟨[] :: init, last, by simp [pieces, before], by simp [pieces, after]⟩
    · cases init with
      | nil => exact ⟨[], c :: last, by simp [pieces, h, before], by simp [pieces, h, after]⟩
      | cons p ps => exact ⟨(c :: p) :: ps, last, by simp [pieces, h, before], by simp [pieces, h, after]⟩

/-! ## Steps -/

def steps (ps : List (List Char)) : List Component := ps.filterMap Component.ofPiece?

theorem ofPiece?_idle {p : List Char} (h : isIdle p = true) : Component.ofPiece? p = none := by
  simp [Component.ofPiece?, h]

theorem ofPiece?_active {p : List Char} (h : isIdle p = false) :
    Component.ofPiece? p = some (if p = ['.', '.'] then .up else .name (.ofList p)) := by
  unfold Component.ofPiece?
  rw [h, if_neg (by simp)]
  split <;> rfl

/-- What is trimmed off is idle, and what is left ends in a step. -/
theorem trimIdle_spec (ps : List (List Char)) :
    (∃ idle, ps = trimIdle ps ++ idle ∧ ∀ p ∈ idle, isIdle p = true) ∧
      ∀ init last, trimIdle ps = init ++ [last] → isIdle last = false := by
  refine ⟨⟨(ps.reverse.takeWhile isIdle).reverse, ?_, fun p hp => ?_⟩, fun init last h => ?_⟩
  · rw [trimIdle, ← List.reverse_append, List.takeWhile_append_dropWhile, List.reverse_reverse]
  · exact List.all_eq_true.mp List.all_takeWhile p (List.mem_reverse.mp hp)
  · have head : ps.reverse.dropWhile isIdle = last :: init.reverse := by
      rw [← List.reverse_reverse (ps.reverse.dropWhile isIdle)]
      exact (congrArg List.reverse h).trans (by simp)
    have := List.head?_dropWhile_not isIdle ps.reverse
    rw [head] at this
    simpa using this

theorem steps_idle {ps : List (List Char)} (h : ∀ p ∈ ps, isIdle p = true) : steps ps = [] :=
  List.filterMap_eq_nil_iff.mpr fun p hp => ofPiece?_idle (h p hp)

theorem steps_active {p : List Char} (h : isIdle p = false) :
    steps [p] = [if p = ['.', '.'] then .up else .name (.ofList p)] := by
  rw [steps, List.filterMap_cons, ofPiece?_active h]
  rfl

theorem steps_concat (ps : List (List Char)) (p : List Char) : steps (ps ++ [p]) = steps ps ++ steps [p] :=
  List.filterMap_append

/-- One piece is a step or none at all. -/
theorem steps_single (p : List Char) : steps [p] = [] ∨ steps [p] = [.up] ∨ ∃ n, steps [p] = [.name n] := by
  cases h : isIdle p with
  | true => exact Or.inl (steps_idle (by simpa using h))
  | false =>
    rw [steps_active h]
    split
    · exact Or.inr (Or.inl rfl)
    · exact Or.inr (Or.inr ⟨_, rfl⟩)

/-- A piece that is a name stays one under any suffix. -/
theorem name_lengthened {p : List Char} (h : isIdle p = false) (regular : p ≠ ['.', '.']) (suffix : List Char) :
    isIdle (p ++ suffix) = false ∧ p ++ suffix ≠ ['.', '.'] := by
  rcases p with _ | ⟨c, _ | ⟨d, cs⟩⟩
  · cases h
  · have other : c ≠ '.' := by
      rintro rfl
      cases h
    simp [isIdle, other]
  · refine ⟨by simp [isIdle], fun e => regular ?_⟩
    simp only [List.cons_append, List.cons.injEq, List.append_eq_nil_iff] at e
    simp [e]

theorem steps_trimIdle (ps : List (List Char)) : steps (trimIdle ps) = steps ps := by
  obtain ⟨idle, h, all⟩ := (trimIdle_spec ps).1
  have : steps ps = steps (trimIdle ps) ++ steps idle := by
    rw [steps, steps, steps, ← List.filterMap_append, ← h]
  rw [this, steps_idle all, List.append_nil]

theorem components_absolute {p : Path} {cs : List Char} (h : p.text.toList = '/' :: cs) :
    p.components = .root :: steps (pieces cs) := by
  simp [components, h, steps]

/-- The directory of an absolute path is spelled by the pieces before the last step. -/
theorem parent?_text {p up : Path} {cs : List Char} (h : p.text.toList = '/' :: cs) (hp : p.parent? = some up) :
    ∃ init last, trimIdle (pieces cs) = init ++ [last] ∧ isIdle last = false ∧
      up.text.toList = '/' :: joinPieces (trimIdle init) := by
  simp only [parent?, h] at hp
  split at hp
  · cases hp
  · rename_i ps hne
    cases hp
    obtain ⟨init, last, split⟩ : ∃ init last, trimIdle (pieces cs) = init ++ [last] := by
      rcases List.eq_nil_or_concat (trimIdle (pieces cs)) with e | ⟨init, last, e⟩
      · exact absurd e hne
      · exact ⟨init, last, by rw [e, List.concat_eq_append]⟩
    refine ⟨init, last, split, (trimIdle_spec _).2 init last split, ?_⟩
    rw [split, List.dropLast_concat]
    exact String.toList_ofList

/-- The last step stands behind the pieces of the directory. -/
theorem pieces_split {cs : List Char} {init : List (List Char)} {last : List Char}
    (split : trimIdle (pieces cs) = init ++ [last]) : ∃ rest, pieces cs = trimIdle init ++ rest ∧ last ∈ rest := by
  obtain ⟨⟨idle, whole, -⟩, -⟩ := trimIdle_spec (pieces cs)
  obtain ⟨⟨idle', whole', -⟩, -⟩ := trimIdle_spec init
  refine ⟨idle' ++ [last] ++ idle, ?_, by simp⟩
  rw [← List.append_assoc, ← List.append_assoc, ← whole', ← split]
  exact whole

/-- What is left of the pieces before the last step is spelled as it was. -/
theorem pieces_trimmed {cs : List Char} {init : List (List Char)} {last : List Char}
    (split : trimIdle (pieces cs) = init ++ [last]) (named : trimIdle init ≠ []) :
    pieces (joinPieces (trimIdle init)) = trimIdle init := by
  refine pieces_joinPieces named fun p hp => slash_not_mem_pieces cs p ?_
  obtain ⟨rest, whole, -⟩ := pieces_split split
  rw [whole]
  exact List.mem_append_left _ hp

/-- The directory of an absolute path has all its steps but the last. -/
theorem parent?_absolute {p up : Path} {cs : List Char} (h : p.text.toList = '/' :: cs) (hp : p.parent? = some up) :
    ∃ init last, trimIdle (pieces cs) = init ++ [last] ∧ isIdle last = false ∧ up.components = .root :: steps init := by
  obtain ⟨init, last, split, active, text⟩ := parent?_text h hp
  refine ⟨init, last, split, active, ?_⟩
  rw [components_absolute text, ← steps_trimIdle init]
  by_cases empty : trimIdle init = []
  · rw [empty]
    rfl
  · rw [pieces_trimmed split empty]

/-! ## Places -/

theorem rooted_follow {here : Place} (h : here.rooted = true) (c : Component) : (here.follow c).rooted = true := by
  cases c <;> first | rfl | exact h

theorem rooted_foldl_follow {here : Place} (h : here.rooted = true) (cs : List Component) :
    (cs.foldl Place.follow here).rooted = true := by
  induction cs generalizing here with
  | nil => exact h
  | cons c cs ih => exact ih (rooted_follow h c)

theorem place_absolute {p : Path} {cs : List Component} (h : p.components = .root :: cs) :
    p.place = cs.foldl Place.follow ⟨true, []⟩ := by
  rw [place, h]
  rfl

/-- What an accepted path looks like: the steps of its directory, and the piece that names the entry. -/
theorem accepted_cases {p : Path} (h : Store.checkPath p = .ok ()) :
    ∃ up cs init last, p.parent? = some up ∧ p.text.toList = '/' :: cs ∧ trimIdle (pieces cs) = init ++ [last] ∧
      isIdle last = false ∧ last ≠ ['.', '.'] ∧ up.components = .root :: steps init ∧
      p.components = .root :: (steps init ++ [.name (.ofList last)]) := by
  unfold Store.checkPath at h
  split at h
  · cases h
  · rename_i absolute
    split at h
    · rename_i up hp
      split at h
      · rename_i named
        obtain ⟨cs, text⟩ : ∃ cs, p.text.toList = '/' :: cs := by
          cases e : p.text.toList with
          | nil => simp [isAbsolute, e] at absolute
          | cons c cs => simp [isAbsolute, e] at absolute; exact ⟨cs, by rw [absolute]⟩
        obtain ⟨init, last, split, active, components⟩ := parent?_absolute text hp
        have all : p.components = .root :: (steps init ++ steps [last]) := by
          rw [components_absolute text, ← steps_trimIdle, split, steps_concat]
        rw [steps_active active] at all
        have regular : last ≠ ['.', '.'] := by
          intro up
          rw [if_pos up, ← List.cons_append] at all
          have unnamed : p.fileName? = none := by rw [fileName?, all, List.getLast?_concat]
          simp [unnamed] at named
        rw [if_neg regular] at all
        exact ⟨up, cs, init, last, hp, text, split, active, regular, components, all⟩
      · cases h
    · cases h

/-- An accepted path names an entry right below its directory. -/
theorem place_of_accepted {p : Path} (h : Store.checkPath p = .ok ()) :
    ∃ ds n, (p.parent?.getD ⟨"/"⟩).place = ⟨true, ds⟩ ∧ p.place = ⟨true, ds ++ [n]⟩ := by
  obtain ⟨up, cs, init, last, hp, -, -, -, -, hu, all⟩ := accepted_cases h
  have rooted : ((steps init).foldl Place.follow ⟨true, []⟩).rooted = true := rooted_foldl_follow rfl _
  rcases reached : (steps init).foldl Place.follow ⟨true, []⟩ with ⟨_, ds⟩
  rw [reached] at rooted
  cases rooted
  refine ⟨ds, .ofList last, ?_, ?_⟩
  · rw [hp, Option.getD_some, place_absolute hu, reached]
  · rw [place_absolute all, List.foldl_append, reached]
    rfl

/-- Whether the text ends in the name of a step, with no slash and no lone dot behind it. -/
def endsInStep (p : Path) : Bool := (pieces p.text.toList).getLast?.any fun piece => !isIdle piece

theorem endsInStep_absolute {p : Path} {cs : List Char} {init : List (List Char)} {last : List Char}
    (text : p.text.toList = '/' :: cs) (split : pieces cs = init ++ [last]) : p.endsInStep = !isIdle last := by
  have whole : pieces p.text.toList = ([] :: init) ++ [last] := by simp [text, pieces, split]
  rw [endsInStep, whole, List.getLast?_concat]
  rfl

section

variable {p : Path} {suffix : String} {ds : List String} {n : String}

/-- The steps of a lengthened path: those before the last piece, and what the last piece has become. -/
theorem place_withSuffix {cs : List Char} (text : p.text.toList = '/' :: cs) {front : List (List Char)}
    {piece : List Char} (after : pieces (cs ++ suffix.toList) = front ++ [piece ++ suffix.toList]) :
    (p.withSuffix suffix).place =
      (steps [piece ++ suffix.toList]).foldl Place.follow ((steps front).foldl Place.follow ⟨true, []⟩) := by
  have components : (p.withSuffix suffix).components = .root :: steps (front ++ [piece ++ suffix.toList]) := by
    rw [← after]
    exact components_absolute (by simp [withSuffix, text])
  rw [place_absolute components, steps_concat, List.foldl_append]

/-- The scratch path of a text that ends in a step leads next to the entry. -/
theorem scratch_place_step (h : Store.checkPath p = .ok ()) (free : '/' ∉ suffix.toList)
    (real : p.place = ⟨true, ds ++ [n]⟩) (step : p.endsInStep = true) :
    (p.withSuffix suffix).place = ⟨true, ds ++ [n ++ suffix]⟩ := by
  obtain ⟨up, cs, init, last, -, text, split, active, regular, -, all⟩ := accepted_cases h
  obtain ⟨front, piece, before, after⟩ := pieces_append cs suffix.toList free
  have lasting : isIdle piece = false := by simpa [endsInStep_absolute text before] using step
  rw [before, show trimIdle (front ++ [piece]) = front ++ [piece] by simp [trimIdle, lasting]] at split
  obtain ⟨rfl, e⟩ := List.append_inj' split rfl
  cases e
  obtain ⟨lasting, onward⟩ := name_lengthened active regular suffix.toList
  -- The steps before the last one lead to the directory of the entry, whose name is the last piece.
  have above : (steps front).foldl Place.follow ⟨true, []⟩ = ⟨true, ds⟩ ∧ String.ofList last = n := by
    have reached := real
    rw [place_absolute all, List.foldl_append] at reached
    have rooted : ((steps front).foldl Place.follow ⟨true, []⟩).rooted = true := rooted_foldl_follow rfl _
    rcases e : (steps front).foldl Place.follow ⟨true, []⟩ with ⟨_, names⟩
    rw [e] at reached rooted
    cases rooted
    have same : names ++ [String.ofList last] = ds ++ [n] := congrArg Place.names reached
    obtain ⟨rfl, e⟩ := List.append_inj' same rfl
    cases e
    exact ⟨rfl, rfl⟩
  rw [place_withSuffix text after, steps_active lasting, if_neg onward, above.1, ← above.2,
    String.ofList_append, String.ofList_toList]
  rfl

/-- The scratch path of any other text leads to the entry itself, below it, or to its directory. -/
theorem scratch_place_idle (h : Store.checkPath p = .ok ()) (free : '/' ∉ suffix.toList)
    (real : p.place = ⟨true, ds ++ [n]⟩) (idle : p.endsInStep = false) :
    (p.withSuffix suffix).place = ⟨true, ds ++ [n]⟩ ∨
      (∃ m, (p.withSuffix suffix).place = ⟨true, ds ++ [n] ++ [m]⟩) ∨ (p.withSuffix suffix).place = ⟨true, ds⟩ := by
  obtain ⟨up, cs, init, last, -, text, split, active, regular, -, all⟩ := accepted_cases h
  obtain ⟨front, piece, before, after⟩ := pieces_append cs suffix.toList free
  have trailing : isIdle piece = true := by simpa [endsInStep_absolute text before] using idle
  have same : steps front = steps init ++ [.name (.ofList last)] := by
    have whole : steps (pieces cs) = steps front := by
      rw [before, steps_concat, @steps_idle [piece] (by simpa using trailing), List.append_nil]
    rw [← whole, ← steps_trimIdle, split, steps_concat, steps_active active, if_neg regular]
  have place := place_withSuffix text after
  rw [same, ← place_absolute all, real] at place
  rcases steps_single (piece ++ suffix.toList) with e | e | ⟨m, e⟩ <;> rw [place, e]
  · exact Or.inl rfl
  · exact Or.inr (Or.inr (by simp [Place.follow]))
  · exact Or.inr (Or.inl ⟨m, rfl⟩)

/-- Where a scratch path leads: next to the entry, below it, to the entry itself, or to the directory. -/
theorem scratch_place (h : Store.checkPath p = .ok ()) (free : '/' ∉ suffix.toList)
    (real : p.place = ⟨true, ds ++ [n]⟩) :
    (∃ m, (p.withSuffix suffix).place = ⟨true, ds ++ [m]⟩) ∨
      (∃ m, (p.withSuffix suffix).place = ⟨true, ds ++ [n] ++ [m]⟩) ∨ (p.withSuffix suffix).place = ⟨true, ds⟩ := by
  cases step : p.endsInStep with
  | true => exact Or.inl ⟨_, scratch_place_step h free real step⟩
  | false =>
    rcases scratch_place_idle h free real step with same | below
    · exact Or.inl ⟨n, same⟩
    · exact Or.inr below

end

end Path

namespace Place

theorem mem_ancestors {p q : Place} (h : q ∈ p.ancestors) :
    q.rooted = p.rooted ∧ q.names ≠ [] ∧ q.names <+: p.names := by
  obtain ⟨k, hk, rfl⟩ := List.mem_map.mp h
  have hk := List.mem_range.mp hk
  refine ⟨rfl, ?_, List.take_prefix _ _⟩
  intro e
  rcases List.take_eq_nil_iff.mp e with e | e
  · omega
  · rw [e] at hk
    exact absurd hk (Nat.not_lt_zero k)

theorem ancestors_of_prefix {p q : Place} (rooted : q.rooted = p.rooted) (named : q.names ≠ [])
    (h : q.names <+: p.names) : q ∈ p.ancestors := by
  have len := h.length_le
  have pos : 0 < q.names.length := List.length_pos_iff.mpr named
  refine List.mem_map.mpr ⟨p.names.length - q.names.length, List.mem_range.mpr (by omega), ?_⟩
  obtain ⟨r, ns⟩ := q
  have take := List.prefix_iff_eq_take.mp h
  have count : p.names.length - (p.names.length - ns.length) = ns.length := by
    simp only at len
    omega
  cases rooted
  simp only [Place.mk.injEq, true_and, count]
  exact take.symm

end Place

/-- The directory of an accepted path does not lie below the entry. -/
theorem Path.place_not_mem_ancestors {p : Path} (h : Store.checkPath p = .ok ()) :
    p.place ∉ (p.parent?.getD ⟨"/"⟩).place.ancestors := by
  obtain ⟨ds, n, up, real⟩ := place_of_accepted h
  rw [up, real]
  intro mem
  have len := (Place.mem_ancestors mem).2.2.length_le
  simp only [List.length_append, List.length_singleton] at len
  omega

end DurableValue
