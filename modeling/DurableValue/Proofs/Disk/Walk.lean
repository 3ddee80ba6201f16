/-
  DurableValue.Proofs.Disk.Walk — walks on a host.

  A walk that reaches its end goes from directory to directory by names, and through links (`Walk`, `Arrives`).

  Proved:
  - `lastStep_iff`, `locate_iff`, `find_iff`: following a path is such a walk.
  - `Walk.within`, `Arrives.within`: a walk goes the same way in every host that has the entries it passes (`Within`):
    directories that stay, and links that stay, are all that it depends on.
-/
import DurableValue.Disk.Host

namespace DurableValue.Disk.Host

variable {h h' h'' : Host} {here t d : Trail} {n : Node} {links left : Nat} {making slash : Bool} {steps : List String}
  {last : LastStep} {found : Found}

/-! ## Walks that reach their end -/

def IsName (n : String) : Prop := n ≠ "." ∧ n ≠ ".."

/-- A walk that reaches its last step, as `approach` takes it. -/
inductive Walk (h : Host) (slash : Bool) : Nat → Trail → List String → LastStep → Nat → Prop where
  | stay {links : Nat} {here : Trail} : h.Walk slash links here [] (.directory here) links
  | dot {links left : Nat} {here : Trail} {rest : List String} {last : LastStep} :
    h.Walk slash links here rest last left → h.Walk slash links here ("." :: rest) last left
  | up {links left : Nat} {here : Trail} {rest : List String} {last : LastStep} :
    h.Walk slash links here.dropLast rest last left → h.Walk slash links here (".." :: rest) last left
  | stop {links : Nat} {here : Trail} {n : String} (name : IsName n) :
    h.Walk slash links here [n] (.name here n slash) links
  | down {links left : Nat} {here : Trail} {n : String} {rest : List String} {last : LastStep} (name : IsName n)
    (more : rest ≠ []) (fits : n.utf8ByteSize ≤ nameLimit) (dir : h.node? (here ++ [n]) = some .dir) :
    h.Walk slash links (here ++ [n]) rest last left → h.Walk slash links here (n :: rest) last left
  | link {links left : Nat} {here : Trail} {n target : String} {rest : List String} {last : LastStep} (name : IsName n)
    (more : rest ≠ []) (fits : n.utf8ByteSize ≤ nameLimit) (linked : h.node? (here ++ [n]) = some (.link target)) :
    h.Walk slash links (startOf here target) (stepsOf target ++ rest) last left →
      h.Walk slash (links + 1) here (n :: rest) last left

theorem approach_iff :
    h.approach links here slash steps = .ok (last, left) ↔ h.Walk slash links here steps last left := by
  constructor
  · intro reached
    fun_induction approach h links here slash steps with
    | case1 => cases reached; exact .stay
    | case2 _ _ _ ih => exact .dot (ih reached)
    | case3 _ _ _ _ ih => exact .up (ih reached)
    | case4 _ _ n rest dot up none =>
      cases List.isEmpty_iff.mp none
      cases reached
      exact .stop ⟨dot, up⟩
    | case5 | case6 | case8 | case9 => cases reached
    | case7 _ _ n rest dot up more fits dir ih =>
      exact .down ⟨dot, up⟩ (fun none => more (List.isEmpty_iff.mpr none)) (Nat.le_of_not_gt fits) dir (ih reached)
    | case10 _ n rest dot up more fits target linked _ ih =>
      exact .link ⟨dot, up⟩ (fun none => more (List.isEmpty_iff.mpr none)) (Nat.le_of_not_gt fits) linked (ih reached)
  · intro walk
    induction walk with
    | stay => rw [approach]
    | dot _ ih => rw [approach, if_pos rfl, ih]
    | up _ ih => rw [approach, if_neg (by decide), if_pos rfl, ih]
    | stop name => simp [approach, name.1, name.2]
    | down name more fits dir _ ih => simp [approach, name.1, name.2, more, Nat.not_lt.mpr fits, dir, ih]
    | link name more fits linked _ ih => simp [approach, name.1, name.2, more, Nat.not_lt.mpr fits, linked, ih]

/-- The last step of a walk is the last of its steps. -/
theorem Walk.name {dir : Trail} {n : String} {asked : Bool}
    (walk : h.Walk slash links here steps (.name dir n asked) left) :
    asked = slash ∧ IsName n ∧ ∃ init, steps = init ++ [n] := by
  generalize reached : LastStep.name dir n asked = last at walk
  induction walk with
  | stay => cases reached
  | stop name =>
    cases reached
    exact ⟨rfl, name, [], rfl⟩
  | dot _ ih | up _ ih =>
    obtain ⟨same, name, init, rfl⟩ := ih reached
    exact ⟨same, name, _ :: init, rfl⟩
  | down _ _ _ _ _ ih =>
    obtain ⟨same, name, init, rfl⟩ := ih reached
    exact ⟨same, name, _ :: init, rfl⟩
  | @link _ _ _ m target rest _ _ more _ _ _ ih =>
    obtain ⟨same, name, init, whole⟩ := ih reached
    rcases List.eq_nil_or_concat rest with none | ⟨front, k, rfl⟩
    · exact absurd none more
    · rw [List.concat_eq_append, ← List.append_assoc] at whole
      cases (List.append_inj' whole rfl).2
      exact ⟨same, name, m :: front, by rw [List.concat_eq_append, List.cons_append]⟩

theorem look_eq_ok {dir : Trail} {n : String} {x : Option Node} :
    h.look dir n = .ok x ↔ n.utf8ByteSize ≤ nameLimit ∧ h.node? (dir ++ [n]) = x := by
  unfold look
  split
  · rename_i long
    exact ⟨nofun, fun fits => absurd fits.1 (Nat.not_le.mpr long)⟩
  · rename_i fits
    exact ⟨fun same => ⟨Nat.le_of_not_gt fits, Except.ok.inj same⟩, fun same => congrArg Except.ok same.2⟩

/-- A walk that leads to something, through a link in its last step too, as `resolve` takes it. -/
inductive Arrives (h : Host) (making : Bool) : Nat → Trail → Bool → List String → Found → Prop where
  | directory {links left : Nat} {here t : Trail} {slash : Bool} {steps : List String}
    (walk : h.Walk slash links here steps (.directory t) left) : h.Arrives making links here slash steps (.entry t .dir)
  | vacant {links left : Nat} {here dir : Trail} {slash : Bool} {steps : List String} {n : String}
    (walk : h.Walk slash links here steps (.name dir n slash) left) (plain : (making && slash) = false)
    (fits : n.utf8ByteSize ≤ nameLimit) (none : h.node? (dir ++ [n]) = none) :
    h.Arrives making links here slash steps (.vacant (dir ++ [n]))
  | entry {links left : Nat} {here dir : Trail} {slash : Bool} {steps : List String} {n : String} {node : Node}
    (walk : h.Walk slash links here steps (.name dir n slash) left) (plain : (making && slash) = false)
    (fits : n.utf8ByteSize ≤ nameLimit) (there : h.node? (dir ++ [n]) = some node) (own : ∀ target, node ≠ .link target)
    (asked : slash = true → node = .dir) : h.Arrives making links here slash steps (.entry (dir ++ [n]) node)
  | link {links left : Nat} {here dir : Trail} {slash : Bool} {steps : List String} {n target : String} {found : Found}
    (walk : h.Walk slash links here steps (.name dir n slash) (left + 1)) (plain : (making && slash) = false)
    (fits : n.utf8ByteSize ≤ nameLimit) (linked : h.node? (dir ++ [n]) = some (.link target)) :
    h.Arrives making left (startOf dir target) (slash || endsInSlash target) (stepsOf target) found →
      h.Arrives making links here slash steps found

/-- `resolve` goes by what `approach` reaches. -/
theorem resolve_eq (h : Host) (making : Bool) (links : Nat) (here : Trail) (slash : Bool) (steps : List String) :
    h.resolve making links here slash steps = match h.approach links here slash steps with
      | .error cause => .error cause
      | .ok (.directory t, _) => .ok (.entry t .dir)
      | .ok (.name dir n slash, left) =>
        if making && slash then .error .isDirectory
        else match h.look dir n with
          | .error e => .error e
          | .ok none => .ok (.vacant (dir ++ [n]))
          | .ok (some (.link target)) =>
            match left with
            | 0 => .error .tooManySymlinks
            | left + 1 => h.resolve making left (startOf dir target) (slash || endsInSlash target) (stepsOf target)
          | .ok (some node) =>
            if slash && node != .dir then .error .notDirectory else .ok (.entry (dir ++ [n]) node) := by
  rw [resolve]
  split
  · rename_i reached
    rw [reached]
  · rename_i reached
    rw [reached]
  · rename_i dir n _ left reached
    cases left <;> rcases looked : h.look dir n with _ | _ | _ | _ | _ <;> simp only [reached, looked]

theorem resolve_iff :
    h.resolve making links here slash steps = .ok found ↔ h.Arrives making links here slash steps found := by
  constructor
  · intro arrived
    fun_induction resolve h making links here slash steps with
    | case1 | case3 | case4 | case6 | case8 => cases arrived
    | case2 _ _ _ _ _ _ reached =>
      cases arrived
      exact .directory (approach_iff.mp reached)
    | case5 _ _ _ _ _ _ _ _ reached plain none =>
      cases arrived
      have walk := approach_iff.mp reached
      cases walk.name.1
      obtain ⟨fits, none⟩ := look_eq_ok.mp none
      exact .vacant walk (Bool.eq_false_iff.mpr plain) fits none
    | case7 _ _ _ _ _ _ _ plain target linked left reached _ ih =>
      have walk := approach_iff.mp reached
      cases walk.name.1
      obtain ⟨fits, linked⟩ := look_eq_ok.mp linked
      exact .link walk (Bool.eq_false_iff.mpr plain) fits linked (ih arrived)
    | case9 _ _ _ _ _ _ _ _ reached plain node own there asked =>
      cases arrived
      have walk := approach_iff.mp reached
      cases walk.name.1
      obtain ⟨fits, there⟩ := look_eq_ok.mp there
      refine .entry walk (Bool.eq_false_iff.mpr plain) fits there own fun slash => ?_
      simpa [slash] using asked
  · intro arrives
    induction arrives with
    | directory walk => rw [resolve_eq, approach_iff.mpr walk]
    | vacant walk plain fits none =>
      rw [resolve_eq, approach_iff.mpr walk]
      simp only [plain, look_eq_ok.mpr ⟨fits, none⟩, Bool.false_eq_true, if_false]
    | @entry _ _ _ _ slash _ _ node walk plain fits there own asked =>
      have asked : (slash && node != .dir) = false := by
        cases slash with
        | false => rfl
        | true => simp [asked rfl]
      rw [resolve_eq, approach_iff.mpr walk]
      simp only [plain, look_eq_ok.mpr ⟨fits, there⟩, Bool.false_eq_true, if_false]
      cases node with
      | link target => exact absurd rfl (own target)
      | dir | file => simp only [asked, Bool.false_eq_true, if_false]
    | link walk plain fits linked _ ih =>
      rw [resolve_eq, approach_iff.mpr walk]
      simp only [plain, look_eq_ok.mpr ⟨fits, linked⟩, Bool.false_eq_true, if_false]
      exact ih

/-- A free name has no entry. -/
theorem Arrives.free (arrives : h.Arrives making links here slash steps (.vacant t)) :
    ∃ dir name, t = dir ++ [name] ∧ h.node? t = none := by
  generalize reached : Found.vacant t = found at arrives
  induction arrives with
  | directory | entry => cases reached
  | vacant _ _ _ none =>
    cases reached
    exact ⟨_, _, rfl, none⟩
  | link _ _ _ _ _ ih => exact ih reached

/-! ## On the way -/

/-- What is walked to from further on is walked to from here. -/
theorem Arrives.extend {links' : Nat} {here' : Trail} {steps' : List String}
    (extend : ∀ last left, h.Walk slash links here steps last left → h.Walk slash links' here' steps' last left)
    (arrives : h.Arrives making links here slash steps found) : h.Arrives making links' here' slash steps' found := by
  cases arrives with
  | directory walk => exact .directory (extend _ _ walk)
  | vacant walk plain fits none => exact .vacant (extend _ _ walk) plain fits none
  | entry walk plain fits there own asked => exact .entry (extend _ _ walk) plain fits there own asked
  | link walk plain fits linked arrives => exact .link (extend _ _ walk) plain fits linked arrives

/-- A walk goes through directories until its last step. -/
theorem Walk.through {init rest : List String} (walk : h.Walk slash links here (init ++ rest) last left)
    (more : rest ≠ [])
    (asked : Bool) : ∃ t, h.Arrives false links here asked init (.entry t .dir) := by
  generalize whole : init ++ rest = steps at walk
  induction walk generalizing init asked with
  | stay => exact absurd (List.append_eq_nil_iff.mp whole).2 more
  | dot _ ih =>
    rcases List.append_eq_cons_iff.mp whole with ⟨rfl, -⟩ | ⟨init', rfl, whole'⟩
    · exact ⟨_, .directory .stay⟩
    · obtain ⟨t, arrives⟩ := ih asked whole'.symm
      exact ⟨t, arrives.extend fun _ _ => .dot⟩
  | up _ ih =>
    rcases List.append_eq_cons_iff.mp whole with ⟨rfl, -⟩ | ⟨init', rfl, whole'⟩
    · exact ⟨_, .directory .stay⟩
    · obtain ⟨t, arrives⟩ := ih asked whole'.symm
      exact ⟨t, arrives.extend fun _ _ => .up⟩
  | stop name =>
    rcases List.append_eq_cons_iff.mp whole with ⟨rfl, -⟩ | ⟨init', rfl, whole'⟩
    · exact ⟨_, .directory .stay⟩
    · exact absurd (List.append_eq_nil_iff.mp whole'.symm).2 more
  | down name _ fits dir _ ih =>
    rcases List.append_eq_cons_iff.mp whole with ⟨rfl, -⟩ | ⟨init', rfl, whole'⟩
    · exact ⟨_, .directory .stay⟩
    · by_cases last : init' = []
      · subst last
        exact ⟨_, .entry (.stop name) rfl fits dir nofun fun _ => rfl⟩
      · obtain ⟨t, arrives⟩ := ih asked whole'.symm
        exact ⟨t, arrives.extend fun _ _ => .down name last fits dir⟩
  | @link _ _ _ _ target _ _ name _ fits linked _ ih =>
    rcases List.append_eq_cons_iff.mp whole with ⟨rfl, -⟩ | ⟨init', rfl, rfl⟩
    · exact ⟨_, .directory .stay⟩
    · have whole : (stepsOf target ++ init') ++ rest = stepsOf target ++ (init' ++ rest) := List.append_assoc _ _ _
      have onward (asked : Bool) := ih asked whole
      -- A link may stand in for the last name, and then its own text says whether a directory is asked for.
      by_cases last : init' = []
      · subst last
        obtain ⟨t, arrives⟩ := onward (asked || endsInSlash target)
        rw [List.append_nil] at arrives
        exact ⟨t, .link (.stop name) rfl fits linked arrives⟩
      · obtain ⟨t, arrives⟩ := onward asked
        exact ⟨t, arrives.extend fun _ _ => .link name last fits linked⟩

/-! ## What an absolute path leads to -/

theorem startOf_absolute {p : Path} (absolute : p.isAbsolute = true) (here : Trail) : startOf here p.text = [] := by
  obtain ⟨cs, text⟩ : ∃ cs, p.text.toList = '/' :: cs := by
    cases e : p.text.toList with
    | nil => simp [Path.isAbsolute, e] at absolute
    | cons c cs => simp [Path.isAbsolute, e] at absolute; exact ⟨cs, by rw [absolute]⟩
  rw [startOf, if_pos (String.startsWith_string_iff.mpr (by rw [text]; exact ⟨cs, rfl⟩))]

section

variable {p : Path} (absolute : p.isAbsolute = true)

include absolute

theorem lastStep_iff : h.lastStep p = .ok last ↔
    checkText p = .ok () ∧ ∃ left, h.Walk (endsInSlash p.text) linkLimit [] (stepsOf p.text) last left := by
  rw [lastStep, startOf_absolute absolute]
  cases checkText p with
  | error e => exact ⟨nofun, fun ok => nomatch ok.1⟩
  | ok _ =>
    simp only [true_and, ← approach_iff]
    rcases h.approach linkLimit [] (endsInSlash p.text) (stepsOf p.text) with e | ⟨last', left⟩
    · exact ⟨nofun, fun ⟨_, same⟩ => nomatch same⟩
    · constructor
      · intro same
        cases same
        exact ⟨left, rfl⟩
      · rintro ⟨_, same⟩
        cases same
        rfl

theorem locate_iff : h.locate making p = .ok found ↔
    checkText p = .ok () ∧ h.Arrives making linkLimit [] (endsInSlash p.text) (stepsOf p.text) found := by
  rw [locate, startOf_absolute absolute, ← resolve_iff]
  cases checkText p with
  | error e => exact ⟨nofun, fun ok => nomatch ok.1⟩
  | ok _ => exact ⟨fun ok => ⟨rfl, ok⟩, And.right⟩

theorem find_iff : h.find p = .ok (t, n) ↔
    checkText p = .ok () ∧ h.Arrives false linkLimit [] (endsInSlash p.text) (stepsOf p.text) (.entry t n) := by
  rw [← locate_iff absolute, find]
  rcases h.locate false p with e | ⟨t', n'⟩ | t'
  · exact ⟨nofun, nofun⟩
  · constructor <;> intro same <;> cases same <;> rfl
  · exact ⟨nofun, nofun⟩

end

/-! ## What a walk depends on -/

def Stands (h : Host) (t : Trail) (n : Node) : Prop :=
  h.node? t = some n ∧ ∀ d, d <+: t → d ≠ t → h.node? d = some .dir

theorem stands_nil (h : Host) : h.Stands [] .dir := ⟨rfl, fun _ below other => absurd (List.prefix_nil.mp below) other⟩

theorem Stands.prefix_dir (stands : h.Stands t .dir) (below : d <+: t) : h.Stands d .dir := by
  have dirs : ∀ d, d <+: t → h.node? d = some .dir := by
    intro d below
    by_cases same : d = t
    · exact same ▸ stands.1
    · exact stands.2 d below same
  exact ⟨dirs d below, fun e lower _ => dirs e (lower.trans below)⟩

theorem Stands.above {name : String} (stands : h.Stands here .dir) (found : h.node? (here ++ [name]) = some n) :
    h.Stands (here ++ [name]) n := by
  refine ⟨found, fun d below other => ?_⟩
  rcases List.prefix_concat_iff.mp below with same | below
  · exact absurd same other
  · exact (stands.prefix_dir below).1

theorem Stands.start (stands : h.Stands here .dir) (target : String) : h.Stands (startOf here target) .dir := by
  unfold startOf
  split
  · exact h.stands_nil
  · exact stands

def Within (h h' : Host) : Prop := ∀ t n, h.Stands t n → h'.node? t = some n

theorem Within.stands (within : h.Within h') (stands : h.Stands t n) : h'.Stands t n := by
  refine ⟨within t n stands, fun d below other => within d .dir ⟨stands.2 d below other, fun e lower differs => ?_⟩⟩
  refine stands.2 e (lower.trans below) fun same => ?_
  subst same
  exact differs (lower.eq_of_length (Nat.le_antisymm lower.length_le below.length_le))

theorem Within.trans (within : h.Within h') (within' : h'.Within h'') : h.Within h'' :=
  fun t n stands => within' t n (within.stands stands)

def LastStep.dir : LastStep → Trail
  | .name dir _ _ => dir
  | .directory t => t

theorem Walk.within (within : h.Within h') (walk : h.Walk slash links here steps last left)
    (stands : h.Stands here .dir) :
    h'.Walk slash links here steps last left ∧ h.Stands last.dir .dir := by
  induction walk with
  | stay => exact ⟨.stay, stands⟩
  | dot _ ih => exact (ih stands).imp_left .dot
  | up _ ih => exact (ih (stands.prefix_dir (List.dropLast_prefix _))).imp_left .up
  | stop name => exact ⟨.stop name, stands⟩
  | down name more fits dir _ ih =>
    have below := stands.above dir
    exact (ih below).imp_left (.down name more fits (within _ _ below))
  | link name more fits linked _ ih =>
    exact (ih (stands.start _)).imp_left (.link name more fits (within _ _ (stands.above linked)))

theorem Arrives.within (within : h.Within h') (arrives : h.Arrives making links here slash steps (.entry t n))
    (stands : h.Stands here .dir) : h'.Arrives making links here slash steps (.entry t n) ∧ h.Stands t n := by
  generalize reached : Found.entry t n = found at arrives
  induction arrives with
  | directory walk =>
    cases reached
    obtain ⟨walk, there⟩ := walk.within within stands
    exact ⟨.directory walk, there⟩
  | vacant => cases reached
  | entry walk plain fits there own asked =>
    cases reached
    obtain ⟨walk, dir⟩ := walk.within within stands
    have there := dir.above there
    exact ⟨.entry walk plain fits (within _ _ there) own asked, there⟩
  | link walk plain fits linked _ ih =>
    obtain ⟨walk, dir⟩ := walk.within within stands
    obtain ⟨arrives, there⟩ := ih (dir.start _) reached
    exact ⟨.link walk plain fits (within _ _ (dir.above linked)) arrives, there⟩

section

variable {p : Path} (absolute : p.isAbsolute = true) (within : h.Within h')

include absolute within

theorem find_within (found : h.find p = .ok (t, n)) : h'.find p = .ok (t, n) ∧ h.Stands t n := by
  obtain ⟨checked, arrives⟩ := (find_iff absolute).mp found
  obtain ⟨arrives, stands⟩ := arrives.within within h.stands_nil
  exact ⟨(find_iff absolute).mpr ⟨checked, arrives⟩, stands⟩

theorem lastStep_within (reached : h.lastStep p = .ok last) : h'.lastStep p = .ok last ∧ h.Stands last.dir .dir := by
  obtain ⟨checked, left, walk⟩ := (lastStep_iff absolute).mp reached
  obtain ⟨walk, stands⟩ := walk.within within h.stands_nil
  exact ⟨(lastStep_iff absolute).mpr ⟨checked, left, walk⟩, stands⟩

end

end DurableValue.Disk.Host
