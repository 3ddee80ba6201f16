/-
  DurableValue.Proofs.Store.Registry — the registry and its guards.

  A ledger is a registry with the guards that were given out, in order (`Ledger`). An acquisition adds an entry and
  hands a guard out, a release takes an entry away, and a guard that is dropped takes away the entry that it stands
  for. A guard is known by its path only. When an entry is released behind a guard's back and acquired again, the old
  guard stands for the entry of the new owner.

  Proved:
  - `single_run`: as long as an entry is never released, it is active while a guard of it is out, and no two are.
  - `owned_act`, `owned_run`: an entry lasts until it is released, its guard is dropped, or a guard of the same path
    that was out before is dropped.
  - `only_a_stale_guard_frees_a_newer_owner`: the last of these is the one way in which an owner loses its entry to
    somebody else, and there is such a guard only where the entry was released before
    (`a_stale_guard_frees_its_successor`).
-/
import DurableValue.Store.Registry

namespace DurableValue.Store

abbrev Entry := List Path.Component

theorem Registry.isActive_iff {r : Registry} {p : Path} : r.isActive p = true ↔ p.components ∈ r.active :=
  List.contains_iff_mem

/-- What is given back is free. -/
theorem isActive_release (r : Registry) (p : Path) : (r.release p).isActive p = false := by
  simp [Registry.isActive, Registry.release]

namespace Registry

theorem mem_release {r : Registry} {p : Path} {k : Entry} :
    k ∈ (r.release p).active ↔ k ∈ r.active ∧ k ≠ p.components := by
  simp [release]

theorem acquire_taken {r : Registry} {p : Path} (taken : r.isActive p = true) :
    r.acquire p = (.error (.pathInUse p), r) := by
  rw [acquire, if_pos taken]

theorem acquire_free {r : Registry} {p : Path} (free : r.isActive p = false) :
    r.acquire p = (.ok ⟨p⟩, { active := p.components :: r.active }) := by
  rw [acquire, if_neg (Bool.eq_false_iff.mp free)]

end Registry

/-- A registry with the guards that were given out, in order, and none where one was dropped. -/
structure Ledger where
  registry : Registry := {}
  guards : List (Option Guard) := []
  deriving DecidableEq, Repr

namespace Ledger

/-- What users of a registry do. A guard is dropped by its number. -/
inductive Act where
  | acquire (p : Path)
  | release (p : Path)
  | drop (n : Nat)
  deriving DecidableEq, Repr

def act (l : Ledger) : Act → Ledger
  | .acquire p =>
    match l.registry.acquire p with
    | (.ok g, r) => { registry := r, guards := l.guards ++ [some g] }
    | (.error _, r) => { l with registry := r }
  | .release p => { l with registry := l.registry.release p }
  | .drop n =>
    match l.guards[n]? with
    | some (some g) => { registry := l.registry.drop g, guards := l.guards.set n none }
    | _ => l

def run (l : Ledger) (acts : List Act) : Ledger := acts.foldl act l

/-- Whether the guard with a number is out and stands for an entry. -/
def Holds (l : Ledger) (n : Nat) (k : Entry) : Prop := ∃ g, l.guards[n]? = some (some g) ∧ g.path.components = k

def Act.Releases (k : Entry) : Act → Prop
  | .release p => p.components = k
  | _ => False

variable {l : Ledger} {p : Path} {k : Entry} {n i : Nat}

/-! ## What an act does to an entry and to its guards -/

theorem act_taken (taken : l.registry.isActive p = true) : l.act (.acquire p) = l := by
  simp only [act, Registry.acquire_taken taken]

theorem act_free (free : l.registry.isActive p = false) :
    l.act (.acquire p) =
      { registry := { active := p.components :: l.registry.active }, guards := l.guards ++ [some ⟨p⟩] } := by
  simp only [act, Registry.acquire_free free]

theorem mem_acquire : k ∈ (l.act (.acquire p)).registry.active ↔ k ∈ l.registry.active ∨ k = p.components := by
  cases taken : l.registry.isActive p with
  | true =>
    rw [act_taken taken]
    refine ⟨Or.inl, fun h => h.elim id ?_⟩
    rintro rfl
    exact Registry.isActive_iff.mp taken
  | false =>
    rw [act_free taken, List.mem_cons]
    exact or_comm

/-- An acquisition that is refused hands no guard out, and one that is granted hands out one, the next in number. -/
theorem holds_acquire : (l.act (.acquire p)).Holds i k ↔
    l.Holds i k ∨ (l.registry.isActive p = false ∧ i = l.guards.length ∧ p.components = k) := by
  cases taken : l.registry.isActive p with
  | true =>
    rw [act_taken taken]
    simp
  | false =>
    rw [act_free taken]
    simp only [Holds, true_and]
    rcases Nat.lt_trichotomy i l.guards.length with old | new | beyond
    · rw [List.getElem?_append_left old]
      have other : i ≠ l.guards.length := Nat.ne_of_lt old
      simp [other]
    · rw [new, List.getElem?_append_right (Nat.le_refl _)]
      simp
    · have past : (l.guards ++ [some (Guard.mk p)]).length ≤ i := by
        rw [List.length_append, List.length_singleton]
        omega
      rw [List.getElem?_eq_none past, List.getElem?_eq_none (Nat.le_of_lt beyond)]
      have other : i ≠ l.guards.length := Nat.ne_of_gt beyond
      simp [other]

theorem act_drop {g : Guard} (out : l.guards[n]? = some (some g)) :
    l.act (.drop n) = { registry := l.registry.drop g, guards := l.guards.set n none } := by
  simp only [act, out]

theorem act_drop_idle (idle : ∀ k, ¬ l.Holds n k) : l.act (.drop n) = l := by
  rcases found : l.guards[n]? with _ | _ | g
  · simp only [act, found]
  · simp only [act, found]
  · exact absurd ⟨g, found, rfl⟩ (idle g.path.components)

/-- A guard that is dropped takes the entry away that it stands for. -/
theorem mem_drop : k ∈ (l.act (.drop n)).registry.active ↔ k ∈ l.registry.active ∧ ¬ l.Holds n k := by
  by_cases held : ∃ j, l.Holds n j
  · obtain ⟨j, g, out, rfl⟩ := held
    have stands : l.Holds n k ↔ k = g.path.components := by
      unfold Holds
      rw [out]
      simp [eq_comm]
    rw [act_drop out, stands]
    exact Registry.mem_release
  · have idle (j : Entry) : ¬ l.Holds n j := fun h => held ⟨j, h⟩
    rw [act_drop_idle idle]
    exact ⟨fun h => ⟨h, idle k⟩, And.left⟩

theorem holds_drop : (l.act (.drop n)).Holds i k ↔ l.Holds i k ∧ i ≠ n := by
  by_cases held : ∃ j, l.Holds n j
  · obtain ⟨j, g, out, -⟩ := held
    rw [act_drop out]
    unfold Holds
    by_cases same : i = n
    · have inside : n < l.guards.length := (List.getElem?_eq_some_iff.mp out).1
      simp [same, inside]
    · rw [List.getElem?_set_ne (Ne.symm same)]
      exact ⟨fun h => ⟨h, same⟩, And.left⟩
  · have idle (j : Entry) : ¬ l.Holds n j := fun h => held ⟨j, h⟩
    rw [act_drop_idle idle]
    refine ⟨fun h => ⟨h, ?_⟩, And.left⟩
    rintro rfl
    exact idle k h

/-! ## Runs -/

/-- Where an entry was never released, it is active while a guard of it is out, and no two are. -/
structure Single (l : Ledger) (k : Entry) : Prop where
  active : ∀ {i}, l.Holds i k → k ∈ l.registry.active
  one : ∀ {i j}, l.Holds i k → l.Holds j k → i = j

theorem single_act {a : Act} (single : l.Single k) (other : ¬ a.Releases k) : (l.act a).Single k := by
  cases a with
  | acquire p =>
    have fresh {i : Nat} (held : l.Holds i k) : ¬ (l.registry.isActive p = false ∧ p.components = k) := by
      rintro ⟨free, rfl⟩
      rw [Registry.isActive_iff.mpr (single.active held)] at free
      cases free
    constructor
    · intro i held
      rw [mem_acquire]
      rcases holds_acquire.mp held with old | ⟨-, -, same⟩
      · exact Or.inl (single.active old)
      · exact Or.inr same.symm
    · intro i j held held'
      rcases holds_acquire.mp held with old | ⟨free, at_i, same⟩
      · rcases holds_acquire.mp held' with old' | ⟨free, -, same⟩
        · exact single.one old old'
        · exact absurd ⟨free, same⟩ (fresh old)
      · rcases holds_acquire.mp held' with old' | ⟨-, at_j, -⟩
        · exact absurd ⟨free, same⟩ (fresh old')
        · exact at_i.trans at_j.symm
  | release p =>
    have ne : k ≠ p.components := fun same => other same.symm
    exact ⟨fun held => Registry.mem_release.mpr ⟨single.active held, ne⟩, single.one⟩
  | drop n =>
    constructor
    · intro i held
      obtain ⟨held, ne⟩ := holds_drop.mp held
      exact mem_drop.mpr ⟨single.active held, fun dropped => ne (single.one held dropped)⟩
    · intro i j held held'
      exact single.one (holds_drop.mp held).1 (holds_drop.mp held').1

theorem single_run {acts : List Act} (single : l.Single k) (others : ∀ a ∈ acts, ¬ a.Releases k) :
    (l.run acts).Single k := by
  induction acts generalizing l with
  | nil => exact single
  | cons a acts ih =>
    have first := single_act single (others a List.mem_cons_self)
    exact ih first fun a ha => others a (List.mem_cons_of_mem _ ha)

/-- An entry that is active, with no guard of it out but those that `mine` allows. -/
structure Owned (l : Ledger) (k : Entry) (mine : Nat → Prop) : Prop where
  active : k ∈ l.registry.active
  guards : ∀ i, l.Holds i k → mine i

theorem owned_act {a : Act} {mine : Nat → Prop} (owned : l.Owned k mine) (other : ¬ a.Releases k)
    (kept : ∀ n, mine n → a ≠ .drop n) : (l.act a).Owned k mine := by
  cases a with
  | acquire p =>
    refine ⟨mem_acquire.mpr (Or.inl owned.active), fun i held => ?_⟩
    rcases holds_acquire.mp held with old | ⟨free, -, rfl⟩
    · exact owned.guards i old
    · -- The entry is taken, so nobody is given a guard of it.
      rw [Registry.isActive_iff.mpr owned.active] at free
      cases free
  | release p =>
    have ne : k ≠ p.components := fun same => other same.symm
    exact ⟨Registry.mem_release.mpr ⟨owned.active, ne⟩, owned.guards⟩
  | drop n =>
    refine ⟨mem_drop.mpr ⟨owned.active, fun held => kept n (owned.guards n held) rfl⟩, fun i held => ?_⟩
    exact owned.guards i (holds_drop.mp held).1

theorem owned_run {acts : List Act} {mine : Nat → Prop} (owned : l.Owned k mine) (others : ∀ a ∈ acts, ¬ a.Releases k)
    (kept : ∀ n, mine n → .drop n ∉ acts) : (l.run acts).Owned k mine := by
  induction acts generalizing l with
  | nil => exact owned
  | cons a acts ih =>
    have first := owned_act owned (others a List.mem_cons_self) fun n hn same =>
      kept n hn (same ▸ List.mem_cons_self)
    exact ih first (fun a ha => others a (List.mem_cons_of_mem _ ha)) fun n hn dropped =>
      kept n hn (List.mem_cons_of_mem _ dropped)

theorem free_of_acquired {g : Guard} (acquired : (l.registry.acquire p).1 = .ok g) : l.registry.isActive p = false := by
  cases taken : l.registry.isActive p with
  | false => rfl
  | true =>
    rw [Registry.acquire_taken taken] at acquired
    cases acquired

/-- Behind an acquisition the entry is active, with no guard of it but those that were out and the next in number. -/
theorem owned_acquire (l : Ledger) (p : Path) :
    (l.act (.acquire p)).Owned p.components fun i => l.Holds i p.components ∨ i = l.guards.length := by
  refine ⟨mem_acquire.mpr (Or.inr rfl), fun i held => ?_⟩
  rcases holds_acquire.mp held with old | ⟨-, new, -⟩
  · exact Or.inl old
  · exact Or.inr new

/-- A guard of an entry that is free is out only where the entry was released. -/
theorem released_of_stale {acts : List Act} (free : (run {} acts).registry.isActive p = false)
    (stale : (run {} acts).Holds i p.components) : ∃ a ∈ acts, a.Releases p.components := by
  -- Without a release the guard would still own the entry.
  apply Classical.byContradiction
  intro unreleased
  have none (i : Nat) : ¬ Holds {} i p.components := by
    rintro ⟨g, out, -⟩
    cases out
  have begins : Single {} p.components := ⟨fun held => absurd held (none _), fun held => absurd held (none _)⟩
  have single := single_run begins fun a ha released => unreleased ⟨a, ha, released⟩
  rw [Registry.isActive_iff.mpr (single.active stale)] at free
  cases free

/-- **Only a stale guard frees a newer owner.** From an acquisition that was granted on, the entry is active and every
further acquisition of it is refused, in any spelling, until it is released, the guard handed out is dropped, or a
guard of the same entry is dropped that was out before. Such a guard takes the entry away from its owner. It can be out
only if the entry was released before; where nobody released it, an owner keeps its entry from everybody else. -/
theorem only_a_stale_guard_frees_a_newer_owner (before : List Act) (p : Path) (g : Guard)
    (acquired : ((run {} before).registry.acquire p).1 = .ok g) :
    let l := run {} before
    let owned := l.act (.acquire p)
    owned.Holds l.guards.length p.components ∧
    (∀ later : List Act, (∀ a ∈ later, ¬ a.Releases p.components) → .drop l.guards.length ∉ later →
      (∀ i, l.Holds i p.components → .drop i ∉ later) →
      (owned.run later).registry.isActive p = true ∧
      ∀ q : Path, q.components = p.components →
        (owned.run later).registry.acquire q = (.error (.pathInUse q), (owned.run later).registry)) ∧
    (∀ i, l.Holds i p.components →
      (owned.act (.drop i)).registry.isActive p = false ∧ (owned.act (.drop i)).Holds l.guards.length p.components) ∧
    ((∃ i, l.Holds i p.components) → ∃ a ∈ before, a.Releases p.components) := by
  intro l owned
  have free : l.registry.isActive p = false := free_of_acquired acquired
  have handed : owned.Holds l.guards.length p.components := holds_acquire.mpr (Or.inr ⟨free, rfl, rfl⟩)
  refine ⟨handed, fun later unreleased undropped unstale => ?_, fun i stale => ⟨?_, ?_⟩,
    fun ⟨i, stale⟩ => released_of_stale free stale⟩
  · have ends := owned_run (owned_acquire l p) unreleased fun n mine => by
      rcases mine with stale | rfl
      · exact unstale n stale
      · exact undropped
    refine ⟨Registry.isActive_iff.mpr ends.active, fun q same => Registry.acquire_taken ?_⟩
    exact Registry.isActive_iff.mpr (same ▸ ends.active)
  · have still : owned.Holds i p.components := holds_acquire.mpr (Or.inl stale)
    rw [Bool.eq_false_iff]
    intro active
    exact (mem_drop.mp (Registry.isActive_iff.mp active)).2 still
  · refine holds_drop.mpr ⟨handed, ?_⟩
    rintro rfl
    obtain ⟨g, out, -⟩ := stale
    have inside := (List.getElem?_eq_some_iff.mp out).1
    exact Nat.lt_irrefl _ inside

/-- A path that was acquired and dropped is acquired in another spelling, and keeps its owner from then on. -/
theorem a_spelling_acquired_again_is_kept :
    let p : Path := ⟨"/r//v"⟩
    let l := run {} [.acquire ⟨"/r/v"⟩, .drop 0]
    let later : List Act := [.acquire ⟨"/r/v"⟩, .drop 0, .release ⟨"/r/w"⟩]
    (l.registry.acquire p).1 = .ok ⟨p⟩ ∧ ((l.act (.acquire p)).run later).registry.isActive p = true := by
  intro p l later
  have free : l.registry.isActive p = false := by decide +kernel
  have acquired : (l.registry.acquire p).1 = .ok ⟨p⟩ := congrArg Prod.fst (Registry.acquire_free free)
  have guards : l.guards = [none] := by decide +kernel
  have held (i : Nat) : ¬ l.Holds i p.components := by
    rintro ⟨g, out, -⟩
    rw [guards] at out
    rcases i with _ | i <;> cases out
  have others : ∀ a ∈ later, ¬ a.Releases p.components := by
    have apart : (⟨"/r/w"⟩ : Path).components ≠ p.components := by decide +kernel
    simpa [later, Act.Releases] using apart
  have kept := (only_a_stale_guard_frees_a_newer_owner [.acquire ⟨"/r/v"⟩, .drop 0] p ⟨p⟩ acquired).2.1 later others
  refine ⟨acquired, (kept ?_ fun i stale => absurd stale (held i)).1⟩
  show Act.drop l.guards.length ∉ later
  rw [guards]
  decide

/-- The first guard is out although its entry was released, and dropping it frees the entry of the second owner, so
that a third one is let in while the second still holds its guard. -/
theorem a_stale_guard_frees_its_successor :
    let p : Path := ⟨"/r/v"⟩
    let owned := run {} [.acquire p, .release p, .acquire p]
    let freed := owned.act (.drop 0)
    owned.registry.isActive p = true ∧ freed.registry.isActive p = false ∧ freed.guards = [none, some ⟨p⟩] ∧
      (freed.registry.acquire p).1.isOk = true := by
  decide +kernel

end Ledger

end DurableValue.Store
