/-
  DurableValue.Proofs.Cell.Owners — one live owner for each path of a process.

  A process has any number of file systems in memory, and holders that may own a path on one of them: cells, and
  stores that were opened by themselves. What a holder holds is an entry of the registry. A cell holds that of its
  path from the moment the path is claimed, when the cell is built or when its path is first needed, until it is
  closed; that it is final makes no difference (`Worker.held`).

  Each step changes one holder at most. That holder claims an entry which is free, gives back its own, or leaves the
  registry as it is (`Shift`), and it gives its entry back only when it is itself closed or dropped. A request asks
  the registry once at most, before it touches the disk, so requests of different cells are taken here as if they came
  one after another.

  Proved:
  - `shifts_happen`: an event of a cell is such a shift.
  - `changes_step`: a step of the process changes one holder (one step).
  - `sound_reached`: the entries that are held are those of the registry, each held once, in every state that a
    process can reach.
  - `one_live_owner`: so there is one owner, a second one is refused and changes nothing, and closing frees the path.
-/
import Mathlib.Logic.Function.Basic
import DurableValue.Proofs.Cell.Seats
import DurableValue.Proofs.Store.Moves
import DurableValue.Proofs.Store.Registry

namespace DurableValue

open Disk (FileSystem Memory)

namespace Store

/-- What one act does to an owner, who holds `k` before and `k'` after, and to the registry: nothing, or the owner
claims an entry that is free, or gives back its own, if the act may do that. -/
inductive Shift (mayFree : Prop) (k k' : Option Entry) (r r' : Registry) : Prop where
  | still (same : k' = k) (kept : r' = r)
  | claimed (p : Path) (before : k = none) (after : k' = some p.components) (free : r.isActive p = false)
    (entered : r' = ⟨p.components :: r.active⟩)
  | freed (p : Path) (may : mayFree) (before : k = some p.components) (after : k' = none) (left : r' = r.release p)

theorem Shift.mono {mayFree mayFree' : Prop} {k k' : Option Entry} {r r' : Registry} (h : Shift mayFree k k' r r')
    (imp : mayFree → mayFree') : Shift mayFree' k k' r r' := by
  cases h with
  | still same kept => exact .still same kept
  | claimed p before after free entered => exact .claimed p before after free entered
  | freed p may before after left => exact .freed p (imp may) before after left

/-- A store that is opened has claimed the key of its path, which was free. -/
theorem openExclusive_ok {F H : Type} [FileSystem F H] {disk : F} {r r' : Registry} {p : Path} {o : Options}
    {e : Exclusive} (h : openExclusive disk r p o = (.ok e, r')) :
    checkPath p = .ok () ∧ e.store.path = p ∧ e.guard.path = FileSystem.canonicalKey disk p ∧
      r.isActive e.guard.path = false ∧ r' = ⟨e.guard.path.components :: r.active⟩ := by
  have new := Cell.openExclusive_new h
  unfold openExclusive at h
  split at h
  · cases h
  · split at h <;> cases h
    rename_i acquired
    unfold Registry.acquire at acquired
    split at acquired <;> cases acquired
    rename_i free
    exact ⟨Cell.new_accepted new, Cell.new_path new, rfl, Bool.eq_false_iff.mpr free, rfl⟩

end Store

namespace Cell

open Store (Entry Registry Shift)

variable {F H V : Type} [FileSystem F H]

/-! ## A cell as an owner -/

/-- The entry that a cell holds: that of its path, from when it is claimed until the worker ends. A cell that is final
holds it still. -/
def Worker.held (w : Worker V) : Option Entry :=
  match w.life, w.target with
  | .serving, .opened e => some e.guard.path.components
  | _, _ => none

namespace Session

variable {c c' c₁ : Session F V}

def tenure (c : Session F V) : Option Entry × Registry := (c.worker.held, c.bench.registry)

theorem unmoved_tenure : Unmoved (F := F) (V := V) tenure where
  gist same := by
    have alike := congrArg tenure same
    exact alike
  call _ _ := rfl
  enter _ _ := rfl
  final c cause := by
    have alike := congrArg tenure (gist_enterFinal c cause)
    exact alike
  work performs within := by
    obtain ⟨worker, us, -, done, -⟩ := performed performs within
    refine Prod.ext ?_ done.registry
    simp only [tenure]
    rw [worker]
    rfl

def Shifts (mayFree : Prop) (c c' : Session F V) : Prop :=
  Shift mayFree c.worker.held c'.worker.held c.bench.registry c'.bench.registry

theorem shifts_of_tenure {mayFree : Prop} (same : c'.tenure = c.tenure) : Shifts mayFree c c' := by
  obtain ⟨held, registry⟩ := Prod.mk.inj same
  exact .still held registry

theorem Shifts.trans {mayFree : Prop} (h : Shifts mayFree c c₁) (same : c'.tenure = c₁.tenure) :
    Shifts mayFree c c' := by
  obtain ⟨held, registry⟩ := Prod.mk.inj same
  unfold Shifts
  rw [held, registry]
  exact h

theorem Resolving.shifts {x : Resolved} (serving : c.worker.life = .serving) (h : Resolving c x c') :
    Shifts False c c' := by
  cases h with
  | opened => exact .still rfl rfl
  | unavailable => exact .still rfl rfl
  | panicked target => exact .still (by simp [Worker.held, target, onWorker, call]) rfl
  | taken target => exact .still (by simp [Worker.held, target]) rfl
  | claimed target exclusive =>
    obtain ⟨-, -, -, free, entered⟩ := Store.openExclusive_ok exclusive
    exact .claimed _ (by simp [Worker.held, target]) (by simp [Worker.held, serving]) free entered

/-- Seeing to a value claims an entry at most. -/
theorem shifts_opened {a : Except Halt Unit} (serving : c.worker.life = .serving) (h : Opened c a c') :
    Shifts False c c' := by
  have resolves {x : Resolved} {c₁ : Session F V} (h : Resolving (c.onWorker (·.reveal .initializing)) x c₁) :
      Shifts False c c₁ := by
    have shifts : Shifts False (c.onWorker (·.reveal .initializing)) c₁ := Resolving.shifts serving h
    exact shifts
  cases h with
  | ready => exact .still rfl rfl
  | final => exact .still rfl rfl
  | broke _ resolved =>
    refine (resolves resolved).trans (Prod.ext ?_ rfl)
    cases resolved
    simp [tenure, Worker.held, onWorker]
  | refused _ resolved => exact (resolves resolved).trans (unmoved_tenure.final _ _)
  | failed _ resolved performs =>
    have worked := unmoved_tenure.work performs (Task.within_firstValue _)
    exact (resolves resolved).trans ((unmoved_tenure.final _ _).trans worked)
  | began _ resolved performs =>
    have worked := unmoved_tenure.work performs (Task.within_firstValue _)
    exact (resolves resolved).trans ((unmoved_tenure.enter _ _).trans worked)

/-- Closing gives back the entry that the cell holds. -/
theorem shifts_shutDown (serving : c.worker.life = .serving) : Shifts True c c.shutDown := by
  have held : c.shutDown.worker.held = none := congrArg (·.worker.held) (gist_shutDown c)
  have registry : c.shutDown.bench.registry = c.releasePath.bench.registry :=
    congrArg (·.bench.registry) (gist_shutDown c)
  cases target : c.worker.target with
  | opened e =>
    refine .freed e.guard.path trivial (by simp [Worker.held, serving, target]) held (registry.trans ?_)
    simp only [releasePath, target]
    rfl
  | deferred p =>
    exact .still (held.trans (by simp [Worker.held, target])) (registry.trans (by simp [releasePath, target]))
  | unavailable =>
    exact .still (held.trans (by simp [Worker.held, target])) (registry.trans (by simp [releasePath, target]))

/-- Whatever happens to a cell, it claims one free entry at most, and gives it back only when it is closed. -/
theorem shifts_happen (e : Event F V) : Shifts (e = .request .close) c (c.happen e).2 := by
  cases e with
  | request r =>
    cases life : c.worker.life with
    | serving =>
      have ensures := shifts_opened life (opened c)
      have way := served c r
      simp only [happen, serve, life]
      generalize (c.handle r).2 = c' at way ⊢
      cases way with
      | idle _ gist => exact shifts_of_tenure (unmoved_tenure.gist gist)
      | closed => exact (shifts_shutDown life).mono fun _ => rfl
      | ensured _ gist => exact (ensures.trans (unmoved_tenure.gist gist)).mono False.elim
      | updated ok _ state =>
        rw [ok] at ensures
        exact (ensures.trans (unmoved_tenure.updated (updated state _))).mono False.elim
    | closed =>
      simp only [happen, serve, life]
      exact shifts_of_tenure (unmoved_tenure.gist (gist_refuse c r))
    | broken =>
      simp only [happen, serve, life]
      exact shifts_of_tenure (unmoved_tenure.gist (gist_forsake c r))
  | receivers f => exact .still rfl rfl
  | outside f => exact .still rfl rfl

/-! ## Refusals -/

def IsRefused (c : Session F V) : Prop := ∃ cause, c.worker.state = .final (.final cause) ∧ cause.code = .configInvalid

theorem code_of_final {cause : Error} (h : IsRefused (c.enterFinal cause).2) : cause.code = .configInvalid := by
  obtain ⟨blamed, state, code⟩ := h
  have entered : (c.enterFinal cause).2.worker.state = .final (.final cause) :=
    congrArg (·.worker.state) (gist_enterFinal c cause)
  cases state.symm.trans entered
  exact code

/-- Where the path is refused nothing is claimed, the disk is left alone, and the cell has no path from then on. -/
theorem refused_opened {a : Except Halt Unit} (h : Opened c a c') (refused : c'.IsRefused) :
    c' = c ∨ c'.bench.disk = c.bench.disk ∧ c'.bench.registry = c.bench.registry ∧ c'.worker.target = .unavailable := by
  cases h with
  | ready => exact Or.inl rfl
  | final => exact Or.inl rfl
  | broke fresh resolved =>
    obtain ⟨cause, state, -⟩ := refused
    cases resolved
    cases fresh.symm.trans state
  | refused fresh resolved =>
    rename_i c₁ cause
    have disk : (c₁.enterFinal cause).2.bench.disk = c₁.bench.disk :=
      congrArg (·.bench.disk) (gist_enterFinal c₁ cause)
    have registry : (c₁.enterFinal cause).2.bench.registry = c₁.bench.registry :=
      congrArg (·.bench.registry) (gist_enterFinal c₁ cause)
    obtain ⟨-, same, -⟩ : (c₁.enterFinal cause).2.worker.setup = c₁.worker.setup ∧
      (c₁.enterFinal cause).2.worker.target = c₁.worker.target ∧ _ := Worker.of_fixed (fixed_enterFinal cause)
    rw [disk, registry, same]
    cases resolved with
    | unavailable target => exact Or.inr ⟨rfl, rfl, target⟩
    | taken => exact Or.inr ⟨rfl, rfl, rfl⟩
  | failed _ _ performs =>
    obtain ⟨-, us, -, -, proper⟩ := performed performs (Task.within_firstValue _)
    exact absurd (code_of_final refused) (code_stopError proper _ _)
  | began =>
    obtain ⟨cause, state, -⟩ := refused
    cases state

/-- A commit never makes a cell final for its path. -/
theorem refused_updated {transform : V → Outcome V} {v : V} {n : Nat} {a : Except Error V}
    (state : c.worker.state = .ready v n) (h : Updated c transform v n a c') : ¬ c'.IsRefused := by
  intro refused
  cases h with
  | rejected =>
    obtain ⟨cause, final, -⟩ := refused
    cases state.symm.trans final
  | unchanged =>
    obtain ⟨cause, final, -⟩ := refused
    cases state.symm.trans final
  | committed result changed target performs =>
    obtain ⟨cause, final, -⟩ := refused
    cases (state_of_gist (gist_publish _ _)).symm.trans final
  | lost _ _ _ performs =>
    obtain ⟨-, us, -, -, proper⟩ := performed performs (Task.within_writeValue _)
    exact code_stopError proper _ _ (code_of_final refused)
  | homeless => cases code_of_final refused

/-- A request that finds or makes a cell final for its path changes neither the disk nor the registry. -/
theorem refused_happen {r : Request V} (other : r ≠ .close) (refused : (c.happen (.request r)).2.IsRefused) :
    (c.happen (.request r)).2.bench.disk = c.bench.disk ∧
      (c.happen (.request r)).2.bench.registry = c.bench.registry := by
  have alike {c₁ c₂ : Session F V} (gist : c₂.gist = c₁.gist) :
      c₂.bench.disk = c₁.bench.disk ∧ c₂.bench.registry = c₁.bench.registry :=
    ⟨congrArg (·.bench.disk) gist, congrArg (·.bench.registry) gist⟩
  cases life : c.worker.life with
  | serving =>
    have ensures := refused_opened (opened c)
    have way := served c r
    simp only [happen, serve, life] at refused ⊢
    generalize (c.handle r).2 = c' at way refused ⊢
    cases way with
    | idle _ gist => exact alike gist
    | closed => exact absurd rfl other
    | ensured _ gist =>
      rw [(alike gist).1, (alike gist).2]
      obtain ⟨cause, state, code⟩ := refused
      rcases ensures ⟨cause, (state_of_gist gist).symm.trans state, code⟩ with same | ⟨disk, registry, -⟩
      · rw [same]
        exact ⟨rfl, rfl⟩
      · exact ⟨disk, registry⟩
    | updated ok _ state => exact absurd refused (refused_updated state (updated state _))
  | closed =>
    simp only [happen, serve, life]
    exact alike (gist_refuse c r)
  | broken =>
    simp only [happen, serve, life]
    exact alike (gist_forsake c r)

/-- An update that is answered with a terminal error has left the cell final with it. -/
theorem final_of_updated {transform : V → Outcome V} {v : V} {n : Nat} {a : Except Error V} {cause : Error}
    (h : Updated c transform v n a c') (failed : a = .error (.final cause)) :
    c'.worker.state = .final (.final cause) := by
  cases h with
  | rejected => cases failed
  | unchanged => cases failed
  | committed => cases failed
  | lost =>
    cases failed
    rfl
  | homeless =>
    cases failed
    rfl

theorem final_of_halt {h : Halt} {cause : Error} (ensured : c.ensureReady = (.error h, c'))
    (same : h.error = .final cause) : c'.worker.state = .final (.final cause) := by
  cases h with
  | final t =>
    cases same
    exact final_of_ensured ensured
  | broken => cases same

/-- A subscription that is told a terminal error has been asked of a cell that is final with it. -/
theorem final_of_told {i : Nat} {f : Feed V} {cause : Error} (serving : c.worker.life = .serving) (listed : c.Listed)
    (feed : c.worker.feeds[i]? = some f)
    (told : (c.happen (.request (.subscribe i))).2.worker.feeds[i]? =
      some { f with sent := f.sent ++ [.error (.final cause)], isOpen := false }) :
    (c.happen (.request (.subscribe i))).2.worker.state = .final (.final cause) := by
  have silent {c₁ : Session F V} (feeds : c₁.worker.feeds = c.worker.feeds) :
      (c₁.letGo i).worker.feeds[i]? ≠ some { f with sent := f.sent ++ [.error (.final cause)], isOpen := false } := by
    simp [letGo, onWorker, Worker.onFeed, feeds, feed, Feed.finish]
  simp only [happen, serve, serving, handle] at told ⊢
  cases listener : c.worker.hasListener i with
  | false =>
    rw [listener] at told
    exact absurd told (silent rfl)
  | true =>
    rcases ensured : c.ensureReady with ⟨(t | _) | ⟨⟩, c₁⟩ <;> simp only [listener, ensured, if_true] at told ⊢ <;>
      have feeds := feeds_of_ensured listed ensured
    · have listener₁ : c₁.worker.hasListener i = true := by
        rw [Worker.hasListener, feeds]
        exact listener
      obtain ⟨f₁, feed₁, told₁⟩ := feeds_turnAway listener₁ t
      rw [feeds, feed] at feed₁
      cases feed₁
      have same : t = .final cause := by simpa using congrArg Feed.sent (Option.some.inj (told₁.symm.trans told))
      exact (final_of_ensured ensured).trans (by rw [same])
    · exact absurd told (silent feeds)
    · obtain ⟨-, v, n, state⟩ := ready_of_ensured ensured
      simp only [state] at told
      rw [feed_attach, feeds, feed] at told
      have sent : (f.send (.ok v)).sent = f.sent ++ [.error (.final cause)] :=
        congrArg Feed.sent (Option.some.inj told)
      unfold Feed.send at sent
      split at sent <;> simp at sent

/-- Whoever hears a terminal error has asked a cell that is final with it. -/
theorem final_of_hears {r : Request V} {cause : Error} (serving : c.worker.life = .serving) (listed : c.Listed)
    (hears : c.Hears (.error (.final cause)) r) : (c.happen (.request r)).2.worker.state = .final (.final cause) := by
  cases r with
  | update transform isAwaited =>
    cases isAwaited with
    | false => simp [Hears, happen, serve, serving, handle] at hears
    | true =>
      simp only [Hears, happen, serve, serving, handle] at hears ⊢
      rcases ensured : c.ensureReady with ⟨h | ⟨⟩, c₁⟩ <;> rw [ensured] at hears
      · exact final_of_halt ensured (by simpa using hears)
      · obtain ⟨-, v, n, state⟩ := ready_of_ensured ensured
        exact final_of_updated (updated state transform) (by simpa using hears)
  | read isAwaited =>
    cases isAwaited with
    | false => simp [Hears, happen, serve, serving, handle] at hears
    | true =>
      simp only [Hears, happen, serve, serving, handle] at hears ⊢
      rcases ensured : c.ensureReady with ⟨h | ⟨⟩, c₁⟩ <;> rw [ensured] at hears
      · exact final_of_halt ensured (by simpa using hears)
      · obtain ⟨-, v, n, state⟩ := ready_of_ensured ensured
        simp [read, state] at hears
  | subscribe i =>
    obtain ⟨f, feed, told⟩ := hears
    exact final_of_told serving listed feed told
  | close => simp [Hears, happen, serve, serving, handle] at hears

end Session

/-! ## A cell in its namespace -/

theorem canonicalKey_congr {m m' : Memory} (h : m'.namespaceId = m.namespaceId) (p : Path) :
    m'.canonicalKey p = m.canonicalKey p := by
  rw [Memory.canonicalKey, h, Memory.canonicalKey]

namespace Session

variable {c c' c₁ : Session Memory V}

def place (c : Session Memory V) : Target × String := (c.worker.target, c.bench.disk.namespaceId)

theorem unmoved_place : Unmoved (V := V) place where
  gist same := by
    have alike := congrArg place same
    exact alike
  call _ _ := rfl
  enter _ _ := rfl
  final c cause := by
    have alike := congrArg place (gist_enterFinal c cause)
    exact alike
  work performs within := by
    obtain ⟨worker, us, -, done, -⟩ := performed performs within
    have moves (p : Disk.Primitive) (m : Memory) {id : String} (same : m.namespaceId = id) :
        (p.run m).namespaceId = id := (Disk.namespaceId_run p m).trans same
    refine Prod.ext (by rw [place, worker]; rfl) ?_
    refine done.keeps (f := fun j : Job Memory => j.bench.disk.namespaceId) fun _ _ _ touch => ?_
    cases touch with
    | read => exact Store.Driven.memory.kept_read (fun p m _ same => moves p m same) rfl
    | replace => exact Store.Driven.memory.kept_write (fun p m _ same => moves p m same) rfl
    | _ => rfl

def Keyed (c : Session Memory V) : Prop :=
  ∀ e, c.worker.target = .opened e →
    Store.checkPath e.store.path = .ok () ∧ e.guard.path = c.bench.disk.canonicalKey e.store.path

theorem Keyed.same (keyed : c.Keyed) (same : c'.place = c.place) : c'.Keyed := by
  obtain ⟨target, space⟩ := Prod.mk.inj same
  intro e opened
  rw [canonicalKey_congr space]
  exact keyed e (target.symm.trans opened)

theorem Resolving.keyed {x : Resolved} (keyed : c.Keyed) (h : Resolving c x c') :
    c'.Keyed ∧ c'.bench.disk.namespaceId = c.bench.disk.namespaceId := by
  cases h with
  | opened => exact ⟨keyed, rfl⟩
  | unavailable => exact ⟨keyed, rfl⟩
  | panicked => exact ⟨nofun, rfl⟩
  | taken => exact ⟨nofun, rfl⟩
  | claimed target exclusive =>
    refine ⟨fun e opened => ?_, rfl⟩
    cases opened
    obtain ⟨accepted, path, key, -⟩ := Store.openExclusive_ok exclusive
    rw [path]
    exact ⟨accepted, key⟩

/-- A cell that is at home in a namespace: it holds the key of its path there, and nothing if its path was refused. -/
structure Homed (id : String) (c : Session Memory V) : Prop where
  space : c.bench.disk.namespaceId = id
  keyed : c.Keyed
  refused : c.IsRefused → c.worker.target = .unavailable

theorem Homed.same {id : String} (homed : c.Homed id) (same : c'.place = c.place)
    (refused : c'.IsRefused → c.IsRefused) : c'.Homed id := by
  obtain ⟨target, space⟩ := Prod.mk.inj same
  exact ⟨space.trans homed.space, homed.keyed.same same, fun h => target.trans (homed.refused (refused h))⟩

theorem keyed_opened {a : Except Halt Unit} (keyed : c.Keyed) (h : Opened c a c') :
    c'.Keyed ∧ c'.bench.disk.namespaceId = c.bench.disk.namespaceId := by
  have resolves {x : Resolved} {c₁ : Session Memory V} (same : c'.place = c₁.place)
      (h : Resolving (c.onWorker (·.reveal .initializing)) x c₁) :
      c'.Keyed ∧ c'.bench.disk.namespaceId = c.bench.disk.namespaceId := by
    have before : (c.onWorker (·.reveal .initializing)).Keyed := keyed
    obtain ⟨keyed, space⟩ := Resolving.keyed before h
    exact ⟨keyed.same same, (congrArg Prod.snd same).trans space⟩
  cases h with
  | ready => exact ⟨keyed, rfl⟩
  | final => exact ⟨keyed, rfl⟩
  | broke fresh resolved =>
    rename_i c₁
    have same : (c₁.onWorker fun w => { w with life := .broken }).place = c₁.place := rfl
    exact resolves same resolved
  | refused _ resolved => exact resolves (unmoved_place.final _ _) resolved
  | failed _ resolved performs =>
    have worked := unmoved_place.work performs (Task.within_firstValue _)
    exact resolves ((unmoved_place.final _ _).trans worked) resolved
  | began _ resolved performs =>
    have worked := unmoved_place.work performs (Task.within_firstValue _)
    exact resolves ((unmoved_place.enter _ _).trans worked) resolved

theorem homed_happen {id : String} {e : Event Memory V} (indoors : ∀ f, e ≠ .outside f) (homed : c.Homed id) :
    (c.happen e).2.Homed id := by
  refine happen_keeps (P := fun c => c.Homed id) ?_ ?_ ?_ ?_ ?_ homed
  · intro c c' gist homed
    refine homed.same (unmoved_place.gist gist) ?_
    rintro ⟨cause, state, code⟩
    exact ⟨cause, (state_of_gist gist).symm.trans state, code⟩
  · intro c _ homed
    have target : c.shutDown.worker.target = .unavailable := congrArg (·.worker.target) (gist_shutDown c)
    have space : c.shutDown.bench.disk.namespaceId = c.bench.disk.namespaceId :=
      congrArg (·.bench.disk.namespaceId) (gist_shutDown c)
    refine ⟨space.trans homed.space, fun e opened => ?_, fun _ => target⟩
    cases target.symm.trans opened
  · intro c a c' _ h homed
    obtain ⟨keyed, space⟩ := keyed_opened homed.keyed h
    refine ⟨space.trans homed.space, keyed, fun refused => ?_⟩
    rcases refused_opened h refused with rfl | ⟨-, -, target⟩
    · exact homed.refused refused
    · exact target
  · intro c transform v n a c' _ state h homed
    exact homed.same (unmoved_place.updated h) fun refused => absurd refused (refused_updated state h)
  · exact fun outside => absurd outside (indoors _)

/-- A request that hears that the path was refused changes neither the disk nor the registry, and its cell holds
nothing. -/
theorem refused_hears {id : String} {r : Request V} {e : Store.Error} (homed : c.Homed id) (listed : c.Listed)
    (blames : e.code.isConfiguration = true) (hears : c.Hears (.error (.final (.ofStore e))) r) :
    (c.happen (.request r)).2.bench.disk = c.bench.disk ∧
      (c.happen (.request r)).2.bench.registry = c.bench.registry ∧ (c.happen (.request r)).2.worker.held = none := by
  have down {c' : Session Memory V} (gist : c'.gist = c.gist) (life : c.worker.life ≠ .serving) :
      c'.bench.disk = c.bench.disk ∧ c'.bench.registry = c.bench.registry ∧ c'.worker.held = none := by
    obtain ⟨held, registry⟩ := Prod.mk.inj (unmoved_tenure.gist gist)
    refine ⟨congrArg (·.bench.disk) gist, registry, held.trans ?_⟩
    unfold Worker.held
    split
    · exact absurd ‹_› life
    · rfl
  cases life : c.worker.life with
  | serving =>
    have refused : (c.happen (.request r)).2.IsRefused :=
      ⟨_, final_of_hears life listed hears, by simp [Error.ofStore, Error.code, blames]⟩
    have other : r ≠ .close := by
      rintro rfl
      simp [Hears, happen, serve, life, handle] at hears
    obtain ⟨disk, registry⟩ := refused_happen other refused
    have homed' : (c.happen (.request r)).2.Homed id := homed_happen (fun _ outside => by cases outside) homed
    exact ⟨disk, registry, by simp [Worker.held, homed'.refused refused]⟩
  | closed =>
    simp only [happen, serve, life]
    exact down (gist_refuse c r) (fun serving => by cases life.symm.trans serving)
  | broken =>
    simp only [happen, serve, life]
    exact down (gist_forsake c r) (fun serving => by cases life.symm.trans serving)

/-- Closing gives the path back and leaves the disk alone. -/
theorem happen_close (serving : c.worker.life = .serving) {e : Store.Exclusive} (target : c.worker.target = .opened e) :
    (c.happen (.request .close)).1 = [.acknowledged] ∧
      (c.happen (.request .close)).2.bench.registry = c.bench.registry.drop e.guard ∧
      (c.happen (.request .close)).2.bench.disk = c.bench.disk := by
  simp only [happen, serve, serving, handle]
  have registry : c.shutDown.bench.registry = c.releasePath.bench.registry :=
    congrArg (·.bench.registry) (gist_shutDown c)
  refine ⟨trivial, registry.trans ?_, congrArg (·.bench.disk) (gist_shutDown c)⟩
  simp only [releasePath, target]

end Session

/-! ## A process -/

open Store (Exclusive Options)

/-- Someone who may own a path: a cell on one of the disks, or a store that was opened by itself and, once it is
dropped, is gone. -/
inductive Holder (I : Type) : Type 1 where
  | cell {V : Type} (disk : I) (w : Worker V)
  | store (e : Option Exclusive)

variable {I : Type}

def Holder.held : Holder I → Option Entry
  | .cell _ w => w.held
  | .store e => e.map (·.guard.path.components)

/-- A process: file systems in memory, a registry and a journal that all share, and everything that was ever built or
opened, in order. -/
structure Process (I : Type) where
  disks : I → Memory
  registry : Registry := {}
  journal : Journal
  holders : List (Holder I) := []

namespace Process

variable (p : Process I)

def bench (d : I) : Bench Memory := { disk := p.disks d, registry := p.registry, journal := p.journal }

def heldAt (i : Nat) : Option Entry := p.holders[i]?.bind Holder.held

/-- Whether a cell of the process is at home on its disk, and keeps no list of subscriptions before its time. -/
def Houses (d : I) (w : Worker V) : Prop :=
  (Session.mk w (p.bench d)).Homed (p.disks d).namespaceId ∧ (Session.mk w (p.bench d)).Listed

/-- No two hold one entry, and the entries that are held are those of the registry. -/
structure Accounted : Prop where
  one : ∀ i j k, p.heldAt i = some k → p.heldAt j = some k → i = j
  exact : ∀ k, k ∈ p.registry.active ↔ ∃ i, p.heldAt i = some k

structure Sound : Prop extends p.Accounted where
  homed : ∀ (i : Nat) {V : Type} (d : I) (w : Worker V), p.holders[i]? = some (.cell d w) → p.Houses d w

/-- What a step does: it changes one holder at most, and what that one holds. -/
structure Changes (p p' : Process I) (mayFree : Prop) (i : Nat) : Prop where
  spaces : ∀ d, (p'.disks d).namespaceId = (p.disks d).namespaceId
  others : ∀ j, j ≠ i → p'.holders[j]? = p.holders[j]?
  shift : Shift mayFree (p.heldAt i) (p'.heldAt i) p.registry p'.registry
  homed : ∀ {V : Type} (d : I) (w : Worker V), p'.holders[i]? = some (.cell d w) → p'.Houses d w

variable {p} {p' : Process I} {i : Nat} {mayFree : Prop}

theorem Houses.near {d : I} {w : Worker V} (houses : p.Houses d w)
    (space : (p'.disks d).namespaceId = (p.disks d).namespaceId) : p'.Houses d w :=
  ⟨⟨rfl, houses.1.keyed.same (Prod.ext rfl space), houses.1.refused⟩, houses.2⟩

/-! ## Steps -/

theorem Changes.heldAt_other (h : Changes p p' mayFree i) {j : Nat} (ne : j ≠ i) : p'.heldAt j = p.heldAt j := by
  rw [heldAt, h.others j ne, heldAt]

theorem Changes.mono {mayFree' : Prop} (h : Changes p p' mayFree i) (imp : mayFree → mayFree') :
    Changes p p' mayFree' i :=
  ⟨h.spaces, h.others, h.shift.mono imp, h.homed⟩

namespace Accounted

theorem still (accounted : p.Accounted) (all : ∀ j, p'.heldAt j = p.heldAt j) (kept : p'.registry = p.registry) :
    p'.Accounted := by
  refine ⟨fun j j' k => ?_, fun k => ?_⟩
  · rw [all, all]
    exact accounted.one j j' k
  · simp only [all, kept]
    exact accounted.exact k

/-- Nobody holds an entry that is free. -/
theorem unheld (accounted : p.Accounted) {q : Path} (free : p.registry.isActive q = false) (j : Nat) :
    p.heldAt j ≠ some q.components := by
  intro held
  rw [Registry.isActive_iff.mpr ((accounted.exact _).mpr ⟨j, held⟩)] at free
  cases free

theorem claimed {q : Path} (accounted : p.Accounted) (others : ∀ j, j ≠ i → p'.heldAt j = p.heldAt j)
    (before : p.heldAt i = none) (after : p'.heldAt i = some q.components) (free : p.registry.isActive q = false)
    (entered : p'.registry = ⟨q.components :: p.registry.active⟩) : p'.Accounted := by
  refine ⟨fun j j' k held held' => ?_, fun k => ?_⟩
  · by_cases at_i : j = i <;> by_cases at_i' : j' = i
    · exact at_i.trans at_i'.symm
    · rw [at_i, after] at held
      rw [others j' at_i', ← held] at held'
      exact absurd held' (accounted.unheld free j')
    · rw [at_i', after] at held'
      rw [others j at_i, ← held'] at held
      exact absurd held (accounted.unheld free j)
    · rw [others j at_i] at held
      rw [others j' at_i'] at held'
      exact accounted.one j j' k held held'
  · rw [entered, List.mem_cons, accounted.exact]
    constructor
    · rintro (rfl | ⟨j, held⟩)
      · exact ⟨i, after⟩
      · have ne : j ≠ i := fun same => by cases (same ▸ held).symm.trans before
        exact ⟨j, (others j ne).trans held⟩
    · rintro ⟨j, held⟩
      by_cases at_i : j = i
      · rw [at_i, after] at held
        exact Or.inl (Option.some.inj held).symm
      · exact Or.inr ⟨j, (others j at_i).symm.trans held⟩

theorem freed {q : Path} (accounted : p.Accounted) (others : ∀ j, j ≠ i → p'.heldAt j = p.heldAt j)
    (before : p.heldAt i = some q.components) (after : p'.heldAt i = none)
    (left : p'.registry = p.registry.release q) : p'.Accounted := by
  have elsewhere {j : Nat} {k : Entry} (held : p'.heldAt j = some k) : j ≠ i ∧ p.heldAt j = some k := by
    have ne : j ≠ i := fun same => by cases (same ▸ held).symm.trans after
    exact ⟨ne, (others j ne).symm.trans held⟩
  refine ⟨fun j j' k held held' => accounted.one j j' k (elsewhere held).2 (elsewhere held').2, fun k => ?_⟩
  have kept : k ∈ p'.registry.active ↔ k ∈ p.registry.active ∧ k ≠ q.components := by
    rw [left]
    simp [Registry.release]
  rw [kept, accounted.exact]
  constructor
  · rintro ⟨⟨j, held⟩, other⟩
    have ne : j ≠ i := fun same => other (Option.some.inj ((same ▸ held).symm.trans before))
    exact ⟨j, (others j ne).trans held⟩
  · rintro ⟨j, held⟩
    obtain ⟨ne, held⟩ := elsewhere held
    exact ⟨⟨j, held⟩, fun same => ne (accounted.one j i k held (same ▸ before))⟩

end Accounted

/-- A change of one holder keeps a process sound, if the registry goes along with it. -/
theorem Sound.changes (sound : p.Sound) (h : Changes p p' mayFree i) : p'.Sound := by
  have accounted : p'.Accounted := by
    cases h.shift with
    | still same kept =>
      refine sound.toAccounted.still (fun j => ?_) kept
      by_cases at_i : j = i
      · rw [at_i, same]
      · exact h.heldAt_other at_i
    | claimed q before after free entered =>
      exact sound.toAccounted.claimed (fun _ => h.heldAt_other) before after free entered
    | freed q may before after left => exact sound.toAccounted.freed (fun _ => h.heldAt_other) before after left
  refine ⟨accounted, fun j V d w here => ?_⟩
  by_cases same : j = i
  · exact h.homed d w (same ▸ here)
  · exact (sound.homed j d w ((h.others j same).symm.trans here)).near (h.spaces d)

/-- One that comes new changes no other. -/
theorem changes_newcomer {x : Holder I} (spaces : ∀ d, (p'.disks d).namespaceId = (p.disks d).namespaceId)
    (holders : p'.holders = p.holders ++ [x]) (shift : Shift mayFree none x.held p.registry p'.registry)
    (homed : ∀ {V : Type} (d : I) (w : Worker V), x = .cell d w → p'.Houses d w) :
    Changes p p' mayFree p.holders.length := by
  have before : p.heldAt p.holders.length = none := by simp [heldAt]
  have after : p'.heldAt p.holders.length = x.held := by simp [heldAt, holders]
  refine ⟨spaces, fun j ne => ?_, by rw [before, after]; exact shift, fun d w here => homed d w ?_⟩
  · rw [holders]
    rcases Nat.lt_or_gt_of_ne ne with lt | gt
    · rw [List.getElem?_append_left lt]
    · rw [List.getElem?_eq_none (by simp; omega), List.getElem?_eq_none (by omega)]
  · simpa [holders] using here

/-- One that does something changes no other. -/
theorem changes_holder {x x' : Holder I} (spaces : ∀ d, (p'.disks d).namespaceId = (p.disks d).namespaceId)
    (here : p.holders[i]? = some x) (holders : p'.holders = p.holders.set i x')
    (shift : Shift mayFree x.held x'.held p.registry p'.registry)
    (homed : ∀ {V : Type} (d : I) (w : Worker V), x' = .cell d w → p'.Houses d w) : Changes p p' mayFree i := by
  obtain ⟨lt, -⟩ := List.getElem?_eq_some_iff.mp here
  have before : p.heldAt i = x.held := by simp [heldAt, here]
  have after : p'.heldAt i = x'.held := by simp [heldAt, holders, lt]
  refine ⟨spaces, fun j ne => ?_, by rw [before, after]; exact shift, fun d w here => homed d w ?_⟩
  · rw [holders, List.getElem?_set_ne ne.symm]
  · simpa [holders, lt] using here

/-! ## What a process can do -/

section

variable [DecidableEq I] (p)

def absorb (d : I) (b : Bench Memory) : Process I :=
  { p with disks := Function.update p.disks d b.disk, registry := b.registry, journal := b.journal }

def build (s : Setup V) (location : Option Location) (hasRuntime : Bool) (d : I) : Except Error Nat × Process I :=
  match Cell.build s location hasRuntime (p.bench d) with
  | (.error e, b) => (.error e, p.absorb d b)
  | (.ok w, b) => (.ok p.holders.length, { p.absorb d b with holders := p.holders ++ [.cell d w] })

def openStore (d : I) (path : Path) (o : Options) : Except Store.Error Nat × Process I :=
  match Store.openExclusive (p.disks d) p.registry path o with
  | (.error e, registry) => (.error e, { p with registry := registry })
  | (.ok e, registry) =>
    (.ok p.holders.length, { p with registry := registry, holders := p.holders ++ [.store (some e)] })

def dropStore (i : Nat) (e : Exclusive) : Process I :=
  { p with registry := p.registry.drop e.guard, holders := p.holders.set i (.store none) }

def happen (i : Nat) (d : I) (w : Worker V) (e : Event Memory V) : List (Reply V) × Process I :=
  let (as, c) := (Session.mk w (p.bench d)).happen e
  (as, { p.absorb d c.bench with holders := p.holders.set i (.cell d c.worker) })

/-- One step of a process. A step may end a holder, by dropping a store or by closing a cell, which is also what
dropping the last handle of a cell does; what goes on outside leaves every disk in its namespace. -/
inductive Step : Option Nat → Process I → Prop where
  | build {V : Type} (s : Setup V) (location : Option Location) (hasRuntime : Bool) (d : I) :
    Step none (p.build s location hasRuntime d).2
  | openStore (d : I) (path : Path) (o : Options) : Step none (p.openStore d path o).2
  | dropStore {i : Nat} {e : Exclusive} (here : p.holders[i]? = some (.store (some e))) :
    Step (some i) (p.dropStore i e)
  | close {V : Type} {i : Nat} {d : I} {w : Worker V} (here : p.holders[i]? = some (.cell d w)) :
    Step (some i) (p.happen i d w (.request .close)).2
  | happen {V : Type} {i : Nat} {d : I} {w : Worker V} {e : Event Memory V} (here : p.holders[i]? = some (.cell d w))
    (goesOn : e ≠ .request .close) (indoors : ∀ f, e ≠ .outside f) : Step none (p.happen i d w e).2
  | outside (disks : I → Memory) (spaces : ∀ d, (disks d).namespaceId = (p.disks d).namespaceId) :
    Step none { p with disks := disks }

/-- The states that a process can come to that starts with nobody owning anything. -/
inductive Reached : Process I → Prop where
  | start (disks : I → Memory) (journal : Journal) : Reached { disks := disks, journal := journal }
  | step {p p' : Process I} {ends : Option Nat} (reached : Reached p) (step : p.Step ends p') : Reached p'

end

/-- A store that is refused changes nothing. -/
theorem openStore_refused {d : I} {path : Path} {o : Options} {e : Store.Error}
    (refused : (p.openStore d path o).1 = .error e) : (p.openStore d path o).2 = p := by
  unfold openStore at refused ⊢
  split
  · rename_i failed
    rw [openExclusive_error failed]
  · rename_i opened
    rw [opened] at refused
    cases refused

variable [DecidableEq I]

theorem absorb_bench (d : I) : p.absorb d (p.bench d) = p := by simp [absorb, bench]

theorem spaces_absorb {d : I} {b : Bench Memory} {hs : List (Holder I)}
    (space : b.disk.namespaceId = (p.disks d).namespaceId) (d' : I) :
    (({ p.absorb d b with holders := hs } : Process I).disks d').namespaceId = (p.disks d').namespaceId := by
  change (Function.update p.disks d b.disk d').namespaceId = _
  by_cases same : d' = d
  · rw [same, Function.update_self]
    exact space
  · rw [Function.update_of_ne same]

/-- A build that is refused leaves the bench as it was. -/
theorem build_error {s : Setup V} {location : Option Location} {hasRuntime : Bool} {b b' : Bench Memory} {e : Error}
    (h : Cell.build s location hasRuntime b = (.error e, b')) : b' = b := by
  unfold Cell.build at h
  split at h
  · cases h
    rfl
  · split at h
    · cases h
      rfl
    · cases h
      rfl
    · rename_i location _
      rcases claimed : claim s location b with ⟨x | ⟨target, label⟩, b₁⟩ <;> rw [claimed] at h <;> cases h
      cases location with
      | produced producer => cases claimed
      | path p =>
        rcases opened : Store.openExclusive b.disk b.registry p s.config.storeOptions with ⟨e | e, r⟩ <;>
          rw [claim, opened] at claimed <;> cases claimed
        rw [openExclusive_error opened]

/-- A cell that is built has claimed an entry at most, and is at home. -/
theorem build_claims {s : Setup V} {location : Option Location} {hasRuntime : Bool} {b b' : Bench Memory} {w : Worker V}
    (h : Cell.build s location hasRuntime b = (.ok w, b')) :
    Shift False none w.held b.registry b'.registry ∧ b'.disk = b.disk ∧
      (Session.mk w b').Homed b.disk.namespaceId ∧ (Session.mk w b').Listed := by
  cases location with
  | none =>
    unfold Cell.build at h
    split at h
    · cases h
    · split at h
      · cases h
      · cases h
      · rename_i absent
        cases absent
  | some location =>
    obtain ⟨target, label, registry, fields, rfl, rfl, place⟩ := build_ok h
    cases location with
    | produced producer =>
      obtain ⟨rfl, rfl⟩ := place
      exact ⟨.still rfl rfl, rfl, ⟨rfl, nofun, nofun⟩, Or.inl rfl⟩
    | path p =>
      obtain ⟨e, rfl, exclusive⟩ := place
      obtain ⟨accepted, path, key, free, entered⟩ := Store.openExclusive_ok exclusive
      refine ⟨.claimed e.guard.path rfl rfl free entered, rfl, ⟨rfl, fun e' opened => ?_, nofun⟩, Or.inl rfl⟩
      cases opened
      rw [path]
      exact ⟨accepted, key⟩

theorem houses_absorb {d : I} {w : Worker V} {b : Bench Memory} {id : String} {hs : List (Holder I)}
    (homed : (Session.mk w b).Homed id) (listed : (Session.mk w b).Listed) :
    ({ p.absorb d b with holders := hs } : Process I).Houses d w := by
  have disk : ({ p.absorb d b with holders := hs } : Process I).disks d = b.disk := by simp [absorb]
  exact ⟨⟨rfl, homed.keyed.same (Prod.ext rfl (congrArg Memory.namespaceId disk)), homed.refused⟩, listed⟩

theorem happen_registry (i : Nat) (d : I) (w : Worker V) (e : Event Memory V) :
    (p.happen i d w e).2.registry = ((Session.mk w (p.bench d)).happen e).2.bench.registry := rfl

theorem happen_disks (i : Nat) (d : I) (w : Worker V) (e : Event Memory V) :
    (p.happen i d w e).2.disks = Function.update p.disks d ((Session.mk w (p.bench d)).happen e).2.bench.disk := rfl

theorem happen_disk (i : Nat) (d : I) (w : Worker V) (e : Event Memory V) :
    (p.happen i d w e).2.disks d = ((Session.mk w (p.bench d)).happen e).2.bench.disk := by
  rw [happen_disks, Function.update_self]

theorem happen_heldAt (lt : i < p.holders.length) {d : I} {w : Worker V} {e : Event Memory V} :
    (p.happen i d w e).2.heldAt i = ((Session.mk w (p.bench d)).happen e).2.worker.held := by
  simp [heldAt, happen, lt, Holder.held]

/-- A cell can be built at any accepted path whose key is free. -/
theorem build_free {s : Setup V} {q : Path} {d : I} (valid : s.config.validate = .ok ())
    (accepted : Store.checkPath q = .ok ()) (free : p.registry.isActive ((p.disks d).canonicalKey q) = false) :
    ∃ n, (p.build s (some (.path q)) true d).1 = .ok n := by
  obtain ⟨w, b, e, built, -⟩ := build_at (b := p.bench d) valid accepted free
  unfold build
  rw [built]
  exact ⟨_, rfl⟩

theorem changes_happen {d : I} {w : Worker V} {e : Event Memory V} (sound : p.Sound)
    (here : p.holders[i]? = some (.cell d w)) (indoors : ∀ f, e ≠ .outside f) :
    Changes p (p.happen i d w e).2 (e = .request .close) i := by
  obtain ⟨homed, listed⟩ := sound.homed i d w here
  have after := Session.homed_happen indoors homed
  have listed' := Session.listed_happen e listed
  have shift : Session.Shifts (e = .request .close) ⟨w, p.bench d⟩ _ := Session.shifts_happen e
  unfold happen
  generalize (Session.mk w (p.bench d)).happen e = happened at after listed' shift
  refine changes_holder (spaces_absorb after.space) here rfl shift fun d' w' same => ?_
  cases same
  exact houses_absorb after listed'

/-- A step leaves a process as it was, or changes one holder, and frees an entry only if it ends that holder. -/
theorem changes_step {ends : Option Nat} (sound : p.Sound) (step : p.Step ends p') :
    p' = p ∨ ∃ i, Changes p p' (ends = some i) i := by
  cases step with
  | build s location hasRuntime d =>
    unfold build
    split
    · rename_i e b refused
      rw [build_error refused, absorb_bench]
      exact Or.inl rfl
    · rename_i w b built
      obtain ⟨shift, disk, homed, listed⟩ := build_claims built
      have space : b.disk.namespaceId = (p.disks d).namespaceId := congrArg Memory.namespaceId disk
      refine Or.inr ⟨_, changes_newcomer (spaces_absorb space) rfl (shift.mono False.elim) fun d' w' same => ?_⟩
      cases same
      exact houses_absorb homed listed
  | openStore d path o =>
    unfold openStore
    split
    · rename_i e r refused
      rw [openExclusive_error refused]
      exact Or.inl rfl
    · rename_i e r exclusive
      obtain ⟨-, -, -, free, entered⟩ := Store.openExclusive_ok exclusive
      refine Or.inr ⟨_, changes_newcomer (fun _ => rfl) rfl (.claimed e.guard.path rfl rfl free entered) ?_⟩
      intro V d w same
      cases same
  | dropStore here =>
    rename_i i e
    refine Or.inr ⟨i, changes_holder (fun _ => rfl) here rfl (.freed e.guard.path rfl rfl rfl rfl) ?_⟩
    intro V d w same
    cases same
  | close here => exact Or.inr ⟨_, (changes_happen sound here fun _ outside => by cases outside).mono fun _ => rfl⟩
  | happen here goesOn indoors =>
    exact Or.inr ⟨_, (changes_happen sound here indoors).mono fun same => absurd same goesOn⟩
  | outside disks spaces =>
    exact Or.inr ⟨0, spaces, fun _ _ => rfl, .still rfl rfl, fun d w here => (sound.homed 0 d w here).near (spaces d)⟩

theorem sound_reached (reached : p.Reached) : p.Sound := by
  induction reached with
  | start disks journal =>
    have nobody (i : Nat) : ({ disks := disks, journal := journal } : Process I).heldAt i = none := rfl
    refine ⟨⟨fun i j k held => ?_, fun k => ⟨fun entered => ?_, fun ⟨i, held⟩ => ?_⟩⟩, fun i V d w here => ?_⟩
    · cases (nobody i).symm.trans held
    · cases entered
    · cases (nobody i).symm.trans held
    · cases here
  | step _ step sound =>
    rcases changes_step sound step with rfl | ⟨i, changes⟩
    · exact sound
    · exact sound.changes changes

/-- A build that is refused changes nothing. -/
theorem build_refused {s : Setup V} {location : Option Location} {hasRuntime : Bool} {d : I} {e : Error}
    (refused : (p.build s location hasRuntime d).1 = .error e) : (p.build s location hasRuntime d).2 = p := by
  unfold build at refused ⊢
  split
  · rename_i b failed
    rw [build_error failed, absorb_bench]
  · rename_i built
    rw [built] at refused
    cases refused

/-- A holder that a step does not end holds on to its entry. -/
theorem heldAt_step {ends : Option Nat} {k : Entry} (sound : p.Sound) (step : p.Step ends p') (goesOn : ends ≠ some i)
    (held : p.heldAt i = some k) : p'.heldAt i = some k := by
  rcases changes_step sound step with rfl | ⟨j, changes⟩
  · exact held
  · by_cases same : i = j
    · subst same
      cases changes.shift with
      | still unchanged => exact unchanged.trans held
      | claimed _ before => cases held.symm.trans before
      | freed _ ended => exact absurd ended goesOn
    · exact (changes.heldAt_other same).trans held

/-! ## One live owner -/

/-- What keeps two owners of one path apart in a process. -/
structure OneOwner (p : Process I) : Prop where
  /-- No two live owners hold one key. -/
  one : ∀ i j k, p.heldAt i = some k → p.heldAt j = some k → i = j
  /-- A key is active exactly when a live owner holds it. -/
  exact : ∀ q : Path, p.registry.isActive q = true ↔ ∃ i, p.heldAt i = some q.components
  /-- A cell holds the key of its path on its disk. -/
  keyed : ∀ (i : Nat) {V : Type} (d : I) (w : Worker V) (e : Exclusive), p.holders[i]? = some (.cell d w) →
    w.target = .opened e →
      Store.checkPath e.store.path = .ok () ∧ e.guard.path = (p.disks d).canonicalKey e.store.path
  /-- A build that is refused changes nothing. -/
  build : ∀ {V : Type} (s : Setup V) (location : Option Location) (hasRuntime : Bool) (d : I) (e : Error),
    (p.build s location hasRuntime d).1 = .error e → (p.build s location hasRuntime d).2 = p
  /-- Opening a store that is refused changes nothing. -/
  openStore : ∀ (d : I) (path : Path) (o : Options) (e : Store.Error),
    (p.openStore d path o).1 = .error e → (p.openStore d path o).2 = p
  /-- A request that hears that the path was refused changes neither the registry nor a file, and its cell holds
  nothing. -/
  request : ∀ (i : Nat) {V : Type} (d : I) (w : Worker V) (r : Request V) (e : Store.Error),
    p.holders[i]? = some (.cell d w) → e.code = .pathInUse ∨ e.code = .invalidPath →
      (Session.mk w (p.bench d)).Hears (.error (.final (.ofStore e))) r →
        let p' := (p.happen i d w (.request r)).2
        p'.registry = p.registry ∧ p'.disks = p.disks ∧ p'.heldAt i = none
  /-- An owner holds on to its key until it is itself closed or dropped. -/
  kept : ∀ (ends : Option Nat) (p' : Process I), p.Step ends p' → ∀ i k, ends ≠ some i → p.heldAt i = some k →
    p'.heldAt i = some k ∧ ∀ q : Path, q.components = k → p'.registry.isActive q = true
  /-- When the closing of an owner is acknowledged its key is free, and a cell can be built at its path, however it is
  spelled. -/
  close : ∀ (i : Nat) {V : Type} (d : I) (w : Worker V) (e : Exclusive), p.holders[i]? = some (.cell d w) →
    w.life = .serving → w.target = .opened e →
      let closed := p.happen i d w (.request .close)
      closed.1 = [.acknowledged] ∧ closed.2.registry.isActive e.guard.path = false ∧
        ∀ {V' : Type} (s : Setup V') (q : Path), s.config.validate = .ok () → Store.checkPath q = .ok () →
          q.place = e.store.path.place → ∃ n, (closed.2.build s (some (.path q)) true d).1 = .ok n

/-- **A path has one live owner at most**, in every state that a process reaches by building cells, opening stores,
putting requests to cells, closing and dropping, in any order. -/
theorem one_live_owner (reached : p.Reached) : p.OneOwner where
  one := (sound_reached reached).one
  exact q := Registry.isActive_iff.trans ((sound_reached reached).exact q.components)
  keyed i V d w e here target := ((sound_reached reached).homed i d w here).1.keyed e target
  build _ _ _ _ _ refused := build_refused refused
  openStore _ _ _ _ refused := openStore_refused refused
  request i V d w r e here refusal hears := by
    obtain ⟨homed, listed⟩ := (sound_reached reached).homed i d w here
    have blames : e.code.isConfiguration = true := by rcases refusal with code | code <;> rw [code] <;> rfl
    obtain ⟨disk, registry, held⟩ := Session.refused_hears homed listed blames hears
    obtain ⟨lt, -⟩ := List.getElem?_eq_some_iff.mp here
    refine ⟨registry, ?_, ?_⟩
    · rw [happen_disks, disk]
      exact Function.update_eq_self d p.disks
    · rw [happen_heldAt lt]
      exact held
  kept ends p' step i k goesOn held := by
    have kept := heldAt_step (sound_reached reached) step goesOn held
    refine ⟨kept, fun q key => ?_⟩
    rw [Registry.isActive_iff, key]
    exact ((sound_reached (.step reached step)).exact k).mpr ⟨i, kept⟩
  close i V d w e here serving target := by
    obtain ⟨acknowledged, registry, disk⟩ := Session.happen_close (c := ⟨w, p.bench d⟩) serving target
    obtain ⟨-, key⟩ := ((sound_reached reached).homed i d w here).1.keyed e target
    have free : (p.happen i d w (.request .close)).2.registry.isActive e.guard.path = false := by
      rw [happen_registry, registry]
      exact Store.isActive_release _ _
    refine ⟨acknowledged, free, fun s q valid accepted place => build_free valid accepted ?_⟩
    have same : ((p.happen i d w (.request .close)).2.disks d).canonicalKey q = e.guard.path := by
      rw [happen_disk, disk, key, Memory.canonicalKey, place, Memory.canonicalKey]
    rw [same]
    exact free

/-- A path with an owner is refused in any other spelling, until the owner is closed. -/
theorem a_second_spelling_waits_for_the_owner :
    let start : Process Bool := { disks := fun d => { namespaceId := if d then "1" else "0" }, journal := {} }
    let owned := (start.build switch (some (.path ⟨"/d/v"⟩)) true false).2
    let again := owned.build switch (some (.path ⟨"/d/x/../v"⟩)) true false
    (∃ e, again.1 = .error e) ∧ again.2 = owned ∧
      ∃ w : Worker Bool, owned.holders[0]? = some (.cell false w) ∧
        ∃ n, ((owned.happen 0 false w (.request .close)).2.build switch (some (.path ⟨"/d/x/../v"⟩)) true false).1 =
          .ok n := by
  intro start owned again
  have reached : owned.Reached := .step (.start _ _) (.build switch _ true false)
  have refused : again.1.isOk = false := by decide +kernel
  have first : (Cell.build switch (some (.path ⟨"/d/v"⟩)) true (start.bench false)).1.isOk = true := by decide +kernel
  obtain ⟨e, failed⟩ : ∃ e, again.1 = .error e := by
    cases h : again.1 with
    | error e => exact ⟨e, rfl⟩
    | ok n => rw [h] at refused; cases refused
  refine ⟨⟨e, failed⟩, (one_live_owner reached).build _ _ _ _ e failed, ?_⟩
  rcases built : Cell.build switch (some (.path ⟨"/d/v"⟩)) true (start.bench false) with ⟨e | w, b⟩
  · rw [built] at first
    cases first
  · have here : owned.holders[0]? = some (.cell false w) := by
      simp only [owned, build, built]
      rfl
    obtain ⟨target, label, registry, fields, same, -, e, opened, exclusive⟩ := build_ok built
    have life : w.life = .serving := by rw [same]
    have target : w.target = .opened e := by rw [same, opened]
    obtain ⟨-, path, -⟩ := Store.openExclusive_ok exclusive
    obtain ⟨-, -, rebuilt⟩ := (one_live_owner reached).close 0 false w e here life target
    have accepted : Store.checkPath ⟨"/d/x/../v"⟩ = .ok () := by
      have isOk : (Store.checkPath ⟨"/d/x/../v"⟩).isOk = true := by decide +kernel
      cases checked : Store.checkPath ⟨"/d/x/../v"⟩ with
      | error e => rw [checked] at isOk; cases isOk
      | ok _ => rfl
    refine ⟨w, here, rebuilt switch ⟨"/d/x/../v"⟩ rfl accepted ?_⟩
    rw [path]
    decide +kernel

end Process

end Cell

end DurableValue
