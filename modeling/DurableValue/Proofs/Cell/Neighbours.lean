/-
  DurableValue.Proofs.Cell.Neighbours — two cells at work on one disk in memory.

  A cell takes part in a history when what the history has for its side is what the cell does there; between any two
  of its operations the other side may do whatever the history has for it. So a history that two cells take part in,
  one on each side, is an interleaving of their operations.

  Proved:
  - `own_of_serve`: all that a cell does to the disk are moves of its own store.
  - `neighbours_undisturbed`: if the four files of two cells are four different ones, neither disturbs the other.
  - `a_scratch_file_takes_a_neighbour_away`: having different keys in the registry is not enough for that. The
    registry knows the real files only, and the scratch file of one cell may be the real file of the other, or the
    scratch file of both.
-/
import DurableValue.Proofs.Cell.Commits
import DurableValue.Proofs.Store.Beside

namespace DurableValue.Cell

open Disk (FileSystem Memory Side History Party replay)
open Store (Atomic Keeper Driven Own Apart)

variable {V W : Type}

theorem Target.Uses.unique {o : Store.Options} {store st : Atomic} {t : Target} (h : t.Uses o store)
    (h' : t.Uses o st) : st = store := by
  cases t with
  | opened e => exact h'.symm.trans h
  | deferred producer =>
    cases producer with
    | gives p => exact Except.ok.inj (h'.symm.trans h)
    | panics m => exact h.elim
  | unavailable => exact h.elim

/-- The commits that had begun after a part of a history. -/
def begun (before : History) (cs : List (Commit Party)) : List (Commit Party) :=
  cs.filter fun c => decide (c.disk.past <+: before)

theorem mem_begun {before : History} {cs : List (Commit Party)} {c : Commit Party} :
    c ∈ begun before cs ↔ c ∈ cs ∧ c.disk.past <+: before := by
  rw [begun, List.mem_filter, decide_eq_true_iff]

namespace Worker

/-- A worker whose value lives in the file of a store, or is going to. -/
structure Houses (w : Worker V) (store : Atomic) : Prop where
  uses : w.target.Uses w.setup.config.storeOptions store
  accepted : Atomic.new store.path w.setup.config.storeOptions = .ok store
  valid : w.setup.config.validate = .ok ()

def alone (w : Worker V) (b : Bench Memory) : Session Memory V := ⟨w, { b with commits := [] }⟩

def beside (w : Worker V) (b : Bench Memory) (me : Side) (h : History) : Session Party V :=
  ⟨w, { disk := ⟨me, b.disk, [], h⟩, registry := b.registry, journal := b.journal }⟩

/-- Whether a history has for one side what the worker does there when it serves the requests. -/
def TakesPart (w : Worker V) (b : Bench Memory) (me : Side) (h : History) (rs : List (Request V)) : Prop :=
  let d := ((w.beside b me h).serve rs).2.bench.disk
  d.past ++ d.coming = h ∧ ∀ e ∈ d.coming, e.1 ≠ me

instance (w : Worker V) (b : Bench Memory) (me : Side) (h : History) (rs : List (Request V)) :
    Decidable (w.TakesPart b me h rs) := inferInstanceAs (Decidable (_ ∧ _))

/-- What a cell keeps of its own beside a cell with the store `o`. -/
structure Undisturbed (w : Worker V) (store o : Atomic) (b : Bench Memory) (me : Side) (h : History)
    (rs : List (Request V)) : Prop where
  /-- No step of the other side changes the file, whatever disk it is taken on. -/
  spared : ∀ e ∈ h, e.1 ≠ me → ∀ m, (e.2.run m).get? store.path.place = m.get? store.path.place
  /-- At every moment the file holds what it held at first, or the bytes of a commit of this cell that had begun. -/
  contents : ∀ before, before <+: h →
    Due (b.disk.get? store.path.place) (begun before ((w.beside b me h).serve rs).2.bench.commits)
      ((replay b.disk before).get? store.path.place)
  encoded : ∀ c ∈ ((w.beside b me h).serve rs).2.bench.commits, ∃ v, w.setup.codec.encode v = .ok c.bytes
  /-- In the end it holds the bytes of the newest one that was published. -/
  last : (replay b.disk h).get? store.path.place =
    published (b.disk.get? store.path.place) ((w.beside b me h).serve rs).2.bench.commits
  /-- Without faults, and if the other cell makes no directory of the file, the cell answers and shows what it would
  without the other one. -/
  replies : b.disk.armed = [] → b.disk.hasDir store.path.place = true ∨ store.path.place ∉ o.parent.place.ancestors →
    ((w.beside b me h).serve rs).1 = ((w.alone b).serve rs).1 ∧
      ((w.beside b me h).serve rs).2.worker = ((w.alone b).serve rs).2.worker

end Worker

section

variable {w : Worker V} {store o : Atomic} {b : Bench Memory} {me : Side} {h : History} {rs : List (Request V)}

/-- A cell that was built at an accepted path lives there. -/
theorem houses_of_build {s : Setup V} {location : Location} {hasRuntime : Bool} {b' : Bench Memory} {p : Path}
    (built : build s (some location) hasRuntime b = (.ok w, b')) (path : location.path? = some p)
    (accepted : Atomic.new p s.config.storeOptions = .ok store) : w.Houses store := by
  obtain ⟨target, registry, core, place, new⟩ := build_core built
  have setup : w.setup = s := congrArg Core.setup core
  have goal : w.target = target := congrArg Core.target core
  refine ⟨?_, ?_, ?_⟩
  · rw [goal, setup]
    cases target with
    | opened e => exact Except.ok.inj ((new p e.store path rfl).symm.trans accepted)
    | deferred producer =>
      cases producer with
      | gives p' =>
        cases place.trans path
        exact accepted
      | panics m => cases place.trans path
    | unavailable => cases place.trans path
  · rw [setup, new_path accepted]
    exact accepted
  · rw [setup]
    unfold build at built
    cases valid : s.config.validate with
    | ok _ => rfl
    | error e =>
      rw [valid] at built
      split at built <;> cases built

theorem Worker.Houses.sited (houses : w.Houses store) : store.Sited := by
  refine Atomic.sited_of_new houses.accepted ?_
  have valid := houses.valid
  unfold Config.validate at valid
  split at valid
  · cases valid
  · split at valid
    · cases valid
    · rename_i free
      simpa [Config.storeOptions] using free

/-! ## What a cell does -/

/-- A cell that has begun no commit as one side of a history is paired with itself, and with one that has the same
worker elsewhere, as the disks are related. -/
theorem Worker.Houses.paired {G K : Type} [FileSystem G K] {R : Ledger Party → Ledger G → Prop} {d : Session G V}
    (houses : w.Houses store) (bond : Bond w.setup.codec store R) (worker : w = d.worker)
    (start : R (w.beside b me h).bench.ledger d.bench.ledger)
    (claims : ∀ p, (Store.openExclusive (w.beside b me h).bench.disk b.registry p w.setup.config.storeOptions).1 =
      (Store.openExclusive d.bench.disk d.bench.registry p w.setup.config.storeOptions).1) :
    Session.Paired R (w.beside b me h) d where
  worker := worker
  ledger := start
  bond := by
    intro st uses
    cases houses.uses.unique uses
    exact bond
  claims p _ := claims p
  clean := by
    intro _ c hc
    cases hc

theorem bond_own (codec : Codec V) (store : Atomic) (me : Side) :
    Bond codec store fun x y : Ledger Party => x = y ∧ Own store me x.disk where
  read := by
    intro x y h
    obtain ⟨rfl, own⟩ := h
    exact ⟨rfl, rfl, Driven.party.kept_read Store.own_turn own⟩
  write := by
    intro x y v bs h clean encoded
    obtain ⟨rfl, own⟩ := h
    exact ⟨rfl, rfl, Driven.party.kept_write Store.own_turn own⟩

theorem own_of_serve (houses : w.Houses store) (b : Bench Memory) (me : Side) (h : History) (rs : List (Request V)) :
    Own store me ((w.beside b me h).serve rs).2.bench.disk := by
  have start : Own store me (w.beside b me h).bench.disk := by
    refine ⟨rfl, ?_⟩
    intro e he
    cases he
  have paired := houses.paired (bond_own _ store me) rfl ⟨rfl, start⟩ fun _ => rfl
  exact (paired.serve rs).2.ledger.2

/-- What a cell does in a history are moves of its store. -/
theorem Worker.TakesPart.moves (part : w.TakesPart b me h rs) (houses : w.Houses store) :
    ∀ e ∈ h, e.1 = me → store.Move e.2 := by
  intro e he own
  rw [← part.1] at he
  rcases List.mem_append.mp he with past | coming
  · exact (own_of_serve houses b me h rs).2 e past own
  · exact absurd own (part.2 e coming)

/-! ## What becomes of its file -/

/-- Whether a file holds at every moment so far what some commit had for it that had begun by then. -/
structure Timely (store : Atomic) (start : Memory) (old : Option Bytes) (l : Ledger Party) : Prop where
  started : ∀ c ∈ l.commits, c.disk.past <+: l.disk.past
  contents : ∀ before, before <+: l.disk.past →
    Due old (begun before l.commits) ((replay start before).get? store.path.place)

theorem past_after (p : Disk.Primitive) (d : Party) : d.past <+: (Driven.party.after p d).past :=
  (List.prefix_append d.past d.others).trans (List.prefix_append _ [(d.me, p)])

section

variable {own : store.scratch.place ≠ store.path.place} {apart : Apart store o} {start : Memory}
  {old : Option Bytes} {codec : Codec V} {l : Ledger Party}

/-- New commits begin where the account ended; what they do not put out was there before. -/
theorem Timely.extend (cs : List (Commit Party)) {d : Party} (timely : Timely store start old l)
    (kept : Kept (Keeper.party store o own apart start me) codec old l)
    (grown : l.disk.past <+: d.past) (new : ∀ c ∈ cs, c.disk = l.disk)
    (seen : ∀ x, (Keeper.party store o own apart start me).seen d x →
      (Keeper.party store o own apart start me).seen l.disk x ∨
        x = (Keeper.party store o own apart start me).real l.disk ∨ ∃ c ∈ cs, c.isPublished = true ∧ x = some c.bytes) :
    Timely store start old ⟨d, cs ++ l.commits⟩ where
  started := by
    intro c hc
    rcases List.mem_append.mp hc with hc | hc
    · rw [new c hc]
      exact grown
    · exact (timely.started c hc).trans grown
  contents := by
    intro before isPrefix
    by_cases early : before <+: l.disk.past
    · apply (timely.contents before early).mono
      intro c hc
      obtain ⟨hc, past⟩ := mem_begun.mp hc
      exact mem_begun.mpr ⟨List.mem_append_right _ hc, past⟩
    · have late : l.disk.past <+: before := (List.prefix_or_prefix_of_prefix isPrefix grown).resolve_left early
      -- What is seen only now was seen earlier, or is what the file held, or comes of one of the new commits.
      rcases seen _ ⟨before, isPrefix, rfl⟩ with ⟨earlier, past, same⟩ | same | ⟨c, hc, out, same⟩
      · rw [same]
        apply (timely.contents earlier past).mono
        intro c hc
        obtain ⟨hc, -⟩ := mem_begun.mp hc
        exact mem_begun.mpr ⟨List.mem_append_right _ hc, (timely.started c hc).trans late⟩
      · rw [same, kept.real]
        apply (due_published old l.commits).mono
        intro c hc
        exact mem_begun.mpr ⟨List.mem_append_right _ hc, (timely.started c hc).trans late⟩
      · refine Or.inr ⟨c, mem_begun.mpr ⟨List.mem_append_left _ hc, ?_⟩, out, same⟩
        rw [new c hc]
        exact late

end

theorem bond_timely (codec : Codec V) (own : store.scratch.place ≠ store.path.place) (apart : Apart store o)
    (start : Memory) (old : Option Bytes) :
    Bond codec store fun x y : Ledger Party =>
      x = y ∧ Kept (Keeper.party store o own apart start me) codec old x ∧ Timely store start old x where
  read := by
    intro x y h
    obtain ⟨rfl, kept, timely⟩ := h
    have calm := read_calm (Keeper.party store o own apart start me) kept.fine
    have grown : x.disk.past <+: (store.read x.disk).2.past := by
      apply Driven.party.kept_read (P := fun d => x.disk.past <+: d.past) _ (List.prefix_refl _)
      exact fun p d _ grown => grown.trans (past_after p d)
    refine ⟨rfl, rfl, kept.of_calm calm, timely.extend [] kept grown (by simp) ?_⟩
    intro c seen
    exact (calm.2.2 c seen).imp id Or.inl
  write := by
    intro x y v bs h clean encoded
    obtain ⟨rfl, kept, timely⟩ := h
    let keeper := Keeper.party store o own apart start me
    obtain ⟨-, -, seen⟩ := keeper.settle_real kept.fine (keeper.ready_makeParent bs x.disk) rfl
    have grown : x.disk.past <+: (store.write bs x.disk).2.past := by
      apply Driven.party.kept_write (P := fun d => x.disk.past <+: d.past) _ (List.prefix_refl _)
      exact fun p d _ grown => grown.trans (past_after p d)
    refine ⟨rfl, rfl, kept.afterWrite clean encoded, ?_⟩
    apply timely.extend [⟨store, bs, x.disk⟩] kept grown (by simp)
    intro c hc
    rcases seen c hc with hc | hc | ⟨out, hc⟩
    · exact Or.inl hc
    · exact Or.inr (Or.inl hc)
    · exact Or.inr (Or.inr ⟨_, List.mem_singleton_self _, out, hc⟩)

section

variable (houses : w.Houses store) (others : ∀ e ∈ h, e.1 ≠ me → o.Move e.2)
  (own : store.scratch.place ≠ store.path.place) (apart : Apart store o)

include houses others in
theorem kept_of_serve (rs : List (Request V)) :
    Kept (Keeper.party store o own apart b.disk me) w.setup.codec (b.disk.get? store.path.place)
        ((w.beside b me h).serve rs).2.bench.ledger ∧
      Timely store b.disk (b.disk.get? store.path.place) ((w.beside b me h).serve rs).2.bench.ledger := by
  have unmoved : ∀ before, before <+: ([] : History) →
      (replay b.disk before).get? store.path.place = b.disk.get? store.path.place := by
    intro before isPrefix
    cases List.prefix_nil.mp isPrefix
    rfl
  have kept : Kept (Keeper.party store o own apart b.disk me) w.setup.codec (b.disk.get? store.path.place)
      (w.beside b me h).bench.ledger := by
    refine ⟨⟨rfl, rfl, others⟩, rfl, ?_, fun c hc => (by cases hc), fun c hc => (by cases hc)⟩
    intro x seen
    obtain ⟨before, isPrefix, rfl⟩ := seen
    exact Or.inl (unmoved before isPrefix)
  have timely : Timely store b.disk (b.disk.get? store.path.place) (w.beside b me h).bench.ledger :=
    ⟨fun c hc => (by cases hc), fun before isPrefix => Or.inl (unmoved before isPrefix)⟩
  have paired := houses.paired (bond_timely _ own apart _ _) rfl ⟨rfl, kept, timely⟩ fun _ => rfl
  exact (paired.serve rs).2.ledger.2

variable (part : w.TakesPart b me h rs)

include houses others own apart part

/-- When the cell is done, its file stays as the newest published commit has left it. -/
theorem replay_done {more : History} (isPrefix : more <+: ((w.beside b me h).serve rs).2.bench.disk.coming) :
    (replay b.disk (((w.beside b me h).serve rs).2.bench.disk.past ++ more)).get? store.path.place =
      published (b.disk.get? store.path.place) ((w.beside b me h).serve rs).2.bench.commits := by
  obtain ⟨kept, -⟩ := kept_of_serve houses others own apart (b := b) rs
  have moves : ∀ e ∈ more, o.Move e.2 := by
    intro e he
    have coming := isPrefix.subset he
    exact kept.fine.2.2 e coming (part.2 e coming)
  calc (replay b.disk (((w.beside b me h).serve rs).2.bench.disk.past ++ more)).get? store.path.place
      = (replay b.disk ((w.beside b me h).serve rs).2.bench.disk.past).get? store.path.place := by
        rw [Disk.replay_append, Store.replay_moves moves _ apart.real apart.realScratch]
    _ = ((w.beside b me h).serve rs).2.bench.disk.disk.get? store.path.place :=
        congrArg (fun m : Memory => m.get? store.path.place) kept.fine.2.1.symm
    _ = published (b.disk.get? store.path.place) ((w.beside b me h).serve rs).2.bench.commits := kept.real

theorem contents_of_part {before : History} (isPrefix : before <+: h) :
    Due (b.disk.get? store.path.place) (begun before ((w.beside b me h).serve rs).2.bench.commits)
      ((replay b.disk before).get? store.path.place) := by
  obtain ⟨-, timely⟩ := kept_of_serve houses others own apart (b := b) rs
  obtain ⟨rest, split⟩ := isPrefix
  rw [← part.1] at split
  rcases List.append_eq_append_iff.mp split with ⟨more, past, -⟩ | ⟨more, rfl, coming⟩
  · exact timely.contents before ⟨more, past.symm⟩
  · rw [replay_done houses others own apart part ⟨rest, coming.symm⟩]
    apply (due_published _ _).mono
    intro c hc
    exact mem_begun.mpr ⟨hc, (timely.started c hc).trans (List.prefix_append _ _)⟩

theorem last_of_part : (replay b.disk h).get? store.path.place =
    published (b.disk.get? store.path.place) ((w.beside b me h).serve rs).2.bench.commits := by
  have whole := replay_done houses others own apart part (List.prefix_refl _)
  rwa [part.1] at whole

end

/-! ## What it answers -/

/-- A store's file beside another store, and the same on a disk of its own. -/
structure Mirrors (store o : Atomic) (start : Memory) (me : Side) (isDir : Bool) (x : Ledger Party)
    (y : Ledger Memory) : Prop where
  quiet : store.Quiet o start me isDir x.disk
  plain : store.Plain isDir y.disk
  real : x.disk.disk.get? store.path.place = y.disk.get? store.path.place

theorem bond_mirrors (codec : Codec V) {start : Memory} {isDir : Bool} (sited : store.Sited)
    (own : store.scratch.place ≠ store.path.place) (apart : Apart store o) :
    Bond codec store (Mirrors store o start me isDir) where
  read := by
    intro x y h
    have unarmed : y.disk.isArmed .read = false := by rw [Memory.isArmed, h.plain.1]; rfl
    have calm := read_calm (Keeper.party store o own apart start me) h.quiet.fine
    have calm' := read_calm (Keeper.memory store own y.disk) fun _ _ _ => rfl
    refine ⟨?_, Driven.party.kept_read (Atomic.Quiet.after sited) h.quiet,
      Driven.memory.kept_read (Atomic.Plain.after sited) h.plain, calm.2.1.trans (h.real.trans calm'.2.1.symm)⟩
    rw [Atomic.read_party h.quiet apart sited, Atomic.read_unarmed _ _ unarmed, h.real, h.plain.2]
  write := by
    intro x y v bs h clean encoded
    let keeper := Keeper.party store o own apart start me
    let keeper' := Keeper.memory store own y.disk
    have same : store.ending bs .makeParent x.disk = store.ending bs .makeParent y.disk := by
      rw [Atomic.ending_party h.quiet apart sited, store.ending_makeParent, Atomic.verdict_unarmed sited h.plain.1,
        h.plain.2]
    obtain ⟨-, real, -⟩ := keeper.settle_real h.quiet.fine (keeper.ready_makeParent bs x.disk) rfl
    obtain ⟨-, real', -⟩ := keeper'.settle_real (fun _ _ _ => rfl) (keeper'.ready_makeParent bs y.disk) rfl
    have published : store.publishes bs .makeParent x.disk = store.publishes bs .makeParent y.disk :=
      congrArg Prod.fst same
    have before : keeper.real x.disk = keeper'.real y.disk := h.real
    refine ⟨congrArg Prod.snd same, Driven.party.kept_write (Atomic.Quiet.after sited) h.quiet,
      Driven.memory.kept_write (Atomic.Plain.after sited) h.plain, ?_⟩
    rw [published, before] at real
    exact real.trans real'.symm

/-- Beside a cell with other files a cell answers, and shows, what it would alone. -/
theorem serve_alike (houses : w.Houses store) (others : ∀ e ∈ h, e.1 ≠ me → o.Move e.2)
    (own : store.scratch.place ≠ store.path.place) (apart : Apart store o) (unarmed : b.disk.armed = [])
    (above : b.disk.hasDir store.path.place = true ∨ store.path.place ∉ o.parent.place.ancestors)
    (rs : List (Request V)) :
    ((w.beside b me h).serve rs).1 = ((w.alone b).serve rs).1 ∧
      ((w.beside b me h).serve rs).2.worker = ((w.alone b).serve rs).2.worker := by
  have fine : (Store.Sight.party store o b.disk me).fine (w.beside b me h).bench.disk := ⟨rfl, rfl, others⟩
  have start : Mirrors store o b.disk me (b.disk.hasDir store.path.place) (w.beside b me h).bench.ledger
      (w.alone b).bench.ledger := ⟨⟨fine, ⟨unarmed, rfl⟩, above⟩, ⟨unarmed, rfl⟩, rfl⟩
  have paired := houses.paired (d := w.alone b) (bond_mirrors _ houses.sited own apart) rfl start fun _ => rfl
  obtain ⟨replies, after⟩ := paired.serve rs
  exact ⟨replies, after.worker⟩

theorem undisturbed (houses : w.Houses store) (others : ∀ e ∈ h, e.1 ≠ me → o.Move e.2)
    (own : store.scratch.place ≠ store.path.place) (apart : Apart store o) (part : w.TakesPart b me h rs) :
    w.Undisturbed store o b me h rs where
  spared e he other := Atomic.spares_iff.mpr ⟨apart.real, apart.realScratch⟩ e.2 (others e he other)
  contents _ isPrefix := contents_of_part houses others own apart part isPrefix
  encoded := (kept_of_serve houses others own apart rs).1.encoded
  last := last_of_part houses others own apart part
  replies unarmed above := serve_alike houses others own apart unarmed above rs

end

/-! ## Two cells -/

/-- Files with different keys are different files. -/
theorem place_ne_of_keys {m : Memory} {p q : Path}
    (keys : ¬ (FileSystem.canonicalKey m p).Same (FileSystem.canonicalKey m q)) : p.place ≠ q.place := by
  intro same
  apply keys
  have key : m.canonicalKey p = m.canonicalKey q := by rw [Memory.canonicalKey, same, Memory.canonicalKey]
  exact congrArg Path.components key

/-- **Cells with four files of their own do not disturb each other.** For two live cells with different keys on one disk
in memory, whatever it holds and whatever faults are armed, and for every interleaving of what they do: if their scratch
files are neither each other's nor any real file, no step of one changes the other's file, and each file holds what it
held at first or what its own cell published. Without faults, each cell also answers and shows what it would alone,
unless the other one makes a directory of its file. -/
theorem neighbours_undisturbed {w : Worker V} {w' : Worker W} {store store' : Atomic} {b : Bench Memory} {h : History}
    {rs : List (Request V)} {rs' : List (Request W)}
    (houses : w.Houses store) (houses' : w'.Houses store')
    (keys : ¬ (FileSystem.canonicalKey b.disk store.path).Same (FileSystem.canonicalKey b.disk store'.path))
    (own : store.scratch.place ≠ store.path.place) (own' : store'.scratch.place ≠ store'.path.place)
    (spare : store.scratch.place ≠ store'.path.place) (spare' : store'.scratch.place ≠ store.path.place)
    (scratch : store.scratch.place ≠ store'.scratch.place)
    (part : w.TakesPart b .left h rs) (part' : w'.TakesPart b .right h rs') :
    w.Undisturbed store store' b .left h rs ∧ w'.Undisturbed store' store b .right h rs' := by
  have apart : Apart store store' := ⟨place_ne_of_keys keys, spare'.symm, spare, scratch⟩
  have moves := part.moves houses
  have moves' := part'.moves houses'
  constructor
  · have others : ∀ e ∈ h, e.1 ≠ .left → store'.Move e.2 := by
      intro e he other
      apply moves' e he
      cases side : e.1 with
      | left => exact absurd side other
      | right => rfl
    exact undisturbed houses others own apart part
  · have others : ∀ e ∈ h, e.1 ≠ .right → store.Move e.2 := by
      intro e he other
      apply moves e he
      cases side : e.1 with
      | left => rfl
      | right => exact absurd side other
    exact undisturbed houses' others own' apart.symm part'

def twoCells (s : Setup V) (s' : Setup W) (m : Memory) (p q : Path) : Option (Worker V × Worker W × Bench Memory) := do
  let first ← newCell s p { disk := m, registry := {}, journal := {} }
  let second ← newCell s' q first.bench
  return (first.worker, second.worker, second.bench)

theorem houses_of_twoCells {s : Setup V} {s' : Setup W} {m : Memory} {p q : Path} {w : Worker V} {w' : Worker W}
    {b : Bench Memory} {store store' : Atomic} (built : twoCells s s' m p q = some (w, w', b))
    (accepted : Atomic.new p s.config.storeOptions = .ok store)
    (accepted' : Atomic.new q s'.config.storeOptions = .ok store') : w.Houses store ∧ w'.Houses store' := by
  obtain ⟨first, hfirst, built⟩ := Option.bind_eq_some_iff.mp built
  obtain ⟨second, hsecond, built⟩ := Option.bind_eq_some_iff.mp built
  cases built
  constructor
  · exact houses_of_build (build_of_newCell hfirst) rfl accepted
  · exact houses_of_build (build_of_newCell hsecond) rfl accepted'

def flipping (s : Atomic) : List Disk.Primitive :=
  [.read s.path, .look s.path, .createDirAll s.parent, .create s.scratch, .write s.scratch.place [1],
    .sync s.scratch.place, .rename s.scratch s.path, .syncDir s.parent]

def toggle : Request Bool := .update (fun v => .returned !v) true

/-- Two switches are flipped step by step in turn. -/
theorem two_flips_in_turn_are_both_stored :
    let v := switchStore ⟨"/d/v"⟩
    let w := switchStore ⟨"/d/w"⟩
    let h : History := ((flipping v).zip (flipping w)).flatMap fun p => [(.left, p.1), (.right, p.2)]
    ∃ x y b, twoCells switch switch { namespaceId := "0" } v.path w.path = some (x, y, b) ∧
      x.Undisturbed v w b .left h [toggle] ∧ y.Undisturbed w v b .right h [toggle] ∧
      (replay b.disk h).get? v.path.place = some [1] ∧ (replay b.disk h).get? w.path.place = some [1] := by
  intro v w h
  have checked : ((twoCells switch switch { namespaceId := "0" } v.path w.path).any fun (x, y, b) => decide
      (¬ (FileSystem.canonicalKey b.disk v.path).Same (FileSystem.canonicalKey b.disk w.path) ∧
        x.TakesPart b .left h [toggle] ∧ y.TakesPart b .right h [toggle] ∧
        (replay b.disk h).get? v.path.place = some [1] ∧ (replay b.disk h).get? w.path.place = some [1])) = true := by
    decide +kernel
  rcases built : twoCells switch switch { namespaceId := "0" } v.path w.path with _ | ⟨x, y, b⟩ <;>
    rw [built] at checked
  · cases checked
  · obtain ⟨keys, part, part', stored, stored'⟩ := of_decide_eq_true checked
    obtain ⟨houses, houses'⟩ := houses_of_twoCells built (new_switchStore (by decide +kernel))
      (new_switchStore (by decide +kernel))
    obtain ⟨kept, kept'⟩ := neighbours_undisturbed houses houses' keys (by decide +kernel) (by decide +kernel)
      (by decide +kernel) (by decide +kernel) (by decide +kernel) part part'
    exact ⟨x, y, b, rfl, kept, kept', stored, stored'⟩

/-- Two keys are not enough: the file of one switch is the scratch file of the other, which takes it away with its first
flip. -/
theorem a_scratch_file_takes_a_neighbour_away :
    let v := switchStore ⟨"/d/v"⟩
    let w := switchStore ⟨"/d/v.tmp"⟩
    let before : History := (flipping w).map fun p => (.right, p)
    let h : History := before ++ (flipping v).map fun p => (.left, p)
    ∃ x y b, twoCells switch switch { namespaceId := "0" } v.path w.path = some (x, y, b) ∧ x.Houses v ∧ y.Houses w ∧
      ¬ (FileSystem.canonicalKey b.disk v.path).Same (FileSystem.canonicalKey b.disk w.path) ∧
      x.TakesPart b .left h [toggle] ∧ y.TakesPart b .right h [toggle] ∧
      (replay b.disk before).get? w.path.place = some [1] ∧ (replay b.disk h).get? w.path.place = none ∧
      ¬ y.Undisturbed w v b .right h [toggle] := by
  intro v w before h
  have checked : ((twoCells switch switch { namespaceId := "0" } v.path w.path).any fun (x, y, b) => decide
      (¬ (FileSystem.canonicalKey b.disk v.path).Same (FileSystem.canonicalKey b.disk w.path) ∧
        x.TakesPart b .left h [toggle] ∧ y.TakesPart b .right h [toggle] ∧
        (replay b.disk before).get? w.path.place = some [1] ∧ (replay b.disk h).get? w.path.place = none ∧
        published (b.disk.get? w.path.place) ((y.beside b .right h).serve [toggle]).2.bench.commits =
          some [1])) = true := by
    decide +kernel
  rcases built : twoCells switch switch { namespaceId := "0" } v.path w.path with _ | ⟨x, y, b⟩ <;>
    rw [built] at checked
  · cases checked
  · obtain ⟨keys, part, part', stored, gone, due⟩ := of_decide_eq_true checked
    obtain ⟨houses, houses'⟩ := houses_of_twoCells built (new_switchStore (by decide +kernel))
      (new_switchStore (by decide +kernel))
    refine ⟨x, y, b, rfl, houses, houses', keys, part, part', stored, gone, fun kept => ?_⟩
    have last := kept.last
    rw [gone, due] at last
    cases last

/-- Nor is it enough that no scratch file is a real one: of a scratch file that both share, one cell publishes what the
other has made of it. -/
example :
    let s : Setup Bool := { switch with config.scratchSuffix := ".a.b" }
    let s' : Setup Bool := { switch with config.scratchSuffix := ".b" }
    let v : Atomic := ⟨⟨"/d/v"⟩, ⟨"/d/v.a.b"⟩, true⟩
    let w : Atomic := ⟨⟨"/d/v.a"⟩, ⟨"/d/v.a.b"⟩, true⟩
    let h : History := ((flipping v).take 6).map (.left, ·) ++ ((flipping w).take 4).map (.right, ·) ++
      ((flipping v).drop 6).map (.left, ·) ++ [(.right, .write w.scratch.place [1]), (.right, .look w.scratch)]
    ((twoCells s s' { namespaceId := "0" } v.path w.path).any fun (x, y, b) => decide
      (x.TakesPart b .left h [toggle] ∧ y.TakesPart b .right h [toggle] ∧
        (replay b.disk h).get? v.path.place = some [])) = true := by
  decide +kernel

end DurableValue.Cell
