/-
  DurableValue.Proofs.Cell.Work — what the work of a cell may do.

  A piece of work on a job is a chain of a few kinds of changes (`Touch`): it notes lines, calls the caller's code,
  reads the file, decodes, encodes and replaces the file. Some of that an initialization may use only once, and the
  chain says what it used (`Done`). Each piece of work is held to a budget of uses, and to the errors it may fail with
  (`Within`); what work leaves alone then follows by induction on the chain, once for all of it.

  Proved:
  - `within_firstValue`: an initialization reads and decodes once at most, asks the corruption handler once at most
    and each migration once at most for each of its three parts.
  - `within_writeValue`: a commit uses nothing of that.
  - Neither fails with a terminal error, nor with one that blames the configuration (`Error.OfWork`).
-/
import DurableValue.Proofs.Cell.Task
import DurableValue.Proofs.Store.Keeper

namespace DurableValue

open Disk (FileSystem IoError)

/-! ## Lines about an event -/

namespace Journal

theorem Event.name_ne {e e' : Event} (other : e ≠ e') : e.name ≠ e'.name := by
  cases e' <;> cases e <;> first | exact absurd rfl other | decide

def about (e : Event) (j : Journal) : List Line := j.noted.filter fun l => l.event = e.name

def finals (j : Journal) : List Line := j.noted.filter fun l => l.event = Event.cellFinal.name

theorem about_add {j : Journal} {e : Event} {l : Line} (other : l.event ≠ e.name) : (j.add l).about e = j.about e := by
  unfold add
  split
  · simp [about, other]
  · rfl

theorem about_add_own {j : Journal} {e : Event} {l : Line} (own : l.event = e.name) :
    (j.add l).about e = (if j.least ≤ l.severity then [l] else []) ++ j.about e := by
  by_cases kept : j.least ≤ l.severity
  · simp [add, keeps, about, own, kept]
  · simp [add, keeps, kept]

theorem least_add (j : Journal) (l : Line) : (j.add l).least = j.least := by
  unfold add
  split <;> rfl

theorem finals_note {j : Journal} (severity : Severity) {event : String} (fields : List Field)
    (other : event ≠ Event.cellFinal.name) : (j.note severity event fields).finals = j.finals :=
  about_add (e := .cellFinal) other

/-- A journal keeps what is fatal, whatever its threshold. -/
theorem finals_note_final (j : Journal) (fields : List Field) :
    (j.note .fatal Event.cellFinal.name fields).finals = ⟨.fatal, Event.cellFinal.name, fields⟩ :: j.finals := by
  have kept : j.keeps .fatal = true := by
    refine decide_eq_true ?_
    cases j.least <;> decide
  simp [note, add, kept, finals]

def Event.ofCell : List Event := [.cellFinal, .subscribersHigh]

def Line.IsOfWork (l : Line) : Prop := ∀ e ∈ Event.ofCell, l.event ≠ e.name

end Journal

/-! ## The errors of a store at work -/

namespace Store

variable {F H : Type} [FileSystem F H]

def Error.IsPlain (e : Error) : Prop := e.code.isConfiguration = false

def Phase.IsPlain : Phase H → Prop
  | .discard _ cause | .removeScratch cause => cause.IsPlain
  | _ => True

def Step.IsPlain : Step H → Prop
  | .next phase => phase.IsPlain
  | .done outcome => ∀ e, outcome = .error e → e.IsPlain

theorem Step.isPlain_error {e : Error} (h : e.IsPlain) : (Step.done (.error e) : Step H).IsPlain :=
  fun _ same => Except.error.inj same ▸ h

theorem Step.isPlain_ok : (Step.done (.ok ()) : Step H).IsPlain := fun _ failed => nomatch failed

namespace Atomic

variable {s : Atomic} {bs : Bytes}

theorem read_error {disk : F} {e : Error} (h : (s.read disk).1 = .error e) : e.IsPlain := by
  unfold read at h
  split at h
  · cases h
  · split at h
    · split at h <;> cases h
      rfl
    · cases h
      rfl

/-- A phase that is entered for a plain reason ends plainly. -/
theorem advance_isPlain {phase : Phase H} (disk : F) (h : phase.IsPlain) : (s.advance bs phase disk).1.IsPlain := by
  cases phase <;> simp only [advance]
  case makeParent =>
    split
    · trivial
    · exact Step.isPlain_error rfl
  case openScratch =>
    split
    · trivial
    · rfl
  case fillScratch =>
    split
    · trivial
    · rfl
  case syncScratch =>
    split
    · trivial
    · rfl
  case publish =>
    split
    · trivial
    · rfl
  case syncParent =>
    split
    · split
      · exact Step.isPlain_ok
      · exact Step.isPlain_error rfl
    · exact Step.isPlain_ok
  case discard =>
    split
    · exact h
    · exact Step.isPlain_error h
  case removeScratch => exact Step.isPlain_error h

theorem settle_error (phase : Phase H) (disk : F) (h : phase.IsPlain) :
    ∀ e, (s.settle bs phase disk).1 = .error e → e.IsPlain := by
  induction phase, disk using @walk_induction F H _ s bs with
  | h phase disk ih =>
    intro e failed
    have plain : (s.advance bs phase disk).1.IsPlain := advance_isPlain disk h
    rcases step : s.advance bs phase disk with ⟨next | outcome, disk'⟩ <;> rw [step] at plain
    · rw [settle_next step] at failed
      exact ih next disk' step plain e failed
    · rw [settle_done step] at failed
      exact plain e failed

theorem write_isPlain {disk : F} {e : Error} (h : (s.write bs disk).1 = .error e) : e.IsPlain :=
  settle_error .makeParent disk trivial e h

end Atomic

end Store

namespace Cell

inductive Error.OfWork : Error → Prop where
  | store {e : Store.Error} (plain : e.IsPlain) : OfWork (.ofStore e)
  | codec (e : Codec.Error) : OfWork (.codecFailed e)
  | corruption (e : Codec.Error) : OfWork (.dataCorruption e)
  | collaborator (who reason : String) : OfWork (.collaboratorFailed who reason)

inductive Use where
  | produce
  | read
  | decode
  | handle
  | applies (migration : Nat)
  | migrate (migration : Nat)
  | cleanUp (migration : Nat)
  deriving DecidableEq, Repr

def Call.use? : Call → Option Use
  | .produce _ => some .produce
  | .transform => none
  | .handle _ => some .handle
  | .applies i => some (.applies i)
  | .migrate i => some (.migrate i)
  | .cleanUp i => some (.cleanUp i)

variable {F H V : Type} [FileSystem F H]

inductive Touch (store : Store.Atomic) : List Use → Job F → Job F → Prop where
  | note (j : Job F) (l : Journal.Line) (own : l.IsOfWork) :
    Touch store [] j { j with bench.journal := j.bench.journal.add l }
  | call (j : Job F) (c : Call) : Touch store c.use?.toList j { j with bench := j.bench.record c }
  | pass (j : Job F) (p : CrashPoint) : Touch store [] j { j with bench := j.bench.pass p }
  | count (j : Job F) (f : Counters → Counters) :
    Touch store [] j { j with tally.counters := f j.tally.counters }
  | decode (j : Job F) : Touch store [.decode] j { j with tally.decodes := j.tally.decodes + 1 }
  | encode (j : Job F) : Touch store [] j { j with tally.encodes := j.tally.encodes + 1 }
  | read (j : Job F) : Touch store [.read] j { j with bench.disk := (store.read j.bench.disk).2 }
  | replace (j : Job F) (bs : Bytes) (moments : List (Moment F)) :
    Touch store [] j { j with bench := { j.bench with
      disk := (store.write bs j.bench.disk).2
      moments := moments
      commits := ⟨store, bs, j.bench.disk⟩ :: j.bench.commits } }

inductive Done (store : Store.Atomic) : List Use → Job F → Job F → Prop where
  | nothing (j : Job F) : Done store [] j j
  | more {us vs : List Use} {i j k : Job F} : Done store us i j → Touch store vs j k → Done store (us ++ vs) i k

theorem Done.one {store : Store.Atomic} {us : List Use} {i j : Job F} (h : Touch store us i j) : Done store us i j :=
  .more (.nothing i) h

theorem Done.trans {store : Store.Atomic} {us vs : List Use} {i j k : Job F} (h : Done store us i j)
    (h' : Done store vs j k) : Done store (us ++ vs) i k := by
  induction h' with
  | nothing => rwa [List.append_nil]
  | more _ last ih =>
    rw [← List.append_assoc]
    exact .more (ih h) last

/-- What no change touches, no chain of them touches. -/
theorem Done.keeps {γ : Type} {f : Job F → γ} {store : Store.Atomic} {us : List Use} {i j : Job F}
    (h : Done store us i j) (touch : ∀ vs i j, Touch store vs i j → f j = f i) : f j = f i := by
  induction h with
  | nothing => rfl
  | more _ last ih => exact (touch _ _ _ last).trans ih

theorem Done.registry {store : Store.Atomic} {us : List Use} {i j : Job F} (h : Done store us i j) :
    j.bench.registry = i.bench.registry :=
  h.keeps (f := fun j : Job F => j.bench.registry) fun _ _ _ touch => by cases touch <;> rfl

/-- Work tells nothing of what a cell tells of by itself. -/
theorem Done.about {store : Store.Atomic} {us : List Use} {i j : Job F} (h : Done store us i j) {e : Journal.Event}
    (ofCell : e ∈ Journal.Event.ofCell) : j.bench.journal.about e = i.bench.journal.about e :=
  h.keeps (f := fun j : Job F => j.bench.journal.about e) fun _ _ _ touch => by
    cases touch with
    | note _ _ own => exact Journal.about_add (own e ofCell)
    | _ => rfl

theorem Done.finals {store : Store.Atomic} {us : List Use} {i j : Job F} (h : Done store us i j) :
    j.bench.journal.finals = i.bench.journal.finals :=
  h.about (e := .cellFinal) (by decide)

theorem Done.least {store : Store.Atomic} {us : List Use} {i j : Job F} (h : Done store us i j) :
    j.bench.journal.least = i.bench.journal.least :=
  h.keeps (f := fun j : Job F => j.bench.journal.least) fun _ _ _ touch => by
    cases touch with
    | note _ l => exact Journal.least_add _ l
    | _ => rfl

namespace Task

variable {α β : Type} {store : Store.Atomic} {s : Setup V} {budget more : List Use} {P : α → Prop} {Q : β → Prop}

def Proper (P : α → Prop) : Except Stop α → Prop
  | .ok a => P a
  | .error (.failed e) => e.OfWork
  | .error (.broke _) => True

def Within (store : Store.Atomic) (budget : List Use) (P : α → Prop) (t : Task F α) : Prop :=
  ∀ j, ∃ us, (∀ u, us.count u ≤ budget.count u) ∧ Done store us j (t.run j).2 ∧ Proper P (t.run j).1

/-! ## Steps -/

theorem within_pure {a : α} (h : P a) : Within (F := F) store [] P (pure a) :=
  fun j => ⟨[], fun _ => Nat.le_refl _, .nothing j, h⟩

theorem within_fail {e : Error} (h : e.OfWork) : Within (F := F) store [] P (fail e) :=
  fun j => ⟨[], fun _ => Nat.le_refl _, .nothing j, h⟩

theorem within_bind {t : Task F α} {f : α → Task F β} (h : Within store budget P t)
    (rest : ∀ a, P a → Within store more Q (f a)) : Within store (budget ++ more) Q (t >>= f) := by
  intro j
  obtain ⟨us, small, done, proper⟩ := h j
  rw [run_bind]
  rcases ht : t.run j with ⟨stop | a, j'⟩ <;> rw [ht] at done proper
  · refine ⟨us, fun u => ?_, done, ?_⟩
    · rw [List.count_append]
      exact Nat.le_add_right_of_le (small u)
    · cases stop <;> exact proper
  · obtain ⟨vs, small', done', proper'⟩ := rest a proper j'
    refine ⟨us ++ vs, fun u => ?_, done.trans done', proper'⟩
    rw [List.count_append, List.count_append]
    exact Nat.add_le_add (small u) (small' u)

theorem within_mono {t : Task F α} (h : Within store budget P t) (le : ∀ u, budget.count u ≤ more.count u) :
    Within store more P t := by
  intro j
  obtain ⟨us, small, done, proper⟩ := h j
  exact ⟨us, fun u => Nat.le_trans (small u) (le u), done, proper⟩

theorem within_imp {P' : α → Prop} {t : Task F α} (h : Within store budget P t) (imp : ∀ a, P a → P' a) :
    Within store budget P' t := by
  intro j
  obtain ⟨us, small, done, proper⟩ := h j
  refine ⟨us, small, done, ?_⟩
  rcases ended : (t.run j).1 with ⟨e | m⟩ | a <;> rw [ended] at proper
  · exact proper
  · trivial
  · exact imp a proper

/-- Work that uses nothing is no burden on a budget. -/
theorem within_last {t : Task F α} {f : α → Task F β} (h : Within store budget P t)
    (rest : ∀ a, P a → Within store [] Q (f a)) : Within store budget Q (t >>= f) :=
  within_mono (within_bind h rest) fun u => Nat.le_of_eq (by rw [List.append_nil])

theorem within_touch {t : Task F Unit} {us : List Use} {f : Job F → Job F} (run : ∀ j, t.run j = (.ok (), f j))
    (touch : ∀ j, Touch store us j (f j)) : Within store us (fun _ => True) t := by
  intro j
  rw [run]
  exact ⟨us, fun _ => Nat.le_refl _, .one (touch j), trivial⟩

theorem within_note (label : String) (severity : Journal.Severity) {e : Journal.Event}
    (other : e ∉ Journal.Event.ofCell) (extra : List Journal.Field) :
    Within (F := F) store [] (fun _ => True) (note s label severity e extra) :=
  within_touch (fun _ => rfl) fun j =>
    .note j ⟨severity, e.name, ("instance", s.marks.instanceId) :: ("path", label) :: extra⟩
      fun _ ofCell => Journal.Event.name_ne fun same => other (same ▸ ofCell)

theorem within_record (c : Call) :
    Within (F := F) store c.use?.toList (fun _ => True) (onBench (·.record c)) :=
  within_touch (fun _ => rfl) fun j => .call j c

theorem within_pass (p : CrashPoint) : Within (F := F) store [] (fun _ => True) (onBench (·.pass p)) :=
  within_touch (fun _ => rfl) fun j => .pass j p

theorem within_count (f : Counters → Counters) : Within (F := F) store [] (fun _ => True) (count f) :=
  within_touch (fun _ => rfl) fun j => .count j f

theorem within_consult (c : Call) (collaborator : String) (o : Outcome α) :
    Within (F := F) store c.use?.toList (fun _ => True) (consult c collaborator o) := by
  refine within_last (within_record c) fun _ _ => ?_
  cases o.result with
  | ok a => exact within_pure trivial
  | error reason => exact within_fail (.collaborator _ _)

/-! ## Reading and committing -/

theorem within_encode (v : V) : Within (F := F) store [] (fun _ => True) (encode s v) := by
  intro j
  refine ⟨[], fun _ => Nat.le_refl _, ?_, ?_⟩
  · rw [run_encode]
    exact .one (.encode j)
  · rw [run_encode]
    unfold encoded
    rcases s.encodeMishap j.tally.encodes with _ | ⟨e⟩ | ⟨m⟩
    · cases s.codec.encode v with
      | ok bs => trivial
      | error e => exact .codec e
    · exact .codec e
    · trivial

theorem within_replace (bs : Bytes) : Within (F := F) store [] (fun _ => True) (replace store bs) := by
  intro j
  refine ⟨[], fun _ => Nat.le_refl _, ?_, ?_⟩
  · rw [run_replace]
    exact .one (.replace j bs _)
  · rw [run_replace]
    cases h : (store.write bs j.bench.disk).1 with
    | ok _ => trivial
    | error e => exact .store (Store.Atomic.write_isPlain h)

/-- A commit uses nothing of an initialization. -/
theorem within_writeValue (v : V) : Within (F := F) store [] (fun _ => True) (writeValue s store v) := by
  refine within_bind (within_encode v) fun bs _ => ?_
  refine within_bind (within_replace bs) fun _ _ => ?_
  exact within_bind (within_count _) fun _ _ => within_pure trivial

theorem within_decode (bs : Bytes) : Within (F := F) store [.decode] (fun _ => True) (decode s bs) := by
  intro j
  refine ⟨[.decode], fun _ => Nat.le_refl _, ?_, ?_⟩
  all_goals
    simp only [decode, run_bind, run_get, run_modify]
    rcases s.decodeMishap j.tally.decodes with _ | ⟨e⟩ | ⟨m⟩
  · exact .one (.decode j)
  · exact .one (.decode j)
  · exact .one (.decode j)
  · trivial
  · trivial
  · trivial

theorem within_readStore : Within (F := F) store [.read] (fun _ => True) (readStore store) := by
  intro j
  refine ⟨[.read], fun _ => Nat.le_refl _, ?_, ?_⟩
  · rw [run_readStore]
    exact .one (.read j)
  · rw [run_readStore]
    cases h : (store.read j.bench.disk).1 with
    | ok _ => trivial
    | error e => exact .store (Store.Atomic.read_error h)

theorem within_recover (label : String) (e : Codec.Error) :
    Within (F := F) store [.handle] (fun _ => True) (recover s store label e) := by
  refine within_bind (within_note label _ (by decide) _) fun _ _ => ?_
  cases s.handler with
  | none => exact within_mono (within_fail (.corruption e)) fun u => Nat.zero_le _
  | some handler =>
    refine within_bind (within_consult (.handle e) _ _) fun v _ => ?_
    refine within_bind (within_writeValue v) fun size _ => ?_
    refine within_bind (within_pass _) fun _ _ => ?_
    refine within_bind (within_count _) fun _ _ => ?_
    exact within_bind (within_note label _ (by decide) _) fun _ _ => within_pure trivial

theorem within_makeDefault : Within (F := F) store [] (fun _ => True) (makeDefault s) := by
  unfold makeDefault
  split
  · exact within_pure trivial
  · exact fun j => ⟨[], fun _ => Nat.le_refl _, .nothing j, trivial⟩

theorem within_readInitial (label : String) :
    Within (F := F) store [.read, .decode, .handle] (fun _ => True) (readInitial s store label) := by
  refine within_bind within_readStore fun found _ => ?_
  cases found with
  | none => exact within_mono within_makeDefault fun u => Nat.zero_le _
  | some bs =>
    refine within_bind (within_decode bs) fun decoded _ => ?_
    cases decoded with
    | ok v => exact within_mono (within_pure trivial) fun u => Nat.zero_le _
    | error e =>
      simp only []
      split
      · exact within_recover label e
      · exact within_mono (within_fail (.codec e)) fun u => Nat.zero_le _

/-! ## Migrations -/

def trials (ms : List (Nat × Migration V)) : List Use := ms.flatMap fun m => [.applies m.1, .migrate m.1]

def cleanUps (ms : List (Nat × Migration V)) : List Use := ms.map fun m => .cleanUp m.1

theorem within_migrateEach (label : String) (ms : List (Nat × Migration V)) (v : V) :
    Within (F := F) store (trials ms) (fun r => r.2.Sublist ms) (migrateEach s label ms v) := by
  induction ms generalizing v with
  | nil => exact within_pure (List.Sublist.refl [])
  | cons m ms ih =>
    obtain ⟨i, m⟩ := m
    change Within store ([.applies i] ++ ([.migrate i] ++ ([] ++ trials ms))) _ (consult _ _ _ >>= _)
    refine within_bind (within_consult (.applies i) _ _) fun applies _ => ?_
    cases applies with
    | false =>
      refine within_mono (within_imp (ih v) fun r h => List.Sublist.cons _ h) fun u => ?_
      exact (List.sublist_cons_self _ _).count_le u
    | true =>
      refine within_bind (within_consult (.migrate i) _ _) fun v _ => ?_
      refine within_bind (within_note label _ (by decide) _) fun _ _ => ?_
      exact within_last (ih v) fun r h => within_pure (List.Sublist.cons_cons _ h)

theorem within_cleanUpEach (label : String) (ms : List (Nat × Migration V)) {first : Option Error}
    (fine : ∀ e ∈ first, e.OfWork) :
    Within (F := F) store (cleanUps ms) (fun failure => ∀ e ∈ failure, e.OfWork) (cleanUpEach s label ms first) := by
  induction ms generalizing first with
  | nil => exact within_pure fine
  | cons m ms ih =>
    obtain ⟨i, m⟩ := m
    refine within_bind (within_record (.cleanUp i)) fun _ _ => ?_
    cases m.cleanUp.result with
    | ok _ => exact ih fine
    | error reason =>
      refine within_bind (within_note label _ (by decide) _) fun _ _ => ih ?_
      cases first with
      | some e => exact fine
      | none =>
        intro e he
        cases he
        exact .collaborator _ _

theorem within_applyMigrations (label : String) (v : V) :
    Within (F := F) store (trials (numbered s.migrations) ++ cleanUps (numbered s.migrations)) (fun _ => True)
      (applyMigrations s store label v) := by
  refine within_bind (within_migrateEach label _ v) fun ran ran_of => ?_
  obtain ⟨next, ran⟩ := ran
  have few (u : Use) : (cleanUps ran).count u ≤ (cleanUps (numbered s.migrations)).count u :=
    (ran_of.map _).count_le u
  simp only []
  split
  · exact within_mono (within_pure trivial) fun u => Nat.zero_le _
  · split
    case' isTrue =>
      refine within_bind (within_writeValue next) fun size _ => ?_
      refine within_bind (within_pass _) fun _ _ => ?_
      refine within_bind (within_note label _ (by decide) _) fun _ _ => ?_
    all_goals
      refine within_mono (?_ : Within store (cleanUps ran) (fun _ => True) _) few
      refine within_bind (within_count _) fun _ _ => ?_
      refine within_last (within_cleanUpEach label ran fun e he => by cases he) fun failure fine => ?_
      cases failure with
      | none => exact within_pure trivial
      | some failure => exact within_fail (fine failure rfl)

/-! ## The first value -/

def onceEach (s : Setup V) : List Use :=
  [.read, .decode, .handle] ++ (trials (numbered s.migrations) ++ cleanUps (numbered s.migrations))

theorem numbered_distinct (ms : List (Migration V)) : (numbered ms).Pairwise fun m n => m.1 ≠ n.1 := by
  have numbers : ((numbered ms).map (·.1)).Nodup := by
    rw [numbered, List.map_map]
    exact (List.zipIdx_map_snd 0 ms).symm ▸ List.nodup_range' 1
  exact List.pairwise_map.mp numbers

/-- Nothing is in the budget of an initialization twice. -/
theorem onceEach_nodup (s : Setup V) : (onceEach s).Nodup := by
  have distinct := numbered_distinct s.migrations
  refine List.nodup_append.mpr ⟨by decide, List.nodup_append.mpr ⟨?_, ?_, ?_⟩, ?_⟩
  · refine List.pairwise_flatMap.mpr ⟨fun m _ => by simp, distinct.imp fun ne => ?_⟩
    simp [ne]
  · exact List.pairwise_map.mpr (distinct.imp fun ne => by simp [ne])
  · simp only [trials, cleanUps, List.mem_flatMap, List.mem_map, List.mem_cons, List.not_mem_nil, or_false]
    rintro _ ⟨m, -, rfl | rfl⟩ _ ⟨n, -, rfl⟩ <;> simp
  · simp only [trials, cleanUps, List.mem_append, List.mem_flatMap, List.mem_map, List.mem_cons, List.not_mem_nil,
      or_false]
    rintro _ (rfl | rfl | rfl) _ (⟨m, -, rfl | rfl⟩ | ⟨n, -, rfl⟩) <;> simp

theorem produce_notMem_onceEach (s : Setup V) : .produce ∉ onceEach s := by
  simp [onceEach, trials, cleanUps]

/-- The lines around an initialization. -/
theorem isOfWork_opening (s : Setup V) (label : String) :
    (⟨.info, (scope s label).name ++ "_BEGIN", (scope s label).fields⟩ : Journal.Line).IsOfWork :=
  show ∀ e ∈ Journal.Event.ofCell, "CELL_INIT" ++ "_BEGIN" ≠ e.name by decide

theorem isOfWork_closing (s : Setup V) (label elapsed : String) (e : Journal.Scope.Ending) :
    ((scope s label).closing elapsed e).IsOfWork := by
  cases e with
  | complete extra => exact show ∀ e ∈ Journal.Event.ofCell, "CELL_INIT" ++ "_COMPLETE" ≠ e.name by decide
  | fail reason => exact show ∀ e ∈ Journal.Event.ofCell, "CELL_INIT" ++ "_FAILED" ≠ e.name by decide
  | failFatal reason => exact show ∀ e ∈ Journal.Event.ofCell, "CELL_INIT" ++ "_FAILED" ≠ e.name by decide
  | abandoned => exact show ∀ e ∈ Journal.Event.ofCell, "CELL_INIT" ++ "_INCOMPLETE" ≠ e.name by decide

theorem within_firstValue (label : String) :
    Within (F := F) store (onceEach s) (fun _ => True) (firstValue s store label) := by
  intro j
  have work : Within store (onceEach s) (fun _ => True)
      (readInitial (F := F) s store label >>= applyMigrations s store label) :=
    within_bind (within_readInitial label) fun v _ => within_applyMigrations label v
  obtain ⟨us, small, done, proper⟩ := work { j with bench.journal := (scope s label).opening j.bench.journal }
  rcases ran : (readInitial s store label >>= applyMigrations s store label).run
    { j with bench.journal := (scope s label).opening j.bench.journal } with ⟨result, j'⟩
  rw [ran] at done proper
  simp only [run_firstValue, ran]
  have opened : Touch store [] j { j with bench.journal := (scope s label).opening j.bench.journal } :=
    .note j _ (isOfWork_opening s label)
  have closed : Touch store [] j'
      { j' with bench.journal := (scope s label).close s.marks.elapsed (ending result) j'.bench.journal } :=
    .note j' _ (isOfWork_closing s label _ _)
  refine ⟨us, small, ?_, proper⟩
  have whole := ((Done.one opened).trans done).trans (.one closed)
  rwa [List.append_nil] at whole

end Task

end Cell

end DurableValue
