/-
  DurableValue.Proofs.Cell.Matched — relational rules for the work of a cell.

  Two pieces of work match when, begun on related jobs, they end the same way and leave related jobs; what is related
  may be less once they were stopped. The work of a cell is made of a few steps, and a relation that bears with each
  of them (`Bears`) is kept by all that is made of them.

  Proved, for every relation that bears with the steps:
  - `matched_writeValue`: a commit on the one side matches that on the other.
  - `matched_readInitial`, `matched_applyMigrations`: the same for the first value and for a pass over the migrations.
  - `matched_firstValue`: the same for a whole initialization.
-/
import DurableValue.Proofs.Cell.Task

namespace DurableValue.Cell.Task

open Disk (FileSystem)

variable {F G H K V α β : Type} [FileSystem F H] [FileSystem G K]

/-- How two pieces of work end: the same way, related by `T`, and by `S` as well if they return, with what `Q` says. -/
structure Together (S T : Job F → Job G → Prop) (Q : α → Prop) (x : Except Stop α × Job F) (y : Except Stop α × Job G) :
    Prop where
  result : x.1 = y.1
  stopped : T x.2 y.2
  returned : ∀ a, x.1 = .ok a → S x.2 y.2 ∧ Q a

def Matched (S T : Job F → Job G → Prop) (Q : α → Prop) (t : Task F α) (u : Task G α) : Prop :=
  ∀ i j, S i j → Together S T Q (t.run i) (u.run j)

/-- What two relations have to bear with for the work on a store: `S` while it goes on and `T` once it was stopped. The
journals are told the same lines. -/
structure Bears (codec : Codec V) (store : Store.Atomic) (S T : Job F → Job G → Prop) : Prop where
  stop : ∀ {i j}, S i j → T i j
  line : ∀ {i j} (l : Journal.Line), S i j →
    S { i with bench.journal := i.bench.journal.add l } { j with bench.journal := j.bench.journal.add l }
  lineStopped : ∀ {i j} (l : Journal.Line), T i j →
    T { i with bench.journal := i.bench.journal.add l } { j with bench.journal := j.bench.journal.add l }
  record : ∀ {i j} (c : Call), S i j →
    S { i with bench := i.bench.record c } { j with bench := j.bench.record c }
  pass : ∀ {i j} (p : CrashPoint), S i j → S { i with bench := i.bench.pass p } { j with bench := j.bench.pass p }
  count : ∀ {i j} (f : Counters → Counters), S i j →
    S { i with tally.counters := f i.tally.counters } { j with tally.counters := f j.tally.counters }
  encodes : ∀ {i j}, S i j → i.tally.encodes = j.tally.encodes ∧
    S { i with tally.encodes := i.tally.encodes + 1 } { j with tally.encodes := j.tally.encodes + 1 }
  decodes : ∀ {i j}, S i j → i.tally.decodes = j.tally.decodes ∧
    S { i with tally.decodes := i.tally.decodes + 1 } { j with tally.decodes := j.tally.decodes + 1 }
  read : Matched S T (fun _ => True) (readStore store) (readStore store)
  replace : ∀ {v bs}, codec.encode v = .ok bs → Matched S T (fun _ => True) (replace store bs) (replace store bs)

section

variable {S T : Job F → Job G → Prop} {P : α → Prop} {Q : β → Prop}

/-! ## Rules -/

theorem matched_pure (stop : ∀ {i j}, S i j → T i j) {a : α} (h : P a) : Matched S T P (pure a) (pure a) :=
  fun _ _ related => ⟨rfl, stop related, fun _ e => by cases e; exact ⟨related, h⟩⟩

theorem matched_throw (stop : ∀ {i j}, S i j → T i j) (e : Stop) : Matched S T P (throw e) (throw e) :=
  fun _ _ related => ⟨rfl, stop related, fun _ e => by cases e⟩

theorem matched_bind {t : Task F α} {u : Task G α} {f : α → Task F β} {g : α → Task G β} (h : Matched S T P t u)
    (rest : ∀ a, P a → Matched S T Q (f a) (g a)) : Matched S T Q (t >>= f) (u >>= g) := by
  intro i j related
  have ends := h i j related
  rw [run_bind, run_bind]
  rcases ht : t.run i with ⟨x, i'⟩
  rcases hu : u.run j with ⟨y, j'⟩
  rw [ht, hu] at ends
  cases ends.result
  cases x with
  | error e => exact ⟨rfl, ends.stopped, fun _ e => by cases e⟩
  | ok a =>
    obtain ⟨related', post⟩ := ends.returned a rfl
    exact rest a post i' j' related'

/-- A step that keeps the relation, however it ends. -/
theorem Together.of_kept (stop : ∀ {i j}, S i j → T i j) {x : Except Stop α} {i : Job F} {j : Job G} (kept : S i j)
    (post : ∀ a, x = .ok a → P a) : Together S T P (x, i) (x, j) :=
  ⟨rfl, stop kept, fun a ok => ⟨kept, post a ok⟩⟩

variable {s : Setup V} {store : Store.Atomic} (bears : Bears s.codec store S T)

include bears

theorem matched_fail (e : Error) : Matched S T P (fail e) (fail e) := matched_throw bears.stop (.failed e)

theorem matched_record (c : Call) :
    Matched S T (fun _ => True) (onBench (·.record c)) (onBench (·.record c)) :=
  fun _ _ related => Together.of_kept bears.stop (bears.record c related) fun _ _ => trivial

theorem matched_pass (p : CrashPoint) :
    Matched S T (fun _ => True) (onBench (·.pass p)) (onBench (·.pass p)) :=
  fun _ _ related => Together.of_kept bears.stop (bears.pass p related) fun _ _ => trivial

theorem matched_count (f : Counters → Counters) : Matched S T (fun _ => True) (count f) (count f) :=
  fun _ _ related => Together.of_kept bears.stop (bears.count f related) fun _ _ => trivial

theorem matched_note (label : String) (severity : Journal.Severity) (e : Journal.Event)
    (extra : List Journal.Field) :
    Matched S T (fun _ => True) (note s label severity e extra) (note s label severity e extra) :=
  fun _ _ related => Together.of_kept bears.stop (bears.line _ related) fun _ _ => trivial

theorem matched_consult (c : Call) (collaborator : String) (o : Outcome α) :
    Matched S T (fun _ => True) (consult c collaborator o) (consult c collaborator o) := by
  refine matched_bind (matched_record bears c) fun _ _ => ?_
  cases o.result with
  | error reason => exact matched_fail bears _
  | ok a => exact matched_pure bears.stop trivial

theorem matched_encode (v : V) : Matched S T (fun bs => s.codec.encode v = .ok bs) (encode s v) (encode s v) := by
  intro i j related
  obtain ⟨same, kept⟩ := bears.encodes related
  rw [run_encode, run_encode, ← same]
  rw [← same] at kept
  exact Together.of_kept bears.stop kept fun bs ok => encoded_ok ok

theorem matched_decode (bs : Bytes) : Matched S T (fun _ => True) (decode s bs) (decode s bs) := by
  intro i j related
  obtain ⟨same, kept⟩ := bears.decodes related
  rw [← same] at kept
  simp only [decode, run_bind, run_get, run_modify, ← same]
  rcases s.decodeMishap i.tally.decodes with _ | ⟨e⟩ | ⟨m⟩
  · exact Together.of_kept bears.stop kept fun _ _ => trivial
  · exact Together.of_kept bears.stop kept fun _ _ => trivial
  · exact Together.of_kept bears.stop kept fun _ _ => trivial

/-! ## Committing -/

theorem matched_writeValue (v : V) :
    Matched S T (fun _ => True) (writeValue s store v) (writeValue s store v) := by
  refine matched_bind (matched_encode bears v) fun bs encoded => ?_
  refine matched_bind (bears.replace encoded) fun _ _ => ?_
  exact matched_bind (matched_count bears _) fun _ _ => matched_pure bears.stop trivial

theorem matched_recover (label : String) (e : Codec.Error) :
    Matched S T (fun _ => True) (recover s store label e) (recover s store label e) := by
  refine matched_bind (matched_note bears label _ _ _) fun _ _ => ?_
  cases s.handler with
  | none => exact matched_fail bears _
  | some handler =>
    refine matched_bind (matched_consult bears _ _ _) fun v _ => ?_
    refine matched_bind (matched_writeValue bears v) fun size _ => ?_
    refine matched_bind (matched_pass bears _) fun _ _ => ?_
    refine matched_bind (matched_count bears _) fun _ _ => ?_
    exact matched_bind (matched_note bears label _ _ _) fun _ _ => matched_pure bears.stop trivial

theorem matched_makeDefault : Matched S T (fun _ => True) (makeDefault s) (makeDefault s) := by
  unfold makeDefault
  split
  · exact matched_pure bears.stop trivial
  · exact matched_throw bears.stop _

theorem matched_readInitial (label : String) :
    Matched S T (fun _ => True) (readInitial s store label) (readInitial s store label) := by
  refine matched_bind bears.read fun found _ => ?_
  cases found with
  | none => exact matched_makeDefault bears
  | some bs =>
    refine matched_bind (matched_decode bears bs) fun decoded _ => ?_
    cases decoded with
    | ok v => exact matched_pure bears.stop trivial
    | error e =>
      simp only []
      split
      · exact matched_recover bears label e
      · exact matched_fail bears _

/-! ## Migrations -/

theorem matched_migrateEach (label : String) (ms : List (Nat × Migration V)) (v : V) :
    Matched S T (fun _ => True) (migrateEach s label ms v) (migrateEach s label ms v) := by
  induction ms generalizing v with
  | nil => exact matched_pure bears.stop trivial
  | cons m ms ih =>
    obtain ⟨i, m⟩ := m
    refine matched_bind (matched_consult bears _ _ _) fun applies _ => ?_
    cases applies with
    | false => exact ih v
    | true =>
      refine matched_bind (matched_consult bears _ _ _) fun v _ => ?_
      refine matched_bind (matched_note bears label _ _ _) fun _ _ => ?_
      exact matched_bind (ih v) fun _ _ => matched_pure bears.stop trivial

theorem matched_cleanUpEach (label : String) (ms : List (Nat × Migration V)) (first : Option Error) :
    Matched S T (fun _ => True) (cleanUpEach s label ms first) (cleanUpEach s label ms first) := by
  induction ms generalizing first with
  | nil => exact matched_pure bears.stop trivial
  | cons m ms ih =>
    obtain ⟨i, m⟩ := m
    refine matched_bind (matched_record bears _) fun _ _ => ?_
    cases m.cleanUp.result with
    | ok _ => exact ih first
    | error reason => exact matched_bind (matched_note bears label _ _ _) fun _ _ => ih _

theorem matched_applyMigrations (label : String) (v : V) :
    Matched S T (fun _ => True) (applyMigrations s store label v) (applyMigrations s store label v) := by
  refine matched_bind (matched_migrateEach bears label _ v) fun ran _ => ?_
  obtain ⟨next, ran⟩ := ran
  simp only []
  split
  · exact matched_pure bears.stop trivial
  · split
    case' isTrue =>
      refine matched_bind (matched_writeValue bears next) fun size _ => ?_
      refine matched_bind (matched_pass bears _) fun _ _ => ?_
      refine matched_bind (matched_note bears label _ _ _) fun _ _ => ?_
    -- With or without a commit, the migrations that ran clean up in the end.
    all_goals
      refine matched_bind (matched_count bears _) fun _ _ => ?_
      refine matched_bind (matched_cleanUpEach bears label ran none) fun failure _ => ?_
      cases failure with
      | none => exact matched_pure bears.stop trivial
      | some failure => exact matched_fail bears _

/-! ## The first value -/

/-- The scope around an initialization is closed however it ends, also once it was stopped. -/
theorem matched_firstValue (label : String) :
    Matched S T (fun _ => True) (firstValue s store label) (firstValue s store label) := by
  intro i j related
  have work : Matched S T (fun _ => True) (readInitial s store label >>= applyMigrations s store label)
      (readInitial s store label >>= applyMigrations s store label) :=
    matched_bind (matched_readInitial bears label) fun v _ => matched_applyMigrations bears label v
  have ends := work { i with bench.journal := (scope s label).opening i.bench.journal }
    { j with bench.journal := (scope s label).opening j.bench.journal } (bears.line _ related)
  rw [run_firstValue, run_firstValue]
  rcases ran : (readInitial s store label >>= applyMigrations s store label).run
    { i with bench.journal := (scope s label).opening i.bench.journal } with ⟨x, i'⟩
  rcases ran' : (readInitial s store label >>= applyMigrations s store label).run
    { j with bench.journal := (scope s label).opening j.bench.journal } with ⟨y, j'⟩
  rw [ran, ran'] at ends
  -- The closing line tells how the work ended, which is the same on both sides.
  cases ends.result
  simp only [ran, ran']
  exact ⟨rfl, bears.lineStopped ((scope s label).closing s.marks.elapsed (ending x)) ends.stopped,
    fun a ok => ⟨bears.line ((scope s label).closing s.marks.elapsed (ending x)) (ends.returned a ok).1, trivial⟩⟩

end

end DurableValue.Cell.Task
