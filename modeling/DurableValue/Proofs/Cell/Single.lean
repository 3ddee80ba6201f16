/-
  DurableValue.Proofs.Cell.Single — a cell that is built, asked one thing, and closed.

  Without migrations and mishaps of its codec such a cell reads its file, commits at most one value, and gives its
  path back. Nothing else has become of the cell (`Becomes`).

  Proved, of the answer, the disk and the commits begun on it:
  - `handle_read`, `handle_update`, `handle_update_same`: for bytes that decode, or no file at all.
  - `handle_corrupt`, `handle_update_repaired`: for corrupt bytes, without a handler that repairs them and with one.
  - `submit_closing`: closing the cell leaves the disk as it then is.
-/
import DurableValue.Proofs.Cell.Restart

namespace DurableValue

open Disk (FileSystem)

def Codec.valueOf {V : Type} (codec : Codec V) : Option Bytes → Except Codec.Error V
  | none => .ok codec.default
  | some bs => codec.decode bs

namespace Cell

variable {F H V : Type} [FileSystem F H]

/-- Whether a cell has no migrations, and nothing befalls its codec. -/
structure Setup.Plain (s : Setup V) : Prop where
  migrations : s.migrations = []
  default : s.defaultPanic = none
  decodes : ∀ n, s.decodeMishap n = none
  encodes : ∀ n, s.encodeMishap n = none

namespace Task

variable {s : Setup V} {store : Store.Atomic} {j : Job F} {v : V} {bs : Bytes}

theorem run_writeValue (plain : s.Plain) (store : Store.Atomic) (encoded : s.codec.encode v = .ok bs) (j : Job F) :
    ∃ j', (writeValue s store v).run j =
        (((store.write bs j.bench.disk).1.mapError fun e => .failed (.ofStore e)).map fun _ => bs.length, j') ∧
      j'.bench.ledger = j.bench.ledger.afterWrite store bs ∧ j'.bench.registry = j.bench.registry := by
  have out (n : Nat) : Task.encoded s n v = .ok bs := by simp only [Task.encoded, plain.encodes n, encoded]; rfl
  simp only [writeValue, run_bind, run_encode, out, run_replace, run_count, run_pure]
  rcases (store.write bs j.bench.disk).1 with e | ⟨⟩
  · exact ⟨_, rfl, rfl, rfl⟩
  · exact ⟨_, rfl, rfl, rfl⟩

theorem run_readStore_ok {found : Option Bytes} {d : F} (read : store.read j.bench.disk = (.ok found, d)) :
    (readStore store).run j = (.ok found, { j with bench.disk := d }) := by
  rw [run_readStore, read]
  rfl

/-- What is read and decoded is the first value, and reading is all that was done. -/
theorem run_readInitial_value (plain : s.Plain) (label : String) {found : Option Bytes} {d : F}
    (read : store.read j.bench.disk = (.ok found, d)) (value : s.codec.valueOf found = .ok v) :
    ∃ j', (readInitial s store label).run j = (.ok v, j') ∧ j'.bench.ledger = ⟨d, j.bench.commits⟩ ∧
      j'.bench.registry = j.bench.registry := by
  simp only [readInitial, run_bind, run_readStore_ok read]
  cases found with
  | none =>
    cases value
    simp only [run_makeDefault, made, plain.default]
    exact ⟨_, rfl, rfl, rfl⟩
  | some bs =>
    have value : s.codec.decode bs = .ok v := value
    simp only [decode, run_bind, run_get, run_modify, plain.decodes, run_pure, value]
    exact ⟨_, rfl, rfl, rfl⟩

/-- Corrupt bytes are refused where no handler is there to repair them, and nothing is done about them. -/
theorem run_readInitial_corrupt (plain : s.Plain) (label : String) {found : Option Bytes} {d : F} {e : Codec.Error}
    (read : store.read j.bench.disk = (.ok found, d)) (value : s.codec.valueOf found = .error e)
    (corrupt : e.isCorruption = true) (unrepaired : s.handler = none) :
    ∃ j', (readInitial s store label).run j = (.error (.failed (.dataCorruption e)), j') ∧
      j'.bench.ledger = ⟨d, j.bench.commits⟩ ∧ j'.bench.registry = j.bench.registry := by
  simp only [readInitial, run_bind, run_readStore_ok read]
  cases found with
  | none => cases value
  | some bs =>
    have value : s.codec.decode bs = .error e := value
    simp only [decode, run_bind, run_get, run_modify, plain.decodes, run_pure, value, corrupt, if_true,
      recover, unrepaired]
    exact ⟨_, rfl, rfl, rfl⟩

/-- How a commit of `v` ends that is part of some work. -/
def outcome (v : V) (written : Except Store.Error Unit) : Except Stop V :=
  (written.mapError fun e => .failed (.ofStore e)).map fun _ => v

/-- What the handler gives for corrupt bytes is committed, and is the first value if the commit returns. -/
theorem run_recover (plain : s.Plain) (label : String) {e : Codec.Error} {handler : Codec.Error → Outcome V}
    (repaired : s.handler = some handler) (given : handler e = .returned v) (encoded : s.codec.encode v = .ok bs)
    (j : Job F) : ∃ j', (recover s store label e).run j = (outcome v (store.write bs j.bench.disk).1, j') ∧
      j'.bench.ledger = j.bench.ledger.afterWrite store bs ∧ j'.bench.registry = j.bench.registry := by
  simp only [recover, repaired, note, run_bind, run_onBench, consult, given, Outcome.result, run_pure]
  generalize start : Job.mk _ _ = k
  have disk : k.bench.disk = j.bench.disk := by rw [← start]; rfl
  have ledger : k.bench.ledger = j.bench.ledger := by rw [← start]; rfl
  have registry : k.bench.registry = j.bench.registry := by rw [← start]; rfl
  obtain ⟨j', ran, ledger', registry'⟩ := run_writeValue plain store encoded k
  rw [ran, ← disk]
  rw [ledger] at ledger'
  rw [registry] at registry'
  cases (store.write bs k.bench.disk).1 with
  | error x => exact ⟨j', rfl, ledger', registry'⟩
  | ok _ => exact ⟨_, rfl, ledger', registry'⟩

/-- Corrupt bytes are replaced where there is a handler. -/
theorem run_readInitial_repaired (plain : s.Plain) (label : String) {found : Option Bytes} {d : F} {e : Codec.Error}
    (read : store.read j.bench.disk = (.ok found, d)) (value : s.codec.valueOf found = .error e)
    (corrupt : e.isCorruption = true) {handler : Codec.Error → Outcome V} (repaired : s.handler = some handler)
    (given : handler e = .returned v) (encoded : s.codec.encode v = .ok bs) :
    ∃ j', (readInitial s store label).run j = (outcome v (store.write bs d).1, j') ∧
      j'.bench.ledger = Ledger.afterWrite ⟨d, j.bench.commits⟩ store bs ∧ j'.bench.registry = j.bench.registry := by
  simp only [readInitial, run_bind, run_readStore_ok read]
  cases found with
  | none => cases value
  | some bs' =>
    have value : s.codec.decode bs' = .error e := value
    simp only [decode, run_bind, run_get, run_modify, plain.decodes, run_pure, value, corrupt, if_true]
    exact run_recover plain label repaired given encoded _

def begun (s : Setup V) (label : String) (j : Job F) : Job F :=
  { j with bench.journal := (scope s label).opening j.bench.journal }

/-- Without migrations the first value is what was read or put in its place, in a scope of the journal. -/
theorem run_firstValue_plain (plain : s.Plain) (label : String) {a : Except Stop V} {j' : Job F}
    (ran : (readInitial s store label).run (begun s label j) = (a, j')) :
    ∃ j'', (firstValue s store label).run j = (a, j'') ∧ j''.bench.ledger = j'.bench.ledger ∧
      j''.bench.registry = j'.bench.registry := by
  unfold begun at ran
  simp only [run_firstValue, run_bind, ran]
  cases a with
  | error stop => exact ⟨_, rfl, rfl, rfl⟩
  | ok v =>
    simp only [run_applyMigrations_none plain.migrations]
    exact ⟨_, rfl, rfl, rfl⟩

end Task

namespace Session

variable {c : Session F V} {e : Store.Exclusive} {v w : V} {j : Job F} {bs : Bytes}

/-- Whether nothing has become of a session but that its disk and the commits are as in the ledger, and its state may be
another one. -/
def Becomes (c : Session F V) (l : Ledger F) (c' : Session F V) : Prop :=
  c'.core = { c.core with state := c'.worker.state, disk := l.disk, commits := l.commits }

omit [FileSystem F H] in
theorem becomes_of_core {l : Ledger F} {c' : Session F V} {state : State V}
    (core : c'.core = { c.core with state := state, disk := l.disk, commits := l.commits }) : c.Becomes l c' := by
  have same : c'.worker.state = state := congrArg Core.state core
  rw [Becomes, same, core]

/-- How a new cell gets ready, or final, by its first value. -/
theorem run_ensureReady (fresh : c.worker.state = .uninitialized) (opened : c.worker.target = .opened e)
    {a : Except Stop V}
    (ran : (Task.firstValue c.worker.setup e.store c.worker.label).run ⟨c.bench, c.worker.tally⟩ = (a, j))
    (registry : j.bench.registry = c.bench.registry) :
    ∃ r c', c.ensureReady = (r, c') ∧ c.Becomes j.bench.ledger c' ∧
      (∀ v, a = .ok v → r = .ok () ∧ c'.worker.state = .ready v 0) ∧
      ∀ stop, a = .error stop → r = .error (.final (.final (c.stopError "initialization" stop))) := by
  let begun := c.onWorker (·.reveal .initializing)
  have resolved : begun.resolve = (.found e.store, begun) := by
    have target : begun.worker.target = .opened e := opened
    simp only [resolve, target]
  have performed : begun.perform (Task.firstValue begun.worker.setup e.store begun.worker.label) =
      (a, ⟨{ begun.worker with tally := j.tally }, j.bench⟩) := by
    have ran' : (Task.firstValue begun.worker.setup e.store begun.worker.label).run
      ⟨begun.bench, begun.worker.tally⟩ = (a, j) := ran
    rw [perform, ran']
  have same (state : State V) : { c.core with
      state := state, disk := j.bench.disk, commits := j.bench.commits, registry := j.bench.registry } =
      { c.core with state := state, disk := j.bench.disk, commits := j.bench.commits } := by
    rw [registry]
    rfl
  have resolved : (c.onWorker (·.reveal .initializing)).resolve = (.found e.store, begun) := resolved
  simp only [ensureReady, fresh, resolved, performed]
  cases a with
  | ok v =>
    refine ⟨.ok (), _, rfl, same (.ready v 0), ?_, by simp⟩
    rintro _ ⟨⟩
    exact ⟨rfl, rfl⟩
  | error stop =>
    refine ⟨_, _, rfl, (core_enterFinal _ _).trans (same _), by simp, ?_⟩
    rintro _ ⟨⟩
    have cause : stopError ⟨{ begun.worker with tally := j.tally }, j.bench⟩ "initialization" stop =
        c.stopError "initialization" stop := by cases stop <;> rfl
    exact congrArg (fun x => Except.error (Halt.final (Error.final x))) cause

/-! ## A value that is there -/

section

variable {found : Option Bytes} {d : F} (fresh : c.worker.state = .uninitialized)
  (opened : c.worker.target = .opened e) (plain : c.worker.setup.Plain)
  (read : e.store.read c.bench.disk = (.ok found, d))

include fresh opened plain read

theorem ensureReady_of_value (value : c.worker.setup.codec.valueOf found = .ok v) :
    ∃ c', c.ensureReady = (.ok (), c') ∧ c.Becomes ⟨d, c.bench.commits⟩ c' ∧ c'.worker.state = .ready v 0 := by
  obtain ⟨j, ran, ledger, registry⟩ := Task.run_readInitial_value
    (j := Task.begun c.worker.setup c.worker.label ⟨c.bench, c.worker.tally⟩) plain c.worker.label read value
  obtain ⟨j', ran', ledger', registry'⟩ := Task.run_firstValue_plain (j := ⟨c.bench, c.worker.tally⟩) plain _ ran
  obtain ⟨r, c', ready, becomes, gives, -⟩ := run_ensureReady fresh opened ran' (registry'.trans registry)
  obtain ⟨rfl, state⟩ := gives v rfl
  rw [ledger', ledger] at becomes
  exact ⟨c', ready, becomes, state⟩

theorem ensureReady_of_corrupt {x : Codec.Error} (value : c.worker.setup.codec.valueOf found = .error x)
    (corrupt : x.isCorruption = true) (unrepaired : c.worker.setup.handler = none) :
    ∃ c', c.ensureReady = (.error (.final (.final (.dataCorruption x))), c') ∧ c.Becomes ⟨d, c.bench.commits⟩ c' := by
  obtain ⟨j, ran, ledger, registry⟩ := Task.run_readInitial_corrupt
    (j := Task.begun c.worker.setup c.worker.label ⟨c.bench, c.worker.tally⟩) plain c.worker.label read value corrupt
    unrepaired
  obtain ⟨j', ran', ledger', registry'⟩ := Task.run_firstValue_plain (j := ⟨c.bench, c.worker.tally⟩) plain _ ran
  obtain ⟨r, c', ready, becomes, -, refuses⟩ := run_ensureReady fresh opened ran' (registry'.trans registry)
  cases refuses _ rfl
  rw [ledger', ledger] at becomes
  exact ⟨c', ready, becomes⟩

theorem ensureReady_of_repair {x : Codec.Error} (value : c.worker.setup.codec.valueOf found = .error x)
    (corrupt : x.isCorruption = true) {handler : Codec.Error → Outcome V}
    (repaired : c.worker.setup.handler = some handler) (given : handler x = .returned v)
    (encoded : c.worker.setup.codec.encode v = .ok bs) :
    ∃ r c', c.ensureReady = (r, c') ∧ c.Becomes (Ledger.afterWrite ⟨d, c.bench.commits⟩ e.store bs) c' ∧
      ((e.store.write bs d).1 = .ok () → r = .ok () ∧ c'.worker.state = .ready v 0) ∧
      ∀ cause, (e.store.write bs d).1 = .error cause → ∃ halt, r = .error halt := by
  obtain ⟨j, ran, ledger, registry⟩ := Task.run_readInitial_repaired
    (j := Task.begun c.worker.setup c.worker.label ⟨c.bench, c.worker.tally⟩) plain c.worker.label read value corrupt
    repaired given encoded
  obtain ⟨j', ran', ledger', registry'⟩ := Task.run_firstValue_plain (j := ⟨c.bench, c.worker.tally⟩) plain _ ran
  obtain ⟨r, c', ready, becomes, gives, refuses⟩ := run_ensureReady fresh opened ran' (registry'.trans registry)
  rw [ledger', ledger] at becomes
  exact ⟨r, c', ready, becomes, fun ok => gives v (by rw [ok]; rfl), fun cause failed =>
    ⟨_, refuses (.failed (.ofStore cause)) (by rw [failed]; rfl)⟩⟩

end

/-! ## What is asked -/

variable {f : V → Outcome V} {n : Nat}

/-- An update to an equal value changes nothing. -/
theorem update_same (state : c.worker.state = .ready v n) (gives : f v = .returned w)
    (same : c.worker.setup.same w v = true) : ∃ c', c.update f = (.ok w, c') ∧ c'.core = c.core := by
  have setup : (c.call .transform).worker.setup = c.worker.setup := rfl
  simp only [update, state, gives, Outcome.result, setup, same, if_true]
  exact ⟨_, rfl, rfl⟩

theorem commit_value (opened : c.worker.target = .opened e) (plain : c.worker.setup.Plain)
    (encoded : c.worker.setup.codec.encode w = .ok bs) (n : Nat) :
    ∃ a c', c.commit w n = (a, c') ∧ c.Becomes (c.bench.ledger.afterWrite e.store bs) c' ∧
      ((e.store.write bs c.bench.disk).1 = .ok () → a = .ok w) := by
  obtain ⟨j, ran, ledger, registry⟩ := Task.run_writeValue plain e.store encoded ⟨c.bench, c.worker.tally⟩
  have performed : c.perform (Task.writeValue c.worker.setup e.store w) =
      (((e.store.write bs c.bench.disk).1.mapError fun x => .failed (.ofStore x)).map fun _ => bs.length,
        ⟨{ c.worker with tally := j.tally }, j.bench⟩) := by
    rw [perform, ran]
  have same (state : State V) : { c.core with
      target := .opened e
      state := state
      disk := j.bench.disk
      commits := j.bench.commits
      registry := j.bench.registry } =
      { c.core with
        state := state
        disk := (c.bench.ledger.afterWrite e.store bs).disk
        commits := (c.bench.ledger.afterWrite e.store bs).commits } := by
    have ledger : j.bench.ledger = c.bench.ledger.afterWrite e.store bs := ledger
    rw [registry, ← ledger, ← opened]
    rfl
  rw [commit]
  simp only [opened, performed]
  cases e.store.write bs c.bench.disk with | mk outcome d => ?_
  cases outcome with
  | error x => exact ⟨_, _, rfl, becomes_of_core ((core_enterFinal _ _).trans (same _)), by simp⟩
  | ok _ =>
    refine ⟨.ok w, _, rfl, ?_, fun _ => rfl⟩
    exact becomes_of_core (((core_publish _ w).trans (core_enter _ _)).trans (same _))

/-- An update to another value commits it. -/
theorem update_commit (state : c.worker.state = .ready v n) (opened : c.worker.target = .opened e)
    (plain : c.worker.setup.Plain) (gives : f v = .returned w) (differs : c.worker.setup.same w v = false)
    (encoded : c.worker.setup.codec.encode w = .ok bs) :
    ∃ a c', c.update f = (a, c') ∧ c.Becomes (c.bench.ledger.afterWrite e.store bs) c' ∧
      ((e.store.write bs c.bench.disk).1 = .ok () → a = .ok w) := by
  have setup : (c.call .transform).worker.setup = c.worker.setup := rfl
  have commits : c.update f = (c.call .transform).commit w (n + 1) := by
    simp only [update, state, gives, Outcome.result, setup, differs, Bool.false_eq_true, if_false]
  rw [commits]
  exact commit_value (c := c.call .transform) opened plain encoded (n + 1)

/-! ## A request, and then the end -/

section

variable {found : Option Bytes} {d : F} {l : Ledger F} {c' : Session F V}

omit [FileSystem F H] in
theorem Becomes.same (becomes : c.Becomes l c') : c'.worker.setup = c.worker.setup ∧
    c'.worker.target = c.worker.target ∧ c'.worker.life = c.worker.life ∧ c'.bench.registry = c.bench.registry ∧
    c'.bench.ledger = l :=
  ⟨congrArg Core.setup becomes, congrArg Core.target becomes, congrArg Core.life becomes,
    congrArg Core.registry becomes, congrArg Core.ledger becomes⟩

omit [FileSystem F H] in
theorem Becomes.trans {l' : Ledger F} {c'' : Session F V} (becomes : c.Becomes l c') (becomes' : c'.Becomes l' c'') :
    c.Becomes l' c'' := by
  rw [Becomes, becomes', becomes]

/-- A cell that is closed after one request has given its path back. -/
theorem submit_closing {r : Request V} {a : Reply V} (serving : c.worker.life = .serving)
    (opened : c.worker.target = .opened e) (handled : c.handle r = (a, c')) (becomes : c.Becomes l c') :
    ∃ c'', c.submit [r, .close] = ([a, .acknowledged], c'') ∧ c''.bench.ledger = l ∧
      c''.bench.registry = c.bench.registry.drop e.guard := by
  obtain ⟨-, target, life, registry, ledger⟩ := becomes.same
  refine ⟨c'.shutDown, ?_, ?_, ?_⟩
  · simp only [submit, serving, serve, handled, life]
    rfl
  · exact (congrArg Core.ledger (core_shutDown c')).trans ledger
  · refine (congrArg Core.registry (core_shutDown c')).trans ?_
    simp only [releasePath, target, opened, registry]

variable (fresh : c.worker.state = .uninitialized) (opened : c.worker.target = .opened e)
  (plain : c.worker.setup.Plain) (read : e.store.read c.bench.disk = (.ok found, d))

include fresh opened plain read

theorem handle_read (value : c.worker.setup.codec.valueOf found = .ok v) :
    ∃ c', c.handle (.read true) = (.answer (.ok v), c') ∧ c.Becomes ⟨d, c.bench.commits⟩ c' := by
  obtain ⟨c', ready, becomes, state⟩ := ensureReady_of_value fresh opened plain read value
  refine ⟨c', ?_, becomes⟩
  simp only [handle, ready, Session.read, state]

/-- Who asks for a corrupt value that nothing repairs is refused, and so is who would change it. -/
theorem handle_corrupt {x : Codec.Error} (value : c.worker.setup.codec.valueOf found = .error x)
    (corrupt : x.isCorruption = true) (unrepaired : c.worker.setup.handler = none) {r : Request V}
    (asks : r = .read true ∨ r = .update f true) :
    ∃ c', c.handle r = (.answer (.error (.final (.dataCorruption x))), c') ∧ c.Becomes ⟨d, c.bench.commits⟩ c' := by
  obtain ⟨c', refused, becomes⟩ := ensureReady_of_corrupt fresh opened plain read value corrupt unrepaired
  refine ⟨c', ?_, becomes⟩
  rcases asks with rfl | rfl <;> simp only [handle, refused, Halt.error]

theorem handle_update_same (value : c.worker.setup.codec.valueOf found = .ok v) (gives : f v = .returned w)
    (same : c.worker.setup.same w v = true) :
    ∃ c', c.handle (.update f true) = (.answer (.ok w), c') ∧ c.Becomes ⟨d, c.bench.commits⟩ c' := by
  obtain ⟨c', ready, becomes, state⟩ := ensureReady_of_value fresh opened plain read value
  obtain ⟨c'', updated, core⟩ := update_same state gives (becomes.same.1 ▸ same)
  exact ⟨c'', by simp only [handle, ready, updated], becomes_of_core (core.trans becomes)⟩

/-- An update to another value commits that, and answers it if the commit returns. -/
theorem handle_update (value : c.worker.setup.codec.valueOf found = .ok v) (gives : f v = .returned w)
    (differs : c.worker.setup.same w v = false) (encoded : c.worker.setup.codec.encode w = .ok bs) :
    ∃ a c', c.handle (.update f true) = (.answer a, c') ∧
      c.Becomes (Ledger.afterWrite ⟨d, c.bench.commits⟩ e.store bs) c' ∧
      ((e.store.write bs d).1 = .ok () → a = .ok w) := by
  obtain ⟨c₁, ready, becomes, state⟩ := ensureReady_of_value fresh opened plain read value
  obtain ⟨setup, target, -, -, ledger⟩ := becomes.same
  have disk : c₁.bench.disk = d := congrArg Ledger.disk ledger
  obtain ⟨a, c₂, updated, becomes', answers⟩ := update_commit state (target.trans opened) (setup ▸ plain) gives
    (setup ▸ differs) (setup ▸ encoded)
  rw [ledger] at becomes'
  rw [disk] at answers
  exact ⟨a, c₂, by simp only [handle, ready, updated], becomes.trans becomes', answers⟩

/-- An update of a corrupt value commits the replacement for it, and nothing more if that is what is asked for. -/
theorem handle_update_repaired {x : Codec.Error} (value : c.worker.setup.codec.valueOf found = .error x)
    (corrupt : x.isCorruption = true) {handler : Codec.Error → Outcome V}
    (repaired : c.worker.setup.handler = some handler) (given : handler x = .returned v)
    (encoded : c.worker.setup.codec.encode v = .ok bs) (gives : f v = .returned w)
    (same : c.worker.setup.same w v = true) :
    ∃ a c', c.handle (.update f true) = (.answer a, c') ∧
      c.Becomes (Ledger.afterWrite ⟨d, c.bench.commits⟩ e.store bs) c' ∧
      ((e.store.write bs d).1 = .ok () → a = .ok w) := by
  obtain ⟨r, c₁, ready, becomes, begins, refuses⟩ :=
    ensureReady_of_repair fresh opened plain read value corrupt repaired given encoded
  cases written : (e.store.write bs d).1 with
  | error cause =>
    obtain ⟨halt, rfl⟩ := refuses cause written
    exact ⟨.error halt.error, c₁, by simp only [handle, ready], becomes, by simp⟩
  | ok _ =>
    obtain ⟨rfl, state⟩ := begins written
    obtain ⟨c₂, updated, core⟩ := update_same state gives (becomes.same.1 ▸ same)
    exact ⟨.ok w, c₂, by simp only [handle, ready, updated], becomes_of_core (core.trans becomes), fun _ => rfl⟩

end

end Session

/-! ## The only cell -/

/-- A cell can be built at an accepted path if no path is in use, and no path is when it has given its own back. -/
theorem build_alone {s : Setup V} {p : Path} {b : Bench F} (valid : s.config.validate = .ok ())
    (accepted : Store.checkPath p = .ok ()) (alone : b.registry = {}) :
    ∃ w b' e, build s (some (.path p)) true b = (.ok w, b') ∧ w.setup = s ∧ w.target = .opened e ∧
      e.store = ⟨p, p.withSuffix s.config.scratchSuffix, s.config.syncDirectory⟩ ∧ w.state = .uninitialized ∧
      w.life = .serving ∧ b'.ledger = b.ledger ∧ b'.registry.drop e.guard = {} := by
  have free : b.registry.isActive (FileSystem.canonicalKey b.disk p) = false := by rw [alone]; rfl
  obtain ⟨w, b', built, setup, target, fresh, -, serving, disk, commits, registry⟩ := build_free valid accepted free
  refine ⟨w, b', _, built, setup, target, rfl, fresh, serving, ?_, ?_⟩
  · rw [Bench.ledger, disk, commits]
    rfl
  · rw [registry, alone]
    simp [Store.Registry.drop, Store.Registry.release]

end Cell

end DurableValue
