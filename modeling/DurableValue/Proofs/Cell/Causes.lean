/-
  DurableValue.Proofs.Cell.Causes — what makes a cell final, and that it is final for good.

  A cell becomes final in the middle of one request. Either it has no value yet and gets none: its path is refused, or
  its initialization stops. Or it has one, and the value that an update gave in its place cannot be committed. Which
  of these it was, and for what reason, is said of the cell as the request found it (`Fails`), down to the answer of
  the codec, of the caller's code or of the store that ended the work.

  Proved:
  - `uncommitted_writeValue`, `start_readInitial`, `valueless_of_stopped`: work stops in one of the ways that are
    listed, and for the reason that stands there.
  - `fails_of_happen`: the event that makes a cell final is a request that fails so, and the terminal error holds its
    reason (one step).
  - `finalBy_of_run`: in a run that ended with a final cell there is that one request (a whole run).
  - `final_is_sticky`: from there on nothing happens any more, and everybody is told why.
-/
import DurableValue.Proofs.Cell.Migrations
import DurableValue.Proofs.Cell.Statuses
import DurableValue.Proofs.Disk.Recorded

namespace DurableValue.Cell

open Disk (FileSystem Memory Recorded)

variable {F H V : Type} [FileSystem F H]

/-! ## Why work stops -/

/-- The error that work ends with when it stops. Work runs as a task, and what it panicked with is told by that task. -/
def Stop.cause (s : Setup V) (work : String) : Stop → Error
  | failed e => e
  | broke m =>
    .internal (work ++ " task failed: task " ++ s.marks.taskNumber ++ " panicked with message " ++ Text.quoted m)

namespace Task

/-- How the commit of a value stops, on a disk, when the codec has encoded so often before. -/
inductive Uncommitted (s : Setup V) (store : Store.Atomic) (v : V) (call : Nat) (disk : F) : Stop → Prop where
  | unencoded {stop : Stop} (encoded : Task.encoded s call v = .error stop) : Uncommitted s store v call disk stop
  | unwritten {bs : Bytes} {e : Store.Error} (encoded : Task.encoded s call v = .ok bs)
    (written : (store.write bs disk).1 = .error e) : Uncommitted s store v call disk (.failed (.ofStore e))

/-- How an initialization gets the value that it tries the migrations with, or stops before that. -/
inductive Start (s : Setup V) (store : Store.Atomic) (disk : F) (tally : Tally) : Except Stop V → Job F → Prop where
  | unreadable {e : Store.Error} {k : Job F} (read : (store.read disk).1 = .error e) :
    Start s store disk tally (.error (.failed (.ofStore e))) k
  | absent {k : Job F} (read : store.read disk = (.ok none, k.bench.disk)) (encodes : k.tally.encodes = tally.encodes) :
    Start s store disk tally (made s) k
  /-- The codec panicked on what was read. -/
  | undecoded {bs : Bytes} {stop : Stop} {k : Job F} (read : (store.read disk).1 = .ok (some bs))
    (decoded : Task.decoded s tally.decodes bs = .error stop) : Start s store disk tally (.error stop) k
  | held {bs : Bytes} {v : V} {k : Job F} (read : store.read disk = (.ok (some bs), k.bench.disk))
    (decoded : Task.decoded s tally.decodes bs = .ok (.ok v)) (encodes : k.tally.encodes = tally.encodes) :
    Start s store disk tally (.ok v) k
  /-- What was read could not be decoded, though it is not corrupt. -/
  | unsound {bs : Bytes} {e : Codec.Error} {k : Job F} (read : (store.read disk).1 = .ok (some bs))
    (decoded : Task.decoded s tally.decodes bs = .ok (.error e)) (sound : e.isCorruption = false) :
    Start s store disk tally (.error (.failed (.codecFailed e))) k
  | unhandled {e : Codec.Error} {k : Job F} (corrupt : s.corruption? tally.decodes (store.read disk).1 = some e)
    (handler : s.handler = none) : Start s store disk tally (.error (.failed (.dataCorruption e))) k
  | unrepaired {e : Codec.Error} {repair : Codec.Error → Outcome V} {reason : String} {k : Job F}
    (corrupt : s.corruption? tally.decodes (store.read disk).1 = some e) (handler : s.handler = some repair)
    (given : (repair e).result = .error reason) :
    Start s store disk tally (.error (.failed (.collaboratorFailed "corruption handler" reason))) k
  | unreplaced {e : Codec.Error} {repair : Codec.Error → Outcome V} {v : V} {stop : Stop} {k : Job F}
    (corrupt : s.corruption? tally.decodes (store.read disk).1 = some e) (handler : s.handler = some repair)
    (given : (repair e).result = .ok v)
    (uncommitted : Uncommitted s store v tally.encodes (store.read disk).2 stop) :
    Start s store disk tally (.error stop) k
  | replaced {e : Codec.Error} {repair : Codec.Error → Outcome V} {v : V} {bs : Bytes} {k : Job F}
    (corrupt : s.corruption? tally.decodes (store.read disk).1 = some e) (handler : s.handler = some repair)
    (given : (repair e).result = .ok v) (encoded : Task.encoded s tally.encodes v = .ok bs)
    (written : store.write bs (store.read disk).2 = (.ok (), k.bench.disk))
    (encodes : k.tally.encodes = tally.encodes + 1) : Start s store disk tally (.ok v) k

/-- How an initialization stops: it gets nothing to try the migrations with, or their pass fails. -/
inductive Valueless (s : Setup V) (store : Store.Atomic) (disk : F) (tally : Tally) (stop : Stop) : Prop where
  | startless {k : Job F} (start : Start s store disk tally (.error stop) k)
  | unmigrated {v : V} {j k : Job F} (start : Start s store disk tally (.ok v) j)
    (pass : Pass s store v j (.error stop) k)

variable {s : Setup V} {store : Store.Atomic} {v : V} {j k : Job F}

theorem uncommitted_writeValue {stop : Stop} (ran : (writeValue s store v).run j = (.error stop, k)) :
    Uncommitted s store v j.tally.encodes j.bench.disk stop := by
  simp only [writeValue, run_bind, run_encode] at ran
  cases encoded : Task.encoded s j.tally.encodes v with
  | error stop' =>
    rw [encoded] at ran
    cases ran
    exact .unencoded encoded
  | ok bs =>
    simp only [encoded, run_replace, run_count, run_pure] at ran
    cases written : (store.write bs j.bench.disk).1 with
    | error e =>
      rw [written] at ran
      cases ran
      exact .unwritten encoded written
    | ok _ =>
      rw [written] at ran
      cases ran

/-- A commit that returns has had the value encoded once, and written. -/
theorem run_writeValue_ok {size : Nat} (ran : (writeValue s store v).run j = (.ok size, k)) :
    ∃ bs, Task.encoded s j.tally.encodes v = .ok bs ∧ store.write bs j.bench.disk = (.ok (), k.bench.disk) ∧
      k.tally.encodes = j.tally.encodes + 1 := by
  simp only [writeValue, run_bind, run_encode] at ran
  rcases encoded : Task.encoded s j.tally.encodes v with stop | bs <;> rw [encoded] at ran
  · cases ran
  · simp only [run_replace, run_count, run_pure] at ran
    rcases written : store.write bs j.bench.disk with ⟨e | ⟨⟩, disk⟩ <;> rw [written] at ran <;> cases ran
    exact ⟨bs, rfl, written, rfl⟩

variable {disk : F} {tally : Tally}

/-- Corrupt bytes are replaced, or the replacement fails in one of three ways. -/
theorem start_recover (label : String) {e : Codec.Error}
    (corrupt : s.corruption? tally.decodes (store.read disk).1 = some e) (read : j.bench.disk = (store.read disk).2)
    (encodes : j.tally.encodes = tally.encodes) :
    Start s store disk tally ((recover s store label e).run j).1 ((recover s store label e).run j).2 := by
  simp only [recover, note, consult, run_bind, run_onBench]
  cases handler : s.handler with
  | none => exact .unhandled corrupt handler
  | some repair =>
    simp only [run_bind, run_onBench]
    cases given : (repair e).result with
    | error reason => exact .unrepaired corrupt handler given
    | ok v =>
      simp only [run_pure]
      -- neither the line of the journal nor the call to the handler touches the disk
      rcases wrote : (writeValue s store v).run _ with ⟨stop | size, k⟩
      · have uncommitted := uncommitted_writeValue wrote
        change Uncommitted s store v j.tally.encodes j.bench.disk stop at uncommitted
        rw [read, encodes] at uncommitted
        exact .unreplaced corrupt handler given uncommitted
      · obtain ⟨bs, encoded, written, counted⟩ := run_writeValue_ok wrote
        change Task.encoded s j.tally.encodes v = .ok bs at encoded
        change store.write bs j.bench.disk = _ at written
        change k.tally.encodes = j.tally.encodes + 1 at counted
        rw [encodes] at encoded counted
        rw [read] at written
        exact .replaced corrupt handler given encoded written counted

theorem start_readInitial (label : String) (j : Job F) :
    Start s store j.bench.disk j.tally ((readInitial s store label).run j).1 ((readInitial s store label).run j).2 := by
  simp only [readInitial, run_bind, run_readStore]
  rcases read : store.read j.bench.disk with ⟨e | _ | bs, d⟩
  · exact .unreadable (congrArg Prod.fst read)
  · change Start s store j.bench.disk j.tally ((makeDefault s).run _).1 ((makeDefault s).run _).2
    rw [run_makeDefault]
    exact .absent read rfl
  · have found : (store.read j.bench.disk).1 = .ok (some bs) := congrArg Prod.fst read
    have mapped : (Except.ok (some bs) : Except Store.Error (Option Bytes)).mapError
        (fun e => Stop.failed (.ofStore e)) = .ok (some bs) := rfl
    simp only [mapped, run_bind, run_decode]
    cases decoded : Task.decoded s j.tally.decodes bs with
    | error stop => exact .undecoded found decoded
    | ok x =>
      cases x with
      | ok v => exact .held read decoded rfl
      | error e =>
        simp only []
        cases corrupt : e.isCorruption with
        | false => exact .unsound found decoded corrupt
        | true =>
          refine start_recover label ?_ (congrArg Prod.snd read).symm rfl
          simp only [Setup.corruption?, found, decoded, corrupt, if_true]

theorem valueless_of_stopped {label : String} {stop : Stop}
    (ran : (firstValue s store label).run j = (.error stop, k)) : Valueless s store j.bench.disk j.tally stop := by
  let opened : Job F := { j with bench.journal := (scope s label).opening j.bench.journal }
  have start : Start s store j.bench.disk j.tally _ _ := start_readInitial label opened
  have stopped : ((readInitial s store label >>= applyMigrations s store label).run opened).1 = .error stop :=
    congrArg Prod.fst ran
  rw [run_bind] at stopped
  rcases reads : (readInitial s store label).run opened with ⟨stop' | v, j'⟩ <;> rw [reads] at start stopped
  · cases stopped
    exact .startless start
  · have pass := pass_applyMigrations s store label v j'
    rw [stopped] at pass
    exact .unmigrated start pass

end Task

/-! ## The request that makes a cell final -/

namespace Session

def Opens (c : Session F V) (store : Store.Atomic) : Prop :=
  (∃ e, c.worker.target = .opened e ∧ e.store = store) ∨
    ∃ p e, c.worker.target = .deferred (.gives p) ∧ e.store = store ∧
      (Store.openExclusive c.bench.disk c.bench.registry p c.worker.setup.config.storeOptions).1 = .ok e

/-- How a request makes a cell final that serves, and the error that it does so by. -/
inductive Fails (c : Session F V) : Request V → Error → Prop where
  /-- There is no value yet, and the store refuses the path that was made for it. -/
  | refused {r : Request V} {p : Path} {e : Store.Error} (needs : r.needsValue c.worker = true)
    (fresh : c.worker.state = .uninitialized) (target : c.worker.target = .deferred (.gives p))
    (exclusive : (Store.openExclusive c.bench.disk c.bench.registry p c.worker.setup.config.storeOptions).1 =
      .error e) : c.Fails r (.ofStore e)
  /-- There is no value yet, and the initialization stops. -/
  | valueless {r : Request V} {store : Store.Atomic} {stop : Stop} (needs : r.needsValue c.worker = true)
    (fresh : c.worker.state = .uninitialized) (opens : c.Opens store)
    (valueless : Task.Valueless c.worker.setup store c.bench.disk c.worker.tally stop) :
    c.Fails r (stop.cause c.worker.setup "initialization")
  /-- There is a value, and the commit of the one that is to replace it stops. -/
  | lost {transform : V → Outcome V} {v w : V} {n : Nat} {e : Store.Exclusive} {stop : Stop} {c₁ : Session F V}
    (ready : c.ensureReady = (.ok (), c₁)) (state : c₁.worker.state = .ready v n)
    (given : (transform v).result = .ok w) (changed : c.worker.setup.same w v = false)
    (target : c₁.worker.target = .opened e)
    (uncommitted : Task.Uncommitted c.worker.setup e.store w c₁.worker.tally.encodes c₁.bench.disk stop) :
    c.Fails (.update transform true) (stop.cause c.worker.setup "commit")

/-- Whether a run of a cell made it final, and by which error: by that of one request, while the cell served and was
not final. -/
def FinalBy (c : Session F V) (es : List (Event F V)) (cause : Error) : Prop :=
  ∃ earlier r later, es = earlier ++ .request r :: later ∧
    (c.run earlier).2.worker.life = .serving ∧ (∀ t, (c.run earlier).2.worker.state ≠ .final t) ∧
    (c.run earlier).2.Fails r cause

variable {c c' : Session F V}

theorem stopError_eq (work : String) (stop : Stop) : c.stopError work stop = stop.cause c.worker.setup work := by
  cases stop <;> rfl

theorem fails_of_opened {t : Error} {r : Request V} (needs : r.needsValue c.worker = true)
    (serving : c.worker.life = .serving) (coherent : c.Coherent) (other : ∀ t, c.worker.state ≠ .final t)
    {a : Except Halt Unit} (way : Opened c a c') (final : c'.worker.state = .final t) :
    ∃ cause, t = .final cause ∧ c.Fails r cause := by
  cases way with
  | ready state => cases state.symm.trans final
  | final state => exact absurd state (other _)
  | broke fresh resolved => cases (resolved.quiet.2.2.trans fresh).symm.trans final
  | refused fresh resolved =>
    cases final
    refine ⟨_, rfl, ?_⟩
    cases resolved with
    | unavailable target => exact absurd target (coherent.untried serving fresh)
    | taken target exclusive => exact .refused needs fresh target (congrArg Prod.fst exclusive)
  | @failed c₁ c₂ store stop fresh resolved performs =>
    cases final
    have setup : c₂.worker.setup = c₁.worker.setup := (Worker.of_fixed (fixed_of_perform performs)).1
    have stopped := Task.valueless_of_stopped (of_perform performs).1
    refine ⟨_, rfl, ?_⟩
    rw [stopError_eq, setup]
    cases resolved with
    | opened target => exact .valueless needs fresh (Or.inl ⟨_, target, rfl⟩) stopped
    | claimed target exclusive =>
      exact .valueless needs fresh (Or.inr ⟨_, _, target, rfl, congrArg Prod.fst exclusive⟩) stopped
  | began => cases final

theorem fails_of_updated {t : Error} {transform : V → Outcome V} {v : V} {n : Nat} {a : Except Error V}
    {c₁ : Session F V} (ready : c.ensureReady = (.ok (), c₁)) (state : c₁.worker.state = .ready v n)
    (stored : ∃ e, c₁.worker.target = .opened e) (way : Updated c₁ transform v n a c')
    (final : c'.worker.state = .final t) : ∃ cause, t = .final cause ∧ c.Fails (.update transform true) cause := by
  have setup := setup_of_ensured ready
  cases way with
  | rejected => cases state.symm.trans final
  | unchanged => cases state.symm.trans final
  | committed => cases (state_of_gist (gist_publish _ _)).symm.trans final
  | @lost w e stop c₂ given changed target performs =>
    cases final
    have setup' : c₂.worker.setup = c₁.worker.setup := (Worker.of_fixed (fixed_of_perform performs)).1
    have stopped := Task.uncommitted_writeValue (of_perform performs).1
    refine ⟨_, rfl, ?_⟩
    rw [stopError_eq, setup', setup]
    rw [setup] at changed stopped
    exact .lost ready state given changed target stopped
  | homeless _ _ homeless =>
    obtain ⟨e, target⟩ := stored
    exact absurd target (homeless e)

/-- **One step.** An event that makes a cell final is a request that fails for the reason that the terminal error
holds. -/
theorem fails_of_happen {e : Event F V} {t : Error} (coherent : c.Coherent) (other : ∀ t, c.worker.state ≠ .final t)
    (final : (c.happen e).2.worker.state = .final t) :
    ∃ r cause, e = .request r ∧ t = .final cause ∧ c.worker.life = .serving ∧ c.Fails r cause := by
  cases e with
  | receivers f => exact absurd final (other t)
  | outside f => exact absurd final (other t)
  | request r =>
    cases life : c.worker.life with
    | closed =>
      simp only [happen, serve, life] at final
      exact absurd ((state_of_gist (gist_refuse c r)).symm.trans final) (other t)
    | broken =>
      simp only [happen, serve, life] at final
      exact absurd ((state_of_gist (gist_forsake c r)).symm.trans final) (other t)
    | serving =>
      have way := served c r
      simp only [happen, serve, life] at final
      generalize (c.handle r).2 = c' at way final
      cases way with
      | idle _ gist => exact absurd ((state_of_gist gist).symm.trans final) (other t)
      | closed => exact absurd ((state_shutDown c).symm.trans final) (other t)
      | ensured needs gist =>
        obtain ⟨cause, held, fails⟩ :=
          fails_of_opened needs life coherent other (opened c) ((state_of_gist gist).symm.trans final)
        exact ⟨r, cause, rfl, held, rfl, fails⟩
      | @updated transform c₁ v n ready same state =>
        have stored := (coherent_ensured life ready coherent).stored (same.trans life) v n state
        obtain ⟨cause, held, fails⟩ := fails_of_updated ready state stored (Session.updated state transform) final
        exact ⟨_, cause, rfl, held, rfl, fails⟩

/-- **A whole run.** A run that ends with a final cell has made it final by one request, whose reason the terminal error
holds. -/
theorem finalBy_of_run {es : List (Event F V)} {t : Error} (coherent : c.Coherent)
    (other : ∀ t, c.worker.state ≠ .final t) (final : (c.run es).2.worker.state = .final t) :
    ∃ cause, t = .final cause ∧ c.FinalBy es cause := by
  induction es generalizing c with
  | nil => exact absurd final (other t)
  | cons e es ih =>
    by_cases now : ∃ t', (c.happen e).2.worker.state = .final t'
    · -- this is the event, and what follows keeps the error
      obtain ⟨t', now⟩ := now
      obtain ⟨r, cause, rfl, held, life, fails⟩ := fails_of_happen coherent other now
      cases (run_final now es).1.symm.trans final
      exact ⟨cause, held, [], r, es, rfl, life, other, fails⟩
    · have later (t' : Error) : (c.happen e).2.worker.state ≠ .final t' := fun h => now ⟨t', h⟩
      obtain ⟨cause, held, earlier, r, rest, rfl, reached⟩ := ih (coherent_happen e coherent) later final
      exact ⟨cause, held, e :: earlier, r, rest, rfl, reached⟩

end Session

/-! ## Final for good -/

/-- **Final is for good, and silent.** Once a run has made a cell final, the terminal error holds the error of the one
request that did so, which is not terminal and has no cause of its own. Whatever happens after that, the cell stays
final, makes no call to the caller's code, commits, encodes and decodes nothing, and leaves the disk to others. Exactly
one line of the journal tells of it. The cell shows the code of the cause until it is closed, and nothing is shown after
that. Whoever asks for the value hears the terminal error, or, behind the closing, that the cell is closed. -/
theorem final_is_sticky {s : Setup V} {location : Location} {hasRuntime : Bool} {b b' : Bench F} {w : Worker V}
    {before : List (Event F V)} {t : Error}
    (built : build s (some location) hasRuntime b = (.ok w, b'))
    (final : ((Session.mk w b').run before).2.worker.state = .final t) (after : List (Event F V)) :
    let c := ((Session.mk w b').run before).2
    let c' := (c.run after).2
    ∃ cause, t = .final cause ∧ (Session.mk w b').FinalBy before cause ∧ cause.isTerminal = false ∧ cause.cause = none ∧
      c'.worker.state = .final t ∧ c'.deeds = c.deeds ∧ c'.bench.disk = byOthers after c.bench.disk ∧
      c'.bench.journal.finals = c'.finalLine cause :: b.journal.finals ∧
      c.OnlyCloses c' ∧
      ((c'.worker.life = .serving ∧ c'.worker.status = .final cause.code ∧
          ∀ r, r.needsValue c'.worker = true → c'.Hears (.error t) r) ∨
        (c'.worker.life = .closed ∧ c'.worker.status = .closed ∧
          ∀ r, r.needsValue c'.worker = true → c'.Hears (.error .closed) r)) := by
  intro c c'
  have tells : Session.Tells b.journal.finals c'.gist := by
    have whole := Session.tells_run (before ++ after) (tells_of_build built)
    rwa [Session.run_append] at whole
  obtain ⟨final', deeds, disk, closes⟩ := Session.run_final final after
  obtain ⟨cause, rfl, isCause, noted⟩ := tells.final t final'
  have finalBy : (Session.mk w b').FinalBy before cause := by
    have fresh : ∀ t, (Session.mk w b').worker.state ≠ .final t := by
      obtain ⟨target, label, registry, fields, rfl, -⟩ := build_ok built
      exact fun _ => nofun
    obtain ⟨_, held, finalBy⟩ := Session.finalBy_of_run (coherent_of_build built) fresh final
    cases held
    exact finalBy
  refine ⟨cause, rfl, finalBy, isCause.1, isCause.2, final', deeds, disk, noted, closes, ?_⟩
  cases life : c'.worker.life with
  | serving =>
    refine Or.inl ⟨rfl, ?_, fun r needs => Session.hears_final final' life needs⟩
    have status : c'.worker.status = c'.worker.state.status := tells.serving life
    have state : c'.worker.state = .final (.final cause) := final'
    rw [status, state]
    rfl
  | closed => exact Or.inr ⟨rfl, tells.closed life, fun r needs => Session.hears_closed life needs⟩
  | broken => exact absurd final' (tells.broken life _)

/-- The rename of the first flip fails. The cell is final by that input or output failure, for that flip. -/
theorem a_failed_commit_silences_a_switch :
    let b : Bench (Recorded Memory Place) :=
      { disk := ⟨{ namespaceId := "0", armed := [.rename] }, []⟩, registry := {}, journal := {} }
    let flip : Event (Recorded Memory Place) Bool := .request (.update (fun v => .returned !v) true)
    let after : List (Event (Recorded Memory Place) Bool) := [.request (.read true), flip, .request .close, flip]
    ∃ w b' cause line, build switch (some (.path ⟨"/d/v"⟩)) true b = (.ok w, b') ∧
      ((Session.mk w b').run [flip]).2.worker.state = .final (.final cause) ∧ cause.code = .ioFailure ∧
      (Session.mk w b').FinalBy [flip] cause ∧
      (((Session.mk w b').run [flip]).2.run after).2.bench.disk = ((Session.mk w b').run [flip]).2.bench.disk ∧
      (((Session.mk w b').run [flip]).2.run after).2.bench.journal.finals = [line] := by
  intro b flip after
  have checked : ((newCell switch ⟨"/d/v"⟩ b).any fun c =>
      decide ((c.run [flip]).2.worker.state.status = .final .ioFailure)) = true := by decide +kernel
  rcases found : newCell switch ⟨"/d/v"⟩ b with _ | ⟨w, b'⟩ <;> rw [found] at checked
  · cases checked
  · have built := build_of_newCell found
    have status : ((Session.mk w b').run [flip]).2.worker.state.status = .final .ioFailure := of_decide_eq_true checked
    cases state : ((Session.mk w b').run [flip]).2.worker.state with
    | uninitialized => rw [state] at status; cases status
    | ready v n => rw [state] at status; cases status
    | final t =>
      obtain ⟨cause, rfl, finalBy, -, -, -, -, disk, finals, -⟩ := final_is_sticky built state after
      rw [state] at status
      exact ⟨w, b', cause, _, built, state, Status.final.inj status, finalBy, disk, finals⟩

end DurableValue.Cell
