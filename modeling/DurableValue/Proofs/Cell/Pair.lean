/-
  DurableValue.Proofs.Cell.Pair — the same cell on two benches.

  Two sessions are paired when their workers are the same and their disks are related in a way that reading and
  replacing keep. A session may be paired with itself, which gives what every run of a cell keeps of its disk.

  Proved:
  - `Paired.ensureReady`, `Paired.update`, `Paired.handle`: an operation gives the same result on both sides and
    leaves the sessions paired, whatever else is on the benches.
  - `Paired.serve`: so does a queue of requests.
-/
import DurableValue.Proofs.Cell.Parallel
import DurableValue.Proofs.Cell.Run

namespace DurableValue.Cell

open Disk (FileSystem)

def Core.ledger {F V : Type} (k : Core F V) : Ledger F := ⟨k.disk, k.commits⟩

namespace Session

variable {F G H K V : Type} [FileSystem F H] [FileSystem G K]

structure Beside (R : Ledger F → Ledger G → Prop) (c : Session F V) (d : Session G V) : Prop where
  worker : c.worker = d.worker
  ledger : R c.bench.ledger d.bench.ledger
  bond : ∀ store, c.worker.target.Uses c.worker.setup.config.storeOptions store → Bond c.worker.setup.codec store R
  claims : ∀ p, c.worker.target = .deferred (.gives p) →
    (Store.openExclusive c.bench.disk c.bench.registry p c.worker.setup.config.storeOptions).1 =
      (Store.openExclusive d.bench.disk d.bench.registry p c.worker.setup.config.storeOptions).1

/-- Two sessions side by side, final or with every commit returned. -/
structure Paired (R : Ledger F → Ledger G → Prop) (c : Session F V) (d : Session G V) : Prop extends Beside R c d where
  clean : (∀ t, c.worker.state ≠ .final t) → c.bench.ledger.Clean

variable {R : Ledger F → Ledger G → Prop} {c c' : Session F V} {d d' : Session G V}

/-! ## What leaves the core alone -/

/-- Sessions stay side by side when their cores change in the state alone. -/
theorem Beside.of_core (h : Beside R c d) {s : State V} (worker : c'.worker = d'.worker)
    (hc : c'.core = { c.core with state := s }) (hd : d'.core = { d.core with state := s }) : Beside R c' d' := by
  have target : c'.worker.target = c.worker.target := congrArg Core.target hc
  have setup : c'.worker.setup = c.worker.setup := congrArg Core.setup hc
  have ledger : c'.bench.ledger = c.bench.ledger := congrArg Core.ledger hc
  have ledger' : d'.bench.ledger = d.bench.ledger := congrArg Core.ledger hd
  have disk : c'.bench.disk = c.bench.disk := congrArg Core.disk hc
  have disk' : d'.bench.disk = d.bench.disk := congrArg Core.disk hd
  have registry : c'.bench.registry = c.bench.registry := congrArg Core.registry hc
  have registry' : d'.bench.registry = d.bench.registry := congrArg Core.registry hd
  refine ⟨worker, ?_, ?_, ?_⟩
  · rw [ledger, ledger']
    exact h.ledger
  · rw [target, setup]
    exact h.bond
  · rw [target, setup, disk, disk', registry, registry']
    exact h.claims

theorem Paired.of_core (h : Paired R c d) (worker : c'.worker = d'.worker) (hc : c'.core = c.core)
    (hd : d'.core = d.core) : Paired R c' d' := by
  have state : c'.worker.state = c.worker.state := congrArg Core.state hc
  have ledger : c'.bench.ledger = c.bench.ledger := congrArg Core.ledger hc
  refine ⟨h.toBeside.of_core worker hc (s := c.worker.state) ?_, fun live => ?_⟩
  · rw [hd, congrArg Worker.state h.worker]
    rfl
  · rw [ledger]
    exact h.clean (state ▸ live)

theorem Paired.onWorker (h : Paired R c d) {f : Worker V → Worker V} (hc : (c.onWorker f).core = c.core)
    (hd : (d.onWorker f).core = d.core) : Paired R (c.onWorker f) (d.onWorker f) :=
  h.of_core (congrArg f h.worker) hc hd

theorem worker_note (severity : Journal.Severity) (e : Journal.Event) (extra : List Journal.Field) :
    (c.note severity e extra).worker = c.worker := rfl

theorem worker_call (x : Call) : (c.call x).worker = c.worker := rfl

/-- What is done for the subscriptions goes by the worker alone. -/
theorem checkAttached_worker (h : c.worker = d.worker) : c.checkAttached.worker = d.checkAttached.worker := by
  obtain ⟨w, b⟩ := c
  obtain ⟨_, b'⟩ := d
  cases h
  obtain ⟨setup, target, label, state, shown, feeds, attached, isHigh, tally, life⟩ := w
  simp only [checkAttached]
  split
  · rfl
  · cases isHigh <;> rfl

theorem publish_worker (h : c.worker = d.worker) (v : V) : (c.publish v).worker = (d.publish v).worker :=
  checkAttached_worker (congrArg (fun w : Worker V => w.pruned.tell (.ok v)) h)

theorem attach_worker (h : c.worker = d.worker) (v : V) (i : Nat) : (c.attach v i).worker = (d.attach v i).worker := by
  unfold attach
  exact checkAttached_worker (by simp only [Session.onWorker, h])

/-! ## Final and closed -/

theorem Beside.enterFinal (h : Beside R c d) (cause : Error) :
    (c.enterFinal cause).1 = (d.enterFinal cause).1 ∧ Paired R (c.enterFinal cause).2 (d.enterFinal cause).2 := by
  refine ⟨rfl, ⟨h.of_core ?_ (core_enterFinal c cause) (core_enterFinal d cause), fun live => ?_⟩⟩
  · simp only [Session.enterFinal, Session.onWorker, worker_note, h.worker]
  · exact absurd (congrArg Core.state (core_enterFinal c cause)) (live _)

theorem Paired.shutDown (h : Paired R c d) : Paired R c.shutDown d.shutDown := by
  have hc := core_shutDown c
  have hd := core_shutDown d
  have target : c.shutDown.worker.target = .unavailable := congrArg Core.target hc
  have ledger : c.shutDown.bench.ledger = c.bench.ledger := congrArg Core.ledger hc
  have ledger' : d.shutDown.bench.ledger = d.bench.ledger := congrArg Core.ledger hd
  refine ⟨⟨?_, ?_, ?_, ?_⟩, fun live => ?_⟩
  · simp only [Session.shutDown, Session.onWorker, releasePath, worker_note, h.worker]
  · rw [ledger, ledger']
    exact h.ledger
  · rw [target]
    exact fun _ uses => uses.elim
  · rw [target]
    intro p deferred
    cases deferred
  · rw [ledger]
    exact h.clean fun t ht => live t ((congrArg Core.state hc).trans ht)

/-! ## The value -/

theorem Paired.resolve (h : Paired R c d) :
    c.resolve.1 = d.resolve.1 ∧ Paired R c.resolve.2 d.resolve.2 := by
  have target : d.worker.target = c.worker.target := congrArg Worker.target h.worker.symm
  have setup : d.worker.setup = c.worker.setup := congrArg Worker.setup h.worker.symm
  simp only [Session.resolve, target, setup]
  split
  · exact ⟨rfl, h⟩
  · exact ⟨rfl, h⟩
  · rename_i m ht
    refine ⟨rfl, ⟨⟨?_, h.ledger, fun _ uses => uses.elim, fun _ h => by cases h⟩, h.clean⟩⟩
    simp only [Session.onWorker, Session.call, h.worker]
  · rename_i p ht
    have claims := h.claims p ht
    rcases hc : Store.openExclusive c.bench.disk c.bench.registry p c.worker.setup.config.storeOptions with ⟨x, r⟩
    rcases hd : Store.openExclusive d.bench.disk d.bench.registry p c.worker.setup.config.storeOptions with ⟨y, r'⟩
    rw [hc, hd] at claims
    cases (show x = y from claims)
    have hc' : Store.openExclusive (c.bench.record (.produce (.gives p))).disk
      (c.bench.record (.produce (.gives p))).registry p
      c.worker.setup.config.storeOptions = (x, r) := hc
    have hd' : Store.openExclusive (d.bench.record (.produce (.gives p))).disk
      (d.bench.record (.produce (.gives p))).registry p
      c.worker.setup.config.storeOptions = (x, r') := hd
    rw [hc', hd']
    cases x with
    | error e =>
      refine ⟨rfl, ⟨⟨?_, h.ledger, fun _ uses => uses.elim, fun _ h => by cases h⟩, h.clean⟩⟩
      simp only [h.worker]
    | ok e =>
      refine ⟨rfl, ⟨⟨?_, h.ledger, fun store uses => ?_, fun _ h => by cases h⟩, h.clean⟩⟩
      · simp only [h.worker]
      · refine h.bond store ?_
        rw [ht]
        cases uses
        exact openExclusive_new hc

/-- Work done on both sides ends alike; with the store open, nothing else of the sessions is touched. -/
theorem Paired.perform {α : Type} {P : α → Prop} {t : Task F α} {u : Task G α} {e : Store.Exclusive}
    (h : Paired R c d) (target : c.worker.target = .opened e) (clean : c.bench.ledger.Clean)
    (parallel : Task.Parallel R P t u) :
    (c.perform t).1 = (d.perform u).1 ∧ Beside R (c.perform t).2 (d.perform u).2 ∧
      ∀ a, (c.perform t).1 = .ok a → (c.perform t).2.bench.ledger.Clean := by
  have ends := parallel ⟨c.bench, c.worker.tally⟩ ⟨d.bench, d.worker.tally⟩
    ⟨congrArg Worker.tally h.worker, h.ledger⟩ clean
  refine ⟨ends.result, ⟨?_, ends.alike.2, h.bond, fun p deferred => ?_⟩, fun a ok => (ends.clean a ok).1⟩
  · exact congr (congrArg (fun (w : Worker V) tally => { w with tally := tally }) h.worker) ends.alike.1
  · cases target.symm.trans deferred

theorem stopError_worker (h : c.worker = d.worker) (work : String) (stop : Stop) :
    c.stopError work stop = d.stopError work stop := by
  cases stop <;> simp only [stopError, h]

theorem Paired.ensureReady (h : Paired R c d) :
    c.ensureReady.1 = d.ensureReady.1 ∧ Paired R c.ensureReady.2 d.ensureReady.2 := by
  have state : d.worker.state = c.worker.state := congrArg Worker.state h.worker.symm
  simp only [Session.ensureReady, state]
  split
  · exact ⟨rfl, h⟩
  · exact ⟨rfl, h⟩
  · rename_i fresh
    have shown : Paired R (c.onWorker (·.reveal .initializing)) (d.onWorker (·.reveal .initializing)) :=
      h.onWorker rfl rfl
    obtain ⟨same, resolved⟩ := shown.resolve
    rcases hc : (c.onWorker (·.reveal .initializing)).resolve with ⟨r, c₁⟩
    rcases hd : (d.onWorker (·.reveal .initializing)).resolve with ⟨r', d₁⟩
    rw [hc, hd] at same resolved
    cases (show r = r' from same)
    cases r with
    | broken =>
      have worker := congrArg (fun w : Worker V => { w with life := .broken }) resolved.worker
      exact ⟨rfl, ⟨⟨worker, resolved.ledger, resolved.bond, resolved.claims⟩, resolved.clean⟩⟩
    | refused e => exact ⟨rfl, (resolved.toBeside.enterFinal e).2⟩
    | found store =>
      obtain ⟨e, rfl, -, core, -⟩ := resolve_found hc
      have opened : c₁.worker.target = .opened e := congrArg Core.target core
      have bond := resolved.bond e.store (by rw [opened]; rfl)
      have unset : c₁.worker.state = .uninitialized := (congrArg Core.state core).trans fresh
      have clean := resolved.clean (by rw [unset]; intro t h; cases h)
      have setup : d₁.worker.setup = c₁.worker.setup := congrArg Worker.setup resolved.worker.symm
      have label : d₁.worker.label = c₁.worker.label := congrArg Worker.label resolved.worker.symm
      obtain ⟨result, beside, done⟩ := resolved.perform opened clean (Task.parallel_firstValue bond c₁.worker.label)
      simp only [setup, label]
      rcases hp : c₁.perform (Task.firstValue c₁.worker.setup e.store c₁.worker.label) with ⟨x, c₂⟩
      rcases hq : d₁.perform (Task.firstValue c₁.worker.setup e.store c₁.worker.label) with ⟨y, d₂⟩
      rw [hp, hq] at result beside
      cases (show x = y from result)
      cases x with
      | ok v =>
        rw [hp] at done
        refine ⟨rfl, ⟨beside.of_core ?_ (core_enter c₂ _) (core_enter d₂ _), fun _ => done v rfl⟩⟩
        exact congrArg (Worker.enter (.ready v 0)) beside.worker
      | error stop =>
        simp only [stopError_worker beside.worker]
        exact ⟨rfl, (beside.enterFinal _).2⟩

theorem Paired.commit (h : Paired R c d) (live : ∀ t, c.worker.state ≠ .final t) (v : V) (n : Nat) :
    (c.commit v n).1 = (d.commit v n).1 ∧ Paired R (c.commit v n).2 (d.commit v n).2 := by
  have target : d.worker.target = c.worker.target := congrArg Worker.target h.worker.symm
  have setup : d.worker.setup = c.worker.setup := congrArg Worker.setup h.worker.symm
  simp only [Session.commit, target, setup]
  split
  · rename_i e opened
    have bond := h.bond e.store (by rw [opened]; rfl)
    obtain ⟨result, beside, done⟩ := h.perform opened (h.clean live) (Task.parallel_writeValue bond v)
    rcases hp : c.perform (Task.writeValue c.worker.setup e.store v) with ⟨x, c₁⟩
    rcases hq : d.perform (Task.writeValue c.worker.setup e.store v) with ⟨y, d₁⟩
    rw [hp, hq] at result beside
    cases (show x = y from result)
    cases x with
    | ok size =>
      rw [hp] at done
      have entered {D : Type} (b : Session D V) : ((((b.note .info .commit [("version", toString n),
          ("bytes", toString size)]).onWorker (·.enter (.ready v n))).publish v).core =
            { b.core with state := .ready v n }) := by
        rw [core_publish, core_enter, core_note]
      refine ⟨rfl, ⟨beside.of_core ?_ (entered c₁) (entered d₁), fun _ => ?_⟩⟩
      · exact publish_worker (congrArg (Worker.enter (.ready v n)) beside.worker) v
      · exact (congrArg (fun k => k.ledger.Clean) (entered c₁)).mpr (done size rfl)
    | error stop =>
      simp only [stopError_worker beside.worker]
      exact ⟨rfl, (beside.enterFinal _).2⟩
  · exact ⟨rfl, (h.toBeside.enterFinal _).2⟩

theorem Paired.update (h : Paired R c d) (transform : V → Outcome V) :
    (c.update transform).1 = (d.update transform).1 ∧ Paired R (c.update transform).2 (d.update transform).2 := by
  have state : d.worker.state = c.worker.state := congrArg Worker.state h.worker.symm
  have setup : d.worker.setup = c.worker.setup := congrArg Worker.setup h.worker.symm
  simp only [Session.update, state]
  split
  · exact ⟨rfl, h⟩
  · exact ⟨rfl, h⟩
  · rename_i v n ready
    have called : Paired R (c.call .transform) (d.call .transform) := h.of_core h.worker rfl rfl
    cases (transform v).result with
    | error reason =>
      exact ⟨rfl, called.of_core (congrArg (Worker.count (·.recordTransformFailure)) h.worker) rfl rfl⟩
    | ok next =>
      by_cases same : c.worker.setup.same next v = true
      · simp only [worker_call, setup, same, if_true]
        exact ⟨trivial, called.onWorker rfl rfl⟩
      · simp only [worker_call, setup, same, if_false, Bool.false_eq_true]
        exact called.commit (by rw [worker_call, ready]; intro t h; cases h) next (n + 1)

theorem Paired.read (h : Paired R c d) : c.read = d.read := by
  simp only [Session.read, h.worker]

/-! ## Requests -/

/-- Paired sessions serve a request alike. -/
theorem Paired.handle (h : Paired R c d) (r : Request V) :
    (c.handle r).1 = (d.handle r).1 ∧ Paired R (c.handle r).2 (d.handle r).2 := by
  obtain ⟨same, ready⟩ := h.ensureReady
  rcases hc : c.ensureReady with ⟨x, c₁⟩
  rcases hd : d.ensureReady with ⟨y, d₁⟩
  rw [hc, hd] at same ready
  cases (show x = y from same)
  cases r with
  | update transform isAwaited =>
    cases isAwaited with
    | false => exact ⟨rfl, h.of_core (congrArg (Worker.count (·.recordCancelled)) h.worker) rfl rfl⟩
    | true =>
      simp only [Session.handle, hc, hd]
      cases x with
      | error halt => exact ⟨rfl, ready⟩
      | ok _ =>
        obtain ⟨answer, updated⟩ := ready.update transform
        exact ⟨congrArg Reply.answer answer, updated⟩
  | read isAwaited =>
    cases isAwaited with
    | false => exact ⟨rfl, h⟩
    | true =>
      simp only [Session.handle, hc, hd]
      cases x with
      | error halt => exact ⟨rfl, ready⟩
      | ok _ => exact ⟨congrArg Reply.answer ready.read, ready⟩
  | subscribe i =>
    have listener : d.worker.hasListener i = c.worker.hasListener i := by rw [h.worker]
    simp only [Session.handle, hc, hd, listener]
    split
    · cases x with
      | error halt => cases halt <;> exact ⟨rfl, ready.onWorker rfl rfl⟩
      | ok _ =>
        have state : d₁.worker.state = c₁.worker.state := congrArg Worker.state ready.worker.symm
        simp only [state]
        split
        · exact ⟨rfl, ready.of_core (attach_worker ready.worker _ _) (core_attach _ _ _) (core_attach _ _ _)⟩
        · exact ⟨rfl, ready.onWorker rfl rfl⟩
    · exact ⟨rfl, h.onWorker rfl rfl⟩
  | close => exact ⟨rfl, h.shutDown⟩

theorem Paired.refuse (h : Paired R c d) (r : Request V) :
    (c.refuse r).1 = (d.refuse r).1 ∧ Paired R (c.refuse r).2 (d.refuse r).2 := by
  cases r with
  | update transform isAwaited => cases isAwaited <;> exact ⟨rfl, h⟩
  | read isAwaited => cases isAwaited <;> exact ⟨rfl, h⟩
  | subscribe i => exact ⟨rfl, h.onWorker rfl rfl⟩
  | close => exact ⟨rfl, h⟩

theorem Paired.forsake (h : Paired R c d) (r : Request V) :
    (c.forsake r).1 = (d.forsake r).1 ∧ Paired R (c.forsake r).2 (d.forsake r).2 := by
  cases r with
  | subscribe i => exact ⟨rfl, h.onWorker rfl rfl⟩
  | update transform isAwaited => exact h.refuse _
  | read isAwaited => exact h.refuse _
  | close => exact h.refuse _

/-- Paired sessions work a queue off alike. -/
theorem Paired.serve (h : Paired R c d) (rs : List (Request V)) :
    (c.serve rs).1 = (d.serve rs).1 ∧ Paired R (c.serve rs).2 (d.serve rs).2 := by
  induction rs generalizing c d with
  | nil => exact ⟨rfl, h⟩
  | cons r rs ih =>
    have life : d.worker.life = c.worker.life := congrArg Worker.life h.worker.symm
    simp only [Session.serve, life]
    cases c.worker.life with
    | serving =>
      obtain ⟨reply, next⟩ := h.handle r
      obtain ⟨replies, last⟩ := ih next
      exact ⟨congr (congrArg List.cons reply) replies, last⟩
    | closed =>
      obtain ⟨reply, next⟩ := h.refuse r
      obtain ⟨replies, last⟩ := ih next
      exact ⟨congr (congrArg List.cons reply) replies, last⟩
    | broken =>
      obtain ⟨reply, next⟩ := h.forsake r
      obtain ⟨replies, last⟩ := ih next
      exact ⟨congr (congrArg List.cons reply) replies, last⟩

end Session

end DurableValue.Cell
