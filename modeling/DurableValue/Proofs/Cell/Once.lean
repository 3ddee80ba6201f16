/-
  DurableValue.Proofs.Cell.Once — an initialization takes place once at most.

  On a disk that keeps a list of what it was asked, and with the calls of the caller's code on record, each part of an
  initialization can be counted (`uses`): making the path, reading and decoding the file, asking the corruption
  handler, and the three parts of each migration.

  Proved:
  - `settled_happen`, `settled_run`: a cell that has tried for a value never tries again (`IsSettled`).
  - `uses_happen`, `uses_run_settled`: the first request that somebody wants an answer to uses each part once at most,
    and nothing else uses any.
  - `one_outcome`: there is one outcome for all.
  - `initialized_once`: all of that of a whole run, and every request that is served shows the outcome.
-/
import DurableValue.Proofs.Cell.Final
import DurableValue.Proofs.Cell.Seats
import DurableValue.Proofs.Disk.Recorded

namespace DurableValue.Cell

open Disk (FileSystem Memory Recorded)

variable {F H V : Type}

/-! ## Counting -/

/-- How often something was used that an initialization may use once. -/
def uses (u : Use) (j : Job (Recorded F H)) : Nat :=
  match u with
  | .read => j.bench.disk.reads
  | .decode => j.tally.decodes
  | u => j.bench.calls.countP fun c => c.1.use? = some u

theorem count_use? (c : Call) (u : Use) : c.use?.toList.count u = if c.use? = some u then 1 else 0 := by
  cases h : c.use? with
  | none => rfl
  | some v => simp [List.count_singleton, beq_iff_eq]

theorem uses_record (u : Use) (j : Job (Recorded F H)) (c : Call) :
    uses u { j with bench := j.bench.record c } = uses u j + c.use?.toList.count u := by
  rw [count_use?]
  cases u with
  | read => cases c <;> rfl
  | decode => cases c <;> rfl
  | _ => simp only [uses, Bench.record, List.countP_cons, decide_eq_true_eq]

/-! ## What the value becomes -/

def Request.carried (same : V → V → Bool) (r : Request V) (v : V) : V :=
  match r with
  | .update transform true =>
    match (transform v).result with
    | .ok next => if same next v then v else next
    | .error _ => v
  | _ => v

def Event.carried (same : V → V → Bool) (e : Event F V) (v : V) : V :=
  match e with
  | .request r => r.carried same v
  | _ => v

def carried (same : V → V → Bool) (es : List (Event F V)) (v : V) : V := es.foldl (fun v e => e.carried same v) v

namespace Session

def uses (u : Use) (c : Session (Recorded F H) V) : Nat := Cell.uses u c.job

section

variable {u : Use} {c c' : Session (Recorded F H) V}

theorem uses_gist : Cell.uses u c.gist.job = c.uses u := by cases u <;> rfl

theorem uses_of_gist (h : c'.gist = c.gist) : c'.uses u = c.uses u := by
  rw [← uses_gist, h, uses_gist]

theorem uses_enterFinal (cause : Error) : (c.enterFinal cause).2.uses u = c.uses u := by
  rw [← uses_gist, gist_enterFinal]
  cases u <;> rfl

theorem uses_shutDown : c.shutDown.uses u = c.uses u := by
  rw [← uses_gist, gist_shutDown]
  cases u <;> rfl

end

end Session

/-! ## Events on a recorded disk -/

/-- An event on a disk that keeps a list; what others do to the disk is not on it. -/
def Event.recorded : Event F V → Event (Recorded F H) V
  | request r => request r
  | receivers f => receivers f
  | outside f => outside (Recorded.lift f)

theorem recorded_eq_request {e : Event F V} {r : Request V} (h : (e.recorded : Event (Recorded F H) V) = .request r) :
    e = .request r := by
  cases e <;> cases h
  rfl

/-- A place in a recorded run is one in the run itself. -/
theorem split_recorded {es : List (Event F V)} {xs ys : List (Event (Recorded F H) V)} {r : Request V}
    (h : es.map Event.recorded = xs ++ .request r :: ys) :
    ∃ xs' ys', es = xs' ++ .request r :: ys' ∧ xs'.map Event.recorded = xs ∧ ys'.map Event.recorded = ys := by
  obtain ⟨xs', rest, rfl, rfl, behind⟩ := List.map_eq_append_iff.mp h
  obtain ⟨e, ys', rfl, first, rfl⟩ := List.map_eq_cons_iff.mp behind
  cases recorded_eq_request first
  exact ⟨xs', ys', rfl, rfl, rfl⟩

/-- Two places of a list at which something stands are one place, or one lies behind the other. -/
theorem split_or_split {xs xs' ys ys' : List (Event F V)} {e e' : Event F V} (h : xs ++ e :: ys = xs' ++ e' :: ys') :
    (xs = xs' ∧ e = e') ∨ (∃ mid, xs = xs' ++ e' :: mid) ∨ ∃ mid, xs' = xs ++ e :: mid := by
  rcases List.append_eq_append_iff.mp h with ⟨mid, rfl, rest⟩ | ⟨mid, rfl, rest⟩
  · cases mid with
    | nil =>
      cases rest
      exact Or.inl ⟨(List.append_nil xs).symm, rfl⟩
    | cons x mid =>
      cases rest
      exact Or.inr (Or.inr ⟨mid, rfl⟩)
  · cases mid with
    | nil =>
      cases rest
      exact Or.inl ⟨List.append_nil xs', rfl⟩
    | cons x mid =>
      cases rest
      exact Or.inr (Or.inl ⟨mid, rfl⟩)

variable [FileSystem F H]

/-! ## What is used -/

theorem Touch.uses {store : Store.Atomic} {us : List Use} {i j : Job (Recorded F H)} (h : Touch store us i j)
    (u : Use) : Cell.uses u j = Cell.uses u i + us.count u := by
  cases h with
  | note => cases u <;> rfl
  | call _ c => exact uses_record u i c
  | pass p => cases u <;> rfl
  | count f => cases u <;> rfl
  | decode => cases u <;> rfl
  | encode => cases u <;> rfl
  | read =>
    cases u with
    | read => exact Store.Atomic.reads_read _
    | _ => rfl
  | replace bs moments =>
    cases u with
    | read => exact Store.Atomic.reads_write _
    | _ => rfl

/-- A chain of changes uses what it says. -/
theorem Done.uses {store : Store.Atomic} {us : List Use} {i j : Job (Recorded F H)} (h : Done store us i j) (u : Use) :
    Cell.uses u j = Cell.uses u i + us.count u := by
  induction h with
  | nothing => rfl
  | more _ last ih => rw [last.uses, ih, List.count_append, Nat.add_assoc]

namespace Session

section

variable {u : Use} {c c' : Session (Recorded F H) V}

/-- Looking for a store may use the producer of the path, once. -/
theorem Resolving.uses {x : Resolved} (h : Resolving c x c') : c'.uses u ≤ c.uses u + [Use.produce].count u := by
  cases h with
  | opened => exact Nat.le_add_right _ _
  | unavailable => exact Nat.le_add_right _ _
  | panicked => exact Nat.le_of_eq (uses_record u c.job _)
  | claimed => exact Nat.le_of_eq (uses_record u c.job (.produce _))
  | taken => exact Nat.le_of_eq (uses_record u c.job (.produce _))

theorem uses_of_performed {α : Type} {store : Store.Atomic} {budget : List Use} {P : α → Prop}
    {t : Task (Recorded F H) α} {a : Except Stop α} (h : c.perform t = (a, c'))
    (within : Task.Within store budget P t) : c'.uses u ≤ c.uses u + budget.count u := by
  obtain ⟨-, us, small, done, -⟩ := performed h within
  have used : c'.uses u = c.uses u + us.count u := done.uses u
  have := small u
  omega

/-- Seeing to a value uses each part of an initialization once at most. -/
theorem uses_opened {a : Except Halt Unit} (h : Opened c a c') : c'.uses u ≤ c.uses u + 1 := by
  have revealed : (c.onWorker (·.reveal .initializing)).uses u = c.uses u := by cases u <;> rfl
  have once (s : Setup V) : [Use.produce].count u + (Task.onceEach s).count u ≤ 1 := by
    rw [← List.count_append]
    exact List.nodup_iff_count.mp (List.nodup_cons.mpr ⟨Task.produce_notMem_onceEach s, Task.onceEach_nodup s⟩) u
  cases h with
  | ready => exact Nat.le_add_right _ _
  | final => exact Nat.le_add_right _ _
  | broke fresh resolved =>
    rename_i c₁
    have resolves := Resolving.uses resolved (u := u)
    have broken : (c₁.onWorker fun w => { w with life := .broken }).uses u = c₁.uses u := by cases u <;> rfl
    have := once c.worker.setup
    omega
  | refused fresh resolved =>
    rw [uses_enterFinal]
    have resolves := Resolving.uses resolved (u := u)
    have := once c.worker.setup
    omega
  | failed fresh resolved performs =>
    rename_i c₁ _ _ _
    rw [uses_enterFinal]
    have resolves := Resolving.uses resolved (u := u)
    have works := uses_of_performed performs (Task.within_firstValue _) (u := u)
    have := once c₁.worker.setup
    omega
  | began fresh resolved performs =>
    rename_i c₁ c₂ _ v
    have entered : (c₂.onWorker (·.enter (.ready v 0))).uses u = c₂.uses u := by cases u <;> rfl
    have resolves := Resolving.uses resolved (u := u)
    have works := uses_of_performed performs (Task.within_firstValue _) (u := u)
    have := once c₁.worker.setup
    omega

/-- A transform of the value uses nothing of an initialization, and neither does the commit of its result. -/
theorem uses_updated {transform : V → Outcome V} {v : V} {n : Nat} {a : Except Error V}
    (h : Updated c transform v n a c') : c'.uses u = c.uses u := by
  have called : (c.call .transform).uses u = c.uses u := uses_record u c.job .transform
  have committed {e : Store.Exclusive} {next : V} {b : Except Stop Nat} {c₁ : Session (Recorded F H) V}
      (performs : (c.call .transform).perform (Task.writeValue c.worker.setup e.store next) = (b, c₁)) :
      c₁.uses u = c.uses u := by
    obtain ⟨-, us, small, done, -⟩ := performed performs (Task.within_writeValue _)
    have used : c₁.uses u = (c.call .transform).uses u + us.count u := done.uses u
    have none : us.count u ≤ 0 := small u
    omega
  cases h with
  | rejected result => rw [uses_of_gist ((gist_note _ _ (by decide) _).trans (gist_recordTransformFailure _)), called]
  | unchanged result same => rw [uses_of_gist (gist_recordUnchanged _), called]
  | committed result changed target performs =>
    rename_i next _ size c₁
    have noted : (c₁.note .info .commit [("version", toString (n + 1)), ("bytes", toString size)]).uses u = c₁.uses u :=
      uses_of_gist (gist_note _ _ (by decide) _)
    rw [uses_of_gist (gist_publish _ _), ← committed performs, ← noted]
    cases u <;> rfl
  | lost result changed target performs => rw [uses_enterFinal, committed performs]
  | homeless result changed target => rw [uses_enterFinal, called]

end

/-! ## Trying once -/

def IsSettled (c : Session F V) : Prop := c.worker.life = .serving → c.worker.state ≠ .uninitialized

/-- Whether a request reaches a cell that serves, while somebody wants the answer. -/
def Takes (r : Request V) (c : Session F V) : Prop :=
  c.worker.life = .serving ∧ r.needsValue c.worker = true

section

variable {c c' : Session F V}

theorem settled_opened {a : Except Halt Unit} (h : Opened c a c') : c'.IsSettled := by
  intro serving fresh
  cases h with
  | ready state => cases state.symm.trans fresh
  | final state => cases state.symm.trans fresh
  | broke => cases serving
  | refused => cases fresh
  | failed => cases fresh
  | began => cases fresh

theorem settled_updated {transform : V → Outcome V} {v : V} {n : Nat} {a : Except Error V}
    (state : c.worker.state = .ready v n) (h : Updated c transform v n a c') : c'.IsSettled := by
  intro _ fresh
  cases h with
  | rejected => cases state.symm.trans fresh
  | unchanged => cases state.symm.trans fresh
  | committed => cases (state_of_gist (gist_publish _ _)).symm.trans fresh
  | lost => cases fresh
  | homeless => cases fresh

/-- A cell that has tried does not try again. -/
theorem opened_of_settled {a : Except Halt Unit} (settled : c.IsSettled) (serving : c.worker.life = .serving)
    (h : Opened c a c') : c' = c := by
  have tried := settled serving
  cases h with
  | ready => rfl
  | final => rfl
  | broke fresh => exact absurd fresh tried
  | refused fresh => exact absurd fresh tried
  | failed fresh => exact absurd fresh tried
  | began fresh => exact absurd fresh tried

/-- A cell that has tried never gets back to where it would try. -/
theorem settled_happen {e : Event F V} (settled : c.IsSettled) : (c.happen e).2.IsSettled := by
  refine happen_keeps ?_ ?_ ?_ ?_ ?_ settled
  · intro c c' gist settled serving
    rw [state_of_gist gist]
    exact settled ((life_of_gist gist).symm.trans serving)
  · intro c _ _ serving
    cases (life_shutDown c).symm.trans serving
  · intro c a c' _ h _
    exact settled_opened h
  · intro c transform v n a c' _ state h _
    exact settled_updated state h
  · exact fun _ settled => settled

theorem settled_run {es : List (Event F V)} (settled : c.IsSettled) : (c.run es).2.IsSettled := by
  induction es generalizing c with
  | nil => exact settled
  | cons e es ih => exact ih (settled_happen settled)

/-- The first request that is taken settles a cell. -/
theorem settled_of_takes {r : Request V} (takes : c.Takes r) : (c.happen (.request r)).2.IsSettled := by
  have ensures := settled_opened (opened c)
  have way := served c r
  simp only [happen, serve, takes.1]
  generalize (c.handle r).2 = c' at way ⊢
  cases way with
  | idle idle => cases takes.2.symm.trans idle
  | closed => cases takes.2
  | ensured _ gist =>
    intro serving
    rw [state_of_gist gist]
    exact ensures ((life_of_gist gist).symm.trans serving)
  | updated _ _ state => exact settled_updated state (updated state _)

/-- Nobody has asked for the value in a run, while the cell served. -/
def Idle (es : List (Event F V)) (c : Session F V) : Prop :=
  ∀ xs r ys, es = xs ++ .request r :: ys → ¬ (c.run xs).2.Takes r

theorem idle_cons {e : Event F V} {es : List (Event F V)} (here : ∀ r, e = .request r → ¬ c.Takes r)
    (later : (c.happen e).2.Idle es) : c.Idle (e :: es) := by
  intro xs r ys split
  cases xs with
  | nil =>
    cases split
    exact here r rfl
  | cons x xs =>
    cases split
    exact later xs r ys rfl

/-- Either nobody asks for the value in a run, or there is a first one who does. -/
theorem idle_or_first (es : List (Event F V)) (c : Session F V) :
    c.Idle es ∨ ∃ xs r ys, es = xs ++ .request r :: ys ∧ c.Idle xs ∧ (c.run xs).2.Takes r := by
  induction es generalizing c with
  | nil =>
    left
    intro xs r ys split
    cases xs <;> cases split
  | cons e es ih =>
    by_cases here : ∃ r, e = .request r ∧ c.Takes r
    · obtain ⟨r, rfl, takes⟩ := here
      refine Or.inr ⟨[], r, es, rfl, ?_, takes⟩
      intro xs r ys split
      cases xs <;> cases split
    · have quiet : ∀ r, e = .request r → ¬ c.Takes r := fun r same takes => here ⟨r, same, takes⟩
      rcases ih (c.happen e).2 with idle | ⟨xs, r, ys, rfl, idle, takes⟩
      · exact Or.inl (idle_cons quiet idle)
      · exact Or.inr ⟨e :: xs, r, ys, rfl, idle_cons quiet idle, takes⟩

/-- A request that is not taken does no more than to close the cell. -/
theorem gist_of_not_takes {r : Request V} (passed : ¬ c.Takes r) :
    (c.happen (.request r)).2.gist = c.gist ∨
      r = .close ∧ (c.happen (.request r)).2 = c.shutDown := by
  cases life : c.worker.life with
  | serving =>
    have idle : r.needsValue c.worker = false := Bool.eq_false_iff.mpr fun needs => passed ⟨life, needs⟩
    have way := served c r
    simp only [happen, serve, life]
    generalize (c.handle r).2 = c' at way ⊢
    cases way with
    | idle _ gist => exact Or.inl gist
    | closed => exact Or.inr ⟨rfl, rfl⟩
    | ensured needs => cases idle.symm.trans needs
    | updated => cases idle
  | closed =>
    simp only [happen, serve, life]
    exact Or.inl (gist_refuse c r)
  | broken =>
    simp only [happen, serve, life]
    exact Or.inl (gist_forsake c r)

end

section

variable {u : Use} {c : Session (Recorded F H) V}

/-- An event uses nothing, unless it is a request that is taken by a cell that has not tried yet. -/
theorem uses_happen {e : Event F V} (quiet : c.IsSettled ∨ ∀ r, e = .request r → ¬ c.Takes r) :
    (c.happen e.recorded).2.uses u = c.uses u := by
  cases e with
  | request r =>
    by_cases takes : c.Takes r
    · have settled : c.IsSettled := quiet.resolve_right fun none => none r rfl takes
      have ensures := opened_of_settled settled takes.1 (opened c)
      have way := served c r
      simp only [Event.recorded, happen, serve, takes.1]
      generalize (c.handle r).2 = c' at way ⊢
      cases way with
      | idle _ gist => exact uses_of_gist gist
      | closed => exact uses_shutDown
      | ensured _ gist =>
        rw [ensures] at gist
        exact uses_of_gist gist
      | updated ok _ state =>
        rw [ok] at ensures
        rw [uses_updated (updated state _)]
        exact congrArg (uses u) ensures
    · rcases gist_of_not_takes takes with gist | ⟨-, same⟩
      · exact uses_of_gist gist
      · simp only [Event.recorded, same]
        exact uses_shutDown
  | receivers f => exact uses_of_gist rfl
  | outside f => cases u <;> rfl

theorem run_recorded_append (xs ys : List (Event F V)) :
    (c.run ((xs ++ ys).map Event.recorded)).2 =
      ((c.run (xs.map Event.recorded)).2.run (ys.map Event.recorded)).2 := by
  rw [List.map_append, run_append]

theorem uses_run_settled {es : List (Event F V)} (settled : c.IsSettled) :
    (c.run (es.map Event.recorded)).2.uses u = c.uses u := by
  induction es generalizing c with
  | nil => rfl
  | cons e es ih => exact (ih (settled_happen settled)).trans (uses_happen (Or.inl settled))

theorem idle_head {e : Event F V} {es : List (Event F V)} (idle : c.Idle ((e :: es).map Event.recorded)) :
    (∀ r, e = .request r → ¬ c.Takes r) ∧ (c.happen e.recorded).2.Idle (es.map Event.recorded) := by
  constructor
  · rintro r rfl
    exact idle [] r _ rfl
  · intro xs r ys split
    have split' : (e :: es).map Event.recorded = (e.recorded :: xs) ++ .request r :: ys := by
      rw [List.map_cons, split, List.cons_append]
    exact idle _ r ys split'

theorem uses_run_idle {es : List (Event F V)} (idle : c.Idle (es.map Event.recorded)) :
    (c.run (es.map Event.recorded)).2.uses u = c.uses u := by
  induction es generalizing c with
  | nil => rfl
  | cons e es ih =>
    obtain ⟨here, later⟩ := idle_head idle
    exact (ih later).trans (uses_happen (Or.inr here))

/-- The first request that is taken uses each part of an initialization once at most. -/
theorem uses_of_takes {r : Request V} (takes : c.Takes r) : (c.happen (.request r)).2.uses u ≤ c.uses u + 1 := by
  have ensures := uses_opened (u := u) (opened c)
  have way := served c r
  simp only [happen, serve, takes.1]
  generalize (c.handle r).2 = c' at way ⊢
  cases way with
  | idle idle => cases takes.2.symm.trans idle
  | closed => cases takes.2
  | ensured _ gist =>
    rw [uses_of_gist gist]
    exact ensures
  | updated ok _ state =>
    rw [ok] at ensures
    rw [uses_updated (updated state _)]
    exact ensures

end

/-! ## One outcome -/

/-- What a request shows of a value: its own view of it, or the terminal error of a commit that fails. -/
def Sees (v : V) (r : Request V) (c : Session F V) : Prop :=
  match r with
  | .update transform _ =>
    (c.happen (.request r)).1 = [.answer ((transform v).result.mapError .transformFailed)] ∨
      ∃ t, (c.happen (.request r)).2.worker.state = .final t ∧ (c.happen (.request r)).1 = [.answer (.error t)]
  | .subscribe i => ∃ f, c.worker.feeds[i]? = some f ∧
      ∃ f', (c.happen (.request r)).2.worker.feeds[i]? = some f' ∧ f'.sent = f.sent ++ [.ok v]
  | _ => (c.happen (.request r)).1 = [.answer (.ok v)]

/-- What is left of a request to a worker that breaks over it: the answer that the cell is closed, or the end of a
subscription without a word. -/
def IsForsaken (r : Request V) (c : Session F V) : Prop :=
  match r with
  | .subscribe i => ∃ f, c.worker.feeds[i]? = some f ∧
      (c.happen (.request r)).2.worker.feeds[i]? = some { f with isOpen := false }
  | _ => (c.happen (.request r)).1 = [.answer (.error .closed)]

/-- What a request that is taken after the events `es` shows of the outcome of the initialization. -/
def Observes (same : V → V → Bool) (outcome : Except Halt V) (es : List (Event F V)) (r : Request V)
    (c : Session F V) : Prop :=
  match outcome with
  | .ok v => c.Sees (Cell.carried same es v) r ∨ ∃ t, c.worker.state = .final t ∧ c.Hears (.error t) r
  | .error (.final t) => c.Hears (.error t) r
  | .error .broken => c.IsForsaken r ∧ ∃ m, c.worker.target = .deferred (.panics m)

section

variable {c c' : Session F V}

/-- A cell that is down stays down. -/
theorem serving_happen {e : Event F V} (serving : (c.happen e).2.worker.life = .serving) :
    c.worker.life = .serving := by
  refine Classical.byContradiction fun down => ?_
  refine happen_keeps (P := fun c => c.worker.life ≠ .serving) ?_ ?_ ?_ ?_ ?_ down serving
  · intro c c' gist down
    rw [life_of_gist gist]
    exact down
  · exact fun life down => absurd life down
  · exact fun life _ down => absurd life down
  · exact fun life _ _ down => absurd life down
  · exact fun _ down => down

theorem serving_run {es : List (Event F V)} (serving : (c.run es).2.worker.life = .serving) :
    c.worker.life = .serving := by
  induction es generalizing c with
  | nil => exact serving
  | cons e es ih => exact serving_happen (ih serving)

theorem answer_updated {transform : V → Outcome V} {v : V} {n : Nat} {a : Except Error V}
    (h : Updated c transform v n a c') :
    a = (transform v).result.mapError .transformFailed ∨ ∃ t, c'.worker.state = .final t ∧ a = .error t := by
  cases h with
  | rejected result => exact Or.inl (by rw [result]; rfl)
  | unchanged result => exact Or.inl (by rw [result]; rfl)
  | committed result => exact Or.inl (by rw [result]; rfl)
  | lost => exact Or.inr ⟨_, rfl, rfl⟩
  | homeless => exact Or.inr ⟨_, rfl, rfl⟩

/-- A transform of the value makes of it what it should, or leaves the cell final. -/
theorem carried_updated {transform : V → Outcome V} {v : V} {n : Nat} {a : Except Error V}
    (state : c.worker.state = .ready v n) (h : Updated c transform v n a c') :
    (∃ m, c'.worker.state = .ready ((Request.update transform true).carried c.worker.setup.same v) m) ∨
      ∃ t, c'.worker.state = .final t := by
  cases h with
  | rejected result =>
    simp only [Request.carried, result]
    exact Or.inl ⟨n, state⟩
  | unchanged result same =>
    simp only [Request.carried, result, same, if_true]
    exact Or.inl ⟨n, state⟩
  | committed result changed target performs =>
    simp only [Request.carried, result, changed, Bool.false_eq_true, if_false]
    exact Or.inl ⟨n + 1, state_of_gist (gist_publish _ _)⟩
  | lost => exact Or.inr ⟨_, rfl⟩
  | homeless => exact Or.inr ⟨_, rfl⟩

/-- What a request shows of a cell that is ready. -/
theorem sees_ready {v : V} {n : Nat} (state : c.worker.state = .ready v n) {r : Request V} (takes : c.Takes r) :
    c.Sees v r := by
  have ready := c.ensureReady_ready state
  cases r with
  | update transform isAwaited =>
    cases takes.2
    simp only [Sees, happen, serve, takes.1, handle, ready]
    rcases answer_updated (updated state transform) with answer | ⟨t, final, answer⟩
    · exact Or.inl (by rw [answer])
    · exact Or.inr ⟨t, final, by rw [answer]⟩
  | read isAwaited =>
    cases takes.2
    simp [Sees, happen, serve, takes.1, handle, ready, read, state]
  | subscribe i =>
    have listener : c.worker.hasListener i = true := takes.2
    simp only [Sees, happen, serve, takes.1, handle, ready, state, listener, if_true]
    unfold Worker.hasListener at listener
    cases found : c.worker.feeds[i]? with
    | none => simp [found] at listener
    | some f =>
      have present : f.isDropped = false := by simpa [found] using listener
      have feed : (c.attach v i).worker.feeds[i]? = c.worker.feeds[i]?.map (·.send (.ok v)) := by
        rw [feed_attach]
      rw [feed, found]
      exact ⟨f, rfl, _, rfl, by simp [Feed.send, present]⟩
  | close => cases takes.2

/-- A cell that is ready goes on from its value, or becomes final, as long as it serves. -/
theorem carried_happen {v : V} {n : Nat} {e : Event F V} (state : c.worker.state = .ready v n)
    (serving : (c.happen e).2.worker.life = .serving) :
    (∃ m, (c.happen e).2.worker.state = .ready (e.carried c.worker.setup.same v) m) ∨
      ∃ t, (c.happen e).2.worker.state = .final t := by
  have before := serving_happen serving
  have ready := c.ensureReady_ready state
  cases e with
  | request r =>
    simp only [happen, serve, before] at serving ⊢
    cases r with
    | update transform isAwaited =>
      cases isAwaited with
      | false => exact Or.inl ⟨n, state⟩
      | true =>
        simp only [handle, ready]
        exact carried_updated state (updated state transform)
    | read isAwaited =>
      cases isAwaited with
      | false => exact Or.inl ⟨n, state⟩
      | true =>
        simp only [handle, ready]
        exact Or.inl ⟨n, state⟩
    | subscribe i =>
      refine Or.inl ⟨n, ?_⟩
      simp only [handle, ready, state]
      split
      · exact (state_of_gist (gist_attach c v i)).trans state
      · exact state
    | close => cases (life_shutDown c).symm.trans serving
  | receivers f => exact Or.inl ⟨n, state⟩
  | outside f => exact Or.inl ⟨n, state⟩

theorem carried_run {v : V} {es : List (Event F V)}
    (state : (∃ n, c.worker.state = .ready v n) ∨ ∃ t, c.worker.state = .final t)
    (serving : (c.run es).2.worker.life = .serving) :
    (∃ n, (c.run es).2.worker.state = .ready (Cell.carried c.worker.setup.same es v) n) ∨
      ∃ t, (c.run es).2.worker.state = .final t := by
  induction es generalizing c v with
  | nil => exact state
  | cons e es ih =>
    have after : (c.happen e).2.worker.life = .serving := serving_run serving
    rw [← setup_happen e]
    refine ih ?_ serving
    rcases state with ⟨n, ready⟩ | ⟨t, final⟩
    · rw [setup_happen e]
      exact carried_happen ready after
    · exact Or.inr ⟨t, (happen_final final e).1⟩

/-- A cell that nobody has asked for its value has tried for none, and nothing was to be made of one. -/
theorem fresh_run {es : List (Event F V)} (fresh : c.worker.state = .uninitialized) (idle : c.Idle es) :
    (c.run es).2.worker.state = .uninitialized ∧
      ((c.run es).2.worker.life = .serving → ∀ same v, Cell.carried same es v = v) := by
  induction es generalizing c with
  | nil => exact ⟨fresh, fun _ _ _ => rfl⟩
  | cons e es ih =>
    have here : ∀ r, e = .request r → ¬ c.Takes r := by
      rintro r rfl
      exact idle [] r _ rfl
    have later : (c.happen e).2.Idle es := by
      rintro xs r ys rfl
      exact idle (e :: xs) r ys rfl
    have fresh' : (c.happen e).2.worker.state = .uninitialized := by
      cases e with
      | request r =>
        rcases gist_of_not_takes (here r rfl) with gist | ⟨-, same⟩
        · exact (state_of_gist gist).trans fresh
        · rw [same]
          exact (state_shutDown c).trans fresh
      | receivers f => exact fresh
      | outside f => exact fresh
    obtain ⟨state, kept⟩ := ih fresh' later
    refine ⟨state, fun serving same v => ?_⟩
    have still : e.carried same v = v := by
      cases e with
      | request r =>
        have after : ((c.happen (.request r)).2.run es).2.worker.life = .serving := serving
        have before := serving_happen (serving_run after)
        cases r with
        | update transform isAwaited =>
          cases isAwaited with
          | false => rfl
          | true => exact absurd ⟨before, rfl⟩ (here _ rfl)
        | _ => rfl
      | receivers f => rfl
      | outside f => rfl
    change Cell.carried same es (e.carried same v) = v
    rw [still]
    exact kept serving same v

/-! ### The first request -/

/-- The first request that finds a value shows it, as if it had been there before. -/
theorem sees_first {r : Request V} {v : V} {n : Nat} (takes : c.Takes r) (listed : c.Listed)
    (ok : c.ensureReady = (.ok (), c')) (state : c'.worker.state = .ready v n) :
    c.Sees v r ∧ c.happen (.request r) = c'.happen (.request r) := by
  have feeds : c'.worker.feeds = c.worker.feeds := feeds_of_ensured listed ok
  have life : c'.worker.life = c.worker.life := (ready_of_ensured ok).1
  have same : c.happen (.request r) = c'.happen (.request r) := by
    simp only [happen, serve, life, takes.1]
    rw [handle_ensured takes.2 ok (c'.ensureReady_ready state) feeds]
  have needs : r.needsValue c'.worker = true := by
    rw [← takes.2]
    cases r <;> simp only [Request.needsValue, Worker.hasListener, feeds]
  have sees : c'.Sees v r := sees_ready state ⟨life.trans takes.1, needs⟩
  refine ⟨?_, same⟩
  unfold Sees at sees ⊢
  rw [same, ← feeds]
  exact sees

/-- The first request that finds no value hears why, and the cell is final with that. -/
theorem hears_first {r : Request V} {t : Error} (takes : c.Takes r) (listed : c.Listed)
    (refused : c.ensureReady = (.error (.final t), c')) :
    c.Hears (.error t) r ∧ (c.happen (.request r)).2.worker.state = .final t := by
  have feeds : c'.worker.feeds = c.worker.feeds := feeds_of_ensured listed refused
  have final := final_of_ensured refused
  cases r with
  | update transform isAwaited =>
    cases takes.2
    simp only [Hears, happen, serve, takes.1, handle, refused]
    exact ⟨rfl, final⟩
  | read isAwaited =>
    cases takes.2
    simp only [Hears, happen, serve, takes.1, handle, refused]
    exact ⟨rfl, final⟩
  | subscribe i =>
    have listener : c.worker.hasListener i = true := takes.2
    simp only [Hears, happen, serve, takes.1, handle, refused, listener, if_true]
    refine ⟨?_, final⟩
    rw [← feeds]
    refine feeds_turnAway ?_ t
    rw [Worker.hasListener, feeds]
    exact listener
  | close => cases takes.2

/-- The first request breaks a worker only if the producer of its path panics. -/
theorem forsaken_first {r : Request V} (takes : c.Takes r) (listed : c.Listed)
    (broke : c.ensureReady = (.error .broken, c')) :
    c.IsForsaken r ∧ (∃ m, c.worker.target = .deferred (.panics m)) ∧
      (c.happen (.request r)).2.worker.life = .broken := by
  obtain ⟨life, target⟩ := broken_of_ensured broke
  have feeds : c'.worker.feeds = c.worker.feeds := feeds_of_ensured listed broke
  cases r with
  | update transform isAwaited =>
    cases takes.2
    simp only [IsForsaken, happen, serve, takes.1, handle, broke]
    exact ⟨rfl, target, life⟩
  | read isAwaited =>
    cases takes.2
    simp only [IsForsaken, happen, serve, takes.1, handle, broke]
    exact ⟨rfl, target, life⟩
  | subscribe i =>
    have listener : c.worker.hasListener i = true := takes.2
    simp only [IsForsaken, happen, serve, takes.1, handle, broke, listener, if_true]
    refine ⟨?_, target, life⟩
    cases found : c.worker.feeds[i]? with
    | none => simp [Worker.hasListener, found] at listener
    | some f => exact ⟨f, rfl, by simp [letGo, onWorker, Worker.onFeed, feeds, found, Feed.finish]⟩
  | close => cases takes.2

/-- There is one outcome that every request shows. -/
theorem one_outcome (fresh : c.worker.state = .uninitialized) (listed : c.Listed) (es : List (Event F V)) :
    ∃ outcome, ∀ xs r ys, es = xs ++ .request r :: ys → (c.run xs).2.Takes r →
      (c.run xs).2.Observes c.worker.setup.same outcome xs r := by
  rcases idle_or_first es c with idle | ⟨xs₀, r₀, ys₀, rfl, idle, takes₀⟩
  · exact ⟨.error .broken, fun xs r ys split takes => absurd takes (idle xs r ys split)⟩
  · obtain ⟨fresh₀, kept⟩ := fresh_run fresh idle
    have listed₀ : (c.run xs₀).2.Listed := listed_run xs₀ listed
    have still := kept takes₀.1 c.worker.setup.same
    have setup₀ : (c.run xs₀).2.worker.setup = c.worker.setup := setup_run xs₀
    -- What holds of the first request and of those behind it holds of all that are taken.
    have all {o : Except Halt V} (first : (c.run xs₀).2.Observes c.worker.setup.same o xs₀ r₀)
        (later : ∀ mid r, (((c.run xs₀).2.happen (.request r₀)).2.run mid).2.Takes r →
          (((c.run xs₀).2.happen (.request r₀)).2.run mid).2.Observes c.worker.setup.same o
            (xs₀ ++ .request r₀ :: mid) r) :
        ∃ outcome, ∀ xs r ys, xs₀ ++ .request r₀ :: ys₀ = xs ++ .request r :: ys → (c.run xs).2.Takes r →
          (c.run xs).2.Observes c.worker.setup.same outcome xs r := by
      refine ⟨o, fun xs r ys split takes => ?_⟩
      rcases split_or_split split with ⟨rfl, same⟩ | ⟨mid, rfl⟩ | ⟨mid, rfl⟩
      · cases same
        exact first
      · exact absurd takes (idle xs r mid rfl)
      · rw [run_append] at takes ⊢
        exact later mid r takes
    rcases ensured : (c.run xs₀).2.ensureReady with ⟨(t | _) | ⟨⟩, c₁⟩
    · obtain ⟨hears, final⟩ := hears_first takes₀ listed₀ ensured
      refine all (o := .error (.final t)) hears fun mid r takes => ?_
      exact hears_final (run_final final mid).1 takes.1 takes.2
    · obtain ⟨forsaken, target, life⟩ := forsaken_first takes₀ listed₀ ensured
      refine all (o := .error .broken) ⟨forsaken, target⟩ fun mid r takes => ?_
      cases (serving_run takes.1).symm.trans life
    · obtain ⟨-, v, n, state⟩ := ready_of_ensured ensured
      obtain ⟨sees, same⟩ := sees_first takes₀ listed₀ ensured state
      refine all (o := .ok v) (Or.inl ?_) fun mid r takes => ?_
      · rw [still]
        exact sees
      · have setup₁ : c₁.worker.setup = c.worker.setup := by
          have kept := setup_opened (opened (c.run xs₀).2)
          rw [ensured] at kept
          exact kept.trans setup₀
        rw [same] at takes ⊢
        have after : (c₁.happen (.request r₀)).2.worker.life = .serving := serving_run takes.1
        have goesOn := carried_run (carried_happen state after) takes.1
        have value : Cell.carried c.worker.setup.same (xs₀ ++ .request r₀ :: mid) v =
            Cell.carried c₁.worker.setup.same mid ((Event.request r₀ : Event F V).carried c₁.worker.setup.same v) := by
          rw [setup₁, Cell.carried, List.foldl_append, List.foldl_cons]
          exact congrArg (fun v => Cell.carried _ mid (Event.carried _ (Event.request r₀ : Event F V) v)) (still v)
        rw [setup_happen] at goesOn
        rcases goesOn with ⟨m, ready⟩ | ⟨t, final⟩
        · refine Or.inl ?_
          rw [value]
          exact sees_ready ready takes
        · exact Or.inr ⟨t, final, hears_final final takes.1 takes.2⟩

end

end Session

/-! ## From the start -/

/-- **An initialization takes place once at most.** Over the whole life of a cell the producer of its path, the reading
and the decoding of its file, the corruption handler, and each of the three parts of each migration are used once at
most, and only while the worker handles the first request that somebody still wants an answer to. All requests that are
taken show one and the same outcome: a value as the transforms so far have carried it on, if there is one, and the same
terminal error, if there is none. A producer that panics leaves no outcome: the request that called it is told that the
cell is closed, and no other is taken. -/
theorem initialized_once {s : Setup V} {location : Location} {hasRuntime : Bool} {b b' : Bench (Recorded F H)}
    {w : Worker V} (built : build s (some location) hasRuntime b = (.ok w, b')) (es : List (Event F V)) :
    let c := Session.mk w b'
    let after := fun xs : List (Event F V) => (c.run (xs.map Event.recorded)).2
    (∀ u, (after es).uses u ≤ uses u ⟨b, {}⟩ + 1) ∧
      (∀ xs e ys u, es = xs ++ e :: ys → (after (xs ++ [e])).uses u ≠ (after xs).uses u →
        ∃ r, e = .request r ∧ (after xs).Takes r ∧ c.Idle (xs.map Event.recorded)) ∧
      ∃ outcome, ∀ xs r ys, es = xs ++ .request r :: ys → (after xs).Takes r →
        (after xs).Observes s.same outcome (xs.map Event.recorded) r := by
  intro c after
  have start : c.worker.setup = s ∧ c.worker.state = .uninitialized ∧ c.Listed ∧
      ∀ u, c.uses u = uses u ⟨b, {}⟩ := by
    obtain ⟨target, label, registry, fields, rfl, rfl, -⟩ := build_ok built
    exact ⟨rfl, rfl, Or.inl rfl, fun u => by cases u <;> rfl⟩
  obtain ⟨setup, fresh, listed, unused⟩ := start
  refine ⟨fun u => ?_, fun xs e ys u _ used => ?_, ?_⟩
  · rw [← unused]
    rcases Session.idle_or_first (es.map Event.recorded) c with idle | ⟨_, r, _, split, idle, takes⟩
    · exact Nat.le_add_right_of_le (Nat.le_of_eq (Session.uses_run_idle idle))
    · obtain ⟨xs, ys, rfl, rfl, rfl⟩ := split_recorded split
      have once := Session.uses_of_takes (u := u) takes
      rw [Session.uses_run_idle idle] at once
      have whole : after (xs ++ .request r :: ys) =
          (((after xs).happen (.request r)).2.run (ys.map Event.recorded)).2 := Session.run_recorded_append _ _
      rw [whole, Session.uses_run_settled (Session.settled_of_takes takes)]
      exact once
  · have step : after (xs ++ [e]) = ((after xs).happen e.recorded).2 := Session.run_recorded_append _ _
    rw [step] at used
    -- What was used was used by a request that reached the cell before it had tried for a value.
    have busy : ¬ ((after xs).IsSettled ∨ ∀ r, e = .request r → ¬ (after xs).Takes r) :=
      fun quiet => used (Session.uses_happen quiet)
    obtain ⟨unsettled, taken⟩ := not_or.mp busy
    obtain ⟨r, rfl, takes⟩ : ∃ r, e = .request r ∧ (after xs).Takes r :=
      Classical.byContradiction fun none => taken fun r same takes => none ⟨r, same, takes⟩
    refine ⟨r, rfl, takes, ?_⟩
    rcases Session.idle_or_first (xs.map Event.recorded) c with idle | ⟨zs, r', zs', split, -, takes'⟩
    · exact idle
    · refine absurd ?_ unsettled
      have whole : after xs = (((c.run zs).2.happen (.request r')).2.run zs').2 := by
        change (c.run (xs.map Event.recorded)).2 = _
        rw [split, Session.run_append]
        rfl
      rw [whole]
      exact Session.settled_run (Session.settled_of_takes takes')
  · obtain ⟨outcome, observes⟩ := Session.one_outcome fresh listed (es.map Event.recorded)
    refine ⟨outcome, fun xs r ys split takes => ?_⟩
    rw [setup] at observes
    refine observes _ r (ys.map Event.recorded) ?_ takes
    rw [split, List.map_append]
    rfl

theorem a_switch_is_read_once :
    let b : Bench (Recorded Memory Place) := { disk := ⟨{ namespaceId := "0" }, []⟩, registry := {}, journal := {} }
    let es : List (Event Memory Bool) := [.request (.read false), .request (.read true), .request (.read true)]
    ∃ w b', build switch (some (.path ⟨"/d/v"⟩)) true b = (.ok w, b') ∧
      ((Session.mk w b').run (es.map Event.recorded)).2.uses .read = 1 := by
  intro b es
  have checked : ((newCell switch ⟨"/d/v"⟩ b).any fun c =>
      decide (1 ≤ (c.run (es.map Event.recorded)).2.uses .read)) = true := by decide +kernel
  rcases found : newCell switch ⟨"/d/v"⟩ b with _ | ⟨w, b'⟩ <;> rw [found] at checked
  · cases checked
  · have built := build_of_newCell found
    have least : 1 ≤ ((Session.mk w b').run (es.map Event.recorded)).2.uses .read := of_decide_eq_true checked
    have most := (initialized_once built es).1 .read
    have unused : uses .read (⟨b, {}⟩ : Job (Recorded Memory Place)) = 0 := rfl
    rw [unused] at most
    exact ⟨w, b', built, Nat.le_antisymm most least⟩

/-- Where the producer of a path panics, the first request hears no terminal error: it is told that the cell is closed,
and the status shows an initialization that never ends. -/
theorem a_panicking_producer_leaves_no_terminal_error :
    let b : Bench Memory := { disk := { namespaceId := "0" }, registry := {}, journal := {} }
    ∃ w b', build switch (some (.produced (.panics "kaput"))) true b = (.ok w, b') ∧
      ((Session.mk w b').run [.request (.read true)]).1 = [.answer (.error .closed)] ∧
      ((Session.mk w b').run [.request (.read true)]).2.worker.status = .initializing ∧
      Error.closed.isTerminal = false :=
  ⟨_, _, rfl, rfl, rfl, rfl⟩

end DurableValue.Cell
