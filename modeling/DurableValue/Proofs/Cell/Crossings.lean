/-
  DurableValue.Proofs.Cell.Crossings — when a cell warns of the number of its subscriptions.

  A cell counts its subscriptions when it attaches one and when it commits a value (`Session.counts`). Those whose
  receivers are gone are off the list then, so the count is of those that are live; a flag remembers whether it was
  above the threshold. What the receivers do in between is not noticed: the list, as it was counted last, may be
  longer than the number of live subscriptions, and is never shorter.

  Proved:
  - `minded_happen`, `minded_run`: the flag says what the last count was.
  - `warns_by_the_last_count`: a warning is given just when a subscription is attached with which there are too many,
    and by the last count there were not. A commit never warns: no more are live than were counted before.
  - `a_crossing_behind_an_unnoticed_departure_is_not_warned_of`: where receivers left after too many were counted, and
    the next thing that is counted is a new subscription that makes them too many again, the threshold is crossed a
    second time without a warning.
-/
import DurableValue.Proofs.Cell.Metrics

namespace DurableValue.Cell

open Disk (FileSystem Memory)

variable {F H V : Type} [FileSystem F H]

namespace Session

/-- How many of the subscriptions on the list have a receiver. -/
def live (c : Session F V) : Nat := c.worker.attached.countP c.worker.hasListener

def limit (c : Session F V) : Int := c.worker.setup.config.warnThreshold

def counts (e : Event F V) (c : Session F V) : Bool := c.delivers e || decide (c.version < (c.happen e).2.version)

/-- How many subscriptions a cell has counted last after some events, if it was `n` before them. -/
def lastCount : List (Event F V) → Session F V → Nat → Nat
  | [], _, n => n
  | e :: es, c, n => lastCount es (c.happen e).2 (if c.counts e then (c.happen e).2.live else n)

/-- Whether an event attaches a subscription with which more are live than the threshold allows, where before it no more
were. -/
def Crosses (e : Event F V) (c : Session F V) : Prop :=
  c.delivers e = true ∧ c.live ≤ c.limit ∧ c.limit < (c.happen e).2.live

instance (e : Event F V) (c : Session F V) : Decidable (c.Crosses e) := inferInstanceAs (Decidable (_ ∧ _))

def highLine (c : Session F V) (n : Nat) : Journal.Line where
  severity := .warn
  event := Journal.Event.subscribersHigh.name
  fields := [("instance", c.worker.setup.marks.instanceId), ("path", c.worker.label), ("subscribers", toString n),
    ("threshold", toString c.limit)]

end Session

/-! ## Watching the number -/

structure Watch where
  listed : Nat
  isHigh : Bool
  warnings : List Journal.Line
  least : Journal.Severity

namespace Watch

def Warns (limit : Int) (n : Nat) (k : Watch) : Prop := limit < n ∧ k.isHigh = false ∧ k.least ≤ .warn

instance (limit : Int) (n : Nat) (k : Watch) : Decidable (k.Warns limit n) := inferInstanceAs (Decidable (_ ∧ _))

def counted (limit : Int) (line : Nat → Journal.Line) (n : Nat) (k : Watch) : Watch where
  listed := n
  isHigh := decide (limit < n)
  warnings := (if k.Warns limit n then [line n] else []) ++ k.warnings
  least := k.least

end Watch

namespace Session

def watch (c : Session F V) : Watch :=
  ⟨c.worker.attached.length, c.worker.isHigh, c.bench.journal.about .subscribersHigh, c.bench.journal.least⟩

section

variable (c : Session F V)

theorem live_le_listed : c.live ≤ c.watch.listed := List.countP_le_length

/-- A line about something else is no warning. -/
theorem watch_note (severity : Journal.Severity) {e : Journal.Event} (other : e ≠ .subscribersHigh)
    (extra : List Journal.Field) : (c.note severity e extra).watch = c.watch := by
  have about : (c.note severity e extra).bench.journal.about .subscribersHigh = _ :=
    Journal.about_add (Journal.Event.name_ne other)
  have least : (c.note severity e extra).bench.journal.least = _ := Journal.least_add _ _
  unfold watch
  rw [about, least]
  rfl

theorem watch_note_high (extra : List Journal.Field) :
    (c.note .warn .subscribersHigh extra).watch =
      { c.watch with warnings := (if c.watch.least ≤ .warn then
        [⟨.warn, Journal.Event.subscribersHigh.name,
          ("instance", c.worker.setup.marks.instanceId) :: ("path", c.worker.label) :: extra⟩]
      else []) ++ c.watch.warnings } := by
  have about : (c.note .warn .subscribersHigh extra).bench.journal.about .subscribersHigh = _ :=
    Journal.about_add_own rfl
  have least : (c.note .warn .subscribersHigh extra).bench.journal.least = _ := Journal.least_add _ _
  unfold watch
  rw [about, least]
  rfl

theorem watch_checkAttached :
    c.checkAttached.watch = c.watch.counted c.limit c.highLine c.worker.attached.length := by
  simp only [checkAttached]
  split
  · rename_i few
    have calm : ¬ c.watch.Warns c.limit c.worker.attached.length := fun warns => Int.not_lt.mpr few warns.1
    have low : decide (c.limit < c.worker.attached.length) = false := decide_eq_false (Int.not_lt.mpr few)
    simp only [Watch.counted, if_neg calm, low]
    rfl
  · rename_i many
    have high : c.limit < c.worker.attached.length := Int.not_le.mp many
    split
    · rename_i known
      have calm : ¬ c.watch.Warns c.limit c.worker.attached.length := fun warns => by
        cases warns.2.1.symm.trans known
      simp only [Watch.counted, if_neg calm, decide_eq_true high, ← known]
      rfl
    · rename_i new
      have new : c.watch.isHigh = false := Bool.eq_false_iff.mpr new
      rw [watch_note_high]
      simp only [Watch.counted, Watch.Warns, high, new, true_and]
      rfl

theorem watch_enterFinal (cause : Error) : (c.enterFinal cause).2.watch = { c.watch with listed := 0 } := by
  have noted := watch_note c .fatal (e := .cellFinal) (by decide) [("code", cause.code.name), ("reason", cause.display)]
  rw [← noted]
  simp only [enterFinal, onWorker, Worker.tell_eq, Worker.dismiss_eq]
  rfl

theorem watch_shutDown : c.shutDown.watch = { c.watch with listed := 0 } := by
  unfold shutDown
  rw [watch_note _ _ (by decide)]
  simp only [onWorker, releasePath, Worker.dismiss_eq]
  cases c.worker.target <;> rfl

theorem watch_refuse (r : Request V) : (c.refuse r).2.watch = c.watch := by
  unfold refuse
  split <;> rfl

theorem watch_forsake (r : Request V) : (c.forsake r).2.watch = c.watch := by
  unfold forsake
  split
  · rfl
  · exact watch_refuse c _

end

/-! ## Counting -/

end Session

namespace Worker

/-- What is sent to a subscription does not make its receiver leave. -/
theorem hasListener_send (n : Nat) (x : Except Error V) (w : Worker V) :
    (w.onFeed n (·.send x)).hasListener = w.hasListener := by
  funext i
  have kept (f : Feed V) : (f.send x).isDropped = f.isDropped := by
    unfold Feed.send
    split <;> rfl
  simp only [hasListener, onFeed, List.getElem?_modify]
  cases w.feeds[i]? with
  | none => rfl
  | some f => by_cases same : n = i <;> simp [same, kept]

theorem hasListener_tell (x : Except Error V) (w : Worker V) : (w.tell x).hasListener = w.hasListener := by
  unfold tell
  generalize w.attached = ns
  induction ns generalizing w with
  | nil => rfl
  | cons n ns ih => exact (ih _).trans (hasListener_send n x w)

end Worker

namespace Session

section

variable (c : Session F V)

theorem live_checkAttached : c.checkAttached.live = c.live := by
  obtain ⟨feeds, attached⟩ := feeds_checkAttached c
  simp only [live, attached]
  exact congrFun (congrArg List.countP (funext fun i => by rw [Worker.hasListener, Worker.hasListener, feeds])) _

/-- A cell that has put `n` subscriptions on its list counts them. -/
theorem watch_counted {c c' : Session F V} {n : Nat} (watch : c'.watch = { c.watch with listed := n }) :
    c'.checkAttached.watch = c.watch.counted c'.checkAttached.limit c'.checkAttached.highLine n := by
  have listed : c'.worker.attached.length = n := congrArg Watch.listed watch
  have limit : c'.checkAttached.gist.limit = c'.gist.limit := congrArg Session.limit (gist_checkAttached c')
  have line : c'.checkAttached.gist.highLine = c'.gist.highLine := congrArg Session.highLine (gist_checkAttached c')
  have limit : c'.checkAttached.limit = c'.limit := limit
  have line : c'.checkAttached.highLine = c'.highLine := line
  rw [watch_checkAttached, listed, watch, limit, line]
  rfl

/-- A commit counts those that are live. -/
theorem counted_publish (v : V) :
    (c.publish v).watch = c.watch.counted (c.publish v).limit (c.publish v).highLine (c.publish v).live ∧
      (c.publish v).live = c.live := by
  let sent := c.onWorker fun w => w.pruned.tell (.ok v)
  have attached : sent.worker.attached = c.worker.attached.filter c.worker.hasListener := by
    simp only [sent, onWorker, Worker.tell_eq]
    rfl
  have listeners : sent.worker.hasListener = c.worker.hasListener := Worker.hasListener_tell _ c.worker.pruned
  have live : (c.publish v).live = c.live := by
    refine (live_checkAttached sent).trans ?_
    simp only [Session.live, attached, listeners, List.countP_filter, Bool.and_self]
  have watch : sent.watch = { c.watch with listed := c.live } := by
    rw [Session.live, List.countP_eq_length_filter, ← attached]
    simp only [sent, onWorker, Worker.tell_eq]
    rfl
  rw [live]
  exact ⟨watch_counted watch, rfl⟩

/-- A subscription that is attached is counted with those that are live. -/
theorem counted_attach {i : Nat} (listener : c.worker.hasListener i = true) (v : V) :
    (c.attach v i).watch = c.watch.counted (c.attach v i).limit (c.attach v i).highLine (c.attach v i).live ∧
      (c.attach v i).live = c.live + 1 := by
  let given := c.onWorker fun w =>
    let w := (w.onFeed i (·.send (.ok v))).pruned
    { w with attached := w.attached ++ [i] }.count (·.recordSubscriber)
  have listeners : given.worker.hasListener = c.worker.hasListener := Worker.hasListener_send i (.ok v) c.worker
  have attached : given.worker.attached = c.worker.attached.filter c.worker.hasListener ++ [i] := by
    rw [← listeners]
    rfl
  have live : (c.attach v i).live = c.live + 1 := by
    refine (live_checkAttached given).trans ?_
    simp only [Session.live, attached, listeners, List.countP_append, List.countP_filter, Bool.and_self]
    simp [listener]
  have watch : given.watch = { c.watch with listed := c.live + 1 } := by
    have listed : given.worker.attached.length = c.live + 1 := by
      rw [attached, List.length_append, ← List.countP_eq_length_filter]
      rfl
    rw [← listed]
    rfl
  rw [live]
  exact ⟨watch_counted watch, rfl⟩

end

/-! ## Requests -/

variable {c c' : Session F V}

/-- Work gives no warning. -/
theorem watch_performed {α : Type} {store : Store.Atomic} {budget : List Use} {P : α → Prop} {t : Task F α}
    {a : Except Stop α} (performs : c.perform t = (a, c')) (within : Task.Within store budget P t) :
    c'.watch = c.watch ∧ c'.live = c.live := by
  obtain ⟨worker, us, -, done, -⟩ := performed performs within
  have warnings : c'.bench.journal.about .subscribersHigh = c.bench.journal.about .subscribersHigh :=
    done.about (by decide)
  have least : c'.bench.journal.least = c.bench.journal.least := done.least
  constructor
  · unfold watch
    rw [warnings, least, worker]
  · unfold live
    rw [worker]
    rfl

theorem Resolving.watch {x : Resolved} (h : Resolving c x c') : c'.watch = c.watch := by cases h <;> rfl

/-- To see to the value of a cell leaves the list as it is, and gives no warning. -/
theorem watch_opened {a : Except Halt Unit} (listed : c.Listed) (h : Opened c a c') :
    c'.watch = c.watch ∧ c'.live = c.live := by
  obtain ⟨feeds, attached⟩ := lists_opened listed h
  have live : c'.live = c.live := by
    unfold Session.live Worker.hasListener
    rw [feeds, attached]
  refine ⟨?_, live⟩
  have length : c'.watch.listed = c.watch.listed := congrArg List.length attached
  -- Whoever is let go was not there.
  have emptied {d d' : Session F V} (watch : d'.watch = { d.watch with listed := 0 }) (before : d.watch = c.watch)
      (length : d'.watch.listed = c.watch.listed) : d'.watch = c.watch := by
    rw [watch] at length
    rw [watch, before, show 0 = c.watch.listed from length]
  have resolves {x : Resolved} {c₁ : Session F V} (h : Resolving (c.onWorker (·.reveal .initializing)) x c₁) :
      c₁.watch = c.watch := h.watch
  cases h with
  | ready => rfl
  | final => rfl
  | broke _ resolved =>
    have still := resolves resolved
    exact still
  | refused _ resolved => exact emptied (watch_enterFinal _ _) (resolves resolved) length
  | failed _ resolved performs =>
    have begun := (watch_performed performs (Task.within_firstValue _)).1
    exact emptied (watch_enterFinal _ _) (begun.trans (resolves resolved)) length
  | began _ resolved performs => exact (watch_performed performs (Task.within_firstValue _)).1.trans (resolves resolved)

theorem le_version_opened {a : Except Halt Unit} (h : Opened c a c') : c'.version ≤ c.version := by
  cases state : c'.worker.state with
  | final t =>
    rw [version, state]
    exact Nat.zero_le _
  | _ => exact Nat.le_of_eq ((version_opened h).2 fun t final => by cases state.symm.trans final).2

theorem le_version_of_state (h : c'.worker.state = c.worker.state) : c'.version ≤ c.version := by
  rw [version, version, h]

inductive Minds (c c' : Session F V) (attaches : Bool) : Prop where
  | kept (quiet : attaches = false) (version : c'.version ≤ c.version) (watch : c'.watch = c.watch)
  | emptied (quiet : attaches = false) (version : c'.version ≤ c.version) (down : ¬ c'.InService)
    (watch : c'.watch = { c.watch with listed := 0 })
  | counted (moves : attaches = true ∨ c.version < c'.version) (up : c'.InService)
    (watch : c'.watch = c.watch.counted c'.limit c'.highLine c'.live)
    (live : c'.live = c.live + attaches.toNat)

/-- What goes before leaves all as it is. -/
theorem Minds.after {d : Session F V} {attaches : Bool} (version : c.version = d.version)
    (before : c.watch = d.watch ∧ c.live = d.live) (h : Minds c c' attaches) : Minds d c' attaches := by
  cases h with
  | kept quiet le watch => exact .kept quiet (version ▸ le) (watch.trans before.1)
  | emptied quiet le down watch => exact .emptied quiet (version ▸ le) down (before.1 ▸ watch)
  | counted moves up watch live => exact .counted (version ▸ moves) up (before.1 ▸ watch) (before.2 ▸ live)

/-- A transform of the value makes the cell count if its result is committed. -/
theorem minds_updated {transform : V → Outcome V} {v : V} {n : Nat} {a : Except Error V}
    (serving : c.worker.life = .serving) (state : c.worker.state = .ready v n) (h : Updated c transform v n a c') :
    Minds c c' false := by
  cases h with
  | rejected => exact .kept rfl (le_version_of_state rfl) (watch_note _ _ (by decide) _)
  | unchanged => exact .kept rfl (le_version_of_state rfl) rfl
  | @committed next e size c₁ result changed target performs =>
    have ready : (((c₁.note .info .commit [("version", toString (n + 1)), ("bytes", toString size)]).onWorker
        (·.enter (.ready next (n + 1)))).publish next).worker.state = .ready next (n + 1) :=
      state_of_gist (gist_publish _ _)
    have served : c₁.worker.life = .serving := (Worker.of_fixed (fixed_of_perform performs)).2.2.2.trans serving
    obtain ⟨watch₁, live₁⟩ := watch_performed performs (Task.within_writeValue next)
    have noted : (c₁.note .info .commit [("version", toString (n + 1)), ("bytes", toString size)]).watch = c₁.watch :=
      watch_note c₁ .info (by decide) _
    obtain ⟨watch, live⟩ := counted_publish ((c₁.note .info .commit [("version", toString (n + 1)),
      ("bytes", toString size)]).onWorker (·.enter (.ready next (n + 1)))) next
    refine .counted (Or.inr ?_) ⟨(life_of_gist (gist_publish _ next)).trans served, fun t final => ?_⟩
      (watch.trans (congrArg (Watch.counted _ _ _) (noted.trans watch₁))) (live.trans live₁)
    · rw [version_ready ready, version_ready state]
      exact Nat.lt_succ_self n
    · cases ready.symm.trans final
  | lost result changed target performs =>
    have watch := (watch_performed performs (Task.within_writeValue _)).1
    refine .emptied rfl (Nat.zero_le _) (not_inService_enterFinal _ _) ((watch_enterFinal _ _).trans ?_)
    rw [watch]
    rfl
  | homeless => exact .emptied rfl (Nat.zero_le _) (not_inService_enterFinal _ _) (watch_enterFinal _ _)

theorem watch_ensured {a : Except Halt Unit} (listed : c.Listed) (ensured : c.ensureReady = (a, c')) :
    c'.watch = c.watch ∧ c'.live = c.live ∧ c'.version ≤ c.version := by
  have ends := opened c
  rw [ensured] at ends
  obtain ⟨watch, live⟩ := watch_opened listed ends
  exact ⟨watch, live, le_version_opened ends⟩

/-- A subscription that is given its first value makes the cell count. -/
theorem minds_subscribe {i : Nat} (serving : c.worker.life = .serving) (listed : c.Listed) :
    Minds c (c.happen (.request (.subscribe i))).2 (c.delivers (.request (.subscribe i))) := by
  have happens : (c.happen (.request (.subscribe i))).2 = (c.handle (.subscribe i)).2 := by
    simp only [happen, serve, serving]
  cases listener : c.worker.hasListener i with
  | false =>
    have ends : (c.handle (.subscribe i)).2 = c.letGo i := by simp only [handle, listener]; rfl
    rw [not_delivers isValue_finish (by rw [happens, ends]; exact feed_letGo c i), happens, ends]
    exact .kept rfl (le_version_of_state rfl) rfl
  | true =>
    rcases ensured : c.ensureReady with ⟨(t | _) | ⟨⟩, c₁⟩
    all_goals
      obtain ⟨watch, live, version⟩ := watch_ensured listed ensured
      have feeds := feeds_of_ensured listed ensured
    · have ends : (c.handle (.subscribe i)).2 = c₁.turnAway i t := by simp only [handle, listener, ensured, if_true]
      rw [not_delivers (fun f => isValue_turned f t) (by rw [happens, ends, feed_turnAway, feeds]), happens, ends]
      exact .kept rfl version watch
    · have ends : (c.handle (.subscribe i)).2 = c₁.letGo i := by simp only [handle, listener, ensured, if_true]
      rw [not_delivers isValue_finish (by rw [happens, ends, feed_letGo, feeds]), happens, ends]
      exact .kept rfl version watch
    · obtain ⟨life, v, n, state⟩ := ready_of_ensured ensured
      have ends : (c.handle (.subscribe i)).2 = c₁.attach v i := by
        simp only [handle, listener, ensured, if_true, state]
      have given := delivers_of_attached listener (v := v) (by rw [happens, ends, feed_attach, feeds])
      have listener₁ : c₁.worker.hasListener i = true := by
        rw [Worker.hasListener, feeds]
        exact listener
      obtain ⟨counts, more⟩ := counted_attach c₁ listener₁ v
      have ready : (c₁.attach v i).worker.state = .ready v n := (state_of_gist (gist_attach c₁ v i)).trans state
      have served : (c₁.attach v i).worker.life = .serving :=
        (life_of_gist (gist_attach c₁ v i)).trans (life.trans serving)
      rw [given, happens, ends]
      refine .counted (Or.inl rfl) ⟨served, fun t final => ?_⟩ ?_ ?_
      · cases ready.symm.trans final
      · rw [counts, watch]
      · rw [more, live]
        rfl

/-- Every event makes the cell count its subscriptions, or it loses them, or they stay as they were. -/
theorem minds_happen (e : Event F V) (listed : c.Listed) : Minds c (c.happen e).2 (c.delivers e) := by
  have idle {c' : Session F V} (state : c'.worker.state = c.worker.state) (watch : c'.watch = c.watch) :
      Minds c c' false := .kept rfl (le_version_of_state state) watch
  cases e with
  | receivers f => exact idle rfl rfl
  | outside f => exact idle rfl rfl
  | request r =>
    cases life : c.worker.life with
    | closed =>
      rw [delivers_of_down (by rw [life]; decide)]
      simp only [happen, serve, life]
      exact idle (state_of_gist (gist_refuse c r)) (watch_refuse c r)
    | broken =>
      rw [delivers_of_down (by rw [life]; decide)]
      simp only [happen, serve, life]
      exact idle (state_of_gist (gist_forsake c r)) (watch_forsake c r)
    | serving =>
      cases r with
      | subscribe i => exact minds_subscribe life listed
      | close =>
        simp only [happen, serve, life]
        refine .emptied rfl (le_version_of_state (state_shutDown c)) (fun up => ?_) (watch_shutDown c)
        cases up.1
      | update transform isAwaited =>
        simp only [happen, serve, life]
        cases isAwaited with
        | false => exact idle rfl (watch_note _ .info (by decide) _)
        | true =>
          rcases ensured : c.ensureReady with ⟨halt | ⟨⟩, c₁⟩
          all_goals
            obtain ⟨watch, live, version⟩ := watch_ensured listed ensured
            simp only [handle, ensured]
          · exact .kept rfl version watch
          · -- Seeing to the value has counted nobody, so the update is the first to count.
            obtain ⟨still, v, n, state⟩ := ready_of_ensured ensured
            have same : c₁.version = c.version := (version_ready state).trans (version_of_ensured ensured state)
            exact .after same ⟨watch, live⟩ (minds_updated (still.trans life) state (updated state transform))
      | read isAwaited =>
        simp only [happen, serve, life]
        cases isAwaited with
        | false => exact idle rfl rfl
        | true =>
          rcases ensured : c.ensureReady with ⟨halt | ⟨⟩, c₁⟩
          all_goals
            obtain ⟨watch, live, version⟩ := watch_ensured listed ensured
            simp only [handle, ensured]
            exact .kept rfl version watch

/-! ## Runs -/

theorem Minds.least {attaches : Bool} (h : Minds c c' attaches) : c'.watch.least = c.watch.least := by
  cases h with
  | kept _ _ watch => rw [watch]
  | emptied _ _ _ watch => rw [watch]
  | counted _ _ watch => rw [watch, Watch.counted]

theorem least_run (es : List (Event F V)) (listed : c.Listed) : (c.run es).2.watch.least = c.watch.least := by
  induction es generalizing c with
  | nil => rfl
  | cons e es ih => exact (ih (listed_happen e listed)).trans (minds_happen e listed).least

/-- Whether the list is as long as it was when it was counted last, and the flag tells whether that was too long. -/
def Minded (last : Nat) (c : Session F V) : Prop := c.watch.listed = last ∧ c.watch.isHigh = decide (c.limit < last)

theorem limit_happen (e : Event F V) : (c.happen e).2.limit = c.limit := by rw [limit, limit, setup_happen]

/-- A cell that stays in service knows what it counted last. -/
theorem minded_happen {last : Nat} (e : Event F V) (listed : c.Listed) (minded : c.InService → c.Minded last)
    (up : (c.happen e).2.InService) :
    (c.happen e).2.Minded (if c.counts e then (c.happen e).2.live else last) := by
  have same := limit_happen (c := c) e
  cases minds_happen e listed with
  | kept quiet version watch =>
    have still : c.counts e = false := by simp [counts, quiet, Nat.not_lt.mpr version]
    rw [still, if_neg Bool.false_ne_true, Minded, watch, same]
    exact minded (inService_happen up)
  | emptied _ _ down => exact absurd up down
  | counted moves _ watch =>
    have counts : c.counts e = true := by rcases moves with attaches | moved <;> simp [counts, *]
    rw [counts, if_pos rfl, Minded, watch]
    exact ⟨rfl, rfl⟩

theorem minded_run {last : Nat} (es : List (Event F V)) (listed : c.Listed) (minded : c.InService → c.Minded last)
    (up : (c.run es).2.InService) : (c.run es).2.Minded (c.lastCount es last) := by
  induction es generalizing c last with
  | nil => exact minded up
  | cons e es ih => exact ih (listed_happen e listed) (minded_happen e listed minded) up

/-- An event that makes a cell count warns if it attaches a subscription with which there are too many, and by the last
count there were not; no other event warns. -/
theorem warnings_happen {last : Nat} (e : Event F V) (listed : c.Listed) (minded : c.InService → c.Minded last) :
    (c.happen e).2.watch.warnings =
        (if c.Crosses e ∧ last ≤ c.limit ∧ c.watch.least ≤ .warn then [(c.happen e).2.highLine (c.happen e).2.live]
          else []) ++ c.watch.warnings ∧
      (c.delivers e = true → c.live ≤ last ∧ (c.happen e).2.live = c.live + 1) := by
  have calm (quiet : c.delivers e = false) : ¬ c.Crosses e := fun crosses => by cases quiet.symm.trans crosses.1
  cases minds_happen e listed with
  | kept quiet _ watch =>
    rw [if_neg fun warns => calm quiet warns.1, watch, quiet]
    exact ⟨rfl, nofun⟩
  | emptied quiet _ _ watch =>
    rw [if_neg fun warns => calm quiet warns.1, watch, quiet]
    exact ⟨rfl, nofun⟩
  | counted _ up watch live =>
    obtain ⟨length, high⟩ := minded (inService_happen up)
    have few : c.live ≤ last := length ▸ live_le_listed c
    have same := limit_happen (c := c) e
    have low : c.watch.isHigh = false ↔ last ≤ c.limit := by rw [high]; simp
    refine ⟨?_, fun attaches => ⟨few, by rw [live, attaches]; rfl⟩⟩
    have warns : c.watch.Warns (c.happen e).2.limit (c.happen e).2.live ↔
        c.Crosses e ∧ last ≤ c.limit ∧ c.watch.least ≤ .warn := by
      rw [Watch.Warns, low, same, Crosses]
      cases attaches : c.delivers e with
      | false =>
        -- No more are live than were counted before.
        rw [attaches] at live
        refine ⟨fun ⟨many, quiet, _⟩ => ?_, fun warns => by cases warns.1.1⟩
        have still : (c.happen e).2.live = c.live := live
        omega
      | true =>
        refine ⟨fun ⟨many, quiet, kept⟩ => ⟨⟨rfl, ?_, many⟩, quiet, kept⟩, fun ⟨⟨_, _, many⟩, quiet, kept⟩ =>
          ⟨many, quiet, kept⟩⟩
        omega
    rw [watch, Watch.counted]
    simp only [warns]

end Session

/-! ## From the start -/

/-- **A cell warns by what it counted last.** Over every run of every cell whose threshold is not negative, an event
gives a warning just when it attaches a subscription with which more are live than the threshold allows, where before it
no more were, and the cell counted no more than that last either; no other event gives one, and a journal keeps the
warning if it keeps warnings. It tells the number of those that are live, with the new one. A subscription that is
attached makes one more live, and before it no more were live than were counted last: fewer, where receivers left
without the cell noticing. -/
theorem warns_by_the_last_count {s : Setup V} {location : Location} {hasRuntime : Bool} {b b' : Bench F} {w : Worker V}
    (built : build s (some location) hasRuntime b = (.ok w, b')) (threshold : 0 ≤ s.config.warnThreshold)
    (es : List (Event F V)) (e : Event F V) :
    let c₀ := Session.mk w b'
    let c := (c₀.run es).2
    let c' := (c.happen e).2
    let last := c₀.lastCount es 0
    c₀.bench.journal.about .subscribersHigh = b.journal.about .subscribersHigh ∧
      c'.bench.journal.about .subscribersHigh =
        (if c.Crosses e ∧ last ≤ s.config.warnThreshold ∧ b.journal.least ≤ .warn then [c'.highLine c'.live] else []) ++
          c.bench.journal.about .subscribersHigh ∧
      (c.delivers e = true → c.live ≤ last ∧ c'.live = c.live + 1) := by
  intro c₀ c c' last
  obtain ⟨-, -, listed⟩ := fresh_of_build built
  have start : c₀.worker.setup = s ∧ c₀.Minded 0 ∧
      c₀.watch.warnings = b.journal.about .subscribersHigh ∧ c₀.watch.least = b.journal.least := by
    obtain ⟨target, label, registry, fields, rfl, rfl, -⟩ := build_ok built
    refine ⟨rfl, ⟨rfl, (decide_eq_false (Int.not_lt.mpr threshold)).symm⟩, ?_, Journal.least_add _ _⟩
    exact Journal.about_add (e := .subscribersHigh) (Journal.Event.name_ne (e := .cellOpened) (by decide))
  obtain ⟨setup, minded, warnings, least⟩ := start
  have limit : c.limit = s.config.warnThreshold := by
    rw [Session.limit, Session.setup_run, setup]
  have kept : c.watch.least = b.journal.least := (Session.least_run es listed).trans least
  have step := Session.warnings_happen e (Session.listed_run es listed)
    fun up => Session.minded_run es listed (fun _ => minded) up
  rw [limit, kept] at step
  exact ⟨warnings, step⟩

def narrowSwitch : Setup Bool := { switch with config := { warnThreshold := 1 } }

def oneOfThree : List (Event Memory Bool) := [.receivers fun _ => [{}, {}, {}], .request (.subscribe 0)]

theorem a_second_subscription_is_warned_of :
    let b : Bench Memory := { disk := { namespaceId := "0" }, registry := {}, journal := {} }
    ∃ w b', build narrowSwitch (some (.path ⟨"/d/v"⟩)) true b = (.ok w, b') ∧
      let c := ((Session.mk w b').run oneOfThree).2
      let c' := (c.happen (.request (.subscribe 1))).2
      c'.bench.journal.about .subscribersHigh = [c'.highLine 2] := by
  intro b
  have checked : ((newCell narrowSwitch ⟨"/d/v"⟩ b).any fun c₀ =>
      let c := (c₀.run oneOfThree).2
      decide (c.Crosses (.request (.subscribe 1)) ∧ c₀.lastCount oneOfThree 0 = 1 ∧
        (c.happen (.request (.subscribe 1))).2.live = 2 ∧ c.bench.journal.about .subscribersHigh = [])) = true := by
    decide +kernel
  rcases found : newCell narrowSwitch ⟨"/d/v"⟩ b with _ | ⟨w, b'⟩ <;> rw [found] at checked
  · cases checked
  · have built := build_of_newCell found
    obtain ⟨crosses, last, live, quiet⟩ := of_decide_eq_true checked
    obtain ⟨-, warned, -⟩ := warns_by_the_last_count built (by decide) oneOfThree (.request (.subscribe 1))
    refine ⟨w, b', built, warned.trans ?_⟩
    rw [if_pos ⟨crosses, last ▸ by decide, by decide⟩, live, quiet]
    rfl

/-- Where the receiver of the second subscription left, and a third takes its place before anything is committed, the
threshold is crossed again and nothing is noted. -/
theorem a_crossing_behind_an_unnoticed_departure_is_not_warned_of :
    let b : Bench Memory := { disk := { namespaceId := "0" }, registry := {}, journal := {} }
    let es := oneOfThree ++ [.request (.subscribe 1), .receivers (·.modify 1 Feed.drop)]
    ∃ w b', build narrowSwitch (some (.path ⟨"/d/v"⟩)) true b = (.ok w, b') ∧
      let c := ((Session.mk w b').run es).2
      let c' := (c.happen (.request (.subscribe 2))).2
      c.Crosses (.request (.subscribe 2)) ∧ c.bench.journal.least ≤ .warn ∧ c'.live = 2 ∧
        c'.bench.journal.about .subscribersHigh = c.bench.journal.about .subscribersHigh := by
  intro b es
  have checked : ((newCell narrowSwitch ⟨"/d/v"⟩ b).any fun c₀ =>
      let c := (c₀.run es).2
      let c' := (c.happen (.request (.subscribe 2))).2
      decide (c.Crosses (.request (.subscribe 2)) ∧ c.bench.journal.least ≤ .warn ∧ c'.live = 2 ∧
        c'.bench.journal.about .subscribersHigh = c.bench.journal.about .subscribersHigh)) = true := by decide +kernel
  rcases found : newCell narrowSwitch ⟨"/d/v"⟩ b with _ | ⟨w, b'⟩ <;> rw [found] at checked
  · cases checked
  · exact ⟨w, b', build_of_newCell found, of_decide_eq_true checked⟩

end DurableValue.Cell
