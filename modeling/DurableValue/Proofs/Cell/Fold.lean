/-
  DurableValue.Proofs.Cell.Fold — a cell in service is a fold.

  The first request that needs a value brings one into being. From then on the value is what the awaited updates make
  of it, in the order of their arrival: a transform that returns gives the next value, one that fails leaves it, and
  the version counts the changes.

  Proved:
  - `handle_holds`, `happen_holds`: a request to a cell with a value answers and changes it as the fold says (one
    step).
  - `run_holds`, `run_waits`: so does a run, and before the first request that needs a value nothing is done.
  - `requests_fold`: every answer shows the value at its own place in the order of the requests, and once something
    has changed the file holds the encoding of the value.
-/
import DurableValue.Proofs.Cell.Run
import DurableValue.Proofs.Store.Replacement

namespace DurableValue.Cell

open Disk (FileSystem Memory)

variable {F V : Type}

/-! ## The fold -/

section

variable [DecidableEq V]

def Request.fold : Request V → V × Nat → V × Nat
  | update transform true, (v, n) =>
    match (transform v).result with
    | .ok next => (next, if next = v then n else n + 1)
    | .error _ => (v, n)
  | _, acc => acc

def Request.answer (v : V) : Request V → Reply V
  | update transform true => .answer ((transform v).result.mapError .transformFailed)
  | read true => .answer (.ok v)
  | update _ false | read false | subscribe _ => .silence
  | close => .acknowledged

def Event.fold : Event F V → V × Nat → V × Nat
  | request r, acc => r.fold acc
  | _, acc => acc

def Event.answers (v : V) : Event F V → List (Reply V)
  | request r => [r.answer v]
  | _ => []

def folded (es : List (Event F V)) (acc : V × Nat) : V × Nat := es.foldl (fun acc e => e.fold acc) acc

def answers : List (Event F V) → V × Nat → List (Reply V)
  | [], _ => []
  | e :: es, acc => e.answers acc.1 ++ answers es (e.fold acc)

end

/-! ## The first value -/

/-- Whether a request brings the value into being if there is none yet. -/
def Request.needsValue (w : Worker V) : Request V → Bool
  | update _ isAwaited | read isAwaited => isAwaited
  | subscribe i => w.hasListener i
  | close => false

namespace Session

variable {H : Type} [FileSystem F H] {c c' : Session F V}

def value? (c : Session F V) : Option V :=
  match c.worker.state with
  | .ready v _ => some v
  | _ => none

/-- What the first request that needs a value gets, if one does. -/
def firstValue? : List (Event F V) → Session F V → Option (Option V)
  | [], _ => none
  | e :: es, c =>
    match e with
    | .request r => if r.needsValue c.worker then some c.ensureReady.2.value? else firstValue? es (c.happen e).2
    | e => firstValue? es (c.happen e).2

theorem firstValue?_append {xs : List (Event F V)} {v : Option V} (ys : List (Event F V))
    (h : c.firstValue? xs = some v) : c.firstValue? (xs ++ ys) = some v := by
  induction xs generalizing c with
  | nil => cases h
  | cons e xs ih =>
    cases e with
    | request r =>
      simp only [List.cons_append, firstValue?] at h ⊢
      split
      · rename_i needs; rw [if_pos needs] at h; exact h
      · rename_i idle; rw [if_neg idle] at h; exact ih h
    | receivers f => exact ih h
    | outside f => exact ih h

/-- Once there is a value, a request is served as if it had been there before. -/
theorem handle_ensured {r : Request V} (needs : r.needsValue c.worker) (h : c.ensureReady = (.ok (), c'))
    (h' : c'.ensureReady = (.ok (), c')) (feeds : c'.worker.feeds = c.worker.feeds) : c.handle r = c'.handle r := by
  cases r with
  | update transform isAwaited => cases needs; simp only [handle, h, h']
  | read isAwaited => cases needs; simp only [handle, h, h']
  | subscribe i =>
    have listener : c'.worker.hasListener i = true := by
      rw [Worker.hasListener, feeds]
      exact needs
    have listener₀ : c.worker.hasListener i = true := needs
    simp only [handle, h, h', listener, listener₀, if_true]
  | close => cases needs

/-- A request that needs a value and finds none leaves the cell as the failure did. -/
theorem core_handle_refused {r : Request V} (needs : r.needsValue c.worker) {halt : Halt}
    (h : c.ensureReady = (.error halt, c')) : (c.handle r).2.core = c'.core := by
  cases r with
  | update transform isAwaited => cases needs; simp only [handle, h]
  | read isAwaited => cases needs; simp only [handle, h]
  | subscribe i =>
    have listener : c.worker.hasListener i = true := needs
    simp only [handle, h, listener, if_true]
    cases halt
    · exact core_turnAway _ _ _
    · exact core_letGo _ _
  | close => cases needs

/-- A request that needs no value does not touch the core and is not answered. -/
theorem handle_idle {r : Request V} (idle : r.needsValue c.worker = false) (up : (c.handle r).2.InService) :
    (c.handle r).2.core = c.core ∧
      ∀ acc [DecidableEq V], (c.handle r).1 = r.answer acc.1 ∧ r.fold acc = acc := by
  cases r with
  | update transform isAwaited => cases idle; exact ⟨rfl, fun _ _ => ⟨rfl, rfl⟩⟩
  | read isAwaited => cases idle; exact ⟨rfl, fun _ _ => ⟨rfl, rfl⟩⟩
  | subscribe i =>
    have deaf : c.worker.hasListener i = false := idle
    simp only [handle, deaf]
    exact ⟨rfl, fun _ _ => ⟨rfl, rfl⟩⟩
  | close =>
    have : c.shutDown.core.life = .serving := up.1
    rw [core_shutDown] at this
    cases this

end Session

/-! ## What a run keeps -/

structure Waits (s : Setup V) (path? : Option Path) (k : Core Memory V) : Prop where
  setup : k.setup = s
  serving : k.life = .serving
  target : k.target.path? = path?
  state : k.state = .uninitialized

/-- A cell with a value after some changes; once there were any, the file at its path holds the value. -/
structure Holds (s : Setup V) (path? : Option Path) (acc : V × Nat) (k : Core Memory V) : Prop where
  setup : k.setup = s
  serving : k.life = .serving
  target : ∃ e, k.target = .opened e ∧ path? = some e.store.path
  state : k.state = .ready acc.1 acc.2
  stored : 0 < acc.2 → ∃ p bs, path? = some p ∧ s.codec.encode acc.1 = .ok bs ∧ k.disk.get? p.place = some bs

namespace Session

variable {s : Setup V} {path? : Option Path} {acc : V × Nat} {c : Session Memory V}

/-- The first value opens the store and counts as no change. -/
theorem ensureReady_holds {c' : Session Memory V} (h : Waits s path? c.core) (ok : c.ensureReady = (.ok (), c')) :
    ∃ v, c'.value? = some v ∧ Holds s path? (v, 0) c'.core ∧ c'.worker.feeds = c.worker.feeds := by
  obtain ⟨e, v, path, target, state, setup, life, feeds⟩ := ensureReady_ok h.state ok
  refine ⟨v, by simp [value?, state], ⟨setup.trans h.setup, life.trans h.serving, ⟨e, target, ?_⟩, state, ?_⟩, feeds⟩
  · exact h.target.symm.trans path
  · exact fun n => absurd n (Nat.lt_irrefl 0)

theorem handle_holds [DecidableEq V] (exact : ∀ x y, s.same x y = decide (x = y)) {r : Request V}
    (h : Holds s path? acc c.core) (up : (c.handle r).2.InService) :
    Holds s path? (r.fold acc) (c.handle r).2.core ∧ (c.handle r).1 = r.answer acc.1 := by
  have state : c.worker.state = .ready acc.1 acc.2 := h.state
  have ready := c.ensureReady_ready state
  cases r with
  | update transform isAwaited =>
    cases isAwaited with
    | false => exact ⟨h, rfl⟩
    | true =>
      simp only [handle, ready, update, state] at up ⊢
      rcases result : (transform acc.1).result with reason | next <;> simp only [result] at up ⊢
      · simp only [Request.fold, Request.answer, result]
        exact ⟨h, rfl⟩
      · simp only [Request.fold, Request.answer, result]
        have same : (c.call .transform).worker.setup.same next acc.1 = decide (next = acc.1) :=
          (congrArg (fun s : Setup V => s.same next acc.1) h.setup).trans (exact next acc.1)
        by_cases unchanged : next = acc.1
        · subst unchanged
          simp only [same, decide_true, if_true]
          exact ⟨h, rfl⟩
        · simp only [same, unchanged, decide_false, if_false, Bool.false_eq_true] at up ⊢
          -- The cell is still in service, so the commit did not fail.
          rcases (c.call .transform).commit_cases next (acc.2 + 1) with
            ⟨c', done, e, bs, disk, target, encoded, written, core⟩ | failed
          · rw [done, core]
            obtain ⟨e', target', path⟩ := h.target
            cases target.symm.trans target'
            refine ⟨⟨h.setup, h.serving, ⟨e, target, path⟩, rfl, fun _ => ⟨_, bs, path, ?_, ?_⟩⟩, rfl⟩
            · exact h.setup ▸ encoded
            · have := Store.Atomic.write_ok_contents (congrArg Prod.fst written)
              rw [written] at this
              exact this
          · obtain ⟨t, c', refused, down⟩ := failed
            rw [refused] at up
            exact absurd up down
  | read isAwaited =>
    cases isAwaited with
    | false => exact ⟨h, rfl⟩
    | true =>
      simp only [handle, ready]
      exact ⟨h, by simp [read, state, Request.answer]⟩
  | subscribe i =>
    simp only [handle, ready, state, Request.answer, Request.fold]
    split
    · exact ⟨by rw [core_attach]; exact h, rfl⟩
    · exact ⟨h, rfl⟩
  | close =>
    have : c.shutDown.core.life = .serving := up.1
    rw [core_shutDown] at this
    cases this

/-- Whether what happens by other hands leaves the file of the cell as it is. -/
def Leaves (path? : Option Path) (e : Event Memory V) : Prop :=
  ∀ f, e = .outside f → ∀ p, path? = some p → ∀ m : Memory, (f m).get? p.place = m.get? p.place

theorem happen_holds [DecidableEq V] (exact : ∀ x y, s.same x y = decide (x = y)) {e : Event Memory V}
    (quiet : Leaves path? e) (h : Holds s path? acc c.core) (up : (c.happen e).2.InService) :
    Holds s path? (e.fold acc) (c.happen e).2.core ∧ (c.happen e).1 = e.answers acc.1 := by
  cases e with
  | request r =>
    have before := inService_happen up
    rw [happen_request before] at up ⊢
    obtain ⟨held, answer⟩ := handle_holds exact h up
    exact ⟨held, congrArg (fun a => [a]) answer⟩
  | receivers f => exact ⟨h, rfl⟩
  | outside f =>
    refine ⟨⟨h.setup, h.serving, h.target, h.state, fun n => ?_⟩, rfl⟩
    obtain ⟨p, bs, path, encoded, stored⟩ := h.stored n
    exact ⟨p, bs, path, encoded, (quiet f rfl p path _).trans stored⟩

theorem run_holds [DecidableEq V] (exact : ∀ x y, s.same x y = decide (x = y)) {es : List (Event Memory V)}
    (quiet : ∀ e ∈ es, Leaves path? e) (h : Holds s path? acc c.core) (up : (c.run es).2.InService) :
    Holds s path? (folded es acc) (c.run es).2.core ∧ (c.run es).1 = answers es acc := by
  induction es generalizing c acc with
  | nil => exact ⟨h, rfl⟩
  | cons e es ih =>
    obtain ⟨held, replies⟩ := happen_holds exact (quiet e List.mem_cons_self) h (inService_run up)
    obtain ⟨held', replies'⟩ := ih (fun e he => quiet e (List.mem_cons_of_mem _ he)) held up
    rw [run_cons]
    exact ⟨held', by rw [replies, replies']; rfl⟩

/-- A cell that waits either waits on, or gets its first value and is a fold from there. -/
theorem run_waits [DecidableEq V] (exact : ∀ x y, s.same x y = decide (x = y)) {es : List (Event Memory V)}
    (quiet : ∀ e ∈ es, Leaves path? e) (h : Waits s path? c.core) (up : (c.run es).2.InService) :
    (c.firstValue? es = none ∧ Waits s path? (c.run es).2.core ∧ ∀ v, (c.run es).1 = answers es (v, 0)) ∨
      ∃ v, c.firstValue? es = some (some v) ∧ Holds s path? (folded es (v, 0)) (c.run es).2.core ∧
        (c.run es).1 = answers es (v, 0) := by
  induction es generalizing c with
  | nil => exact Or.inl ⟨rfl, h, fun _ => rfl⟩
  | cons e es ih =>
    have quiet' : ∀ e ∈ es, Leaves path? e := fun e he => quiet e (List.mem_cons_of_mem _ he)
    cases e with
    | request r =>
      have after : (c.happen (.request r)).2.InService := inService_run up
      have before := inService_happen after
      rw [happen_request before] at after
      cases needs : r.needsValue c.worker
      · obtain ⟨core, kept⟩ := handle_idle needs after
        have step := happen_request (r := r) before
        rw [run_cons, step] at up
        have next : c.firstValue? (.request r :: es) = (c.handle r).2.firstValue? es := by
          simp [firstValue?, needs, step]
        simp only [run_cons, step, next]
        rcases ih quiet' (core ▸ h) up with ⟨none, waits, replies⟩ | ⟨v, first, holds, replies⟩
        · exact Or.inl ⟨none, waits, fun v => by simp [answers, Event.answers, Event.fold, kept (v, 0), replies v]⟩
        · refine Or.inr ⟨v, first, ?_, ?_⟩
          · simpa [folded, Event.fold, kept (v, 0)] using holds
          · simp [answers, Event.answers, Event.fold, kept (v, 0), replies]
      · rcases ensured : c.ensureReady with ⟨halt | ⟨⟩, c'⟩
        · exact absurd (inService_of_core (core_handle_refused needs ensured) after) (ensureReady_error ensured)
        · obtain ⟨v, value, holds, feeds⟩ := ensureReady_holds h ensured
          have same : c.handle r = c'.handle r :=
            handle_ensured needs ensured (ensureReady_ready _ holds.state) feeds
          have step : c.happen (.request r) = c'.happen (.request r) := by
            rw [happen_request before, same]
            simp [happen, serve, show c'.worker.life = .serving from holds.serving]
          have run : c.run (.request r :: es) = c'.run (.request r :: es) := by rw [run_cons, run_cons, step]
          rw [run] at up ⊢
          exact Or.inr ⟨v, by simp [firstValue?, needs, ensured, value], run_holds exact quiet holds up⟩
    | receivers f => exact ih quiet' (c := (c.happen (.receivers f)).2) h up
    | outside f =>
      exact ih quiet' (c := (c.happen (.outside f)).2) ⟨h.setup, h.serving, h.target, h.state⟩ up

end Session

/-! ## From the start -/

/-- A cell that was built waits. -/
theorem build_waits {s : Setup V} {location : Location} {hasRuntime : Bool} {b b' : Bench Memory} {w : Worker V}
    (built : build s (some location) hasRuntime b = (.ok w, b')) :
    Waits s location.path? (Session.mk w b').core := by
  obtain ⟨target, registry, core, path, -⟩ := build_core built
  rw [core]
  exact ⟨rfl, rfl, path, rfl⟩

/-- **A cell in service is a fold of its requests.** After any prefix of a run the cell either waits, with no request
so far that needed a value, or is ready with the fold of the awaited updates over the first value, the version being
the number of changes. The replies show the fold at their own places, and after any change the file holds the encoding
of the value. -/
theorem requests_fold [DecidableEq V] {s : Setup V} {location : Location} {hasRuntime : Bool} {b b' : Bench Memory}
    {w : Worker V} {es before : List (Event Memory V)}
    (built : build s (some location) hasRuntime b = (.ok w, b'))
    (exact : ∀ x y, s.same x y = decide (x = y))
    (quiet : ∀ e ∈ es, Session.Leaves location.path? e)
    (isPrefix : before <+: es)
    (up : ((Session.mk w b').run before).2.InService) :
    ((Session.mk w b').firstValue? before = none ∧
        ((Session.mk w b').run before).2.worker.state = .uninitialized ∧
        ∀ v, ((Session.mk w b').run before).1 = answers before (v, 0)) ∨
      ∃ v, (Session.mk w b').firstValue? before = some (some v) ∧ (Session.mk w b').firstValue? es = some (some v) ∧
        ((Session.mk w b').run before).2.worker.state =
          .ready (folded before (v, 0)).1 (folded before (v, 0)).2 ∧
        ((Session.mk w b').run before).1 = answers before (v, 0) ∧
        (0 < (folded before (v, 0)).2 → ∃ p bs, location.path? = some p ∧
          s.codec.encode (folded before (v, 0)).1 = .ok bs ∧
          ((Session.mk w b').run before).2.bench.disk.get? p.place = some bs) := by
  obtain ⟨rest, rfl⟩ := isPrefix
  have quiet' : ∀ e ∈ before, Session.Leaves location.path? e := fun e he => quiet e (List.mem_append_left _ he)
  rcases Session.run_waits exact quiet' (build_waits built) up with ⟨none, waits, replies⟩ | ⟨v, first, holds, replies⟩
  · exact Or.inl ⟨none, waits.state, replies⟩
  · exact Or.inr ⟨v, first, Session.firstValue?_append rest first, holds.state, replies, holds.stored⟩

theorem a_flipped_switch_is_stored :
    let b : Bench Memory := { disk := { namespaceId := "0" }, registry := {}, journal := {} }
    let es : List (Event Memory Bool) := [.request (.update (fun v => .returned !v) true)]
    ∃ w b' v bs, build switch (some (.path ⟨"/d/v"⟩)) true b = (.ok w, b') ∧
      switch.codec.encode (folded es (v, 0)).1 = .ok bs ∧
      ((Session.mk w b').run es).2.bench.disk.get? ⟨true, ["d", "v"]⟩ = some bs := by
  intro b es
  have checked : ((newCell switch ⟨"/d/v"⟩ b).any fun c =>
      decide (c.run es).2.InService && (c.firstValue? es).isSome) = true := by decide +kernel
  rcases found : newCell switch ⟨"/d/v"⟩ b with _ | ⟨w, b'⟩ <;> rw [found] at checked
  · cases checked
  · have built := build_of_newCell found
    obtain ⟨up, asked⟩ := Bool.and_eq_true_iff.mp checked
    have quiet : ∀ e ∈ es, Session.Leaves (Location.path ⟨"/d/v"⟩).path? e := by
      intro e he f hf
      rw [List.mem_singleton.mp he] at hf
      cases hf
    rcases requests_fold built (fun _ _ => rfl) quiet (List.prefix_refl es) (of_decide_eq_true up) with
      ⟨none, -⟩ | ⟨v, -, -, -, -, stored⟩
    · rw [none] at asked
      cases asked
    · obtain ⟨p, bs, path, encoded, contents⟩ := stored (by cases v <;> decide)
      cases path
      have place : (⟨true, ["d", "v"]⟩ : Place) = (Path.mk "/d/v").place := by decide +kernel
      exact ⟨w, b', v, bs, built, encoded, place ▸ contents⟩

end DurableValue.Cell
