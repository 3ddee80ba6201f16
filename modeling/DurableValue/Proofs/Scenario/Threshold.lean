/-
  DurableValue.Proofs.Scenario.Threshold — scripted sessions under a higher threshold of the journal.

  The cells of a world, its file systems and its stores share one journal, which only the cells write to. What a step
  does to a world whose journal was raised is what it does to the world, raised afterwards, with the same reply: one
  equation for each thing that a step is made of, as for the operations of a cell.

  Proved:
  - `step_raised`: for a step of a script.
  - `run_raised`: for a whole script.
  - `thresholds_only_filter_lines`: two runs that differ in the threshold differ in what the journal keeps and in
    nothing else.
-/
import DurableValue.Proofs.Cell.Threshold
import DurableValue.Scenario.Script
import Mathlib.Data.List.Forall2

namespace DurableValue.Scenario

open Cell (Session Request)

variable {V α : Type}

/-! ## Worlds -/

namespace World

def raised (t : Journal.Severity) (w : World V) : World V := { w with journal := w.journal.raised t }

def along (t : Journal.Severity) (r : α × World V) : α × World V := (r.1, r.2.raised t)

variable (t : Journal.Severity) (w : World V)

theorem disk_raised (name : DiskName) : (w.raised t).disk name = ((w.disk name).1, (w.disk name).2.raised t) := by
  cases name with
  | host => rfl
  | memory name =>
    simp only [disk, raised]
    split <;> rfl

@[simp] theorem setDisk_raised (name : DiskName) (d : Disk) :
    (w.raised t).setDisk name d = (w.setDisk name d).raised t := by
  cases name <;> cases d <;> rfl

theorem onDisk_raised (name : DiskName) (f : Disk → α × Disk) : (w.raised t).onDisk name f = along t (w.onDisk name f) := by
  simp only [onDisk, disk_raised, setDisk_raised]
  rfl

@[simp] theorem closeFile_raised (f : Option OpenFile) : (w.raised t).closeFile f = (w.closeFile f).raised t := by
  cases f with
  | none => rfl
  | some f => simp only [closeFile, onDisk_raised, along]

@[simp] theorem dropGuard_raised (g : Option Store.Guard) : (w.raised t).dropGuard g = (w.dropGuard g).raised t := by
  cases g <;> rfl

/-! ## Cells -/

def Indifferent (f : Session Disk V → α × Session Disk V) : Prop :=
  ∀ (t : Journal.Severity) c, f (c.raised t) = ((f c).1, (f c).2.raised t)

theorem absorb_raised (name : DiskName) (notes : Cell.Call × Disk → Option String) (b : Cell.Bench Disk) :
    (w.raised t).absorb name notes (b.raised t) = (w.absorb name notes b).raised t := by
  have set := setDisk_raised t w name b.disk
  exact congrArg (fun x : World V => { x with
    registry := b.registry
    journal := b.journal.raised t
    notes := b.calls.filterMap notes ++ w.notes }) set

theorem onCell_raised (i : Nat) {f : Session Disk V → α × Session Disk V} (indifferent : Indifferent f) :
    (w.raised t).onCell i f = (w.onCell i f).map (along t) := by
  have tenants : (w.raised t).tenants = w.tenants := rfl
  simp only [onCell, tenants]
  cases w.tenants[i]? with
  | none => rfl
  | some tenant =>
    simp only [Option.bind_eq_bind, Option.bind_some, disk_raised]
    generalize w.disk tenant.disk = r
    obtain ⟨d, w⟩ := r
    have done : f ⟨tenant.worker, (w.raised t).bench d⟩ = _ := indifferent t ⟨tenant.worker, w.bench d⟩
    simp only [done]
    generalize f ⟨tenant.worker, w.bench d⟩ = r
    obtain ⟨a, c⟩ := r
    have absorbed := absorb_raised t w tenant.disk (note tenant.migrations tenant.file) c.bench
    exact congrArg (fun x : World V =>
      some (a, { x with tenants := x.tenants.set i { tenant with worker := c.worker } })) absorbed

theorem release_raised (i : Option Nat) : (w.raised t).release i = (w.release i).raised t := by
  cases i with
  | none => rfl
  | some i =>
    have names : (w.raised t).names = w.names := rfl
    simp only [release, names, onCell_raised t w i fun t c => Session.submit_raised t c [.close]]
    split
    · rfl
    · cases w.onCell i fun c => c.submit [.close] <;> rfl

theorem nameCell_raised (name : String) (i : Nat) : (w.raised t).nameCell name i = (w.nameCell name i).raised t :=
  release_raised t { w with names := keep name i w.names } _

theorem dropFeed_raised (f : Option (Nat × Nat)) : (w.raised t).dropFeed f = (w.dropFeed f).raised t := by
  cases f with
  | none => rfl
  | some f =>
    obtain ⟨i, n⟩ := f
    have indifferent : Indifferent fun c : Session Disk V => ((), c.onWorker (·.onFeed n Cell.Feed.drop)) :=
      fun _ _ => rfl
    simp only [dropFeed, onCell_raised t w i indifferent]
    cases w.onCell i fun c => ((), c.onWorker (·.onFeed n Cell.Feed.drop)) <;> rfl

theorem nameFeed_raised (name : String) (i n : Nat) : (w.raised t).nameFeed name i n = (w.nameFeed name i n).raised t :=
  dropFeed_raised t { w with feeds := keep name (i, n) w.feeds } _

/-! ## Steps without a cell -/

theorem keepFile_raised (name : String) (f : OpenFile) : (w.raised t).keepFile name f = (w.keepFile name f).raised t :=
  closeFile_raised t { w with files := keep name f w.files } _

theorem withFile_raised (name : String) (good : α → Reply V) (f : Disk → Disk.Handle → Except Disk.IoError α × Disk) :
    (w.raised t).withFile name good f = (w.withFile name good f).map (along t) := by
  have files : (w.raised t).files = w.files := rfl
  simp only [withFile, files, onDisk_raised]
  cases w.files.lookup name <;> rfl

theorem withStore_raised (name : String) (good : α → Reply V) (f : Store.Atomic → Disk → Except Store.Error α × Disk) :
    (w.raised t).withStore name good f = (w.withStore name good f).map (along t) := by
  have stores : (w.raised t).stores = w.stores := rfl
  simp only [withStore, stores, onDisk_raised]
  cases w.stores.lookup name <;> rfl

theorem diskStep_raised (on : DiskName) (s : DiskStep) : (w.raised t).diskStep on s = (w.diskStep on s).map (along t) := by
  simp only [diskStep, disk_raised]
  generalize w.disk on = r
  obtain ⟨d, w⟩ := r
  have registry : (w.raised t).registry = w.registry := rfl
  cases s with
  | create p name =>
    rcases created : Disk.FileSystem.create d p with ⟨e | h, d'⟩ <;>
      simp only [created, setDisk_raised, keepFile_raised] <;> rfl
  | store p name o => cases made : Store.Atomic.new p o <;> simp only [made] <;> rfl
  | openExclusive p name o =>
    simp only [registry]
    rcases opened : Store.openExclusive d w.registry p o with ⟨e | e, r⟩
    · rfl
    · exact congrArg (fun x => some (_, x)) (dropGuard_raised t { w with
        registry := r
        stores := keep name ⟨on, e.store⟩ w.stores
        storeGuards := keep name e.guard w.storeGuards } (w.storeGuards.lookup name))
  | isActive p => rfl
  | _ =>
    simp only [setDisk_raised, Option.map_map]
    rfl

theorem namedStep_raised (s : NamedStep) : (w.raised t).namedStep s = (w.namedStep s).map (along t) := by
  have registry : (w.raised t).registry = w.registry := rfl
  cases s with
  | closeFile file => exact congrArg (fun x => some (_, x)) (closeFile_raised t { w with files := forget file w.files } _)
  | dropExclusive name =>
    exact congrArg (fun x => some (_, x)) (dropGuard_raised t { w with storeGuards := forget name w.storeGuards } _)
  | dropGuard name => exact congrArg (fun x => some (_, x)) (dropGuard_raised t { w with guards := forget name w.guards } _)
  | acquire p name =>
    simp only [namedStep, registry]
    rcases acquired : w.registry.acquire p with ⟨e | g, r⟩
    · rfl
    · exact congrArg (fun x => some (_, x))
        (dropGuard_raised t { w with registry := r, guards := keep name g w.guards } (w.guards.lookup name))
  | release p => rfl
  | isActive p => rfl
  | write | writeAll | flush | sync => simp only [namedStep, withFile_raised]
  | storeWrite | storeRead | storeExists | storePlaces => simp only [namedStep, withStore_raised]

/-! ## Steps on cells -/

theorem build_raised (p : Plan V) : (w.raised t).build p = along t (w.build p) := by
  unfold build
  cases p.config with
  | error e => rfl
  | ok config =>
    simp only [disk_raised]
    generalize w.disk p.disk = r
    obtain ⟨d, w⟩ := r
    have built := Cell.build_raised t (setupOf w.kind p config ⟨w.identifier w.fresh, "0", toString w.fresh⟩) p.location
      p.hasRuntime (w.bench d)
    have bench : (w.raised t).bench d = (w.bench d).raised t := rfl
    have kind : (w.raised t).kind = w.kind := rfl
    have fresh : (w.raised t).fresh = w.fresh ∧ (w.raised t).identifier = w.identifier := ⟨rfl, rfl⟩
    simp only [bench, kind, fresh, built]
    rcases Cell.build (setupOf w.kind p config ⟨w.identifier w.fresh, "0", toString w.fresh⟩) p.location p.hasRuntime
      (w.bench d) with ⟨e | worker, b⟩
    · exact congrArg (fun x : World V => (Reply.cellFailed e, { x with fresh := w.fresh + 1 }))
        (absorb_raised t w p.disk (fun _ => none) b)
    · simp only [absorb_raised]
      generalize w.absorb p.disk (fun _ => none) b = x
      exact congrArg (fun x : World V => (Reply.done, x)) (nameCell_raised t { x with
        fresh := w.fresh + 1
        tenants := x.tenants ++ [⟨p.name, p.disk, worker, p.migrations, fileOf p⟩] } p.name x.tenants.length)

theorem request_raised (k : Kind V) (q : Query V) : Indifferent (request k q) := by
  intro t c
  cases q <;> rfl

theorem requests_raised (k : Kind V) (qs : List (Query V)) : Indifferent (requests k qs) := by
  intro t c
  induction qs generalizing c with
  | nil => rfl
  | cons q qs ih => simp only [requests, request_raised k q t, ih]

theorem nextOf_raised (n : Nat) : Indifferent (nextOf (V := V) n) := by
  intro t c
  simp only [nextOf, Session.worker_raised]
  split
  · rfl
  · split <;> rfl

theorem outcome_raised (q : Query V) (r : Request V) (a : Cell.Reply V) : Indifferent (outcome q r a) := by
  intro t c
  unfold outcome
  split
  · exact nextOf_raised _ t c
  · rfl
  · rfl
  · rfl

theorem outcomes_raised (qs : List (Query V × Request V × Cell.Reply V)) : Indifferent (outcomes qs) := by
  intro t c
  induction qs generalizing c with
  | nil => rfl
  | cons q qs ih => simp only [outcomes, outcome_raised _ _ _ t, ih]

theorem nameFeeds_raised (i : Nat) (feeds : List (String × Nat)) :
    feeds.foldl (fun w f => w.nameFeed f.1 i f.2) (w.raised t) =
      (feeds.foldl (fun w f => w.nameFeed f.1 i f.2) w).raised t := by
  induction feeds generalizing w with
  | nil => rfl
  | cons f feeds ih => simp only [List.foldl_cons, nameFeed_raised, ih]

theorem ask_raised (i : Nat) (queries : List (Query V)) :
    (w.raised t).ask i queries = (w.ask i queries).map (along t) := by
  have kind : (w.raised t).kind = w.kind := rfl
  simp only [ask, kind]
  rw [onCell_raised]
  · cases w.onCell i _ with
    | none => rfl
    | some r => exact congrArg (fun x => some (_, x)) (nameFeeds_raised t r.2 i _)
  · intro t c
    simp only [requests_raised _ _ t, Session.submit_raised, outcomes_raised _ t]

theorem askOne_raised (i : Nat) (q : Query V) : (w.raised t).askOne i q = (w.askOne i q).map (along t) := by
  simp only [askOne, ask_raised]
  rcases w.ask i [q] with _ | ⟨replies, w⟩
  · rfl
  · simp only [along, Option.map_some, Option.bind_eq_bind, Option.bind_some]
    cases replies.head? <;> rfl

theorem cellStep_raised (name : String) (s : CellStep V) :
    (w.raised t).cellStep name s = (w.cellStep name s).map (along t) := by
  have tenant : (w.raised t).tenant? name = w.tenant? name := rfl
  simp only [cellStep, tenant]
  rcases w.tenant? name with _ | ⟨i, tenant⟩
  · rfl
  · cases s with
    | update | set | current | close | subscribe | glimpse => exact askOne_raised t w i _
    | batch queries =>
      simp only [Option.bind_eq_bind, Option.bind_some, ask_raised]
      cases w.ask i queries <;> rfl
    | cancel e =>
      simp only [Option.bind_eq_bind, Option.bind_some, askOne_raised]
      cases w.askOne i (.update e false) <;> rfl
    | abandon e =>
      simp only [Option.bind_eq_bind, Option.bind_some, askOne_raised]
      cases w.askOne i (.update e true) with
      | none => rfl
      | some r => exact askOne_raised t r.2 i (.current true)
    | state => rfl
    | counters => rfl
    | clone other => exact congrArg (fun x => some (_, x)) (nameCell_raised t w other i)

theorem dropCell_raised (name : String) : (w.raised t).dropCell name = along t (w.dropCell name) :=
  congrArg (fun x => (_, x)) (release_raised t { w with names := forget name w.names } _)

theorem feedStep_raised (name : String) (s : FeedStep) :
    (w.raised t).feedStep name s = (w.feedStep name s).map (along t) := by
  have feeds : (w.raised t).feeds = w.feeds := rfl
  cases s with
  | unsubscribe => exact congrArg (fun x => some (_, x)) (dropFeed_raised t { w with feeds := forget name w.feeds } _)
  | receive =>
    simp only [feedStep, feeds]
    rcases w.feeds.lookup name with _ | ⟨i, n⟩
    · rfl
    · exact onCell_raised t w i (nextOf_raised n)
  | drain =>
    simp only [feedStep, feeds]
    rcases w.feeds.lookup name with _ | ⟨i, n⟩
    · rfl
    · simp only [Option.bind_eq_bind, Option.bind_some]
      refine onCell_raised t w i fun t c => ?_
      simp only [Session.worker_raised]
      cases c.worker.feeds[n]? <;> rfl

/-! ## Scripts -/

theorem step_raised (s : Step V) : (w.raised t).step s = (w.step s).map (along t) := by
  cases s with
  | onDisk disk s => exact diskStep_raised t w disk s
  | onNamed s => exact namedStep_raised t w s
  | build p => exact congrArg some (build_raised t w p)
  | onCell cell s => exact cellStep_raised t w cell s
  | drop cell => exact congrArg some (dropCell_raised t w cell)
  | onFeed feed s => exact feedStep_raised t w feed s

end World

def Answered.raised (t : Journal.Severity) (a : Answered V) : Answered V := { a with journal := a.journal.raised t }

namespace World

variable (t : Journal.Severity) (w : World V)

theorem answer_raised (s : Step V) :
    (w.raised t).answer s = (w.answer s).map fun r => (r.1.raised t, r.2.raised t) := by
  have begun := step_raised t { w with notes := [], journal := w.journal.emptied } s
  have stepped : ({ w.raised t with notes := [], journal := (w.raised t).journal.emptied } : World V).step s = _ := begun
  simp only [answer, stepped]
  rcases ({ w with notes := [], journal := w.journal.emptied } : World V).step s with _ | ⟨reply, w⟩ <;> rfl

theorem run_raised (script : List (Step V)) :
    (w.raised t).run script = (w.run script).map fun r => (r.1.map (Answered.raised t), r.2.raised t) := by
  induction script generalizing w with
  | nil => rfl
  | cons s rest ih =>
    simp only [run, answer_raised]
    rcases w.answer s with _ | ⟨a, w⟩
    · rfl
    · simp only [Option.map_some, Option.bind_eq_bind, Option.bind_some, ih]
      rcases w.run rest with _ | ⟨as, w⟩ <;> rfl

end World

/-! ## Two runs -/

/-- Whether an answer is another one but for the lines below a threshold, which are missing on both channels. -/
structure Answered.Filters (t : Journal.Severity) (a b : Answered V) : Prop where
  reply : b.reply = a.reply
  status : b.status = a.status
  calls : b.calls = a.calls
  lines : ∀ c, b.journal.linesOn c = (a.journal.linesOn c).filter fun l => t ≤ l.severity

def World.loggingFrom (w : World V) (s : Journal.Severity) : World V := { w with journal := { least := s } }

/-- **A threshold filters lines and does nothing else.** Of two runs of one script, one with the threshold `s` and one with
the threshold `t` above it, either both are spoiled or neither is. Then the steps are answered the same, with the same
status of the cell and the same calls to the code given to it; what was noted on each channel in the run at `t` are the
lines at `t` or above of the run at `s`, step by step and in the same order; and the worlds at the end have everything but
the journal in common: file systems, open files, the registry, guards, cells with their values, all statuses shown, all
counters, and all items of all subscriptions. -/
theorem thresholds_only_filter_lines (w : World V) {s t : Journal.Severity} (le : s ≤ t) (script : List (Step V)) :
    match (w.loggingFrom s).run script, (w.loggingFrom t).run script with
    | none, none => True
    | some (as, x), some (bs, y) =>
      List.Forall₂ (Answered.Filters t) as bs ∧ y = { x with journal := y.journal } ∧
        ∀ c, y.journal.linesOn c = (x.journal.linesOn c).filter fun l => t ≤ l.severity
    | _, _ => False := by
  have start : w.loggingFrom t = (w.loggingFrom s).raised t :=
    congrArg (fun j => { w with journal := j }) (Journal.raised_blank le).symm
  rw [start, World.run_raised]
  rcases (w.loggingFrom s).run script with _ | ⟨as, x⟩
  · trivial
  · refine ⟨?_, rfl, Journal.linesOn_raised t x.journal⟩
    refine List.forall₂_map_right_iff.mpr (List.forall₂_same.mpr fun a _ => ?_)
    exact ⟨rfl, rfl, rfl, Journal.linesOn_raised t a.journal⟩

def blankWorld : World Int := { kind := integers, identifier := fun n => toString n, host := {}, journal := {} }

def tornScript : List (Step Int) :=
  [.onDisk (.memory "m") (.put ⟨"/d/v"⟩ [0x78]),
    .build { name := "c", disk := .memory "m", location := some (.path ⟨"/d/v"⟩), default := none, layout := .compact,
             config := .ok {}, handler := none, migrations := [], fault := none, hasRuntime := true },
    .onCell "c" .current, .drop "c"]

theorem a_torn_number_is_told_of_less_from_errors_on :
    Journal.Severity.info ≤ .error ∧ ∃ as x bs y, (blankWorld.loggingFrom .info).run tornScript = some (as, x) ∧
      (blankWorld.loggingFrom .error).run tornScript = some (bs, y) ∧
      as.map (fun a => a.journal.lines.map (·.event)) =
        [[], ["CELL_OPENED"], ["CELL_INIT_BEGIN", "CELL_CORRUPTION_DETECTED", "CELL_INIT_FAILED", "CELL_FINAL"],
          ["CELL_CLOSED"]] ∧
      bs.map (fun b => b.journal.lines.map (·.event)) = [[], [], ["CELL_INIT_FAILED", "CELL_FINAL"], []] ∧
      y = { x with journal := y.journal } := by
  have le : Journal.Severity.info ≤ .error := by decide
  let events (r : List (Answered Int) × World Int) := r.1.map fun a => a.journal.lines.map (·.event)
  have all : ((blankWorld.loggingFrom .info).run tornScript).map events =
      some [[], ["CELL_OPENED"], ["CELL_INIT_BEGIN", "CELL_CORRUPTION_DETECTED", "CELL_INIT_FAILED", "CELL_FINAL"],
        ["CELL_CLOSED"]] := by decide +kernel
  have few : ((blankWorld.loggingFrom .error).run tornScript).map events =
      some [[], [], ["CELL_INIT_FAILED", "CELL_FINAL"], []] := by decide +kernel
  obtain ⟨⟨as, x⟩, ran, all⟩ := Option.map_eq_some_iff.mp all
  obtain ⟨⟨bs, y⟩, ran', few⟩ := Option.map_eq_some_iff.mp few
  have same := thresholds_only_filter_lines blankWorld le tornScript
  rw [ran, ran'] at same
  exact ⟨le, as, x, bs, y, ran, ran', all, few, same.2.1⟩

end DurableValue.Scenario
