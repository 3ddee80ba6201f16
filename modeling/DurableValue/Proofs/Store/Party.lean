/-
  DurableValue.Proofs.Store.Party — one of two sides that work on the same disk.

  A party follows a history of both sides. Before each of its own operations the other side catches up: it does
  everything that the history has for it up to there. So a party sees the disk change between any two of its
  operations, and it takes part in the history when what it does is what the history has for it.

  Proved:
  - `own_turn`: what a store does on such a disk are its own moves.
  - `Keeper.party`: if the other side's operations are moves of a store whose two files are other ones, the first
    store works as if the disk were its own.
-/
import DurableValue.Proofs.Store.Keeper
import DurableValue.Proofs.Store.Moves

namespace DurableValue

namespace Disk

structure Party where
  me : Side
  disk : Memory
  /-- What both sides have done so far. -/
  past : History
  /-- What the history has for both from here on. -/
  coming : History
  deriving DecidableEq, Repr

namespace Party

variable {α : Type} (d : Party)

def others : History := d.coming.takeWhile fun e => e.1 ≠ d.me

def caughtUp : Party :=
  { d with
    disk := replay d.disk d.others
    past := d.past ++ d.others
    coming := d.coming.dropWhile fun e => e.1 ≠ d.me }

def turn (p : Primitive) (answer : Memory → α) : α × Party :=
  (answer d.caughtUp.disk,
    { d.caughtUp with
      disk := p.run d.caughtUp.disk
      past := d.caughtUp.past ++ [(d.me, p)]
      coming := d.caughtUp.coming.tail })

instance : FileSystem Party Place where
  read d p := d.turn (.read p) fun m => (m.read p).1
  create d p := d.turn (.create p) fun m => (m.create p).1
  append d h bs := d.turn (.write h bs) fun m => (m.append h bs).1
  flush d _ := (.ok (), d)
  sync d h := d.turn (.sync h) fun m => (m.sync h).1
  close d _ := d
  createDirAll d p := d.turn (.createDirAll p) fun m => (m.createDirAll p).1
  rename d p q := d.turn (.rename p q) fun m => (m.rename p q).1
  removeFile d p := d.turn (.removeFile p) fun m => (m.removeFile p).1
  entryExists d p := d.turn (.look p) fun m => m.entryExists p
  syncDir d p := d.turn (.syncDir p) fun m => (m.syncDir p).1
  canonicalKey d p := d.disk.canonicalKey p

theorem others_other : ∀ e ∈ d.others, e.1 ≠ d.me := by
  intro e he
  have := List.all_eq_true.mp List.all_takeWhile e he
  exact of_decide_eq_true this

theorem others_append_coming : d.others ++ d.caughtUp.coming = d.coming := List.takeWhile_append_dropWhile

theorem mem_coming_turn {p : Primitive} {answer : Memory → α} {e : Side × Primitive}
    (h : e ∈ (d.turn p answer).2.coming) : e ∈ d.coming := by
  rw [← d.others_append_coming]
  exact List.mem_append_right _ (List.mem_of_mem_tail h)

end Party

end Disk

namespace Store

open Disk (FileSystem Memory Primitive Side History Party replay)

/-! ## What a party has done -/

def Driven.party : Driven Party where
  after p d := (d.turn p fun _ => ()).2
  read _ _ := rfl
  entryExists _ _ := rfl
  create _ _ := rfl
  create_ok d _ _ ok := (d.caughtUp.disk.create_ok ok).1
  append _ _ _ := rfl
  sync _ _ := rfl
  close _ _ := rfl
  createDirAll _ _ := rfl
  rename _ _ _ := rfl
  removeFile _ _ := rfl
  syncDir _ _ := rfl

/-- Whether a party is on this side and has done nothing but moves of a store. -/
def Own (s : Atomic) (me : Side) (d : Party) : Prop := d.me = me ∧ ∀ e ∈ d.past, e.1 = me → s.Move e.2

theorem own_turn {s : Atomic} {me : Side} (p : Primitive) (d : Party) (move : s.Move p) (h : Own s me d) :
    Own s me (Driven.party.after p d) := by
  refine ⟨h.1, fun e he own => ?_⟩
  rcases List.mem_append.mp he with he | he
  · rcases List.mem_append.mp he with he | he
    · exact h.2 e he own
    · exact absurd (own.trans h.1.symm) (d.others_other e he)
  · rw [List.mem_singleton.mp he]
    exact move

/-! ## A store beside another one -/

structure Apart (s o : Atomic) : Prop where
  real : s.path.place ≠ o.path.place
  realScratch : s.path.place ≠ o.scratch.place
  scratchReal : s.scratch.place ≠ o.path.place
  scratch : s.scratch.place ≠ o.scratch.place

theorem Apart.symm {s o : Atomic} (h : Apart s o) : Apart o s :=
  ⟨h.real.symm, h.scratchReal.symm, h.realScratch.symm, h.scratch.symm⟩

/-- The moves of a store leave every other file alone. -/
theorem replay_moves {o : Atomic} {es : History} (moves : ∀ e ∈ es, o.Move e.2) (m : Memory) {q : Place}
    (real : q ≠ o.path.place) (scratch : q ≠ o.scratch.place) : (replay m es).get? q = m.get? q := by
  induction es generalizing m with
  | nil => rfl
  | cons e es ih =>
    have step := Atomic.get?_move (moves e List.mem_cons_self) m real scratch
    exact (ih (fun e he => moves e (List.mem_cons_of_mem _ he)) (e.2.run m)).trans step

def Sight.party (s o : Atomic) (start : Memory) (me : Side) : Sight Party Place where
  real d := d.disk.get? s.path.place
  scratch d := d.disk.get? s.scratch.place
  fine d := d.me = me ∧ d.disk = replay start d.past ∧ ∀ e ∈ d.coming, e.1 ≠ me → o.Move e.2
  seen d c := ∃ before, before <+: d.past ∧ c = (replay start before).get? s.path.place
  mine h := h = s.scratch.place

section

variable {s o : Atomic} {start : Memory} {me : Side} {d : Party}

theorem others_moves (h : (Sight.party s o start me).fine d) : ∀ e ∈ d.others, o.Move e.2 := by
  intro e he
  refine h.2.2 e ?_ (h.1 ▸ d.others_other e he)
  rw [← d.others_append_coming]
  exact List.mem_append_left _ he

/-- What the other side does to catch up changes neither file. -/
theorem caughtUp_get? (h : (Sight.party s o start me).fine d) {q : Place} (real : q ≠ o.path.place)
    (scratch : q ≠ o.scratch.place) : d.caughtUp.disk.get? q = d.disk.get? q :=
  replay_moves (others_moves h) d.disk real scratch

/-- A turn shows the real file as it was, or as the turn's own operation leaves it. -/
theorem seen_turn {α : Type} (apart : Apart s o) (h : (Sight.party s o start me).fine d) (p : Primitive)
    (answer : Memory → α) {c : Option Bytes} (seen : (Sight.party s o start me).seen (d.turn p answer).2 c) :
    (Sight.party s o start me).seen d c ∨ c = (Sight.party s o start me).real d ∨
      c = (p.run d.caughtUp.disk).get? s.path.place := by
  obtain ⟨before, isPrefix, rfl⟩ := seen
  have reached : replay start (d.past ++ d.others) = d.caughtUp.disk := by
    rw [Disk.replay_append, ← h.2.1]
    rfl
  rcases List.prefix_concat_iff.mp isPrefix with rfl | isPrefix
  · refine Or.inr (Or.inr ?_)
    rw [Disk.replay_concat]
    exact congrArg (fun m => (p.run m).get? s.path.place) reached
  · obtain ⟨rest, split⟩ := isPrefix
    rcases List.append_eq_append_iff.mp split with ⟨more, past, -⟩ | ⟨more, rfl, others⟩
    · exact Or.inl ⟨before, ⟨more, past.symm⟩, rfl⟩
    · refine Or.inr (Or.inl ?_)
      have moves : ∀ e ∈ more, o.Move e.2 := by
        intro e he
        refine others_moves h e ?_
        rw [others]
        exact List.mem_append_left _ he
      rw [Disk.replay_append, replay_moves moves _ apart.real apart.realScratch, ← h.2.1]
      rfl

theorem fine_turn {α : Type} (h : (Sight.party s o start me).fine d) (p : Primitive) (answer : Memory → α) :
    (Sight.party s o start me).fine (d.turn p answer).2 := by
  refine ⟨h.1, ?_, fun e he => h.2.2 e (d.mem_coming_turn he)⟩
  have past : (d.turn p answer).2.past = d.past ++ d.others ++ [(d.me, p)] := rfl
  rw [past, Disk.replay_concat, Disk.replay_append, ← h.2.1]
  rfl

/-- A turn that does nothing at the real path is calm. -/
theorem calm_turn {α : Type} (apart : Apart s o) (h : (Sight.party s o start me).fine d) {p : Primitive}
    (answer : Memory → α) (quiet : (p.run d.caughtUp.disk).get? s.path.place = d.caughtUp.disk.get? s.path.place) :
    (Sight.party s o start me).Calm d (d.turn p answer).2 := by
  have same := caughtUp_get? h apart.real apart.realScratch
  refine ⟨fine_turn h p answer, quiet.trans same, fun c seen => ?_⟩
  rcases seen_turn apart h p answer seen with seen | seen | seen
  · exact Or.inl seen
  · exact Or.inr seen
  · exact Or.inr (seen.trans (quiet.trans same))

end

def Keeper.party (s o : Atomic) (own : s.scratch.place ≠ s.path.place) (apart : Apart s o) (start : Memory)
    (me : Side) : Keeper Party s where
  toSight := Sight.party s o start me
  createDirAll hf := calm_turn apart hf _ (Memory.createDirAll_get? _ _ _)
  read hf := calm_turn apart hf _ (Memory.read_get? _ _ _)
  realExists hf := calm_turn apart hf _ rfl
  scratchExists hf := calm_turn apart hf _ rfl
  create hf := calm_turn apart hf _ (Memory.create_get? _ own.symm)
  create_ok _ ok := Memory.create_ok _ ok
  append bs hf hm := by
    subst hm
    exact calm_turn apart hf _ (Memory.write_get? _ _ own.symm)
  append_ok {d h bs old} hf hm ho ok := by
    subst hm
    obtain ⟨old', ho', written⟩ := Memory.append_ok _ ok
    have same := caughtUp_get? hf apart.scratchReal apart.scratch
    cases (same.trans ho).symm.trans ho'
    exact written
  sync hf _ := calm_turn apart hf _ (Memory.sync_get? _ _ _)
  sync_scratch hf _ := (Memory.sync_get? _ _ _).trans (caughtUp_get? hf apart.scratchReal apart.scratch)
  close {d h} hf _ := ⟨hf, rfl, fun _ seen => Or.inl seen⟩
  close_scratch _ _ := rfl
  rename_error {d e} hf failed := by
    refine calm_turn apart hf _ ?_
    rcases d.caughtUp.disk.rename_cases s.scratch s.path with ⟨-, same⟩ | ⟨ok, -⟩
    · exact same _
    · cases ok.symm.trans failed
  rename_ok {d} hf ok := by
    rcases d.caughtUp.disk.rename_cases s.scratch s.path with ⟨⟨e, failed⟩, -⟩ | ⟨-, bs, hb, moved⟩
    · cases failed.symm.trans ok
    · have scratch : d.disk.get? s.scratch.place = some bs :=
        (caughtUp_get? hf apart.scratchReal apart.scratch).symm.trans hb
      have real := (moved s.path.place).trans (if_pos rfl)
      refine ⟨fine_turn hf _ _, real.trans scratch.symm, fun c seen => ?_⟩
      rcases seen_turn apart hf _ _ seen with seen | seen | seen
      · exact Or.inl seen
      · exact Or.inr (Or.inl seen)
      · exact Or.inr (Or.inr (seen.trans (real.trans scratch.symm)))
  removeScratch hf := calm_turn apart hf _ (Memory.removeFile_get? _ own.symm)
  syncDir hf := calm_turn apart hf _ (Memory.syncDir_get? _ _ _)

end Store

end DurableValue
