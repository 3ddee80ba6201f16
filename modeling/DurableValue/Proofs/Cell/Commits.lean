/-
  DurableValue.Proofs.Cell.Commits — what the commits of a cell have made of its file.

  On a file system that keeps a store's two files apart, every run of a cell keeps one account of the real file
  (`Accounts`): it holds the bytes of the newest commit that was published, or the old contents if none was; every
  commit but the newest has returned; and it was never seen with anything that no commit of the cell had for it.

  Proved:
  - `Accounts.happen`: an event keeps the account (one step).
  - `run_kept`: so does a run.
-/
import DurableValue.Proofs.Cell.Pair
import DurableValue.Proofs.Store.Keeper

namespace DurableValue.Cell

open Disk (FileSystem)
open Store (Atomic Keeper Phase)

variable {F H V : Type} [FileSystem F H]

namespace Commit

def isPublished (c : Commit F) : Bool := c.store.publishes c.bytes .makeParent c.disk

def HasReturned (c : Commit F) : Prop := (c.store.write c.bytes c.disk).1 = .ok ()

theorem isPublished_of_returned {c : Commit F} (h : c.HasReturned) : c.isPublished = true :=
  Keeper.settle_ok c.store c.bytes .makeParent c.disk h

end Commit

/-- What the newest published commit has put out, or the old contents if there is none. -/
def published (old : Option Bytes) (cs : List (Commit F)) : Option Bytes :=
  match cs.find? Commit.isPublished with
  | some c => some c.bytes
  | none => old

theorem published_cons (old : Option Bytes) (c : Commit F) (cs : List (Commit F)) :
    published old (c :: cs) = if c.isPublished then some c.bytes else published old cs := by
  unfold published
  rw [List.find?_cons]
  cases c.isPublished <;> rfl

def Due (old : Option Bytes) (cs : List (Commit F)) (x : Option Bytes) : Prop :=
  x = old ∨ ∃ c ∈ cs, c.isPublished = true ∧ x = some c.bytes

theorem due_published (old : Option Bytes) (cs : List (Commit F)) : Due old cs (published old cs) := by
  unfold published
  split
  · rename_i c found
    exact Or.inr ⟨c, List.mem_of_find?_eq_some found, List.find?_some found, rfl⟩
  · exact Or.inl rfl

theorem Due.mono {old x : Option Bytes} {cs cs' : List (Commit F)} (h : Due old cs x) (more : ∀ c ∈ cs, c ∈ cs') :
    Due old cs' x := by
  rcases h with h | ⟨c, hc, h⟩
  · exact Or.inl h
  · exact Or.inr ⟨c, more c hc, h⟩

structure Kept {store : Atomic} (k : Keeper F store) (codec : Codec V) (old : Option Bytes) (l : Ledger F) : Prop where
  fine : k.fine l.disk
  real : k.real l.disk = published old l.commits
  seen : ∀ x, k.seen l.disk x → Due old l.commits x
  returned : ∀ c ∈ l.commits.tail, c.HasReturned
  encoded : ∀ c ∈ l.commits, ∃ v, codec.encode v = .ok c.bytes

variable {store : Atomic} {k : Keeper F store} {codec : Codec V} {old : Option Bytes}

/-! ## Reading and replacing -/

theorem read_calm (k : Keeper F store) {d : F} (h : k.fine d) : k.Calm d (store.read d).2 := by
  have calm := k.read h
  unfold Atomic.read
  rcases e : FileSystem.read d store.path with ⟨err | bs, d'⟩ <;> rw [e] at calm
  · simp only []
    split
    · have look := k.realExists calm.1
      unfold Atomic.fileExists
      rcases e' : FileSystem.entryExists d' store.path with ⟨_ | _, d''⟩ <;> rw [e'] at look <;>
        exact k.calm_trans calm look
    · exact calm
  · exact calm

/-- A calm change is of no account. -/
theorem Kept.of_calm {l : Ledger F} (h : Kept k codec old l) {d : F} (calm : k.Calm l.disk d) :
    Kept k codec old { l with disk := d } := by
  refine ⟨calm.1, calm.2.1.trans h.real, fun x hx => ?_, h.returned, h.encoded⟩
  rcases calm.2.2 x hx with hx | rfl
  · exact h.seen x hx
  · rw [h.real]
    exact due_published old l.commits

theorem Kept.afterWrite {l : Ledger F} (h : Kept k codec old l) (clean : l.Clean) {v : V} {bs : Bytes}
    (encoded : codec.encode v = .ok bs) : Kept k codec old (l.afterWrite store bs) := by
  have before : k.real l.disk = Keeper.realAt (published old l.commits) bs (.makeParent : Phase H) := h.real
  obtain ⟨fine, real, seen⟩ := k.settle_real h.fine (k.ready_makeParent bs l.disk) before
  refine ⟨fine, ?_, fun x hx => ?_, clean, fun c hc => ?_⟩
  · rw [Ledger.afterWrite, published_cons]
    exact real
  · rcases seen x hx with hx | rfl | ⟨out, rfl⟩
    · exact (h.seen x hx).mono fun _ => List.mem_cons_of_mem _
    · exact (due_published old l.commits).mono fun _ => List.mem_cons_of_mem _
    · exact Or.inr ⟨_, List.mem_cons_self, out, rfl⟩
  · rcases List.mem_cons.mp hc with rfl | hc
    · exact ⟨v, encoded⟩
    · exact h.encoded c hc

def SameKept (k : Keeper F store) (codec : Codec V) (old : Option Bytes) (x y : Ledger F) : Prop :=
  x = y ∧ Kept k codec old x

theorem bond_kept (k : Keeper F store) (codec : Codec V) (old : Option Bytes) :
    Bond codec store (SameKept k codec old) where
  read := by
    intro x y h
    obtain ⟨rfl, h⟩ := h
    exact ⟨rfl, rfl, h.of_calm (read_calm k h.fine)⟩
  write := by
    intro x y v bs h clean encoded
    obtain ⟨rfl, h⟩ := h
    exact ⟨rfl, rfl, h.afterWrite clean encoded⟩

/-! ## Runs -/

namespace Session

def Accounts (k : Keeper F store) (codec : Codec V) (old : Option Bytes) (c : Session F V) : Prop :=
  Paired (SameKept k codec old) c c

theorem Accounts.kept {c : Session F V} (h : Accounts k codec old c) : Kept k codec old c.bench.ledger := h.ledger.2

/-- A cell that has begun no commit accounts for the file at its path as it is. -/
theorem accounts_of_start {c : Session F V}
    (uses : ∀ st, c.worker.target.Uses c.worker.setup.config.storeOptions st → st = store)
    (fine : k.fine c.bench.disk) (unseen : ∀ x, k.seen c.bench.disk x → x = k.real c.bench.disk)
    (unbegun : c.bench.commits = []) :
    Accounts k c.worker.setup.codec (k.real c.bench.disk) c := by
  have none : c.bench.ledger.commits = [] := unbegun
  refine ⟨⟨rfl, ⟨rfl, fine, ?_, fun x hx => Or.inl (unseen x hx), ?_, ?_⟩, ?_, fun _ _ => rfl⟩, fun _ => ?_⟩
  · rw [none]
    rfl
  · rw [none]
    intro c hc
    cases hc
  · rw [none]
    intro c hc
    cases hc
  · intro st hst
    cases uses st hst
    exact bond_kept k _ _
  · intro c' hc
    rw [none] at hc
    cases hc

theorem Accounts.happen {c : Session F V} (h : Accounts k codec old c) {e : Event F V}
    (quiet : ∀ f, e = .outside f → ∀ d, k.fine d → k.Calm d (f d)) : Accounts k codec old (c.happen e).2 := by
  cases e with
  | request r => exact (Paired.serve h [r]).2
  | receivers f => exact Paired.of_core h rfl rfl rfl
  | outside f =>
    have kept := h.kept.of_calm (quiet f rfl c.bench.disk h.kept.fine)
    exact ⟨⟨rfl, ⟨rfl, kept⟩, h.bond, fun _ _ => rfl⟩, h.clean⟩

/-- Every run keeps the account. -/
theorem run_kept {c : Session F V} (h : Accounts k codec old c) {es : List (Event F V)}
    (quiet : ∀ f, .outside f ∈ es → ∀ d, k.fine d → k.Calm d (f d)) : Accounts k codec old (c.run es).2 := by
  induction es generalizing c with
  | nil => exact h
  | cons e es ih =>
    refine ih (h.happen fun f hf => ?_) fun f hf => quiet f (List.mem_cons_of_mem _ hf)
    exact quiet f (hf ▸ List.mem_cons_self)

end Session

end DurableValue.Cell
