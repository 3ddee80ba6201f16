/-
  DurableValue.Proofs.Cell.Parallel — the same work done on two file systems.

  A cell touches its file in two ways only: it reads it once, and it replaces it. When two disks, with the commits
  begun on them, are so related that both ways give the same outcome and keep the relation (`Bond`), then every piece
  of work ends the same way on both sides and keeps the relation too (`Parallel`). The work of a cell may be followed
  so next to itself on one disk, which gives what the cell keeps of that disk. A replacement counts on every commit
  before it having returned, and asks for bytes that encode some value.

  Proved:
  - `bears_of_bond`: a bond is a relation that the rules of work bear with.
  - `parallel_writeValue`, `parallel_firstValue`: so commits and initializations go in parallel.
-/
import DurableValue.Proofs.Cell.Matched

namespace DurableValue.Cell

open Disk (FileSystem)

structure Ledger (F : Type) where
  disk : F
  commits : List (Commit F)

namespace Ledger

variable {F H : Type} [FileSystem F H]

def Clean (l : Ledger F) : Prop := ∀ c ∈ l.commits, (c.store.write c.bytes c.disk).1 = .ok ()

def afterRead (l : Ledger F) (store : Store.Atomic) : Ledger F := { l with disk := (store.read l.disk).2 }

def afterWrite (l : Ledger F) (store : Store.Atomic) (bs : Bytes) : Ledger F :=
  ⟨(store.write bs l.disk).2, ⟨store, bs, l.disk⟩ :: l.commits⟩

theorem clean_afterWrite {l : Ledger F} {store : Store.Atomic} {bs : Bytes} (clean : l.Clean)
    (ok : (store.write bs l.disk).1 = .ok ()) : (l.afterWrite store bs).Clean := by
  intro c hc
  rcases List.mem_cons.mp hc with rfl | hc
  · exact ok
  · exact clean c hc

end Ledger

def Bench.ledger {F : Type} (b : Bench F) : Ledger F := ⟨b.disk, b.commits⟩

/-! ## Related disks -/

section

variable {F G H K V : Type} [FileSystem F H] [FileSystem G K]

structure Bond (codec : Codec V) (store : Store.Atomic) (R : Ledger F → Ledger G → Prop) : Prop where
  read : ∀ {x y}, R x y → (store.read x.disk).1 = (store.read y.disk).1 ∧ R (x.afterRead store) (y.afterRead store)
  write : ∀ {x y v bs}, R x y → x.Clean → codec.encode v = .ok bs →
    (store.write bs x.disk).1 = (store.write bs y.disk).1 ∧ R (x.afterWrite store bs) (y.afterWrite store bs)

end

namespace Task

variable {F G H K V α : Type} [FileSystem F H] [FileSystem G K]

def Alike (R : Ledger F → Ledger G → Prop) (i : Job F) (j : Job G) : Prop :=
  i.tally = j.tally ∧ R i.bench.ledger j.bench.ledger

structure Ends (R : Ledger F → Ledger G → Prop) (Q : α → Prop) (x : Except Stop α × Job F) (y : Except Stop α × Job G) :
    Prop where
  result : x.1 = y.1
  alike : Alike R x.2 y.2
  clean : ∀ a, x.1 = .ok a → x.2.bench.ledger.Clean ∧ Q a

def Parallel (R : Ledger F → Ledger G → Prop) (Q : α → Prop) (t : Task F α) (u : Task G α) : Prop :=
  ∀ i j, Alike R i j → i.bench.ledger.Clean → Ends R Q (t.run i) (u.run j)

section

variable {R : Ledger F → Ledger G → Prop} {s : Setup V} {store : Store.Atomic}

def Going (R : Ledger F → Ledger G → Prop) (i : Job F) (j : Job G) : Prop := Alike R i j ∧ i.bench.ledger.Clean

theorem Matched.parallel {Q : α → Prop} {t : Task F α} {u : Task G α} (h : Matched (Going R) (Alike R) Q t u) :
    Parallel R Q t u := by
  intro i j alike clean
  have ends := h i j ⟨alike, clean⟩
  exact ⟨ends.result, ends.stopped, fun a ok => ⟨(ends.returned a ok).1.2, (ends.returned a ok).2⟩⟩

/-- What a store's reading and replacing keep of two disks, all its work keeps. -/
theorem bears_of_bond (bond : Bond s.codec store R) : Bears s.codec store (Going R) (Alike R) where
  stop going := going.1
  line _ going := going
  lineStopped _ alike := alike
  record _ going := going
  pass _ going := going
  count f going := ⟨⟨by simp only [going.1.1], going.1.2⟩, going.2⟩
  encodes going := ⟨by rw [going.1.1], ⟨by simp only [going.1.1], going.1.2⟩, going.2⟩
  decodes going := ⟨by rw [going.1.1], ⟨by simp only [going.1.1], going.1.2⟩, going.2⟩
  read := by
    rintro i j ⟨alike, clean⟩
    obtain ⟨same, kept⟩ := bond.read alike.2
    have kept : Alike R { i with bench.disk := (store.read i.bench.disk).2 }
      { j with bench.disk := (store.read j.bench.disk).2 } := ⟨alike.1, kept⟩
    rw [run_readStore, run_readStore]
    exact ⟨congrArg (Except.mapError _) same, kept, fun _ _ => ⟨⟨kept, clean⟩, trivial⟩⟩
  replace := by
    rintro v bs encoded i j ⟨alike, clean⟩
    obtain ⟨same, kept⟩ := bond.write alike.2 clean encoded
    have kept : Alike R ((replace store bs).run i).2 ((replace store bs).run j).2 := by
      rw [run_replace, run_replace]
      exact ⟨alike.1, kept⟩
    refine ⟨?_, kept, fun _ ok => ⟨⟨kept, ?_⟩, trivial⟩⟩
    · rw [run_replace, run_replace]
      exact congrArg (Except.mapError _) same
    · rw [run_replace] at ok ⊢
      refine Ledger.clean_afterWrite clean ?_
      rcases h : (store.write bs i.bench.ledger.disk).1 with e | ⟨⟩
      · rw [show (store.write bs i.bench.disk).1 = .error e from h] at ok
        cases ok
      · rfl

theorem parallel_writeValue (bond : Bond s.codec store R) (v : V) :
    Parallel R (fun _ => True) (writeValue s store v) (writeValue s store v) :=
  (matched_writeValue (bears_of_bond bond) v).parallel

theorem parallel_firstValue (bond : Bond s.codec store R) (label : String) :
    Parallel R (fun _ => True) (firstValue s store label) (firstValue s store label) :=
  (matched_firstValue (bears_of_bond bond) label).parallel

end

end Task

end DurableValue.Cell
