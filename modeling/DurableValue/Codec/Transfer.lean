/-
  DurableValue.Codec.Transfer — the sources that values are read from, and the sinks that they are written to.

  A source hands out bytes call by call, as many as it likes of those that it is asked for, until it ends or fails; a
  call that was interrupted is made again. JSON is read with calls for a single byte. A sink takes bytes call by call,
  as many as it likes of those that it is offered, as long as it has room; the rest of a chunk is offered again until
  all of it was taken. A sink that takes none is full.
-/
import DurableValue.Codec.Json

namespace DurableValue.Codec

open Disk (IoError)
open Json (Ending Layout)

/-- What a source will answer. The bytes of one `chunk` may be handed out in several calls, but never those of two in
one. -/
inductive Source where
  | ended
  | chunk (first : UInt8) (others : Bytes) (rest : Source)
  | failing (e : IoError) (rest : Source)

namespace Source

/-- The source with bytes in front of it. -/
def led : Bytes → Source → Source
  | [], s => s
  | b :: bs, s => chunk b bs s

/-- Asks for so many bytes; none are given at the end. -/
def call (count : Nat) : Source → Except IoError Bytes × Source
  | ended => (.ok [], ended)
  | chunk b bs rest => (.ok ((b :: bs).take count), led ((b :: bs).drop count) rest)
  | failing e rest => (.error e, rest)

/-- The calls for a single byte that can be made until the source has ended. -/
def calls : Source → Nat
  | ended => 0
  | chunk _ bs rest => bs.length + 1 + rest.calls
  | failing _ rest => 1 + rest.calls

theorem calls_led (bs : Bytes) (s : Source) : (led bs s).calls = bs.length + s.calls := by
  cases bs with
  | nil => exact (Nat.zero_add _).symm
  | cons b bs => rfl

theorem calls_call {s s' : Source} {b : UInt8} {bs : Bytes} (given : s.call 1 = (.ok (b :: bs), s')) :
    s'.calls < s.calls := by
  cases s with
  | ended => cases given
  | chunk first others rest =>
    cases given
    rw [calls_led, calls]
    exact Nat.add_lt_add_right (Nat.lt_succ_self _) _
  | failing e rest => cases given

theorem calls_failed {s s' : Source} {e : IoError} (failed : s.call 1 = (.error e, s')) : s'.calls < s.calls := by
  cases s with
  | ended => cases failed
  | chunk first others rest => cases failed
  | failing e' rest =>
    cases failed
    rw [calls]
    exact Nat.lt_add_of_pos_left Nat.one_pos

/-- What is read byte by byte, and how that ends. -/
def drained (s : Source) : Bytes × Ending :=
  match _ : s.call 1 with
  | (.ok [], _) => ([], .stop)
  | (.ok (b :: _), s') => (b :: s'.drained.1, s'.drained.2)
  | (.error e, s') => if e.kind = .interrupted then s'.drained else ([], .fail e)
termination_by s.calls
decreasing_by
  · exact calls_call ‹_›
  · exact calls_failed ‹_›

end Source

/-- Decodes what a source gives. -/
def Format.decodeFrom {α : Type} (f : Format α) (s : Source) : Except Error α :=
  f.decodeStream s.drained.1 s.drained.2

/-- A sink in its states. -/
structure Sink (σ : Type) where
  /-- Offers bytes. Either so many of them are taken, or the offer fails. -/
  write : Bytes → σ → Except IoError Nat × σ
  /-- How many bytes are still taken. -/
  room : σ → Nat
  taken_le {bs : Bytes} {s s' : σ} {n : Nat} : write bs s = (.ok n, s') → n ≤ bs.length ∧ n + room s' = room s
  fits {bs : Bytes} {s : σ} : bs ≠ [] → bs.length ≤ room s → ∃ n s', write bs s = (.ok (n + 1), s')
  /-- An interrupted offer is made again, and counts as one. -/
  uninterrupted {bs : Bytes} {s s' : σ} {e : IoError} : write bs s = (.error e, s') → e.kind ≠ .interrupted

namespace Sink

variable {σ : Type}

/-- The failure of a sink that takes nothing. -/
def takesNone : IoError := ⟨.writeZero, "failed to write whole buffer"⟩

/-- What came of writing: the bytes that were taken, the failure if there was one, and the sink behind it. -/
structure Outcome (σ : Type) where
  taken : Bytes
  failure : Option IoError
  state : σ

def Outcome.result (o : Outcome σ) : Except Error Unit :=
  match o.failure with
  | none => .ok ()
  | some e => .error (.io e)

/-- Offers a chunk until all of it was taken. -/
def writeAll (k : Sink σ) (bs : Bytes) (s : σ) : Outcome σ :=
  if _ : bs = [] then ⟨[], none, s⟩
  else
    match k.write bs s with
    | (.error e, s) => ⟨[], some e, s⟩
    | (.ok 0, s) => ⟨[], some takesNone, s⟩
    | (.ok (n + 1), s) =>
      let rest := k.writeAll (bs.drop (n + 1)) s
      { rest with taken := bs.take (n + 1) ++ rest.taken }
termination_by bs.length
decreasing_by
  rw [List.length_drop]
  exact Nat.sub_lt (List.length_pos_iff.mpr ‹_›) (Nat.succ_pos n)

/-- Writes chunk after chunk, up to the first failure. -/
def writeEach (k : Sink σ) : List Bytes → σ → Outcome σ
  | [], s => ⟨[], none, s⟩
  | c :: cs, s =>
    let first := k.writeAll c s
    match first.failure with
    | some _ => first
    | none =>
      let rest := k.writeEach cs first.state
      { rest with taken := first.taken ++ rest.taken }

/-- A sink that takes a chunk as a whole or not at all; its state is the room that is left. -/
def strict : Sink Nat where
  write bs n := if bs.length ≤ n then (.ok bs.length, n - bs.length) else (.error Format.sinkFull, n)
  room n := n
  taken_le {bs n n' k} wrote := by
    split at wrote <;> cases wrote
    omega
  fits {bs n} some fits := by
    obtain ⟨b, bs, rfl⟩ := List.exists_cons_of_ne_nil some
    exact ⟨_, _, if_pos fits⟩
  uninterrupted {bs n n' e} wrote := by
    split at wrote <;> cases wrote
    decide

end Sink

/-- Encodes into a sink. -/
def Format.encodeTo {α σ : Type} (f : Format α) (layout : Layout) (v : α) (k : Sink σ) (s : σ) : Sink.Outcome σ :=
  k.writeEach (f.chunks layout v) s

end DurableValue.Codec
