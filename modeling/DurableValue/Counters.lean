/-
  DurableValue.Counters — the counters of one cell.

  All but `subscribersLive` only grow, and all wrap at 2^64.
-/

namespace DurableValue

structure Counters where
  commits : UInt64 := 0
  bytesWritten : UInt64 := 0
  transformFailures : UInt64 := 0
  updatesCancelled : UInt64 := 0
  updatesUnchanged : UInt64 := 0
  corruptionRecoveries : UInt64 := 0
  migrationsApplied : UInt64 := 0
  subscribersAttached : UInt64 := 0
  subscribersLive : UInt64 := 0
  deriving DecidableEq, Repr, Inhabited

namespace Counters

def recordCommit (c : Counters) (bytes : Nat) : Counters :=
  { c with commits := c.commits + 1, bytesWritten := c.bytesWritten + .ofNat bytes }

def recordTransformFailure (c : Counters) : Counters := { c with transformFailures := c.transformFailures + 1 }

def recordCancelled (c : Counters) : Counters := { c with updatesCancelled := c.updatesCancelled + 1 }

def recordUnchanged (c : Counters) : Counters := { c with updatesUnchanged := c.updatesUnchanged + 1 }

def recordRecovery (c : Counters) : Counters := { c with corruptionRecoveries := c.corruptionRecoveries + 1 }

def recordMigrations (c : Counters) (n : Nat) : Counters :=
  { c with migrationsApplied := c.migrationsApplied + .ofNat n }

def recordSubscriber (c : Counters) : Counters := { c with subscribersAttached := c.subscribersAttached + 1 }

/-- The one gauge: set, not added to. -/
def setLive (c : Counters) (n : Nat) : Counters := { c with subscribersLive := .ofNat n }

/-- Every counter under its name, in the order of a report. -/
def named (c : Counters) : List (String × UInt64) :=
  [("commits", c.commits), ("bytes_written", c.bytesWritten), ("transform_failures", c.transformFailures),
    ("updates_cancelled", c.updatesCancelled), ("updates_unchanged", c.updatesUnchanged),
    ("corruption_recoveries", c.corruptionRecoveries), ("migrations_applied", c.migrationsApplied),
    ("subscribers_attached", c.subscribersAttached), ("subscribers_live", c.subscribersLive)]

/-- The report as one JSON object of numbers. -/
def report (c : Counters) : String :=
  "\x7b" ++ ",".intercalate (c.named.map fun m => "\"" ++ m.1 ++ "\":" ++ toString m.2.toNat) ++ "\x7d"

end Counters

end DurableValue
