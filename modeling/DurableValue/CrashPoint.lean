/-
  DurableValue.CrashPoint — the named moments at which a process can be told to stop dead, for tests of durability.

  Four lie inside a store's write and two in a cell's initialization. The environment names at most one of them, by
  its exact text.
-/

namespace DurableValue

inductive CrashPoint where
  | beforeScratchWrite
  | afterScratchSync
  | beforeRename
  | afterRename
  | afterRecoveryCommit
  | afterMigrationCommit
  deriving DecidableEq, Repr

namespace CrashPoint

def all : List CrashPoint :=
  [.beforeScratchWrite, .afterScratchSync, .beforeRename, .afterRename, .afterRecoveryCommit, .afterMigrationCommit]

def name : CrashPoint → String
  | beforeScratchWrite => "store_before_scratch_write"
  | afterScratchSync => "store_after_scratch_fsync"
  | beforeRename => "store_before_rename"
  | afterRename => "store_after_rename"
  | afterRecoveryCommit => "init_after_corruption_commit"
  | afterMigrationCommit => "init_after_migration_commit"

/-- The environment variable that arms a crash point. -/
def settingVariable : String := "DURABLE_CELL_CRASH_POINT"

/-- Whether the environment's setting arms this point. -/
def isArmed (p : CrashPoint) (setting : Option String) : Bool := setting = some p.name

/-- What the process says as it stops. -/
def notice (p : CrashPoint) : String := "[CRASH] Triggering crash at point: " ++ p.name ++ "\n"

end CrashPoint

end DurableValue
