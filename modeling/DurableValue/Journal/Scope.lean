/-
  DurableValue.Journal.Scope — a scope brackets a unit of work with two lines.

  Opening notes `NAME_BEGIN`; closing notes `NAME_COMPLETE` or `NAME_FAILED`, and a scope that is left open when the
  work is abandoned notes `NAME_INCOMPLETE`. The closing line repeats the opening fields, then the time passed, then
  its own.
-/
import DurableValue.Journal.Basic

namespace DurableValue.Journal

structure Scope where
  name : String
  fields : List Field
  deriving DecidableEq, Repr

/-- How a scope ends. -/
inductive Scope.Ending where
  | complete (extra : List Field)
  | fail (reason : String)
  | failFatal (reason : String)
  | abandoned
  deriving DecidableEq, Repr

namespace Scope

def opening (s : Scope) (j : Journal) : Journal := j.note .info (s.name ++ "_BEGIN") s.fields

/-- The closing line; `elapsed` is the time in milliseconds since the scope was opened. -/
def closing (s : Scope) (elapsed : String) : Ending → Line
  | .complete extra => ⟨.info, s.name ++ "_COMPLETE", s.fields ++ ("elapsed_ms", elapsed) :: extra⟩
  | .fail reason => ⟨.error, s.name ++ "_FAILED", s.fields ++ [("elapsed_ms", elapsed), ("reason", reason)]⟩
  | .failFatal reason => ⟨.fatal, s.name ++ "_FAILED", s.fields ++ [("elapsed_ms", elapsed), ("reason", reason)]⟩
  | .abandoned =>
    ⟨.warn, s.name ++ "_INCOMPLETE",
      s.fields ++ [("elapsed_ms", elapsed), ("reason", "scope dropped without completion")]⟩

def close (s : Scope) (elapsed : String) (e : Ending) (j : Journal) : Journal := j.add (s.closing elapsed e)

end Scope

end DurableValue.Journal
