/-
  DurableValue.Disk.IoError — why a file operation failed: a kind, which decides what the caller does, and a text for
  people.
-/

namespace DurableValue.Disk

inductive IoError.Kind where
  | notFound
  | permissionDenied
  | connectionRefused
  | connectionReset
  | connectionAborted
  | notConnected
  | addressInUse
  | addressNotAvailable
  | brokenPipe
  | alreadyExists
  | wouldBlock
  | notADirectory
  | isADirectory
  | directoryNotEmpty
  | readOnlyFileSystem
  | tooManyLinks
  | linkLoop
  | invalidInput
  | invalidData
  | timedOut
  | writeZero
  | storageFull
  | quotaExceeded
  | fileTooLarge
  | resourceBusy
  | invalidFileName
  | interrupted
  | unsupported
  | unexpectedEnd
  | outOfMemory
  | other
  deriving DecidableEq, Repr, Inhabited

structure IoError where
  kind : IoError.Kind
  message : String
  deriving DecidableEq, Repr, Inhabited

namespace IoError

def notFound (message : String) : IoError := ⟨.notFound, message⟩

def other (message : String) : IoError := ⟨.other, message⟩

/-- The failure of reading bytes as text. -/
def notText : IoError := ⟨.invalidData, "stream did not contain valid UTF-8"⟩

/-- A refusal of the host, with the number its system calls give it. -/
def host (kind : Kind) (reason : String) (number : Nat) : IoError :=
  ⟨kind, reason ++ " (os error " ++ toString number ++ ")"⟩

def noEntry : IoError := host .notFound "No such file or directory" 2

def busy : IoError := host .resourceBusy "Device or resource busy" 16

def entryExists : IoError := host .alreadyExists "File exists" 17

def notDirectory : IoError := host .notADirectory "Not a directory" 20

def isDirectory : IoError := host .isADirectory "Is a directory" 21

def invalidArgument : IoError := host .invalidInput "Invalid argument" 22

def nameTooLong : IoError := host .invalidFileName "File name too long" 36

def notEmpty : IoError := host .directoryNotEmpty "Directory not empty" 39

def tooManySymlinks : IoError := host .linkLoop "Too many levels of symbolic links" 40

/-- A path that no system call can be given. -/
def nulInPath : IoError := ⟨.invalidInput, "file name contained an unexpected NUL byte"⟩

end IoError

end DurableValue.Disk
