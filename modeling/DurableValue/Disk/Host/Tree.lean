/-
  DurableValue.Disk.Host.Tree — the tree of a host: directories, files and symbolic links, and the files that are
  open.

  Entries are stored under the names on the way from the root, with no link among them. A file is a number, so that an
  open one survives its name.
-/
import DurableValue.Disk.FileSystem

namespace DurableValue.Disk

/-- The names from the root to an entry. -/
abbrev Trail := List String

inductive Host.Node where
  | dir
  | file (inode : Nat)
  | link (target : String)
  deriving DecidableEq, Repr

/-- A file opened for writing: where the next byte goes, and the bytes not handed over yet. -/
structure Host.OpenFile where
  inode : Nat
  offset : Nat
  pending : Bytes
  deriving DecidableEq, Repr

structure Host where
  /-- Every entry but the root. -/
  nodes : List (Trail × Host.Node) := []
  inodes : List (Nat × Bytes) := []
  opened : List (Nat × Host.OpenFile) := []
  /-- No inode and no handle has this number or a larger one. -/
  fresh : Nat := 0
  /-- Where relative paths start. -/
  here : Trail := []
  deriving DecidableEq, Repr, Inhabited

namespace Host

def node? (h : Host) (t : Trail) : Option Node := if t.isEmpty then some .dir else h.nodes.lookup t

def setNode (h : Host) (t : Trail) (n : Node) : Host :=
  { h with nodes := (t, n) :: h.nodes.filter (·.1 != t) }

def dropNode (h : Host) (t : Trail) : Host := { h with nodes := h.nodes.filter (·.1 != t) }

def bytesOf (h : Host) (inode : Nat) : Bytes := (h.inodes.lookup inode).getD []

def setBytes (h : Host) (inode : Nat) (bs : Bytes) : Host :=
  { h with inodes := (inode, bs) :: h.inodes.filter (·.1 != inode) }

/-- The entries below `t`, with the names from there. -/
def below (h : Host) (t : Trail) : List (Trail × Node) :=
  h.nodes.filterMap fun e =>
    if t.isPrefixOf e.1 && t.length < e.1.length then some (e.1.drop t.length, e.2) else none

end Host

end DurableValue.Disk
