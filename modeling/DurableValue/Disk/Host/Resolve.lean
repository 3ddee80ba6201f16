/-
  DurableValue.Disk.Host.Resolve — where a path leads on a host.

  A path is walked link by link, at most forty of them, every step through a directory. An operation on an entry
  itself stops at the last name (`approach`); one on what is found there goes on through a link (`resolve`).
-/
import DurableValue.Disk.Host.Tree

namespace DurableValue.Disk.Host

def stepsOf (text : String) : List String :=
  ((Path.pieces text.toList).filter (!·.isEmpty)).map String.ofList

def endsInSlash (text : String) : Bool := text.endsWith "/"

def nameLimit : Nat := 255

def pathLimit : Nat := 4096

def linkLimit : Nat := 40

/-- The last step of a path: what an operation on an entry itself works on. -/
inductive LastStep where
  /-- A name in a directory, whether an entry has it or not, and whether a slash stands behind it. -/
  | name (dir : Trail) (name : String) (slash : Bool)
  /-- A directory reached without naming it: the path ends in `.` or `..`, or has no step at all. -/
  | directory (trail : Trail)
  deriving DecidableEq, Repr

/-- The directory that the text of a path or of a link starts from, when read in `here`. -/
def startOf (here : Trail) (text : String) : Trail := if text.startsWith "/" then [] else here

/-- Walks from `here` to the last step. Every step before it is through a directory, and the links among them are
followed: `links` more at most, and the answer says how many are left. -/
def approach (h : Host) (links : Nat) (here : Trail) (slash : Bool) :
    List String → Except IoError (LastStep × Nat)
  | [] => .ok (.directory here, links)
  | n :: rest =>
    if n = "." then h.approach links here slash rest
    else if n = ".." then h.approach links here.dropLast slash rest
    else if rest.isEmpty then .ok (.name here n slash, links)
    else if n.utf8ByteSize > nameLimit then .error .nameTooLong
    else match h.node? (here ++ [n]) with
      | none => .error .noEntry
      | some .dir => h.approach links (here ++ [n]) slash rest
      | some (.file _) => .error .notDirectory
      | some (.link target) =>
        match links with
        | 0 => .error .tooManySymlinks
        | links + 1 => h.approach links (startOf here target) slash (stepsOf target ++ rest)
termination_by steps => (links, steps.length)

theorem approach_links_le {h : Host} {links : Nat} {here : Trail} {slash : Bool} {steps : List String}
    {last : LastStep} {left : Nat} (e : h.approach links here slash steps = .ok (last, left)) : left ≤ links := by
  fun_induction approach h links here slash steps
  case case1 | case4 => cases e; exact Nat.le_refl _
  case case2 ih | case3 ih | case7 ih => exact ih e
  case case5 | case6 | case8 | case9 => cases e
  case case10 ih => exact Nat.le_succ_of_le (ih e)

/-- The entry that a directory has under a name. -/
def look (h : Host) (dir : Trail) (n : String) : Except IoError (Option Node) :=
  if n.utf8ByteSize > nameLimit then .error .nameTooLong else .ok (h.node? (dir ++ [n]))

/-- Where a path leads: to an entry, or to a free name in a directory. -/
inductive Found where
  | entry (trail : Trail) (node : Node)
  | vacant (trail : Trail)
  deriving DecidableEq, Repr

/-- Walks to the end, through a link in the last step too. A slash behind the last name, be it in the path or in the
link that leads there, asks for a directory; where a file may be made, it is refused before the name is looked at. -/
def resolve (h : Host) (making : Bool) (links : Nat) (here : Trail) (slash : Bool) (steps : List String) :
    Except IoError Found :=
  match _reached : h.approach links here slash steps with
  | .error cause => .error cause
  | .ok (.directory t, _) => .ok (.entry t .dir)
  | .ok (.name dir n slash, left) =>
    if making && slash then .error .isDirectory
    else match h.look dir n with
      | .error e => .error e
      | .ok none => .ok (.vacant (dir ++ [n]))
      | .ok (some (.link target)) =>
        match left with
        | 0 => .error .tooManySymlinks
        | left + 1 =>
          h.resolve making left (startOf dir target) (slash || endsInSlash target) (stepsOf target)
      | .ok (some node) => if slash && node != .dir then .error .notDirectory else .ok (.entry (dir ++ [n]) node)
termination_by links
decreasing_by exact approach_links_le _reached

def hasNul (p : Path) : Bool := p.text.toList.contains '\x00'

/-- Refuses what no path can be: a text with NUL in it, an empty one, one that is too long. -/
def checkText (p : Path) : Except IoError Unit :=
  if hasNul p then .error .nulInPath
  else if p.text.isEmpty then .error .noEntry
  else if p.text.utf8ByteSize ≥ pathLimit then .error .nameTooLong
  else .ok ()

def lastStep (h : Host) (p : Path) : Except IoError LastStep := do
  checkText p
  let (last, _) ← h.approach linkLimit (startOf h.here p.text) (endsInSlash p.text) (stepsOf p.text)
  return last

def locate (h : Host) (making : Bool) (p : Path) : Except IoError Found := do
  checkText p
  h.resolve making linkLimit (startOf h.here p.text) (endsInSlash p.text) (stepsOf p.text)

/-- An existing entry, links followed. -/
def find (h : Host) (p : Path) : Except IoError (Trail × Node) :=
  match h.locate false p with
  | .error e => .error e
  | .ok (.vacant _) => .error .noEntry
  | .ok (.entry t n) => .ok (t, n)

def isDir (h : Host) (p : Path) : Bool :=
  match h.find p with
  | .ok (_, .dir) => true
  | _ => false

def rendered (t : Trail) : Path := Place.path ⟨true, t⟩

/-- The path of an existing entry with no link, `.` or `..` in it. -/
def canonical (h : Host) (p : Path) : Except IoError Path := (h.find p).map fun f => rendered f.1

end DurableValue.Disk.Host
