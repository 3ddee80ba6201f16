/-
  DurableValue.Path — slash-separated paths.

  A path keeps the text it was written with, and two views of it decide everything else. `components` ignores repeated
  slashes, a trailing slash and every `.` but a leading one; two paths with the same components are the same entry of
  a registry. `place` also resolves `.` and `..` by their text alone (`..` at the root stays there), which is how an
  in-memory tree names its files; `normalize` does it on the text, one component after the other.
-/

namespace DurableValue

structure Path where
  text : String
  deriving DecidableEq, Repr, Inhabited

/-- One step of a path. The order is that of the listing of paths: the root first, names last and by their text. -/
inductive Path.Component where
  | root
  | here
  | up
  | name (text : String)
  deriving DecidableEq, Repr

/-- A path with `.` and `..` resolved: the names from the root, or from an unnamed start. -/
structure Place where
  rooted : Bool
  names : List String
  deriving DecidableEq, Repr, Inhabited

namespace Path

/-- The texts between slashes, empty ones included. -/
def pieces : List Char → List (List Char)
  | [] => [[]]
  | c :: cs =>
    if c = '/' then [] :: pieces cs
    else match pieces cs with
      | [] => [[c]]
      | p :: ps => (c :: p) :: ps

def isAbsolute (p : Path) : Bool := p.text.toList.head? = some '/'

/-- A piece that names no step when it stands behind another one. -/
def isIdle (piece : List Char) : Bool := piece = [] || piece = ['.']

def Component.ofPiece? (piece : List Char) : Option Component :=
  if isIdle piece then none
  else if piece = ['.', '.'] then some .up
  else some (.name (.ofList piece))

def components (p : Path) : List Component :=
  match p.text.toList with
  | '/' :: cs => .root :: (pieces cs).filterMap Component.ofPiece?
  | cs =>
    match pieces cs with
    | ['.'] :: ps => .here :: ps.filterMap Component.ofPiece?
    | ps => ps.filterMap Component.ofPiece?

def fileName? (p : Path) : Option String :=
  match p.components.getLast? with
  | some (.name n) => some n
  | _ => none

/-- Pieces without the idle ones at the end. -/
def trimIdle (ps : List (List Char)) : List (List Char) := (ps.reverse.dropWhile isIdle).reverse

def joinPieces (ps : List (List Char)) : List Char := ['/'].intercalate ps

/-- The text before the last component, with no separator left at its end. -/
def parent? (p : Path) : Option Path :=
  match p.text.toList with
  | '/' :: cs =>
    match trimIdle (pieces cs) with
    | [] => none
    | ps => some ⟨.ofList ('/' :: joinPieces (trimIdle ps.dropLast))⟩
  | cs =>
    match pieces cs with
    | ['.'] :: ps =>
      match trimIdle ps with
      | [] => some ⟨""⟩
      | ps => some ⟨.ofList (joinPieces (['.'] :: trimIdle ps.dropLast))⟩
    | ps =>
      match trimIdle ps with
      | [] => none
      | ps => some ⟨.ofList (joinPieces (trimIdle ps.dropLast))⟩

/-- The path `q` read from inside `p`: an absolute `q` stands alone, any other is put behind one slash. -/
def join (p q : Path) : Path :=
  if q.isAbsolute then q
  else if p.text = "" ∨ p.text.toList.getLast? = some '/' then ⟨p.text ++ q.text⟩
  else ⟨p.text ++ "/" ++ q.text⟩

/-- The path whose text is longer by `suffix`. -/
def withSuffix (p : Path) (suffix : String) : Path := ⟨p.text ++ suffix⟩

/-- The path without its last component; one that has nothing above it stays. -/
def pop (p : Path) : Path := p.parent?.getD p

/-- Takes a component behind the ones a path is built of; `.` adds nothing, and `..` takes the last one back. -/
def advance (p : Path) : Component → Path
  | .root => p.join ⟨"/"⟩
  | .here => p
  | .up => p.pop
  | .name n => p.join ⟨n⟩

/-- The path built anew from its components. -/
def normalize (p : Path) : Path := p.components.foldl advance ⟨""⟩

/-- Whether two paths have the same steps, whatever the text between them. -/
def Same (p q : Path) : Prop := p.components = q.components

instance (p q : Path) : Decidable (p.Same q) := inferInstanceAs (Decidable (_ = _))

end Path

namespace Place

def start : Place := ⟨false, []⟩

/-- Takes one step of a path; `..` goes back one name, and at the start it stays. -/
def follow (here : Place) : Path.Component → Place
  | .root => ⟨true, []⟩
  | .here => here
  | .up => { here with names := here.names.dropLast }
  | .name n => { here with names := here.names ++ [n] }

def path (p : Place) : Path := ⟨(if p.rooted then "/" else "") ++ "/".intercalate p.names⟩

/-- A place with no name: the root, or the unnamed start of a relative path. -/
def isTop (p : Place) : Bool := p.names.isEmpty

def parent? (p : Place) : Option Place :=
  if p.isTop then none else some { p with names := p.names.dropLast }

/-- The place itself and those above it, nearest first, without the top. -/
def ancestors (p : Place) : List Place :=
  (List.range p.names.length).map fun k => { p with names := p.names.take (p.names.length - k) }

/-- The order of listings, step by step: nothing comes before a root, and a root before a name. -/
def le (p q : Place) : Bool :=
  if p.rooted = q.rooted then !q.names.lex p.names
  else if p.rooted then !q.isTop
  else p.isTop

end Place

/-- The place a path names when `.` and `..` are resolved by their text. -/
def Path.place (p : Path) : Place := p.components.foldl Place.follow .start

end DurableValue
