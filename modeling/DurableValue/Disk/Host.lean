/-
  DurableValue.Disk.Host — the file system of a host, as a process sees it.

  Making, moving and removing an entry work on its name; reading and opening go through links to what it names. Open
  files keep the bytes they were not yet given to write in a buffer of eight kilobytes, which a flush, a sync or a
  close hands over.
-/
import DurableValue.Disk.Host.Resolve

namespace DurableValue.Disk.Host

def read (h : Host) (p : Path) : Except IoError Bytes :=
  match h.find p with
  | .error e => .error e
  | .ok (_, .file i) => .ok (h.bytesOf i)
  | .ok _ => .error .isDirectory

def openAt (h : Host) (inode : Nat) : Nat × Host :=
  (h.fresh, { h with opened := (h.fresh, ⟨inode, 0, []⟩) :: h.opened, fresh := h.fresh + 1 })

/-- Opens a file for writing, empty. -/
def create (h : Host) (p : Path) : Except IoError Nat × Host :=
  match h.locate true p with
  | .error e => (.error e, h)
  | .ok (.entry _ (.file i)) =>
    let (handle, h) := (h.setBytes i []).openAt i
    (.ok handle, h)
  | .ok (.entry _ _) => (.error .isDirectory, h)
  | .ok (.vacant t) =>
    let i := h.fresh
    let (handle, h) := ({ h with fresh := i + 1 }.setNode t (.file i) |>.setBytes i []).openAt i
    (.ok handle, h)

/-- The bytes `old` with `bs` laid over it from `offset` on; a gap is filled with zeros. -/
def overlay (old : Bytes) (offset : Nat) (bs : Bytes) : Bytes :=
  let head := old.take offset
  head ++ List.replicate (offset - head.length) 0 ++ bs ++ old.drop (offset + bs.length)

/-- Hands the pending bytes of an open file over. -/
def flushed (h : Host) (handle : Nat) : Host :=
  match h.opened.lookup handle with
  | none => h
  | some f =>
    if f.pending.isEmpty then h
    else
      let h := h.setBytes f.inode (overlay (h.bytesOf f.inode) f.offset f.pending)
      let f := { f with offset := f.offset + f.pending.length, pending := [] }
      { h with opened := (handle, f) :: h.opened.filter (·.1 != handle) }

def setPending (h : Host) (handle : Nat) (bs : Bytes) : Host :=
  match h.opened.lookup handle with
  | none => h
  | some f => { h with opened := (handle, { f with pending := bs }) :: h.opened.filter (·.1 != handle) }

def bufferSize : Nat := 8192

/-- Takes the bytes into the buffer; what does not fit makes the buffer be handed over first. -/
def write (h : Host) (handle : Nat) (bs : Bytes) : Host :=
  match h.opened.lookup handle with
  | none => h
  | some f =>
    if f.pending.length + bs.length < bufferSize then h.setPending handle (f.pending ++ bs)
    else
      let fits := f.pending.length + bs.length ≤ bufferSize
      let h := if fits then h else h.flushed handle
      if bs.length ≥ bufferSize then (h.setPending handle bs).flushed handle
      else h.setPending handle ((if fits then f.pending else []) ++ bs)

def close (h : Host) (handle : Nat) : Host :=
  let h := h.flushed handle
  { h with opened := h.opened.filter (·.1 != handle) }

/-- Makes one directory; the one above it has to be there. -/
def makeDir (h : Host) (p : Path) : Except IoError Unit × Host :=
  match h.lastStep p with
  | .error e => (.error e, h)
  | .ok (.directory _) => (.error .entryExists, h)
  | .ok (.name dir n _) =>
    match h.look dir n with
    | .error e => (.error e, h)
    | .ok (some _) => (.error .entryExists, h)
    | .ok none => (.ok (), h.setNode (dir ++ [n]) .dir)

/-- Makes the directory at `p`, or, when one above it is missing, that one first; `depth` bounds the way up. -/
def makeDirs (h : Host) : (depth : Nat) → Path → Except IoError Unit × Host
  | 0, _ => (.error (.other "failed to create whole tree"), h)
  | depth + 1, p =>
    if p.components.isEmpty then (.ok (), h)
    else match h.makeDir p with
      | (.ok (), h) => (.ok (), h)
      | (.error e, h) =>
        if e.kind != .notFound then (if h.isDir p then .ok () else .error e, h)
        else match p.parent? with
          | none => (.error (.other "failed to create whole tree"), h)
          | some up =>
            match h.makeDirs depth up with
            | (.error e, h) => (.error e, h)
            | (.ok (), h) =>
              match h.makeDir p with
              | (.ok (), h) => (.ok (), h)
              | (.error e, h) => (if h.isDir p then .ok () else .error e, h)

def createDirAll (h : Host) (p : Path) : Except IoError Unit × Host :=
  match h.makeDirs (p.text.length + 1) p with
  | (.error e, h) => (.error e, h)
  | (.ok (), h) =>
    if h.isDir p then (.ok (), h) else (.error (.other ("Unable to create directory: " ++ p.text)), h)

/-- Moves an entry, and with a directory all that is below it. -/
def moveTree (h : Host) (source target : Trail) : Host :=
  { h with nodes := (h.nodes.filter fun e => !target.isPrefixOf e.1).map fun e =>
      if source.isPrefixOf e.1 then (target ++ e.1.drop source.length, e.2) else e }

/-- Puts the entry at `s` in the place of what `t` has, if anything. Between a directory and another entry nothing
moves, nor does a directory into itself or over one that is not empty. -/
def moveOnto (h : Host) (s : Trail) (n : Node) (t : Trail) (old : Option Node) : Except IoError Unit × Host :=
  if s = t then (.ok (), h)
  else if s.isPrefixOf t then (.error .invalidArgument, h)
  else if t.isPrefixOf s then (.error .notEmpty, h)
  else match old with
    | none => (.ok (), h.moveTree s t)
    | some m =>
      if n = .dir && m != .dir then (.error .notDirectory, h)
      else if n != .dir && m = .dir then (.error .isDirectory, h)
      else if n = .dir && !(h.below t).isEmpty then (.error .notEmpty, h)
      else (.ok (), h.moveTree s t)

/-- Both directories are reached before either name is looked at, and the source has to be there before the target's
name is. A slash behind either name asks for a directory as the source. -/
def rename (h : Host) (source target : Path) : Except IoError Unit × Host :=
  if hasNul source || hasNul target then (.error .nulInPath, h)
  else match h.lastStep source, h.lastStep target with
    | .error e, _ => (.error e, h)
    | _, .error e => (.error e, h)
    | .ok (.name dirS nameS slashS), .ok (.name dirT nameT slashT) =>
      match h.look dirS nameS, h.look dirT nameT with
      | .error e, _ => (.error e, h)
      | .ok none, _ => (.error .noEntry, h)
      | _, .error e => (.error e, h)
      | .ok (some n), .ok old =>
        if n != .dir && (slashS || slashT) then (.error .notDirectory, h)
        else h.moveOnto (dirS ++ [nameS]) n (dirT ++ [nameT]) old
    | .ok _, .ok _ => (.error .busy, h)

def removeFile (h : Host) (p : Path) : Except IoError Unit × Host :=
  match h.lastStep p with
  | .error e => (.error e, h)
  | .ok (.directory _) => (.error .isDirectory, h)
  | .ok (.name dir n slash) =>
    match h.look dir n with
    | .error e => (.error e, h)
    | .ok none => (.error .noEntry, h)
    | .ok (some .dir) => (.error .isDirectory, h)
    | .ok (some _) => if slash then (.error .notDirectory, h) else (.ok (), h.dropNode (dir ++ [n]))

def entryExists (h : Host) (p : Path) : Bool := (h.find p).toBool

def syncDir (h : Host) (p : Path) : Except IoError Unit := (h.find p).map fun _ => ()

/-- The directory of a path without links, then its name. A directory that is not there yet stays as it is spelled,
with `.` and `..` resolved. -/
def canonicalKey (h : Host) (p : Path) : Path :=
  let normal := p.place.path
  match normal.parent?, normal.fileName? with
  | some up, some name =>
    match h.canonical up with
    | .ok up => up.join ⟨name⟩
    | .error _ => normal
  | _, _ => normal

instance : FileSystem Host Nat where
  read h p := (h.read p, h)
  create := create
  append h handle bs := (.ok (), h.write handle bs)
  flush h handle := (.ok (), h.flushed handle)
  sync h handle := (.ok (), h.flushed handle)
  close := close
  createDirAll := createDirAll
  rename := rename
  removeFile := removeFile
  entryExists h p := (h.entryExists p, h)
  syncDir h p := (h.syncDir p, h)
  canonicalKey := canonicalKey

/-! ## Setting a scene -/

/-- Adds a directory and those above it. -/
def addDir (h : Host) (t : Trail) : Host :=
  (List.range t.length).foldl (fun h k =>
    let d := t.take (k + 1)
    if (h.node? d).isSome then h else h.setNode d .dir) h

/-- Stores a file, making the directories above it. A path that cannot be written is left alone. -/
def put (h : Host) (p : Path) (bs : Bytes) : Host :=
  let h := match p.parent? with
    | none => h
    | some up => (h.createDirAll up).2
  match h.create p with
  | (.error _, h) => h
  | (.ok handle, h) => (h.write handle bs).close handle

/-- Adds a symbolic link where there is no entry yet. -/
def addLink (h : Host) (p : Path) (target : String) : Host :=
  match h.lastStep p with
  | .ok (.name dir n false) =>
    match h.look dir n with
    | .ok none => h.setNode (dir ++ [n]) (.link target)
    | _ => h
  | _ => h

/-- Everything below a directory, by relative name: a directory ends in `/`, a link in `@`, a file has contents. -/
def listing (h : Host) (p : Path) : List (String × Option Bytes) :=
  match h.find p with
  | .ok (t, .dir) => (h.below t).map fun e =>
      let name := "/".intercalate e.1
      match e.2 with
      | .dir => (name ++ "/", none)
      | .link _ => (name ++ "@", none)
      | .file i => (name, some (h.bytesOf i))
  | _ => []

end DurableValue.Disk.Host
