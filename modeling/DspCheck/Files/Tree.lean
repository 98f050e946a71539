import DspCheck.Files.Access
import DspCheck.OrderedMap

/-!
# Trees of files

A tree holds files and directories, each under its place seen from the working directory.  The
working directory, those above it and the root are always there, and so is the null device, a file
that is empty whatever is written to it.

* `locate` walks along the names of a path.  Each name but the last one has to be that of a
  directory.
* `find`, `read`, `createDirectory` and `write` are the accesses to what is there, each with the
  reasons for which a file system refuses it.
-/

namespace DspCheck

/-- What a path leads to. -/
inductive FileNode
  | file (bytes : ByteArray)
  | directory
  /-- A device that takes all that is written to it, and from which nothing is read. -/
  | device

/-- The files and directories below the working directory by their paths. -/
abbrev FileTree := OrderedMap Path FileNode

namespace FileTree

/-- The directory of the devices. -/
def devices : Path :=
  [Path.root, .ofText "dev"]

/-- The place of the null device. -/
def nullDevice : Path :=
  devices ++ [.ofText "null"]

/-- What is found at a place of every tree. -/
def standing? (p : Path) : Option FileNode :=
  if Path.isBase p || p = devices then some .directory
  else if p = nullDevice then some .device
  else none

/-- What is found at a place. -/
def node? (t : FileTree) (p : Path) : Option FileNode :=
  (standing? p).or (t.get? p)

/-- The greatest number of bytes of a name. -/
def maxNameSize : Nat := 255

/-- The number of bytes that no path reaches. -/
def pathSizeLimit : Nat := 4096

/-- The place that a name leads to from another place, which has to be a directory.  There may be
nothing at the new place. -/
def enter (t : FileTree) (here : Path) (name : Text) : Except FileError Path :=
  match t.node? here with
  | none => .error .notFound
  | some .directory =>
      if Path.isStill name then .ok here
      else if name = Path.back then .ok (Path.above here)
      else if maxNameSize < Text.byteSize name then .error .nameTooLong
      else .ok (here ++ [.ofText name])
  | some _ => .error .notDirectory

/-- A path that a file system looks up at all. -/
def checked (p : Text) : Except FileError Text :=
  if p.any (· = Char.ofNat 0) then .error .nulInName
  else if p = [] then .error .notFound
  else if pathSizeLimit ≤ Text.byteSize p then .error .nameTooLong
  else .ok p

/-- The place that names of a path lead to. -/
def locateNames (t : FileTree) (p : Text) (names : List Text) : Except FileError Path := do
  names.foldlM t.enter (Path.start (← checked p))

/-- The place of a path in the tree. -/
def locate (t : FileTree) (p : Text) : Except FileError Path :=
  t.locateNames p (Path.names p)

/-- What a path leads to. -/
def find (t : FileTree) (p : Text) : Except FileError FileNode := do
  match t.node? (← t.locate p) with
  | none => .error .notFound
  | some n => .ok n

/-- The bytes of a file. -/
def read (t : FileTree) (p : Text) : Except FileError ByteArray := do
  match ← t.find p with
  | .file bytes => .ok bytes
  | .directory => .error .isDirectory
  | .device => .ok .empty

/-- Whether a path leads to something. -/
def isPresent (t : FileTree) (p : Text) : Bool :=
  (t.find p).toBool

/-- Whether a path leads to a directory. -/
def isDirectory (t : FileTree) (p : Text) : Bool :=
  match t.find p with
  | .ok .directory => true
  | _ => false

/-- Creating a directory in another one that is there.  Slashes at the end of its path do not
count. -/
def createDirectory (t : FileTree) (p : Text) : Except FileError FileTree := do
  let place ← t.locateNames p (Path.namesBeforeSlashes p)
  if (t.node? place).isSome then .error .alreadyExists else .ok (t.insert place .directory)

/-- Replacing the bytes of a file, or creating it in a directory that is there.  A path with a slash
at its end is refused when its last name is due. -/
def write (t : FileTree) (p : Text) (bytes : ByteArray) : Except FileError FileTree := do
  if Path.endsWithSlash p then
    let _ ← t.locateNames p ((Path.namesBeforeSlashes p).dropLast ++ [[]])
    .error .isDirectory
  else
    let place ← t.locate p
    match t.node? place with
    | some .directory => .error .isDirectory
    | some .device => .ok t
    | _ => .ok (t.insert place (.file bytes))

/-- The file that an entry of the tree is, seen from a directory. -/
def entryBelow? (directory : Path) (e : Path × FileNode) : Option FoundFile :=
  match Path.below? directory e.1, e.2 with
  | some path, .file bytes =>
      if Path.isBase (path.take 1) || (standing? e.1).isSome then none
      else some ⟨path, .ok bytes⟩
  | _, _ => none

/-- All files below a directory in the order of their paths. -/
def filesBelow (t : FileTree) (p : Text) : List FoundFile :=
  match t.locate p with
  | .error _ => []
  | .ok directory =>
      (t.entries.filterMap (entryBelow? directory)).mergeSort fun a b => a.path.le b.path

/-- A change of the tree that may fail, as an action. -/
def change (f : FileTree → Except FileError FileTree) : StateM FileTree (Except FileError Unit) :=
  fun t =>
    match f t with
    | .ok u => (.ok (), u)
    | .error e => (.error e, t)

/-- Access to a tree of files by a program with a given input and a directory for its
configuration. -/
def access (configHome? : Option Text) (input : ByteArray) : FileAccess (StateM FileTree) where
  read p := return (← get).read p
  isPresent p := return (← get).isPresent p
  isDirectory p := return (← get).isDirectory p
  filesBelow p := return (← get).filesBelow p
  createDirectory p := change (·.createDirectory p)
  write p bytes := change (·.write p bytes)
  print _ := return .ok ()
  input := return .ok input
  configHome?

end FileTree
end DspCheck
