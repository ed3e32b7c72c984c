/-
Module: SuperCalls.Tree
Purpose: A file system as a value: directories, files and symbolic links under their
  locations, and the way a path is followed through them.
Main exports: Entry, Tree, Tree.locate, Tree.calls, Tree.disk
-/
import SuperCalls.Glob.Search
import SuperCalls.Text.Utf8

namespace SuperCalls

/-- What stands at a location. -/
inductive Entry where
  | directory
  | file (bytes : List UInt8)
  | link (target : String)
deriving Repr, DecidableEq, Inhabited

/-- The kind of an entry. -/
def Entry.kind : Entry → NodeKind
  | directory => .directory
  | file _ => .file
  | link _ => .link

/-- The entries of a file system by location. -/
structure Tree where
  entries : List (Location × Entry)
deriving Repr, DecidableEq, Inhabited

namespace Tree

/-- The entry at a location; the root is always a directory. -/
def entry? (t : Tree) (location : Location) : Option Entry :=
  if location = [] then some .directory else t.entries.lookup location

/-- Put an entry at a location. -/
def put (t : Tree) (location : Location) (entry : Entry) : Tree :=
  if t.entries.any (·.1 == location) then
    ⟨t.entries.map fun (l, e) => if l == location then (l, entry) else (l, e)⟩
  else ⟨t.entries ++ [(location, entry)]⟩

/-- The names in a directory and what they stand for. -/
def children (t : Tree) (location : Location) : List (String × Entry) :=
  t.entries.filterMap fun (l, entry) =>
    match l.getLast? with
    | some name => if l.dropLast == location then some (name, entry) else none
    | none => none

/-!
### Following a path

A path is followed name by name, from a directory each time.  A symbolic link stands for the
path it holds, read from the directory it stands in; forty links may be followed on one path.
The last name may stand for nothing, which matters to those who want to create it.  A slash at
the end asks for a directory.
-/

/-- What a path is followed for. -/
inductive Aim where
  /-- What it leads to. -/
  | target
  /-- What its last name stands for. -/
  | name
  /-- A file to be written, new or not. -/
  | creation
deriving Repr, DecidableEq

/-- Where a path ends, and what is there. -/
structure Spot where
  location : Location
  entry : Option Entry
deriving Repr, DecidableEq

/-- The greatest number of bytes in a name. -/
def nameLimit : Nat := 255

/-- The greatest number of bytes in a path. -/
def pathLimit : Nat := 4095

/-- The greatest number of links on a path. -/
def linkLimit : Nat := 40

/-- Follow the names of a path from a directory; `jump` goes on behind a link. -/
def follow (t : Tree) (aim : Aim) (jump : Location → List String → Except DiskFault Spot) :
    Location → List String → Except DiskFault Spot
  | here, [] => .ok ⟨here, some .directory⟩
  | here, name :: rest =>
      if name = "" || name = "." then follow t aim jump here rest
      else if name = ".." then follow t aim jump here.parent rest
      else if aim == .creation && !rest.isEmpty && rest.all (· == "") then .error .isDirectory
      else if nameLimit < name.utf8ByteSize then .error .nameTooLong
      else
        let there := here ++ [name]
        match t.entry? there with
        | none => if rest.all (· == "") then .ok ⟨there, none⟩ else .error .notFound
        | some .directory => follow t aim jump there rest
        | some (.file bytes) =>
            if rest.isEmpty then .ok ⟨there, some (.file bytes)⟩ else .error .notDirectory
        | some (.link target) =>
            if rest.isEmpty && aim == .name then .ok ⟨there, some (.link target)⟩
            else jump (if isAbsolute target then [] else here) (segments target ++ rest)

/-- Follow the names of a path, and at most a number of links. -/
def followWithin (t : Tree) (aim : Aim) : Nat → Location → List String → Except DiskFault Spot
  | 0 => follow t aim fun _ _ => .error .tooManyLinks
  | links + 1 => follow t aim (followWithin t aim links)

/-- Where an absolute path ends. -/
def locate (t : Tree) (aim : Aim) (path : String) : Except DiskFault Spot :=
  if path = "" then .error .notFound
  else if pathLimit < path.utf8ByteSize then .error .nameTooLong
  else followWithin t aim linkLimit [] (segments path)

/-!
### Calls
-/

/-- Make a call on a path, unless the path holds a null character. -/
def attempt {α : Type} (call : DiskCall) (path : String) (act : Except DiskFault α) :
    Except DiskError α :=
  if path.toList.contains (Char.ofNat 0) then .error (.nullCharacter path)
  else
    match act with
    | .ok value => .ok value
    | .error fault => .error (.refused fault call (some path))

/-- What is at the end of a path. -/
def present (spot : Spot) : Except DiskFault Entry :=
  match spot.entry with
  | some entry => .ok entry
  | none => .error .notFound

/-- What a path leads to. -/
def stat (t : Tree) (path : String) : Except DiskError NodeKind :=
  attempt .stat path do
    let spot ← t.locate .target path
    return (← present spot).kind

/-- What the last name of a path stands for. -/
def lstat (t : Tree) (path : String) : Except DiskError NodeKind :=
  attempt .lstat path do
    let spot ← t.locate .name path
    return (← present spot).kind

/-- The names in a directory. -/
def list (t : Tree) (path : String) : Except DiskError (List (String × NodeKind)) :=
  attempt .scandir path do
    let spot ← t.locate .target path
    match ← present spot with
    | .directory => return (t.children spot.location).map fun (name, entry) => (name, entry.kind)
    | _ => throw .notDirectory

/-- The bytes of a file.  A directory can be opened, but not read. -/
def read (t : Tree) (path : String) : Except DiskError (List UInt8) := do
  let entry ← attempt .openFile path do
    let spot ← t.locate .target path
    present spot
  match entry with
  | .file bytes => return bytes
  | _ => throw (.refused .isDirectory .read none)

/-- The tree after a file was written. -/
def write (t : Tree) (path : String) (bytes : List UInt8) : Except DiskError Tree :=
  attempt .openFile path do
    let spot ← t.locate .creation path
    match spot.entry with
    | some .directory => throw .isDirectory
    | _ => return t.put spot.location (.file bytes)

/-- The tree as a file system that programs change. -/
def calls : Calls (StateM Tree) where
  stat path t := (t.stat path, t)
  lstat path t := (t.lstat path, t)
  list path t := (t.list path, t)
  read path t := (t.read path, t)
  write path bytes t :=
    match t.write path bytes with
    | .ok t => (.ok (), t)
    | .error error => (.error error, t)

/-- The tree as a file system that is searched. -/
def disk : Disk (StateM Tree) :=
  Glob.disk calls

end Tree

end SuperCalls
