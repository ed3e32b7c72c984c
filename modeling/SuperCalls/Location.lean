/-
Module: SuperCalls.Location
Purpose: Places in a file system.  A location is the list of names on the way from the root;
  a path is a text that leads to a location from another one, with `.` for staying, `..` for
  going back, and empty names for nothing.  Paths are read by their text alone, without a look
  at any file.
Main exports: Location, segments, isAbsolute, slashed, Location.resolve, Location.text,
  Location.relative, isWithin
-/

namespace SuperCalls

/-- A place in a file system: the names on the way from the root. -/
abbrev Location := List String

/-- Cut a text at every slash; the name being read is kept in reverse. -/
def cutAtSlashes (name : List Char) : List Char → List (List Char)
  | [] => [name.reverse]
  | c :: rest =>
      if c = '/' then name.reverse :: cutAtSlashes [] rest else cutAtSlashes (c :: name) rest

/-- The names between the slashes of a path, empty ones included. -/
def segments (path : String) : List String :=
  (cutAtSlashes [] path.toList).map String.ofList

/-- Whether a path starts from the root. -/
def isAbsolute (path : String) : Bool :=
  path.toList.head? == some '/'

/-- A path with slashes in place of its backslashes. -/
def slashed (path : String) : String :=
  String.ofList (path.toList.map fun c => if c = '\\' then '/' else c)

namespace Location

/-- Go on by one name. -/
def step (location : Location) (name : String) : Location :=
  if name = "" || name = "." then location
  else if name = ".." then location.dropLast
  else location ++ [name]

theorem step_of_blank (location : Location) {name : String} (still : name = "" ∨ name = ".") :
    location.step name = location :=
  if_pos (by simpa using still)

theorem step_of_moves (location : Location) {name : String} (moves : ¬ (name = "" ∨ name = "."))
    (forth : name ≠ "..") : location.step name = location ++ [name] := by
  unfold step
  rw [if_neg (by simpa using moves), if_neg forth]

theorem step_back (location : Location) (name : String) : step (location ++ [name]) ".." = location :=
  List.dropLast_concat

/-- The location that a path leads to. -/
def resolve (base : Location) (path : String) : Location :=
  (segments path).foldl step (if isAbsolute path then [] else base)

/-- The directory that holds a location. -/
def parent (location : Location) : Location :=
  location.dropLast

/-- The absolute path of a location. -/
def text (location : Location) : String :=
  "/" ++ "/".intercalate location

/-- The names of the second location that are left, and the number of names of the first one,
behind the names that both begin with. -/
def branch : Location → Location → Nat × Location
  | a :: source, b :: target => if a = b then branch source target else (source.length + 1, b :: target)
  | source, target => (source.length, target)

/-- The path that leads from the first location to the second. -/
def relative (source target : Location) : String :=
  let (back, rest) := branch source target
  "/".intercalate (List.replicate back ".." ++ rest)

end Location

/-- Whether the second location is the first one or lies below it: the path between them does
not begin by going back.  A name that merely starts with two dots does not go back. -/
def isWithin (base target : Location) : Bool :=
  let path := base.relative target
  !(path == ".." || "../".toList.isPrefixOf path.toList || isAbsolute path)

end SuperCalls
