/-
Module: SuperCalls.Glob.Matcher
Purpose: Deciding with patterns: which files are found, and which directories are worth
  reading.
Main exports: FileMatcher, FileMatcher.finds, DirectoryMatcher, DirectoryMatcher.enters
-/
import SuperCalls.Failure
import SuperCalls.Glob.Compile
import SuperCalls.Glob.Magic
import SuperCalls.Glob.Parts
import SuperCalls.Location

namespace SuperCalls.Glob

/-- A pattern ready for use; one whose expression cannot be read finds nothing. -/
abbrev Found := Option Regex

/-- Whether a pattern finds a path. -/
def Found.matches (found : Found) (path : List Nat) : Bool :=
  found.any (·.occursIn path)

/-- Make patterns ready. -/
def prepare (dot : Bool) (patterns : List String) : Except Failure (List Found) :=
  patterns.mapM (makeExpression dot)

/-- Whether one of several patterns finds a path. -/
def anyMatches (patterns : List Found) (path : String) : Bool :=
  let units := Text.Units.units path
  patterns.any (·.matches units)

/-- A path without a leading `./`. -/
def withoutHereDot (path : String) : String :=
  match path.toList with
  | '.' :: '/' :: rest => String.ofList rest
  | '.' :: '\\' :: rest => String.ofList rest
  | _ => path

/-!
### Files

A file is found if a pattern finds its path, no ignored pattern does, and no ignored pattern
that starts from the root finds its absolute path.  Ignored patterns find hidden names too.
-/

/-- The patterns that decide on files. -/
structure FileMatcher where
  wanted : List Found
  ignored : List Found
  ignoredAbsolute : List Found
  directory : Location

namespace FileMatcher

/-- Prepare the patterns for the files below a directory. -/
def ofPatterns (directory : Location) (dot : Bool) (wanted ignored : List String) :
    Except Failure FileMatcher := do
  let found ← prepare dot wanted
  let absolute ← prepare true (ignored.filter isAbsolute)
  let relative ← prepare true (ignored.filter (!isAbsolute ·))
  return ⟨found, relative, absolute, directory⟩

/-- Whether a file is found. -/
def finds (matcher : FileMatcher) (path : String) : Bool :=
  anyMatches matcher.wanted path && !anyMatches matcher.ignored path
    && !(!matcher.ignoredAbsolute.isEmpty
      && anyMatches matcher.ignoredAbsolute (matcher.directory.resolve path).text)

end FileMatcher

/-!
### Directories

A directory is worth reading if the names on its path agree with the first parts of a pattern
that goes deeper, or if the pattern reaches any depth before it ends there.  An ignored pattern
keeps directories from being read if it ends in `/**` or in a plain name.
-/

/-- A part of a pattern: a name, or a pattern of its own. -/
inductive Part where
  | name (text : String)
  | wild (text : String) (found : Found)

/-- Make a part of a pattern ready. -/
def Part.ofText (dot : Bool) (text : String) : Except Failure Part :=
  if isDynamic text then
    match makeExpression dot text with
    | .error failure => .error failure
    | .ok found => .ok (.wild text found)
  else .ok (.name text)

/-- Whether a text holds two stars in a row. -/
def holdsGlobstar : List Char → Bool
  | '*' :: '*' :: _ => true
  | _ :: rest => holdsGlobstar rest
  | [] => false

/-- Whether a part reaches any depth. -/
def Part.isDeep : Part → Bool
  | name _ => false
  | wild text _ => holdsGlobstar text.toList

/-- Whether a part agrees with a name. -/
def Part.agrees (part : Part) (text : String) : Bool :=
  match part with
  | name expected => expected == text
  | wild _ found => found.matches (Text.Units.units text)

/-- Whether the parts of a pattern lead into a directory. -/
def leadsInto (pattern : List Part) (names : List String) : Bool :=
  let shallow := pattern.takeWhile (!·.isDeep)
  let agrees := (pattern.zip names).all fun (part, name) => part.agrees name
  if shallow.length = pattern.length then names.length < pattern.length && agrees
  else shallow.length < names.length || agrees

/-- The patterns that decide on directories. -/
structure DirectoryMatcher where
  wanted : List (List Part)
  ignored : List Found

/-- The last name of a path. -/
def lastName (path : String) : String :=
  String.ofList ((path.toList.reverse.dropWhile (· == '/')).takeWhile (· != '/')).reverse

/-- Whether an ignored pattern keeps directories from being read. -/
def prunes (pattern : String) : Bool :=
  "**/".toList.isPrefixOf pattern.toList.reverse || !isDynamic (lastName pattern)

namespace DirectoryMatcher

/-- Prepare the patterns for the directories of a search. -/
def ofPatterns (dot : Bool) (wanted ignored : List String) : Except Failure DirectoryMatcher := do
  let patterns ← wanted.mapM fun pattern => (parts pattern).mapM (Part.ofText dot)
  let pruning ← prepare dot (ignored.filter prunes)
  return ⟨patterns, pruning⟩

/-- Whether a directory is worth reading. -/
def enters (matcher : DirectoryMatcher) (path : String) : Bool :=
  let path := withoutHereDot path
  (matcher.wanted.any fun pattern => leadsInto pattern (segments path))
    && !anyMatches matcher.ignored path

end DirectoryMatcher

end SuperCalls.Glob
