/-
Module: SuperCalls.Disk
Purpose: What the library asks of a file system and of a search in it, and how a file system
  says no.
Main exports: NodeKind, DiskFault, DiskError, DiskError.message, Calls, Disk
-/
import SuperCalls.Failure
import SuperCalls.Location
import SuperCalls.Text.Quoted

namespace SuperCalls

/-- What a name in a directory stands for. -/
inductive NodeKind where
  | file
  | directory
  | link
  | other
deriving Repr, DecidableEq, Inhabited

/-- Why a file system refuses a call. -/
inductive DiskFault where
  | notFound
  | notDirectory
  | isDirectory
  | tooManyLinks
  | nameTooLong
deriving Repr, DecidableEq, Inhabited

/-- The code of a refusal and what it means. -/
def DiskFault.text : DiskFault → String
  | notFound => "ENOENT: no such file or directory"
  | notDirectory => "ENOTDIR: not a directory"
  | isDirectory => "EISDIR: illegal operation on a directory"
  | tooManyLinks => "ELOOP: too many symbolic links encountered"
  | nameTooLong => "ENAMETOOLONG: name too long"

/-- The calls of a file system, as refusals name them. -/
inductive DiskCall where
  | stat
  | lstat
  | openFile
  | read
  | scandir
deriving Repr, DecidableEq, Inhabited

/-- The name of a call. -/
def DiskCall.name : DiskCall → String
  | stat => "stat"
  | lstat => "lstat"
  | openFile => "open"
  | read => "read"
  | scandir => "scandir"

/-- A refused call. -/
inductive DiskError where
  /-- Refused by the file system; a call on an open file is refused without a path. -/
  | refused (fault : DiskFault) (call : DiskCall) (path : Option String)
  /-- Never made, since no path holds a null character. -/
  | nullCharacter (path : String)
  /-- Refused for a reason of its own. -/
  | other (message : String)
deriving Repr, DecidableEq, Inhabited

namespace DiskError

/-- The text of a refusal. -/
def message : DiskError → String
  | refused fault call (some path) => s!"{fault.text}, {call.name} '{path}'"
  | refused fault call none => s!"{fault.text}, {call.name}"
  | nullCharacter path =>
      "The argument 'path' must be a string, Uint8Array, or URL without null bytes. Received "
        ++ Text.quoted path
  | other message => message

/-- Whether the refusal means that nothing is there. -/
def isAbsence : DiskError → Bool
  | refused .notFound _ _ => true
  | refused .notDirectory _ _ => true
  | _ => false

end DiskError

/-- The calls of a file system.  Paths are absolute and are read by the file system itself, which
follows the symbolic links on the way. -/
structure Calls (m : Type → Type) where
  /-- What a path leads to. -/
  stat : String → m (Except DiskError NodeKind)
  /-- What the last name of a path stands for, even if that is a symbolic link. -/
  lstat : String → m (Except DiskError NodeKind)
  /-- The names in a directory. -/
  list : String → m (Except DiskError (List (String × NodeKind)))
  /-- The bytes of a file. -/
  read : String → m (Except DiskError (List UInt8))
  /-- Give a file new bytes, creating it where its directory exists. -/
  write : String → List UInt8 → m (Except DiskError Unit)

/-- A file system that can be searched. -/
structure Disk (m : Type → Type) extends Calls m where
  /-- The absolute paths of the files that a pattern finds from a directory, hidden ones only if
  wanted, less those that the ignored patterns cover. -/
  search : Location → Bool → String → List String → ExceptT Failure m (List String)

end SuperCalls
