/-
Module: SuperCalls.Sandbox.Memory
Purpose: A sandbox without a disk.  It keeps texts under plain keys, writes down every call it
  gets, and fails where it has been told to.
Main exports: Call, MemoryStore, MemoryStore.sandbox
-/
import SuperCalls.Sandbox

namespace SuperCalls

/-- A call of a sandbox. -/
inductive Call where
  | isFile (path : String)
  | read (path : String)
  | write (path content : String)
  | find (pattern : String) (ignored : List String)
deriving Repr, DecidableEq, Inhabited

/-- The operations of a sandbox, as faults name them. -/
inductive Operation where
  | isFile
  | read
  | write
  | find
deriving Repr, DecidableEq, Inhabited

/-- Texts under keys, the faults that are set, the answers to patterns, and the calls so far. -/
structure MemoryStore where
  files : List (String × String)
  faults : List ((Operation × String) × Failure)
  found : List (String × List String)
  calls : List Call
deriving Repr, DecidableEq, Inhabited

namespace MemoryStore

/-- The text under a key. -/
def get? (store : MemoryStore) (path : String) : Option String :=
  store.files.lookup path

/-- Put a text under a key. -/
def put (store : MemoryStore) (path content : String) : MemoryStore :=
  { store with files := (path, content) :: store.files.filter (·.1 != path) }

/-- Take a key out. -/
def remove (store : MemoryStore) (path : String) : MemoryStore :=
  { store with files := store.files.filter (·.1 != path) }

/-- Let an operation fail on a path until it is healed. -/
def setFault (store : MemoryStore) (operation : Operation) (path : String) (failure : Failure) :
    MemoryStore :=
  { store with
    faults := ((operation, path), failure) :: store.faults.filter (·.1 != (operation, path)) }

/-- Take a fault back. -/
def heal (store : MemoryStore) (operation : Operation) (path : String) : MemoryStore :=
  { store with faults := store.faults.filter (·.1 != (operation, path)) }

/-- The fault of an operation on a path. -/
def fault? (store : MemoryStore) (operation : Operation) (path : String) : Option Failure :=
  store.faults.lookup (operation, path)

/-- Take the calls off the store. -/
def takeCalls (store : MemoryStore) : List Call × MemoryStore :=
  (store.calls, { store with calls := [] })

/-- Run an operation on a path: the call is written down first, then the fault strikes if one
is set. -/
def attempt {α : Type} (call : Call) (operation : Operation) (path : String)
    (act : MemoryStore → Except Failure α × MemoryStore) : ExceptT Failure (StateM MemoryStore) α :=
  fun store =>
    let store := { store with calls := store.calls ++ [call] }
    match store.fault? operation path with
    | some failure => (.error failure, store)
    | none => act store

/-- The sandbox over a store. -/
def sandbox : Sandbox (StateM MemoryStore) where
  isFile path := attempt (.isFile path) .isFile path fun store =>
    (.ok (store.get? path).isSome, store)
  read path := attempt (.read path) .read path fun store =>
    match store.get? path with
    | some content => (.ok content, store)
    | none => (.error (.coded .readFailed s!"Cannot read {path}: not found" (some path)), store)
  write path content := attempt (.write path content) .write path fun store =>
    (.ok (), store.put path content)
  find pattern ignored := attempt (.find pattern ignored) .find pattern fun store =>
    (.ok ((store.found.lookup pattern).getD []), store)

end MemoryStore

end SuperCalls
