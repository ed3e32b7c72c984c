/-
Module: SuperCalls.Record
Purpose: Records: values under text keys, in an order that is part of the record.  A key that
  writes an array index comes before every other key, indexes in ascending order; the other
  keys keep the order in which they were first set.
Main exports: arrayIndex?, Record, Record.set, Record.get?, Record.builtInNames
-/

namespace SuperCalls

/-- The array index that a key writes: a decimal number below `2 ^ 32 - 1` without leading
zeros. -/
def arrayIndex? (key : String) : Option Nat :=
  let cs := key.toList
  if cs.isEmpty || !cs.all Char.isDigit || (cs.head? == some '0' && cs != ['0'])
      || 10 < cs.length then none
  else
    let n := cs.foldl (fun n d => n * 10 + (d.toNat - 48)) 0
    if n < 4294967295 then some n else none

/-- Values under text keys, listed in the order of the record. -/
abbrev Record (α : Type) := List (String × α)

namespace Record

variable {α : Type}

/-- Whether a new key goes before a key that is already there. -/
def precedes (key other : String) : Bool :=
  match arrayIndex? key, arrayIndex? other with
  | some i, some j => i < j
  | some _, none => true
  | none, _ => false

/-- Put a new key where the order of the record wants it. -/
def place (key : String) (value : α) : Record α → Record α
  | [] => [(key, value)]
  | (other, v) :: rest =>
      if precedes key other then (key, value) :: (other, v) :: rest
      else (other, v) :: place key value rest

/-- Give a key a value.  A key that is already there keeps its place. -/
def set (record : Record α) (key : String) (value : α) : Record α :=
  if record.any (·.1 == key) then
    record.map fun (k, v) => if k == key then (k, value) else (k, v)
  else place key value record

/-- The names that a record answers to before anything is set in it: those of its own
operations. -/
def builtInNames : List String :=
  ["constructor", "toString", "toLocaleString", "valueOf", "hasOwnProperty", "isPrototypeOf",
    "propertyIsEnumerable", "__proto__", "__defineGetter__", "__defineSetter__",
    "__lookupGetter__", "__lookupSetter__"]

/-- The value under a key. -/
def get? (record : Record α) (key : String) : Option α :=
  (record.find? (·.1 == key)).map (·.2)

end Record

end SuperCalls
