/-
Module: SuperCalls.Failure
Purpose: What can go wrong, as one type for the whole library, and computations that can fail: what
  they come to follows from what their parts come to, and so do the failures that they can end with.
Main exports: FailureCode, ErrorKind, Failure, Failure.message, ok_of_bind_ok, bind_eq_error_iff,
  run_bind, ok_of_run_bind, Failure.IsForeign, FailsWith
-/

namespace SuperCalls

/-- The causes that the library itself tells apart. -/
inductive FailureCode where
  | invalidConfig
  | readFailed
  | writeFailed
  | pathOutsideWorkDir
deriving Repr, DecidableEq, Inhabited

/-- The kinds of error that come from somewhere else. -/
inductive ErrorKind where
  | error
  | typeError
  | rangeError
  | syntaxError
deriving Repr, DecidableEq, Inhabited

/-- A failure.  Whatever is thrown has a text here: a value that cannot be made a text is not
among the failures. -/
inductive Failure where
  /-- A failure with a known cause and, mostly, the path that it is about. -/
  | coded (code : FailureCode) (message : String) (path : Option String)
  /-- An error of another origin. -/
  | plain (kind : ErrorKind) (message : String)
  /-- Something that is no error, known by its text alone. -/
  | bare (text : String)
deriving Repr, DecidableEq, Inhabited

namespace Failure

/-- The text of a failure. -/
def message : Failure → String
  | coded _ message _ => message
  | plain _ message => message
  | bare text => text

/-- Whether the library knows the cause. -/
def isCoded : Failure → Bool
  | coded .. => true
  | _ => false

/-- The failure as it leaves a batch: one of unknown cause counts as a failure to read the
file. -/
def about (path : String) : Failure → Failure
  | coded code message path => coded code message path
  | failure => coded .readFailed failure.message (some path)

end Failure

variable {σ α β : Type}

/-!
### What the parts come to
-/

theorem ok_of_bind_ok {ε : Type} {first : Except ε α} {next : α → Except ε β} {value : β}
    (done : (first >>= next) = .ok value) : ∃ a, first = .ok a ∧ next a = .ok value := by
  cases first with
  | error failure => cases done
  | ok a => exact ⟨a, rfl, done⟩

theorem bind_eq_error_iff {ε : Type} {first : Except ε α} {next : α → Except ε β} {failure : ε} :
    (first >>= next) = .error failure ↔
      first = .error failure ∨ ∃ a, first = .ok a ∧ next a = .error failure := by
  cases first with
  | error other =>
      constructor
      · rintro ⟨⟩
        exact Or.inl rfl
      · rintro (⟨⟨⟩⟩ | ⟨_, ⟨⟩, _⟩)
        rfl
  | ok a =>
      constructor
      · exact fun failed => Or.inr ⟨a, rfl, failed⟩
      · rintro (⟨⟨⟩⟩ | ⟨_, ⟨⟩, failed⟩)
        exact failed

/-- A computation that can fail goes on from the state that its first part leaves. -/
theorem run_bind (first : ExceptT Failure (StateM σ) α)
    (next : α → ExceptT Failure (StateM σ) β) (s : σ) :
    (first >>= next).run s =
      match first.run s with
      | (.ok value, t) => (next value).run t
      | (.error failure, t) => (.error failure, t) := by
  simp only [bind, ExceptT.bind, ExceptT.run, ExceptT.mk, StateT.bind]
  rcases first s with ⟨failure | value, t⟩ <;> rfl

theorem ok_of_run_bind {first : ExceptT Failure (StateM σ) α}
    {next : α → ExceptT Failure (StateM σ) β} {s u : σ} {value : β}
    (done : (first >>= next).run s = (.ok value, u)) :
    ∃ a t, first.run s = (.ok a, t) ∧ (next a).run t = (.ok value, u) := by
  rw [run_bind] at done
  rcases ended : first.run s with ⟨failure | a, t⟩
  · rw [ended] at done
    cases done
  · rw [ended] at done
    exact ⟨a, t, rfl, done⟩

/-!
### The failures of a computation
-/

/-- A failure that the library does not know the cause of. -/
def Failure.IsForeign (failure : Failure) : Prop :=
  failure.isCoded = false

/-- A computation fails with failures of a kind only. -/
def FailsWith (kind : Failure → Prop) (computation : Except Failure α) : Prop :=
  ∀ failure, computation = .error failure → kind failure

namespace FailsWith

variable {kind : Failure → Prop}

theorem ok (value : α) : FailsWith kind (.ok value) :=
  nofun

theorem error {failure : Failure} (known : kind failure) :
    FailsWith kind (.error failure : Except Failure α) := by
  rintro _ ⟨⟩
  exact known

theorem bind {first : Except Failure α} {next : α → Except Failure β}
    (fails : FailsWith kind first) (later : ∀ value, FailsWith kind (next value)) :
    FailsWith kind (first >>= next) := by
  cases first with
  | error failure => exact .error (fails failure rfl)
  | ok value => exact later value

theorem mapM {f : α → Except Failure β} (each : ∀ value, FailsWith kind (f value))
    (values : List α) : FailsWith kind (values.mapM f) := by
  induction values with
  | nil => exact .ok []
  | cons value values ih =>
      rw [List.mapM_cons]
      exact (each value).bind fun first => ih.bind fun rest => .ok (first :: rest)

theorem foldlM {f : β → α → Except Failure β}
    (each : ∀ before value, FailsWith kind (f before value)) (before : β) (values : List α) :
    FailsWith kind (values.foldlM f before) := by
  induction values generalizing before with
  | nil => exact .ok before
  | cons value values ih =>
      rw [List.foldlM_cons]
      exact (each before value).bind ih

end FailsWith

end SuperCalls
