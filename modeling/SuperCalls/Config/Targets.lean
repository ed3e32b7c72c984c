/-
Module: SuperCalls.Config.Targets
Purpose: The files that settings are about: those that are named, in order, and behind them
  those that patterns find, in the order of their code units, each path once.
Main exports: Config.targets
-/
import SuperCalls.Config
import SuperCalls.Text.Units

namespace SuperCalls.Config

variable {m : Type → Type} [Monad m]

/-- Put paths behind those already listed, leaving out the ones seen before. -/
def addNew (listed : List String) (paths : List String) : List String :=
  paths.foldl (fun listed path => if listed.contains path then listed else listed ++ [path]) listed

/-- Put what the patterns find behind the paths already listed. -/
def addFound (find : String → ExceptT Failure m (List String)) :
    List String → List String → ExceptT Failure m (List String)
  | listed, [] => pure listed
  | listed, pattern :: patterns => do
      let found ← find pattern
      addFound find (addNew listed (Text.Units.sort found)) patterns

/-- The failure of settings without any file. -/
def noTargets : Failure :=
  .coded .invalidConfig "No target files: list them under \"files\" or \"globs\", or pass paths" none

/-- The files that settings are about. -/
def targets (config : Config) (sandbox : Sandbox m) : ExceptT Failure m (List String) := do
  let listed ← addFound (sandbox.find · config.ignore) config.files config.globs
  if listed.isEmpty then throw noTargets
  return listed

end SuperCalls.Config
