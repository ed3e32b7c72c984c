/-
Module: SuperCalls.Config.File
Purpose: Settings kept in a file.  A relative work directory in it starts from the directory
  of the file.
Main exports: defaultConfigFile, Config.load
-/
import SuperCalls.Config
import SuperCalls.Disk
import SuperCalls.Json.Reader
import SuperCalls.Text.Utf8

namespace SuperCalls

/-- The name of the file that is read without being named. -/
def defaultConfigFile : String := "super-patch.config.json"

namespace Config

variable {m : Type → Type} [Monad m]

/-- The settings in the text of a file. -/
def ofText (validator : Validator) (file : String) (base : Location) (text : String) :
    Except Failure Config :=
  match Json.read text with
  | .ok raw => ofJson validator (some raw) base
  | .error error =>
      .error (.coded .invalidConfig s!"Config {file} is not valid JSON: {error.message text}"
        (some file))

/-- The settings in a file; a relative path starts from the given directory. -/
def load (validator : Validator) (disk : Disk m) (directory : Location) (file : String) :
    ExceptT Failure m Config := do
  let location := directory.resolve file
  match ← disk.read location.text with
  | .error error =>
      throw (.coded .invalidConfig s!"Cannot read config {file}: {error.message}" (some file))
  | .ok bytes =>
      match ofText validator file location.parent (Text.Utf8.decodeLossy bytes) with
      | .ok config => return config
      | .error failure => throw failure

end Config

end SuperCalls
