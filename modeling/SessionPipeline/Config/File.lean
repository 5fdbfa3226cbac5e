import SessionPipeline.Config.Basic
import SessionPipeline.Effect
import SessionPipeline.Json.Reader

/-!
Configuration files. A file is read, parsed and validated as one step; a file that is missing or is
no JSON is a failure of the whole file, under its path.
-/
namespace SessionPipeline.Effect

variable {σ : Type}

def configLogger : String := "Config.session"

def loadConfig (path : String) (content : Option String) : Effect σ SessionConfig := do
  match content with
  | none => fail (.invalidConfig path "Cannot open configuration file")
  | some text =>
    match Json.parse text with
    | none => fail (.malformedConfig path)
    | some j => do
      let config ← ofExcept (SessionConfig.fromJson j)
      ofExcept config.validate
      log configLogger .debug
        ("loaded " ++ path ++ " with " ++ toString config.filters.length ++ " filters")
      return config

def setGlobalLevel (level : Logging.Level) : Effect σ Unit :=
  modifyStore fun s => { s with logging := s.logging.setGlobalLevel level }

end SessionPipeline.Effect
