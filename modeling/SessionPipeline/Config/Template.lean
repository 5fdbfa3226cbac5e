import SessionPipeline.Config.File
import SessionPipeline.Factory.Registry

/-!
The chain template that a configuration describes: its enabled filters, in order, each made by the
factory of its type.
-/
namespace SessionPipeline.Effect

variable {σ : Type}

def templateLogger : String := "Filter.chain_builder"

def addConfigured (perform : Perform σ) (t : Template) : List FilterConfig → Effect σ Template
  | [] => return t
  | f :: rest => do
    if !f.enabled then
      log templateLogger .debug ("Skipping disabled filter '" ++ f.name ++ "'")
      addConfigured perform t rest
    else
      let filter ← createFilter perform f.type f.config
      addConfigured perform (← ofExcept (t.add .last f.name (some filter))) rest

/-- The template that a configuration describes, its filters made by the registered factories. -/
def configure (perform : Perform σ) (config : SessionConfig) : Effect σ Template := do
  openFactories
  ofExcept config.validate
  let t ← addConfigured perform {} config.filters
  log templateLogger .debug ("Built chain template " ++ t.toString (← store).label)
  return t

end SessionPipeline.Effect
