import SessionPipeline.Scenario.Basic

/-!
Running a scenario step by step, with what an observer sees during each step.
-/
namespace SessionPipeline.Scenario

/-- How deep actions, events and hooks may be nested within one another. -/
def depth : Nat := 1000000

def start (watched : Option Logging.Level) : World Scenario :=
  let logging := match watched with
    | some level => (Logging.Registry.initial.setSink (some (.observer "shared"))).setGlobalLevel level
    | none => Logging.Registry.initial.setSink (some .null)
  { own := {}, store := { logging := logging } }

/-- Runs one action and takes what was observed meanwhile, earliest first. -/
def step (action : Action) (w : World Scenario) : Ending × List Observation × World Scenario :=
  let (ending, w) := action.execute depth w
  (ending, w.store.journal.reverse, { w with store := { w.store with journal := [] } })

end SessionPipeline.Scenario
