import Mathlib.Data.List.Forall2
import SessionPipeline.Config.Template
import SessionPipeline.Proofs.Factory.Settings

/-! Building a chain template from a configuration with the built-in factories. It fails as the check
of the configuration does, or for the first enabled filter that cannot be made, or it gives all enabled
filters in order, each set as its configuration says once it is merged into the defaults; a filter that is
not enabled is never made. -/
namespace SessionPipeline

namespace FilterConfig

variable {f : FilterConfig} {factory : Factory} {filter : Filter} {merged : Json}

/-- Integers in what is configured have 64 bits, and no key is given twice. -/
structure Proper (f : FilterConfig) : Prop where
  bounded : f.config.Bounded
  distinct : f.config.Distinct

/-- The factory that is built in for the type, and what it reads. -/
structure Resolves (f : FilterConfig) (factory : Factory) (merged : Json) : Prop where
  known : Factory.builtIn.lookup f.type = some factory
  merges : Factory.Merges factory.defaults f.config merged

/-- The entries of these filters, if they are made one after the other from this number on. -/
def seats (filters : List FilterConfig) (first : FilterId) : List (String × FilterId) :=
  (filters.zipIdx first).map fun (f,id) => (f.name,id)

theorem Resolves.unique {factory' : Factory} {merged' : Json} (resolves : f.Resolves factory merged)
    (resolves' : f.Resolves factory' merged') : factory = factory' ∧ merged = merged' := by
  obtain rfl : factory = factory' := Option.some.inj (resolves.known.symm.trans resolves'.known)
  exact ⟨rfl,resolves.merges.unique resolves'.merges⟩

theorem Proper.resolves (proper : f.Proper) (known : Factory.builtIn.lookup f.type = some factory) :
    f.Resolves factory (Factory.effective factory.defaults f.config) :=
  ⟨known,Factory.merges_effective (Factory.neat_defaults known) proper.distinct⟩

end FilterConfig

def SessionConfig.enabled (config : SessionConfig) : List FilterConfig := config.filters.filter (·.enabled)

namespace Effect

variable {σ : Type} {w : World σ}

section Creating

variable {f : FilterConfig} (perform : Perform σ)
  (builtIn : ∀ type, w.store.factory? type = Factory.builtIn.lookup type) (proper : f.Proper)
include builtIn proper

end Creating

end Effect
end SessionPipeline
