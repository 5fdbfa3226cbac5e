import SessionPipeline.Proofs.Config.Checking
import SessionPipeline.Proofs.Effect.Basic
import SessionPipeline.Proofs.Json.Fields

/-! The registry with the built-in factories in it. It makes a filter of what a factory takes, and refuses
the rest. -/
namespace SessionPipeline

namespace Effect

variable {σ : Type} {w : World σ} {name type : String} {factory : Factory} {filter : Filter}
  {config : Json}

theorem makeFilter_apply (filter : Filter) (w : World σ) :
    ∃ w', makeFilter filter w = .ok w.store.filters.size w' ∧
      w'.store.filters = w.store.filters.push filter ∧ w'.store.factories = w.store.factories := by
  cases filter <;> exact ⟨_,rfl,rfl,rfl⟩

theorem lookup_builtIn (known : Factory.builtIn.lookup type = some factory) :
    factory = .noop ∨ factory = .logging ∨ factory = .codec := by
  have listed := mem_of_lookup known
  simp only [Factory.builtIn,List.mem_cons,Prod.mk.injEq,List.not_mem_nil,or_false] at listed
  exact listed.imp And.right (.imp And.right And.right)

theorem validateWith_builtIn (perform : Perform σ) (config : Json) (w : World σ)
    (known : Factory.builtIn.lookup type = some factory) :
    validateWith perform factory config w = .ok (factory.accepts config) w := by
  rcases lookup_builtIn known with rfl | rfl | rfl <;> rfl

theorem createWith_made (perform : Perform σ) (w : World σ) (made : factory.make config = .ok filter) :
    ∃ w', createWith perform factory config w = .ok (some w.store.filters.size) w' ∧
      w'.store.filters = w.store.filters.push filter ∧ w'.store.factories = w.store.factories := by
  cases factory with
  | noop =>
    cases made
    obtain ⟨w',returned,kept⟩ := makeFilter_apply .noop w
    exact ⟨w',bind_of_ok returned,kept⟩
  | codec =>
    obtain ⟨maximum,read,made⟩ := ok_of_except_bind made
    cases made
    obtain ⟨w',returned,kept⟩ := makeFilter_apply (.codec maximum maximum) w
    refine ⟨w',?_,kept⟩
    rw [createWith,read,bind_of_ok (ofExcept_apply maximum w)]
    exact bind_of_ok returned
  | logging =>
    obtain ⟨logger,named,made⟩ := ok_of_except_bind made
    obtain ⟨settings,read,made⟩ := ok_of_except_bind made
    cases made
    obtain ⟨w',returned,filters,factories⟩ := makeFilter_apply (.logging (.initial logger)) w
    let set (s : Store) : Store :=
      { s with filters := s.filters.modify w.store.filters.size (Filter.mapSettings fun _ => settings) }
    have created : createWith perform .logging config w =
        .ok (some w.store.filters.size) (w'.mapStore set) := by
      rw [createWith,named,bind_of_ok (ofExcept_apply logger w),bind_of_ok returned,read,
        bind_of_ok (ofExcept_apply settings w')]
      rfl
    refine ⟨_,created,?_,factories⟩
    apply Array.ext_getElem?
    intro i
    simp only [set,World.mapStore,filters,Array.getElem?_modify,Array.getElem?_push]
    by_cases last : i = w.store.filters.size
    · subst last
      simp [Filter.mapSettings]
    · simp [last,Ne.symm last]
  | custom => cases made

section Registered

variable (perform : Perform σ) (known : Factory.builtIn.lookup type = some factory)
  (registered : w.store.factory? type = some factory)
include known registered

/-- Of a configuration that it takes, a registered factory makes the next filter. -/
theorem createFilter_accepted
    (accepted : factory.accepts (Factory.effective factory.defaults config) = true) :
    ∃ filter w', factory.make (Factory.effective factory.defaults config) = .ok filter ∧
      createFilter perform type config w = .ok w.store.filters.size w' ∧
      w'.store.filters = w.store.filters.push filter ∧ w'.store.factories = w.store.factories := by
  obtain ⟨filter,made⟩ := Factory.make_of_accepts accepted
  obtain ⟨w',created,filters,factories⟩ := createWith_made perform w made
  have validated := validateWith_builtIn perform (Factory.effective factory.defaults config) w known
  have valid : createValid perform type factory (Factory.effective factory.defaults config) w =
      .ok w.store.filters.size (w'.logged registryLogger .debug
        (Bytes.ofString ("Created filter instance of type '" ++ type ++ "'"))) := by
    have attempted : attempt (createWith perform factory (Factory.effective factory.defaults config)) w =
        .ok (.ok (some w.store.filters.size)) w' := by
      rw [attempt,created]
    rw [createValid,bind_of_ok attempted]
    rfl
  refine ⟨filter,w'.logged registryLogger .debug
    (Bytes.ofString ("Created filter instance of type '" ++ type ++ "'")),made,?_,filters,factories⟩
  rw [createFilter,bind_of_ok (store_apply w),registered]
  dsimp only
  rw [bind_of_ok validated,accepted,if_neg (by simp)]
  exact valid

/-- A configuration that it does not take is refused, and nothing is made. -/
theorem createFilter_rejected
    (rejected : factory.accepts (Factory.effective factory.defaults config) = false) :
    ∃ w', createFilter perform type config w =
        .error (.failed (.filterCreation type "invalid configuration")) w' ∧
      w'.store.filters = w.store.filters := by
  have validated := validateWith_builtIn perform (Factory.effective factory.defaults config) w known
  rw [createFilter,bind_of_ok (store_apply w),registered]
  dsimp only
  rw [bind_of_ok validated,rejected]
  exact ⟨_,rfl,rfl⟩

end Registered

end Effect
end SessionPipeline
