import SessionPipeline.Proofs.Session.Overlooking

/-! Factories make filters, and configurations describe templates, alike in two worlds that only an onlooker
tells apart. -/
namespace SessionPipeline.Onlooker

open Effect

variable {σ : Type} {O : Onlooker σ} {lags : Bool} {w v : World σ} {perform perform' : Perform σ}
  (performs : O.Performs lags perform perform') (along : O.Along w v)
include performs along

omit performs in
theorem likewise_makeFilter (f : Filter) : O.Likewise lags (makeFilter f) (makeFilter f) w v := by
  have made {w v : World σ} (along : O.Along w v) : O.Likewise lags (newFilter f) (newFilter f) w v := by
    refine likewise_store along ?_ fun _ => rfl
    have pushed : O.Along (w.mapStore fun s => { s with filters := s.filters.push f })
        (v.mapStore fun s => { s with filters := s.filters.push f }) := by
      refine along.change (fun _ => ⟨rfl,rfl,rfl⟩) (fun _ => rfl) fun s plain => ?_
      obtain ⟨p,found,plain⟩ := plain
      have inside := (Array.getElem?_eq_some_iff.mp found).1
      refine ⟨p,?_,plain⟩
      rw [Array.getElem?_push,if_neg (Nat.ne_of_lt inside),found]
    exact .step rfl rfl (likewise_pure pushed _)
  cases f with
  | logging settings =>
    have obtained : O.Along
        (w.mapStore fun s => { s with logging := (s.logging.obtain (Bytes.ofString settings.logger)).2 })
        (v.mapStore fun s => { s with logging := (s.logging.obtain (Bytes.ofString settings.logger)).2 }) :=
      along.relog fun alike => alike.obtain (Bytes.ofString settings.logger)
    exact .step rfl rfl (made obtained)
  | noop => exact .step rfl rfl (made along)
  | adapter => exact .step rfl rfl (made along)
  | codec writeMaximum readMaximum => exact .step rfl rfl (made along)
  | custom label code => exact .step rfl rfl (made along)

omit performs in
theorem likewise_modifyFilter (id : FilterId) (change : LogSettings → LogSettings) :
    O.Likewise lags (modifyFilter id (Filter.mapSettings change)) (modifyFilter id (Filter.mapSettings change))
      w v := by
  have changed : O.Along
      (w.mapStore fun s => { s with filters := s.filters.modify id (Filter.mapSettings change) })
      (v.mapStore fun s => { s with filters := s.filters.modify id (Filter.mapSettings change) }) := by
    refine along.change (fun _ => ⟨rfl,rfl,rfl⟩) (fun _ => rfl) fun s plain => ?_
    obtain ⟨p,found,plain⟩ := plain
    simp only [Array.getElem?_modify,found,Option.map_some]
    split
    · exact ⟨_,rfl,by cases p <;> exact plain⟩
    · exact ⟨p,rfl,plain⟩
  exact likewise_of_ok rfl rfl changed

omit performs in
theorem likewise_register (name : String) (factory? : Option Factory) :
    O.Likewise lags (register name factory?) (register name factory?) w v := by
  cases factory? with
  | none => exact (likewise_log along ..).replies
  | some factory =>
    refine likewise_store along ?_ fun _ => rfl
    dsimp only
    split
    · exact (likewise_log along ..).replies
    · refine .bind (likewise_modifyStore along fun _ => ⟨rfl,rfl,rfl,rfl,rfl⟩) fun _ _ _ along => ?_
      exact (likewise_log along ..).replies

omit performs in
theorem likewise_registerAll (factories : List (String × Factory)) :
    O.Likewise lags (registerAll factories) (registerAll factories) w v := by
  induction factories generalizing w v with
  | nil => exact likewise_pure along ()
  | cons factory rest ih => exact (likewise_register along _ _).bind fun _ _ _ along => ih along

omit performs in
theorem likewise_openFactories : O.Likewise lags openFactories openFactories w v := by
  refine likewise_store along ?_ fun _ => rfl
  split
  · exact likewise_registerAll along _
  · exact likewise_pure along ()

omit performs in
theorem likewise_unregister (name : String) : O.Likewise lags (unregister name) (unregister name) w v := by
  refine likewise_store along ?_ fun _ => rfl
  dsimp only
  refine .bind (likewise_modifyStore along fun _ => ⟨rfl,rfl,rfl,rfl,rfl⟩) fun _ _ _ along => ?_
  exact likewise_pure along _

theorem likewise_validateWith (factory : Factory) (config : Json) :
    O.Likewise lags (validateWith perform factory config) (validateWith perform' factory config) w v := by
  cases factory with
  | noop => exact likewise_pure along _
  | logging => exact likewise_pure along _
  | codec => exact likewise_pure along _
  | custom metadata defaults code =>
    refine (performs (.run code (.validate config)) _ _ along trivial).bind fun reply _ _ along => ?_
    cases reply <;> exact likewise_pure along _

theorem likewise_createWith (factory : Factory) (config : Json) :
    O.Likewise lags (createWith perform factory config) (createWith perform' factory config) w v := by
  cases factory with
  | noop => exact (likewise_makeFilter along .noop).bind fun _ _ _ along => likewise_pure along _
  | logging =>
    refine (likewise_ofExcept along _).bind fun logger _ _ along => ?_
    refine (likewise_makeFilter along _).bind fun id _ _ along => ?_
    refine (likewise_ofExcept along _).bind fun settings _ _ along => ?_
    exact (likewise_modifyFilter along id fun _ => settings).replies
  | codec =>
    refine (likewise_ofExcept along _).bind fun maximum _ _ along => ?_
    exact (likewise_makeFilter along _).bind fun _ _ _ along => likewise_pure along _
  | custom metadata defaults code =>
    refine (performs (.run code (.create config)) _ _ along trivial).bind fun reply _ _ along => ?_
    cases reply <;> exact likewise_pure along _

theorem likewise_createValid (type : String) (factory : Factory) (config : Json) :
    O.Likewise lags (createValid perform type factory config) (createValid perform' type factory config)
      w v := by
  refine (likewise_createWith performs along factory config).attempt.bind fun made _ _ along => ?_
  split
  · split
    · exact (likewise_log along ..).bind fun _ _ _ along => likewise_fail along _
    · exact likewise_fail along _
  · exact likewise_fail along _
  · exact (likewise_log along ..).replies

theorem likewise_createFilter (type : String) (config : Json) :
    O.Likewise lags (createFilter perform type config) (createFilter perform' type config) w v := by
  refine likewise_store along ?_ fun _ => rfl
  split
  · exact (likewise_log along ..).bind fun _ _ _ along => likewise_fail along _
  · refine (likewise_validateWith performs along _ _).bind fun valid _ _ along => ?_
    dsimp only
    split
    · exact (likewise_log along ..).bind fun _ _ _ along => likewise_failing along _
    · exact likewise_createValid performs along _ _ _

theorem likewise_addConfigured (t : Template) (filters : List FilterConfig) :
    O.Likewise lags (addConfigured perform t filters) (addConfigured perform' t filters) w v := by
  induction filters generalizing t w v with
  | nil => exact likewise_pure along t
  | cons f rest ih =>
    unfold addConfigured
    split
    · exact (likewise_log along ..).bind fun _ _ _ along => ih along t
    · refine (likewise_createFilter performs along _ _).bind fun filter _ _ along => ?_
      exact (likewise_ofExcept along _).bind fun t _ _ along => ih along t

theorem likewise_configure (config : SessionConfig) :
    O.Likewise lags (configure perform config) (configure perform' config) w v := by
  refine (likewise_openFactories along).bind fun _ _ _ along => ?_
  refine (likewise_ofExcept along _).bind fun _ _ _ along => ?_
  refine (likewise_addConfigured performs along _ _).bind fun t w v along => ?_
  exact .step (store_apply w) (store_apply v) (likewise_log along ..).replies

omit performs in
theorem likewise_loadConfig (path : String) (content : Option String) :
    O.Likewise lags (loadConfig path content) (loadConfig path content) w v := by
  unfold loadConfig
  split
  · exact likewise_fail along _
  · split
    · exact likewise_fail along _
    · refine (likewise_ofExcept along _).bind fun config _ _ along => ?_
      refine (likewise_ofExcept along _).bind fun _ _ _ along => ?_
      exact (likewise_log along ..).replies

omit performs in
theorem likewise_setGlobalLevel (level : Logging.Level) :
    O.Likewise lags (setGlobalLevel level) (setGlobalLevel level) w v :=
  likewise_of_ok rfl rfl (along.relog fun alike => alike.setGlobalLevel level)

end SessionPipeline.Onlooker
