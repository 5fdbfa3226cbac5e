import SessionPipeline.Proofs.Chain.Twins

/-! Edits of twin chains end alike, whatever hooks do, as long as hooks do alike. -/
namespace SessionPipeline

variable {σ : Type}

namespace World

/-- Twin worlds with chains in order, no further than the history of `t`. -/
structure Standing (Q : World σ → World σ → Prop) (ref : SessionRef) (wear : EntryId → UInt32)
    (t : World σ) (flight : SessionRef → List EntryId) (u u' : World σ) : Prop where
  inOrder : u.InOrder flight
  recalled : u.store.journal <:+ t.store.journal
  twin : u.Twin Q ref wear u'

variable {Q : World σ → World σ → Prop} {ref : SessionRef} {wear : EntryId → UInt32}
  {t u u' v v' : World σ} {flight : SessionRef → List EntryId} {h : Handle}

theorem Standing.onward (few : ∀ r id, t.store.releases r id < 2^32)
    (standing : Standing Q ref wear t flight u u') (evolves : u.Evolves .free v)
    (recalled : v.store.journal <:+ t.store.journal) (twin : v.Twin Q ref wear v') :
    Standing Q ref wear t flight v v' where
  inOrder := by
    refine (evolves.along flight (fun r id => Nat.lt_add_left _ ?_) standing.inOrder).inOrder
    exact Nat.lt_of_le_of_lt (releases_le_of_suffix recalled r id) (few r id)
  recalled := recalled
  twin := twin

theorem Standing.reserve (standing : Standing Q ref wear t flight u u') (name : String)
    (filter : FilterId) : (u'.store.chain ref).reserved ref name filter =
        ((u.store.chain ref).reserved ref name filter).worn ref wear ∧
      Standing Q ref wear t (flying flight ref ((u.store.chain ref).reserved ref name filter).entry)
        (u.reserve ref name filter) (u'.reserve ref name filter) := by
  obtain ⟨ids,holds⟩ := standing.inOrder ref
  obtain ⟨same,allocated⟩ := standing.twin.worn.allocate holds name filter
  refine ⟨?_,?_⟩
  · rw [Chain.reserved,same,allocated.handle,Chain.reserved]
  · exact ⟨(reserve_inOrder standing.inOrder standing.twin.present name filter).1,standing.recalled,
      standing.twin.mapChain allocated⟩

theorem Standing.discard (standing : Standing Q ref wear t (flying flight ref h.entry) u u') :
    (u.discardEntry ref h).Twin Q ref wear (u'.discardEntry ref (h.worn ref wear)) := by
  obtain ⟨ids,holds⟩ := standing.inOrder ref
  rw [flying_self] at holds
  refine (standing.twin.mapChain ?_).record _ _
  rw [Handle.worn_entry]
  exact standing.twin.worn.release (holds.flight_inside List.mem_cons_self)

theorem Standing.link (standing : Standing Q ref wear t (flying flight ref h.entry) u u')
    {name : String} {position : Position}
    (admissible : (u.store.chain ref).checkAddition name position = .ok ()) :
    (u.linkEntry ref h name position).Twin Q ref wear
      (u'.linkEntry ref (h.worn ref wear) name position) := by
  obtain ⟨ids,holds⟩ := standing.inOrder ref
  rw [flying_self] at holds
  refine (standing.twin.mapChain ?_).record _ _
  rw [Handle.worn_entry]
  exact standing.twin.worn.insert holds admissible

theorem Standing.drop (standing : Standing Q ref wear t flight u u')
    (between : h.entry ≠ Chain.head ∧ h.entry ≠ Chain.tail)
    (current : (u.store.chain ref).isCurrent h = true) (name : String) :
    (u.dropEntry ref h name).Twin Q ref wear (u'.dropEntry ref (h.worn ref wear) name) := by
  obtain ⟨ids,holds⟩ := standing.inOrder ref
  refine (standing.twin.mapChain ?_).record _ _
  rw [Handle.worn_entry]
  exact standing.twin.worn.drop holds (holds.mem_of_linked (Effect.linked_of_current current) between) name

theorem Standing.setFilter (standing : Standing Q ref wear t flight u u')
    (current : (u.store.chain ref).isCurrent h = true) (filter : FilterId) :
    (u.mapChain ref (·.setFilter h.entry filter)).Twin Q ref wear
      (u'.mapChain ref (·.setFilter h.entry filter)) := by
  refine standing.twin.mapChain (standing.twin.worn.setFilter ?_ filter)
  simp only [Chain.isCurrent,Bool.and_eq_true,decide_eq_true_eq] at current
  exact current.1.1

end World

namespace Effect

open World

/-- Where the first comes no further than the history of `t`, both return the same or fail alike and
leave twin worlds. -/
abbrev Parallel {α : Type} (Q : World σ → World σ → Prop) (ref : SessionRef) (wear : EntryId → UInt32)
    (t : World σ) : Effect σ α → Effect σ α → World σ → World σ → Prop :=
  Mirrors t (fun a a' v v' => a' = a ∧ v.Twin Q ref wear v') (Twin Q ref wear)

/-- Hooks do the same in twin worlds, worn handles taken for others, as long as no slot is freed 2^32
times; and filters are called the same. -/
structure Alike (Q : World σ → World σ → Prop) (ref : SessionRef) (wear : EntryId → UInt32) : Prop where
  labels : ∀ u u' : World σ, Q u u' → u'.store.label = u.store.label
  hooks : ∀ {t u u' : World σ} {flight : SessionRef → List EntryId},
    (∀ r id, t.store.releases r id < 2^32) → Standing Q ref wear t flight u u' →
    ∀ (n : Nat) (f : FilterId) (hook : Hook) (name : String) (h : Handle), h.owner = ref →
      Parallel Q ref wear t (runHook (performWith n) f hook name h)
        (runHook (performWith n) f hook name (h.worn ref wear)) u u'

section Alike

variable {Q : World σ → World σ → Prop} {ref : SessionRef} {wear : EntryId → UInt32} {t u u' : World σ}
  {flight : SessionRef → List EntryId} {h : Handle} {α β : Type}

theorem Parallel.map {m m' : Effect σ β} (parallel : Parallel Q ref wear t m m' u u') (reply : β → α) :
    Parallel Q ref wear t (do return reply (← m)) (do return reply (← m')) u u' := by
  refine parallel.bind (fun _ => keeping_pure _) ?_
  rintro b _ v v' _ _ ⟨rfl,twin⟩
  exact mirrors_returned rfl rfl ⟨rfl,twin⟩

/-- Behind a line of the log, whatever it tells. -/
theorem logged_parallel {next next' : Unit → Effect σ α} (standing : Standing Q ref wear t flight u u')
    (level : Logging.Level) (text text' : String) (recalls : ∀ b, Keeping recalling (next b))
    (rest : ∀ v v', Standing Q ref wear t flight v v' →
      Parallel Q ref wear t (next ()) (next' ()) v v') :
    Parallel Q ref wear t (logChain ref level text >>= next) (logChain ref level text' >>= next')
      u u' := by
  refine .bind_of_ok (logChain_apply ref level text u) (logChain_apply ref level text' u') ?_
  exact .early (recalls ()) fun recalled =>
    rest _ _ ⟨standing.inOrder,recalled,standing.twin.logged _ _ _ _ _ _⟩

theorem putBack_parallel (standing : Standing Q ref wear t flight u u') (owned : h.owner = ref)
    (old : FilterId) (failure : Failure) :
    Parallel Q ref wear t (putBack ref h old failure) (putBack ref (h.worn ref wear) old failure)
      u u' := by
  unfold putBack
  refine .bind_of_ok (chain_apply ref u) (chain_apply ref u') ?_
  rw [standing.twin.worn.isCurrent owned,Handle.worn_entry]
  cases current : (u.store.chain ref).isCurrent h with
  | true => exact mirrors_failed rfl rfl (standing.setFilter current old)
  | false => exact mirrors_failed rfl rfl standing.twin

variable (few : ∀ r id, t.store.releases r id < 2^32)
include few

/-- What is done to twins leaves them in order. -/
theorem Parallel.standing {m m' : Effect σ α} (standing : Standing Q ref wear t flight u u')
    (evolves : Meets (evolution .free) u m u) (parallel : Parallel Q ref wear t m m' u u') :
    Mirrors t (fun a a' v v' => a' = a ∧ Standing Q ref wear t flight v v')
      (Standing Q ref wear t flight) m m' u u' := by
  refine parallel.mono (fun a a' v v' returned recalled both => ⟨both.1,?_⟩)
    fun failure v v' failed recalled twin => ?_
  · exact standing.onward few ((meets_of_ok returned).mp evolves) recalled both.2
  · unfold Meets ends at evolves
    rw [failed] at evolves
    exact standing.onward few evolves recalled twin

variable (alike : Alike Q ref wear) (n : Nat)
include alike

/-- What a hook is asked, and what comes of the answer. -/
theorem hooked_mirrors {returns : α → α → World σ → World σ → Prop} {fails : World σ → World σ → Prop}
    {next next' : Except Failure Unit → Effect σ α} (standing : Standing Q ref wear t flight u u')
    (f : FilterId) (hook : Hook) (name : String) (owned : h.owner = ref)
    (recalls : ∀ result, Keeping recalling (next result))
    (rest : ∀ result v v', Standing Q ref wear t flight v v' → u.Evolves .free v →
      Mirrors t returns fails (next result) (next' result) v v') :
    Mirrors t returns fails (attempt (runHook (performWith n) f hook name h) >>= next)
      (attempt (runHook (performWith n) f hook name (h.worn ref wear)) >>= next') u u' := by
  have evolves : Keeping (evolution .free : Contract σ) (attempt (runHook (performWith n) f hook name h)) :=
    keeping_attemptHook (fun _ _ => performWith_evolves n _ _) f hook name h
  have asked := (alike.hooks few standing n f hook name h owned).standing few standing
    (keeping_runHook (fun _ => performWith_evolves n _ _) f u)
  refine asked.attempt.bind recalls fun result result' v v' returned _ tried => ?_
  have onward := (meets_of_ok returned).mp (evolves u)
  cases tried with
  | returned both => exact rest _ v v' both.2 onward
  | failed failure standing => exact rest _ v v' standing onward

theorem admitEntry_mirrors (standing : Standing Q ref wear t flight u u') (position : Position)
    (name : String) (filter : FilterId) :
    Mirrors t (fun h h' v v' => h' = h.worn ref wear ∧ v.Twin Q ref wear v') (Twin Q ref wear)
      (admitEntry (performWith n) ref position name filter)
      (admitEntry (performWith n) ref position name filter) u u' := by
  have same := Chain.checkAddition_congr standing.twin.worn.index name position
  cases admissible : (u.store.chain ref).checkAddition name position with
  | error failure =>
    exact mirrors_failed (admitEntry_refused _ admissible) (admitEntry_refused _ (same.trans admissible))
      standing.twin
  | ok =>
    obtain ⟨handed,reserved⟩ := standing.reserve name filter
    refine .of_eq (admitEntry_asks _ filter admissible)
      (admitEntry_asks _ filter (same.trans admissible)) ?_
    rw [handed]
    refine hooked_mirrors few alike n reserved filter .preAdd name rfl
      (keeping_decision (recalling_overlooks ref) position name _) fun result v v' standing _ => ?_
    cases result with
    | error failure => exact mirrors_failed rfl rfl standing.discard
    | ok =>
      refine .bind_of_ok (chain_apply ref v) (chain_apply ref v') ?_
      rw [Chain.checkAddition_congr standing.twin.worn.index]
      cases still : (v.store.chain ref).checkAddition name position with
      | error failure => exact mirrors_failed rfl rfl standing.discard
      | ok => exact mirrors_returned rfl rfl ⟨rfl,standing.link still⟩

theorem confirmEntry_parallel (standing : Standing Q ref wear t flight u u') (name : String)
    (filter : FilterId) (owned : h.owner = ref) (between : h.entry ≠ Chain.head ∧ h.entry ≠ Chain.tail) :
    Parallel Q ref wear t (confirmEntry (performWith n) ref name filter h)
      (confirmEntry (performWith n) ref name filter (h.worn ref wear)) u u' := by
  refine hooked_mirrors few alike n standing filter .postAdd name owned
    (keeping_rollback (recalling_overlooks ref) name h) fun result v v' standing _ => ?_
  cases result with
  | ok => exact mirrors_returned rfl rfl ⟨rfl,standing.twin⟩
  | error failure =>
    refine .bind_of_ok (chain_apply ref v) (chain_apply ref v') ?_
    rw [standing.twin.worn.isCurrent owned]
    cases current : (v.store.chain ref).isCurrent h with
    | true => exact mirrors_failed rfl rfl ((standing.drop between current name).logged _ _ _ _ _ _)
    | false => exact mirrors_failed rfl rfl (standing.twin.logged _ _ _ _ _ _)

theorem add_parallel (standing : Standing Q ref wear t flight u u') (position : Position)
    (name : String) (filter? : Option FilterId) :
    Parallel Q ref wear t (add (performWith n) ref position name filter?)
      (add (performWith n) ref position name filter?) u u' := by
  cases filter? with
  | none => exact mirrors_failed rfl rfl standing.twin
  | some filter =>
    obtain ⟨ids,holds⟩ := standing.inOrder ref
    have confirming (h : Handle) : Keeping (recalling : Contract σ)
        (confirmEntry (performWith n) ref name filter h) :=
      keeping_confirmEntry (recalling_overlooks ref) (performWith_recalls n) name filter h
    rw [add_some]
    refine (admitEntry_mirrors few alike n standing position name filter).bind
      (fun h => keeping_store.bind fun _ => (keeping_logChain _ _ _).bind fun _ => confirming h)
      fun h h' v v' returned recalled ⟨worn,twin⟩ => ?_
    obtain ⟨rfl,w,hook,admissible,rfl⟩ := (ends_of_ok returned).mp (admitEntry_evolves
      (performWith_evolves n) standing.twin.present position name filter)
    have linked := standing.onward few (.added standing.twin.present hook admissible) recalled twin
    rw [worn]
    refine .bind_of_ok (store_apply _) (store_apply _) ?_
    refine logged_parallel linked .debug _ _ (fun _ => confirming _) fun v v' standing => ?_
    refine confirmEntry_parallel few alike n standing name filter rfl ?_
    have outside := (holds.allocate_slot name filter).1
    simp only [List.mem_cons,List.mem_append,not_or] at outside
    exact ⟨outside.1,outside.2.2.1⟩

theorem removeEntry_parallel (standing : Standing Q ref wear t flight u u') {id : EntryId}
    (picked : (u.store.chain ref).Picks id) :
    Parallel Q ref wear t (removeEntry (performWith n) ref id) (removeEntry (performWith n) ref id) u u' := by
  obtain ⟨ids,holds⟩ := standing.inOrder ref
  have between := holds.between (holds.mem_of_picks picked)
  unfold removeEntry
  refine .bind_of_ok (chain_apply ref u) (chain_apply ref u') ?_
  rw [standing.twin.worn.entry]
  dsimp only [Entry.moved]
  cases ((u.store.chain ref).entry ref id).filter with
  | none => exact mirrors_returned rfl rfl ⟨rfl,standing.twin⟩
  | some filter =>
    have telling : Keeping (recalling : Contract σ) (do
        runHook (performWith n) filter .postRemove ((u.store.chain ref).entry ref id).name
          ((u.store.chain ref).entry ref id).handle
        return some filter : Effect σ (Option FilterId)) :=
      (keeping_runHook (fun _ => performWith_recalls n _ _) filter).bind fun _ => keeping_pure _
    refine hooked_mirrors few alike n standing filter .preRemove _ rfl (keeping_leaving
      (recalling_overlooks ref) (performWith_recalls n) _ filter) fun result v v' asked hook => ?_
    cases result with
    | error failure => exact mirrors_failed rfl rfl asked.twin
    | ok =>
      have owned : ((u.store.chain ref).entry ref id).handle.owner = ref := rfl
      refine .bind_of_ok (chain_apply ref v) (chain_apply ref v') ?_
      rw [asked.twin.worn.isCurrent owned]
      cases current : (v.store.chain ref).isCurrent ((u.store.chain ref).entry ref id).handle with
      | false => exact mirrors_returned rfl rfl ⟨rfl,asked.twin⟩
      | true =>
        refine .bind_of_ok (dropEntry_apply ref _ _ v) (dropEntry_apply ref _ _ v') ?_
        refine .early ((keeping_logChain _ _ _).bind fun _ => telling) fun recalled => ?_
        have dropped := standing.onward few (.removed picked hook current) recalled
          (asked.drop between current _)
        refine logged_parallel dropped .debug _ _ (fun _ => telling) fun w w' left => ?_
        exact (alike.hooks few left n filter .postRemove _ _ owned).map fun _ => some filter

theorem remove_parallel (standing : Standing Q ref wear t flight u u') (name : String) :
    Parallel Q ref wear t (remove (performWith n) ref name) (remove (performWith n) ref name) u u' := by
  unfold remove
  refine .bind_of_ok (chain_apply ref u) (chain_apply ref u') ?_
  rw [standing.twin.worn.find?]
  cases found : (u.store.chain ref).find? name with
  | none => exact mirrors_failed rfl rfl standing.twin
  | some id => exact removeEntry_parallel few alike n standing (.named found)

theorem removeFilter_parallel (standing : Standing Q ref wear t flight u u') (filter : Option FilterId) :
    Parallel Q ref wear t (removeFilter (performWith n) ref filter)
      (removeFilter (performWith n) ref filter) u u' := by
  obtain ⟨ids,holds⟩ := standing.inOrder ref
  unfold removeFilter
  refine .bind_of_ok (chain_apply ref u) (chain_apply ref u') ?_
  rw [standing.twin.worn.holder? holds]
  cases found : (u.store.chain ref).holder? filter with
  | none =>
    refine .bind_of_ok (store_apply u) (store_apply u') ?_
    have labels : u'.store.label = u.store.label :=
      alike.labels (u.besides ref) (u'.besides ref) standing.twin.besides
    rw [labels]
    exact mirrors_failed rfl rfl standing.twin
  | some id =>
    dsimp only
    rw [standing.twin.worn.slot]
    exact (removeEntry_parallel few alike n standing (.holding found)).map fun _ =>
      ((u.store.chain ref).slot id).name

theorem exchange_parallel (standing : Standing Q ref wear t flight u u') (name : String)
    (filter : FilterId) (owned : h.owner = ref) :
    Parallel Q ref wear t (exchange (performWith n) ref name filter h)
      (exchange (performWith n) ref name filter (h.worn ref wear)) u u' := by
  unfold exchange
  refine .bind_of_ok (chain_apply ref u) (chain_apply ref u') ?_
  rw [standing.twin.worn.isCurrent owned,Handle.worn_entry,standing.twin.worn.slot]
  cases current : (u.store.chain ref).isCurrent h with
  | false => exact mirrors_failed rfl rfl standing.twin
  | true =>
    dsimp only [Bool.not_true,Bool.false_eq_true,↓reduceIte]
    cases ((u.store.chain ref).slot h.entry).filter with
    | none => exact mirrors_returned rfl rfl ⟨rfl,standing.twin⟩
    | some old =>
      have settling := keeping_settlement (recalling_overlooks (σ := σ) ref) h old
      have swapped := standing.onward few (.step (.replaced u ref h.entry filter (linked_of_current current)))
        standing.recalled (standing.setFilter current filter)
      refine .bind_of_ok (modifyChain_apply ref _ u) (modifyChain_apply ref _ u') ?_
      refine .bind_of_ok (store_apply _) (store_apply _) ?_
      refine logged_parallel swapped .debug _ _ (fun _ => (keeping_attemptHook (performWith_recalls n)
        filter .postAdd name h).bind settling) fun v v' standing => ?_
      refine hooked_mirrors few alike n standing filter .postAdd name owned settling
        fun result v v' standing _ => ?_
      cases result with
      | error failure => exact putBack_parallel standing owned old failure
      | ok => exact mirrors_returned rfl rfl ⟨rfl,standing.twin⟩

theorem replace_parallel (standing : Standing Q ref wear t flight u u') (name : String)
    (filter? : Option FilterId) :
    Parallel Q ref wear t (replace (performWith n) ref name filter?)
      (replace (performWith n) ref name filter?) u u' := by
  cases filter? with
  | none => exact mirrors_failed rfl rfl standing.twin
  | some filter =>
    unfold replace
    refine .bind_of_ok (needFilter_apply name filter u) (needFilter_apply name filter u') ?_
    refine .bind_of_ok (chain_apply ref u) (chain_apply ref u') ?_
    cases found : (u.store.chain ref).find? name with
    | none =>
      rw [getHandle_eq_error ref found,getHandle_eq_error ref ((standing.twin.worn.find? name).trans found)]
      exact mirrors_failed rfl rfl standing.twin
    | some id =>
      rw [getHandle_eq_ok ref found,getHandle_eq_ok ref ((standing.twin.worn.find? name).trans found),
        standing.twin.worn.handle]
      refine .bind_of_ok (ofExcept_apply _ u) (ofExcept_apply _ u') ?_
      refine hooked_mirrors few alike n standing filter .preAdd name rfl (keeping_replacement
        (recalling_overlooks ref) (performWith_recalls n) name filter _) fun result v v' standing _ => ?_
      cases result with
      | error failure => exact mirrors_failed rfl rfl standing.twin
      | ok => exact exchange_parallel few alike n standing name filter rfl

theorem clear_parallel (standing : Standing Q ref wear t flight u u')
    (goesOn : ∀ v v', Standing Q ref wear t flight v v' →
      Parallel Q ref wear t (performWith n (.clear ref))
        (performWith n (.clear ref)) v v') :
    Parallel Q ref wear t (clear (performWith n) ref) (clear (performWith n) ref) u u' := by
  have done : Parallel Q ref wear t
    (pure () : Effect σ Unit) (pure ()) u u' := mirrors_returned rfl rfl ⟨rfl,standing.twin⟩
  have recalls : Keeping (recalling : Contract σ) (performWith n (.clear ref)) := fun w =>
    performWith_recalling n _ w trivial
  unfold clear
  refine .bind_of_ok (chain_apply ref u) (chain_apply ref u') ?_
  rw [standing.twin.worn.slot]
  cases found : ((u.store.chain ref).slot Chain.head).next with
  | none => exact done
  | some id =>
    dsimp only
    split
    · exact done
    · rename_i entry
      have picked : (u.store.chain ref).Picks id := .first found (by simpa using entry)
      refine (removeEntry_parallel few alike n standing picked).bind
        (fun _ => recalls.bind fun _ => keeping_pure _) fun a _ v v' returned recalled both => ?_
      have evolves := removeEntry_keeps (performWith_evolves n) .removed picked
      have onward := standing.onward few ((meets_of_ok returned).mp evolves) recalled both.2
      exact (goesOn v v' onward).map fun _ => ()

/-- Task by task, until the chain is empty or fuel is out. -/
theorem performClear_parallel (standing : Standing Q ref wear t flight u u') :
    Parallel Q ref wear t (performWith n (.clear ref)) (performWith n (.clear ref)) u u' := by
  induction n generalizing u u' with
  | zero => exact fun _ => .stopped u u'
  | succ n ih =>
    exact (clear_parallel few alike n standing fun _ _ => ih).map fun _ => Reply.unit

theorem addAll_parallel (standing : Standing Q ref wear t flight u u') (entries : List (String × FilterId)) :
    Parallel Q ref wear t (addAll (performWith n) ref entries) (addAll (performWith n) ref entries) u u' := by
  induction entries generalizing u u' with
  | nil => exact mirrors_returned rfl rfl ⟨rfl,standing.twin⟩
  | cons entry rest ih =>
    refine (add_parallel few alike n standing .last entry.1 (some entry.2)).bind
      (fun _ => keeping_addAll (recalling_overlooks ref) (performWith_recalls n) rest)
      fun _ _ v v' returned recalled both => ?_
    have evolves := add_evolves (performWith_evolves n) standing.twin.present .last entry.1 (some entry.2)
    exact ih (standing.onward few ((meets_of_ok returned).mp evolves) recalled both.2)

/-- A call that edits this chain is answered alike. -/
theorem answer_parallel (standing : Standing Q ref wear t flight u u') {c : Call}
    (editing : c.edits = true) (here : c.sessions = [ref]) :
    Parallel Q ref wear t (answer (performWith n) c) (answer (performWith n) c) u u' := by
  have named {w : World σ} (present : ref < w.store.sessions.size) :
      (needSessions c.sessions : Effect σ Unit) w = .ok () w :=
    needSessions_apply (here ▸ by simpa using present)
  refine .bind_of_ok (named standing.twin.present) (named standing.twin.present') ?_
  cases c with
  | add r position name filter =>
    obtain rfl : r = ref := (List.cons.inj here).1
    exact (add_parallel few alike n standing position name filter).map fun _ => Reply.unit
  | remove r name =>
    obtain rfl : r = ref := (List.cons.inj here).1
    exact (remove_parallel few alike n standing name).map Reply.filter
  | removeFilter r filter =>
    obtain rfl : r = ref := (List.cons.inj here).1
    exact (removeFilter_parallel few alike n standing filter).map Reply.text
  | replace r name filter =>
    obtain rfl : r = ref := (List.cons.inj here).1
    exact (replace_parallel few alike n standing name filter).map Reply.filter
  | clear r =>
    obtain rfl : r = ref := (List.cons.inj here).1
    exact (clear_parallel few alike n standing fun _ _ => performClear_parallel few alike n).map
      fun _ => Reply.unit
  | addAll r entries =>
    obtain rfl : r = ref := (List.cons.inj here).1
    exact (addAll_parallel few alike n standing entries).map fun _ => Reply.unit
  | _ => cases editing

end Alike

theorem answer_evolves (n : Nat) (c : Call) : Evolving .free (answer (performWith n) c : Effect σ Reply) :=
  have performs := performWith_runs rfl (fun _ => evolution_edits) n
  fun w => answer_keeps performs (evolution_edits performs) (Watch.fits_free c w)

theorem answer_recalls (n : Nat) (c : Call) : Keeping recalling (answer (performWith n) c : Effect σ Reply) :=
  have performs := performWith_recalling n
  fun w => answer_keeps performs (recalling_edits performs) (Watch.fits_free c w)

/-- Calls one after the other, whatever comes of each. -/
def operate (perform : Perform σ) : List Call → Effect σ (List (Except Failure Reply))
  | [] => pure []
  | c :: rest => do
    let result ← attempt (answer perform c)
    let results ← operate perform rest
    return result :: results

theorem keeping_operate {R : Contract σ} [Lawful R] {perform : Perform σ}
    (answers : ∀ c, Keeping R (answer perform c)) (calls : List Call) :
    Keeping R (operate perform calls) := by
  induction calls with
  | nil => exact keeping_pure _
  | cons c rest ih => exact (answers c).attempt.bind fun _ => ih.bind fun _ => keeping_pure _

/-- Whatever edits of this chain follow, they come out the same. -/
theorem operate_parallel {Q : World σ → World σ → Prop} {ref : SessionRef} {wear : EntryId → UInt32}
    {t u u' : World σ} {flight : SessionRef → List EntryId}
    (few : ∀ r id, t.store.releases r id < 2^32) (alike : Alike Q ref wear) (n : Nat) {calls : List Call}
    (edits : ∀ c ∈ calls, c.edits = true ∧ c.sessions = [ref])
    (standing : Standing Q ref wear t flight u u') :
    Parallel Q ref wear t (operate (performWith n) calls) (operate (performWith n) calls) u u' := by
  induction calls generalizing u u' with
  | nil => exact mirrors_returned rfl rfl ⟨rfl,standing.twin⟩
  | cons c rest ih =>
    obtain ⟨editing,here⟩ := edits c List.mem_cons_self
    have answered := (answer_parallel few alike n standing editing here).standing few standing
      (answer_evolves n c u)
    have goesOn (result : Except Failure Reply) {v v' : World σ}
        (standing : Standing Q ref wear t flight v v') :
        Parallel Q ref wear t (do return result :: (← operate (performWith n) rest))
          (do return result :: (← operate (performWith n) rest)) v v' :=
      (ih (fun c member => edits c (List.mem_cons_of_mem _ member)) standing).map (result :: ·)
    refine answered.attempt.bind (fun _ =>
      (keeping_operate (answer_recalls n) rest).bind fun _ => keeping_pure _) fun _ _ v v' _ _ tried => ?_
    cases tried with
    | @returned reply _ v v' both =>
      obtain ⟨rfl,standing⟩ := both
      exact goesOn _ standing
    | failed failure standing => exact goesOn _ standing

end Effect
end SessionPipeline
