import SessionPipeline.Proofs.Effect.Fuel
import SessionPipeline.Proofs.Filter.Upkeep

/-! At most one codec in a chain. A codec is let in only where there is none, or in the place of the one
that there is. What else could make two is a codec that is put back in its place, once the hook of the
filter that had taken it has let in another one and failed. A run that comes by no such moment leaves
every chain with one codec at most. -/
namespace SessionPipeline

/-- The entries of a chain that hold a codec. -/
def Store.codecs (s : Store) (ref : SessionRef) : List Entry :=
  ((s.chain ref).getAll ref).filter fun e => e.filter.any fun id => (s.filter id).isCodec

/-- A call that gives a chain a filter that there is not. -/
def Call.strange (s : Store) : Call → Bool
  | .add _ _ _ (some id) | .replace _ _ (some id) => s.filters.size ≤ id
  | .addAll _ entries => entries.any fun e => s.filters.size ≤ e.2
  | _ => false

namespace Effect

variable {σ : Type}

/-- Stops a run, for good, where the test holds. -/
def stopIf (test : Store → Bool) : Effect σ Unit := fun w =>
  if test w.store then .error .outOfFuel w else .ok () w

/-- A codec would come back beside another one. -/
def crowds (session : SessionRef) (handle : Handle) (old : FilterId) (s : Store) : Bool :=
  (s.chain session).isCurrent handle && (s.filter old).isCodec &&
    (s.codecs session).any (·.handle.entry != handle.entry)

theorem stopIf_stops {test : Store → Bool} {w : World σ} (stops : test w.store = true) :
    stopIf test w = .error .outOfFuel w := if_pos stops

theorem stopIf_passes {test : Store → Bool} {w : World σ} (passes : test w.store = false) :
    stopIf test w = .ok () w := if_neg (Bool.eq_false_iff.mp passes)

/-- A run goes on only where it is not stopped. -/
theorem Meets.behind_stop {R : Contract σ} [Discreet R] {α : Type} {test : Store → Bool} {w₀ w : World σ}
    {next : Unit → Effect σ α} (related : R.ended w₀ w)
    (rest : test w.store = false → Meets R w₀ (next ()) w) : Meets R w₀ (stopIf test >>= next) w := by
  cases stops : test w.store with
  | false => exact (meets_bind_of_ok (stopIf_passes stops)).mpr (rest stops)
  | true =>
    unfold Meets ends
    rw [bind_apply,stopIf_stops stops]
    exact Discreet.stop related

/-- Puts a filter back, but stops before a codec would come back beside another one. -/
def putBackAlone (session : SessionRef) (handle : Handle) (old : FilterId) (failure : Failure) :
    Effect σ (Option FilterId) := do
  stopIf (crowds session handle old)
  putBack session handle old failure

/-- Answers a call, but stops before a chain is given a filter that there is not or a codec would
come back beside another one. -/
def answerSteadily (perform : Perform σ) (c : Call) : Effect σ Reply := do
  stopIf c.strange
  needSessions c.sessions
  match c with
  | .replace ref name filter => return .filter (← replaceWith putBackAlone perform ref name filter)
  | c => ofCall perform c

def performSteadily : Nat → Perform σ
  | 0, _ => throw .outOfFuel
  | fuel + 1, .run code how => do
    match (← MonadState.get).code[code]? with
    | some body => interpret (answerSteadily (performSteadily fuel)) (body how)
    | none => return .unit
  | fuel + 1, task => ofTask (performSteadily fuel) task

end Effect

/-- How a run of a script ends that is stopped, as if out of fuel, before a chain is given a filter that
there is not or a codec would come back beside another one. -/
def Script.steadily {σ : Type} (fuel : Nat) (script : Script σ) (w : World σ) : Ending × World σ :=
  match Effect.interpret (Effect.answerSteadily (Effect.performSteadily fuel)) script w with
  | .ok reply world => (.replied reply,world)
  | .error (.failed failure) world => (.failed failure,world)
  | .error .outOfFuel world => (.outOfFuel,world)

namespace World

variable {σ : Type} {w w₁ w₂ w₃ w' : World σ} {ref : SessionRef} {name : String} {filter : FilterId}
  {position : Position} {flight : SessionRef → List EntryId} {id : EntryId}

/-- This entry of the chain holds a codec. -/
def Codes (w : World σ) (ref : SessionRef) (id : EntryId) : Prop :=
  ∃ f, (w.store.chain ref).held id = some f ∧ (w.store.filter f).isCodec = true

/-- Entries hold filters that there are, and in each chain one holds a codec at most. -/
structure Sole (w : World σ) : Prop where
  known : ∀ r id f, (w.store.chain r).held id = some f → f < w.store.filters.size
  alone : ∀ r id id', w.Codes r id → w.Codes r id' → id = id'

/-- Where entries hold what they held, nothing new holds a codec. -/
theorem Sole.unchanged (sole : w.Sole)
    (same : ∀ r id, (w'.store.chain r).held id = (w.store.chain r).held id)
    (stay : ∀ f, f < w.store.filters.size →
      f < w'.store.filters.size ∧ (w'.store.filter f).isCodec = (w.store.filter f).isCodec) :
    w'.Sole := by
  have codes {r : SessionRef} {id : EntryId} (coding : w'.Codes r id) : w.Codes r id := by
    obtain ⟨f,held,codec⟩ := coding
    rw [same] at held
    exact ⟨f,held,(stay f (sole.known r id f held)).2.symm.trans codec⟩
  refine ⟨fun r id f held => ?_,fun r id id' one other => sole.alone r id id' (codes one) (codes other)⟩
  rw [same] at held
  exact (stay f (sole.known r id f held)).1

/-- An entry comes to hold another filter or none; a codec only if no other entry holds one. -/
theorem Sole.put (sole : w.Sole) (id : EntryId) (put : Option FilterId)
    (here : ∀ x, (w'.store.chain ref).held x = if x = id then put else (w.store.chain ref).held x)
    (elsewhere : ∀ r, r ≠ ref → w'.store.chain r = w.store.chain r)
    (filters : w'.store.filters = w.store.filters)
    (known : ∀ f, put = some f → f < w.store.filters.size)
    (lone : ∀ f, put = some f → (w.store.filter f).isCodec = true → ∀ x, w.Codes ref x → x = id) :
    w'.Sole := by
  have kind (f : FilterId) : w'.store.filter f = w.store.filter f := by rw [Store.filter,filters]; rfl
  have codes {r : SessionRef} {x : EntryId} (coding : w'.Codes r x) : w.Codes r x ∨
      r = ref ∧ x = id ∧ ∃ f, put = some f ∧ (w.store.filter f).isCodec = true := by
    obtain ⟨f,held,codec⟩ := coding
    rw [kind] at codec
    by_cases same : r = ref
    · subst same
      rw [here] at held
      split at held
      · rename_i at'
        exact .inr ⟨rfl,at',f,held,codec⟩
      · exact .inl ⟨f,held,codec⟩
    · rw [elsewhere r same] at held
      exact .inl ⟨f,held,codec⟩
  constructor
  · intro r x f held
    rw [filters]
    by_cases same : r = ref
    · subst same
      rw [here] at held
      split at held
      · exact known f held
      · exact sole.known r x f held
    · rw [elsewhere r same] at held
      exact sole.known r x f held
  · intro r x y one other
    rcases codes one with one | ⟨rfl,rfl,f,given,codec⟩
    · rcases codes other with other | ⟨rfl,rfl,f,given,codec⟩
      · exact sole.alone r x y one other
      · exact lone f given codec x one
    · rcases codes other with other | ⟨_,rfl,_⟩
      · exact (lone f given codec y other).symm
      · rfl

/-- What becomes of a world, in which every chain has one codec at most if that was so before,
whatever slots are in flight. -/
structure Singles (w w' : World σ) : Prop where
  evolves : w.Evolves .free w'
  sole : w.Sparing w' → ∀ flight, w.InOrder flight → w.Sole → w'.Sole

theorem Singles.refl (w : World σ) : w.Singles w := ⟨.refl w,fun _ _ _ sole => sole⟩

theorem Singles.trans (first : w₁.Singles w₂) (second : w₂.Singles w₃) : w₁.Singles w₃ where
  evolves := first.evolves.trans second.evolves
  sole sparing flight inOrder sole := by
    have early := sparing.within (fun _ _ => Nat.le_refl _) second.evolves.releases_le
    have late := sparing.within first.evolves.releases_le fun _ _ => Nat.le_refl _
    exact second.sole late flight (first.evolves.along flight early inOrder).inOrder
      (first.sole early flight inOrder sole)

theorem Singles.quiet (quiet : Quiet .free w w') : w.Singles w' where
  evolves := .step (.quiet quiet)
  sole _ _ _ sole := by
    refine sole.unchanged (fun r id => ?_) fun f => quiet.stays.filter
    rw [quiet.chain_eq]

/-- Behind the hook of a new entry its slot is still in flight, and nothing new holds a codec. -/
theorem Singles.hooked (hook : (w.reserve ref name filter).Singles w₁)
    (present : ref < w.store.sessions.size) (sparing : w.Sparing w₁) (inOrder : w.InOrder flight)
    (sole : w.Sole) :
    ref < w₁.store.sessions.size ∧
      w₁.InOrder (flying flight ref ((w.store.chain ref).reserved ref name filter).entry) ∧
      (w₁.store.chain ref).slot ((w.store.chain ref).reserved ref name filter).entry =
        { name := name, filter := some filter,
          generation := ((w.store.chain ref).reserved ref name filter).generation } ∧
      w₁.Sole := by
  obtain ⟨ids,holds⟩ := inOrder ref
  obtain ⟨taken,_⟩ := reserve_inOrder inOrder present name filter
  obtain ⟨still,hooked,slot⟩ := hook.evolves.hooked present sparing inOrder
  refine ⟨still,hooked,slot,hook.sole sparing _ taken (sole.unchanged (fun r id => ?_) fun _ inside => ⟨inside,rfl⟩)⟩
  by_cases same : r = ref
  · subst same
    rw [reserve,chain_mapChain present]
    exact holds.allocate_held name filter id
  · rw [reserve,chain_mapChain_of_ne w same]

theorem Singles.refused (present : ref < w.store.sessions.size)
    (hook : (w.reserve ref name filter).Singles w₁) :
    w.Singles (w₁.discardEntry ref ((w.store.chain ref).reserved ref name filter)) where
  evolves := .refused present hook.evolves
  sole sparing flight inOrder sole := by
    have early := sparing.within (fun _ _ => Nat.le_refl _) (releases_le_discardEntry w₁ ref _)
    obtain ⟨present,taken,_,sole⟩ := hook.hooked present early inOrder sole
    obtain ⟨ids,holds⟩ := taken ref
    rw [flying_self] at holds
    refine sole.unchanged (fun r id => ?_) fun _ inside => ⟨inside,rfl⟩
    by_cases same : r = ref
    · subst same
      rw [discardEntry,chain_edit present]
      exact holds.release_held id
    · rw [discardEntry,chain_edit_of_ne same]

/-- A new entry may be linked behind its hook: its place is free, and it does not bring a codec to one
that is there. -/
structure Joins (w w₁ : World σ) (ref : SessionRef) (name : String) (filter : FilterId)
    (position : Position) : Prop where
  present : ref < w.store.sessions.size
  hook : (w.reserve ref name filter).Singles w₁
  admissible : (w₁.store.chain ref).checkAddition name position = .ok ()
  known : filter < w₁.store.filters.size
  lone : ∀ flight, w₁.InOrder flight → (w₁.store.filter filter).isCodec = true → ∀ x, ¬ w₁.Codes ref x

theorem Joins.linked (joins : w.Joins w₁ ref name filter position) :
    w.Singles (w₁.linkEntry ref ((w.store.chain ref).reserved ref name filter) name position) where
  evolves := .added joins.present joins.hook.evolves joins.admissible
  sole sparing flight inOrder sole := by
    have early := sparing.within (fun _ _ => Nat.le_refl _) fun _ _ => Nat.le_refl _
    obtain ⟨present,taken,slot,sole⟩ := joins.hook.hooked joins.present early inOrder sole
    obtain ⟨ids,holds⟩ := taken ref
    rw [flying_self] at holds
    refine sole.put ((w.store.chain ref).reserved ref name filter).entry (some filter) (fun x => ?_)
      (fun r other => chain_edit_of_ne other _ _) rfl (fun f given => ?_) fun f given codec x coding => ?_
    · rw [linkEntry,chain_edit present,holds.insert_held joins.admissible,slot]
    · cases given
      exact joins.known
    · cases given
      exact absurd coding (joins.lone _ taken codec x)

theorem Singles.dropped {handle : Handle} (present : ref < w.store.sessions.size) (sole : w.Sole)
    {ids : List EntryId} (holds : (w.store.chain ref).Holds ids (flight ref))
    (member : handle.entry ∈ ids) (name : String) : (w.dropEntry ref handle name).Sole := by
  refine sole.put handle.entry none (fun x => ?_) (fun r other => chain_edit_of_ne other _ _) rfl
    (fun _ => nofun) fun _ => nofun
  rw [dropEntry,chain_edit present]
  exact holds.drop_held member name x

theorem Singles.rolledBack (joins : w.Joins w₁ ref name filter position)
    (after : (w₁.linkEntry ref ((w.store.chain ref).reserved ref name filter) name position).Singles w₂)
    (current : (w₂.store.chain ref).isCurrent ((w.store.chain ref).reserved ref name filter) = true) :
    w.Singles (w₂.dropEntry ref ((w.store.chain ref).reserved ref name filter) name) where
  evolves := .rolledBack joins.present joins.hook.evolves joins.admissible after.evolves current
  sole sparing flight inOrder sole := by
    have toEnd := releases_le_dropEntry w₂ ref ((w.store.chain ref).reserved ref name filter) name
    have early := sparing.within (fun _ _ => Nat.le_refl _) fun r x =>
      Nat.le_trans (after.evolves.releases_le r x) (toEnd r x)
    have before := joins.hook.hooked joins.present early inOrder sole
    have between := (linkEntry_slot before.2.1 before.1 joins.admissible).1
    have whole := joins.linked.trans after
    have spare := sparing.within (fun _ _ => Nat.le_refl _) toEnd
    obtain ⟨ids,holds⟩ := (whole.evolves.along flight spare inOrder).inOrder ref
    refine Singles.dropped ?_ (whole.sole spare flight inOrder sole) holds ?_ name
    · exact Nat.lt_of_lt_of_le joins.present whole.evolves.sessions_le
    · exact holds.mem_of_linked (Effect.linked_of_current current) between

theorem Singles.removed (picked : (w.store.chain ref).Picks id) (hook : w.Singles w₁)
    (current : (w₁.store.chain ref).isCurrent ((w.store.chain ref).handle ref id) = true) :
    w.Singles (w₁.dropEntry ref ((w.store.chain ref).handle ref id) ((w.store.chain ref).slot id).name)
    where
  evolves := .removed picked hook.evolves current
  sole sparing flight inOrder sole := by
    have spare := sparing.within (fun _ _ => Nat.le_refl _) (releases_le_dropEntry w₁ ref _ _)
    obtain ⟨ids,holds⟩ := inOrder ref
    have between := holds.between (holds.mem_of_picks picked)
    obtain ⟨ids,holds⟩ := (hook.evolves.along flight spare inOrder).inOrder ref
    refine Singles.dropped ?_ (hook.sole spare flight inOrder sole) holds ?_ _
    · exact Nat.lt_of_lt_of_le (picked_present picked) hook.evolves.sessions_le
    · exact holds.mem_of_linked (Effect.linked_of_current current) between

/-- An entry gets another filter, a codec only if no other entry holds one. -/
theorem Sole.setFilter (sole : w.Sole) (inOrder : w.InOrder flight)
    (present : ref < w.store.sessions.size) (between : id ≠ Chain.head ∧ id ≠ Chain.tail)
    (linked : ((w.store.chain ref).slot id).linked = true) (known : filter < w.store.filters.size)
    (lone : (w.store.filter filter).isCodec = true → ∀ x, w.Codes ref x → x = id) :
    (w.mapChain ref (·.setFilter id filter)).Sole := by
  obtain ⟨ids,holds⟩ := inOrder ref
  have member := holds.mem_of_linked linked between
  refine sole.put id (some filter) (fun x => ?_) (fun r other => chain_mapChain_of_ne w other _) rfl
    (fun f given => ?_) fun f given => ?_
  · rw [chain_mapChain present]
    exact holds.setFilter_held member filter x
  · cases given
    exact known
  · cases given
    exact lone

theorem Singles.replaced (present : ref < w.store.sessions.size)
    (between : id ≠ Chain.head ∧ id ≠ Chain.tail) (linked : ((w.store.chain ref).slot id).linked = true)
    (known : filter < w.store.filters.size)
    (lone : ∀ flight, w.InOrder flight → (w.store.filter filter).isCodec = true →
      ∀ x, w.Codes ref x → x = id) : w.Singles (w.mapChain ref (·.setFilter id filter)) where
  evolves := .step (.replaced w ref id filter linked)
  sole _ flight inOrder sole :=
    sole.setFilter inOrder present between linked known (lone flight inOrder)

/-- The filter that an entry held comes back. -/
theorem Singles.undone {old : FilterId} (present : ref < w.store.sessions.size)
    (between : id ≠ Chain.head ∧ id ≠ Chain.tail) (linked : ((w.store.chain ref).slot id).linked = true)
    (holding : ((w.store.chain ref).slot id).filter = some old) (since : w.Singles w')
    (still : ((w'.store.chain ref).slot id).linked = true)
    (lone : ∀ flight, w'.InOrder flight → (w'.store.filter old).isCodec = true →
      ∀ x, w'.Codes ref x → x = id) : w.Singles (w'.mapChain ref (·.setFilter id old)) where
  evolves := since.evolves.trans (.step (.replaced w' ref id old still))
  sole sparing flight inOrder sole := by
    obtain ⟨ids,holds⟩ := inOrder ref
    have member := holds.mem_of_linked linked between
    have known := sole.known ref id old ((holds.held_eq member).trans holding)
    have order := (since.evolves.along flight sparing inOrder).inOrder
    refine (since.sole sparing flight inOrder sole).setFilter order ?_ between still ?_ (lone flight order)
    · exact Nat.lt_of_lt_of_le present since.evolves.sessions_le
    · exact (Midway.filter (.ended since.evolves) known).1

end World

namespace Effect

open World

variable {σ : Type} {w w₁ w₂ w' : World σ} {perform : Perform σ} {ref : SessionRef} {name : String}
  {filter : FilterId} {handle : Handle} {position : Position}

/-- To leave one codec at most in every chain. -/
def lonesome : Contract σ where
  terms := .free
  ended := World.Singles
  stopped := World.Midway .free

instance : Permissive (lonesome : Contract σ) where
  refl := .refl
  trans := .trans
  quiet := .quiet
  stop singles := .ended singles.evolves
  after before midway := midway.after before.evolves
  awaited w id listener open' := ⟨.step (.awaited w id listener open'),fun _ _ _ sole =>
    sole.unchanged (fun _ _ => rfl) fun _ inside => ⟨inside,rfl⟩⟩

/-- A codec that is let in finds others under its name only. -/
theorem codecs_named {id : FilterId} (isCodec : (w.store.filter id).isCodec = true)
    (returned : runHook perform id .preAdd name handle w = .ok () w') :
    w'.store.chain = w.store.chain ∧ w'.store.filters = w.store.filters ∧
      ∀ flight, w.InOrder flight → ∀ x, w.Codes handle.owner x →
        ((w.store.chain handle.owner).slot x).name = name := by
  obtain ⟨others,admitted,listing⟩ := runHook_preAdd_admits isCodec returned
  obtain ⟨⟨chain,filters⟩,_,named⟩ := admitCodec_ok admitted
  refine ⟨chain,filters,fun flight inOrder x coding => ?_⟩
  obtain ⟨f,held,codec⟩ := coding
  obtain ⟨ids,holds⟩ := inOrder handle.owner
  obtain ⟨linked,between,holding⟩ := Chain.held_eq_some_iff.mp held
  have listed : x ∈ (w.store.chain handle.owner).forwards := by
    rw [holds.forwards_eq]
    exact holds.mem_of_linked linked between
  exact (named _ (listing x listed f holding codec)).1

theorem codes_congr (chain : w'.store.chain = w.store.chain) (filters : w'.store.filters = w.store.filters)
    {x : EntryId} (coding : w'.Codes ref x) : w.Codes ref x := by
  obtain ⟨f,held,codec⟩ := coding
  rw [chain] at held
  rw [Store.filter,filters] at codec
  exact ⟨f,held,codec⟩

section Performing

variable (runs : ∀ code how, Keeping lonesome (perform (.run code how)))
include runs

/-- A new entry is linked behind a hook, or its slot is freed. -/
theorem admitEntry_singles (present : ref < w.store.sessions.size) (position : Position) (name : String)
    (known : filter < w.store.filters.size) :
    ends (admitEntry perform ref position name filter)
      (fun handle w' => handle = (w.store.chain ref).reserved ref name filter ∧
        ∃ w₁, w.Joins w₁ ref name filter position ∧ w' = w₁.linkEntry ref handle name position)
      (fun _ => w.Singles) (w.Midway .free) w := by
  unfold admitEntry
  rw [ends_bind_of_ok (chain_apply ref w),ends_bind,ends_ofExcept]
  cases (w.store.chain ref).checkAddition name position with
  | error failure => exact .refl w
  | ok =>
    dsimp only
    rw [ends_bind_of_ok (allocateEntry_apply ref name filter w),ends_bind,ends_attempt]
    refine ends_mono (ends_told (keeping_runHook (fun _ => runs _ _) filter _)) ?_ ?_ ?_
    · rintro _ w₁ ⟨returned,hook⟩
      dsimp only
      rw [ends_bind_of_ok (chain_apply ref w₁)]
      cases admissible : (w₁.store.chain ref).checkAddition name position with
      | error failure => exact .refused present hook
      | ok =>
        obtain ⟨inside,kind⟩ := Midway.filter (.ended hook.evolves)
          (show filter < (w.reserve ref name filter).store.filters.size from known)
        refine ⟨rfl,w₁,⟨present,hook,admissible,inside,fun flight inOrder codec x coding => ?_⟩,rfl⟩
        -- The hook of a codec has let no code run, and no entry has the name of the new one.
        obtain ⟨chain,filters,named⟩ := codecs_named (kind.symm.trans codec) returned
        have order : (w.reserve ref name filter).InOrder flight := fun r => chain ▸ inOrder r
        have taken := named flight order x (codes_congr chain filters coding)
        obtain ⟨ids,holds⟩ := inOrder ref
        obtain ⟨f,held,_⟩ := coding
        obtain ⟨linked,between,_⟩ := Chain.held_eq_some_iff.mp held
        have found : (w₁.store.chain ref).find? name = some x := by
          refine (holds.find?_eq_some_iff name x).mpr ⟨holds.mem_of_linked linked between,?_⟩
          rw [chain]
          exact taken
        rw [(Chain.checkAddition_eq_ok admissible).1] at found
        cases found
    · rintro failure w₁ ⟨_,hook⟩
      exact .refused present hook
    · intro w₁ hook
      exact .adding (.refl w) present hook

theorem confirmEntry_singles (joins : w.Joins w₁ ref name filter position)
    (after : (w₁.linkEntry ref ((w.store.chain ref).reserved ref name filter) name position).Singles w₂) :
    Meets lonesome w
      (confirmEntry perform ref name filter ((w.store.chain ref).reserved ref name filter)) w₂ := by
  have linked := joins.linked.trans after
  unfold confirmEntry
  refine (keeping_runHook (fun _ => runs _ _) filter w₂).bind_attempt
    (fun _ midway => midway.after linked.evolves) fun result w₃ told => ?_
  cases result with
  | ok => exact linked.trans told
  | error failure =>
    dsimp only
    rw [meets_bind_of_ok (chain_apply ref w₃)]
    split
    · rename_i current
      rw [meets_bind_of_ok (dropEntry_apply ref _ name w₃)]
      exact (keeping_logFail ref .debug _ failure).from (.rolledBack joins (after.trans told) current)
    · exact (keeping_logFail ref .debug _ failure).from (linked.trans told)

theorem add_singles (present : ref < w.store.sessions.size) (position : Position) (name : String)
    {filter? : Option FilterId} (known : ∀ id, filter? = some id → id < w.store.filters.size) :
    Meets lonesome w (add perform ref position name filter?) w := by
  cases filter? with
  | none => exact .refl w
  | some filter =>
    rw [add_some,meets_bind]
    refine ends_mono (admitEntry_singles runs present position name (known filter rfl)) ?_
      (fun _ _ before => before) fun _ midway => midway
    rintro _ w' ⟨rfl,w₁,joins,rfl⟩
    rw [meets_bind_of_ok (store_apply _),meets_bind_of_ok (logChain_apply ref _ _ _)]
    exact confirmEntry_singles runs joins (.quiet (.logged _ _ _ _ _))

theorem addAll_singles {entries : List (String × FilterId)} (present : ref < w.store.sessions.size)
    (known : ∀ entry ∈ entries, entry.2 < w.store.filters.size) :
    Meets lonesome w (addAll perform ref entries) w := by
  induction entries generalizing w with
  | nil => exact .refl w
  | cons entry rest ih =>
    unfold addAll
    have first : ∀ id, some entry.2 = some id → id < w.store.filters.size := by
      rintro _ ⟨⟩
      exact known entry List.mem_cons_self
    refine (add_singles runs present .last entry.1 first).bind fun _ w₁ before => ?_
    refine (ih (Nat.lt_of_lt_of_le present before.evolves.sessions_le) fun other member => ?_).from before
    exact (Midway.filter (.ended before.evolves) (known other (List.mem_cons_of_mem _ member))).1

omit runs in
/-- Where a codec comes back beside no other one, it is the only one. -/
theorem alone_of_crowds {flight : SessionRef → List EntryId} {old : FilterId} (inOrder : w.InOrder flight)
    (current : (w.store.chain ref).isCurrent handle = true)
    (codec : (w.store.filter old).isCodec = true) (clear : crowds ref handle old w.store = false)
    {x : EntryId} (coding : w.Codes ref x) : x = handle.entry := by
  obtain ⟨ids,holds⟩ := inOrder ref
  obtain ⟨f,held,isCodec⟩ := coding
  obtain ⟨linked,between,holding⟩ := Chain.held_eq_some_iff.mp held
  have listed : (w.store.chain ref).entry ref x ∈ w.store.codecs ref := by
    refine List.mem_filter.mpr ⟨?_,by simp [Chain.entry,holding,isCodec]⟩
    rw [holds.getAll_eq]
    exact List.mem_map_of_mem (holds.mem_of_linked linked between)
  simp only [crowds,current,codec,Bool.and_self,Bool.true_and,List.any_eq_false] at clear
  simpa [Chain.entry,Chain.handle] using clear _ listed

/-- A filter that has taken the place of another makes way again if its hook fails. -/
theorem exchange_singles (present : ref < w.store.sessions.size)
    (between : handle.entry ≠ Chain.head ∧ handle.entry ≠ Chain.tail)
    (known : filter < w.store.filters.size)
    (lone : ∀ flight, w.InOrder flight → (w.store.filter filter).isCodec = true →
      ∀ x, w.Codes ref x → x = handle.entry) :
    Meets lonesome w (exchangeWith putBackAlone perform ref name filter handle) w := by
  unfold exchangeWith
  rw [meets_bind_of_ok (chain_apply ref w)]
  dsimp only
  split
  · exact .refl w
  · rename_i current
    have linked := linked_of_current (by simpa using current)
    split
    · exact .refl w
    · rename_i old holding
      rw [meets_bind_of_ok (modifyChain_apply ref _ w),meets_bind_of_ok (store_apply _),
        meets_bind_of_ok (logChain_apply ref _ _ _)]
      have put (text : Bytes) := (Singles.replaced present between linked known lone).trans
        (.quiet (.logged _ chainLogger .debug text {}))
      refine ((keeping_runHook (fun _ => runs _ _) filter).from (put _)).bind_attempt
        (fun _ midway => midway) fun result w₁ told => ?_
      cases result with
      | ok => exact told
      | error failure =>
        dsimp only
        unfold putBackAlone putBack
        refine .behind_stop told fun roomy => ?_
        rw [meets_bind_of_ok (chain_apply ref w₁)]
        dsimp only
        split
        · rename_i current'
          rw [meets_bind_of_ok (modifyChain_apply ref _ w₁)]
          refine Singles.undone present between linked holding told (linked_of_current current') ?_
          exact fun flight inOrder codec x => alone_of_crowds inOrder current' codec roomy
        · exact told

theorem replace_singles (name : String) {filter? : Option FilterId}
    (known : ∀ id, filter? = some id → id < w.store.filters.size) :
    Meets lonesome w (replaceWith putBackAlone perform ref name filter?) w := by
  by_cases ordered : ∃ flight, w.InOrder flight
  · cases filter? with
    | none => exact .refl w
    | some new =>
      unfold replaceWith
      rw [meets_bind_of_ok (needFilter_apply name new w),meets_bind_of_ok (chain_apply ref w)]
      cases found : (w.store.chain ref).find? name with
      | none =>
        rw [getHandle_eq_error ref found]
        exact .refl w
      | some id =>
        obtain ⟨flight,inOrder⟩ := ordered
        obtain ⟨ids,holds⟩ := inOrder ref
        obtain ⟨member,_⟩ := (holds.find?_eq_some_iff name id).mp found
        rw [getHandle_eq_ok ref found,meets_bind_of_ok (ofExcept_apply _ w)]
        refine meets_attempt (keeping_runHook (fun _ => runs _ _) new) (fun w' midway => midway)
          (fun _ w' returned hook => ?_) fun failure w' _ hook => ?_
        · obtain ⟨inside,kind⟩ := Midway.filter (.ended hook.evolves) (known new rfl)
          refine (exchange_singles runs ?_ (holds.between member) inside ?_).from hook
          · exact Nat.lt_of_lt_of_le (picked_present (.named found)) hook.evolves.sessions_le
          · intro flight' inOrder' codec x coding
            obtain ⟨chain,filters,named⟩ := codecs_named (kind.symm.trans codec) returned
            obtain ⟨f,held,isCodec⟩ := codes_congr chain filters coding
            obtain ⟨linked,between,_⟩ := Chain.held_eq_some_iff.mp held
            have again := (holds.find?_eq_some_iff name x).mpr
              ⟨holds.mem_of_linked linked between,named flight inOrder x ⟨f,held,isCodec⟩⟩
            exact Option.some.inj (again.symm.trans found)
        · exact hook
  · have evolving (code : CodeId) (how : Invocation) : Evolving .free (perform (.run code how)) :=
      (runs code how).weaken (fun _ _ singles => singles.evolves) fun _ _ midway => midway
    have undoes (session : SessionRef) (handle : Handle) (old : FilterId) (failure : Failure) :
        Evolving .free (putBackAlone session handle old failure : Effect σ (Option FilterId)) :=
      fun w => .behind_stop (.refl w) fun _ => evolving_putBack _ _ _ _ w
    have loose {w' : World σ} (evolves : w.Evolves .free w') : w.Singles w' :=
      ⟨evolves,fun _ flight inOrder => absurd ⟨flight,inOrder⟩ ordered⟩
    exact ends_mono (evolving_replaceWith evolving undoes ref name filter? w) (fun _ _ => loose)
      (fun _ _ => loose) fun _ midway => midway

end Performing

/-- No call makes a second codec. -/
theorem answerSteadily_keeps (performs : Performs lonesome perform) (c : Call) :
    Keeping lonesome (answerSteadily perform c) := by
  intro w
  have runs := keeping_run performs
  have finish (reply : Reply) : Keeping lonesome (pure reply : Effect σ Reply) := keeping_pure reply
  unfold answerSteadily
  refine .behind_stop (.refl w) fun familiar => needed_keeps fun named => ?_
  cases c with
  | add ref position name filter =>
    have present := named ref (by simp [Call.sessions])
    have known : ∀ id, filter = some id → id < w.store.filters.size := by
      rintro id rfl
      simpa [Call.strange] using familiar
    exact (add_singles runs present position name known).bind fun _ _ => (finish _).from
  | remove ref name => exact (remove_keeps (removeEntry_keeps runs .removed) name).bind (fun _ => finish _) w
  | removeFilter ref filter =>
    exact (removeFilter_keeps (removeEntry_keeps runs .removed) filter).bind (fun _ => finish _) w
  | replace ref name filter =>
    have known : ∀ id, filter = some id → id < w.store.filters.size := by
      rintro id rfl
      simpa [Call.strange] using familiar
    exact (replace_singles runs name known).bind fun _ _ => (finish _).from
  | clear ref => exact keeping_unit (clear_keeps (removeEntry_keeps runs .removed) fun w => performs _ w trivial) w
  | addAll ref entries =>
    have present := named ref (by simp [Call.sessions])
    have known : ∀ entry ∈ entries, entry.2 < w.store.filters.size := by
      simpa [Call.strange] using familiar
    exact (addAll_singles runs present known).bind fun _ _ => (finish _).from
  | _ => exact unediting_keeps performs rfl (Watch.fits_free _ w) named

theorem keeping_answers (performs : Performs lonesome perform) (script : Script σ) :
    Keeping lonesome (interpret (answerSteadily perform) script) := by
  rw [← interpretUntil_never]
  exact interpretUntil_keeps (fun c _ w _ => answerSteadily_keeps performs c w) script

theorem performSteadily_keeps (fuel : Nat) : Performs lonesome (performSteadily fuel : Perform σ) := by
  induction fuel with
  | zero => exact fun _ w _ => .ended (.refl w)
  | succ fuel ih =>
    intro task w admitted
    cases task with
    | run code how =>
      refine keeping_get.bind (fun v => ?_) w
      split
      · exact keeping_answers ih _
      · exact keeping_pure _
    | clear ref =>
      exact keeping_unit (clear_keeps (removeEntry_keeps (keeping_run ih) .removed) fun w => ih _ w trivial) w
    | _ => exact ofTask_keeps ih (by rintro _ _ ⟨⟩) (by rintro _ ⟨⟩) admitted

theorem stopIf_below {α : Type} {test : Store → Bool} {m m' : Effect σ α} (below : Below m m') :
    Below (stopIf test >>= fun _ => m) m' := by
  intro w
  cases stops : test w.store with
  | true => exact .inl ⟨w,by rw [bind_apply,stopIf_stops stops]⟩
  | false =>
    rw [bind_of_ok (stopIf_passes stops)]
    exact below w

theorem answerSteadily_below {perform' : Perform σ} (performs : ∀ task, Below (perform task) (perform' task))
    (c : Call) : Below (answerSteadily perform c) (answer perform' c) := by
  refine stopIf_below (.after _ fun _ => ?_)
  cases c with
  | replace ref name filter =>
    have undoes (session : SessionRef) (handle : Handle) (old : FilterId) (failure : Failure) :
        Below (putBackAlone session handle old failure : Effect σ (Option FilterId))
          (putBack session handle old failure) := stopIf_below (.refl _)
    exact (below_replaceWith performs undoes ref name filter).before _
  | _ => exact below_ofCall performs _

theorem performSteadily_below (fuel : Nat) (task : Task) :
    Below (performSteadily fuel task : Effect σ Reply) (performWith fuel task) := by
  induction fuel generalizing task with
  | zero => exact below_outOfFuel _
  | succ fuel ih =>
    cases task with
    | run code how =>
      refine .after _ fun w => ?_
      cases w.code[code]? with
      | some body => exact below_interpret (answerSteadily_below ih) _
      | none => exact .refl _
    | _ => exact below_ofTask ih _

end Effect

/-- A run that is not stopped is the run itself. -/
theorem Script.execute_steadily {σ : Type} {fuel : Nat} {script : Script σ} {w : World σ}
    (ended : (script.steadily fuel w).1 ≠ .outOfFuel) :
    script.execute fuel w = script.steadily fuel w := by
  have below := Effect.below_interpret (Effect.answerSteadily_below (Effect.performSteadily_below fuel))
    script w
  unfold steadily at ended ⊢
  unfold execute Effect.ofScript
  rcases below with ⟨v,out⟩ | same
  · rw [out] at ended
    exact absurd rfl ended
  · rewrite [same]
    rfl

theorem Script.steadily_singles {σ : Type} {fuel : Nat} {script : Script σ} {w : World σ}
    (ended : (script.steadily fuel w).1 ≠ .outOfFuel) : w.Singles (script.steadily fuel w).2 := by
  have singles := Effect.keeping_answers (Effect.performSteadily_keeps fuel) script w
  unfold Effect.Meets Effect.ends at singles
  unfold steadily at ended ⊢
  split at singles
  · rename_i result
    rw [result]
    exact singles
  · rename_i result
    rw [result]
    exact singles
  · rename_i result
    rw [result] at ended
    exact absurd rfl ended

namespace World

variable {σ : Type} {w : World σ}

/-- The worlds that runs of scripts reach from an empty one, each run having ended, freed no slot 2^32
times, given chains only filters that there are, and put no codec back beside another one. -/
inductive Steady : World σ → Prop
  | fresh (own : σ) : Steady { own := own }
  | run {w w' : World σ} {script : Script σ} {fuel : Nat} {ending : Ending} (before : Steady w)
      (ran : script.execute fuel w = (ending,w')) (steady : (script.steadily fuel w).1 ≠ .outOfFuel)
      (sparing : w.Sparing w') : Steady w'

theorem Steady.run_of_short {script : Script σ} {fuel : Nat} (before : w.Steady)
    (steady : (script.steadily fuel w).1 ≠ .outOfFuel)
    (short : (script.execute fuel w).2.store.journal.length < 2 ^ 32) :
    (script.execute fuel w).2.Steady := .run before rfl steady (sparing_of_short short)

theorem Steady.reached (steady : w.Steady) : w.Reached := by
  induction steady with
  | fresh own => exact .fresh own
  | run _ ran steady sparing ih =>
    refine .run ih ran (fun out => ?_) sparing
    rw [← Script.execute_steadily steady,ran] at steady
    exact steady out

theorem fresh_sole (own : σ) : ({ own := own } : World σ).Sole := by
  have none (r : SessionRef) (id : EntryId) : (({ own := own } : World σ).store.chain r).held id = none := by
    rw [chain_absent (Nat.not_lt_zero r)]
    by_contra held
    obtain ⟨f,held⟩ := Option.ne_none_iff_exists'.mp held
    obtain ⟨linked,⟨notHead,notTail⟩,_⟩ := Chain.held_eq_some_iff.mp held
    have member := (Chain.empty_holds.flags id).mp linked
    simp [notHead,notTail] at member
  refine ⟨fun r id f held => ?_,fun r id id' one _ => ?_⟩
  · rw [none] at held
    cases held
  · obtain ⟨f,held,_⟩ := one
    rw [none] at held
    cases held

theorem Steady.sole (steady : w.Steady) : w.Sole := by
  induction steady with
  | fresh own => exact fresh_sole own
  | run before ran steady sparing ih =>
    have singles := Script.steadily_singles steady
    rw [← Script.execute_steadily steady,ran] at singles
    exact singles.sole sparing _ before.reached.inOrder ih

/-- Whatever scripts and the hooks of filters have done to the chains of a world, succeeding or not: if
no codec was put back beside another one, each chain has one entry at most that holds a codec. -/
theorem steady_codecs (steady : w.Steady) (ref : SessionRef) : (w.store.codecs ref).length ≤ 1 := by
  obtain ⟨ids,holds⟩ := steady.reached.inOrder ref
  have coding (id : EntryId) (member : id ∈ ids.filter fun id =>
      ((w.store.chain ref).slot id).filter.any fun f => (w.store.filter f).isCodec) : w.Codes ref id := by
    obtain ⟨member,codec⟩ := List.mem_filter.mp member
    obtain ⟨f,holding,codec⟩ := (Option.any_eq_true ..).mp codec
    exact ⟨f,(holds.held_eq member).trans holding,codec⟩
  have codecs : w.store.codecs ref = (ids.filter fun id =>
      ((w.store.chain ref).slot id).filter.any fun f => (w.store.filter f).isCodec).map
        ((w.store.chain ref).entry ref) := by
    rw [Store.codecs,holds.getAll_eq,List.filter_map]
    rfl
  rw [codecs,List.length_map]
  have distinct := holds.ids_nodup.filter fun id =>
    ((w.store.chain ref).slot id).filter.any fun f => (w.store.filter f).isCodec
  generalize ids.filter _ = kept at coding distinct
  rcases kept with _ | ⟨id,_ | ⟨id',rest⟩⟩
  · exact Nat.zero_le 1
  · exact Nat.le_refl 1
  · have same := steady.sole.alone ref id id' (coding id (by simp)) (coding id' (by simp))
    simp [same] at distinct

/-- Makes a call once its entry is there, whatever comes of it, and objects. -/
def pushy (c : Call) : Invocation → Script Unit
  | .hook .postAdd _ _ => .attempt (.invoke c) fun _ => .fail (.runtime "no")
  | _ => .done .unit

/-- A codec and another filter, and a filter that tries to take the place of one of them. -/
def pushing (place : String) (c : Call) : Script Unit :=
  .call (.newHandler .adapter) fun _ => .call (.newProcessor (.loopback 0)) fun _ =>
  .call (.newSession (some 0) (some 0) 4 .unlimited) fun _ => .call (.newFilter (.codec 64 64)) fun _ =>
  .call (.newFilter (.codec 64 64)) fun _ => .call (.newFilter .noop) fun _ =>
  .define (pushy c) fun code => .call (.newFilter (.custom "pushy" code)) fun _ =>
  .call (.add 0 .last "codec" (some 0)) fun _ => .call (.add 0 .last "own" (some 2)) fun _ =>
  .attempt (.invoke (.replace 0 place (some 3))) fun _ => .done .unit

def pushed (place : String) (c : Call) : World Unit := ((pushing place c).execute 8 { own := () }).2

/-- Another codec has taken the place of the first meanwhile. -/
theorem steady_codecs_exchanged : ((pushed "own" (.replace 0 "codec" (some 1))).store.codecs 0).length ≤ 1 ∧
    ((pushed "own" (.replace 0 "codec" (some 1))).store.codecs 0).map (·.filter) = [some 1] := by
  have replied : (match ((pushing "own" (.replace 0 "codec" (some 1))).steadily 8 { own := () }).1 with
    | .replied _ => true
    | _ => false) = true := by decide +kernel
  have steady : ((pushing "own" (.replace 0 "codec" (some 1))).steadily 8 { own := () }).1 ≠
      .outOfFuel := by
    intro out
    rw [out] at replied
    cases replied
  have reached : (pushed "own" (.replace 0 "codec" (some 1))).Steady :=
    .run_of_short (.fresh ()) steady (by decide +kernel)
  exact ⟨steady_codecs reached 0,by decide +kernel⟩

/-- The codec comes back beside another one that has come in meanwhile. -/
theorem codecs_crowded :
    ((pushed "codec" (.add 0 .last "second" (some 1))).store.codecs 0).map (·.filter) =
      [some 0,some 1] := by
  decide +kernel

end World
end SessionPipeline
