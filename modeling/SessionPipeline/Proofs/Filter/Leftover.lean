import SessionPipeline.Proofs.Chain.Passage
import SessionPipeline.Proofs.Filter.CodecStream

/-! The input that codecs keep. In a tidy world a codec keeps input for a session only while an entry of
the session's chain holds it. Quiet steps leave a world tidy, even in the middle of an edit, and so do
edits that take out no filter that keeps input. -/
namespace SessionPipeline

namespace Session

theorem pendingOf_setAttribute_of_ne (s : Session) {key : AttributeKey} {codec : FilterId}
    (other : key ≠ .pending codec) (value : Message) :
    (s.setAttribute key value).pendingOf codec = s.pendingOf codec := by
  simp only [setAttribute,pendingOf,bytesAttribute?,attribute?,lookup_field,lookup_filter,if_neg other.symm]

theorem pendingOf_removeAttribute_of_ne (s : Session) {key : AttributeKey} {codec : FilterId}
    (other : key ≠ .pending codec) : (s.removeAttribute key).pendingOf codec = s.pendingOf codec := by
  simp only [removeAttribute,pendingOf,bytesAttribute?,attribute?,lookup_filter,if_neg other.symm]

theorem pendingOf_removeAttribute (s : Session) (codec : FilterId) :
    (s.removeAttribute (.pending codec)).pendingOf codec = [] := by
  simp only [removeAttribute,pendingOf,bytesAttribute?,attribute?,lookup_filter,if_pos]
  rfl

theorem pending_of_removeAttribute {s : Session} {key : AttributeKey} {codec : FilterId}
    (pending : (s.removeAttribute key).pendingOf codec ≠ []) : s.pendingOf codec ≠ [] := by
  by_cases same : key = .pending codec
  · subst same
    exact absurd (s.pendingOf_removeAttribute codec) pending
  · rwa [s.pendingOf_removeAttribute_of_ne same] at pending

end Session

namespace Chain

/-- The filter that an entry of the chain holds. -/
def held (c : Chain) (id : EntryId) : Option FilterId :=
  if (c.slot id).linked && id != head && id != tail then (c.slot id).filter else none

variable {c : Chain} {ids flight : List EntryId} {id : EntryId} {filter : FilterId}

theorem held_eq_some_iff : c.held id = some filter ↔
    (c.slot id).linked = true ∧ (id ≠ head ∧ id ≠ tail) ∧ (c.slot id).filter = some filter := by
  simp [held,and_assoc]

theorem Holds.containsFilter (holds : c.Holds ids flight) (held : c.held id = some filter) :
    c.containsFilter (some filter) = true := by
  obtain ⟨linked,between,holding⟩ := held_eq_some_iff.mp held
  have member := holds.mem_of_linked linked between
  rw [Chain.containsFilter,holder?,holds.forwards_eq,List.find?_isSome]
  exact ⟨id,member,by simp [holding]⟩

theorem Holds.held_eq (holds : c.Holds ids flight) (member : id ∈ ids) :
    c.held id = (c.slot id).filter := by
  have linked := (holds.flags id).mpr (by simp [member])
  obtain ⟨notHead,notTail⟩ := holds.between member
  simp [held,linked,notHead,notTail]

/-- What a current handle passes events on to is an entry of the list. -/
theorem Holds.mem_of_leads (holds : c.Holds ids flight) (leads : c.Leads id) : id ∈ ids := by
  obtain ⟨source,outbound,current,next,onward⟩ := leads
  have known := (holds.flags source.entry).mp (Effect.linked_of_current current)
  rw [following_eq] at next
  by_cases last : source.entry = exit outbound
  · -- Nothing is beyond the end of a chain.
    have none : ahead outbound (c.slot source.entry) = none := by
      rw [last]
      cases outbound
      · exact holds.outer.2
      · exact holds.outer.1
    rw [none] at next
    exact absurd next.symm onward
  · have member : source.entry ∈ entrance outbound :: (if outbound then ids.reverse else ids) := by
      revert last
      cases outbound <;> simp [entrance,exit] at known ⊢ <;> tauto
    obtain ⟨before,after,split⟩ := List.append_of_mem member
    have behind := holds.traverses_behind outbound split
    generalize ahead outbound (c.slot source.entry) = step at behind next
    cases behind with
    | stop => exact absurd next.symm onward
    | @step x rest _ _ =>
      obtain rfl : x = id := next
      have later : x ∈ (if outbound then ids.reverse else ids) := by
        cases before with
        | nil =>
          obtain ⟨_,split⟩ := List.cons.inj split
          exact split ▸ List.mem_cons_self
        | cons _ before =>
          obtain ⟨_,split⟩ := List.cons.inj split
          exact split ▸ by simp
      cases outbound
      · exact later
      · exact List.mem_reverse.mp later

theorem Holds.allocate_held (holds : c.Holds ids flight) (name : String) (filter : FilterId)
    (x : EntryId) : (c.allocate name filter).2.held x = c.held x := by
  obtain ⟨outside,_,new⟩ := holds.allocate_slot name filter
  by_cases same : x = (c.allocate name filter).1
  · rw [same,held,held,new,holds.unlinked outside]
    rfl
  · rw [held,held,allocate_slot_of_ne c same]

theorem Holds.release_held (holds : c.Holds ids (id :: flight)) (x : EntryId) :
    (c.release id).held x = c.held x := by
  by_cases same : x = id
  · rw [same,held,held,release_slot (holds.flight_inside List.mem_cons_self),
      holds.unlinked (holds.flight_apart List.mem_cons_self)]
    rfl
  · rw [held,held,release_slot_of_ne same]

theorem Holds.insert_held (holds : c.Holds ids (id :: flight)) {name : String} {position : Position}
    (admissible : c.checkAddition name position = .ok ()) (x : EntryId) :
    (c.insert id name position).held x = if x = id then (c.slot id).filter else c.held x := by
  have apart := holds.flight_apart (List.mem_cons_self (a := id))
  simp only [List.mem_cons,List.mem_append,not_or] at apart
  rw [held,holds.insert_slot admissible x]
  by_cases same : x = id
  · subst same
    simp [apart]
  · simp [same,held]

theorem Holds.drop_held (holds : c.Holds ids flight) (member : id ∈ ids) (name : String)
    (x : EntryId) : (c.drop id name).held x = if x = id then none else c.held x := by
  obtain ⟨first,last,rfl⟩ := List.append_of_mem member
  obtain ⟨left,prev,next,right,_,_,path⟩ := path_around first last id
  rw [held,holds.drop_slot path name x]
  split
  next same => simp
  next => rfl

theorem Holds.setFilter_held (holds : c.Holds ids flight) (member : id ∈ ids) (filter : FilterId)
    (x : EntryId) : (c.setFilter id filter).held x = if x = id then some filter else c.held x := by
  have linked := (holds.flags id).mpr (by simp [member])
  obtain ⟨notHead,notTail⟩ := holds.between member
  rw [held,setFilter_slot]
  by_cases same : x = id
  · subst same
    simp [holds.inside (List.mem_cons_of_mem _ (List.mem_append_left _ member)),linked,notHead,notTail]
  · simp [same,held]

end Chain

namespace World

variable {σ : Type} {w w₁ w' : World σ} {flight flight' : SessionRef → List EntryId} {ref : SessionRef}
  {terms : Terms}

/-- The chains are in order, their entries hold filters that there are, and what keeps input for a
session is a codec that an entry of the session's chain holds. -/
structure Tidy (w : World σ) (flight : SessionRef → List EntryId) : Prop where
  inOrder : w.InOrder flight
  known : ∀ r id f, (w.store.chain r).held id = some f → f < w.store.filters.size
  clean : ∀ r codec, (w.store.session r).pendingOf codec ≠ [] →
    (w.store.filter codec).isCodec = true ∧ ∃ id, (w.store.chain r).held id = some codec

theorem filter_known {f : FilterId} (codec : (w.store.filter f).isCodec = true) :
    f < w.store.filters.size := by
  by_contra outside
  have none : w.store.filter f = .noop := by simp [Store.filter,outside]; rfl
  rw [none] at codec
  cases codec

theorem Stays.filter (stays : w.Stays w') {f : FilterId} (known : f < w.store.filters.size) :
    f < w'.store.filters.size ∧ (w'.store.filter f).isCodec = (w.store.filter f).isCodec := by
  obtain ⟨after,found,_,codec⟩ := stays.filters f _ (Array.getElem?_eq_getElem known)
  obtain ⟨inside,_⟩ := Array.getElem?_eq_some_iff.mp found
  refine ⟨inside,?_⟩
  simp only [Store.filter,Array.getD_eq_getD_getElem?,found,Array.getElem?_eq_getElem known]
  exact codec

/-- What filters there are stay what they are, wherever a run goes on to. -/
theorem Midway.filter (midway : w.Midway terms w') {f : FilterId}
    (known : f < w.store.filters.size) :
    f < w'.store.filters.size ∧ (w'.store.filter f).isCodec = (w.store.filter f).isCodec := by
  refine midway.carries (P := fun w w' => f < w.store.filters.size →
    f < w'.store.filters.size ∧ (w'.store.filter f).isCodec = (w.store.filter f).isCodec)
    (fun _ inside => ⟨inside,rfl⟩) (fun before after inside => ?_) (fun step inside => ?_)
    (fun _ _ _ inside => ⟨inside,rfl⟩) (fun _ _ _ inside => ⟨inside,rfl⟩) known
  · obtain ⟨between,same⟩ := before inside
    exact ⟨(after between).1,(after between).2.trans same⟩
  · cases step with
    | quiet quiet => exact quiet.stays.filter inside
    | awaited => exact ⟨inside,rfl⟩
    | replaced => exact ⟨inside,rfl⟩

theorem Stays.filters_le (stays : w.Stays w') : w.store.filters.size ≤ w'.store.filters.size := by
  by_contra fewer
  have last := (stays.filter (f := w'.store.filters.size) (Nat.lt_of_not_le fewer)).1
  exact Nat.lt_irrefl _ last

/-- Where no chain changes, what newly keeps input must be a codec that is held. -/
theorem Stays.tidy (stays : w.Stays w') (tidy : w.Tidy flight)
    (kept : ∀ r codec, (w'.store.session r).pendingOf codec ≠ [] →
      (w.store.session r).pendingOf codec ≠ [] ∨ (w.store.filter codec).isCodec = true ∧
        ∃ id, (w.store.chain r).held id = some codec) : w'.Tidy flight where
  inOrder r := by
    rw [stays.chain]
    exact tidy.inOrder r
  known r id f held := by
    rw [stays.chain] at held
    exact (stays.filter (tidy.known r id f held)).1
  clean r codec pending := by
    obtain ⟨isCodec,id,held⟩ := (kept r codec pending).elim (tidy.clean r codec) fun new => new
    rw [stays.chain]
    exact ⟨(stays.filter (filter_known isCodec)).2.trans isCodec,id,held⟩

theorem pending_of_mapSession {change : Session → Session} {codec : FilterId}
    (fewer : ∀ s, (change s).pendingOf codec ≠ [] → s.pendingOf codec ≠ []) {r : SessionRef}
    (pending : ((w.mapSession ref change).store.session r).pendingOf codec ≠ []) :
    (w.store.session r).pendingOf codec ≠ [] := by
  by_cases same : r = ref
  · subst same
    by_cases present : r < w.store.sessions.size
    · rw [session_mapSession present] at pending
      exact fewer _ pending
    · rwa [session_mapSession_absent w present] at pending
  · rwa [session_mapSession_of_ne w same] at pending

theorem pendingOf_erased (w : World σ) (ref : SessionRef) (codec : FilterId) :
    ((w.mapSession ref (·.removeAttribute (.pending codec))).store.session ref).pendingOf codec =
      [] := by
  by_cases present : ref < w.store.sessions.size
  · rw [session_mapSession present]
    exact Session.pendingOf_removeAttribute _ codec
  · have nobody : w.store.session ref = default := by simp [Store.session,present]
    rw [session_mapSession_absent w present,nobody]
    rfl

/-- Input is newly kept only by a codec that was fed through an entry that holds it. -/
theorem Quiet.pending (orderly : terms.tidy) (quiet : Quiet terms w w') {r : SessionRef}
    {codec : FilterId} (pending : (w'.store.session r).pendingOf codec ≠ []) :
    (w.store.session r).pendingOf codec ≠ [] ∨
      (w.store.filter codec).isCodec = true ∧ ∃ handle, w.Feeds terms codec handle r := by
  cases quiet with
  | session number handler processor =>
    by_cases new : r = w.store.sessions.size
    · subst new
      exact absurd (by simp [begin,mapStore,Store.session]; rfl) pending
    · simp [begin,mapStore,Store.session,Array.getElem?_push,new] at pending ⊢
      exact .inl pending
  | attributed ref key value others =>
    refine .inl (pending_of_mapSession (fun s there => ?_) pending)
    rwa [s.pendingOf_setAttribute_of_ne (others orderly codec) value] at there
  | kept ref other rest decodes fed =>
    by_cases same : r = ref ∧ codec = other
    · obtain ⟨rfl,rfl⟩ := same
      by_cases present : r < w.store.sessions.size
      · rw [session_mapSession present,pendingOf_setAttribute] at pending
        exact .inr ⟨decodes,fed pending⟩
      · rw [session_mapSession_absent w present] at pending
        exact .inl pending
    · by_cases elsewhere : r = ref
      · have differs : codec ≠ other := fun equal => same ⟨elsewhere,equal⟩
        refine .inl (pending_of_mapSession (fun s there => ?_) pending)
        rwa [s.pendingOf_setAttribute_of_ne (by simpa using differs.symm)] at there
      · rw [session_mapSession_of_ne w elsewhere] at pending
        exact .inl pending
  | unattributed ref key =>
    exact .inl (pending_of_mapSession (fun _ => Session.pending_of_removeAttribute) pending)
  | entered ref | closing ref | received ref | sent ref | polled ref =>
    refine .inl (pending_of_mapSession (fun s there => ?_) pending)
    exact there
  | queued handle ref id =>
    refine .inl (pending_of_mapSession (w := w.record (.arrived handle ref (.filterWrite id)))
      (fun s there => ?_) pending)
    exact there
  | took ref found outcome =>
    obtain ⟨futures,settled⟩ := settle_eq (w.dequeue ref _ _) _ outcome
    rw [settled] at pending
    refine .inl (pending_of_mapSession (fun s there => ?_) pending)
    exact there
  | _ => exact .inl pending

/-- A quiet step of tidy code leaves the world tidy, whatever slots are in flight. -/
theorem Quiet.tidy (orderly : terms.tidy) (quiet : Quiet terms w w') (tidy : w.Tidy flight) :
    w'.Tidy flight := by
  refine quiet.stays.tidy tidy fun r codec pending => (quiet.pending orderly pending).imp_right ?_
  rintro ⟨isCodec,handle,fed⟩
  obtain ⟨_,leads,holding⟩ := fed orderly
  obtain ⟨ids,holds⟩ := tidy.inOrder r
  have member := holds.mem_of_leads leads
  exact ⟨isCodec,handle.entry,(holds.held_eq member).trans holding⟩

theorem InOrder.elsewhere (inOrder : w.InOrder flight)
    (elsewhere : ∀ r, r ≠ ref → w'.store.chain r = w.store.chain r)
    (here : ∃ ids, (w'.store.chain ref).Holds ids (flight ref)) : w'.InOrder flight := by
  intro r
  by_cases same : r = ref
  · rw [same]
    exact here
  · rw [elsewhere r same]
    exact inOrder r

/-- An edit of a chain leaves the world tidy, if it brings in only filters that there are and takes out
none that keeps input. -/
theorem Tidy.edited (tidy : w.Tidy flight) {c : Chain} (here : w'.store.chain ref = c)
    (elsewhere : ∀ r, r ≠ ref → w'.store.chain r = w.store.chain r)
    (filters : w'.store.filters = w.store.filters)
    (fewer : ∀ r codec, (w'.store.session r).pendingOf codec ≠ [] →
      (w.store.session r).pendingOf codec ≠ [])
    (inOrder : w'.InOrder flight')
    (known : ∀ id f, c.held id = some f →
      (∃ x, (w.store.chain ref).held x = some f) ∨ f < w.store.filters.size)
    (keeps : ∀ codec, (w'.store.session ref).pendingOf codec ≠ [] →
      ∀ id, (w.store.chain ref).held id = some codec → ∃ x, c.held x = some codec) :
    w'.Tidy flight' where
  inOrder := inOrder
  known r id f held := by
    rw [filters]
    by_cases same : r = ref
    · subst same
      rw [here] at held
      exact (known id f held).elim (fun before => tidy.known r _ f before.choose_spec) fun new => new
    · rw [elsewhere r same] at held
      exact tidy.known r id f held
  clean r codec pending := by
    obtain ⟨isCodec,id,held⟩ := tidy.clean r codec (fewer r codec pending)
    have kind : w'.store.filter codec = w.store.filter codec := by rw [Store.filter,filters]; rfl
    refine ⟨kind ▸ isCodec,?_⟩
    by_cases same : r = ref
    · subst same
      rw [here]
      exact keeps codec pending id held
    · rw [elsewhere r same]
      exact ⟨id,held⟩

theorem Tidy.mapChain (tidy : w.Tidy flight) (present : ref < w.store.sessions.size)
    {change : Chain → Chain} (inOrder : (w.mapChain ref change).InOrder flight')
    (known : ∀ id f, (change (w.store.chain ref)).held id = some f →
      (∃ x, (w.store.chain ref).held x = some f) ∨ f < w.store.filters.size)
    (keeps : ∀ codec, (w.store.session ref).pendingOf codec ≠ [] →
      ∀ id, (w.store.chain ref).held id = some codec →
      ∃ x, (change (w.store.chain ref)).held x = some codec) :
    (w.mapChain ref change).Tidy flight' := by
  have fewer (r : SessionRef) (codec : FilterId)
      (pending : ((w.mapChain ref change).store.session r).pendingOf codec ≠ []) :
      (w.store.session r).pendingOf codec ≠ [] := by
    refine pending_of_mapSession (fun s there => ?_) pending
    exact there
  exact tidy.edited (chain_mapChain present change) (fun r other => chain_mapChain_of_ne w other change)
    rfl fewer inOrder known fun codec pending => keeps codec (fewer ref codec pending)

theorem Tidy.record (tidy : w.Tidy flight) (o : Observation) : (w.record o).Tidy flight :=
  ⟨tidy.inOrder,tidy.known,tidy.clean⟩

theorem Tidy.reserve (tidy : w.Tidy flight) (present : ref < w.store.sessions.size) (name : String)
    (filter : FilterId) : (w.reserve ref name filter).Tidy
      (flying flight ref ((w.store.chain ref).allocate name filter).1) := by
  obtain ⟨ids,holds⟩ := tidy.inOrder ref
  have same := holds.allocate_held name filter
  refine tidy.mapChain present (reserve_inOrder tidy.inOrder present name filter).1
    (fun id f held => ?_) fun codec _ id held => ⟨id,(same id).trans held⟩
  rw [same] at held
  exact .inl ⟨id,held⟩

theorem Tidy.discard {handle : Handle} (tidy : w.Tidy (flying flight ref handle.entry))
    (owner : handle.owner = ref) (present : ref < w.store.sessions.size) :
    (w.discardEntry ref handle).Tidy flight := by
  obtain ⟨ids,holds⟩ := tidy.inOrder ref
  rw [flying_self] at holds
  have same := holds.release_held
  have freed : (w.mapChain ref (·.release handle.entry)).Tidy flight := by
    refine tidy.mapChain present (discardEntry_inOrder handle owner tidy.inOrder present).1
      (fun id f held => ?_) fun codec _ id held => ⟨id,(same id).trans held⟩
    rw [same] at held
    exact .inl ⟨id,held⟩
  exact freed.record _

theorem Tidy.link {handle : Handle} {name : String} {position : Position} {filter : FilterId}
    (tidy : w.Tidy (flying flight ref handle.entry)) (present : ref < w.store.sessions.size)
    (admissible : (w.store.chain ref).checkAddition name position = .ok ())
    (named : ((w.store.chain ref).slot handle.entry).name = name)
    (holding : ((w.store.chain ref).slot handle.entry).filter = some filter)
    (known : filter < w.store.filters.size) : (w.linkEntry ref handle name position).Tidy flight := by
  obtain ⟨ids,holds⟩ := tidy.inOrder ref
  rw [flying_self] at holds
  have after := holds.insert_held admissible
  have inOrder := (linkEntry_inOrder tidy.inOrder present admissible named (by rw [holding]; rfl)).1
  have linked : (w.mapChain ref (·.insert handle.entry name position)).Tidy flight := by
    refine tidy.mapChain present inOrder (fun id f held => ?_) fun codec _ id held => ?_
    · rw [after] at held
      split at held
      · obtain rfl := Option.some.inj (holding.symm.trans held)
        exact .inr known
      · exact .inl ⟨id,held⟩
    · refine ⟨id,(after id).trans ((if_neg ?_).trans held)⟩
      rintro rfl
      have unlinked := holds.unlinked (holds.flight_apart List.mem_cons_self)
      simp [Chain.held,unlinked] at held
  exact linked.record _

/-- An entry leaves the chain and nothing is kept any more by the filter that it held. -/
theorem Tidy.drop {handle : Handle} {name : String} (tidy : w.Tidy flight)
    (here : w'.store.chain ref = (w.store.chain ref).drop handle.entry name)
    (elsewhere : ∀ r, r ≠ ref → w'.store.chain r = w.store.chain r)
    (filters : w'.store.filters = w.store.filters)
    (fewer : ∀ r codec, (w'.store.session r).pendingOf codec ≠ [] →
      (w.store.session r).pendingOf codec ≠ [])
    (between : handle.entry ≠ Chain.head ∧ handle.entry ≠ Chain.tail)
    (linked : ((w.store.chain ref).slot handle.entry).linked = true)
    (named : ((w.store.chain ref).slot handle.entry).name = name)
    (empty : ∀ f, ((w.store.chain ref).slot handle.entry).filter = some f →
      (w'.store.session ref).pendingOf f = []) : w'.Tidy flight := by
  obtain ⟨ids,holds⟩ := tidy.inOrder ref
  have member := holds.mem_of_linked linked between
  have after := holds.drop_held member name
  obtain ⟨first,last,_,left⟩ := holds.drop member
  rw [named,← here] at left
  refine tidy.edited here elsewhere filters fewer (tidy.inOrder.elsewhere elsewhere ⟨_,left⟩)
    (fun id f held => ?_) fun codec pending id held => ?_
  · rw [after] at held
    split at held
    · cases held
    · exact .inl ⟨id,held⟩
  · refine ⟨id,(after id).trans ((if_neg ?_).trans held)⟩
    rintro rfl
    rw [holds.held_eq member] at held
    exact pending (empty codec held)

theorem pending_of_edit {change : Chain → Chain} {o : Observation} {r : SessionRef} {codec : FilterId}
    (pending : (((w.mapChain ref change).record o).store.session r).pendingOf codec ≠ []) :
    (w.store.session r).pendingOf codec ≠ [] := by
  refine pending_of_mapSession (fun s there => ?_) pending
  exact there

theorem Tidy.dropEntry {handle : Handle} {name : String} (tidy : w.Tidy flight)
    (present : ref < w.store.sessions.size)
    (between : handle.entry ≠ Chain.head ∧ handle.entry ≠ Chain.tail)
    (linked : ((w.store.chain ref).slot handle.entry).linked = true)
    (named : ((w.store.chain ref).slot handle.entry).name = name)
    (empty : ∀ f, ((w.store.chain ref).slot handle.entry).filter = some f →
      (w.store.session ref).pendingOf f = []) : (w.dropEntry ref handle name).Tidy flight := by
  refine tidy.drop (chain_edit present _ _) (fun r other => chain_edit_of_ne other _ _) rfl
    (fun r codec => pending_of_edit) between linked named fun f holding => ?_
  by_contra pending
  exact pending_of_edit pending (empty f holding)

/-- A codec that has left keeps nothing once its input is erased. -/
theorem Tidy.erased {u : World σ} {handle : Handle} {name : String} {filter : FilterId}
    (tidy : w.Tidy flight) (present : ref < w.store.sessions.size)
    (sessions : u.store.sessions = (w.dropEntry ref handle name).store.sessions)
    (filters : u.store.filters = w.store.filters)
    (between : handle.entry ≠ Chain.head ∧ handle.entry ≠ Chain.tail)
    (linked : ((w.store.chain ref).slot handle.entry).linked = true)
    (named : ((w.store.chain ref).slot handle.entry).name = name)
    (holding : ((w.store.chain ref).slot handle.entry).filter = some filter) :
    (u.mapSession ref (·.removeAttribute (.pending filter))).Tidy flight := by
  have session (r : SessionRef) : u.store.session r = (w.dropEntry ref handle name).store.session r := by
    rw [Store.session,Store.session,sessions]
  have chain (r : SessionRef) :
      (u.mapSession ref (·.removeAttribute (.pending filter))).store.chain r =
        (w.dropEntry ref handle name).store.chain r := by
    refine (chain_mapSession (fun s => ?_) u ref r).trans (congrArg Session.chain (session r))
    rfl
  refine tidy.drop ((chain ref).trans (chain_edit present _ _))
    (fun r other => (chain r).trans (chain_edit_of_ne other _ _)) filters
    (fun r codec pending => ?_) between linked named fun f holds => ?_
  · have before := pending_of_mapSession (fun _ => Session.pending_of_removeAttribute) pending
    rw [session] at before
    exact pending_of_edit before
  · obtain rfl := Option.some.inj (holding.symm.trans holds)
    exact pendingOf_erased _ _ _

theorem Tidy.empty (tidy : w.Tidy flight) {f : FilterId} (plain : (w.store.filter f).isCodec = false)
    (r : SessionRef) : (w.store.session r).pendingOf f = [] := by
  by_contra pending
  rw [(tidy.clean r f pending).1] at plain
  cases plain

/-- An entry gets another filter, and nothing is kept by the filter that it held. -/
theorem Tidy.setFilter {id : EntryId} {new : FilterId} (tidy : w.Tidy flight)
    (present : ref < w.store.sessions.size) (between : id ≠ Chain.head ∧ id ≠ Chain.tail)
    (linked : ((w.store.chain ref).slot id).linked = true) (known : new < w.store.filters.size)
    (empty : ∀ old, ((w.store.chain ref).slot id).filter = some old → old ≠ new →
      (w.store.session ref).pendingOf old = []) :
    (w.mapChain ref (·.setFilter id new)).Tidy flight := by
  obtain ⟨ids,holds⟩ := tidy.inOrder ref
  have member := holds.mem_of_linked linked between
  have after := holds.setFilter_held member new
  have inOrder : (w.mapChain ref (·.setFilter id new)).InOrder flight := by
    refine tidy.inOrder.elsewhere (fun r other => chain_mapChain_of_ne w other _) ⟨ids,?_⟩
    rw [chain_mapChain present]
    exact holds.setFilter linked new
  refine tidy.mapChain present inOrder (fun x f held => ?_) fun codec pending x held => ?_
  · rw [after] at held
    split at held
    · obtain rfl := Option.some.inj held
      exact .inr known
    · exact .inl ⟨x,held⟩
  · by_cases same : x = id
    · subst same
      rw [holds.held_eq member] at held
      refine ⟨x,(after x).trans ((if_pos rfl).trans (congrArg some ?_))⟩
      by_contra differs
      exact pending (empty codec held (Ne.symm differs))
    · exact ⟨x,(after x).trans ((if_neg same).trans held)⟩

end World
end SessionPipeline
