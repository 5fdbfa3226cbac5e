import SessionPipeline.Proofs.Session.Confinement
import SessionPipeline.Proofs.Effect.Following
import SessionPipeline.Proofs.Effect.Operations

/-! Two worlds that are the same to one session while a run goes on in it. What is made in the run is made
under the same names in both; whatever is not the session's stays as the run found it. -/
namespace SessionPipeline

variable {τ : Type} [Naming τ]

theorem getD_push {α : Type} (xs : Array α) (x d : α) (i : Nat) :
    (xs.push x).getD i d = if i = xs.size then x else xs.getD i d := by
  simp only [Array.getD_eq_getD_getElem?,Array.getElem?_push]
  split <;> rfl

theorem getD_modify {α : Type} (xs : Array α) (f : α → α) (d : α) {i j : Nat} (inside : j < xs.size) :
    (xs.modify i f).getD j d = if i = j then f (xs.getD j d) else xs.getD j d := by
  simp only [Array.getD_eq_getD_getElem?,Array.getElem?_modify,Array.getElem?_eq_getElem inside]
  split <;> rfl

namespace World

def Made {σ : Type} (w : World σ) : Name → Prop
  | .request id => id < w.store.requests.size
  | .future id => id < w.store.futures.size
  | .code id => id < w.code.size

def withRequest {σ : Type} (w : World σ) (r : WriteRequest) : World σ :=
  w.mapStore fun s => { s with requests := s.requests.push r }

def withFuture {σ : Type} (w : World σ) : World σ :=
  w.mapStore fun s => { s with futures := s.futures.push {} }

def withCode {σ : Type} (w : World σ) (body : Invocation → Script σ) : World σ :=
  { w with code := w.code.push body }

def remember (w : World (SessionRef → τ)) (ref : SessionRef) (memory : τ) : World (SessionRef → τ) :=
  { w with own := Function.update w.own ref memory }

omit [Naming τ] in
theorem own_remember (w : World (SessionRef → τ)) (ref : SessionRef) (memory : τ) :
    (w.remember ref memory).own ref = memory := by simp [remember]

def mapFuture {σ : Type} (w : World σ) (id : FutureId) (change : WriteFuture → WriteFuture) : World σ :=
  w.mapStore fun s => { s with futures := s.futures.modify id change }

def counted {σ : Type} (w : World σ) (id : ProcessorId) : World σ :=
  w.mapStore fun s => { s with processors := s.processors.modify id Processor.count }

/-- Two worlds are the same to a session. -/
structure SameTo (w : World (SessionRef → τ)) (ref : SessionRef) (known : Set Name)
    (v : World (SessionRef → τ)) : Prop where
  agrees : w.store.Agrees ref known v.store
  memory : w.own ref = v.own ref
  code : ∀ id, .code id ∈ known → w.code[id]? = v.code[id]?

/-- Another world has made one thing more, of this name. -/
structure Adds {σ : Type} (w u : World σ) (new : Name) : Prop where
  made : ∀ n, u.Made n ↔ w.Made n ∨ n = new
  unmade : ¬ w.Made new
  request : ∀ id, .request id ≠ new → u.store.request id = w.store.request id
  future : ∀ id, .future id ≠ new → u.store.future id = w.store.future id
  code : ∀ id, .code id ≠ new → u.code[id]? = w.code[id]?
  own : u.own = w.own
  sessions : u.store.sessions = w.store.sessions
  filters : u.store.filters = w.store.filters
  handlers : u.store.handlers = w.store.handlers
  processors : u.store.processors = w.store.processors
  journal : u.store.journal = w.store.journal

namespace Adds

variable {σ : Type} {w u : World σ} {new : Name} (adds : w.Adds u new)
include adds

theorem ne {n : Name} (made : w.Made n) : n ≠ new := fun same => adds.unmade (same ▸ made)

theorem session (ref : SessionRef) : u.store.session ref = w.store.session ref := by
  unfold Store.session
  rw [adds.sessions]

theorem eventsOf (ref : SessionRef) : u.store.eventsOf ref = w.store.eventsOf ref := by
  unfold Store.eventsOf
  rw [adds.journal]

theorem serves {code : CodeId} (serves : u.store.Serves code) : w.store.Serves code := by
  unfold Store.Serves Store.filter Store.handler Store.processor at serves ⊢
  rwa [adds.filters,adds.handlers,adds.processors] at serves

end Adds

namespace Adds

variable {w u v u' : World (SessionRef → τ)} {new : Name} {ref : SessionRef} {known more : Set Name}

/-- What is made leads to what is known. -/
theorem within (adds : w.Adds u new) (within : w.Within ref known) (larger : known ⊆ more)
    (before : ∀ n ∈ more, n ≠ new → n ∈ known)
    (request : ∀ id, new = .request id → ∀ n ∈ (u.store.request id).names, n ∈ known)
    (future : ∀ id, new = .future id → u.store.future id = {})
    (code : ∀ id, new = .code id → ∃ body, u.code[id]? = some body ∧ Confines ref known body) :
    u.Within ref more where
  present := adds.sessions ▸ within.present
  store := {
    queue := by
      obtain ⟨ids,held,waiting⟩ := within.store.queue
      rw [adds.session]
      exact ⟨ids,held,fun id member => larger (waiting id member)⟩
    requests := fun id member n named => by
      by_cases same : .request id = new
      · exact larger (request id same.symm n named)
      · rw [adds.request id same] at named
        exact larger (within.store.requests id (before _ member same) n named)
    futures := fun id member n named => by
      by_cases same : .future id = new
      · rw [future id same.symm] at named
        cases named
      · rw [adds.future id same] at named
        exact larger (within.store.futures id (before _ member same) n named)
    events := fun o happened id carried => by
      rw [adds.eventsOf] at happened
      exact larger (within.store.events o happened id carried)
    serves := fun code serves => larger (within.store.serves code (adds.serves serves)) }
  memory := by
    rw [adds.own]
    exact fun n named => larger (within.memory n named)
  code := fun id member => by
    by_cases same : .code id = new
    · obtain ⟨body,found,confines⟩ := code id same.symm
      exact ⟨body,found,confines.mono larger⟩
    · obtain ⟨body,found,confines⟩ := within.code id (before _ member same)
      exact ⟨body,(adds.code id same).trans found,confines.mono larger⟩

omit [Naming τ] in
theorem sameTo (adds : w.Adds u new) (adds' : v.Adds u' new) (same : w.SameTo ref known v)
    (before : ∀ n ∈ more, n ≠ new → n ∈ known)
    (request : ∀ id, new = .request id → u.store.request id = u'.store.request id)
    (future : ∀ id, new = .future id → u.store.future id = u'.store.future id)
    (code : ∀ id, new = .code id → u.code[id]? = u'.code[id]?) : u.SameTo ref more u' where
  agrees := {
    session := by rw [adds.session,adds'.session,same.agrees.session]
    request := fun id member => by
      by_cases it : .request id = new
      · exact request id it.symm
      · rw [adds.request id it,adds'.request id it,same.agrees.request id (before _ member it)]
    future := fun id member => by
      by_cases it : .future id = new
      · exact future id it.symm
      · rw [adds.future id it,adds'.future id it,same.agrees.future id (before _ member it)]
    filters := by rw [adds.filters,adds'.filters,same.agrees.filters]
    handlers := by rw [adds.handlers,adds'.handlers,same.agrees.handlers]
    processor := by
      unfold Store.processor
      rw [adds.processors,adds'.processors]
      exact same.agrees.processor
    events := by rw [adds.eventsOf,adds'.eventsOf,same.agrees.events] }
  memory := by rw [adds.own,adds'.own,same.memory]
  code := fun id member => by
    by_cases it : .code id = new
    · exact code id it.symm
    · rw [adds.code id it,adds'.code id it,same.code id (before _ member it)]

end Adds

theorem request_withRequest {σ : Type} (w : World σ) (r : WriteRequest) (id : RequestId) :
    (w.withRequest r).store.request id =
      if id = w.store.requests.size then r else w.store.request id := getD_push _ _ _ _

theorem future_withFuture {σ : Type} (w : World σ) (id : FutureId) :
    w.withFuture.store.future id = if id = w.store.futures.size then {} else w.store.future id :=
  getD_push _ _ _ _

theorem code_withCode {σ : Type} (w : World σ) (body : Invocation → Script σ) (id : CodeId) :
    (w.withCode body).code[id]? = if id = w.code.size then some body else w.code[id]? :=
  Array.getElem?_push

theorem adds_request {σ : Type} (w : World σ) (r : WriteRequest) :
    w.Adds (w.withRequest r) (.request w.store.requests.size) where
  made n := by
    cases n <;> simp only [Made,withRequest,mapStore,Array.size_push,Nat.lt_succ_iff_lt_or_eq,
      Name.request.injEq,reduceCtorEq,or_false]
  unmade := by simp [Made]
  request id other := by
    rw [request_withRequest,if_neg fun same => other (congrArg Name.request same)]
  future _ _ := rfl
  code _ _ := rfl
  own := rfl
  sessions := rfl
  filters := rfl
  handlers := rfl
  processors := rfl
  journal := rfl

theorem adds_future {σ : Type} (w : World σ) : w.Adds w.withFuture (.future w.store.futures.size) where
  made n := by
    cases n <;> simp only [Made,withFuture,mapStore,Array.size_push,Nat.lt_succ_iff_lt_or_eq,
      Name.future.injEq,reduceCtorEq,or_false]
  unmade := by simp [Made]
  request _ _ := rfl
  future id other := by
    rw [future_withFuture,if_neg fun same => other (congrArg Name.future same)]
  code _ _ := rfl
  own := rfl
  sessions := rfl
  filters := rfl
  handlers := rfl
  processors := rfl
  journal := rfl

theorem adds_code {σ : Type} (w : World σ) (body : Invocation → Script σ) :
    w.Adds (w.withCode body) (.code w.code.size) where
  made n := by
    cases n <;> simp only [Made,withCode,Array.size_push,Nat.lt_succ_iff_lt_or_eq,Name.code.injEq,
      reduceCtorEq,or_false]
  unmade := by simp [Made]
  request _ _ := rfl
  future _ _ := rfl
  code id other := by rw [code_withCode,if_neg fun same => other (congrArg Name.code same)]
  own := rfl
  sessions := rfl
  filters := rfl
  handlers := rfl
  processors := rfl
  journal := rfl

theorem future_mapFuture {σ : Type} {w : World σ} {id other : FutureId} (made : w.Made (.future other))
    (change : WriteFuture → WriteFuture) : (w.mapFuture id change).store.future other =
      if id = other then change (w.store.future other) else w.store.future other := getD_modify _ _ _ made

theorem uncounted_counted {σ : Type} (w : World σ) (id other : ProcessorId) :
    ((w.counted id).store.processor other).uncounted = (w.store.processor other).uncounted := by
  simp only [counted,mapStore,Store.processor,Array.getD_eq_getD_getElem?,Array.getElem?_modify]
  split
  · cases w.store.processors[other]? with
    | none => rfl
    | some p => cases p <;> rfl
  · rfl

/-- As much is made in one world as in the other. -/
structure Level {σ : Type} (w v : World σ) : Prop where
  requests : w.store.requests.size = v.store.requests.size
  futures : w.store.futures.size = v.store.futures.size
  code : w.code.size = v.code.size
  sessions : w.store.sessions.size = v.store.sessions.size

end World

/-- A run for a session, and the names that are the session's: some that there were when the run
started, and all that the run may make. -/
structure Scope (τ : Type) where
  ref : SessionRef
  start : World (SessionRef → τ)
  owned : Set Name
  fresh : ∀ n, ¬ start.Made n → n ∈ owned

namespace Scope

def known (S : Scope τ) (w : World (SessionRef → τ)) : Set Name := {n | n ∈ S.owned ∧ w.Made n}

/-- What is not the session's is as it was when the run started. -/
structure Spares (S : Scope τ) (w : World (SessionRef → τ)) : Prop where
  made : ∀ n, S.start.Made n → w.Made n
  sessions : w.store.sessions.size = S.start.store.sessions.size
  session : ∀ q, q ≠ S.ref → w.store.session q = S.start.store.session q
  memory : ∀ q, q ≠ S.ref → w.own q = S.start.own q
  request : ∀ id, S.start.Made (.request id) → w.store.request id = S.start.store.request id
  future : ∀ id, S.start.Made (.future id) → .future id ∉ S.owned →
    w.store.future id = S.start.store.future id
  code : ∀ id, S.start.Made (.code id) → w.code[id]? = S.start.code[id]?
  filters : w.store.filters = S.start.store.filters
  handlers : w.store.handlers = S.start.store.handlers
  processor : ∀ id, (w.store.processor id).uncounted = (S.start.store.processor id).uncounted
  events : ∀ q, q ≠ S.ref → w.store.eventsOf q = S.start.store.eventsOf q

omit [Naming τ] in
theorem Spares.adds {S : Scope τ} {w u : World (SessionRef → τ)} {new : Name} (spares : S.Spares w)
    (adds : w.Adds u new) : S.Spares u where
  made n made := (adds.made n).mpr (.inl (spares.made n made))
  sessions := adds.sessions ▸ spares.sessions
  session q other := by rw [adds.session,spares.session q other]
  memory q other := by rw [adds.own,spares.memory q other]
  request id made := by rw [adds.request id (adds.ne (spares.made _ made)),spares.request id made]
  future id made other := by
    rw [adds.future id (adds.ne (spares.made _ made)),spares.future id made other]
  code id made := by rw [adds.code id (adds.ne (spares.made _ made)),spares.code id made]
  filters := adds.filters.trans spares.filters
  handlers := adds.handlers.trans spares.handlers
  processor := by
    unfold Store.processor
    rw [adds.processors]
    exact spares.processor
  events q other := by rw [adds.eventsOf,spares.events q other]

/-- Two worlds that a run for the session has come to, the same to the session. -/
structure Along (S : Scope τ) (w v : World (SessionRef → τ)) : Prop
    extends w.SameTo S.ref (S.known w) v where
  within : w.Within S.ref (S.known w)
  level : w.Level v
  spares : S.Spares w

end Scope

namespace Store

variable {s : Store} {ref : SessionRef} {o : Observation}

theorem eventsOf_of_session (told : o.session? = some ref) :
    ({ s with journal := o :: s.journal } : Store).eventsOf ref = o :: s.eventsOf ref := by
  simp [eventsOf,told]

theorem eventsOf_of_other (other : o.session? ≠ some ref) :
    ({ s with journal := o :: s.journal } : Store).eventsOf ref = s.eventsOf ref := by
  simp [eventsOf,other]

theorem eventsOf_emitted (emissions : List Logging.Emission) :
    ({ s with journal := (emissions.map Observation.emitted).reverse ++ s.journal } : Store).eventsOf ref =
      s.eventsOf ref := by
  simp [eventsOf,Observation.session?]

end Store

namespace Scope

variable {S : Scope τ} {w v : World (SessionRef → τ)}

theorem Along.present (along : S.Along w v) : S.ref < w.store.sessions.size := along.within.present

theorem Along.present' (along : S.Along w v) : S.ref < v.store.sessions.size :=
  along.level.sessions ▸ along.present

theorem Along.filter (along : S.Along w v) (id : FilterId) : v.store.filter id = w.store.filter id := by
  unfold Store.filter
  rw [along.agrees.filters]

theorem Along.handler (along : S.Along w v) (id : HandlerId) : v.store.handler id = w.store.handler id := by
  unfold Store.handler
  rw [along.agrees.handlers]

theorem Along.label (along : S.Along w v) : v.store.label = w.store.label :=
  funext fun id => congrArg Filter.label (along.filter id)

theorem Along.chain (along : S.Along w v) : v.store.chain S.ref = w.store.chain S.ref :=
  congrArg Session.chain along.agrees.session.symm

/-- What is not made yet will be the session's. -/
theorem Along.owns (along : S.Along w v) {n : Name} (unmade : ¬ w.Made n) : n ∈ S.owned :=
  S.fresh n fun made => unmade (along.spares.made n made)

section Steps

variable (along : S.Along w v)
include along

theorem Along.requeue (change : Session → Session)
    (queue : ∃ ids, (change (w.store.session S.ref)).queue.Holds ids ∧ ∀ id ∈ ids, .request id ∈ S.known w) :
    S.Along (w.mapSession S.ref change) (v.mapSession S.ref change) where
  within := { along.within with
    present := by
      rw [World.mapSession,World.mapStore]
      simpa using along.present
    store := { along.within.store with
      queue := by
        rw [World.session_mapSession along.present]
        exact queue } }
  agrees := { along.agrees with
    session := by
      rw [World.session_mapSession along.present,World.session_mapSession along.present',
        along.agrees.session] }
  memory := along.memory
  code := along.code
  level := { along.level with
    sessions := by simpa [World.mapSession,World.mapStore] using along.level.sessions }
  spares := { along.spares with
    sessions := by simpa [World.mapSession,World.mapStore] using along.spares.sessions
    session := fun q other => by
      rw [World.session_mapSession_of_ne w other]
      exact along.spares.session q other }

theorem Along.mapSession (change : Session → Session) (keeps : ∀ s, (change s).queue = s.queue) :
    S.Along (w.mapSession S.ref change) (v.mapSession S.ref change) :=
  along.requeue change (by
    rw [keeps]
    exact along.within.store.queue)

theorem Along.mapChain (change : Chain → Chain) :
    S.Along (w.mapChain S.ref change) (v.mapChain S.ref change) := along.mapSession _ fun _ => rfl

theorem Along.record {o : Observation} (own : ∀ q, o.session? = some q → q = S.ref)
    (known : ∀ id ∈ o.requests, .request id ∈ S.known w) : S.Along (w.record o) (v.record o) := by
  have others (q : SessionRef) (other : q ≠ S.ref) : (w.record o).store.eventsOf q = w.store.eventsOf q :=
    Store.eventsOf_of_other fun told => other (own q told)
  refine { along with
    within := { along.within with store := { along.within.store with events := ?within } }
    agrees := { along.agrees with events := ?agrees }
    level := { along.level with }
    spares := { along.spares with
      events := fun q other => (others q other).trans (along.spares.events q other) } }
  case within =>
    intro o' member
    by_cases told : o.session? = some S.ref
    · rw [show (w.record o).store.eventsOf S.ref = _ from Store.eventsOf_of_session told,
        List.mem_cons] at member
      rcases member with rfl | before
      · exact known
      · exact along.within.store.events o' before
    · rw [show (w.record o).store.eventsOf S.ref = _ from Store.eventsOf_of_other told] at member
      exact along.within.store.events o' member
  case agrees =>
    have before := along.agrees.events
    unfold Store.eventsOf at before ⊢
    simp only [World.record,World.mapStore,List.filter_cons,before]

theorem Along.logged (logger : String) (level : Logging.Level) (text text' : Bytes)
    (context context' : Logging.Context) :
    S.Along (w.logged logger level text context) (v.logged logger level text' context') := by
  have same (u : World (SessionRef → τ)) (text : Bytes) (context : Logging.Context) (q : SessionRef) :
      (u.logged logger level text context).store.eventsOf q = u.store.eventsOf q :=
    Store.eventsOf_emitted _
  exact { along with
    within := { along.within with store := { along.within.store with
      events := by
        rw [same]
        exact along.within.store.events } }
    agrees := { along.agrees with
      events := by
        rw [same,same]
        exact along.agrees.events }
    level := { along.level with }
    spares := { along.spares with
      events := fun q other => by
        rw [same]
        exact along.spares.events q other } }

/-- Both worlds make the same, of the same name. -/
theorem Along.adds {u u' : World (SessionRef → τ)} {new : Name} (adds : w.Adds u new)
    (adds' : v.Adds u' new) (level : u.Level u')
    (request : ∀ id, new = .request id →
      u.store.request id = u'.store.request id ∧ ∀ n ∈ (u.store.request id).names, n ∈ S.known w)
    (future : ∀ id, new = .future id → u.store.future id = {} ∧ u'.store.future id = {})
    (code : ∀ id, new = .code id → ∃ body, u.code[id]? = some body ∧ u'.code[id]? = some body ∧
      Confines S.ref (S.known w) body) :
    S.Along u u' ∧ new ∈ S.known u ∧ S.known w ⊆ S.known u := by
  have larger : S.known w ⊆ S.known u := fun n known => ⟨known.1,(adds.made n).mpr (.inl known.2)⟩
  have before : ∀ n ∈ S.known u, n ≠ new → n ∈ S.known w := fun n known other =>
    ⟨known.1,((adds.made n).mp known.2).resolve_right other⟩
  have within : u.Within S.ref (S.known u) := by
    refine adds.within along.within larger before (fun id same => (request id same).2)
      (fun id same => (future id same).1) fun id same => ?_
    obtain ⟨body,found,_,confines⟩ := code id same
    exact ⟨body,found,confines⟩
  have same : u.SameTo S.ref (S.known u) u' := by
    refine adds.sameTo adds' along.toSameTo before (fun id same => (request id same).1)
      (fun id same => (future id same).1.trans (future id same).2.symm) fun id same => ?_
    obtain ⟨body,found,found',_⟩ := code id same
    exact found.trans found'.symm
  exact ⟨{ same with within := within,level := level,spares := along.spares.adds adds },
    ⟨along.owns adds.unmade,(adds.made new).mpr (.inr rfl)⟩,larger⟩

theorem Along.withRequest {r : WriteRequest} (names : ∀ n ∈ r.names, n ∈ S.known w) :
    S.Along (w.withRequest r) (v.withRequest r) ∧
      .request w.store.requests.size ∈ S.known (w.withRequest r) ∧
      S.known w ⊆ S.known (w.withRequest r) := by
  refine along.adds (World.adds_request w r) (along.level.requests ▸ World.adds_request v r)
    { along.level with requests := ?_ } (fun id same => ?_) (fun id same => by cases same)
    fun id same => by cases same
  · simpa [World.withRequest,World.mapStore] using along.level.requests
  · obtain rfl := Name.request.inj same
    rw [World.request_withRequest,World.request_withRequest,if_pos rfl,if_pos along.level.requests]
    exact ⟨rfl,names⟩

theorem Along.withFuture : S.Along w.withFuture v.withFuture ∧
    .future w.store.futures.size ∈ S.known w.withFuture ∧ S.known w ⊆ S.known w.withFuture := by
  refine along.adds (World.adds_future w) (along.level.futures ▸ World.adds_future v)
    { along.level with futures := ?_ } (fun id same => by cases same) (fun id same => ?_)
    fun id same => by cases same
  · simpa [World.withFuture,World.mapStore] using along.level.futures
  · obtain rfl := Name.future.inj same
    rw [World.future_withFuture,World.future_withFuture,if_pos rfl,if_pos along.level.futures]
    exact ⟨rfl,rfl⟩

theorem Along.withCode {body : Invocation → Script (SessionRef → τ)}
    (confines : Confines S.ref (S.known w) body) :
    S.Along (w.withCode body) (v.withCode body) ∧ .code w.code.size ∈ S.known (w.withCode body) ∧
      S.known w ⊆ S.known (w.withCode body) := by
  refine along.adds (World.adds_code w body) (along.level.code ▸ World.adds_code v body)
    { along.level with code := ?_ } (fun id same => by cases same) (fun id same => by cases same)
    fun id same => ?_
  · simpa [World.withCode] using along.level.code
  · obtain rfl := Name.code.inj same
    rw [World.code_withCode,World.code_withCode,if_pos rfl,if_pos along.level.code]
    exact ⟨body,rfl,rfl,confines⟩

theorem Along.remember {memory : τ} (names : ∀ n ∈ Naming.names memory, n ∈ S.known w) :
    S.Along (w.remember S.ref memory) (v.remember S.ref memory) :=
  { along with
    within := { along.within with
      memory := fun n member => by
        rw [World.own_remember] at member
        exact names n member }
    memory := by rw [World.own_remember,World.own_remember]
    level := { along.level with }
    spares := { along.spares with
      memory := fun q other => by simpa [World.remember,other] using along.spares.memory q other } }

/-- The future's listeners stay known. -/
theorem Along.mapFuture {id : FutureId} (known : .future id ∈ S.known w)
    (change : WriteFuture → WriteFuture)
    (names : ∀ n ∈ (change (w.store.future id)).names, n ∈ S.known w) :
    S.Along (w.mapFuture id change) (v.mapFuture id change) ∧
      S.known w ⊆ S.known (w.mapFuture id change) := by
  have made (u : World (SessionRef → τ)) (n : Name) : (u.mapFuture id change).Made n ↔ u.Made n := by
    cases n <;> simp [World.Made,World.mapFuture,World.mapStore]
  have same : S.known (w.mapFuture id change) = S.known w := by
    ext n
    exact and_congr_right fun _ => made w n
  have made' {other : FutureId} (known : .future other ∈ S.known w) : v.Made (.future other) := by
    have made := known.2
    simp only [World.Made] at made ⊢
    rwa [← along.level.futures]
  refine ⟨{ along with
    within := ?within
    agrees := ?agrees
    code := fun id known => along.code id (same ▸ known)
    level := { along.level with futures := ?level }
    spares := { along.spares with
      made := fun n started => (made w n).mpr (along.spares.made n started)
      future := fun other started foreign => ?spares } },same.ge⟩
  case within =>
    rw [same]
    exact { along.within with store := { along.within.store with
      futures := fun other known n member => by
        rw [World.future_mapFuture known.2] at member
        split at member
        · rename_i same
          exact names n (same ▸ member)
        · exact along.within.store.futures other known n member } }
  case agrees =>
    rw [same]
    exact { along.agrees with
      future := fun other known => by
        rw [World.future_mapFuture known.2,World.future_mapFuture (made' known),
          along.agrees.future other known] }
  case level => simpa [World.mapFuture,World.mapStore] using along.level.futures
  case spares =>
    rw [World.future_mapFuture (along.spares.made _ started),
      if_neg fun same : id = other => foreign (same ▸ known.1)]
    exact along.spares.future other started foreign

theorem Along.counted (id : ProcessorId) : S.Along (w.counted id) (v.counted id) :=
  { along with
    within := { along.within with store := { along.within.store with
      serves := fun code serves => by
        unfold Store.Serves at serves
        simp only [World.uncounted_counted] at serves
        exact along.within.store.serves code serves } }
    agrees := { along.agrees with
      processor := fun other => by
        rw [World.uncounted_counted,World.uncounted_counted]
        exact along.agrees.processor other }
    level := { along.level with }
    spares := { along.spares with
      processor := fun other => (World.uncounted_counted w id other).trans (along.spares.processor other) } }

end Steps
end Scope
end SessionPipeline
