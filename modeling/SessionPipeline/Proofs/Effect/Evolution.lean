import SessionPipeline.Execution
import SessionPipeline.Proofs.Effect.Basic

/-! What may become of a world. Everything that a script or a task does is made of single steps and
of edits of a chain with the hooks that run in between, whatever those hooks do. -/
namespace SessionPipeline

/-- History that tells of no entry, no event on its way, no queue and no end. -/
def Observation.silent : Observation → Bool
  | .emitted _ | .noted _ | .printed .. | .hooked .. | .notified .. => true
  | _ => false

/-- History that tells of an edit of a chain. -/
def Observation.edit : Observation → Bool
  | .linked _ | .unlinked _ | .discarded _ => true
  | _ => false

/-- How the state of a session goes on: it is opened only from its creation, closing only before that,
and closed any time. -/
inductive SessionState.Next : SessionState → SessionState → Prop
  | opened : Next .created .opened
  | closed (state : SessionState) : Next state .closed

/-- What the code of an application keeps to. It takes no request off the queue of a sealed session; to
a listed one it writes only requests that there are, for futures that there are; it edits no chain but
those it may edit. If it is tidy, it passes events on to the session of the handle, adds only filters
that there are, puts none but a codec in the place of a codec and leaves the input that codecs keep. -/
structure Terms where
  sealed : SessionRef → Prop
  listed : SessionRef → Prop
  edits : SessionRef → Prop
  tidy : Prop

/-- To keep to nothing. -/
def Terms.free : Terms := ⟨fun _ => False,fun _ => False,fun _ => True,False⟩

namespace Chain

def reserved (c : Chain) (owner : SessionRef) (name : String) (filter : FilterId) : Handle :=
  (c.allocate name filter).2.handle owner (c.allocate name filter).1

/-- How an entry is picked that is to be removed: by name, by its filter, or as the first one. -/
inductive Picks (c : Chain) : EntryId → Prop
  | named {name : String} {id : EntryId} (found : c.find? name = some id) : Picks c id
  | holding {filter : Option FilterId} {id : EntryId} (found : c.holder? filter = some id) : Picks c id
  | first {id : EntryId} (found : (c.slot head).next = some id) (entry : id ≠ tail) : Picks c id

/-- Some handle that is current passes events on to this entry. -/
def Leads (c : Chain) (id : EntryId) : Prop :=
  ∃ source outbound, c.isCurrent source = true ∧ c.following outbound source.entry = id ∧
    id ≠ exit outbound

end Chain

namespace World

variable {σ : Type}

def reserve (w : World σ) (ref : SessionRef) (name : String) (filter : FilterId) : World σ :=
  w.mapChain ref fun _ => ((w.store.chain ref).allocate name filter).2

def linkEntry (w : World σ) (ref : SessionRef) (handle : Handle) (name : String)
    (position : Position) : World σ :=
  (w.mapChain ref fun c => c.insert handle.entry name position).record (.linked handle)

def discardEntry (w : World σ) (ref : SessionRef) (handle : Handle) : World σ :=
  (w.mapChain ref fun c => c.release handle.entry).record (.discarded handle)

def dropEntry (w : World σ) (ref : SessionRef) (handle : Handle) (name : String) : World σ :=
  (w.mapChain ref fun c => c.drop handle.entry name).record (.unlinked handle)

def begin (w : World σ) (session : Session) : World σ :=
  w.mapStore fun s => { s with sessions := s.sessions.push session }

/-- A request reaches the queue of a session from the last entry on its way. -/
def enqueue (w : World σ) (handle : Handle) (ref : SessionRef) (id : RequestId) : World σ :=
  (w.record (.arrived handle ref (.filterWrite id))).mapSession ref
    fun s => { s with queue := s.queue.offer id }

/-- A request has left the queue, of which this is what remains. -/
def dequeue (w : World σ) (ref : SessionRef) (id : RequestId) (queue : Ring RequestId) : World σ :=
  (w.mapSession ref fun s => { s with queue := queue }).record (.taken ref id)

def decide (w : World σ) (future : FutureId) (outcome : Outcome) : World σ :=
  w.mapStore fun s => { s with
    futures := s.futures.modify future fun f => { f with outcome := some outcome, listeners := [] } }

def await (w : World σ) (future : FutureId) (listener : CodeId) : World σ :=
  w.mapStore fun s => { s with
    futures := s.futures.modify future fun f => { f with listeners := f.listeners ++ [listener] } }

/-- The future of a request, if it has one, is decided, now or before. -/
def settle (w : World σ) (id : RequestId) (outcome : Outcome) : World σ :=
  match (w.store.request id).future with
  | some future => if (w.store.future future).isDone then w else w.decide future outcome
  | none => w

/-- The names that logging filters keep on sessions are the same. -/
def SameNames (w w' : World σ) : Prop :=
  ∀ r f, (w'.store.session r).attribute? (.entryName f) = (w.store.session r).attribute? (.entryName f)

/-- A write to a listed session is of a request that there is, to a session that there is. -/
def Admits (terms : Terms) (w : World σ) (ref : SessionRef) (event : Event) : Prop :=
  ∀ id, event = .filterWrite id → terms.listed ref →
    ref < w.store.sessions.size ∧ id < w.store.requests.size

/-- In tidy code what a filter is given comes through an entry that holds it. -/
def Feeds (terms : Terms) (w : World σ) (filter : FilterId) (handle : Handle) (ref : SessionRef) :
    Prop :=
  terms.tidy → handle.owner = ref ∧ (w.store.chain ref).Leads handle.entry ∧
    ((w.store.chain ref).slot handle.entry).filter = some filter

/-- A single step that edits no chain and makes nobody listen. What is there stays, but for what it
counts and how it logs. Nobody but a processor or a closing session takes requests off the queue of a
sealed session, and then decides them at once. -/
inductive Quiet (terms : Terms) : World σ → World σ → Prop
  | own (w : World σ) (state : σ) : Quiet terms w { w with own := state }
  | define (w : World σ) (code : Invocation → Script σ) :
      Quiet terms w { w with code := w.code.push code }
  | told (w : World σ) (observation : Observation) (silent : observation.silent = true) :
      Quiet terms w (w.record observation)
  | passed (w : World σ) (handle : Handle) (ref : SessionRef) (event : Event)
      (current : (w.store.chain handle.owner).isCurrent handle = true)
      (queues : ∀ id, Effect.passing (w.store.chain handle.owner) handle ref event ≠
        .arrived handle ref (.filterWrite id)) :
      Quiet terms w (w.record (Effect.passing (w.store.chain handle.owner) handle ref event))
  | logged (w : World σ) (logger : String) (level : Logging.Level) (text : Bytes)
      (context : Logging.Context) : Quiet terms w (w.logged logger level text context)
  | loggers (w : World σ) (change : Logging.Registry → Logging.Registry) :
      Quiet terms w (w.mapStore fun s => { s with logging := change s.logging })
  | factories (w : World σ) (table : FactoryTable) :
      Quiet terms w (w.mapStore fun s => { s with factories := some table })
  | filter (w : World σ) (f : Filter) :
      Quiet terms w (w.mapStore fun s => { s with filters := s.filters.push f })
  | settings (w : World σ) (id : FilterId) (change : LogSettings → LogSettings) :
      Quiet terms w (w.mapStore fun s => { s with
        filters := s.filters.modify id (Filter.mapSettings change) })
  | handler (w : World σ) (h : Handler) :
      Quiet terms w (w.mapStore fun s => { s with handlers := s.handlers.push h })
  | processor (w : World σ) (p : Processor) :
      Quiet terms w (w.mapStore fun s => { s with processors := s.processors.push p })
  | flushed (w : World σ) (id : ProcessorId) :
      Quiet terms w (w.mapStore fun s => { s with
        processors := s.processors.modify id Processor.count })
  | request (w : World σ) (r : WriteRequest)
      (known : ∀ ref, terms.listed ref → ∀ future, r.future = some future →
        future < w.store.futures.size ∨ ∃ other, (w.store.request other).future = some future) :
      Quiet terms w (w.mapStore fun s => { s with requests := s.requests.push r })
  | future (w : World σ) :
      Quiet terms w (w.mapStore fun s => { s with futures := s.futures.push {} })
  | decided (w : World σ) (id : FutureId) (outcome : Outcome)
      (open' : (w.store.future id).isDone = false) : Quiet terms w (w.decide id outcome)
  | numbered (w : World σ) :
      Quiet terms w (w.mapStore fun s => { s with nextSession := w.store.nextSession + 1 })
  | session (w : World σ) (number : Nat) (handler : HandlerId) (processor : ProcessorId)
      {capacity : UInt64} {allocation : Allocation} {queue : Ring RequestId}
      (created : Ring.create allocation capacity = .ok queue) :
      Quiet terms w (w.begin { id := number, handler := handler, processor := processor, queue := queue })
  | attributed (w : World σ) (ref : SessionRef) (key : AttributeKey) (value : Message)
      (others : terms.tidy → ∀ codec, key ≠ .pending codec) :
      Quiet terms w (w.mapSession ref fun s => s.setAttribute key value)
  | kept (w : World σ) (ref : SessionRef) (codec : FilterId) (rest : Bytes)
      (decodes : (w.store.filter codec).isCodec = true)
      (fed : rest ≠ [] → ∃ handle, w.Feeds terms codec handle ref) :
      Quiet terms w (w.mapSession ref fun s => s.setAttribute (.pending codec) (.bytes rest))
  | unattributed (w : World σ) (ref : SessionRef) (key : AttributeKey) :
      Quiet terms w (w.mapSession ref fun s => s.removeAttribute key)
  | entered (w : World σ) (ref : SessionRef) (state : SessionState)
      (next : (w.store.session ref).state.Next state) :
      Quiet terms w (w.mapSession ref (·.enter state))
  | closing (w : World σ) (ref : SessionRef) (present : ref < w.store.sessions.size)
      (open' : (w.store.session ref).state.finishing = false) :
      Quiet terms w ((w.mapSession ref (·.enter .closing)).record (.closing ref))
  | received (w : World σ) (ref : SessionRef) :
      Quiet terms w (w.mapSession ref fun s => { s with readMessages := s.readMessages + 1 })
  | sent (w : World σ) (ref : SessionRef) :
      Quiet terms w (w.mapSession ref fun s => { s with writtenMessages := s.writtenMessages + 1 })
  | queued (w : World σ) (handle : Handle) (ref : SessionRef) (id : RequestId)
      (current : (w.store.chain handle.owner).isCurrent handle = true)
      (last : (w.store.chain handle.owner).following true handle.entry = Chain.head)
      (admits : w.Admits terms ref (.filterWrite id)) : Quiet terms w (w.enqueue handle ref id)
  | polled (w : World σ) (ref : SessionRef) {id : RequestId} {queue : Ring RequestId}
      (found : (w.store.session ref).queue.poll = some (id,queue)) (open' : ¬ terms.sealed ref) :
      Quiet terms w ((w.dequeue ref id queue).record (.handed ref id))
  | emptied (w : World σ) (ref : SessionRef) (found : (w.store.session ref).queue.poll = none) :
      Quiet terms w (w.record (.emptied ref))
  | took (w : World σ) (ref : SessionRef) {id : RequestId} {queue : Ring RequestId}
      (found : (w.store.session ref).queue.poll = some (id,queue)) (outcome : Outcome) :
      Quiet terms w ((w.dequeue ref id queue).settle id outcome)

inductive Step (terms : Terms) : World σ → World σ → Prop
  | quiet {w w' : World σ} (quiet : Quiet terms w w') : Step terms w w'
  | awaited (w : World σ) (id : FutureId) (listener : CodeId)
      (open' : (w.store.future id).isDone = false) : Step terms w (w.await id listener)
  | replaced (w : World σ) (ref : SessionRef) (id : EntryId) (f : FilterId)
      (linked : ((w.store.chain ref).slot id).linked = true) :
      Step terms w (w.mapChain ref fun c => c.setFilter id f)

/-- What may become of a world: steps, entries that are added, refused or rolled back around hooks,
and entries that leave behind a hook. -/
inductive Evolves (terms : Terms) : World σ → World σ → Prop
  | refl (w : World σ) : Evolves terms w w
  | trans {w₁ w₂ w₃ : World σ} (first : Evolves terms w₁ w₂) (second : Evolves terms w₂ w₃) :
      Evolves terms w₁ w₃
  | step {w w' : World σ} (once : Step terms w w') : Evolves terms w w'
  | refused {w w' : World σ} {ref : SessionRef} {name : String} {filter : FilterId}
      (present : ref < w.store.sessions.size) (hook : Evolves terms (w.reserve ref name filter) w') :
      Evolves terms w (w'.discardEntry ref ((w.store.chain ref).reserved ref name filter))
  | added {w w' : World σ} {ref : SessionRef} {name : String} {filter : FilterId}
      {position : Position} (present : ref < w.store.sessions.size)
      (hook : Evolves terms (w.reserve ref name filter) w')
      (admissible : (w'.store.chain ref).checkAddition name position = .ok ()) :
      Evolves terms w (w'.linkEntry ref ((w.store.chain ref).reserved ref name filter) name position)
  | rolledBack {w w₁ w₂ : World σ} {ref : SessionRef} {name : String} {filter : FilterId}
      {position : Position} (present : ref < w.store.sessions.size)
      (hook : Evolves terms (w.reserve ref name filter) w₁)
      (admissible : (w₁.store.chain ref).checkAddition name position = .ok ())
      (after : Evolves terms (w₁.linkEntry ref ((w.store.chain ref).reserved ref name filter) name position)
        w₂)
      (current : (w₂.store.chain ref).isCurrent ((w.store.chain ref).reserved ref name filter) = true) :
      Evolves terms w (w₂.dropEntry ref ((w.store.chain ref).reserved ref name filter) name)
  | removed {w w' : World σ} {ref : SessionRef} {id : EntryId}
      (picked : (w.store.chain ref).Picks id) (hook : Evolves terms w w')
      (current : (w'.store.chain ref).isCurrent ((w.store.chain ref).handle ref id) = true) :
      Evolves terms w (w'.dropEntry ref ((w.store.chain ref).handle ref id) ((w.store.chain ref).slot id).name)

/-- What becomes of a world that a run is stopped in, perhaps in hooks of entries that are about to
be added. -/
inductive Midway (terms : Terms) : World σ → World σ → Prop
  | ended {w w' : World σ} (evolves : Evolves terms w w') : Midway terms w w'
  | adding {w w₁ w' : World σ} {ref : SessionRef} {name : String} {filter : FilterId}
      (evolves : Evolves terms w w₁) (present : ref < w₁.store.sessions.size)
      (hook : Midway terms (w₁.reserve ref name filter) w') : Midway terms w w'

variable {terms : Terms}

theorem Midway.after {w w₁ w' : World σ} (midway : Midway terms w₁ w') (before : Evolves terms w w₁) :
    Midway terms w w' := by
  cases midway with
  | ended evolves => exact .ended (before.trans evolves)
  | adding evolves present hook => exact .adding (before.trans evolves) present hook

theorem admits_of_ne {event : Event} (other : ∀ id, event ≠ .filterWrite id) (w : World σ)
    (ref : SessionRef) : w.Admits terms ref event := fun id same => absurd same (other id)

theorem Admits.mono {w w' : World σ} {ref : SessionRef} {event : Event}
    (admits : w.Admits terms ref event) (sessions : w.store.sessions.size ≤ w'.store.sessions.size)
    (requests : w.store.requests.size ≤ w'.store.requests.size) : w'.Admits terms ref event :=
  fun id same within =>
    ⟨Nat.lt_of_lt_of_le (admits id same within).1 sessions,
      Nat.lt_of_lt_of_le (admits id same within).2 requests⟩

/-- Nothing but the futures of requests changes when a request is settled. -/
theorem settle_eq (w : World σ) (id : RequestId) (outcome : Outcome) :
    ∃ futures, w.settle id outcome = w.mapStore fun s => { s with futures := futures } := by
  unfold settle
  split
  · split
    · exact ⟨w.store.futures,rfl⟩
    · exact ⟨_,rfl⟩
  · exact ⟨w.store.futures,rfl⟩

theorem sameNames_mapSession (w : World σ) (ref : SessionRef) (change : Session → Session)
    (same : ∀ s f, (change s).attribute? (.entryName f) = s.attribute? (.entryName f)) :
    w.SameNames (w.mapSession ref change) := fun r f =>
  session_mapSession_eq (·.attribute? (.entryName f)) (fun s => same s f) w ref r

theorem sameNames_kept (w : World σ) (ref : SessionRef) (codec : FilterId) (rest : Bytes) :
    w.SameNames (w.mapSession ref (·.setAttribute (.pending codec) (.bytes rest))) :=
  sameNames_mapSession w ref _ fun s f =>
    s.attribute?_setAttribute_of_ne (show AttributeKey.entryName f ≠ .pending codec from nofun) _

theorem sameNames_begin (w : World σ) {session : Session} (fresh : session.attributes = []) :
    w.SameNames (w.begin session) := by
  intro r f
  by_cases new : r = w.store.sessions.size
  · subst new
    simp [begin,mapStore,Store.session,Session.attribute?,fresh]
    rfl
  · simp [begin,mapStore,Store.session,Array.getElem?_push,new]

theorem sameNames_took (w : World σ) (ref : SessionRef) (id : RequestId) (queue : Ring RequestId)
    (outcome : Outcome) : w.SameNames ((w.dequeue ref id queue).settle id outcome) := by
  obtain ⟨futures,settled⟩ := settle_eq (w.dequeue ref id queue) id outcome
  rw [settled]
  exact sameNames_mapSession w ref (fun s => { s with queue := queue }) fun _ _ => rfl

@[simp] theorem sessions_mapSession (w : World σ) (ref : SessionRef) (change : Session → Session) :
    (w.mapSession ref change).store.sessions.size = w.store.sessions.size := by
  simp [mapSession,mapStore]

theorem Quiet.sessions_le {w w' : World σ} (quiet : Quiet terms w w') :
    w.store.sessions.size ≤ w'.store.sessions.size := by
  cases quiet with
  | session => simp [begin,mapStore]
  | attributed | kept | unattributed | entered | closing | received | sent | queued | polled =>
    exact Nat.le_of_eq (sessions_mapSession _ _ _).symm
  | took ref found outcome =>
    obtain ⟨futures,settled⟩ := settle_eq (w.dequeue ref _ _) _ outcome
    rw [settled]
    exact Nat.le_of_eq (sessions_mapSession _ _ _).symm
  | _ => exact Nat.le_refl _

theorem Step.sessions_le {w w' : World σ} (step : Step terms w w') :
    w.store.sessions.size ≤ w'.store.sessions.size := by
  cases step with
  | quiet quiet => exact quiet.sessions_le
  | awaited => exact Nat.le_refl _
  | replaced => exact Nat.le_of_eq (sessions_mapSession _ _ _).symm

/-- Whatever single steps and single edits keep is kept however they are nested. -/
theorem Evolves.carries {P : World σ → World σ → Prop} (refl : ∀ w, P w w)
    (trans : ∀ {w₁ w₂ w₃}, P w₁ w₂ → P w₂ w₃ → P w₁ w₃) (step : ∀ {w w'}, Step terms w w' → P w w')
    (changed : ∀ w ref change, P w (w.mapChain ref change))
    (told : ∀ w o, o.edit = true → P w (w.record o)) {w w' : World σ} (evolves : Evolves terms w w') :
    P w w' := by
  have edited (w : World σ) (ref : SessionRef) (change : Chain → Chain) {o : Observation}
      (edit : o.edit = true) : P w ((w.mapChain ref change).record o) :=
    trans (changed w ref change) (told _ o edit)
  induction evolves with
  | refl w => exact refl w
  | trans _ _ before after => exact trans before after
  | step once => exact step once
  | refused _ _ ih => exact trans (trans (changed _ _ _) ih) (edited _ _ _ rfl)
  | added _ _ _ ih => exact trans (trans (changed _ _ _) ih) (edited _ _ _ rfl)
  | rolledBack _ _ _ _ _ before after =>
    exact trans (trans (trans (changed _ _ _) before) (trans (edited _ _ _ rfl) after))
      (edited _ _ _ rfl)
  | removed _ _ _ ih => exact trans ih (edited _ _ _ rfl)

theorem Midway.carries {P : World σ → World σ → Prop} (refl : ∀ w, P w w)
    (trans : ∀ {w₁ w₂ w₃}, P w₁ w₂ → P w₂ w₃ → P w₁ w₃) (step : ∀ {w w'}, Step terms w w' → P w w')
    (changed : ∀ w ref change, P w (w.mapChain ref change))
    (told : ∀ w o, o.edit = true → P w (w.record o)) {w w' : World σ} (midway : Midway terms w w') :
    P w w' := by
  induction midway with
  | ended evolves => exact evolves.carries refl trans step changed told
  | adding evolves _ _ ih =>
    exact trans (evolves.carries refl trans step changed told) (trans (changed _ _ _) ih)

theorem Evolves.sessions_le {w w' : World σ} (evolves : Evolves terms w w') :
    w.store.sessions.size ≤ w'.store.sessions.size := by
  refine evolves.carries (P := fun w w' => w.store.sessions.size ≤ w'.store.sessions.size)
    (fun _ => Nat.le_refl _) Nat.le_trans Step.sessions_le (fun w ref change => ?_)
    fun _ _ _ => Nat.le_refl _
  exact Nat.le_of_eq (sessions_mapSession w ref _).symm

theorem chain_mapSession {change : Session → Session} (same : ∀ s, (change s).chain = s.chain)
    (w : World σ) (ref r : SessionRef) :
    (w.mapSession ref change).store.chain r = w.store.chain r :=
  session_mapSession_eq (·.chain) same w ref r

theorem Quiet.chain_eq {w w' : World σ} (quiet : Quiet terms w w') (r : SessionRef) :
    w'.store.chain r = w.store.chain r := by
  cases quiet with
  | session =>
    by_cases new : r = w.store.sessions.size
    · subst new
      rw [chain_absent (Nat.lt_irrefl _)]
      simp [begin,mapStore,Store.chain,Store.session]
    · simp [begin,mapStore,Store.chain,Store.session,Array.getElem?_push,new]
  | attributed ref | kept ref | unattributed ref | entered ref | closing ref | received ref | sent ref
  | polled ref =>
    refine chain_mapSession (fun s => ?_) w ref r
    rfl
  | queued handle ref =>
    refine chain_mapSession (fun s => ?_) _ ref r
    rfl
  | took ref found outcome =>
    obtain ⟨futures,settled⟩ := settle_eq (w.dequeue ref _ _) _ outcome
    rw [settled]
    refine chain_mapSession (fun s => ?_) w ref r
    rfl
  | _ => rfl

end World

namespace Effect

variable {σ α β : Type}

/-- What a computation keeps to: how a world that it ends in, and one that it is stopped in, are
related to the one that it started in, and the terms that code keeps to meanwhile. -/
structure Contract (σ : Type) where
  terms : Terms
  ended : World σ → World σ → Prop
  stopped : World σ → World σ → Prop

/-- A contract that allows any number of quiet steps, and to be stopped at any time. -/
class Lawful (R : Contract σ) : Prop where
  refl : ∀ w, R.ended w w
  trans : ∀ {w₁ w₂ w₃}, R.ended w₁ w₂ → R.ended w₂ w₃ → R.ended w₁ w₃
  quiet : ∀ {w w'}, World.Quiet R.terms w w' → R.ended w w'
  stop : ∀ {w w'}, R.ended w w' → R.stopped w w'
  after : ∀ {w₁ w₂ w₃}, R.ended w₁ w₂ → R.stopped w₂ w₃ → R.stopped w₁ w₃

/-- A contract that allows them where they leave the names that logging filters keep. -/
class Discreet (R : Contract σ) : Prop where
  refl : ∀ w, R.ended w w
  trans : ∀ {w₁ w₂ w₃}, R.ended w₁ w₂ → R.ended w₂ w₃ → R.ended w₁ w₃
  quiet : ∀ {w w'}, World.Quiet R.terms w w' → w.SameNames w' → R.ended w w'
  stop : ∀ {w w'}, R.ended w w' → R.stopped w w'
  after : ∀ {w₁ w₂ w₃}, R.ended w₁ w₂ → R.stopped w₂ w₃ → R.stopped w₁ w₃

instance (R : Contract σ) [Lawful R] : Discreet R where
  refl := Lawful.refl
  trans := Lawful.trans
  quiet quiet _ := Lawful.quiet quiet
  stop := Lawful.stop
  after := Lawful.after

/-- A contract under which anybody may listen to a future. -/
class Receptive (R : Contract σ) : Prop extends Discreet R where
  awaited : ∀ (w : World σ) (id : FutureId) (listener : CodeId),
    (w.store.future id).isDone = false → R.ended w (w.await id listener)

/-- One that allows all quiet steps besides. -/
class Permissive (R : Contract σ) : Prop extends Lawful R where
  awaited : ∀ (w : World σ) (id : FutureId) (listener : CodeId),
    (w.store.future id).isDone = false → R.ended w (w.await id listener)

instance (R : Contract σ) [Permissive R] : Receptive R where
  awaited := Permissive.awaited

/-- To become only what a world may become. -/
abbrev evolution (terms : Terms) : Contract σ where
  terms := terms
  ended := World.Evolves terms
  stopped := World.Midway terms

instance evolution_permissive (terms : Terms) : Permissive (evolution terms : Contract σ) where
  refl := .refl
  trans := .trans
  quiet quiet := .step (.quiet quiet)
  stop := .ended
  after before midway := midway.after before
  awaited w id listener open' := .step (.awaited w id listener open')

/-- However the computation ends, its world is related to `w₀` as the contract says. -/
def Meets (R : Contract σ) (w₀ : World σ) (m : Effect σ α) (w : World σ) : Prop :=
  ends m (fun _ => R.ended w₀) (fun _ => R.ended w₀) (R.stopped w₀) w

/-- However the computation ends, its world is related to the one it started in. -/
def Keeping (R : Contract σ) (m : Effect σ α) : Prop := ∀ w, Meets R w m w

/-- However the computation ends, its world is what may become of the one it started in. -/
abbrev Evolving (terms : Terms) (m : Effect σ α) : Prop := Keeping (evolution terms) m

section Meets

variable {R : Contract σ} {w₀ w w' : World σ}

theorem meets_of_ok {m : Effect σ α} {a : α} (returned : m w = .ok a w') :
    Meets R w₀ m w ↔ R.ended w₀ w' := ends_of_ok returned

theorem meets_bind_of_ok {first : Effect σ α} {next : α → Effect σ β} {a : α}
    (returned : first w = .ok a w') : Meets R w₀ (first >>= next) w ↔ Meets R w₀ (next a) w' :=
  ends_bind_of_ok returned

theorem meets_bind {first : Effect σ α} {next : α → Effect σ β} :
    Meets R w₀ (first >>= next) w ↔
      ends first (fun a w' => Meets R w₀ (next a) w') (fun _ => R.ended w₀) (R.stopped w₀) w :=
  ends_bind

/-- What goes on behind an attempt goes on wherever the attempt ends. -/
theorem Meets.bind_attempt {body : Effect σ α} {next : Except Failure α → Effect σ β}
    {w₁ : World σ} (tried : Meets R w₁ body w) (stops : ∀ w', R.stopped w₁ w' → R.stopped w₀ w')
    (rest : ∀ result w', R.ended w₁ w' → Meets R w₀ (next result) w') :
    Meets R w₀ (attempt body >>= next) w := by
  rw [meets_bind,ends_attempt]
  exact ends_mono tried (fun a w' => rest (.ok a) w') (fun failure w' => rest (.error failure) w') stops

theorem Meets.bind {first : Effect σ α} {next : α → Effect σ β} (head : Meets R w₀ first w)
    (rest : ∀ a w', R.ended w₀ w' → Meets R w₀ (next a) w') : Meets R w₀ (first >>= next) w :=
  meets_bind.mpr (ends_mono head rest (fun _ _ before => before) fun _ before => before)

end Meets

variable {R : Contract σ} [Discreet R]

theorem Meets.from {m : Effect σ α} {w₀ w₁ w : World σ} (meets : Meets R w₁ m w)
    (before : R.ended w₀ w₁) : Meets R w₀ m w :=
  ends_mono meets (fun _ _ after => Discreet.trans before after)
    (fun _ _ after => Discreet.trans before after) fun _ after => Discreet.after before after

theorem Keeping.from {m : Effect σ α} (keeping : Keeping R m) {w w' : World σ}
    (before : R.ended w w') : Meets R w m w' := (keeping w').from before

theorem keeping_pure (a : α) : Keeping R (pure a : Effect σ α) := fun w => Discreet.refl w

theorem keeping_fail (failure : Failure) : Keeping R (fail failure : Effect σ α) :=
  fun w => Discreet.refl w

theorem Keeping.bind {first : Effect σ α} {next : α → Effect σ β} (head : Keeping R first)
    (rest : ∀ a, Keeping R (next a)) : Keeping R (first >>= next) := fun w =>
  (head w).bind fun a _ before => (rest a).from before

omit [Discreet R] in
theorem Keeping.attempt {body : Effect σ α} (keeping : Keeping R body) :
    Keeping R (attempt body) := fun w => ends_attempt.mpr (keeping w)

theorem keeping_ofExcept (result : Except Failure α) : Keeping R (ofExcept result : Effect σ α) := by
  cases result with
  | ok a => exact keeping_pure a
  | error failure => exact keeping_fail failure

theorem keeping_ofExcept_bind {result : Except Failure α} {next : α → Effect σ β}
    (rest : ∀ a, result = .ok a → Keeping R (next a)) : Keeping R (ofExcept result >>= next) := by
  cases result with
  | error failure => exact fun w => Discreet.refl w
  | ok a => exact rest a rfl

omit [Discreet R] in
theorem keeping_of_ok {m : Effect σ α} (returns : ∀ w, ∃ a w', m w = .ok a w' ∧ R.ended w w') :
    Keeping R m := fun w => by
  obtain ⟨a,w',returned,related⟩ := returns w
  exact (meets_of_ok returned).mpr related

theorem keeping_of_quiet {m : Effect σ α}
    (returns : ∀ w, ∃ a w', m w = .ok a w' ∧ World.Quiet R.terms w w' ∧ w.SameNames w') :
    Keeping R m := keeping_of_ok fun w => by
  obtain ⟨a,w',returned,quiet,same⟩ := returns w
  exact ⟨a,w',returned,Discreet.quiet quiet same⟩

end Effect
end SessionPipeline
