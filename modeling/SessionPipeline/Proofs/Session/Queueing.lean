import Mathlib.Logic.Relation
import SessionPipeline.Proofs.Effect.Execution
import SessionPipeline.Proofs.Queue.Ring

/-! What becomes of the requests that reach the queue of a session. They are taken off it in the order
in which they came, none is lost on the way, and each is decided as it is taken, whatever the code of
an application does meanwhile, unless it takes requests off the queue itself. -/
namespace SessionPipeline

/-- A request reaches the queue of a session, or is taken off it, by an application's code even; or a
closing session finds nothing more in it to fail. -/
inductive Turn
  | reached (request : RequestId)
  | taken (request : RequestId)
  | handed (request : RequestId)
  | emptied
  deriving DecidableEq

namespace Turn

def reaches (turns : List Turn) : List RequestId :=
  turns.filterMap fun
    | reached request => some request
    | _ => none

def takes (turns : List Turn) : List RequestId :=
  turns.filterMap fun
    | taken request => some request
    | _ => none

def hands (turns : List Turn) : List RequestId :=
  turns.filterMap fun
    | handed request => some request
    | _ => none

/-- At no time have more than 2^62 requests waited. -/
def Bounded (turns : List Turn) : Prop :=
  ∀ earlier, earlier <+: turns → (reaches earlier).length ≤ (takes earlier).length + 2^62

theorem reaches_append (turns more : List Turn) :
    reaches (turns ++ more) = reaches turns ++ reaches more := List.filterMap_append

theorem takes_append (turns more : List Turn) : takes (turns ++ more) = takes turns ++ takes more :=
  List.filterMap_append

theorem hands_append (turns more : List Turn) : hands (turns ++ more) = hands turns ++ hands more :=
  List.filterMap_append

/-- Whenever a closing session found nothing more in its queue, all that had come was taken. -/
def Settled (turns : List Turn) : Prop :=
  ∀ before after, turns = before ++ .emptied :: after → reaches before = takes before

variable {turns more : List Turn}

/-- Later turns change nothing about those before. -/
theorem Settled.append (settled : Settled turns) (others : .emptied ∉ more) : Settled (turns ++ more) := by
  intro before after split
  rcases List.append_eq_append_iff.mp split with ⟨between,rfl,later⟩ | ⟨between,earlier,later⟩
  · exact absurd (later ▸ List.mem_append_right _ List.mem_cons_self) others
  · cases between with
    | nil =>
      rw [List.nil_append] at later
      exact absurd (later ▸ List.mem_cons_self) others
    | cons turn between =>
      obtain ⟨rfl,_⟩ := List.cons.inj later
      exact settled before between earlier

theorem Settled.emptied (settled : Settled turns) (all : reaches turns = takes turns) :
    Settled (turns ++ [Turn.emptied]) := by
  intro before after split
  rcases List.append_eq_append_iff.mp split with ⟨between,rfl,later⟩ | ⟨between,earlier,later⟩
  · cases between with
    | nil => rwa [List.append_nil]
    | cons turn between => simp at later
  · cases between with
    | nil => rwa [earlier,List.append_nil] at all
    | cons turn between =>
      obtain ⟨rfl,_⟩ := List.cons.inj later
      exact settled before between earlier

end Turn

def Observation.turn? (ref : SessionRef) : Observation → Option Turn
  | .arrived _ session (.filterWrite request) => if session = ref then some (.reached request) else none
  | .taken session request => if session = ref then some (.taken request) else none
  | .handed session request => if session = ref then some (.handed request) else none
  | .emptied session => if session = ref then some .emptied else none
  | _ => none

/-- What history tells of the queue of a session, earliest first. -/
def Store.turns (s : Store) (ref : SessionRef) : List Turn := s.journal.reverse.filterMap (·.turn? ref)

/-- All that the requests to one session depend on. There is no queue before there is the session. -/
structure Ledger where
  queue : Option (Ring RequestId)
  requests : Array WriteRequest
  futures : Array WriteFuture
  turns : List Turn

def World.ledger {σ : Type} (w : World σ) (ref : SessionRef) : Ledger where
  queue := w.store.sessions[ref]?.map (·.queue)
  requests := w.store.requests
  futures := w.store.futures
  turns := w.store.turns ref

namespace Ledger

def futureOf (l : Ledger) (id : RequestId) : Option FutureId := (l.requests.getD id default).future

def isDone (l : Ledger) (future : FutureId) : Bool := (l.futures.getD future default).isDone

/-- What may become of a ledger in a single step. Off a sealed queue no application takes anything. -/
inductive Moves (sealed : Prop) : Ledger → Ledger → Prop
  | requested (l : Ledger) (r : WriteRequest) (known : ∀ future, r.future = some future →
      future < l.futures.size ∨ ∃ other, l.futureOf other = some future) :
      Moves sealed l { l with requests := l.requests.push r }
  | promised (l : Ledger) : Moves sealed l { l with futures := l.futures.push {} }
  | modified (l : Ledger) (id : FutureId) (change : WriteFuture → WriteFuture)
      (keeps : ∀ f, f.isDone = true → (change f).isDone = true) :
      Moves sealed l { l with futures := l.futures.modify id change }
  | opened (l : Ledger) {queue : Ring RequestId} {capacity : UInt64} {allocation : Allocation}
      (absent : l.queue = none) (created : Ring.create allocation capacity = .ok queue) :
      Moves sealed l { l with queue := some queue }
  | reached (l : Ledger) {queue : Ring RequestId} {id : RequestId} (there : l.queue = some queue)
      (listed : id < l.requests.size) :
      Moves sealed l { l with queue := some (queue.offer id), turns := l.turns ++ [.reached id] }
  | taken (l : Ledger) {queue rest : Ring RequestId} {id : RequestId} {futures : Array WriteFuture}
      (there : l.queue = some queue) (found : queue.poll = some (id,rest))
      (size : futures.size = l.futures.size)
      (keeps : ∀ f, l.isDone f = true → { l with futures := futures }.isDone f = true)
      (decides : ∀ f < l.futures.size, l.futureOf id = some f →
        { l with futures := futures }.isDone f = true) :
      Moves sealed l { l with queue := some rest, futures := futures, turns := l.turns ++ [.taken id] }
  | handed (l : Ledger) {queue rest : Ring RequestId} {id : RequestId} (open' : ¬ sealed)
      (there : l.queue = some queue) (found : queue.poll = some (id,rest)) :
      Moves sealed l { l with queue := some rest, turns := l.turns ++ [.taken id,.handed id] }
  | emptied (l : Ledger) (empty : ∀ queue, l.queue = some queue → queue.poll = none) :
      Moves sealed l { l with turns := l.turns ++ [.emptied] }

abbrev Run (sealed : Prop) : Ledger → Ledger → Prop := Relation.ReflTransGen (Moves sealed)

/-- What was taken and what waits is what came, in this order; what was taken is decided, unless an
application's code took it; and when a closing session found nothing more, all that had come was taken. -/
structure Balanced (l : Ledger) : Prop where
  queue : ∀ q, l.queue = some q → q.capacity ≤ 2^63 ∧
    ∃ waiting, q.Holds waiting ∧ Turn.reaches l.turns = Turn.takes l.turns ++ waiting
  absent : l.queue = none → Turn.reaches l.turns = [] ∧ Turn.takes l.turns = []
  known : ∀ id f, l.futureOf id = some f → f < l.futures.size
  listed : ∀ id ∈ Turn.reaches l.turns, id < l.requests.size
  decided : ∀ id ∈ Turn.takes l.turns, id ∉ Turn.hands l.turns → ∀ f, l.futureOf id = some f →
    l.isDone f = true
  settled : Turn.Settled l.turns

variable {l l' : Ledger} {sealed : Prop}

theorem Balanced.taken_listed (balanced : l.Balanced) {id : RequestId}
    (taken : id ∈ Turn.takes l.turns) : id < l.requests.size := by
  refine balanced.listed id ?_
  cases there : l.queue with
  | none =>
    rw [(balanced.absent there).2] at taken
    cases taken
  | some queue =>
    obtain ⟨_,waiting,_,came⟩ := balanced.queue queue there
    rw [came]
    exact List.mem_append_left _ taken

theorem isDone_modify (l : Ledger) (id : FutureId) {change : WriteFuture → WriteFuture}
    (keeps : ∀ f, f.isDone = true → (change f).isDone = true) {f : FutureId} (done : l.isDone f = true) :
    { l with futures := l.futures.modify id change }.isDone f = true := by
  simp only [isDone,Array.getD_eq_getD_getElem?,Array.getElem?_modify] at done ⊢
  split
  · cases found : l.futures[f]? with
    | none =>
      rw [found] at done
      exact done
    | some future =>
      rw [found] at done
      exact keeps future done
  · exact done

theorem isDone_modified {f : FutureId} {change : WriteFuture → WriteFuture}
    (known : f < l.futures.size) (done : (change (l.futures.getD f default)).isDone = true) :
    { l with futures := l.futures.modify f change }.isDone f = true := by
  simpa [isDone,known,Array.getElem_modify] using done

theorem futureOf_push (l : Ledger) (r : WriteRequest) (id : RequestId) :
    { l with requests := l.requests.push r }.futureOf id =
      if id = l.requests.size then r.future else l.futureOf id := by
  simp only [futureOf,Array.getD_eq_getD_getElem?,Array.getElem?_push]
  split <;> rfl

/-- A step that leaves queue, requests and history alone and undoes no future. -/
theorem Balanced.futures_grown (balanced : l.Balanced) {futures : Array WriteFuture}
    (size : l.futures.size ≤ futures.size)
    (keeps : ∀ f, l.isDone f = true → { l with futures := futures }.isDone f = true) :
    Balanced { l with futures := futures } :=
  ⟨balanced.queue,balanced.absent,fun id f same => Nat.lt_of_lt_of_le (balanced.known id f same) size,
    balanced.listed,fun id taken own f same => keeps f (balanced.decided id taken own f same),
    balanced.settled⟩

theorem Balanced.requested (balanced : l.Balanced) {r : WriteRequest}
    (known : ∀ future, r.future = some future →
      future < l.futures.size ∨ ∃ other, l.futureOf other = some future) :
    Balanced { l with requests := l.requests.push r } := by
  refine ⟨balanced.queue,balanced.absent,?_,fun id came => ?_,?_,balanced.settled⟩
  · intro id f same
    rw [futureOf_push] at same
    split at same
    · rcases known f same with promised | ⟨other,shared⟩
      · exact promised
      · exact balanced.known other f shared
    · exact balanced.known id f same
  · rw [Array.size_push]
    exact Nat.lt_succ_of_lt (balanced.listed id came)
  · intro id taken own f same
    rw [futureOf_push,if_neg (Nat.ne_of_lt (balanced.taken_listed taken))] at same
    exact balanced.decided id taken own f same

theorem Balanced.promised (balanced : l.Balanced) :
    Balanced { l with futures := l.futures.push {} } := by
  refine balanced.futures_grown (by simp) fun f done => ?_
  simp only [isDone,Array.getD_eq_getD_getElem?,Array.getElem?_push] at done ⊢
  split
  next new =>
    rw [new,Array.getElem?_eq_none (Nat.le_refl _)] at done
    exact done
  next => exact done

theorem Balanced.opened (balanced : l.Balanced) {queue : Ring RequestId} {capacity : UInt64}
    {allocation : Allocation} (absent : l.queue = none)
    (created : Ring.create allocation capacity = .ok queue) :
    Balanced { l with queue := some queue } := by
  obtain ⟨noneCame,noneTaken⟩ := balanced.absent absent
  refine ⟨fun q there => ?_,nofun,balanced.known,balanced.listed,balanced.decided,balanced.settled⟩
  cases there
  obtain ⟨capacity,_,_,_,low,rfl⟩ := Ring.create_ok created
  refine ⟨?_,[],Ring.create_holds created,by rw [noneCame,noneTaken]; rfl⟩
  rw [Ring.capacity_vacant]
  exact low

/-- A request that reaches the queue waits behind all others; the ring grows no further than it can. -/
theorem Balanced.reached (balanced : l.Balanced) {queue : Ring RequestId} {id : RequestId}
    (there : l.queue = some queue) (listed : id < l.requests.size)
    (bounded : Turn.Bounded (l.turns ++ [Turn.reached id])) :
    Balanced { l with queue := some (queue.offer id), turns := l.turns ++ [Turn.reached id] } := by
  obtain ⟨small,waiting,held,came⟩ := balanced.queue queue there
  have count := bounded _ (List.prefix_refl _)
  have reaches : Turn.reaches (l.turns ++ [Turn.reached id]) = Turn.reaches l.turns ++ [id] :=
    Turn.reaches_append _ _
  have takes : Turn.takes (l.turns ++ [Turn.reached id]) = Turn.takes l.turns :=
    (Turn.takes_append _ _).trans (List.append_nil _)
  rw [reaches,takes,came] at count
  simp only [List.length_append,List.length_singleton] at count
  have hands : Turn.hands (l.turns ++ [Turn.reached id]) = Turn.hands l.turns :=
    (Turn.hands_append _ _).trans (List.append_nil _)
  refine ⟨fun q there => ?_,nofun,balanced.known,?_,?_,balanced.settled.append (by simp)⟩
  · cases there
    have grown := held.offer_capacity id
    refine ⟨by omega,waiting ++ [id],held.offer id,?_⟩
    rw [reaches,takes,came,List.append_assoc]
  · rw [reaches]
    intro other member
    rcases List.mem_append.mp member with before | new
    · exact balanced.listed other before
    · exact List.mem_singleton.mp new ▸ listed
  · rw [takes,hands]
    exact balanced.decided

/-- What is left of a queue that a request is taken off. -/
theorem Balanced.polled (balanced : l.Balanced) {queue rest : Ring RequestId} {id : RequestId}
    (there : l.queue = some queue) (found : queue.poll = some (id,rest)) : rest.capacity ≤ 2^63 ∧
      ∃ waiting, rest.Holds waiting ∧ Turn.reaches l.turns = Turn.takes l.turns ++ id :: waiting := by
  obtain ⟨small,waiting,held,came⟩ := balanced.queue queue there
  cases waiting with
  | nil =>
    rw [held.poll_nil] at found
    cases found
  | cons x waiting =>
    obtain ⟨rest',polled,held',low⟩ := held.poll_cons small
    obtain ⟨rfl,rfl⟩ := Prod.mk.inj (Option.some.inj (polled.symm.trans found))
    exact ⟨low.trans small,waiting,held',came⟩

/-- The request that is taken is the one that has waited longest. -/
theorem Balanced.taken (balanced : l.Balanced) {queue rest : Ring RequestId} {id : RequestId}
    {futures : Array WriteFuture} (there : l.queue = some queue) (found : queue.poll = some (id,rest))
    (size : futures.size = l.futures.size)
    (keeps : ∀ f, l.isDone f = true → { l with futures := futures }.isDone f = true)
    (decides : ∀ f < l.futures.size, l.futureOf id = some f →
      { l with futures := futures }.isDone f = true) :
    Balanced { l with queue := some rest, futures := futures, turns := l.turns ++ [Turn.taken id] } := by
  obtain ⟨small,waiting,held,came⟩ := balanced.polled there found
  have reaches : Turn.reaches (l.turns ++ [Turn.taken id]) = Turn.reaches l.turns :=
    (Turn.reaches_append _ _).trans (List.append_nil _)
  have takes : Turn.takes (l.turns ++ [Turn.taken id]) = Turn.takes l.turns ++ [id] :=
    Turn.takes_append _ _
  have hands : Turn.hands (l.turns ++ [Turn.taken id]) = Turn.hands l.turns :=
    (Turn.hands_append _ _).trans (List.append_nil _)
  refine ⟨fun q there => ?_,nofun,?_,?_,?_,balanced.settled.append (by simp)⟩
  · cases there
    refine ⟨small,waiting,held,?_⟩
    rw [reaches,takes,came,List.append_assoc]
    rfl
  · intro other f same
    rw [size]
    exact balanced.known other f same
  · rw [reaches]
    exact balanced.listed
  · rw [takes,hands]
    intro other member own f same
    rcases List.mem_append.mp member with before | new
    · exact keeps f (balanced.decided other before own f same)
    · obtain rfl := List.mem_singleton.mp new
      exact decides f (balanced.known other f same) same

/-- A request that an application's code takes is its own to complete. -/
theorem Balanced.handed (balanced : l.Balanced) {queue rest : Ring RequestId} {id : RequestId}
    (there : l.queue = some queue) (found : queue.poll = some (id,rest)) :
    Balanced { l with queue := some rest, turns := l.turns ++ [Turn.taken id,Turn.handed id] } := by
  obtain ⟨small,waiting,held,came⟩ := balanced.polled there found
  have reaches : Turn.reaches (l.turns ++ [Turn.taken id,Turn.handed id]) = Turn.reaches l.turns :=
    (Turn.reaches_append _ _).trans (List.append_nil _)
  have takes : Turn.takes (l.turns ++ [Turn.taken id,Turn.handed id]) = Turn.takes l.turns ++ [id] :=
    Turn.takes_append _ _
  have hands : Turn.hands (l.turns ++ [Turn.taken id,Turn.handed id]) = Turn.hands l.turns ++ [id] :=
    Turn.hands_append _ _
  refine ⟨fun q there => ?_,nofun,balanced.known,?_,?_,
    balanced.settled.append (by simp)⟩
  · cases there
    refine ⟨small,waiting,held,?_⟩
    rw [reaches,takes,came,List.append_assoc]
    rfl
  · rw [reaches]
    exact balanced.listed
  · rw [takes,hands]
    intro other member own
    rw [List.mem_append,not_or] at own
    exact balanced.decided other ((List.mem_append.mp member).resolve_right own.2) own.1

/-- A closing session that finds nothing more in its queue has failed all that had come. -/
theorem Balanced.closed (balanced : l.Balanced)
    (empty : ∀ queue, l.queue = some queue → queue.poll = none) :
    Balanced { l with turns := l.turns ++ [Turn.emptied] } := by
  have all : Turn.reaches l.turns = Turn.takes l.turns := by
    cases there : l.queue with
    | none => rw [(balanced.absent there).1,(balanced.absent there).2]
    | some queue =>
      obtain ⟨small,waiting,held,came⟩ := balanced.queue queue there
      cases waiting with
      | nil => rw [came,List.append_nil]
      | cons x waiting =>
        obtain ⟨_,polled,_⟩ := held.poll_cons small
        rw [empty queue there] at polled
        cases polled
  have same : Turn.reaches (l.turns ++ [Turn.emptied]) = Turn.reaches l.turns ∧
      Turn.takes (l.turns ++ [Turn.emptied]) = Turn.takes l.turns ∧
      Turn.hands (l.turns ++ [Turn.emptied]) = Turn.hands l.turns :=
    ⟨(Turn.reaches_append _ _).trans (List.append_nil _),
      (Turn.takes_append _ _).trans (List.append_nil _),
      (Turn.hands_append _ _).trans (List.append_nil _)⟩
  refine ⟨?_,?_,balanced.known,?_,?_,balanced.settled.emptied all⟩
  · rw [same.1,same.2.1]
    exact balanced.queue
  · rw [same.1,same.2.1]
    exact balanced.absent
  · rw [same.1]
    exact balanced.listed
  · rw [same.2.1,same.2.2]
    exact balanced.decided

theorem Moves.balanced (moves : Moves sealed l l') (bounded : Turn.Bounded l'.turns) (balanced : l.Balanced) :
    l'.Balanced := by
  cases moves with
  | requested r known => exact balanced.requested known
  | promised => exact balanced.promised
  | modified id change keeps => exact balanced.futures_grown (by simp) fun f => isDone_modify l id keeps
  | opened absent created => exact balanced.opened absent created
  | reached there listed => exact balanced.reached there listed bounded
  | taken there found size keeps decides => exact balanced.taken there found size keeps decides
  | handed open' there found => exact balanced.handed there found
  | emptied empty => exact balanced.closed empty

theorem Moves.recalls (moves : Moves sealed l l') : l.turns <+: l'.turns := by
  cases moves with
  | reached | taken | handed | emptied => exact List.prefix_append _ _
  | _ => exact List.prefix_refl _

/-- No application takes anything off a sealed queue. -/
theorem Run.hands (run : Run sealed l l') (closed : sealed) :
    Turn.hands l'.turns = Turn.hands l.turns := by
  induction run with
  | refl => rfl
  | tail _ moves ih =>
    rw [← ih]
    cases moves with
    | reached | taken | emptied => exact (Turn.hands_append _ _).trans (List.append_nil _)
    | handed open' => exact absurd closed open'
    | _ => rfl

theorem Run.balanced (run : Run sealed l l') (bounded : Turn.Bounded l'.turns) (balanced : l.Balanced) :
    l'.Balanced := by
  induction run with
  | refl => exact balanced
  | tail _ moves ih =>
    exact moves.balanced bounded (ih fun earlier within => bounded earlier (within.trans moves.recalls))

end Ledger

namespace World

variable {σ : Type} {w w' : World σ} {ref : SessionRef} {terms : Terms} {sealed : Prop}

theorem turns_news (news : List Observation) (journal : w'.store.journal = news ++ w.store.journal) :
    w'.store.turns ref = w.store.turns ref ++ news.reverse.filterMap (·.turn? ref) := by
  rw [Store.turns,journal,List.reverse_append,List.filterMap_append]
  rfl

theorem turns_still (news : List Observation) (journal : w'.store.journal = news ++ w.store.journal)
    (still : ∀ o ∈ news, o.turn? ref = none) : w'.store.turns ref = w.store.turns ref := by
  have none : news.reverse.filterMap (·.turn? ref) = [] :=
    List.filterMap_eq_nil_iff.mpr fun o member => still o (List.mem_reverse.mp member)
  rw [turns_news news journal,none,List.append_nil]

theorem ledger_record {o : Observation} (still : o.turn? ref = none) (w : World σ) :
    (w.record o).ledger ref = w.ledger ref := by
  have turns : (w.record o).store.turns ref = w.store.turns ref :=
    turns_still [o] rfl fun _ member => List.mem_singleton.mp member ▸ still
  rw [ledger,turns]
  rfl

theorem ledger_mapSession (w : World σ) (r : SessionRef) {change : Session → Session}
    (same : ∀ s, r = ref → (change s).queue = s.queue) :
    (w.mapSession r change).ledger ref = w.ledger ref := by
  have queue : (w.mapSession r change).store.sessions[ref]?.map (·.queue) =
      w.store.sessions[ref]?.map (·.queue) := by
    simp only [mapSession,mapStore,Array.getElem?_modify]
    split
    next owned =>
      rw [Option.map_map]
      exact congrArg (Option.map · _) (funext fun s => same s owned)
    next => rfl
  rw [ledger,queue]
  rfl

theorem ledger_mapChain (w : World σ) (r : SessionRef) (change : Chain → Chain) :
    (w.mapChain r change).ledger ref = w.ledger ref := ledger_mapSession w r fun _ _ => rfl

theorem queue_mapSession (present : ref < w.store.sessions.size) (change : Session → Session) :
    (w.mapSession ref change).store.sessions[ref]?.map (·.queue) =
      some (change (w.store.session ref)).queue := by
  simp [mapSession,mapStore,Array.getElem_modify,Store.session,present]

theorem ledger_queue (present : ref < w.store.sessions.size) :
    (w.ledger ref).queue = some (w.store.session ref).queue := by
  simp [ledger,Store.session,present]

/-- Before there is a session its queue gives nothing. -/
theorem present_of_poll {id : RequestId} {queue : Ring RequestId}
    (found : (w.store.session ref).queue.poll = some (id,queue)) : ref < w.store.sessions.size := by
  by_contra absent
  have none : w.store.session ref = default := by simp [Store.session,absent]
  rw [none] at found
  cases found

theorem settle_cases (w : World σ) (id : RequestId) (outcome : Outcome) :
    (w.settle id outcome = w ∧
      ∀ f, (w.store.request id).future = some f → (w.store.future f).isDone = true) ∨
      ∃ f, (w.store.request id).future = some f ∧ w.settle id outcome = w.decide f outcome := by
  unfold settle
  cases (w.store.request id).future with
  | none => exact .inl ⟨rfl,nofun⟩
  | some f =>
    dsimp only
    split
    next done => exact .inl ⟨rfl,fun _ same => Option.some.inj same ▸ done⟩
    next => exact .inr ⟨f,rfl,rfl⟩

theorem silent_turn {o : Observation} (silent : o.silent = true) : o.turn? ref = none := by
  cases o <;> first | rfl | cases silent

theorem passing_turn {c : Chain} {handle : Handle} {r : SessionRef} {event : Event}
    (queues : ∀ id, Effect.passing c handle r event ≠ .arrived handle r (.filterWrite id)) :
    (Effect.passing c handle r event).turn? ref = none := by
  unfold Effect.passing at queues ⊢
  dsimp only at queues ⊢
  split
  next last =>
    rw [if_pos last] at queues
    cases event with
    | filterWrite id => exact absurd rfl (queues id)
    | _ => rfl
  next => rfl

theorem run_decide (w : World σ) (f : FutureId) (outcome : Outcome) :
    (w.ledger ref).Run sealed ((w.decide f outcome).ledger ref) := by
  have moves : Ledger.Moves sealed _ _ := .modified (w.ledger ref) f
    (fun g => { g with outcome := some outcome, listeners := [] }) fun _ _ => rfl
  exact .single moves

theorem ledger_enqueue (present : ref < w.store.sessions.size) (handle : Handle) (id : RequestId) :
    (w.enqueue handle ref id).ledger ref = { w.ledger ref with
      queue := some ((w.store.session ref).queue.offer id)
      turns := w.store.turns ref ++ [Turn.reached id] } := by
  have queue := queue_mapSession (w := w.record (.arrived handle ref (.filterWrite id))) present
    fun s => { s with queue := s.queue.offer id }
  have turns : (w.enqueue handle ref id).store.turns ref = w.store.turns ref ++ [Turn.reached id] := by
    refine (turns_news [.arrived handle ref (.filterWrite id)] rfl).trans ?_
    simp [Observation.turn?]
  unfold ledger
  rw [turns]
  exact congrArg (Ledger.mk · _ _ _) queue

theorem ledger_dequeue (present : ref < w.store.sessions.size) (id : RequestId) (rest : Ring RequestId) :
    (w.dequeue ref id rest).ledger ref = { w.ledger ref with
      queue := some rest, turns := w.store.turns ref ++ [Turn.taken id] } := by
  have queue := queue_mapSession (w := w) present fun s => { s with queue := rest }
  have turns : (w.dequeue ref id rest).store.turns ref = w.store.turns ref ++ [Turn.taken id] := by
    refine (turns_news (w := w) [.taken ref id] rfl).trans ?_
    simp [Observation.turn?]
  unfold ledger
  rw [turns]
  exact congrArg (Ledger.mk · _ _ _) queue

theorem ledger_dequeue_of_ne {r : SessionRef} (other : r ≠ ref) (id : RequestId) (rest : Ring RequestId) :
    (w.dequeue r id rest).ledger ref = w.ledger ref := by
  rw [dequeue,ledger_record (by simp [Observation.turn?,other])]
  exact ledger_mapSession w r fun _ same => absurd same other

theorem run_enqueue {handle : Handle} {r : SessionRef} {id : RequestId} (listed : terms.listed ref)
    (admits : w.Admits terms r (.filterWrite id)) :
    (w.ledger ref).Run sealed ((w.enqueue handle r id).ledger ref) := by
  by_cases owned : r = ref
  · subst owned
    obtain ⟨present,made⟩ := admits id rfl listed
    rw [ledger_enqueue present]
    exact .single (.reached (w.ledger r) (ledger_queue present) made)
  · have same : (w.enqueue handle r id).ledger ref = w.ledger ref := by
      rw [enqueue,ledger_mapSession _ r fun _ same => absurd same owned]
      exact ledger_record (by simp [Observation.turn?,owned]) w
    rw [same]

/-- A request is taken and decided in one, so that nobody sees it undecided. -/
theorem run_take {r : SessionRef} {id : RequestId} {rest : Ring RequestId}
    (found : (w.store.session r).queue.poll = some (id,rest)) (outcome : Outcome) :
    (w.ledger ref).Run sealed (((w.dequeue r id rest).settle id outcome).ledger ref) := by
  by_cases owned : r = ref
  · subst owned
    have present := present_of_poll found
    have taken := ledger_dequeue present id rest
    rcases settle_cases (w.dequeue r id rest) id outcome with ⟨same,done⟩ | ⟨f,decided,same⟩
    · rw [same,taken]
      exact .single (.taken (w.ledger r) (ledger_queue present) found rfl (fun _ done => done)
        fun f _ same => done f same)
    · have settled : ((w.dequeue r id rest).settle id outcome).ledger r =
          { (w.dequeue r id rest).ledger r with futures := w.store.futures.modify f fun g =>
            { g with outcome := some outcome, listeners := [] } } := congrArg (World.ledger · r) same
      rw [settled,taken]
      refine .single (.taken (w.ledger r) (ledger_queue present) found Array.size_modify
        (fun g => Ledger.isDone_modify (w.ledger r) f fun _ _ => rfl) fun g known owed => ?_)
      obtain rfl : f = g := Option.some.inj (decided.symm.trans owed)
      exact Ledger.isDone_modified known rfl
  · have same := ledger_dequeue_of_ne (w := w) owned id rest
    rcases settle_cases (w.dequeue r id rest) id outcome with ⟨settled,_⟩ | ⟨f,_,settled⟩
    · rw [settled,same]
    · rw [settled,← same]
      exact run_decide _ f outcome

/-- A request that an application takes is its own to complete. -/
theorem run_handed {r : SessionRef} {id : RequestId} {rest : Ring RequestId}
    (found : (w.store.session r).queue.poll = some (id,rest)) (open' : ¬ terms.sealed r) :
    (w.ledger ref).Run (terms.sealed ref) (((w.dequeue r id rest).record (.handed r id)).ledger ref) := by
  by_cases owned : r = ref
  · subst owned
    have present := present_of_poll found
    have turns : ((w.dequeue r id rest).record (.handed r id)).store.turns r =
        w.store.turns r ++ [Turn.taken id,Turn.handed id] := by
      refine (turns_news (w := w) [.handed r id,.taken r id] rfl).trans ?_
      simp [Observation.turn?]
    have handed := Ledger.Moves.handed (w.ledger r) open' (ledger_queue present) found
    refine .single (Eq.subst (motive := Ledger.Moves _ _) ?_ handed)
    unfold ledger
    rw [turns]
    exact congrArg (Ledger.mk · _ _ _) (queue_mapSession present fun s => { s with queue := rest }).symm
  · rw [ledger_record (by simp [Observation.turn?,owned]),ledger_dequeue_of_ne owned]

theorem run_emptied {r : SessionRef} (found : (w.store.session r).queue.poll = none) :
    (w.ledger ref).Run sealed ((w.record (.emptied r)).ledger ref) := by
  by_cases owned : r = ref
  · subst owned
    have turns : (w.record (.emptied r)).store.turns r = w.store.turns r ++ [Turn.emptied] := by
      refine (turns_news [.emptied r] rfl).trans ?_
      simp [Observation.turn?]
    have emptied : Ledger.Moves sealed (w.ledger r) _ := .emptied (w.ledger r) fun queue there => by
      have present : r < w.store.sessions.size := by
        by_contra absent
        simp [ledger,absent] at there
      rw [ledger_queue present] at there
      cases there
      exact found
    refine .single (Eq.subst (motive := Ledger.Moves _ _) ?_ emptied)
    exact congrArg (Ledger.mk _ _ _ ·) turns.symm
  · rw [ledger_record (by simp [Observation.turn?,owned])]

theorem Quiet.ledger (listed : terms.listed ref) (quiet : Quiet terms w w') :
    (w.ledger ref).Run (terms.sealed ref) (w'.ledger ref) := by
  have same (equal : w'.ledger ref = w.ledger ref) :
      (w.ledger ref).Run (terms.sealed ref) (w'.ledger ref) := equal ▸ .refl
  cases quiet with
  | own | define | loggers | factories | filter | settings | handler | processor | flushed | numbered =>
    exact .refl
  | told o silent => exact same (ledger_record (silent_turn silent) w)
  | passed handle r event current queues => exact same (ledger_record (passing_turn queues) w)
  | logged logger level text context =>
    have turns : (w.logged logger level text context).store.turns ref = w.store.turns ref :=
      turns_still _ rfl fun o member => by
        obtain ⟨emission,_,rfl⟩ := List.mem_map.mp (List.mem_reverse.mp member)
        rfl
    exact same (congrArg (Ledger.mk _ _ _ ·) turns)
  | request r known => exact .single (.requested (w.ledger ref) r (known ref listed))
  | future => exact .single (.promised (w.ledger ref))
  | decided id outcome => exact run_decide w id outcome
  | session number handler processor created =>
    by_cases new : ref = w.store.sessions.size
    · subst new
      refine .single (Eq.subst (motive := Ledger.Moves _ _) ?_
        (.opened (w.ledger w.store.sessions.size) ?_ created))
      · refine congrArg (Ledger.mk · _ _ _) ?_
        simp [begin,mapStore]
      · simp [World.ledger]
    · refine same (congrArg (Ledger.mk · _ _ _) ?_)
      simp [begin,mapStore,Array.getElem?_push,new]
  | attributed | kept | unattributed | entered | received | sent =>
    exact same (ledger_mapSession _ _ fun _ _ => rfl)
  | closing r => exact same ((ledger_record rfl _).trans (ledger_mapSession _ _ fun _ _ => rfl))
  | queued handle r id current last admits => exact run_enqueue listed admits
  | polled r found open' => exact run_handed found open'
  | took r found outcome => exact run_take found outcome
  | emptied r found => exact run_emptied found

theorem Step.ledger (listed : terms.listed ref) (step : Step terms w w') :
    (w.ledger ref).Run (terms.sealed ref) (w'.ledger ref) := by
  cases step with
  | quiet quiet => exact quiet.ledger listed
  | awaited id listener =>
    have moves : Ledger.Moves (terms.sealed ref) _ _ := .modified (w.ledger ref) id
      (fun g => { g with listeners := g.listeners ++ [listener] }) fun _ done => done
    exact .single moves
  | replaced r id f linked =>
    rw [ledger_mapChain]

theorem edit_turn {o : Observation} (edit : o.edit = true) : o.turn? ref = none := by
  cases o <;> first | rfl | cases edit

theorem Midway.ledger (listed : terms.listed ref) (midway : Midway terms w w') :
    (w.ledger ref).Run (terms.sealed ref) (w'.ledger ref) :=
  midway.carries (P := fun w w' => (w.ledger ref).Run (terms.sealed ref) (w'.ledger ref))
    (fun _ => .refl) (fun before after => before.trans after) (Step.ledger listed)
    (fun w r change => by rw [ledger_mapChain]) fun w o edit => by rw [ledger_record (edit_turn edit)]

theorem fresh_balanced (own : σ) (ref : SessionRef) :
    (({ own := own } : World σ).ledger ref).Balanced where
  queue q there := by cases there
  absent _ := ⟨rfl,rfl⟩
  known id f same := by cases same
  listed id came := by cases came
  decided id taken := by cases taken
  settled before after split := by
    have none : ({ own := own } : World σ).store.turns ref = [] := rfl
    simp [ledger,none] at split

/-- What has come was taken or waits. -/
theorem flow (balanced : (w.ledger ref).Balanced) : Turn.reaches (w.store.turns ref) =
    Turn.takes (w.store.turns ref) ++ (w.store.session ref).queue.toList := by
  by_cases present : ref < w.store.sessions.size
  · obtain ⟨_,waiting,held,came⟩ := balanced.queue _ (ledger_queue present)
    rw [held.toList_eq]
    exact came
  · have absent : (w.ledger ref).queue = none := by simp [ledger,present]
    have nobody : w.store.session ref = default := by simp [Store.session,present]
    have none := balanced.absent absent
    have came : Turn.reaches (w.store.turns ref) = [] := none.1
    have taken : Turn.takes (w.store.turns ref) = [] := none.2
    rw [came,taken,nobody]
    rfl

end World

/-- Wherever the run of an application that takes nothing off the queue of a session itself ends or is
stopped: what has reached the queue is what was taken off it, in this order, and then what waits in
it; and what was taken is decided, as far as it has a future. -/
theorem Script.until_conserves {σ : Type} {ref : SessionRef} {stops : Watch σ} {fuel : Nat}
    {script : Script σ} {own : σ} {v : World σ} (careful : stops.Careful (· = ref))
    (ran : script.until stops fuel { own := own } = v) (bounded : Turn.Bounded (v.store.turns ref)) :
    Turn.reaches (v.store.turns ref) =
        Turn.takes (v.store.turns ref) ++ (v.store.session ref).queue.toList ∧
      ∀ id ∈ Turn.takes (v.store.turns ref), ∀ future,
        (v.store.request id).future = some future → (v.store.future future).isDone = true := by
  have midway : World.Midway _ { own := own } v := ran ▸ until_midway careful.abides fuel script _
  have run : Ledger.Run _ (({ own := own } : World σ).ledger ref) (v.ledger ref) := midway.ledger rfl
  have balanced := run.balanced bounded (World.fresh_balanced own ref)
  have untouched : Turn.hands (v.store.turns ref) = [] := run.hands rfl
  exact ⟨World.flow balanced,fun id taken =>
    balanced.decided id taken (untouched ▸ List.not_mem_nil)⟩

/-- Stops when a listener is told, and at all calls that might be improper. -/
def listening : Watch Unit
  | .task (.run _ (.completed _)),_ => true
  | .step (.call (.pollQueue _) _),_ | .step (.call (.fire ..) _),_ | .step (.call (.forward ..) _),_
  | .step (.call (.newRequest ..) _),_ => true
  | _,_ => false

theorem listening_careful (refs : SessionRef → Prop) : listening.Careful refs := by
  intro c next w going
  cases c <;> trivial

/-- Two requests wait for a processor that takes none, until another takes them. -/
def waiting : Script Unit :=
  .define (fun _ => .done .unit) fun code =>
  .call (.newHandler .adapter) fun _ => .call (.newProcessor (.custom code)) fun _ =>
  .call (.newProcessor (.loopback 0)) fun _ => .call (.newSession (some 0) (some 0) 4 .unlimited) fun _ =>
  .call (.write 0 (.bytes [1])) fun _ => .call (.write 0 (.bytes [2])) fun _ =>
  .call (.listen 0 code) fun _ => .call (.flush 1 0) fun _ => .done .unit

def stopped : World Unit := waiting.until listening 8 { own := () }

/-- The first request is decided and the second waits as the listener of the first is told. -/
theorem until_conserves_waiting :
    Turn.reaches (stopped.store.turns 0) =
        Turn.takes (stopped.store.turns 0) ++ (stopped.store.session 0).queue.toList ∧
      Turn.takes (stopped.store.turns 0) = [0] ∧ (stopped.store.session 0).queue.toList = [1] ∧
      (stopped.store.future 0).isDone = true := by
  have ran : waiting.until listening 8 { own := () } = stopped := rfl
  have few : (stopped.store.turns 0).length < 2^62 := by decide +kernel
  have bounded : Turn.Bounded (stopped.store.turns 0) := fun earlier within =>
    Nat.le_add_left_of_le ((List.length_filterMap_le _ _).trans (within.length_le.trans few.le))
  have queues := Script.until_conserves (listening_careful _) ran bounded
  exact ⟨queues.1,by decide +kernel,by decide +kernel,by decide +kernel⟩

end SessionPipeline
