import SessionPipeline.Proofs.Session.Handling

/-! Operations on many sessions, one after the other in any order, over filters, handlers and processors
that the sessions share. Each session comes by the same as if the operations on it were the only ones. -/
namespace SessionPipeline

/-- What an application does to a session. -/
structure Operation (σ : Type) where
  ref : SessionRef
  script : Script σ

/-- What there is of a session: what has happened to it, latest first, what waits in its queue, both with
the requests that are carried and those that they wrap, and how much of its input each codec keeps. -/
structure Aspect where
  session : Session
  events : List (Observation × List WriteRequest)
  queue : List (List WriteRequest)
  pending : FilterId → Nat

def Store.aspect (s : Store) (ref : SessionRef) : Aspect where
  session := s.session ref
  events := (s.eventsOf ref).map fun o => (o,o.requests.flatMap s.layers)
  queue := (s.session ref).queue.toList.map s.layers
  pending codec := s.pendingBytes codec ref

/-- Leaves out the numbers that another world has given out since, as numbers stand for addresses: blank
requests and futures take them, and code that does nothing. -/
def World.passOver {σ : Type} (v w : World σ) : World σ :=
  { v with
    code := v.code ++ Array.replicate (w.code.size - v.code.size) fun _ => .done .unit
    store := { v.store with
      requests := v.store.requests ++
        Array.replicate (w.store.requests.size - v.store.requests.size) { message := .empty,future := none }
      futures := v.store.futures ++ Array.replicate (w.store.futures.size - v.store.futures.size) {} } }

/-- The script ends, and before a queue has more slots than a machine word tells. -/
def Script.hasRoom {σ : Type} (fuel : Nat) (script : Script σ) (w : World σ) : Bool :=
  match Effect.interpretUntil crowded (Effect.answer (Effect.performUntil crowded fuel)) script w with
  | .error .outOfFuel _ => false
  | _ => true

namespace Operation

variable {σ : Type}

/-- Operations in turn, each on what the one before it leaves, and how each ends. -/
def interleave (fuel : Nat) : List (Operation σ) → World σ → List (SessionRef × Ending) × World σ
  | [], w => ([],w)
  | op :: rest, w =>
    let ran := op.script.execute fuel w
    let later := interleave fuel rest ran.2
    ((op.ref,ran.1) :: later.1,later.2)

/-- Only the operations on one session, `here`, while all of them are done `there`, which tells the
numbers to pass over. -/
def alone (fuel : Nat) (ref : SessionRef) :
    List (Operation σ) → (there here : World σ) → List (SessionRef × Ending) × World σ
  | [], _, here => ([],here)
  | op :: rest, there, here =>
    let ran := op.script.execute fuel there
    if op.ref = ref then
      let own := op.script.execute fuel here
      let later := alone fuel ref rest ran.2 own.2
      ((ref,own.1) :: later.1,later.2)
    else alone fuel ref rest ran.2 (here.passOver ran.2)

def haveRoom (fuel : Nat) : List (Operation σ) → World σ → Bool
  | [], _ => true
  | op :: rest, w => op.script.hasRoom fuel w && haveRoom fuel rest (op.script.execute fuel w).2

end Operation

variable {τ : Type}

section Transfer

variable {u v w : World (SessionRef → τ)} {ref : SessionRef} {known : Set Name}

theorem World.SameTo.refl (w : World (SessionRef → τ)) : w.SameTo ref known w :=
  ⟨⟨rfl,fun _ _ => rfl,fun _ _ => rfl,rfl,rfl,fun _ => rfl,rfl⟩,rfl,fun _ _ => rfl⟩

theorem World.SameTo.symm (same : w.SameTo ref known v) : v.SameTo ref known w where
  agrees := {
    session := same.agrees.session.symm
    request := fun id member => (same.agrees.request id member).symm
    future := fun id member => (same.agrees.future id member).symm
    filters := same.agrees.filters.symm
    handlers := same.agrees.handlers.symm
    processor := fun id => (same.agrees.processor id).symm
    events := same.agrees.events.symm }
  memory := same.memory.symm
  code := fun id member => (same.code id member).symm

theorem World.SameTo.trans (first : w.SameTo ref known v) (second : v.SameTo ref known u) :
    w.SameTo ref known u where
  agrees := {
    session := first.agrees.session.trans second.agrees.session
    request := fun id member => (first.agrees.request id member).trans (second.agrees.request id member)
    future := fun id member => (first.agrees.future id member).trans (second.agrees.future id member)
    filters := first.agrees.filters.trans second.agrees.filters
    handlers := first.agrees.handlers.trans second.agrees.handlers
    processor := fun id => (first.agrees.processor id).trans (second.agrees.processor id)
    events := first.agrees.events.trans second.agrees.events }
  memory := first.memory.trans second.memory
  code := fun id member => (first.code id member).trans (second.code id member)

end Transfer
section PassingOver

variable {v w : World (SessionRef → τ)} {ref : SessionRef} {known : Set Name}

theorem World.same_passOver (made : ∀ n ∈ known, v.Made n) (w : World (SessionRef → τ)) :
    v.SameTo ref known (v.passOver w) where
  agrees := {
    session := rfl
    request := fun id member => by
      have inside : id < v.store.requests.size := made _ member
      simp [passOver,Store.request,Array.getElem?_append_left inside]
    future := fun id member => by
      have inside : id < v.store.futures.size := made _ member
      simp [passOver,Store.future,Array.getElem?_append_left inside]
    filters := rfl
    handlers := rfl
    processor := fun _ => rfl
    events := rfl }
  memory := rfl
  code := fun id member => by
    have inside : id < v.code.size := made _ member
    rw [passOver,Array.getElem?_append_left inside]

/-- What a world has made another has made, so it has made no less. -/
theorem World.sizes_le (made : ∀ n, v.Made n → w.Made n) : v.store.requests.size ≤ w.store.requests.size ∧
    v.store.futures.size ≤ w.store.futures.size ∧ v.code.size ≤ w.code.size := by
  refine ⟨?_,?_,?_⟩ <;> refine Nat.le_of_not_lt fun less => ?_
  · exact Nat.lt_irrefl _ (made (.request _) less)
  · exact Nat.lt_irrefl _ (made (.future _) less)
  · exact Nat.lt_irrefl _ (made (.code _) less)

theorem World.level_passOver (made : ∀ n, v.Made n → w.Made n)
    (sessions : w.store.sessions.size = v.store.sessions.size) : w.Level (v.passOver w) := by
  obtain ⟨requests,futures,code⟩ := sizes_le made
  constructor
  · simpa [passOver] using (Nat.add_sub_of_le requests).symm
  · simpa [passOver] using (Nat.add_sub_of_le futures).symm
  · simpa [passOver] using (Nat.add_sub_of_le code).symm
  · exact sessions

end PassingOver

namespace World

variable {v w : World (SessionRef → τ)}

theorem Level.made (level : w.Level v) (n : Name) : v.Made n ↔ w.Made n := by
  cases n <;> simp only [Made,level.requests,level.futures,level.code]

/-- A run for the session from a world with these names. -/
def scope (w : World (SessionRef → τ)) (ref : SessionRef) (names : Set Name) : Scope τ where
  ref := ref
  start := w
  owned := names ∪ {n | ¬ w.Made n}
  fresh _ unmade := .inr unmade

theorem known_scope {names : Set Name} (made : ∀ n ∈ names, w.Made n) :
    (w.scope ref names).known w = names := by
  ext n
  constructor
  · rintro ⟨own | unmade,there⟩
    · exact own
    · exact absurd there unmade
  · exact fun own => ⟨.inl own,made n own⟩

end World

theorem Scope.Spares.same {S : Scope τ} {w : World (SessionRef → τ)} (spares : S.Spares w) {ref : SessionRef}
    (other : ref ≠ S.ref) {known : Set Name} (made : ∀ n ∈ known, S.start.Made n)
    (foreign : ∀ f, .future f ∈ known → .future f ∉ S.owned) : S.start.SameTo ref known w where
  agrees := {
    session := (spares.session ref other).symm
    request := fun id member => (spares.request id (made _ member)).symm
    future := fun id member => (spares.future id (made _ member) (foreign id member)).symm
    filters := spares.filters.symm
    handlers := spares.handlers.symm
    processor := fun id => (spares.processor id).symm
    events := (spares.events ref other).symm }
  memory := (spares.memory ref other).symm
  code := fun id member => (spares.code id (made _ member)).symm

variable [Naming τ]

/-- Each session has names of its own that lead to no others, and code that keeps to the session; no
future is two sessions'. -/
structure World.Separate (w : World (SessionRef → τ)) (owned : SessionRef → Set Name) : Prop where
  made : ∀ ref, ∀ n ∈ owned ref, w.Made n
  within : ∀ ref < w.store.sessions.size, w.Within ref (owned ref)
  apart : ∀ q r f, q ≠ r → .future f ∈ owned q → .future f ∉ owned r

namespace World

variable {v w : World (SessionRef → τ)} {ref : SessionRef}

/-- What is known leads to nothing else in a world that is the same to the session. -/
theorem SameTo.within (same : w.SameTo ref known v) (within : w.Within ref known)
    (present : ref < v.store.sessions.size) : v.Within ref known where
  present := present
  store := {
    queue := same.agrees.session ▸ within.store.queue
    requests := fun id member n named => by
      rw [← same.agrees.request id member] at named
      exact within.store.requests id member n named
    futures := fun id member n named => by
      rw [← same.agrees.future id member] at named
      exact within.store.futures id member n named
    events := same.agrees.events ▸ within.store.events
    serves := fun code serves => within.store.serves code (by
      unfold Store.Serves Store.filter Store.handler at serves ⊢
      rw [same.agrees.filters,same.agrees.handlers]
      simpa only [same.agrees.processor] using serves) }
  memory := same.memory ▸ within.memory
  code := fun id member => (within.code id member).imp fun body found =>
    ⟨(same.code id member).symm.trans found.1,found.2⟩

variable {owned : SessionRef → Set Name}

theorem Separate.foreign (separate : w.Separate owned) {q : SessionRef} (other : q ≠ ref) {f : FutureId}
    (member : .future f ∈ owned q) : .future f ∉ (w.scope ref (owned ref)).owned := by
  rintro (own | unmade)
  · exact separate.apart q ref f other member own
  · exact unmade (separate.made q _ member)

theorem Separate.along (separate : w.Separate owned) (present : ref < w.store.sessions.size)
    (same : w.SameTo ref (owned ref) v) (level : w.Level v) : (w.scope ref (owned ref)).Along w v where
  toSameTo := (known_scope (separate.made ref)).symm ▸ same
  within := (known_scope (separate.made ref)).symm ▸ separate.within ref present
  level := level
  spares := ⟨fun _ made => made,rfl,fun _ _ => rfl,fun _ _ => rfl,fun _ _ => rfl,fun _ _ _ => rfl,
    fun _ _ => rfl,rfl,rfl,fun _ => rfl,fun _ _ => rfl⟩

/-- A run for one session leaves a world that is the same to the others. -/
theorem Separate.untouched (separate : w.Separate owned) {w' v' : World (SessionRef → τ)}
    (along : (w.scope ref (owned ref)).Along w' v') {q : SessionRef} (other : q ≠ ref) :
    w.SameTo q (owned q) w' :=
  along.spares.same other (separate.made q) fun _ member => separate.foreign other member

/-- After a run for one session, what the run has made is that session's. -/
theorem Separate.after (separate : w.Separate owned) {w' v' : World (SessionRef → τ)}
    (along : (w.scope ref (owned ref)).Along w' v') :
    w'.Separate (Function.update owned ref ((w.scope ref (owned ref)).known w')) where
  made q n member := by
    by_cases own : q = ref
    · subst own
      rw [Function.update_self] at member
      exact member.2
    · rw [Function.update_of_ne own] at member
      exact along.spares.made n (separate.made q n member)
  within q present := by
    by_cases own : q = ref
    · subst own
      rw [Function.update_self]
      exact along.within
    · rw [Function.update_of_ne own]
      have started : q < w.store.sessions.size := along.spares.sessions ▸ present
      exact (separate.untouched along own).within (separate.within q started) present
  apart q r f differ first second := by
    by_cases own : q = ref
    · subst own
      rw [Function.update_self] at first
      rw [Function.update_of_ne differ.symm] at second
      exact separate.foreign differ.symm second first.1
    · rw [Function.update_of_ne own] at first
      by_cases own' : r = ref
      · subst own'
        rw [Function.update_self] at second
        exact separate.foreign own first second.1
      · rw [Function.update_of_ne own'] at second
        exact separate.apart q r f differ first second

end World

section Running

open Effect

/-- A script that keeps to the session ends the same in two worlds that are the same to the session. -/
theorem Script.execute_alike {S : Scope τ} {w v : World (SessionRef → τ)} (along : S.Along w v)
    {script : Script (SessionRef → τ)} (confined : script.Confined S.ref (S.known w) fun _ => [])
    {fuel : Nat} (room : script.hasRoom fuel w = true) :
    (script.execute fuel w).1 = (script.execute fuel v).1 ∧
      S.Along (script.execute fuel w).2 (script.execute fuel v).2 ∧
      S.known w ⊆ S.known (script.execute fuel w).2 := by
  have alike := likewise_interpret (fun c _ _ along within roomy =>
    likewise_answer (performUntil_performs fuel) along within roomy) confined along subset_rfl
  unfold hasRoom at room
  unfold execute ofScript
  rcases interpretUntil_below crowded (below_answer (performUntil_below crowded fuel)) script w with
    ⟨u,out⟩ | same
  · rw [out] at room
    cases room
  · rw [← same]
    unfold Scope.Likewise at alike
    generalize interpretUntil crowded (answer (performUntil crowded fuel)) script w = result,
      interpret (answer (performWith fuel)) script v = result' at alike room
    cases alike with
    | stopped u => cases room
    | returned ends => exact ⟨rfl,ends.1,ends.2.1⟩
    | failed failure ends => exact ⟨rfl,ends⟩

end Running

section Aspects

variable {w v : World (SessionRef → τ)} {ref : SessionRef} {known : Set Name}

theorem World.SameTo.layers (same : w.SameTo ref known v) (within : w.Within ref known) (level : w.Level v)
    {id : RequestId} (member : .request id ∈ known) : v.store.layers id = w.store.layers id := by
  have upTo (fuel : Nat) : v.store.layersUpTo fuel id = w.store.layersUpTo fuel id := by
    induction fuel generalizing id with
    | zero => rfl
    | succ fuel ih =>
      rw [Store.layersUpTo,Store.layersUpTo,← same.agrees.request id member]
      cases wrapped : (w.store.request id).inner with
      | none => rfl
      | some inner =>
        have known : .request inner ∈ known :=
          within.store.requests id member _ (by simp [WriteRequest.names,wrapped])
        dsimp only
        rw [ih known]
  rw [Store.layers,Store.layers,← level.requests]
  exact upTo _

/-- What is the same to a session shows the same aspect. -/
theorem World.SameTo.aspect (same : w.SameTo ref known v) (within : w.Within ref known) (level : w.Level v) :
    v.store.aspect ref = w.store.aspect ref := by
  obtain ⟨ids,held,listed⟩ := within.store.queue
  have events : (w.store.eventsOf ref).map (fun o => (o,o.requests.flatMap v.store.layers)) =
      (w.store.eventsOf ref).map fun o => (o,o.requests.flatMap w.store.layers) := by
    refine List.map_congr_left fun o happened => ?_
    rw [List.flatMap_congr fun id carried =>
      same.layers within level (within.store.events o happened id carried)]
  have queue : ids.map v.store.layers = ids.map w.store.layers :=
    List.map_congr_left fun id waits => same.layers within level (listed id waits)
  unfold Store.aspect Store.pendingBytes
  rw [← same.agrees.session,← same.agrees.events,events,held.toList_eq,queue]

end Aspects

namespace Operation

variable {w v : World (SessionRef → τ)} {owned : SessionRef → Set Name} {fuel : Nat}

/-- The operation is on a session that there is, to which it keeps. -/
structure Within (op : Operation (SessionRef → τ)) (w : World (SessionRef → τ))
    (owned : SessionRef → Set Name) : Prop where
  present : op.ref < w.store.sessions.size
  confined : op.script.Confined op.ref (owned op.ref) fun _ => []

/-- What keeps to a session keeps to it after a run for any session. -/
theorem Within.after {op : Operation (SessionRef → τ)} (within : op.Within w owned) {ref : SessionRef}
    {w' v' : World (SessionRef → τ)} (along : (w.scope ref (owned ref)).Along w' v')
    (larger : owned ref ⊆ (w.scope ref (owned ref)).known w') :
    op.Within w' (Function.update owned ref ((w.scope ref (owned ref)).known w')) where
  present := along.spares.sessions ▸ within.present
  confined := by
    by_cases own : op.ref = ref
    · subst own
      rw [Function.update_self]
      exact within.confined.mono larger
    · rw [Function.update_of_ne own]
      exact within.confined

/-- As long as what is done to a session alone is done to it among others, the worlds stay the same to
it. -/
theorem alone_same {ops : List (Operation (SessionRef → τ))} {ref : SessionRef}
    (separate : w.Separate owned) (present : ref < w.store.sessions.size) (same : w.SameTo ref (owned ref) v)
    (level : w.Level v) (within : ∀ op ∈ ops, op.Within w owned) (room : haveRoom fuel ops w = true) :
    (alone fuel ref ops w v).1 = (interleave fuel ops w).1.filter (·.1 == ref) ∧
      (alone fuel ref ops w v).2.store.aspect ref = (interleave fuel ops w).2.store.aspect ref := by
  induction ops generalizing w v owned with
  | nil => exact ⟨rfl,same.aspect (separate.within ref present) level⟩
  | cons op rest ih =>
    have here := within op List.mem_cons_self
    have known : (w.scope op.ref (owned op.ref)).known w = owned op.ref :=
      World.known_scope (separate.made op.ref)
    simp only [haveRoom,Bool.and_eq_true] at room
    rw [alone,interleave]
    dsimp only
    by_cases own : op.ref = ref
    · subst own
      obtain ⟨ending,along,larger⟩ := Script.execute_alike (separate.along present same level)
        (known.symm ▸ here.confined) room.1
      rw [known] at larger
      obtain ⟨endings,aspect⟩ := ih (separate.after along) (along.spares.sessions ▸ present)
        (by
          rw [Function.update_self]
          exact along.toSameTo) along.level
        (fun op' member => (within op' (List.mem_cons_of_mem op member)).after along larger) room.2
      rw [if_pos rfl,List.filter_cons,if_pos (beq_self_eq_true _),endings,ending]
      exact ⟨rfl,aspect⟩
    · obtain ⟨_,along,larger⟩ := Script.execute_alike
        (separate.along here.present (.refl w) ⟨rfl,rfl,rfl,rfl⟩) (known.symm ▸ here.confined) room.1
      rw [known] at larger
      have untouched := separate.untouched along (Ne.symm own)
      have made : ∀ n ∈ owned ref, v.Made n := fun n member =>
        (level.made n).mpr (separate.made ref n member)
      have later := untouched.symm.trans (same.trans (World.same_passOver made (op.script.execute fuel w).2))
      obtain ⟨endings,aspect⟩ := ih (separate.after along) (along.spares.sessions ▸ present)
        (by rwa [Function.update_of_ne (Ne.symm own)])
        (World.level_passOver (fun n there => along.spares.made n ((level.made n).mp there))
          (along.spares.sessions.trans level.sessions))
        (fun op' member => (within op' (List.mem_cons_of_mem op member)).after along larger) room.2
      rw [if_neg own,List.filter_cons,if_neg (by simpa using own),endings]
      exact ⟨rfl,aspect⟩

/-- Among operations on other sessions, in whatever order, each session comes by the same as alone: its
operations end the same, and its filters, handler and processor, its queue and what codecs keep of its
input show the same aspect. -/
theorem interleave_apart {ops : List (Operation (SessionRef → τ))} (separate : w.Separate owned)
    (within : ∀ op ∈ ops, op.Within w owned) (room : haveRoom fuel ops w = true) {ref : SessionRef}
    (present : ref < w.store.sessions.size) :
    (alone fuel ref ops w w).1 = (interleave fuel ops w).1.filter (·.1 == ref) ∧
      (alone fuel ref ops w w).2.store.aspect ref = (interleave fuel ops w).2.store.aspect ref :=
  alone_same separate present (.refl w) ⟨rfl,rfl,rfl,rfl⟩ within room

/-- Writes what it receives. -/
def echoes : Invocation → Script (SessionRef → Unit)
  | .handle (.messageReceived (.bytes content)) ref => .invoke (.write ref (.text content))
  | _ => .done .unit

/-- A session whose chain holds the codec that others hold as well. -/
def sharing (number : Nat) : Session where
  id := number
  handler := 0
  processor := 0
  queue := .vacant 16 16
  chain :=
    let (id,chain) := Chain.empty.allocate "codec" 0
    chain.insert id "codec" .last

/-- Two sessions with one codec, one handler and one processor. -/
def shared : World (SessionRef → Unit) where
  store := {
    filters := #[.codec 100 100]
    handlers := #[.custom 0]
    processors := #[.loopback 0]
    sessions := #[sharing 1,sharing 2] }
  own := fun _ => ()
  code := #[echoes]

theorem confined_invoke {ref : SessionRef} {known : Set Name} {c : Call} (within : c.Within ref known) :
    (Script.invoke c : Script (SessionRef → τ)).Confined ref known fun _ => [] :=
  .call within fun _ _ _ _ => .done nofun

theorem echoes_confined (ref : SessionRef) (known : Set Name) : Confines ref known echoes := by
  intro more _ how within
  unfold echoes
  split
  · exact confined_invoke within.1
  · exact .done nofun

theorem shared_separate : shared.Separate fun _ => {.code 0} where
  made ref n member := by
    obtain rfl := member
    exact Nat.zero_lt_one
  within ref present := {
    present := present
    store := {
      queue := by
        have queue : (shared.store.session ref).queue = .vacant 16 16 := by
          match ref,present with
          | 0,_ => rfl
          | 1,_ => rfl
        exact ⟨[],queue ▸ Ring.Holds.vacant ⟨4,rfl⟩,nofun⟩
      requests := fun id member => by cases member
      futures := fun id member => by cases member
      events := by
        have none : shared.store.eventsOf ref = [] := rfl
        rw [none]
        exact fun _ member => absurd member List.not_mem_nil
      serves := fun code serves => by
        rcases serves with ⟨id,label,runs⟩ | ⟨id,runs⟩ | ⟨id,runs⟩
        · cases id <;> cases runs
        · cases id with
          | zero =>
            cases runs
            rfl
          | succ id => cases runs
        · cases id <;> cases runs }
    memory := nofun
    code := fun id member => by
      obtain rfl := Name.code.inj member
      exact ⟨echoes,rfl,echoes_confined ref _⟩ }
  apart q r f differ member := by cases member

/-- Input for two sessions in turn, in pieces and one of them malformed, and a codec that leaves. -/
def mingled : List (Operation (SessionRef → Unit)) :=
  [⟨0,.invoke (.fire 0 (.messageReceived (.bytes [2,7])))⟩,
   ⟨1,.invoke (.fire 1 (.messageReceived (.bytes [1,9,255,255,255,255,255,255])))⟩,
   ⟨0,.invoke (.fire 0 (.messageReceived (.bytes [8,3,5])))⟩,
   ⟨1,.invoke (.fire 1 .sessionClosed)⟩,
   ⟨1,.invoke (.remove 1 "codec")⟩,
   ⟨0,.invoke (.write 0 (.text [4]))⟩]

theorem mingled_within : ∀ op ∈ mingled, op.Within shared fun _ => {.code 0} := by
  intro op member
  simp only [mingled,List.mem_cons,List.not_mem_nil,or_false] at member
  rcases member with rfl | rfl | rfl | rfl | rfl | rfl
  all_goals exact ⟨by decide,confined_invoke (by simp [Call.Within,Event.requests])⟩

/-- What the first session comes by, among it an unfinished frame, is what it comes by alone. -/
theorem mingled_apart : (alone 16 0 mingled shared shared).1 =
      (interleave 16 mingled shared).1.filter (·.1 == 0) ∧
    (alone 16 0 mingled shared shared).2.store.aspect 0 = (interleave 16 mingled shared).2.store.aspect 0 ∧
    ((interleave 16 mingled shared).2.store.eventsOf 0).length = 13 ∧
    (interleave 16 mingled shared).2.store.pendingBytes 0 0 = 2 := by
  have room : haveRoom 16 mingled shared = true := by decide +kernel
  have present : (0 : SessionRef) < shared.store.sessions.size := Nat.zero_lt_two
  obtain ⟨endings,aspect⟩ := interleave_apart shared_separate mingled_within room present
  refine ⟨endings,aspect,?_,?_⟩ <;> decide +kernel

end Operation
end SessionPipeline
