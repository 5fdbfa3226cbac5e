import Mathlib.Data.List.Perm.Basic
import SessionPipeline.Proofs.Effect.Ending
import SessionPipeline.Proofs.Effect.Operations
import SessionPipeline.Proofs.Session.Untouched

/-! What happens to a future while code completes it and listens to it, from outside and from inside its
listeners to any depth. A list of happenings is replayed on a future as on a small machine, and a tale ties
it to the calls that made it, with all that goes on inside of a call told within that call. -/
namespace SessionPipeline

/-- A listener is registered, a completion takes effect or is refused, and a listener is told, finds the
future like this, and may throw. -/
inductive Happening
  | listened (listener : CodeId)
  | settled (outcome : Outcome)
  | refused (outcome : Outcome)
  | told (listener : CodeId) (found : Option Outcome)
  | threw (listener : CodeId)
  deriving DecidableEq

namespace Happening

@[simp] def listened? : Happening → Option CodeId
  | listened listener => some listener
  | _ => none

@[simp] def told? : Happening → Option CodeId
  | told listener _ => some listener
  | _ => none

@[simp] def isThrow : Happening → Bool
  | threw _ => true
  | _ => false

def attempt? : Happening → Option Outcome
  | settled outcome | refused outcome => some outcome
  | _ => none

end Happening

def registered (marks : List Happening) : List CodeId := marks.filterMap Happening.listened?

def tellings (marks : List Happening) : List CodeId := marks.filterMap Happening.told?

def Smooth (marks : List Happening) : Prop := ∀ h ∈ marks, h.isThrow = false

section Marks

variable (h : Happening) (marks later : List Happening)

@[simp] theorem registered_nil : registered [] = [] := rfl

@[simp] theorem registered_cons : registered (h :: marks) = h.listened?.toList ++ registered marks := by
  cases h <;> rfl

@[simp] theorem registered_append : registered (marks ++ later) = registered marks ++ registered later :=
  List.filterMap_append

@[simp] theorem tellings_nil : tellings [] = [] := rfl

@[simp] theorem tellings_cons : tellings (h :: marks) = h.told?.toList ++ tellings marks := by
  cases h <;> rfl

@[simp] theorem tellings_append : tellings (marks ++ later) = tellings marks ++ tellings later :=
  List.filterMap_append

@[simp] theorem smooth_cons : Smooth (h :: marks) ↔ h.isThrow = false ∧ Smooth marks := List.forall_mem_cons

@[simp] theorem smooth_append : Smooth (marks ++ later) ↔ Smooth marks ∧ Smooth later :=
  List.forall_mem_append

end Marks

namespace WriteFuture

/-- What it makes of a future, unless it cannot happen to it. -/
def after? (f : WriteFuture) : Happening → Option WriteFuture
  | .listened listener => some (if f.isDone then f else { f with listeners := f.listeners ++ [listener] })
  | .settled outcome => if f.isDone then none else some ⟨some outcome,[]⟩
  | .refused _ | .threw _ => if f.isDone then some f else none
  | .told _ found => if f.isDone ∧ found = f.outcome then some f else none

def replay? (f : WriteFuture) (marks : List Happening) : Option WriteFuture := marks.foldlM after? f

variable {f f' : WriteFuture} {marks : List Happening} {h : Happening}

theorem after_done (done : f.isDone = true) (happened : f.after? h = some f') :
    f' = f ∧ ∀ outcome, h ≠ .settled outcome := by
  cases h <;> simp_all [after?]

theorem after_waiting (waiting : f.isDone = false) (happened : f.after? h = some f') :
    (∃ listener, h = .listened listener ∧ f' = { f with listeners := f.listeners ++ [listener] }) ∨
      ∃ outcome, h = .settled outcome ∧ f' = ⟨some outcome,[]⟩ := by
  cases h <;> simp_all [after?]

theorem after_outcome (happened : f.after? h = some f') : f'.outcome = f.outcome.or h.attempt? := by
  cases done : f.isDone with
  | true =>
    obtain ⟨rfl,_⟩ := after_done done happened
    exact (Option.or_of_isSome done).symm
  | false =>
    have none : f.outcome = none := by simpa [isDone] using done
    rcases after_waiting done happened with ⟨_,rfl,rfl⟩ | ⟨_,rfl,rfl⟩
    · simp [none,Happening.attempt?]
    · simp [none,Happening.attempt?]

theorem replay_cons (replayed : f.replay? (h :: marks) = some f') :
    ∃ f₁, f.after? h = some f₁ ∧ f₁.replay? marks = some f' := Option.bind_eq_some_iff.mp replayed

theorem replay_append {before later : List Happening} (replayed : f.replay? before = some f') :
    f.replay? (before ++ later) = f'.replay? later := by
  unfold replay? at replayed ⊢
  rw [List.foldlM_append,replayed]
  rfl

theorem replay_done (done : f.isDone = true) (replayed : f.replay? marks = some f') : f' = f := by
  induction marks with
  | nil => exact (Option.some.inj replayed).symm
  | cons h later ih =>
    obtain ⟨f₁,happened,onward⟩ := replay_cons replayed
    obtain ⟨rfl,_⟩ := after_done done happened
    exact ih onward

/-- What was asked for first has been decided. -/
theorem replay_outcome (replayed : f.replay? marks = some f') :
    f'.outcome = f.outcome.or (marks.findSome? Happening.attempt?) := by
  induction marks generalizing f with
  | nil =>
    obtain rfl := Option.some.inj replayed
    simp
  | cons h later ih =>
    obtain ⟨f₁,happened,onward⟩ := replay_cons replayed
    rw [ih onward,after_outcome happened,Option.or_assoc,List.findSome?_cons]
    cases h.attempt? <;> rfl

/-- A completion takes effect if and only if it comes first. -/
theorem replay_first {before later : List Happening} {outcome : Outcome}
    (replayed : f.replay? (before ++ h :: later) = some f') (asks : h.attempt? = some outcome) :
    h = if (f.outcome.or (before.findSome? Happening.attempt?)).isSome then .refused outcome
      else .settled outcome := by
  induction before generalizing f with
  | nil =>
    obtain ⟨f₁,happened,_⟩ := replay_cons replayed
    rw [List.findSome?_nil,Option.or_none]
    change h = if f.isDone then _ else _
    cases done : f.isDone with
    | true =>
      obtain ⟨_,unsettled⟩ := after_done done happened
      cases h <;> cases asks
      · exact absurd rfl (unsettled outcome)
      · rfl
    | false =>
      rcases after_waiting done happened with ⟨_,rfl,_⟩ | ⟨_,rfl,_⟩
      · cases asks
      · cases asks
        rfl
  | cons first before ih =>
    obtain ⟨f₁,happened,onward⟩ := replay_cons replayed
    rw [ih onward,after_outcome happened,Option.or_assoc,List.findSome?_cons]
    cases first.attempt? <;> rfl

theorem replay_told {listener : CodeId} {found : Option Outcome}
    (replayed : f.replay? marks = some f') (told : .told listener found ∈ marks) :
    f'.isDone = true ∧ found = f'.outcome := by
  induction marks generalizing f with
  | nil => cases told
  | cons h later ih =>
    obtain ⟨f₁,happened,onward⟩ := replay_cons replayed
    rcases List.mem_cons.mp told with rfl | told
    · have finds : f.isDone = true ∧ found = f.outcome := by
        simp only [after?] at happened
        split at happened
        · assumption
        · cases happened
      obtain ⟨rfl,_⟩ := after_done finds.1 happened
      obtain rfl := replay_done finds.1 onward
      exact finds
    · exact ih onward told

theorem replay_taken (waiting : f.isDone = false) (done : f'.isDone = true)
    (replayed : f.replay? marks = some f') : f'.listeners = [] := by
  induction marks generalizing f with
  | nil =>
    obtain rfl := Option.some.inj replayed
    exact absurd done (Bool.eq_false_iff.mp waiting)
  | cons h later ih =>
    obtain ⟨f₁,happened,onward⟩ := replay_cons replayed
    rcases after_waiting waiting happened with ⟨_,_,rfl⟩ | ⟨_,_,rfl⟩
    · refine ih ?_ onward
      exact waiting
    · rw [replay_done rfl onward]

end WriteFuture

namespace Effect

variable {σ α : Type} {perform : Perform σ} {future : FutureId} {w v w' : World σ}

theorem listen_done (done : (w.store.future future).isDone = true) (listener : CodeId) :
    listen perform future listener w = runListeners perform future [listener] w := by
  unfold listen
  rw [bind_of_ok (store_apply w),if_pos done]
  exact (congrFun bind_pure_unit w).symm

theorem listen_waiting (waiting : (w.store.future future).isDone = false) (listener : CodeId) :
    listen perform future listener w = .ok () (w.await future listener) := by
  unfold listen
  rw [bind_of_ok (store_apply w),if_neg (Bool.eq_false_iff.mp waiting)]
  rfl

theorem runListeners_cons (future : FutureId) (listener : CodeId) (rest : List CodeId) (w : World σ) :
    runListeners perform future (listener :: rest) w = (do
      runCode perform listener (.completed future)
      runListeners perform future rest) (w.record (.notified future listener)) := rfl

theorem attempt_bind_pure {body : Effect σ Unit} {result : Except Failure Unit} (a : α)
    (ended : attempt body w = .ok result w') :
    attempt (body >>= fun _ => pure a) w = .ok (result.map fun _ => a) w' := by
  cases result with
  | ok => exact attempt_of_ok (bind_of_ok (ok_of_attempt ended))
  | error failure => exact attempt_of_failed (failed_of_bind (failed_of_attempt ended))

end Effect

open Effect World

variable {σ : Type} {future : FutureId}

/-- What happens to a future while a computation runs until it returns or fails, these listeners being due
to be told of it. Nothing happens in what leaves the future alone wherever it starts, nor before the future
is made; a call that completes it or listens to it comes with what happens inside of it. -/
inductive Tale (future : FutureId) : {α : Type} → List CodeId → Effect σ α → World σ →
    List Happening → Except Failure α → World σ → Prop
  | idle {α : Type} {m : Effect σ α} {w w' : World σ} {a : α}
      (idle : ∀ v, ∃ b v', m v = .ok b v' ∧ Untouched future v v') (returns : m w = .ok a w') :
      Tale future [] m w [] (.ok a) w'
  | unmade {α : Type} {m : Effect σ α} {w w' : World σ} {a : α}
      (unmade : w.store.futures.size ≤ future) (returns : m w = .ok a w')
      (untouched : Untouched future w w') : Tale future [] m w [] (.ok a) w'
  | failed {α : Type} (failure : Failure) (w : World σ) :
      Tale future [] (fail failure : Effect σ α) w [] (.error failure) w
  | onward {α β : Type} {m : Effect σ α} {next : α → Effect σ β} {w w₁ w' : World σ} {a : α}
      {result : Except Failure β} {before later : List Happening}
      (first : Tale future [] m w before (.ok a) w₁)
      (second : Tale future [] (next a) w₁ later result w') :
      Tale future [] (m >>= next) w (before ++ later) result w'
  | broken {α β : Type} {m : Effect σ α} {next : α → Effect σ β} {w w' : World σ} {failure : Failure}
      {marks : List Happening} (first : Tale future [] m w marks (.error failure) w') :
      Tale future [] (m >>= next) w marks (.error failure) w'
  | tried {α : Type} {m : Effect σ α} {w w' : World σ} {result : Except Failure α}
      {marks : List Happening} (body : Tale future [] m w marks result w') :
      Tale future [] (attempt m) w marks (.ok result) w'
  | refused {w : World σ} {outcome : Outcome} {fuel : Nat}
      (done : (w.store.future future).isDone = true) :
      Tale future [] (complete (performWith fuel) future outcome) w [.refused outcome] (.ok false) w
  | settled {w w' : World σ} {outcome : Outcome} {result : Except Failure Unit} {fuel : Nat}
      {inside : List Happening} (made : future < w.store.futures.size)
      (waiting : (w.store.future future).isDone = false)
      (tells : Tale future (w.store.future future).listeners
        (runListeners (performWith fuel) future (w.store.future future).listeners)
        (w.decide future outcome) inside result w') :
      Tale future [] (complete (performWith fuel) future outcome) w (.settled outcome :: inside)
        (result.map fun _ => true) w'
  | gathered {w : World σ} {listener : CodeId} {fuel : Nat} (made : future < w.store.futures.size)
      (waiting : (w.store.future future).isDone = false) :
      Tale future [] (listen (performWith fuel) future listener) w [.listened listener] (.ok ())
        (w.await future listener)
  | late {w w' : World σ} {listener : CodeId} {result : Except Failure Unit} {fuel : Nat}
      {inside : List Happening} (done : (w.store.future future).isDone = true)
      (tells : Tale future [listener] (runListeners (performWith fuel) future [listener]) w inside result
        w') :
      Tale future [] (listen (performWith fuel) future listener) w (.listened listener :: inside) result
        w'
  | told {w w₁ w' : World σ} {listener : CodeId} {rest : List CodeId} {result : Except Failure Unit}
      {fuel : Nat} {inside later : List Happening} (done : (w.store.future future).isDone = true)
      (runs : Tale future [] (runCode (performWith fuel) listener (.completed future))
        (w.record (.notified future listener)) inside (.ok ()) w₁)
      (others : Tale future rest (runListeners (performWith fuel) future rest) w₁ later result w') :
      Tale future (listener :: rest) (runListeners (performWith fuel) future (listener :: rest)) w
        (.told listener (w.store.future future).outcome :: inside ++ later) result w'
  | threw {w w' : World σ} {listener : CodeId} {rest : List CodeId} {failure : Failure} {fuel : Nat}
      {inside : List Happening} (done : (w.store.future future).isDone = true)
      (runs : Tale future [] (runCode (performWith fuel) listener (.completed future))
        (w.record (.notified future listener)) inside (.error failure) w') :
      Tale future (listener :: rest) (runListeners (performWith fuel) future (listener :: rest)) w
        (.told listener (w.store.future future).outcome :: inside ++ [.threw listener])
        (.error failure) w'

namespace Tale

variable {α : Type} {due : List CodeId} {m : Effect σ α} {marks : List Happening} {w w' : World σ}
  {result : Except Failure α}

theorem future_decide {w : World σ} (made : future < w.store.futures.size) (outcome : Outcome) :
    (w.decide future outcome).store.future future = ⟨some outcome,[]⟩ := by
  simp [World.decide,mapStore,Store.future,made,Array.getElem_modify]

theorem future_await {w : World σ} (made : future < w.store.futures.size) (listener : CodeId) :
    (w.await future listener).store.future future = { w.store.future future with
      listeners := (w.store.future future).listeners ++ [listener] } := by
  simp [World.await,mapStore,Store.future,made,Array.getElem_modify]

@[simp] theorem future_record (w : World σ) (o : Observation) :
    (w.record o).store.future future = w.store.future future := rfl

theorem untouched_of_idle (idle : ∀ v, ∃ b v', m v = .ok b v' ∧ Untouched future v v') {a : α}
    (returns : m w = .ok a w') : Untouched future w w' := by
  obtain ⟨b,v',returned,untouched⟩ := idle w
  cases returned.symm.trans returns
  exact untouched

/-- What becomes of the future is what its happenings make of it. -/
theorem replays (tale : Tale future due m w marks result w') :
    (w.store.future future).replay? marks = some (w'.store.future future) := by
  have idles {w w' : World σ} (untouched : Untouched future w w') :
      (w.store.future future).replay? [] = some (w'.store.future future) :=
    congrArg some untouched.same.symm
  have tells {w w₁ : World σ} {listener : CodeId} {inside : List Happening}
      (done : (w.store.future future).isDone = true)
      (runs : (w.store.future future).replay? inside = some (w₁.store.future future)) :
      (w.store.future future).replay? (.told listener (w.store.future future).outcome :: inside) =
        some (w₁.store.future future) := by
    simpa [WriteFuture.replay?,WriteFuture.after?,done] using runs
  induction tale with
  | idle idle returns => exact idles (untouched_of_idle idle returns)
  | unmade _ _ untouched => exact idles untouched
  | failed => rfl
  | onward _ _ first second =>
    rw [WriteFuture.replay_append first]
    exact second
  | broken _ first => exact first
  | tried _ body => exact body
  | refused done => simp [WriteFuture.replay?,WriteFuture.after?,done]
  | settled made waiting _ told =>
    rw [future_decide made] at told
    simpa [WriteFuture.replay?,WriteFuture.after?,waiting] using told
  | gathered made waiting =>
    rw [future_await made]
    simp [WriteFuture.replay?,WriteFuture.after?,waiting]
  | late done _ told => simpa [WriteFuture.replay?,WriteFuture.after?,done] using told
  | told done _ _ runs others =>
    rw [WriteFuture.replay_append (tells done runs)]
    exact others
  | threw done _ runs =>
    rw [WriteFuture.replay_append (tells done runs)]
    have kept := WriteFuture.replay_done done runs
    simp [WriteFuture.replay?,WriteFuture.after?,kept,done]

/-- A tale is true: the computation ends like this. -/
theorem ends (tale : Tale future due m w marks result w') : attempt m w = .ok result w' := by
  induction tale with
  | idle _ returns | unmade _ returns _ => exact attempt_of_ok returns
  | failed => rfl
  | onward _ _ first second =>
    rw [attempt_congr (bind_of_ok (ok_of_attempt first))]
    exact second
  | broken _ first => exact attempt_of_failed (failed_of_bind (failed_of_attempt first))
  | tried _ body => exact attempt_of_ok body
  | refused done => exact attempt_of_ok (complete_done done _)
  | settled _ waiting _ told =>
    rw [attempt_congr (complete_waiting waiting _)]
    exact attempt_bind_pure true told
  | gathered _ waiting => exact attempt_of_ok (listen_waiting waiting _)
  | late done _ told => exact (attempt_congr (listen_done done _)).trans told
  | told _ _ _ runs others =>
    rw [attempt_congr (runListeners_cons ..),attempt_congr (bind_of_ok (ok_of_attempt runs))]
    exact others
  | threw _ _ runs =>
    rw [attempt_congr (runListeners_cons ..)]
    exact attempt_of_failed (failed_of_bind (failed_of_attempt runs))

/-- History has those who are told, in the order in which they are. -/
theorem recorded (tale : Tale future due m w marks result w') :
    w'.store.told future = w.store.told future ++ tellings marks := by
  have record (w : World σ) (listener : CodeId) :
      (w.record (.notified future listener)).store.told future =
        w.store.told future ++ [listener] := by
    simp [told_record,Observation.told?]
  induction tale with
  | idle idle returns => simpa using (untouched_of_idle idle returns).told
  | unmade _ _ untouched => simpa using untouched.told
  | failed | refused => simp
  | onward _ _ first second => rw [second,first,tellings_append,List.append_assoc]
  | broken _ first => exact first
  | tried _ body => exact body
  | gathered => exact (List.append_nil _).symm
  | settled _ _ _ told | late _ _ told => exact told
  | told _ _ _ runs others => simp [others,runs,record]
  | threw _ _ runs => simp [runs,record]

/-- Every listener that is due or gets registered is told, still waits, or is lost because one before it
throws. -/
theorem counted (tale : Tale future due m w marks result w') (listener : CodeId) :
    ∃ lost, (Smooth marks → lost = 0) ∧
      (tellings marks).count listener + (w'.store.future future).listeners.count listener + lost =
        due.count listener + (w.store.future future).listeners.count listener +
          (registered marks).count listener := by
  have idles {w w' : World σ} (untouched : Untouched future w w') :
      ∃ lost, (Smooth [] → lost = 0) ∧
        (tellings []).count listener + (w'.store.future future).listeners.count listener + lost =
          [].count listener + (w.store.future future).listeners.count listener +
            (registered []).count listener :=
    ⟨0,fun _ => rfl,by simp [untouched.same]⟩
  induction tale with
  | idle idle returns => exact idles (untouched_of_idle idle returns)
  | unmade _ _ untouched => exact idles untouched
  | failed _ w => exact idles (.refl w)
  | onward _ _ first second =>
    obtain ⟨lost,kept,sum⟩ := first
    obtain ⟨lost',kept',sum'⟩ := second
    refine ⟨lost + lost',fun smooth => ?_,?_⟩
    · rw [smooth_append] at smooth
      rw [kept smooth.1,kept' smooth.2]
    · simp only [List.count_nil] at sum sum' ⊢
      simp only [tellings_append,registered_append,List.count_append]
      omega
  | broken _ first => exact first
  | tried _ body => exact body
  | refused => exact ⟨0,fun _ => rfl,by simp⟩
  | settled made _ _ tells =>
    rw [future_decide made] at tells
    simpa using tells
  | gathered made => exact ⟨0,fun _ => rfl,by simp [future_await made]⟩
  | late _ _ tells =>
    obtain ⟨lost,kept,sum⟩ := tells
    refine ⟨lost,fun smooth => kept ((smooth_cons _ _).mp smooth).2,?_⟩
    simp only [List.count_nil,tellings_cons,registered_cons,List.count_append,Happening.told?,
      Happening.listened?,Option.toList_none,Option.toList_some] at sum ⊢
    omega
  | told _ _ _ runs others =>
    obtain ⟨lost,kept,sum⟩ := runs
    obtain ⟨lost',kept',sum'⟩ := others
    refine ⟨lost + lost',fun smooth => ?_,?_⟩
    · rw [smooth_append,smooth_cons] at smooth
      rw [kept smooth.1.2,kept' smooth.2]
    · simp only [future_record,List.count_nil] at sum sum' ⊢
      simp only [tellings_append,registered_append,tellings_cons,registered_cons,List.count_append,
        Happening.told?,Happening.listened?,Option.toList_none,Option.toList_some,List.count_nil,
        List.count_cons]
      omega
  | @threw _ _ _ rest _ _ _ _ _ runs =>
    obtain ⟨lost,_,sum⟩ := runs
    refine ⟨lost + rest.count listener,fun smooth => ?_,?_⟩
    · simp at smooth
    · simp only [future_record,List.count_nil] at sum ⊢
      simp only [tellings_append,registered_append,tellings_cons,registered_cons,List.count_append,
        Happening.told?,Happening.listened?,Option.toList_none,Option.toList_some,List.count_nil,
        List.count_cons,tellings_nil,registered_nil]
      omega

/-- Those who are due are told in order, whoever else is told in between, and all unless one throws. -/
theorem in_order (tale : Tale future due m w marks result w') :
    ∃ heard missed, due = heard ++ missed ∧ heard.Sublist (tellings marks) ∧
      ((∃ a, result = .ok a) → missed = []) := by
  induction tale with
  | @told _ _ _ listener _ _ _ _ _ _ _ _ _ others =>
    obtain ⟨heard,missed,rfl,rest,whole⟩ := others
    refine ⟨listener :: heard,missed,rfl,?_,whole⟩
    simp only [tellings_append,tellings_cons,Happening.told?,Option.toList_some]
    exact (rest.trans (List.sublist_append_right _ _)).cons_cons _
  | @threw _ _ listener rest => exact ⟨[listener],rest,rfl,by simp,nofun⟩
  | _ => exact ⟨[],[],rfl,List.nil_sublist _,fun _ => rfl⟩

/-- Telling listeners fails only if one of them throws. -/
theorem thrown (tale : Tale future due m w marks result w') (told : due ≠ []) {failure : Failure}
    (fails : result = .error failure) : ¬ Smooth marks := by
  induction tale with
  | @told _ _ _ _ rest _ _ _ _ _ _ others _ later =>
    rw [smooth_append]
    rintro ⟨_,smooth⟩
    cases rest with
    | nil =>
      subst fails
      cases others.ends
    | cons => exact later (List.cons_ne_nil _ _) fails smooth
  | threw => simp
  | _ => exact absurd rfl told

end Tale

/-- One call decides the future. Nobody is told before; inside of it those are told who were registered before,
in the order in which they were, all unless one throws; and it returns that it decided unless one throws. -/
inductive Decides (future : FutureId) (w : World σ) : List Happening → Prop
  | once {v v' : World σ} {before inside later : List Happening} {outcome : Outcome}
      {result : Except Failure Unit} {fuel : Nat} {heard missed : List CodeId}
      (untold : tellings before = [])
      (call : Tale future [] (complete (performWith fuel) future outcome) v (.settled outcome :: inside)
        (result.map fun _ => true) v')
      (registered : (w.store.future future).listeners ++ registered before = heard ++ missed)
      (order : heard.Sublist (tellings inside)) (all : result = .ok () → missed = [])
      (returns : Smooth inside → result = .ok ()) :
      Decides future w (before ++ .settled outcome :: (inside ++ later))

namespace Tale

variable {α : Type} {due : List CodeId} {m : Effect σ α} {marks : List Happening} {w w' : World σ}
  {result : Except Failure α}

/-- Until a future is decided listeners gather and nobody is told. -/
theorem gathers_or_decides (tale : Tale future due m w marks result w')
    (waiting : (w.store.future future).isDone = false) :
    ((w'.store.future future).isDone = false ∧ tellings marks = [] ∧
        (w'.store.future future).listeners = (w.store.future future).listeners ++ registered marks) ∨
      Decides future w marks := by
  have gathers {w w' : World σ} (untouched : Untouched future w w')
      (waiting : (w.store.future future).isDone = false) :
      (w'.store.future future).isDone = false ∧ tellings [] = [] ∧
        (w'.store.future future).listeners = (w.store.future future).listeners ++ registered [] := by
    simp [untouched.same,waiting]
  induction tale with
  | idle idle returns => exact .inl (gathers (untouched_of_idle idle returns) waiting)
  | unmade _ _ untouched => exact .inl (gathers untouched waiting)
  | failed _ w => exact .inl (gathers (.refl w) waiting)
  | onward _ _ before after =>
    rcases before waiting with ⟨open',untold,gathered⟩ | decides
    · rcases after open' with ⟨open'',untold',gathered'⟩ | decides
      · left
        simp [open'',untold,untold',gathered,gathered']
      · obtain ⟨untold',call,registered,order,all,returns⟩ := decides
        right
        rw [← List.append_assoc]
        refine .once ?_ call ?_ order all returns
        · simp [untold,untold']
        · rw [← registered,gathered]
          simp
    · obtain ⟨untold,call,registered,order,all,returns⟩ := decides
      right
      rw [List.append_assoc,List.cons_append,List.append_assoc]
      exact .once untold call registered order all returns
  | broken _ before => exact before waiting
  | tried _ body => exact body waiting
  | gathered made =>
    left
    rw [future_await made]
    exact ⟨waiting,rfl,rfl⟩
  | @settled _ _ _ result _ inside made _ tells =>
    right
    obtain ⟨heard,missed,split,order,all⟩ := tells.in_order
    rw [← List.nil_append (_ :: inside),← List.append_nil inside]
    refine .once rfl (.settled made waiting tells) ((List.append_nil _).trans split) order
      (fun ok => all ⟨_,ok⟩) fun smooth => ?_
    cases result with
    | ok => rfl
    | error failure =>
      refine absurd smooth (tells.thrown (fun nobody => ?_) rfl)
      have ended := tells.ends
      rw [nobody] at ended
      cases ended
  | refused done | late done | told done | threw done => exact absurd done (Bool.eq_false_iff.mp waiting)

end Tale
end SessionPipeline
