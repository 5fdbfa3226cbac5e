import Mathlib.Data.List.Chain
import SessionPipeline.Proofs.Effect.Execution

/-! How a session comes to its end. Its state only ever goes on, whatever is done to it from wherever;
it is closed by its application once at most; and from then on it takes no more writes. -/
namespace SessionPipeline

/-- A state goes on to this one; a closed session may be closed again. -/
def SessionState.Before (state later : SessionState) : Prop :=
  state.rank < later.rank ∨ state = .closed ∧ later = .closed

theorem SessionState.Next.before {state later : SessionState} (next : state.Next later) :
    state.Before later := by
  cases next with
  | opened => exact .inl Nat.zero_lt_one
  | closed => cases state <;> simp [Before,rank]

theorem SessionState.before_closing {state : SessionState} (open' : state.finishing = false) :
    state.Before .closing := by
  cases state <;> first | exact .inl (by decide) | cases open'

theorem SessionState.Next.finishing {state later : SessionState} (next : state.Next later)
    (before : state.finishing = true) : later.finishing = true := by
  cases next with
  | opened => cases before
  | closed => rfl

/-- The states that a session has come through up to its own, earliest first. -/
def Session.states (s : Session) : List SessionState := (s.state :: s.past).reverse

theorem Session.states_enter (s : Session) (state : SessionState) :
    (s.enter state).states = s.states ++ [state] := List.reverse_cons

def Observation.closes (ref : SessionRef) : Observation → Bool
  | .closing r => r == ref
  | _ => false

/-- How often a session was closed by its application. -/
def Store.closings (s : Store) (ref : SessionRef) : Nat := s.journal.countP (·.closes ref)

namespace World

variable {σ : Type} {w w₁ w₂ w₃ w' v : World σ} {ref : SessionRef} {terms : Terms}

/-- The worlds in which runs end or are stopped, one after the other, the first from an empty world. -/
inductive Arises : World σ → Prop
  | fresh (own : σ) : Arises { own := own }
  | later {w : World σ} (before : Arises w) (stops : Watch σ) (fuel : Nat) (script : Script σ) :
      Arises (script.until stops fuel w)

/-- What a session's end depends on. -/
def life (w : World σ) (ref : SessionRef) : List SessionState × Bool × Nat :=
  ((w.store.session ref).states,(w.store.session ref).state.finishing,w.store.closings ref)

/-- The states of a session stay as they are, or go on to one more. -/
inductive Lives (ref : SessionRef) (w w' : World σ) : Prop
  | same (life : w'.life ref = w.life ref)
  | entered (state : SessionState) (next : (w.store.session ref).state.Next state)
      (life : w'.life ref =
        ((w.store.session ref).states ++ [state],state.finishing,w.store.closings ref))
  | closing (open' : (w.store.session ref).state.finishing = false) (life : w'.life ref =
      ((w.store.session ref).states ++ [.closing],true,w.store.closings ref + 1))

theorem life_congr (sessions : w'.store.sessions = w.store.sessions)
    (closings : w'.store.closings ref = w.store.closings ref) : w'.life ref = w.life ref := by
  simp only [life,Store.session,sessions,closings]

theorem life_record {o : Observation} (other : o.closes ref = false) (w : World σ) :
    (w.record o).life ref = w.life ref :=
  life_congr rfl (by simp [record,mapStore,Store.closings,other])

theorem life_mapSession (w : World σ) (r : SessionRef) {change : Session → Session}
    (same : ∀ s, (change s).state = s.state ∧ (change s).past = s.past) :
    (w.mapSession r change).life ref = w.life ref := by
  have state := session_mapSession_eq (·.state) (fun s => (same s).1) w r ref
  have past := session_mapSession_eq (·.past) (fun s => (same s).2) w r ref
  simp only [life,Session.states,state,past]
  rfl

theorem life_mapChain (w : World σ) (r : SessionRef) (change : Chain → Chain) :
    (w.mapChain r change).life ref = w.life ref := by
  refine life_mapSession w r fun s => ?_
  exact ⟨rfl,rfl⟩

theorem life_enter (w : World σ) (present : ref < w.store.sessions.size) (state : SessionState) :
    (w.mapSession ref (·.enter state)).life ref =
      ((w.store.session ref).states ++ [state],state.finishing,w.store.closings ref) := by
  rw [life,session_mapSession present,Session.states_enter]
  rfl

theorem lives_enter {r : SessionRef} {state : SessionState}
    (next : (w.store.session r).state.Next state) : w.Lives ref (w.mapSession r (·.enter state)) := by
  by_cases owned : ref = r
  · subst owned
    by_cases present : ref < w.store.sessions.size
    · exact .entered state next (life_enter w present state)
    · refine .same ?_
      rw [life,session_mapSession_absent w present]
      rfl
  · refine .same ?_
    rw [life,session_mapSession_of_ne w owned]
    rfl

theorem lives_closing {r : SessionRef} (present : r < w.store.sessions.size)
    (open' : (w.store.session r).state.finishing = false) :
    w.Lives ref ((w.mapSession r (·.enter .closing)).record (.closing r)) := by
  by_cases owned : ref = r
  · subst owned
    refine .closing open' ?_
    have entered := life_enter w present .closing
    simp only [life,Prod.mk.injEq] at entered
    simp only [life,record,mapStore,Store.closings,List.countP_cons,Observation.closes,beq_self_eq_true,
      if_pos]
    exact Prod.ext entered.1 (Prod.ext entered.2.1 rfl)
  · refine .same ?_
    rw [life_record (by simp [Observation.closes,Ne.symm owned]),life,session_mapSession_of_ne w owned]
    rfl

theorem silent_closes {o : Observation} (silent : o.silent = true) : o.closes ref = false := by
  cases o <;> first | rfl | cases silent

theorem life_logged (w : World σ) (logger : String) (level : Logging.Level) (text : Bytes)
    (context : Logging.Context) : (w.logged logger level text context).life ref = w.life ref := by
  refine life_congr rfl ?_
  simp only [World.logged,mapStore,Store.closings,List.countP_append]
  refine Nat.add_eq_right.mpr (List.countP_eq_zero.mpr fun o member => ?_)
  obtain ⟨emission,_,rfl⟩ := List.mem_map.mp (List.mem_reverse.mp member)
  exact Bool.false_ne_true

theorem life_begin (w : World σ) {s : Session} (created : s.state = .created) (young : s.past = []) :
    (w.begin s).life ref = w.life ref := by
  by_cases new : ref = w.store.sessions.size
  · subst new
    simp [life,begin,mapStore,Store.session,Session.states,created,young,Store.closings]
    exact ⟨rfl,rfl⟩
  · simp [life,begin,mapStore,Store.session,Array.getElem?_push,new,Store.closings]

theorem life_dequeue (w : World σ) (r : SessionRef) (id : RequestId) (queue : Ring RequestId) :
    (w.dequeue r id queue).life ref = w.life ref := by
  refine (life_record (by rfl) _).trans (life_mapSession w r fun s => ?_)
  exact ⟨rfl,rfl⟩

theorem Quiet.lives (quiet : Quiet terms w w') : w.Lives ref w' := by
  cases quiet with
  | told o silent => exact .same (life_record (silent_closes silent) w)
  | passed handle r event =>
    refine .same (life_record ?_ w)
    unfold Effect.passing
    dsimp only
    split <;> rfl
  | logged logger level text context => exact .same (life_logged w logger level text context)
  | session => exact .same (life_begin w rfl rfl)
  | attributed r | kept r | unattributed r | received r | sent r =>
    refine .same (life_mapSession w r fun s => ?_)
    exact ⟨rfl,rfl⟩
  | entered r state next => exact lives_enter next
  | closing r present open' => exact lives_closing present open'
  | queued handle r id =>
    refine .same ((life_mapSession _ r fun s => ?_).trans (life_record rfl w))
    exact ⟨rfl,rfl⟩
  | polled r => exact .same ((life_record rfl _).trans (life_dequeue w r _ _))
  | took r found outcome =>
    obtain ⟨futures,settled⟩ := settle_eq (w.dequeue r _ _) _ outcome
    rw [settled]
    exact .same ((life_congr rfl rfl).trans (life_dequeue w r _ _))
  | emptied r => exact .same (life_record rfl w)
  | _ => exact .same (life_congr rfl rfl)

theorem Step.lives (step : Step terms w w') : w.Lives ref w' := by
  cases step with
  | quiet quiet => exact quiet.lives
  | awaited => exact .same (life_congr rfl rfl)
  | replaced r id f => exact .same (life_mapChain w r _)

/-- The states of a session go on from its creation, each behind the one before, and a session that
was closed by its application is closing at least. -/
structure Timely (w : World σ) (ref : SessionRef) : Prop where
  begins : (w.store.session ref).states.head? = some .created
  goesOn : (w.store.session ref).states.IsChain SessionState.Before
  once : w.store.closings ref ≤ if (w.store.session ref).state.finishing then 1 else 0

theorem states_last (s : Session) : s.states.getLast? = some s.state := by
  simp [Session.states]

theorem Timely.goes (timely : w.Timely ref) {state : SessionState} {finishing : Bool} {closings : Nat}
    (before : (w.store.session ref).state.Before state) (life : w'.life ref =
      ((w.store.session ref).states ++ [state],finishing,closings))
    (once : closings ≤ if finishing then 1 else 0) : w'.Timely ref := by
  obtain ⟨states,rest⟩ := Prod.mk.inj life
  obtain ⟨ends,counts⟩ := Prod.mk.inj rest
  refine ⟨?_,?_,?_⟩
  · rw [states,List.head?_append,timely.begins]
    rfl
  · rw [states]
    refine List.isChain_append.mpr ⟨timely.goesOn,.singleton _,fun last isLast first isFirst => ?_⟩
    rw [states_last] at isLast
    cases isLast
    cases isFirst
    exact before
  · rw [counts,ends]
    exact once

theorem Lives.timely (lives : w.Lives ref w') (timely : w.Timely ref) : w'.Timely ref := by
  cases lives with
  | same life =>
    obtain ⟨states,rest⟩ := Prod.mk.inj life
    obtain ⟨ends,counts⟩ := Prod.mk.inj rest
    refine ⟨?_,?_,?_⟩
    · rw [states]
      exact timely.begins
    · rw [states]
      exact timely.goesOn
    · rw [counts,ends]
      exact timely.once
  | entered state next life =>
    refine timely.goes next.before life (timely.once.trans ?_)
    split
    next ending => rw [if_pos (next.finishing ending)]
    next => exact Nat.zero_le _
  | closing open' life =>
    refine timely.goes (SessionState.before_closing open') life ?_
    have none := timely.once
    rw [open'] at none
    exact Nat.succ_le_succ none

theorem Lives.states (lives : w.Lives ref w') :
    (w.store.session ref).states <+: (w'.store.session ref).states := by
  cases lives with
  | same life => exact (Prod.mk.inj life).1 ▸ List.prefix_refl _
  | entered state next life =>
    rw [(Prod.mk.inj life).1]
    exact List.prefix_append _ _
  | closing open' life =>
    rw [(Prod.mk.inj life).1]
    exact List.prefix_append _ _

theorem edit_closes {o : Observation} (edit : o.edit = true) : o.closes ref = false := by
  cases o <;> first | rfl | cases edit

theorem Midway.states (midway : Midway terms w w') :
    (w.store.session ref).states <+: (w'.store.session ref).states :=
  midway.carries (P := fun w w' => (w.store.session ref).states <+: (w'.store.session ref).states)
    (fun _ => List.prefix_refl _) List.IsPrefix.trans (fun step => step.lives.states)
    (fun w r change => (Lives.same (life_mapChain w r change)).states)
    fun w _ edit => (Lives.same (life_record (edit_closes edit) w)).states

theorem Midway.timely (midway : Midway terms w w') (timely : w.Timely ref) : w'.Timely ref :=
  midway.carries (P := fun w w' => w.Timely ref → w'.Timely ref) (fun _ timely => timely)
    (fun before after timely => after (before timely)) (fun step => step.lives.timely)
    (fun w r change => (Lives.same (life_mapChain w r change)).timely)
    (fun w _ edit => (Lives.same (life_record (edit_closes edit) w)).timely) timely

theorem fresh_timely (own : σ) (ref : SessionRef) : ({ own := own } : World σ).Timely ref :=
  ⟨rfl,.singleton _,Nat.zero_le _⟩

theorem Arises.timely (arises : w.Arises) (ref : SessionRef) : w.Timely ref := by
  induction arises with
  | fresh own => exact fresh_timely own ref
  | later _ stops fuel script ih =>
    exact (Script.until_midway stops.abides_free fuel script _).timely ih

theorem states_split {states before after : List SessionState} {state : SessionState}
    (goesOn : states.IsChain SessionState.Before)
    (split : states = before ++ state :: .opened :: after) : state = .created := by
  rw [split] at goesOn
  have next : state.Before .opened := (List.isChain_append_cons_cons.mp goesOn).2.1
  cases state with
  | created => rfl
  | opened | closing | closed => simp [SessionState.Before,SessionState.rank] at next

/-- The world in which an application that closes a session fires the event. -/
def closing (w : World σ) (ref : SessionRef) : World σ :=
  ((w.logged Effect.sessionLogger .debug (Bytes.ofString
      ("session " ++ toString (w.store.session ref).id ++ " closing"))).mapSession ref
    (·.enter .closing)).record (.closing ref)

/-- What a write leaves that was turned away: a future that has failed already. Nothing is fired, and
all sessions are as they were, with their chains and queues. -/
structure Refused (w : World σ) (ref : SessionRef) (future : FutureId) (w' : World σ) : Prop where
  failed : w'.store.future future =
    { outcome := some (.failed (some (.writeToClosed (w.store.session ref).id))) }
  fresh : w.store.futures.size = future
  sessions : w'.store.sessions = w.store.sessions
  requests : w'.store.requests = w.store.requests
  futures : ∀ other, other ≠ future → w'.store.future other = w.store.future other
  journal : ∃ emissions : List Logging.Emission,
    w'.store.journal = emissions.map .emitted ++ w.store.journal
  own : w'.own = w.own

/-- How a session lives, whatever was done to it so far and whatever will be. -/
structure Lifecycle (w : World σ) (ref : SessionRef) : Prop where
  begins : (w.store.session ref).states.head? = some .created
  ends : (w.store.session ref).states.getLast? = some (w.store.session ref).state
  goesOn : (w.store.session ref).states.IsChain SessionState.Before
  opened : ∀ before state after, (w.store.session ref).states = before ++ state :: .opened :: after →
    state = .created
  onward : ∀ stops fuel (script : Script σ),
    (w.store.session ref).states <+: ((script.until stops fuel w).store.session ref).states
  /-- A session is closed by its application once at most, and its filters are told only then. -/
  once : w.store.closings ref ≤ 1
  closes : ∀ perform, if (w.store.session ref).state.finishing then
      Effect.close perform ref w = .ok () w
    else w.store.closings ref = 0 ∧ (w.closing ref).store.closings ref = 1 ∧
      Effect.close perform ref w = Effect.fire perform ref .filterClose (w.closing ref)
  /-- A session that is closing or closed turns every write away. -/
  refuses : (w.store.session ref).state.finishing = true → ∀ perform message,
    ∃ future w', Effect.write perform ref message w = .ok future w' ∧ w.Refused ref future w'

open Effect

theorem close_finishing (finishing : (w.store.session ref).state.finishing = true)
    (perform : Perform σ) : close perform ref w = .ok () w := by
  unfold close
  rw [bind_of_ok (session_apply ref w),if_pos finishing]
  rfl

theorem close_open (open' : (w.store.session ref).state.finishing = false) (perform : Perform σ) :
    close perform ref w = fire perform ref .filterClose (w.closing ref) := by
  unfold close
  rw [bind_of_ok (session_apply ref w),if_neg (Bool.eq_false_iff.mp open'),
    bind_of_ok (log_apply _ _ _ w),bind_of_ok (modifySession_apply ref _ _),
    bind_of_ok (observe_apply _ _)]
  rfl

theorem closings_closing (w : World σ) (ref : SessionRef) :
    (w.closing ref).store.closings ref = w.store.closings ref + 1 := by
  let told := w.logged sessionLogger .debug
    (Bytes.ofString ("session " ++ toString (w.store.session ref).id ++ " closing"))
  have logged : told.store.closings ref = w.store.closings ref :=
    congrArg (·.2.2) (life_logged w sessionLogger .debug _ {})
  rw [← logged]
  exact List.countP_cons_of_pos (p := Observation.closes ref) (beq_self_eq_true ref)

theorem complete_new {perform : Perform σ} {future : FutureId} (outcome : Outcome)
    (new : w.store.future future = {}) :
    complete perform future outcome w = .ok true (w.decide future outcome) := by
  unfold complete
  rw [bind_of_ok (store_apply w),new]
  rfl

theorem write_finishing (finishing : (w.store.session ref).state.finishing = true)
    (perform : Perform σ) (message : Message) :
    ∃ w', write perform ref message w = .ok w.store.futures.size w' ∧
      w.Refused ref w.store.futures.size w' := by
  let issued := w.mapStore fun s => { s with futures := s.futures.push {} }
  let told := issued.logged sessionLogger .debug (Bytes.ofString ("session "
    ++ toString (w.store.session ref).id ++ " write rejected in state "
    ++ (w.store.session ref).state.name))
  have new : told.store.future w.store.futures.size = {} := by
    simp [told,issued,World.logged,mapStore,Store.future]
  let cause := Failure.writeToClosed (w.store.session ref).id
  refine ⟨told.decide w.store.futures.size (.failed (some cause)),?_,?_⟩
  · unfold write
    have made : (newFuture : Effect σ FutureId) w = .ok w.store.futures.size issued := rfl
    have same : issued.store.session ref = w.store.session ref := rfl
    rw [bind_of_ok made,bind_of_ok (session_apply ref issued),same,if_pos finishing,
      bind_of_ok (log_apply _ _ _ issued)]
    exact bind_of_ok (complete_new _ new)
  · refine ⟨?_,rfl,rfl,rfl,fun other differs => ?_,?_,rfl⟩
    · simp [decide,told,issued,World.logged,mapStore,Store.future,cause,Array.getElem_modify]
    · simp [decide,told,issued,World.logged,mapStore,Store.future,Array.getElem?_modify,
        Array.getElem?_push,differs,Ne.symm differs]
    · exact ⟨_,congrArg (· ++ w.store.journal) List.map_reverse.symm⟩

theorem Arises.lifecycle (arises : w.Arises) (ref : SessionRef) : w.Lifecycle ref := by
  have timely := arises.timely ref
  refine ⟨timely.begins,states_last _,timely.goesOn,fun _ _ _ => states_split timely.goesOn,
    fun stops fuel script => (Script.until_midway stops.abides_free fuel script w).states,
    timely.once.trans (by split <;> decide),fun perform => ?_,fun finishing perform message => ?_⟩
  · split
    next finishing => exact close_finishing finishing perform
    next open' =>
      have none := timely.once
      rw [if_neg open',Nat.le_zero] at none
      exact ⟨none,by rw [closings_closing,none],close_open (Bool.eq_false_iff.mpr open') perform⟩
  · exact ⟨_,write_finishing finishing perform message⟩

/-- A session that is opened, closed twice and then written to. -/
def closedTwice : Script Unit :=
  .call (.newHandler .adapter) fun _ => .call (.newProcessor (.loopback 0)) fun _ =>
  .call (.newSession (some 0) (some 0) 4 .unlimited) fun _ => .call (.fire 0 .sessionOpened) fun _ =>
  .call (.close 0) fun _ => .call (.close 0) fun _ => .call (.write 0 .empty) fun _ => .done .unit

theorem lifecycle_closedTwice :
    (closedTwice.until .never 8 { own := () }).Lifecycle 0 ∧
      ((closedTwice.until .never 8 { own := () }).store.session 0).states =
        [.created,.opened,.closing,.closed] ∧
      (closedTwice.until .never 8 { own := () }).store.closings 0 = 1 :=
  ⟨(Arises.later (.fresh ()) .never 8 closedTwice).lifecycle 0,by decide +kernel,by decide +kernel⟩

end World
end SessionPipeline
