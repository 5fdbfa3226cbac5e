import SessionPipeline.Proofs.Session.Queueing

/-! What a closed session leaves behind. Closing fails the requests that wait, one by one. Where that
runs to its end, nothing that came before is pending; a listener that fails on the way leaves the rest
waiting, and so does a write that comes behind. -/
namespace SessionPipeline

open World

namespace Effect

variable {σ : Type} {stops : Watch σ} {w w' : World σ}

/-- A drain that returns has found nothing more in the queue, and told so last. -/
def Drains (perform : Perform σ) (ref : SessionRef) : Prop :=
  ∀ dropped w reply w', perform (.failPending ref dropped) w = .ok reply w' →
    ∃ w₁ : World σ, (w₁.store.session ref).queue.poll = none ∧ w' = w₁.record (.emptied ref)

theorem failPending_ok {perform : Perform σ} {ref : SessionRef} (drains : Drains perform ref)
    {dropped total : Nat} (returned : failPending perform ref dropped w = .ok total w') :
    ∃ w₁ : World σ, (w₁.store.session ref).queue.poll = none ∧ w' = w₁.record (.emptied ref) := by
  unfold failPending at returned
  cases found : (w.store.session ref).queue.poll with
  | none =>
    rw [bind_of_ok (pollQueue_none found)] at returned
    cases returned
    exact ⟨w,found,rfl⟩
  | some pair =>
    rw [bind_of_ok (pollQueue_some found)] at returned
    obtain ⟨id,w₁,_,returned⟩ := ok_of_bind returned
    obtain ⟨_,w₂,_,returned⟩ := ok_of_bind returned
    obtain ⟨reply,w₃,performed,returned⟩ := ok_of_bind returned
    have same : w' = w₃ := by
      split at returned <;> · cases returned; rfl
    exact same ▸ drains _ _ _ _ performed

theorem performUntil_drains (fuel : Nat) (ref : SessionRef) : Drains (performUntil stops fuel) ref := by
  induction fuel with
  | zero => exact fun _ _ _ _ returned => by cases returned
  | succ fuel ih =>
    intro dropped w reply w' returned
    obtain ⟨_,w₁,_,returned⟩ := ok_of_bind returned
    obtain ⟨total,w₂,failed,returned⟩ := ok_of_bind returned
    cases returned
    exact failPending_ok ih failed

/-- A session that has been closed without a failure has nothing in its queue. -/
theorem enterClosed_ok {fuel : Nat} {ref : SessionRef}
    (returned : enterClosed (performUntil stops fuel) ref w = .ok () w') :
    ∃ (w₁ : World σ) (text : Bytes), (w₁.store.session ref).queue.poll = none ∧
      w' = (w₁.record (.emptied ref)).logged sessionLogger .debug text := by
  obtain ⟨_,w₁,_,returned⟩ := ok_of_bind returned
  obtain ⟨dropped,w₂,failed,returned⟩ := ok_of_bind returned
  obtain ⟨w₃,empty,rfl⟩ := failPending_ok (performUntil_drains fuel ref) failed
  rw [bind_of_ok (sessionId_apply ref _),log_apply] at returned
  cases returned
  exact ⟨w₃,_,empty,rfl⟩

end Effect

/-- Wherever a run ends or is stopped, and wherever before a closing session has failed all that waited:
each request that had come by then is decided, unless an application took it off the queue itself; and
nothing waits in the queue but what has come since. -/
theorem Script.until_emptied {σ : Type} {ref : SessionRef} {stops : Watch σ} {fuel : Nat}
    {script : Script σ} {own : σ} {v : World σ} {before after : List Turn}
    (abides : stops.Abides ⟨fun _ => False,(· = ref),fun _ => True,False⟩)
    (ran : script.until stops fuel { own := own } = v) (bounded : Turn.Bounded (v.store.turns ref))
    (emptied : v.store.turns ref = before ++ .emptied :: after) :
    (∀ id ∈ Turn.reaches before, id ∈ Turn.hands (v.store.turns ref) ∨ ∀ future,
        (v.store.request id).future = some future → (v.store.future future).isDone = true) ∧
      Turn.reaches after = Turn.takes after ++ (v.store.session ref).queue.toList := by
  have midway : World.Midway _ { own := own } v := ran ▸ until_midway abides fuel script _
  have run : Ledger.Run _ (({ own := own } : World σ).ledger ref) (v.ledger ref) := midway.ledger rfl
  have balanced := run.balanced bounded (World.fresh_balanced own ref)
  have all : Turn.reaches before = Turn.takes before := balanced.settled before after emptied
  have came := World.flow balanced
  have reaches : Turn.reaches (v.store.turns ref) = Turn.takes before ++ Turn.reaches after := by
    rw [emptied,Turn.reaches_append,all]
    rfl
  have takes : Turn.takes (v.store.turns ref) = Turn.takes before ++ Turn.takes after := by
    rw [emptied,Turn.takes_append]
    rfl
  rw [reaches,takes,List.append_assoc] at came
  refine ⟨fun id member => ?_,List.append_cancel_left came⟩
  by_cases own : id ∈ Turn.hands (v.store.turns ref)
  · exact .inl own
  · refine .inr (balanced.decided id ?_ own)
    change id ∈ Turn.takes (v.store.turns ref)
    rw [takes]
    exact List.mem_append_left _ (all ▸ member)

/-- Stops at whatever is written, or waited for, that is not there. -/
def existing {σ : Type} : Watch σ
  | .step (.call (.fire _ (.filterWrite id)) _),w
  | .step (.call (.forward _ _ (.filterWrite id)) _),w => w.store.requests.size ≤ id
  | .step (.call (.newRequest _ (some future)) _),w => w.store.futures.size ≤ future
  | _,_ => false

theorem existing_abides {σ : Type} (refs : SessionRef → Prop) :
    (existing : Watch σ).Abides ⟨fun _ => False,refs,fun _ => True,False⟩ := by
  intro c next w going
  cases c with
  | fire ref event =>
    rintro id rfl _
    simpa [existing] using going
  | forward handle ref event =>
    refine ⟨?_,False.elim⟩
    rintro id rfl _
    simpa [existing] using going
  | newRequest message future =>
    rintro ref _ id rfl
    simpa [existing] using going
  | _ => simp [Call.Fits]

/-- A session whose processor takes nothing is closed, and another request is sent down its filters. -/
def lateWrite : Script Unit :=
  .define (fun _ => .done .unit) fun idle =>
  .call (.newHandler .adapter) fun _ => .call (.newProcessor (.custom idle)) fun _ =>
  .call (.newSession (some 0) (some 0) 4 .unlimited) fun _ => .call (.write 0 (.bytes [1])) fun _ =>
  .call (.fire 0 .sessionClosed) fun _ => .call .newFuture fun _ =>
  .call (.newRequest (.bytes [2]) (some 1)) fun _ => .call (.fire 0 (.filterWrite 1)) fun _ =>
  .done .unit

/-- Two requests wait as a session is closed, and a listener of the first fails. -/
def failingListener : Script Unit :=
  .define (fun _ => .done .unit) fun idle => .define (fun _ => .fail (.runtime "x")) fun failing =>
  .call (.newHandler .adapter) fun _ => .call (.newProcessor (.custom idle)) fun _ =>
  .call (.newSession (some 0) (some 0) 4 .unlimited) fun _ => .call (.write 0 (.bytes [1])) fun _ =>
  .call (.write 0 (.bytes [2])) fun _ => .call (.listen 0 failing) fun _ =>
  .attempt (.invoke (.fire 0 .sessionClosed)) fun _ => .done .unit

def afterClose : World Unit := lateWrite.until existing 8 { own := () }

theorem until_emptied_lateWrite :
    (∀ id ∈ Turn.reaches [.reached 0,.taken 0], id ∈ Turn.hands (afterClose.store.turns 0) ∨ ∀ future,
        (afterClose.store.request id).future = some future →
        (afterClose.store.future future).isDone = true) ∧
      Turn.reaches [.reached 1] =
        Turn.takes [.reached 1] ++ (afterClose.store.session 0).queue.toList := by
  have ran : lateWrite.until existing 8 { own := () } = afterClose := rfl
  have turns : afterClose.store.turns 0 =
      [Turn.reached 0,Turn.taken 0] ++ Turn.emptied :: [.reached 1] := by
    decide +kernel
  have few : (afterClose.store.turns 0).length < 2^62 := turns ▸ by decide
  have bounded : Turn.Bounded (afterClose.store.turns 0) := fun earlier within =>
    Nat.le_add_left_of_le ((List.length_filterMap_le _ _).trans (within.length_le.trans few.le))
  exact Script.until_emptied (existing_abides _) ran bounded turns

/-- Whether a session is closed with a request in its queue that is pending for good. -/
def World.Pending {σ : Type} (w : World σ) (ref : SessionRef) : Prop :=
  (w.store.session ref).state = .closed ∧ ∃ id ∈ (w.store.session ref).queue.toList,
    ∃ future, (w.store.request id).future = some future ∧ (w.store.future future).isDone = false

theorem closed_pending : (lateWrite.execute 8 { own := () }).2.Pending 0 ∧
    (failingListener.execute 8 { own := () }).2.Pending 0 :=
  ⟨⟨by decide +kernel,1,by decide +kernel,1,by decide +kernel,by decide +kernel⟩,
    by decide +kernel,1,by decide +kernel,1,by decide +kernel,by decide +kernel⟩

end SessionPipeline
