import SessionPipeline.Proofs.Chain.Passage
import SessionPipeline.Proofs.Effect.Settling

/-! How an event gets past filters that pass everything on. On its way it changes nothing but the
logs and the history, so it comes to the next filter of another kind, or to the end of the chain, in
a world as the one it started in. -/
namespace SessionPipeline

/-- The filter passes every event on as it is. -/
def Filter.plain : Filter → Bool
  | .noop | .adapter | .logging _ => true
  | _ => false

namespace Effect

variable {σ : Type} {c : Chain} {ids flight : List EntryId} {ref : SessionRef} {event : Event}
  {plain : EntryId → Prop} {P Q : World σ → Prop}

/-- What holds of a world while an event is on its way through plain filters. -/
structure Undisturbed (c : Chain) (ref : SessionRef) (plain : EntryId → Prop) (P : World σ → Prop) :
    Prop where
  chain : ∀ w, P w → w.store.chain ref = c
  passes : ∀ w id, P w → plain id → ∃ f, (c.slot id).filter = some f ∧ (w.store.filter f).plain = true
  told : ∀ w source target event, P w → P (w.record (.delivered source target ref event))
  logged : ∀ w logger level text context, P w → P (w.logged logger level text context)

theorem settles_plain {f : FilterId} {handle : Handle} {w : World σ} (start : P w)
    (undisturbed : Undisturbed c ref plain P) (kind : (w.store.filter f).plain = true)
    (onward : ∀ v, P v → Settles (fun fuel => forward (performWith fuel) handle ref event) v fun _ => Q) :
    Settles (fun fuel => deliver (performWith fuel) f handle ref event) w fun _ => Q := by
  cases found : w.store.filter f with
  | noop | adapter =>
    refine (onward w start).from fun fuel => ?_
    rw [deliver,react,bind_of_ok (filter_apply f w),found]
  | logging settings =>
    obtain ⟨text,context,told⟩ := logEvent_apply f settings ref event w
    have logged := undisturbed.logged w settings.logger (settings.level event.kind) text context start
    refine (onward _ logged).from fun fuel => ?_
    rw [deliver,react,bind_of_ok (filter_apply f w),found]
    exact bind_of_ok told
  | codec | custom =>
    rw [found] at kind
    cases kind

variable (holds : c.Holds ids flight) (undisturbed : Undisturbed c ref plain P)
include holds

/-- The slot to which an event goes from one that is not the last on its way. -/
theorem following_entry {before after : List EntryId} {a b : EntryId} {outbound : Bool}
    (split : Chain.entrance outbound :: (if outbound then ids.reverse else ids) =
      before ++ a :: b :: after) :
    c.following outbound a = b ∧ b ≠ Chain.exit outbound := by
  have traverses := holds.traverses_behind outbound split
  generalize start : Chain.ahead outbound (c.slot a) = first at traverses
  cases traverses with
  | step other => exact ⟨by rw [Chain.following_eq,start]; rfl,other⟩

theorem following_exit {before : List EntryId} {a : EntryId} {outbound : Bool}
    (split : Chain.entrance outbound :: (if outbound then ids.reverse else ids) = before ++ [a]) :
    c.following outbound a = Chain.exit outbound := by
  have traverses := holds.traverses_behind outbound split
  generalize start : Chain.ahead outbound (c.slot a) = first at traverses
  cases traverses with
  | stop => rw [Chain.following_eq,start]; rfl

theorem current_on_way {before after : List EntryId} {a : EntryId} {outbound : Bool}
    (split : Chain.entrance outbound :: (if outbound then ids.reverse else ids) =
      before ++ a :: after) :
    c.isCurrent (c.handle ref a) = true := by
  have member : a ∈ Chain.entrance outbound :: (if outbound then ids.reverse else ids) := by
    rw [split]
    simp
  apply holds.isCurrent ref
  cases outbound <;> simp [Chain.entrance] at member ⊢ <;> tauto

include undisturbed

/-- Past plain filters an event goes on as it would from the last of them. -/
theorem settles_past {passed rest : List EntryId} (through : ∀ id ∈ passed, plain id)
    {before : List EntryId} {a : EntryId}
    (split : Chain.entrance event.outbound :: (if event.outbound then ids.reverse else ids) =
      before ++ a :: (passed ++ rest))
    (lands : ∀ before last v, Chain.entrance event.outbound ::
        (if event.outbound then ids.reverse else ids) = before ++ last :: rest → P v →
      Settles (fun fuel => forward (performWith fuel) (c.handle ref last) ref event) v fun _ => Q)
    {w : World σ} (start : P w) :
    Settles (fun fuel => forward (performWith fuel) (c.handle ref a) ref event) w fun _ => Q := by
  induction passed generalizing before a w with
  | nil => exact lands before a w split start
  | cons id passed ih =>
    obtain ⟨next,onward⟩ := following_entry holds split
    obtain ⟨f,holding,kind⟩ := undisturbed.passes w id start (through id List.mem_cons_self)
    have here := undisturbed.told w (c.handle ref a) (c.handle ref id) event start
    have delivers : Settles (fun fuel => deliver (performWith fuel) f (c.handle ref id) ref event)
        (w.record (.delivered (c.handle ref a) (c.handle ref id) ref event)) fun _ => Q := by
      apply settles_plain here undisturbed kind
      intro v later
      have behind := split.trans (List.append_cons before a (id :: (passed ++ rest)))
      exact ih (fun x member => through x (List.mem_cons_of_mem _ member)) behind later
    refine (settles_delivered delivers).from fun fuel => ?_
    rw [forward_entry (undisturbed.chain w start) (current_on_way holds split) next onward holding,
      bind_of_ok (observe_apply _ w)]
    rfl

/-- Behind the plain filters is another one. -/
theorem settles_meets {passed after : List EntryId} (through : ∀ id ∈ passed, plain id)
    {before : List EntryId} {a seat : EntryId} {f : FilterId} (holding : (c.slot seat).filter = some f)
    (split : Chain.entrance event.outbound :: (if event.outbound then ids.reverse else ids) =
      before ++ a :: (passed ++ seat :: after))
    (meets : ∀ v, P v →
      Settles (fun fuel => deliver (performWith fuel) f (c.handle ref seat) ref event) v fun _ => Q)
    {w : World σ} (start : P w) :
    Settles (fun fuel => forward (performWith fuel) (c.handle ref a) ref event) w fun _ => Q := by
  refine settles_past holds undisturbed through split (fun before last v split here => ?_) start
  obtain ⟨next,onward⟩ := following_entry holds split
  have told := undisturbed.told v (c.handle ref last) (c.handle ref seat) event here
  refine (settles_delivered (meets _ told)).from fun fuel => ?_
  rw [forward_entry (undisturbed.chain v here) (current_on_way holds split) next onward holding,
    bind_of_ok (observe_apply _ v)]
  rfl

/-- Behind the plain filters is the end of the chain. -/
theorem settles_arrives {passed : List EntryId} (through : ∀ id ∈ passed, plain id)
    {before : List EntryId} {a : EntryId}
    (split : Chain.entrance event.outbound :: (if event.outbound then ids.reverse else ids) =
      before ++ a :: passed)
    (arrives : ∀ v source, P v → Settles (fun fuel => terminate (performWith fuel) ref event)
      (v.record (.arrived source ref event)) fun _ => Q)
    {w : World σ} (start : P w) :
    Settles (fun fuel => forward (performWith fuel) (c.handle ref a) ref event) w fun _ => Q := by
  rw [← List.append_nil passed] at split
  refine settles_past holds undisturbed through split (fun before last v split here => ?_) start
  have ends := following_exit holds split
  refine (arrives v (c.handle ref last) here).from fun fuel => ?_
  rw [forward_end (undisturbed.chain v here) (current_on_way holds split) ends,
    bind_of_ok (observe_apply _ v)]

end Effect
end SessionPipeline
