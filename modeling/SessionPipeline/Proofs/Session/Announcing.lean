import SessionPipeline.Proofs.Queue.Ring
import SessionPipeline.Store
import Mathlib.Data.List.Perm.Basic

/-! In which order requests are announced that a loopback takes. It completes a request before it
announces it, so what is written meanwhile is announced first: the announcements are nested as the
writes are. They come in the order of the writes where no write is made while a request is completed. -/
namespace SessionPipeline

/-- What becomes of a request of a session: it reaches the queue, it is taken off it, and its being
sent is fired into the chain. -/
inductive Mark
  | reached (request : RequestId)
  | taken (request : RequestId)
  | sent (request : RequestId)
  deriving DecidableEq, Repr

/-- Being sent is fired at the head; from there on the filters pass it on. -/
def Observation.mark? (ref : SessionRef) : Observation → Option Mark
  | .arrived _ session (.filterWrite id) => if session = ref then some (.reached id) else none
  | .taken session id => if session = ref then some (.taken id) else none
  | .arrived source session (.messageSent id) | .delivered source _ session (.messageSent id) =>
    if source.owner = ref ∧ source.entry = Chain.head ∧ session = ref then some (.sent id) else none
  | _ => none

/-- What has become of the requests of a session, earliest first. -/
def Store.marks (s : Store) (ref : SessionRef) : List Mark :=
  (s.journal.filterMap (Observation.mark? ref)).reverse

namespace Mark

def reached? : Mark → Option RequestId
  | reached id => some id
  | _ => none

def taken? : Mark → Option RequestId
  | taken id => some id
  | _ => none

def sent? : Mark → Option RequestId
  | sent id => some id
  | _ => none

end Mark

def reaches (marks : List Mark) : List RequestId := marks.filterMap Mark.reached?

def takes (marks : List Mark) : List RequestId := marks.filterMap Mark.taken?

def sents (marks : List Mark) : List RequestId := marks.filterMap Mark.sent?

section Projections

variable (id : RequestId) (a b : List Mark)

@[simp] theorem reaches_nil : reaches [] = [] := rfl

@[simp] theorem reaches_reached : reaches (.reached id :: a) = id :: reaches a := rfl

@[simp] theorem reaches_taken : reaches (.taken id :: a) = reaches a := rfl

@[simp] theorem reaches_sent : reaches (.sent id :: a) = reaches a := rfl

@[simp] theorem takes_nil : takes [] = [] := rfl

@[simp] theorem takes_reached : takes (.reached id :: a) = takes a := rfl

@[simp] theorem takes_taken : takes (.taken id :: a) = id :: takes a := rfl

@[simp] theorem takes_sent : takes (.sent id :: a) = takes a := rfl

@[simp] theorem sents_nil : sents [] = [] := rfl

@[simp] theorem sents_reached : sents (.reached id :: a) = sents a := rfl

@[simp] theorem sents_taken : sents (.taken id :: a) = sents a := rfl

@[simp] theorem sents_sent : sents (.sent id :: a) = id :: sents a := rfl

@[simp] theorem reaches_append : reaches (a ++ b) = reaches a ++ reaches b := List.filterMap_append

@[simp] theorem takes_append : takes (a ++ b) = takes a ++ takes b := List.filterMap_append

@[simp] theorem sents_append : sents (a ++ b) = sents a ++ sents b := List.filterMap_append

end Projections

/-- Requests served as they reach the queue. Each is taken at once, others may be served while it is
completed, and then it is announced, unless what was thrown meanwhile has been caught. -/
inductive Served (caught : Prop) : List Mark → Prop
  | none : Served caught []
  | append {a b : List Mark} (first : Served caught a) (second : Served caught b) : Served caught (a ++ b)
  | whole (id : RequestId) {inner : List Mark} (during : Served caught inner) :
      Served caught (.reached id :: .taken id :: (inner ++ [Mark.sent id]))
  | cut (id : RequestId) {inner : List Mark} (thrown : caught) (during : Served caught inner) :
      Served caught (.reached id :: .taken id :: inner)

/-- Requests served up to some moment, one perhaps still in the queue. -/
inductive Underway : List Mark → Prop
  | served {a : List Mark} (served : Served True a) : Underway a
  | waiting {a : List Mark} (served : Served True a) (id : RequestId) : Underway (a ++ [Mark.reached id])

/-- Whenever a request reaches the queue, all that were taken have been announced. -/
def Uninterrupted (marks : List Mark) : Prop :=
  ∀ before id after, marks = before ++ Mark.reached id :: after →
    (sents before).length = (takes before).length

instance : DecidablePred Uninterrupted := fun marks =>
  decidable_of_iff (∀ n < marks.length, (marks[n]?.bind Mark.reached?).isSome →
    (sents (marks.take n)).length = (takes (marks.take n)).length) <| by
  constructor
  · rintro all before id after rfl
    simpa [Mark.reached?] using all before.length (by simp)
  · intro uninterrupted n within reached
    cases mark : marks[n] with
    | reached id =>
      apply uninterrupted (marks.take n) id (marks.drop (n+1))
      rw [← mark,List.getElem_cons_drop,List.take_append_drop]
    | taken id => simp [within,mark,Mark.reached?] at reached
    | sent id => simp [within,mark,Mark.reached?] at reached

variable {caught : Prop} {a b marks : List Mark} {id : RequestId}

theorem Served.imp {other : Prop} (served : Served caught marks) (imp : caught → other) :
    Served other marks := by
  induction served with
  | none => exact .none
  | append _ _ first second => exact first.append second
  | whole id _ during => exact .whole id during
  | cut id thrown _ during => exact .cut id (imp thrown) during

/-- What is served begins with a request that reaches the queue. -/
theorem Served.eq_nil_or_reached (served : Served caught marks) :
    marks = [] ∨ ∃ id rest, marks = .reached id :: rest := by
  induction served with
  | none => exact .inl rfl
  | append _ _ first second =>
    rcases first with rfl | ⟨id,rest,rfl⟩
    · simpa using second
    · exact .inr ⟨id,_,rfl⟩
  | whole id => exact .inr ⟨id,_,rfl⟩
  | cut id => exact .inr ⟨id,_,rfl⟩

/-- Nothing is taken but what reached the queue before. -/
theorem Served.takes_eq (served : Served caught marks) : takes marks = reaches marks := by
  induction served with
  | none => rfl
  | append _ _ first second => rw [takes_append,reaches_append,first,second]
  | whole id _ during =>
    simpa using during
  | cut id _ _ during =>
    simpa using during

/-- Unless something is caught each request is announced as often as it reached the queue. -/
theorem Served.sents_perm (served : Served False marks) : (sents marks).Perm (reaches marks) := by
  induction served with
  | none => exact .refl _
  | append _ _ first second =>
    rw [sents_append,reaches_append]
    exact first.append second
  | whole id _ during =>
    simp only [sents_reached,sents_taken,sents_append,sents_sent,sents_nil,reaches_reached,reaches_taken,
      reaches_append,reaches_sent,reaches_nil,List.append_nil]
    exact List.perm_append_singleton id _ |>.trans (during.cons id)
  | cut id thrown => exact thrown.elim

theorem Uninterrupted.left (uninterrupted : Uninterrupted (a ++ b)) : Uninterrupted a := by
  rintro before id after rfl
  exact uninterrupted before id (after ++ b) (by simp)

theorem Uninterrupted.right (uninterrupted : Uninterrupted (a ++ b))
    (even : (sents a).length = (takes a).length) : Uninterrupted b := by
  rintro before id after rfl
  have all := uninterrupted (a ++ before) id after (by simp)
  simp only [sents_append,takes_append,List.length_append] at all
  omega

/-- Behind a request that has not been announced no other is served. -/
theorem Uninterrupted.eq_nil (uninterrupted : Uninterrupted (a ++ b)) (served : Served caught b)
    (odd : (sents a).length ≠ (takes a).length) : b = [] := by
  rcases served.eq_nil_or_reached with none | ⟨id,rest,rfl⟩
  · exact none
  · exact absurd (uninterrupted a id rest rfl) odd

/-- Uninterrupted, requests are announced in the order in which they reached the queue, and all but
perhaps the last. -/
theorem Served.in_order (served : Served caught marks) (uninterrupted : Uninterrupted marks) :
    sents marks = reaches marks ∨ ∃ id, reaches marks = sents marks ++ [id] := by
  induction served with
  | none => exact .inl rfl
  | @append a b first second earlier later =>
    have takes := first.takes_eq
    rcases earlier uninterrupted.left with same | ⟨id,last⟩
    · rw [sents_append,reaches_append,same]
      rcases later (uninterrupted.right (by rw [takes,same])) with equal | ⟨id,last⟩
      · exact .inl (by rw [equal])
      · exact .inr ⟨id,by rw [last,List.append_assoc]⟩
    · have nothing : b = [] := by
        apply uninterrupted.eq_nil second
        rw [takes,last]
        simp
      subst nothing
      exact .inr ⟨id,by simpa using last⟩
  | @whole id inner during _ =>
    have nothing : inner = [] := by
      have cut : Uninterrupted ([Mark.reached id,Mark.taken id] ++ inner) := uninterrupted.left
      exact cut.eq_nil during (by simp)
    subst nothing
    exact .inl rfl
  | @cut id inner _ during _ =>
    have nothing : inner = [] := by
      have cut : Uninterrupted ([Mark.reached id,Mark.taken id] ++ inner) := uninterrupted
      exact cut.eq_nil during (by simp)
    subst nothing
    exact .inr ⟨id,rfl⟩

/-- All of them where nothing is caught. -/
theorem Served.all_in_order (served : Served False marks) (uninterrupted : Uninterrupted marks) :
    sents marks = reaches marks := by
  rcases served.in_order uninterrupted with same | ⟨id,last⟩
  · exact same
  · have count := served.sents_perm.length_eq
    rw [last] at count
    simp at count

theorem Underway.in_order (underway : Underway marks) (uninterrupted : Uninterrupted marks) :
    sents marks = reaches marks ∨ ∃ id, reaches marks = sents marks ++ [id] := by
  cases underway with
  | served served => exact served.in_order uninterrupted
  | @waiting a served id =>
    have even := uninterrupted a id [] rfl
    rcases served.in_order uninterrupted.left with same | ⟨other,last⟩
    · exact .inr ⟨id,by simp [same]⟩
    · rw [served.takes_eq,last] at even
      simp at even

/-- Between being taken and being announced, a request may be caught up on by others. -/
theorem Underway.inside (id : RequestId) (underway : Underway marks) :
    Underway (.reached id :: .taken id :: marks) := by
  cases underway with
  | served served => exact .served (.cut id trivial served)
  | waiting served other => exact .waiting (.cut id trivial served) other

theorem Underway.behind (served : Served caught a) (underway : Underway b) : Underway (a ++ b) := by
  cases underway with
  | served later => exact .served ((served.imp fun _ => trivial).append later)
  | waiting later id =>
    rw [← List.append_assoc]
    exact .waiting ((served.imp fun _ => trivial).append later) id

end SessionPipeline
