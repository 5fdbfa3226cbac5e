import SessionPipeline.Proofs.Chain.Alike
import SessionPipeline.Proofs.Chain.Attachment

/-! What a failed addition or replacement leaves behind. The chain tells the same as before, handles
that were given to the filter are never attached, and whatever edits follow come out as if the call had
not been made. -/
namespace SessionPipeline

namespace World

variable {σ : Type} {v : World σ} {h : Handle}

/-- Once the slot of a handle has been freed the handle is never attached again. -/
theorem Occurs.detached (occurs : v.Occurs) (few : ∀ r id, v.store.releases r id < 2^32)
    (entry : h.entry ≠ Chain.head ∧ h.entry ≠ Chain.tail)
    (freed : .unlinked h ∈ v.store.journal ∨ .discarded h ∈ v.store.journal) :
    v.store.isAttached h = false := by
  obtain ⟨own,flight,course⟩ := occurs.course
  have aged : v.Aged h := course.aged few entry
  have counts : v.Counts := course.counts (fresh_inOrder own) (fresh_counts own)
  rw [Bool.eq_false_iff,Ne,aged.attached counts (few _ _)]
  intro living
  have told {o : Observation} (member : o ∈ v.store.journal) (concerns : o.concerns h = true) :
      o ∈ v.store.lifetime h := List.mem_filter.mpr ⟨List.mem_reverse.mpr member,concerns⟩
  rw [living] at told
  rcases freed with member | member
  · cases List.mem_singleton.mp (told member (beq_self_eq_true h))
  · cases List.mem_singleton.mp (told member (beq_self_eq_true h))

end World

namespace Effect

open World

variable {σ : Type} {perform : Perform σ} {ref : SessionRef} {w w' : World σ} {c : Call}
  {failure : Failure} {stops : Watch σ} {fuel : Nat}

/-- What is left of a call that has failed. -/
structure Undone (perform : Perform σ) (ref : SessionRef) (w : World σ) (c : Call) (failure : Failure)
    (w' : World σ) (wear : EntryId → UInt32) : Prop where
  cause : Refuses perform ref w c failure w'
  /-- The chain tells the same as before, of handles that were issued before too. -/
  same : (w.store.chain ref).Tells ref id (w'.store.chain ref)
  /-- The handle that the filter of a new entry was given is not attached, then and ever after. -/
  never : ∀ {position name filter}, c = .add ref position name (some filter) →
    (w.store.chain ref).checkAddition name position = .ok () →
      w'.store.isAttached ((w.store.chain ref).reserved ref name filter) = false ∧
      ∀ {v : World σ}, v.Occurs → w'.store.journal <:+ v.store.journal →
        (∀ r id, v.store.releases r id < 2^32) →
          v.store.isAttached ((w.store.chain ref).reserved ref name filter) = false
  idle : ∀ x, ((w.store.chain ref).slot x).linked = true → wear x = 0
  /-- Later edits come out as if the call had not been made, if hooks do not tell the difference. -/
  later : ∀ {Q : World σ → World σ → Prop}, Alike Q ref wear → Q (w.besides ref) (w'.besides ref) →
    ∀ (n : Nat) {calls : List Call}, (∀ call ∈ calls, call.edits = true ∧ call.sessions = [ref]) →
    ∀ {results v}, operate (performWith n) calls w = .ok results v →
      (∀ r id, v.store.releases r id < 2^32) →
      ∃ v', operate (performWith n) calls w' = .ok results v' ∧
        (v.store.chain ref).Tells ref (·.worn ref wear) (v'.store.chain ref)

/-- A handle that was given to a filter that then objected is of a slot that has been freed. -/
theorem Refuses.freed {position : Position} {name : String} {filter : FilterId}
    (refuses : Refuses perform ref w (.add ref position name (some filter)) failure w')
    (admissible : (w.store.chain ref).checkAddition name position = .ok ()) :
    .unlinked ((w.store.chain ref).reserved ref name filter) ∈ w'.store.journal ∨
      .discarded ((w.store.chain ref).reserved ref name filter) ∈ w'.store.journal := by
  cases refuses with
  | taken _ _ taken =>
    rw [Chain.checkAddition,if_pos taken] at admissible
    cases admissible
  | baseless _ free relative missing =>
    rw [Chain.checkAddition,if_neg (Bool.eq_false_iff.mp free)] at admissible
    rcases relative with rfl | rfl
    · rw [Chain.checkBase,if_neg (Bool.eq_false_iff.mp missing)] at admissible
      cases admissible
    · rw [Chain.checkBase,if_neg (Bool.eq_false_iff.mp missing)] at admissible
      cases admissible
  | vetoed => exact .inr List.mem_cons_self
  | rolledBack => exact .inl (List.mem_append_right _ List.mem_cons_self)

theorem answer_refuses (runs : ∀ code how, Keeping (aloof ref) (perform (.run code how)))
    {ids flight : List EntryId} (holds : (w.store.chain ref).Holds ids flight)
    (present : ref < w.store.sessions.size) (enters : c.Enters ref)
    (failed : answer perform c w = .error (.failed failure) w') :
    Refuses perform ref w c failure w' := by
  have named : (needSessions [ref] : Effect σ Unit) w = .ok () w := needSessions_apply (by simpa using present)
  unfold answer at failed
  cases c with
  | add r position name filter =>
    obtain rfl : r = ref := enters
    rw [Call.sessions,bind_of_ok named] at failed
    exact add_refuses runs holds present (error_of_bind_pure failed)
  | replace r name filter =>
    obtain rfl : r = ref := enters
    rw [Call.sessions,bind_of_ok named] at failed
    exact replace_refuses runs holds present (error_of_bind_pure failed)
  | _ => cases enters

/-- However an addition or a replacement fails, as long as no hook edits the chain: but for how often
slots have been freed that hold no entry, nothing can be told from the chain or from what comes after. -/
theorem refused_undone (occurs : w.Occurs) (present : ref < w.store.sessions.size)
    (abides : stops.Abides (.aloof ref)) (enters : c.Enters ref)
    (failed : answer (performUntil stops fuel) c w = .error (.failed failure) w') :
    ∃ wear, Undone (performUntil stops fuel) ref w c failure w' wear := by
  obtain ⟨own,flight,course⟩ := occurs.course
  have inOrder : w.InOrder flight := course.inOrder (fresh_inOrder own)
  obtain ⟨ids,holds⟩ := inOrder ref
  have runs := keeping_run (aloof_performs abides fuel)
  have refuses := answer_refuses runs holds present enters failed
  obtain ⟨present',wear,idle,worn⟩ := refuses.worn runs holds present
  have same := worn.tells_same holds idle ref
  refine ⟨wear,⟨refuses,same,?never,idle,?later⟩⟩
  case never =>
    rintro position name filter rfl admissible
    have outside := (holds.allocate_slot name filter).1
    constructor
    · have unlinked := holds.unlinked outside
      rw [Bool.eq_false_iff]
      intro attached
      have linked := linked_of_current ((same.isCurrent _ rfl).symm.trans attached)
      exact Bool.false_ne_true (unlinked.symm.trans linked)
    · intro v occurs' recalls few
      simp only [List.mem_cons,List.mem_append,not_or] at outside
      refine occurs'.detached few ⟨outside.1,outside.2.2.1⟩ ?_
      exact (refuses.freed admissible).imp (recalls.mem ·) (recalls.mem ·)
  case later =>
    intro Q alike besides n calls edits results v ran few
    have recalled := (meets_of_ok ran).mp (keeping_operate (answer_recalls n) calls w)
    have evolves := (meets_of_ok ran).mp (keeping_operate (answer_evolves n) calls w)
    have standing : Standing Q ref wear v flight w w' := ⟨inOrder,recalled,present,present',worn,besides⟩
    have ended := operate_parallel few alike n edits standing
      (by simp only [leaves_of_ok ran,List.suffix_refl])
    rw [ran] at ended
    generalize operate (performWith n) calls w' = result' at ended
    cases ended with
    | returned both =>
      obtain ⟨rfl,twin⟩ := both
      obtain ⟨ids,holds⟩ := (standing.onward few evolves (List.suffix_refl _) twin).inOrder ref
      exact ⟨_,rfl,twin.worn.tells holds ref⟩

/-- Objects to every addition. -/
def objecting : Invocation → Script Unit
  | .hook .preAdd .. => .fail (.runtime "no")
  | _ => .done .unit

def guarding : Script Unit :=
  .call (.newHandler .adapter) fun _ => .call (.newProcessor (.loopback 0)) fun _ =>
  .call (.newSession (some 0) (some 0) 4 .unlimited) fun _ => .call (.newFilter .noop) fun _ =>
  .define objecting fun code => .call (.newFilter (.custom "guard" code)) fun _ => .done .unit

def guarded : World Unit := guarding.until .never 8 { own := () }

def intrude : Effect Unit Reply := answer (performUntil calling 8) (.add 0 .last "own" (some 1))

theorem objecting_blunt : Blunt objecting := by
  intro hook name
  cases hook with
  | preAdd => exact .inr ⟨.runtime "no",fun _ => rfl⟩
  | _ => exact .inl ⟨.unit,fun _ => rfl⟩

/-- What an objection leaves behind is not told when another filter is added in its place. -/
theorem refused_undone_vetoed : ∃ wear, Undone (performUntil calling 8) 0 guarded
      (.add 0 .last "own" (some 1)) (.vetoedAddition "own" "no") (intrude.leaves guarded) wear ∧
    ∃ v', operate (performWith 8) [.add 0 .last "own" (some 0),.remove 0 "other"]
        (intrude.leaves guarded) = .ok [.ok .unit,.error (.nameNotFound "other")] v' ∧
      (v'.store.chain 0).size = 1 := by
  have few {w : World Unit} (short : w.store.journal.length < 2^32) (r : SessionRef) (id : EntryId) :
      w.store.releases r id < 2^32 := Nat.lt_of_le_of_lt List.countP_le_length short
  have occurs : guarded.Occurs :=
    .during (.fresh ()) .never 8 guarding fun r id =>
      Nat.lt_add_left _ (few (w := guarded) (by decide +kernel) r id)
  have present : 0 < guarded.store.sessions.size := by decide +kernel
  have enters : (Call.add 0 .last "own" (some 1)).Enters 0 := rfl
  have failed : intrude guarded = .error (.failed (.vetoedAddition "own" "no")) (intrude.leaves guarded) :=
    rfl
  obtain ⟨wear,undone⟩ := refused_undone occurs present (calling_abides _) enters failed
  have blunt (id : CodeId) (body : Invocation → Script Unit) (found : #[objecting][id]? = some body) :
      Blunt body := by
    obtain rfl : body = objecting := by simpa using Array.mem_of_getElem? found
    exact objecting_blunt
  have besides : Same #[objecting] (guarded.besides 0) ((intrude.leaves guarded).besides 0) := ⟨rfl,rfl⟩
  have ran : operate (performWith 8) [.add 0 .last "own" (some 0),.remove 0 "other"] guarded =
    .ok [.ok .unit,.error (.nameNotFound "other")]
      ((operate (performWith 8) [.add 0 .last "own" (some 0),.remove 0 "other"]).leaves guarded) := rfl
  obtain ⟨v',ran',tells⟩ := undone.later (blunt_alike blunt 0 wear) besides 8
    (by simp [Call.edits,Call.sessions]) ran (few (by decide +kernel))
  refine ⟨wear,undone,v',ran',tells.size.trans ?_⟩
  decide +kernel

end Effect
end SessionPipeline
