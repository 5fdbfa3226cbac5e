import SessionPipeline.Proofs.Chain.Change
import SessionPipeline.Proofs.Chain.Passage

/-! How long a handle is attached. History tells of each handle at most one life, from the linking of
its entry to its unlinking, or that its slot was freed before; and the handle is attached exactly
while that life goes on, however often the slot is used again. -/
namespace SessionPipeline

def Observation.concerns (h : Handle) : Observation → Bool
  | .linked g | .unlinked g | .discarded g => g == h
  | _ => false

/-- What history tells of a handle, earliest first. -/
def Store.lifetime (s : Store) (h : Handle) : List Observation :=
  s.journal.reverse.filter (·.concerns h)

namespace World

variable {σ : Type} {w w' v : World σ} {h g : Handle} {terms : Terms}

theorem lifetime_cons {o : Observation} (journal : w'.store.journal = o :: w.store.journal) :
    w'.store.lifetime h = w.store.lifetime h ++ if o.concerns h then [o] else [] := by
  rw [Store.lifetime,journal,List.reverse_cons,List.filter_append]
  cases told : o.concerns h <;> simp [Store.lifetime,told]

theorem lifetime_prefix (recalls : w.store.journal <:+ w'.store.journal) (h : Handle) :
    w.store.lifetime h <+: w'.store.lifetime h :=
  List.IsPrefix.filter _ (List.reverse_prefix.mpr recalls)

theorem passing_concerns (c : Chain) (handle : Handle) (ref : SessionRef) (event : Event) (h : Handle) :
    (Effect.passing c handle ref event).concerns h = false := by
  unfold Effect.passing
  dsimp only
  split <;> rfl

/-- A handle against the number of times that its slot has been freed. -/
structure Aged (w : World σ) (h : Handle) : Prop where
  early : w.store.releases h.owner h.entry < h.generation.toNat → w.store.lifetime h = []
  current : w.store.releases h.owner h.entry = h.generation.toNat →
    w.store.lifetime h = if (w.mark h.owner h.entry).2 then [.linked h] else []
  late : h.generation.toNat < w.store.releases h.owner h.entry →
    w.store.lifetime h = [.linked h,.unlinked h] ∨ w.store.lifetime h = [.discarded h]

theorem fresh_aged (own : σ) (h : Handle) (entry : h.entry ≠ Chain.head ∧ h.entry ≠ Chain.tail) :
    ({ own := own } : World σ).Aged h := by
  have unlinked : (({ own := own } : World σ).mark h.owner h.entry).2 = false := by
    obtain ⟨notHead,notTail⟩ := entry
    have outside : Chain.empty.slots.size ≤ h.entry := (Nat.two_le_iff _).mpr ⟨notHead,notTail⟩
    rw [mark,chain_absent (Nat.not_lt_zero h.owner),Chain.mark,Chain.slot_outside outside]
  refine ⟨fun _ => rfl,fun _ => ?_,fun less => absurd less (Nat.not_lt_zero _)⟩
  rw [unlinked]
  rfl

/-- What history tells of a handle is one life, or that there is none. -/
theorem Aged.once (aged : w.Aged h) :
    w.store.lifetime h ∈ [[],[.linked h],[.linked h,.unlinked h],[.discarded h]] := by
  rcases Nat.lt_trichotomy (w.store.releases h.owner h.entry) h.generation.toNat with
    early | current | late
  · simp [aged.early early]
  · rw [aged.current current]
    split <;> simp
  · rcases aged.late late with left | never
    · simp [left]
    · simp [never]

theorem Aged.attached (aged : w.Aged h) (counts : w.Counts)
    (sparing : w.store.releases h.owner h.entry < 2^32) :
    w.store.isAttached h = true ↔ w.store.lifetime h = [.linked h] := by
  rw [isAttached_iff]
  constructor
  · intro marked
    rw [aged.current (counts.toNat_eq marked sparing).symm,marked]
    rfl
  · intro living
    rcases Nat.lt_trichotomy (w.store.releases h.owner h.entry) h.generation.toNat with
      early | current | late
    · rw [aged.early early] at living
      cases living
    · have linked : (w.mark h.owner h.entry).2 = true := by
        rw [aged.current current] at living
        by_contra unlinked
        rw [if_neg unlinked] at living
        cases living
      refine Prod.ext ?_ linked
      rw [counts,current]
      exact UInt32.ofNat_toNat
    · rcases aged.late late with left | never
      · rw [left] at living
        cases living
      · rw [never] at living
        cases living

/-- What does not concern a handle leaves it at its age. -/
theorem Aged.unconcerned (aged : w.Aged h) (marks : w'.mark h.owner h.entry = w.mark h.owner h.entry)
    (releases : w'.store.releases h.owner h.entry = w.store.releases h.owner h.entry)
    (lifetime : w'.store.lifetime h = w.store.lifetime h) : w'.Aged h := by
  refine ⟨?_,?_,?_⟩
  all_goals rw [releases,lifetime]
  · exact aged.early
  · rw [marks]
    exact aged.current
  · exact aged.late

/-- When a slot is freed the life of its handle is over and that of the next can begin. -/
theorem Aged.freed {linked : Bool} {o : Observation} (aged : w.Aged h)
    (counts : w.Counts) (before : w.mark g.owner g.entry = (g.generation,linked))
    (mark : w.Marks w' g (g.generation+1) false) (journal : w'.store.journal = o :: w.store.journal)
    (sparing : w.store.releases g.owner g.entry < 2^32)
    (frees : ∀ ref id, o.frees ref id = (g.owner == ref && g.entry == id))
    (concerns : ∀ h, o.concerns h = (g == h))
    (ends : g = h → w.store.lifetime h ++ [o] = [.linked h,.unlinked h] ∨
      w.store.lifetime h ++ [o] = [.discarded h]) : w'.Aged h := by
  have count := counts.toNat_eq before sparing
  have releases := releases_freed journal frees h.owner h.entry
  have marks := mark h.owner h.entry
  have lifetime (other : g ≠ h) : w'.store.lifetime h = w.store.lifetime h := by
    rw [lifetime_cons journal,concerns,beq_eq_false_iff_ne.mpr other]
    exact List.append_nil _
  by_cases same : h.owner = g.owner ∧ h.entry = g.entry
  · have differs (apart : h.generation.toNat ≠ g.generation.toNat) : g ≠ h := by
      rintro rfl
      exact apart rfl
    rw [if_pos same] at releases marks
    have earlier := aged.early
    have later := aged.late
    rw [same.1,same.2] at earlier later releases
    refine ⟨?_,?_,?_⟩
    all_goals rw [same.1,same.2,releases]
    · intro less
      rw [lifetime (differs (by omega))]
      exact earlier (by omega)
    · intro next
      rw [lifetime (differs (by omega)),← same.1,← same.2,marks]
      exact earlier (by omega)
    · intro past
      by_cases now : h.generation.toNat = g.generation.toNat
      · obtain rfl := ext_handle same.1 same.2 (UInt32.toNat_inj.mp now)
        rw [lifetime_cons journal,concerns,beq_self_eq_true,if_pos rfl]
        exact ends rfl
      · rw [lifetime (differs now)]
        exact later (by omega)
  · rw [if_neg same] at releases marks
    refine aged.unconcerned marks releases (lifetime ?_)
    rintro rfl
    exact same ⟨rfl,rfl⟩

/-- When an entry is linked the life of its handle begins. -/
theorem Aged.begun (aged : w.Aged h) (counts : w.Counts)
    (before : w.mark g.owner g.entry = (g.generation,false)) (mark : w.Marks w' g g.generation true)
    (journal : w'.store.journal = .linked g :: w.store.journal)
    (sparing : w.store.releases g.owner g.entry < 2^32) : w'.Aged h := by
  have count := counts.toNat_eq before sparing
  have releases := congrFun (congrFun (releases_linked journal) h.owner) h.entry
  have marks := mark h.owner h.entry
  have lifetime (other : g ≠ h) : w'.store.lifetime h = w.store.lifetime h := by
    rw [lifetime_cons journal,Observation.concerns,beq_eq_false_iff_ne.mpr other]
    exact List.append_nil _
  by_cases itself : g = h
  · subst itself
    rw [if_pos ⟨rfl,rfl⟩] at marks
    refine ⟨fun less => ?_,fun now => ?_,fun past => ?_⟩
    · omega
    · rw [lifetime_cons journal,Observation.concerns,beq_self_eq_true,aged.current count.symm,before,
        marks]
      rfl
    · omega
  · by_cases same : h.owner = g.owner ∧ h.entry = g.entry
    · have apart : h.generation.toNat ≠ g.generation.toNat := fun now =>
        itself (ext_handle same.1 same.2 (UInt32.toNat_inj.mp now)).symm
      have now : w.store.releases h.owner h.entry = g.generation.toNat := by
        rw [same.1,same.2,count]
      refine ⟨?_,?_,?_⟩
      all_goals rw [releases,lifetime itself]
      · exact aged.early
      · intro current
        exact absurd (current.symm.trans now) apart
      · exact aged.late
    · rw [if_neg same] at marks
      exact aged.unconcerned marks releases (lifetime itself)

theorem Change.aged (change : w.Change w') (counts : w.Counts)
    (sparing : ∀ ref id, w.store.releases ref id < 2^32) (mine : w.Aged h) : w'.Aged h := by
  cases change with
  | @idle route mark news journal told =>
    have silent : ∀ o ∈ news, o.concerns h = false := by
      rcases told with still | ⟨handle,ref,event,_,rfl⟩
      · intro o member
        have quiet := still o member
        cases o <;> first | rfl | cases quiet
      · intro o member
        rw [List.mem_singleton.mp member]
        exact passing_concerns _ _ _ _ _
    have lifetime : w'.store.lifetime h = w.store.lifetime h := by
      have none : news.reverse.filter (·.concerns h) = [] :=
        List.filter_eq_nil_iff.mpr fun o member => by simp [silent o (List.mem_reverse.mp member)]
      rw [Store.lifetime,journal,List.reverse_append,List.filter_append,none]
      exact List.append_nil _
    exact mine.unconcerned (mark _ _) (congrFun (congrFun (releases_of_news journal told) _) _) lifetime
  | discarded g route before mark journal =>
    refine mine.freed counts before mark journal (sparing _ _) (fun _ _ => rfl) (fun _ => rfl) ?_
    rintro rfl
    rw [mine.current (counts.toNat_eq before (sparing _ _)).symm,before]
    exact .inr rfl
  | linked g elsewhere route route' before mark journal =>
    exact mine.begun counts before mark journal (sparing _ _)
  | unlinked g elsewhere route route' before mark journal =>
    refine mine.freed counts before mark journal (sparing _ _) (fun _ _ => rfl) (fun _ => rfl) ?_
    rintro rfl
    rw [mine.current (counts.toNat_eq before (sparing _ _)).symm,before]
    exact .inl rfl

/-- Every handle of an entry is of one age at every moment of a course from an empty world. -/
theorem Course.aged {own : σ} {s : Stage σ} (course : Course terms ((fun _ => []),{ own := own }) s)
    (sparing : ∀ ref id, s.2.store.releases ref id < 2^32)
    (entry : h.entry ≠ Chain.head ∧ h.entry ≠ Chain.tail) : s.2.Aged h := by
  induction course with
  | refl => exact fresh_aged own h entry
  | tail before moves ih =>
    have spare (ref : SessionRef) (id : EntryId) :=
      Nat.lt_of_le_of_lt (releases_le_of_suffix moves.recalls ref id) (sparing ref id)
    exact (moves.change (Course.inOrder before (fresh_inOrder own))).aged
      (Course.counts before (fresh_inOrder own) (fresh_counts own)) spare (ih spare)

end World

namespace Effect

open World

variable {σ : Type}

/-- What becomes of an event that is passed on from a handle with this entry, or none, ahead. -/
def passTo (perform : Perform σ) (h : Handle) (ref : SessionRef) (event : Event) :
    Option Entry → Effect σ Unit
  | none => do
    observe (.arrived h ref event)
    terminate perform ref event
  | some e => do
    observe (.delivered h e.handle ref event)
    match e.filter with
    | some filter => do
      let _ ← perform (.deliver filter e.handle ref event)
    | none => pure ()

/-- An attached handle passes events on to the entry that is next to its own at that moment. -/
theorem forward_attached {w : World σ} {h : Handle} {ids flight : List EntryId}
    (holds : (w.store.chain h.owner).Holds ids flight)
    (entry : h.entry ≠ Chain.head ∧ h.entry ≠ Chain.tail) (attached : w.store.isAttached h = true)
    (event : Event) :
    ∃ before e after, (if event.outbound then (w.store.chain h.owner).getAllReversed h.owner
        else (w.store.chain h.owner).getAll h.owner) = before ++ e :: after ∧ e.handle = h ∧
      ∀ perform ref, forward perform h ref event w = passTo perform h ref event after.head? w := by
  have member : h.entry ∈ if event.outbound then ids.reverse else ids := by
    have listed := (holds.mem_route rfl entry.1 entry.2).mpr attached
    rw [holds.route_eq,List.mem_map] at listed
    obtain ⟨id,inside,same⟩ := listed
    obtain rfl : id = h.entry := congrArg Handle.entry same
    split
    · exact List.mem_reverse.mpr inside
    · exact inside
  obtain ⟨before,after,split⟩ := List.append_of_mem member
  have entered : Chain.entrance event.outbound :: (if event.outbound then ids.reverse else ids) =
      (Chain.entrance event.outbound :: before) ++ h.entry :: after := congrArg (List.cons _) split
  have behind := holds.traverses_behind event.outbound entered
  have own : (w.store.chain h.owner).handle h.owner h.entry = h :=
    handle_of_generation (generation_of_current attached)
  refine ⟨before.map ((w.store.chain h.owner).entry h.owner),
    (w.store.chain h.owner).entry h.owner h.entry,
    after.map ((w.store.chain h.owner).entry h.owner),?_,own,fun perform ref => ?_⟩
  · rw [holds.entries_eq,split,List.map_append,List.map_cons]
  · have following := (w.store.chain h.owner).following_eq event.outbound h.entry
    generalize Chain.ahead event.outbound ((w.store.chain h.owner).slot h.entry) = next at behind following
    cases behind with
    | stop => exact forward_end rfl attached following
    | step onward _ => exact forward_onward rfl attached following onward

/-- How a handle, its entry and the history of both belong together. -/
structure Lives (v : World σ) (h : Handle) : Prop where
  once : v.store.lifetime h ∈ [[],[.linked h],[.linked h,.unlinked h],[.discarded h]]
  attached : v.store.isAttached h = true ↔ v.store.lifetime h = [.linked h]
  final : v.store.lifetime h ≠ [] → v.store.isAttached h = false →
    ∀ (stops : Watch σ) (fuel : Nat) (script : Script σ),
    (∀ ref id, (script.until stops fuel v).store.releases ref id < 2^32) →
      (script.until stops fuel v).store.isAttached h = false
  issued : ∀ name, (v.store.chain h.owner).getHandle h.owner name = .ok h → v.store.isAttached h = true
  replaced : ∀ id filter,
    (v.mapChain h.owner (·.setFilter id filter)).store.isAttached h = v.store.isAttached h
  detached : v.store.isAttached h = false → ∀ perform ref event,
    ∃ (logging : Logging.Registry) (emissions : List Logging.Emission),
      forward perform h ref event v = .ok () { v with store := { v.store with
        logging := logging
        journal := (emissions.map .emitted).reverse ++ v.store.journal } }
  forwards : v.store.isAttached h = true → ∀ event, ∃ before e after,
    (if event.outbound then (v.store.chain h.owner).getAllReversed h.owner
      else (v.store.chain h.owner).getAll h.owner) = before ++ e :: after ∧ e.handle = h ∧
    ∀ perform ref, forward perform h ref event v = passTo perform h ref event after.head? v

/-- Whatever is done to chains, as long as no slot is freed 2^32 times: a handle is attached exactly
from the linking of its entry to its unlinking, which happen once at most, and never when its slot was
freed before. Meanwhile it passes events on to the entry next to its own; else nothing but the log
tells of what it is given. -/
theorem attached_lifetime {v : World σ} (occurs : v.Occurs)
    (sparing : ∀ ref id, v.store.releases ref id < 2^32) {h : Handle}
    (entry : h.entry ≠ Chain.head ∧ h.entry ≠ Chain.tail) : Lives v h := by
  obtain ⟨own,flight,course⟩ := occurs.course
  have inOrder := course.inOrder (fresh_inOrder own)
  obtain ⟨ids,holds⟩ := inOrder h.owner
  have aged : v.Aged h := course.aged sparing entry
  have counts : v.Counts := course.counts (fresh_inOrder own) (fresh_counts own)
  refine ⟨aged.once,aged.attached counts (sparing _ _),?final,?issued,?replaced,?detached,
    fun attached event => forward_attached holds entry attached event⟩
  case final =>
    intro began detached stops fuel script sparing'
    have midway := script.until_midway stops.abides_free fuel v
    obtain ⟨flight',onward⟩ := midway.course flight
      (fun ref id => Nat.lt_add_left _ (sparing' ref id)) inOrder
    have aged' : (script.until stops fuel v).Aged h := Course.aged (course.trans onward) sparing' entry
    rw [Bool.eq_false_iff,Ne,aged.attached counts (sparing _ _)] at detached
    rw [Bool.eq_false_iff,Ne,aged'.attached (onward.counts inOrder counts) (sparing' _ _)]
    intro living
    have grown := lifetime_prefix onward.recalls h
    rw [living] at grown
    obtain none | ⟨rest,alone,nothing⟩ := List.prefix_cons_iff.mp grown
    · exact began none
    · rw [List.prefix_nil.mp nothing] at alone
      exact detached alone
  case issued =>
    intro name given
    rw [Chain.getHandle,Chain.getEntry] at given
    cases found : (v.store.chain h.owner).find? name with
    | none =>
      rw [found] at given
      cases given
    | some id =>
      rw [found] at given
      obtain ⟨member,_⟩ := (holds.find?_eq_some_iff name id).mp found
      have same : (v.store.chain h.owner).handle h.owner id = h := Except.ok.inj given
      have listed : h ∈ (v.store.chain h.owner).route h.owner := by
        rw [holds.route_eq]
        exact List.mem_map.mpr ⟨id,member,same⟩
      exact (holds.mem_route rfl entry.1 entry.2).mp listed
  case replaced =>
    intro id filter
    refine attached_congr ?_
    rw [mark,mark]
    by_cases present : h.owner < v.store.sessions.size
    · rw [chain_mapChain present,Chain.setFilter_mark]
    · rw [chain_mapChain_absent present]
  case detached =>
    intro stale perform ref event
    rw [forward_stale rfl stale]
    exact ⟨_,_,rfl⟩

/-- Adds an entry, removes it and adds another, which gets its slot. -/
def recycling : Script Unit :=
  .call (.newHandler .adapter) fun _ => .call (.newProcessor (.loopback 0)) fun _ =>
  .call (.newSession (some 0) (some 0) 4 .unlimited) fun _ => .call (.newFilter .noop) fun _ =>
  .call (.add 0 .last "first" (some 0)) fun _ => .call (.remove 0 "first") fun _ =>
  .call (.add 0 .last "second" (some 0)) fun _ => .done .unit

theorem attached_lifetime_recycled :
    let v := recycling.until .never 8 { own := () }
    Lives v ⟨0,2,0⟩ ∧ (v.store.lifetime ⟨0,2,0⟩).length = 2 ∧
      v.store.isAttached ⟨0,2,1⟩ = true := by
  have few : (recycling.until .never 8 { own := () }).store.journal.length < 2^32 := by decide +kernel
  have freed (ref : SessionRef) (id : EntryId) :
      (recycling.until .never 8 { own := () }).store.releases ref id < 2^32 :=
    Nat.lt_of_le_of_lt List.countP_le_length few
  have occurs : (recycling.until .never 8 { own := () }).Occurs :=
    .during (.fresh ()) .never 8 recycling fun ref id => Nat.lt_add_left _ (freed ref id)
  exact ⟨attached_lifetime occurs freed (by decide),by decide +kernel,by decide +kernel⟩

end Effect
end SessionPipeline
