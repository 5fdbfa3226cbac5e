import Mathlib.Data.List.Nodup
import SessionPipeline.Proofs.Chain.Change
import SessionPipeline.Proofs.Chain.Passage

/-! How an event travels while the chain changes under it. Where no entry passes it on more often than
it was given it, the event is in one place at a time: with the entry that was given it last. The
entries that it has been to and that are still linked then stand in the chain in that order, since an
entry is given it from the one next to it, and edits rearrange nothing. -/
namespace SessionPipeline

/-- An event goes on from one handle, to another or past the last. -/
structure Passage where
  source : Handle
  target : Option Handle
  deriving DecidableEq

/-- What history tells of events on their way through one chain, in one direction. -/
def Observation.passage? (owner : SessionRef) (outbound : Bool) : Observation → Option Passage
  | .delivered source target _ event =>
    if source.owner = owner ∧ event.outbound = outbound then some ⟨source,some target⟩ else none
  | .arrived source _ event =>
    if source.owner = owner ∧ event.outbound = outbound then some ⟨source,none⟩ else none
  | _ => none

namespace Passage

/-- No handle has passed on more often than it was given, where it starts with the first. -/
def Fair (start : Handle) (path : List Passage) : Prop :=
  ∀ i : Fin path.length, ((path.take i).map source).count path[i].source <
    (start :: (path.take i).filterMap target).count path[i].source

instance (start : Handle) (path : List Passage) : Decidable (Fair start path) :=
  inferInstanceAs (Decidable (∀ _ : Fin _, _))

variable {start : Handle} {path : List Passage} {p : Passage}

theorem Fair.concat (fair : Fair start (path ++ [p])) : Fair start path ∧
    (path.map source).count p.source < (start :: path.filterMap target).count p.source := by
  constructor
  · intro i
    have inside : i.val < (path ++ [p]).length := by
      rw [List.length_append]
      exact Nat.lt_add_right _ i.isLt
    have earlier := fair ⟨i,inside⟩
    simpa [List.take_append_of_le_length (Nat.le_of_lt i.isLt),List.getElem_append_left i.isLt]
      using earlier
  · simpa using fair ⟨path.length,by simp⟩

theorem eq_holder {given passed : List Handle} {rest : Option Handle} {h : Handle}
    (line : given = passed ++ rest.toList) (once : passed.count h < given.count h) : rest = some h := by
  rw [line,List.count_append] at once
  cases rest with
  | none => simp at once
  | some holder =>
    by_contra other
    have apart : holder ≠ h := fun same => other (congrArg some same)
    simp [apart] at once

/-- At each time one handle at most is left to pass on, the one that was given last. -/
theorem Fair.line (fair : Fair start path) : ∃ rest : Option Handle,
    start :: path.filterMap target = path.map source ++ rest.toList ∧
      path.countP (·.target.isNone) = if rest.isNone then 1 else 0 := by
  induction path using List.reverseRecOn with
  | nil => exact ⟨some start,rfl,rfl⟩
  | append_singleton path p ih =>
    obtain ⟨before,once⟩ := fair.concat
    obtain ⟨rest,line,arrivals⟩ := ih before
    obtain rfl := eq_holder line once
    refine ⟨p.target,?_,?_⟩
    · rw [List.filterMap_append,← List.cons_append,line]
      cases target : p.target <;> simp [target]
    · rw [List.countP_append,arrivals]
      cases target : p.target <;> simp [target]

theorem Fair.last (fair : Fair start (path ++ [p])) :
    start :: path.filterMap target = path.map source ++ [p.source] := by
  obtain ⟨before,once⟩ := fair.concat
  obtain ⟨rest,line,_⟩ := before.line
  rw [line,eq_holder line once]
  rfl

end Passage

namespace Chain

variable {c : Chain} {ids flight : List EntryId}

theorem entrance_ne_exit (outbound : Bool) : entrance outbound ≠ exit outbound := by
  cases outbound <;> decide

/-- The route in the direction of an event. -/
def way (c : Chain) (owner : SessionRef) (outbound : Bool) : List Handle :=
  if outbound then (c.route owner).reverse else c.route owner

theorem Holds.way_eq (holds : c.Holds ids flight) (owner : SessionRef) (outbound : Bool) :
    c.way owner outbound = (if outbound then ids.reverse else ids).map (c.handle owner) := by
  rw [way,holds.route_eq]
  cases outbound
  · rfl
  · exact List.map_reverse.symm

theorem Holds.way_entries (holds : c.Holds ids flight) (owner : SessionRef) (outbound : Bool) :
    (if outbound then c.getAllReversed owner else c.getAll owner).map (·.handle) =
      c.way owner outbound := by
  rw [holds.entries_eq,holds.way_eq,List.map_map]
  rfl

/-- The ends of a chain are never freed. -/
theorem Holds.handle_entrance (holds : c.Holds ids flight) (owner : SessionRef) (outbound : Bool) :
    c.handle owner (entrance outbound) = ⟨owner,entrance outbound,0⟩ := by
  have never : (c.slot (entrance outbound)).generation = 0 :=
    holds.ends _ (by cases outbound <;> simp [entrance])
  rw [handle,never]

theorem mem_way {h : Handle} {owner : SessionRef} {outbound : Bool} :
    h ∈ c.way owner outbound ↔ h ∈ c.route owner := by
  unfold way
  split
  · exact List.mem_reverse
  · rfl

/-- The entrance and the handles on the way are all different. -/
theorem Holds.way_nodup (holds : c.Holds ids flight) (owner : SessionRef) (outbound : Bool) :
    (⟨owner,entrance outbound,0⟩ :: c.way owner outbound).Nodup := by
  refine List.nodup_cons.mpr ⟨fun member => ?_,?_⟩
  · obtain ⟨_,notHead,notTail⟩ := holds.route_entry (mem_way.mp member)
    cases outbound
    · exact notHead rfl
    · exact notTail rfl
  · unfold way
    split
    · exact List.nodup_reverse.mpr (holds.route_nodup owner)
    · exact holds.route_nodup owner

/-- What goes on from a current handle goes to the next one on the way, or past the last. -/
theorem Holds.passing_eq (holds : c.Holds ids flight) {h : Handle} {event : Event}
    (current : c.isCurrent h = true) (inside : h.entry ≠ exit event.outbound) (ref : SessionRef) :
    ∃ left right, ⟨h.owner,entrance event.outbound,0⟩ :: c.way h.owner event.outbound = left ++ h :: right ∧
      (Effect.passing c h ref event).passage? h.owner event.outbound = some ⟨h,right.head?⟩ := by
  obtain ⟨generation,linked⟩ := Prod.mk.inj ((isCurrent_iff c h).mp current)
  have member : h.entry ∈ entrance event.outbound ::
      (if event.outbound then ids.reverse else ids) := by
    have known := (holds.flags h.entry).mp linked
    revert inside
    cases event.outbound <;> simp [entrance,exit] at known ⊢ <;> tauto
  obtain ⟨before,after,split⟩ := List.append_of_mem member
  have own : c.handle h.owner h.entry = h := World.handle_of_generation generation
  refine ⟨before.map (c.handle h.owner),after.map (c.handle h.owner),?_,?_⟩
  · rw [← holds.handle_entrance,holds.way_eq,← List.map_cons,split,List.map_append,List.map_cons,own]
  · have behind := holds.traverses_behind event.outbound split
    have following := c.following_eq event.outbound h.entry
    generalize ahead event.outbound (c.slot h.entry) = next at behind following
    cases behind with
    | stop =>
      rw [Effect.passing_end following]
      simp [Observation.passage?]
    | step onward _ =>
      rw [Effect.passing_entry following onward]
      simp [Observation.passage?]

end Chain

namespace World

variable {σ : Type} {w v v' : World σ} {ref : SessionRef} {outbound : Bool} {visits : List Handle}
  {terms : Terms}

def way (w : World σ) (ref : SessionRef) (outbound : Bool) : List Handle :=
  (w.store.chain ref).way ref outbound

/-- What has gone on in a chain since another world, earliest first. -/
def passages (w v : World σ) (ref : SessionRef) (outbound : Bool) : List Passage :=
  (v.store.journal.reverse.drop w.store.journal.length).filterMap (·.passage? ref outbound)

theorem passages_self (w : World σ) (ref : SessionRef) (outbound : Bool) :
    w.passages w ref outbound = [] := by
  rw [passages,← List.length_reverse,List.drop_length]
  rfl

theorem passages_news {news : List Observation} (later : w.store.journal <:+ v.store.journal)
    (journal : v'.store.journal = news ++ v.store.journal) :
    w.passages v' ref outbound =
      w.passages v ref outbound ++ news.reverse.filterMap (·.passage? ref outbound) := by
  have long : w.store.journal.length ≤ v.store.journal.reverse.length := by
    rw [List.length_reverse]
    exact later.length_le
  rw [passages,passages,journal,List.reverse_append,List.drop_append_of_le_length long,
    List.filterMap_append]

theorem still_passage {o : Observation} (still : o.still = true) : o.passage? ref outbound = none := by
  cases o <;> first | rfl | cases still

/-- What an event has been given to since `w` stands in `v` in the order of its visits, as far as it
is still linked. A slot that was freed since does not get the generation back that it had. -/
structure Trail (w v : World σ) (ref : SessionRef) (outbound : Bool) (visits : List Handle) : Prop where
  nodup : visits.Nodup
  order : (visits.filter v.store.isAttached).Sublist (v.way ref outbound)
  seen : ∀ h ∈ visits, (h.owner = ref ∧ h.entry ≠ Chain.head ∧ h.entry ≠ Chain.tail) ∧
    ∃ count, w.store.releases h.owner h.entry ≤ count ∧ count ≤ v.store.releases h.owner h.entry ∧
      h.generation = UInt32.ofNat count ∧
      (count = v.store.releases h.owner h.entry → v.store.isAttached h = true)

theorem way_congr (route : v'.route ref = v.route ref) : v'.way ref outbound = v.way ref outbound := by
  unfold way Chain.way
  split
  · exact congrArg List.reverse route
  · exact route

/-- A change keeps the trail if it links or unlinks a visited entry only as it frees its slot. -/
theorem Trail.kept (trail : w.Trail v ref outbound visits)
    (recalls : v.store.journal <:+ v'.store.journal)
    (attached : ∀ h ∈ visits, v'.store.releases h.owner h.entry = v.store.releases h.owner h.entry →
      v'.store.isAttached h = v.store.isAttached h)
    (order : (visits.filter v'.store.isAttached).Sublist (v'.way ref outbound)) :
    w.Trail v' ref outbound visits where
  nodup := trail.nodup
  order := order
  seen h member := by
    obtain ⟨place,count,low,high,generation,linked⟩ := trail.seen h member
    have grown := releases_le_of_suffix recalls h.owner h.entry
    refine ⟨place,count,low,by omega,generation,fun now => ?_⟩
    rw [attached h member (by omega)]
    exact linked (by omega)

/-- The handle of a slot that is not linked has not been visited. -/
theorem Trail.unvisited (trail : w.Trail v ref outbound visits) (counts : v.Counts)
    (sparing : w.Sparing v) {h : Handle} (before : v.mark h.owner h.entry = (h.generation,false)) :
    h ∉ visits := by
  intro member
  obtain ⟨_,count,low,high,generation,linked⟩ := trail.seen h member
  have counted := counts h.owner h.entry
  rw [before,generation] at counted
  have spare := sparing h.owner h.entry
  have same := congrArg UInt32.toNat counted
  simp only [UInt32.toNat_ofNat'] at same
  have attached := linked (by omega)
  rw [isAttached_iff,before] at attached
  cases attached

theorem Trail.freed (trail : w.Trail v ref outbound visits) {h : Handle}
    (before : v.mark h.owner h.entry = (h.generation,false))
    (mark : v.Marks v' h (h.generation+1) false) (route : ∀ ref, v'.route ref = v.route ref)
    (recalls : v.store.journal <:+ v'.store.journal) : w.Trail v' ref outbound visits := by
  have attached (g : Handle) : v'.store.isAttached g = v.store.isAttached g := by
    rw [mark.attached]
    split
    next same => exact (attached_of_mark before same).symm
    next => rfl
  refine trail.kept recalls (fun g _ _ => attached g) ?_
  rw [way_congr (route ref),funext attached]
  exact trail.order

theorem Trail.linked (trail : w.Trail v ref outbound visits) (counts : v.Counts)
    (sparing : w.Sparing v) {h : Handle} {left right : List Handle}
    (before : v.mark h.owner h.entry = (h.generation,false))
    (mark : v.Marks v' h h.generation true)
    (elsewhere : ∀ ref, ref ≠ h.owner → v'.route ref = v.route ref)
    (route : v.route h.owner = left ++ right) (route' : v'.route h.owner = left ++ h :: right)
    (recalls : v.store.journal <:+ v'.store.journal) : w.Trail v' ref outbound visits := by
  have attached : ∀ g ∈ visits, v'.store.isAttached g = v.store.isAttached g := by
    intro g member
    rw [mark.attached]
    split
    next same =>
      rw [attached_of_mark before same,Bool.true_and,Bool.false_and,beq_eq_false_iff_ne]
      intro equal
      have itself : g = h := ext_handle same.1 same.2 equal.symm
      exact trail.unvisited counts sparing before (itself ▸ member)
    next => rfl
  refine trail.kept recalls (fun g member _ => attached g member) ?_
  rw [List.filter_congr attached]
  refine trail.order.trans ?_
  by_cases owned : ref = h.owner
  · subst owned
    have grown : (v.route h.owner).Sublist (v'.route h.owner) := by
      rw [route,route']
      exact (List.Sublist.refl left).append (List.sublist_cons_self h right)
    unfold way Chain.way
    split
    · exact List.reverse_sublist.mpr grown
    · exact grown
  · rw [way_congr (elsewhere ref owned)]

/-- The way without a handle that leaves it. -/
theorem way_unlinked {h : Handle} {left right : List Handle}
    (route : v.route h.owner = left ++ h :: right) (route' : v'.route h.owner = left ++ right)
    (distinct : (v.route h.owner).Nodup) :
    v'.way h.owner outbound = (v.way h.owner outbound).filter (· != h) := by
  have apart : h ∉ left ++ right := by
    rw [route] at distinct
    exact (List.nodup_cons.mp (List.perm_middle.nodup_iff.mp distinct)).1
  have shrunk : v'.route h.owner = (v.route h.owner).filter (· != h) := by
    have kept : (left ++ right).filter (· != h) = left ++ right :=
      List.filter_eq_self.mpr fun g member => bne_iff_ne.mpr fun same => apart (same ▸ member)
    rw [route,route',List.filter_append,List.filter_cons_of_neg (by simp),← List.filter_append,kept]
  unfold way Chain.way
  split
  · exact (congrArg List.reverse shrunk).trans List.filter_reverse.symm
  · exact shrunk

theorem Trail.unlinked (trail : w.Trail v ref outbound visits) {h : Handle} {left right : List Handle}
    (before : v.mark h.owner h.entry = (h.generation,true))
    (mark : v.Marks v' h (h.generation+1) false)
    (elsewhere : ∀ ref, ref ≠ h.owner → v'.route ref = v.route ref)
    (route : v.route h.owner = left ++ h :: right) (route' : v'.route h.owner = left ++ right)
    (distinct : (v.route h.owner).Nodup)
    (journal : v'.store.journal = .unlinked h :: v.store.journal) :
    w.Trail v' ref outbound visits := by
  have recalls : v.store.journal <:+ v'.store.journal := ⟨[.unlinked h],journal.symm⟩
  have attached (g : Handle) : v'.store.isAttached g = (g != h && v.store.isAttached g) := by
    rw [mark.attached]
    split
    next same =>
      rw [attached_of_mark before same]
      by_cases itself : g = h
      · simp [itself]
      · have apart : h.generation ≠ g.generation := fun equal =>
          itself (ext_handle same.1 same.2 equal.symm)
        simp [apart]
    next other =>
      have apart : g ≠ h := by
        rintro rfl
        exact other ⟨rfl,rfl⟩
      rw [bne_iff_ne.mpr apart,Bool.true_and]
  refine trail.kept recalls (fun g _ still => ?_) ?_
  · rw [releases_freed journal fun _ _ => rfl] at still
    have apart : g ≠ h := by
      rintro rfl
      rw [if_pos ⟨rfl,rfl⟩] at still
      omega
    rw [attached,bne_iff_ne.mpr apart,Bool.true_and]
  · rw [funext attached,← List.filter_filter]
    by_cases owned : ref = h.owner
    · subst owned
      rw [way_unlinked route route' distinct]
      exact trail.order.filter _
    · rw [way_congr (elsewhere ref owned)]
      exact List.filter_sublist.trans trail.order

theorem Trail.idle (trail : w.Trail v ref outbound visits) (route : ∀ ref, v'.route ref = v.route ref)
    (mark : ∀ ref id, v'.mark ref id = v.mark ref id) (recalls : v.store.journal <:+ v'.store.journal) :
    w.Trail v' ref outbound visits := by
  have attached (g : Handle) : v'.store.isAttached g = v.store.isAttached g := attached_congr (mark _ _)
  refine trail.kept recalls (fun g _ _ => attached g) ?_
  rw [way_congr (route ref),funext attached]
  exact trail.order

/-- What stands before an element that is there once. -/
theorem sublist_before {h : Handle} {left right before : List Handle} (once : h ∉ right)
    (within : (before ++ [h]).Sublist (left ++ h :: right)) : before.Sublist left := by
  obtain ⟨front,back,split,early,late⟩ := List.append_sublist_iff.mp within
  have member : h ∈ back := List.singleton_sublist.mp late
  obtain ⟨rest,rfl,rest'⟩ | ⟨rest,rfl,rest'⟩ := List.append_eq_append_iff.mp split
  · cases rest with
    | nil => simpa using early
    | cons x rest =>
      obtain ⟨_,rfl⟩ := List.cons.inj rest'
      exact absurd (List.mem_append_right rest member) once
  · exact early.trans (List.sublist_append_left front rest)

theorem way_known {ids flight : List EntryId} (holds : (v.store.chain ref).Holds ids flight) {h : Handle}
    (member : h ∈ v.way ref outbound) : v.store.isAttached h = true ∧ h.owner = ref ∧
      h.entry ≠ Chain.head ∧ h.entry ≠ Chain.tail := by
  have listed := Chain.mem_way.mp member
  obtain ⟨owned,notHead,notTail⟩ := holds.route_entry listed
  refine ⟨?_,owned,notHead,notTail⟩
  rw [Store.isAttached,owned]
  exact (holds.mem_route owned notHead notTail).mp listed

theorem entrance_attached {ids flight : List EntryId} (holds : (v.store.chain ref).Holds ids flight)
    (outbound : Bool) : v.store.isAttached ⟨ref,Chain.entrance outbound,0⟩ = true := by
  rw [← holds.handle_entrance ref outbound]
  exact holds.isCurrent ref (by cases outbound <;> simp [Chain.entrance])

/-- An event that goes on from the entry it was given to last goes behind all that it has been to. -/
theorem Trail.pass (trail : w.Trail v ref outbound visits) (counts : v.Counts)
    (grown : w.store.journal <:+ v.store.journal) {ids flight : List EntryId}
    (holds : (v.store.chain ref).Holds ids flight) {sources left right : List Handle}
    {source target : Handle}
    (last : ⟨ref,Chain.entrance outbound,0⟩ :: visits = sources ++ [source])
    (next : ⟨ref,Chain.entrance outbound,0⟩ :: v.way ref outbound = left ++ source :: target :: right) :
    w.Trail v ref outbound (visits ++ [target]) := by
  have distinct := holds.way_nodup ref outbound
  have starts := entrance_attached holds outbound
  have inside : target ∈ v.way ref outbound := by
    cases left with
    | nil =>
      rw [(List.cons.inj next).2]
      exact List.mem_cons_self
    | cons first left =>
      rw [(List.cons.inj next).2]
      simp
  obtain ⟨attached,place⟩ := way_known holds inside
  have passes : v.store.isAttached source = true := by
    have member : source ∈ ⟨ref,Chain.entrance outbound,0⟩ :: v.way ref outbound := by simp [next]
    rcases List.mem_cons.mp member with rfl | member
    · exact starts
    · exact (way_known holds member).1
  change (⟨ref,Chain.entrance outbound,0⟩ :: v.way ref outbound).Nodup at distinct
  rw [next] at distinct
  have visited : ⟨ref,Chain.entrance outbound,0⟩ :: visits.filter v.store.isAttached =
      sources.filter v.store.isAttached ++ [source] := by
    have both := congrArg (List.filter v.store.isAttached) last
    rwa [List.filter_cons_of_pos starts,List.filter_append,List.filter_cons_of_pos passes,
      List.filter_nil] at both
  -- Nothing that the event has been to stands behind the entry that it is with.
  have before : (sources.filter v.store.isAttached).Sublist left := by
    refine sublist_before (List.nodup_cons.mp (List.nodup_append.mp distinct).2.1).1 ?_
    rw [← visited,← next]
    exact trail.order.cons_cons _
  have new : target ∉ visits := by
    intro member
    have again : target ∈ sources.filter v.store.isAttached ++ [source] := by
      rw [← visited]
      exact List.mem_cons_of_mem _ (List.mem_filter.mpr ⟨member,attached⟩)
    have earlier : target ∈ left ++ [source] := by
      rcases List.mem_append.mp again with early | same
      · exact List.mem_append_left _ (before.subset early)
      · exact List.mem_append_right _ same
    rw [List.append_cons] at distinct
    exact (List.nodup_append.mp distinct).2.2 target earlier target List.mem_cons_self rfl
  refine ⟨?_,?_,?_⟩
  · refine List.nodup_append.mpr ⟨trail.nodup,List.nodup_singleton target,?_⟩
    intro h member g only same
    exact new (List.mem_singleton.mp only ▸ same ▸ member)
  · refine (List.cons_sublist_cons (a := (⟨ref,Chain.entrance outbound,0⟩ : Handle))).mp ?_
    rw [List.filter_append,List.filter_cons_of_pos attached,List.filter_nil,← List.cons_append,visited,
      next,List.append_assoc]
    exact before.append (by simp)
  · intro h member
    rcases List.mem_append.mp member with early | only
    · exact trail.seen h early
    · rw [List.mem_singleton.mp only]
      refine ⟨place,_,releases_le_of_suffix grown _ _,Nat.le_refl _,?_,fun _ => attached⟩
      rw [← counts,isAttached_iff.mp attached]

theorem passing_passage {c : Chain} {h : Handle} {r : SessionRef} {event : Event} {p : Passage}
    (passes : (Effect.passing c h r event).passage? ref outbound = some p) :
    p.source = h ∧ h.owner = ref ∧ event.outbound = outbound := by
  unfold Effect.passing at passes
  dsimp only at passes
  split at passes
  all_goals
    simp only [Observation.passage?,Option.ite_none_right_eq_some,Option.some.injEq] at passes
    obtain ⟨⟨owned,way⟩,rfl⟩ := passes
    exact ⟨rfl,owned,way⟩

/-- An event has never been given to the end from which it leaves the chain. -/
theorem Trail.within (trail : w.Trail v ref outbound visits) {h : Handle}
    (member : h ∈ ⟨ref,Chain.entrance outbound,0⟩ :: visits) : h.entry ≠ Chain.exit outbound := by
  rcases List.mem_cons.mp member with rfl | member
  · exact Chain.entrance_ne_exit outbound
  · obtain ⟨⟨_,notHead,notTail⟩,_⟩ := trail.seen h member
    cases outbound
    · exact notTail
    · exact notHead

/-- One more passage of an event that has been on its way. -/
theorem Trail.onward {path : List Passage} {p : Passage} {ids flight : List EntryId} {h : Handle}
    {r : SessionRef} {event : Event} (trail : w.Trail v ref outbound (path.filterMap Passage.target))
    (counts : v.Counts) (grown : w.store.journal <:+ v.store.journal)
    (holds : (v.store.chain ref).Holds ids flight)
    (current : (v.store.chain h.owner).isCurrent h = true)
    (passes : (Effect.passing (v.store.chain h.owner) h r event).passage? ref outbound = some p)
    (fair : Passage.Fair ⟨ref,Chain.entrance outbound,0⟩ (path ++ [p])) :
    w.Trail v ref outbound ((path ++ [p]).filterMap Passage.target) := by
  obtain ⟨rfl,rfl,rfl⟩ := passing_passage passes
  have inside := trail.within (fair.last ▸ List.mem_append_right _ (List.mem_singleton_self _))
  obtain ⟨left,right,next,ahead⟩ := holds.passing_eq current inside r
  have target : p.target = right.head? := congrArg Passage.target (Option.some.inj (passes.symm.trans ahead))
  rw [List.filterMap_append]
  cases right with
  | nil => simpa [target] using trail
  | cons t right =>
    have gone : [p].filterMap Passage.target = [t] := by simp [target]
    rw [gone]
    exact trail.pass counts grown holds fair.last next

/-- What changes between two edits is what history tells, and that tells of one passage at most. -/
theorem Change.trail (change : v.Change v') (counts : v.Counts) {flight : SessionRef → List EntryId}
    (inOrder : v.InOrder flight) (sparing : w.Sparing v) (grown : w.store.journal <:+ v.store.journal)
    (trails : ∀ path, path.Sublist (w.passages v ref outbound) →
      Passage.Fair ⟨ref,Chain.entrance outbound,0⟩ path →
      w.Trail v ref outbound (path.filterMap Passage.target)) {path : List Passage}
    (part : path.Sublist (w.passages v' ref outbound))
    (fair : Passage.Fair ⟨ref,Chain.entrance outbound,0⟩ path) :
    w.Trail v' ref outbound (path.filterMap Passage.target) := by
  have unheard {o : Observation} (journal : v'.store.journal = o :: v.store.journal)
      (silent : o.passage? ref outbound = none) :
      w.Trail v ref outbound (path.filterMap Passage.target) := by
    have told : v'.store.journal = [o] ++ v.store.journal := journal
    rw [passages_news grown told] at part
    simp only [List.reverse_singleton,List.filterMap_cons,silent,List.filterMap_nil,List.append_nil] at part
    exact trails path part fair
  cases change with
  | @idle route mark news journal told =>
    refine Trail.idle ?_ route mark ⟨news,journal.symm⟩
    rcases told with still | ⟨h,r,event,current,rfl⟩
    · have none : news.reverse.filterMap (·.passage? ref outbound) = [] :=
        List.filterMap_eq_nil_iff.mpr fun o member => still_passage (still o (List.mem_reverse.mp member))
      rw [passages_news grown journal,none,List.append_nil] at part
      exact trails path part fair
    · cases passes : (Effect.passing (v.store.chain h.owner) h r event).passage? ref outbound with
      | none => exact unheard journal passes
      | some p =>
        rw [passages_news grown journal] at part
        simp only [List.reverse_singleton,List.filterMap_cons,passes,List.filterMap_nil] at part
        obtain ⟨front,back,rfl,early,late⟩ := List.sublist_append_iff.mp part
        rcases List.sublist_singleton.mp late with rfl | rfl
        · rw [List.append_nil] at fair ⊢
          exact trails front early fair
        · obtain ⟨ids,holds⟩ := inOrder ref
          exact (trails front early fair.concat.1).onward counts grown holds current passes fair
  | discarded h route before mark journal =>
    exact (unheard journal rfl).freed before mark route ⟨[_],journal.symm⟩
  | linked h elsewhere route route' before mark journal =>
    exact (unheard journal rfl).linked counts sparing before mark elsewhere route route' ⟨[_],journal.symm⟩
  | unlinked h elsewhere route route' before mark journal =>
    obtain ⟨ids,holds⟩ := inOrder h.owner
    exact (unheard journal rfl).unlinked before mark elsewhere route route' (holds.route_nodup _) journal

theorem Course.trail {s s' : Stage σ} (course : Course terms s s') (inOrder : s.2.InOrder s.1)
    (counts : s.2.Counts) (sparing : s.2.Sparing s'.2) {path : List Passage}
    (part : path.Sublist (s.2.passages s'.2 ref outbound))
    (fair : Passage.Fair ⟨ref,Chain.entrance outbound,0⟩ path) :
    s.2.Trail s'.2 ref outbound (path.filterMap Passage.target) := by
  induction course generalizing path with
  | refl =>
    rw [passages_self] at part
    rw [List.sublist_nil.mp part]
    exact ⟨.nil,by simp,by simp⟩
  | tail before moves ih =>
    have inOrder' := Course.inOrder before inOrder
    have spare := sparing.within (fun _ _ => Nat.le_refl _) (releases_le_of_suffix moves.recalls)
    exact (moves.change inOrder').trail (Course.counts before inOrder counts) inOrder' spare
      (Course.recalls before) (fun path => ih spare) part fair

/-- Wherever an event has just gone on, it has gone to the next on the way, or past the last. -/
theorem Course.neighbour {own : σ} {s : Stage σ}
    (course : Course terms ((fun _ => []),{ own := own }) s) {o : Observation} {p : Passage}
    (latest : s.2.store.journal.head? = some o) (passes : o.passage? ref outbound = some p)
    (inside : p.source.entry ≠ Chain.exit outbound) :
    ∃ left right, ⟨ref,Chain.entrance outbound,0⟩ :: s.2.way ref outbound = left ++ p.source :: right ∧
      p.target = right.head? := by
  induction course with
  | refl => cases latest
  | @tail s s' before moves ih =>
    have inOrder := Course.inOrder before (fresh_inOrder own)
    cases moves.change inOrder with
    | @idle route mark news journal told =>
      rw [way_congr (route ref)]
      rw [journal] at latest
      rcases told with still | ⟨h,r,event,current,rfl⟩
      · cases news with
        | nil => exact ih latest
        | cons x news =>
          obtain rfl : x = o := Option.some.inj latest
          rw [still_passage (still _ List.mem_cons_self)] at passes
          cases passes
      · obtain rfl := Option.some.inj latest
        obtain ⟨rfl,rfl,rfl⟩ := passing_passage passes
        obtain ⟨ids,holds⟩ := inOrder p.source.owner
        obtain ⟨left,right,next,ahead⟩ := holds.passing_eq current inside r
        exact ⟨left,right,next,congrArg Passage.target (Option.some.inj (passes.symm.trans ahead))⟩
    | discarded h route before mark journal | linked h elsewhere route route' before mark journal
    | unlinked h elsewhere route route' before mark journal =>
      rw [journal] at latest
      obtain rfl := Option.some.inj latest
      cases passes

end World

namespace Effect

open World

variable {σ : Type}

/-- How an event has travelled through a chain, as far as `v` is concerned. -/
structure Journey (v : World σ) (ref : SessionRef) (outbound : Bool) (path : List Passage) : Prop where
  once : (path.filterMap (·.target)).Nodup
  neighbour : ∀ o p, v.store.journal.head? = some o → o.passage? ref outbound = some p → p ∈ path →
    ∃ left right, ⟨ref,Chain.entrance outbound,0⟩ ::
        (if outbound then (v.store.chain ref).getAllReversed ref
          else (v.store.chain ref).getAll ref).map (·.handle) = left ++ p.source :: right ∧
      p.target = right.head?
  order : ((path.filterMap (·.target)).filter v.store.isAttached).Sublist
    ((if outbound then (v.store.chain ref).getAllReversed ref
      else (v.store.chain ref).getAll ref).map (·.handle))
  arrivals : path.countP (·.target.isNone) ≤ 1
  complete : (∃ p ∈ path, p.target = none) →
    path.map (·.source) = ⟨ref,Chain.entrance outbound,0⟩ :: path.filterMap (·.target)

/-- Wherever the run of an event that is fired ends or is stopped, whatever has become of the chain
on the way: of all that has passed through the chain since, let `path` be what belongs to the event,
no handle having passed it on more often than it was given it, and the entrance once. Then no handle
has been given it twice; whenever it has just gone on, it has gone to the next entry at that moment;
those it has been given to that are still there stand in the order in which they were; and it has
arrived once at most, and not unless every handle that was given it has passed it on. -/
theorem fire_visits {w v : World σ} (occurs : w.Occurs) {stops : Watch σ} {fuel : Nat}
    {ref : SessionRef} {event : Event} (ran : (fire (performUntil stops fuel) ref event).leaves w = v)
    (sparing : w.Sparing v) {path : List Passage}
    (part : path.Sublist (w.passages v ref event.outbound))
    (fair : Passage.Fair ⟨ref,Chain.entrance event.outbound,0⟩ path) :
    Journey v ref event.outbound path := by
  obtain ⟨own,flight,before⟩ := occurs.course
  have inOrder := before.inOrder (fresh_inOrder own)
  have counts := before.counts (fresh_inOrder own) (fresh_counts own)
  have performs : Performs (evolution .free) (performUntil stops fuel) :=
    performUntil_keeps stops.abides_free (fun _ => evolution_edits) fuel
  have midway : w.Midway .free v := by
    rw [← ran]
    exact ends_leaves (ends_mono (fire_keeps performs fun _ _ within => within.elim)
      (fun _ _ evolves => .ended evolves) (fun _ _ evolves => .ended evolves) fun _ midway => midway)
  obtain ⟨flight',course⟩ := midway.course flight sparing inOrder
  have trail : w.Trail v ref event.outbound _ := course.trail inOrder counts sparing part fair
  obtain ⟨ids,holds⟩ := course.inOrder inOrder ref
  obtain ⟨rest,line,arrivals⟩ := fair.line
  have listed : (v.store.chain ref).way ref event.outbound = v.way ref event.outbound := rfl
  rw [← holds.way_entries ref event.outbound] at listed
  refine ⟨trail.nodup,fun o p latest passes member => ?_,?_,?_,?_⟩
  · rw [listed]
    refine Course.neighbour (before.trans course) latest passes (trail.within ?_)
    rw [line]
    exact List.mem_append_left _ (List.mem_map_of_mem member)
  · rw [listed]
    exact trail.order
  · rw [arrivals]
    split <;> simp
  · rintro ⟨p,member,arrived⟩
    have some' : 0 < path.countP (·.target.isNone) :=
      List.countP_pos_iff.mpr ⟨p,member,by simp [arrived]⟩
    rw [arrivals] at some'
    cases rest with
    | none => simpa using line.symm
    | some holder => simp at some'

/-- Removes what is ahead, adds something in its place, passes an event on and leaves. -/
def editor : Invocation → Script Unit
  | .event event ref handle =>
    .call (.remove ref "ahead") fun _ => .call (.add ref (.after "own") "new" (some 0)) fun _ =>
    .call (.forward handle ref event) fun _ => .call (.remove ref "own") fun _ => .done .unit
  | _ => .done .unit

def editing : Script Unit :=
  .call (.newHandler .adapter) fun _ => .call (.newProcessor (.loopback 0)) fun _ =>
  .call (.newSession (some 0) (some 0) 4 .unlimited) fun _ => .call (.newFilter .noop) fun _ =>
  .define editor fun code => .call (.newFilter (.custom "editor" code)) fun _ =>
  .call (.add 0 .last "own" (some 1)) fun _ => .call (.add 0 .last "ahead" (some 0)) fun _ =>
  .call (.add 0 .last "last" (some 0)) fun _ => .done .unit

def edited : World Unit := editing.until .never 8 { own := () }

def visited : World Unit := (fire (performUntil .never 8) 0 (.messageReceived (.bytes []))).leaves edited

/-- The new entry, in the slot of the one removed, comes before the last one. -/
theorem fire_visits_edited : Journey visited 0 false (edited.passages visited 0 false) ∧
    (edited.passages visited 0 false).map (·.target) =
      [some ⟨0,2,0⟩,some ⟨0,3,1⟩,some ⟨0,4,0⟩,none] ∧
    visited.store.isAttached ⟨0,2,0⟩ = false := by
  have few : edited.store.journal.length < 2^32 := by decide +kernel
  have short : visited.store.journal.length < 2^32 := by decide +kernel
  have occurs : edited.Occurs := by
    unfold edited at few ⊢
    exact .during (.fresh ()) .never 8 editing fun _ _ =>
      Nat.lt_add_left _ (Nat.lt_of_le_of_lt List.countP_le_length few)
  have sparing : edited.Sparing visited := fun _ _ =>
    Nat.lt_add_left _ (Nat.lt_of_le_of_lt List.countP_le_length short)
  have fair : Passage.Fair ⟨0,Chain.entrance false,0⟩ (edited.passages visited 0 false) := by
    decide +kernel
  have ran : (fire (performUntil .never 8) 0 (.messageReceived (.bytes []))).leaves edited = visited := rfl
  exact ⟨fire_visits occurs ran sparing (List.Sublist.refl _) fair,by decide +kernel,by decide +kernel⟩

end Effect
end SessionPipeline
