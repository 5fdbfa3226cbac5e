import SessionPipeline.Proofs.Chain.Clearing
import SessionPipeline.Proofs.Chain.Template

/-! Adding what a template lists to a chain. Entries join at the end, each between its filter's two
hooks, until the template is through or one of them cannot be added; that one leaves no trace in the
chain. -/
namespace SessionPipeline

namespace Chain

variable {c c' : Chain} {ids flight : List EntryId} {ref : SessionRef} {name : String}
  {filter : FilterId} {id : EntryId}

def newcomer (c : Chain) (ref : SessionRef) (name : String) (filter : FilterId) : Entry :=
  ⟨name,some filter,c.reserved ref name filter⟩

theorem checkAddition_last (free : c.contains name = false) : c.checkAddition name .last = .ok () := by
  rw [checkAddition,free]
  rfl

theorem contains_allocate (c : Chain) (n name : String) (filter : FilterId) :
    (c.allocate n filter).2.contains name = c.contains name := by
  unfold allocate
  split <;> rfl

/-- A slot that was taken and is free again makes no difference. -/
theorem Holds.allocate_release_same (holds : c.Holds ids flight) (ref : SessionRef) (name : String)
    (filter : FilterId) :
    ((c.allocate name filter).2.release (c.allocate name filter).1).Holds ids flight ∧
      ((c.allocate name filter).2.release (c.allocate name filter).1).getAll ref = c.getAll ref := by
  have worn := holds.allocate_release name filter
  refine ⟨worn.holds holds,?_⟩
  have same := (worn.tells_same holds (fun x linked => if_neg ?_) ref).getAll
  · rw [same]
    exact List.map_id _
  · rintro rfl
    rw [holds.unlinked (holds.allocate_slot name filter).1] at linked
    cases linked

theorem Holds.allocate_getAll (holds : c.Holds ids flight) (ref : SessionRef) (name : String)
    (filter : FilterId) : (c.allocate name filter).2.getAll ref = c.getAll ref := by
  have outside := (holds.allocate_slot name filter).1
  rw [(holds.allocate name filter).getAll_eq ref,holds.getAll_eq ref]
  refine List.map_congr_left fun x member => ?_
  have other : x ≠ (c.allocate name filter).1 := by
    rintro rfl
    simp [member] at outside
  rw [entry,entry,handle,handle,allocate_slot_of_ne c other]

theorem Holds.insert_last (holds : c.Holds ids (id :: flight)) (free : c.contains name = false)
    (named : (c.slot id).name = name) (filled : (c.slot id).filter.isSome) (ref : SessionRef) :
    (c.insert id name .last).Holds (ids ++ [id]) flight ∧
      (c.insert id name .last).getAll ref = c.getAll ref ++ [c.entry ref id] := by
  have admissible := checkAddition_last free
  obtain ⟨before,after,rfl,rfl,holds'⟩ := holds.insert admissible named filled
  rw [List.append_nil]
  refine ⟨holds',?_⟩
  have kept : (c.insert id name .last).entry ref = c.entry ref := funext fun x => by
    rw [entry,entry,handle,handle,holds.insert_slot admissible x]
  rw [holds'.getAll_eq ref,holds.getAll_eq ref,kept]
  simp

end Chain

namespace World

variable {σ : Type}

/-- The world once an entry is linked at the end of a chain, which is logged. -/
def joined (w : World σ) (ref : SessionRef) (e : Entry) : World σ :=
  let linked := w.linkEntry ref e.handle e.name .last
  linked.logged Effect.chainLogger .debug (Bytes.ofString
    ("session " ++ toString (linked.store.session ref).id ++ ": " ++
      ("added " ++ e.name ++ " (" ++ (e.filter.map linked.store.label).getD "null" ++ ")")))

/-- The world once an entry that was linked has left again, which is logged. -/
def takenBack (w : World σ) (ref : SessionRef) (e : Entry) : World σ :=
  let left := w.dropEntry ref e.handle e.name
  left.logged Effect.chainLogger .debug (Bytes.ofString
    ("session " ++ toString (left.store.session ref).id ++ ": " ++
      ("rolled back " ++ e.name ++ " after onPostAdd failed")))

end World

namespace Effect

open World

variable {σ : Type}

/-- The entry that is to be added next. -/
def incoming (w : World σ) (ref : SessionRef) (e : String × FilterId) : Entry :=
  (w.store.chain ref).newcomer ref e.1 e.2

/-- As these filters are added one after the other, each hook that is run ends, returning or throwing, and
leaves the chain as it is. -/
def Mild (ref : SessionRef) : List (String × FilterId) → World σ → Prop
  | [], _ => True
  | e :: rest, w => (w.store.chain ref).contains e.1 = false →
      Passes ref (consulting .preAdd (incoming w ref e)) (w.reserve ref e.1 e.2) fun w₁ =>
        Passes ref (consulting .postAdd (incoming w ref e)) (w₁.joined ref (incoming w ref e)) fun w₂ =>
          Mild ref rest w₂

/-- How filters are added one after the other: the new entries, what has not been added, and how it
ends. -/
inductive Builds (ref : SessionRef) :
    List Entry → List (String × FilterId) → World σ → Except Failure Unit → World σ → Prop
  | done (w : World σ) : Builds ref [] [] w (.ok ()) w
  | taken {e : String × FilterId} {w : World σ} (rest : List (String × FilterId))
      (taken : (w.store.chain ref).contains e.1 = true) :
      Builds ref [] (e :: rest) w (.error (.duplicateName e.1)) w
  | vetoed {e : String × FilterId} {w w₁ : World σ} {failure : Failure} (rest : List (String × FilterId))
      (free : (w.store.chain ref).contains e.1 = false)
      (asked : ComesTo (consulting .preAdd (incoming w ref e)) (w.reserve ref e.1 e.2)
        (.error failure) w₁) :
      Builds ref [] (e :: rest) w (.error (failure.vetoes e.1))
        (w₁.discardEntry ref (incoming w ref e).handle)
  | rolledBack {e : String × FilterId} {w w₁ w₂ : World σ} {failure : Failure}
      (rest : List (String × FilterId)) (free : (w.store.chain ref).contains e.1 = false)
      (asked : ComesTo (consulting .preAdd (incoming w ref e)) (w.reserve ref e.1 e.2) (.ok ()) w₁)
      (told : ComesTo (consulting .postAdd (incoming w ref e)) (w₁.joined ref (incoming w ref e))
        (.error failure) w₂) :
      Builds ref [] (e :: rest) w (.error failure) (w₂.takenBack ref (incoming w ref e))
  | onward {e : String × FilterId} {w w₁ w₂ w' : World σ} {added : List Entry}
      {left : List (String × FilterId)} {result : Except Failure Unit}
      (free : (w.store.chain ref).contains e.1 = false)
      (asked : ComesTo (consulting .preAdd (incoming w ref e)) (w.reserve ref e.1 e.2) (.ok ()) w₁)
      (told : ComesTo (consulting .postAdd (incoming w ref e)) (w₁.joined ref (incoming w ref e))
        (.ok ()) w₂)
      (further : Builds ref added left w₂ result w') :
      Builds ref (incoming w ref e :: added) left w result w'

section Single

variable {perform : Perform σ} {ref : SessionRef} {w w₁ w₂ : World σ} {name : String}
  {filter : FilterId} {failure : Failure}

theorem add_taken (taken : (w.store.chain ref).contains name = true) :
    add perform ref .last name (some filter) w = .error (.failed (.duplicateName name)) w := by
  rw [add,bind_of_ok (needFilter_apply name filter w)]
  exact failed_of_bind (admitEntry_refused perform (by rw [Chain.checkAddition,if_pos taken]))

variable (free : (w.store.chain ref).contains name = false)
include free

theorem add_vetoed (asked : consult perform .preAdd ((w.store.chain ref).newcomer ref name filter)
      (w.reserve ref name filter) = .error (.failed failure) w₁) :
    add perform ref .last name (some filter) w = .error (.failed (failure.vetoes name))
      (w₁.discardEntry ref ((w.store.chain ref).reserved ref name filter)) := by
  rw [add,bind_of_ok (needFilter_apply name filter w)]
  refine failed_of_bind ?_
  rw [admitEntry_asks perform filter (Chain.checkAddition_last free)]
  exact attempt_bind_failed asked _

theorem add_joins (asked : consult perform .preAdd ((w.store.chain ref).newcomer ref name filter)
      (w.reserve ref name filter) = .ok () w₁)
    (still : (w₁.store.chain ref).contains name = false) :
    add perform ref .last name (some filter) w =
      confirmEntry perform ref name filter ((w.store.chain ref).reserved ref name filter)
        (w₁.joined ref ((w.store.chain ref).newcomer ref name filter)) := by
  have admitted : admitEntry perform ref .last name filter w =
      .ok ((w.store.chain ref).reserved ref name filter)
        (w₁.linkEntry ref ((w.store.chain ref).reserved ref name filter) name .last) := by
    have asked : runHook perform filter .preAdd name ((w.store.chain ref).reserved ref name filter)
      (w.reserve ref name filter) = .ok () w₁ := asked
    rw [admitEntry_asks perform filter (Chain.checkAddition_last free),attempt_bind_ok asked]
    dsimp only
    rw [bind_of_ok (chain_apply ref w₁),Chain.checkAddition_last still]
    rfl
  rw [add,bind_of_ok (needFilter_apply name filter w),bind_of_ok admitted]
  rfl

omit free in
theorem confirmEntry_stays {e : Entry} (held : e.filter = some filter)
    (told : consult perform .postAdd e w = .ok () w₁) :
    confirmEntry perform ref e.name filter e.handle w = .ok () w₁ := by
  unfold consult at told
  rw [held] at told
  exact attempt_bind_ok told _

omit free in
theorem confirmEntry_leaves {e : Entry} (held : e.filter = some filter)
    (told : consult perform .postAdd e w = .error (.failed failure) w₁)
    (current : (w₁.store.chain ref).isCurrent e.handle = true) :
    confirmEntry perform ref e.name filter e.handle w = .error (.failed failure) (w₁.takenBack ref e) := by
  unfold consult at told
  rw [held] at told
  refine (attempt_bind_failed told _).trans ?_
  dsimp only
  rw [bind_of_ok (chain_apply ref w₁),if_pos current]
  rfl

end Single

section Chains

variable {ref : SessionRef} {w w₁ w₂ : World σ} {ids flight : List EntryId} {e : String × FilterId}

theorem present_of_flight {x : EntryId} (holds : (w.store.chain ref).Holds ids (x :: flight)) :
    ref < w.store.sessions.size := by
  refine Decidable.byContradiction fun absent => ?_
  rw [chain_absent absent] at holds
  have inside : x < 2 := holds.flight_inside List.mem_cons_self
  have apart := holds.flight_apart (List.mem_cons_self (a := x))
  simp only [List.mem_cons,List.mem_append,List.not_mem_nil,not_or] at apart
  have outer : x = Chain.head ∨ x = Chain.tail := Nat.le_one_iff_eq_zero_or_eq_one.mp (Nat.le_of_lt_succ inside)
  exact outer.elim apart.1 apart.2.2.1

variable (holds : (w.store.chain ref).Holds ids flight) (present : ref < w.store.sessions.size)
include holds present

theorem asked_chain (same : w₁.store.chain ref = (w.reserve ref e.1 e.2).store.chain ref) :
    w₁.store.chain ref = ((w.store.chain ref).allocate e.1 e.2).2 ∧ ref < w₁.store.sessions.size := by
  have reserved := same.trans (chain_mapChain present fun _ => ((w.store.chain ref).allocate e.1 e.2).2)
  have taken := holds.allocate e.1 e.2
  rw [← reserved] at taken
  exact ⟨reserved,present_of_flight taken⟩

theorem joined_chain (same : w₁.store.chain ref = (w.reserve ref e.1 e.2).store.chain ref)
    (free : (w.store.chain ref).contains e.1 = false) :
    (w₁.joined ref (incoming w ref e)).store.chain ref = ((w.store.chain ref).allocate e.1 e.2).2.insert
        ((w.store.chain ref).allocate e.1 e.2).1 e.1 .last ∧
      ((w₁.joined ref (incoming w ref e)).store.chain ref).Holds
        (ids ++ [((w.store.chain ref).allocate e.1 e.2).1]) flight ∧
      ((w₁.joined ref (incoming w ref e)).store.chain ref).getAll ref =
        (w.store.chain ref).getAll ref ++ [incoming w ref e] := by
  obtain ⟨there,present⟩ := asked_chain holds present same
  have linked : (w₁.joined ref (incoming w ref e)).store.chain ref = (w₁.store.chain ref).insert
      ((w.store.chain ref).allocate e.1 e.2).1 e.1 .last :=
    chain_mapChain present (·.insert ((w.store.chain ref).allocate e.1 e.2).1 e.1 .last)
  have slot := (holds.allocate_slot e.1 e.2).2.2
  have free' : ((w.store.chain ref).allocate e.1 e.2).2.contains e.1 = false := by
    rwa [Chain.contains_allocate]
  have new : ((w.store.chain ref).allocate e.1 e.2).2.entry ref ((w.store.chain ref).allocate e.1 e.2).1 =
      incoming w ref e := by
    rw [Chain.entry,congrArg Slot.name slot,congrArg Slot.filter slot]
    rfl
  obtain ⟨holds',listed⟩ := (holds.allocate e.1 e.2).insert_last free' (congrArg Slot.name slot)
    (congrArg (·.filter.isSome) slot) ref
  rw [there] at linked
  rw [linked]
  refine ⟨rfl,holds',?_⟩
  rw [listed,holds.allocate_getAll,new]

theorem discarded_chain (same : w₁.store.chain ref = (w.reserve ref e.1 e.2).store.chain ref) :
    ((w₁.discardEntry ref (incoming w ref e).handle).store.chain ref).Holds ids flight ∧
      ((w₁.discardEntry ref (incoming w ref e).handle).store.chain ref).getAll ref =
        (w.store.chain ref).getAll ref := by
  obtain ⟨there,present⟩ := asked_chain holds present same
  have freed : (w₁.discardEntry ref (incoming w ref e).handle).store.chain ref =
      (w₁.store.chain ref).release ((w.store.chain ref).allocate e.1 e.2).1 :=
    chain_mapChain present (·.release ((w.store.chain ref).allocate e.1 e.2).1)
  rw [freed,there]
  exact holds.allocate_release_same ref e.1 e.2

/-- An entry that has been linked and leaves again is as if it had been refused at once. -/
theorem takenBack_chain (same : w₁.store.chain ref = (w.reserve ref e.1 e.2).store.chain ref)
    (free : (w.store.chain ref).contains e.1 = false)
    (still : w₂.store.chain ref = (w₁.joined ref (incoming w ref e)).store.chain ref) :
    (w₂.store.chain ref).isCurrent (incoming w ref e).handle = true ∧
      ((w₂.takenBack ref (incoming w ref e)).store.chain ref).Holds ids flight ∧
      ((w₂.takenBack ref (incoming w ref e)).store.chain ref).getAll ref =
        (w.store.chain ref).getAll ref := by
  obtain ⟨linked,holds',_⟩ := joined_chain holds present same free
  rw [← still] at linked holds'
  have member : ((w.store.chain ref).allocate e.1 e.2).1 ∈ ids ++ [((w.store.chain ref).allocate e.1 e.2).1] := by
    simp
  have dropped : (w₂.takenBack ref (incoming w ref e)).store.chain ref =
      (w₂.store.chain ref).drop ((w.store.chain ref).allocate e.1 e.2).1 e.1 :=
    chain_mapChain (picked_present (.named (holds'.find?_entry member)))
      (·.drop ((w.store.chain ref).allocate e.1 e.2).1 e.1)
  have admissible := Chain.checkAddition_last free
  rw [dropped,linked,linked_drop holds admissible]
  exact ⟨linked_isCurrent holds admissible,holds.allocate_release_same ref e.1 e.2⟩

end Chains

section Course

variable {ref : SessionRef} {w w₁ w₂ w' : World σ} {added : List Entry} {e : String × FilterId}
  {left rest : List (String × FilterId)} {result : Except Failure Unit} {ids flight : List EntryId}
  {failure : Failure}

theorem addAll_taken (taken : (w.store.chain ref).contains e.1 = true) :
    ComesTo (fun fuel => addAll (performWith fuel) ref (e :: rest)) w (.error (.duplicateName e.1)) w :=
  .bind_failed (comesTo_of_failed fun _ => add_taken taken)

theorem addAll_vetoed (free : (w.store.chain ref).contains e.1 = false)
    (asked : ComesTo (consulting .preAdd (incoming w ref e)) (w.reserve ref e.1 e.2) (.error failure) w₁) :
    ComesTo (fun fuel => addAll (performWith fuel) ref (e :: rest)) w (.error (failure.vetoes e.1))
      (w₁.discardEntry ref (incoming w ref e).handle) :=
  asked.onward (fun _ failed => failed_of_bind (add_vetoed free (failed_of_attempt failed)))
    (comesTo_of_failed fun _ => rfl)

theorem addAll_joins (free : (w.store.chain ref).contains e.1 = false)
    (asked : ComesTo (consulting .preAdd (incoming w ref e)) (w.reserve ref e.1 e.2) (.ok ()) w₁)
    (still : (w₁.store.chain ref).contains e.1 = false)
    (later : ComesTo (fun fuel => do
      confirmEntry (performWith fuel) ref e.1 e.2 (incoming w ref e).handle
      addAll (performWith fuel) ref rest) (w₁.joined ref (incoming w ref e)) result w') :
    ComesTo (fun fuel => addAll (performWith fuel) ref (e :: rest)) w result w' := by
  refine asked.onward (fun fuel returned => ?_) later
  rw [addAll,bind_apply,add_joins free (ok_of_attempt returned) still,bind_apply]
  rfl

theorem confirmEntry_comesTo (told : ComesTo (consulting .postAdd (incoming w₁ ref e)) w (.ok ()) w₂) :
    ComesTo (fun fuel => confirmEntry (performWith fuel) ref e.1 e.2 (incoming w₁ ref e).handle) w
      (.ok ()) w₂ :=
  told.onward (fun _ returned => confirmEntry_stays rfl (ok_of_attempt returned)) (comesTo_of_ok fun _ => rfl)

theorem confirmEntry_takesBack
    (told : ComesTo (consulting .postAdd (incoming w₁ ref e)) w (.error failure) w₂)
    (current : (w₂.store.chain ref).isCurrent (incoming w₁ ref e).handle = true) :
    ComesTo (fun fuel => confirmEntry (performWith fuel) ref e.1 e.2 (incoming w₁ ref e).handle) w
      (.error failure) (w₂.takenBack ref (incoming w₁ ref e)) :=
  told.onward (fun _ failed => confirmEntry_leaves rfl (failed_of_attempt failed) current)
    (comesTo_of_failed fun _ => rfl)

theorem Builds.whole (builds : Builds ref added left w result w') : result = .ok () ↔ left = [] := by
  induction builds with
  | done => simp
  | taken => simp
  | vetoed => simp
  | rolledBack => simp
  | onward _ _ _ _ ih => exact ih

/-- A chain in order has at the end what it had before and what has been added, in this order. -/
theorem addAll_ends (entries : List (String × FilterId)) (w : World σ)
    (holds : (w.store.chain ref).Holds ids flight) (present : ref < w.store.sessions.size)
    (mild : Mild ref entries w) :
    ∃ added left result w' ids', Builds ref added left w result w' ∧
      entries.map Template.row = added.map (fun e => (e.name,e.filter)) ++ left.map Template.row ∧
      (w'.store.chain ref).getAll ref = (w.store.chain ref).getAll ref ++ added ∧
      (w'.store.chain ref).Holds ids' flight ∧
      ComesTo (fun fuel => addAll (performWith fuel) ref entries) w result w' := by
  induction entries generalizing w ids with
  | nil => exact ⟨[],[],_,w,ids,.done w,rfl,(List.append_nil _).symm,holds,comesTo_of_ok fun _ => rfl⟩
  | cons e rest ih =>
    cases free : (w.store.chain ref).contains e.1 with
    | true => exact ⟨[],_,_,w,ids,.taken rest free,rfl,(List.append_nil _).symm,holds,addAll_taken free⟩
    | false =>
      obtain ⟨answer,w₁,asked,same,goes⟩ := mild free
      cases answer with
      | error failure =>
        obtain ⟨holds',listed⟩ := discarded_chain holds present same
        exact ⟨[],_,_,_,ids,.vetoed rest free asked,rfl,listed.trans (List.append_nil _).symm,holds',
          addAll_vetoed free asked⟩
      | ok _ =>
        obtain ⟨reply,w₂,told,still,mild⟩ := goes rfl
        have unlinked : (w₁.store.chain ref).contains e.1 = false := by
          rw [(asked_chain holds present same).1,Chain.contains_allocate]
          exact free
        cases reply with
        | error failure =>
          obtain ⟨current,holds',listed⟩ := takenBack_chain holds present same free still
          exact ⟨[],_,_,_,ids,.rolledBack rest free asked told,rfl,listed.trans (List.append_nil _).symm,
            holds',addAll_joins free asked unlinked (.bind_failed (confirmEntry_takesBack told current))⟩
        | ok _ =>
          obtain ⟨_,holds',listed⟩ := joined_chain holds present same free
          rw [← still] at holds' listed
          have present' : ref < w₂.store.sessions.size :=
            picked_present (.named (holds'.find?_entry List.mem_concat_self))
          obtain ⟨added,left,result,w',ids',builds,parts,all,holds'',comes⟩ := ih w₂ holds' present' (mild rfl)
          refine ⟨_,left,result,w',ids',.onward free asked told builds,?_,?_,holds'',
            addAll_joins free asked unlinked (.bind (confirmEntry_comesTo told) comes)⟩
          · rw [List.map_cons,parts]
            rfl
          · rw [all,listed,List.append_assoc]
            rfl

/-- What has become of a chain to which a template has been added, as far as that went. -/
structure Assembled (ref : SessionRef) (t : Template) (w : World σ) (added : List Entry)
    (left : List (String × FilterId)) (result : Except Failure Unit) (w' : World σ) : Prop where
  course : Builds ref added left w result w'
  parts : t.entries.map Template.row =
    added.map (fun e => (e.name,e.filter)) ++ left.map Template.row
  listed : (w'.store.chain ref).getAll ref = (w.store.chain ref).getAll ref ++ added
  whole : result = .ok () ↔ left = []
  text : result = .ok () → (w.store.chain ref).isEmpty = true →
    w'.store.chainText ref = t.toString w'.store.label

/-- Whatever the template, the chain and the filters whose hooks may throw but leave the chain alone: what
can be added of the template, up to the first entry that cannot, stands behind what was there. -/
theorem addAll_assembles {t : Template} (occurs : w.Occurs) (present : ref < w.store.sessions.size)
    (mild : Mild ref t.entries w) :
    ∃ added left result w', Assembled ref t w added left result w' ∧
      ComesTo (fun fuel => addAll (performWith fuel) ref t.entries) w result w' := by
  obtain ⟨ids,flight,holds⟩ := occurs.holds ref
  obtain ⟨added,left,result,w',ids',builds,parts,listed,holds',comes⟩ :=
    addAll_ends t.entries w holds present mild
  refine ⟨added,left,result,w',⟨builds,parts,listed,builds.whole,?_⟩,comes⟩
  intro returned empty
  obtain rfl := builds.whole.mp returned
  have none : (w.store.chain ref).getAll ref = [] := by
    have unlisted := holds.index
    rw [List.isEmpty_iff.mp empty] at unlisted
    rw [holds.getAll_eq ref,List.map_eq_nil_iff.mp unlisted.nil_eq.symm]
    rfl
  have rows : ids'.map (fun id => ((w'.store.chain ref).slot id).row) = t.entries.map Template.row := by
    rw [none,holds'.getAll_eq ref] at listed
    rw [parts,← List.nil_append added,← listed,List.map_map,List.map_nil,List.append_nil]
    rfl
  exact (Template.Shown.alike ⟨holds',rows⟩ ref).toString _

end Course

theorem addAll_below (ref : SessionRef) (entries : List (String × FilterId)) {fuel fuel' : Nat}
    (more : fuel ≤ fuel') : Below (addAll (performWith fuel) ref entries : Effect σ Unit)
      (addAll (performWith fuel') ref entries) := below_addAll (performWith_below more) ref entries

def outfit : Script Unit :=
  .call (.newHandler .adapter) fun _ => .call (.newProcessor (.loopback 0)) fun _ =>
  .call (.newSession (some 0) (some 0) 4 .unlimited) fun _ => .call (.newFilter (.codec 64 64)) fun _ =>
  .call (.newFilter .noop) fun _ => .call (.newFilter (.codec 64 64)) fun _ =>
  .call (.add 0 .last "codec" (some 0)) fun _ => .done .unit

def outfitted : World Unit := outfit.until .never 8 { own := () }

/-- A template with a codec, for a chain that has one. -/
def doubling : Template := ⟨[("first",1),("second",2),("third",1)]⟩

/-- The world once the first entry of the template is linked. -/
def halfway : World Unit :=
  ((consulting .preAdd (incoming outfitted 0 ("first",1)) 8).leaves (outfitted.reserve 0 "first" 1)).joined 0
    (incoming outfitted 0 ("first",1))

/-- The world once its filter has been told. -/
def further : World Unit := (consulting .postAdd (incoming outfitted 0 ("first",1)) 8).leaves halfway

theorem outfitted_occurs : outfitted.Occurs := by
  have short : outfitted.store.journal.length < 2^32 := by decide +kernel
  have sparing : ({ own := () } : World Unit).Sparing outfitted := sparing_of_short short
  exact .during (.fresh ()) .never 8 outfit sparing

theorem doubling_mild : Mild 0 [("first",1),("second",2),("third",1)] outfitted := by
  have asked : (consulting .preAdd (incoming outfitted 0 ("first",1)) 8).verdict
    (outfitted.reserve 0 "first" 1) = some (.ok ()) := by decide +kernel
  have told : (consulting .postAdd (incoming outfitted 0 ("first",1)) 8).verdict halfway = some (.ok ()) := by
    decide +kernel
  have vetoed : (consulting .preAdd (incoming further 0 ("second",2)) 8).verdict
    (further.reserve 0 "second" 2) =
      some (.error (.logic "chain already holds a ProtocolCodecFilter, cannot add second")) := by
    decide +kernel
  intro _
  refine passes_of_verdict (consulting_below _ _) 8 asked (by decide +kernel) fun _ => ?_
  refine passes_of_verdict (consulting_below _ _) 8 told (by decide +kernel) fun _ => ?_
  intro _
  refine passes_of_verdict (consulting_below _ _) 8 vetoed (by decide +kernel) fun returned => ?_
  cases returned

/-- The first entry joins the chain, the codec is refused, and what comes after it is not added. -/
theorem addAll_assembles_codec : ∃ added left w', Assembled 0 doubling outfitted added left
      (.error (.vetoedAddition "second" "chain already holds a ProtocolCodecFilter, cannot add second")) w' ∧
    added.map (·.name) = ["first"] ∧ left.length = 2 := by
  have present : 0 < outfitted.store.sessions.size := by decide +kernel
  have before : (outfitted.store.chain 0).getAll 0 = [⟨"codec",some 0,⟨0,2,0⟩⟩] := by decide +kernel
  have ended : (addAll (performWith 8) 0 doubling.entries).verdict outfitted =
      some (.error (.vetoedAddition "second"
        "chain already holds a ProtocolCodecFilter, cannot add second")) := by decide +kernel
  have after : (((addAll (performWith 8) 0 doubling.entries).leaves outfitted).store.chain 0).getAll 0 =
      [⟨"codec",some 0,⟨0,2,0⟩⟩,⟨"first",some 1,⟨0,3,0⟩⟩] := by decide +kernel
  have stops : ComesTo (fun fuel => addAll (performWith fuel) 0 doubling.entries) outfitted
      (.error (.vetoedAddition "second" "chain already holds a ProtocolCodecFilter, cannot add second"))
      ((addAll (performWith 8) 0 doubling.entries).leaves outfitted) :=
    comesTo_of_verdict (addAll_below 0 _) 8 ended
  obtain ⟨added,left,result,w',assembled,comes⟩ := addAll_assembles outfitted_occurs present doubling_mild
  obtain ⟨rfl,rfl⟩ := stops.unique comes
  have listed := assembled.listed.symm.trans after
  rw [before] at listed
  obtain rfl : added = [⟨"first",some 1,⟨0,3,0⟩⟩] := List.append_cancel_left listed
  have parts := congrArg List.length assembled.parts
  simp only [List.length_map,List.length_append] at parts
  exact ⟨_,left,_,assembled,rfl,Nat.add_left_cancel parts.symm⟩

end Effect
end SessionPipeline
