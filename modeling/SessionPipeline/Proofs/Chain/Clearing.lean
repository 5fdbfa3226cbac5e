import SessionPipeline.Proofs.Chain.Removal

/-! Clearing a chain. Entries leave from the head on, each between its filter's two hooks, until none is
left or one of these hooks throws. -/
namespace SessionPipeline.Effect

open World

variable {σ : Type} {ref : SessionRef} {w w₁ w₂ w' : World σ} {e : Entry} {gone left : List Entry}
  {failure : Failure} {result : Except Failure Unit}

/-- As these entries leave one after the other, each hook that is run ends, returning or throwing, and
leaves the chain as it is. -/
def Gentle (ref : SessionRef) : List Entry → World σ → Prop
  | [], _ => True
  | e :: rest, w => Passes ref (consulting .preRemove e) w fun w₁ =>
      Passes ref (consulting .postRemove e) (w₁.without ref e) fun w₂ => Gentle ref rest w₂

/-- How entries leave one after the other: what is gone when it is over, what is left, and how it ends.
Nothing happens but hooks, entries leaving and the log of that. -/
inductive Empties (ref : SessionRef) :
    List Entry → List Entry → World σ → Except Failure Unit → World σ → Prop
  | done (w : World σ) : Empties ref [] [] w (.ok ()) w
  | vetoed {e : Entry} {w w₁ : World σ} {failure : Failure} (rest : List Entry)
      (asked : ComesTo (consulting .preRemove e) w (.error failure) w₁) :
      Empties ref [] (e :: rest) w (.error (failure.withholds e.name)) w₁
  | late {e : Entry} {w w₁ w₂ : World σ} {failure : Failure} (rest : List Entry)
      (asked : ComesTo (consulting .preRemove e) w (.ok ()) w₁)
      (told : ComesTo (consulting .postRemove e) (w₁.without ref e) (.error failure) w₂) :
      Empties ref [e] rest w (.error failure) w₂
  | onward {e : Entry} {w w₁ w₂ w' : World σ} {gone left : List Entry} {result : Except Failure Unit}
      (asked : ComesTo (consulting .preRemove e) w (.ok ()) w₁)
      (told : ComesTo (consulting .postRemove e) (w₁.without ref e) (.ok ()) w₂)
      (further : Empties ref gone left w₂ result w') : Empties ref (e :: gone) left w result w'

theorem Empties.whole (empties : Empties ref gone left w result w') (returned : result = .ok ()) :
    left = [] := by
  induction empties with
  | done => rfl
  | vetoed => cases returned
  | late => cases returned
  | onward _ _ _ ih => exact ih returned

/-- What has become of a chain that has been cleared, as far as that went. -/
structure Cleared (ref : SessionRef) (w : World σ) (gone left : List Entry)
    (result : Except Failure Unit) (w' : World σ) : Prop where
  course : Empties ref gone left w result w'
  before : (w.store.chain ref).getAll ref = gone ++ left
  after : (w'.store.chain ref).getAll ref = left
  whole : result = .ok () → left = []
  handles : (w.store.chain ref).Detaches ref gone (w'.store.chain ref)

variable {c : Chain} {id : EntryId} {rest flight : List EntryId}

theorem clear_none (holds : (w.store.chain ref).Holds [] flight) (perform : Perform σ) :
    clear perform ref w = .ok () w := by
  obtain ⟨toTail,_⟩ := (List.isChain_cons_cons.mp holds.links).1
  rw [clear,bind_of_ok (chain_apply ref w),toTail]
  rfl

theorem clear_some (holds : (w.store.chain ref).Holds (id :: rest) flight) (perform : Perform σ) :
    clear perform ref w = (do
      let _ ← removeEntry perform ref id
      let _ ← perform (.clear ref)) w := by
  obtain ⟨toFirst,_⟩ := (List.isChain_cons_cons.mp holds.links).1
  have between := (holds.between (List.mem_cons_self (a := id))).2
  rw [clear,bind_of_ok (chain_apply ref w),toFirst]
  dsimp only
  rw [if_neg (by simpa using between)]

theorem Cleared.of (course : Empties ref gone left w result w')
    (before : (w.store.chain ref).getAll ref = gone ++ left)
    (after : (w'.store.chain ref).getAll ref = left)
    (handles : (w.store.chain ref).Detaches ref gone (w'.store.chain ref)) :
    Cleared ref w gone left result w' := ⟨course,before,after,course.whole,handles⟩

section First

variable (holds : (w.store.chain ref).Holds (id :: rest) flight)
include holds

theorem clear_vetoed
    (asked : ComesTo (consulting .preRemove ((w.store.chain ref).entry ref id)) w (.error failure) w₁) :
    ComesTo (fun fuel => clear (performWith fuel) ref) w
      (.error (failure.withholds ((w.store.chain ref).entry ref id).name)) w₁ := by
  refine asked.onward (fun fuel failed => ?_) (comesTo_of_failed fun _ => rfl)
  rw [clear_some holds]
  exact failed_of_bind (removeEntry_vetoed (failed_of_attempt failed))

theorem clear_leaves
    (asked : ComesTo (consulting .preRemove ((w.store.chain ref).entry ref id)) w (.ok ()) w₁)
    (same : w₁.store.chain ref = w.store.chain ref)
    (later : ComesTo (fun fuel => do
      consulting .postRemove ((w.store.chain ref).entry ref id) fuel
      let _ ← performWith fuel (.clear ref)) (w₁.without ref ((w.store.chain ref).entry ref id)) result w') :
    ComesTo (fun fuel => clear (performWith fuel) ref) w result w' := by
  obtain ⟨filter,held⟩ := Option.isSome_iff_exists.mp (holds.filters id List.mem_cons_self)
  have current : (w₁.store.chain ref).isCurrent ((w.store.chain ref).handle ref id) = true := by
    rw [same]
    exact holds.isCurrent ref (by simp)
  refine asked.onward (fun fuel returned => ?_) later
  have leaves := removeEntry_leaves (ok_of_attempt returned) held current
  rw [clear_some holds,bind_apply,leaves,← bind_apply,bind_assoc]
  simp only [pure_bind]
  rfl

/-- The rest of the chain is what is cleared next. -/
theorem without_holds (same : w₁.store.chain ref = w.store.chain ref) :
    ((w₁.without ref ((w.store.chain ref).entry ref id)).store.chain ref).Holds rest flight ∧
      rest.map (((w₁.without ref ((w.store.chain ref).entry ref id)).store.chain ref).entry ref) =
        rest.map ((w.store.chain ref).entry ref) ∧
      (w.store.chain ref).Detaches ref [(w.store.chain ref).entry ref id]
        ((w₁.without ref ((w.store.chain ref).entry ref id)).store.chain ref) := by
  have picked : (w₁.store.chain ref).Picks id := by
    rw [same]
    exact .named (holds.find?_entry List.mem_cons_self)
  have there := chain_without (picked_present picked) ((w.store.chain ref).entry ref id)
  have first : (w.store.chain ref).Holds ([] ++ id :: rest) flight := holds
  rw [same] at there
  rw [there]
  have all := first.drop_getAll ref
  rw [first.drop_at.getAll_eq ref] at all
  exact ⟨first.drop_at,all,holds.drop_detaches List.mem_cons_self ref⟩

end First

/-- As long as its filters' hooks end and leave the chain alone, a chain in order is emptied up to an entry
whose filter throws. -/
theorem clear_ends (ids : List EntryId) (w : World σ) (holds : (w.store.chain ref).Holds ids flight)
    (gentle : Gentle ref (ids.map ((w.store.chain ref).entry ref)) w) :
    ∃ gone left result w', Cleared ref w gone left result w' ∧
      ComesTo (fun fuel => clear (performWith fuel) ref) w result w' := by
  have all := holds.getAll_eq ref
  induction ids generalizing w with
  | nil => exact ⟨[],[],_,w,.of (.done w) all all (.refl _),comesTo_of_ok fun _ => clear_none holds _⟩
  | cons id rest ih =>
    obtain ⟨answer,w₁,asked,same,goes⟩ := gentle
    cases answer with
    | error failure =>
      refine ⟨[],_,_,w₁,.of (.vetoed _ asked) all ?_ ?_,clear_vetoed holds asked⟩
      · rw [same]
        exact all
      · rw [same]
        exact .refl _
    | ok _ =>
      obtain ⟨reply,w₂,told,still,gentle⟩ := goes rfl
      obtain ⟨holds',entries,detaches⟩ := without_holds holds same
      rw [← still] at holds' entries detaches
      have all' := holds'.getAll_eq ref
      cases reply with
      | error failure =>
        refine ⟨_,_,_,w₂,.of (.late _ asked told) all (all'.trans entries) detaches,
          clear_leaves holds asked same (.bind_failed told)⟩
      | ok _ =>
        have gentle := gentle rfl
        rw [← entries] at gentle
        obtain ⟨gone,left,result,w',cleared,comes⟩ := ih w₂ holds' gentle all'
        refine ⟨_,left,result,w',.of (.onward asked told cleared.course) ?_ cleared.after
          (detaches.append cleared.handles),clear_leaves holds asked same (.bind told ?_)⟩
        · rw [all,List.map_cons,← entries,← all',cleared.before]
          rfl
        · cases result with
          | ok _ =>
            exact .bind (.task (.bind comes (comesTo_of_ok fun _ => rfl))) (comesTo_of_ok fun _ => rfl)
          | error failure => exact .bind_failed (.task (.bind_failed comes))

/-- A chain whose filters' hooks may throw but leave it alone can be cleared. That ends, and what has then
become of its entries is decided by the first hook that throws. -/
theorem clear_empties {entries : List Entry} (occurs : w.Occurs)
    (listed : (w.store.chain ref).getAll ref = entries) (gentle : Gentle ref entries w) :
    ∃ gone left result w', Cleared ref w gone left result w' ∧
      ComesTo (fun fuel => clear (performWith fuel) ref) w result w' := by
  obtain ⟨ids,flight,holds⟩ := occurs.holds ref
  rw [← listed,holds.getAll_eq ref] at gentle
  exact clear_ends ids w holds gentle

def clinging : Invocation → Script Unit
  | .hook .preRemove .. => .fail (.runtime "no")
  | _ => .done .unit

def mixing : Script Unit :=
  .call (.newHandler .adapter) fun _ => .call (.newProcessor (.loopback 0)) fun _ =>
  .call (.newSession (some 0) (some 0) 4 .unlimited) fun _ => .define clinging fun code =>
  .call (.newFilter .noop) fun _ => .call (.newFilter (.custom "f" code)) fun _ =>
  .call (.add 0 .last "a" (some 0)) fun _ => .call (.add 0 .last "b" (some 1)) fun _ =>
  .call (.add 0 .last "c" (some 0)) fun _ => .done .unit

def mixed : World Unit := mixing.until .never 8 { own := () }

def placed (name : String) (filter : FilterId) (id : EntryId) : Entry := ⟨name,some filter,⟨0,id,0⟩⟩

/-- The world once the first entry has left. -/
def loosened : World Unit :=
  ((consulting .preRemove (placed "a" 0 2) 8).leaves mixed).without 0 (placed "a" 0 2)

theorem mixed_occurs : mixed.Occurs := by
  have short : mixed.store.journal.length < 2^32 := by decide +kernel
  have sparing : ({ own := () } : World Unit).Sparing mixed := sparing_of_short short
  exact .during (.fresh ()) .never 8 mixing sparing

theorem mixed_entries :
    (mixed.store.chain 0).getAll 0 = [placed "a" 0 2,placed "b" 1 3,placed "c" 0 4] := by
  decide +kernel

theorem mixed_gentle : Gentle 0 [placed "a" 0 2,placed "b" 1 3,placed "c" 0 4] mixed := by
  have asked : (consulting .preRemove (placed "a" 0 2) 8).verdict mixed = some (.ok ()) := by
    decide +kernel
  have told : (consulting .postRemove (placed "a" 0 2) 8).verdict loosened = some (.ok ()) := by
    decide +kernel
  have vetoed : (consulting .preRemove (placed "b" 1 3) 8).verdict
      ((consulting .postRemove (placed "a" 0 2) 8).leaves loosened) = some (.error (.runtime "no")) := by
    decide +kernel
  refine passes_of_verdict (consulting_below _ _) 8 asked (by decide +kernel) fun _ => ?_
  refine passes_of_verdict (consulting_below _ _) 8 told (by decide +kernel) fun _ => ?_
  refine passes_of_verdict (consulting_below _ _) 8 vetoed (by decide +kernel) fun returned => ?_
  cases returned

/-- The entry in the middle does not go, and so the last one stays as well. -/
theorem clear_empties_vetoed : ∃ w', Cleared 0 mixed [placed "a" 0 2] [placed "b" 1 3,placed "c" 0 4]
    (.error (.vetoedRemoval "b" "no")) w' := by
  have ended : (clear (performWith 8) 0).verdict mixed = some (.error (.vetoedRemoval "b" "no")) := by
    decide +kernel
  have after : (((clear (performWith 8) 0).leaves mixed).store.chain 0).getAll 0 =
    [placed "b" 1 3,placed "c" 0 4] := by decide +kernel
  obtain ⟨gone,left,result,w',cleared,comes⟩ := clear_empties mixed_occurs mixed_entries mixed_gentle
  have stops : ComesTo (fun fuel => clear (performWith fuel) 0) mixed (.error (.vetoedRemoval "b" "no"))
      ((clear (performWith 8) 0).leaves mixed) :=
    comesTo_of_verdict (fun more => below_clear (performWith_below more) 0) 8 ended
  obtain ⟨rfl,rfl⟩ := stops.unique comes
  obtain rfl := cleared.after.symm.trans after
  obtain rfl : gone = [placed "a" 0 2] :=
    List.append_cancel_right (cleared.before.symm.trans mixed_entries)
  exact ⟨_,cleared⟩

end SessionPipeline.Effect
