import SessionPipeline.Proofs.Chain.Assembly

/-! Between runs every chain is consistent, as long as no run frees a slot 2^32 times. How often a slot has
been freed is counted in 32 bits: an entry that comes and goes ages its slot and leaves the rest of the chain
as it is, and a slot that has come round is taken for the one that it was. -/
namespace SessionPipeline

namespace World

variable {σ : Type} {w : World σ}

/-- Whatever scripts and the hooks of filters have done to the chains of a world, succeeding or not,
once no script runs every chain is consistent. -/
theorem reached_consistent (reached : w.Reached) (ref : SessionRef) :
    (w.store.chain ref).Consistent ref := by
  obtain ⟨ids,holds⟩ := reached.inOrder ref
  exact holds.consistent ref

/-- Removes another entry and adds a new one when it is asked to leave. -/
def meddler : Invocation → Script Unit
  | .hook .preRemove _ handle =>
    .call (.remove handle.owner "other") fun _ =>
      .call (.add handle.owner .last "late" (some 0)) fun _ => .done .unit
  | _ => .done .unit

def meddling : Script Unit :=
  .call (.newHandler .adapter) fun _ => .call (.newProcessor (.loopback 0)) fun _ =>
  .call (.newSession (some 0) (some 0) 4 .unlimited) fun _ => .call (.newFilter .noop) fun _ =>
  .define meddler fun code => .call (.newFilter (.custom "meddler" code)) fun _ =>
  .call (.add 0 .last "other" (some 0)) fun _ => .call (.add 0 .first "own" (some 1)) fun _ =>
  .call (.remove 0 "own") fun _ => .done .unit

theorem meddling_consistent :
    ((meddling.execute 8 { own := () }).2.store.chain 0).Consistent 0 ∧
      (((meddling.execute 8 { own := () }).2.store.chain 0).getAll 0).map (·.name) = ["late"] := by
  have replied : (match (meddling.execute 8 { own := () }).1 with
    | .replied _ => true
    | _ => false) = true := by decide +kernel
  have ended : (meddling.execute 8 { own := () }).1 ≠ .outOfFuel := by
    intro out
    rw [out] at replied
    cases replied
  have reached := Reached.run_of_short (.fresh ()) ended (by decide +kernel)
  exact ⟨reached_consistent reached 0,by decide +kernel⟩

end World

namespace Chain

variable {c : Chain} {ids flight rest : List EntryId} {id : EntryId}

/-- The same chain where a slot has been freed this many times more. -/
def aged (c : Chain) (id : EntryId) (times : UInt32) : Chain :=
  c.modify id fun s => { s with generation := s.generation + times }

theorem aged_slot (c : Chain) (id : EntryId) (times : UInt32) (x : EntryId) : (c.aged id times).slot x =
    { c.slot x with generation := (c.slot x).generation + if x = id ∧ id < c.slots.size then times else 0 } := by
  rw [aged,slot_modify]
  split <;> simp [*]

@[simp] theorem aged_zero (c : Chain) (id : EntryId) : c.aged id 0 = c :=
  ext_slots (size_modify ..) (fun x => by simp [aged_slot]) rfl rfl

theorem aged_aged (c : Chain) (id : EntryId) (m n : UInt32) : (c.aged id m).aged id n = c.aged id (m + n) := by
  refine ext_slots (by simp [aged]) (fun x => ?_) rfl rfl
  have size : (c.aged id m).slots.size = c.slots.size := size_modify ..
  rw [aged_slot,aged_slot,aged_slot,size]
  split <;> simp [UInt32.add_assoc]

/-- A free slot that is taken and freed again is older by one. -/
theorem Holds.allocate_release_aged (holds : c.Holds ids flight) (free : c.free = id :: rest)
    (name : String) (filter : FilterId) :
    (c.allocate name filter).2.release (c.allocate name filter).1 = c.aged id 1 := by
  have worn := holds.allocate_release name filter
  have inside : id < c.slots.size := (holds.mem_iff id).mp (by simp [free])
  rw [allocate_cons free] at worn ⊢
  refine ext_slots (by simp [aged]) (fun x => ?_) ?_ rfl
  · rw [worn.slot,aged_slot]
    simp [once,inside]
  · exact free.symm

end Chain

namespace World

variable {σ : Type}

/-- The filters, the code and the number of sessions are as before. -/
structure Retains (w w' : World σ) : Prop where
  filters : w'.store.filters = w.store.filters
  code : w'.code = w.code
  sessions : w'.store.sessions.size = w.store.sessions.size

theorem Retains.trans {w₁ w₂ w₃ : World σ} (first : w₁.Retains w₂) (second : w₂.Retains w₃) :
    w₁.Retains w₃ :=
  ⟨second.filters.trans first.filters,second.code.trans first.code,second.sessions.trans first.sessions⟩

theorem retains_mapChain (w : World σ) (ref : SessionRef) (change : Chain → Chain) :
    w.Retains (w.mapChain ref change) := ⟨rfl,rfl,Array.size_modify ..⟩

theorem retains_record (w : World σ) (o : Observation) : w.Retains (w.record o) := ⟨rfl,rfl,rfl⟩

theorem retains_logged (w : World σ) (logger : String) (level : Logging.Level) (text : Bytes) :
    w.Retains (w.logged logger level text) := ⟨rfl,rfl,rfl⟩

theorem retains_joined (w : World σ) (ref : SessionRef) (e : Entry) : w.Retains (w.joined ref e) :=
  ((retains_mapChain ..).trans (retains_record ..)).trans (retains_logged ..)

theorem retains_without (w : World σ) (ref : SessionRef) (e : Entry) : w.Retains (w.without ref e) :=
  ((retains_mapChain ..).trans (retains_record ..)).trans (retains_logged ..)

theorem chain_record (w : World σ) (o : Observation) (ref : SessionRef) :
    (w.record o).store.chain ref = w.store.chain ref := rfl

theorem chain_logged (w : World σ) (logger : String) (level : Logging.Level) (text : Bytes) (ref : SessionRef) :
    (w.logged logger level text).store.chain ref = w.store.chain ref := rfl

theorem chain_joined {w : World σ} {ref : SessionRef} (present : ref < w.store.sessions.size) (e : Entry) :
    (w.joined ref e).store.chain ref = (w.store.chain ref).insert e.handle.entry e.name .last :=
  chain_mapChain present (·.insert e.handle.entry e.name .last)

theorem Retains.filter {w w' : World σ} (retains : w.Retains w') (id : FilterId) :
    w'.store.filter id = w.store.filter id := by
  rw [Store.filter,retains.filters,Store.filter]

/-- The session is there, and the filter is one that does nothing. -/
structure Idles (w : World σ) (ref : SessionRef) (filter : FilterId) : Prop where
  present : ref < w.store.sessions.size
  noop : w.store.filter filter = .noop

theorem Retains.idles {w w' : World σ} {ref : SessionRef} {filter : FilterId} (retains : w.Retains w')
    (idles : w.Idles ref filter) : w'.Idles ref filter :=
  ⟨retains.sessions ▸ idles.present,(retains.filter filter).trans idles.noop⟩

end World

namespace Script

variable {σ : Type}

/-- Has an entry come and go this many times before going on. -/
def churn (ref : SessionRef) (name : String) (filter : FilterId) : Nat → Script σ → Script σ
  | 0, next => next
  | rounds + 1, next =>
    .call (.add ref .last name (some filter)) fun _ => .call (.remove ref name) fun _ =>
      churn ref name filter rounds next

end Script

namespace Effect

open World

variable {σ : Type} {perform : Perform σ} {w : World σ} {ref : SessionRef} {name : String}
  {filter : FilterId} {ids flight rest : List EntryId} {id : EntryId}

/-- A call on a session that is there goes on with its reply, if it returns. -/
theorem interpret_call {c : Call} {reply : Reply} {w' : World σ} (names : c.sessions = [ref])
    (present : ref < w.store.sessions.size) (returned : ofCall perform c w = .ok reply w')
    (next : Reply → Script σ) :
    interpret (answer perform) (.call c next) w = interpret (answer perform) (next reply) w' := by
  have sessions : needSessions c.sessions w = .ok () w :=
    needSessions_apply (names ▸ List.forall_mem_singleton.mpr present)
  refine bind_of_ok ?_
  rw [answer,bind_of_ok sessions,returned]

theorem interpret_remove {removed : Option FilterId} {w' : World σ} (present : ref < w.store.sessions.size)
    (returned : remove perform ref name w = .ok removed w') (next : Reply → Script σ) :
    interpret (answer perform) (.call (.remove ref name) next) w =
      interpret (answer perform) (next (.filter removed)) w' :=
  interpret_call rfl present (bind_of_ok returned) next

/-- The code of a custom filter is run. -/
theorem consult_custom {fuel : Nat} {e : Entry} {label : String} {code : CodeId} {body : Invocation → Script σ}
    {reply : Reply} {hook : Hook} {w' : World σ} (held : e.filter = some filter)
    (custom : w.store.filter filter = .custom label code) (defined : w.code[code]? = some body)
    (ran : ofScript (performWith fuel) (body (.hook hook e.name e.handle))
      (w.record (.hooked filter hook e.name e.handle)) = .ok reply w') :
    consult (performWith (fuel + 1)) hook e w = .ok () w' := by
  let w₁ := w.record (.hooked filter hook e.name e.handle)
  have runs : performWith (fuel + 1) (.run code (.hook hook e.name e.handle)) w₁ = .ok reply w' :=
    (run_apply (w := w₁) defined fuel _).trans ran
  rw [consult,held]
  dsimp only
  rw [runHook,bind_of_ok (observe_apply _ w),bind_of_ok (filter_apply filter _),filter_record,custom]
  exact bind_of_ok runs

variable (perform)

/-- A filter that does nothing is told, and that is all. -/
theorem consult_noop {e : Entry} (held : e.filter = some filter) (noop : w.store.filter filter = .noop)
    (hook : Hook) : consult perform hook e w = .ok () (w.record (.hooked filter hook e.name e.handle)) := by
  rw [consult,held]
  dsimp only
  rw [runHook,bind_of_ok (observe_apply _ w),bind_of_ok (filter_apply filter _),filter_record,noop]
  cases hook <;> rfl

section Idle

variable (idles : w.Idles ref filter)
include idles

/-- A filter that does nothing joins the end of a chain. -/
theorem add_noop (free : (w.store.chain ref).contains name = false) :
    ∃ w', add perform ref .last name (some filter) w = .ok () w' ∧ w.Retains w' ∧
      w'.store.chain ref = ((w.store.chain ref).allocate name filter).2.insert
        ((w.store.chain ref).allocate name filter).1 name .last := by
  let e := (w.store.chain ref).newcomer ref name filter
  let w₁ := (w.reserve ref name filter).record (.hooked filter .preAdd name e.handle)
  have retains : w.Retains w₁ := (retains_mapChain ..).trans (retains_record ..)
  have reserved : w₁.store.chain ref = ((w.store.chain ref).allocate name filter).2 :=
    chain_mapChain idles.present fun _ => ((w.store.chain ref).allocate name filter).2
  have asked : consult perform .preAdd e (w.reserve ref name filter) = .ok () w₁ :=
    consult_noop perform (w := w.reserve ref name filter) rfl idles.noop .preAdd
  have joins := retains.trans (retains_joined w₁ ref e)
  have told := consult_noop perform (e := e) rfl (joins.idles idles).noop .postAdd
  have still : (w₁.store.chain ref).contains name = false := by rwa [reserved,Chain.contains_allocate]
  refine ⟨_,(add_joins free asked still).trans (confirmEntry_stays (e := e) rfl told),?_,?_⟩
  · exact joins.trans (retains_record ..)
  · have there := (retains.idles idles).present
    rw [chain_record,chain_joined there,reserved]
    rfl

/-- And it leaves a chain. -/
theorem remove_noop (found : (w.store.chain ref).find? name = some id)
    (named : ((w.store.chain ref).slot id).name = name)
    (held : ((w.store.chain ref).slot id).filter = some filter)
    (current : (w.store.chain ref).isCurrent ((w.store.chain ref).handle ref id) = true) :
    ∃ w', remove perform ref name w = .ok (some filter) w' ∧ w.Retains w' ∧
      w'.store.chain ref = (w.store.chain ref).drop id name := by
  let e := (w.store.chain ref).entry ref id
  let w₁ := w.record (.hooked filter .preRemove e.name e.handle)
  have asked : consult perform .preRemove e w = .ok () w₁ := consult_noop perform held idles.noop .preRemove
  have leaves : w.Retains (w₁.without ref e) := (retains_record ..).trans (retains_without ..)
  have told := consult_noop perform (e := e) held (leaves.idles idles).noop .postRemove
  have removed : remove perform ref name w =
      .ok (some filter) ((w₁.without ref e).record (.hooked filter .postRemove e.name e.handle)) := by
    rw [remove,bind_of_ok (chain_apply ref w),found]
    dsimp only
    rw [removeEntry_leaves asked held current,bind_of_ok told]
    rfl
  refine ⟨_,removed,leaves.trans (retains_record ..),?_⟩
  have there : ref < w₁.store.sessions.size := idles.present
  rw [chain_record,chain_without there,chain_record,show e.name = name from named]
  rfl

/-- It takes the place of another one. -/
theorem replace_noop {old : FilterId} (found : (w.store.chain ref).find? name = some id)
    (held : ((w.store.chain ref).slot id).filter = some old)
    (current : (w.store.chain ref).isCurrent ((w.store.chain ref).handle ref id) = true) :
    ∃ w', replace perform ref name (some filter) w = .ok (some old) w' ∧ w.Retains w' ∧
      w'.store.chain ref = (w.store.chain ref).setFilter id filter := by
  let e : Entry := ⟨name,some filter,(w.store.chain ref).handle ref id⟩
  let w₁ := w.record (.hooked filter .preAdd name e.handle)
  let w₂ := w₁.mapChain ref fun c => c.setFilter id filter
  let w₃ := w₂.logged chainLogger .debug (Bytes.ofString
    ("session " ++ toString (w₂.store.session ref).id ++ ": " ++
      ("replaced " ++ name ++ " (" ++ w₂.store.label old ++ " -> " ++ w₂.store.label filter ++ ")")))
  have asked : runHook perform filter .preAdd name e.handle w = .ok () w₁ :=
    consult_noop perform (e := e) rfl idles.noop .preAdd
  have retains : w.Retains w₃ :=
    (retains_record ..).trans ((retains_mapChain ..).trans (retains_logged ..))
  have told : runHook perform filter .postAdd name e.handle w₃ =
      .ok () (w₃.record (.hooked filter .postAdd name e.handle)) :=
    consult_noop perform (e := e) rfl (retains.idles idles).noop .postAdd
  have there : (w₁.store.chain ref).isCurrent e.handle = true := current
  have before : ((w₁.store.chain ref).slot e.handle.entry).filter = some old := held
  have replaced : replace perform ref name (some filter) w =
      .ok (some old) (w₃.record (.hooked filter .postAdd name e.handle)) := by
    rw [replace,bind_of_ok (needFilter_apply name filter w),bind_of_ok (chain_apply ref w),
      getHandle_eq_ok ref found,bind_of_ok (ofExcept_apply _ w),attempt_bind_ok asked]
    dsimp only
    rw [exchange,bind_of_ok (chain_apply ref w₁),there,before]
    exact attempt_bind_ok told _
  refine ⟨_,replaced,retains.trans (retains_record ..),?_⟩
  have there : ref < w₁.store.sessions.size := idles.present
  rw [chain_record,chain_logged,chain_mapChain there,chain_record]

end Idle

/-- An entry that comes and goes in a free slot ages that slot, and the rest of the chain is as it was. -/
theorem round_ages (idles : w.Idles ref filter) (holds : (w.store.chain ref).Holds ids flight)
    (top : (w.store.chain ref).free = id :: rest) (free : (w.store.chain ref).contains name = false) :
    ∃ w₁ w', add perform ref .last name (some filter) w = .ok () w₁ ∧
      remove perform ref name w₁ = .ok (some filter) w' ∧ w.Retains w₁ ∧ w.Retains w' ∧
      w'.store.chain ref = (w.store.chain ref).aged id 1 := by
  obtain ⟨w₁,added,retains,joined⟩ := add_noop perform idles free
  have admissible := Chain.checkAddition_last free
  have again := (allocate_checkAddition _ name name filter .last).trans admissible
  have slot := (holds.allocate_slot name filter).2.2
  have linked := (holds.allocate name filter).insert_slot again ((w.store.chain ref).allocate name filter).1
  rw [← joined,slot] at linked
  have found : (w₁.store.chain ref).find? name = some ((w.store.chain ref).allocate name filter).1 := by
    simp [joined,Chain.find?,Chain.insert]
  have current : (w₁.store.chain ref).isCurrent
      ((w₁.store.chain ref).handle ref ((w.store.chain ref).allocate name filter).1) = true := by
    have current : (((w.store.chain ref).allocate name filter).2.insert _ name .last).isCurrent
        ((w.store.chain ref).reserved ref name filter) = true := linked_isCurrent holds admissible
    rwa [← joined,Chain.reserved,Chain.handle,slot,← congrArg Slot.generation linked] at current
  obtain ⟨w',removed,retains',left⟩ := remove_noop perform (retains.idles idles) found
    (congrArg Slot.name linked) (congrArg Slot.filter linked) current
  refine ⟨w₁,w',added,removed,retains,retains.trans retains',?_⟩
  rw [left,joined,linked_drop holds admissible,holds.allocate_release_aged top]

/-- So do any number of rounds. -/
theorem churn_ages (rounds : Nat) (next : Script σ) (idles : w.Idles ref filter)
    (holds : (w.store.chain ref).Holds ids flight) (top : (w.store.chain ref).free = id :: rest)
    (free : (w.store.chain ref).contains name = false) :
    ∃ w', interpret (answer perform) (Script.churn ref name filter rounds next) w =
        interpret (answer perform) next w' ∧
      w.Retains w' ∧ w'.store.chain ref = (w.store.chain ref).aged id (UInt32.ofNat rounds) := by
  induction rounds generalizing w with
  | zero => exact ⟨w,rfl,⟨rfl,rfl,rfl⟩,(Chain.aged_zero _ id).symm⟩
  | succ rounds ih =>
    obtain ⟨w₁,w₂,added,removed,retains₁,retains₂,older⟩ :=
      round_ages perform idles holds top free
    have worn := holds.allocate_release name filter
    rw [holds.allocate_release_aged top,← older] at worn
    obtain ⟨w',ran,retains,old⟩ :=
      ih (retains₂.idles idles) (worn.holds holds) (by rw [older]; exact top) (by rw [older]; exact free)
    refine ⟨w',?_,retains₂.trans retains,?_⟩
    · rw [Script.churn,interpret_call rfl idles.present (bind_of_ok added),
        interpret_remove (retains₁.idles idles).present removed,ran]
    · rw [old,older,Chain.aged_aged,UInt32.add_comm,← UInt32.ofNat_one,← UInt32.ofNat_add]

/-- What comes after a script goes on where the script has ended. -/
theorem interpret_bind (respond : Call → Effect σ Reply) (script : Script σ) (next : Reply → Script σ) :
    interpret respond (script.bind next) = (do interpret respond (next (← interpret respond script))) := by
  induction script with
  | done reply => rfl
  | fail failure => rfl
  | look further ih => simp only [Script.bind,interpret,ih,bind_assoc]
  | get further ih => simp only [Script.bind,interpret,ih,bind_assoc]
  | set own further ih => simp only [Script.bind,interpret,ih,bind_assoc]
  | define code further _ ih => simp only [Script.bind,interpret,ih,bind_assoc]
  | call c further ih => simp only [Script.bind,interpret,ih,bind_assoc]
  | attempt body further _ ih => simp only [Script.bind,interpret,ih,bind_assoc]

/-- Makes room as soon as it is asked to leave, has another entry come and go there until the slot is as new,
and leaves a third one in it. -/
def squatter (rounds : Nat) : Invocation → Script Unit
  | .hook .preRemove name handle =>
    .call (.replace handle.owner name (some 0)) fun _ => .call (.remove handle.owner name) fun _ =>
      .churn handle.owner "guest" 0 rounds (.call (.add handle.owner .last "late" (some 0)) .done)
  | _ => .done .unit

def settling (rounds : Nat) : Script Unit :=
  .call (.newHandler .adapter) fun _ => .call (.newProcessor (.loopback 0)) fun _ =>
  .call (.newSession (some 0) (some 0) 4 .unlimited) fun _ => .call (.newFilter .noop) fun _ =>
  .define (squatter rounds) fun code => .call (.newFilter (.custom "squatter" code)) fun _ =>
  .call (.add 0 .last "own" (some 1)) .done

def squatting : Script Unit := (settling (2 ^ 32 - 1)).andThen (.invoke (.remove 0 "own"))

def settled : World Unit := ((settling (2 ^ 32 - 1)).execute 1 { own := () }).2

/-- The chain where one entry has come and gone. -/
def vacated : Chain := (Chain.empty.allocate "own" 0).2.release 2

theorem vacated_holds : vacated.Holds [] [] :=
  (Chain.empty_holds.allocate_release "own" 0).holds Chain.empty_holds

section Squatting

variable {w : World Unit}

/-- Once the hook has returned, the slot holds another entry and is as new. -/
theorem squatter_apply (idles : w.Idles 0 0)
    (standing : w.store.chain 0 = (Chain.empty.allocate "own" 1).2.insert 2 "own" .last) :
    ∃ w', ofScript (performWith 0) (squatter (2 ^ 32 - 1) (.hook .preRemove "own" ⟨0,2,0⟩)) w = .ok .unit w' ∧
      w.Retains w' ∧ w'.store.chain 0 = (Chain.empty.allocate "late" 0).2.insert 2 "late" .last := by
  have found : (w.store.chain 0).find? "own" = some 2 := by
    rw [standing]
    decide
  have held : ((w.store.chain 0).slot 2).filter = some 1 := by
    rw [standing]
    decide
  obtain ⟨w₁,replaced,retains₁,given⟩ :=
    replace_noop (performWith 0) idles found held (by rw [standing]; decide)
  rw [standing] at given
  have idles₁ := retains₁.idles idles
  have found₁ : (w₁.store.chain 0).find? "own" = some 2 := by
    rw [given]
    decide
  obtain ⟨w₂,removed,retains₂,left⟩ := remove_noop (performWith 0) idles₁ found₁ (by rw [given]; decide)
    (by rw [given]; decide) (by rw [given]; decide)
  have vacant : w₂.store.chain 0 = vacated := by
    rw [left,given]
    decide
  have idles₂ := retains₂.idles idles₁
  have holds : (w₂.store.chain 0).Holds [] [] := vacant ▸ vacated_holds
  have top : (w₂.store.chain 0).free = [2] := by
    rw [vacant]
    decide
  have free : (w₂.store.chain 0).contains "guest" = false := by
    rw [vacant]
    decide
  obtain ⟨w₃,churned,retains₃,aged⟩ := churn_ages (performWith 0) (2 ^ 32 - 1)
    (.call (.add 0 .last "late" (some 0)) .done) idles₂ holds top free
  rw [vacant] at aged
  have idles₃ := retains₃.idles idles₂
  have free₃ : (w₃.store.chain 0).contains "late" = false := by
    rw [aged]
    decide +kernel
  obtain ⟨w₄,added,retains₄,joined⟩ := add_noop (performWith 0) idles₃ free₃
  refine ⟨w₄,?_,retains₁.trans (retains₂.trans (retains₃.trans retains₄)),?_⟩
  · rw [ofScript,squatter,interpret_call rfl idles.present (bind_of_ok replaced),
      interpret_remove idles₁.present removed,churned,interpret_call rfl idles₃.present (bind_of_ok added)]
    rfl
  · rw [joined,aged]
    decide +kernel

/-- When the removal goes on, it takes the other entry for its own. -/
theorem squatter_removed (idles : w.Idles 0 0) (custom : w.store.filter 1 = .custom "squatter" 0)
    (code : w.code[0]? = some (squatter (2 ^ 32 - 1)))
    (standing : w.store.chain 0 = (Chain.empty.allocate "own" 1).2.insert 2 "own" .last) :
    ∃ w', remove (performWith 1) 0 "own" w = .ok (some 1) w' ∧
      w'.store.chain 0 = ((Chain.empty.allocate "late" 0).2.insert 2 "late" .last).drop 2 "own" := by
  let e : Entry := (w.store.chain 0).entry 0 2
  have entry : e = ⟨"own",some 1,⟨0,2,0⟩⟩ := by
    dsimp only [e]
    rw [standing]
    decide
  have held : e.filter = some 1 := congrArg Entry.filter entry
  obtain ⟨w₁,squatted,retains,taken⟩ :=
    squatter_apply ((retains_record w (.hooked 1 .preRemove e.name e.handle)).idles idles) standing
  have asked : consult (performWith 1) .preRemove e w = .ok () w₁ :=
    consult_custom held custom code (by rw [entry] at squatted ⊢; exact squatted)
  have current : (w₁.store.chain 0).isCurrent ((w.store.chain 0).handle 0 2) = true := by
    rw [taken,standing]
    decide
  have leaves := retains.trans (retains_without w₁ 0 e)
  have told : consult (performWith 1) .postRemove e (w₁.without 0 e) =
      .ok () ((w₁.without 0 e).record (.hooked 1 .postRemove e.name e.handle)) :=
    consult_custom held ((leaves.filter 1).trans custom) (leaves.code ▸ code) rfl
  refine ⟨(w₁.without 0 e).record (.hooked 1 .postRemove e.name e.handle),?_,?_⟩
  · have found : (w.store.chain 0).find? "own" = some 2 := by
      rw [standing]
      decide
    rw [remove,bind_of_ok (chain_apply 0 w),found]
    dsimp only
    rw [removeEntry_leaves asked held current,bind_of_ok told]
    rfl
  · have still : 0 < w₁.store.sessions.size := retains.sessions ▸ idles.present
    rw [chain_record,chain_without still,taken,entry]

end Squatting

/-- So that one leaves the chain, and its name stays in the index. -/
theorem squatting_inconsistent : (squatting.execute 1 { own := () }).1 ≠ .outOfFuel ∧
    ¬ ((squatting.execute 1 { own := () }).2.store.chain 0).Consistent 0 := by
  have began : interpret (answer (performWith 1)) (settling (2 ^ 32 - 1)) { own := () } = .ok .unit settled := rfl
  have filters : settled.store.filters = #[.noop,.custom "squatter" 0] := rfl
  have code : settled.code = #[squatter (2 ^ 32 - 1)] := rfl
  have idles : settled.Idles 0 0 := ⟨by decide +kernel,by rw [Store.filter,filters]; rfl⟩
  obtain ⟨w,removed,left⟩ := squatter_removed idles (by rw [Store.filter,filters]; rfl) (by rw [code]; rfl)
    (by decide +kernel)
  have ran : ofScript (performWith 1) squatting { own := () } = .ok (.filter (some 1)) w := by
    rw [ofScript,squatting,Script.andThen,interpret_bind]
    exact (bind_of_ok began).trans (interpret_remove idles.present removed .done)
  have executed : squatting.execute 1 { own := () } = (.replied (.filter (some 1)),w) := by
    rw [Script.execute,ran]
  rw [executed]
  refine ⟨by simp,fun consistent => ?_⟩
  have there : (w.store.chain 0).contains "late" = true := by
    rw [left]
    decide
  obtain ⟨_,listed,-⟩ := (consistent.contains "late").mp there
  have nothing : (w.store.chain 0).getAll 0 = [] := by
    rw [left]
    decide
  rw [nothing] at listed
  cases listed

end Effect
end SessionPipeline
