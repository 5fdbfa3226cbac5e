import SessionPipeline.Proofs.Chain.Passage
import SessionPipeline.Proofs.Chain.Template

/-! Edits of a chain whose filters' hooks do nothing, step by step beside the same edits of a template:
what one edit does to the two, and from it what any sequence of edits does. -/
namespace SessionPipeline

variable {σ : Type}

/-- Code that may look at what there is and does nothing. -/
inductive Script.Idle : Script σ → Prop
  | done (reply : Reply) : Idle (.done reply)
  | look {next : Store → Script σ} (idle : ∀ s, Idle (next s)) : Idle (.look next)
  | get {next : σ → Script σ} (idle : ∀ own, Idle (next own)) : Idle (.get next)

/-- The hooks of this filter do nothing. -/
def World.Hookless (w : World σ) (filter : FilterId) : Prop :=
  match w.store.filter filter with
  | .noop | .adapter => True
  | .custom _ code => ∀ body, w.code[code]? = some body →
    ∀ hook name handle, (body (.hook hook name handle)).Idle
  | .logging _ | .codec .. => False

namespace Effect

/-- Edits of a session's chain one after the other, each with its reply or its failure and with the
chain as it is then. -/
def course (perform : Perform σ) (ref : SessionRef) :
    List Edit → Effect σ (List (Except Failure Reply × Chain))
  | [] => pure []
  | e :: rest => do
    let reply ← attempt (answer perform (e.call ref))
    let c ← chain ref
    return (reply,c) :: (← course perform ref rest)

variable {w₀ w : World σ} {ref : SessionRef} {t : Template} {ids flight : List EntryId}
  {name : String} {position : Position} {filter : FilterId} {failure : Failure}

theorem interpret_idle (respond : Call → Effect σ Reply) {script : Script σ} (idle : script.Idle)
    (w : World σ) : ∃ reply, interpret respond script w = .ok reply w := by
  induction idle with
  | done reply => exact ⟨reply,rfl⟩
  | look idle ih => exact ih w.store
  | get idle ih => exact ih w.own

/-- Running code that does nothing does nothing, at any depth but the last. -/
theorem runCode_idle (fuel : Nat) {code : CodeId} {how : Invocation}
    (idle : ∀ body, w.code[code]? = some body → (body how).Idle) :
    runCode (performWith (fuel + 1)) code how w = .ok () w := by
  have ran : ∃ reply, performWith (fuel + 1) (.run code how) w = .ok reply w := by
    rw [performWith,ofTask,bind_of_ok (get_apply w)]
    cases defined : w.code[code]? with
    | none => exact ⟨.unit,rfl⟩
    | some body => exact interpret_idle _ (idle body defined) w
  obtain ⟨reply,ran⟩ := ran
  exact bind_of_ok ran

theorem hook_apply (fuel : Nat) (hookless : w.Hookless filter) (hook : Hook) (name : String)
    (handle : Handle) : runHook (performWith (fuel + 1)) filter hook name handle w =
      .ok () (w.record (.hooked filter hook name handle)) := by
  rw [runHook,bind_of_ok (observe_apply _ w),bind_of_ok (filter_apply filter _)]
  have same : (w.record (.hooked filter hook name handle)).store.filter filter =
      w.store.filter filter := rfl
  rw [same]
  unfold World.Hookless at hookless
  split at hookless
  · rename_i kind
    rw [kind]
    cases hook <;> rfl
  · rename_i kind
    rw [kind]
    cases hook <;> rfl
  · rename_i label code kind
    rw [kind]
    exact runCode_idle fuel fun body defined => hookless body defined hook name handle
  · exact hookless.elim
  · exact hookless.elim

/-- The chain of a session shows a template whose filters' hooks do nothing, as they did at first. -/
structure Staged (t : Template) (ref : SessionRef) (w₀ w : World σ) (ids flight : List EntryId) :
    Prop where
  present : ref < w.store.sessions.size
  filters : w.store.filters = w₀.store.filters
  code : w.code = w₀.code
  shown : t.Shown (w.store.chain ref) ids flight
  hookless : ∀ e ∈ t.entries, w₀.Hookless e.2

namespace Staged

theorem still (staged : Staged t ref w₀ w ids flight) (hookless : w₀.Hookless filter) :
    w.Hookless filter := by
  unfold World.Hookless Store.filter at hookless ⊢
  rw [staged.filters,staged.code]
  exact hookless

theorem record (staged : Staged t ref w₀ w ids flight) (o : Observation) :
    Staged t ref w₀ (w.record o) ids flight :=
  ⟨staged.present,staged.filters,staged.code,staged.shown,staged.hookless⟩

theorem logged (staged : Staged t ref w₀ w ids flight) (logger : String) (level : Logging.Level)
    (text : Bytes) : Staged t ref w₀ (w.logged logger level text) ids flight :=
  ⟨staged.present,staged.filters,staged.code,staged.shown,staged.hookless⟩

/-- After an edit the chain shows the template that has been edited in the same way. -/
theorem edited (staged : Staged t ref w₀ w ids flight) {change : Chain → Chain} {t' : Template}
    {ids' flight' : List EntryId} (shown : t'.Shown (change (w.store.chain ref)) ids' flight')
    (hookless : ∀ e ∈ t'.entries, e ∈ t.entries ∨ w₀.Hookless e.2) :
    Staged t' ref w₀ (w.mapChain ref change) ids' flight' := by
  refine ⟨?_,staged.filters,staged.code,?_,?_⟩
  · simpa [World.mapChain,World.mapSession,World.mapStore] using staged.present
  · rw [World.chain_mapChain staged.present]
    exact shown
  · intro e member
    exact (hookless e member).elim (staged.hookless e) id

end Staged

/-- The computation returns, and that satisfies `ok`. -/
def Returns {α : Type} (body : Effect σ α) (ok : α → World σ → Prop) (w : World σ) : Prop :=
  ends body ok (fun _ _ => False) (fun _ => False) w

theorem Returns.exists_ok {α : Type} {body : Effect σ α} {ok : α → World σ → Prop} {w : World σ}
    (returns : Returns body ok w) : ∃ a w', body w = .ok a w' ∧ ok a w' := by
  unfold Returns ends at returns
  split at returns
  · rename_i a w' returned
    exact ⟨a,w',returned,returns⟩
  · exact returns.elim
  · exact returns.elim

section Edits

variable (fuel : Nat) (staged : Staged t ref w₀ w ids [])
include staged

theorem add_returns (hookless : w₀.Hookless filter)
    (admissible : (w.store.chain ref).checkAddition name position = .ok ()) :
    Returns (add (performWith (fuel + 1)) ref position name (some filter)) (fun _ w' => ∃ ids',
      Staged ⟨Template.insertAt position (name,filter) t.entries⟩ ref w₀ w' ids' []) w := by
  let handle := (w.store.chain ref).reserved ref name filter
  have slot := (staged.shown.holds.allocate_slot name filter).2.2
  have still := (allocate_checkAddition (w.store.chain ref) name name filter position).trans admissible
  have reserved : Staged t ref w₀ (w.reserve ref name filter) ids
      [((w.store.chain ref).allocate name filter).1] :=
    staged.edited (staged.shown.allocate name filter) fun e member => .inl member
  have asked := reserved.record (.hooked filter .preAdd name handle)
  have there : ((w.reserve ref name filter).record (.hooked filter .preAdd name handle)).store.chain ref =
      ((w.store.chain ref).allocate name filter).2 :=
    World.chain_mapChain staged.present fun _ => ((w.store.chain ref).allocate name filter).2
  obtain ⟨ids',shown⟩ := (staged.shown.allocate name filter).insert still
    (congrArg Slot.name slot) (congrArg Slot.filter slot)
  rw [← there] at shown
  have linked : Staged ⟨Template.insertAt position (name,filter) t.entries⟩ ref w₀
      (((w.reserve ref name filter).record (.hooked filter .preAdd name handle)).linkEntry ref handle
        name position) ids' [] := by
    apply Staged.record
    apply asked.edited shown
    intro e member
    rcases List.mem_cons.mp ((Template.insertAt_perm ..).mem_iff.mp member) with rfl | old
    · exact .inr hookless
    · exact .inl old
  have admitted : admitEntry (performWith (fuel + 1)) ref position name filter w =
      .ok handle (((w.reserve ref name filter).record (.hooked filter .preAdd name handle)).linkEntry
        ref handle name position) := by
    rw [admitEntry_asks _ filter admissible,
      attempt_bind_ok (hook_apply fuel (reserved.still hookless) .preAdd name handle)]
    dsimp only
    rw [bind_of_ok (chain_apply ref _),there,still]
    rfl
  rw [Returns,add,ends_bind_of_ok (needFilter_apply name filter w),ends_bind_of_ok admitted,ends_bind_of_ok (store_apply _),
    ends_bind_of_ok (logChain_apply ref _ _ _),confirmEntry,ends_bind,ends_attempt,
    ends_of_ok (hook_apply fuel ((linked.logged ..).still hookless) .postAdd name handle)]
  exact ⟨ids',(linked.logged ..).record _⟩

/-- What is removed is the template's filter of the name that the entry has. -/
theorem removeEntry_returns {id : EntryId} (member : id ∈ ids)
    (named : ((w.store.chain ref).slot id).name = name) :
    Returns (removeEntry (performWith (fuel + 1)) ref id) (fun removed w' => ∃ filter ids',
      t.get? name = some filter ∧ removed = some filter ∧ ids'.length < ids.length ∧
        Staged ⟨t.entries.filter (·.1 != name)⟩ ref w₀ w' ids' []) w := by
  subst named
  let c := w.store.chain ref
  obtain ⟨filter,got,holding⟩ := staged.shown.get?_of_find? (staged.shown.holds.find?_entry member)
  obtain ⟨ids',shown,shorter⟩ := staged.shown.drop member
  have hookless : w₀.Hookless filter :=
    staged.hookless (_,filter) ((staged.shown.get?_eq_some_iff _ filter).mp got)
  have asked := staged.record (.hooked filter .preRemove (c.slot id).name (c.handle ref id))
  have current : c.isCurrent (c.handle ref id) = true :=
    staged.shown.holds.isCurrent ref (by simp [member])
  have dropped : Staged ⟨t.entries.filter (·.1 != (c.slot id).name)⟩ ref w₀
      ((w.record (.hooked filter .preRemove (c.slot id).name (c.handle ref id))).dropEntry ref
        (c.handle ref id) (c.slot id).name) ids' [] := by
    apply Staged.record
    apply asked.edited shown
    intro e kept
    exact .inl (List.mem_of_mem_filter kept)
  rw [Returns,removeEntry,ends_bind_of_ok (chain_apply ref w)]
  dsimp only [Chain.entry]
  rw [holding]
  dsimp only
  rw [ends_bind,ends_attempt,ends_of_ok (hook_apply fuel (staged.still hookless) .preRemove _ _)]
  dsimp only
  rw [ends_bind_of_ok (chain_apply ref _)]
  have there : (w.record (.hooked filter .preRemove (c.slot id).name (c.handle ref id))).store.chain ref =
    c := rfl
  rw [there,if_pos current,ends_bind_of_ok (dropEntry_apply ref _ _ _),
    ends_bind_of_ok (logChain_apply ref _ _ _),
    ends_bind_of_ok (hook_apply fuel ((dropped.logged ..).still hookless) .postRemove _ _)]
  exact ⟨filter,ids',got,rfl,shorter,(dropped.logged ..).record _⟩

/-- The filter in the entry's place is another one and the template's as well. -/
theorem replace_returns {id : EntryId} (hookless : w₀.Hookless filter)
    (found : (w.store.chain ref).find? name = some id) :
    Returns (replace (performWith (fuel + 1)) ref name (some filter)) (fun replaced w' =>
      ∃ old, t.get? name = some old ∧ replaced = some old ∧
        Staged ⟨t.entries.map fun e => if e.1 == name then (name,filter) else e⟩ ref w₀ w' ids []) w := by
  let c := w.store.chain ref
  obtain ⟨old,got,holding⟩ := staged.shown.get?_of_find? found
  obtain ⟨member,_⟩ := (staged.shown.holds.find?_eq_some_iff name id).mp found
  have asked := staged.record (.hooked filter .preAdd name (c.handle ref id))
  have current : c.isCurrent (c.handle ref id) = true :=
    staged.shown.holds.isCurrent ref (by simp [member])
  have exchanged : Staged ⟨t.entries.map fun e => if e.1 == name then (name,filter) else e⟩ ref w₀
      ((w.record (.hooked filter .preAdd name (c.handle ref id))).mapChain ref
        fun d => d.setFilter (c.handle ref id).entry filter) ids [] := by
    apply asked.edited (staged.shown.setFilter found filter)
    intro e replaced
    obtain ⟨e,inside,rfl⟩ := List.mem_map.mp replaced
    split
    · exact .inr hookless
    · exact .inl inside
  rw [Returns,replace,ends_bind_of_ok (needFilter_apply name filter w),ends_bind_of_ok (chain_apply ref w),getHandle_eq_ok ref found]
  rw [ends_bind_of_ok (ofExcept_apply _ w),ends_bind,ends_attempt,
    ends_of_ok (hook_apply fuel (staged.still hookless) .preAdd name _),exchange]
  dsimp only
  rw [ends_bind_of_ok (chain_apply ref _)]
  have there : (w.record (.hooked filter .preAdd name (c.handle ref id))).store.chain ref = c := rfl
  have seated : (c.slot (c.handle ref id).entry).filter = some old := holding
  rw [there,current,if_neg (by simp),seated,ends_bind_of_ok (modifyChain_apply ref _ _),
    ends_bind_of_ok (store_apply _),ends_bind_of_ok (logChain_apply ref _ _ _),ends_bind,ends_attempt,
    ends_of_ok (hook_apply fuel ((exchanged.logged ..).still hookless) .postAdd name _)]
  exact ⟨old,got,rfl,(exchanged.logged ..).record _⟩

omit staged in
/-- One entry after the other is removed from the front until there is none. -/
theorem clear_returns (staged : Staged t ref w₀ w ids []) (enough : ids.length < fuel) :
    Returns (clear (performWith fuel) ref) (fun _ w' => Staged {} ref w₀ w' [] []) w := by
  induction fuel generalizing t w ids with
  | zero => cases enough
  | succ fuel ih =>
    obtain ⟨first,_⟩ := List.isChain_cons.mp staged.shown.holds.links
    rw [Returns,clear,ends_bind_of_ok (chain_apply ref w)]
    cases ids with
    | nil =>
      have none : t = {} := by
        cases t
        rw [Template.mk.injEq,← List.length_eq_zero_iff]
        exact staged.shown.length.symm
      rw [(first Chain.tail rfl).1]
      exact none ▸ staged
    | cons id rest =>
      have between := (staged.shown.holds.between (List.mem_cons_self (a := id))).2
      rw [(first id rfl).1]
      dsimp only
      rw [if_neg (by simpa using between),ends_bind]
      refine ends_mono (removeEntry_returns fuel staged List.mem_cons_self rfl) ?_ (fun _ _ => False.elim)
        fun _ => False.elim
      rintro _ w₁ ⟨filter,ids',_,_,shorter,left⟩
      obtain ⟨_,w₂,cleared,empty⟩ := (ih left (by simp at enough shorter; omega)).exists_ok
      have performed : performWith (fuel + 1) (.clear ref) w₁ = .ok .unit w₂ := bind_of_ok cleared
      rw [ends_bind_of_ok performed]
      exact empty

end Edits

/-- The chain answers an edit as the template does and shows what the template becomes. -/
def InStep (fuel : Nat) (t : Template) (e : Edit) (ref : SessionRef) (w₀ w : World σ) : Prop :=
  Returns (attempt (answer (performWith fuel) (e.call ref)))
    (fun reply w' => reply = (t.after e).1 ∧ ∃ ids, Staged (t.after e).2 ref w₀ w' ids []) w

section Steps

variable {fuel : Nat} {e : Edit} (staged : Staged t ref w₀ w ids [])
include staged

theorem answer_edit : answer (performWith fuel) (e.call ref) w = ofCall (performWith fuel) (e.call ref) w := by
  apply bind_of_ok
  apply needSessions_apply
  intro named member
  have same : named = ref := by
    cases e <;> exact List.mem_singleton.mp member
  exact same ▸ staged.present

theorem inStep_of_returns {reply : Reply} {left : Template} (edited : t.edit e = .ok (reply,left))
    (returns : Returns (ofCall (performWith fuel) (e.call ref))
      (fun replied w' => replied = reply ∧ ∃ ids, Staged left ref w₀ w' ids []) w) :
    InStep fuel t e ref w₀ w := by
  obtain ⟨_,w',returned,rfl,shows⟩ := returns.exists_ok
  rw [InStep,Template.after_ok edited,Returns,ends_attempt,
    ends_of_ok ((answer_edit staged).trans returned)]
  exact ⟨rfl,shows⟩

theorem inStep_of_failed (refused : t.edit e = .error failure)
    (failed : ofCall (performWith fuel) (e.call ref) w = .error (.failed failure) w) :
    InStep fuel t e ref w₀ w := by
  rw [InStep,Template.after_error refused,Returns,ends_attempt,ends,answer_edit staged,failed]
  exact ⟨rfl,ids,staged⟩

theorem add_inStep {filter? : Option FilterId} (hookless : ∀ f, filter? = some f → w₀.Hookless f) :
    InStep (fuel + 1) t (.add position name filter?) ref w₀ w := by
  cases filter? with
  | none => exact inStep_of_failed staged rfl rfl
  | some filter =>
    have added := staged.shown.add_eq position name filter
    cases admissible : (w.store.chain ref).checkAddition name position with
    | error failure =>
      rw [admissible] at added
      apply inStep_of_failed staged
      · rw [Template.edit,added]; rfl
      · have refused : add (performWith (fuel + 1)) ref position name (some filter) w =
            .error (.failed failure) w := by
          have admitted : admitEntry (performWith (fuel + 1)) ref position name filter w =
              .error (.failed failure) w := admitEntry_refused _ admissible
          rw [add,bind_of_ok (needFilter_apply name filter w),bind_apply,admitted]
        rw [Edit.call,ofCall,bind_apply,refused]
    | ok =>
      rw [admissible] at added
      apply inStep_of_returns staged
      · rw [Template.edit,added]; rfl
      · have returns := add_returns fuel staged (hookless filter rfl) admissible
        rw [Edit.call,ofCall,Returns,ends_bind]
        exact ends_mono returns (fun _ _ shows => ⟨rfl,shows⟩) (fun _ _ => id) fun _ => id

theorem remove_inStep : InStep (fuel + 1) t (.remove name) ref w₀ w := by
  have looked := staged.shown.get? name
  cases found : (w.store.chain ref).find? name with
  | none =>
    rw [found] at looked
    apply inStep_of_failed staged
    · rw [Template.edit,Template.remove,looked]; rfl
    · have refused : remove (performWith (fuel + 1)) ref name w = .error (.failed (.nameNotFound name)) w := by
        rw [remove,bind_of_ok (chain_apply ref w),found]; rfl
      rw [Edit.call,ofCall,bind_apply,refused]
  | some id =>
    obtain ⟨member,named⟩ := (staged.shown.holds.find?_eq_some_iff name id).mp found
    obtain ⟨old,got,_⟩ := staged.shown.get?_of_find? found
    apply inStep_of_returns staged
    · rw [Template.edit,Template.remove,got]; rfl
    · have returns := removeEntry_returns fuel staged member named
      rw [Edit.call,ofCall,Returns,ends_bind,remove,ends_bind_of_ok (chain_apply ref w),found]
      refine ends_mono returns ?_ (fun _ _ => False.elim) fun _ => False.elim
      rintro _ w' ⟨filter,ids',same,rfl,_,left⟩
      rw [got] at same
      cases same
      exact ⟨rfl,ids',left⟩

theorem replace_inStep {filter? : Option FilterId} (hookless : ∀ f, filter? = some f → w₀.Hookless f) :
    InStep (fuel + 1) t (.replace name filter?) ref w₀ w := by
  cases filter? with
  | none => exact inStep_of_failed staged rfl rfl
  | some filter =>
    have looked := staged.shown.get? name
    cases found : (w.store.chain ref).find? name with
    | none =>
      rw [found] at looked
      apply inStep_of_failed staged
      · rw [Template.edit,Template.replace,looked]; rfl
      · have refused : replace (performWith (fuel + 1)) ref name (some filter) w =
            .error (.failed (.nameNotFound name)) w := by
          rw [replace,bind_of_ok (needFilter_apply name filter w),bind_of_ok (chain_apply ref w),getHandle_eq_error ref found]; rfl
        rw [Edit.call,ofCall,bind_apply,refused]
    | some id =>
      obtain ⟨old,got,_⟩ := staged.shown.get?_of_find? found
      apply inStep_of_returns staged
      · rw [Template.edit,Template.replace,got]; rfl
      · have returns := replace_returns fuel staged (hookless filter rfl) found
        rw [Edit.call,ofCall,Returns,ends_bind]
        refine ends_mono returns ?_ (fun _ _ => False.elim) fun _ => False.elim
        rintro _ w' ⟨filter,same,rfl,left⟩
        rw [got] at same
        cases same
        exact ⟨rfl,ids,left⟩

/-- An edit of the chain goes as the same edit of the template. -/
theorem edit_inStep (hookless : ∀ f, e.brings = some f → w₀.Hookless f)
    (enough : t.entries.length < fuel) : InStep fuel t e ref w₀ w := by
  obtain ⟨fuel,rfl⟩ : ∃ n, fuel = n + 1 := Nat.exists_eq_add_one.mpr (by omega)
  cases e with
  | add position name filter => exact add_inStep staged hookless
  | remove name => exact remove_inStep staged
  | replace name filter => exact replace_inStep staged hookless
  | clear =>
    apply inStep_of_returns staged rfl
    have cleared := clear_returns (fuel + 1) staged (by rw [staged.shown.length]; exact enough)
    rw [Edit.call,ofCall,Returns,ends_bind]
    exact ends_mono cleared (fun _ _ empty => ⟨rfl,[],empty⟩) (fun _ _ => id) fun _ => id

end Steps

/-- Each edit of the chain has the template's reply, and the chain then tells what the template does. -/
def Beside (ref : SessionRef) (steps : List (Except Failure Reply × Chain))
    (expected : List (Except Failure Reply × Template)) : Prop :=
  List.Forall₂ (fun step other => step.1 = other.1 ∧ other.2.Alike ref step.2) steps expected

theorem course_staged {fuel : Nat} {edits : List Edit} (staged : Staged t ref w₀ w ids [])
    (hookless : ∀ e ∈ edits, ∀ f, e.brings = some f → w₀.Hookless f)
    (enough : t.entries.length + edits.length ≤ fuel) :
    Returns (course (performWith fuel) ref edits) (fun steps _ => Beside ref steps (t.course edits)) w := by
  induction edits generalizing t w ids with
  | nil => exact List.Forall₂.nil
  | cons e rest ih =>
    rw [List.length_cons] at enough
    have step : InStep fuel t e ref w₀ w := edit_inStep staged (hookless e List.mem_cons_self) (by omega)
    obtain ⟨reply,w₁,replied,same,ids₁,staged₁⟩ := step.exists_ok
    have longer := Template.length_after t e
    obtain ⟨steps,w₂,returned,beside⟩ := (ih staged₁
      (fun e' member => hookless e' (List.mem_cons_of_mem _ member)) (by omega)).exists_ok
    rw [Returns,course,ends_bind_of_ok replied,ends_bind_of_ok (chain_apply ref w₁),
      ends_bind_of_ok returned]
    exact List.Forall₂.cons ⟨same,staged₁.shown.alike ref⟩ beside

/-- Edited step by step, a new chain and a new template answer every edit alike, be it with a filter or
with a failure, and tell the same after each, if the hooks of the filters do nothing. -/
theorem course_beside {ref : SessionRef} (present : ref < w.store.sessions.size)
    (new : w.store.chain ref = .empty) {edits : List Edit}
    (hookless : ∀ e ∈ edits, ∀ f, e.brings = some f → w.Hookless f) {fuel : Nat}
    (enough : edits.length ≤ fuel) :
    ∃ steps w', course (performWith fuel) ref edits w = .ok steps w' ∧
      Beside ref steps (({} : Template).course edits) := by
  have staged : Staged {} ref w w [] [] := by
    refine ⟨present,rfl,rfl,?_,?_⟩
    · rw [new]
      exact Template.shown_empty
    · intro e member
      cases member
  exact (course_staged staged hookless (by simpa using enough)).exists_ok

/-- A plain filter and one of an application's, added, refused, exchanged and removed in a new chain. -/
theorem course_beside_busy :
    let w : World Unit :=
      { store := { filters := #[.noop,.custom "quiet" 0], sessions := #[default] }
        own := (), code := #[fun _ => .done .unit] }
    let edits : List Edit := [.add .last "a" (some 0),.add (.before "a") "a" (some 1),
      .add (.after "a") "b" (some 1),.add (.before "c") "d" (some 0),.replace "a" (some 1),
      .remove "c",.remove "b",.add .first "e" none,.clear]
    0 < w.store.sessions.size ∧ w.store.chain 0 = .empty ∧
      (∀ e ∈ edits, ∀ f, e.brings = some f → w.Hookless f) ∧
      ∃ steps w', course (performWith 9) 0 edits w = .ok steps w' ∧
        Beside 0 steps (({} : Template).course edits) := by
  intro w edits
  have hookless (f : FilterId) : w.Hookless f := by
    rcases f with _ | _ | f
    · trivial
    · intro body defined hook name handle
      cases defined
      exact .done .unit
    · trivial
  have all : ∀ e ∈ edits, ∀ f, e.brings = some f → w.Hookless f := fun _ _ f _ => hookless f
  exact ⟨by decide,rfl,all,course_beside (by decide) rfl all (by decide)⟩

end Effect
end SessionPipeline
