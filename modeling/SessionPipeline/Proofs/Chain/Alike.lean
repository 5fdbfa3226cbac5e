import SessionPipeline.Proofs.Chain.Mirror
import SessionPipeline.Proofs.Effect.Calm

/-! Hooks that do alike in twin worlds: those of built-in filters always, and those of code that only
returns or fails, whatever handle it is given. -/
namespace SessionPipeline

variable {σ : Type}

/-- Code that returns or fails at once when it is run as a hook, whatever the handle. -/
def Blunt (body : Invocation → Script σ) : Prop :=
  ∀ hook name, (∃ reply, ∀ h, body (.hook hook name h) = .done reply) ∨
    ∃ failure, ∀ h, body (.hook hook name h) = .fail failure

namespace World

/-- To be the same, with this code. -/
def Same (code : Array (Invocation → Script σ)) (u u' : World σ) : Prop := u' = u ∧ u.code = code

variable {code : Array (Invocation → Script σ)} {ref r : SessionRef} {wear : EntryId → UInt32}
  {u u' : World σ} {change : Session → Session}

theorem besides_mapSession (apart : ∀ s c, change { s with chain := c } = { change s with chain := c })
    (u : World σ) (ref r : SessionRef) :
    (u.mapSession r change).besides ref = (u.besides ref).mapSession r change := by
  have sessions : (u.store.sessions.modify r change).modify ref (fun s => { s with chain := .empty }) =
      (u.store.sessions.modify ref fun s => { s with chain := .empty }).modify r change := by
    refine Array.ext (by simp) fun i inside inside' => ?_
    simp only [Array.getElem_modify]
    split <;> split <;> first | rfl | exact (apart _ _).symm
  simp only [besides,mapChain,mapSession,mapStore,sessions]

theorem Twin.mapSession (twin : u.Twin (Same code) ref wear u')
    (apart : ∀ s c, change { s with chain := c } = { change s with chain := c }) (r : SessionRef) :
    (u.mapSession r change).Twin (Same code) ref wear (u'.mapSession r change) where
  present := by rw [sessions_mapSession]; exact twin.present
  present' := by rw [sessions_mapSession]; exact twin.present'
  worn := by
    have same (s : Session) : (change s).chain = s.chain := by
      have kept := congrArg Session.chain (apart s s.chain)
      exact kept
    rw [chain_mapSession same,chain_mapSession same]
    exact twin.worn
  besides := by
    obtain ⟨same,coded⟩ := twin.besides
    rw [besides_mapSession apart,besides_mapSession apart,same]
    exact ⟨rfl,coded⟩

theorem Twin.codes (twin : u.Twin (Same code) ref wear u') : u.code = code ∧ u'.code = code := by
  have same := congrArg World.code twin.besides.1
  exact ⟨twin.besides.2,same.trans twin.besides.2⟩

theorem Twin.filters (twin : u.Twin (Same code) ref wear u') : u'.store.filters = u.store.filters := by
  have same := congrArg (fun w : World σ => w.store.filters) twin.besides.1
  exact same

end World

namespace Effect

open World

variable {code : Array (Invocation → Script σ)} {ref : SessionRef} {wear : EntryId → UInt32}
  {t u u' : World σ} {flight : SessionRef → List EntryId}

theorem modifySession_parallel (twin : u.Twin (Same code) ref wear u') (r : SessionRef)
    {change : Session → Session}
    (apart : ∀ s c, change { s with chain := c } = { change s with chain := c }) :
    Parallel (Same code) ref wear t (modifySession r change) (modifySession r change) u u' :=
  mirrors_returned rfl rfl ⟨rfl,twin.mapSession apart r⟩

/-- The codecs of twin chains are the same. -/
theorem codecsOf_twins {ids flight : List EntryId} (holds : (u.store.chain ref).Holds ids flight)
    (twin : u.Twin (Same code) ref wear u') :
    ∃ codecs, codecsOf ref u = .ok codecs u ∧ codecsOf ref u' = .ok codecs u' := by
  refine ⟨_,rfl,?_⟩
  unfold codecsOf
  rw [bind_of_ok (store_apply u'),(twin.worn.tells holds ref).getAll,List.filterMap_map]
  simp only [Store.filter,twin.filters]
  rfl

theorem admitCodec_parallel (twin : u.Twin (Same code) ref wear u') (self : FilterId) (name : String)
    (codecs : List (String × FilterId)) :
    Parallel (Same code) ref wear t (admitCodec self name ref codecs) (admitCodec self name ref codecs) u u' := by
  induction codecs generalizing u u' with
  | nil => exact mirrors_returned rfl rfl ⟨rfl,twin⟩
  | cons other rest ih =>
    unfold admitCodec
    dsimp only
    split
    · exact mirrors_failed rfl rfl twin
    · split
      · refine .bind (modifySession_parallel twin ref fun _ _ => rfl) (fun _ => keeping_admitCodec _ _ _ _)
          fun _ _ _ _ _ _ both => ih both.2
      · exact ih twin

theorem blunt_parallel (blunt : ∀ (id : CodeId) body, code[id]? = some body → Blunt body)
    (twin : u.Twin (Same code) ref wear u') (n : Nat) (id : CodeId) (hook : Hook) (name : String)
    (h h' : Handle) :
    Parallel (Same code) ref wear t (performWith n (.run id (.hook hook name h)))
      (performWith n (.run id (.hook hook name h'))) u u' := by
  cases n with
  | zero => exact fun _ => .stopped u u'
  | succ n =>
    obtain ⟨coded,coded'⟩ := twin.codes
    cases found : code[id]? with
    | none =>
      have absent {w : World σ} (coded : w.code = code) (how : Invocation) :
          (performWith (n + 1) (.run id how) : Effect σ Reply) w = .ok .unit w := by
        rw [performWith,ofTask,bind_of_ok (get_apply w),coded,found]
        rfl
      exact mirrors_returned (absent coded _) (absent coded' _) ⟨rfl,twin⟩
    | some body =>
      have ran := run_apply ((congrArg (·[id]?) coded).trans found) n (.hook hook name h)
      have ran' := run_apply ((congrArg (·[id]?) coded').trans found) n (.hook hook name h')
      rcases blunt id body found hook name with ⟨reply,done⟩ | ⟨failure,fails⟩
      · rw [done] at ran ran'
        exact mirrors_returned ran ran' ⟨rfl,twin⟩
      · rw [fails] at ran ran'
        exact mirrors_failed ran ran' twin

/-- Blunt code, and the hooks of all filters that are built in, do alike in twin worlds. -/
theorem blunt_alike (blunt : ∀ (id : CodeId) body, code[id]? = some body → Blunt body)
    (ref : SessionRef) (wear : EntryId → UInt32) : Alike (Same code) ref wear where
  labels := by
    rintro u _ ⟨rfl,_⟩
    rfl
  hooks {t u u' flight} few standing n f hook name h owned := by
    have recorded := standing.twin.record (.hooked f hook name h) (.hooked f hook name (h.worn ref wear))
    have silent : Parallel (Same code) ref wear t (pure () : Effect σ Unit) (pure ())
        (u.record (.hooked f hook name h)) (u'.record (.hooked f hook name (h.worn ref wear))) :=
      mirrors_returned rfl rfl ⟨rfl,recorded⟩
    have same : (u'.record (.hooked f hook name (h.worn ref wear))).store.filter f =
        (u.record (.hooked f hook name h)).store.filter f :=
      congrArg (fun filters : Array Filter => filters.getD f default) standing.twin.filters
    unfold runHook
    refine .bind_of_ok (observe_apply _ u) (observe_apply _ u') ?_
    refine .bind_of_ok (filter_apply f _) (filter_apply f _) ?_
    rw [same,Handle.worn_owner,owned]
    generalize (u.record (.hooked f hook name h)).store.filter f = found
    cases found with
    | noop | adapter => cases hook <;> exact silent
    | logging settings =>
      cases hook with
      | postAdd => exact modifySession_parallel recorded ref fun _ _ => rfl
      | postRemove => exact modifySession_parallel recorded ref fun _ _ => rfl
      | _ => exact silent
    | codec =>
      cases hook with
      | preAdd =>
        obtain ⟨ids,holds⟩ := standing.inOrder ref
        have holds : ((u.record (.hooked f .preAdd name h)).store.chain ref).Holds ids (flight ref) := holds
        obtain ⟨codecs,listed,listed'⟩ := codecsOf_twins holds recorded
        exact .bind_of_ok listed listed' (admitCodec_parallel recorded f name codecs)
      | postRemove => exact modifySession_parallel recorded ref fun _ _ => rfl
      | _ => exact silent
    | custom label id =>
      exact (blunt_parallel blunt recorded n id hook name h (h.worn ref wear)).map fun _ => ()

end Effect
end SessionPipeline
