import SessionPipeline.Proofs.Chain.Reached
import SessionPipeline.Proofs.Chain.Refusal

/-! Edits of two chains side by side, of which one has worn slots. As long as hooks do the same in
both worlds, so does everything that is done to the chains. -/
namespace SessionPipeline

variable {σ : Type}

namespace World

/-- A world without what edits of this session's chain change: the chain, history and the log. -/
def besides (w : World σ) (ref : SessionRef) : World σ :=
  (w.mapChain ref fun _ => .empty).mapStore fun s => { s with journal := [], logging := .initial }

theorem besides_mapChain (w : World σ) (ref : SessionRef) (change : Chain → Chain) :
    (w.mapChain ref change).besides ref = w.besides ref := by
  have sessions : (w.store.sessions.modify ref fun s => { s with chain := change s.chain }).modify ref
      (fun s => { s with chain := .empty }) =
        w.store.sessions.modify ref fun s => { s with chain := .empty } := by
    refine Array.ext (by simp) fun i inside inside' => ?_
    simp only [Array.getElem_modify]
    split <;> rfl
  simp only [besides,mapChain,mapSession,mapStore,sessions]

/-- Two worlds that differ in how worn a chain is and are related in all that is besides. -/
structure Twin (Q : World σ → World σ → Prop) (ref : SessionRef) (wear : EntryId → UInt32)
    (u u' : World σ) : Prop where
  present : ref < u.store.sessions.size
  present' : ref < u'.store.sessions.size
  worn : (u.store.chain ref).Worn wear (u'.store.chain ref)
  besides : Q (u.besides ref) (u'.besides ref)

variable {Q : World σ → World σ → Prop} {ref : SessionRef} {wear : EntryId → UInt32}
  {u u' : World σ}

theorem Twin.mapChain (twin : u.Twin Q ref wear u') {change change' : Chain → Chain}
    (worn : (change (u.store.chain ref)).Worn wear (change' (u'.store.chain ref))) :
    (u.mapChain ref change).Twin Q ref wear (u'.mapChain ref change') where
  present := by simpa [World.mapChain] using twin.present
  present' := by simpa [World.mapChain] using twin.present'
  worn := by
    rw [chain_mapChain twin.present,chain_mapChain twin.present']
    exact worn
  besides := by
    rw [besides_mapChain,besides_mapChain]
    exact twin.besides

theorem Twin.record (twin : u.Twin Q ref wear u') (o o' : Observation) :
    (u.record o).Twin Q ref wear (u'.record o') := { twin with }

theorem Twin.logged (twin : u.Twin Q ref wear u') (logger : String) (level : Logging.Level)
    (text text' : Bytes) (context context' : Logging.Context) :
    (u.logged logger level text context).Twin Q ref wear (u'.logged logger level text' context') :=
  { twin with }

end World

namespace Effect

open World

variable {α β : Type}

/-- To add to history only. -/
def recalling : Contract σ where
  terms := .free
  ended w w' := w.store.journal <:+ w'.store.journal
  stopped w w' := w.store.journal <:+ w'.store.journal

instance : Permissive (recalling : Contract σ) where
  refl _ := List.suffix_refl _
  trans := List.IsSuffix.trans
  quiet quiet := by
    obtain ⟨news,journal,_⟩ := quiet.news
    exact ⟨news,journal.symm⟩
  stop recalls := recalls
  after := List.IsSuffix.trans
  awaited _ _ _ _ := List.suffix_refl _

theorem recalling_overlooks (ref : SessionRef) : Overlooks (recalling : Contract σ) ref where
  changes _ _ := List.suffix_refl _
  records _ _ := List.suffix_cons _ _

/-- What is performed without a watch keeps every contract that asks nothing of code. -/
theorem performWith_runs {R : Contract σ} [Permissive R] (free : R.terms = .free)
    (edits : ∀ perform, Performs R perform → Edits R perform) (n : Nat) :
    Performs R (performWith n) := by
  rw [← performUntil_never]
  exact performUntil_keeps (free ▸ Watch.abides_free .never) edits n

theorem recalling_edits {perform : Perform σ} (performs : Performs recalling perform) :
    Edits (recalling : Contract σ) perform :=
  overlooked_edits (fun ref _ => recalling_overlooks ref) performs

theorem performWith_recalling (n : Nat) : Performs (recalling : Contract σ) (performWith n) :=
  performWith_runs rfl (fun _ => recalling_edits) n

theorem performWith_recalls (n : Nat) (code : CodeId) (how : Invocation) :
    Keeping recalling (performWith n (.run code how) : Effect σ Reply) :=
  keeping_run (performWith_recalling n) code how

theorem performWith_evolves (n : Nat) (code : CodeId) (how : Invocation) :
    Evolving .free (performWith n (.run code how) : Effect σ Reply) :=
  keeping_run (performWith_runs rfl (fun _ => evolution_edits) n) code how

/-- How two computations end alike. -/
inductive Mirrored (returns : α → α → World σ → World σ → Prop) (fails : World σ → World σ → Prop) :
    EStateM.Result Stop (World σ) α → EStateM.Result Stop (World σ) α → Prop
  | returned {a a' : α} {v v' : World σ} (related : returns a a' v v') :
      Mirrored returns fails (.ok a v) (.ok a' v')
  | failed (failure : Failure) {v v' : World σ} (related : fails v v') :
      Mirrored returns fails (.error (.failed failure) v) (.error (.failed failure) v')
  | stopped (v v' : World σ) :
      Mirrored returns fails (.error .outOfFuel v) (.error .outOfFuel v')

/-- The two computations end alike if the first comes no further than the history of `t`. -/
def Mirrors (t : World σ) (returns : α → α → World σ → World σ → Prop)
    (fails : World σ → World σ → Prop) (m m' : Effect σ α) (u u' : World σ) : Prop :=
  (m.leaves u).store.journal <:+ t.store.journal → Mirrored returns fails (m u) (m' u')

section Mirrors

variable {t u u' v v' : World σ} {returns : α → α → World σ → World σ → Prop}
  {fails : World σ → World σ → Prop} {m m' : Effect σ α}

theorem leaves_recalls (keeping : Keeping recalling m) (u : World σ) :
    u.store.journal <:+ (m.leaves u).store.journal :=
  ends_leaves (P := fun w => u.store.journal <:+ w.store.journal) (keeping u)

theorem leaves_of_ok {a : α} (returned : m u = .ok a v) : m.leaves u = v := by
  rw [leaves,returned]

/-- Where the history of `t` is not left, as long as what comes after adds to history only. -/
theorem Mirrors.early (recalls : Keeping recalling m)
    (mirrors : u.store.journal <:+ t.store.journal → Mirrors t returns fails m m' u u') :
    Mirrors t returns fails m m' u u' := fun reached =>
  mirrors ((leaves_recalls recalls u).trans reached) reached

theorem mirrors_returned {a a' : α} (returned : m u = .ok a v) (returned' : m' u' = .ok a' v')
    (related : returns a a' v v') : Mirrors t returns fails m m' u u' := fun _ => by
  rw [returned,returned']
  exact .returned related

theorem mirrors_failed {failure : Failure} (failed : m u = .error (.failed failure) v)
    (failed' : m' u' = .error (.failed failure) v') (related : fails v v') :
    Mirrors t returns fails m m' u u' := fun _ => by
  rw [failed,failed']
  exact .failed failure related

variable {returns₁ : β → β → World σ → World σ → Prop} {fails₁ : World σ → World σ → Prop}
  {first first' : Effect σ β} {next next' : β → Effect σ α}

/-- One after the other, as long as what comes after adds to history only. -/
theorem Mirrors.bind (head : Mirrors t returns₁ fails first first' u u')
    (recalls : ∀ b, Keeping recalling (next b))
    (rest : ∀ b b' v v', first u = .ok b v → v.store.journal <:+ t.store.journal →
      returns₁ b b' v v' → Mirrors t returns fails (next b) (next' b') v v') :
    Mirrors t returns fails (first >>= next) (first' >>= next') u u' := by
  intro reached
  have alike : (first.leaves u).store.journal <:+ t.store.journal := by
    refine List.IsSuffix.trans ?_ reached
    rw [leaves,leaves,bind_apply]
    cases first u with
    | ok b v => exact leaves_recalls (recalls b) v
    | error stop v => exact List.suffix_refl _
  have ended := head alike
  rw [leaves,bind_apply] at reached
  rw [bind_apply,bind_apply]
  cases result : first u with
  | ok b v =>
    rw [result] at ended reached
    generalize first' u' = result' at ended
    cases ended with
    | returned related =>
      exact rest b _ v _ result ((leaves_recalls (recalls b) v).trans reached) related reached
  | error stop v =>
    rw [result] at ended
    generalize first' u' = result' at ended
    cases ended with
    | failed failure related => exact .failed failure related
    | stopped => exact .stopped _ _

/-- How two attempts come out alike. -/
inductive Tried (returns : α → α → World σ → World σ → Prop) (fails : World σ → World σ → Prop) :
    Except Failure α → Except Failure α → World σ → World σ → Prop
  | returned {a a' : α} {v v' : World σ} (related : returns a a' v v') :
      Tried returns fails (.ok a) (.ok a') v v'
  | failed (failure : Failure) {v v' : World σ} (related : fails v v') :
      Tried returns fails (.error failure) (.error failure) v v'

theorem attempt_leaves (m : Effect σ α) (u : World σ) : (attempt m).leaves u = m.leaves u := by
  unfold leaves attempt
  cases m u with
  | ok a v => rfl
  | error stop v => cases stop <;> rfl

theorem Mirrors.attempt {fails' : World σ → World σ → Prop}
    (mirrors : Mirrors t returns fails m m' u u') :
    Mirrors t (Tried returns fails) fails' (attempt m) (attempt m') u u' := by
  intro reached
  rw [attempt_leaves] at reached
  have ended := mirrors reached
  unfold Effect.attempt
  generalize m u = result,m' u' = result' at ended
  cases ended with
  | returned related => exact .returned (.returned related)
  | failed failure related => exact .returned (.failed failure related)
  | stopped v v' => exact .stopped v v'

/-- What is known of how the first computation ends can be added. -/
theorem Mirrors.mono {returns' : α → α → World σ → World σ → Prop} {fails' : World σ → World σ → Prop}
    (mirrors : Mirrors t returns fails m m' u u')
    (returned : ∀ a a' v v', m u = .ok a v → v.store.journal <:+ t.store.journal →
      returns a a' v v' → returns' a a' v v')
    (failed : ∀ failure v v', m u = .error (.failed failure) v →
      v.store.journal <:+ t.store.journal → fails v v' → fails' v v') :
    Mirrors t returns' fails' m m' u u' := by
  intro reached
  have ended := mirrors reached
  rw [leaves] at reached
  cases result : m u with
  | ok a v =>
    rw [result] at ended reached
    generalize m' u' = result' at ended
    cases ended with
    | returned related => exact .returned (returned a _ v _ result reached related)
  | error stop v =>
    rw [result] at ended reached
    generalize m' u' = result' at ended
    cases ended with
    | failed failure related => exact .failed failure (failed failure v _ result reached related)
    | stopped => exact .stopped _ _

/-- Only where the two computations are started matters. -/
theorem Mirrors.of_eq {m₁ m₁' : Effect σ α} (same : m u = m₁ v) (same' : m' u' = m₁' v')
    (mirrors : Mirrors t returns fails m₁ m₁' v v') : Mirrors t returns fails m m' u u' := by
  intro reached
  rw [leaves,same] at reached
  rw [same,same']
  exact mirrors reached

theorem Mirrors.bind_of_ok {b b' : β} (returned : first u = .ok b v) (returned' : first' u' = .ok b' v')
    (rest : Mirrors t returns fails (next b) (next' b') v v') :
    Mirrors t returns fails (first >>= next) (first' >>= next') u u' :=
  .of_eq (Effect.bind_of_ok returned) (Effect.bind_of_ok returned') rest

end Mirrors
end Effect
end SessionPipeline
