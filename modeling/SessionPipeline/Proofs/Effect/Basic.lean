import SessionPipeline.Execution

/-! What the primitive computations do to a world, and the weakest condition under which a
computation ends in a given way. A run that is out of fuel has not ended, so it satisfies every
condition. -/
namespace SessionPipeline

theorem ok_of_except_bind {ε α β : Type} {first : Except ε α} {next : α → Except ε β} {b : β}
    (returned : (first >>= next) = .ok b) : ∃ a, first = .ok a ∧ next a = .ok b := by
  cases first with
  | error failure => cases returned
  | ok a => exact ⟨a,rfl,returned⟩

namespace Session

theorem attribute?_setAttribute (s : Session) (key : AttributeKey) (value : Message) :
    (s.setAttribute key value).attribute? key = some value := by
  simp [setAttribute,attribute?]

theorem attribute?_setAttribute_of_ne (s : Session) {key other : AttributeKey} (differs : key ≠ other)
    (value : Message) : (s.setAttribute other value).attribute? key = s.attribute? key := by
  simp only [setAttribute,attribute?,lookup_field,lookup_filter,if_neg differs]

theorem attribute?_removeAttribute_of_ne (s : Session) {key other : AttributeKey} (differs : key ≠ other) :
    (s.removeAttribute other).attribute? key = s.attribute? key :=
  (lookup_filter other key s.attributes).trans (if_neg differs)

end Session

namespace World

variable {σ : Type}

def mapStore (w : World σ) (change : Store → Store) : World σ := { w with store := change w.store }

def mapSession (w : World σ) (ref : SessionRef) (change : Session → Session) : World σ :=
  w.mapStore fun s => { s with sessions := s.sessions.modify ref change }

def mapChain (w : World σ) (ref : SessionRef) (change : Chain → Chain) : World σ :=
  w.mapSession ref fun s => { s with chain := change s.chain }

def record (w : World σ) (observation : Observation) : World σ :=
  w.mapStore fun s => { s with journal := observation :: s.journal }

def logged (w : World σ) (logger : String) (level : Logging.Level) (text : Bytes)
    (context : Logging.Context := {}) : World σ :=
  let written := w.store.logging.log (Bytes.ofString logger) level text context
  w.mapStore fun s => { s with
    logging := written.2, journal := (written.1.map .emitted).reverse ++ s.journal }

theorem session_mapSession {w : World σ} {ref : SessionRef} (present : ref < w.store.sessions.size)
    (change : Session → Session) :
    (w.mapSession ref change).store.session ref = change (w.store.session ref) := by
  simp [mapSession,mapStore,Store.session,present,Array.getElem_modify]

theorem session_mapSession_of_ne (w : World σ) {ref r : SessionRef} (other : ref ≠ r)
    (change : Session → Session) : (w.mapSession r change).store.session ref = w.store.session ref := by
  simp [mapSession,mapStore,Store.session,Array.getElem?_modify,other.symm]

theorem session_mapSession_absent (w : World σ) {ref : SessionRef}
    (absent : ¬ ref < w.store.sessions.size) (change : Session → Session) :
    (w.mapSession ref change).store.session ref = w.store.session ref := by
  simp [mapSession,mapStore,Store.session,absent]

/-- Whatever a change of sessions leaves alone is as before, in each session. -/
theorem session_mapSession_eq {α : Type} (what : Session → α) {change : Session → Session}
    (keeps : ∀ s, what (change s) = what s) (w : World σ) (ref other : SessionRef) :
    what ((w.mapSession ref change).store.session other) = what (w.store.session other) := by
  simp only [mapSession,mapStore,Store.session,Array.getD_eq_getD_getElem?,Array.getElem?_modify]
  split
  · cases w.store.sessions[other]? with
    | none => rfl
    | some s => exact keeps s
  · rfl

theorem filter_record (w : World σ) (o : Observation) (id : FilterId) :
    (w.record o).store.filter id = w.store.filter id := rfl

theorem chain_mapChain {w : World σ} {ref : SessionRef} (present : ref < w.store.sessions.size)
    (change : Chain → Chain) :
    (w.mapChain ref change).store.chain ref = change (w.store.chain ref) :=
  congrArg Session.chain (session_mapSession present _)

theorem chain_mapChain_of_ne (w : World σ) {ref other : SessionRef} (differs : other ≠ ref)
    (change : Chain → Chain) : (w.mapChain ref change).store.chain other = w.store.chain other := by
  simp [mapChain,mapSession,mapStore,Store.chain,Store.session,Array.getElem?_modify,differs.symm]

theorem chain_mapChain_absent {w : World σ} {ref : SessionRef}
    (absent : ¬ ref < w.store.sessions.size) (change : Chain → Chain) (other : SessionRef) :
    (w.mapChain ref change).store.chain other = w.store.chain other := by
  by_cases same : other = ref
  · subst same
    simp [mapChain,mapSession,mapStore,Store.chain,Store.session,absent]
  · exact chain_mapChain_of_ne w same change

theorem chain_absent {w : World σ} {ref : SessionRef} (absent : ¬ ref < w.store.sessions.size) :
    w.store.chain ref = .empty := by
  simp only [Store.chain,Store.session,Array.getD_eq_getD_getElem?,
    Array.getElem?_eq_none (Nat.le_of_not_lt absent)]
  rfl

end World

namespace Effect

variable {σ α β : Type}

theorem bind_apply (first : Effect σ α) (next : α → Effect σ β) (w : World σ) :
    (first >>= next) w = match first w with
      | .ok a w => next a w
      | .error stop w => .error stop w := by
  simp only [bind,EStateM.bind]
  cases first w <;> rfl

theorem bind_of_ok {first : Effect σ α} {next : α → Effect σ β} {w w' : World σ} {a : α}
    (returned : first w = .ok a w') : (first >>= next) w = next a w' := by
  rw [bind_apply,returned]

theorem ok_of_bind {first : Effect σ α} {next : α → Effect σ β} {b : β}
    {w w' : World σ} (returned : (first >>= next) w = .ok b w') :
    ∃ a w₁, first w = .ok a w₁ ∧ next a w₁ = .ok b w' := by
  rw [bind_apply] at returned
  cases ended : first w with
  | ok a w₁ =>
    rw [ended] at returned
    exact ⟨a,w₁,rfl,returned⟩
  | error stop w₁ =>
    rw [ended] at returned
    cases returned

theorem error_of_bind_pure {body : Effect σ α} {reply : α → β} {w w' : World σ} {stop : Stop}
    (failed : (do return reply (← body) : Effect σ β) w = .error stop w') :
    body w = .error stop w' := by
  rw [bind_apply] at failed
  cases ended : body w with
  | ok a w₁ =>
    rw [ended] at failed
    cases failed
  | error stop₁ w₁ =>
    rw [ended] at failed
    cases failed
    rfl

@[simp] theorem pure_apply (a : α) (w : World σ) : (pure a : Effect σ α) w = .ok a w := rfl

theorem get_apply (w : World σ) : (MonadState.get : Effect σ (World σ)) w = .ok w w := rfl

theorem ofExcept_apply (a : α) (w : World σ) : (ofExcept (.ok a) : Effect σ α) w = .ok a w := rfl

@[simp] theorem store_apply (w : World σ) : store w = .ok w.store w := rfl

@[simp] theorem modifyStore_apply (change : Store → Store) (w : World σ) :
    modifyStore change w = .ok () (w.mapStore change) := rfl

@[simp] theorem session_apply (ref : SessionRef) (w : World σ) :
    session ref w = .ok (w.store.session ref) w := rfl

@[simp] theorem sessionId_apply (ref : SessionRef) (w : World σ) :
    sessionId ref w = .ok (w.store.session ref).id w := rfl

@[simp] theorem modifySession_apply (ref : SessionRef) (change : Session → Session) (w : World σ) :
    modifySession ref change w = .ok () (w.mapSession ref change) := rfl

@[simp] theorem chain_apply (ref : SessionRef) (w : World σ) :
    chain ref w = .ok (w.store.chain ref) w := rfl

@[simp] theorem modifyChain_apply (ref : SessionRef) (change : Chain → Chain) (w : World σ) :
    modifyChain ref change w = .ok () (w.mapChain ref change) := rfl

@[simp] theorem filter_apply (id : FilterId) (w : World σ) :
    filter id w = .ok (w.store.filter id) w := rfl

@[simp] theorem request_apply (id : RequestId) (w : World σ) :
    request id w = .ok (w.store.request id) w := rfl

@[simp] theorem observe_apply (observation : Observation) (w : World σ) :
    observe observation w = .ok () (w.record observation) := rfl

@[simp] theorem logBytes_apply (logger : String) (level : Logging.Level) (text : Bytes)
    (context : Logging.Context) (w : World σ) :
    logBytes logger level text context w = .ok () (w.logged logger level text context) := rfl

@[simp] theorem log_apply (logger : String) (level : Logging.Level) (text : String) (w : World σ) :
    log logger level text w = .ok () (w.logged logger level (Bytes.ofString text)) := rfl

/-- Sessions that there are can be named. -/
theorem needSessions_apply {refs : List SessionRef} {w : World σ}
    (present : ∀ ref ∈ refs, ref < w.store.sessions.size) : needSessions refs w = .ok () w := by
  have all : refs.all (· < w.store.sessions.size) = true := by simpa using present
  unfold needSessions
  rw [bind_of_ok (store_apply w),all]
  rfl

/-- The computation, started in the world, returns in a way that satisfies `ok` or fails in a way
that satisfies `failed`, if it ends at all. -/
def wp (body : Effect σ α) (ok : α → World σ → Prop) (failed : Failure → World σ → Prop)
    (w : World σ) : Prop :=
  match body w with
  | .ok a w => ok a w
  | .error (.failed failure) w => failed failure w
  | .error .outOfFuel _ => True

/-- The same, and a run that is out of fuel leaves a world that satisfies `stopped`. -/
def ends (body : Effect σ α) (ok : α → World σ → Prop) (failed : Failure → World σ → Prop)
    (stopped : World σ → Prop) (w : World σ) : Prop :=
  match body w with
  | .ok a w => ok a w
  | .error (.failed failure) w => failed failure w
  | .error .outOfFuel w => stopped w

variable {ok : α → World σ → Prop} {failed : Failure → World σ → Prop} {stopped : World σ → Prop}
  {w : World σ}

theorem wp_of_ends {body : Effect σ α} {ok' : α → World σ → Prop} {failed' : Failure → World σ → Prop}
    (holds : ends body ok failed stopped w) (returns : ∀ a w', ok a w' → ok' a w')
    (fails : ∀ failure w', failed failure w' → failed' failure w') : wp body ok' failed' w := by
  unfold ends at holds
  unfold wp
  split
  · rename_i a w' ended
    rw [ended] at holds
    exact returns a w' holds
  · rename_i failure w' ended
    rw [ended] at holds
    exact fails failure w' holds
  · trivial

theorem ends_mono {body : Effect σ α} {ok' : α → World σ → Prop} {failed' : Failure → World σ → Prop}
    {stopped' : World σ → Prop} (holds : ends body ok failed stopped w)
    (returns : ∀ a w', ok a w' → ok' a w')
    (fails : ∀ failure w', failed failure w' → failed' failure w')
    (stops : ∀ w', stopped w' → stopped' w') : ends body ok' failed' stopped' w := by
  unfold ends at holds ⊢
  split
  · rename_i a w' ended
    rw [ended] at holds
    exact returns a w' holds
  · rename_i failure w' ended
    rw [ended] at holds
    exact fails failure w' holds
  · rename_i w' ended
    rw [ended] at holds
    exact stops w' holds

theorem ends_bind {first : Effect σ β} {next : β → Effect σ α} :
    ends (first >>= next) ok failed stopped w ↔
      ends first (fun b w' => ends (next b) ok failed stopped w') failed stopped w := by
  unfold ends
  rw [bind_apply]
  cases first w with
  | ok b w' => rfl
  | error stop w' => cases stop <;> rfl

theorem ends_attempt {body : Effect σ β} {ok : Except Failure β → World σ → Prop} :
    ends (attempt body) ok failed stopped w ↔
      ends body (fun b w' => ok (.ok b) w') (fun failure w' => ok (.error failure) w') stopped w := by
  unfold ends attempt
  cases body w with
  | ok b w' => rfl
  | error stop w' => cases stop <;> rfl

theorem ends_of_ok {body : Effect σ α} {a : α} {w' : World σ} (returned : body w = .ok a w') :
    ends body ok failed stopped w ↔ ok a w' := by
  unfold ends
  rw [returned]

theorem ends_bind_of_ok {first : Effect σ β} {next : β → Effect σ α} {b : β} {w' : World σ}
    (returned : first w = .ok b w') :
    ends (first >>= next) ok failed stopped w ↔ ends (next b) ok failed stopped w' := by
  rw [ends_bind,ends_of_ok returned]

theorem ends_ofExcept {result : Except Failure α} :
    ends (ofExcept result) ok failed stopped w ↔
      match result with
      | .ok a => ok a w
      | .error failure => failed failure w := by
  cases result <;> rfl

end Effect
end SessionPipeline
