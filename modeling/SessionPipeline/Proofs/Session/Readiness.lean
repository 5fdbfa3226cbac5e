import SessionPipeline.Proofs.Chain.Headed
import SessionPipeline.Proofs.Session.Announcing

/-! Computations that serve the requests of a session as they come. A session at a loopback has nothing
in its queue when such a computation begins, nor when it ends, and what becomes of requests meanwhile
is a row of requests served. Whatever else happens to a world leaves the session ready. -/
namespace SessionPipeline

namespace World

variable {σ : Type}

/-- The session is at a loopback, events get on from the head of its chain, and these requests wait. -/
structure Ready (w : World σ) (ref : SessionRef) (waiting : List RequestId) : Prop where
  present : ref < w.store.sessions.size
  queue : (w.store.session ref).queue.Holds waiting
  small : (w.store.session ref).queue.capacity ≤ 2^63
  loopback : ∃ flushed,
    w.store.processors[(w.store.session ref).processor]? = some (.loopback flushed)
  headed : (w.store.chain ref).Headed

/-- Nothing has become of the requests of the session, and it is as ready as it was. -/
structure Still (ref : SessionRef) (w w' : World σ) : Prop where
  marks : w'.store.marks ref = w.store.marks ref
  ready : ∀ waiting, w.Ready ref waiting → w'.Ready ref waiting

variable {ref r : SessionRef} {w w₁ w₂ w₃ w' : World σ} {waiting : List RequestId}

theorem Ready.congr (ready : w.Ready ref waiting) (sessions : w'.store.sessions = w.store.sessions)
    (loopbacks : ∀ p flushed : Nat, w.store.processors[p]? = some (.loopback flushed) →
      ∃ flushed', w'.store.processors[p]? = some (.loopback flushed')) :
    w'.Ready ref waiting := by
  have same : w'.store.session ref = w.store.session ref := by
    rw [Store.session,sessions]
    rfl
  obtain ⟨present,queue,small,⟨flushed,found⟩,headed⟩ := ready
  refine ⟨sessions ▸ present,same ▸ queue,same ▸ small,?_,?_⟩
  · rw [same]
    exact loopbacks _ flushed found
  · rw [Store.chain,same]
    exact headed

/-- A change of a session that leaves this one where it is, its queue apart. -/
theorem Ready.mapSession (ready : w.Ready ref waiting) (change : Session → Session)
    {waiting' : List RequestId} (processor : r = ref → ∀ s, (change s).processor = s.processor)
    (queue : r = ref → (change (w.store.session ref)).queue.Holds waiting' ∧
      (change (w.store.session ref)).queue.capacity ≤ 2^63)
    (chain : r = ref → (change (w.store.session ref)).chain.Headed)
    (other : r ≠ ref → waiting' = waiting) : (w.mapSession r change).Ready ref waiting' := by
  by_cases same : r = ref
  · subst same
    have changed := session_mapSession ready.present change
    refine ⟨by simpa [World.mapSession,mapStore] using ready.present,?_,?_,?_,?_⟩
    · rw [changed]
      exact (queue rfl).1
    · rw [changed]
      exact (queue rfl).2
    · rw [changed,processor rfl]
      exact ready.loopback
    · rw [Store.chain,changed]
      exact chain rfl
  · have kept := session_mapSession_of_ne w (Ne.symm same) change
    rw [other same]
    refine ⟨by simpa [World.mapSession,mapStore] using ready.present,?_,?_,?_,?_⟩
    · rw [kept]
      exact ready.queue
    · rw [kept]
      exact ready.small
    · rw [kept]
      exact ready.loopback
    · rw [Store.chain,kept]
      exact ready.headed

theorem marks_record (w : World σ) (o : Observation) :
    (w.record o).store.marks ref = w.store.marks ref ++ (o.mark? ref).toList := by
  unfold Store.marks
  cases marked : o.mark? ref with
  | none => simp [record,mapStore,marked]
  | some mark => simp [record,mapStore,marked]

namespace Still

theorem refl (w : World σ) : Still ref w w := ⟨rfl,fun _ ready => ready⟩

theorem trans (first : Still ref w₁ w₂) (second : Still ref w₂ w₃) : Still ref w₁ w₃ :=
  ⟨second.marks.trans first.marks,fun waiting ready => second.ready waiting (first.ready waiting ready)⟩

theorem record (w : World σ) {o : Observation} (unmarked : o.mark? ref = none) :
    Still ref w (w.record o) := by
  refine ⟨?_,fun _ ready => ready.congr rfl fun _ flushed found => ⟨flushed,found⟩⟩
  rw [marks_record,unmarked]
  exact List.append_nil _

theorem logged (w : World σ) (logger : String) (level : Logging.Level) (text : Bytes)
    (context : Logging.Context) : Still ref w (w.logged logger level text context) := by
  refine ⟨?_,fun _ ready => ready.congr rfl fun _ flushed found => ⟨flushed,found⟩⟩
  have unmarked (emissions : List Logging.Emission) :
      (emissions.map Observation.emitted).reverse.filterMap (Observation.mark? ref) = [] := by
    simp [List.filterMap_eq_nil_iff,Observation.mark?]
  simp only [Store.marks,World.logged,mapStore,List.filterMap_append,unmarked,List.nil_append]

theorem mapSession (w : World σ) (r : SessionRef) {change : Session → Session}
    (processor : ∀ s, (change s).processor = s.processor) (queue : ∀ s, (change s).queue = s.queue)
    (chain : ∀ s, (change s).chain = s.chain) : Still ref w (w.mapSession r change) := by
  refine ⟨rfl,fun _ ready => ready.mapSession change (fun _ => processor) ?_ ?_ fun _ => rfl⟩
  · intro _
    rw [queue]
    exact ⟨ready.queue,ready.small⟩
  · intro _
    rw [chain]
    exact ready.headed

theorem mapChain (w : World σ) (r : SessionRef) {change : Chain → Chain}
    (headed : r = ref → (w.store.chain ref).Headed → (change (w.store.chain ref)).Headed) :
    Still ref w (w.mapChain r change) := by
  refine ⟨rfl,fun _ ready => ready.mapSession _ (fun _ _ => rfl) ?_ ?_ fun _ => rfl⟩
  · exact fun _ => ⟨ready.queue,ready.small⟩
  · exact fun same => headed same ready.headed

/-- What becomes of the queue of another session. -/
theorem elsewhere (w : World σ) (other : r ≠ ref) (change : Session → Session) :
    Still ref w (w.mapSession r change) :=
  ⟨rfl,fun _ ready => ready.mapSession change (fun same => absurd same other)
    (fun same => absurd same other) (fun same => absurd same other) fun _ => rfl⟩

theorem begin (w : World σ) (session : Session) : Still ref w (w.begin session) := by
  refine ⟨rfl,fun _ ready => ?_⟩
  have same : (w.begin session).store.session ref = w.store.session ref := by
    simp [World.begin,mapStore,Store.session,Array.getElem?_push,ready.present.ne]
  obtain ⟨present,queue,small,loopback,headed⟩ := ready
  refine ⟨?_,same ▸ queue,same ▸ small,?_,?_⟩
  · simpa [World.begin,mapStore] using Nat.lt_succ_of_lt present
  · rw [same]
    exact loopback
  · rw [Store.chain,same]
    exact headed

theorem processors (sessions : w'.store.sessions = w.store.sessions)
    (journal : w'.store.journal = w.store.journal)
    (loopbacks : ∀ p flushed : Nat, w.store.processors[p]? = some (.loopback flushed) →
      ∃ flushed', w'.store.processors[p]? = some (.loopback flushed')) : Still ref w w' :=
  ⟨by rw [Store.marks,journal]; rfl,fun _ ready => ready.congr sessions loopbacks⟩

theorem store (sessions : w'.store.sessions = w.store.sessions)
    (same : w'.store.processors = w.store.processors)
    (journal : w'.store.journal = w.store.journal) : Still ref w w' :=
  .processors sessions journal fun _ flushed found => ⟨flushed,same ▸ found⟩

theorem newProcessor (w : World σ) (processor : Processor) :
    Still ref w (w.mapStore fun s => { s with processors := s.processors.push processor }) := by
  refine processors rfl rfl ?_
  intro p flushed found
  have inside : p < w.store.processors.size := (Array.getElem?_eq_some_iff.mp found).1
  refine ⟨flushed,?_⟩
  simpa [mapStore,Array.getElem?_push,inside.ne] using found

theorem count (w : World σ) (processor : ProcessorId) :
    Still ref w (w.mapStore fun s => { s with
      processors := s.processors.modify processor Processor.count }) := by
  refine processors rfl rfl ?_
  intro p flushed found
  simp only [mapStore,Array.getElem?_modify,found]
  split
  · exact ⟨flushed+1,rfl⟩
  · exact ⟨flushed,rfl⟩

end Still

/-- A session that has just been created at a loopback. -/
theorem begin_ready {number flushed : Nat} {handler : HandlerId} {processor : ProcessorId}
    {capacity : UInt64} {allocation : Allocation} {queue : Ring RequestId}
    (created : Ring.create allocation capacity = .ok queue)
    (loopback : w.store.processors[processor]? = some (.loopback flushed)) :
    (w.begin { id := number, handler := handler, processor := processor, queue := queue }).Ready
      w.store.sessions.size [] := by
  have new : (w.begin { id := number, handler := handler, processor := processor, queue := queue }).store.session
      w.store.sessions.size =
        { id := number, handler := handler, processor := processor, queue := queue } := by
    simp [World.begin,mapStore,Store.session]
  refine ⟨?_,?_,?_,?_,?_⟩
  · simp [World.begin,mapStore]
  · rw [new]
    exact Ring.create_holds created
  · rw [new]
    obtain ⟨capacity,_,_,_,within,rfl⟩ := Ring.create_ok created
    rw [Ring.capacity_vacant]
    exact within
  · rw [new]
    exact ⟨flushed,loopback⟩
  · rw [Store.chain,new]
    exact Chain.empty_headed

/-- Since history had these marks, requests were served, and none waits. -/
def Served (w : World σ) (ref : SessionRef) (caught : Prop) (before : List Mark) : Prop :=
  w.Ready ref [] ∧ ∃ own, w.store.marks ref = before ++ own ∧ SessionPipeline.Served caught own

/-- The same in the middle of it. -/
def Underway (w : World σ) (ref : SessionRef) (before : List Mark) : Prop :=
  ∃ own, w.store.marks ref = before ++ own ∧ SessionPipeline.Underway own

variable {caught : Prop} {before : List Mark}

theorem Ready.served (ready : w.Ready ref []) : w.Served ref caught (w.store.marks ref) :=
  ⟨ready,[],(List.append_nil _).symm,.none⟩

theorem Underway.refl (w : World σ) (ref : SessionRef) : w.Underway ref (w.store.marks ref) :=
  ⟨[],(List.append_nil _).symm,.served .none⟩

theorem Served.still (served : w.Served ref caught before) (still : Still ref w w') :
    w'.Served ref caught before := by
  obtain ⟨ready,own,marks,row⟩ := served
  exact ⟨still.ready [] ready,own,still.marks.trans marks,row⟩

theorem Served.imp {other : Prop} (served : w.Served ref caught before) (imp : caught → other) :
    w.Served ref other before := by
  obtain ⟨ready,own,marks,row⟩ := served
  exact ⟨ready,own,marks,row.imp imp⟩

theorem Served.trans {middle : List Mark} {row : List Mark} (first : middle = before ++ row)
    (served : SessionPipeline.Served caught row) (second : w.Served ref caught middle) :
    w.Served ref caught before := by
  obtain ⟨ready,own,marks,later⟩ := second
  refine ⟨ready,row ++ own,?_,served.append later⟩
  rw [marks,first,List.append_assoc]

theorem Underway.behind {middle : List Mark} {row : List Mark} (first : middle = before ++ row)
    (served : SessionPipeline.Served caught row) (second : w.Underway ref middle) :
    w.Underway ref before := by
  obtain ⟨own,marks,later⟩ := second
  refine ⟨row ++ own,?_,.behind served later⟩
  rw [marks,first,List.append_assoc]

end World

namespace Effect

open World

variable {σ α β : Type} {ref : SessionRef} {caught : Prop} {before : List Mark} {w w' : World σ}

/-- Started in the world, it serves requests, so that none waits when it ends. -/
def Serves (ref : SessionRef) (caught : Prop) (before : List Mark) (m : Effect σ α) (w : World σ) :
    Prop :=
  ends m (fun _ w' => w'.Served ref caught before) (fun _ w' => w'.Served ref True before)
    (fun w' => w'.Underway ref before) w

/-- Wherever the session is ready and nothing waits, it serves what comes. -/
def Orderly (ref : SessionRef) (caught : Prop) (m : Effect σ α) : Prop :=
  ∀ w, w.Ready ref [] → Serves ref caught (w.store.marks ref) m w

/-- It does so and never returns. -/
def Rejects (ref : SessionRef) (m : Effect σ α) : Prop :=
  ∀ w, w.Ready ref [] → ends m (fun _ _ => False) (fun _ w' => w'.Served ref True (w.store.marks ref))
    (fun w' => w'.Underway ref (w.store.marks ref)) w

theorem Orderly.from {m : Effect σ α} (orderly : Orderly ref caught m)
    (served : w.Served ref caught before) : Serves ref caught before m w := by
  obtain ⟨ready,own,marks,row⟩ := served
  apply ends_mono (orderly w ready)
  · exact fun _ _ later => later.trans marks row
  · exact fun _ _ later => later.trans marks (row.imp fun _ => trivial)
  · exact fun _ later => later.behind marks row

theorem Serves.bind {m : Effect σ α} {next : α → Effect σ β} (first : Serves ref caught before m w)
    (rest : ∀ a, Orderly ref caught (next a)) : Serves ref caught before (m >>= next) w := by
  apply ends_bind.mpr
  apply ends_mono first
  · exact fun a _ served => (rest a).from served
  · exact fun _ _ served => served
  · exact fun _ underway => underway

theorem Orderly.bind {m : Effect σ α} {next : α → Effect σ β} (first : Orderly ref caught m)
    (rest : ∀ a, Orderly ref caught (next a)) : Orderly ref caught (m >>= next) :=
  fun w ready => (first w ready).bind rest

theorem orderly_pure (a : α) : Orderly ref caught (pure a : Effect σ α) :=
  fun _ ready => ready.served

theorem orderly_fail (failure : Failure) : Orderly ref caught (fail failure : Effect σ α) :=
  fun _ ready => ready.served

theorem orderly_ofExcept (result : Except Failure α) :
    Orderly ref caught (ofExcept result : Effect σ α) := by
  cases result with
  | ok a => exact orderly_pure a
  | error failure => exact orderly_fail failure

theorem orderly_of_still {m : Effect σ α} (still : ∀ w, ∃ a w', m w = .ok a w' ∧ Still ref w w') :
    Orderly ref caught m := by
  intro w ready
  obtain ⟨a,w',returned,still⟩ := still w
  exact (ends_of_ok returned).mpr (ready.served.still still)

theorem serves_bind_of_ok {m : Effect σ α} {next : α → Effect σ β} {a : α} (returned : m w = .ok a w') :
    Serves ref caught before (m >>= next) w ↔ Serves ref caught before (next a) w' :=
  ends_bind_of_ok returned

theorem orderly_modifyStore {change : Store → Store} (sessions : ∀ s, (change s).sessions = s.sessions)
    (processors : ∀ s, (change s).processors = s.processors)
    (journal : ∀ s, (change s).journal = s.journal) :
    Orderly ref caught (modifyStore change : Effect σ Unit) :=
  orderly_of_still fun _ => ⟨(),_,rfl,.store (sessions _) (processors _) (journal _)⟩

theorem Rejects.from {m : Effect σ α} (rejects : Rejects ref m) (served : w.Served ref True before) :
    ends m (fun _ _ => False) (fun _ w' => w'.Served ref True before)
      (fun w' => w'.Underway ref before) w := by
  obtain ⟨ready,own,marks,row⟩ := served
  apply ends_mono (rejects w ready)
  · exact fun _ _ => False.elim
  · exact fun _ _ later => later.trans marks row
  · exact fun _ later => later.behind marks row

theorem Rejects.after {m : Effect σ α} {next : α → Effect σ β} (first : Orderly ref True m)
    (rest : ∀ a, Rejects ref (next a)) : Rejects ref (m >>= next) := by
  intro w ready
  apply ends_bind.mpr
  apply ends_mono (first w ready)
  · exact fun a _ served => (rest a).from served
  · exact fun _ _ served => served
  · exact fun _ underway => underway

theorem rejects_fail (failure : Failure) : Rejects ref (fail failure : Effect σ α) :=
  fun _ ready => ready.served

theorem Rejects.bind {m : Effect σ α} (rejects : Rejects ref m) (next : α → Effect σ β) :
    Rejects ref (m >>= next) := by
  intro w ready
  apply ends_bind.mpr
  apply ends_mono (rejects w ready)
  · exact fun _ _ => False.elim
  · exact fun _ _ served => served
  · exact fun _ underway => underway

theorem Rejects.orderly {m : Effect σ α} (rejects : Rejects ref m) : Orderly ref caught m := by
  intro w ready
  apply ends_mono (rejects w ready)
  · exact fun _ _ => False.elim
  · exact fun _ _ served => served
  · exact fun _ underway => underway

/-- A failure that is caught leaves a request unannounced, unless there is another one behind. -/
theorem Orderly.attempt {m : Effect σ α} (orderly : Orderly ref caught m) (catches : caught) :
    Orderly ref caught (attempt m) := by
  intro w ready
  apply ends_attempt.mpr
  apply ends_mono (orderly w ready)
  · exact fun _ _ served => served
  · exact fun _ _ served => served.imp fun _ => catches
  · exact fun _ underway => underway

theorem Orderly.attempt_bind {m : Effect σ α} {next : Except Failure α → Effect σ β}
    (orderly : Orderly ref caught m) (rejects : ∀ failure, Rejects ref (next (.error failure)))
    (rest : ∀ a, Orderly ref caught (next (.ok a))) :
    Orderly ref caught (Effect.attempt m >>= next) := by
  intro w ready
  apply ends_bind.mpr
  apply ends_attempt.mpr
  apply ends_mono (orderly w ready)
  · exact fun a _ served => (rest a).from served
  · intro failure w' served
    apply ends_mono ((rejects failure).from served)
    · exact fun _ _ => False.elim
    · exact fun _ _ served => served
    · exact fun _ underway => underway
  · exact fun _ underway => underway

end Effect
end SessionPipeline
