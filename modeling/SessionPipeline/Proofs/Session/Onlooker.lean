import SessionPipeline.Proofs.Chain.Splice
import SessionPipeline.Proofs.Session.Alongside

/-! Two worlds that only an onlooker tells apart: an entry that one of two chains has and the other has not,
whose filter passes everything on. What is kept apart is the entry, the logs and the attribute in which a
filter that logs keeps the entry's name. Each step that is made in both worlds keeps the rest the same. -/
namespace SessionPipeline

namespace Logging.Registry

/-- Two registries of which every logger is the same, whether it is known already or not. -/
structure Alike (r r' : Registry) : Prop where
  logger : ∀ name, (r.obtain name).1 = (r'.obtain name).1
  rules : r.rules = r'.rules
  componentLevels : r.componentLevels = r'.componentLevels
  globalLevel : r.globalLevel = r'.globalLevel
  sink : r.sink = r'.sink

theorem Alike.refl (r : Registry) : r.Alike r := ⟨fun _ => rfl,rfl,rfl,rfl,rfl⟩

theorem Alike.symm {r r' : Registry} (alike : r.Alike r') : r'.Alike r :=
  ⟨fun name => (alike.logger name).symm,alike.rules.symm,alike.componentLevels.symm,
    alike.globalLevel.symm,alike.sink.symm⟩

theorem Alike.trans {r r' r'' : Registry} (alike : r.Alike r') (next : r'.Alike r'') : r.Alike r'' :=
  ⟨fun name => (alike.logger name).trans (next.logger name),alike.rules.trans next.rules,
    alike.componentLevels.trans next.componentLevels,alike.globalLevel.trans next.globalLevel,
    alike.sink.trans next.sink⟩

theorem obtain_fst (r : Registry) (name : Bytes) :
    (r.obtain name).1 = (r.logger? name).getD ⟨name,r.effectiveLevel name,r.sink⟩ := by
  unfold obtain
  cases r.logger? name <;> rfl

theorem obtain_snd (r : Registry) (name : Bytes) :
    (r.obtain name).2 = { r with loggers := (r.obtain name).2.loggers } := by
  unfold obtain
  cases r.logger? name <;> rfl

/-- To make a logger known changes no logger. -/
theorem alike_obtain (r : Registry) (name : Bytes) : (r.obtain name).2.Alike r := by
  have rest := obtain_snd r name
  refine ⟨fun other => ?_,by rw [rest],by rw [rest],by rw [rest],by rw [rest]⟩
  have level : (r.obtain name).2.effectiveLevel other = r.effectiveLevel other := by
    rw [rest]
    rfl
  have sink : (r.obtain name).2.sink = r.sink := by rw [rest]
  rw [obtain_fst,obtain_fst,level,sink]
  cases known : r.logger? name with
  | some logger =>
    have same : (r.obtain name).2 = r := by rw [obtain,known]
    rw [same]
  | none =>
    have added : (r.obtain name).2.logger? other =
        (r.logger? other).or (if name == other then some ⟨name,r.effectiveLevel name,r.sink⟩ else none) := by
      rw [obtain,known]
      simp only [logger?,List.find?_append,List.find?_singleton]
    rw [added]
    by_cases same : name = other
    · subst same
      simp [known]
    · simp [same]

theorem Alike.obtain {r r' : Registry} (alike : r.Alike r') (name : Bytes) :
    (r.obtain name).2.Alike (r'.obtain name).2 :=
  (alike_obtain r name).trans (alike.trans (alike_obtain r' name).symm)

theorem obtain_setGlobalLevel (r : Registry) (level : Level) (name : Bytes) :
    ((r.setGlobalLevel level).obtain name).1 = { (r.obtain name).1 with
      level := effectiveLevel { r with globalLevel := level } name } := by
  have found : (r.setGlobalLevel level).logger? name = (r.logger? name).map fun l =>
      { l with level := effectiveLevel { r with globalLevel := level } l.name } := by
    simp only [logger?,setGlobalLevel,refresh,List.find?_map]
    rfl
  rw [obtain_fst,obtain_fst,found]
  cases known : r.logger? name with
  | none => rfl
  | some l =>
    have named : l.name = name := by simpa using List.find?_some known
    simp [named]

theorem Alike.setGlobalLevel {r r' : Registry} (alike : r.Alike r') (level : Level) :
    (r.setGlobalLevel level).Alike (r'.setGlobalLevel level) := by
  refine ⟨fun name => ?_,alike.rules,alike.componentLevels,rfl,alike.sink⟩
  have effective : effectiveLevel { r with globalLevel := level } name =
      effectiveLevel { r' with globalLevel := level } name := by
    simp only [effectiveLevel,alike.rules,alike.componentLevels]
  rw [obtain_setGlobalLevel,obtain_setGlobalLevel,alike.logger,effective]

end Logging.Registry

/-- An entry of a chain whose filter passes everything on, and what holds of the application's own memory as
long as no handle of the entry is in it. -/
structure Onlooker (σ : Type) where
  place : Handle
  filter : FilterId
  kept : σ → Prop

/-- What is neither a session nor a log nor history. -/
def Store.bare (s : Store) : Store := { s with logging := .initial,sessions := #[],journal := [] }

namespace Onlooker

variable {σ : Type}

/-- The session in whose chain the entry is. -/
def ref (O : Onlooker σ) : SessionRef := O.place.owner

def key (O : Onlooker σ) : AttributeKey := .entryName O.filter

/-- A session without what the onlooker changes of it. -/
def veil (O : Onlooker σ) (ref : SessionRef) (s : Session) : Session := { s with
  chain := if ref = O.ref then .empty else s.chain
  attributes := if ref = O.ref then s.attributes.filter (·.1 != O.key) else s.attributes }

/-- What is seen of history: no logs, nothing of the entry, and of an event on its way where it comes to. -/
def seen (O : Onlooker σ) : Observation → Option Observation
  | .emitted _ => none
  | .linked handle => if handle = O.place then none else some (.linked handle)
  | .hooked id hook name handle => if handle = O.place then none else some (.hooked id hook name handle)
  | .delivered _ target ref event =>
    if target = O.place then none else some (.delivered O.place target ref event)
  | .arrived _ ref event => some (.arrived O.place ref event)
  | o => some o

/-- Two stores that differ in nothing but what the onlooker changes, and in logs. -/
structure Overlooks (O : Onlooker σ) (s s' : Store) : Prop where
  logging : s.logging.Alike s'.logging
  bare : s.bare = s'.bare
  size : s.sessions.size = s'.sessions.size
  session : ∀ ref, O.veil ref (s.session ref) = O.veil ref (s'.session ref)
  journal : s.journal.filterMap O.seen = s'.journal.filterMap O.seen

variable {O : Onlooker σ} {s s' s'' : Store}

theorem Overlooks.refl (O : Onlooker σ) (s : Store) : O.Overlooks s s :=
  ⟨.refl _,rfl,rfl,fun _ => rfl,rfl⟩

theorem Overlooks.symm (overlooks : O.Overlooks s s') : O.Overlooks s' s :=
  ⟨overlooks.logging.symm,overlooks.bare.symm,overlooks.size.symm,
    fun ref => (overlooks.session ref).symm,overlooks.journal.symm⟩

theorem Overlooks.trans (overlooks : O.Overlooks s s') (next : O.Overlooks s' s'') : O.Overlooks s s'' :=
  ⟨overlooks.logging.trans next.logging,overlooks.bare.trans next.bare,overlooks.size.trans next.size,
    fun ref => (overlooks.session ref).trans (next.session ref),overlooks.journal.trans next.journal⟩

theorem Overlooks.filters (overlooks : O.Overlooks s s') : s.filters = s'.filters := by
  have same := congrArg Store.filters overlooks.bare
  exact same

end Onlooker

/-- The code is not called for the entry. -/
def Invocation.Avoids {σ : Type} (O : Onlooker σ) : Invocation → Prop
  | .hook _ _ h | .event _ _ h => h ≠ O.place
  | _ => True

/-- The call neither edits the chain nor asks after the onlooker. -/
def Call.Avoids {σ : Type} (O : Onlooker σ) : Call → Prop
  | .add ref .. | .remove ref _ | .removeFilter ref _ | .replace ref .. | .clear ref | .addAll ref _ =>
    ref ≠ O.ref
  | .forward handle .. => handle ≠ O.place
  | .removeAttribute ref key => ref = O.ref → key ≠ O.key
  | _ => True

def Task.Avoids {σ : Type} (O : Onlooker σ) : Task → Prop
  | .run _ how => how.Avoids O
  | .deliver _ handle _ _ => handle ≠ O.place
  | .clear ref => ref ≠ O.ref
  | _ => True

/-- A script that neither inspects nor edits the chain: what it looks at is the same with the onlooker and
without, and none of its calls is about the onlooker. -/
inductive Script.Blind {σ : Type} (O : Onlooker σ) : Script σ → Prop
  | done (reply : Reply) : Blind O (.done reply)
  | fail (failure : Failure) : Blind O (.fail failure)
  | look {next : Store → Script σ} (same : ∀ s s', O.Overlooks s s' → next s = next s')
      (rest : ∀ s, Blind O (next s)) : Blind O (.look next)
  | get {next : σ → Script σ} (rest : ∀ own, O.kept own → Blind O (next own)) : Blind O (.get next)
  | set {own : σ} {next : Script σ} (kept : O.kept own) (rest : Blind O next) : Blind O (.set own next)
  | define {body : Invocation → Script σ} {next : CodeId → Script σ}
      (blind : ∀ how, how.Avoids O → Blind O (body how)) (rest : ∀ id, Blind O (next id)) :
      Blind O (.define body next)
  | call {c : Call} {next : Reply → Script σ} (avoids : c.Avoids O) (rest : ∀ reply, Blind O (next reply)) :
      Blind O (.call c next)
  | attempt {body : Script σ} {next : Except Failure Reply → Script σ} (tried : Blind O body)
      (rest : ∀ result, Blind O (next result)) : Blind O (.attempt body next)

namespace Onlooker

variable {σ : Type} {O : Onlooker σ}

/-- The first world has the onlooker and the second has not; nothing else is different, and all code that
there is is blind. -/
structure Along (O : Onlooker σ) (w v : World σ) : Prop where
  overlooks : O.Overlooks w.store v.store
  spliced : (w.store.chain O.ref).Spliced (v.store.chain O.ref) O.place O.filter
  plain : ∃ f, w.store.filters[O.filter]? = some f ∧ f.plain = true
  own : w.own = v.own
  kept : O.kept w.own
  code : w.code = v.code
  blind : ∀ (id : CodeId) body, w.code[id]? = some body → ∀ how, how.Avoids O → (body how).Blind O

theorem veil_of_ne {ref : SessionRef} (other : ref ≠ O.ref) (s : Session) : O.veil ref s = s := by
  simp [veil,other]

/-- What the onlooker changes of a session does not matter to what is then changed of it. -/
def Veiled (O : Onlooker σ) (ref : SessionRef) (change : Session → Session) : Prop :=
  ∀ s, O.veil ref (change (O.veil ref s)) = O.veil ref (change s)

theorem veiled_of_ne {ref : SessionRef} (other : ref ≠ O.ref) (change : Session → Session) :
    O.Veiled ref change := fun s => by rw [veil_of_ne other s]

/-- What is struck off in the end may be struck off at first as well. -/
theorem filter_veiled {α : Type} (p q : α → Bool) (xs : List α) :
    ((xs.filter p).filter q).filter p = (xs.filter q).filter p := by
  simp only [List.filter_filter]
  refine List.filter_congr fun x _ => ?_
  cases p x <;> cases q x <;> rfl

theorem veil_veil (ref : SessionRef) (s : Session) : O.veil ref (O.veil ref s) = O.veil ref s := by
  by_cases own : ref = O.ref
  · simp [veil,own]
  · simp only [veil_of_ne own]

theorem veiled_of_commutes {ref : SessionRef} {change : Session → Session}
    (commutes : ∀ s, O.veil ref (change s) = change (O.veil ref s)) : O.Veiled ref change := fun s => by
  rw [← commutes,veil_veil]

theorem veiled_setAttribute (ref : SessionRef) (key : AttributeKey) (value : Message) :
    O.Veiled ref fun s => s.setAttribute key value := by
  by_cases own : ref = O.ref
  · intro s
    simp only [veil,Session.setAttribute,if_pos own,List.filter_cons,filter_veiled]
  · exact veiled_of_ne own _

theorem veiled_removeAttribute (ref : SessionRef) (key : AttributeKey) :
    O.Veiled ref fun s => s.removeAttribute key := by
  by_cases own : ref = O.ref
  · intro s
    simp only [veil,Session.removeAttribute,if_pos own,filter_veiled]
  · exact veiled_of_ne own _

variable {w v : World σ} {o o' : Observation}

theorem overlooks_record (hidden : O.seen o = none) : O.Overlooks (w.record o).store w.store :=
  { Overlooks.refl O w.store with journal := by simp [World.record,World.mapStore,hidden] }

theorem overlooks_logged (logger : String) (level : Logging.Level) (text : Bytes)
    (context : Logging.Context) : O.Overlooks (w.logged logger level text context).store w.store :=
  { Overlooks.refl O w.store with
    logging := Logging.Registry.alike_obtain _ _
    journal := by
      have silent (emissions : List Logging.Emission) :
          (emissions.map Observation.emitted).reverse.filterMap O.seen = [] := by
        simp [List.filterMap_eq_nil_iff,seen]
      simp [World.logged,World.mapStore,silent] }

theorem overlooks_mapSession {ref : SessionRef} {change : Session → Session}
    (hidden : ∀ s, O.veil ref (change s) = O.veil ref s) :
    O.Overlooks (w.mapSession ref change).store w.store :=
  { Overlooks.refl O w.store with
    size := by simp [World.mapSession,World.mapStore]
    session := fun other => by
      by_cases same : other = ref
      · subst same
        exact World.session_mapSession_eq _ hidden w other other
      · rw [World.session_mapSession_of_ne w same] }

section Steps

variable (along : O.Along w v)
include along

theorem Along.present : O.ref < w.store.sessions.size := by
  by_contra absent
  have current := along.spliced.current
  rw [World.chain_absent absent] at current
  simp only [Chain.isCurrent,Bool.and_eq_true] at current
  cases Chain.empty_holds.mem_of_linked current.2 along.spliced.between

theorem Along.bare : w.store.bare = v.store.bare := along.overlooks.bare

theorem Along.filter (id : FilterId) : w.store.filter id = v.store.filter id := by
  have same := congrArg (Store.filter · id) along.bare
  exact same

theorem Along.session {ref : SessionRef} (other : ref ≠ O.ref) :
    w.store.session ref = v.store.session ref := by
  have same := along.overlooks.session ref
  rwa [veil_of_ne other,veil_of_ne other] at same

theorem Along.chain {ref : SessionRef} (other : ref ≠ O.ref) : w.store.chain ref = v.store.chain ref :=
  congrArg Session.chain (along.session other)

theorem Along.stores {s s' : Store} (overlooks : O.Overlooks s s')
    (chain : s.chain O.ref = w.store.chain O.ref) (chain' : s'.chain O.ref = v.store.chain O.ref)
    (plain : ∃ f, s.filters[O.filter]? = some f ∧ f.plain = true) :
    O.Along { w with store := s } { v with store := s' } :=
  { along with overlooks := overlooks,spliced := chain.symm ▸ chain'.symm ▸ along.spliced,plain := plain }

/-- What changes nothing but filters, handlers, processors, requests, futures, factories and the like. -/
theorem Along.change {change : Store → Store} (apart : ∀ s, (change s).logging = s.logging ∧
      (change s).sessions = s.sessions ∧ (change s).journal = s.journal)
    (bare : ∀ s, (change s.bare).bare = (change s).bare)
    (plain : ∀ s : Store, (∃ f, s.filters[O.filter]? = some f ∧ f.plain = true) →
      ∃ f, (change s).filters[O.filter]? = some f ∧ f.plain = true) :
    O.Along (w.mapStore change) (v.mapStore change) := by
  have session (s : Store) (ref : SessionRef) : (change s).session ref = s.session ref := by
    rw [Store.session,(apart s).2.1]
    rfl
  have chain (s : Store) : (change s).chain O.ref = s.chain O.ref := congrArg Session.chain (session s _)
  refine along.stores ?_ (chain _) (chain _) (plain _ along.plain)
  obtain ⟨logging,sessions,journal⟩ := apart w.store
  obtain ⟨logging',sessions',journal'⟩ := apart v.store
  refine ⟨?_,?_,?_,fun ref => ?_,?_⟩
  · rw [logging,logging']
    exact along.overlooks.logging
  · rw [← bare w.store,← bare v.store,along.bare]
  · rw [sessions,sessions']
    exact along.overlooks.size
  · rw [session,session]
    exact along.overlooks.session ref
  · rw [journal,journal']
    exact along.overlooks.journal

theorem Along.relog {change : Logging.Registry → Logging.Registry}
    (alike : ∀ {r r'}, r.Alike r' → (change r).Alike (change r')) :
    O.Along (w.mapStore fun s => { s with logging := change s.logging })
      (v.mapStore fun s => { s with logging := change s.logging }) :=
  along.stores { along.overlooks with logging := alike along.overlooks.logging } rfl rfl along.plain

theorem Along.logged (logger : String) (level : Logging.Level) (text text' : Bytes)
    (context context' : Logging.Context) :
    O.Along (w.logged logger level text context) (v.logged logger level text' context') :=
  along.stores ((overlooks_logged ..).trans (along.overlooks.trans (overlooks_logged ..).symm)) rfl rfl
    along.plain

theorem Along.record (same : O.seen o = O.seen o') : O.Along (w.record o) (v.record o') :=
  along.stores { along.overlooks with
    journal := by simp [same,List.filterMap_cons,along.overlooks.journal] } rfl rfl along.plain

/-- The onlooker's own steps go unseen. -/
theorem Along.aside {s : Store} (overlooks : O.Overlooks s w.store)
    (chain : s.chain O.ref = w.store.chain O.ref) : O.Along { w with store := s } v :=
  along.stores (overlooks.trans along.overlooks) chain rfl (overlooks.filters ▸ along.plain)

theorem Along.mapSession {ref : SessionRef} {change : Session → Session} (veiled : O.Veiled ref change)
    (keeps : ref = O.ref → ∀ s, (change s).chain = s.chain) :
    O.Along (w.mapSession ref change) (v.mapSession ref change) := by
  have chain (u : World σ) : (u.mapSession ref change).store.chain O.ref = u.store.chain O.ref := by
    by_cases own : O.ref = ref
    · exact World.session_mapSession_eq Session.chain (keeps own.symm) u ref O.ref
    · exact congrArg Session.chain (World.session_mapSession_of_ne u own change)
  refine along.stores { along.overlooks with size := ?_,session := fun other => ?_ } (chain w) (chain v)
    along.plain
  · simpa using along.overlooks.size
  · have same := along.overlooks.session other
    change O.veil other ((w.mapSession ref change).store.session other) =
      O.veil other ((v.mapSession ref change).store.session other)
    by_cases differs : other = ref
    · subst differs
      by_cases present : other < w.store.sessions.size
      · rw [World.session_mapSession present,
          World.session_mapSession (along.overlooks.size ▸ present),← veiled (w.store.session other),
          ← veiled (v.store.session other),same]
      · rwa [World.session_mapSession_absent w present,
          World.session_mapSession_absent v (along.overlooks.size ▸ present)]
    · rwa [World.session_mapSession_of_ne w differs,World.session_mapSession_of_ne v differs]

theorem Along.begin (session : Session) : O.Along (w.begin session) (v.begin session) := by
  have pushed (u : World σ) (ref : SessionRef) : (u.begin session).store.session ref =
      if ref = u.store.sessions.size then session else u.store.session ref := getD_push ..
  have chain (u : World σ) (present : O.ref < u.store.sessions.size) :
      (u.begin session).store.chain O.ref = u.store.chain O.ref := by
    rw [Store.chain,pushed,if_neg (Nat.ne_of_lt present)]
    rfl
  have present := along.present
  refine along.stores { along.overlooks with size := ?_,session := fun ref => ?_ } (chain w present)
    (chain v (along.overlooks.size ▸ present)) along.plain
  · simpa using along.overlooks.size
  · have same := along.overlooks.session ref
    change O.veil ref ((w.begin session).store.session ref) = O.veil ref ((v.begin session).store.session ref)
    rw [pushed,pushed,← along.overlooks.size]
    split
    · rfl
    · exact same

theorem Along.remember {own : σ} (kept : O.kept own) : O.Along { w with own := own } { v with own := own } :=
  { along with own := rfl,kept := kept }

theorem Along.withCode {body : Invocation → Script σ}
    (blind : ∀ how, how.Avoids O → (body how).Blind O) : O.Along (w.withCode body) (v.withCode body) :=
  { along with
    code := congrArg (Array.push · body) along.code
    blind := fun id other found => by
      rw [World.code_withCode] at found
      split at found
      · cases found
        exact blind
      · exact along.blind id other found }

end Steps

end Onlooker
end SessionPipeline
