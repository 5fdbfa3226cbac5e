import SessionPipeline.Proofs.Effect.Ending
import SessionPipeline.Proofs.Session.Passing

/-! A filter that passes everything on makes no difference. What scripts, tasks and whole runs do is done
alike with an onlooker and without, and a plain filter that is added to a chain, at whatever position, is
an onlooker. -/
namespace SessionPipeline.Onlooker

open Effect

variable {σ : Type} {O : Onlooker σ} {lags : Bool} {w v : World σ}

section Calls

variable {perform perform' : Perform σ} (backed : O.Backed lags perform perform') (along : O.Along w v)
include backed along

/-- A call that is not about the onlooker is answered alike. -/
theorem likewise_ofCall {c : Call} (avoids : c.Avoids O) :
    O.Likewise lags (ofCall perform c) (ofCall perform' c) w v := by
  have performs := backed.performs
  cases c with
  | note note => exact (likewise_observe along _).replies
  | print stderr line => exact (likewise_observe along _).replies
  | newFilter f => exact (likewise_makeFilter along f).bind fun _ _ _ along => likewise_pure along _
  | newHandler handler =>
    refine likewise_store along ?_ fun _ => rfl
    dsimp only
    exact .replies (likewise_modifyStore along fun _ => ⟨rfl,rfl,rfl,rfl,rfl⟩)
  | newProcessor processor =>
    refine likewise_store along ?_ fun _ => rfl
    dsimp only
    exact .replies (likewise_modifyStore along fun _ => ⟨rfl,rfl,rfl,rfl,rfl⟩)
  | newSession handler processor capacity allocation =>
    exact (likewise_newSession along handler processor capacity allocation).bind fun _ _ _ along => likewise_pure along _
  | add ref position name filter? =>
    exact (likewise_add performs along avoids position name filter?).replies
  | remove ref name =>
    exact (likewise_remove performs along avoids name).bind fun _ _ _ along => likewise_pure along _
  | removeFilter ref filter? =>
    exact (likewise_removeFilter performs along avoids filter?).bind fun _ _ _ along => likewise_pure along _
  | replace ref name filter? =>
    exact (likewise_replace performs along avoids name filter?).bind fun _ _ _ along => likewise_pure along _
  | clear ref => exact (likewise_clear performs along avoids).replies
  | addAll ref entries => exact (likewise_addAll performs along avoids entries).replies
  | fire ref event => exact (likewise_fire backed along ref event).replies
  | forward handle ref event => exact (likewise_forward backed along avoids ref event).replies
  | write ref message =>
    exact (likewise_write backed along ref message).bind fun _ _ _ along => likewise_pure along _
  | close ref => exact (likewise_close backed along ref).replies
  | setAttribute ref key value => exact .replies (likewise_veiled along (veiled_setAttribute _ _ _) fun _ => rfl)
  | removeAttribute ref key =>
    refine likewise_session along ?_ fun s => by rw [veil_attribute? avoids s]
    exact .replies (likewise_veiled along (veiled_removeAttribute _ _) fun _ => rfl)
  | pollQueue ref => exact (likewise_handOver along ref).bind fun _ _ _ along => likewise_pure along _
  | flush processor ref => exact (likewise_flush performs along processor ref).replies
  | removeSession processor ref => exact (likewise_removeSession performs along processor ref).replies
  | newFuture => exact (likewise_newFuture along).bind fun _ _ _ along => likewise_pure along _
  | complete future outcome =>
    exact (likewise_complete performs along future outcome).bind fun _ _ _ along => likewise_pure along _
  | listen future listener => exact (likewise_listen performs along future listener).replies
  | newRequest message future =>
    exact (likewise_newRequest along _).bind fun _ _ _ along => likewise_pure along _
  | wrapRequest inner message =>
    exact (likewise_wrapRequest along inner message).bind fun _ _ _ along => likewise_pure along _
  | setLevel filter event level => exact (likewise_modifyFilter along filter _).replies
  | setAllLevels filter level => exact (likewise_modifyFilter along filter _).replies
  | setGlobalLevel level => exact (likewise_setGlobalLevel along level).replies
  | log logger level text => exact (likewise_log along ..).replies
  | openFactories => exact (likewise_openFactories along).replies
  | registerBuiltIn =>
    exact (likewise_openFactories along).bind fun _ _ _ along => (likewise_registerAll along _).replies
  | register name factory? =>
    refine (likewise_openFactories along).bind fun _ _ _ along => ?_
    exact (likewise_register along name factory?).bind fun _ _ _ along => likewise_pure along _
  | unregister name =>
    refine (likewise_openFactories along).bind fun _ _ _ along => ?_
    exact (likewise_unregister along name).bind fun _ _ _ along => likewise_pure along _
  | createFilter type config =>
    refine (likewise_openFactories along).bind fun _ _ _ along => ?_
    exact (likewise_createFilter performs along type config).bind fun _ _ _ along => likewise_pure along _
  | validateWith factory config =>
    exact (likewise_validateWith performs along factory config).bind fun _ _ _ along => likewise_pure along _
  | createWith factory config =>
    exact (likewise_createWith performs along factory config).bind fun _ _ _ along => likewise_pure along _
  | configure config =>
    exact (likewise_configure performs along config).bind fun _ _ _ along => likewise_pure along _
  | loadConfig path content =>
    exact (likewise_loadConfig along path content).bind fun _ _ _ along => likewise_pure along _

theorem likewise_answer {c : Call} (avoids : c.Avoids O) :
    O.Likewise lags (answer perform c) (answer perform' c) w v := by
  refine Likewise.bind ?_ fun _ _ _ along => likewise_ofCall backed along avoids
  refine .step (store_apply w) (store_apply v) ?_
  rw [← along.overlooks.size]
  split
  · exact likewise_fail along _
  · exact likewise_pure along ()

end Calls

/-- A blind script runs alike; one constructor of scripts after the other. -/
theorem likewise_interpret {respond respond' : Call → Effect σ Reply}
    (responds : ∀ (c : Call) w v, O.Along w v → c.Avoids O → O.Likewise lags (respond c) (respond' c) w v)
    {script : Script σ} (blind : script.Blind O) (along : O.Along w v) :
    O.Likewise lags (interpret respond script) (interpret respond' script) w v := by
  induction blind generalizing w v with
  | done reply => exact likewise_pure along reply
  | fail failure => exact likewise_fail along failure
  | look same rest ih =>
    refine .step (store_apply w) (store_apply v) ?_
    rw [← same _ _ along.overlooks]
    exact ih _ along
  | get rest ih =>
    refine .step rfl rfl ?_
    rw [← along.own]
    exact ih _ along.kept along
  | set kept rest ih => exact .step rfl rfl (ih (along.remember kept))
  | define blind rest _ ih =>
    refine .step rfl rfl (.step rfl rfl ?_)
    rw [← along.code]
    exact ih _ (along.withCode blind)
  | call avoids rest ih =>
    exact (responds _ _ _ along avoids).bind fun reply _ _ along => ih reply along
  | attempt tried rest tries ih =>
    exact (tries along).attempt.bind fun result _ _ along => ih result along

section Tasks

variable {perform perform' : Perform σ}

theorem likewise_ofScript (backed : O.Backed lags perform perform') {script : Script σ}
    (blind : script.Blind O) (along : O.Along w v) :
    O.Likewise lags (ofScript perform script) (ofScript perform' script) w v :=
  likewise_interpret (fun _ _ _ along avoids => likewise_answer backed along avoids) blind along

theorem likewise_ofTask (backed : O.Backed lags perform perform') (along : O.Along w v) {task : Task}
    (avoids : task.Avoids O) : O.Likewise lags (ofTask perform task) (ofTask perform' task) w v := by
  have performs := backed.performs
  cases task with
  | run code how =>
    refine .step rfl rfl ?_
    rw [← along.code]
    cases defined : w.code[code]? with
    | none => exact likewise_pure along _
    | some body => exact likewise_ofScript backed (along.blind code body defined how avoids) along
  | deliver filter handle ref event => exact (likewise_deliver backed along filter avoids ref event).replies
  | fire ref event => exact (likewise_fire backed along ref event).replies
  | drain processor ref => exact (likewise_drain backed along processor ref).replies
  | clear ref => exact (likewise_clear performs along avoids).replies
  | failPending ref dropped =>
    exact (likewise_failPending performs along ref dropped).bind fun _ _ _ along => likewise_pure along _

theorem performs_succ {fuel fuel' : Nat} (backed : O.Backed lags (performWith fuel) (performWith fuel')) :
    O.Performs lags (performWith (fuel + 1)) (performWith (fuel' + 1)) :=
  fun _ _ _ along avoids => likewise_ofTask backed along avoids

/-- Where there is fuel left, a delivery to the onlooker uses one level of it. -/
theorem backed_succ {fuel fuel' : Nat} (performs : O.Performs lags (performWith (fuel + 1)) (performWith fuel'))
    (deeper : O.Performs lags (performWith fuel) (performWith fuel')) :
    O.Backed lags (performWith (fuel + 1)) (performWith fuel') :=
  ⟨performs,fun _ _ => .inr ⟨performWith fuel,deeper,fun _ => rfl⟩⟩

theorem performs_zero (perform : Perform σ) : O.Performs true (performWith 0) perform :=
  fun _ w _ _ _ => .stopped w _

/-- The run with the onlooker lags behind the one without, if it has no more fuel. -/
theorem performs_of_le {fuel fuel' : Nat} (less : fuel ≤ fuel') :
    O.Performs true (performWith fuel) (performWith fuel') := by
  induction fuel' generalizing fuel with
  | zero =>
    obtain rfl := Nat.le_zero.mp less
    exact performs_zero _
  | succ fuel' ih =>
    rcases fuel with _ | _ | fuel
    · exact performs_zero _
    · exact performs_succ ⟨performs_zero _,fun _ _ => .inl ⟨rfl,fun w => ⟨w,rfl⟩⟩⟩
    · exact performs_succ (backed_succ (ih (by omega)) (ih (by omega)))

/-- The run without the onlooker lags behind the one with it, if that has fuel for twice as many levels. -/
theorem performs_of_double {fuel fuel' : Nat} (more : 2 * fuel' ≤ fuel) :
    O.Performs false (performWith fuel) (performWith fuel') := by
  induction fuel' generalizing fuel with
  | zero => exact fun _ _ v _ _ => .stopped v _
  | succ fuel' ih =>
    obtain ⟨fuel,rfl⟩ : ∃ rest, fuel = rest + 2 := ⟨fuel - 2,by omega⟩
    exact performs_succ (backed_succ (ih (by omega)) (ih (by omega)))

theorem runs_lagging (along : O.Along w v) {script : Script σ} (blind : script.Blind O) (fuel : Nat) :
    O.Likewise true (ofScript (performWith (fuel + 1)) script) (ofScript (performWith (fuel + 1)) script)
      w v :=
  likewise_ofScript (backed_succ (performs_of_le le_rfl) (performs_of_le (Nat.le_succ fuel))) blind along

theorem runs_leading (along : O.Along w v) {script : Script σ} (blind : script.Blind O) (fuel : Nat) :
    O.Likewise false (ofScript (performWith (2 * fuel + 1)) script) (ofScript (performWith fuel) script)
      w v :=
  likewise_ofScript (backed_succ (performs_of_double (by omega)) (performs_of_double le_rfl)) blind along

end Tasks

/-- Where a script comes to if there is fuel enough. -/
def Reaches (script : Script σ) (w : World σ) (result : Except Failure Reply) (u : World σ) : Prop :=
  ComesTo (fun fuel => ofScript (performWith fuel) script) w result u

theorem reaches_of_ended {script : Script σ} {fuel : Nat} {result : Except Failure Reply} {u : World σ}
    (ended : attempt (ofScript (performWith fuel) script) w = .ok result u) : Reaches script w result u :=
  comesTo_of_attempt (fun more => below_interpret
    (below_answer fun task => performWith_below more task) script) fuel ended

/-- A blind script comes to the same with the onlooker and without. -/
theorem reaches_alike (along : O.Along w v) {script : Script σ} (blind : script.Blind O)
    (result : Except Failure Reply) :
    (∀ u, Reaches script w result u → ∃ u', Reaches script v result u' ∧ O.Along u u') ∧
      ∀ u', Reaches script v result u' → ∃ u, Reaches script w result u ∧ O.Along u u' := by
  constructor
  · rintro u ⟨enough,ended⟩
    obtain ⟨u',ended',related⟩ := Followed.ended (runs_lagging along blind enough)
      (ended (enough + 1) (Nat.le_succ enough))
    exact ⟨u',reaches_of_ended ended',related⟩
  · rintro u' ⟨enough,ended⟩
    obtain ⟨u,ended',related⟩ := Followed.ended (runs_leading along blind enough) (ended enough le_rfl)
    exact ⟨u,reaches_of_ended ended',related⟩

theorem blind_bind {script : Script σ} {next : Reply → Script σ} (blind : script.Blind O)
    (rest : ∀ reply, (next reply).Blind O) : (script.bind next).Blind O := by
  induction blind with
  | done reply => exact rest reply
  | fail failure => exact .fail failure
  | look same _ ih => exact .look (fun s s' overlooks => by rw [same s s' overlooks]) ih
  | get _ ih => exact .get ih
  | set kept _ ih => exact .set kept ih
  | define blind _ _ ih => exact .define blind ih
  | call avoids _ ih => exact .call avoids ih
  | attempt tried _ _ ih => exact .attempt tried ih

/-- Fires events at a session, one after the other, and tells of each how it ended. -/
def firings (ref : SessionRef) (tell : Except Failure Reply → Script σ) : List Event → Script σ
  | [] => .done .unit
  | event :: rest => .attempt (.invoke (.fire ref event)) fun result =>
      (tell result).andThen (firings ref tell rest)

theorem firings_blind {ref : SessionRef} {tell : Except Failure Reply → Script σ}
    (told : ∀ result, (tell result).Blind O)
    (events : List Event) : (firings ref tell events).Blind O := by
  induction events with
  | nil => exact .done .unit
  | cons event rest ih =>
    exact .attempt (.call trivial .done) fun result => blind_bind (told result) fun _ => ih

section Adding

/-- The name that a filter keeps of its entry goes unseen. -/
theorem veil_name (s : Session) (value : Message) :
    O.veil O.ref (s.setAttribute O.key value) = O.veil O.ref s ∧
      O.veil O.ref (s.removeAttribute O.key) = O.veil O.ref s := by
  simp [veil,Session.setAttribute,Session.removeAttribute]

/-- A plain filter objects to no hook, and what it does in one goes unseen. -/
theorem runHook_plain (plain : (w.store.filter O.filter).plain = true) (hook : Hook) (name : String) :
    ∃ s : Store, (∀ perform, runHook perform O.filter hook name O.place w = .ok () { w with store := s }) ∧
      O.Overlooks s w.store ∧ s.chain O.ref = w.store.chain O.ref := by
  have hidden : O.seen (.hooked O.filter hook name O.place) = none := if_pos rfl
  have told := overlooks_record (w := w) hidden
  have asks (perform : Perform σ) : runHook perform O.filter hook name O.place w = _ :=
    (bind_of_ok (observe_apply _ w)).trans (bind_of_ok (filter_apply _ _))
  have same : (w.record (.hooked O.filter hook name O.place)).store.filter O.filter =
      w.store.filter O.filter := rfl
  rw [same] at asks
  cases found : w.store.filter O.filter with
  | noop | adapter =>
    rw [found] at asks
    exact ⟨_,asks,told,rfl⟩
  | logging settings =>
    rw [found] at asks
    cases hook with
    | preAdd => exact ⟨_,asks,told,rfl⟩
    | preRemove => exact ⟨_,asks,told,rfl⟩
    | postAdd =>
      have keeps (s : Session) : (s.setAttribute O.key (.ofString name)).chain = s.chain := rfl
      exact ⟨_,asks,(overlooks_mapSession fun s => (veil_name s _).1).trans told,
        World.chain_mapSession keeps _ O.ref O.ref⟩
    | postRemove =>
      have keeps (s : Session) : (s.removeAttribute O.key).chain = s.chain := rfl
      exact ⟨_,asks,(overlooks_mapSession fun s => (veil_name s .empty).2).trans told,
        World.chain_mapSession keeps _ O.ref O.ref⟩
  | codec | custom =>
    rw [found] at plain
    cases plain

/-- The entry that a filter gets when it is added to the chain of a session. -/
def added (w : World σ) (ref : SessionRef) (name : String) (f : FilterId) (kept : σ → Prop) : Onlooker σ :=
  ⟨(w.store.chain ref).reserved ref name f,f,kept⟩

variable {ref : SessionRef} {name : String} {position : Position} {f : FilterId} {kept : σ → Prop}

/-- A plain filter is added wherever its name and its position allow it, and that goes unseen. -/
theorem add_plain (kept : σ → Prop) (present : ref < w.store.sessions.size)
    (plain : (w.store.filter f).plain = true)
    (admissible : (w.store.chain ref).checkAddition name position = .ok ()) :
    ∃ s : Store, (∀ perform, add perform ref position name (some f) w = .ok () { w with store := s }) ∧
      (added w ref name f kept).Overlooks s w.store ∧
      s.chain ref = ((w.store.chain ref).allocate name f).2.insert
        ((w.store.chain ref).allocate name f).1 name position := by
  let O := added w ref name f kept
  have edited (u : World σ) (change : Chain → Chain) : O.Overlooks (u.mapChain ref change).store u.store := by
    have own : ref = O.ref := rfl
    exact overlooks_mapSession fun s => by simp only [veil,if_pos own]
  -- The slot is taken and the filter asked, the entry linked and logged, and the filter told.
  have reserved : O.Overlooks (w.reserve ref name f).store w.store := edited w _
  obtain ⟨s₁,asked,seen₁,chain₁⟩ := runHook_plain (O := O) (w := w.reserve ref name f) plain .preAdd name
  let w₁ : World σ := { w.reserve ref name f with store := s₁ }
  have chain₁ : w₁.store.chain ref = ((w.store.chain ref).allocate name f).2 :=
    chain₁.trans (World.chain_mapChain present _)
  have present₁ : ref < w₁.store.sessions.size := (seen₁.trans reserved).size ▸ present
  have still : (w₁.store.chain ref).checkAddition name position = .ok () := by
    rw [chain₁,allocate_checkAddition,admissible]
  have hidden : O.seen (.linked O.place) = none := if_pos rfl
  have seen₂ : O.Overlooks (w₁.linkEntry ref O.place name position).store w₁.store :=
    (overlooks_record hidden).trans (edited w₁ _)
  let w₂ := (w₁.linkEntry ref O.place name position).logged chainLogger .debug (Bytes.ofString
    ("session " ++ toString ((w₁.linkEntry ref O.place name position).store.session ref).id ++ ": " ++
      ("added " ++ name ++ " (" ++ (w₁.linkEntry ref O.place name position).store.label f ++ ")")))
  have unseen : O.Overlooks w₂.store w.store :=
    (overlooks_logged ..).trans (seen₂.trans (seen₁.trans reserved))
  have plain₂ : (w₂.store.filter f).plain = true := by
    rw [Store.filter,unseen.filters]
    exact plain
  obtain ⟨s₃,told,seen₃,chain₃⟩ := runHook_plain (O := O) plain₂ .postAdd name
  refine ⟨s₃,fun perform => ?_,seen₃.trans unseen,chain₃.trans ?_⟩
  · have admits : admitEntry perform ref position name f w =
        .ok O.place (w₁.linkEntry ref O.place name position) := by
      rw [admitEntry_asks perform f admissible]
      refine (attempt_bind_ok (asked perform) _).trans ?_
      dsimp only
      exact (bind_of_ok (chain_apply ref w₁)).trans (by rw [still]; rfl)
    have logs : logChain ref .debug ("added " ++ name ++ " (" ++
        (w₁.linkEntry ref O.place name position).store.label f ++ ")")
        (w₁.linkEntry ref O.place name position) = .ok () w₂ := rfl
    refine (bind_of_ok admits).trans ((bind_of_ok (store_apply _)).trans ((bind_of_ok logs).trans ?_))
    exact attempt_bind_ok (told perform) _
  · have linked := World.chain_mapChain present₁ fun c => c.insert O.place.entry name position
    rw [chain₁] at linked
    exact linked

/-- A filter that passes everything on goes unnoticed in whatever chain it is added to, and wherever in it:
as long as no code that there is inspects or edits that chain, a run that follows comes to the same with the
filter and without. It returns or throws the same, and all that is different then is the entry itself, the
logs and the attribute in which a filter that logs keeps the name of its entry. -/
theorem plain_unnoticed {ids flight : List EntryId} (present : ref < w.store.sessions.size)
    (holds : (w.store.chain ref).Holds ids flight)
    (admissible : (w.store.chain ref).checkAddition name position = .ok ())
    (plain : ∃ p, w.store.filters[f]? = some p ∧ p.plain = true) (memory : kept w.own)
    (blind : ∀ (id : CodeId) body, w.code[id]? = some body → ∀ how,
      how.Avoids (added w ref name f kept) → (body how).Blind (added w ref name f kept)) :
    ∃ w', (∀ perform, add perform ref position name (some f) w = .ok () w') ∧
      ∀ script : Script σ, script.Blind (added w ref name f kept) → ∀ result,
        (∀ u, Reaches script w result u →
          ∃ u', Reaches script w' result u' ∧ (added w ref name f kept).Along u' u) ∧
        ∀ u', Reaches script w' result u' →
          ∃ u, Reaches script w result u ∧ (added w ref name f kept).Along u' u := by
  obtain ⟨p,found,plainly⟩ := plain
  have held : w.store.filter f = p := by simp [Store.filter,Array.getD_eq_getD_getElem?,found]
  have plain : (w.store.filter f).plain = true := held ▸ plainly
  obtain ⟨s,adds,overlooks,chain⟩ := add_plain kept present plain admissible
  have along : (added w ref name f kept).Along { w with store := s } w := {
    overlooks := overlooks
    spliced := by
      have spliced := holds.spliced (f := f) ref admissible
      rw [← chain] at spliced
      exact spliced
    plain := ⟨p,overlooks.filters ▸ found,plainly⟩
    own := rfl
    kept := memory
    code := rfl
    blind := blind }
  exact ⟨_,adds,fun script blind result => (reaches_alike along blind result).symm⟩

section Relayed

/-- A filter of an application that passes every event on. -/
def relaying : Invocation → Script Nat
  | .event event session handle => .invoke (.forward handle session event)
  | _ => .done .unit

/-- A handler that counts its events and cannot stand what is idle. -/
def counting : Invocation → Script Nat
  | .handle (.sessionIdle _) _ => .fail (.runtime "idle")
  | .handle _ _ => .get fun n => .set (n + 1) (.done .unit)
  | _ => .done .unit

def relayed : World Nat where
  store := {
    filters := #[.custom "Relay" 0,.logging (.initial LogSettings.defaultLogger)]
    handlers := #[.custom 1]
    processors := #[.loopback 0]
    requests := #[{ message := .empty,future := none }]
    sessions := #[{
      id := 1
      handler := 0
      processor := 0
      queue := Ring.vacant 4 4
      chain := (Chain.empty.allocate "relay" 0).2.insert 2 "relay" .last }] }
  own := 0
  code := #[relaying,counting]

def noting : Except Failure Reply → Script Nat
  | .ok _ => .done .unit
  | .error failure => .invoke (.note (.str failure.message))

/-- All nine events, at one session. -/
def tour : Script Nat := firings 0 noting [.sessionCreated,.sessionOpened,.messageReceived .empty,
  .sessionIdle .both,.filterWrite 0,.messageSent 0,.exceptionCaught none,.filterClose,.sessionClosed]

/-- The entry that is added in front of the relay. -/
def guest : Onlooker Nat := added relayed 0 "log" 1 fun _ => True

theorem relayed_blind (id : CodeId) (body : Invocation → Script Nat) (found : relayed.code[id]? = some body)
    (how : Invocation) (avoids : how.Avoids guest) : (body how).Blind guest := by
  rcases id with _ | _ | id
  · cases found
    cases how with
    | event event session handle => exact .call avoids .done
    | _ => exact .done .unit
  · cases found
    cases how with
    | handle event session =>
      cases event with
      | sessionIdle status => exact .fail _
      | _ => exact .get fun n _ => .set trivial (.done .unit)
    | _ => exact .done .unit
  · cases found

theorem tour_blind : tour.Blind guest := firings_blind (fun result => by
  cases result with
  | ok reply => exact .done .unit
  | error failure => exact .call trivial .done) _

theorem plain_unnoticed_relayed : ∃ w' reply u u', (∀ perform,
      add perform 0 (.before "relay") "log" (some 1) relayed = .ok () w') ∧
    Reaches tour relayed (.ok reply) u ∧ Reaches tour w' (.ok reply) u' ∧ guest.Along u' u := by
  have allocated := Chain.empty_holds.allocate "relay" 0
  have room : (Chain.empty.allocate "relay" 0).2.checkAddition "relay" .last = .ok () := rfl
  obtain ⟨_,_,_,_,holds⟩ := allocated.insert room rfl rfl
  have admissible : (relayed.store.chain 0).checkAddition "log" (.before "relay") = .ok () := rfl
  have present : 0 < relayed.store.sessions.size := by decide
  obtain ⟨w',adds,alike⟩ := plain_unnoticed present holds admissible ⟨_,rfl,rfl⟩ trivial relayed_blind
  have ended : verdict (do let _ ← ofScript (performWith 12) tour) relayed = some (.ok ()) := by
    decide +kernel
  obtain ⟨reply,u,returned,_⟩ := ok_of_bind (ok_of_attempt (attempt_of_verdict ended))
  have reaches := reaches_of_ended (attempt_of_ok returned)
  obtain ⟨u',reaches',along⟩ := (alike tour tour_blind (.ok reply)).1 u reaches
  exact ⟨w',reply,u,u',adds,reaches,reaches',along⟩

/-- A handler that looks for an entry in the chain when a message comes. -/
def inquiring : Invocation → Script Nat
  | .handle (.messageReceived _) session => .look fun s =>
      if (s.chain session).contains "log" then .done .unit else .fail (.nameNotFound "log")
  | _ => .done .unit

def inquired : World Nat := { relayed with code := #[relaying,inquiring] }

def reception : Script Nat := .invoke (.fire 0 (.messageReceived .empty))

/-- It is not enough that no other filter looks at the chain: what the handler makes of it reaches the firer. -/
theorem plain_noticed_inquired : (∀ how : Invocation, how.Avoids guest → (relaying how).Blind guest) ∧
    ∃ w' reply u u', (∀ perform, add perform 0 (.before "relay") "log" (some 1) inquired = .ok () w') ∧
      Reaches reception inquired (.error (.nameNotFound "log")) u ∧ Reaches reception w' (.ok reply) u' := by
  have admissible : (inquired.store.chain 0).checkAddition "log" (.before "relay") = .ok () := rfl
  have present : 0 < inquired.store.sessions.size := by decide
  obtain ⟨s,adds,_⟩ := add_plain (f := 1) (fun _ => True) present rfl admissible
  have refused : (ofScript (performWith 8) reception).verdict inquired =
      some (.error (.nameNotFound "log")) := by
    decide +kernel
  have taken : verdict (do
      add (performWith 8) 0 (.before "relay") "log" (some 1)
      let _ ← ofScript (performWith 8) reception) inquired = some (.ok ()) := by
    decide +kernel
  have ended := ok_of_attempt (attempt_of_verdict taken)
  rw [bind_of_ok (adds _)] at ended
  obtain ⟨reply,u',returned,_⟩ := ok_of_bind ended
  exact ⟨relayed_blind 0 relaying rfl,_,reply,_,u',adds,
    reaches_of_ended (attempt_of_failed (failed_of_verdict refused)),
    reaches_of_ended (attempt_of_ok returned)⟩

end Relayed

end Adding

end SessionPipeline.Onlooker
