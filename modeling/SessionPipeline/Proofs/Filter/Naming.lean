import SessionPipeline.Proofs.Effect.Ending
import SessionPipeline.Proofs.Effect.Following
import SessionPipeline.Proofs.Filter.Titles

/-! Records name the entry. A logging filter logs an event under the name that it keeps on the session,
which is the name of the entry that the event came to as long as no chain is given the filter under a
second name, no entry gets a logging filter back that keeps another name by then, and nobody else lays
hands on these names. -/
namespace SessionPipeline

/-- Another entry of the chain, of another name, holds this filter, and it is a logging one. -/
def Store.aliased (s : Store) (ref : SessionRef) (name : String) (filter : FilterId) : Bool :=
  (s.filter filter).isKind .logging &&
    ((s.chain ref).getAll ref).any fun e => e.filter == some filter && e.name != name

/-- A call that gives a chain a logging filter under a second name. -/
def Call.aliases (s : Store) : Call → Bool
  | .add ref position name (some filter) =>
    ((s.chain ref).checkAddition name position).isOk && s.aliased ref name filter
  | .replace ref name (some filter) => (s.chain ref).contains name && s.aliased ref name filter
  | _ => false

/-- The world once an event of a session is logged under a name. -/
def World.attest {σ : Type} (w : World σ) (settings : LogSettings) (ref : SessionRef) (name : String)
    (event : Event) : World σ :=
  w.logged settings.logger (settings.level event.kind)
    (Bytes.ofString event.kind.name ++ Effect.describeArgument w.store event)
    { session := (w.store.session ref).id.toUInt64, filter := Bytes.ofString name,
      event := Bytes.ofString event.kind.name, component := .filter }

namespace Effect

variable {σ : Type}

/-- A logging filter would come back that does not keep the name of the entry. -/
def outdated (session : SessionRef) (handle : Handle) (old : FilterId) (s : Store) : Bool :=
  (s.chain session).isCurrent handle && (s.filter old).isKind .logging &&
    (s.session session).attribute? (.entryName old) !=
      some (.ofString ((s.chain session).slot handle.entry).name)

/-- Puts a filter back, but stops before a logging one would come back under another name. -/
def putBackNamed (session : SessionRef) (handle : Handle) (old : FilterId) (failure : Failure) :
    Effect σ (Option FilterId) := do
  stopIf (outdated session handle old)
  putBack session handle old failure

/-- Adds entries at the end, but stops before one that gives the chain a second name for a filter. -/
def addAllNamed (perform : Perform σ) (session : SessionRef) : List (String × FilterId) → Effect σ Unit
  | [] => pure ()
  | (name,filter) :: rest => do
    stopIf fun s => (Call.add session .last name (some filter)).aliases s
    add perform session .last name (some filter)
    addAllNamed perform session rest

/-- Answers a call, but stops before a chain is given a filter that there is not or a logging filter
under a second name, before a logging filter comes back under another name, and at calls that lay hands
on names. -/
def answerAptly (perform : Perform σ) (c : Call) : Effect σ Reply := do
  needSessions c.sessions
  stopIf fun s => c.strange s || c.aliases s || c.renames
  match c with
  | .replace ref name filter => return .filter (← replaceWith putBackNamed perform ref name filter)
  | .addAll ref entries => do
    addAllNamed perform ref entries
    return .unit
  | c => ofCall perform c

def taskAptly (stops : Watch σ) (perform : Perform σ) : Task → Effect σ Reply
  | .run code how => do
    match (← MonadState.get).code[code]? with
    | some body => interpretUntil stops (answerAptly perform) (body how)
    | none => return .unit
  | task => ofTask perform task

/-- Performs a task, and the tasks within it, while they are watched. -/
def performAptly (stops : Watch σ) : Nat → Perform σ
  | 0, _ => throw .outOfFuel
  | fuel + 1, task => do
    pause stops (.task task)
    taskAptly stops (performAptly stops fuel) task

end Effect

/-- How a watched run of a script ends that is also stopped, as if out of fuel, before names of entries
and of what they hold come apart. -/
def Script.aptly {σ : Type} (stops : Watch σ) (fuel : Nat) (script : Script σ) (w : World σ) :
    Ending × World σ :=
  match Effect.interpretUntil stops (Effect.answerAptly (Effect.performAptly stops fuel)) script w with
  | .ok reply world => (.replied reply,world)
  | .error (.failed failure) world => (.failed failure,world)
  | .error .outOfFuel world => (.outOfFuel,world)

namespace Effect

open World

variable {σ : Type} {w w₁ w₂ w' : World σ} {perform : Perform σ} {ref : SessionRef} {name n : String}
  {filter : FilterId} {handle : Handle} {position : Position} {flight : SessionRef → List EntryId}

/-- To leave what entries hold the names of the entries. -/
def titling : Contract σ where
  terms := .free
  ended := World.Names
  stopped := World.Halts

instance : Receptive (titling : Contract σ) where
  refl := .refl
  trans := .trans
  quiet := .quiet
  stop := World.Names.halts
  after before halts := halts.after before
  awaited w id listener open' := ⟨.step (.awaited w id listener open'),fun _ _ _ apt r x n f seats =>
    (apt r x n f seats).within (fun _ _ => rfl) rfl⟩

/-- What is not held under another name is held under this one. -/
theorem named_of_aliased (inOrder : w.InOrder flight)
    (logs : (w.store.filter filter).isKind .logging = true) (single : w.store.aliased ref name filter = false) {x : EntryId}
    (seats : (w.store.chain ref).Seats x n filter) : n = name := by
  obtain ⟨ids,holds⟩ := inOrder ref
  have listed : (w.store.chain ref).entry ref x ∈ (w.store.chain ref).getAll ref := by
    rw [holds.getAll_eq]
    exact List.mem_map_of_mem (seats.mem holds)
  simp only [Store.aliased,logs,Bool.true_and,List.any_eq_false] at single
  have same := single _ listed
  rw [← seats.named]
  simpa [Chain.entry,seats.holding] using same

/-- In a world that is not in order, or where names have come apart, nothing is to be kept. -/
theorem meets_of_apt {α : Type} {m : Effect σ α} (evolves : Meets (evolution .free) w m w)
    (meets : ∀ flight, w.InOrder flight → w.Apt → Meets titling w m w) : Meets titling w m w := by
  by_cases whole : ∃ flight, w.InOrder flight ∧ w.Apt
  · obtain ⟨flight,inOrder,apt⟩ := whole
    exact meets flight inOrder apt
  · have loose {w' : World σ} (_ : w.Sparing w') (flight : SessionRef → List EntryId)
        (inOrder : w.InOrder flight) (apt : w.Apt) : w'.Apt := absurd ⟨flight,inOrder,apt⟩ whole
    exact ends_mono evolves (fun _ _ evolves => ⟨evolves,loose⟩) (fun _ _ evolves => ⟨evolves,loose⟩)
      fun _ midway => ⟨midway,loose⟩

section Performing

variable (runs : ∀ code how, Keeping titling (perform (.run code how)))
include runs

theorem plain_hook (plain : (w.store.filter filter).isKind .logging = false) (hook : Hook) (name : String)
    (handle : Handle) : Meets titling w (runHook perform filter hook name handle) w :=
  runHook_keeps (fun _ => runs _ _) fun logs => absurd (plain.symm.trans logs) Bool.false_ne_true

theorem evolving_runs (code : CodeId) (how : Invocation) : Evolving .free (perform (.run code how)) :=
  (runs code how).weaken (fun _ _ names => names.evolves) fun _ _ halts => halts.midway

theorem removeEntry_names {id : EntryId} (picked : (w.store.chain ref).Picks id) :
    Meets titling w (removeEntry perform ref id) w := by
  refine meets_of_apt (removeEntry_keeps (evolving_runs runs) .removed picked) fun flight inOrder apt => ?_
  unfold removeEntry
  rw [meets_bind_of_ok (chain_apply ref w)]
  dsimp only
  split
  · exact .refl w
  · rename_i filter holding
    cases logs : (w.store.filter filter).isKind .logging with
    | true =>
      rw [meets_bind_of_ok (attempt_of_ok (runHook_before_logging logs (.inr rfl) _ _))]
      dsimp only
      rw [meets_bind_of_ok (chain_apply ref _)]
      split
      · rename_i current
        rw [meets_bind_of_ok (dropEntry_apply ref _ _ _),meets_bind_of_ok (logChain_apply ref _ _ _),
          meets_bind_of_ok (runHook_postRemove_logging ?_ _ _)]
        · refine Names.left picked holding logs ?_ rfl rfl
          have dropped : w.Evolves .free _ := .removed picked (.step (.quiet (.told w _ rfl))) current
          refine dropped.trans (Evolves.trans ?_ (.step (.quiet (.told _ _ rfl))))
          exact .step (.quiet (.logged ..))
        · exact logs
      · exact .quiet (.told w _ rfl) fun _ _ => rfl
    | false =>
      refine (plain_hook runs logs .preRemove _ _).bind_attempt (fun _ halts => halts)
        fun result w₁ hook => ?_
      cases result with
      | error failure => exact (keeping_vetoed _ failure).from hook
      | ok =>
        dsimp only
        rw [meets_bind_of_ok (chain_apply ref w₁)]
        split
        · rename_i current
          obtain ⟨ids,holds⟩ := inOrder ref
          have seats := holds.seats (holds.mem_of_picks picked) holding
          have plain := (Midway.kind (.ended hook.evolves) .logging (apt ref id _ filter seats).known).2
          rw [meets_bind_of_ok (dropEntry_apply ref _ _ w₁),meets_bind_of_ok (logChain_apply ref _ _ _)]
          refine Meets.bind (Meets.from (plain_hook runs ?_ .postRemove _ _) ?_) fun _ _ before =>
            (keeping_pure _).from before
          · exact plain.trans logs
          · exact (Names.removed picked hook current).trans (.quiet (.logged ..) fun _ _ => rfl)
        · exact hook

/-- A new entry may be linked behind a hook, or its slot is freed. -/
theorem admitEntry_names (present : ref < w.store.sessions.size) (position : Position) (name : String)
    (known : filter < w.store.filters.size)
    (single : (w.store.chain ref).checkAddition name position = .ok () →
      w.store.aliased ref name filter = false) :
    ends (admitEntry perform ref position name filter)
      (fun handle w' => handle = (w.store.chain ref).reserved ref name filter ∧
        ∃ w₁, w.Enters w₁ ref name filter position ∧ w' = w₁.linkEntry ref handle name position)
      (fun _ => w.Names) w.Halts w := by
  unfold admitEntry
  rw [ends_bind_of_ok (chain_apply ref w),ends_bind,ends_ofExcept]
  cases free : (w.store.chain ref).checkAddition name position with
  | error failure => exact .refl w
  | ok =>
    dsimp only
    rw [ends_bind_of_ok (allocateEntry_apply ref name filter w),ends_bind,ends_attempt]
    refine ends_mono (ends_told (runHook_keeps (R := titling) (fun _ => runs _ _) fun _ => ⟨nofun,nofun⟩))
      ?_ ?_ ?_
    · rintro _ w₁ ⟨returned,hook⟩
      dsimp only
      rw [ends_bind_of_ok (chain_apply ref w₁)]
      cases admissible : (w₁.store.chain ref).checkAddition name position with
      | error failure => exact .refused present hook
      | ok =>
        obtain ⟨inside,kind⟩ := Midway.kind (.ended hook.evolves) .logging
          (show filter < (w.reserve ref name filter).store.filters.size from known)
        refine ⟨rfl,w₁,⟨present,hook,admissible,inside,fun logs flight inOrder x n seats => ?_⟩,rfl⟩
        -- A logging filter has let no code run, so the chain holds what it held.
        rw [runHook_before_logging (kind.symm.trans logs) (.inl rfl)] at returned
        cases returned
        obtain ⟨ids,holds⟩ := inOrder ref
        have here : (w.reserve ref name filter).store.chain ref =
            ((w.store.chain ref).allocate name filter).2 := chain_mapChain present _
        have seats : ((w.store.chain ref).allocate name filter).2.Seats x n filter := here ▸ seats
        exact named_of_aliased inOrder logs (single free) (holds.seats_allocate seats)
    · rintro failure w₁ ⟨_,hook⟩
      exact .refused present hook
    · exact fun w₁ hook => hook.adding present

/-- A logging filter signs its name at once; another one whose hook fails leaves again. -/
theorem confirmEntry_names (enters : w.Enters w₁ ref name filter position) (level : Logging.Level)
    (text : Bytes) :
    Meets titling w (confirmEntry perform ref name filter ((w.store.chain ref).reserved ref name filter))
      ((w₁.linkEntry ref ((w.store.chain ref).reserved ref name filter) name position).logged chainLogger
        level text) := by
  unfold confirmEntry
  cases logs : (w₁.store.filter filter).isKind .logging with
  | true =>
    rw [meets_bind_of_ok (attempt_of_ok (runHook_postAdd_logging ?_ _ _))]
    · refine enters.signed logs (Evolves.trans ?_ (.step (.quiet (.told _ _ rfl)))) rfl rfl
      exact .step (.quiet (.logged ..))
    · exact logs
  | false =>
    have after := Names.quiet (.logged (w₁.linkEntry ref ((w.store.chain ref).reserved ref name filter) name
      position) chainLogger level text {}) fun _ _ => rfl
    have linked := (enters.linked logs).trans after
    refine Meets.bind_attempt (plain_hook runs ?_ .postAdd name _) (fun _ halts => halts.after linked)
      fun result w₃ told => ?_
    · exact logs
    cases result with
    | ok => exact linked.trans told
    | error failure =>
      dsimp only
      rw [meets_bind_of_ok (chain_apply ref w₃)]
      split
      · rename_i current
        rw [meets_bind_of_ok (dropEntry_apply ref _ name w₃)]
        exact (keeping_logFail ref .debug _ failure).from (.rolledBack enters logs (after.trans told) current)
      · exact (keeping_logFail ref .debug _ failure).from (linked.trans told)

theorem add_names (present : ref < w.store.sessions.size) (position : Position) (name : String)
    {filter? : Option FilterId} (known : ∀ id, filter? = some id → id < w.store.filters.size)
    (single : (Call.add ref position name filter?).aliases w.store = false) :
    Meets titling w (add perform ref position name filter?) w := by
  cases filter? with
  | none => exact .refl w
  | some filter =>
    rw [add_some,meets_bind]
    refine ends_mono (admitEntry_names runs present position name (known filter rfl) fun free => ?_) ?_
      (fun _ _ before => before) fun _ halts => halts
    · simpa [Call.aliases,free,Except.isOk,Except.toBool] using single
    · rintro _ w' ⟨rfl,w₁,enters,rfl⟩
      rw [meets_bind_of_ok (store_apply _),meets_bind_of_ok (logChain_apply ref _ _ _)]
      exact confirmEntry_names runs enters _ _

theorem addAll_names {entries : List (String × FilterId)} (present : ref < w.store.sessions.size)
    (known : ∀ entry ∈ entries, entry.2 < w.store.filters.size) :
    Meets titling w (addAllNamed perform ref entries) w := by
  induction entries generalizing w with
  | nil => exact .refl w
  | cons entry rest ih =>
    unfold addAllNamed
    refine .behind_stop (.refl w) fun single => ?_
    have first : ∀ id, some entry.2 = some id → id < w.store.filters.size := by
      rintro _ ⟨⟩
      exact known entry List.mem_cons_self
    refine (add_names runs present .last entry.1 first single).bind fun _ w₁ before => ?_
    refine (ih (Nat.lt_of_lt_of_le present before.evolves.sessions_le) fun other member => ?_).from before
    exact (Midway.kind (.ended before.evolves) .logging (known other (List.mem_cons_of_mem _ member))).1

/-- A logging filter signs the name of the entry at once; another one whose hook fails makes way again. -/
theorem exchange_names (present : ref < w.store.sessions.size) {id : EntryId} {generation : UInt32}
    (between : id ≠ Chain.head ∧ id ≠ Chain.tail) (known : filter < w.store.filters.size)
    (here : (w.store.filter filter).isKind .logging = true → ((w.store.chain ref).slot id).name = name ∧
      ∀ flight, w.InOrder flight → ∀ x n, (w.store.chain ref).Seats x n filter → n = name) :
    Meets titling w (exchangeWith putBackNamed perform ref name filter ⟨ref,id,generation⟩) w := by
  unfold exchangeWith
  rw [meets_bind_of_ok (chain_apply ref w)]
  dsimp only
  split
  · exact .refl w
  · rename_i current
    have linked := linked_of_current (by simpa using current)
    split
    · exact .refl w
    · rename_i old holding
      rw [meets_bind_of_ok (modifyChain_apply ref _ w),meets_bind_of_ok (store_apply _),
        meets_bind_of_ok (logChain_apply ref _ _ _)]
      cases logs : (w.store.filter filter).isKind .logging with
      | true =>
        obtain ⟨named,single⟩ := here logs
        rw [meets_bind_of_ok (attempt_of_ok (runHook_postAdd_logging ?_ _ _))]
        · refine Names.exchanged present between linked known named single ?_ rfl rfl
          refine Evolves.trans ?_ (.step (.quiet (.told _ _ rfl)))
          exact .trans (.step (.replaced w ref id filter linked)) (.step (.quiet (.logged ..)))
        · exact logs
      | false =>
        have put (text : Bytes) := (Names.replaced present between linked known logs).trans
          (.quiet (.logged _ chainLogger .debug text {}) fun _ _ => rfl)
        refine Meets.bind_attempt (plain_hook runs ?_ .postAdd name _) (fun _ halts => halts.after (put _))
          fun result w₁ told => ?_
        · exact logs
        have told := (put _).trans told
        cases result with
        | ok => exact told
        | error failure =>
          dsimp only
          unfold putBackNamed putBack
          refine .behind_stop told fun fitting => ?_
          rw [meets_bind_of_ok (chain_apply ref w₁)]
          dsimp only
          split
          · rename_i current'
            rw [meets_bind_of_ok (modifyChain_apply ref _ w₁)]
            refine Names.undone present between linked holding told (linked_of_current current') ?_
            intro logs
            simpa [outdated,current',logs] using fitting
          · exact told

theorem replace_names (name : String) {filter? : Option FilterId}
    (known : ∀ id, filter? = some id → id < w.store.filters.size)
    (single : (Call.replace ref name filter?).aliases w.store = false) :
    Meets titling w (replaceWith putBackNamed perform ref name filter?) w := by
  have undoes (session : SessionRef) (handle : Handle) (old : FilterId) (failure : Failure) :
      Evolving .free (putBackNamed session handle old failure : Effect σ (Option FilterId)) :=
    fun w => .behind_stop (.refl w) fun _ => evolving_putBack _ _ _ _ w
  refine meets_of_apt (evolving_replaceWith (evolving_runs runs) undoes ref name filter? w)
    fun flight inOrder apt => ?_
  cases filter? with
  | none => exact .refl w
  | some new =>
    unfold replaceWith
    rw [meets_bind_of_ok (needFilter_apply name new w),meets_bind_of_ok (chain_apply ref w)]
    cases found : (w.store.chain ref).find? name with
    | none =>
      rw [getHandle_eq_error ref found]
      exact .refl w
    | some id =>
      obtain ⟨ids,holds⟩ := inOrder ref
      obtain ⟨member,named⟩ := (holds.find?_eq_some_iff name id).mp found
      have present := picked_present (.named found)
      rw [getHandle_eq_ok ref found,meets_bind_of_ok (ofExcept_apply _ w)]
      cases logs : (w.store.filter new).isKind .logging with
      | true =>
        let asked := w.record (.hooked new .preAdd name ((w.store.chain ref).handle ref id))
        have told : w.Names asked := .quiet (.told w _ rfl) fun _ _ => rfl
        have alone : w.store.aliased ref name new = false := by
          simpa [Call.aliases,Chain.contains,found] using single
        rw [meets_bind_of_ok (attempt_of_ok (runHook_before_logging logs (.inl rfl) _ _))]
        refine Meets.from ?_ told
        refine exchange_names (w := asked) runs present (holds.between member) (known new rfl) fun _ =>
          ⟨named,fun flight inOrder x n seats => ?_⟩
        exact named_of_aliased (w := w) inOrder logs alone seats
      | false =>
        refine (plain_hook runs logs .preAdd name _).bind_attempt (fun _ halts => halts)
          fun result w₁ hook => ?_
        cases result with
        | error failure => exact (keeping_vetoed _ failure).from hook
        | ok =>
          obtain ⟨inside,kind⟩ := Midway.kind (.ended hook.evolves) .logging (known new rfl)
          refine (exchange_names runs ?_ (holds.between member) inside fun logs' => ?_).from hook
          · exact Nat.lt_of_lt_of_le present hook.evolves.sessions_le
          · exact absurd (logs.symm.trans (kind.symm.trans logs')) Bool.false_ne_true

end Performing

/-- No call takes a name from an entry. -/
theorem answerAptly_keeps (performs : Performs titling perform) (c : Call) :
    Keeping titling (answerAptly perform c) := by
  intro w
  have runs := keeping_run performs
  have leaves {w : World σ} {ref : SessionRef} {id : EntryId} (picked : (w.store.chain ref).Picks id) :
      Meets titling w (removeEntry perform ref id) w := removeEntry_names runs picked
  have finish (reply : Reply) : Keeping titling (pure reply : Effect σ Reply) := keeping_pure reply
  refine needed_keeps fun named => .behind_stop (.refl w) fun fitting => ?_
  simp only [Bool.or_eq_false_iff] at fitting
  obtain ⟨⟨familiar,single⟩,nameless⟩ := fitting
  cases c with
  | add ref position name filter =>
    have present := named ref (by simp [Call.sessions])
    have known : ∀ id, filter = some id → id < w.store.filters.size := by
      rintro id rfl
      simpa [Call.strange] using familiar
    exact (add_names runs present position name known single).bind fun _ _ => (finish _).from
  | remove ref name => exact (remove_keeps leaves name).bind (fun _ => finish _) w
  | removeFilter ref filter => exact (removeFilter_keeps leaves filter).bind (fun _ => finish _) w
  | replace ref name filter =>
    have known : ∀ id, filter = some id → id < w.store.filters.size := by
      rintro id rfl
      simpa [Call.strange] using familiar
    exact (replace_names runs name known single).bind fun _ _ => (finish _).from
  | clear ref => exact keeping_unit (clear_keeps leaves fun w => performs _ w trivial) w
  | addAll ref entries =>
    have present := named ref (by simp [Call.sessions])
    have known : ∀ entry ∈ entries, entry.2 < w.store.filters.size := by
      simpa [Call.strange] using familiar
    exact (addAll_names runs present known).bind fun _ _ => (finish _).from
  | _ => exact unediting_keeps_discreet performs rfl nameless (Watch.fits_free _ w) named

theorem taskAptly_keeps (stops : Watch σ) (performs : Performs titling perform) :
    Performs titling (taskAptly stops perform) := by
  intro task w admitted
  cases task with
  | run code how =>
    refine keeping_get.bind (fun v => ?_) w
    split
    · exact interpretUntil_keeps (fun c _ w _ => answerAptly_keeps performs c w) _
    · exact keeping_pure _
  | clear ref =>
    have leaves {w : World σ} {id : EntryId} (picked : (w.store.chain ref).Picks id) :
        Meets titling w (removeEntry perform ref id) w := removeEntry_names (keeping_run performs) picked
    exact keeping_unit (clear_keeps leaves fun w => performs _ w trivial) w
  | _ => exact ofTask_keeps performs (by rintro _ _ ⟨⟩) (by rintro _ ⟨⟩) admitted

theorem performAptly_keeps (stops : Watch σ) (fuel : Nat) : Performs titling (performAptly stops fuel) := by
  induction fuel with
  | zero => exact fun _ w _ => (Names.refl w).halts
  | succ fuel ih =>
    exact fun task w admitted => .behind_pause (.refl w) fun _ => taskAptly_keeps stops ih task w admitted

theorem answerAptly_below {perform' : Perform σ} (performs : ∀ task, Below (perform task) (perform' task))
    (c : Call) : Below (answerAptly perform c) (answer perform' c) := by
  refine .after _ fun _ => stopIf_below ?_
  cases c with
  | replace ref name filter =>
    have undoes (session : SessionRef) (handle : Handle) (old : FilterId) (failure : Failure) :
        Below (putBackNamed session handle old failure : Effect σ (Option FilterId))
          (putBack session handle old failure) := stopIf_below (.refl _)
    exact (below_replaceWith performs undoes ref name filter).before _
  | addAll ref entries =>
    have adds (entries : List (String × FilterId)) :
        Below (addAllNamed perform ref entries) (addAll perform' ref entries) := by
      induction entries with
      | nil => exact .refl _
      | cons entry rest ih => exact stopIf_below ((below_add performs _ _ _ _).bind fun _ => ih)
    exact (adds entries).before _
  | _ => exact below_ofCall performs _

theorem taskAptly_below (stops : Watch σ) {perform' : Perform σ}
    (performs : ∀ task, Below (perform task) (perform' task)) (task : Task) :
    Below (taskAptly stops perform task) (ofTask perform' task) := by
  cases task with
  | run code how =>
    refine .after _ fun w => ?_
    cases w.code[code]? with
    | some body => exact interpretUntil_below stops (answerAptly_below performs) _
    | none => exact .refl _
  | _ =>
    rw [taskAptly]
    · exact below_ofTask performs _
    · simp

theorem performAptly_below (stops : Watch σ) (fuel : Nat) (task : Task) :
    Below (performAptly stops fuel task) (performWith fuel task) := by
  induction fuel generalizing task with
  | zero => exact below_outOfFuel _
  | succ fuel ih => exact .behind_pause (taskAptly_below stops ih task)

end Effect

/-- A run that is not stopped is the run itself. -/
theorem Script.execute_aptly {σ : Type} {stops : Watch σ} {fuel : Nat} {script : Script σ} {w : World σ}
    (ended : (script.aptly stops fuel w).1 ≠ .outOfFuel) :
    script.execute fuel w = script.aptly stops fuel w := by
  have performs := Effect.performAptly_below (σ := σ) stops fuel
  have below := Effect.interpretUntil_below stops (Effect.answerAptly_below performs) script w
  unfold aptly at ended ⊢
  unfold execute Effect.ofScript
  rcases below with ⟨v,out⟩ | same
  · rw [out] at ended
    exact absurd rfl ended
  · rewrite [same]
    rfl

/-- Wherever such a run ends or is stopped, names have not come apart. -/
theorem Script.aptly_halts {σ : Type} (stops : Watch σ) (fuel : Nat) (script : Script σ) (w : World σ) :
    w.Halts (script.aptly stops fuel w).2 := by
  have keeps : Effect.Meets Effect.titling w
      (Effect.interpretUntil stops (Effect.answerAptly (Effect.performAptly stops fuel)) script) w :=
    Effect.interpretUntil_keeps
      (fun c _ w _ => Effect.answerAptly_keeps (Effect.performAptly_keeps stops fuel) c w) script w
  unfold Effect.Meets Effect.ends at keeps
  unfold aptly
  split at keeps
  · rename_i result
    rw [result]
    exact keeps.halts
  · rename_i result
    rw [result]
    exact keeps.halts
  · rename_i result
    rw [result]
    exact keeps

namespace Effect

open World

variable {σ : Type} {w : World σ} {ref : SessionRef} {n : String} {f : FilterId} {settings : LogSettings}

/-- A logging filter logs an event under the name that it keeps and passes it on. -/
theorem deliver_logging (titled : w.Titled ref n f) (logs : w.store.filter f = .logging settings)
    (perform : Perform σ) (handle : Handle) (event : Event) :
    deliver perform f handle ref event w =
      forward perform handle ref event (w.attest settings ref n event) := by
  have signed := titled.signed (by rw [logs]; rfl)
  have text : (w.store.session ref).textAttribute? (.entryName f) = some (Bytes.ofString n) := by
    rw [Session.textAttribute?,signed]
    rfl
  have attested : logEvent f settings ref event w = .ok () (w.attest settings ref n event) := by
    unfold logEvent
    rw [bind_of_ok (store_apply w),text]
    rfl
  unfold deliver react
  rw [bind_of_ok (filter_apply f w),logs]
  exact bind_of_ok attested

end Effect

theorem World.fresh_apt {σ : Type} (own : σ) : ({ own := own } : World σ).Apt := by
  intro r id n f seats
  rw [World.chain_absent (Nat.not_lt_zero r)] at seats
  exact absurd (seats.mem Chain.empty_holds) List.not_mem_nil

/-- Wherever a run is in which names do not come apart: what a logging filter logs of an event names the
entry of the chain through which the event comes to it, and that entry's session. A run that ends without
being stopped is the script's own. -/
theorem Script.aptly_records {σ : Type} {stops : Watch σ} {fuel : Nat} {script : Script σ} {own : σ}
    {v : World σ} (ran : (script.aptly stops fuel { own := own }).2 = v)
    (sparing : ({ own := own } : World σ).Sparing v) {ref : SessionRef} {e : Entry}
    (listed : e ∈ (v.store.chain ref).getAll ref) {f : FilterId} (holding : e.filter = some f)
    {settings : LogSettings} (logs : v.store.filter f = .logging settings) (event : Event) :
    ((script.aptly stops fuel { own := own }).1 ≠ .outOfFuel →
        (script.execute fuel { own := own }).2 = v) ∧
      (∀ perform, Effect.deliver perform f e.handle ref event v =
        Effect.forward perform e.handle ref event (v.attest settings ref e.name event)) ∧
      ∀ source depth, source.owner = ref → (v.store.chain ref).isCurrent source = true →
        (v.store.chain ref).following event.outbound source.entry = e.handle.entry →
        Effect.forward (Effect.performWith (depth + 1)) source ref event v =
          Effect.forward (Effect.performWith depth) e.handle ref event
            ((v.record (.delivered source e.handle ref event)).attest settings ref e.name event) := by
  have halts := Script.aptly_halts stops fuel script { own := own }
  rw [ran] at halts
  have apt := halts.apt sparing _ (World.fresh_inOrder own) (World.fresh_apt own)
  obtain ⟨flight,course⟩ := halts.midway.course _ sparing (World.fresh_inOrder own)
  obtain ⟨ids,holds⟩ : ∃ ids, (v.store.chain ref).Holds ids (flight ref) :=
    World.Course.inOrder course (World.fresh_inOrder own) ref
  rw [holds.getAll_eq] at listed
  obtain ⟨id,member,entry⟩ := List.mem_map.mp listed
  have held : ((v.store.chain ref).slot id).filter = some f := by
    rw [← holding,← entry]
    rfl
  have titled : v.Titled ref e.name f := by
    rw [← entry]
    exact apt ref id _ f (holds.seats member held)
  refine ⟨fun ended => (congrArg Prod.snd (Script.execute_aptly ended)).trans ran,
    fun perform => Effect.deliver_logging titled logs perform _ event,?_⟩
  rintro source depth rfl current next
  have target : (v.store.chain source.owner).handle source.owner id = e.handle := by
    rw [← entry]
    rfl
  replace next : (v.store.chain source.owner).following event.outbound source.entry = id := by
    rw [next,← target]
    rfl
  have onward : id ≠ Chain.exit event.outbound := by
    obtain ⟨notHead,notTail⟩ := holds.between member
    cases event.outbound
    · exact notTail
    · exact notHead
  have kept (o : Observation) : (v.record o).Titled source.owner e.name f :=
    titled.within (fun _ _ => rfl) rfl
  rw [Effect.forward_entry rfl current next onward held,Effect.bind_of_ok (Effect.observe_apply _ v),target,
    Effect.bind_apply,Effect.performWith,Effect.ofTask,Effect.bind_apply,
    Effect.deliver_logging (kept _) logs]
  cases Effect.forward _ _ _ _ _ <;> rfl

/-- Two sessions, a logging filter and a plain one. -/
def staged (next : Script Unit) : Script Unit :=
  .call (.newHandler .adapter) fun _ => .call (.newProcessor (.loopback 0)) fun _ =>
  .call (.newSession (some 0) (some 0) 4 .unlimited) fun _ =>
  .call (.newSession (some 0) (some 0) 4 .unlimited) fun _ =>
  .call (.newFilter (.logging (.initial LogSettings.defaultLogger))) fun _ =>
  .call (.newFilter .noop) fun _ => next

/-- The logging filter goes through both chains, from name to name. -/
def wandering : Script Unit := staged
  (.call (.add 0 .last "front" (some 0)) fun _ => .call (.add 1 .last "audit" (some 0)) fun _ =>
  .call (.replace 0 "front" (some 1)) fun _ => .call (.add 0 .last "rear" (some 0)) fun _ =>
  .call (.remove 1 "audit") fun _ => .call (.add 1 .last "trace" (some 0)) fun _ => .done .unit)

def wandered : World Unit := (wandering.aptly .never 8 { own := () }).2

theorem aptly_records_wandered :
    (wandering.execute 8 { own := () }).2 = wandered ∧
      ((wandered.store.chain 0).getAll 0).map (·.name) = ["front","rear"] ∧
      ((wandered.store.chain 1).getAll 1).map (·.name) = ["trace"] ∧
      ∃ settings, wandered.store.filter 0 = .logging settings ∧ ∀ event perform,
        Effect.deliver perform 0 ⟨0,3,0⟩ 0 event wandered =
            Effect.forward perform ⟨0,3,0⟩ 0 event (wandered.attest settings 0 "rear" event) ∧
          Effect.deliver perform 0 ⟨1,2,1⟩ 1 event wandered =
            Effect.forward perform ⟨1,2,1⟩ 1 event (wandered.attest settings 1 "trace" event) := by
  have ran : (wandering.aptly .never 8 { own := () }).2 = wandered := by unfold wandered; rfl
  have sparing : ({ own := () } : World Unit).Sparing wandered :=
    World.sparing_of_short (by decide +kernel)
  have rear : ⟨"rear",some 0,⟨0,3,0⟩⟩ ∈ (wandered.store.chain 0).getAll 0 := by decide +kernel
  have trace : ⟨"trace",some 0,⟨1,2,1⟩⟩ ∈ (wandered.store.chain 1).getAll 1 := by decide +kernel
  have kind : (wandered.store.filter 0).isKind .logging = true := by decide +kernel
  obtain ⟨settings,logs⟩ := Filter.isKind_logging.mp kind
  have ended : (wandering.aptly .never 8 { own := () }).1 ≠ .outOfFuel := by decide +kernel
  refine ⟨?_,by decide +kernel,by decide +kernel,settings,logs,fun event perform => ⟨?_,?_⟩⟩
  · exact (Script.aptly_records ran sparing rear rfl logs (.sessionIdle .reader)).1 ended
  · exact (Script.aptly_records ran sparing rear rfl logs event).2.1 perform
  · exact (Script.aptly_records ran sparing trace rfl logs event).2.1 perform

/-- The lines that are written, first to last. -/
def World.lines {σ : Type} (w : World σ) : List Bytes :=
  w.store.journal.reverse.filterMap fun
    | .emitted (.line _ text) => some text
    | _ => none

def idleLine (name : String) : Bytes := Bytes.ofString
  ("[1970-01-01 00:00:00.000] [INFO] [T:thread::id of a non-executing thread] [Filter] [Filter.logging] " ++
    "[session:1] [filter:" ++ name ++ "] [event:sessionIdle] sessionIdle: reader idle")

/-- The logging filter has two names in a chain that an event passes. -/
def doubled : World Unit := ((staged
  (.call (.add 0 .last "one" (some 0)) fun _ => .call (.add 0 .last "two" (some 0)) fun _ =>
  .call (.fire 0 (.sessionIdle .reader)) fun _ => .done .unit)).execute 8 { own := () }).2

/-- Adds the logging filter under a second name, removes it there, and objects. -/
def fickle : Invocation → Script Unit
  | .hook .postAdd _ _ =>
    .call (.add 0 .last "two" (some 0)) fun _ => .call (.remove 0 "two") fun _ => .fail (.runtime "no")
  | _ => .done .unit

/-- The logging filter gets its place back, but not its name. -/
def returned : World Unit := ((staged
  (.define fickle fun code => .call (.newFilter (.custom "fickle" code)) fun _ =>
  .call (.add 0 .last "one" (some 0)) fun _ => .attempt (.invoke (.replace 0 "one" (some 2))) fun _ =>
  .call (.fire 0 (.sessionIdle .reader)) fun _ => .done .unit)).execute 8 { own := () }).2

theorem records_astray :
    (((doubled.store.chain 0).getAll 0).map (·.name) = ["one","two"] ∧
      doubled.lines = [idleLine "two",idleLine "two"]) ∧
      ((returned.store.chain 0).getAll 0).map (·.name) = ["one"] ∧
      returned.lines = [idleLine "Filter.logging"] := by
  decide +kernel

end SessionPipeline
