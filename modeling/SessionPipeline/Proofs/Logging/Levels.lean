import Mathlib.Data.List.Find
import Mathlib.Data.List.Induction
import Mathlib.Data.List.TakeWhile
import SessionPipeline.Logging.Registry

/-! The levels of loggers, whatever changes the rules and whenever the loggers were made. A registry is
compared with its history: the rules in force are told from the changes since the last reset, latest
first, and no logger's level is ever behind them. -/
namespace SessionPipeline.Logging

/-- What may be asked of a registry that has to do with levels. -/
inductive Change
  | obtain (name : Bytes)
  | global (level : Level)
  | component (component : Component) (level : Level)
  | pattern (glob : Bytes) (level : Level)
  | reset
  deriving DecidableEq

namespace Change

def rule? : Change → Option Rule
  | pattern glob level => (Glob.read glob).toOption.map (⟨·,level⟩)
  | _ => none

/-- The level that a change gives to a name by a pattern; one that cannot be read gives none. -/
def byPattern? (name : Bytes) (change : Change) : Option Level :=
  change.rule?.bind fun rule => if rule.glob.admits name then some rule.level else none

def byComponent? (c : Component) : Change → Option Level
  | component other level => if other = c then some level else none
  | _ => none

def byDefault? : Change → Option Level
  | global level => some level
  | _ => none

/-- The changes that are in force behind a history, latest first. -/
def recent (history : List Change) : List Change := history.reverse.takeWhile (· != reset)

/-- The component whose name, with a dot behind it, a name begins with. -/
def owner? (name : Bytes) : Option Component :=
  Component.known.find? fun c => (Bytes.ofString (c.name ++ ".")).isPrefixOf name

/-- The level that a history gives to a name: by the latest pattern that admits it, else by its
component, else to all. -/
def ruling (history : List Change) (name : Bytes) : Level :=
  let byOwner := (owner? name).bind fun c => (recent history).findSome? (byComponent? c)
  (((recent history).findSome? (byPattern? name)).or
    (byOwner.or ((recent history).findSome? byDefault?))).getD .info

theorem recent_append (history : List Change) (change : Change) :
    recent (history ++ [change]) = if change = reset then [] else change :: recent history := by
  by_cases last : change = reset
  · simp [recent,last]
  · simp [recent,last]

/-- Making a logger gives no level to anybody. -/
theorem findSome?_recent_obtain {f : Change → Option Level} {name : Bytes} (silent : f (obtain name) = none)
    (before after : List Change) :
    (recent (before ++ obtain name :: after)).findSome? f = (recent (before ++ after)).findSome? f := by
  induction after using List.reverseRecOn with
  | nil =>
    rw [recent_append,List.append_nil]
    simp [silent]
  | append_singleton after change ih =>
    rw [← List.cons_append,← List.append_assoc,← List.append_assoc,recent_append,recent_append]
    by_cases last : change = reset
    · simp [last]
    · simp [last,List.findSome?_cons,ih]

theorem ruling_obtain (before after : List Change) (other name : Bytes) :
    ruling (before ++ obtain other :: after) name = ruling (before ++ after) name := by
  have same {f : Change → Option Level} (silent : f (obtain other) = none) :=
    findSome?_recent_obtain silent before after
  unfold ruling
  rw [same (f := byPattern? name) rfl,same (f := byDefault?) rfl]
  simp only [same (f := byComponent? _) rfl]

end Change

theorem takeWhile_dot {front rest : Bytes} {dot : UInt8} (plain : dot ∉ front) :
    (front ++ dot :: rest).takeWhile (· != dot) = front := by
  rw [List.takeWhile_append_of_pos]
  · simp
  · intro c member
    have other : c ≠ dot := fun same => plain (same ▸ member)
    simpa using other

/-- A name is of a component if it begins with that component's name and a dot. -/
theorem dotted_iff {own text : Bytes} {dot : UInt8} (plain : dot ∉ own) :
    dot ∈ text ∧ own = text.takeWhile (· != dot) ↔ own ++ [dot] <+: text := by
  constructor
  · rintro ⟨dotted,rfl⟩
    have split := List.takeWhile_append_dropWhile (p := (· != dot)) (l := text)
    cases rest : text.dropWhile (· != dot) with
    | nil =>
      rw [rest,List.append_nil] at split
      have none := List.mem_takeWhile_imp (split ▸ dotted)
      simp at none
    | cons c rest' =>
      have stops := List.head_dropWhile_not (p := (· != dot)) (l := text) (by simp [rest])
      simp only [rest,List.head_cons] at stops
      obtain rfl : c = dot := by simpa using stops
      exact ⟨rest',by rw [List.append_assoc,List.singleton_append,← rest,split]⟩
  · rintro ⟨rest,rfl⟩
    rw [List.append_assoc,List.singleton_append,takeWhile_dot plain]
    simp

namespace Registry

theorem componentOf_eq (name : Bytes) : componentOf? name = Change.owner? name := by
  have named : ∀ c ∈ Component.known,
      (name.contains (Pattern.ascii '.') && Bytes.ofString c.name == name.takeWhile (· != Pattern.ascii '.')) =
        (Bytes.ofString (c.name ++ ".")).isPrefixOf name := by
    intro c known
    have dotted : Bytes.ofString (c.name ++ ".") = Bytes.ofString c.name ++ [Pattern.ascii '.'] := by
      revert c
      decide
    have plain : Pattern.ascii '.' ∉ Bytes.ofString c.name := by
      revert c
      decide
    rw [dotted,Bool.eq_iff_iff,Bool.and_eq_true,List.contains_iff_mem,beq_iff_eq,List.isPrefixOf_iff_prefix]
    exact dotted_iff plain
  unfold componentOf? Change.owner?
  rw [← List.find?_congr named]
  split
  · rename_i dotted
    simp only [dotted,Bool.true_and]
  · rename_i plain
    simp only [Bool.eq_false_iff.mpr plain,Bool.false_and]
    rfl

/-- What a registry becomes of; a pattern that cannot be read leaves it alone. -/
def change (r : Registry) : Change → Registry
  | .obtain name => (r.obtain name).2
  | .global level => r.setGlobalLevel level
  | .component c level => r.setComponentLevel c level
  | .pattern glob level => (r.setPattern glob level).toOption.getD r
  | .reset => r.resetLevels

theorem change_pattern {glob : Bytes} {g : Glob} (read : Glob.read glob = .ok g) (r : Registry)
    (level : Level) :
    r.change (.pattern glob level) = refresh { r with rules := ⟨g,level⟩ :: r.rules } := by
  simp only [change,setPattern,read]
  rfl

theorem change_unread {glob : Bytes} {failure : Failure} (read : Glob.read glob = .error failure)
    (r : Registry) (level : Level) : r.change (.pattern glob level) = r := by
  simp only [change,setPattern,read]
  rfl

def run (history : List Change) : Registry := history.foldl change initial

theorem run_append (history : List Change) (last : Change) :
    run (history ++ [last]) = (run history).change last := by simp [run]

/-- No logger's level is behind the rules. -/
def Current (r : Registry) : Prop := ∀ l ∈ r.loggers, l.level = r.effectiveLevel l.name

theorem refresh_current (r : Registry) : r.refresh.Current := by
  intro l member
  simp only [refresh,List.mem_map] at member
  obtain ⟨old,_,rfl⟩ := member
  rfl

theorem obtain_current {r : Registry} (current : r.Current) (name : Bytes) :
    (r.obtain name).2.Current := by
  unfold obtain
  split
  · exact current
  · intro l member
    rcases List.mem_append.mp member with before | new
    · exact current l before
    · obtain rfl := List.mem_singleton.mp new
      rfl

theorem change_current {r : Registry} (current : r.Current) (c : Change) : (r.change c).Current := by
  cases c with
  | obtain name => exact obtain_current current name
  | global level => apply refresh_current
  | component c level => apply refresh_current
  | reset => apply refresh_current
  | pattern glob level =>
    cases read : Glob.read glob with
    | ok g =>
      rw [change_pattern read]
      apply refresh_current
    | error failure =>
      rw [change_unread read]
      exact current

/-- The rules of a registry are those that its history leaves in force. -/
structure Recalls (r : Registry) (recent : List Change) : Prop where
  rules : r.rules = recent.filterMap Change.rule?
  components : ∀ c, r.componentLevels.lookup c = recent.findSome? (Change.byComponent? c)
  default : r.globalLevel = (recent.findSome? Change.byDefault?).getD .info

theorem change_recalls {r : Registry} {recent : List Change} (recalls : r.Recalls recent) {c : Change}
    (going : c ≠ .reset) : (r.change c).Recalls (c :: recent) := by
  obtain ⟨rules,components,default⟩ := recalls
  cases c with
  | obtain name =>
    have same : (r.obtain name).2.rules = r.rules ∧
        (r.obtain name).2.componentLevels = r.componentLevels ∧
        (r.obtain name).2.globalLevel = r.globalLevel := by
      unfold obtain
      split <;> simp
    refine ⟨same.1.trans rules,?_,same.2.2.trans default⟩
    intro other
    exact (congrArg (List.lookup other) same.2.1).trans (components other)
  | global level => exact ⟨rules,components,rfl⟩
  | component own level =>
    refine ⟨rules,?_,default⟩
    intro other
    change List.lookup other ((own,level) :: r.componentLevels.filter (·.1 != own)) = _
    rw [lookup_field,lookup_filter,List.findSome?_cons,Change.byComponent?]
    by_cases same : own = other
    · simp [same]
    · rw [if_neg (Ne.symm same),if_neg (Ne.symm same),if_neg same]
      exact components other
  | pattern glob level =>
    cases read : Glob.read glob with
    | ok g =>
      rw [change_pattern read]
      refine ⟨?_,components,default⟩
      have made : (Change.pattern glob level).rule? = some ⟨g,level⟩ := by
        rw [Change.rule?,read]
        rfl
      rw [List.filterMap_cons_some made,← rules]
      rfl
    | error failure =>
      rw [change_unread read]
      refine ⟨?_,components,default⟩
      have none : (Change.pattern glob level).rule? = none := by
        rw [Change.rule?,read]
        rfl
      rw [List.filterMap_cons_none none]
      exact rules
  | reset => exact absurd rfl going

theorem run_recalls (history : List Change) : (run history).Recalls (Change.recent history) := by
  induction history using List.reverseRecOn with
  | nil => exact ⟨rfl,fun _ => rfl,rfl⟩
  | append_singleton history last ih =>
    rw [run_append,Change.recent_append]
    by_cases reset : last = .reset
    · rw [if_pos reset,reset]
      exact ⟨rfl,fun _ => rfl,rfl⟩
    · rw [if_neg reset]
      exact change_recalls ih reset

theorem run_current (history : List Change) : (run history).Current := by
  induction history using List.reverseRecOn with
  | nil =>
    intro l member
    obtain rfl := List.mem_singleton.mp member
    rfl
  | append_singleton history last ih =>
    rw [run_append]
    exact change_current ih last

theorem find?_rules (recent : List Change) (name : Bytes) :
    ((recent.filterMap Change.rule?).find? (·.glob.admits name)).map (·.level) =
      recent.findSome? (Change.byPattern? name) := by
  induction recent with
  | nil => rfl
  | cons c rest ih =>
    cases made : c.rule? with
    | none =>
      have none : c.byPattern? name = none := by simp [Change.byPattern?,made]
      rw [List.filterMap_cons_none made,List.findSome?_cons,none]
      exact ih
    | some rule =>
      rw [List.filterMap_cons_some made,List.findSome?_cons]
      by_cases admits : rule.glob.admits name = true
      · simp [Change.byPattern?,made,admits]
      · simp only [List.find?_cons,Bool.eq_false_iff.mpr admits,ih]
        simp [Change.byPattern?,made,admits]

theorem effectiveLevel_eq {r : Registry} {history : List Change}
    (recalls : r.Recalls (Change.recent history)) (name : Bytes) :
    r.effectiveLevel name = Change.ruling history name := by
  have patterns := find?_rules (Change.recent history) name
  unfold effectiveLevel Change.ruling
  rw [← patterns,← recalls.rules,componentOf_eq,recalls.default]
  simp only [recalls.components]
  cases r.rules.find? (·.glob.admits name) with
  | some rule => rfl
  | none =>
    cases (Change.owner? name).bind fun c =>
        (Change.recent history).findSome? (Change.byComponent? c) with
    | some level => rfl
    | none => rfl

theorem shouldLog_current {r : Registry} (current : r.Current) (name : Bytes) (level : Level) :
    r.shouldLog name level = level.passes (r.effectiveLevel name) := by
  unfold shouldLog
  cases found : r.logger? name with
  | none => rfl
  | some l =>
    have named : l.name = name := by simpa using List.find?_some found
    have same := current l (List.mem_of_find?_eq_some found)
    rw [named] at same
    simp only [Logger.shouldLog,same]

theorem names_refresh (r : Registry) : r.refresh.names = r.names := by
  simp [names,refresh,Function.comp_def]

theorem names_obtain {r : Registry} {name : Bytes} (known : name ∈ r.names) (other : Bytes) :
    name ∈ (r.obtain other).2.names := by
  unfold obtain
  split
  · exact known
  · simp only [names,List.map_append,List.mem_append]
    exact .inl known

theorem names_change {r : Registry} {name : Bytes} (known : name ∈ r.names) (c : Change) :
    name ∈ (r.change c).names := by
  cases c with
  | obtain other => exact names_obtain known other
  | global level => exact (names_refresh _).symm ▸ known
  | component c level => exact (names_refresh _).symm ▸ known
  | reset => exact (names_refresh _).symm ▸ known
  | pattern glob level =>
    cases read : Glob.read glob with
    | ok g =>
      rw [change_pattern read]
      exact (names_refresh _).symm ▸ known
    | error failure =>
      rw [change_unread read]
      exact known

theorem obtain_known (r : Registry) (name : Bytes) : name ∈ (r.obtain name).2.names := by
  unfold obtain
  cases found : r.logger? name with
  | some l =>
    have named : l.name = name := by simpa using List.find?_some found
    exact List.mem_map.mpr ⟨l,List.mem_of_find?_eq_some found,named⟩
  | none => simp [names]

/-- Once made a logger stays. -/
theorem run_known (before after : List Change) (name : Bytes) :
    name ∈ (run (before ++ Change.obtain name :: after)).names := by
  induction after using List.reverseRecOn with
  | nil =>
    rw [run_append]
    apply obtain_known
  | append_singleton after last ih =>
    rw [← List.cons_append,← List.append_assoc,run_append]
    exact names_change ih last

theorem logger_known {r : Registry} {name : Bytes} (known : name ∈ r.names) :
    ∃ l, r.logger? name = some l := by
  obtain ⟨l,member,named⟩ := List.mem_map.mp known
  exact Option.isSome_iff_exists.mp (List.find?_isSome.mpr ⟨l,member,by simp [named]⟩)

/-- Behind every history each logger has the level in force for its name, which is the one that the
history gives it; and a logger answers the same as the registry whenever it is made, or if it is not. -/
theorem run_levels (before after : List Change) (name : Bytes) (level : Level) :
    (∀ l ∈ (run (before ++ after)).loggers, l.level = (run (before ++ after)).effectiveLevel l.name) ∧
      (run (before ++ after)).effectiveLevel name = Change.ruling (before ++ after) name ∧
      (run (before ++ after)).shouldLog name level =
        level.passes (Change.ruling (before ++ after) name) ∧
      ∃ l, (run (before ++ Change.obtain name :: after)).logger? name = some l ∧
        l.shouldLog level = (run (before ++ after)).shouldLog name level := by
  have current := run_current (before ++ after)
  have effective := effectiveLevel_eq (run_recalls (before ++ after)) name
  have answers := shouldLog_current current name level
  rw [effective] at answers
  refine ⟨current,effective,answers,?_⟩
  obtain ⟨l,found⟩ := logger_known (run_known before after name)
  refine ⟨l,found,?_⟩
  have asked := shouldLog_current (run_current (before ++ Change.obtain name :: after)) name level
  rw [effectiveLevel_eq (run_recalls _) name,Change.ruling_obtain,← answers] at asked
  simpa [shouldLog,found] using asked

def driver : Bytes := Bytes.ofString "Chain.driver"

def earlier : List Change :=
  [.global .off,.reset,.component .chain .error,.pattern (Bytes.ofString "Chain.?river") .warning]

def later : List Change := [.component .chain .debug,.pattern (Bytes.ofString "(") .debug]

/-- A name that two rules are for, and a rule that is none. -/
theorem run_levels_unread :
    ⟨Bytes.ofString defaultName,.info,initial.sink⟩ ∈ (run (earlier ++ later)).loggers ∧
      (run (earlier ++ later)).effectiveLevel (Bytes.ofString defaultName) = .info ∧
      (run (earlier ++ later)).effectiveLevel driver = .warning ∧
      (run (earlier ++ later)).shouldLog driver .notice = false ∧
      ∃ l, (run (earlier ++ Change.obtain driver :: later)).logger? driver = some l ∧
        l.shouldLog .notice = false := by
  obtain ⟨current,effective,answers,made⟩ := run_levels earlier later driver .notice
  have member : (⟨Bytes.ofString defaultName,.info,initial.sink⟩ : Logger) ∈ (run (earlier ++ later)).loggers := by
    decide +kernel
  have ruling : Change.ruling (earlier ++ later) driver = .warning := by decide +kernel
  rw [ruling] at effective answers
  rw [answers] at made
  exact ⟨member,(current _ member).symm,effective,answers,made⟩

end Registry
end SessionPipeline.Logging
