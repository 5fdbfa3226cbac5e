import Mathlib.Data.List.Basic
import Mathlib.Data.List.Nodup
import Mathlib.Tactic.IntervalCases
import Mathlib.Tactic.SplitIfs
import SessionPipeline.Logging.Layout
import SessionPipeline.Proofs.Logging.Grammar
import SessionPipeline.Proofs.Wire.Text

/-!
The JSON line of a record is printable and is read as exactly what the record has, whatever bytes its
texts are made of.
-/
namespace SessionPipeline.Logging
open Grammar

namespace Layout

/-- What may follow a value in an object. -/
def Ends (rest : Bytes) : Prop := ∃ tail, rest = 0x2c :: tail ∨ rest = 0x7d :: tail

theorem ends_comma (tail : Bytes) : Ends (0x2c :: tail) := ⟨tail,.inl rfl⟩

theorem ends_brace (tail : Bytes) : Ends (0x7d :: tail) := ⟨tail,.inr rfl⟩

theorem Ends.digitless {rest : Bytes} (ends : Ends rest) : rest.head?.bind digit? = none := by
  obtain ⟨tail,rfl | rfl⟩ := ends
  · rfl
  · rfl

/-! ### Texts -/

theorem nibble_hexDigit {n : UInt8} (small : n < 16) : nibble? (hexDigit n) = some n := by
  have all : ∀ k : Fin 16, nibble? (hexDigit (UInt8.ofNat k)) = some (UInt8.ofNat k) := by decide
  simpa using all ⟨n.toNat,UInt8.lt_iff_toNat_lt.mp small⟩

theorem high_lt (b : UInt8) : b / 16 < 16 := by
  rw [UInt8.lt_iff_toNat_lt]
  have := b.toNat_lt
  simp
  omega

theorem low_lt (b : UInt8) : b % 16 < 16 := by
  rw [UInt8.lt_iff_toNat_lt]
  simp
  omega

theorem nibbles (b : UInt8) : b / 16 * 16 + b % 16 = b := by
  apply UInt8.toNat_inj.mp
  have := b.toNat_lt
  simp
  omega

theorem chars_escapeByte (b : UInt8) {input meant rest : Bytes} (more : Chars input meant rest) :
    Chars (escapeByte b ++ input) (b :: meant) rest := by
  unfold escapeByte
  split_ifs with quote slash back feed line carriage tab printed
  · exact eq_of_beq quote ▸ .short rfl more
  · exact eq_of_beq slash ▸ .short rfl more
  · exact eq_of_beq back ▸ .short rfl more
  · exact eq_of_beq feed ▸ .short rfl more
  · exact eq_of_beq line ▸ .short rfl more
  · exact eq_of_beq carriage ▸ .short rfl more
  · exact eq_of_beq tab ▸ .short rfl more
  · simp only [Bool.and_eq_true,decide_eq_true_eq] at printed
    exact .plain printed.1 (by simpa using quote) (by simpa using slash) more
  · have := Chars.unit (nibble_hexDigit (high_lt b)) (nibble_hexDigit (low_lt b)) more
    rwa [nibbles] at this

theorem chars_escape (t rest : Bytes) : Chars (escape t ++ 0x22 :: rest) t rest := by
  induction t with
  | nil => exact .close
  | cons b t ih =>
    rw [escape,List.flatMap_cons,List.append_assoc]
    exact chars_escapeByte b ih

theorem unescaped_append (t rest : Bytes) : unescaped t ++ rest = 0x22 :: (t ++ 0x22 :: rest) := by
  simp [unescaped,show bytes "\"" = [0x22] from rfl]

theorem quoted_read (t rest : Bytes) : Quoted (quoted t ++ rest) t rest := by
  rw [quoted,unescaped_append]
  exact .intro (chars_escape t rest)

/-- Bytes that stand for themselves in a text. -/
def Plain (t : Bytes) : Prop := ∀ b ∈ t, 0x20 ≤ b ∧ b ≤ 0x7e ∧ b ≠ 0x22 ∧ b ≠ 0x5c

theorem Plain.chars {t : Bytes} (plain : Plain t) (rest : Bytes) : Chars (t ++ 0x22 :: rest) t rest := by
  induction t with
  | nil => exact .close
  | cons b t ih =>
    obtain ⟨⟨low,-,unquoted,unescaped⟩,others⟩ := List.forall_mem_cons.mp plain
    exact .plain low unquoted unescaped (ih others)

theorem Plain.unescaped_read {t : Bytes} (plain : Plain t) (rest : Bytes) :
    Quoted (unescaped t ++ rest) t rest := by
  rw [unescaped_append]
  exact .intro (plain.chars rest)

@[simp] theorem plain_append {s t : Bytes} : Plain (s ++ t) ↔ Plain s ∧ Plain t := by
  simp only [Plain,List.forall_mem_append]

/-! ### Numbers -/

theorem digit_toUInt8 {c : Char} (isDigit : c.isDigit = true) :
    digit? c.toUInt8 = some (c.toNat - '0'.toNat) := by
  obtain ⟨low,high⟩ := Char.isDigit_iff_toNat.mp isDigit
  have same : c.toUInt8.toNat = c.toNat :=
    Nat.mod_eq_of_lt (Nat.lt_of_le_of_lt high (by decide))
  have within : 0x30 ≤ c.toUInt8 ∧ c.toUInt8 ≤ 0x39 := by
    rw [UInt8.le_iff_toNat_le,UInt8.le_iff_toNat_le,same]
    exact ⟨low,high⟩
  rw [digit?,if_pos within,same]
  rfl

theorem digits_map {cs : List Char} (all : ∀ c ∈ cs, c.isDigit = true) (n : Nat) {rest : Bytes}
    (ends : Ends rest) : Digits n (cs.map Char.toUInt8 ++ rest) (Nat.ofDigitChars 10 cs n) rest := by
  induction cs generalizing n with
  | nil => exact .stop ends.digitless
  | cons c cs ih =>
    obtain ⟨first,others⟩ := List.forall_mem_cons.mp all
    rw [Nat.ofDigitChars_cons]
    exact .next (digit_toUInt8 first) (ih others _)

theorem isDigit_of_mem {n : Nat} : ∀ c ∈ Nat.toDigits 10 n, c.isDigit = true := fun _ =>
  Nat.isDigit_of_mem_toDigits (by decide) (by decide)

/-- No number but zero starts with the digit zero. -/
theorem leading_digit {n : Nat} (positive : 0 < n) :
    ∃ c cs, Nat.toDigits 10 n = c :: cs ∧ c.toNat - '0'.toNat ≠ 0 := by
  induction n using Nat.strong_induction_on with
  | _ n ih =>
    by_cases small : n < 10
    · refine ⟨n.digitChar,[],Nat.toDigits_of_lt_base small,?_⟩
      interval_cases n
      all_goals decide
    · obtain ⟨c,cs,split,nonzero⟩ := ih (n / 10) (by omega) (by omega)
      exact ⟨c,cs ++ _,by rw [Nat.toDigits_of_base_le (by decide) (by omega),split]; rfl,nonzero⟩

theorem whole_nat (n : Nat) {rest : Bytes} (ends : Ends rest) :
    Whole (bytes (toString n) ++ rest) n rest := by
  rw [bytes,Bytes.ofString_nat]
  rcases Nat.eq_zero_or_pos n with rfl | positive
  · exact .zero
  · obtain ⟨c,cs,split,nonzero⟩ := leading_digit positive
    obtain ⟨first,others⟩ := List.forall_mem_cons.mp (split ▸ isDigit_of_mem (n := n))
    have value : Nat.ofDigitChars 10 (c :: cs) 0 = n := split ▸ Nat.ofDigitChars_ten_toDigits
    rw [Nat.ofDigitChars_cons,Nat.mul_zero,Nat.zero_add] at value
    rw [split]
    exact .digits (digit_toUInt8 first) nonzero (value ▸ digits_map others _ ends)

theorem numeral_int (n : Int) {rest : Bytes} (ends : Ends rest) :
    Numeral (bytes (toString n) ++ rest) n rest := by
  rw [bytes,Bytes.ofString_int]
  split_ifs with sign
  · have := Numeral.positive (whole_nat n.natAbs ends)
    rwa [Int.natAbs_of_nonneg sign] at this
  · have := Numeral.negative (whole_nat n.natAbs ends)
    rwa [Int.ofNat_natAbs_of_nonpos (by omega),Int.neg_neg] at this

/-! ### Objects -/

section Objects
variable {α ι : Type} {Value : Bytes → α → Bytes → Prop} {write name : ι → Bytes} {value : ι → α}

/-- An item is written as a name and a value, whatever may follow a value. -/
def WrittenAs (Value : Bytes → α → Bytes → Prop) (written name : Bytes) (value : α) : Prop :=
  ∀ rest, Ends rest → ∃ held, Quoted (written ++ rest) name (0x3a :: held) ∧ Value held value rest

theorem members_joined {items : List ι} (some : items ≠ [])
    (each : ∀ i ∈ items, WrittenAs Value (write i) (name i) (value i)) (rest : Bytes) :
    Members Value (joined (bytes ",") (items.map write) ++ 0x7d :: rest)
      (items.map fun i => (name i,value i)) rest := by
  induction items with
  | nil => exact absurd rfl some
  | cons first others ih =>
    obtain ⟨here,behind⟩ := List.forall_mem_cons.mp each
    cases others with
    | nil =>
      obtain ⟨held,named,valued⟩ := here _ (ends_brace rest)
      exact .last named valued
    | cons second others =>
      obtain ⟨held,named,valued⟩ := here _ (ends_comma _)
      have further := ih (by simp) behind
      simp only [List.map_cons,joined,List.append_assoc] at further ⊢
      exact .more named valued further

theorem braced_joined {items : List ι}
    (each : ∀ i ∈ items, WrittenAs Value (write i) (name i) (value i)) (rest : Bytes) :
    Braced Value (bytes "\x7b" ++ joined (bytes ",") (items.map write) ++ bytes "\x7d" ++ rest)
      (items.map fun i => (name i,value i)) rest := by
  rcases List.eq_nil_or_concat items with rfl | ⟨_,_,rfl⟩
  · exact .empty
  · rw [List.append_assoc,List.append_assoc]
    exact .filled (members_joined (by simp) each rest)

end Objects

/-! ### Values -/

def Value.shown : Value → Grammar.Value
  | verbatim t => .text t
  | text t => .text t
  | number n => .number n
  | object fields => .object fields

/-- What is written without escapes needs none. -/
def Value.Safe : Value → Prop
  | verbatim t => Plain t
  | _ => True

theorem writtenAs_quoted (k v : Bytes) :
    WrittenAs Quoted (quoted k ++ bytes ":" ++ quoted v) k v := by
  intro rest _
  refine ⟨quoted v ++ rest,?_,quoted_read v rest⟩
  rw [List.append_assoc,List.append_assoc]
  exact quoted_read k _

theorem Value.render_written {v : Value} (safe : v.Safe) {rest : Bytes} (ends : Ends rest) :
    Written (v.render ++ rest) v.shown rest := by
  cases v with
  | verbatim t => exact .text (Plain.unescaped_read safe rest)
  | text t => exact .text (quoted_read t rest)
  | number n => exact .number (numeral_int n ends)
  | object fields =>
    have := braced_joined (fun field (_ : field ∈ fields) => writtenAs_quoted field.1 field.2) rest
    rw [show (fields.map fun field => (field.1,field.2)) = fields from List.map_id fields] at this
    exact .object this

theorem writtenAs_field {name : Bytes} {v : Value} (plain : Plain name) (safe : v.Safe) :
    WrittenAs Written (unescaped name ++ bytes ":" ++ v.render) name v.shown := by
  intro rest ends
  refine ⟨v.render ++ rest,?_,v.render_written safe ends⟩
  rw [List.append_assoc,List.append_assoc]
  exact plain.unescaped_read _

/-! ### Printable bytes -/

def Printable (t : Bytes) : Prop := ∀ b ∈ t, 0x20 ≤ b ∧ b ≤ 0x7e

@[simp] theorem printable_append {s t : Bytes} : Printable (s ++ t) ↔ Printable s ∧ Printable t := by
  simp only [Printable,List.forall_mem_append]

theorem Plain.printable {t : Bytes} (plain : Plain t) : Printable t := fun b mem =>
  ⟨(plain b mem).1,(plain b mem).2.1⟩

theorem printable_joined {separator : Bytes} (between : Printable separator) {parts : List Bytes}
    (each : ∀ part ∈ parts, Printable part) : Printable (joined separator parts) := by
  induction parts with
  | nil => exact fun _ mem => absurd mem (List.not_mem_nil)
  | cons first others ih =>
    obtain ⟨here,behind⟩ := List.forall_mem_cons.mp each
    cases others with
    | nil => exact here
    | cons => simp only [joined,printable_append]; exact ⟨⟨here,between⟩,ih behind⟩

instance (t : Bytes) : Decidable (Plain t) := List.decidableBAll _ t

instance (t : Bytes) : Decidable (Printable t) := List.decidableBAll _ t

theorem printable_hexDigit {n : UInt8} (small : n < 16) : Printable [hexDigit n] := by
  have all : ∀ k : Fin 16, Printable [hexDigit (UInt8.ofNat k)] := by decide
  simpa using all ⟨n.toNat,UInt8.lt_iff_toNat_lt.mp small⟩

theorem printable_escapeByte (b : UInt8) : Printable (escapeByte b) := by
  unfold escapeByte
  split_ifs with quote slash back feed line carriage tab printed
  iterate 7 · decide
  · simp only [Bool.and_eq_true,decide_eq_true_eq] at printed
    simpa [Printable] using printed
  · exact printable_append.mpr ⟨by decide,printable_append (s := [_]).mpr
      ⟨printable_hexDigit (high_lt b),printable_hexDigit (low_lt b)⟩⟩

theorem printable_unescaped {t : Bytes} (printable : Printable t) : Printable (unescaped t) := by
  simp only [unescaped,printable_append]
  exact ⟨⟨by decide,printable⟩,by decide⟩

theorem printable_quoted (t : Bytes) : Printable (quoted t) := by
  refine printable_unescaped fun b mem => ?_
  obtain ⟨c,-,here⟩ := List.mem_flatMap.mp mem
  exact printable_escapeByte c b here

/-! ### What is plain -/

theorem plain_digit {b : UInt8} {d : Nat} (digit : digit? b = some d) : Plain [b] := by
  have within : 0x30 ≤ b ∧ b ≤ 0x39 := by
    by_contra outside
    rw [digit?,if_neg outside] at digit
    cases digit
  rw [UInt8.le_iff_toNat_le,UInt8.le_iff_toNat_le] at within
  intro c here
  obtain rfl := List.mem_singleton.mp here
  simp only [UInt8.le_iff_toNat_le,ne_eq,← UInt8.toNat_inj]
  simp at within ⊢
  omega

theorem plain_digits {cs : List Char} (all : ∀ c ∈ cs, c.isDigit = true) :
    Plain (cs.map Char.toUInt8) := by
  intro b mem
  obtain ⟨c,here,rfl⟩ := List.mem_map.mp mem
  exact plain_digit (digit_toUInt8 (all c here)) _ (List.mem_singleton_self _)

theorem plain_nat (n : Nat) : Plain (bytes (toString n)) := by
  rw [bytes,Bytes.ofString_nat]
  exact plain_digits isDigit_of_mem

theorem plain_int (n : Int) : Plain (bytes (toString n)) := by
  rw [bytes,Bytes.ofString_int,plain_append]
  refine ⟨?_,plain_nat _⟩
  split_ifs
  all_goals decide

theorem plain_zeros (n : Nat) : Plain (bytes ("".pushn '0' n)) := by
  rw [String.pushn_eq_repeat_push]
  induction n with
  | zero => decide
  | succ n ih =>
    rw [Nat.repeat,← String.append_singleton,bytes,Bytes.ofString_append,plain_append]
    exact ⟨ih,by decide⟩

theorem plain_fill {width : Nat} {text : String} (plain : Plain (bytes text)) :
    Plain (bytes (Timestamp.fill width text)) := by
  rw [Timestamp.fill,bytes,Bytes.ofString_append,plain_append]
  exact ⟨plain_zeros _,plain⟩

theorem plain_timestamp (milliseconds : Int) : Plain (bytes (Timestamp.text milliseconds)) := by
  have two (n : Nat) : Plain (bytes (Timestamp.two n)) := plain_fill (plain_nat n)
  simp only [Timestamp.text,bytes,Bytes.ofString_append,plain_append,and_assoc]
  exact ⟨plain_int _,by decide,two _,by decide,two _,by decide,two _,by decide,two _,by decide,
    two _,by decide,plain_fill (plain_int _)⟩

theorem plain_level (level : Level) : Plain (bytes level.name) := by
  have named : ∀ entry ∈ Level.table, Plain (bytes entry.2.1) := by decide
  unfold Level.name
  split
  · rename_i found
    exact named _ (List.mem_of_find?_eq_some found)
  · decide

theorem plain_component (component : Component) : Plain (bytes component.name) := by
  cases component with
  | other => exact (by decide : Plain (bytes "Unknown"))
  | _ => decide

theorem plain_thread (r : Record) : Plain r.threadText := by
  unfold Record.threadText
  split
  · exact plain_nat _
  · decide

end Layout

/-! ### What a record has -/

open Layout in
/-- What a record has under each of the names that its fields are shown by. -/
def Record.shown (r : Record) : String → Option Grammar.Value
  | "timestamp" => some (.text (bytes (Timestamp.text r.timestamp)))
  | "level" => some (.text (bytes r.level.name))
  | "logger" => some (.text r.logger)
  | "thread" => some (.text r.threadText)
  | "pid" => if 0 < r.process then some (.number r.process) else none
  | "component" =>
    if r.context.component = .root then none else some (.text (bytes r.context.component.name))
  | "file" => r.fileText.map .text
  | "line" => r.fileText.map fun _ => .number r.line
  | "function" => r.fileText.bind fun _ => r.functionText.map .text
  | "session_id" =>
    if r.context.session = 0 then none else some (.number r.context.session.toNat)
  | "filter" => if r.context.filter = [] then none else some (.text r.context.filter)
  | "event" => if r.context.event = [] then none else some (.text r.context.event)
  | "message" => some (.text r.message)
  | "metadata" =>
    if r.context.keyValues.entries = [] then none else some (.object r.context.keyValues.entries)
  | _ => none

namespace Layout

def fieldNames : List String :=
  ["timestamp","level","logger","thread","pid","component","file","line","function","session_id",
    "filter","event","message","metadata"]

theorem named_of_shown {r : Record} {name : String} {value : Grammar.Value}
    (shown : r.shown name = some value) : name ∈ fieldNames := by
  unfold Record.shown at shown
  split at shown
  case h_15 => cases shown
  all_goals decide

def labelled (field : String × Value) : String × Grammar.Value := (field.1,field.2.shown)

theorem labelled_optional (present : Bool) (name : String) (value : Value) :
    (optional present name value).map labelled
      = ((if present then some value.shown else none).map (Prod.mk name)).toList := by
  cases present <;> rfl

theorem labelled_location (r : Record) : (jsonLocation r).map labelled
    = ["file","line","function"].flatMap fun name => ((r.shown name).map (Prod.mk name)).toList := by
  simp only [jsonLocation,Record.shown,List.flatMap_cons,List.flatMap_nil]
  cases r.fileText with
  | none => rfl
  | some file =>
    cases r.functionText with
    | none => rfl
    | some function => rfl

theorem labelled_fields (r : Record) : (jsonFields r).map labelled
    = fieldNames.flatMap fun name => ((r.shown name).map (Prod.mk name)).toList := by
  have split : fieldNames = ["timestamp","level","logger","thread"] ++ ["pid"] ++ ["component"]
    ++ ["file","line","function"] ++ ["session_id"] ++ ["filter"] ++ ["event"] ++ ["message"]
    ++ ["metadata"] := rfl
  rw [split]
  simp only [jsonFields,List.map_append,List.flatMap_append,labelled_location,labelled_optional]
  simp only [List.flatMap_cons,List.flatMap_nil,List.append_nil,Record.shown]
  simp [labelled,Value.shown]

theorem mem_fields {r : Record} {name : String} {value : Grammar.Value} :
    (name,value) ∈ (jsonFields r).map labelled ↔ r.shown name = some value := by
  rw [labelled_fields,List.mem_flatMap]
  constructor
  · rintro ⟨other,-,here⟩
    obtain ⟨found,shown,same⟩ := Option.map_eq_some_iff.mp (Option.mem_toList.mp here)
    cases same
    exact shown
  · intro shown
    exact ⟨name,named_of_shown shown,by simp [shown]⟩

theorem distinct_names (r : Record) : ((jsonFields r).map Prod.fst).Nodup := by
  have shown : ((jsonFields r).map labelled).map Prod.fst = fieldNames.filter fun name => (r.shown name).isSome := by
    rw [labelled_fields]
    generalize fieldNames = names
    induction names with
    | nil => rfl
    | cons name names ih =>
      rw [List.flatMap_cons,List.map_append,ih,List.filter_cons]
      cases r.shown name with
      | none => rfl
      | some value => rfl
  rw [List.map_map] at shown
  rw [show (jsonFields r).map Prod.fst = fieldNames.filter _ from shown]
  exact List.Nodup.filter _ (by decide)

theorem plain_name : ∀ name ∈ fieldNames, Plain (bytes name) := by decide

theorem safe_optional {present : Bool} {name : String} {value : Value} (safe : value.Safe) :
    ∀ field ∈ optional present name value, field.2.Safe := by
  cases present with
  | true => simpa [optional] using safe
  | false => simp [optional]

theorem safe_location (r : Record) : ∀ field ∈ jsonLocation r, field.2.Safe := by
  unfold jsonLocation
  split
  · split
    · simp [Value.Safe]
    · simp [Value.Safe]
  · simp

theorem safe_fields (r : Record) : ∀ field ∈ jsonFields r, field.2.Safe := by
  have given : ∀ field ∈ [("timestamp",Value.verbatim (bytes (Timestamp.text r.timestamp))),
      ("level",.verbatim (bytes r.level.name)),("logger",.text r.logger),
      ("thread",.verbatim r.threadText)], field.2.Safe := by
    simp only [List.forall_mem_cons]
    exact ⟨plain_timestamp _,plain_level _,trivial,plain_thread r,by simp⟩
  have message : ∀ field ∈ [("message",Value.text r.message)], field.2.Safe := by simp [Value.Safe]
  simp only [jsonFields,List.forall_mem_append]
  exact ⟨⟨⟨⟨⟨⟨⟨⟨given,safe_optional trivial⟩,safe_optional (plain_component _)⟩,safe_location r⟩,
    safe_optional trivial⟩,safe_optional trivial⟩,safe_optional trivial⟩,message⟩,safe_optional trivial⟩

theorem plain_field (r : Record) : ∀ field ∈ jsonFields r, Plain (bytes field.1) := by
  intro field mem
  exact plain_name _ (named_of_shown (mem_fields.mp (List.mem_map_of_mem (f := labelled) mem)))

/-- The fields of a record as a reader of its line sees them. -/
def members (r : Record) : List (Bytes × Grammar.Value) :=
  (jsonFields r).map fun field => (bytes field.1,field.2.shown)

theorem jsonLine_read (r : Record) : Reads (jsonLine r) (members r) := by
  have := braced_joined (fun field mem => writtenAs_field (plain_field r field mem) (safe_fields r field mem)) []
  rwa [List.append_nil] at this

theorem Value.render_printable {v : Value} (safe : v.Safe) : Printable v.render := by
  cases v with
  | verbatim t => exact printable_unescaped (Plain.printable safe)
  | text t => exact printable_quoted t
  | number n => exact (plain_int n).printable
  | object fields =>
    simp only [Value.render,printable_append]
    refine ⟨⟨by decide,printable_joined (by decide) fun part mem => ?_⟩,by decide⟩
    obtain ⟨field,-,rfl⟩ := List.mem_map.mp mem
    simp only [printable_append]
    exact ⟨⟨printable_quoted _,by decide⟩,printable_quoted _⟩

theorem jsonLine_printable (r : Record) : Printable (jsonLine r) := by
  simp only [jsonLine,printable_append]
  refine ⟨⟨by decide,printable_joined (by decide) fun part mem => ?_⟩,by decide⟩
  obtain ⟨field,here,rfl⟩ := List.mem_map.mp mem
  simp only [printable_append]
  exact ⟨⟨printable_unescaped (plain_field r field here).printable,by decide⟩,
    Value.render_printable (safe_fields r field here)⟩

theorem mem_members {r : Record} {name : Bytes} {value : Grammar.Value} :
    (name,value) ∈ members r ↔ ∃ field, bytes field = name ∧ r.shown field = some value := by
  simp only [members,List.mem_map,← mem_fields,labelled,Prod.mk.injEq]
  grind

theorem distinct_members (r : Record) : ((members r).map Prod.fst).Nodup := by
  have := (distinct_names r).map Bytes.ofString_injective
  rw [List.map_map] at this
  rwa [members,List.map_map]

theorem shown_object {r : Record} {name : String} {fields : List (Bytes × Bytes)}
    (shown : r.shown name = some (.object fields)) : fields = r.context.keyValues.entries := by
  unfold Record.shown at shown
  split at shown
  case h_14 =>
    split at shown
    · cases shown
    · cases shown
      rfl
  case h_15 => cases shown
  all_goals simp [Option.bind_eq_some_iff] at shown

/-- The line is printable and reads in one way only: as an object whose names are distinct, with a
field for exactly what the record has, and each text of it byte for byte. -/
theorem jsonLine_faithful (r : Record) :
    (∀ b ∈ jsonLine r, 0x20 ≤ b ∧ b ≤ 0x7e) ∧
    ∃ members, Reads (jsonLine r) members ∧ (∀ others, Reads (jsonLine r) others → others = members) ∧
      (members.map Prod.fst).Nodup ∧
      (∀ name fields, (name,.object fields) ∈ members → (fields.map Prod.fst).Nodup) ∧
      ∀ name value, (name,value) ∈ members ↔ ∃ field, bytes field = name ∧ r.shown field = some value := by
  refine ⟨jsonLine_printable r,members r,jsonLine_read r,fun _ again => (jsonLine_read r).unique again,
    distinct_members r,?_,fun _ _ => mem_members⟩
  intro name fields mem
  obtain ⟨field,-,shown⟩ := mem_members.mp mem
  exact shown_object shown ▸ r.context.keyValues.rising.keys

/-- A record that tries to break out: quotes, backslashes, control and high bytes, a file name that
goes on behind its end, and metadata keys that look like the text around them. -/
def unruly : Record where
  message := [0x22,0x2c,0x22,0x5c,0x0a,0x00,0xff]
  logger := [0xc3,0xa9]
  thread := some 5
  process := 7
  file := some [0x61,0x00,0x62]
  line := -3
  function := some [0x1f,0x7f]
  context := ⟨9,[0x22,0x7d],[0x5c],.codec,⟨[([0x22],[0x2c]),([0x5c,0x22],[0x7d])],by decide⟩⟩

theorem jsonLine_faithful_unruly :
    ∃ members, Reads (jsonLine unruly) members ∧ members.length = 14 ∧
      (bytes "message",.text [0x22,0x2c,0x22,0x5c,0x0a,0x00,0xff]) ∈ members ∧
      (bytes "file",.text [0x61]) ∈ members ∧ (bytes "line",.number (-3)) ∈ members ∧
      (bytes "metadata",.object [([0x22],[0x2c]),([0x5c,0x22],[0x7d])]) ∈ members := by
  obtain ⟨-,members,read,sole,-,-,shown⟩ := jsonLine_faithful unruly
  refine ⟨members,read,?_,(shown _ _).mpr ⟨_,rfl,rfl⟩,(shown _ _).mpr ⟨_,rfl,rfl⟩,
    (shown _ _).mpr ⟨_,rfl,rfl⟩,(shown _ _).mpr ⟨_,rfl,rfl⟩⟩
  rw [← sole _ (jsonLine_read unruly)]
  rfl

end Layout
end SessionPipeline.Logging
