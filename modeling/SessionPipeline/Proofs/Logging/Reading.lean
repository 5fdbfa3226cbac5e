import Mathlib.Data.List.TakeDrop
import Mathlib.Tactic.SplitIfs
import SessionPipeline.Json.Reader
import SessionPipeline.Proofs.Json.Fields
import SessionPipeline.Proofs.Logging.JsonLine

/-!
What the JSON reader makes of a line. It takes an escaped byte for the character of that number, so
the text of a record comes back as long as it is ASCII, and no other text does.
-/
namespace SessionPipeline.Logging

namespace Grammar
open Json Bytes
open Layout (Ends)

/-! ### Texts -/

theorem value_nibble {b n : UInt8} (found : nibble? b = some n) :
    Hex.value? (Char.ofUInt8 b) = some n.toNat ∧ n.toNat < 16 := by
  have all : ∀ k : Fin 256, (nibble? (UInt8.ofNat k)).all fun n =>
      Hex.value? (Char.ofUInt8 (UInt8.ofNat k)) = some n.toNat ∧ n.toNat < 16 := by decide +kernel
  simpa [found] using all ⟨b.toNat,b.toNat_lt⟩

theorem readEscape_short {letter b : UInt8} (listed : shortEscapes.lookup letter = some b)
    (rest : List Char) :
    readEscape (Char.ofUInt8 letter :: rest) = some (Char.ofUInt8 b,rest) := by
  have mem := mem_of_lookup listed
  simp only [shortEscapes,List.mem_cons,Prod.mk.injEq,List.not_mem_nil,or_false] at mem
  rcases mem with ⟨rfl,rfl⟩ | ⟨rfl,rfl⟩ | ⟨rfl,rfl⟩ | ⟨rfl,rfl⟩ | ⟨rfl,rfl⟩ | ⟨rfl,rfl⟩ | ⟨rfl,rfl⟩ | ⟨rfl,rfl⟩
  all_goals rfl

theorem readEscape_unit {d e high low : UInt8} (first : nibble? d = some high)
    (second : nibble? e = some low) (rest : List Char) :
    readEscape ('u' :: '0' :: '0' :: Char.ofUInt8 d :: Char.ofUInt8 e :: rest)
      = some (Char.ofUInt8 (high * 16 + low),rest) := by
  obtain ⟨value₁,small₁⟩ := value_nibble first
  obtain ⟨value₂,small₂⟩ := value_nibble second
  have unit : readUnit ('0' :: '0' :: Char.ofUInt8 d :: Char.ofUInt8 e :: rest)
      = some (high.toNat * 16 + low.toNat,rest) := by
    simp [readUnit,value₁,value₂,show Hex.value? '0' = some 0 from rfl]
  simp only [readEscape,readEscapedUnit,unit,Option.bind_eq_bind,Option.bind_some]
  rw [if_neg (by omega),if_neg (by omega)]
  have same : (high * 16 + low).toNat = high.toNat * 16 + low.toNat := by
    simp
    omega
  rw [← same]
  have named : Char.ofNat (high * 16 + low).toNat = Char.ofUInt8 (high * 16 + low) :=
    Char.ofNat_toNat (Char.ofUInt8 (high * 16 + low))
  rw [named]
  rfl

/-- The reader takes a text for one character a byte. -/
theorem readString_chars {input meant rest : Bytes} (chars : Chars input meant rest) {fuel : Nat}
    (done : List Char) (enough : input.length ≤ fuel) :
    readString fuel done input.characters
      = some (String.ofList (done.reverse ++ meant.characters),rest.characters) := by
  induction chars generalizing fuel done with
  | close =>
    cases fuel with
    | zero => exact absurd enough (by simp)
    | succ fuel => simp [readString,characters,show Char.ofUInt8 0x22 = '"' from rfl]
  | @plain b input meant rest printed unquoted unescaped _ ih =>
    cases fuel with
    | zero => exact absurd enough (by simp)
    | succ fuel =>
      have here := ih (Char.ofUInt8 b :: done) (Nat.le_of_succ_le_succ enough)
      rw [characters_cons,readString,if_neg,if_neg,if_neg,here]
      · simp
      · rw [toNat_ofUInt8,Nat.not_lt]
        exact UInt8.le_iff_toNat_le.mp printed
      · exact fun same => unescaped (ofUInt8_injective (eq_of_beq same))
      · exact fun same => unquoted (ofUInt8_injective (eq_of_beq same))
  | @short letter b input meant rest listed _ ih =>
    cases fuel with
    | zero => exact absurd enough (by simp)
    | succ fuel =>
      have room : input.length ≤ fuel := by
        simp only [List.length_cons] at enough
        omega
      have here := ih (Char.ofUInt8 b :: done) room
      have escape := readEscape_short listed input.characters
      rw [characters_cons,readString,if_neg (by decide),if_pos (by decide),characters_cons,escape]
      simpa using here
  | @unit d e high low input meant rest first second _ ih =>
    cases fuel with
    | zero => exact absurd enough (by simp)
    | succ fuel =>
      have room : input.length ≤ fuel := by
        simp only [List.length_cons] at enough
        omega
      have here := ih (Char.ofUInt8 (high * 16 + low) :: done) room
      have escape : readEscape (characters (0x75 :: 0x30 :: 0x30 :: d :: e :: input))
          = some (Char.ofUInt8 (high * 16 + low),input.characters) :=
        readEscape_unit first second input.characters
      rw [characters_cons,readString,if_neg (by decide),if_pos (by decide),escape]
      simpa using here

theorem Chars.shorter {input meant rest : Bytes} (chars : Chars input meant rest) :
    rest.length < input.length := by
  induction chars with
  | close => simp
  | _ =>
    simp only [List.length_cons]
    omega

theorem readString_quoted {input meant rest : Bytes} (quoted : Quoted input meant rest) :
    rest.length + 1 < input.length ∧ ∃ tail, input.characters = '"' :: tail ∧
      ∀ fuel, input.length ≤ fuel + 1 → readString fuel [] tail = some (meant.latin1,rest.characters) := by
  cases quoted with
  | intro chars =>
    refine ⟨Nat.succ_lt_succ chars.shorter,_,rfl,fun fuel enough => ?_⟩
    exact readString_chars chars [] (Nat.le_of_succ_le_succ enough)

/-! ### Numbers -/

theorem isDigit_of_digit {b : UInt8} {d : Nat} (digit : digit? b = some d) :
    (Char.ofUInt8 b).isDigit = true ∧ (Char.ofUInt8 b).toNat - 48 = d := by
  have all : ∀ k : Fin 256, (digit? (UInt8.ofNat k)).all fun d =>
      (Char.ofUInt8 (UInt8.ofNat k)).isDigit ∧ (Char.ofUInt8 (UInt8.ofNat k)).toNat - 48 = d := by
    decide +kernel
  simpa [digit] using all ⟨b.toNat,b.toNat_lt⟩

theorem not_isDigit {b : UInt8} (other : digit? b = none) : (Char.ofUInt8 b).isDigit = false := by
  have all : ∀ k : Fin 256, digit? (UInt8.ofNat k) = none →
      (Char.ofUInt8 (UInt8.ofNat k)).isDigit = false := by decide +kernel
  have here := all ⟨b.toNat,b.toNat_lt⟩
  simp only [UInt8.ofNat_toNat] at here
  exact here other

theorem span_digits {n m : Nat} {input rest : Bytes} (digits : Digits n input m rest) :
    ∃ ds, input.characters.span Char.isDigit = (ds,rest.characters) ∧
      ds.foldl (fun n c => n * 10 + (c.toNat - 48)) n = m := by
  induction digits with
  | @stop n rest after =>
    refine ⟨[],?_,rfl⟩
    cases rest with
    | nil => rfl
    | cons b rest => simp [List.span_eq_takeWhile_dropWhile,not_isDigit after]
  | @next n b d input m rest digit _ ih =>
    obtain ⟨ds,span,value⟩ := ih
    obtain ⟨isDigit,same⟩ := isDigit_of_digit digit
    rw [List.span_eq_takeWhile_dropWhile,Prod.mk.injEq] at span
    refine ⟨Char.ofUInt8 b :: ds,?_,?_⟩
    · simp [List.span_eq_takeWhile_dropWhile,isDigit,span]
    · rw [List.foldl_cons,same,Nat.mul_comm,value]

theorem readWhole_whole {input rest : Bytes} {n : Nat} (whole : Whole input n rest) :
    ∃ ds, readWhole input.characters = some (ds,rest.characters) ∧ digitsValue ds = n := by
  cases whole with
  | zero => exact ⟨['0'],rfl,rfl⟩
  | @digits b d input _ _ digit leading more =>
    obtain ⟨isDigit,same⟩ := isDigit_of_digit digit
    obtain ⟨ds,span,value⟩ := span_digits more
    refine ⟨Char.ofUInt8 b :: ds,?_,?_⟩
    · rw [List.span_eq_takeWhile_dropWhile,Prod.mk.injEq] at span
      have nonzero : Char.ofUInt8 b ≠ '0' := by
        intro zero
        rw [zero] at same
        exact leading same.symm
      have here : readDigits (Char.ofUInt8 b :: input.characters)
          = some (Char.ofUInt8 b :: ds,rest.characters) := by
        simp [readDigits,List.span_eq_takeWhile_dropWhile,isDigit,span]
      rw [characters_cons,readWhole]
      · exact here
      · intro rest same
        exact nonzero (List.cons.inj same).1
    · rw [digitsValue,List.foldl_cons,same,Nat.zero_mul,Nat.zero_add,value]


/-- Numbers that the reader keeps as integers. -/
def Fits (n : Int) : Prop := -2 ^ 63 ≤ n ∧ n < 2 ^ 64

theorem Ends.unfractioned {rest : Bytes} (ends : Ends rest) :
    readFraction rest.characters = some ([],rest.characters) ∧
      readExponent rest.characters = some (none,rest.characters) := by
  obtain ⟨tail,rfl | rfl⟩ := ends
  · exact ⟨rfl,rfl⟩
  · exact ⟨rfl,rfl⟩

/-- What is behind the sign of a number, and whether that is a minus. -/
def Signed (cs : List Char) (negative : Bool) (unsigned : List Char) : Prop :=
  if negative then cs = '-' :: unsigned else cs = unsigned ∧ ∀ rest, cs ≠ '-' :: rest

/-- The limits of 64 bits stay closed here: nothing has to compute with them. -/
theorem readNumber_read {negative : Bool} {cs cs' ds rest : List Char} {n : Int}
    (sign : Signed cs negative cs')
    (whole : readWhole cs' = some (ds,rest)) (fraction : readFraction rest = some ([],rest))
    (exponent : readExponent rest = some (none,rest))
    (value : (if negative then -(digitsValue ds : Int) else digitsValue ds) = n) (fits : Fits n) :
    readNumber cs = some (.int n,rest) := by
  have low : Int64.minValue.toInt ≤ n := fits.1
  have high : n < UInt64.size := fits.2
  unfold readNumber
  split
  rename_i negative' cs'' same
  have found : negative' = negative ∧ cs'' = cs' := by
    cases negative with
    | true =>
      obtain rfl : cs = '-' :: cs' := sign
      cases same
      exact ⟨rfl,rfl⟩
    | false =>
      obtain ⟨rfl,signless⟩ : cs = cs' ∧ ∀ rest, cs ≠ '-' :: rest := sign
      split at same
      · exact absurd rfl (signless _)
      · cases same
        exact ⟨rfl,rfl⟩
  obtain ⟨rfl,rfl⟩ := found
  generalize Int64.minValue.toInt = least at low ⊢
  generalize (UInt64.size : Int) = size at high ⊢
  simp only [whole,fraction,exponent,Option.bind_eq_bind,Option.bind_some,value]
  rw [if_pos (by simp [low,high])]
  rfl

theorem readNumber_numeral {input rest : Bytes} {n : Int} (numeral : Numeral input n rest)
    (ends : Ends rest) (fits : Fits n) :
    readNumber input.characters = some (.int n,rest.characters) := by
  obtain ⟨fraction,exponent⟩ := Ends.unfractioned ends
  cases numeral with
  | positive whole =>
    obtain ⟨ds,read,value⟩ := readWhole_whole whole
    obtain ⟨b,tail,d,rfl,digit⟩ := whole.head
    have sign : Signed (characters (b :: tail)) false (characters (b :: tail)) := by
      refine ⟨rfl,fun rest sign => ?_⟩
      have isDigit := (isDigit_of_digit digit).1
      rw [(List.cons.inj sign).1] at isDigit
      cases isDigit
    exact readNumber_read sign read fraction exponent (by simp [value]) fits
  | @negative unsigned _ _ whole =>
    obtain ⟨ds,read,value⟩ := readWhole_whole whole
    have sign : Signed (characters (0x2d :: unsigned)) true unsigned.characters := rfl
    exact readNumber_read sign read fraction exponent (by simp [value]) fits

theorem Digits.shorter {n m : Nat} {input rest : Bytes} (digits : Digits n input m rest) :
    rest.length ≤ input.length := by
  induction digits with
  | stop => exact Nat.le_refl _
  | next _ _ ih => exact Nat.le_succ_of_le ih

theorem Whole.shorter {n : Nat} {input rest : Bytes} (whole : Whole input n rest) :
    rest.length < input.length := by
  cases whole with
  | zero => exact Nat.lt_succ_self _
  | digits _ _ more => exact Nat.lt_succ_of_le more.shorter

theorem Numeral.shorter {n : Int} {input rest : Bytes} (numeral : Numeral input n rest) :
    rest.length < input.length := by
  cases numeral with
  | positive whole => exact whole.shorter
  | negative whole => exact Nat.lt_succ_of_lt whole.shorter

/-! ### Values and objects -/

section Objects
variable {α : Type}

/-- A judgment whose values the reader takes as such, with fuel for every byte there is. -/
def Taken (Value : Bytes → α → Bytes → Prop) (fit : α → Prop) (value : α → Json) : Prop :=
  ∀ ⦃input v rest⦄, Value input v rest → Ends rest → fit v → rest.length < input.length ∧
    ∀ fuel, input.length ≤ fuel → readValue fuel input.characters = some (value v,rest.characters)

def named (value : α → Json) (member : Bytes × α) : String × Json := (member.1.latin1,value member.2)

variable {Value : Bytes → α → Bytes → Prop} {fit : α → Prop} {value : α → Json}

theorem readFields_last {fuel : Nat} {tail held rest : List Char} {name : String} {value : Json}
    (label : readString fuel [] tail = some (name,':' :: held))
    (valued : readValue fuel held = some (value,'\x7d' :: rest)) :
    readFields (fuel + 1) ('"' :: tail) = some ([(name,value)],rest) := by
  simp only [readFields,show skipSpace ('"' :: tail) = '"' :: tail from rfl,label,
    show skipSpace (':' :: held) = ':' :: held from rfl,valued,
    show skipSpace ('\x7d' :: rest) = '\x7d' :: rest from rfl]

theorem readFields_more {fuel : Nat} {tail held others rest : List Char} {name : String} {value : Json}
    {fields : List (String × Json)} (label : readString fuel [] tail = some (name,':' :: held))
    (valued : readValue fuel held = some (value,',' :: others))
    (behind : readFields fuel others = some (fields,rest)) :
    readFields (fuel + 1) ('"' :: tail) = some ((name,value) :: fields,rest) := by
  simp only [readFields,show skipSpace ('"' :: tail) = '"' :: tail from rfl,label,
    show skipSpace (':' :: held) = ':' :: held from rfl,valued,
    show skipSpace (',' :: others) = ',' :: others from rfl,behind,Option.map_some]

theorem readFields_members (taken : Taken Value fit value) {input rest : Bytes}
    {members : List (Bytes × α)} (listed : Members Value input members rest)
    (fits : ∀ member ∈ members, fit member.2) : rest.length < input.length ∧
    ∀ fuel, input.length ≤ fuel →
      readFields fuel input.characters = some (members.map (named value),rest.characters) := by
  induction listed with
  | @last input name held v rest label valued =>
    obtain ⟨short,tail,quote,readName⟩ := readString_quoted label
    obtain ⟨short',readHeld⟩ := taken valued (Layout.ends_brace rest) (fits _ (List.mem_singleton_self _))
    simp only [List.length_cons] at short short'
    refine ⟨by omega,fun fuel enough => ?_⟩
    cases fuel with
    | zero => omega
    | succ fuel =>
      rw [quote]
      exact readFields_last (readName fuel enough) (readHeld fuel (by omega))
  | @more input name held v others members rest label valued _ ih =>
    obtain ⟨first,behind⟩ := List.forall_mem_cons.mp fits
    obtain ⟨short,tail,quote,readName⟩ := readString_quoted label
    obtain ⟨short',readHeld⟩ := taken valued (Layout.ends_comma others) first
    obtain ⟨short'',readOthers⟩ := ih behind
    simp only [List.length_cons] at short short'
    refine ⟨by omega,fun fuel enough => ?_⟩
    cases fuel with
    | zero => omega
    | succ fuel =>
      rw [quote]
      exact readFields_more (readName fuel enough) (readHeld fuel (by omega)) (readOthers fuel (by omega))

theorem readValue_braced (taken : Taken Value fit value) {input rest : Bytes}
    {members : List (Bytes × α)} (braced : Braced Value input members rest)
    (fits : ∀ member ∈ members, fit member.2) : rest.length < input.length ∧
    ∀ fuel, input.length ≤ fuel →
      readValue fuel input.characters = some (Json.object (members.map (named value)),rest.characters) := by
  cases braced with
  | empty =>
    refine ⟨Nat.lt_succ_of_lt (Nat.lt_succ_self _),fun fuel enough => ?_⟩
    cases fuel with
    | zero => cases enough
    | succ fuel => rw [readValue]; rfl
  | @filled input _ _ listed =>
    obtain ⟨short,readMembers⟩ := readFields_members taken listed fits
    refine ⟨Nat.lt_succ_of_lt short,fun fuel enough => ?_⟩
    cases fuel with
    | zero => cases enough
    | succ fuel =>
      have here := readMembers fuel (Nat.le_of_succ_le_succ enough)
      have quote : ∃ tail, input.characters = '"' :: tail := by
        cases listed with
        | last label => exact ⟨_,(readString_quoted label).2.choose_spec.1⟩
        | more label => exact ⟨_,(readString_quoted label).2.choose_spec.1⟩
      obtain ⟨tail,quote⟩ := quote
      rw [quote] at here
      rw [characters_cons,quote,readValue]
      show Option.map _ (readFields fuel ('"' :: tail)) = _
      rw [here]
      rfl

end Objects

/-- The value that a reader gets. -/
def Value.read : Value → Json
  | text t => .str t.latin1
  | number n => .int n
  | object fields => Json.object (fields.map (named fun t => .str t.latin1))

def Value.Fit : Value → Prop
  | number n => Fits n
  | _ => True

theorem taken_quoted : Taken Quoted (fun _ => True) (fun t => .str t.latin1) := by
  intro input t rest quoted _ _
  obtain ⟨short,tail,quote,readText⟩ := readString_quoted quoted
  refine ⟨by omega,fun fuel enough => ?_⟩
  cases fuel with
  | zero => omega
  | succ fuel =>
    rw [quote,readValue]
    show Option.map _ (readString fuel [] tail) = _
    rw [readText fuel enough]
    rfl

theorem Numeral.character {input rest : Bytes} {n : Int} (numeral : Numeral input n rest) :
    ∃ c tail, input.characters = c :: tail ∧ (c = '-' ∨ c.isDigit = true) := by
  cases numeral with
  | positive whole =>
    obtain ⟨b,tail,d,rfl,digit⟩ := whole.head
    exact ⟨_,_,rfl,.inr (isDigit_of_digit digit).1⟩
  | negative => exact ⟨_,_,rfl,.inl rfl⟩

/-- What starts like a number is read as one. -/
theorem readValue_number {c : Char} (starts : c = '-' ∨ c.isDigit = true) (fuel : Nat) (tail : List Char) :
    readValue (fuel + 1) (c :: tail) = readNumber (c :: tail) := by
  have other : ∀ d : Char, d ≠ '-' → d.isDigit = false → c ≠ d := by
    rintro d signless digitless rfl
    rcases starts with sign | digit
    · exact signless sign
    · rw [digitless] at digit
      cases digit
  have spaceless : skipSpace (c :: tail) = c :: tail := by
    refine List.dropWhile_cons_of_neg ?_
    simp only [isSpace,Bool.or_eq_true,beq_iff_eq,not_or]
    exact ⟨⟨⟨other _ (by decide) (by decide),other _ (by decide) (by decide)⟩,
      other _ (by decide) (by decide)⟩,other _ (by decide) (by decide)⟩
  rw [readValue,spaceless]
  split
  case h_7 => rfl
  all_goals
    rename_i same
    exact absurd (List.cons.inj same).1 (other _ (by decide) (by decide))

theorem taken_numeral : Taken Numeral Fits .int := by
  intro input n rest numeral ends fits
  refine ⟨numeral.shorter,fun fuel enough => ?_⟩
  have short := numeral.shorter
  have read := readNumber_numeral numeral ends fits
  obtain ⟨c,tail,begins,starts⟩ := numeral.character
  cases fuel with
  | zero => omega
  | succ fuel =>
    rw [begins] at read ⊢
    rw [readValue_number starts,read]

theorem taken_written : Taken Written Value.Fit Value.read := by
  intro input v rest written ends fits
  cases written with
  | text quoted => exact taken_quoted quoted ends trivial
  | number numeral => exact taken_numeral numeral ends fits
  | object braced => exact readValue_braced taken_quoted braced fun _ _ => trivial

/-- A line of ASCII is parsed as the members that it reads as. -/
theorem parse_reads {line : Bytes} {members : List (Bytes × Value)} (reads : Reads line members)
    (fits : ∀ member ∈ members, member.2.Fit) :
    parse line.latin1 = some (Json.object (members.map (named Value.read))) := by
  obtain ⟨-,read⟩ := readValue_braced taken_written reads fits
  rw [parse,latin1,String.toList_ofList,length_characters,read _ (by omega)]
  rfl

end Grammar

namespace Layout
open Grammar Json Bytes

theorem shown_number {r : Record} {name : String} {n : Int} (shown : r.shown name = some (.number n)) :
    n = r.process ∨ n = r.line ∨ n = r.context.session.toNat := by
  unfold Record.shown at shown
  split at shown
  case h_15 => cases shown
  all_goals simp [Option.bind_eq_some_iff] at shown
  · exact .inl shown.2.symm
  · exact .inr (.inl shown.2.symm)
  · exact .inr (.inr shown.2.symm)

theorem fit_members {r : Record} (process : Fits r.process) (line : Fits r.line) :
    ∀ member ∈ members r, member.2.Fit := by
  rintro ⟨name,value⟩ mem
  obtain ⟨field,-,shown⟩ := mem_members.mp mem
  cases value with
  | number n =>
    rcases shown_number shown with rfl | rfl | rfl
    · exact process
    · exact line
    · have := r.context.session.toNat_lt
      exact ⟨by omega,by omega⟩
  | _ => trivial

theorem jsonLine_ascii (r : Record) : ofString (jsonLine r).latin1 = jsonLine r :=
  ofString_latin1 fun b mem => by
    have printed := (jsonLine_printable r b mem).2
    rw [UInt8.le_iff_toNat_le] at printed
    rw [UInt8.lt_iff_toNat_lt]
    exact Nat.lt_of_le_of_lt printed (by decide)

theorem parse_jsonLine {r : Record} (process : Fits r.process) (line : Fits r.line) :
    parse (jsonLine r).latin1 = some (Json.object ((members r).map (named Value.read))) :=
  parse_reads (jsonLine_read r) (fit_members process line)

theorem distinct_named {α : Type} {value : α → Json} {fields : List (Bytes × α)}
    (distinct : (fields.map Prod.fst).Nodup) : ((fields.map (named value)).map (·.1)).Nodup := by
  have := distinct.map latin1_injective
  rwa [List.map_map] at this ⊢

/-- What the reader finds under the name of a field is what the record has there. -/
theorem field?_shown {r : Record} {name : String} {value : Grammar.Value}
    (shown : r.shown name = some value) :
    (Json.object ((members r).map (named Value.read))).field? name = some value.read := by
  have ascii : ∀ name ∈ fieldNames, Ascii name := by decide
  have mem : (bytes name,value) ∈ members r := mem_members.mpr ⟨name,rfl,shown⟩
  have back : (bytes name).latin1 = name := latin1_ofString.mpr (ascii name (named_of_shown shown))
  refine field?_of_mem (distinct_named (distinct_members r)) ?_
  exact List.mem_map.mpr ⟨_,mem,by rw [named,back]⟩

theorem read_text {s : String} : Json.str (ofString s).latin1 = .str s ↔ Ascii s := by
  rw [Json.str.injEq]
  exact latin1_ofString

/-- Parsed, the line gives back those of a record's texts that are ASCII, and no others: each byte of
a longer character has come to be a character of its own. -/
theorem jsonLine_parsed (r : Record) (process : Fits r.process) (line : Fits r.line) :
    ∃ text j, ofString text = jsonLine r ∧ parse text = some j ∧
      (∀ name s, r.shown name = some (.text (ofString s)) → (j.field? name = some (.str s) ↔ Ascii s)) ∧
      ∀ k v, (ofString k,ofString v) ∈ r.context.keyValues.entries → Ascii k →
        ∃ metadata, j.field? "metadata" = some metadata ∧
          (metadata.field? k = some (.str v) ↔ Ascii v) := by
  refine ⟨_,_,jsonLine_ascii r,parse_jsonLine process line,?_,?_⟩
  · intro name s shown
    rw [field?_shown shown]
    exact Option.some_inj.trans read_text
  · intro k v mem ascii
    have shown : r.shown "metadata" = some (.object r.context.keyValues.entries) :=
      if_neg (List.ne_nil_of_mem mem)
    refine ⟨_,field?_shown shown,?_⟩
    have here : (named (fun t => Json.str t.latin1) (ofString k,ofString v))
        ∈ r.context.keyValues.entries.map (named fun t => .str t.latin1) := List.mem_map_of_mem mem
    rw [named,latin1_ofString.mpr ascii] at here
    rw [Value.read,field?_of_mem (distinct_named r.context.keyValues.rising.keys) here]
    exact Option.some_inj.trans read_text

theorem jsonLine_parsed_unruly : Fits unruly.process ∧ Fits unruly.line ∧
    ∃ text j, ofString text = jsonLine unruly ∧ parse text = some j ∧
      j.field? "component" = some (.str "Codec") := by
  have process : Fits unruly.process := ⟨by decide,by decide⟩
  have line : Fits unruly.line := ⟨by decide,by decide⟩
  obtain ⟨text,j,spelled,parsed,texts,-⟩ := jsonLine_parsed unruly process line
  exact ⟨process,line,text,j,spelled,parsed,(texts "component" "Codec" rfl).mpr (by decide)⟩

/-- One character of two bytes. -/
def accented : Record where
  message := ofString "é"

theorem accent_torn : ∃ text j, ofString text = jsonLine accented ∧ parse text = some j ∧
    accented.message = ofString "é" ∧ j.field? "message" = some (.str "Ã©") ∧ "Ã©" ≠ "é" := by
  have fits : Fits 0 := ⟨by decide,by decide⟩
  have shown : accented.shown "message" = some (.text (ofString "é")) := rfl
  exact ⟨_,_,jsonLine_ascii accented,parse_jsonLine fits fits,rfl,field?_shown shown,by decide⟩

end Layout
end SessionPipeline.Logging
