import Mathlib.Data.List.Basic
import SessionPipeline.Wire.Bytes

/-!
The JSON objects of one line, byte by byte: members of texts, integers and flat objects, without any
white space. Each judgment relates the bytes from somewhere on to what is read there and to the
bytes behind it. A text stands for bytes: an escape of four digits for the byte that it names.
-/
namespace SessionPipeline.Logging.Grammar

/-- The byte that a letter behind a backslash stands for. -/
def shortEscapes : List (UInt8 × UInt8) :=
  [(0x22,0x22),(0x5c,0x5c),(0x2f,0x2f),(0x62,0x08),(0x66,0x0c),(0x6e,0x0a),(0x72,0x0d),(0x74,0x09)]

def nibble? (b : UInt8) : Option UInt8 :=
  if 0x30 ≤ b ∧ b ≤ 0x39 then some (b - 0x30)
  else if 0x61 ≤ b ∧ b ≤ 0x66 then some (b - 0x57)
  else if 0x41 ≤ b ∧ b ≤ 0x46 then some (b - 0x37)
  else none

/-- A text from behind its opening quote to its closing one. -/
inductive Chars : Bytes → Bytes → Bytes → Prop
  | close {rest} : Chars (0x22 :: rest) [] rest
  | plain {b input meant rest} (printed : 0x20 ≤ b) (unquoted : b ≠ 0x22) (unescaped : b ≠ 0x5c)
      (more : Chars input meant rest) : Chars (b :: input) (b :: meant) rest
  | short {letter b input meant rest} (listed : shortEscapes.lookup letter = some b)
      (more : Chars input meant rest) : Chars (0x5c :: letter :: input) (b :: meant) rest
  | unit {d e high low input meant rest} (first : nibble? d = some high) (second : nibble? e = some low)
      (more : Chars input meant rest) :
      Chars (0x5c :: 0x75 :: 0x30 :: 0x30 :: d :: e :: input) ((high * 16 + low) :: meant) rest

inductive Quoted : Bytes → Bytes → Bytes → Prop
  | intro {input meant rest} (chars : Chars input meant rest) : Quoted (0x22 :: input) meant rest

def digit? (b : UInt8) : Option Nat := if 0x30 ≤ b ∧ b ≤ 0x39 then some (b.toNat - 0x30) else none

/-- All the digits that come next, read on from a number. -/
inductive Digits : Nat → Bytes → Nat → Bytes → Prop
  | stop {n rest} (after : rest.head?.bind digit? = none) : Digits n rest n rest
  | next {n b d input m rest} (digit : digit? b = some d) (more : Digits (10 * n + d) input m rest) :
      Digits n (b :: input) m rest

/-- A zero alone, or digits that start with another. -/
inductive Whole : Bytes → Nat → Bytes → Prop
  | zero {rest} : Whole (0x30 :: rest) 0 rest
  | digits {b d input n rest} (digit : digit? b = some d) (leading : d ≠ 0)
      (more : Digits d input n rest) : Whole (b :: input) n rest

inductive Numeral : Bytes → Int → Bytes → Prop
  | positive {input rest} {n : Nat} (whole : Whole input n rest) : Numeral input n rest
  | negative {input rest} {n : Nat} (whole : Whole input n rest) : Numeral (0x2d :: input) (-n) rest

section Objects
variable {α : Type} (Value : Bytes → α → Bytes → Prop)

inductive Members : Bytes → List (Bytes × α) → Bytes → Prop
  | last {input name held value rest} (named : Quoted input name (0x3a :: held))
      (valued : Value held value (0x7d :: rest)) : Members input [(name,value)] rest
  | more {input name held value others members rest} (named : Quoted input name (0x3a :: held))
      (valued : Value held value (0x2c :: others)) (listed : Members others members rest) :
      Members input ((name,value) :: members) rest

inductive Braced : Bytes → List (Bytes × α) → Bytes → Prop
  | empty {rest} : Braced (0x7b :: 0x7d :: rest) [] rest
  | filled {input members rest} (listed : Members Value input members rest) :
      Braced (0x7b :: input) members rest

end Objects

inductive Value
  | text (t : Bytes)
  | number (n : Int)
  | object (fields : List (Bytes × Bytes))
  deriving DecidableEq, Repr

inductive Written : Bytes → Value → Bytes → Prop
  | text {input t rest} (quoted : Quoted input t rest) : Written input (.text t) rest
  | number {input n rest} (numeral : Numeral input n rest) : Written input (.number n) rest
  | object {input fields rest} (braced : Braced Quoted input fields rest) :
      Written input (.object fields) rest

/-- The whole line is an object of these members. -/
def Reads (line : Bytes) (members : List (Bytes × Value)) : Prop := Braced Written line members []

/-- Wherever it applies, a judgment leaves no choice of what is read, nor of where that ends. -/
def Unambiguous {α : Type} (Judged : Bytes → α → Bytes → Prop) : Prop :=
  ∀ ⦃input a b rest rest'⦄, Judged input a rest → Judged input b rest' → a = b ∧ rest = rest'

theorem unambiguous_chars : Unambiguous Chars := by
  intro input a b rest rest' first second
  induction first generalizing b with
  | close =>
    cases second with
    | close => exact ⟨rfl,rfl⟩
    | plain _ unquoted => exact absurd rfl unquoted
  | plain _ unquoted unescaped _ ih =>
    cases second with
    | close => exact absurd rfl unquoted
    | plain _ _ _ more =>
      obtain ⟨rfl,same⟩ := ih more
      exact ⟨rfl,same⟩
    | short => exact absurd rfl unescaped
    | unit => exact absurd rfl unescaped
  | short listed _ ih =>
    cases second with
    | plain _ _ unescaped => exact absurd rfl unescaped
    | short listed' more =>
      obtain ⟨rfl,same⟩ := ih more
      obtain rfl := Option.some.inj (listed.symm.trans listed')
      exact ⟨rfl,same⟩
    | unit => cases listed
  | unit first second' _ ih =>
    cases second with
    | plain _ _ unescaped => exact absurd rfl unescaped
    | short listed => cases listed
    | unit first' second'' more =>
      obtain ⟨rfl,same⟩ := ih more
      obtain rfl := Option.some.inj (first.symm.trans first')
      obtain rfl := Option.some.inj (second'.symm.trans second'')
      exact ⟨rfl,same⟩

theorem unambiguous_quoted : Unambiguous Quoted := by
  rintro _ a b rest rest' ⟨first⟩ ⟨second⟩
  exact unambiguous_chars first second

theorem unambiguous_digits {n : Nat} : Unambiguous (Digits n) := by
  intro input a b rest rest' first second
  induction first generalizing b with
  | stop after =>
    cases second with
    | stop => exact ⟨rfl,rfl⟩
    | next digit => cases digit.symm.trans after
  | next digit _ ih =>
    cases second with
    | stop after => cases digit.symm.trans after
    | next digit' more =>
      obtain rfl := Option.some.inj (digit.symm.trans digit')
      exact ih more

theorem unambiguous_whole : Unambiguous Whole := by
  intro input a b rest rest' first second
  cases first with
  | zero =>
    cases second with
    | zero => exact ⟨rfl,rfl⟩
    | digits digit leading => exact absurd (Option.some.inj digit).symm leading
  | digits digit leading more =>
    cases second with
    | zero => exact absurd (Option.some.inj digit).symm leading
    | digits digit' _ more' =>
      obtain rfl := Option.some.inj (digit.symm.trans digit')
      exact unambiguous_digits more more'

theorem Whole.head {input rest : Bytes} {n : Nat} (whole : Whole input n rest) :
    ∃ b tail d, input = b :: tail ∧ digit? b = some d := by
  cases whole with
  | zero => exact ⟨_,_,0,rfl,rfl⟩
  | digits digit => exact ⟨_,_,_,rfl,digit⟩

theorem unambiguous_numeral : Unambiguous Numeral := by
  intro input a b rest rest' first second
  cases first with
  | positive whole =>
    cases second with
    | positive whole' =>
      obtain ⟨rfl,same⟩ := unambiguous_whole whole whole'
      exact ⟨rfl,same⟩
    | negative =>
      obtain ⟨b,tail,d,here,digit⟩ := whole.head
      obtain ⟨rfl,-⟩ := List.cons.inj here
      cases digit
  | negative whole =>
    cases second with
    | positive whole' =>
      obtain ⟨b,tail,d,here,digit⟩ := whole'.head
      obtain ⟨rfl,-⟩ := List.cons.inj here
      cases digit
    | negative whole' =>
      obtain ⟨rfl,same⟩ := unambiguous_whole whole whole'
      exact ⟨rfl,same⟩

section Objects
variable {α : Type} {Value : Bytes → α → Bytes → Prop} (values : Unambiguous Value)
include values

theorem unambiguous_members : Unambiguous (Members Value) := by
  intro input a b rest rest' first second
  induction first generalizing b with
  | last named valued =>
    cases second with
    | last named' valued' =>
      obtain ⟨rfl,same⟩ := unambiguous_quoted named named'
      obtain ⟨-,rfl⟩ := List.cons.inj same
      obtain ⟨rfl,same⟩ := values valued valued'
      exact ⟨rfl,(List.cons.inj same).2⟩
    | more named' valued' =>
      obtain ⟨rfl,same⟩ := unambiguous_quoted named named'
      obtain ⟨-,rfl⟩ := List.cons.inj same
      cases (values valued valued').2
  | more named valued _ ih =>
    cases second with
    | last named' valued' =>
      obtain ⟨rfl,same⟩ := unambiguous_quoted named named'
      obtain ⟨-,rfl⟩ := List.cons.inj same
      cases (values valued valued').2
    | more named' valued' listed =>
      obtain ⟨rfl,same⟩ := unambiguous_quoted named named'
      obtain ⟨-,rfl⟩ := List.cons.inj same
      obtain ⟨rfl,same⟩ := values valued valued'
      obtain ⟨-,rfl⟩ := List.cons.inj same
      obtain ⟨rfl,same⟩ := ih listed
      exact ⟨rfl,same⟩

theorem unambiguous_braced : Unambiguous (Braced Value) := by
  intro input a b rest rest' first second
  cases first with
  | empty =>
    cases second with
    | empty => exact ⟨rfl,rfl⟩
    | filled listed => cases listed with
      | last named => cases named
      | more named => cases named
  | filled listed =>
    cases second with
    | empty => cases listed with
      | last named => cases named
      | more named => cases named
    | filled listed' => exact unambiguous_members values listed listed'

end Objects

theorem Numeral.head {input rest : Bytes} {n : Int} (numeral : Numeral input n rest) :
    ∃ b tail, input = b :: tail ∧ b ≠ 0x22 ∧ b ≠ 0x7b := by
  cases numeral with
  | positive whole =>
    obtain ⟨b,tail,d,rfl,digit⟩ := whole.head
    refine ⟨b,tail,rfl,?_,?_⟩
    all_goals
      rintro rfl
      cases digit
  | negative => exact ⟨_,_,rfl,by decide,by decide⟩

theorem unambiguous_written : Unambiguous Written := by
  intro input a b rest rest' first second
  cases first with
  | text quoted =>
    cases second with
    | text quoted' =>
      obtain ⟨rfl,same⟩ := unambiguous_quoted quoted quoted'
      exact ⟨rfl,same⟩
    | number numeral =>
      obtain ⟨b,tail,rfl,unquoted,-⟩ := numeral.head
      cases quoted
      exact absurd rfl unquoted
    | object braced =>
      cases quoted
      cases braced
  | number numeral =>
    obtain ⟨b,tail,rfl,unquoted,unbraced⟩ := numeral.head
    cases second with
    | text quoted =>
      cases quoted
      exact absurd rfl unquoted
    | number numeral' =>
      obtain ⟨rfl,same⟩ := unambiguous_numeral numeral numeral'
      exact ⟨rfl,same⟩
    | object braced =>
      cases braced with
      | empty => exact absurd rfl unbraced
      | filled => exact absurd rfl unbraced
  | object braced =>
    cases second with
    | text quoted =>
      cases quoted
      cases braced
    | number numeral =>
      obtain ⟨b,tail,rfl,-,unbraced⟩ := numeral.head
      cases braced with
      | empty => exact absurd rfl unbraced
      | filled => exact absurd rfl unbraced
    | object braced' =>
      obtain ⟨rfl,same⟩ := unambiguous_braced unambiguous_quoted braced braced'
      exact ⟨rfl,same⟩

/-- A line is read in one way at most. -/
theorem Reads.unique {line : Bytes} {members others : List (Bytes × Value)} (read : Reads line members)
    (again : Reads line others) : others = members :=
  (unambiguous_braced unambiguous_written again read).1

end SessionPipeline.Logging.Grammar
