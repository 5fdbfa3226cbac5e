import Mathlib.Data.List.Basic
import Mathlib.Tactic.SplitIfs
import SessionPipeline.Logging.Registry

/-!
What the rules of a registry admit. A glob of bytes that mean nothing to a pattern is read as one
node a byte, and a name is admitted if it can be cut into pieces, each as the byte of the glob has it.
-/
namespace SessionPipeline.Logging
open Pattern

/-- The texts that a byte of a glob stands for, where `wild` tells what the wildcards take. -/
def Stands (wild : UInt8 → Prop) (b : UInt8) (text : Bytes) : Prop :=
  if b = ascii '*' then ∀ c ∈ text, wild c
  else if b = ascii '?' then ∃ c, wild c ∧ text = [c]
  else text = [b]

/-- Names that are made of one text for each byte of a glob. -/
inductive Covers (wild : UInt8 → Prop) : Bytes → Bytes → Prop
  | done : Covers wild [] []
  | more {glob front name : Bytes} {b : UInt8} : Stands wild b front → Covers wild glob name →
      Covers wild (b :: glob) (front ++ name)

/-- Bytes within a line; no others are what a dot of a pattern stands for. -/
def Inline (b : UInt8) : Prop := b ≠ 0x0a ∧ b ≠ 0x0d

/-- Bytes that say nothing but themselves in a pattern, or are rewritten when a glob becomes one. -/
def Plain (b : UInt8) : Prop := isOneOf "^$\\+()[\x7b|" b = false

instance : DecidablePred Plain := fun b => inferInstanceAs (Decidable (isOneOf _ b = false))

theorem Plain.ne {b c : UInt8} (plain : Plain b) (special : ¬ Plain c) : b ≠ c :=
  fun same => special (same ▸ plain)

theorem Stands.mono {wild wider : UInt8 → Prop} {b : UInt8} {text : Bytes} (stands : Stands wild b text)
    (wide : ∀ c ∈ text, wild c → wider c) : Stands wider b text := by
  unfold Stands at *
  split_ifs at *
  · exact fun c member => wide c member (stands c member)
  · obtain ⟨c,within,rfl⟩ := stands
    exact ⟨c,wide c List.mem_cons_self within,rfl⟩
  · exact stands

theorem Covers.mono {wild wider : UInt8 → Prop} {glob name : Bytes} (covers : Covers wild glob name)
    (wide : ∀ b ∈ name, wild b → wider b) : Covers wider glob name := by
  induction covers with
  | done => exact .done
  | more stands _ ih =>
    rw [List.forall_mem_append] at wide
    exact .more (stands.mono wide.1) (ih wide.2)

theorem Covers.itself {wild : UInt8 → Prop} {glob : Bytes}
    (literal : ∀ b ∈ glob, b ≠ ascii '*' ∧ b ≠ ascii '?') : Covers wild glob glob := by
  induction glob with
  | nil => exact .done
  | cons b glob ih =>
    obtain ⟨⟨noStar,noQuestion⟩,later⟩ := List.forall_mem_cons.mp literal
    have own : Stands wild b [b] := by simp [Stands,noStar,noQuestion]
    exact .more own (ih later)

namespace Pattern

/-! ### Reading -/

/-- The node that a byte of a glob becomes. -/
def atom (b : UInt8) : Node :=
  if b = ascii '*' then .repeated 0 none .anyByte
  else if b = ascii '?' then .anyByte
  else .byte b

def compiled : Bytes → Node
  | [] => .empty
  | b :: glob => .seq (atom b) (compiled glob)

theorem weight_compiled (glob : Bytes) :
    (compiled glob).weight = glob.length + glob.count (ascii '*') + 1 := by
  induction glob with
  | nil => rfl
  | cons b glob ih =>
    have own : (atom b).weight = 1 + if b = ascii '*' then 1 else 0 := by
      unfold atom
      split
      · simp [Node.weight]
      · split <;> rfl
    rw [compiled,Node.weight,own,ih,List.length_cons,List.count_cons]
    simp only [beq_iff_eq]
    omega

/-- What a byte of a glob becomes begins with no mark that would repeat what is before it. -/
theorem expandByte_front {b : UInt8} (plain : Plain b) :
    ∃ c rest, Glob.expandByte b = c :: rest ∧
      c ≠ ascii '*' ∧ c ≠ ascii '+' ∧ c ≠ ascii '?' ∧ c ≠ ascii '\x7b' := by
  unfold Glob.expandByte
  split_ifs with star question dot
  · exact ⟨ascii '.',[ascii '*'],rfl,by decide⟩
  · exact ⟨ascii '.',[],rfl,by decide⟩
  · exact ⟨ascii '\\',[ascii '.'],rfl,by decide⟩
  · rw [beq_iff_eq] at star question
    exact ⟨b,[],rfl,star,plain.ne (by decide),question,plain.ne (by decide)⟩

theorem length_expand {glob : Bytes} (plain : ∀ b ∈ glob, Plain b) :
    glob.length ≤ (Glob.expand glob).length := by
  induction glob with
  | nil => exact Nat.zero_le _
  | cons b glob ih =>
    obtain ⟨here,later⟩ := List.forall_mem_cons.mp plain
    obtain ⟨c,rest,split,-⟩ := expandByte_front here
    have longer : (Glob.expand (b :: glob)).length = rest.length + 1 + (Glob.expand glob).length := by
      rw [Glob.expand,List.flatMap_cons,split,List.length_append,List.length_cons,Glob.expand]
    rw [longer,List.length_cons]
    have := ih later
    omega

theorem readQuantifiers_expand {glob : Bytes} (plain : ∀ b ∈ glob, Plain b) (fuel : Nat) (node : Node) :
    readQuantifiers (fuel + 1) node (Glob.expand glob) = some (node,Glob.expand glob) := by
  cases glob with
  | nil => rfl
  | cons b glob =>
    obtain ⟨c,rest,split,noStar,noPlus,noQuestion,noBrace⟩ := expandByte_front (plain b List.mem_cons_self)
    rw [Glob.expand,List.flatMap_cons,split,List.cons_append]
    simp [readQuantifiers,noStar,noPlus,noQuestion,noBrace]

theorem readStart_expandByte {b : UInt8} (plain : Plain b) (noStar : b ≠ ascii '*') (groups : Groups)
    (rest : Bytes) : readStart groups (Glob.expandByte b ++ rest) = some (.atom (atom b) rest) := by
  by_cases question : b = ascii '?'
  · subst question
    rfl
  by_cases dot : b = ascii '.'
  · subst dot
    rfl
  have own : Glob.expandByte b = [b] := by simp [Glob.expandByte,noStar,question,dot]
  have literal : (b = ascii ']' ∨ b = ascii '\x7d') ∨ isSpecial b = false := by
    simp [Plain,isOneOf,isSpecial] at plain ⊢
    grind
  have start : b ≠ ascii '^' := plain.ne (by decide)
  have stop : b ≠ ascii '$' := plain.ne (by decide)
  have group : b ≠ ascii '(' := plain.ne (by decide)
  have bracket : b ≠ ascii '[' := plain.ne (by decide)
  have escape : b ≠ ascii '\\' := plain.ne (by decide)
  simp [own,readStart,atom,noStar,question,dot,start,stop,group,bracket,escape,literal]

theorem readTerm_expand {b : UInt8} {glob : Bytes} (plain : ∀ c ∈ b :: glob, Plain c) (fuel : Nat)
    (groups : Groups) :
    readTerm (fuel + 1) groups (Glob.expand (b :: glob)) = some (some (atom b),groups,Glob.expand glob) := by
  obtain ⟨here,later⟩ := List.forall_mem_cons.mp plain
  have on (fuel : Nat) (node : Node) := readQuantifiers_expand later fuel node
  by_cases star : b = ascii '*'
  · subst star
    have start : readStart groups (Glob.expand (ascii '*' :: glob))
        = some (.atom .anyByte (ascii '*' :: Glob.expand glob)) := rfl
    have light : ¬ (Node.repeated 0 none .anyByte).weight > stateLimit := by decide
    simp only [readTerm,start,List.length_cons]
    rw [readQuantifiers]
    simp only [beq_self_eq_true,if_true,if_neg light,on]
    rfl
  · have start : readStart groups (Glob.expand (b :: glob)) = some (.atom (atom b) (Glob.expand glob)) :=
      readStart_expandByte here star groups (Glob.expand glob)
    simp only [readTerm,start,on]
    rfl

theorem readSequence_expand {glob : Bytes} (plain : ∀ b ∈ glob, Plain b) {fuel : Nat}
    (enough : glob.length + 2 ≤ fuel) (groups : Groups) :
    readSequence fuel groups (Glob.expand glob) = some (compiled glob,groups,[]) := by
  induction glob generalizing fuel with
  | nil =>
    obtain ⟨fuel,rfl⟩ := Nat.exists_eq_add_of_le' enough
    rfl
  | cons b glob ih =>
    rw [List.length_cons] at enough
    obtain ⟨fuel,rfl⟩ := Nat.exists_eq_add_of_le' (Nat.le_trans (Nat.le_add_left 2 _) enough)
    have later := ih (List.forall_mem_cons.mp plain).2 (show glob.length + 2 ≤ fuel + 1 by omega)
    rw [readSequence,readTerm_expand plain]
    simp only [later]
    rfl

theorem readChoice_expand {glob : Bytes} (plain : ∀ b ∈ glob, Plain b) {fuel : Nat}
    (enough : glob.length + 3 ≤ fuel) (groups : Groups) :
    readChoice fuel groups (Glob.expand glob) = some (compiled glob,groups,[]) := by
  obtain ⟨fuel,rfl⟩ := Nat.exists_eq_add_of_le' (Nat.le_trans (Nat.le_add_left 1 _) enough)
  rw [readChoice,readSequence_expand plain (by omega)]

theorem read_expand {glob : Bytes} (plain : ∀ b ∈ glob, Plain b) :
    read (Glob.expand glob)
      = if glob.length + glob.count (ascii '*') + 4 ≤ stateLimit then .ok (compiled glob)
        else .error .badPattern := by
  have long := length_expand plain
  rw [read,readChoice_expand plain (by omega)]
  simp only [weight_compiled]
  split <;> split <;> first | rfl | omega

/-! ### Matching -/

/-- From `p` on the text goes on with `front`, and behind it is `q`. -/
def Leads (text : Bytes) (p : Place) (front : Bytes) (q : Place) : Prop :=
  front <+: text.drop p.position ∧ q = { p with position := p.position + front.length }

theorem leads_nil {text : Bytes} {p q : Place} : Leads text p [] q ↔ q = p :=
  ⟨fun leads => leads.2,fun same => ⟨List.nil_prefix,same⟩⟩

theorem leads_cons {text front : Bytes} {b : UInt8} {p q : Place} :
    Leads text p (b :: front) q ↔
      text[p.position]? = some b ∧ Leads text { p with position := p.position + 1 } front q := by
  have next : (text.drop p.position).tail = text.drop (p.position + 1) := List.tail_drop
  have here : (text.drop p.position).head? = text[p.position]? := List.head?_drop
  unfold Leads
  rw [← next,← here,List.length_cons,Nat.add_assoc,Nat.add_comm 1]
  cases text.drop p.position with
  | nil => simp
  | cons c rest =>
    simp only [List.cons_prefix_cons,List.head?_cons,List.tail_cons,Option.some.injEq]
    rw [and_assoc,eq_comm]

theorem leads_append {text front more : Bytes} {p q : Place} :
    Leads text p (front ++ more) q ↔ ∃ mid, Leads text p front mid ∧ Leads text mid more q := by
  induction front generalizing p with
  | nil => simp [leads_nil]
  | cons b front ih =>
    rw [List.cons_append,leads_cons,ih]
    simp only [leads_cons,and_assoc,exists_and_left]

theorem mem_distinct {places : List Place} {p : Place} : p ∈ distinct places ↔ p ∈ places := by
  have gathered (found : List Place) :
      p ∈ places.foldl (fun found p => if found.contains p then found else p :: found) found
        ↔ p ∈ found ∨ p ∈ places := by
    induction places generalizing found with
    | nil => simp
    | cons q places ih =>
      rw [List.foldl_cons,ih]
      split
      · rename_i known
        have here : p = q → p ∈ found := fun same => same ▸ List.contains_iff_mem.mp known
        rw [List.mem_cons]
        tauto
      · simp only [List.mem_cons]
        tauto
  rw [distinct,gathered]
  simp

theorem byteAt_of_holds {text : Bytes} {holds : UInt8 → Bool} {p : Place} {b : UInt8}
    (here : text[p.position]? = some b) (held : holds b) :
    byteAt text.toArray holds p = [{ p with position := p.position + 1 }] := by
  simp [byteAt,here,held]

theorem byteAt_of_not_holds {text : Bytes} {holds : UInt8 → Bool} {p : Place}
    (fails : ∀ b, text[p.position]? = some b → ¬ holds b) : byteAt text.toArray holds p = [] := by
  rw [byteAt,List.getElem?_toArray]
  split
  · rename_i b here
    exact if_neg (fails b here)
  · rfl

theorem mem_byteAt {text : Bytes} {holds : UInt8 → Bool} {p q : Place} :
    q ∈ byteAt text.toArray holds p ↔ ∃ b, holds b ∧ Leads text p [b] q := by
  simp only [leads_cons,leads_nil]
  constructor
  · intro found
    rw [byteAt,List.getElem?_toArray] at found
    split at found
    · rename_i b here
      split at found
      · rename_i held
        exact ⟨b,held,here,List.mem_singleton.mp found⟩
      · simp at found
    · simp at found
  · rintro ⟨b,held,here,rfl⟩
    rw [byteAt_of_holds here held]
    exact List.mem_singleton_self _

/-- A run of bytes is found round by round, each of which goes on from one place only. -/
theorem mem_closure {text : Bytes} {holds : UInt8 → Bool} {n : Nat} {found : List Place} {p q : Place}
    (behind : ∀ x ∈ found, x.position ≤ p.position) :
    q ∈ closure (byteAt text.toArray holds) n found [p]
      ↔ q ∈ found ∨
        ∃ front, front ≠ [] ∧ front.length ≤ n ∧ (∀ b ∈ front, holds b) ∧ Leads text p front q := by
  induction n generalizing found p with
  | zero => simp [closure]
  | succ n ih =>
    by_cases goes : ∃ b, text[p.position]? = some b ∧ holds b
    · obtain ⟨b,here,held⟩ := goes
      let next : Place := { p with position := p.position + 1 }
      have new : next ∉ found := fun known => absurd (behind next known) (Nat.not_succ_le_self _)
      have fresh : closure (byteAt text.toArray holds) (n + 1) found [p]
          = closure (byteAt text.toArray holds) n (next :: found) [next] := by
        simp [closure,byteAt_of_holds here held,distinct,next,new]
      have later : ∀ x ∈ next :: found, x.position ≤ next.position := by
        rw [List.forall_mem_cons]
        exact ⟨Nat.le_refl _,fun x known => Nat.le_succ_of_le (behind x known)⟩
      rw [fresh,ih later,List.mem_cons]
      constructor
      · rintro ((rfl | known) | ⟨front,some,short,all,leads⟩)
        · exact .inr ⟨[b],by simp,by simp,by simpa using held,leads_cons.mpr ⟨here,leads_nil.mpr rfl⟩⟩
        · exact .inl known
        · refine .inr ⟨b :: front,by simp,?_,?_,leads_cons.mpr ⟨here,leads⟩⟩
          · exact Nat.succ_le_succ short
          · exact List.forall_mem_cons.mpr ⟨held,all⟩
      · rintro (known | ⟨front,some,short,all,leads⟩)
        · exact .inl (.inr known)
        · cases front with
          | nil => exact absurd rfl some
          | cons c front =>
            obtain ⟨-,leads⟩ := leads_cons.mp leads
            cases front with
            | nil => exact .inl (.inl (leads_nil.mp leads))
            | cons d front =>
              exact .inr ⟨d :: front,by simp,Nat.le_of_succ_le_succ short,
                (List.forall_mem_cons.mp all).2,leads⟩
    · have stuck : byteAt text.toArray holds p = [] :=
        byteAt_of_not_holds fun b here held => goes ⟨b,here,held⟩
      have stays : closure (byteAt text.toArray holds) (n + 1) found [p] = found := by
        simp [closure,stuck,distinct]
      rw [stays]
      refine ⟨.inl,?_⟩
      rintro (known | ⟨front,some,-,all,leads⟩)
      · exact known
      · cases front with
        | nil => exact absurd rfl some
        | cons b front =>
          exact absurd ⟨b,(leads_cons.mp leads).1,(List.forall_mem_cons.mp all).1⟩ goes

theorem mem_ends_atom {text : Bytes} {b : UInt8} {p q : Place} :
    q ∈ ends text.toArray (atom b) p ↔ ∃ front, Stands Inline b front ∧ Leads text p front q := by
  have inline (c : UInt8) : (c != 0x0a && c != 0x0d) ↔ Inline c := by simp [Inline]
  unfold atom Stands
  split
  · rw [ends,rounds]
    simp only [ends]
    rw [mem_closure (by simp)]
    simp only [List.mem_singleton,inline]
    constructor
    · rintro (rfl | ⟨front,-,-,all,leads⟩)
      · exact ⟨[],by simp,leads_nil.mpr rfl⟩
      · exact ⟨front,all,leads⟩
    · rintro ⟨front,all,leads⟩
      cases front with
      | nil => exact .inl (leads_nil.mp leads)
      | cons c front =>
        have fits := leads.1.length_le
        rw [List.length_drop] at fits
        exact .inr ⟨c :: front,by simp,by simp only [List.size_toArray]; omega,all,leads⟩
  · split
    · simp only [ends,mem_byteAt,inline]
      constructor
      · rintro ⟨c,within,leads⟩
        exact ⟨[c],⟨c,within,rfl⟩,leads⟩
      · rintro ⟨_,⟨c,within,rfl⟩,leads⟩
        exact ⟨c,within,leads⟩
    · simp [ends,mem_byteAt]

theorem mem_ends_compiled {text glob : Bytes} {p q : Place} :
    q ∈ ends text.toArray (compiled glob) p ↔ ∃ front, Covers Inline glob front ∧ Leads text p front q := by
  induction glob generalizing p with
  | nil =>
    rw [compiled,ends,List.mem_singleton]
    constructor
    · rintro rfl
      exact ⟨[],.done,leads_nil.mpr rfl⟩
    · rintro ⟨front,⟨⟩,leads⟩
      exact leads_nil.mp leads
  | cons b glob ih =>
    simp only [compiled,ends,mem_distinct,List.mem_flatMap,mem_ends_atom,ih]
    constructor
    · rintro ⟨mid,⟨front,stands,first⟩,rest,covers,second⟩
      exact ⟨front ++ rest,.more stands covers,leads_append.mpr ⟨mid,first,second⟩⟩
    · rintro ⟨_,covers,leads⟩
      cases covers with
      | more stands covers =>
        obtain ⟨mid,first,second⟩ := leads_append.mp leads
        exact ⟨mid,⟨_,stands,first⟩,_,covers,second⟩

theorem matchesAll_compiled {glob name : Bytes} :
    matchesAll (compiled glob) name ↔ Covers Inline glob name := by
  simp only [matchesAll,List.any_eq_true,beq_iff_eq,mem_ends_compiled,List.size_toArray]
  constructor
  · rintro ⟨_,⟨front,covers,begins,rfl⟩,whole⟩
    have same : front = name := begins.eq_of_length (by simpa using whole)
    exact same ▸ covers
  · intro covers
    exact ⟨⟨name.length,[]⟩,⟨name,covers,List.prefix_refl _,by simp⟩,rfl⟩

/-- The other nine do not stand for themselves. -/
theorem plain_iff (b : UInt8) :
    Plain b ↔ ∃ node, read (Glob.expand [b]) = .ok node ∧
      ∀ name, matchesAll node name ↔ Covers Inline [b] name := by
  constructor
  · intro plain
    have whole := read_expand (List.forall_mem_singleton.mpr plain)
    have short : [b].length + [b].count (ascii '*') + 4 ≤ stateLimit := by
      have few : [b].count (ascii '*') ≤ 1 := List.count_le_length
      simp only [List.length_singleton,stateLimit]
      omega
    rw [if_pos short] at whole
    exact ⟨_,whole,fun name => matchesAll_compiled⟩
  · rintro ⟨node,accepted,same⟩
    by_contra special
    have all : ∀ k : Fin 256, let b := UInt8.ofNat k
        ¬ Plain b → b ≠ ascii '*' ∧ b ≠ ascii '?' ∧
          (read (Glob.expand [b])).toOption.all fun node => !matchesAll node [b] := by
      decide +kernel
    have refused := all ⟨b.toNat,b.toNat_lt⟩
    simp only [UInt8.ofNat_toNat] at refused
    obtain ⟨noStar,noQuestion,fails⟩ := refused special
    have itself : Covers Inline [b] [b] := .itself (List.forall_mem_singleton.mpr ⟨noStar,noQuestion⟩)
    rw [accepted] at fails
    have unmatched : (!matchesAll node [b]) = true := fails
    rw [(same [b]).mpr itself] at unmatched
    exact Bool.noConfusion unmatched

end Pattern

namespace Registry

/-- What a glob says, if none of its bytes says more in a pattern than for itself. It is refused only
if it is too long, and its wildcards do not go beyond the end of a line. -/
theorem setPattern_covers (r : Registry) (glob : Bytes) (level : Level) (plain : ∀ b ∈ glob, Plain b) :
    (glob.length + glob.count (ascii '*') + 4 ≤ stateLimit →
      ∃ s rule, r.setPattern glob level = .ok s ∧ s.rules = rule :: r.rules ∧ rule.level = level ∧
        ∀ name, (rule.glob.admits name ↔ Covers Inline glob name) ∧
          ((∀ b ∈ name, Inline b) → (rule.glob.admits name ↔ Covers (fun _ => True) glob name)) ∧
          s.effectiveLevel name = if rule.glob.admits name then level else r.effectiveLevel name) ∧
    (stateLimit < glob.length + glob.count (ascii '*') + 4 →
      r.setPattern glob level = .error .badPattern) := by
  have reading := read_expand plain
  constructor
  · intro fits
    rw [if_pos fits] at reading
    let rule : Rule := ⟨⟨glob,compiled glob⟩,level⟩
    refine ⟨refresh { r with rules := rule :: r.rules },rule,?_,rfl,rfl,fun name => ?_⟩
    · rw [setPattern,Glob.read,reading]
      rfl
    have covered : rule.glob.admits name ↔ Covers Inline glob name := matchesAll_compiled
    refine ⟨covered,fun inline => covered.trans ⟨?_,?_⟩,?_⟩
    · exact fun covers => covers.mono fun b _ _ => trivial
    · exact fun covers => covers.mono fun b member _ => inline b member
    · simp only [effectiveLevel,refresh,List.find?_cons]
      cases rule.glob.admits name <;> rfl
  · intro long
    rw [if_neg (Nat.not_le.mpr long)] at reading
    rw [setPattern,Glob.read,reading]
    rfl

theorem setPattern_covers_chain :
    let glob := Bytes.ofString "Chain.?ilter*"
    ∃ s, initial.setPattern glob .debug = .ok s ∧
      s.effectiveLevel (Bytes.ofString "Chain.filter_chain") = .debug ∧
      s.effectiveLevel (Bytes.ofString "Chainxfilter") = .info ∧
      s.effectiveLevel (Bytes.ofString "Chain.filter\n") = .info ∧
      s.effectiveLevel (Bytes.ofString "Chain." ++ 0xff :: Bytes.ofString "ilter") = .debug := by
  intro glob
  obtain ⟨s,rule,accepted,-,-,meant⟩ :=
    (setPattern_covers initial glob .debug (by decide +kernel)).1 (by decide +kernel)
  have level (name : Bytes) : s.effectiveLevel name
      = if matchesAll (compiled glob) name then .debug else initial.effectiveLevel name := by
    rw [(meant name).2.2,Bool.eq_iff_iff.mpr ((meant name).1.trans matchesAll_compiled.symm)]
  refine ⟨s,accepted,?_,?_,?_,?_⟩
  all_goals
    rw [level]
    decide +kernel

/-- A plus repeats the byte before it, and a parenthesis is refused. -/
theorem plus_uncovered :
    let sum := Bytes.ofString "a+b"
    Covers (fun _ => True) sum sum ∧
      (∃ s, initial.setPattern sum .debug = .ok s ∧ s.effectiveLevel sum = .info ∧
        s.effectiveLevel (Bytes.ofString "aab") = .debug) ∧
      initial.setPattern (Bytes.ofString "(") .debug = .error .badPattern := by
  refine ⟨.itself (by decide +kernel),⟨_,rfl,?_,?_⟩,rfl⟩
  · decide +kernel
  · decide +kernel

end Registry
end SessionPipeline.Logging
