import SessionPipeline.Failure
import SessionPipeline.Wire.Bytes
import SessionPipeline.Logging.Pattern.Syntax

/-!
Reads the text of a pattern. Quantifiers apply to atoms only, a brace must enclose counts, brackets
and parentheses must close, and a back-reference must follow the group it names; a text that breaks
one of these is refused as a whole.
-/
namespace SessionPipeline.Logging.Pattern

def stateLimit : Nat := 100000

/-- How many states a pattern takes; the end of each alternative is one. -/
def Node.weight : Node → Nat
  | .seq a b => a.weight + b.weight
  | .alt a b => a.weight + b.weight + 2
  | .repeated least extra body =>
    match extra with
    | some extra => (least + extra + 1) * body.weight + extra + 2
    | none => if least ≤ 1 then body.weight + 1 else (least + 2) * body.weight + 2
  | .group _ body => body.weight + 2
  | _ => 1

/-- What reading has met so far: groups opened, the ones still open, and whether to go on. -/
structure Groups where
  opened : Nat := 0
  unclosed : List Nat := []

abbrev Read (α : Type) := Option (α × Groups × Bytes)

def ascii (c : Char) : UInt8 := c.toNat.toUInt8

def isOneOf (chars : String) (b : UInt8) : Bool := chars.toList.any fun c => ascii c == b

def isSpecial (b : UInt8) : Bool := isOneOf "^$\\.*+?()[]\x7b\x7d|" b

def hexValue? (b : UInt8) : Option Nat :=
  if ClassName.isDigit b then some (b.toNat - 0x30)
  else if 0x61 ≤ b && b ≤ 0x66 then some (b.toNat - 0x57)
  else if 0x41 ≤ b && b ≤ 0x46 then some (b.toNat - 0x37)
  else none

def readHex : Nat → Nat → Bytes → Option (Nat × Bytes)
  | 0, value, rest => some (value, rest)
  | count + 1, value, b :: rest => do readHex count (value * 16 + (← hexValue? b)) rest
  | _ + 1, _, [] => none

def readNumber (rest : Bytes) : Option (Nat × Bytes) :=
  match rest.span ClassName.isDigit with
  | ([], _) => none
  | (digits, rest) => some (digits.foldl (fun n d => n * 10 + (d.toNat - 0x30)) 0, rest)

inductive Escape
  | byte (b : UInt8)
  | named (negated : Bool) (name : ClassName)
  | boundary (negated : Bool)
  | reference (index : Nat)

def controlEscape? (b : UInt8) : Option UInt8 :=
  [('0', 0x00), ('b', 0x08), ('f', 0x0c), ('n', 0x0a), ('r', 0x0d), ('t', 0x09), ('v', 0x0b)].findSome?
    fun (c, value) => if ascii c == b then some value else none

def classEscape? (b : UInt8) : Option Escape :=
  [('d', false, ClassName.digit), ('D', true, .digit), ('s', false, .space), ('S', true, .space),
   ('w', false, .word), ('W', true, .word)].findSome?
    fun (c, negated, name) => if ascii c == b then some (.named negated name) else none

/-- Reads after a backslash; inside brackets a `b` is a backspace. -/
def readEscape (bracketed : Bool) : Bytes → Option (Escape × Bytes)
  | [] => none
  | b :: rest =>
    match controlEscape? b with
    | some value =>
      if b == ascii 'b' && !bracketed then some (.boundary false, rest) else some (.byte value, rest)
    | none =>
      if b == ascii 'B' then some (.boundary true, rest)
      else match classEscape? b with
        | some escape => some (escape, rest)
        | none =>
          if b == ascii 'c' then
            match rest with
            | [] => none
            | control :: rest => some (.byte control, rest)
          else if b == ascii 'x' then (readHex 2 0 rest).map fun (n, rest) => (.byte n.toUInt8, rest)
          else if b == ascii 'u' then (readHex 4 0 rest).map fun (n, rest) => (.byte n.toUInt8, rest)
          else if ClassName.isDigit b then
            (readNumber (b :: rest)).map fun (n, rest) => (.reference n, rest)
          else some (.byte b, rest)

def characterNames : List String :=
  ["NUL", "SOH", "STX", "ETX", "EOT", "ENQ", "ACK", "alert", "backspace", "tab", "newline",
   "vertical-tab", "form-feed", "carriage-return", "SO", "SI", "DLE", "DC1", "DC2", "DC3", "DC4",
   "NAK", "SYN", "ETB", "CAN", "EM", "SUB", "ESC", "IS4", "IS3", "IS2", "IS1", "space",
   "exclamation-mark", "quotation-mark", "number-sign", "dollar-sign", "percent-sign", "ampersand",
   "apostrophe", "left-parenthesis", "right-parenthesis", "asterisk", "plus-sign", "comma",
   "hyphen", "period", "slash", "zero", "one", "two", "three", "four", "five", "six", "seven",
   "eight", "nine", "colon", "semicolon", "less-than-sign", "equals-sign", "greater-than-sign",
   "question-mark", "commercial-at", "A", "B", "C", "D", "E", "F", "G", "H", "I", "J", "K", "L",
   "M", "N", "O", "P", "Q", "R", "S", "T", "U", "V", "W", "X", "Y", "Z", "left-square-bracket",
   "backslash", "right-square-bracket", "circumflex", "underscore", "grave-accent", "a", "b", "c",
   "d", "e", "f", "g", "h", "i", "j", "k", "l", "m", "n", "o", "p", "q", "r", "s", "t", "u", "v",
   "w", "x", "y", "z", "left-curly-bracket", "vertical-line", "right-curly-bracket", "tilde", "DEL"]

def characterOf? (name : Bytes) : Option UInt8 :=
  (characterNames.findIdx? fun n => Bytes.ofString n == name).map Nat.toUInt8

def classOf? (name : Bytes) : Option ClassName :=
  (ClassName.table.find? fun (n, _) => Bytes.ofString n == name.map toLower).map (·.2)

/-- A name inside a bracket, up to its mark and a closing bracket. -/
def readName (mark : UInt8) (rest : Bytes) : Option (Bytes × Bytes) :=
  match rest.span (· != mark) with
  | (name, _ :: close :: rest) => if close == ascii ']' then some (name, rest) else none
  | _ => none

/-- The last thing read in a bracket, which a dash may turn into a range. -/
inductive Last
  | nothing
  | single (b : UInt8)
  | named

def Last.flush : Last → List SetItem → List SetItem
  | .single b, items => .byte b :: items
  | _, items => items

def readMember : Bytes → Option (Option UInt8 × Bytes)
  | [] => none
  | b :: rest =>
    if b == ascii ']' || b == ascii '-' then some (none, b :: rest)
    else if b == ascii '[' then
      match rest with
      | [] => none
      | mark :: _ =>
        if mark == ascii '.' || mark == ascii ':' || mark == ascii '=' then some (none, b :: rest)
        else some (some b, rest)
    else if b == ascii '\\' then
      match readEscape true rest with
      | none => none
      | some (.byte value, rest) => some (some value, rest)
      | some _ => some (none, b :: rest)
    else some (some b, rest)

/-- The content of a bracket up to its end. -/
def readSet : Nat → Last → List SetItem → Bytes → Option (List SetItem × Bytes)
  | 0, _, _, _ => none
  | fuel + 1, last, items, rest =>
    match readMember rest with
    | none => none
    | some (some b, rest) => readSet fuel (.single b) (last.flush items) rest
    | some (none, []) => none
    | some (none, b :: rest) =>
      if b == ascii ']' then some ((last.flush items).reverse, rest)
      else if b == ascii '-' then
        match rest with
        | close :: after =>
          if close == ascii ']' then some ((.byte b :: last.flush items).reverse, after)
          else match last with
            | .named => none
            | .nothing => readSet fuel (.single b) items rest
            | .single low =>
              match readMember rest with
              | some (some high, rest) =>
                if signed low > signed high then none
                else readSet fuel .nothing (.range low high :: items) rest
              | some (none, dash :: rest) =>
                if dash == ascii '-' && signed low ≤ signed b then
                  readSet fuel .nothing (.range low b :: items) rest
                else none
              | _ => none
        | [] => none
      else if b == ascii '[' then
        match rest with
        | [] => none
        | mark :: rest =>
          match readName mark rest with
          | none => none
          | some (name, rest) =>
            if mark == ascii ':' then
              match classOf? name with
              | some name => readSet fuel .named (.named name :: last.flush items) rest
              | none => none
            else match characterOf? name with
              | none => none
              | some b =>
                if mark == ascii '=' then readSet fuel .named (.likeLetter b :: last.flush items) rest
                else readSet fuel (.single b) (.byte b :: last.flush items) rest
      else
        match readEscape true rest with
        | some (.named negated name, rest) =>
          readSet fuel .named ((if negated then .notNamed name else .named name) :: last.flush items)
            rest
        | _ => none

def readCounts (rest : Bytes) : Option ((Nat × Option Nat) × Bytes) := do
  let (least, rest) ← readNumber rest
  match rest with
  | [] => none
  | b :: rest =>
    if b == ascii '\x7d' then some ((least, some 0), rest)
    else if b == ascii ',' then
      match rest with
      | [] => none
      | c :: after =>
        if c == ascii '\x7d' then some ((least, none), after)
        else do
          let (most, rest) ← readNumber rest
          if most < least then none
          else match rest with
            | d :: rest => if d == ascii '\x7d' then some ((least, some (most - least)), rest) else none
            | [] => none
    else none

def readQuantifiers : Nat → Node → Bytes → Option (Node × Bytes)
  | 0, _, _ => none
  | _ + 1, node, [] => some (node, [])
  | fuel + 1, node, b :: rest =>
    let apply (least : Nat) (extra : Option Nat) (rest : Bytes) : Option (Node × Bytes) :=
      let node := Node.repeated least extra node
      if node.weight > stateLimit then none else readQuantifiers fuel node rest
    if b == ascii '*' then apply 0 none rest
    else if b == ascii '+' then apply 1 none rest
    else if b == ascii '?' then apply 0 (some 1) rest
    else if b == ascii '\x7b' then
      match readCounts rest with
      | some ((least, extra), rest) => apply least extra rest
      | none => none
    else some (node, b :: rest)

inductive Start
  | assertion (node : Node) (rest : Bytes)
  | atom (node : Node) (rest : Bytes)
  | openGroup (rest : Bytes)
  | stop

def readStart (groups : Groups) : Bytes → Option Start
  | [] => some .stop
  | b :: rest =>
    if b == ascii '^' then some (.assertion .atStart rest)
    else if b == ascii '$' then some (.assertion .atEnd rest)
    else if b == ascii '.' then some (.atom .anyByte rest)
    else if b == ascii '(' then some (.openGroup rest)
    else if b == ascii '[' then
      let (negated, rest) := match rest with
        | c :: after => if c == ascii '^' then (true, after) else (false, rest)
        | [] => (false, rest)
      (readSet (rest.length + 1) .nothing [] rest).map fun (items, rest) =>
        .atom (.set negated items) rest
    else if b == ascii '\\' then
      match readEscape false rest with
      | none => none
      | some (.byte value, rest) => some (.atom (.byte value) rest)
      | some (.named negated name, rest) => some (.atom (.set negated [.named name]) rest)
      | some (.boundary negated, rest) => some (.assertion (.wordBoundary negated) rest)
      | some (.reference index, rest) =>
        if index == 0 || index > groups.opened || groups.unclosed.contains index then none
        else some (.atom (.reference index) rest)
    else if b == ascii ']' || b == ascii '\x7d' || !isSpecial b then some (.atom (.byte b) rest)
    else some .stop

mutual
/-- Alternatives up to the end of the text or of the enclosing group. -/
def readChoice : Nat → Groups → Bytes → Read Node
  | 0, _, _ => none
  | fuel + 1, groups, rest =>
    match readSequence fuel groups rest with
    | none => none
    | some (first, groups, b :: rest) =>
      if b == ascii '|' then
        match readChoice fuel groups rest with
        | some (second, groups, rest) => some (.alt first second, groups, rest)
        | none => none
      else some (first, groups, b :: rest)
    | some (first, groups, []) => some (first, groups, [])
def readSequence : Nat → Groups → Bytes → Read Node
  | 0, _, _ => none
  | fuel + 1, groups, rest =>
    match readTerm fuel groups rest with
    | none => none
    | some (none, groups, rest) => some (.empty, groups, rest)
    | some (some first, groups, rest) =>
      match readSequence fuel groups rest with
      | some (second, groups, rest) => some (.seq first second, groups, rest)
      | none => none
def readTerm : Nat → Groups → Bytes → Read (Option Node)
  | 0, _, _ => none
  | fuel + 1, groups, rest =>
    match readStart groups rest with
    | none => none
    | some .stop => some (none, groups, rest)
    | some (.assertion node rest) => some (some node, groups, rest)
    | some (.atom node rest) =>
      (readQuantifiers (rest.length + 1) node rest).map fun (node, rest) => (some node, groups, rest)
    | some (.openGroup rest) =>
      let index := groups.opened + 1
      match readChoice fuel ⟨index, index :: groups.unclosed⟩ rest with
      | some (body, inner, b :: rest) =>
        if b == ascii ')' then
          (readQuantifiers (rest.length + 1) (.group index body) rest).map fun (node, rest) =>
            (some node, ⟨inner.opened, groups.unclosed⟩, rest)
        else none
      | _ => none
end

def read (text : Bytes) : Except Failure Node :=
  match readChoice (3 * text.length + 3) {} text with
  -- A pattern is enclosed by two states and accepted by a third.
  | some (node, _, []) => if node.weight + 3 > stateLimit then .error .badPattern else .ok node
  | _ => .error .badPattern

end SessionPipeline.Logging.Pattern
