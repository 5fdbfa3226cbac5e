import SessionPipeline.Logging.Pattern.Syntax
import SessionPipeline.Wire.Bytes

/-!
Matching a pattern against a whole text, by the set of places where each part may end. A repetition
goes on only while it makes progress, so the sets stay finite.
-/
namespace SessionPipeline.Logging.Pattern

structure Place where
  position : Nat
  groups : List (Nat × Nat × Nat) := []
  deriving DecidableEq, Repr

def Place.capture (p : Place) (index start : Nat) : Place :=
  { p with groups := (index, start, p.position) :: p.groups.filter (·.1 != index) }

def byteAt (text : Array UInt8) (holds : UInt8 → Bool) (p : Place) : List Place :=
  match text[p.position]? with
  | some b => if holds b then [{ p with position := p.position + 1 }] else []
  | none => []

def isWord (text : Array UInt8) (position : Nat) : Bool :=
  match text[position]? with
  | some b => ClassName.word.holds b
  | none => false

def onBoundary (text : Array UInt8) (position : Nat) : Bool :=
  (position != 0 && isWord text (position - 1)) != isWord text position

def distinct (places : List Place) : List Place :=
  places.foldl (fun found p => if found.contains p then found else p :: found) []

def round (step : Place → List Place) (places : List Place) : List Place :=
  distinct (places.flatMap step)

def rounds (step : Place → List Place) : Nat → List Place → List Place
  | 0, places => places
  | n + 1, places => rounds step n (round step places)

/-- The places reached by up to `n` rounds, each of which moves on. -/
def closure (step : Place → List Place) : Nat → List Place → List Place → List Place
  | 0, found, _ => found
  | n + 1, found, frontier =>
    let fresh := (distinct (frontier.flatMap fun p => (step p).filter (·.position > p.position))).filter
      fun p => !found.contains p
    if fresh.isEmpty then found else closure step n (fresh ++ found) fresh

/-- The places where a part may end that begins at `p`. -/
def ends (text : Array UInt8) : Node → Place → List Place
  | .empty, p => [p]
  | .byte b, p => byteAt text (· == b) p
  | .anyByte, p => byteAt text (fun b => b != 0x0a && b != 0x0d) p
  | .set negated items, p => byteAt text (fun b => (items.any (·.holds b)) != negated) p
  | .seq first second, p => distinct ((ends text first p).flatMap (ends text second))
  | .alt first second, p => distinct (ends text first p ++ ends text second p)
  | .repeated least extra body, p =>
    let required := rounds (ends text body) least [p]
    match extra with
    | none => closure (ends text body) (text.size + 1) required required
    | some extra => closure (ends text body) extra required required
  | .group index body, p => (ends text body p).map (·.capture index p.position)
  | .reference index, p =>
    match p.groups.lookup index with
    | none => []
    | some (start, stop) =>
      let length := stop - start
      if text.extract start stop == text.extract p.position (p.position + length)
          && p.position + length ≤ text.size then
        [{ p with position := p.position + length }]
      else []
  | .atStart, p => if p.position == 0 then [p] else []
  | .atEnd, p => if p.position == text.size then [p] else []
  | .wordBoundary negated, p => if onBoundary text p.position != negated then [p] else []

def matchesAll (node : Node) (text : Bytes) : Bool :=
  let text := text.toArray
  (ends text node ⟨0, []⟩).any (·.position == text.size)

end SessionPipeline.Logging.Pattern
