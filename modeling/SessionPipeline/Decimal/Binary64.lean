/-!
Decimal numbers and 64-bit binary floating point, both by exact arithmetic on natural numbers.
`ofDecimal` rounds to the nearest double, ties to even; `shortest` gives the fewest digits that
read back, and of those the nearest.
-/
namespace SessionPipeline.Binary64

def signBit : UInt64 := 0x8000000000000000

structure Ratio where
  num : Nat
  den : Nat

def scaled (m base : Nat) (e : Int) : Ratio :=
  if e ≥ 0 then ⟨m * base.pow e.toNat, 1⟩ else ⟨m, base.pow (-e).toNat⟩

/-- The quotient rounded to nearest, ties to even. -/
def roundDiv (num den : Nat) : Nat :=
  let quotient := num / den
  let twice := 2 * (num % den)
  if twice < den then quotient
  else if twice > den then quotient + 1
  else if quotient % 2 == 0 then quotient else quotient + 1

def roundAt (r : Ratio) (q : Int) : Nat :=
  if q ≥ 0 then roundDiv r.num (r.den <<< q.toNat) else roundDiv (r.num <<< (-q).toNat) r.den

/-- The bits of a significand at a binary exponent, `none` beyond the largest double. -/
def assemble (significand : Nat) (q : Int) : Option UInt64 :=
  if significand < 1 <<< 52 then some significand.toUInt64
  else
    let biased := (q + 1075).toNat
    if biased ≥ 2047 then none else some ((biased <<< 52) + (significand - (1 <<< 52))).toUInt64

def ofRatio (r : Ratio) : Option UInt64 :=
  let rough : Int := max (-1074) ((Nat.log2 r.num : Int) - Nat.log2 r.den - 53)
  let q := if roundAt r rough ≥ 1 <<< 53 then rough + 1 else rough
  let significand := roundAt r q
  if significand ≥ 1 <<< 53 then assemble (roundAt r (q + 1)) (q + 1) else assemble significand q

def decimalLength (n : Nat) : Nat := if n == 0 then 0 else (Nat.toDigits 10 n).length

/-- The double nearest to `m · 10 ^ e`; `none` when it would be infinite. -/
def ofDecimal (negative : Bool) (m : Nat) (e : Int) : Option UInt64 :=
  let sign := if negative then signBit else 0
  let top : Int := (decimalLength m : Int) + e
  if m == 0 || top < -400 then some sign
  else if top > 400 then none
  else (ofRatio (scaled m 10 e)).map (sign ||| ·)

def significand (bits : UInt64) : Nat :=
  let fraction := (bits &&& 0xfffffffffffff).toNat
  if (bits >>> 52) &&& 0x7ff == 0 then fraction else fraction + (1 <<< 52)

def exponent (bits : UInt64) : Int :=
  let biased := ((bits >>> 52) &&& 0x7ff).toNat
  (max biased 1 : Int) - 1075

def negative (bits : UInt64) : Bool := bits &&& signBit != 0

def truncate (bits : UInt64) : Int :=
  let q := exponent bits
  let magnitude : Nat :=
    if q ≥ 0 then significand bits <<< q.toNat else significand bits >>> (-q).toNat
  if negative bits then -(magnitude : Int) else magnitude

def finite (bits : UInt64) : Bool := (bits >>> 52) &&& 0x7ff != 0x7ff

/-- The exponent of the leading decimal digit of a positive ratio. -/
def magnitude (r : Ratio) : Int :=
  if r.num ≥ r.den then (decimalLength (r.num / r.den) : Int) - 1
  else -(decimalLength ((r.den - 1) / r.num) : Int)

def less (a b : Ratio) : Bool := a.num * b.den < b.num * a.den

def gap (a b : Ratio) : Ratio :=
  let x := a.num * b.den
  let y := b.num * a.den
  ⟨max x y - min x y, a.den * b.den⟩

/-- The ratios that read back as the double with these bits: between `low` and `high`, the ends
included when the significand is even. -/
def readsBack (bits : UInt64) (candidate : Ratio) : Bool :=
  let s := significand bits
  let q := exponent bits
  let high := scaled (2 * s + 1) 2 (q - 1)
  let low := if s == 1 <<< 52 && q > -1074 then scaled (4 * s - 1) 2 (q - 2)
    else scaled (2 * s - 1) 2 (q - 1)
  if s % 2 == 0 then !less candidate low && !less high candidate
  else less low candidate && less candidate high

/-- The value's neighbour on the grid of multiples of `10 ^ k` that reads back, the nearer of two. -/
def onGrid (bits : UInt64) (value : Ratio) (k : Int) : Option (Nat × Int) :=
  let below := if k ≥ 0 then value.num / (value.den * Nat.pow 10 k.toNat)
    else value.num * Nat.pow 10 (-k).toNat / value.den
  let lower := scaled below 10 k
  let upper := scaled (below + 1) 10 k
  match below != 0 && readsBack bits lower, readsBack bits upper with
  | true, true => if less (gap upper value) (gap lower value) then some (below + 1, k) else some (below, k)
  | true, false => some (below, k)
  | false, true => some (below + 1, k)
  | false, false => none

def shortest (bits : UInt64) : Nat × Int :=
  let value := scaled (significand bits) 2 (exponent bits)
  let top := magnitude value
  ((List.range 17).findSome? fun n => onGrid bits value (top - (n : Nat))).getD (0, 0)

/-- Drops trailing zeros, which a carry into the next decade leaves behind. -/
def trim : Nat → Nat × Int → Nat × Int
  | 0, d => d
  | fuel + 1, (digits, k) =>
    if digits != 0 && digits % 10 == 0 then trim fuel (digits / 10, k + 1) else (digits, k)

def digits (bits : UInt64) : Nat × Int := trim 17 (shortest bits)

end SessionPipeline.Binary64
