/-!
Calendar text of a moment, in universal time. Seconds and milliseconds are both truncated toward
zero, so before the epoch the milliseconds are negative.
-/
namespace SessionPipeline.Logging.Timestamp

structure Date where
  year : Int
  month : Nat
  day : Nat
  deriving DecidableEq, Repr

/-- The date of a day counted from the epoch, by eras of 400 years that begin in March. -/
def dateOfDay (day : Int) : Date :=
  let shifted := day + 719468
  let era := Int.fdiv shifted 146097
  let dayOfEra := (shifted - era * 146097).toNat
  let yearOfEra := (dayOfEra - dayOfEra / 1460 + dayOfEra / 36524 - dayOfEra / 146096) / 365
  let dayOfYear := dayOfEra - (365 * yearOfEra + yearOfEra / 4 - yearOfEra / 100)
  let shiftedMonth := (5 * dayOfYear + 2) / 153
  let day := dayOfYear - (153 * shiftedMonth + 2) / 5 + 1
  let month := if shiftedMonth < 10 then shiftedMonth + 3 else shiftedMonth - 9
  ⟨yearOfEra + era * 400 + (if month ≤ 2 then 1 else 0), month, day⟩

/-- At least `width` characters, filled with zeros on the left whatever the text begins with. -/
def fill (width : Nat) (text : String) : String := "".pushn '0' (width - text.length) ++ text

def two (n : Nat) : String := fill 2 (toString n)

def text (milliseconds : Int) : String :=
  let seconds := Int.tdiv milliseconds 1000
  let fraction := Int.tmod milliseconds 1000
  let day := Int.fdiv seconds 86400
  let within := (seconds - day * 86400).toNat
  let date := dateOfDay day
  toString date.year ++ "-" ++ two date.month ++ "-" ++ two date.day ++ " "
    ++ two (within / 3600) ++ ":" ++ two (within / 60 % 60) ++ ":" ++ two (within % 60)
    ++ "." ++ fill 3 (toString fraction)

end SessionPipeline.Logging.Timestamp
