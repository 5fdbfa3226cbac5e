import SessionPipeline.Json.Basic
import SessionPipeline.Wire.Hex

/-!
The compact text of a JSON value: no spaces, characters beyond ASCII as they are, control
characters by their short escape or as four hexadecimal digits.
-/
namespace SessionPipeline.Json

def escapeChar : Char → String
  | '"' => "\\\""
  | '\\' => "\\\\"
  | '\x08' => "\\b"
  | '\x0c' => "\\f"
  | '\n' => "\\n"
  | '\r' => "\\r"
  | '\t' => "\\t"
  | c =>
    if c.toNat < 0x20 then
      "\\u00" ++ String.ofList [Hex.digit (c.toNat / 16), Hex.digit (c.toNat % 16)]
    else String.singleton c

def quote (s : String) : String :=
  "\"" ++ s.toList.foldl (fun text c => text ++ escapeChar c) "" ++ "\""

def zeros (n : Nat) : String := "".pushn '0' n

/-- Positional between 1e-4 and 1e15, always with a point, else scientific with at least two digits
of exponent. -/
def floatText (bits : UInt64) : String :=
  let sign := if Binary64.negative bits then "-" else ""
  if !Binary64.finite bits then "null"
  else if bits &&& 0x7fffffffffffffff == 0 then sign ++ "0.0"
  else
    let (digits, k) := Binary64.digits bits
    let text := toString digits
    let length : Int := text.length
    let point := length + k
    sign ++
      if 0 ≤ k && point ≤ 15 then text ++ zeros k.toNat ++ ".0"
      else if 0 < point && point ≤ 15 then
        String.ofList (text.toList.take point.toNat) ++ "."
          ++ String.ofList (text.toList.drop point.toNat)
      else if -4 < point && point ≤ 0 then "0." ++ zeros (-point).toNat ++ text
      else
        let exponent := point - 1
        let size := toString exponent.natAbs
        String.ofList (text.toList.take 1)
          ++ (if text.length > 1 then "." ++ String.ofList (text.toList.drop 1) else "")
          ++ "e" ++ (if exponent < 0 then "-" else "+")
          ++ (if size.length < 2 then "0" ++ size else size)

mutual
def render : Json → String
  | null => "null"
  | bool b => if b then "true" else "false"
  | int n => toString n
  | float bits => floatText bits
  | str s => quote s
  | arr items => "[" ++ renderItems items ++ "]"
  | obj fields => "\x7b" ++ renderFields fields ++ "\x7d"
def renderItems : List Json → String
  | [] => ""
  | [item] => render item
  | item :: rest => render item ++ "," ++ renderItems rest
def renderFields : List (String × Json) → String
  | [] => ""
  | [(key, value)] => quote key ++ ":" ++ render value
  | (key, value) :: rest => quote key ++ ":" ++ render value ++ "," ++ renderFields rest
end

end SessionPipeline.Json
