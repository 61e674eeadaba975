import ComponentLint.Number.Binary64

/-!
# Number text

How a double is written: the shortest decimal, positional while the decimal point stays close to the digits, and with an
exponent otherwise. Where the one form gives way to the other, and how an exponent looks, is a `NumberFormat`.
-/

namespace ComponentLint

/-- The decisions of a number format. -/
structure NumberFormat where
  /-- The point may stand this many places after the first digit in positional form. -/
  maxPoint : Int
  /-- The point may stand this far before the first digit in positional form. -/
  minPoint : Int
  /-- Whether a whole number keeps a `.0`. -/
  keepsPoint : Bool
  /-- The sign of a positive exponent. -/
  plus : String

namespace NumberFormat

/-- Numbers of scripts: positional up to 21 digits and down to 6 zeros after the point. -/
def script : NumberFormat := ⟨21, -6, false, "+"⟩

/-- Numbers of JSON texts: positional up to 16 digits and down to 5 places after the point. -/
def json : NumberFormat := ⟨16, -5, true, ""⟩

/-- The text of `digits` with the decimal point after `point` of them. -/
def place (format : NumberFormat) (digits : List Char) (point : Int) : List Char :=
  let count : Int := digits.length
  if count ≤ point && point ≤ format.maxPoint then
    digits ++ List.replicate (point - count).toNat '0' ++ (if format.keepsPoint then ['.', '0'] else [])
  else if 0 < point && point ≤ format.maxPoint then
    digits.take point.toNat ++ '.' :: digits.drop point.toNat
  else if format.minPoint < point && point ≤ 0 then
    '0' :: '.' :: List.replicate (-point).toNat '0' ++ digits
  else
    let power := point - 1
    let mark := if power < 0 then "-" else format.plus
    let fraction := digits.drop 1
    digits.take 1 ++ (if fraction.isEmpty then [] else '.' :: fraction) ++
      'e' :: mark.toList ++ Nat.toDigits 10 power.natAbs

/-- The text of a double without its sign. -/
def write (format : NumberFormat) (number : Binary64) : String :=
  if number.mantissa = 0 then (if format.keepsPoint then "0.0" else "0")
  else
    let decimal := number.shortest
    let digits := Nat.toDigits 10 decimal.digits
    String.ofList (format.place digits (digits.length + decimal.exponent))

end NumberFormat

end ComponentLint
