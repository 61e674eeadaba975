/-!
# Double precision numbers

A nonnegative double is `mantissa · 2 ^ exponent` with a mantissa below `2 ^ 53` and an exponent of at least `-1074`.
Reading a decimal rounds it to the nearest such number, a tie to the even mantissa. All arithmetic is exact.
-/

namespace ComponentLint

/-- A finite double without its sign. -/
structure Binary64 where
  mantissa : Nat
  exponent : Int
  deriving DecidableEq, Repr

/-- The decimal `digits · 10 ^ exponent`. -/
structure Decimal where
  digits : Nat
  exponent : Int
  deriving DecidableEq, Repr

/-- A quotient rounded to the nearest whole number, a tie to the even one. -/
def roundQuotient (num den : Nat) : Nat :=
  let quotient := num / den
  let rest := 2 * (num % den)
  if rest > den || (rest == den && quotient % 2 == 1) then quotient + 1 else quotient

/-- The fraction `num / den` that equals `digits · base ^ exponent`. -/
def fraction (digits base : Nat) (exponent : Int) : Nat × Nat :=
  if exponent ≥ 0 then (digits * base.pow exponent.toNat, 1) else (digits, base.pow (-exponent).toNat)

namespace Binary64

/-- Zero. -/
def zero : Binary64 := ⟨0, 0⟩

/-- The mantissa of `num / den` in units of `2 ^ exponent`, rounded. -/
def scaled (num den : Nat) (exponent : Int) : Nat :=
  if exponent ≥ 0 then roundQuotient num (den * Nat.pow 2 exponent.toNat)
  else roundQuotient (num * Nat.pow 2 (-exponent).toNat) den

/-- The least exponent from `exponent` on whose mantissa stays within 53 bits; two raises are enough. -/
def settle (num den : Nat) : Nat → Int → Binary64
  | 0, exponent => ⟨scaled num den exponent, exponent⟩
  | raises + 1, exponent =>
    if scaled num den exponent < Nat.pow 2 53 then ⟨scaled num den exponent, exponent⟩ else settle num den raises (exponent + 1)

/-- The double nearest to the fraction `num / den`, or `none` when it is too large. -/
def ofFraction? (num den : Nat) : Option Binary64 :=
  if num = 0 then some zero
  else
    let guess : Int := (Nat.log2 num : Int) - (Nat.log2 den : Int) - 53
    let number := settle num den 3 (max guess (-1074))
    if number.exponent > 971 then none else some number

/-- The double nearest to a decimal, or `none` when it is too large. -/
def ofDecimal? (decimal : Decimal) : Option Binary64 :=
  if decimal.digits = 0 then some zero
  else
    let magnitude : Int := decimal.exponent + (Nat.toDigits 10 decimal.digits).length
    if magnitude > 400 then none
    else if magnitude < -400 then some zero
    else
      let (num, den) := fraction decimal.digits 10 decimal.exponent
      ofFraction? num den

/-- The exact value as a fraction. -/
def toFraction (number : Binary64) : Nat × Nat :=
  fraction number.mantissa 2 number.exponent

/-- The double nearest to a power of ten, for exponents of at most 308. -/
def powerOfTen (exponent : Nat) : Binary64 :=
  (ofDecimal? ⟨1, exponent⟩).getD zero

/-- The double nearest to a product, or `none` when it is too large. -/
def times? (a b : Binary64) : Option Binary64 :=
  ofFraction? (a.toFraction.1 * b.toFraction.1) (a.toFraction.2 * b.toFraction.2)

/-- The double nearest to a quotient, or `none` when it is too large. -/
def over? (a b : Binary64) : Option Binary64 :=
  ofFraction? (a.toFraction.1 * b.toFraction.2) (a.toFraction.2 * b.toFraction.1)

/-- A double times a power of ten, rounded after each step: one step for an exponent within 308, and divisions by
`10 ^ 308`, at most `steps` of them, before it. -/
def scale? (exponent : Int) : Nat → Binary64 → Option Binary64
  | steps, number =>
    if number.mantissa = 0 then some zero
    else if exponent.natAbs ≤ 308 then
      if exponent ≥ 0 then number.times? (powerOfTen exponent.toNat) else number.over? (powerOfTen exponent.natAbs)
    else if exponent ≥ 0 then none
    else
      match steps with
      | 0 => some zero
      | steps + 1 => (number.over? (powerOfTen 308)).bind (scale? (exponent + 308) steps)

/-!
## Shortest decimals

The decimal that stands for a double is the one with the fewest digits that reads back as the double, and among those
the nearest to its exact value.
-/

/-- The greatest `power` of at most `fuel` more steps with `10 ^ power ≤ num / den`. -/
def decimalMagnitude (num den : Nat) : Nat → Int → Int
  | 0, power => power
  | fuel + 1, power =>
    let (a, b) := fraction 1 10 (power + 1)
    if a * den ≤ num * b then decimalMagnitude num den fuel (power + 1) else power

/-- The neighbours of `num / den` on the grid of multiples of `10 ^ power`, the nearer first. -/
def neighbours (num den : Nat) (power : Int) : List Decimal :=
  let (a, b) := fraction 1 10 power
  let below := num * b / (den * a)
  let rest := 2 * (num * b % (den * a))
  let lower : Decimal := ⟨below, power⟩
  let upper : Decimal := ⟨below + 1, power⟩
  if rest < den * a || (rest == den * a && below % 2 == 0) then [lower, upper] else [upper, lower]

/-- The first neighbour that reads back, over grids from `power` down. -/
def shortestFrom (number : Binary64) (num den : Nat) : Nat → Int → Decimal
  | 0, power => ⟨num, power⟩
  | fuel + 1, power =>
    match (neighbours num den power).find? fun decimal => decimal.digits != 0 && reads decimal with
    | some decimal => decimal
    | none => shortestFrom number num den fuel (power - 1)
where
  /-- A decimal reads back when the double nearest to it has the exact value at hand. -/
  reads (decimal : Decimal) : Bool :=
    match ofDecimal? decimal with
    | some found =>
      let (a, b) := found.toFraction
      let (c, d) := number.toFraction
      a * d == c * b
    | none => false

/-- A decimal without trailing zeros among its digits. -/
def stripZeros : Nat → Decimal → Decimal
  | 0, decimal => decimal
  | fuel + 1, decimal =>
    if decimal.digits != 0 && decimal.digits % 10 == 0 then stripZeros fuel ⟨decimal.digits / 10, decimal.exponent + 1⟩
    else decimal

/-- The shortest decimal that reads back as the number. -/
def shortest (number : Binary64) : Decimal :=
  if number.mantissa = 0 then ⟨0, 0⟩
  else
    let (num, den) := number.toFraction
    let magnitude := decimalMagnitude num den 700 (-350)
    stripZeros 400 (shortestFrom number num den 18 magnitude)

end Binary64

end ComponentLint
