/-!
# Writing decimals

A finite binary64 number is written with the fewest decimal digits that read back as the same
number, the nearest of these, and the upper one of two equally near. The digits are found by
searching the decimal grids from coarse to fine, on exact integers.
-/

namespace ClassScript.Decimal

/-- A finite magnitude `mantissa * 2 ^ exponent`. The reals that round to it reach two quarters of
the last place upwards and `below` quarters downwards, which is one quarter above a power of two. -/
structure Magnitude where
  mantissa : Nat
  exponent : Int
  below : Nat
deriving Repr, DecidableEq

/-- The magnitude of a finite number, from its bits without the sign. -/
def Magnitude.ofBits (bits : Nat) : Magnitude :=
  let field : Nat := bits / Nat.pow 2 52 % 2048
  let fraction := bits % Nat.pow 2 52
  if field = 0 then ⟨fraction, -1074, 2⟩
  else ⟨Nat.pow 2 52 + fraction, (field : Int) - 1075, if fraction = 0 ∧ field > 1 then 1 else 2⟩

/-- A magnitude, a quarter of its last place and the spacing of a decimal grid, as multiples of one
common fraction. -/
structure Scaled where
  value : Nat
  quarter : Nat
  unit : Nat

/-- The magnitude over the grid of step `10 ^ step`. -/
def Magnitude.scaled (v : Magnitude) (step : Int) : Scaled :=
  let two := Nat.pow 2 v.exponent.natAbs
  let ten := Nat.pow 10 step.natAbs
  let up := if v.exponent ≥ 0 then two else 1
  let down := if v.exponent ≥ 0 then 1 else two
  let (valueTen, unitTen) := if step ≥ 0 then (1, ten) else (ten, 1)
  ⟨4 * v.mantissa * up * valueTen, up * valueTen, 4 * down * unitTen⟩

/-- The grid point nearest to the magnitude among its two neighbours that round to it. -/
def Magnitude.onGrid (v : Magnitude) (step : Int) : Option Nat :=
  let s := v.scaled step
  let lowEnd := s.value - v.below * s.quarter
  let highEnd := s.value + 2 * s.quarter
  let inside (x : Nat) : Bool :=
    if v.mantissa % 2 = 0 then lowEnd ≤ x && x ≤ highEnd else lowEnd < x && x < highEnd
  let floor := s.value / s.unit
  let down := floor * s.unit
  let up := (floor + 1) * s.unit
  match inside down, inside up with
  | true, true => if s.value - down < up - s.value then some floor else some (floor + 1)
  | true, false => some floor
  | false, true => some (floor + 1)
  | false, false => none

/-- The first grid from `step` down that has a point for the magnitude, with that point. -/
def Magnitude.search (v : Magnitude) (step : Int) : Nat → Nat × Int
  | 0 => (v.scaled step |> fun s => s.value / s.unit, step)
  | k + 1 => match v.onGrid step with
    | some d => (d, step)
    | none => v.search (step - 1) k

/-- The largest `p` with `10 ^ p` at most the magnitude, near enough: at most one too large. -/
def Magnitude.decimalTop (v : Magnitude) : Int :=
  ((v.mantissa.log2 : Int) + v.exponent) * 30103 / 100000 + 1

/-- Digits and power of ten of the shortest decimal for a positive magnitude. -/
def Magnitude.shortest (v : Magnitude) : Nat × Int := v.search v.decimalTop 20

/-- The decimal without trailing zeros. -/
def trimZeros (digits : Nat) (exponent : Int) : Nat × Int :=
  match digits with
  | 0 => (0, 0)
  | d + 1 => if (d + 1) % 10 = 0 then trimZeros ((d + 1) / 10) (exponent + 1) else (d + 1, exponent)
termination_by digits
decreasing_by omega

/-- A decimal written out in full, without an exponent. -/
def positional (digits : Nat) (exponent : Int) : String :=
  let (digits, exponent) := trimZeros digits exponent
  let text := Nat.toDigits 10 digits
  if exponent ≥ 0 then String.ofList (text ++ List.replicate exponent.toNat '0')
  else
    let places := (-exponent).toNat
    if places < text.length then
      String.ofList (text.take (text.length - places) ++ '.' :: text.drop (text.length - places))
    else String.ofList ('0' :: '.' :: (List.replicate (places - text.length) '0' ++ text))

/-- The shortest decimal of a finite magnitude, written out in full. -/
def Magnitude.text (v : Magnitude) : String :=
  if v.mantissa = 0 then "0" else let (d, e) := v.shortest; positional d e

/-- How a float is named in a message: written out in full, `inf` and `NaN` besides. -/
def plain (x : Float) : String :=
  let bits := x.toBits.toNat
  let sign := if bits ≥ Nat.pow 2 63 then "-" else ""
  let rest := bits % Nat.pow 2 63
  if rest > 0x7ff0000000000000 then "NaN"
  else if rest = 0x7ff0000000000000 then sign ++ "inf"
  else sign ++ (Magnitude.ofBits rest).text

/-- The integer a magnitude equals, if it is whole. -/
def Magnitude.whole? (v : Magnitude) : Option Nat :=
  if v.exponent ≥ 0 then some (v.mantissa * Nat.pow 2 v.exponent.toNat)
  else
    let den := Nat.pow 2 (-v.exponent).toNat
    if v.mantissa % den = 0 then some (v.mantissa / den) else none

/-- How a float is spelled in the emitted program: whole numbers below `10 ^ 15` keep one place,
the rest is written out in full. -/
def literal (x : Float) : String :=
  let bits := x.toBits.toNat
  let sign := if bits ≥ Nat.pow 2 63 then "-" else ""
  let rest := bits % Nat.pow 2 63
  if rest > 0x7ff0000000000000 then "NaN"
  else if rest = 0x7ff0000000000000 then sign ++ "Infinity"
  else
    let v := Magnitude.ofBits rest
    match v.whole? with
    | some n => if n < Nat.pow 10 15 then sign ++ toString n ++ ".0" else sign ++ v.text
    | none => sign ++ v.text

end ClassScript.Decimal
