/-!
# Reading decimals

The binary64 number nearest to a decimal, ties to even, worked out on exact fractions. A decimal is
an integer times a power of ten.
-/

namespace ClassScript.Decimal

/-- The quotient rounded to the nearest integer, a tie to the even one. -/
def roundDiv (num den : Nat) : Nat :=
  let q := num / den
  let r := num % den
  if 2 * r > den ∨ (2 * r = den ∧ q % 2 = 1) then q + 1 else q

/-- The largest `l` with `2 ^ l ≤ num / den`, for positive arguments. -/
def binaryMagnitude (num den : Nat) : Int :=
  let e : Int := (num.log2 : Int) - (den.log2 : Int)
  let reached := if e ≥ 0 then den * Nat.pow 2 e.toNat ≤ num else den ≤ num * Nat.pow 2 (-e).toNat
  if reached then e else e - 1

/-- The bits of the binary64 number nearest to a positive fraction. -/
def nearestBits (num den : Nat) : UInt64 :=
  let q : Int := max (binaryMagnitude num den - 52) (-1074)
  let m := if q ≥ 0 then roundDiv num (den * Nat.pow 2 q.toNat) else roundDiv (num * Nat.pow 2 (-q).toNat) den
  let (m, q) := if m = Nat.pow 2 53 then (Nat.pow 2 52, q + 1) else (m, q)
  if m < Nat.pow 2 52 then UInt64.ofNat m
  else
    let field := (q + 1075).toNat
    if field ≥ 2047 then 0x7ff0000000000000 else UInt64.ofNat (field * Nat.pow 2 52 + (m - Nat.pow 2 52))

/-- The number of decimal digits, at least one. -/
def digitCount (n : Nat) : Nat := (Nat.toDigits 10 n).length

/-- The binary64 number nearest to `digits * 10 ^ exponent`. Outside of 400 powers of ten around
one it is zero or infinity, so no large power is ever formed. -/
def toFloat (digits : Nat) (exponent : Int) : Float :=
  let top := exponent + digitCount digits
  if digits = 0 ∨ top < -400 then Float.ofBits 0
  else if top > 400 then Float.ofBits 0x7ff0000000000000
  else if exponent ≥ 0 then Float.ofBits (nearestBits (digits * Nat.pow 10 exponent.toNat) 1)
  else Float.ofBits (nearestBits digits (Nat.pow 10 (-exponent).toNat))

end ClassScript.Decimal
