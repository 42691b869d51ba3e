/-!
Rounding as in double-precision arithmetic: every operation gives the nearest number with 53
significant binary digits, and of two nearest the one whose last digit is even. Exponents are not
bounded here; `hasPercent` says whether a share stays below the limit of the format.
-/

namespace EnvFill.Number

/-- The quotient rounded to the nearest whole number, a half to the even neighbour. -/
def roundHalfEven (num den : Nat) : Nat :=
  let quotient := num / den
  let remainder := num % den
  if 2 * remainder < den then quotient
  else if den < 2 * remainder then quotient + 1
  else if quotient % 2 = 0 then quotient
  else quotient + 1

structure Fraction where
  num : Nat
  den : Nat
  deriving DecidableEq, Repr

namespace Fraction

/-- The exponent of the greatest power of two that the fraction reaches. -/
def binaryExponent (q : Fraction) : Int :=
  let exponent : Int := (q.num.log2 : Int) - q.den.log2
  if q.den <<< exponent.toNat ≤ q.num <<< (-exponent).toNat then exponent else exponent - 1

/-- The nearest fraction with 53 significant binary digits. -/
def toBinary64 (q : Fraction) : Fraction :=
  if q.num = 0 then ⟨0, 1⟩
  else
    let shift := 52 - q.binaryExponent
    ⟨roundHalfEven (q.num <<< shift.toNat) (q.den <<< (-shift).toNat) <<< (-shift).toNat,
      1 <<< shift.toNat⟩

def scale (q : Fraction) (factor : Nat) : Fraction :=
  let other := toBinary64 ⟨factor, 1⟩
  toBinary64 ⟨q.num * other.num, q.den * other.den⟩

def isBounded (q : Fraction) : Bool := q.num < q.den <<< 1024

def nearest (q : Fraction) : Nat := roundHalfEven q.num q.den

end Fraction

/-- The share of `part` in `whole`, divided first and then multiplied by `scale`, as a whole number.
-/
def scaledShare (part whole scale : Nat) : Nat :=
  ((Fraction.toBinary64 ⟨part, whole⟩).scale scale).nearest

/-- The share of `part` in `whole` as a percentage; nothing has a share in zero. -/
def percent (part whole : Int) : Int :=
  part.sign * whole.sign * scaledShare part.natAbs whole.natAbs 100

/-- Whether the share of `part` in `whole` and its percentage are numbers of the format. -/
def hasPercent (part whole : Int) : Bool :=
  let share := Fraction.toBinary64 ⟨part.natAbs, whole.natAbs⟩
  whole = 0 || (share.isBounded && (share.scale 100).isBounded)

end EnvFill.Number
