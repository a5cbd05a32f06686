/-!
# Finite doubles

A finite double is kept as its sign, an integer significand below `2 ^ 53` and a power of two, so
that arithmetic on it is exact arithmetic on integers followed by one rounding.

## Main definitions

* `Binary64.nearest?`: the double nearest to a quotient of integers, ties to even.
* `Binary64.ofDecimal?`: the double that a decimal literal denotes.
* `Binary64.shortest`: the fewest digits that read back as the double.
-/

namespace ChangeCapture

/-- The finite double `± mantissa * 2 ^ exponent`. Zero has the least exponent; every other double
has either the least exponent or a full significand of 53 bits. -/
structure Binary64 where
  negative : Bool
  mantissa : Nat
  exponent : Int
  deriving DecidableEq, Repr, Inhabited

namespace Binary64

/-- The exponent of the least positive double, `2 ^ leastExponent`. -/
def leastExponent : Int := -1074

/-- The exponent of the doubles next to infinity. -/
def greatestExponent : Int := 971

/-- The number of values that a significand may take. -/
def significands : Nat := Nat.pow 2 53

/-- Zero. -/
def zero : Binary64 := ⟨false, 0, leastExponent⟩

/-- The quotient to the nearest integer, a half to the even one. -/
def roundDiv (num den : Nat) : Nat :=
  let q := num / den
  let r := num % den
  if den < 2 * r || (2 * r == den && q % 2 == 1) then q + 1 else q

/-- The two integers whose quotient is `num / den / 2 ^ e`. -/
def scaled (num den : Nat) (e : Int) : Nat × Nat :=
  match e with
  | .ofNat n => (num, den * Nat.pow 2 n)
  | .negSucc n => (num * Nat.pow 2 (n + 1), den)

/-- The exponent at which `num / den` has a significand of 53 bits, or the least exponent for a
smaller quotient. The estimate from the two lengths is right or one too small. -/
def exponentFor (num den : Nat) : Int :=
  let e := max ((num.log2 : Int) - (den.log2 : Int) - 53) leastExponent
  let (n, d) := scaled num den e
  if n / d < significands then e else e + 1

/-- **The double nearest to `num / den`**, ties to even; none if that lies beyond the greatest
double. The denominator is positive. -/
def nearest? (num den : Nat) : Option Binary64 :=
  if num = 0 then some zero
  else
    let e := exponentFor num den
    let (n, d) := scaled num den e
    let m := roundDiv n d
    let (m, e) := if m = significands then (m / 2, e + 1) else (m, e)
    if greatestExponent < e then none else some ⟨false, m, e⟩

/-- The magnitude as a quotient of integers. -/
def ratio (x : Binary64) : Nat × Nat :=
  match x.exponent with
  | .ofNat n => (x.mantissa * Nat.pow 2 n, 1)
  | .negSucc n => (x.mantissa, Nat.pow 2 (n + 1))

/-- The product of two magnitudes, rounded once. -/
def mul? (x y : Binary64) : Option Binary64 :=
  let (a, b) := x.ratio
  let (c, d) := y.ratio
  nearest? (a * c) (b * d)

/-- The quotient of two magnitudes, rounded once; a quotient by zero is taken to be zero. -/
def div? (x y : Binary64) : Option Binary64 :=
  let (a, b) := x.ratio
  let (c, d) := y.ratio
  if c = 0 then some zero else nearest? (a * d) (b * c)

/-- The double nearest to a power of ten. -/
def pow10? (n : Nat) : Option Binary64 :=
  nearest? (Nat.pow 10 n) 1

/-- **The double of the decimal `significand * 10 ^ exponent`**, for a significand below `2 ^ 64`:
the significand is rounded to a double first and then multiplied or divided by the double of the
power of ten, which is where a long literal can differ from its nearest double. No double has a
power of ten above 308, so a larger exponent is out of range unless the number is zero, and a
smaller one divides twice; after two such divisions nothing is left. -/
def ofDecimal? (significand : Nat) (exponent : Int) : Option Binary64 := do
  let x ← nearest? significand 1
  match exponent with
  | .ofNat n =>
    if n ≤ 308 then (← pow10? n).mul? x
    else if significand = 0 then some zero else none
  | .negSucc k =>
    let n := k + 1
    if n ≤ 308 then x.div? (← pow10? n)
    else if n ≤ 616 then (← x.div? (← pow10? 308)).div? (← pow10? (n - 308))
    else some zero

/-- The same magnitude with the given sign. -/
def withSign (x : Binary64) (negative : Bool) : Binary64 :=
  { x with negative }

/-! ### Shortest digits -/

/-- Decimal digits `digits * 10 ^ exponent`. -/
structure Digits where
  digits : Nat
  exponent : Int
  deriving DecidableEq, Repr

/-- The interval of reals that round to a double, in quarters of its last place: from `low` to
`high` around four times the significand, with the ends if the significand is even. -/
structure Interval where
  low : Nat
  middle : Nat
  high : Nat
  closed : Bool

/-- The interval of a positive double. Below a power of two the next double is only half as far. -/
def interval (x : Binary64) : Interval :=
  let m := x.mantissa
  let low := if m = significands / 2 && leastExponent < x.exponent then 4 * m - 1 else 4 * m - 2
  ⟨low, 4 * m, 4 * m + 2, m % 2 == 0⟩

/-- Whether `d * 10 ^ k` lies in the interval of a double with exponent `e`. -/
def Interval.holds (i : Interval) (num den d : Nat) : Bool :=
  if i.closed then i.low * num ≤ d * den && d * den ≤ i.high * num
  else i.low * num < d * den && d * den < i.high * num

/-- The factor from quarters of the last place to units of `10 ^ k`, as a quotient. -/
def gridFactor (e k : Int) : Nat × Nat :=
  let (a, b) := match e - 2 with
    | .ofNat n => (Nat.pow 2 n, 1)
    | .negSucc n => (1, Nat.pow 2 (n + 1))
  match k with
  | .ofNat n => (a, b * Nat.pow 10 n)
  | .negSucc n => (a * Nat.pow 10 (n + 1), b)

/-- The number of the grid `10 ^ k` that reads back as the double: one of the double's two
neighbours on the grid, the nearer if both do, the even one if they are equally near. -/
def onGrid? (x : Binary64) (k : Int) : Option Nat :=
  let i := x.interval
  let (num, den) := gridFactor x.exponent k
  let below := i.middle * num / den
  let above := below + 1
  match i.holds num den below, i.holds num den above with
  | true, false => some below
  | false, true => some above
  | false, false => none
  | true, true =>
    let twice := 2 * (i.middle * num)
    let half := (below + above) * den
    if twice < half then some below
    else if half < twice then some above
    else if below % 2 = 0 then some below else some above

/-- The first of `steps` grids, each ten times finer than the last, that has such a number. -/
def firstGrid (x : Binary64) : Nat → Int → Option Digits
  | 0, _ => none
  | steps + 1, k =>
    match onGrid? x k with
    | some d => some ⟨d, k⟩
    | none => firstGrid x steps (k - 1)

/-- **The fewest digits that read back as the magnitude** of a nonzero double, and of those the
nearest. The search starts above the leading digit; seventeen digits always suffice. -/
def shortest (x : Binary64) : Digits :=
  let top := ((x.mantissa.log2 : Int) + x.exponent) * 30103 / 100000 + 2
  (firstGrid x 24 top).getD ⟨0, 0⟩

end Binary64

end ChangeCapture
