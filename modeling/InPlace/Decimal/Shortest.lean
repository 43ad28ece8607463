/-!
# Shortest decimals

The shortest decimal that reads back as a given binary floating-point number, and of those the nearest
to it. A number is taken as `m · 2 ^ q`; the reals that round to it form an interval, whose ends belong to
it when `m` is even. For one digit, two digits and so on the two neighbours of the number with that many
digits are tested against the interval in exact arithmetic, so the first hit is the shortest.
-/

namespace InPlace.Decimal

/-- A positive decimal: `digits` are read with the point after the first one, times `10 ^ exponent`. -/
structure Shortest where
  digits : List Nat
  exponent : Int
  deriving Repr, DecidableEq

/-- A ratio of natural numbers. -/
structure Ratio where
  num : Nat
  den : Nat

/-- `n · 2 ^ q` as a ratio. -/
def Ratio.scale (n : Nat) (q : Int) : Ratio :=
  if 0 ≤ q then ⟨n <<< q.toNat, 1⟩ else ⟨n, 1 <<< (-q).toNat⟩

/-- The unit of the decimal place `k` places before the point. -/
def placeUnit (k : Nat) : Nat :=
  Nat.pow 10 k

/-- The largest `e` with `10 ^ e ≤ r`, searched downwards from `start`. -/
def exponentFrom (r : Ratio) : Nat → Int → Int
  | 0, e => e
  | n + 1, e =>
    let fits := if 0 ≤ e then placeUnit e.toNat * r.den ≤ r.num else r.den ≤ r.num * placeUnit (-e).toNat
    if fits then e else exponentFrom r n (e - 1)

/-- Decimal exponent of a positive ratio. -/
def exponentOf (r : Ratio) : Int :=
  let guess : Int := ((Nat.toDigits 10 r.num).length : Int) - (Nat.toDigits 10 r.den).length + 1
  exponentFrom r 4 guess

/-- `n · 10 ^ g` in units of `1 / den`, as a pair that is compared crosswise with a numerator. -/
def onGrid (n : Nat) (g : Int) (den : Nat) : Ratio :=
  if 0 ≤ g then ⟨n * placeUnit g.toNat * den, 1⟩ else ⟨n * den, placeUnit (-g).toNat⟩

/-- Whether `low ≤ x ≤ high` for numerators `low` and `high`, the ends included when `closed`. -/
def within (low high : Nat) (closed : Bool) (x : Ratio) : Bool :=
  if closed then low * x.den ≤ x.num && x.num ≤ high * x.den
  else low * x.den < x.num && x.num < high * x.den

/-- The nearest decimal of `n` digits in the interval, if there is one: the numerators of the value and
of the ends of the interval share the denominator `den`. -/
def digitsAt (value low high den : Nat) (closed : Bool) (e : Int) (n : Nat) : Option Nat :=
  let g : Int := e - (n : Int) + 1
  let below := if 0 ≤ g then value / (den * placeUnit g.toNat) else value * placeUnit (-g).toNat / den
  let under := onGrid below g den
  let above := onGrid (below + 1) g den
  match within low high closed under, within low high closed above with
  | true, true =>
    -- both read back: the nearer one, the even one of two equally near
    let down := value * under.den - under.num
    let up := above.num - value * above.den
    if down < up || (down == up && below % 2 == 0) then some below else some (below + 1)
  | true, false => some below
  | false, true => some (below + 1)
  | false, false => none

/-- Decimal digits without zeros at the end. -/
def significant (n : Nat) : List Nat :=
  let ds := (Nat.toDigits 10 n).map fun c => c.toNat - '0'.toNat
  match (ds.reverse.dropWhile (· == 0)).reverse with
  | [] => [0]
  | ds => ds

/-- The shortest decimal of the positive number `m · 2 ^ q`. `coarse` says that the next number below is
only half as far as the next one above. -/
def shortest (m : Nat) (q : Int) (coarse : Bool) : Shortest :=
  let value := Ratio.scale (4 * m) (q - 2)
  let high := (Ratio.scale (4 * m + 2) (q - 2)).num
  let low := (Ratio.scale (if coarse then 4 * m - 1 else 4 * m - 2) (q - 2)).num
  let e := exponentOf value
  let closed : Bool := m % 2 == 0
  let found := (List.range 17).findSome? fun n =>
    (digitsAt value.num low high value.den closed e (n + 1)).map fun d => (n + 1, d)
  match found with
  | some (n, d) =>
    -- the upper neighbour may have one digit more
    let carried := (Nat.toDigits 10 d).length - n
    ⟨significant d, e + carried⟩
  | none => ⟨[0], 0⟩

/-- The parts of a finite number: its sign, `m` and `q`, and whether it is a power of two with a finer
grid below. -/
def partsOf (x : Float) : Bool × Nat × Int × Bool :=
  let bits : Nat := x.toBits.toNat
  let negative : Bool := bits >>> 63 == 1
  let biased : Nat := (bits >>> 52) % (1 <<< 11)
  let fraction : Nat := bits % (1 <<< 52)
  if biased == 0 then (negative, fraction, -1074, false)
  else (negative, fraction + (1 <<< 52), (biased : Int) - 1075, decide (fraction = 0 ∧ 1 < biased))

end InPlace.Decimal
