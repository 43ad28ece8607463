/-!
# Reading decimals

The value of a decimal numeral as an integer, where it is one that fits in 64 bits, and otherwise as a
floating-point number. As many digits as fit in 64 bits are taken exactly; the rest only moves the point,
and the power of ten is applied by one multiplication or division.
-/

namespace InPlace.Decimal

/-- A numeral: `whole.fraction` times `10 ^ power`, the last two parts only if they are written. -/
structure Numeral where
  negative : Bool
  whole : List Nat
  fraction : Option (List Nat)
  power : Option Int
  deriving Repr

/-- The value of a numeral. -/
inductive Value where
  | int (n : Int)
  | float (x : Float)

/-- Numbers below this have 64 bits. -/
def limit64 : Nat := UInt64.size

/-- Takes digits into `n` as long as 64 bits hold them, and gives back the others. -/
def takeDigits : Nat → List Nat → Nat × List Nat
  | n, [] => (n, [])
  | n, d :: ds => if n * 10 + d < limit64 then takeDigits (n * 10 + d) ds else (n, d :: ds)

/-- `10 ^ k` -/
def tenTo (k : Nat) : Float :=
  Float.ofScientific 1 false k

/-- `x · 10 ^ e`, in steps of at most 308 places downwards. Refuses what is too large. -/
def applyPower : Nat → Float → Int → Option Float
  | 0, x, _ => some x
  | steps + 1, x, e =>
    if e.natAbs ≤ 308 then
      if 0 ≤ e then
        let y := x * tenTo e.natAbs
        if y.isInf then none else some y
      else some (x / tenTo e.natAbs)
    else if x == 0.0 then some x
    else if 0 ≤ e then none
    else applyPower steps (x / tenTo 308) (e + 308)

/-- The value of a numeral, unless it is too large. -/
def Numeral.value? (n : Numeral) : Option Value :=
  let (head, left) := takeDigits 0 n.whole
  let signed := fun x : Float => if n.negative then -x else x
  match n.fraction, n.power with
  | none, none =>
    if left.isEmpty then
      if !n.negative then some (.int head)
      -- there is no negative integer zero, and none below the half of the range
      else if head = 0 ∨ limit64 / 2 < head then some (.float (-(Float.ofNat head)))
      else some (.int (-head))
    else (applyPower (left.length + 2) (Float.ofNat head) left.length).map fun x => .float (signed x)
  | fraction, power =>
    let ds := fraction.getD []
    let (sum, rest) := takeDigits head ds
    let shift : Int := (left.length : Int) - ((ds.length : Int) - rest.length)
    let e := shift + power.getD 0
    (applyPower (e.natAbs / 308 + 2) (Float.ofNat sum) e).map fun x => .float (signed x)

end InPlace.Decimal
