/-!
# The shortest decimal of a binary number

A finite double is `m * 2^q` for a natural number `m`, and the reals that round to it form an
interval around it, whose ends belong to it exactly when `m` is even.  `shortest` looks for the
decimal with the fewest significant digits inside that interval.  For `1, 2, … 17` digits it tests
the two neighbours of the value on the grid of decimals with that many digits.  The first grid with
a neighbour inside wins, of two neighbours the nearer one, and the even one if both are equally
near.  All arithmetic is on natural numbers, so nothing is rounded on the way.

`Decimal.text` writes a decimal positionally, with at least one digit after the point, when its
first digit stands for `10^-5` to `10^15`, and with an exponent that always has a sign otherwise.
-/

namespace Lineage

/-- The number `digits * 10^exponent`. -/
structure Decimal where
  /-- The significant digits, read as one number. -/
  digits : Nat
  /-- The power of ten of the last digit. -/
  exponent : Int
  deriving DecidableEq, Repr

/-- A positive fraction of natural numbers. -/
structure Ratio where
  /-- The numerator. -/
  num : Nat
  /-- The denominator. -/
  den : Nat
  deriving Repr

namespace Ratio

/-- The fraction `n * 2^q`. -/
def ofBinary (n : Nat) (q : Int) : Ratio :=
  if 0 ≤ q then ⟨n <<< q.toNat, 1⟩ else ⟨n, 1 <<< (-q).toNat⟩

/-- The fraction `n * 10^e`. -/
def ofDecimal (d : Decimal) : Ratio :=
  if 0 ≤ d.exponent then ⟨d.digits * Nat.pow 10 d.exponent.toNat, 1⟩
  else ⟨d.digits, Nat.pow 10 (-d.exponent).toNat⟩

/-- Whether one fraction is at most another. -/
def le (a b : Ratio) : Bool := a.num * b.den ≤ b.num * a.den

/-- Whether one fraction is below another. -/
def lt (a b : Ratio) : Bool := a.num * b.den < b.num * a.den

/-- The distance between a fraction and another that is not below it. -/
def gap (a b : Ratio) : Ratio := ⟨b.num * a.den - a.num * b.den, a.den * b.den⟩

/-- The whole part of `a / 10^e`. -/
def onGrid (a : Ratio) (e : Int) : Nat :=
  if 0 ≤ e then a.num / (a.den * Nat.pow 10 e.toNat) else a.num * Nat.pow 10 (-e).toNat / a.den

/-- The power of ten of the first digit, searched upwards from `e` through `fuel` powers. -/
def firstPower (a : Ratio) (e : Int) : Nat → Int
  | 0 => e
  | fuel + 1 => if a.onGrid (e + 1) = 0 then e else a.firstPower (e + 1) fuel

end Ratio

namespace Decimal

/-- The least significand of a normal double, which has 53 bits. -/
def leastNormal : Nat := 1 <<< 52

/-- The reals that round to one double. -/
structure Interval where
  /-- The double itself. -/
  value : Ratio
  /-- The lower end. -/
  low : Ratio
  /-- The upper end. -/
  high : Ratio
  /-- Whether the ends belong to it. -/
  closed : Bool

/-- The interval of the double `m * 2^q`.  The gap below a power of two is half as wide, except at
the least exponent. -/
def Interval.ofBinary (m : Nat) (q : Int) : Interval where
  value := .ofBinary (4 * m) (q - 2)
  low := .ofBinary (4 * m - if m = leastNormal ∧ -1074 < q then 1 else 2) (q - 2)
  high := .ofBinary (4 * m + 2) (q - 2)
  closed := m % 2 = 0

/-- Whether a decimal lies in the interval. -/
def Interval.holds (i : Interval) (d : Decimal) : Bool :=
  let r := Ratio.ofDecimal d
  if i.closed then i.low.le r && r.le i.high else i.low.lt r && r.lt i.high

/-- The better neighbour of the value on the grid of multiples of `10^e`, if one is inside. -/
def Interval.neighbour? (i : Interval) (e : Int) : Option Decimal :=
  let n := i.value.onGrid e
  let below : Decimal := ⟨n, e⟩
  let above : Decimal := ⟨n + 1, e⟩
  match i.holds below, i.holds above with
  | false, false => none
  | true, false => some below
  | false, true => some above
  | true, true =>
    let down := (Ratio.ofDecimal below).gap i.value
    let up := i.value.gap (Ratio.ofDecimal above)
    if down.lt up then some below
    else if up.lt down then some above
    else if n % 2 = 0 then some below else some above

/-- The neighbour on the first grid that has one, among those of `n, n + 1, …` digits, where `p`
is the power of the first digit. -/
def Interval.search (i : Interval) (p : Int) (n : Nat) : Nat → Decimal
  | 0 => ⟨i.value.onGrid (p - 16), p - 16⟩
  | fuel + 1 =>
    match i.neighbour? (p - (n : Int) + 1) with
    | some d => d
    | none => i.search p (n + 1) fuel

/-- The decimal with the fewest digits that rounds to `m * 2^q`, for a positive `m`. -/
def shortest (m : Nat) (q : Int) : Decimal :=
  let i := Interval.ofBinary m q
  i.search (i.value.firstPower (-330) 700) 1 17

/-- The same number without zeros at the end of its digits. -/
def trim (d : Decimal) : Nat → Decimal
  | 0 => d
  | fuel + 1 =>
    if d.digits ≠ 0 ∧ d.digits % 10 = 0 then
      (⟨d.digits / 10, d.exponent + 1⟩ : Decimal).trim fuel
    else d

/-- An exponent with its sign. -/
def signed (e : Int) : String :=
  if 0 ≤ e then "+" ++ toString e.toNat else "-" ++ toString (-e).toNat

/-- The text of a positive decimal. -/
def text (d : Decimal) : String :=
  let d := d.trim 20
  let ds := (toString d.digits).toList
  let p := d.exponent + (ds.length : Int) - 1
  if p < -5 ∨ 15 < p then
    match ds with
    | [] => ""
    | [c] => String.ofList [c] ++ "e" ++ signed p
    | c :: cs => String.ofList (c :: '.' :: cs) ++ "e" ++ signed p
  else if 0 ≤ d.exponent then
    String.ofList (ds ++ List.replicate d.exponent.toNat '0') ++ ".0"
  else if 0 ≤ p then
    String.ofList (ds.take (p.toNat + 1) ++ '.' :: ds.drop (p.toNat + 1))
  else
    "0." ++ String.ofList (List.replicate (-p - 1).toNat '0' ++ ds)

end Decimal

/-- The shortest text that reads back as a finite double. -/
def floatText (x : Float) : String :=
  let bits := x.toBits.toNat
  let sign := if bits >>> 63 = 0 then "" else "-"
  let fraction : Nat := bits % Decimal.leastNormal
  let biased : Nat := (bits >>> 52) % 0x800
  if biased = 0 then
    if fraction = 0 then sign ++ "0.0" else sign ++ (Decimal.shortest fraction (-1074)).text
  else sign ++ (Decimal.shortest (Decimal.leastNormal + fraction) ((biased : Int) - 1075)).text

end Lineage
