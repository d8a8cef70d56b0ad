/-!
# Integers in decimal

Integers are read from at least one decimal digit, perhaps behind a sign, with any number of leading
zeros and nothing else around them.
-/

namespace Lineage.Text

/-- The value of decimal digits behind those of `n`. -/
def digits? : Nat → List Char → Option Nat
  | n, [] => some n
  | n, c :: cs => if c.isDigit then digits? (n * 10 + (c.toNat - 48)) cs else none

/-- The value of at least one decimal digit. -/
def number? : List Char → Option Nat
  | [] => none
  | cs => digits? 0 cs

/-- A number below a bound, perhaps behind a plus sign. -/
def natural? (bound : Nat) (cs : List Char) : Option Nat :=
  let n? := match cs with
    | '+' :: cs => number? cs
    | cs => number? cs
  n?.filter (· < bound)

/-- A signed number of 64 bits, perhaps behind a plus sign. -/
def signed? (cs : List Char) : Option Int :=
  let bound : Int := 0x8000000000000000
  let fits (n : Int) : Option Int := if -bound ≤ n ∧ n < bound then some n else none
  match cs with
  | '-' :: cs => (number? cs).bind fun n => fits (-n)
  | '+' :: cs => (number? cs).bind fun n => fits n
  | cs => (number? cs).bind fun n => fits n

end Lineage.Text
