/-!
# Hexadecimal numbers

Numbers are written in lower-case hexadecimal without leading zeros.  They are read from digits of
either case, at least one, perhaps behind a plus sign, with any number of leading zeros.
-/

namespace Lineage.Text

/-- The digits of a number in lower-case hexadecimal. -/
def hex (n : Nat) : String := String.ofList (Nat.toDigits 16 n)

/-- The digits of a number in lower-case hexadecimal, filled up with zeros to a width. -/
def paddedHex (width n : Nat) : String :=
  let ds := Nat.toDigits 16 n
  String.ofList (List.replicate (width - ds.length) '0' ++ ds)

/-- The value of a hexadecimal digit of either case. -/
def hexDigit? (c : Char) : Option Nat :=
  let n := c.toNat
  if 0x30 ≤ n ∧ n ≤ 0x39 then some (n - 0x30)
  else if 0x41 ≤ n ∧ n ≤ 0x46 then some (n - 0x41 + 10)
  else if 0x61 ≤ n ∧ n ≤ 0x66 then some (n - 0x61 + 10)
  else none

/-- The value of hexadecimal digits behind those of `n`. -/
def hexNumber? : Nat → List Char → Option Nat
  | n, [] => some n
  | n, c :: cs =>
    match hexDigit? c with
    | some d => hexNumber? (n * 16 + d) cs
    | none => none

/-- The value of at least one hexadecimal digit, perhaps behind a plus sign. -/
def unsignedHex? : List Char → Option Nat
  | [] => none
  | ['+'] => none
  | '+' :: cs => hexNumber? 0 cs
  | cs => hexNumber? 0 cs

end Lineage.Text
