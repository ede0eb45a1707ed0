import Dispatch.Decimal.Shortest

/-!
# Writing a floating-point number

A number is written with the digits of its shortest decimal: positionally while its magnitude stays
in a middle range, with an exponent outside it. `Layout` holds what a format decides — the range,
what follows a whole number, the words for what is not a number — and `Layout.write` does the rest.

In the runtime: how a `Value.Number` is described.
-/

namespace Dispatch.Decimal

/-- What a double-precision number is. -/
inductive Reading where
  | notANumber
  | infinite (negative : Bool)
  | zero (negative : Bool)
  | finite (negative : Bool) (size : Binary)
deriving DecidableEq, Repr

/-- Takes a double-precision number apart: a sign bit, eleven bits of exponent, and fifty-two bits
of significand below a leading one that only the smallest exponent lacks. -/
def Reading.of (x : Float) : Reading :=
  let bits := x.toBits.toNat
  let negative := bits / Nat.pow 2 63 % 2 = 1
  let exponent : Nat := bits / Nat.pow 2 52 % Nat.pow 2 11
  let fraction := bits % Nat.pow 2 52
  if exponent = 2047 then
    if fraction = 0 then .infinite negative else .notANumber
  else if exponent = 0 then
    if fraction = 0 then .zero negative else .finite negative ⟨fraction, -1074, false⟩
  else
    .finite negative ⟨Nat.pow 2 52 + fraction, exponent - 1075, fraction = 0 && 1 < exponent⟩

/-- What a way of writing numbers decides. -/
structure Layout where
  /-- The least exponent of the first digit that is still written positionally. -/
  least : Int
  /-- The greatest such exponent. -/
  greatest : Int
  /-- What a positional whole number ends in. -/
  whole : String
  /-- What is written for a thing that is not a number. -/
  notANumber : String
  /-- What is written for an infinity. -/
  infinite : String

/-- Digits with the point at its place. -/
def Layout.positional (l : Layout) (digits : List Char) (exponent : Int) : String :=
  let point := digits.length + exponent
  if 0 ≤ exponent then
    String.ofList (digits ++ List.replicate exponent.toNat '0') ++ l.whole
  else if 0 < point then
    String.ofList (digits.take point.toNat ++ '.' :: digits.drop point.toNat)
  else
    String.ofList ('0' :: '.' :: List.replicate (-point).toNat '0' ++ digits)

/-- One digit before the point, the others behind it, and an exponent. -/
def scientific (digits : List Char) (exponent : Int) : String :=
  let mantissa := match digits with
    | first :: second :: rest => first :: '.' :: second :: rest
    | digits => digits
  String.ofList mantissa ++ "e" ++ toString exponent

/-- A positive number in digits. -/
def Layout.size (l : Layout) (b : Binary) : String :=
  let decimal := b.shortest
  let digits := Nat.toDigits 10 decimal.digits
  let leading := decimal.exponent + digits.length - 1
  if l.least ≤ leading ∧ leading ≤ l.greatest then l.positional digits decimal.exponent
  else scientific digits leading

/-- A number in digits, or in words if it has none. -/
def Layout.write (l : Layout) (x : Float) : String :=
  let signed (negative : Bool) (text : String) := if negative then "-" ++ text else text
  match Reading.of x with
  | .notANumber => l.notANumber
  | .infinite negative => signed negative l.infinite
  | .zero negative => signed negative ("0" ++ l.whole)
  | .finite negative size => signed negative (l.size size)

end Dispatch.Decimal
