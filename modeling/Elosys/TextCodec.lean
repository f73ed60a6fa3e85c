import Mathlib.Tactic.Common

/-!
# Numbers and Bytes as Text

Decimal and hexadecimal text over bytes, as C prints and scans them: `%d` and `%u` against
`strtol`, `%02X` against a scan of digits. Numbers have any size here; ranges are the reader's
business.
-/

namespace TextCodec

/-! ### Decimal -/

/-- The digit of a number below ten. -/
def digitByte (d : Nat) : UInt8 := UInt8.ofNat (48 + d)

/-- The value of a decimal digit. -/
def digitValue (c : UInt8) : Option Nat :=
  if 48 ≤ c.toNat ∧ c.toNat ≤ 57 then some (c.toNat - 48) else none

/-- The digits of a number; the first argument is fuel. -/
def natTextAux : Nat → Nat → List UInt8
  | 0, _ => []
  | fuel + 1, n =>
    if n < 10 then [digitByte n] else natTextAux fuel (n / 10) ++ [digitByte (n % 10)]

/-- `%u`. -/
def natText (n : Nat) : List UInt8 := natTextAux (n + 1) n

/-- Digits behind those that gave the accumulated value. -/
def readDigits : Nat → List UInt8 → Option Nat
  | acc, [] => some acc
  | acc, c :: cs =>
    match digitValue c with
    | some d => readDigits (10 * acc + d) cs
    | none => none

/-- A nonempty text of digits. -/
def readNat : List UInt8 → Option Nat
  | [] => none
  | cs => readDigits 0 cs

/-- `%d`. -/
def intText : Int → List UInt8
  | .ofNat n => natText n
  | .negSucc n => 45 :: natText (n + 1)

/-- A number with or without a sign. -/
def readInt : List UInt8 → Option Int
  | 45 :: cs => (readNat cs).map fun n => -(n : Int)
  | 43 :: cs => (readNat cs).map fun n => (n : Int)
  | cs => (readNat cs).map fun n => (n : Int)

/-! ### Hexadecimal -/

/-- The upper-case digit of a number below sixteen. -/
def hexByte (d : Nat) : UInt8 := if d < 10 then UInt8.ofNat (48 + d) else UInt8.ofNat (55 + d)

/-- The value of a hexadecimal digit. -/
def hexValue (c : UInt8) : Option Nat :=
  if 48 ≤ c.toNat ∧ c.toNat ≤ 57 then some (c.toNat - 48)
  else if 65 ≤ c.toNat ∧ c.toNat ≤ 70 then some (c.toNat - 55)
  else if 97 ≤ c.toNat ∧ c.toNat ≤ 102 then some (c.toNat - 87)
  else none

/-- `%02X` for each byte. -/
def hexText : List UInt8 → List UInt8
  | [] => []
  | b :: bs => hexByte (b.toNat / 16) :: hexByte (b.toNat % 16) :: hexText bs

end TextCodec
