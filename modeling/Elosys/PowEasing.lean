import Elosys.Amounts
import Mathlib.Tactic.GCongr
import Mathlib.Tactic.Linarith

/-!
# Exponential Easing

With `ADAPTIVEPOW` the rescue step of `GetNextWorkRequired` multiplies the target of a late block by
about `e` to the power of the delay. A result below the target counts as wrapped, and becomes the
easy target. The power of three has 64 bits, the polynomial 32.

`easingFactor` is the factor over the natural numbers; the code computes it where the polynomial
fits into 32 bits (`PolynomialFits`) and the factor into 63. There the target grows with the delay,
but for the rounding of the division by 360000, which comes before the multiplication.
-/

namespace Elosys

/-- The loop `A *= 3`, which wraps. -/
def timesThree : Nat → Int64
  | 0 => 1
  | n + 1 => timesThree n * 3

variable (blocktime num : Int32)

/-- `zawy_exponential_val360000`; the squared block time may wrap to zero. -/
def zawyExponentialVal360000 : Except Fault Int64 :=
  let A := timesThree (num / blocktime).toNatClampNeg
  let modval := num % blocktime
  if modval = 0 then .ok (A * 360000)
  else if blocktime * blocktime = 0 then .error (.exception "division by zero")
  else
    let B := 360000 + (3600 * 110 * modval / blocktime).toInt64
    .ok (A * (B + (3600 * 60 * modval * modval / (blocktime * blocktime)).toInt64))

/-- `zawy_exponential`. -/
def zawyExponential (bnTarget : UInt256) : Except Fault UInt256 := do
  let val ← zawyExponentialVal360000 blocktime num
  return bnTarget / BitVec.ofNat 256 (100 * 3600) * BitVec.ofNat 256 val.toUInt64.toNat

/-- The step for a delay above 1: a target that became smaller, or too large, is the easy one. -/
def rescueTarget (easy bnTarget : UInt256) : Except Fault UInt256 := do
  let eased ← zawyExponential blocktime num bnTarget
  return if eased < bnTarget ∨ easy < eased then easy else eased

/-! ### The factor as a number -/

/-- The factor, times 360000. -/
def easingFactor (blocktime num : Nat) : Nat :=
  3 ^ (num / blocktime) * (360000 + 396000 * (num % blocktime) / blocktime +
    216000 * (num % blocktime) ^ 2 / blocktime ^ 2)

/-- What the polynomial multiplies fits into 32 bits: it is not computed for whole block times, and
the remaining seconds are squared otherwise. -/
def PolynomialFits (blocktime num : Nat) : Prop :=
  num % blocktime = 0 ∨ (blocktime ^ 2 < 2 ^ 31 ∧ 216000 * (num % blocktime) ^ 2 < 2 ^ 31)

instance (blocktime num : Nat) : Decidable (PolynomialFits blocktime num) :=
  inferInstanceAs (Decidable (_ ∨ _))

theorem timesThree_eq (n : Nat) : timesThree n = Int64.ofInt (3 ^ n) := by
  induction n with
  | zero => rfl
  | succ n ih => rw [timesThree, ih, pow_succ, Int64.ofInt_mul]; rfl

theorem polynomial_le {b r : Nat} (h : r ≤ b) :
    360000 + 396000 * r / b + 216000 * r ^ 2 / b ^ 2 ≤ 3 * 360000 := by
  have hlinear : 396000 * r / b ≤ 396000 :=
    Nat.div_le_of_le_mul (by rw [Nat.mul_comm b]; exact Nat.mul_le_mul_left _ h)
  have hsquare : 216000 * r ^ 2 / b ^ 2 ≤ 216000 :=
    Nat.div_le_of_le_mul (by
      rw [Nat.mul_comm (b ^ 2)]; exact Nat.mul_le_mul_left _ (Nat.pow_le_pow_left h 2))
  omega

theorem easingFactor_mono {b m₁ m₂ : Nat} (hb : 0 < b) (h : m₁ ≤ m₂) :
    easingFactor b m₁ ≤ easingFactor b m₂ := by
  unfold easingFactor
  rcases Nat.lt_or_eq_of_le (Nat.div_le_div_right (c := b) h) with hlt | heq
  · -- another factor of three is more than the polynomial gives
    calc 3 ^ (m₁ / b) * _ ≤ 3 ^ (m₁ / b) * (3 * 360000) :=
          Nat.mul_le_mul_left _ (polynomial_le (Nat.mod_lt m₁ hb).le)
      _ = 3 ^ (m₁ / b + 1) * 360000 := by rw [pow_succ, Nat.mul_assoc]
      _ ≤ 3 ^ (m₂ / b) * 360000 :=
          Nat.mul_le_mul_right _ (Nat.pow_le_pow_right (by decide) hlt)
      _ ≤ _ := Nat.mul_le_mul_left _ (by rw [Nat.add_assoc]; exact Nat.le_add_right _ _)
  · have hrest : m₁ % b ≤ m₂ % b := by
      have h₁ := Nat.div_add_mod m₁ b
      have h₂ := Nat.div_add_mod m₂ b
      rw [heq] at h₁
      omega
    rw [heq]
    gcongr

section

variable {x y : Int32} {a c : Nat}

theorem toInt_mul_eq (hx : x.toInt = a) (hy : y.toInt = c) (h : a * c < 2 ^ 31) :
    (x * y).toInt = (a * c : Nat) := by
  rw [Int32.toInt_mul, hx, hy, ← Int.natCast_mul, Int.bmod_eq_of_le] <;> omega

theorem toInt_div_eq (hx : x.toInt = a) (hy : y.toInt = c) : (x / y).toInt = (a / c : Nat) := by
  rw [Int32.toInt_div_of_ne_right, hx, hy, Int.ofNat_tdiv]
  rintro rfl
  exact absurd hy (by rw [show (-1 : Int32).toInt = -1 from rfl]; omega)

end

variable {blocktime num}

theorem zawyExponentialVal360000_eq {b m : Nat} (hblocktime : blocktime.toInt = b)
    (hnum : num.toInt = m) (hpos : 0 < b) (hpoly : PolynomialFits b m) :
    zawyExponentialVal360000 blocktime num = .ok (Int64.ofInt (easingFactor b m)) := by
  have hmod : (num % blocktime).toInt = (m % b : Nat) := by
    rw [Int32.toInt_mod, hblocktime, hnum, Int.ofNat_tmod]
  have hlt := Nat.mod_lt m hpos
  have hquot : (num / blocktime).toNatClampNeg = m / b :=
    congrArg Int.toNat (toInt_div_eq hnum hblocktime)
  have hfactor : (easingFactor b m : Int) = 3 ^ (m / b) * (360000 +
      (396000 * (m % b) / b : Nat) + (216000 * (m % b) ^ 2 / b ^ 2 : Nat)) := by
    rw [easingFactor, Int.natCast_mul, Int.natCast_add, Int.natCast_add, Int.natCast_pow]
    rfl
  rw [zawyExponentialVal360000, hquot, timesThree_eq, hfactor, Int64.ofInt_mul]
  by_cases hzero : m % b = 0
  · have hexact : num % blocktime = 0 := Int32.toInt.inj (by rw [hmod, hzero]; rfl)
    rw [if_pos hexact, hzero]
    simp
  · obtain ⟨hblock, hrest⟩ := hpoly.resolve_left hzero
    have hsmall : m % b ≤ 99 := by
      by_contra hbig
      have hsq : 100 ^ 2 ≤ (m % b) ^ 2 := Nat.pow_le_pow_left (by omega) 2
      omega
    have hsquare : (blocktime * blocktime).toInt = (b * b : Nat) :=
      toInt_mul_eq hblocktime hblocktime (by rwa [← sq])
    have hne : ∀ {x : Int32} {n : Nat}, x.toInt = n → n ≠ 0 → x ≠ 0 := by
      rintro x n hx hn rfl
      exact hn (Int.natCast_inj.mp hx).symm
    have hlinear := toInt_div_eq (toInt_mul_eq (x := 3600 * 110) (a := 396000) rfl hmod (by omega))
      hblocktime
    have hscaled : (3600 * 60 * (num % blocktime)).toInt = (216000 * (m % b) : Nat) :=
      toInt_mul_eq (x := 3600 * 60) rfl hmod (by omega)
    have hquadratic := toInt_div_eq
      (toInt_mul_eq hscaled hmod (by rwa [Nat.mul_assoc, ← sq])) hsquare
    rw [Nat.mul_assoc, ← sq, ← sq] at hquadratic
    rw [if_neg (hne hmod hzero), if_neg (hne hsquare (Nat.mul_pos hpos hpos).ne'),
      Int64.ofInt_add, Int64.ofInt_add, ← hlinear, ← hquadratic]
    rfl

theorem zawyExponential_eq {b m : Nat} {bnTarget : UInt256} (hblocktime : blocktime.toInt = b)
    (hnum : num.toInt = m) (hpos : 0 < b) (hpoly : PolynomialFits b m)
    (hfits : easingFactor b m < 2 ^ 63)
    (hroom : bnTarget.toNat / 360000 * easingFactor b m < 2 ^ 256) :
    ∃ eased, zawyExponential blocktime num bnTarget = .ok eased ∧
      eased.toNat = bnTarget.toNat / 360000 * easingFactor b m := by
  rw [zawyExponential, zawyExponentialVal360000_eq hblocktime hnum hpos hpoly]
  refine ⟨_, rfl, ?_⟩
  have hval : (Int64.ofInt (easingFactor b m)).toUInt64.toNat = easingFactor b m := by
    have hcond := toNat_toUInt64_cond (Int64.ofInt (easingFactor b m))
    rw [Int64.toInt_ofInt_of_le (by omega) (by omega), if_neg (by omega)] at hcond
    exact_mod_cast hcond
  rw [hval, BitVec.toNat_mul, BitVec.toNat_udiv, BitVec.toNat_ofNat, BitVec.toNat_ofNat,
    Nat.mod_eq_of_lt (show easingFactor b m < 2 ^ 256 by omega),
    Nat.mod_eq_of_lt (show 100 * 3600 < 2 ^ 256 by decide)]
  exact Nat.mod_eq_of_lt hroom

def twoTo (n : Nat) : UInt256 := BitVec.ofNat 256 (2 ^ n)

end Elosys
