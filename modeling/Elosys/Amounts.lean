import Elosys.Primitives
import Mathlib.Algebra.Order.BigOperators.Group.List
import Mathlib.Algebra.Order.Group.Int

/-!
# Sums of Amounts

Amounts are 64-bit integers that wrap around. The range checks of `GetValueOut`,
`GetShieldedValueIn` and `CheckTxInputs` rule this out for any `MAX_MONEY`, and a wrapped sum of
allowances is only smaller.
-/

open List

namespace Elosys

/-! ### Wrapping around -/

theorem moneyRange_iff {maxMoney v : CAmount} :
    moneyRange maxMoney v = true ↔ 0 ≤ v.toInt ∧ v.toInt ≤ maxMoney.toInt := by
  simp [moneyRange, Int64.le_iff_toInt_le]

theorem toInt_add_of_nonneg {a b : CAmount} (ha : 0 ≤ a.toInt) (hb : 0 ≤ b.toInt)
    (h : 0 ≤ (a + b).toInt) : (a + b).toInt = a.toInt + b.toInt := by
  have hla := Int64.toInt_lt a
  have hlb := Int64.toInt_lt b
  rw [Int64.toInt_add, Int.bmod_def] at h ⊢
  split at h <;> split <;> omega

theorem toInt_neg_of_nonneg {a : CAmount} (ha : a.toInt ≤ 0) (h : 0 ≤ (-a).toInt) :
    (-a).toInt = -a.toInt := by
  have hla := Int64.le_toInt a
  rw [Int64.toInt_neg, Int.bmod_def] at h ⊢
  split at h <;> split <;> omega

theorem toNat_toUInt64_cond (a : CAmount) :
    (a.toUInt64.toNat : Int) = if a.toInt < 0 then a.toInt + 2 ^ 64 else a.toInt := by
  have hcond := BitVec.toInt_eq_toNat_cond a.toBitVec
  change (a.toBitVec.toNat : Int)
    = if a.toBitVec.toInt < 0 then a.toBitVec.toInt + 2 ^ 64 else a.toBitVec.toInt
  split at hcond <;> split <;> omega

theorem toInt_sub_of_nonneg {a b : CAmount} (ha : 0 ≤ a.toInt) (hb : 0 ≤ b.toInt) :
    (a - b).toInt = a.toInt - b.toInt := by
  have hla := Int64.toInt_lt a
  have hlb := Int64.toInt_lt b
  rw [Int64.toInt_sub, Int.bmod_def]
  split <;> omega

theorem toInt_ofInt_le {x : Int} (h : -2 ^ 63 ≤ x) : (Int64.ofInt x).toInt ≤ x := by
  rw [Int64.toInt_ofInt, Int.bmod_def, show ((Int64.size : Nat) : Int) = 2 ^ 64 from rfl]
  split <;> omega

theorem toInt64_eq (x : UInt64) : x.toInt64 = Int64.ofInt x.toNat := by
  apply Int64.toBitVec_inj.mp
  simp

/-! ### The value sums of a transaction -/

def amountSum (vs : List CAmount) : Int := (vs.map Int64.toInt).sum

@[simp] theorem amountSum_nil : amountSum [] = 0 := rfl

@[simp] theorem amountSum_cons (v : CAmount) (vs : List CAmount) :
    amountSum (v :: vs) = v.toInt + amountSum vs := by
  simp [amountSum]

variable {vs : List CAmount}

theorem toInt_sum_of_nonneg (hpos : ∀ v ∈ vs, 0 ≤ v.toInt)
    (hfits : amountSum vs < 2 ^ 63) : vs.sum.toInt = amountSum vs := by
  induction vs with
  | nil => rfl
  | cons v vs ih =>
    have hv := hpos v mem_cons_self
    have hrest : 0 ≤ amountSum vs := by
      refine sum_nonneg fun x hx => ?_
      obtain ⟨w, hw, rfl⟩ := mem_map.mp hx
      exact hpos w (mem_cons_of_mem _ hw)
    rw [amountSum_cons] at hfits ⊢
    have hsum := ih (fun w hw => hpos w (mem_cons_of_mem _ hw)) (by omega)
    rw [sum_cons, Int64.toInt_add, hsum, Int.bmod_def]
    split <;> omega

theorem addInRange_ok {maxMoney total r : CAmount} {what : String}
    (htotal : 0 ≤ total.toInt) (h : addInRange maxMoney what total vs = .ok r) :
    r.toInt = total.toInt + amountSum vs ∧ 0 ≤ r.toInt ∧ ∀ v ∈ vs, 0 ≤ v.toInt := by
  induction vs generalizing total with
  | nil =>
    obtain rfl := Except.ok.inj h
    simpa using htotal
  | cons v vs ih =>
    unfold addInRange at h
    split at h
    · next hrange =>
        rw [Bool.and_eq_true, moneyRange_iff, moneyRange_iff] at hrange
        obtain ⟨⟨hv, -⟩, hsum, -⟩ := hrange
        obtain ⟨hr, hpos, hall⟩ := ih hsum h
        have hadd := toInt_add_of_nonneg htotal hv hsum
        refine ⟨?_, hpos, forall_mem_cons.mpr ⟨hv, hall⟩⟩
        rw [hr, hadd, amountSum_cons]
        omega
    · exact absurd h (by simp)

theorem addInRange_le {maxMoney total r : CAmount} {what : String}
    (htotal : 0 ≤ total.toInt) (h : addInRange maxMoney what total vs = .ok r) :
    total.toInt ≤ r.toInt ∧ ∀ v ∈ vs, v.toInt ≤ r.toInt := by
  obtain ⟨hr, -, hall⟩ := addInRange_ok htotal h
  have hall' : ∀ x ∈ vs.map Int64.toInt, 0 ≤ x := by simpa using hall
  have hsum : 0 ≤ amountSum vs := sum_nonneg hall'
  refine ⟨by omega, fun v hv => ?_⟩
  have hle : v.toInt ≤ amountSum vs :=
    single_le_sum hall' _ (mem_map_of_mem hv)
  omega

namespace CTransaction

variable (tx : CTransaction)

/-- What moves into the Sprout and Sapling pools, less what is taken out. -/
def shieldedInflow : Int :=
  amountSum (tx.vjoinsplit.map JSDescription.vpubOld)
    - amountSum (tx.vjoinsplit.map JSDescription.vpubNew) - tx.valueBalance.toInt

def transparentOut : Int := amountSum (tx.vout.map CTxOut.nValue)

/-- What counts as put into the Sapling pool. -/
def balanceOut : Int :=
  if tx.valueBalance.toInt ≤ 0 then -tx.valueBalance.toInt else 0

/-- What counts as taken out of the Sapling pool. -/
def balanceIn : Int :=
  if 0 ≤ tx.valueBalance.toInt then tx.valueBalance.toInt else 0

theorem balanceOut_sub_balanceIn : tx.balanceOut - tx.balanceIn = -tx.valueBalance.toInt := by
  unfold balanceOut balanceIn
  split <;> split <;> omega

end CTransaction

variable {maxMoney r : CAmount} {tx : CTransaction}

theorem getValueOut_ok (h : tx.getValueOut maxMoney = .ok r) :
    r.toInt = tx.transparentOut + tx.balanceOut
        + amountSum (tx.vjoinsplit.map JSDescription.vpubOld) ∧
      0 ≤ r.toInt ∧ ∀ o ∈ tx.vout, 0 ≤ o.nValue.toInt := by
  simp only [CTransaction.getValueOut, bind_eq_ok] at h
  obtain ⟨outs, houts, shielded, hshielded, hjs⟩ := h
  obtain ⟨houts, hpos, hall⟩ := addInRange_ok (by simp) houts
  obtain ⟨hshielded, hpos', hneg⟩ := addInRange_ok hpos hshielded
  obtain ⟨hjs, hpos'', -⟩ := addInRange_ok hpos' hjs
  have hbalance : amountSum (if tx.valueBalance ≤ 0 then [-tx.valueBalance] else [])
      = tx.balanceOut := by
    unfold CTransaction.balanceOut
    by_cases hb : tx.valueBalance ≤ 0
    · have hb' : tx.valueBalance.toInt ≤ 0 := by
        simpa using Int64.le_iff_toInt_le.mp hb
      rw [if_pos hb] at hneg
      rw [if_pos hb, if_pos hb', amountSum_cons, amountSum_nil, add_zero]
      exact toInt_neg_of_nonneg hb' (hneg _ (by simp))
    · have hb' : ¬ tx.valueBalance.toInt ≤ 0 := by
        simpa [Int64.le_iff_toInt_le] using hb
      rw [if_neg hb, if_neg hb', amountSum_nil]
  refine ⟨?_, hpos'', fun o ho => hall _ (mem_map_of_mem ho)⟩
  rw [hjs, hshielded, houts, hbalance, CTransaction.transparentOut]
  simp

theorem nValue_le_getValueOut
    (h : tx.getValueOut maxMoney = .ok r) : ∀ o ∈ tx.vout, o.nValue.toInt ≤ r.toInt := by
  simp only [CTransaction.getValueOut, bind_eq_ok] at h
  obtain ⟨outs, houts, shielded, hshielded, hjs⟩ := h
  obtain ⟨-, hpos, -⟩ := addInRange_ok (by simp) houts
  obtain ⟨-, hpos', -⟩ := addInRange_ok hpos hshielded
  obtain ⟨-, hle⟩ := addInRange_le (by simp) houts
  obtain ⟨hle', -⟩ := addInRange_le hpos hshielded
  obtain ⟨hle'', -⟩ := addInRange_le hpos' hjs
  intro o ho
  have hout := hle _ (mem_map_of_mem ho)
  omega

theorem transparentOut_le_getValueOut
    (h : tx.getValueOut maxMoney = .ok r) : tx.transparentOut ≤ r.toInt := by
  simp only [CTransaction.getValueOut, bind_eq_ok] at h
  obtain ⟨outs, houts, shielded, hshielded, hjs⟩ := h
  obtain ⟨hsum, hpos, -⟩ := addInRange_ok (by simp) houts
  obtain ⟨-, hpos', -⟩ := addInRange_ok hpos hshielded
  obtain ⟨hle', -⟩ := addInRange_le hpos hshielded
  obtain ⟨hle'', -⟩ := addInRange_le hpos' hjs
  have hout : outs.toInt = tx.transparentOut := by
    rw [hsum, CTransaction.transparentOut]
    simp
  omega

theorem getShieldedValueIn_ok (h : tx.getShieldedValueIn maxMoney = .ok r) :
    r.toInt = tx.balanceIn + amountSum (tx.vjoinsplit.map JSDescription.vpubNew) ∧ 0 ≤ r.toInt := by
  simp only [CTransaction.getShieldedValueIn, bind_eq_ok] at h
  obtain ⟨shielded, hshielded, hjs⟩ := h
  obtain ⟨hshielded, hpos, -⟩ := addInRange_ok (by simp) hshielded
  obtain ⟨hjs, hpos', -⟩ := addInRange_ok hpos hjs
  have hbalance : amountSum (if 0 ≤ tx.valueBalance then [tx.valueBalance] else [])
      = tx.balanceIn := by
    unfold CTransaction.balanceIn
    by_cases hb : 0 ≤ tx.valueBalance
    · have hb' : 0 ≤ tx.valueBalance.toInt := by simpa using Int64.le_iff_toInt_le.mp hb
      rw [if_pos hb, if_pos hb', amountSum_cons, amountSum_nil, add_zero]
    · have hb' : ¬ 0 ≤ tx.valueBalance.toInt := by simpa [Int64.le_iff_toInt_le] using hb
      rw [if_neg hb, if_neg hb', amountSum_nil]
  refine ⟨?_, hpos'⟩
  rw [hjs, hshielded, hbalance]
  simp

end Elosys
