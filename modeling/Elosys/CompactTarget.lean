import Mathlib.Data.Nat.Bitwise
import Elosys.Primitives

/-!
# Compact targets and chain work

The compact form of a 256-bit number (`arith_uint256.cpp`), the division by shifts and
subtractions, and the work of a block (`GetBlockProof`). A number is compacted to three bytes with
the first bit clear, so what is read back is the largest number of that form that is not above it.
-/

namespace Elosys

/-- `bits()` of the lowest `k` bits: one more than the position of the highest that is set. -/
def bitsBelow (x : UInt256) : Nat → Nat
  | 0 => 0
  | k + 1 => if x.getLsbD k then k + 1 else bitsBelow x k

def UInt256.bits (x : UInt256) : Nat := bitsBelow x 256

/-- `SetCompact`: the number, `pfNegative` and `pfOverflow`. -/
def setCompact (nCompact : UInt32) : UInt256 × Bool × Bool :=
  let nSize := nCompact.toNat >>> 24
  let nWord := nCompact.toNat &&& 0x007fffff
  let nWord := if nSize ≤ 3 then nWord >>> (8 * (3 - nSize)) else nWord
  let value := if nSize ≤ 3 then BitVec.ofNat 256 nWord
    else BitVec.ofNat 256 nWord <<< (8 * (nSize - 3))
  (value, nWord ≠ 0 && nCompact.toNat &&& 0x00800000 ≠ 0,
    nWord ≠ 0 && (34 < nSize || (0xff < nWord && 33 < nSize) || (0xffff < nWord && 32 < nSize)))

/-- `GetCompact`, `none` if an assertion fails. -/
def UInt256.getCompact (x : UInt256) (fNegative : Bool) : Option UInt32 :=
  let nSize := (x.bits + 7) / 8
  let nCompact := if nSize ≤ 3 then (x.toNat % 2 ^ 64) <<< (8 * (3 - nSize)) % 2 ^ 32
    else (x >>> (8 * (nSize - 3))).toNat % 2 ^ 32
  -- the highest bit of the three bytes stands for the sign
  let sign := nCompact &&& 0x00800000 ≠ 0
  let nCompact := if sign then nCompact >>> 8 else nCompact
  let nSize := if sign then nSize + 1 else nSize
  if nCompact >>> 23 ≠ 0 ∨ 256 ≤ nSize then none
  else
    let nCompact := nCompact ||| nSize <<< 24
    some (UInt32.ofNat
      (nCompact ||| if fNegative && nCompact &&& 0x007fffff ≠ 0 then 0x00800000 else 0))

/-- The loop of `/=`, for the shifts below the first argument: the quotient so far is the last. -/
def divideFrom : Nat → UInt256 → UInt256 → UInt256 → UInt256
  | 0, _, _, quotient => quotient
  | shift + 1, num, div, quotient =>
    if div ≤ num then
      divideFrom shift (num - div) (div >>> 1) (quotient ||| (1 : UInt256) <<< shift)
    else divideFrom shift num (div >>> 1) quotient

/-- `/=`, `none` for the exception. -/
def UInt256.divide (num div : UInt256) : Option UInt256 :=
  if div.bits = 0 then none
  else if num.bits < div.bits then some 0
  else
    let shift := num.bits - div.bits
    some (divideFrom (shift + 1) num (div <<< shift) 0)

def getBlockProof (nBits : UInt32) : Option UInt256 :=
  let (bnTarget, fNegative, fOverflow) := setCompact nBits
  if fNegative || fOverflow || bnTarget = 0 then some 0
  else ((~~~bnTarget).divide (bnTarget + 1)).map (· + 1)

/-! ### Division -/

theorem bitsBelow_le (x : UInt256) (k : Nat) : bitsBelow x k ≤ k := by
  induction k with
  | zero => exact Nat.le_refl 0
  | succ k ih =>
    rw [bitsBelow]
    split
    · exact Nat.le_refl _
    · omega

theorem bitsBelow_spec (x : UInt256) {k : Nat} (hx : x.toNat < 2 ^ k) :
    x.toNat < 2 ^ bitsBelow x k ∧ (x.toNat = 0 ∧ bitsBelow x k = 0 ∨
      2 ^ (bitsBelow x k - 1) ≤ x.toNat ∧ bitsBelow x k ≠ 0) := by
  induction k with
  | zero =>
    rw [Nat.pow_zero] at hx
    exact ⟨hx, .inl ⟨by omega, rfl⟩⟩
  | succ k ih =>
    rw [bitsBelow]
    split
    · next hbit =>
        refine ⟨hx, .inr ⟨?_, by omega⟩⟩
        exact Nat.ge_two_pow_of_testBit hbit
    · next hbit =>
        refine ih (Nat.lt_of_not_le fun hge => hbit ?_)
        have hquot : x.toNat / 2 ^ k = 1 :=
          Nat.div_eq_of_lt_le (by omega) (by rw [Nat.pow_succ] at hx; omega)
        simp [BitVec.getLsbD, Nat.testBit_eq_decide_div_mod_eq, hquot]

theorem UInt256.bits_spec (x : UInt256) : x.bits ≤ 256 ∧ x.toNat < 2 ^ x.bits ∧
    (x.toNat = 0 ∧ x.bits = 0 ∨ 2 ^ (x.bits - 1) ≤ x.toNat ∧ x.bits ≠ 0) :=
  ⟨bitsBelow_le x 256, bitsBelow_spec x x.isLt⟩

/-- **The loop divides**: what is still to be divided is below the divisor at the next shift. -/
theorem divideFrom_toNat {b k : Nat} {num div quotient : UInt256} (hk : k ≤ 256)
    (hdiv : ∀ j, k = j + 1 → div.toNat = b * 2 ^ j) (hnum : num.toNat < b * 2 ^ k)
    (hquotient : 2 ^ k ∣ quotient.toNat) :
    (divideFrom k num div quotient).toNat = quotient.toNat + num.toNat / b := by
  induction k generalizing num div quotient with
  | zero =>
    rw [Nat.pow_zero, Nat.mul_one] at hnum
    rw [divideFrom, Nat.div_eq_of_lt hnum, Nat.add_zero]
  | succ k ih =>
    have hdivisor : div.toNat = b * 2 ^ k := hdiv k rfl
    have hshift : ∀ j, k = j + 1 → (div >>> 1).toNat = b * 2 ^ j := by
      rintro j rfl
      rw [BitVec.toNat_ushiftRight, hdivisor, Nat.shiftRight_eq_div_pow, Nat.pow_one, Nat.pow_succ,
        ← Nat.mul_assoc, Nat.mul_div_cancel _ (by decide)]
    obtain ⟨q, hq⟩ := hquotient
    rw [divideFrom]
    split
    · next hle =>
        have hle' : b * 2 ^ k ≤ num.toNat := hdivisor ▸ hle
        have hbit : (quotient ||| (1 : UInt256) <<< k).toNat = quotient.toNat + 2 ^ k := by
          have hone : ((1 : UInt256) <<< k).toNat = 2 ^ k := by
            rw [BitVec.toNat_shiftLeft, Nat.shiftLeft_eq]
            simp [Nat.mod_eq_of_lt (Nat.pow_lt_pow_right (by decide : 1 < 2) hk)]
          rw [BitVec.toNat_or, hone, hq,
            Nat.two_pow_add_eq_or_of_lt (Nat.pow_lt_pow_right (by decide) k.lt_succ_self)]
        have hpos : 0 < b := Nat.pos_of_ne_zero fun h => by simp [h] at hnum
        have hone : 2 ^ k ≤ num.toNat / b :=
          (Nat.le_div_iff_mul_le hpos).mpr (by rwa [Nat.mul_comm])
        rw [ih (by omega) hshift, BitVec.toNat_sub_of_le hle, hdivisor, Nat.sub_mul_div, hbit]
        · omega
        · rw [BitVec.toNat_sub_of_le hle, hdivisor]
          rw [Nat.pow_succ, ← Nat.mul_assoc] at hnum
          omega
        · rw [hbit, hq, Nat.pow_succ, Nat.mul_assoc]
          exact Nat.dvd_add (Nat.dvd_mul_right ..) (Nat.dvd_refl _)
    · next hlt =>
        rw [ih (by omega) hshift (by simpa [hdivisor, BitVec.le_def] using hlt)]
        rw [hq, Nat.pow_succ, Nat.mul_assoc]
        exact Nat.dvd_mul_right ..

theorem UInt256.divide_eq {a b : UInt256} (hb : b ≠ 0) : a.divide b = some (a / b) := by
  obtain ⟨_, hlt, hzero | ⟨hge, hne⟩⟩ := b.bits_spec
  · exact absurd (BitVec.eq_of_toNat_eq hzero.1) hb
  obtain ⟨hbits, hltA, _⟩ := a.bits_spec
  rw [UInt256.divide, if_neg hne]
  split
  · next hless =>
      have hsmall : a.toNat < b.toNat := by
        calc a.toNat < 2 ^ a.bits := hltA
          _ ≤ 2 ^ (b.bits - 1) := Nat.pow_le_pow_right (by decide) (by omega)
          _ ≤ b.toNat := hge
      refine congrArg some (BitVec.eq_of_toNat_eq ?_)
      rw [BitVec.toNat_udiv, Nat.div_eq_of_lt hsmall]
      rfl
  · next hge' =>
      refine congrArg some (BitVec.eq_of_toNat_eq ?_)
      have hshift : (b <<< (a.bits - b.bits)).toNat = b.toNat * 2 ^ (a.bits - b.bits) := by
        rw [BitVec.toNat_shiftLeft, Nat.shiftLeft_eq, Nat.mod_eq_of_lt]
        calc b.toNat * 2 ^ (a.bits - b.bits) < 2 ^ b.bits * 2 ^ (a.bits - b.bits) :=
              Nat.mul_lt_mul_of_pos_right hlt (Nat.two_pow_pos _)
          _ = 2 ^ a.bits := by rw [← Nat.pow_add, Nat.add_sub_cancel' (by omega)]
          _ ≤ 2 ^ 256 := Nat.pow_le_pow_right (by decide) hbits
      have hnum : a.toNat < b.toNat * 2 ^ (a.bits - b.bits + 1) := by
        calc a.toNat < 2 ^ a.bits := hltA
          _ = 2 ^ (b.bits - 1) * 2 ^ (a.bits - b.bits + 1) := by
            rw [← Nat.pow_add]
            congr 1
            omega
          _ ≤ b.toNat * 2 ^ (a.bits - b.bits + 1) := Nat.mul_le_mul_right _ hge
      rw [divideFrom_toNat (by omega) (by rintro j ⟨⟩; exact hshift) hnum (Nat.dvd_zero _),
        BitVec.toNat_udiv]
      simp

/-! ### Compact numbers -/

theorem and_mantissa (n : Nat) : n &&& 0x007fffff = n % 2 ^ 23 :=
  Nat.and_two_pow_sub_one_eq_mod n 23

theorem and_sign (n : Nat) : n &&& 0x00800000 ≠ 0 ↔ n / 2 ^ 23 % 2 = 1 := by
  rw [show 0x00800000 = 2 ^ 23 from rfl, Nat.and_two_pow, Nat.testBit_eq_decide_div_mod_eq]
  simp

theorem setCompact_valid {n : UInt32} {v : UInt256} (h : setCompact n = (v, false, false)) :
    ∃ w e, w < 2 ^ 23 ∧ v.toNat = w * 256 ^ e := by
  have hword : n.toNat % 2 ^ 23 < 2 ^ 23 := Nat.mod_lt _ (Nat.two_pow_pos 23)
  simp only [setCompact, and_mantissa, Prod.mk.injEq] at h
  generalize n.toNat % 2 ^ 23 = w at h hword
  generalize n.toNat >>> 24 = s at h
  obtain ⟨rfl, _, hoverflow⟩ := h
  by_cases hs : s ≤ 3
  · simp only [if_pos hs]
    have hle : w >>> (8 * (3 - s)) ≤ w := Nat.shiftRight_le ..
    exact ⟨_, 0, Nat.lt_of_le_of_lt hle hword, by simp; omega⟩
  · simp only [if_neg hs] at hoverflow ⊢
    -- the bytes of the word, and those that are added
    obtain ⟨k, hk, hbytes⟩ : ∃ k, w < 256 ^ k ∧ (k + (s - 3) ≤ 32 ∨ w = 0) := by
      simp at hoverflow
      by_cases h34 : s = 34
      · exact ⟨1, by omega, by omega⟩
      by_cases h33 : s = 33
      · exact ⟨2, by omega, by omega⟩
      · exact ⟨3, by omega, by omega⟩
    have hfits : w * 256 ^ (s - 3) < 2 ^ 256 := by
      obtain hbytes | rfl := hbytes
      · calc w * 256 ^ (s - 3) < 256 ^ k * 256 ^ (s - 3) :=
              Nat.mul_lt_mul_of_pos_right hk (Nat.pow_pos (by decide))
          _ = 256 ^ (k + (s - 3)) := (Nat.pow_add ..).symm
          _ ≤ 256 ^ 32 := Nat.pow_le_pow_right (by decide) hbytes
      · simp
    refine ⟨w, s - 3, hword, ?_⟩
    rw [BitVec.toNat_shiftLeft, BitVec.toNat_ofNat, Nat.mod_eq_of_lt (by omega : w < 2 ^ 256),
      Nat.shiftLeft_eq, Nat.pow_mul, Nat.mod_eq_of_lt hfits]

/-- The size and mantissa of the compact form of a number. -/
structure Compacted (x s m : Nat) : Prop where
  mantissa_eq : m = x * 256 ^ 3 / 256 ^ s
  mantissa_lt : m < 2 ^ 23
  size_le : s ≤ 33
  normal : 2 ^ 15 ≤ m ∨ x = 0 ∧ s = 0

theorem scale_of_le {k : Nat} (hk : k ≤ 3) (x : Nat) :
    x * 256 ^ 3 / 256 ^ k = x * 256 ^ (3 - k) := by
  rw [show 256 ^ 3 = 256 ^ (3 - k) * 256 ^ k by rw [← Nat.pow_add, Nat.sub_add_cancel hk],
    ← Nat.mul_assoc, Nat.mul_div_cancel _ (Nat.pow_pos (by decide))]

theorem scale_of_ge {k : Nat} (hk : 3 ≤ k) (x : Nat) :
    x * 256 ^ 3 / 256 ^ k = x / 256 ^ (k - 3) := by
  rw [show 256 ^ k = 256 ^ (k - 3) * 256 ^ 3 by rw [← Nat.pow_add, Nat.sub_add_cancel hk],
    Nat.mul_div_mul_right _ _ (by decide)]

theorem getCompact_spec (x : UInt256) : ∃ s m, Compacted x.toNat s m ∧
    x.getCompact false = some (UInt32.ofNat (m + s * 2 ^ 24)) := by
  obtain ⟨hbits, hlt, hcase⟩ := x.bits_spec
  generalize hk : (x.bits + 7) / 8 = k
  generalize hr : x.toNat * 256 ^ 3 / 256 ^ k = r
  have hbytes : x.toNat < 256 ^ k := by
    calc x.toNat < 2 ^ x.bits := hlt
      _ ≤ 2 ^ (8 * k) := Nat.pow_le_pow_right (by decide) (by omega)
      _ = 256 ^ k := Nat.pow_mul 2 8 k
  have hrlt : r < 2 ^ 24 :=
    hr ▸ Nat.div_lt_of_lt_mul (Nat.mul_lt_mul_of_pos_right hbytes (by decide))
  have hnormal : 2 ^ 16 ≤ r ∨ x.toNat = 0 ∧ k = 0 := by
    obtain ⟨hzero, hbits⟩ | ⟨hge, hne⟩ := hcase
    · exact .inr ⟨hzero, by omega⟩
    · refine .inl (hr ▸ (Nat.le_div_iff_mul_le (Nat.pow_pos (by decide))).mpr ?_)
      calc 2 ^ 16 * 256 ^ k = 256 ^ (k - 1) * 256 ^ 3 := by
            rw [show 2 ^ 16 = 256 ^ 2 from rfl, ← Nat.pow_add, ← Nat.pow_add]
            congr 1
            omega
        _ = 2 ^ (8 * (k - 1)) * 256 ^ 3 := by rw [Nat.pow_mul]
        _ ≤ x.toNat * 256 ^ 3 := Nat.mul_le_mul_right _
          (Nat.le_trans (Nat.pow_le_pow_right (by decide) (by omega)) hge)
  have hraw : (if k ≤ 3 then (x.toNat % 2 ^ 64) <<< (8 * (3 - k)) % 2 ^ 32
      else (x >>> (8 * (k - 3))).toNat % 2 ^ 32) = r := by
    split
    · next hle =>
        have hsmall : 256 ^ k ≤ 256 ^ 3 := Nat.pow_le_pow_right (by decide) hle
        rw [Nat.mod_eq_of_lt (by omega : x.toNat < 2 ^ 64), Nat.shiftLeft_eq, Nat.pow_mul,
          ← scale_of_le hle, hr]
        omega
    · next hgt =>
        rw [BitVec.toNat_ushiftRight, Nat.shiftRight_eq_div_pow, Nat.pow_mul,
          ← scale_of_ge (by omega), hr]
        omega
  have hor : ∀ {m s : Nat}, m < 2 ^ 23 → m ||| s <<< 24 = m + s * 2 ^ 24 := by
    intro m s hm
    rw [Nat.or_comm, ← Nat.shiftLeft_add_eq_or_of_lt (by omega), Nat.shiftLeft_eq, Nat.add_comm]
  simp only [UInt256.getCompact, hk, hraw, and_sign, Bool.false_and, Nat.shiftRight_eq_div_pow]
  by_cases hsign : r / 2 ^ 23 % 2 = 1
  · refine ⟨k + 1, r / 256, ⟨?_, by omega, by omega, by omega⟩, ?_⟩
    · rw [← hr, Nat.div_div_eq_div_mul, Nat.pow_succ 256 k]
    · rw [if_pos hsign, if_pos hsign, if_neg (by omega), hor (by omega)]
      simp
  · refine ⟨k, r, ⟨hr.symm, by omega, by omega, by omega⟩, ?_⟩
    rw [if_neg hsign, if_neg hsign, if_neg (by omega), hor (by omega)]
    simp

theorem Compacted.toNat_ofNat {x s m : Nat} (h : Compacted x s m) :
    (UInt32.ofNat (m + s * 2 ^ 24)).toNat = m + s * 2 ^ 24 := by
  have hm := h.mantissa_lt
  have hs := h.size_le
  exact UInt32.toNat_ofNat_of_lt' (show _ < 2 ^ 32 by omega)

theorem Compacted.mono {x y s t m n : Nat} (hx : Compacted x s m) (hy : Compacted y t n)
    (hle : x ≤ y) : m + s * 2 ^ 24 ≤ n + t * 2 ^ 24 := by
  have hscaled : x * 256 ^ 3 ≤ y * 256 ^ 3 := Nat.mul_le_mul_right _ hle
  have hm := hx.mantissa_lt
  obtain hlt | rfl | hgt := Nat.lt_trichotomy s t
  · omega
  · have hmn : m ≤ n := by
      rw [hx.mantissa_eq, hy.mantissa_eq]
      exact Nat.div_le_div_right hscaled
    omega
  · have hnormal : 2 ^ 15 ≤ m := hx.normal.resolve_right (by omega)
    have hlow : 2 ^ 15 * 256 ^ s ≤ x * 256 ^ 3 := by
      calc 2 ^ 15 * 256 ^ s ≤ m * 256 ^ s := Nat.mul_le_mul_right _ hnormal
        _ ≤ x * 256 ^ 3 := hx.mantissa_eq ▸ Nat.div_mul_le_self ..
    have hhigh : y * 256 ^ 3 < 2 ^ 23 * 256 ^ t :=
      (Nat.div_lt_iff_lt_mul (Nat.pow_pos (by decide))).mp (hy.mantissa_eq ▸ hy.mantissa_lt)
    have hpow : 256 ^ (t + 1) ≤ 256 ^ s := Nat.pow_le_pow_right (by decide) hgt
    rw [Nat.pow_succ] at hpow
    omega

theorem Compacted.largest {x s m : Nat} (h : Compacted x s m) (hx : x < 2 ^ 256) :
    ∃ v, setCompact (UInt32.ofNat (m + s * 2 ^ 24)) = (v, false, false) ∧ v.toNat ≤ x ∧
      ∀ w e, w < 2 ^ 23 → w * 256 ^ e ≤ x → w * 256 ^ e ≤ v.toNat := by
  have hn := h.toNat_ofNat
  obtain ⟨hmantissa, hm, hs33, hnormal⟩ := h
  have hsize : (m + s * 2 ^ 24) / 2 ^ 24 = s := by omega
  have hword : (m + s * 2 ^ 24) % 2 ^ 23 = m := by omega
  have hsign : ¬(m + s * 2 ^ 24) / 2 ^ 23 % 2 = 1 := by omega
  simp only [setCompact, hn, and_mantissa, and_sign, Nat.shiftRight_eq_div_pow, hsize, hword, hsign]
  by_cases hs : s ≤ 3
  · rw [scale_of_le hs] at hmantissa
    have hvalue : m / 2 ^ (8 * (3 - s)) = x := by
      rw [Nat.pow_mul, hmantissa, Nat.mul_div_cancel _ (Nat.pow_pos (by decide))]
    have hv : (BitVec.ofNat 256 x).toNat = x := Nat.mod_eq_of_lt hx
    refine ⟨BitVec.ofNat 256 x, ?_, by rw [hv], by simp [hv]⟩
    simp [hs, hvalue]
    omega
  · rw [scale_of_ge (by omega)] at hmantissa
    have hle : m * 256 ^ (s - 3) ≤ x := hmantissa ▸ Nat.div_mul_le_self ..
    have hv : (BitVec.ofNat 256 m <<< (8 * (s - 3))).toNat = m * 256 ^ (s - 3) := by
      rw [BitVec.toNat_shiftLeft, BitVec.toNat_ofNat, Nat.mod_eq_of_lt (by omega : m < 2 ^ 256),
        Nat.shiftLeft_eq, Nat.pow_mul, Nat.mod_eq_of_lt (Nat.lt_of_le_of_lt hle hx)]
    have htwo : s = 33 → m < 2 ^ 16 := by
      rintro rfl
      exact hmantissa ▸ Nat.div_lt_of_lt_mul hx
    refine ⟨_, ?_, hv ▸ hle, fun w e hw hwe => ?_⟩
    · simp [hs]
      omega
    rw [hv]
    by_cases he : s - 3 ≤ e
    · -- a multiple of the same power of 256
      rw [show 256 ^ e = 256 ^ (e - (s - 3)) * 256 ^ (s - 3) by
        rw [← Nat.pow_add, Nat.sub_add_cancel he], ← Nat.mul_assoc] at hwe ⊢
      exact Nat.mul_le_mul_right _
        (hmantissa ▸ (Nat.le_div_iff_mul_le (Nat.pow_pos (by decide))).mpr hwe)
    · have hpow : 256 ^ (e + 1) ≤ 256 ^ (s - 3) := Nat.pow_le_pow_right (by decide) (by omega)
      calc w * 256 ^ e ≤ 2 ^ 23 * 256 ^ e := Nat.mul_le_mul_right _ (Nat.le_of_lt hw)
        _ = 2 ^ 15 * 256 ^ (e + 1) := by
          rw [Nat.pow_succ]
          omega
        _ ≤ m * 256 ^ (s - 3) := Nat.mul_le_mul (hnormal.resolve_right (by omega)) hpow

theorem largest_compact (x : UInt256) : ∃ n v, x.getCompact false = some n ∧
    setCompact n = (v, false, false) ∧ v ≤ x ∧
    ∀ m w, setCompact m = (w, false, false) → w ≤ x → w ≤ v := by
  obtain ⟨s, m, hcompact, hget⟩ := getCompact_spec x
  obtain ⟨v, hset, hle, hmax⟩ := hcompact.largest x.isLt
  refine ⟨_, v, hget, hset, hle, fun n w hw hwx => ?_⟩
  obtain ⟨word, e, hword, hvalue⟩ := setCompact_valid hw
  rw [BitVec.le_def, hvalue] at hwx ⊢
  exact hmax word e hword hwx

theorem getBlockProof_eq {n : UInt32} {v : UInt256} (h : setCompact n = (v, false, false))
    (hv : v ≠ 0) : ∃ p, getBlockProof n = some p ∧ p.toNat = 2 ^ 256 / (v.toNat + 1) := by
  obtain ⟨w, e, hw, hvalue⟩ := setCompact_valid h
  -- the largest number has no compact form
  have hsucc : v.toNat + 1 < 2 ^ 256 := by
    have hlt := v.isLt
    cases e with
    | zero => omega
    | succ e =>
      rw [Nat.pow_succ, ← Nat.mul_assoc] at hvalue
      omega
  have hnext : (v + 1).toNat = v.toNat + 1 := by
    rw [BitVec.toNat_add]
    exact Nat.mod_eq_of_lt hsucc
  have hne : v + 1 ≠ 0 := by
    intro hzero
    rw [hzero] at hnext
    exact absurd hnext.symm (Nat.succ_ne_zero _)
  have hpos : v.toNat ≠ 0 := fun hzero => hv (BitVec.eq_of_toNat_eq hzero)
  have hwork : (2 ^ 256 - 1 - v.toNat) / (v.toNat + 1) + 1 = 2 ^ 256 / (v.toNat + 1) := by
    rw [← Nat.add_div_right _ v.toNat.succ_pos]
    congr 1
    omega
  refine ⟨~~~v / (v + 1) + 1, ?_, ?_⟩
  · simp only [getBlockProof, h, Bool.false_or, decide_eq_true_eq, if_neg hv,
      UInt256.divide_eq hne, Option.map_some]
  · rw [BitVec.toNat_add, BitVec.toNat_udiv, BitVec.toNat_not, hnext]
    exact hwork ▸ Nat.mod_eq_of_lt (hwork ▸ Nat.div_lt_self (by decide) (by omega))

/-- **Compact targets and chain work**: the compact form is read back as the largest such number
that is not above; it grows with the number; a number that has a compact form is read back from it;
and the division and the work of a block are exact. -/
theorem compact_targets_exact :
    (∀ x : UInt256, ∃ n v, x.getCompact false = some n ∧ setCompact n = (v, false, false) ∧ v ≤ x ∧
      ∀ m w, setCompact m = (w, false, false) → w ≤ x → w ≤ v) ∧
    (∀ (x y : UInt256) (n m : UInt32), x ≤ y → x.getCompact false = some n →
      y.getCompact false = some m → n ≤ m) ∧
    (∀ n v, setCompact n = (v, false, false) → v ≠ 0 →
      ∃ m, v.getCompact false = some m ∧ setCompact m = (v, false, false)) ∧
    (∀ a b : UInt256, b ≠ 0 → a.divide b = some (a / b)) ∧
    (∀ n v, setCompact n = (v, false, false) → v ≠ 0 →
      ∃ p, getBlockProof n = some p ∧ p.toNat = 2 ^ 256 / (v.toNat + 1)) := by
  refine ⟨largest_compact, fun x y n m hle hn hm => ?_, fun n v hset _ => ?_,
    fun a b => UInt256.divide_eq, fun n v => getBlockProof_eq⟩
  · obtain ⟨s, k, hx, hget⟩ := getCompact_spec x
    obtain ⟨t, l, hy, hget'⟩ := getCompact_spec y
    obtain rfl := Option.some.inj (hn.symm.trans hget)
    obtain rfl := Option.some.inj (hm.symm.trans hget')
    rw [UInt32.le_iff_toNat_le, hx.toNat_ofNat, hy.toNat_ofNat]
    exact hx.mono hy hle
  · obtain ⟨m, w, hget, hset', hle, hmax⟩ := largest_compact v
    obtain rfl := BitVec.le_antisymm hle (hmax n v hset (BitVec.le_refl v))
    exact ⟨m, hget, hset'⟩

end Elosys
