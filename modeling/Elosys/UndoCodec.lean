import Elosys.Amounts
import Elosys.ByteCodec
import Elosys.ConnectBlock

/-!
# Undo Data on Disk

The format of `undo.h` and `compressor.h`: amounts without trailing zeros, common scripts in a
short form, metadata only for the last output of coins, and a checksum. `UndoWriteToDisk` and
`UndoReadFromDisk` start at the position in the undo file; the header before it is not read back.

## Main results

* The amount code is read back exactly where it fits 64 bits.
* `undoReadFromDisk_undoWriteToDisk`: undo data that the formats can hold is read back as written.
-/

open ByteCodec List Option

namespace Elosys

def maxSize : Nat := 0x02000000

/-! ### Amounts -/

/-- The loop of `CompressAmount`: the number without up to `room` zeros, and how many. -/
def stripZeros : Nat → Nat → Nat × Nat
  | 0, n => (n, 0)
  | room + 1, n =>
    if n % 10 = 0 then ((stripZeros room (n / 10)).1, (stripZeros room (n / 10)).2 + 1)
    else (n, 0)

/-- What `CompressAmount` computes: `1 + 10 * (9 * n + d - 1) + e` for leading digits `n`, last
digit `d` and `e` zeros, or `1 + 10 * (n - 1) + 9`. -/
def amountCode (n : Nat) : Nat :=
  if n = 0 then 0
  else
    let (n, e) := stripZeros 9 n
    if e < 9 then 1 + (n / 10 * 9 + n % 10 - 1) * 10 + e else 1 + (n - 1) * 10 + 9

/-- `CTxOutCompressor::CompressAmount`, in 64 bits. -/
def compressAmount (n : Nat) : Nat := amountCode n % 2 ^ 64

def decompressAmount (x : Nat) : Nat :=
  if x = 0 then 0
  else
    let e := (x - 1) % 10
    let x := (x - 1) / 10
    let n := if e < 9 then x / 9 * 10 + (x % 9 + 1) else x + 1
    n * 10 ^ e % 2 ^ 64

theorem stripZeros_spec (room n : Nat) : (stripZeros room n).1 * 10 ^ (stripZeros room n).2 = n ∧
      (stripZeros room n).2 ≤ room ∧
      ((stripZeros room n).2 < room → (stripZeros room n).1 % 10 ≠ 0) := by
  induction room generalizing n with
  | zero => simp [stripZeros]
  | succ room ih =>
    obtain ⟨hvalue, hle, hlast⟩ := ih (n / 10)
    by_cases hn : n % 10 = 0
    · simp only [stripZeros, hn, if_true]
      refine ⟨?_, by omega, fun h => hlast (by omega)⟩
      rw [Nat.pow_succ, ← Nat.mul_assoc, hvalue]
      omega
    · simp [stripZeros, hn]

variable {n : Nat}

theorem decompressAmount_compressAmount (h : n < 2 ^ 64)
    (hfit : amountCode n < 2 ^ 64) : decompressAmount (compressAmount n) = n := by
  rw [compressAmount, Nat.mod_eq_of_lt hfit]
  by_cases hn : n = 0
  · simp [hn, amountCode, decompressAmount]
  obtain ⟨hvalue, hle, hlast⟩ := stripZeros_spec 9 n
  have hword : n % 2 ^ 64 = n := Nat.mod_eq_of_lt h
  rw [amountCode, if_neg hn]
  generalize stripZeros 9 n = q at hvalue hle hlast
  obtain ⟨m, e⟩ := q
  simp only at hvalue hle hlast ⊢
  by_cases he : e < 9
  · have hdigit := hlast he
    rw [if_pos he, decompressAmount, if_neg (by omega)]
    have hexp : (1 + (m / 10 * 9 + m % 10 - 1) * 10 + e - 1) % 10 = e := by omega
    have hrest : (1 + (m / 10 * 9 + m % 10 - 1) * 10 + e - 1) / 10
        = m / 10 * 9 + m % 10 - 1 := by omega
    have hback : (m / 10 * 9 + m % 10 - 1) / 9 * 10 + ((m / 10 * 9 + m % 10 - 1) % 9 + 1)
        = m := by omega
    simp only [hexp, hrest, he, if_true, hback, hvalue, hword]
  · obtain rfl : e = 9 := by omega
    rw [if_neg he, decompressAmount, if_neg (by omega)]
    have hexp : (1 + (m - 1) * 10 + 9 - 1) % 10 = 9 := by omega
    have hback : (1 + (m - 1) * 10 + 9 - 1) / 10 + 1 = m := by omega
    simp only [hexp, he, if_false, hback, hvalue, hword]

/-- What `DecompressAmount` computes, over the integers. -/
def amountOf (x : Nat) : Nat :=
  if x = 0 then 0
  else
    let e := (x - 1) % 10
    let x := (x - 1) / 10
    (if e < 9 then x / 9 * 10 + (x % 9 + 1) else x + 1) * 10 ^ e

theorem decompressAmount_eq (x : Nat) : decompressAmount x = amountOf x % 2 ^ 64 := by
  unfold decompressAmount amountOf
  split
  · rfl
  · rfl

theorem stripZeros_mul (room m e : Nat) : stripZeros (room + e) (m * 10 ^ e) =
    ((stripZeros room m).1, (stripZeros room m).2 + e) := by
  induction e with
  | zero => simp
  | succ e ih =>
    have hdiv : m * 10 ^ (e + 1) / 10 = m * 10 ^ e := by
      rw [Nat.pow_succ, ← Nat.mul_assoc, Nat.mul_div_cancel _ (by omega)]
    have hmod : m * 10 ^ (e + 1) % 10 = 0 := by
      rw [Nat.pow_succ, ← Nat.mul_assoc, Nat.mul_mod_left]
    rw [← Nat.add_assoc, stripZeros, if_pos hmod, hdiv, ih, Nat.add_assoc]

theorem amountCode_amountOf (x : Nat) : amountCode (amountOf x) = x := by
  by_cases hx : x = 0
  · simp [hx, amountOf, amountCode]
  simp only [amountOf, if_neg hx]
  generalize he : (x - 1) % 10 = e
  generalize hm : (if e < 9 then (x - 1) / 10 / 9 * 10 + ((x - 1) / 10 % 9 + 1)
    else (x - 1) / 10 + 1) = m
  have hlast : stripZeros (9 - e) m = (m, 0) := by
    split at hm
    · obtain ⟨r, hr⟩ : ∃ r, 9 - e = r + 1 := ⟨8 - e, by omega⟩
      rw [hr, stripZeros, if_neg (by omega)]
    · rw [Nat.sub_eq_zero_of_le (by omega), stripZeros]
  have hstrip := stripZeros_mul (9 - e) m e
  rw [Nat.sub_add_cancel (by omega), hlast] at hstrip
  have hpos : m ≠ 0 := by split at hm <;> omega
  rw [amountCode, if_neg (Nat.mul_ne_zero hpos (Nat.pow_pos (by omega)).ne'), hstrip]
  simp only [Nat.zero_add]
  split at hm <;> simp only [*, if_true, if_false] <;> omega

theorem amountCode_of_digit (h : n % 10 ≠ 0) : amountCode n = 9 * n + n % 10 - 9 := by
  have hstrip : stripZeros 9 n = (n, 0) := by rw [stripZeros, if_neg h]
  rw [amountCode, if_neg (by omega), hstrip]
  simp only [Nat.zero_lt_succ, if_true]
  omega

theorem amountCode_lt_iff (h : n < 2 ^ 63) :
    amountCode n < 2 ^ 64 ↔ n % 10 = 0 ∨ n ≤ 2049638230412172402 := by
  by_cases hn : n % 10 = 0
  · refine iff_of_true ?_ (.inl hn)
    unfold amountCode
    split
    · omega
    · obtain ⟨hvalue, hle, hlast⟩ := stripZeros_spec 9 n
      generalize stripZeros 9 n = q at hvalue hle hlast
      obtain ⟨m, e⟩ := q
      simp only at hvalue hle hlast ⊢
      cases e with
      | zero => exact absurd hn (by simpa [← hvalue] using hlast)
      | succ e =>
        have hpos : 0 < 10 ^ e := Nat.pow_pos (by omega)
        have hm : m * 10 ≤ n := by
          rw [← hvalue, Nat.pow_succ, ← Nat.mul_assoc]
          exact Nat.mul_le_mul_right 10 (Nat.le_mul_of_pos_right m hpos)
        split <;> omega
  · rw [amountCode_of_digit hn]
    omega

theorem amountCode_lt (h : n ≤ 2049638230412172401) : amountCode n < 2 ^ 64 :=
  (amountCode_lt_iff (by omega)).mpr (.inr (by omega))

theorem add_mul_inverse_mod {M c i m b a q : Nat} (hi : c * i % M = 1) (h : c * m + b = a + q * M) :
    (m + b * i) % M = a * i % M := by
  calc (m + b * i) % M = (c * i % M * m + b * i) % M := by rw [hi, Nat.one_mul]
    _ = (c * i * m + b * i) % M := by rw [Nat.add_mod, Nat.mod_mul_mod, ← Nat.add_mod]
    _ = (a + q * M) * i % M := by rw [← h, Nat.add_mul, Nat.mul_right_comm]
    _ = a * i % M := by rw [Nat.add_mul, Nat.mul_right_comm, Nat.add_mul_mod_self_right]

theorem wrapped_digits {M n m a k p i : Nat} (hi : (9 * p - 9) * i % M = 1)
    (hcode : 9 * n + 9 = 9 * m + a + k * M) (h : m * p % M = n) :
    (m + 9 * i) % M = a * i % M := by
  refine add_mul_inverse_mod (q := k + 9 * (m * p / M)) hi ?_
  have hdiv := Nat.div_add_mod (m * p) M
  rw [h] at hdiv
  have hp : 9 * m ≤ 9 * (m * p) := by
    cases p with
    | zero => simp at hi
    | succ p => exact Nat.mul_le_mul_left 9 (Nat.le_mul_of_pos_right m (by omega))
  rw [Nat.sub_mul, Nat.mul_assoc, Nat.mul_comm p m, Nat.add_mul, Nat.mul_assoc 9,
    Nat.mul_comm (m * p / M) M]
  omega

theorem wrapped_ne {m u k e : Nat} (hm : m < 2049638230412172404) (hu : u ≤ 18)
    (hcode : 9 * n + 9 = 9 * m + (u + e) + k * 2 ^ 64)
    (hk : k = 1 ∧ e = 4 ∨ k = 2 ∧ e = 8 ∨ k = 3 ∧ e = 2 ∨ k = 4 ∧ e = 6) :
    m * 10 ^ e % 2 ^ 64 ≠ n := by
  intro h
  rcases hk with ⟨rfl, rfl⟩ | ⟨rfl, rfl⟩ | ⟨rfl, rfl⟩ | ⟨rfl, rfl⟩
  · have hlast : u = 7 ∨ u = 16 := by clear h; omega
    have := wrapped_digits (i := 15842828238033401399) (by decide) hcode h
    clear h hcode
    rcases hlast with rfl | rfl <;> omega
  · have hlast : u = 5 ∨ u = 14 := by clear h; omega
    have := wrapped_digits (i := 16430456183658535111) (by decide) hcode h
    clear h hcode
    rcases hlast with rfl | rfl <;> omega
  · have hlast : u = 4 ∨ u = 13 := by clear h; omega
    have := wrapped_digits (i := 13705661702352102323) (by decide) hcode h
    clear h hcode
    rcases hlast with rfl | rfl <;> omega
  · have hlast : u = 2 ∨ u = 11 := by clear h; omega
    have := wrapped_digits (i := 12483635422780629383) (by decide) hcode h
    clear h hcode
    rcases hlast with rfl | rfl <;> omega

theorem decompressAmount_wrapped (h : n < 2 ^ 63) (hcode : 2 ^ 64 ≤ amountCode n) :
    decompressAmount (compressAmount n) ≠ n := by
  have hdigit : n % 10 ≠ 0 := by
    intro hn
    have := (amountCode_lt_iff h).mpr (.inl hn)
    omega
  rw [compressAmount, amountCode_of_digit hdigit] at *
  obtain ⟨x, k, hx, hk, hkx⟩ : ∃ x k, x < 2 ^ 64 ∧ (k = 1 ∨ k = 2 ∨ k = 3 ∨ k = 4) ∧
      9 * n + n % 10 - 9 = x + k * 2 ^ 64 :=
    ⟨(9 * n + n % 10 - 9) % 2 ^ 64, (9 * n + n % 10 - 9) / 2 ^ 64, by omega, by omega, by omega⟩
  rw [hkx, Nat.add_mul_mod_self_right, Nat.mod_eq_of_lt hx]
  unfold decompressAmount
  split
  · omega
  · dsimp only
    have hzeros : (x - 1) % 10 < 9 := by omega
    rw [if_pos hzeros]
    refine wrapped_ne (u := (x - 1) / 10 % 9 + 10 - n % 10) (k := k) ?_ ?_ ?_ ?_
    · omega
    · omega
    · omega
    · omega

/-- **The amount code is exact where it fits 64 bits**: an amount is read back exactly when it ends
in a zero or is at most `2049638230412172402`. -/
theorem amounts_kept_iff (maxMoney x : Nat) : (maxMoney < 2 ^ 63 → ∀ n ≤ maxMoney,
      (decompressAmount (compressAmount n) = n ↔ n % 10 = 0 ∨ n ≤ 2049638230412172402)) ∧
    (x < 2 ^ 64 → amountOf x < 2 ^ 64 → compressAmount (decompressAmount x) = x) := by
  refine ⟨fun hmax n hn => ?_, fun hx hfit => ?_⟩
  · have h : n < 2 ^ 63 := by omega
    rw [← amountCode_lt_iff h]
    refine ⟨fun hback => ?_, decompressAmount_compressAmount (by omega)⟩
    by_contra hcode
    exact decompressAmount_wrapped h (by omega) hback
  · rw [decompressAmount_eq, Nat.mod_eq_of_lt hfit, compressAmount, amountCode_amountOf,
      Nat.mod_eq_of_lt hx]

/-- An amount whose code wraps around. -/
theorem amount_code_wraps :
    decompressAmount (compressAmount 2049638230412172403) ≠ 2049638230412172403 := by decide

theorem compressAmount_lt (n : Nat) : compressAmount n < 2 ^ 64 :=
  Nat.mod_lt _ (by omega)

/-! ### Scripts -/

/-- The public keys of the vendored curve library. A valid full key is determined by its first
coordinate and the parity of its second. -/
class PubKeys where
  isFullyValid : List UInt8 → Bool
  decompress : List UInt8 → Option (List UInt8)
  decompress_eq : ∀ key : List UInt8, key.length = 65 → key.head? = some 0x04 →
    isFullyValid key = true →
    decompress ((0x02 ||| (key.getD 64 0 &&& 0x01)) :: (key.drop 1).take 32) = some key

@[reducible] def diagonalKeys : PubKeys where
  isFullyValid key := key.length == 65 && key.drop 33 == (key.drop 1).take 32
  decompress key := some (0x04 :: (key.drop 1 ++ key.drop 1))
  decompress_eq key hlen hhead hvalid := by
    cases key with
    | nil => simp at hhead
    | cons k key =>
      simp only [Bool.and_eq_true, beq_iff_eq, List.drop_succ_cons, List.drop_zero,
        List.head?_cons, some.injEq] at hvalid hhead ⊢
      have hsplit := List.take_append_drop 32 key
      rw [hvalid.2] at hsplit
      rw [hhead, hsplit]

def opDup : UInt8 := 0x76

def opEqual : UInt8 := 0x87

def opEqualverify : UInt8 := 0x88

def opHash160 : UInt8 := 0xa9

def opChecksig : UInt8 := 0xac

def isToKeyID (s : CScript) : Option (List UInt8) :=
  if s.length = 25 ∧ s.take 3 = [opDup, opHash160, 20] ∧
      s.drop 23 = [opEqualverify, opChecksig] then
    some ((s.drop 3).take 20)
  else none

def isToScriptID (s : CScript) : Option (List UInt8) :=
  if s.length = 23 ∧ s.take 2 = [opHash160, 20] ∧ s.drop 22 = [opEqual] then
    some ((s.drop 2).take 20)
  else none

section

variable [PubKeys]

def isToPubKey (s : CScript) : Option (List UInt8) :=
  if s.length = 35 ∧ s.head? = some 33 ∧ s.drop 34 = [opChecksig] ∧
      (s[1]? = some 0x02 ∨ s[1]? = some 0x03) then
    some ((s.drop 1).take 33)
  else if s.length = 67 ∧ s.head? = some 65 ∧ s.drop 66 = [opChecksig] ∧
      s[1]? = some 0x04 then
    if PubKeys.isFullyValid ((s.drop 1).take 65) then some ((s.drop 1).take 65) else none
  else none

/-- The public key part of `CScriptCompressor::Compress`. -/
def compressPubKey (pubkey : List UInt8) : Option (List UInt8) :=
  if pubkey.head? = some 0x02 ∨ pubkey.head? = some 0x03 then
    some (pubkey.headD 0 :: (pubkey.drop 1).take 32)
  else if pubkey.head? = some 0x04 then
    some ((0x04 ||| (pubkey.getD 64 0 &&& 0x01)) :: (pubkey.drop 1).take 32)
  else none

/-- `CScriptCompressor::Compress`. -/
def compressScript (s : CScript) : Option (List UInt8) :=
  match isToKeyID s with
  | some keyID => some (0x00 :: keyID)
  | none =>
    match isToScriptID s with
    | some scriptID => some (0x01 :: scriptID)
    | none => (isToPubKey s).bind compressPubKey

def getSpecialSize (nSize : Nat) : Nat :=
  if nSize = 0 ∨ nSize = 1 then 20
  else if nSize = 2 ∨ nSize = 3 ∨ nSize = 4 ∨ nSize = 5 then 32
  else 0

/-- `CScriptCompressor::Decompress`. -/
def decompressScript (nSize : Nat) (vch : List UInt8) : Option CScript :=
  match nSize with
  | 0 => some ([opDup, opHash160, 20] ++ vch ++ [opEqualverify, opChecksig])
  | 1 => some ([opHash160, 20] ++ vch ++ [opEqual])
  | 2 => some ([33, 0x02] ++ vch ++ [opChecksig])
  | 3 => some ([33, 0x03] ++ vch ++ [opChecksig])
  | 4 => (PubKeys.decompress (0x02 :: vch)).map fun key => 65 :: key ++ [opChecksig]
  | 5 => (PubKeys.decompress (0x03 :: vch)).map fun key => 65 :: key ++ [opChecksig]
  | _ => none

def nSpecialScripts : Nat := 6

/-- `CScriptCompressor::Serialize`. -/
def writeScript (s : CScript) : List UInt8 :=
  match compressScript s with
  | some compr => compr
  | none => varInt true ((s.length + nSpecialScripts) % 2 ^ 32) ++ s

/-- `CScriptCompressor::Unserialize`; a key that cannot be decompressed leaves the script empty,
an overly long script becomes unspendable. -/
def readScriptBody (nSize : Nat) : Reader CScript :=
  if nSize < nSpecialScripts then do
    let vch ← bytes (getSpecialSize nSize)
    return (decompressScript nSize vch).getD []
  else if maxScriptSize < nSize - nSpecialScripts then do
    skip (nSize - nSpecialScripts)
    return [opReturn]
  else bytes (nSize - nSpecialScripts)

/-- `CScriptCompressor::Unserialize`. -/
def readScript : Reader CScript := do
  let nSize ← readVarInt 32
  readScriptBody nSize

/-! ### Scripts are read back -/

section
omit [PubKeys]

theorem take_append_take_append_drop (s : List UInt8) (i j : Nat) :
    s.take i ++ (s.drop i).take j ++ s.drop (i + j) = s := by
  rw [append_assoc, ← drop_drop, take_append_drop, take_append_drop]

theorem take_two {s : List UInt8} {a b : UInt8} (ha : s.head? = some a)
    (hb : s[1]? = some b) : s.take 2 = [a, b] := by
  rcases s with _ | ⟨x, _ | ⟨y, s⟩⟩
  · exact absurd ha (by simp)
  · exact absurd hb (by simp)
  · obtain rfl : x = a := by simpa using ha
    obtain rfl : y = b := by simpa using hb
    rfl

theorem and_one_cases (b : UInt8) : b &&& 0x01 = 0x00 ∨ b &&& 0x01 = 0x01 := by
  have hnat : (b &&& 0x01).toNat = b.toNat % 2 := by
    exact Nat.and_one_is_mod _
  rcases Nat.mod_two_eq_zero_or_one b.toNat with h | h
  · exact .inl (UInt8.toNat_inj.mp (hnat.trans h))
  · exact .inr (UInt8.toNat_inj.mp (hnat.trans h))

end

/-- What a short form needs to be read back. -/
def ShortForm (s : CScript) (out : List UInt8) : Prop :=
  ∃ nSize vch, out = UInt8.ofNat nSize :: vch ∧ nSize < nSpecialScripts ∧
    vch.length = getSpecialSize nSize ∧ decompressScript nSize vch = some s

variable {s : CScript}

theorem isToKeyID_shortForm {keyID : List UInt8}
    (h : isToKeyID s = some keyID) : ShortForm s (0x00 :: keyID) := by
  simp only [isToKeyID, ite_none_right_eq_some, some.injEq] at h
  obtain ⟨⟨hlen, hfront, hback⟩, rfl⟩ := h
  refine ⟨0, _, rfl, by decide, ?_, ?_⟩
  · rw [length_take, length_drop, hlen]
    rfl
  · rw [decompressScript, ← hfront, ← hback]
    exact congrArg some (take_append_take_append_drop s 3 20)

theorem isToScriptID_shortForm {scriptID : List UInt8}
    (h : isToScriptID s = some scriptID) : ShortForm s (0x01 :: scriptID) := by
  simp only [isToScriptID, ite_none_right_eq_some, some.injEq] at h
  obtain ⟨⟨hlen, hfront, hback⟩, rfl⟩ := h
  refine ⟨1, _, rfl, by decide, ?_, ?_⟩
  · rw [length_take, length_drop, hlen]
    rfl
  · rw [decompressScript, ← hfront, ← hback]
    exact congrArg some (take_append_take_append_drop s 2 20)

omit [PubKeys] in
theorem pubKey_parts {b : UInt8} (hlen : n + 2 = s.length) (hn : 33 ≤ n) (hb : s[1]? = some b) :
    ((s.drop 1).take n).head? = some b ∧ ((s.drop 1).take n).headD 0 = b ∧
      (((s.drop 1).take n).drop 1).take 32 = (s.drop 2).take 32 := by
  have hhead : ((s.drop 1).take n).head? = some b := by
    rw [head?_take, if_neg (by omega), head?_drop, hb]
  refine ⟨hhead, ?_, ?_⟩
  · rw [headD_eq_head?_getD, hhead, getD_some]
  · rw [drop_take, take_take, drop_drop, Nat.min_eq_left (by omega)]

theorem isToPubKey_shortForm {pubkey out : List UInt8}
    (h : isToPubKey s = some pubkey) (hout : compressPubKey pubkey = some out) :
    ShortForm s out := by
  unfold isToPubKey at h
  split at h
  · next hkey =>
      -- a compressed key: its first byte tells the form
      obtain ⟨hlen, hfront, hback, hb⟩ := hkey
      obtain rfl := some.inj h
      have hvch : ((s.drop 2).take 32).length = 32 := by
        rw [length_take, length_drop, hlen]
        rfl
      have hparts := take_append_take_append_drop s 2 32
      rcases hb with hb | hb
      · obtain ⟨hhead, hheadD, hcoord⟩ := pubKey_parts (n := 33) (by omega) (by omega) hb
        rw [compressPubKey, if_pos (.inl hhead), hheadD, hcoord] at hout
        refine ⟨2, _, (some.inj hout).symm, by decide, hvch, ?_⟩
        rw [take_two hfront hb, hback] at hparts
        exact congrArg some hparts
      · obtain ⟨hhead, hheadD, hcoord⟩ := pubKey_parts (n := 33) (by omega) (by omega) hb
        rw [compressPubKey, if_pos (.inr hhead), hheadD, hcoord] at hout
        refine ⟨3, _, (some.inj hout).symm, by decide, hvch, ?_⟩
        rw [take_two hfront hb, hback] at hparts
        exact congrArg some hparts
  · simp only [ite_none_right_eq_some, some.injEq] at h
    obtain ⟨⟨hlen, hfront, hback, hb⟩, hvalid, rfl⟩ := h
    -- a full key: the form keeps the parity of the second coordinate
    obtain ⟨hhead, -, hcoord⟩ := pubKey_parts (n := 65) (by omega) (by omega) hb
    have hkeylen : ((s.drop 1).take 65).length = 65 := by
      rw [length_take, length_drop, hlen]
      rfl
    have hdec := PubKeys.decompress_eq _ hkeylen hhead hvalid
    have hvch : ((s.drop 2).take 32).length = 32 := by
      rw [length_take, length_drop, hlen]
      rfl
    have hscript : 65 :: (s.drop 1).take 65 ++ [opChecksig] = s := by
      have hparts := take_append_take_append_drop s 1 65
      have hone : s.take 1 = [65] := by
        rw [take_one, hfront]
        rfl
      rwa [hone, hback] at hparts
    rw [compressPubKey, if_neg (by rw [hhead]; decide), if_pos hhead, hcoord] at hout
    rw [hcoord] at hdec
    rcases and_one_cases (((s.drop 1).take 65).getD 64 0) with hpar | hpar
    · rw [hpar] at hout hdec
      refine ⟨4, _, (some.inj hout).symm, by decide, hvch, ?_⟩
      have hdec' : PubKeys.decompress (0x02 :: (s.drop 2).take 32) = _ := hdec
      rw [decompressScript, hdec', map_some, hscript]
    · rw [hpar] at hout hdec
      refine ⟨5, _, (some.inj hout).symm, by decide, hvch, ?_⟩
      have hdec' : PubKeys.decompress (0x03 :: (s.drop 2).take 32) = _ := hdec
      rw [decompressScript, hdec', map_some, hscript]

theorem compressScript_shortForm {out : List UInt8}
    (h : compressScript s = some out) : ShortForm s out := by
  unfold compressScript at h
  split at h
  · next keyID hkey =>
      obtain rfl := some.inj h
      exact isToKeyID_shortForm hkey
  · split at h
    · next scriptID hscript =>
        obtain rfl := some.inj h
        exact isToScriptID_shortForm hscript
    · obtain ⟨pubkey, hkey, hout⟩ := bind_eq_some_iff.mp h
      exact isToPubKey_shortForm hkey hout

theorem reads_script (h : s.length ≤ maxScriptSize) : Reads readScript (writeScript s) s := by
  unfold writeScript
  split
  · next out hout =>
      obtain ⟨nSize, vch, rfl, hsize, hlen, hdec⟩ := compressScript_shortForm hout
      have hsize' : nSize < 6 := hsize
      have hvar : varInt true nSize = [UInt8.ofNat nSize] := by
        rw [varInt, if_pos (by omega)]
        simp [Nat.mod_eq_of_lt (show nSize < 128 by omega)]
      have hbody : Reads (readScriptBody nSize) vch s := by
        rw [readScriptBody, if_pos hsize, ← hlen]
        exact (reads_bytes vch).bind_pure (by rw [hdec]; rfl)
      rw [← singleton_append, ← hvar]
      exact (reads_varInt (by omega)).bind hbody
  · have hlen : s.length ≤ 10000 := h
    have hword : (s.length + nSpecialScripts) % 2 ^ 32 = s.length + nSpecialScripts :=
      Nat.mod_eq_of_lt (by simp only [nSpecialScripts]; omega)
    rw [hword]
    refine (reads_varInt (by simp only [nSpecialScripts]; omega)).bind ?_
    rw [readScriptBody, if_neg (by omega), if_neg (by omega), Nat.add_sub_cancel]
    exact reads_bytes s

/-! ### Outputs and undo records -/

/-- `CTxOutCompressor`, writing. -/
def writeTxOut (o : CTxOut) : List UInt8 :=
  varInt true (compressAmount o.nValue.toUInt64.toNat) ++ writeScript o.scriptPubKey

def readTxOut : Reader CTxOut := do
  let nVal ← readVarInt 64
  let scriptPubKey ← readScript
  return ⟨(UInt64.ofNat (decompressAmount nVal)).toInt64, scriptPubKey⟩

/-- A variable-length `int`: a negative one's low digit only. -/
def writeVarInt32 (n : Int) : List UInt8 :=
  if n < 0 then [UInt8.ofNat (n % 128).toNat] else varInt true n.toNat

def readVarInt32 : Reader Int := do
  let n ← readVarInt 32
  return (n : Int).bmod (2 ^ 32)

/-- `CTxInUndo::Serialize`. -/
def writeTxInUndo (u : CTxInUndo) : List UInt8 :=
  varInt true ((u.nHeight * 2 + if u.fCoinBase then 1 else 0) % 2 ^ 32) ++
    ((if 0 < u.nHeight then writeVarInt32 u.nVersion else []) ++ writeTxOut u.txout)

/-- An undo record's version, there only with a height. -/
def readUndoVersion (nHeight : Nat) : Reader Int :=
  if 0 < nHeight then readVarInt32 else pure 0

def readTxInUndo : Reader CTxInUndo := do
  let nCode ← readVarInt 32
  let nVersion ← readUndoVersion (nCode / 2)
  let txout ← readTxOut
  return ⟨txout, nCode % 2 = 1, nCode / 2, nVersion⟩

/-- `CTxUndo`, writing. -/
def writeTxUndo (u : CTxUndo) : List UInt8 := vector writeTxInUndo u.vprevout

def readTxUndo : Reader CTxUndo := do
  let vprevout ← readVector maxSize readTxInUndo
  return ⟨vprevout⟩

/-- `uint256`, writing. -/
def writeUint256 (h : UInt256) : List UInt8 := leBytes 32 h.toNat

def readUint256 : Reader UInt256 := do
  let n ← leInt 32
  return BitVec.ofNat 256 n

/-- `CBlockUndo`, writing. -/
def writeBlockUndo (u : CBlockUndo) : List UInt8 :=
  vector writeTxUndo u.vtxundo ++ writeUint256 u.oldSproutTreeRoot

def readBlockUndo : Reader CBlockUndo := do
  let vtxundo ← readVector maxSize readTxUndo
  let oldSproutTreeRoot ← readUint256
  return ⟨vtxundo, oldSproutTreeRoot⟩

/-! ### The undo file -/

/-- What the exception says that a failed read throws. -/
def what : ReadError → String
  | .endOfInput => "CAutoFile::read: end of file"
  | .endOfSkip => "CAutoFile::ignore: end of file"
  | .nonCanonical => "non-canonical ReadCompactSize()"
  | .tooLarge => "ReadCompactSize(): size too large"
  | .invalid what => what

variable [CryptoHash]

/-- The checksum over the previous hash and the undo data. -/
def undoChecksum (hashBlock : UInt256) (u : CBlockUndo) : UInt256 :=
  CryptoHash.Hash (writeUint256 hashBlock ++ writeBlockUndo u)

/-- `UndoWriteToDisk`: what it writes from its position on. -/
def undoWriteToDisk (hashBlock : UInt256) (u : CBlockUndo) : List UInt8 :=
  writeBlockUndo u ++ writeUint256 (undoChecksum hashBlock u)

def readUndoEntry : Reader (CBlockUndo × UInt256) := do
  let u ← readBlockUndo
  let hashChecksum ← readUint256
  return (u, hashChecksum)

/-- `UndoReadFromDisk`, without the hashes of its message. -/
def undoReadFromDisk (hashBlock : UInt256) (file : List UInt8) : Except String CBlockUndo :=
  match readUndoEntry.run file with
  | .error e => .error ("UndoReadFromDisk: Deserialize or I/O error - " ++ what e)
  | .ok ((u, hashChecksum), _) =>
    if hashChecksum = undoChecksum hashBlock u then .ok u
    else .error "UndoReadFromDisk: Checksum mismatch"

/-! ### Undo data is read back -/

/-- The most that `KOMODO_VALUETOOBIG` lets through. -/
def valueLimit : Int := 10000000001 * 100000000

/-- An output that the format holds. -/
structure CTxOut.Encodable (o : CTxOut) : Prop where
  nonneg : 0 ≤ o.nValue.toInt
  fits : amountCode o.nValue.toInt.toNat < 2 ^ 64
  script : o.scriptPubKey.length ≤ maxScriptSize

/-- An undo record the format holds: no height, no version. -/
structure CTxInUndo.Encodable (u : CTxInUndo) : Prop where
  txout : u.txout.Encodable
  height : u.nHeight < 2 ^ 31
  nonneg : 0 ≤ u.nVersion
  version : u.nVersion < 2 ^ 31
  bare : u.nHeight = 0 → u.nVersion = 0

/-- Undo data that the format holds. -/
structure CBlockUndo.Encodable (u : CBlockUndo) : Prop where
  count : u.vtxundo.length ≤ maxSize
  counts : ∀ t ∈ u.vtxundo, t.vprevout.length ≤ maxSize
  records : ∀ t ∈ u.vtxundo, ∀ r ∈ t.vprevout, r.Encodable

omit [PubKeys] [CryptoHash] in
theorem toNat_toUInt64 {v : CAmount} (h : 0 ≤ v.toInt) : (v.toUInt64.toNat : Int) = v.toInt := by
  have hbits : v.toInt = (v.toUInt64.toNat : Int).bmod (2 ^ 64) := by
    rw [← Int64.toInt_toBitVec, BitVec.toInt_eq_toNat_bmod]
    rfl
  have hnat := v.toUInt64.toNat_lt
  rw [Int.bmod_def] at hbits
  split at hbits <;> omega

omit [CryptoHash] in
theorem reads_txOut {o : CTxOut} (h : o.Encodable) : Reads readTxOut (writeTxOut o) o := by
  have hnat : o.nValue.toUInt64.toNat = o.nValue.toInt.toNat := by
    have hbits := toNat_toUInt64 h.nonneg
    omega
  refine (reads_varInt (compressAmount_lt _)).bind ((reads_script h.script).bind_pure ?_)
  rw [decompressAmount_compressAmount o.nValue.toUInt64.toNat_lt (hnat ▸ h.fits),
    UInt64.ofNat_toNat]
  rfl

omit [PubKeys] [CryptoHash] in
theorem reads_varInt32 {n : Int} (h0 : 0 ≤ n) (h : n < 2 ^ 31) :
    Reads readVarInt32 (writeVarInt32 n) n := by
  rw [writeVarInt32, if_neg (by omega)]
  refine (reads_varInt (by omega)).bind_pure ?_
  rw [Int.toNat_of_nonneg h0, Int.bmod_eq_of_le (by omega) (by omega)]

omit [CryptoHash] in
theorem reads_txInUndo {u : CTxInUndo} (h : u.Encodable) :
    Reads readTxInUndo (writeTxInUndo u) u := by
  have hheight := h.height
  have hcode : (u.nHeight * 2 + if u.fCoinBase then 1 else 0) % 2 ^ 32
      = u.nHeight * 2 + if u.fCoinBase then 1 else 0 := by
    refine Nat.mod_eq_of_lt ?_
    split <;> omega
  have hhalf : (u.nHeight * 2 + if u.fCoinBase then 1 else 0) / 2 = u.nHeight := by
    split <;> omega
  have hbit : decide ((u.nHeight * 2 + if u.fCoinBase then 1 else 0) % 2 = 1) = u.fCoinBase := by
    cases u.fCoinBase <;> simp
  rw [writeTxInUndo, hcode]
  refine (reads_varInt (by split <;> omega)).bind
    (Reads.bind (a := u.nVersion) ?_ ((reads_txOut h.txout).bind_pure ?_))
  · rw [hhalf, readUndoVersion]
    refine Reads.ite (fun _ => reads_varInt32 h.nonneg h.version) fun hz => ?_
    rw [h.bare (by omega)]
    exact Reads.pure 0
  · rw [hhalf, hbit]

omit [PubKeys] [CryptoHash] in
theorem reads_uint256 (h : UInt256) : Reads readUint256 (writeUint256 h) h :=
  (reads_leInt h.isLt).bind_pure (by rw [BitVec.ofNat_toNat, BitVec.setWidth_eq])

omit [CryptoHash] in
theorem reads_blockUndo {u : CBlockUndo} (h : u.Encodable) :
    Reads readBlockUndo (writeBlockUndo u) u := by
  have hmax : maxSize < 2 ^ 64 := by decide
  refine (reads_vector h.count hmax fun t ht => ?_).bind ((reads_uint256 _).bind_pure rfl)
  exact (reads_vector (h.counts t ht) hmax fun r hr =>
    reads_txInUndo (h.records t ht r hr)).bind_pure rfl

theorem undoReadFromDisk_undoWriteToDisk {hashBlock : UInt256} {u : CBlockUndo}
    (h : u.Encodable) : undoReadFromDisk hashBlock (undoWriteToDisk hashBlock u) = .ok u := by
  have hentry : Reads readUndoEntry (undoWriteToDisk hashBlock u) (u, undoChecksum hashBlock u) :=
    (reads_blockUndo h).bind ((reads_uint256 _).bind_pure rfl)
  have hrun := hentry []
  rw [append_nil] at hrun
  simp [undoReadFromDisk, hrun]

end

end Elosys
