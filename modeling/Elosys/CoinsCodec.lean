import Elosys.CoinsUndo

/-!
# Coins on Disk

The format of `CCoins::Serialize`: version, a header with the coinbase flag, the first two outputs
and the number of nonzero mask bytes, a mask of the others, the unspent outputs, and the height.
-/

open ByteCodec List Bool

namespace Elosys

/-! ### The format -/

/-- Whether an output of a mask byte is there; the first two are not in the mask. -/
def CCoins.maskUsed (c : CCoins) (b : Nat) : Bool :=
  (range 8).any fun i => c.isAvailable (2 + b * 8 + i)

def CCoins.calcMaskSize (c : CCoins) : Nat × Nat :=
  usedIndices c.maskUsed ((c.vout.length - 2 + 7) / 8)

def CCoins.maskBytes (c : CCoins) (nMaskSize : Nat) : List UInt8 :=
  (range nMaskSize).map fun b => maskByte fun i => c.isAvailable (2 + b * 8 + i)

def coinsCode (fCoinBase fFirst fSecond : Bool) (nMaskCode : Nat) : Nat :=
  (8 * (nMaskCode - if fFirst || fSecond then 0 else 1) + (if fCoinBase then 1 else 0) +
    (if fFirst then 2 else 0) + (if fSecond then 4 else 0)) % 2 ^ 32

section

variable [PubKeys]

variable (c : CCoins)

def CCoins.serialize : Except Fault (List UInt8) := do
  let (nMaskSize, nMaskCode) := c.calcMaskSize
  let fFirst := c.isAvailable 0
  let fSecond := c.isAvailable 1
  assertThat (fFirst || fSecond || nMaskCode ≠ 0)
    "CCoins::Serialize: fFirst || fSecond || nMaskCode"
  return writeVarInt32 c.nVersion ++
    (varInt true (coinsCode c.fCoinBase fFirst fSecond nMaskCode) ++
      (c.maskBytes nMaskSize ++
        (c.vout.flatMap (fun o => if o.isNull then [] else writeTxOut o) ++
          writeVarInt32 c.nHeight)))

def readOutput (avail : Bool) : Reader CTxOut :=
  if avail then readTxOut else pure CTxOut.null

/-- The announced outputs, with null ones between. -/
def readOutputs : List Bool → Reader (List CTxOut)
  | [] => pure []
  | avail :: rest => do
    let o ← readOutput avail
    let os ← readOutputs rest
    return o :: os

def CCoins.unserialize : Reader CCoins := do
  let nVersion ← readVarInt32
  let nCode ← readVarInt 32
  let fFirst := decide (nCode / 2 % 2 = 1)
  let fSecond := decide (nCode / 4 % 2 = 1)
  let avail ← readMask (nCode / 8 + if fFirst || fSecond then 0 else 1)
  let vout ← readOutputs (fFirst :: fSecond :: avail)
  let nHeight ← readVarInt32
  return CCoins.cleanup ⟨nCode % 2 = 1, vout, nHeight.toNat, nVersion⟩

/-! ### The mask -/

namespace CCoins

variable {c : CCoins}

variable {n : Nat}

section
omit [PubKeys]

theorem isAvailable_lt (h : c.isAvailable n = true) : n < c.vout.length := by
  by_contra hn
  rw [isAvailable, getElem?_eq_none (by omega)] at h
  exact absurd h (by simp)

theorem calcMaskSize_covers (h : c.isAvailable n = true) : n < 2 + c.calcMaskSize.1 * 8 := by
  by_cases hn : n < 2
  · omega
  · have hlt := isAvailable_lt h
    have hused : c.maskUsed ((n - 2) / 8) = true := by
      refine any_eq_true.mpr ⟨(n - 2) % 8, mem_range.mpr (by omega), ?_⟩
      rwa [show 2 + (n - 2) / 8 * 8 + (n - 2) % 8 = n by omega]
    have hmem : (n - 2) / 8 < c.calcMaskSize.1 :=
      (usedIndices_spec c.maskUsed _).1 _ (by omega) hused
    omega

theorem maskUsed_eq (b : Nat) :
    c.maskUsed b = decide (maskByte (fun i => c.isAvailable (2 + b * 8 + i)) ≠ 0) := by
  rw [Bool.eq_iff_iff, decide_eq_true_eq, ne_eq, maskByte_eq_zero, maskUsed, List.any_eq_true]
  simp

theorem reads_maskBytes : Reads (readMask c.calcMaskSize.2) (c.maskBytes c.calcMaskSize.1)
      ((c.maskBytes c.calcMaskSize.1).flatMap bits) := by
  have hend : c.calcMaskSize.1 = 0 ∨ c.maskUsed (c.calcMaskSize.1 - 1) = true :=
    (usedIndices_spec c.maskUsed _).2.1
  have hcount : c.calcMaskSize.2 = (range c.calcMaskSize.1).countP c.maskUsed :=
    (usedIndices_spec c.maskUsed _).2.2.2
  have hnonzero : (c.maskBytes c.calcMaskSize.1).countP (· ≠ 0) = c.calcMaskSize.2 := by
    rw [hcount, maskBytes, countP_map]
    exact congrArg (List.countP · _) (funext fun b => (c.maskUsed_eq b).symm)
  rw [← hnonzero]
  refine reads_mask fun hlast => ?_
  cases hsize : c.calcMaskSize.1 with
  | zero => simp [maskBytes, hsize] at hlast
  | succ n =>
    have hused := hend.resolve_left (by omega)
    rw [hsize, Nat.add_sub_cancel, maskUsed_eq] at hused
    rw [maskBytes, hsize, range_succ, map_append, map_singleton,
      getLast?_append_of_ne_nil _ (by simp)] at hlast
    simp only [getLast?_singleton, Option.some.injEq] at hlast
    exact (of_decide_eq_true hused) hlast

theorem bits_maskBytes (n : Nat) :
    c.isAvailable 0 :: c.isAvailable 1 :: (c.maskBytes n).flatMap bits
      = (range (2 + n * 8)).map c.isAvailable := by
  induction n with
  | zero => rfl
  | succ n ih =>
    have hsplit : c.maskBytes (n + 1)
        = c.maskBytes n ++ [maskByte fun i => c.isAvailable (2 + n * 8 + i)] := by
      simp [maskBytes, range_succ]
    have hrange : range (2 + (n + 1) * 8) = range (2 + n * 8) ++ (range 8).map (2 + n * 8 + ·) := by
      rw [← range_add]
      exact congrArg range (by omega)
    rw [hsplit, flatMap_append, ← cons_append, ← cons_append, ih,
      flatMap_singleton, bits_maskByte, hrange, map_append, map_map]
    rfl

end

theorem reads_outputs {os : List CTxOut}
    (h : ∀ o ∈ os, o = CTxOut.null ∨ o.isNull = false ∧ o.Encodable) :
    Reads (readOutputs (os.map fun o => !o.isNull))
      (os.flatMap fun o => if o.isNull then [] else writeTxOut o) os := by
  induction os with
  | nil => exact Reads.pure []
  | cons o os ih =>
    obtain ⟨ho, hos⟩ := forall_mem_cons.mp h
    have hfirst : Reads (readOutput !o.isNull) (if o.isNull then [] else writeTxOut o) o := by
      rcases ho with rfl | ⟨hnull, henc⟩
      · exact Reads.pure CTxOut.null
      · simpa [readOutput, hnull] using reads_txOut henc
    exact hfirst.bind ((ih hos).bind_pure rfl)

theorem flatMap_outputAt (hn : ∀ k, c.isAvailable k = true → k < n) :
    c.vout.flatMap (fun o => if o.isNull then [] else writeTxOut o)
      = ((range n).map c.outputAt).flatMap fun o => if o.isNull then [] else writeTxOut o := by
  have hall : c.vout = (range c.vout.length).map c.outputAt := by
    refine ext_getElem (by simp) fun i h₁ h₂ => ?_
    simp [outputAt, getElem?_eq_getElem h₁]
  have hlen : ∀ k, c.isAvailable k = true → k < c.vout.length := fun k => isAvailable_lt
  -- both sides are what is written for any larger number of indices
  have hextend : ∀ l d, (∀ k, c.isAvailable k = true → k < l) →
      ((range (l + d)).map c.outputAt).flatMap (fun o => if o.isNull then [] else writeTxOut o)
        = ((range l).map c.outputAt).flatMap fun o => if o.isNull then [] else writeTxOut o := by
    intro l d hl
    rw [range_add, map_append, flatMap_append]
    refine (congrArg _ (flatMap_eq_nil_iff.mpr fun o ho => ?_)).trans (append_nil _)
    simp only [map_map, mem_map, Function.comp_apply] at ho
    obtain ⟨k, -, rfl⟩ := ho
    have hnot : c.isAvailable (l + k) = false := by
      rw [← not_eq_true]
      intro h
      have hlt := hl _ h
      omega
    rw [isAvailable_eq_outputAt, not_eq_false'] at hnot
    rw [if_pos hnot]
  conv_lhs => rw [hall]
  rw [← hextend c.vout.length n hlen, ← hextend n c.vout.length hn, Nat.add_comm]

end CCoins

/-! ### Coins -/

/-- Coins that the format holds. -/
structure CCoins.Encodable (c : CCoins) : Prop where
  clean : c.Clean
  notPruned : c.isPruned = false
  count : c.vout.length + 8 ≤ 2 ^ 32
  outputs : ∀ o ∈ c.vout, o = CTxOut.null ∨ o.isNull = false ∧ o.Encodable
  height : c.nHeight < 2 ^ 31
  nonneg : 0 ≤ c.nVersion
  version : c.nVersion < 2 ^ 31

namespace CCoins

variable {c : CCoins}

section
omit [PubKeys]

theorem calcMaskSize_le : 8 * c.calcMaskSize.2 ≤ c.vout.length + 5 := by
  have hcount : c.calcMaskSize.2
      = (range ((c.vout.length - 2 + 7) / 8)).countP c.maskUsed :=
    (usedIndices_spec c.maskUsed _).2.2.1
  have hle : c.calcMaskSize.2 ≤ (c.vout.length - 2 + 7) / 8 := by
    rw [hcount]
    exact countP_le_length.trans (by simp)
  omega

theorem code_pos (h : c.isPruned = false) :
    (c.isAvailable 0 || c.isAvailable 1 || decide (c.calcMaskSize.2 ≠ 0)) = true := by
  obtain ⟨n, hn⟩ : ∃ n, c.isAvailable n = true := by
    rw [isPruned, all_eq_false] at h
    obtain ⟨o, ho, hnull⟩ := h
    obtain ⟨n, hn⟩ := mem_iff_getElem?.mp ho
    exact ⟨n, by simpa [isAvailable, hn] using hnull⟩
  have hcover := calcMaskSize_covers hn
  have hend : c.calcMaskSize.1 = 0 ∨ c.maskUsed (c.calcMaskSize.1 - 1) = true :=
    (usedIndices_spec c.maskUsed _).2.1
  have hcount : c.calcMaskSize.2 = (range c.calcMaskSize.1).countP c.maskUsed :=
    (usedIndices_spec c.maskUsed _).2.2.2
  simp only [or_eq_true, decide_eq_true_eq]
  rcases hend with hzero | hused
  · rw [hzero] at hcover
    obtain rfl | rfl : n = 0 ∨ n = 1 := by omega
    · exact .inl (.inl hn)
    · exact .inl (.inr hn)
  · by_cases hzero : c.calcMaskSize.1 = 0
    · rw [hzero] at hcover
      obtain rfl | rfl : n = 0 ∨ n = 1 := by omega
      · exact .inl (.inl hn)
      · exact .inl (.inr hn)
    · refine .inr fun hnone => ?_
      rw [hnone] at hcount
      have hall := countP_eq_zero.mp hcount.symm (c.calcMaskSize.1 - 1)
        (mem_range.mpr (by omega))
      exact hall hused

theorem coinsCode_spec {b first second : Bool} {k : Nat} (hk : 8 * k + 8 ≤ 2 ^ 32)
    (hpos : (first || second || decide (k ≠ 0)) = true) :
    coinsCode b first second k < 2 ^ 32 ∧ decide (coinsCode b first second k % 2 = 1) = b ∧
      decide (coinsCode b first second k / 2 % 2 = 1) = first ∧
      decide (coinsCode b first second k / 4 % 2 = 1) = second ∧
      coinsCode b first second k / 8 + (if first || second then 0 else 1) = k := by
  cases b <;> cases first <;> cases second <;>
    simp only [Bool.or_false, Bool.false_or, Bool.or_true, Bool.true_or, decide_eq_true_eq,
      ne_eq] at hpos <;>
    simp only [coinsCode, Bool.or_false, Bool.or_true, Bool.false_eq_true, if_true, if_false,
      decide_eq_true_eq, decide_eq_false_iff_not] <;> omega

end

theorem serialize_eq (h : c.isPruned = false) : c.serialize = .ok (writeVarInt32 c.nVersion ++
      (varInt true (coinsCode c.fCoinBase (c.isAvailable 0) (c.isAvailable 1) c.calcMaskSize.2) ++
        (c.maskBytes c.calcMaskSize.1 ++
          (c.vout.flatMap (fun o => if o.isNull then [] else writeTxOut o) ++
            writeVarInt32 c.nHeight)))) := by
  have hassert : assertThat (c.isAvailable 0 || c.isAvailable 1 || c.calcMaskSize.2 ≠ 0)
      "CCoins::Serialize: fFirst || fSecond || nMaskCode" = .ok () :=
    assertThat_eq_ok.mpr (code_pos h)
  exact bind_eq_ok.mpr ⟨(), hassert, rfl⟩

omit [PubKeys] in
theorem outputAt_of_not_available {k : Nat} (h : c.Canonical) (hk : c.isAvailable k = false) :
    c.outputAt k = CTxOut.null := by
  rw [isAvailable_eq_outputAt, not_eq_false'] at hk
  rw [outputAt] at hk ⊢
  cases ho : c.vout[k]? with
  | none => rfl
  | some o =>
    rw [ho] at hk
    exact h o (mem_of_getElem? ho) hk

theorem reads_coins (h : c.Encodable) : ∃ bs, c.serialize = .ok bs ∧ Reads unserialize bs c := by
  have hle := c.calcMaskSize_le
  have hlen := h.count
  obtain ⟨hcode, hcb, hfirst, hsecond, hmask⟩ :=
    coinsCode_spec (b := c.fCoinBase) (k := c.calcMaskSize.2) (by omega) (code_pos h.notPruned)
  have hcanon : c.Canonical := fun o ho hnull =>
    (h.outputs o ho).resolve_right fun ho' => by simp [ho'.1] at hnull
  have hcover : ∀ k, c.isAvailable k = true → k < 2 + c.calcMaskSize.1 * 8 :=
    fun k => calcMaskSize_covers
  refine ⟨_, serialize_eq h.notPruned, (reads_varInt32 h.nonneg h.version).bind
    ((reads_varInt hcode).bind ?_)⟩
  simp only [hfirst, hsecond, hmask, hcb]
  refine c.reads_maskBytes.bind ?_
  rw [bits_maskBytes, flatMap_outputAt hcover]
  have houts : ∀ o ∈ (range (2 + c.calcMaskSize.1 * 8)).map c.outputAt,
      o = CTxOut.null ∨ o.isNull = false ∧ o.Encodable := by
    intro o ho
    obtain ⟨k, -, rfl⟩ := mem_map.mp ho
    cases hk : c.isAvailable k with
    | true => exact h.outputs _ (outputAt_mem hk).1
    | false => exact .inl (outputAt_of_not_available hcanon hk)
  have havail : (range (2 + c.calcMaskSize.1 * 8)).map c.isAvailable
      = ((range (2 + c.calcMaskSize.1 * 8)).map c.outputAt).map fun o => !o.isNull := by
    rw [map_map]
    exact map_congr_left fun k _ => c.isAvailable_eq_outputAt k
  rw [havail]
  refine (reads_outputs houts).bind ((reads_varInt32 (by omega) ?_).bind_pure ?_)
  · have hh := h.height
    omega
  · refine congrArg pure (ext_of_outputAt (clean_cleanup _) h.clean rfl ?_ rfl fun k => ?_)
    · simp [cleanup]
    · rw [outputAt_cleanup fun o ho hnull => (houts o ho).resolve_right fun ho' => by
        simp [ho'.1] at hnull]
      by_cases hk : k < 2 + c.calcMaskSize.1 * 8
      · simp [outputAt, hk]
      · have hnot : c.isAvailable k = false := by
          rw [← not_eq_true]
          exact fun ha => hk (hcover k ha)
        rw [outputAt_of_not_available hcanon hnot, outputAt, getElem?_eq_none (by simpa using hk)]
        rfl

end CCoins

/-! ### All four formats -/

/-- **Coins and undo data are read back** to the byte, if the code of each amount fits 64 bits and a
record without a height has no version. -/
theorem coins_and_undo_read_back :
    (∀ c : CCoins, c.Encodable → ∃ bs, c.serialize = .ok bs ∧ Reads CCoins.unserialize bs c) ∧
      (∀ u : CTxInUndo, u.Encodable → Reads readTxInUndo (writeTxInUndo u) u) ∧
      (∀ u : CTxUndo, u.vprevout.length ≤ maxSize → (∀ r ∈ u.vprevout, r.Encodable) →
        Reads readTxUndo (writeTxUndo u) u) ∧
      ∀ u : CBlockUndo, u.Encodable → Reads readBlockUndo (writeBlockUndo u) u := by
  refine ⟨fun c => CCoins.reads_coins, fun u => reads_txInUndo, fun u hcount hrecords => ?_,
    fun u => reads_blockUndo⟩
  exact (reads_vector hcount (by decide) fun r hr => reads_txInUndo (hrecords r hr)).bind_pure rfl

end

section

local instance coinsKeys : PubKeys := diagonalKeys

def sparseCoins : CCoins where
  fCoinBase := true
  vout := replicate 4 CTxOut.null ++ [⟨234925952, [0x51]⟩] ++
    replicate 11 CTxOut.null ++ [⟨110397, [0x52]⟩]
  nHeight := 120891
  nVersion := 1

theorem CTxOut.encodable_of_le {n : Int64} {s : CScript} (h0 : 0 ≤ n.toInt)
    (hn : n.toInt ≤ 2049638230412172401) (hs : s.length ≤ maxScriptSize) :
    CTxOut.Encodable ⟨n, s⟩ := by
  have hle : n.toInt.toNat ≤ 2049638230412172401 := by omega
  exact ⟨h0, amountCode_lt hle, hs⟩

theorem coins_and_undo_read_back_sparseCoins :
    (∃ bs, sparseCoins.serialize = .ok bs ∧ Reads CCoins.unserialize bs sparseCoins) ∧
      Reads readTxInUndo (writeTxInUndo ⟨⟨110397, [0x52]⟩, true, 120891, 1⟩)
        ⟨⟨110397, [0x52]⟩, true, 120891, 1⟩ := by
  have h₁ : CTxOut.Encodable ⟨234925952, [0x51]⟩ :=
    CTxOut.encodable_of_le (by decide) (by decide) (by decide)
  have h₂ : CTxOut.Encodable ⟨110397, [0x52]⟩ :=
    CTxOut.encodable_of_le (by decide) (by decide) (by decide)
  have houts : ∀ o ∈ sparseCoins.vout, o = CTxOut.null ∨ o.isNull = false ∧ o.Encodable := by
    intro o ho
    simp only [sparseCoins, mem_append, mem_singleton, mem_replicate] at ho
    obtain ((⟨-, rfl⟩ | rfl) | ⟨-, rfl⟩) | rfl := ho
    · exact .inl rfl
    · exact .inr ⟨rfl, h₁⟩
    · exact .inl rfl
    · exact .inr ⟨rfl, h₂⟩
  refine ⟨coins_and_undo_read_back.1 _
    ⟨by decide, by decide, by decide, houts, by decide, by decide, by decide⟩,
    coins_and_undo_read_back.2.1 _
      ⟨h₂, by decide, by decide, by decide, fun h => absurd h (by decide)⟩⟩

/-- The version of a record without height is lost, and the largest amount changes. -/
theorem undo_version_and_amount_lost :
    Reads readTxInUndo (writeTxInUndo ⟨⟨5, [0x51]⟩, false, 0, 1⟩) ⟨⟨5, [0x51]⟩, false, 0, 0⟩ ∧
      ∃ o : CTxOut, o ≠ ⟨9223372036854775807, [0x51]⟩ ∧
        Reads readTxOut (writeTxOut ⟨9223372036854775807, [0x51]⟩) o := by
  constructor
  · have hout : CTxOut.Encodable ⟨5, [0x51]⟩ :=
      CTxOut.encodable_of_le (by decide) (by decide) (by decide)
    exact reads_txInUndo (u := ⟨⟨5, [0x51]⟩, false, 0, 0⟩)
      ⟨hout, by decide, by decide, by decide, fun _ => rfl⟩
  · exact ⟨_, by decide, (reads_varInt (compressAmount_lt _)).bind
      ((reads_script (by decide)).bind_pure rfl)⟩

end

end Elosys
