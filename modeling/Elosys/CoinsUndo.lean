import Elosys.DisconnectBlock
import Elosys.UndoCodec
import Elosys.ViewSpec

/-!
# Undoing a Spend

`UpdateCoins` keeps the metadata only in the undo record of the last output, and `CCoins::Spend`
trims trailing outputs. `ApplyTxInUndo` nevertheless gives back the record, for coins such as
blocks create: spent outputs are null, and there is a height.
-/

open List Option

namespace Elosys

open CoinsColumn

variable {nHeight : Nat}

namespace CCoins

/-! ### Outputs by index -/

variable {c c' : CCoins} {n : Nat}

def Canonical (c : CCoins) : Prop := ∀ o ∈ c.vout, o.isNull = true → o = CTxOut.null

theorem outputAt_of_vout_nil (h : c.vout = []) (k : Nat) : c.outputAt k = CTxOut.null := by
  simp [outputAt, h]

theorem outputAt_mem (h : c.isAvailable n = true) :
    c.outputAt n ∈ c.vout ∧ (c.outputAt n).isNull = false := by
  rw [isAvailable] at h
  split at h
  · next o ho =>
      rw [outputAt, ho, getD_some]
      exact ⟨mem_of_getElem? ho, by simpa using h⟩
  · exact absurd h (by simp)

theorem isAvailable_eq_outputAt (c : CCoins) (n : Nat) :
    c.isAvailable n = !(c.outputAt n).isNull := by
  rw [isAvailable, outputAt]
  cases c.vout[n]? with
  | none => rfl
  | some o => rfl

theorem outputAt_cleanup (h : c.Canonical) (k : Nat) : c.cleanup.outputAt k = c.outputAt k := by
  rcases getElem?_rdropWhile c.vout k with hk | ⟨hk, hnull⟩
  · simp only [outputAt, cleanup, hk]
  · simp only [outputAt, cleanup, hk]
    cases ho : c.vout[k]? with
    | none => rfl
    | some o =>
      rw [h o (mem_of_getElem? ho) (hnull o ho)]
      rfl

theorem Canonical.setNull (h : c.Canonical) (n : Nat) :
    CCoins.Canonical { c with vout := c.vout.set n CTxOut.null } := by
  intro o ho hnull
  rcases mem_or_eq_of_mem_set ho with ho | rfl
  · exact h o ho hnull
  · rfl

theorem outputAt_spend (h : c.Canonical) (ha : c.isAvailable n = true) (k : Nat) :
    (c.spend n).2.outputAt k = if k = n then CTxOut.null else c.outputAt k := by
  rw [spend, if_pos ha, outputAt_cleanup (h.setNull n)]
  by_cases hk : k = n
  · subst hk
    rw [if_pos rfl, outputAt, getElem?_set_self']
    cases c.vout[k]? <;> rfl
  · rw [if_neg hk, outputAt, outputAt, getElem?_set_ne (Ne.symm hk)]

theorem outputAt_putOutput (c : CCoins) (n : Nat) (o : CTxOut) (k : Nat) :
    (c.putOutput n o).outputAt k = if k = n then o else c.outputAt k := by
  simp only [outputAt, putOutput]
  by_cases hk : k = n
  · subst hk
    rw [if_pos rfl, getElem?_set_self (by simp; omega), getD_some]
  · rw [if_neg hk, getElem?_set_ne (Ne.symm hk), getElem?_append]
    split
    · rfl
    · next hlen =>
        rw [getElem?_eq_none (l := c.vout) (by omega), getElem?_replicate]
        split <;> rfl

theorem Clean.last_isNull (h : c.Clean) (hn : c.vout.length = n + 1) :
    (c.outputAt n).isNull = false := by
  have hne : c.vout ≠ [] := by
    intro hnil
    simp [hnil] at hn
  have hlast := rdropWhile_eq_self_iff.mp (congrArg CCoins.vout h) hne
  have hat : c.outputAt n = c.vout.getLast hne := by
    rw [outputAt, getLast_eq_getElem, getElem?_eq_getElem (by omega), getD_some]
    congr 1
    omega
  rw [hat]
  simpa using hlast

theorem ext_of_outputAt (hc : c.Clean) (hc' : c'.Clean) (hcb : c.fCoinBase = c'.fCoinBase)
    (hh : c.nHeight = c'.nHeight) (hv : c.nVersion = c'.nVersion)
    (hout : ∀ k, c.outputAt k = c'.outputAt k) : c = c' := by
  -- a record that is longer has an output where the other one has none
  have hle : ∀ {a b : CCoins}, a.Clean → (∀ k, a.outputAt k = b.outputAt k) →
      a.vout.length ≤ b.vout.length := by
    intro a b ha hab
    by_contra hlt
    obtain ⟨n, hn⟩ : ∃ n, a.vout.length = n + 1 := ⟨a.vout.length - 1, by omega⟩
    have hlast := ha.last_isNull hn
    rw [hab n, outputAt, getElem?_eq_none (by omega)] at hlast
    exact absurd hlast (by decide)
  have hlen : c.vout.length = c'.vout.length :=
    Nat.le_antisymm (hle hc hout) (hle hc' fun k => (hout k).symm)
  have hvout : c.vout = c'.vout := by
    refine ext_getElem hlen fun k h₁ h₂ => ?_
    have hk := hout k
    rwa [outputAt, outputAt, getElem?_eq_getElem h₁, getElem?_eq_getElem h₂,
      getD_some, getD_some] at hk
  cases c
  cases c'
  simp_all

/-! ### Coins that undo data can hold -/

/-- Coins such as blocks create: spent outputs are null, the others within the undo format's
limits, and there is a height. -/
structure Storable (c : CCoins) : Prop where
  canonical : c.Canonical
  outputs : ∀ o ∈ c.vout, o.isNull = false → o.Encodable
  height : 0 < c.nHeight
  height_lt : c.nHeight < 2 ^ 31
  version : 0 ≤ c.nVersion
  version_lt : c.nVersion < 2 ^ 31

theorem Storable.of_subset (h : c.Storable) (hsub : ∀ o ∈ c'.vout, o ∈ c.vout ∨ o = CTxOut.null)
    (hh : c'.nHeight = c.nHeight) (hv : c'.nVersion = c.nVersion) : c'.Storable where
  canonical o ho hnull := by
    rcases hsub o ho with ho | rfl
    · exact h.canonical o ho hnull
    · rfl
  outputs o ho hnull := by
    rcases hsub o ho with ho | rfl
    · exact h.outputs o ho hnull
    · exact absurd hnull (by decide)
  height := hh ▸ h.height
  height_lt := hh ▸ h.height_lt
  version := hv ▸ h.version
  version_lt := hv ▸ h.version_lt

theorem Storable.cleanup (h : c.Storable) : c.cleanup.Storable :=
  h.of_subset (fun _ ho => .inl (mem_of_mem_cleanup ho)) rfl rfl

theorem Storable.spend (h : c.Storable) (n : Nat) : (c.spend n).2.Storable := by
  unfold CCoins.spend
  split
  · refine Storable.cleanup (h.of_subset (fun o ho => ?_) rfl rfl)
    exact mem_or_eq_of_mem_set ho
  · exact h

theorem storable_addImportTombstone (h0 : 0 < nHeight) (h : nHeight < 2 ^ 31)
    (hc : c.Storable ∨ c.vout = []) : (addImportTombstone nHeight c).Storable := by
  have hsplit : ∀ o ∈ (addImportTombstone nHeight c).vout, o ∈ c.vout ∨ o = tombstone := by
    intro o ho
    simpa [addImportTombstone] using ho
  refine ⟨fun o ho hnull => ?_, fun o ho hnull => ?_, h0, h, by simp [addImportTombstone],
    by simp [addImportTombstone]⟩
  · rcases hsplit o ho with ho | rfl
    · rcases hc with hc | hc
      · exact hc.canonical o ho hnull
      · exact absurd ho (by simp [hc])
    · exact absurd hnull (by decide)
  · rcases hsplit o ho with ho | rfl
    · rcases hc with hc | hc
      · exact hc.outputs o ho hnull
      · exact absurd ho (by simp [hc])
    · exact ⟨by decide, by decide, by decide⟩

end CCoins

/-- A transaction whose coins undo data can hold. -/
structure CTransaction.Storable (tx : CTransaction) : Prop where
  values : ∀ o ∈ tx.vout, 0 ≤ o.nValue.toInt ∧ o.nValue.toInt ≤ valueLimit
  version : 0 ≤ tx.nVersion
  version_lt : tx.nVersion < 2 ^ 31

variable {tx : CTransaction}

theorem CCoins.mem_fromTx {o : CTxOut} (ho : o ∈ (fromTx tx nHeight).vout) :
    o = CTxOut.null ∨ o ∈ tx.vout ∧ o.scriptPubKey.isUnspendable = false := by
  have hmem := mem_of_mem_cleanup ho
  obtain ⟨t, ht, rfl⟩ := mem_map.mp hmem
  split
  · exact .inl rfl
  · next hun => exact .inr ⟨ht, by simpa using hun⟩

theorem CCoins.storable_fromTx (htx : tx.Storable)
    (h0 : 0 < nHeight) (h : nHeight < 2 ^ 31) : (fromTx tx nHeight).Storable := by
  refine ⟨fun o ho hnull => ?_, fun o ho hnull => ?_, h0, h, htx.version, htx.version_lt⟩
  · rcases mem_fromTx ho with rfl | ⟨hmem, -⟩
    · rfl
    · -- a transaction's own output has no negative value
      have hvalue : o.nValue = -1 := by simpa [CTxOut.isNull] using hnull
      have hnn := (htx.values o hmem).1
      rw [hvalue] at hnn
      exact absurd hnn (by decide)
  · rcases mem_fromTx ho with rfl | ⟨hmem, hun⟩
    · exact absurd hnull (by decide)
    · obtain ⟨hnn, hle⟩ := htx.values o hmem
      refine ⟨hnn, amountCode_lt ?_, ?_⟩
      · simp only [valueLimit] at hle
        omega
      simp only [CScript.isUnspendable, Bool.or_eq_false_iff, decide_eq_false_iff_not] at hun
      omega

/-! ### Undoing a spend -/

variable {n : Nat}

theorem CTxInUndo.encodable_ofSpend {c : CCoins} (h : c.Storable)
    (ha : c.isAvailable n = true) : (CTxInUndo.ofSpend c n).Encodable := by
  obtain ⟨hmem, hnull⟩ := CCoins.outputAt_mem ha
  have hout := h.outputs _ hmem hnull
  unfold ofSpend
  split
  · exact ⟨hout, h.height_lt, h.version, h.version_lt, fun hz => by
      have hpos := h.height
      simp only at hz
      omega⟩
  · exact ⟨hout, by simp, by simp, by simp, fun _ => rfl⟩

theorem CCoins.clean_spend {c : CCoins} (hc : c.Clean) (n : Nat) : (c.spend n).2.Clean := by
  unfold spend
  split
  · exact clean_cleanup _
  · exact hc

theorem CCoins.meta_spend (c : CCoins) (n : Nat) :
    (c.spend n).2.fCoinBase = c.fCoinBase ∧ (c.spend n).2.nHeight = c.nHeight ∧
      (c.spend n).2.nVersion = c.nVersion := by
  unfold spend
  split <;> exact ⟨rfl, rfl, rfl⟩

theorem CCoins.putOutput_eq {c r : CCoins} (hclean : c.Clean) (hr : r.Canonical)
    (ha : c.isAvailable n = true) (hcb : r.fCoinBase = c.fCoinBase)
    (hh : r.nHeight = c.nHeight) (hv : r.nVersion = c.nVersion)
    (hout : ∀ k, k ≠ n → r.outputAt k = c.outputAt k) :
    (r.putOutput n (c.outputAt n)).cleanup = c := by
  have hcanon : (r.putOutput n (c.outputAt n)).Canonical := by
    intro o ho hnull
    rcases mem_or_eq_of_mem_set ho with ho | rfl
    · rcases mem_append.mp ho with ho | ho
      · exact hr o ho hnull
      · exact (mem_replicate.mp ho).2
    · rw [(outputAt_mem ha).2] at hnull
      exact absurd hnull (by simp)
  refine ext_of_outputAt (clean_cleanup _) hclean hcb hh hv fun k => ?_
  rw [outputAt_cleanup hcanon, outputAt_putOutput]
  split
  · next hk => rw [hk]
  · next hk => exact hout k hk

theorem CTxInUndo.restores {c c' : CCoins} (hclean : c.Clean) (hs : c.Storable)
    (ha : c.isAvailable n = true) (hshow : Shows (c.spend n).2.cleanup.present c') :
    (CTxInUndo.ofSpend c n).fits n c' = true ∧ (((CTxInUndo.ofSpend c n).revive c').putOutput n
        (CTxInUndo.ofSpend c n).txout).cleanup.present = some c := by
  obtain ⟨hcb, hh, hv⟩ := c.meta_spend n
  have hspend := CCoins.outputAt_spend hs.canonical ha
  have hpresent : c.present = some c :=
    CCoins.present_of_not_isPruned (CCoins.isPruned_eq_false_of_isAvailable ha)
  rw [CCoins.clean_spend hclean n] at hshow
  have hpruned := CCoins.isPruned_iff_of_clean (CCoins.clean_spend hclean n)
  by_cases hlast : (c.spend n).2.vout = []
  · -- the last output: the record is gone, and the undo data starts it anew
    rw [CCoins.present_of_isPruned (hpruned.mpr hlast)] at hshow
    have hgone : c'.vout = [] := hshow
    have hundo : ofSpend c n = ⟨c.outputAt n, c.fCoinBase, c.nHeight, c.nVersion⟩ :=
      if_pos hlast
    have hheight : c.nHeight ≠ 0 := Nat.pos_iff_ne_zero.mp hs.height
    have hrevive : (ofSpend c n).revive c' = ⟨c.fCoinBase, [], c.nHeight, c.nVersion⟩ := by
      rw [hundo, revive, if_pos hheight]
    constructor
    · rw [fits, hrevive, hundo]
      simp [hheight, CCoins.isPruned, CCoins.isAvailable, hgone]
    · have hempty : ∀ k, k ≠ n →
          CCoins.outputAt ⟨c.fCoinBase, [], c.nHeight, c.nVersion⟩ k = c.outputAt k := by
        intro k hk
        have hk' := hspend k
        rw [if_neg hk, CCoins.outputAt_of_vout_nil hlast] at hk'
        rw [← hk']
        exact CCoins.outputAt_of_vout_nil rfl k
      have hback := CCoins.putOutput_eq hclean (r := ⟨c.fCoinBase, [], c.nHeight, c.nVersion⟩)
        (fun o ho => absurd ho (by simp)) ha rfl rfl rfl hempty
      rw [hrevive, hundo, hback, hpresent]
  · -- outputs are left: the record is there, without this one
    have hnot : (c.spend n).2.isPruned = false := by
      rwa [← Bool.not_eq_true, hpruned]
    rw [CCoins.present_of_not_isPruned hnot] at hshow
    obtain rfl : c' = (c.spend n).2 := hshow
    have hundo : ofSpend c n = ⟨c.outputAt n, false, 0, 0⟩ := if_neg hlast
    have hrevive : (ofSpend c n).revive (c.spend n).2 = (c.spend n).2 := by
      rw [hundo, revive, if_neg (by simp)]
    constructor
    · rw [fits, hrevive, hundo, CCoins.isAvailable_eq_outputAt, hspend n]
      simp [hnot]
    · rw [hrevive, hundo, CCoins.putOutput_eq hclean (hs.spend n).canonical ha hcb hh hv
        fun k hk => ?_, hpresent]
      rw [hspend k, if_neg hk]

theorem CCoins.clearUnspendable_fromTx (tx : CTransaction) (nHeight : Nat) :
    (fromTx tx nHeight).clearUnspendable = fromTx tx nHeight := by
  have hmap : (fromTx tx nHeight).vout.map (fun o : CTxOut =>
      if o.scriptPubKey.isUnspendable then CTxOut.null else o) = (fromTx tx nHeight).vout := by
    refine (map_congr_left fun o ho => ?_).trans (map_id _)
    rcases mem_fromTx ho with rfl | ⟨-, hun⟩
    · rfl
    · rw [hun]
      rfl
  rw [clearUnspendable, hmap]
  exact clean_fromTx tx nHeight

theorem matchesBlock_of_shows {outs : CCoins} (h : Shows (CCoins.fromTx tx nHeight).present outs) :
    matchesBlock tx nHeight outs = true := by
  cases hp : (CCoins.fromTx tx nHeight).isPruned with
  | true =>
    rw [CCoins.present_of_isPruned hp] at h
    have hnil : outs.vout = [] := h
    have hclear : outs.clearUnspendable.vout = [] := by
      rw [CCoins.clearUnspendable, hnil]
      rfl
    have hpruned : CCoins.isPruned (if (CCoins.fromTx tx nHeight).nVersion < 0 then
        { outs.clearUnspendable with nVersion := (CCoins.fromTx tx nHeight).nVersion }
        else outs.clearUnspendable) = true := by
      split
      · exact CCoins.isPruned_of_vout_nil hclear
      · exact CCoins.isPruned_of_vout_nil hclear
    simp [matchesBlock, CCoins.equal, hpruned, hp]
  | false =>
    rw [CCoins.present_of_not_isPruned hp] at h
    obtain rfl : outs = CCoins.fromTx tx nHeight := h
    have hself : (if (CCoins.fromTx tx nHeight).nVersion < 0 then
        { CCoins.fromTx tx nHeight with nVersion := (CCoins.fromTx tx nHeight).nVersion }
        else CCoins.fromTx tx nHeight) = CCoins.fromTx tx nHeight := by
      split <;> rfl
    simp only [matchesBlock, CCoins.clearUnspendable_fromTx, hself, CCoins.equal]
    simp

end Elosys
