import Mathlib.Algebra.BigOperators.Group.Finset.Piecewise
import Mathlib.Algebra.Order.BigOperators.Group.List
import Mathlib.Data.FinEnum
import Elosys.Amounts
import Elosys.ChainState

/-!
# No Block Creates More Than Its Allowances

The worth of a view is the sum of its unspent outputs. A transaction takes the worth of its inputs
out and puts at most that of its outputs in; the pools come out of the difference, and the rest is
the fee. All sums wrap around.

## Main results

* `connectTxs_worth`: view and pools together lose the fees.
* Outputs and pools together grow by at most the block's allowances.
-/

open LayerStack Program List Option Function Except Prod Bool Finset

namespace Elosys

open CacheView CoinsColumn View

/-! ### Outputs of records -/

variable {c : CCoins} {n : Nat} {o : CTxOut}

namespace CCoins

def output? (c : CCoins) (n : Nat) : Option CTxOut := (c.vout[n]?).filter fun o => !o.isNull

theorem isAvailable_eq (c : CCoins) (n : Nat) : c.isAvailable n = (c.output? n).isSome := by
  rw [isAvailable, output?]
  cases c.vout[n]? with
  | none => rfl
  | some o => cases ho : o.isNull <;> simp [ho]

theorem outputAt_of_output? (h : c.output? n = some o) : c.outputAt n = o := by
  obtain ⟨ho, -⟩ := filter_eq_some_iff.mp h
  rw [outputAt, ho, getD_some]

@[simp] theorem output?_cleanup (c : CCoins) (n : Nat) : c.cleanup.output? n = c.output? n := by
  rcases getElem?_rdropWhile c.vout n with h | ⟨h, hnull⟩
  · simp only [output?, cleanup, h]
  · simp only [output?, cleanup, h]
    cases ho : c.vout[n]? with
    | none => rfl
    | some o => rw [filter_some, hnull o ho]; rfl

theorem output?_present (c : CCoins) (n : Nat) : c.present.bind (·.output? n) = c.output? n := by
  cases hp : c.isPruned with
  | false => rw [present_of_not_isPruned hp, bind_some]
  | true =>
    rw [present_of_isPruned hp, bind_none, eq_comm, ← not_isSome_iff_eq_none, ← isAvailable_eq]
    intro ha
    rw [isPruned_eq_false_of_isAvailable ha] at hp
    exact absurd hp (by simp)

theorem output?_spend (h : c.isAvailable n = true) (k : Nat) :
    (c.spend n).2.output? k = if k = n then none else c.output? k := by
  rw [spend, if_pos h, output?_cleanup]
  by_cases hk : k = n
  · subst hk
    rw [if_pos rfl, output?, getElem?_set_self']
    cases c.vout[k]? <;> simp
  · rw [if_neg hk, output?, output?, getElem?_set_ne (Ne.symm hk)]

end CCoins

/-! ### Worth -/

/-- The worth of an output; a null output has none. -/
def CTxOut.worth (o : CTxOut) : Int := if o.isNull then 0 else o.nValue.toInt

def CCoins.worth (c : CCoins) : Int := (c.vout.map CTxOut.worth).sum

def recordWorth (o : Option CCoins) : Int := (o.map CCoins.worth).getD 0

def coinsWorth (m : UInt256 → Option CCoins) : Int := ∑ txid, recordWorth (m txid)

@[simp] theorem CTxOut.worth_null : CTxOut.null.worth = 0 := rfl

theorem CTxOut.worth_of_isNull (h : o.isNull = true) : o.worth = 0 := if_pos h

namespace CCoins

@[simp] theorem worth_cleanup (c : CCoins) : c.cleanup.worth = c.worth := by
  obtain ⟨fCoinBase, vout, nHeight, nVersion⟩ := c
  simp only [worth, cleanup]
  induction vout using List.reverseRecOn with
  | nil => rfl
  | append_singleton l x ih =>
    by_cases hx : x.isNull = true
    · rw [rdropWhile_concat_pos _ _ _ hx, ih]
      simp [CTxOut.worth_of_isNull hx]
    · rw [rdropWhile_concat_neg _ _ _ hx]

@[simp] theorem recordWorth_present (c : CCoins) : recordWorth c.present = c.worth := by
  cases hp : c.isPruned with
  | false => rw [present_of_not_isPruned hp]; rfl
  | true =>
    rw [present_of_isPruned hp, worth, eq_comm]
    refine sum_eq_zero fun x hx => ?_
    obtain ⟨o, ho, rfl⟩ := mem_map.mp hx
    exact CTxOut.worth_of_isNull (isPruned_iff.mp hp o ho)

theorem worth_set_null {l : List CTxOut} (h : l[n]? = some o) :
    ((l.set n CTxOut.null).map CTxOut.worth).sum = (l.map CTxOut.worth).sum - o.worth := by
  induction l generalizing n with
  | nil => exact absurd h (by simp)
  | cons x l ih =>
    cases n with
    | zero =>
      obtain rfl : x = o := by simpa using h
      simp
    | succ n =>
      have hl := ih (n := n) (by simpa using h)
      simp only [List.set_cons_succ, List.map_cons, List.sum_cons, hl]
      omega

theorem worth_spend (h : c.output? n = some o) :
    (c.spend n).2.worth = c.worth - o.nValue.toInt := by
  have ha : c.isAvailable n = true := by rw [isAvailable_eq, h]; rfl
  obtain ⟨ho, hnull⟩ := filter_eq_some_iff.mp h
  rw [spend, if_pos ha, worth_cleanup, worth, worth_set_null ho, worth, CTxOut.worth,
    if_neg (by simpa using hnull)]

end CCoins

section

variable (m : UInt256 → Option CCoins)

theorem coinsWorth_update (k : UInt256) (r : Option CCoins) :
    coinsWorth (update m k r) = coinsWorth m - recordWorth (m k) + recordWorth r := by
  have hsum : ∀ r', coinsWorth (update m k r')
      = recordWorth r' + ∑ x ∈ Finset.univ \ {k}, recordWorth (m x) := by
    intro r'
    rw [← sum_update_of_mem (mem_univ k), coinsWorth]
    exact sum_congr rfl fun x _ => apply_update (fun _ => recordWorth) m k r' x
  have hm := hsum (m k)
  rw [update_eq_self] at hm
  rw [hsum r, hm]
  omega

def outputIn (o : COutPoint) : Option CTxOut :=
  (m o.hash).bind (·.output? o.n)

def outputValue (o : COutPoint) : Int :=
  ((outputIn m o).map fun t => t.nValue.toInt).getD 0

/-- The value of the unspent outputs of some inputs. -/
def inputSum (is : List CTxIn) : Int :=
  (is.map fun i => outputValue m i.prevout).sum

@[simp] theorem inputSum_nil : inputSum m [] = 0 := rfl

@[simp] theorem inputSum_cons (i : CTxIn) (is : List CTxIn) :
    inputSum m (i :: is) = outputValue m i.prevout + inputSum m is := by
  simp [inputSum]

end

def Nonneg (o : Option CCoins) : Prop := ∀ c, o = some c → ∀ t ∈ c.vout, 0 ≤ t.worth

theorem Nonneg.recordWorth {o : Option CCoins} (h : Nonneg o) : 0 ≤ recordWorth o := by
  cases o with
  | none => exact le_refl _
  | some c =>
    refine sum_nonneg fun x hx => ?_
    obtain ⟨t, ht, rfl⟩ := mem_map.mp hx
    exact h c rfl t ht

theorem nonneg_present_cleanup (h : ∀ t ∈ c.vout, 0 ≤ t.worth) : Nonneg c.cleanup.present := by
  intro c' hc' t ht
  cases hp : c.cleanup.isPruned with
  | true =>
    rw [CCoins.present_of_isPruned hp] at hc'
    exact absurd hc' (by simp)
  | false =>
    rw [CCoins.present_of_not_isPruned hp] at hc'
    obtain rfl := some.inj hc'
    exact h t (CCoins.mem_of_mem_cleanup ht)

section

variable [NoteTrees] {m m' : UInt256 → Option CCoins}

theorem spendInput_coins {i : CTxIn} {u : CTxInUndo}
    (h : (spendInput i).Outcome coinsSpec m (.ok u, m')) :
    (∃ t, outputIn m i.prevout = some t) ∧
      (∀ o, outputIn m' o = if o = i.prevout then none else outputIn m o) ∧
      coinsWorth m' = coinsWorth m - outputValue m i.prevout ∧
      ∀ txid, Nonneg (m txid) → Nonneg (m' txid) := by
  obtain ⟨c, hm, ha, -, rfl⟩ := spendInput_ok h
  obtain ⟨t, ht⟩ := isSome_iff_exists.mp (c.isAvailable_eq _ ▸ ha)
  have hout : outputIn m i.prevout = some t := by rw [outputIn, hm, bind_some, ht]
  refine ⟨⟨t, hout⟩, fun o => ?_, ?_, fun txid hnn => ?_⟩
  · by_cases hhash : o.hash = i.prevout.hash
    · rw [outputIn, hhash, update_self, CCoins.output?_present,
        CCoins.output?_cleanup, CCoins.output?_spend ha]
      by_cases hn : o.n = i.prevout.n
      · rw [if_pos hn, if_pos (show o = i.prevout by cases o; simp_all)]
      · rw [if_neg hn, if_neg (fun ho => hn (by rw [ho])), outputIn, hhash, hm, bind_some]
    · rw [outputIn, update_of_ne hhash, if_neg (fun ho => hhash (by rw [ho])), outputIn]
  · rw [coinsWorth_update, CCoins.recordWorth_present, CCoins.worth_cleanup,
      CCoins.worth_spend ht, hm, outputValue, hout]
    simp only [recordWorth, map_some, getD_some]
    omega
  · by_cases htxid : txid = i.prevout.hash
    · subst htxid
      rw [update_self]
      refine nonneg_present_cleanup fun t' ht' => ?_
      simp only [CCoins.spend, ha, if_true] at ht'
      have hmem := CCoins.mem_of_mem_cleanup ht'
      rcases mem_or_eq_of_mem_set hmem with hmem | rfl
      · exact hnn c hm t' hmem
      · exact le_refl _
    · rwa [update_of_ne htxid]

variable {is : List CTxIn}

theorem spendInputs_worth {m₀ : UInt256 → Option CCoins}
    {us : List CTxInUndo} (hsame : ∀ o t, outputIn m o = some t → outputIn m₀ o = some t)
    (h : (is.mapM spendInput).Outcome coinsSpec m (.ok us, m')) :
    coinsWorth m' = coinsWorth m - inputSum m₀ is ∧ ∀ txid, Nonneg (m txid) → Nonneg (m' txid) := by
  induction is generalizing m us with
  | nil =>
    obtain ⟨-, rfl⟩ := h
    simp
  | cons i is ih =>
    rw [mapM_cons, outcome_bind_ok] at h
    obtain ⟨u, m₁, hspend, h⟩ := h
    simp only [outcome_bind_ok, outcome_pure_ok] at h
    obtain ⟨us', _, hrest, -, rfl⟩ := h
    obtain ⟨⟨t, ht⟩, hout, hworth, hnn⟩ := spendInput_coins hspend
    obtain ⟨hworth', hnn'⟩ := ih (fun o t' ho => by
      rw [hout] at ho
      split at ho
      · exact absurd ho (by simp)
      · exact hsame o t' ho) hrest
    have hvalue : outputValue m i.prevout = outputValue m₀ i.prevout := by
      rw [outputValue, outputValue, ht, hsame _ t ht]
    refine ⟨?_, fun txid h => hnn' txid (hnn txid h)⟩
    rw [hworth', hworth, hvalue, inputSum_cons]
    omega

variable {tx : CTransaction}

omit [NoteTrees] in
theorem worth_fromTx (nHeight : Nat) (hvout : ∀ o ∈ tx.vout, 0 ≤ o.nValue.toInt) :
    (CCoins.fromTx tx nHeight).worth ≤ tx.transparentOut ∧
      ∀ t ∈ (CCoins.fromTx tx nHeight).vout, 0 ≤ t.worth := by
  have hworth : ∀ o : CTxOut, 0 ≤ o.nValue.toInt →
      0 ≤ CTxOut.worth (if o.scriptPubKey.isUnspendable then CTxOut.null else o) ∧
        CTxOut.worth (if o.scriptPubKey.isUnspendable then CTxOut.null else o)
          ≤ o.nValue.toInt := by
    intro o ho
    split
    · exact ⟨le_refl _, ho⟩
    · unfold CTxOut.worth
      split <;> omega
  constructor
  · rw [CCoins.fromTx, CCoins.clearUnspendable, CCoins.worth_cleanup, CCoins.worth,
      List.map_map, CTransaction.transparentOut, amountSum, List.map_map]
    exact List.sum_le_sum fun o ho => (hworth o (hvout o ho)).2
  · intro t ht
    have hmem := CCoins.mem_of_mem_cleanup ht
    obtain ⟨o, ho, rfl⟩ := mem_map.mp hmem
    exact (hworth o (hvout o ho)).1

def spentValue (m : UInt256 → Option CCoins) (tx : CTransaction) : Int :=
  if tx.isMint then 0 else inputSum m tx.vin

theorem updateCoins_worth {nHeight : Nat} {undo : CTxUndo}
    (himport : tx.isCoinImport = false) (hvout : ∀ o ∈ tx.vout, 0 ≤ o.nValue.toInt)
    (hown : Nonneg (m tx.hash))
    (h : (updateCoins tx nHeight).Outcome coinsSpec m (.ok undo, m')) :
    coinsWorth m' ≤ coinsWorth m - spentValue m tx + tx.transparentOut ∧
      ∀ txid, Nonneg (m txid) → Nonneg (m' txid) := by
  obtain ⟨m₁, m₂, m₃, coins, m₄, hspend, hnf, hzk, hcoins, hmark⟩ := updateCoins_ok h
  obtain rfl : m₂ = m₁ := coins_part.of_call hnf (by simp [ViewOp.part])
  obtain rfl : m₃ = m₂ := coins_part.of_call hzk (by simp [ViewOp.part])
  simp only [markImport, himport, false_eq_true, if_false, outcome_pure_ok] at hmark
  obtain ⟨-, rfl⟩ := hmark
  rw [ViewProg.modifyCoins, ViewProg.call, outcome_op] at hcoins
  obtain ⟨c, -, hres⟩ := hcoins
  obtain rfl : m' = update m₃ tx.hash (CCoins.fromTx tx nHeight).cleanup.present :=
    congrArg Prod.snd hres
  have hspent : coinsWorth m₃ = coinsWorth m - spentValue m tx ∧
      ∀ txid, Nonneg (m txid) → Nonneg (m₃ txid) := by
    unfold spendInputs at hspend
    unfold spentValue
    by_cases hmint : tx.isMint = true
    · simp only [hmint, if_true, outcome_pure_ok] at hspend ⊢
      obtain ⟨-, rfl⟩ := hspend
      simp
    · rw [if_neg hmint] at hspend ⊢
      exact spendInputs_worth (fun o t ho => ho) hspend
  obtain ⟨hle, hnn⟩ := worth_fromTx nHeight hvout
  have hold := (hspent.2 tx.hash hown).recordWorth
  constructor
  · have hupdate := coinsWorth_update m₃ tx.hash (CCoins.fromTx tx nHeight).cleanup.present
    rw [CCoins.recordWorth_present, CCoins.worth_cleanup, hspent.1] at hupdate
    omega
  · intro txid h
    by_cases htxid : txid = tx.hash
    · subst htxid
      rw [update_self]
      exact nonneg_present_cleanup hnn
    · rw [update_of_ne htxid]
      exact hspent.2 txid h

/-! ### Fees -/

theorem getOutputFor_coins {i : CTxIn}
    (h : (getOutputFor i).Outcome coinsSpec m (.ok o, m')) : outputIn m i.prevout = some o := by
  simp only [getOutputFor, outcome_bind_ok, outcome_lift_ok, assertSome_eq_ok, outcome_pure_ok] at h
  obtain ⟨coins, _, hread, c, _, ⟨hc, rfl⟩, rfl, rfl⟩ := h
  rw [ViewProg.getCoins, ViewProg.call, outcome_op] at hread
  obtain ⟨r, hres, hm⟩ := hread
  obtain ⟨hcoins, rfl⟩ := mk.inj hres
  obtain rfl := ok.inj hcoins
  obtain ⟨rfl, ha⟩ := filter_eq_some_iff.mp hc
  have hm' : m' i.prevout.hash = some c := by
    rw [← hm, bind_some,
      CCoins.present_of_not_isPruned (CCoins.isPruned_eq_false_of_isAvailable ha)]
  obtain ⟨t, ht⟩ := isSome_iff_exists.mp (c.isAvailable_eq _ ▸ ha)
  rw [outputIn, hm', bind_some, ht, CCoins.outputAt_of_output? ht]

variable {params : ConsensusParams}

theorem transparentValueIn_coins (hkmd : params.isKMD = false) {total r : CAmount × CAmount}
    (h : (transparentValueIn params total is).Outcome coinsSpec m (.ok r, m')) :
    (∀ i ∈ is, ∃ o, outputIn m i.prevout = some o) ∧
      r.1 = total.1 + Int64.ofInt (inputSum m is) ∧ r.2 = total.2 := by
  induction is generalizing total with
  | nil =>
    obtain ⟨rfl, -⟩ := outcome_pure_ok.mp h
    simp
  | cons i is ih =>
    simp only [transparentValueIn, outcome_bind_ok] at h
    obtain ⟨o, m₁, ho, h⟩ := h
    have hout := getOutputFor_coins ho
    obtain rfl := coins_part.of_plain (uses_getOutputFor i) ho
    obtain ⟨hall, hvalue, hinterest⟩ := ih h
    refine ⟨forall_mem_cons.mpr ⟨⟨o, hout⟩, hall⟩, ?_, ?_⟩
    · rw [hvalue, inputSum_cons, outputValue, hout]
      simp [inputInterest, hkmd, Int64.ofInt_add, Int64.ofInt_toInt, Int64.add_assoc]
    · rw [hinterest]
      simp [inputInterest, hkmd]

theorem checkInputValues_coins (hkmd : params.isKMD = false)
    {nSpendHeight : Nat} {total r : CAmount}
    (hall : ∀ i ∈ is, ∃ o, outputIn m i.prevout = some o) (htotal : 0 ≤ total.toInt)
    (h : (checkInputValues params tx nSpendHeight total is).Outcome coinsSpec m (.ok r, m')) :
    r.toInt = total.toInt + inputSum m is ∧ 0 ≤ r.toInt := by
  induction is generalizing total with
  | nil =>
    obtain ⟨rfl, -⟩ := outcome_pure_ok.mp h
    simpa using htotal
  | cons i is ih =>
    simp only [checkInputValues, outcome_bind_ok, outcome_lift_ok, assertSome_eq_ok,
      rejectIf_eq_ok] at h
    obtain ⟨coins, m₁, hread, c, _, ⟨rfl, rfl⟩, _, _, ⟨-, rfl⟩, _, _, ⟨hrange, rfl⟩, h⟩ := h
    rw [ViewProg.getCoins, ViewProg.call, outcome_op] at hread
    obtain ⟨r', hres, hm⟩ := hread
    obtain ⟨hcoins, rfl⟩ := mk.inj hres
    obtain rfl := ok.inj hcoins
    obtain ⟨⟨o, ho⟩, hall⟩ := forall_mem_cons.mp hall
    -- the coins that were read are those of the view
    have hout : c.output? i.prevout.n = some o := by
      rw [← CCoins.output?_present, ← ho, outputIn, ← hm, bind_some]
    have hvalue : (c.outputAt i.prevout.n).nValue = o.nValue := by
      rw [CCoins.outputAt_of_output? hout]
    simp only [hvalue, inputInterest, hkmd, Bool.false_and, Bool.false_eq_true, if_false,
      Int64.add_zero, Bool.or_eq_false_iff, Bool.not_eq_false', moneyRange_iff] at hrange h
    obtain ⟨⟨hpos, -⟩, hsum, -⟩ := hrange
    obtain ⟨hr, hrpos⟩ := ih hall hsum h
    refine ⟨?_, hrpos⟩
    rw [hr, toInt_add_of_nonneg htotal hpos hsum, inputSum_cons, outputValue, ho]
    simp only [Option.map_some, Option.getD_some]
    omega

section

variable [CryptoHash]

theorem checkTxInputs_coins (hkmd : params.isKMD = false) {nSpendHeight : Nat}
    (hall : ∀ i ∈ tx.vin, ∃ o, outputIn m i.prevout = some o)
    (h : (checkTxInputs params tx nSpendHeight).Outcome coinsSpec m (.ok (), m')) :
    ∃ shielded valueOut, tx.getShieldedValueIn params.maxMoney = .ok shielded ∧
      tx.getValueOut params.maxMoney = .ok valueOut ∧
      valueOut.toInt ≤ inputSum m tx.vin + shielded.toInt := by
  simp only [checkTxInputs, outcome_bind_ok, outcome_lift_ok, rejectIf_eq_ok] at h
  obtain ⟨_, m₁, h₁, _, _, ⟨-, rfl⟩, _, m₂, h₂, _, _, ⟨-, rfl⟩, _, m₃, h₃, valueIn, m₄, hvalues,
    shielded, _, ⟨hshielded, rfl⟩, _, _, ⟨hrange, rfl⟩, valueOut, _, ⟨hvalueOut, rfl⟩, _, _,
    ⟨hbelow, -⟩, -⟩ := h
  obtain rfl := coins_part.of_plain (uses_haveInputs tx) h₁
  obtain rfl := coins_part.of_plain (uses_haveJoinSplitRequirements tx) h₂
  obtain rfl := coins_part.of_read (by decide) (uses_haveJoinSplitRequirementsDuplicateProofs tx) h₃
  obtain ⟨hvalueIn, hpos⟩ := checkInputValues_coins hkmd hall (by simp) hvalues
  obtain ⟨-, hpos'⟩ := getShieldedValueIn_ok hshielded
  rw [not_eq_false', moneyRange_iff] at hrange
  have hsum := toInt_add_of_nonneg hpos hpos' hrange.1
  have hle : valueOut.toInt ≤ (valueIn + shielded).toInt := by
    simpa [Int64.lt_iff_toInt_lt] using hbelow
  refine ⟨shielded, valueOut, hshielded, hvalueOut, ?_⟩
  rw [hsum, hvalueIn] at hle
  simpa using hle

variable {pindex : CBlockIndex}

theorem connectFees_fee (hkmd : params.isKMD = false) {st st' : ConnectState} {valueout : CAmount}
    (hcoinbase : tx.isCoinBase = false) (himport : tx.isCoinImport = false)
    (hvalueout : tx.getValueOut params.maxMoney = .ok valueout)
    (h : (connectFees params pindex st tx valueout).Outcome coinsSpec m (.ok st', m')) :
    ∃ fee : Int, 0 ≤ fee ∧ st'.nFees = st.nFees + Int64.ofInt fee ∧ st'.sum = st.sum ∧
      tx.transparentOut + tx.shieldedInflow + fee = spentValue m tx := by
  have hmint : tx.isMint = false := by rw [CTransaction.isMint, hcoinbase, himport]; rfl
  simp only [connectFees, hcoinbase, false_eq_true, if_false, outcome_bind_ok, outcome_pure_ok] at h
  obtain ⟨⟨valueIn, interest⟩, m₁, hvalueIn, _, _, hcheck, rfl, rfl⟩ := h
  have hread := coins_part.of_plain (uses_getValueIn params tx) hvalueIn
  subst hread
  simp only [getValueIn, himport, hcoinbase, false_eq_true, if_false, outcome_bind_ok,
    outcome_lift_ok, outcome_pure_ok] at hvalueIn
  obtain ⟨⟨value, interest'⟩, m₂, htransparent, shielded, _, ⟨hshielded, rfl⟩, hres, -⟩ :=
    hvalueIn
  obtain ⟨rfl, rfl⟩ := mk.inj hres
  obtain ⟨hall, hvalue, hinterest⟩ := transparentValueIn_coins hkmd htransparent
  simp only [contextualCheckInputs, hmint, Bool.not_false, if_true, outcome_bind_ok] at hcheck
  obtain ⟨best, m₃, hbest, _, m₄, hinputs, -⟩ := hcheck
  obtain rfl : m₃ = m₁ := coins_part.of_call hbest (by simp [ViewOp.part])
  obtain ⟨shielded', valueOut, hs, hv, hcover⟩ := checkTxInputs_coins hkmd hall hinputs
  obtain rfl := Except.ok.inj (hshielded.symm.trans hs)
  obtain rfl := Except.ok.inj (hvalueout.symm.trans hv)
  obtain ⟨hsh, -⟩ := getShieldedValueIn_ok hshielded
  obtain ⟨hvo, -, -⟩ := getValueOut_ok hvalueout
  have hbalance := tx.balanceOut_sub_balanceIn
  refine ⟨inputSum m₃ tx.vin + shielded.toInt - valueout.toInt, by omega, ?_, ?_, ?_⟩
  · simp only at hvalue ⊢
    rw [hvalue]
    simp [Int64.ofInt_add, Int64.ofInt_sub, Int64.ofInt_toInt]
  · simp only at hinterest ⊢
    rw [hinterest]
    simp
  · rw [spentValue, hmint, CTransaction.shieldedInflow]
    simp only [false_eq_true, if_false]
    omega

/-! ### The effect of a block -/

def shieldedInflow (txs : List CTransaction) : Int :=
  (txs.map CTransaction.shieldedInflow).sum

/-- **Connecting transactions** but the coinbase: view and pools lose the fees. -/
theorem connectTxs_worth (hkmd : params.isKMD = false)
    {txs : List CTransaction} {i : Nat} {st st' : ConnectState}
    (hcoinbase : ∀ tx ∈ txs, tx.isCoinBase = false)
    (himport : ∀ tx ∈ txs, tx.isCoinImport = false) (hown : ∀ tx ∈ txs, Nonneg (m tx.hash))
    (h : (connectTxs params pindex i st txs).Outcome coinsSpec m (.ok st', m')) :
    ∃ fees : Int, 0 ≤ fees ∧ st'.nFees = st.nFees + Int64.ofInt fees ∧ st'.sum = st.sum ∧
      coinsWorth m' + shieldedInflow txs + fees ≤ coinsWorth m := by
  induction txs generalizing i st m with
  | nil =>
    obtain ⟨rfl, rfl⟩ := outcome_pure_ok.mp h
    exact ⟨0, le_refl _, by simp, rfl, by simp [shieldedInflow]⟩
  | cons tx txs ih =>
    obtain ⟨st₁, m₁, htx, hrest⟩ := outcome_bind_ok.mp h
    obtain ⟨hcb, hcoinbase⟩ := forall_mem_cons.mp hcoinbase
    obtain ⟨himp, himport⟩ := forall_mem_cons.mp himport
    obtain ⟨hnn, hown⟩ := forall_mem_cons.mp hown
    obtain ⟨_, m₂, valueout, st₂, m₃, undo, hspends, hvalueout, -, hfees, hupdate, hnotes⟩ :=
      connectTx_ok htx
    obtain rfl := coins_part.of_read (by decide) (uses_checkSpends params _ tx) hspends
    obtain ⟨fee, hfee, hcount, hsum, hbalance⟩ :=
      connectFees_fee hkmd hcb himp hvalueout hfees
    obtain rfl := coins_part.of_read (by decide) (uses_connectFees params pindex _ tx _) hfees
    obtain ⟨hworth, hkeep⟩ :=
      updateCoins_worth himp (getValueOut_ok hvalueout).2.2 hnn hupdate
    obtain ⟨hn₁, hs₁, -⟩ := appendNotes_ok hnotes
    obtain ⟨fees, hfees', hcount', hsum', hrest'⟩ :=
      ih hcoinbase himport (fun t ht => hkeep t.hash (hown t ht)) hrest
    refine ⟨fee + fees, by omega, ?_, ?_, ?_⟩
    · rw [hcount', hn₁, Int64.ofInt_add, ← Int64.add_assoc]
      exact congrArg (· + Int64.ofInt fees) hcount
    · exact hsum'.trans (hs₁.trans hsum)
    · simp only [shieldedInflow, List.map_cons, List.sum_cons] at hrest' ⊢
      omega

omit [NoteTrees] [CryptoHash] in
theorem checkReward_le (hkmd : params.isKMD = false) {block : CBlock} {coinbase : CTransaction}
    {rest : List CTransaction} {cheque : UInt64} {fees : Int} {valueOut : CAmount}
    (hvtx : block.vtx = coinbase :: rest) (hfees : 0 ≤ fees)
    (hextra : 0 ≤ params.komodoExtrasatoshi.toInt)
    (hvalueOut : coinbase.getValueOut params.maxMoney = .ok valueOut)
    (h : checkReward params pindex block
      (blockReward params pindex block cheque (Int64.ofInt fees) 0) = .ok ()) :
    valueOut.toInt ≤ (params.getBlockSubsidy pindex.nHeight).toInt + cheque.toNat + fees
      + (grantedCommission params pindex block).toNat + params.komodoExtrasatoshi.toInt := by
  simp only [checkReward, hvtx, head?_cons, bind_eq_ok, assertSome_eq_ok,
    some.injEq, exists_eq_left', hvalueOut, Except.ok.injEq, rejectIf_eq_ok,
    exists_const, hkmd, Bool.not_false, Bool.true_or, Bool.and_true,
    decide_eq_false_iff_not, Int64.lt_iff_toInt_lt] at h
  have hreward : blockReward params pindex block cheque (Int64.ofInt fees) 0
      + params.komodoExtrasatoshi
      = Int64.ofInt ((params.getBlockSubsidy pindex.nHeight).toInt + cheque.toNat + fees
        + (grantedCommission params pindex block).toNat
        + params.komodoExtrasatoshi.toInt) := by
    simp [blockReward, hkmd, toInt64_eq, Int64.ofInt_add, Int64.ofInt_toInt]
  rw [hreward] at h
  have hsubsidy := Int64.le_toInt (params.getBlockSubsidy pindex.nHeight)
  have hle := toInt_ofInt_le (x := (params.getBlockSubsidy pindex.nHeight).toInt
    + cheque.toNat + fees + (grantedCommission params pindex block).toNat
    + params.komodoExtrasatoshi.toInt) (by omega)
  omega

def LoneGenesis (params : ConsensusParams) (pindex : CBlockIndex) (block : CBlock) : Prop :=
  block.hash = params.hashGenesisBlock →
    block.vtx.length = 1 ∧ 0 ≤ (params.getBlockSubsidy pindex.nHeight).toInt

omit [NoteTrees] [CryptoHash] in
theorem Checked.coinbase_shielded (h : Checked params tx) (hcb : tx.isCoinBase = true) :
    tx.shieldedInflow = 0 ∧ ∀ valueOut, tx.getValueOut params.maxMoney = .ok valueOut →
      valueOut.toInt = tx.transparentOut := by
  have hmint : tx.isMint = true := by simp [CTransaction.isMint, hcb]
  obtain ⟨hjs, -, -, hbalance⟩ := h.of_mint hmint
  refine ⟨by simp [CTransaction.shieldedInflow, hjs, hbalance], fun valueOut hvalueOut => ?_⟩
  rw [(getValueOut_ok hvalueOut).1]
  simp [hjs, hbalance, CTransaction.balanceOut]

theorem connectBlock_worth (hkmd : params.isKMD = false) {block : CBlock} {undo : Option CBlockUndo}
    (himport : ∀ tx ∈ block.vtx, tx.isCoinImport = false)
    (hextra : 0 ≤ params.komodoExtrasatoshi.toInt) (hgenesis : LoneGenesis params pindex block)
    (h : (connectBlock params pindex block).Outcome coinsSpec m (.ok undo, m')) :
    ∃ cheque, notaryPaycheque params pindex block = .ok cheque ∧
      coinsWorth m' + shieldedInflow block.vtx ≤ coinsWorth m
        + (params.getBlockSubsidy pindex.nHeight).toInt + cheque.toNat
        + (grantedCommission params pindex block).toNat
        + params.komodoExtrasatoshi.toInt := by
  obtain ⟨hcheck, cheque, -, -, hcheque, -⟩ := connectBlock_ok h
  obtain ⟨coinbase, rest, hvtx, hcb, hrestcb, hchecked, -⟩ := checkBlock_eq_ok hcheck
  obtain ⟨hinflow, hpaid⟩ := (hchecked coinbase (by simp [hvtx])).coinbase_shielded hcb
  refine ⟨cheque, hcheque, ?_⟩
  have htxs := connectBlock_txs (coins_part.neutral (by decide) (by decide)) h
  by_cases hgen : block.hash = params.hashGenesisBlock
  · obtain ⟨hlone, hsubsidy⟩ := hgenesis hgen
    simp only [hgen, if_true] at htxs
    obtain rfl : rest = [] := by simpa [hvtx] using hlone
    rw [htxs.2, hvtx]
    simp only [shieldedInflow, List.map_cons, List.map_nil, List.sum_cons, List.sum_nil, hinflow]
    omega
  · simp only [hgen, if_false] at htxs
    obtain ⟨cheque', oldRoot, st₀, st, -, hcheque', hn₀, hs₀, -, hover, htxs, hreward⟩ := htxs
    obtain rfl := Except.ok.inj (hcheque.symm.trans hcheque')
    have hfree : ∀ tx ∈ block.vtx, Nonneg (m tx.hash) := by
      intro tx htx
      rw [checkOverwrites_ok hover tx htx]
      exact fun c hc => absurd hc (by simp)
    rw [hvtx] at htxs himport hfree ⊢
    obtain ⟨himp, himport⟩ := forall_mem_cons.mp himport
    obtain ⟨hnn, hfree⟩ := forall_mem_cons.mp hfree
    obtain ⟨st₁, m₁, hcbtx, hrest⟩ := outcome_bind_ok.mp htxs
    obtain ⟨_, m₂, valueout, st₂, m₃, _, hspends, hvalueout, -, hfees, hupdate, hnotes⟩ :=
      connectTx_ok hcbtx
    obtain rfl := coins_part.of_read (by decide) (uses_checkSpends params _ coinbase) hspends
    simp only [connectFees, hcb, if_true, outcome_pure_ok] at hfees
    obtain ⟨rfl, rfl⟩ := hfees
    obtain ⟨hworth, hkeep⟩ :=
      updateCoins_worth himp (getValueOut_ok hvalueout).2.2 hnn hupdate
    obtain ⟨hn₁, hs₁, -⟩ := appendNotes_ok hnotes
    obtain ⟨fees, hpos, hcount, hsum, hleft⟩ := connectTxs_worth hkmd hrestcb himport
      (fun tx htx => hkeep tx.hash (hfree tx htx)) hrest
    have hnFees : st.nFees = Int64.ofInt fees := by
      rw [hcount, hn₁]
      simp [hn₀]
    have hsum' : st.sum = 0 := by
      rwa [hsum, hs₁]
    rw [hnFees, hsum'] at hreward
    have hle := checkReward_le hkmd hvtx hpos hextra hvalueout hreward
    have hspent : spentValue m₃ coinbase = 0 := if_pos (by simp [CTransaction.isMint, hcb])
    rw [hpaid valueout hvalueout] at hle
    simp only [shieldedInflow, List.map_cons, List.sum_cons, hinflow] at hleft ⊢
    omega

/-- The worth of a stack's view. -/
def CacheView.unspentWorth (v : CacheView) : Int := coinsWorth (plainCoins v.stack)

/-- **No block creates more than its allowances**: outputs and pools together grow by at most
subsidy, notary pay, commission and extra satoshi. -/
theorem value_conserved {params : ConsensusParams} (hkmd : params.isKMD = false)
    {pindex : CBlockIndex} {block : CBlock} {v v' : CacheView} {undo : Option CBlockUndo}
    (hv : v.Sound) (himport : ∀ tx ∈ block.vtx, tx.isCoinImport = false)
    (hextra : 0 ≤ params.komodoExtrasatoshi.toInt) (hgenesis : LoneGenesis params pindex block)
    (h : (connectBlock params pindex block).run viewHandler v = (.ok undo, v')) :
    ∃ cheque, notaryPaycheque params pindex block = .ok cheque ∧
      v'.unspentWorth + shieldedInflow block.vtx ≤ v.unspentWorth
        + (params.getBlockSubsidy pindex.nHeight).toInt + cheque.toNat
        + (grantedCommission params pindex block).toNat
        + params.komodoExtrasatoshi.toInt := by
  obtain ⟨m', hout, hrel⟩ := (coins_simulates v.coinsGenerations.below).run
    (p := connectBlock params pindex block) (s := v) (t := v.coinsGenerations.top) ⟨hv, rfl⟩
  rw [h] at hout hrel
  have htop : plainCoins v'.stack = m' := congrArg Generations.top hrel.2
  rw [CacheView.unspentWorth, htop]
  exact connectBlock_worth hkmd himport hextra hgenesis hout

end

end

section

local instance supplyTrees : NoteTrees := listTrees

local instance supplyHash : CryptoHash := ⟨fun _ => 0, fun _ => 0⟩

def payingBlock : CBlock := ⟨2, 0, UInt256.null, [coinbaseTx 41]⟩

def shieldingTx : CTransaction where
  hash := 52
  nVersion := 2
  vin := [⟨⟨41, 0⟩, [], 0⟩]
  vout := []
  vjoinsplit := [⟨2, 0, emptyRoot .sprout, (1, 2), (3, 4)⟩]

def shieldingBlock : CBlock :=
  ⟨3, 0, UInt256.null, [{ coinbaseTx 42 with vout := [⟨4, [0x51]⟩] }, shieldingTx]⟩

def payingIndex : CBlockIndex := ⟨2, 1, 0, UInt256.null, none⟩

def shieldingIndex : CBlockIndex := ⟨3, 2, 0, UInt256.null, some payingIndex⟩

/-- Both blocks are connected, and the second lets the view grow by at most the subsidy less what
went into the pool. -/
theorem value_conserved_shieldingBlock : ∃ v v' undo, CacheView.Sound v ∧
      (connectBlock smallChain shieldingIndex shieldingBlock).run viewHandler v
        = (.ok undo, v') ∧ v'.unspentWorth + 2 ≤ v.unspentWorth + 3 := by
  have hv := sound_run (connectBlock smallChain payingIndex payingBlock) (CoinsOp.sound_new {})
  generalize hrun : (connectBlock smallChain shieldingIndex shieldingBlock).run viewHandler
    ((connectBlock smallChain payingIndex payingBlock).run viewHandler ⟨{}, .base {}⟩).2 = out
  obtain ⟨undo, v', rfl⟩ : ∃ undo v', out = (.ok undo, v') := by
    rw [← hrun]
    exact ⟨_, _, rfl⟩
  obtain ⟨cheque, hcheque, hle⟩ := value_conserved rfl hv (by decide) (by decide)
    (fun hgen => absurd hgen (by decide)) hrun
  obtain rfl : (0 : UInt64) = cheque := ok.inj hcheque
  have hinflow : shieldedInflow shieldingBlock.vtx = 2 := by decide
  have hsubsidy : (smallChain.getBlockSubsidy shieldingIndex.nHeight).toInt = 3 := by decide
  have hcommission : (grantedCommission smallChain shieldingIndex shieldingBlock).toNat = 0 := by
    decide
  have hextra : smallChain.komodoExtrasatoshi.toInt = 0 := by decide
  rw [hinflow, hsubsidy, hcommission, hextra] at hle
  refine ⟨_, v', undo, hv, hrun, ?_⟩
  simpa using hle

end

end Elosys
