import Elosys.Rewards

/-!
# Unlocking Rewards

An accepted unlock should give back one lock with its reward, the rest coming from the plan's
funding. The validation takes the amount from the lock's first output, though another may be spent,
and of the other inputs only asks for the contract's condition.
-/

open List Option Except

namespace Elosys

section

variable [CCLibrary] {world : RewardsWorld} {tx t : CTransaction} {o l : RewardsOpret}
  {plan : RewardsPlan} {i : CTxIn} {out : CTxOut}

open CCLibrary

/-! ### Sound unlocks -/

def AtContract (out : CTxOut) : Prop :=
  out.scriptPubKey.isPayToCryptoCondition = true ∧
    getscriptaddress out.scriptPubKey = some (unspendableCCaddr evalRewards)

/-- An input spends an output of a plan. -/
structure SpendsRewards (world : RewardsWorld) (i : CTxIn) (t : CTransaction) (out : CTxOut)
    (l : RewardsOpret) : Prop where
  found : world.getTx i.prevout.hash = some t
  spent : t.vout[i.prevout.n]? = some out
  contract : AtContract out
  opret : rewardsOpretOf t = some l

def SpendsFunding (world : RewardsWorld) (fundingtxid : UInt256) (i : CTxIn) : Prop :=
  ∃ t out l, SpendsRewards world i t out l ∧ l.fundingtxid = fundingtxid ∧
    l.funcid ∈ [funcCode 'F', funcCode 'A', funcCode 'U']

omit [CCLibrary] in
def CTransaction.paidTo (tx : CTransaction) (script : CScript) : Int :=
  ((tx.vout.filter fun out => out.scriptPubKey = script).map fun out => out.nValue.toInt).sum

def PaysLock (world : RewardsWorld) (plan : RewardsPlan) (tx : CTransaction) (i : CTxIn)
    (t : CTransaction) (nValue : CAmount) : Prop :=
  ∃ unlockOut reward, t.vout[1]? = some unlockOut ∧
    rewardsCalc world nValue i.prevout.hash plan = .ok reward ∧
    tx.paidTo unlockOut.scriptPubKey ≤ nValue.toInt + reward.toNat

/-- **A sound unlock**: one input spends a lock, paid with reward, the others funding. -/
def SoundUnlock (world : RewardsWorld) (o : RewardsOpret) (plan : RewardsPlan)
    (tx : CTransaction) : Prop :=
  ∃ (k : Nat) (i : CTxIn) (t : CTransaction) (out : CTxOut) (l : RewardsOpret),
    tx.vin[k]? = some i ∧ SpendsRewards world i t out l ∧
    l.funcid = funcCode 'L' ∧ PaysLock world plan tx i t out.nValue ∧
    ∀ (j : Nat) (i' : CTxIn), tx.vin[j]? = some i' → j ≠ k → SpendsFunding world o.fundingtxid i'

def recoversShielded (world : RewardsWorld) (tx : CTransaction) : Bool :=
  (tx.vout[0]?).any (recovers tx) &&
    decide (tx.getShieldedValueIn world.maxMoney ≠ .ok 0)

/-- **What the validation does not look at**: where the spent output of the first input is, and
what the others spend. -/
structure UnlockMeets (world : RewardsWorld) (o : RewardsOpret) (plan : RewardsPlan)
    (tx : CTransaction) : Prop where
  first : ∀ i out, tx.vin[0]? = some i → world.output? i.prevout = some out → AtContract out
  amount : ∀ i t out, tx.vin[0]? = some i → world.getTx i.prevout.hash = some t →
    t.vout[i.prevout.n]? = some out → i.prevout.n ≠ 0 ∨ recoversShielded world tx = true →
    PaysLock world plan tx i t out.nValue
  others : ∀ (j : Nat) (i : CTxIn), tx.vin[j]? = some i → j ≠ 0 →
    SpendsFunding world o.fundingtxid i

/-! ### Accepted unlocks -/

theorem rewardsValidate_ok (ho : rewardsOpretOf tx = some o)
    (hplan : fundingPlan world o = .ok plan) (h : rewardsValidate world tx = .ok ()) :
    unlock world tx o plan = .ok () := by
  simp only [rewardsValidate, bind_eq_ok, someOrInvalid_eq_ok, invalidIf_eq_ok] at h
  obtain ⟨last, hlast, o', ho', plan', hplan', -, -, -, -, -, -, -, -, -, -, h⟩ := h
  rw [rewardsOpretOf, hlast, bind_some, ho'] at ho
  obtain rfl := some.inj ho
  obtain rfl := ok.inj (hplan'.symm.trans hplan)
  exact h

omit [CCLibrary] in
theorem decodeRewardsOpRet_lock {txid : UInt256} {s : CScript}
    (h : decodeRewardsOpRet txid s = some l) (hl : l.funcid = funcCode 'L') (txid' : UInt256) :
    decodeRewardsOpRet txid' s = some l := by
  unfold decodeRewardsOpRet at h ⊢
  dsimp only at h ⊢
  split at h
  · next hlen =>
      rw [if_pos hlen]
      split at h
      · obtain ⟨plan, -, rfl⟩ := map_eq_some_iff.mp h
        exact absurd hl (show funcCode 'F' ≠ funcCode 'L' by decide)
      · next hF =>
          rwa [if_neg hF]
  · exact absurd h (by simp)

variable {lock : RewardsLock}

theorem unlockHead_ok (h : unlockHead world tx o plan = .ok lock) :
    ∃ i, tx.vin[0]? = some i ∧ world.getTx i.prevout.hash = some lock.vinTx ∧
      lock.vinTx.vout[0]? = some lock.vout0 ∧
      (∃ l, rewardsOpretOf lock.vinTx = some l ∧ l.funcid = funcCode 'L') ∧
      checkTxFee world tx rewardsTxfee = .ok true ∧
      rewardsCalc world lock.vout0.nValue i.prevout.hash plan = .ok lock.reward := by
  simp only [unlockHead, bind_eq_ok, someOrInvalid_eq_ok, invalidIf_eq_ok, vinAt_eq_ok,
    voutAt_eq_ok] at h
  obtain ⟨i, hi, -, -, vinTx, hvinTx, last, hlast, l, hl, -, -, -, -, ok, hfee, -, hok, vout0,
    hvout0, reward, hreward, -, -, hret⟩ := h
  obtain rfl := Except.ok.inj hret
  obtain rfl : ok = true := by simpa using hok
  obtain ⟨hl, hfunc⟩ := Option.filter_eq_some_iff.mp hl
  have hfunc := beq_iff_eq.mp hfunc
  refine ⟨i, hi, hvinTx, hvout0, ⟨l, ?_, hfunc⟩, hfee, hreward⟩
  rw [rewardsOpretOf, getLast?_eq_getElem?, hlast, bind_some]
  exact decodeRewardsOpRet_lock hl hfunc vinTx.hash

omit [CCLibrary] in
theorem checkTxFee_ok {txfee : UInt64} {shielded : CAmount}
    (hshielded : tx.getShieldedValueIn world.maxMoney = .ok shielded)
    (hpos : 0 ≤ (transparentIn world.toCCWorld tx).toInt)
    (hin : (transparentIn world.toCCWorld tx).toInt + shielded.toInt ≤ world.maxMoney.toInt)
    (hfee : txfee.toNat < 2 ^ 63) (h : checkTxFee world tx txfee = .ok true) :
    tx.transparentOut ≤ (transparentIn world.toCCWorld tx).toInt + shielded.toInt := by
  simp only [checkTxFee, bind_eq_ok, orThrown_eq_ok, hshielded] at h
  obtain ⟨s, hs, valueOut, hout, hret⟩ := h
  obtain rfl := ok.inj hs
  have hle := transparentOut_le_getValueOut hout
  have houtPos := (getValueOut_ok hout).2.1
  have hshieldedPos := (getShieldedValueIn_ok hshielded).2
  have hmax := Int64.toInt_lt world.maxMoney
  have hsum : (transparentIn world.toCCWorld tx + shielded).toInt
      = (transparentIn world.toCCWorld tx).toInt + shielded.toInt := by
    rw [Int64.toInt_add, Int.bmod_def]
    split <;> omega
  have hdiff : (transparentIn world.toCCWorld tx + shielded - valueOut).toInt
      = (transparentIn world.toCCWorld tx).toInt + shielded.toInt - valueOut.toInt := by
    rw [toInt_sub_of_nonneg (by omega) houtPos, hsum]
  have hlimit : (transparentIn world.toCCWorld tx + shielded - valueOut).toUInt64.toNat
      ≤ txfee.toNat := UInt64.le_iff_toNat_le.mp (of_decide_eq_true (ok.inj hret))
  have hunsigned := toNat_toUInt64_cond (transparentIn world.toCCWorld tx + shielded - valueOut)
  have hlt := Int64.toInt_lt valueOut
  split at hunsigned
  · omega
  · omega

omit [CCLibrary] in
theorem CTransaction.paidTo_le (h : ∀ out ∈ tx.vout, 0 ≤ out.nValue.toInt) (script : CScript) :
    tx.paidTo script ≤ tx.transparentOut := by
  rw [CTransaction.paidTo, CTransaction.transparentOut, amountSum, List.map_map]
  refine (List.filter_sublist.map _).sum_le_sum fun x hx => ?_
  obtain ⟨out, hout, rfl⟩ := List.mem_map.mp hx
  exact h out hout

theorem unlockOutputs_ok {txid : UInt256} (hout : tx.vout[0]? = some out)
    (hvalues : ∀ out ∈ tx.vout, 0 ≤ out.nValue.toInt) (hlocked : 0 ≤ lock.vout0.nValue.toInt)
    (hreward : rewardsCalc world lock.vout0.nValue txid plan = .ok lock.reward)
    (h : unlockOutputs world tx out o plan lock = .ok ()) :
    ∃ unlockOut, lock.vinTx.vout[1]? = some unlockOut ∧
      tx.paidTo unlockOut.scriptPubKey ≤ lock.vout0.nValue.toInt + lock.reward.toNat := by
  simp only [unlockOutputs, bind_eq_ok, invalidIf_eq_ok, voutAt_eq_ok] at h
  obtain ⟨-, -, -, hlen, -, hcc, out1, hout1, -, hnormal, unlockOut, hunlock, -, hscript, -, -, -,
    hamount, out2, hout2, -, hzero, -⟩ := h
  have hscript : out1.scriptPubKey = unlockOut.scriptPubKey := by simpa using hscript
  refine ⟨unlockOut, hunlock, ?_⟩
  have hvout : tx.vout = [out, out1, out2] := by
    have hlen : tx.vout.length = 3 := by simpa using hlen
    refine ext_getElem? fun n => ?_
    rcases n with _ | _ | _ | n
    · exact hout
    · exact hout1
    · exact hout2
    · rw [getElem?_eq_none (by omega), getElem?_eq_none (by simp)]
  have hne : out.scriptPubKey ≠ unlockOut.scriptPubKey := by
    intro heq
    rw [heq, ← hscript, hnormal] at hcc
    exact absurd hcc (by simp)
  have hvalue2 : out2.nValue.toInt ≤ 0 := by
    have hle : ¬ 0 < out2.nValue := by simpa using hzero
    simpa using Int64.le_iff_toInt_le.mp (Int64.not_lt.mp hle)
  have hpaid : tx.paidTo unlockOut.scriptPubKey ≤ out1.nValue.toInt := by
    rw [CTransaction.paidTo, hvout]
    by_cases h2 : out2.scriptPubKey = unlockOut.scriptPubKey
    · simp only [filter_cons, hne, hscript, h2, filter_nil, map_cons, map_nil,
        sum_cons, sum_nil, decide_true, decide_false, if_true, Bool.false_eq_true,
        if_false]
      omega
    · simp [hne, hscript, h2]
  have hle : out1.nValue.toUInt64 ≤ lock.vout0.nValue.toUInt64 + lock.reward := by
    simpa using hamount
  have hnat := UInt64.le_iff_toNat_le.mp hle
  rw [UInt64.toNat_add] at hnat
  have hcap := UInt64.le_iff_toNat_le.mp (rewardsCalc_le hreward)
  have hlockedNat := toNat_toUInt64_cond lock.vout0.nValue
  have hout1Nat := toNat_toUInt64_cond out1.nValue
  have hout1Pos := hvalues out1 (mem_of_getElem? hout1)
  omega

omit [CCLibrary] in
theorem recoverOutputs_ok (h : recoverOutputs tx out lock = .ok ()) :
    ∃ unlockOut, lock.vinTx.vout[1]? = some unlockOut := by
  simp only [recoverOutputs, bind_eq_ok, invalidIf_eq_ok, voutAt_eq_ok] at h
  obtain ⟨-, -, -, -, -, -, unlockOut, hunlock, -⟩ := h
  exact ⟨unlockOut, hunlock⟩

/-- Known of amounts: found outputs are not negative, inputs in range. -/
structure AmountsInRange (world : RewardsWorld) (tx : CTransaction) : Prop where
  spent : ∀ i ∈ tx.vin, ∃ out, world.output? i.prevout = some out
  found : ∀ h t, world.getTx h = some t → ∀ out ∈ t.vout, 0 ≤ out.nValue.toInt
  comesIn : ∀ shielded, tx.getShieldedValueIn world.maxMoney = .ok shielded →
    0 ≤ (transparentIn world.toCCWorld tx).toInt ∧
      (transparentIn world.toCCWorld tx).toInt + shielded.toInt ≤ world.maxMoney.toInt

theorem paysLock_of_first (hamounts : AmountsInRange world tx)
    (hunlock : unlock world tx o plan = .ok ()) (hi : tx.vin[0]? = some i)
    (ht : world.getTx i.prevout.hash = some t) (hout : t.vout[i.prevout.n]? = some out)
    (hfirst : i.prevout.n = 0) (hshielded : recoversShielded world tx = false) :
    PaysLock world plan tx i t out.nValue := by
  simp only [unlock, bind_eq_ok, voutAt_eq_ok] at hunlock
  obtain ⟨lock, hhead, out0, hout0, hbranch⟩ := hunlock
  obtain ⟨i', hi', ht', hvout0, -, hfee, hreward⟩ := unlockHead_ok hhead
  obtain rfl := some.inj (hi.symm.trans hi')
  obtain rfl := some.inj (ht.symm.trans ht')
  rw [hfirst] at hout
  obtain rfl := some.inj (hvout0.symm.trans hout)
  have hlocked :=
    hamounts.found _ _ ht _ (mem_of_getElem? hvout0)
  have hfee' := hfee
  simp only [checkTxFee, bind_eq_ok, orThrown_eq_ok] at hfee'
  obtain ⟨shielded, hsh, valueOut, hvalueOut, -⟩ := hfee'
  have hvalues := (getValueOut_ok hvalueOut).2.2
  split at hbranch
  · -- Nothing but the lock comes in, so no more is paid.
    next hrecovers =>
    obtain ⟨unlockOut, hunlockOut⟩ := recoverOutputs_ok hbranch
    refine ⟨unlockOut, lock.reward, hunlockOut, hreward, ?_⟩
    obtain ⟨hpos, hin⟩ := hamounts.comesIn shielded hsh
    have hle := checkTxFee_ok hsh hpos hin (by decide) hfee
    have hpaid := tx.paidTo_le hvalues unlockOut.scriptPubKey
    have hnone : shielded = 0 := by
      simp only [recoversShielded, hout0, any_some, hrecovers, Bool.true_and,
        decide_eq_false_iff_not, not_not, hsh] at hshielded
      exact ok.inj hshielded
    have hvin : tx.vin = [i] := by
      have hlen : tx.vin.length = 1 := beq_iff_eq.mp (Bool.and_eq_true_iff.mp hrecovers).1
      obtain ⟨j, hj⟩ := length_eq_one_iff.mp hlen
      rw [hj] at hi ⊢
      obtain rfl : j = i := by simpa using hi
      rfl
    have htotal : transparentIn world.toCCWorld tx = lock.vout0.nValue := by
      simp [transparentIn, hvin, CCWorld.output?, ht, hfirst, hvout0]
    rw [htotal, hnone] at hle
    simp only [Int64.toInt_zero, add_zero] at hle
    omega
  · obtain ⟨unlockOut, hunlockOut, hpaid⟩ :=
      unlockOutputs_ok hout0 hvalues hlocked hreward hbranch
    exact ⟨unlockOut, lock.reward, hunlockOut, hreward, hpaid⟩

/-- **When an accepted unlock is sound.** -/
theorem unlock_sound_iff (ho : rewardsOpretOf tx = some o)
    (hplan : fundingPlan world o = .ok plan) (hamounts : AmountsInRange world tx)
    (hok : rewardsValidate world tx = .ok ()) :
    SoundUnlock world o plan tx ↔ UnlockMeets world o plan tx := by
  have hunlock := rewardsValidate_ok ho hplan hok
  have hhead := hunlock
  simp only [unlock, bind_eq_ok] at hhead
  obtain ⟨lock, hhead, -⟩ := hhead
  obtain ⟨i, hi, ht, -, ⟨l, hl, hL⟩, -⟩ := unlockHead_ok hhead
  constructor
  · rintro ⟨k, i', t', out, l', hi', hspends, -, hpays, hothers⟩
    -- The first input is a lock, so it is the one.
    have hk : k = 0 := by
      by_contra hne
      obtain ⟨t, out', l'', hfunding, -, hfunc⟩ := hothers 0 i hi (Ne.symm hne)
      obtain rfl := some.inj (ht.symm.trans hfunding.found)
      obtain rfl := some.inj (hl.symm.trans hfunding.opret)
      rw [hL] at hfunc
      exact absurd hfunc (by decide)
    subst hk
    obtain rfl := some.inj (hi.symm.trans hi')
    have hspent : world.output? i.prevout = some out := by
      rw [CCWorld.output?, hspends.found, bind_some, hspends.spent]
    refine ⟨fun j out' hj hout' => ?_, fun j t out' hj htj hout' _ => ?_, hothers⟩
    · obtain rfl := some.inj (hi.symm.trans hj)
      obtain rfl := some.inj (hspent.symm.trans hout')
      exact hspends.contract
    · obtain rfl := some.inj (hi.symm.trans hj)
      obtain rfl := some.inj (hspends.found.symm.trans htj)
      obtain rfl := some.inj (hspends.spent.symm.trans hout')
      exact hpays
  · intro hmeets
    obtain ⟨out, hout⟩ := hamounts.spent i (mem_of_getElem? hi)
    have hspent : lock.vinTx.vout[i.prevout.n]? = some out := by
      rwa [CCWorld.output?, ht, bind_some] at hout
    refine ⟨0, i, lock.vinTx, out, l, hi, ⟨ht, hspent, hmeets.first i out hi hout, hl⟩, hL, ?_,
      hmeets.others⟩
    by_cases hlook : i.prevout.n ≠ 0 ∨ recoversShielded world tx = true
    · exact hmeets.amount i _ out hi ht hspent hlook
    · simp only [not_or, not_not, Bool.not_eq_true] at hlook
      exact paysLock_of_first hamounts hunlock hi ht hspent hlook.1 hlook.2

end

/-! ### Two unlocks -/

section

open CCLibrary

local instance rewardsLibrary : CCLibrary where
  getscriptaddress := some
  solver _ := none
  ccPubKey c := pushInstruction (c.evals ++ c.pks.flatten) ++ [0xcc]
  isCCInput s := !s.isEmpty
  ismyvin e s := s.head? == some e
  vinPubkey s := some s.tail
  getUnspendable e := 0x02 :: replicate 32 e
  unspendableCCaddr e := pushInstruction (e :: 0x02 :: replicate 32 e) ++ [0xcc]

def contractCoins (nValue : CAmount) : CTxOut :=
  makeCC1vout evalRewards nValue (getUnspendable evalRewards)

def unlockCoins (nValue : CAmount) : CTxOut := ⟨nValue, [opChecksig]⟩

def yearlyPlan : RewardsPlan where
  sbits := 1
  apr := 2500000000
  minseconds := 0
  maxseconds := 31536000
  mindeposit := 0

def rewardsTx (hash : UInt256) (vin : List COutPoint) (vout : List CTxOut) : CTransaction where
  hash := hash
  nVersion := 1
  vin := vin.map fun o => { prevout := o, scriptSig := [evalRewards] }
  vout := vout

def planTx : CTransaction :=
  rewardsTx 2 [] [contractCoins 10000000, ⟨0, encodeRewardsFundingOpRet yearlyPlan⟩]

def lockTx : CTransaction := rewardsTx 3 []
  [contractCoins 4000000, unlockCoins 0, contractCoins 20000,
    ⟨0, encodeRewardsOpRet (funcCode 'L') 1 2⟩]

def unlockOpret : CTxOut := ⟨0, encodeRewardsOpRet (funcCode 'U') 1 2⟩

def rewardsWorld : RewardsWorld where
  getTx h := [planTx, lockTx].find? (·.hash == h)
  chainName := []
  height := 0
  hashBlock _ := 1
  ccDuration _ := 31536000
  hardforkActive := true
  maxMoney := 1000000000000
  uninitialised := yearlyPlan

theorem rewardsWorld_found : ∀ h t, rewardsWorld.getTx h = some t → ∀ out ∈ t.vout,
    0 ≤ out.nValue.toInt := by
  intro h t ht
  have hall : ∀ t ∈ [planTx, lockTx], ∀ out ∈ t.vout, 0 ≤ out.nValue.toInt := by decide
  dsimp only [rewardsWorld] at ht
  exact hall t (mem_of_find?_eq_some ht)

def soundUnlockTx : CTransaction := rewardsTx 4 [⟨3, 0⟩, ⟨2, 0⟩]
  [contractCoins 8990000, unlockCoins 5000000, unlockOpret]

def unlockOf : RewardsOpret := ⟨funcCode 'U', 1, 2⟩

theorem atContract_contractCoins (nValue : CAmount) : AtContract (contractCoins nValue) := by
  have hcc : (contractCoins 0).scriptPubKey.isPayToCryptoCondition = true := by decide +kernel
  exact ⟨hcc, rfl⟩

theorem spendsFunding_planTx : SpendsFunding rewardsWorld 2
    { prevout := ⟨2, 0⟩, scriptSig := [evalRewards] } :=
  ⟨planTx, contractCoins 10000000, ⟨funcCode 'F', 1, 2⟩,
    ⟨by decide +kernel, rfl, atContract_contractCoins _, by decide +kernel⟩, rfl, by decide⟩

theorem unlock_sound_soundUnlockTx : rewardsValidate rewardsWorld soundUnlockTx = .ok () ∧
    SoundUnlock rewardsWorld unlockOf yearlyPlan soundUnlockTx := by
  have hok : rewardsValidate rewardsWorld soundUnlockTx = .ok () := by decide +kernel
  have hfirst : rewardsWorld.output? ⟨3, 0⟩ = some (contractCoins 4000000) := by decide +kernel
  have hamounts : AmountsInRange rewardsWorld soundUnlockTx := by
    refine ⟨fun i hi => ?_, rewardsWorld_found, fun shielded hshielded => ?_⟩
    · rcases mem_cons.mp hi with rfl | hi
      · exact ⟨_, hfirst⟩
      · obtain rfl := mem_singleton.mp hi
        exact ⟨contractCoins 10000000, by decide +kernel⟩
    · have hnone : soundUnlockTx.getShieldedValueIn rewardsWorld.maxMoney = .ok 0 := by
        decide +kernel
      obtain rfl := ok.inj (hnone.symm.trans hshielded)
      decide +kernel
  refine ⟨hok, (unlock_sound_iff (by decide +kernel) (by decide +kernel) hamounts hok).mpr ?_⟩
  refine ⟨fun i out hi hout => ?_, fun i t out hi _ _ hlook => ?_, fun j i hj hne => ?_⟩
  · obtain rfl := some.inj hi
    obtain rfl := some.inj (hfirst.symm.trans hout)
    exact atContract_contractCoins _
  · obtain rfl := some.inj hi
    exact absurd hlook (by decide +kernel)
  · rcases j with _ | _ | j
    · exact absurd rfl hne
    · obtain rfl := some.inj hj
      exact spendsFunding_planTx
    · exact absurd hj (by simp [soundUnlockTx, rewardsTx])

def doubleUnlockTx : CTransaction := rewardsTx 5 [⟨3, 2⟩, ⟨2, 0⟩]
  [contractCoins 5010000, unlockCoins 5000000, unlockOpret]

/-- **A lock's large output is paid for while a small one is spent**: 5000000 coins for 20000, and
4000000 can be unlocked again. -/
theorem unlock_pays_twice : rewardsValidate rewardsWorld doubleUnlockTx = .ok () ∧
    rewardsOpretOf doubleUnlockTx = some unlockOf ∧
    fundingPlan rewardsWorld unlockOf = .ok yearlyPlan ∧
    ¬ SoundUnlock rewardsWorld unlockOf yearlyPlan doubleUnlockTx := by
  refine ⟨by decide +kernel, by decide +kernel, by decide +kernel, ?_⟩
  rintro ⟨k, i, t, out, l, hi, hspends, hL, ⟨unlockOut, reward, hunlock, hreward, hpaid⟩, -⟩
  rcases k with _ | _ | k
  · obtain rfl := some.inj hi
    have hfound : rewardsWorld.getTx 3 = some lockTx := by decide +kernel
    obtain rfl := some.inj (hfound.symm.trans hspends.found)
    obtain rfl := some.inj hspends.spent
    obtain rfl := some.inj hunlock
    have hcalc : rewardsCalc rewardsWorld 20000 3 yearlyPlan = .ok 5000 := by decide +kernel
    obtain rfl := ok.inj (hcalc.symm.trans hreward)
    exact absurd hpaid (by decide +kernel)
  · obtain rfl := some.inj hi
    have hfound : rewardsWorld.getTx 2 = some planTx := by decide +kernel
    obtain rfl := some.inj (hfound.symm.trans hspends.found)
    have hopret : rewardsOpretOf planTx = some ⟨funcCode 'F', 1, 2⟩ := by decide +kernel
    obtain rfl := some.inj (hopret.symm.trans hspends.opret)
    exact absurd hL (by decide)
  · exact absurd hi (by simp [doubleUnlockTx, rewardsTx])

/-! ### The reward over the integers -/

def exactReward (amount duration : Int64) (plan : RewardsPlan) : Int :=
  if duration < plan.minseconds.toInt64 then 0
  else min amount.toInt (max 0 (amount.toInt * plan.apr.toInt64.toInt *
    min duration.toInt plan.maxseconds.toInt64.toInt / (100000000 * 100 * yearSeconds)))

def RewardFits (amount duration : Int64) (plan : RewardsPlan) : Prop :=
  duration < plan.minseconds.toInt64 ∨
    let apr := plan.apr.toInt64.toInt
    let seconds := min duration.toInt plan.maxseconds.toInt64.toInt
    amount.toInt * apr * seconds = 0 ∨ 0 < apr ∧ 0 < seconds ∧
      amount.toInt * apr * seconds / (100000000 * 100 * yearSeconds) < 2 ^ 64

theorem mpzSetLli_spec (n : Int64) : (0 ≤ n.toInt → (mpzSetLli n : Int) = n.toInt) ∧
    (n.toInt < 0 → 2 ^ 63 ≤ mpzSetLli n) := by
  have hcond := toNat_toUInt64_cond n
  have hle := Int64.le_toInt n
  unfold mpzSetLli
  split at hcond <;> omega

theorem reward_quotient_iff {a d p : Int64} (ha : 0 ≤ a.toInt) :
    (mpzSetLli a * mpzSetLli d * mpzSetLli p / 315360000000000000 < 2 ^ 64 ∧
      min a.toInt ↑(mpzSetLli a * mpzSetLli d * mpzSetLli p / 315360000000000000) =
        min a.toInt (max 0 (a.toInt * p.toInt * d.toInt / 315360000000000000))) ↔
    a.toInt * p.toInt * d.toInt = 0 ∨ 0 < p.toInt ∧ 0 < d.toInt ∧
      a.toInt * p.toInt * d.toInt / 315360000000000000 < 2 ^ 64 := by
  have hA := (mpzSetLli_spec a).1 ha
  obtain ⟨hP, hP'⟩ := mpzSetLli_spec p
  obtain ⟨hD, hD'⟩ := mpzSetLli_spec d
  generalize mpzSetLli a = A at *
  generalize mpzSetLli d = D at *
  generalize mpzSetLli p = P at *
  generalize a.toInt = a at *
  generalize d.toInt = d at *
  generalize p.toInt = p at *
  subst hA
  by_cases hzero : (A : Int) * p * d = 0
  · refine iff_of_true ?_ (.inl hzero)
    have hprod : A * D * P = 0 := by
      simp only [Int.mul_eq_zero] at hzero
      simp only [Nat.mul_eq_zero]
      omega
    simp [hprod, hzero]
  simp only [Int.mul_eq_zero, not_or] at hzero
  obtain ⟨⟨hA, hp⟩, hd⟩ := hzero
  have hDP : D * P ≤ A * D * P := Nat.mul_le_mul_right P (Nat.le_mul_of_pos_left D (by omega))
  by_cases hpos : 0 < p ∧ 0 < d
  · obtain ⟨hp, hd⟩ := hpos
    obtain rfl := hP hp.le
    obtain rfl := hD hd.le
    rw [Int.mul_right_comm, ← Int.natCast_mul, ← Int.natCast_mul]
    generalize A * D * P = N at *
    omega
  · refine iff_of_false (fun ⟨hfit, hmin⟩ => ?_) (fun h => ?_)
    · by_cases hneg : p < 0 ∧ d < 0
      · have := Nat.mul_le_mul (hD' hneg.2) (hP' hneg.1)
        generalize A * D * P = N at *
        omega
      · have hprod : (A : Int) * p * d < 0 := by
          rcases Int.lt_or_gt_of_ne hp with hp | hp
          · exact Int.mul_neg_of_neg_of_pos (Int.mul_neg_of_pos_of_neg (by omega) hp) (by omega)
          · exact Int.mul_neg_of_pos_of_neg (Int.mul_pos (by omega) hp) (by omega)
        have hlarge : 2 ^ 63 ≤ D * P := by
          rcases Int.lt_or_gt_of_ne hp with hp | hp
          · exact Nat.le_trans (hP' hp) (Nat.le_mul_of_pos_left P (by omega))
          · exact Nat.le_trans (hD' (by omega)) (Nat.le_mul_of_pos_right D (by omega))
        generalize A * D * P = N at *
        omega
    · rcases h with h | ⟨hp, hd, -⟩
      · simp only [Int.mul_eq_zero] at h
        omega
      · exact hpos ⟨hp, hd⟩

/-- **The reward is exact where no sign is lost and it fits 64 bits.** -/
theorem reward_exact_iff {world : RewardsWorld} {amount : Int64} {txid : UInt256}
    {plan : RewardsPlan} (hfork : world.hardforkActive = true) (hamount : 0 ≤ amount.toInt) :
    (∃ reward, rewardsCalc world amount txid plan = .ok reward ∧
      (reward.toNat : Int) = exactReward amount (world.ccDuration txid) plan) ↔
    RewardFits amount (world.ccDuration txid) plan := by
  unfold rewardsCalc exactReward RewardFits
  generalize world.ccDuration txid = duration
  by_cases hmin : duration < plan.minseconds.toInt64
  · exact iff_of_true ⟨0, by simp [hmin]⟩ (.inl hmin)
  have hcap : min duration.toInt plan.maxseconds.toInt64.toInt =
      (if plan.maxseconds.toInt64 < duration then plan.maxseconds.toInt64 else duration).toInt := by
    simp only [Int64.lt_iff_toInt_lt]
    split <;> omega
  simp only [hmin, if_false, false_or, hcap, hfork]
  generalize (if plan.maxseconds.toInt64 < duration then plan.maxseconds.toInt64 else duration) = d
  refine Iff.trans ?_ (reward_quotient_iff (d := d) (p := plan.apr.toInt64) hamount)
  have hexport : uncappedReward true amount d plan.apr.toInt64 = mpzGetUi2 (mpzSetLli amount *
    mpzSetLli d * mpzSetLli plan.apr.toInt64 / 315360000000000000) := rfl
  have ha := (mpzSetLli_spec amount).1 hamount
  rw [hexport, mpzGetUi2]
  unfold mpzSetLli at ha
  generalize mpzSetLli amount * mpzSetLli d * mpzSetLli plan.apr.toInt64 / 315360000000000000 = q
  by_cases hq : q < 2 ^ 64
  · have hr : (UInt64.ofNat q).toNat = q := UInt64.toNat_ofNat_of_lt' hq
    have hmin : ((if amount.toUInt64 < UInt64.ofNat q then amount.toUInt64
        else UInt64.ofNat q).toNat : Int) = min amount.toInt q := by
      simp only [UInt64.lt_iff_toNat_lt, hr]
      split <;> omega
    rw [if_pos hq, ← hmin]
    refine ⟨?_, fun h => ⟨_, rfl, h.2⟩⟩
    rintro ⟨r, hret, hv⟩
    obtain rfl := Except.ok.inj hret
    exact ⟨hq, hv⟩
  · rw [if_neg hq]
    exact iff_of_false (by rintro ⟨-, ⟨⟩, -⟩) fun h => hq h.1

theorem reward_exact_yearlyPlan : ∃ reward,
    rewardsCalc rewardsWorld 4000000 3 yearlyPlan = .ok reward ∧
      (reward.toNat : Int) = exactReward 4000000 31536000 yearlyPlan :=
  (reward_exact_iff rfl (by decide)).mpr (by unfold RewardFits; decide +kernel)

/-- **A negative percentage doubles the amount.** -/
theorem negative_apr_pays : rewardsCalc rewardsWorld 4000000 3 { yearlyPlan with apr := -1 } =
      .ok 4000000 ∧ exactReward 4000000 31536000 { yearlyPlan with apr := -1 } = 0 := by
  decide +kernel

end

end Elosys
