import Elosys.Dice

/-!
# Settling Bets

The house should have to show the value it committed to, and not take what is locked otherwise
before the timeout. The validation does not compare the value with the commitment, a refund only has
to start with an input of the house, and inputs behind the third are not looked at.

`BetBound` is what a bet should be able to rely on. `dice_settlement` says that no bet can before
its timeout, unless no plan is known; what other spends are left open then (`LeftOpen`); and that a
win and a loss that both show the committed value need a collision of the hash.
-/

open List Option Except

namespace Elosys

section

variable [CCLibrary] [Sha256] {world : DiceWorld} {tx : CTransaction} {o : DiceOpret}
  {plan : DicePlan} {key : CScript}

open CCLibrary

/-! ### Bets and their ends -/

omit [Sha256] [CCLibrary] in
/-- A bet with the entropy transaction that it spends, and what that commits to. -/
structure Bet (world : DiceWorld) where
  tx : CTransaction
  opret : DiceOpret
  entropyTx : CTransaction
  commitment : DiceOpret
  found : world.getTx tx.hash = some tx
  opret_eq : diceOpretOf tx = some opret
  isBet : opret.funcid = funcCode 'B'
  locked : ∃ out, tx.vout[1]? = some out ∧ out.scriptPubKey.isPayToCryptoCondition = true
  entropy : ∃ i, tx.vin[0]? = some i ∧ world.getTx i.prevout.hash = some entropyTx
  commitment_eq : diceOpretOf entropyTx = some commitment

/-- An input that shows a condition spends a locked output of the bet. -/
def SpendsBet (bet : Bet world) (tx : CTransaction) : Prop :=
  ∃ i ∈ tx.vin, i.prevout.hash = bet.tx.hash ∧ i.prevout.n < 2 ∧ isCCInput i.scriptSig = true

omit [Sha256] [CCLibrary] in
/-- The second input is of the bet. -/
def EndsBet (bet : Bet world) (tx : CTransaction) : Prop :=
  ∃ i, tx.vin[1]? = some i ∧ i.prevout.hash = bet.tx.hash

/-- The proof hashes to the commitment. -/
def ShowsCommitted (bet : Bet world) (o : DiceOpret) : Prop :=
  Sha256.sha256 (writeUint256 o.proof) = bet.commitment.hash

instance (bet : Bet world) (o : DiceOpret) : Decidable (ShowsCommitted bet o) :=
  inferInstanceAs (Decidable (_ = _))

/-- The blocks of the bet's plan have not passed. -/
def Bet.BeforeTimeout (bet : Bet world) : Prop :=
  ∀ plan key, dicePlan world bet.opret = .ok (plan, key) →
    (world.ccDuration bet.tx.hash).2 < plan.timeoutblocks.toInt

/-- A win or a loss, by its function code. -/
def DiceOpret.IsOutcome (o : DiceOpret) : Prop := o.funcid = funcCode 'W' ∨ o.funcid = funcCode 'L'

/-- **A sound spend of a bet**: a win or loss bound to the commitment, or another one after the
timeout. -/
def SoundSpend (bet : Bet world) (o : DiceOpret) : Prop :=
  (o.IsOutcome ∧ ShowsCommitted bet o) ∨ (¬o.IsOutcome ∧ ¬bet.BeforeTimeout)

/-- The spends before the timeout that are no outcome: a refund, a bet where the script of the plan
pays a condition, and a timeout of another bet or of a plan whose blocks do not fit 32 bits. -/
def LeftOpen (bet : Bet world) (plan : DicePlan) (key : CScript) (o : DiceOpret)
    (tx : CTransaction) : Prop :=
  o.funcid = funcCode 'R' ∨ (o.funcid = funcCode 'B' ∧ key.isPayToCryptoCondition = true) ∨
    (o.funcid = funcCode 'T' ∧
      (¬EndsBet bet tx ∨ plan.timeoutblocks.toInt32.toInt ≠ plan.timeoutblocks.toInt))

/-- An accepted transaction that spends what the bet has locked. -/
structure AcceptedSpend (bet : Bet world) (tx : CTransaction) (o : DiceOpret) (plan : DicePlan)
    (key : CScript) : Prop where
  opret_eq : diceOpretOf tx = some o
  plan_eq : dicePlan world o = .ok (plan, key)
  valid : diceValidate world tx = .ok ()
  amounts : ∀ out ∈ tx.vout, 0 ≤ out.nValue
  spends : SpendsBet bet tx

/-- Two values with one hash. -/
def Sha256Collision : Prop :=
  ∃ p q : UInt256, p ≠ q ∧ Sha256.sha256 (writeUint256 p) = Sha256.sha256 (writeUint256 q)

/-- **A bet is bound to its commitment**: any spend is sound, and no bet both won and lost, while
no collision is known. -/
def BetBound (bet : Bet world) : Prop :=
  (∀ tx o plan key, AcceptedSpend bet tx o plan key → SoundSpend bet o) ∧
    ∀ txW txL oW oL planW planL keyW keyL, AcceptedSpend bet txW oW planW keyW →
      AcceptedSpend bet txL oL planL keyL → oW.funcid = funcCode 'W' → oL.funcid = funcCode 'L' →
        Sha256Collision

theorem diceValidate_eq_ok (ho : diceOpretOf tx = some o)
    (hplan : dicePlan world o = .ok (plan, key)) :
    diceValidate world tx = .ok () ↔ ∃ prevent, diceCases world tx o plan key = .ok prevent ∧
      preventCC tx prevent.1 prevent.2 = .ok () := by
  obtain ⟨last, hlast, hdecode⟩ := bind_eq_some_iff.mp ho
  simp only [diceValidate, bind_eq_ok, someOrInvalid_eq_ok]
  constructor
  · rintro ⟨last', hlast', o', ho', p, hp, prevent, hcases, hprevent⟩
    obtain rfl := some.inj (hlast.symm.trans hlast')
    obtain rfl := some.inj (hdecode.symm.trans ho')
    obtain rfl := ok.inj (hp.symm.trans hplan)
    exact ⟨prevent, hcases, hprevent⟩
  · rintro ⟨prevent, hcases, hprevent⟩
    exact ⟨last, hlast, o, hdecode, (plan, key), hplan, prevent, hcases, hprevent⟩

theorem diceCases_ok {prevent : Option Nat × Option Nat}
    (h : diceCases world tx o plan key = .ok prevent) :
    (o.funcid = funcCode 'B' ∧ diceBet world tx o plan key = .ok () ∧ prevent.1 = some 1) ∨
      (o.funcid ∈ [funcCode 'L', funcCode 'W', funcCode 'T'] ∧
        diceEnd world tx o plan key = .ok ()) ∨
      o.funcid = funcCode 'R' := by
  unfold diceCases at h
  split at h
  · exact absurd h (by simp)
  split at h
  · exact absurd h (by simp)
  split at h
  · next hB =>
      obtain ⟨u, hbet, hret⟩ := bind_eq_ok.mp h
      obtain rfl := ok.inj hret
      exact .inl ⟨hB, hbet, rfl⟩
  split at h
  · next hend =>
      obtain ⟨u, hdice, -⟩ := bind_eq_ok.mp h
      exact .inr (.inl ⟨hend, hdice⟩)
  split at h
  · next hR => exact .inr (.inr hR)
  · exact absurd h (by simp)

variable {bet : Bet world}

theorem AcceptedSpend.diceEnd_ok (h : AcceptedSpend bet tx o plan key)
    (hmem : o.funcid ∈ [funcCode 'L', funcCode 'W', funcCode 'T']) :
    diceEnd world tx o plan key = .ok () := by
  obtain ⟨prevent, hcases, -⟩ := (diceValidate_eq_ok h.opret_eq h.plan_eq).mp h.valid
  rcases diceCases_ok hcases with ⟨hB, -, -⟩ | ⟨-, hend⟩ | hR
  · rw [hB] at hmem
    exact absurd hmem (by decide)
  · exact hend
  · rw [hR] at hmem
    exact absurd hmem (by decide)

omit [Sha256] in
theorem not_spendsBet_of_diceBet (bet : Bet world) (hbet : diceBet world tx o plan key = .ok ())
    {prevent : Option Nat} (hprevent : preventCC tx (some 1) prevent = .ok ())
    (hkey : key.isPayToCryptoCondition = false) : ¬ SpendsBet bet tx := by
  rintro ⟨i, hi, hhash, -, hcc⟩
  simp only [preventCC, bind_eq_ok, invalidIf_eq_ok, any_some] at hprevent
  obtain ⟨-, hvins, -⟩ := hprevent
  simp only [diceBet, bind_eq_ok, invalidIf_eq_ok, vinAt_eq_ok, voutAt_eq_ok,
    someOrInvalid_eq_ok] at hbet
  obtain ⟨vin0, hvin0, -, -, -, -, -, -, -, -, -, -, vinTx, hvinTx, tag, htag, -, hscript, -⟩ :=
    hbet
  -- Only the first input shows a condition.
  have hfirst : i = vin0 := by
    obtain ⟨rest, hvin⟩ : ∃ rest, tx.vin = vin0 :: rest := by
      cases hvin : tx.vin with
      | nil => simp [hvin] at hvin0
      | cons j rest =>
        rw [hvin] at hvin0
        exact ⟨rest, by rw [some.inj hvin0]⟩
    rw [hvin] at hi hvins
    rcases mem_cons.mp hi with rfl | hi
    · rfl
    · simp only [List.drop_succ_cons, List.drop_zero, List.any_eq_false] at hvins
      exact absurd hcc (hvins i hi)
  subst hfirst
  rw [hhash, bet.found] at hvinTx
  obtain rfl := some.inj hvinTx
  obtain ⟨out, hout, houtcc⟩ := bet.locked
  obtain rfl := some.inj (hout.symm.trans htag)
  have hscript : out.scriptPubKey = key := by simpa using hscript
  rw [hscript, hkey] at houtcc
  exact absurd houtcc (by simp)

/-! ### The end of a bet -/

omit [Sha256] in
theorem betSpent_of_endsBet {b : BetSpent} (hends : EndsBet bet tx)
    (h : betSpent world tx o plan key = .ok b) :
    b.betTx = bet.tx ∧ o.fundingtxid = bet.opret.fundingtxid := by
  obtain ⟨i, hi, hhash⟩ := hends
  simp only [betSpent, bind_eq_ok, invalidIf_eq_ok, vinAt_eq_ok, voutAt_eq_ok,
    someOrInvalid_eq_ok] at h
  obtain ⟨inputs, -, vin1, hvin1, vin2, -, -, -, -, -, betTx, hbetTx, opret, hopret, -, hsame,
    vout1, -, -, -, hret⟩ := h
  obtain rfl := some.inj (hi.symm.trans hvin1)
  rw [hhash, bet.found] at hbetTx
  obtain rfl := some.inj hbetTx
  obtain rfl := ok.inj hret
  have hopret : opret = bet.opret := by
    have hdecode := (filter_eq_some_iff.mp hopret).1
    rw [hhash] at hdecode
    exact some.inj (hdecode.symm.trans bet.opret_eq)
  refine ⟨rfl, ?_⟩
  rw [← hopret]
  simp only [Bool.or_eq_false_iff, bne_eq_false_iff_eq] at hsame
  exact hsame.2

theorem timeout_of_diceEnd (hends : EndsBet bet tx)
    (hT : o.funcid = funcCode 'T') (h : diceEnd world tx o plan key = .ok ()) :
    plan.timeoutblocks.toInt32.toInt ≤ (world.ccDuration bet.tx.hash).2 := by
  obtain ⟨b, hb, h⟩ := bind_eq_ok.mp h
  rw [hT, if_neg (by decide), if_neg (by decide)] at h
  obtain ⟨-, -, htimeout⟩ := bind_eq_ok.mp h
  rw [invalidIf_eq_ok, (betSpent_of_endsBet hends hb).1] at htimeout
  simp only [diceVerifyTimeout, Bool.not_eq_eq_eq_not, Bool.not_false, Bool.and_eq_true,
    decide_eq_true_eq] at htimeout
  exact htimeout.2

/-- What the bet pays out for a value of the house. -/
def winningsOf (bet : Bet world) (plan : DicePlan) (proof : UInt256) : Int64 :=
  ((bet.tx.vout[1]?).bind fun vout1 => (bet.tx.vout[2]?).map fun vout2 =>
    (diceCalc vout1.nValue vout2.nValue plan proof
      (diceGetEntropy bet.tx (funcCode 'B'))).toInt64).getD 0

theorem winnings_of_loss (hends : EndsBet bet tx)
    (hL : o.funcid = funcCode 'L') (h : diceEnd world tx o plan key = .ok ()) :
    o.fundingtxid = bet.opret.fundingtxid ∧ winningsOf bet plan o.proof ≤ 0 := by
  obtain ⟨b, hb, h⟩ := bind_eq_ok.mp h
  obtain ⟨hbetTx, hfunding⟩ := betSpent_of_endsBet hends hb
  rw [if_pos hL] at h
  obtain ⟨-, -, houtcome⟩ := bind_eq_ok.mp h
  simp only [checkOutcome, hbetTx, bind_eq_ok, voutAt_eq_ok, invalidIf_eq_ok] at houtcome
  obtain ⟨vout1, h1, vout2, h2, hcalc⟩ := houtcome
  refine ⟨hfunding, ?_⟩
  simpa [winningsOf, h1, h2] using hcalc

theorem winnings_of_win (hends : EndsBet bet tx)
    (hW : o.funcid = funcCode 'W') (h : diceEnd world tx o plan key = .ok ()) :
    o.fundingtxid = bet.opret.fundingtxid ∧ winningsOf bet plan o.proof ≠ 0 ∧
      ∃ out ∈ tx.vout, out.nValue = winningsOf bet plan o.proof := by
  obtain ⟨b, hb, h⟩ := bind_eq_ok.mp h
  obtain ⟨hbetTx, hfunding⟩ := betSpent_of_endsBet hends hb
  rw [if_neg (by rw [hW]; decide), if_pos hW] at h
  obtain ⟨u, houts, houtcome⟩ := bind_eq_ok.mp h
  simp only [checkOutcome, hbetTx, bind_eq_ok, voutAt_eq_ok, invalidIf_eq_ok] at houtcome
  obtain ⟨vout1, h1, vout2, h2, hcalc⟩ := houtcome
  simp only [winOutputs, hbetTx, bind_eq_ok, voutAt_eq_ok, invalidIf_eq_ok] at houts
  obtain ⟨_, h1', _, h2', vout0, -, -, -, pay, hpay, -, -, -, hvalue, -⟩ := houts
  obtain rfl := some.inj (h1.symm.trans h1')
  obtain rfl := some.inj (h2.symm.trans h2')
  have hwin : winningsOf bet plan o.proof = (diceCalc vout1.nValue vout2.nValue plan o.proof
      (diceGetEntropy bet.tx (funcCode 'B'))).toInt64 := by
    simp [winningsOf, h1, h2]
  have hne : winningsOf bet plan o.proof ≠ 0 := by
    rw [hwin]
    simpa using hcalc
  refine ⟨hfunding, hne, pay, mem_of_getElem? hpay, ?_⟩
  have hcalc_ne : diceCalc vout1.nValue vout2.nValue plan o.proof
      (diceGetEntropy bet.tx (funcCode 'B')) ≠ 0 := by
    intro hzero
    rw [hwin, hzero] at hne
    exact hne rfl
  have hvalue : pay.nValue = (vout2.nValue - 10000 + 1) * vout1.nValue := by simpa using hvalue
  rw [hvalue, hwin, diceCalc_eq hcalc_ne, UInt64.toInt64_mul, UInt64.toInt64_add,
    Int64.toInt64_toUInt64, Int64.toInt64_toUInt64, Int64.mul_comm]
  rfl

theorem collision_of_both_outcomes {txW txL : CTransaction} {oW oL : DiceOpret}
    {planW planL : DicePlan} {keyW keyL : CScript} (hwin : AcceptedSpend bet txW oW planW keyW)
    (hloss : AcceptedSpend bet txL oL planL keyL) (hW : oW.funcid = funcCode 'W')
    (hL : oL.funcid = funcCode 'L') (hendsW : EndsBet bet txW) (hendsL : EndsBet bet txL)
    (hproofW : ShowsCommitted bet oW) (hproofL : ShowsCommitted bet oL) : Sha256Collision := by
  obtain ⟨hfundingW, hne, out, hout, hpaid⟩ :=
    winnings_of_win hendsW hW (hwin.diceEnd_ok (by simp [hW]))
  obtain ⟨hfundingL, hle⟩ := winnings_of_loss hendsL hL (hloss.diceEnd_ok (by simp [hL]))
  -- Both are of the plan of the bet.
  have hplan : planW = planL := by
    have hsame : dicePlan world oW = dicePlan world oL := by
      simp only [dicePlan, hfundingW, hfundingL]
    rw [hwin.plan_eq, hloss.plan_eq] at hsame
    exact congrArg Prod.fst (ok.inj hsame)
  refine ⟨oW.proof, oL.proof, ?_, hproofW.trans hproofL.symm⟩
  intro hproof
  rw [hplan, hproof] at hne hpaid
  have hnonneg := hwin.amounts out hout
  rw [hpaid] at hnonneg
  exact hne (Int64.le_antisymm hle hnonneg)

theorem AcceptedSpend.leftOpen (h : AcceptedSpend bet tx o plan key)
    (hbefore : bet.BeforeTimeout) (hother : ¬o.IsOutcome) : LeftOpen bet plan key o tx := by
  obtain ⟨prevent, hcases, hprevent⟩ := (diceValidate_eq_ok h.opret_eq h.plan_eq).mp h.valid
  rcases diceCases_ok hcases with ⟨hB, hbet, hvins⟩ | ⟨hmem, hend⟩ | hR
  · refine .inr (.inl ⟨hB, ?_⟩)
    by_contra hkey
    rw [hvins] at hprevent
    exact not_spendsBet_of_diceBet bet hbet hprevent (Bool.eq_false_iff.mpr hkey) h.spends
  · simp only [mem_cons, not_mem_nil, or_false] at hmem
    rcases hmem with hL | hW | hT
    · exact absurd (.inr hL) hother
    · exact absurd (.inl hW) hother
    · refine .inr (.inr ⟨hT, ?_⟩)
      by_contra hnone
      obtain ⟨hends, hfits⟩ := not_or.mp hnone
      rw [not_not] at hends hfits
      -- the timeout is of the plan of the bet
      obtain ⟨b, hb, -⟩ := bind_eq_ok.mp hend
      have hplan : dicePlan world bet.opret = .ok (plan, key) := by
        rw [← h.plan_eq]
        simp only [dicePlan, (betSpent_of_endsBet hends hb).2]
      have hpassed := timeout_of_diceEnd hends hT hend
      have hlt := hbefore plan key hplan
      omega
  · exact .inl hR

instance (o : DiceOpret) : Decidable o.IsOutcome := inferInstanceAs (Decidable (_ ∨ _))

/-- The data of a refund from a plan. -/
def refundOpret (fundingtxid : UInt256) : DiceOpret where
  funcid := funcCode 'R'
  sbits := 0
  fundingtxid := fundingtxid
  hash := UInt256.null
  proof := UInt256.null

/-- A refund that takes the bet's second output, for a plan of the house. -/
def refundTx (fundingtxid : UInt256) (bet : Bet world) (sig : CScript) : CTransaction where
  hash := UInt256.null
  nVersion := 1
  vin := [{ prevout := ⟨fundingtxid, 1⟩, scriptSig := [] },
    { prevout := ⟨bet.tx.hash, 1⟩, scriptSig := sig }]
  vout := [⟨0, encodeDiceOpRet (refundOpret fundingtxid)⟩]

theorem acceptedSpend_refundTx (bet : Bet world) {sig : CScript} (hsig : isCCInput sig = true)
    (hplan : dicePlan world o = .ok (plan, key)) :
    AcceptedSpend bet (refundTx o.fundingtxid bet sig) (refundOpret o.fundingtxid) plan key := by
  have hR : (refundOpret o.fundingtxid).funcid ∈ [funcCode 'R', funcCode 'B', funcCode 'W',
      funcCode 'L', funcCode 'T', funcCode 'E'] := mem_cons_self
  have hopret :
      diceOpretOf (refundTx o.fundingtxid bet sig) = some (refundOpret o.fundingtxid) := by
    simp only [diceOpretOf, refundTx, getLast?_singleton, bind_some]
    exact decodeDiceOpRet_encodeDiceOpRet UInt256.null hR
  have hplan' : dicePlan world (refundOpret o.fundingtxid) = .ok (plan, key) := hplan
  have hrefund : diceRefund world (refundTx o.fundingtxid bet sig) key = .ok () := by
    simp only [dicePlan, bind_eq_ok, someOrInvalid_eq_ok, voutAt_eq_ok, invalidIf_eq_ok] at hplan
    obtain ⟨fundingTx, hfound, last, -, plan', -, u, -, vout1, hvout1, hret⟩ := hplan
    obtain ⟨-, rfl⟩ := Prod.mk.inj (ok.inj hret)
    simp only [diceRefund, bind_eq_ok, vinAt_eq_ok, voutAt_eq_ok, someOrInvalid_eq_ok,
      invalidIf_eq_ok]
    exact ⟨_, rfl, fundingTx, hfound, vout1, hvout1, by simp⟩
  have hcases : diceCases world (refundTx o.fundingtxid bet sig) (refundOpret o.fundingtxid) plan
      key = .ok (none, none) := by
    rw [diceCases, hrefund]
    rfl
  have hspends : SpendsBet bet (refundTx o.fundingtxid bet sig) :=
    ⟨{ prevout := ⟨bet.tx.hash, 1⟩, scriptSig := sig }, by simp [refundTx], rfl, Nat.one_lt_two,
      hsig⟩
  exact ⟨hopret, hplan', (diceValidate_eq_ok hopret hplan').mpr ⟨_, hcases, rfl⟩,
    by simp [refundTx], hspends⟩

/-- **When bets are bound to their commitments**: before its timeout a bet is only if no plan is
known; a spend that is no outcome is one of those left open; and an accepted win and an accepted
loss of the bet that both show the committed value show a collision. -/
theorem dice_settlement (bet : Bet world) (hcc : ∃ sig, isCCInput sig = true) :
    (bet.BeforeTimeout → (BetBound bet ↔ ∀ o p, dicePlan world o ≠ .ok p)) ∧
      (∀ tx o plan key, AcceptedSpend bet tx o plan key → bet.BeforeTimeout → ¬o.IsOutcome →
        LeftOpen bet plan key o tx) ∧
      ∀ txW txL oW oL planW planL keyW keyL, AcceptedSpend bet txW oW planW keyW →
        AcceptedSpend bet txL oL planL keyL → oW.funcid = funcCode 'W' →
        oL.funcid = funcCode 'L' → EndsBet bet txW → EndsBet bet txL → ShowsCommitted bet oW →
        ShowsCommitted bet oL → Sha256Collision := by
  refine ⟨fun hbefore => ⟨fun hbound o p hplan => ?_, fun hnone => ⟨?_, ?_⟩⟩,
    fun tx o plan key h => h.leftOpen, ?_⟩
  · obtain ⟨sig, hsig⟩ := hcc
    -- A refund is neither a win nor a loss.
    have hother : ¬(refundOpret o.fundingtxid).IsOutcome :=
      show ¬(funcCode 'R' = funcCode 'W' ∨ funcCode 'R' = funcCode 'L') by decide
    have hsound := hbound.1 _ _ _ _ (acceptedSpend_refundTx bet hsig hplan)
    rcases hsound with ⟨houtcome, -⟩ | ⟨-, hpassed⟩
    · exact hother houtcome
    · exact hpassed hbefore
  · intro tx o plan key h
    exact absurd h.plan_eq (hnone o _)
  · intro txW txL oW oL planW planL keyW keyL hwin
    exact absurd hwin.plan_eq (hnone oW _)
  · intro txW txL oW oL planW planL keyW keyL hwin hloss hW hL
    exact collision_of_both_outcomes hwin hloss hW hL

end

/-! ### A bet at even odds -/

section

open CCLibrary

local instance diceLibrary : CCLibrary where
  getscriptaddress := some
  solver _ := none
  ccPubKey c := pushInstruction (c.evals ++ c.pks.flatten) ++ [0xcc]
  isCCInput s := !s.isEmpty
  ismyvin e s := s.head? == some e
  vinPubkey s := some s.tail
  getUnspendable e := 0x02 :: replicate 32 e
  unspendableCCaddr e := pushInstruction (e :: 0x02 :: replicate 32 e) ++ [0xcc]

local instance firstBytesHash : Sha256 where
  sha256 bs := BitVec.ofNat 256 (ByteCodec.ofLeBytes (bs.take 32))

theorem not_sha256Collision : ¬ Sha256Collision := by
  have hhash : ∀ p : UInt256, Sha256.sha256 (writeUint256 p) = p := by
    intro p
    have htake : (writeUint256 p).take 32 = writeUint256 p :=
      take_of_length_le (by simp [writeUint256])
    change BitVec.ofNat 256 (ByteCodec.ofLeBytes ((writeUint256 p).take 32)) = p
    rw [htake, writeUint256, ByteCodec.ofLeBytes_leBytes p.isLt, BitVec.ofNat_toNat,
      BitVec.setWidth_eq]
  rintro ⟨p, q, hne, heq⟩
  rw [hhash, hhash] at heq
  exact hne heq

def diceCoins (nValue : CAmount) : CTxOut := makeCC1vout evalDice nValue (getUnspendable evalDice)

def houseOut : CTxOut := ⟨0, [opChecksig]⟩

def diceTx (hash : UInt256) (vin : List (COutPoint × CScript)) (vout : List CTxOut) :
    CTransaction where
  hash := hash
  nVersion := 1
  vin := vin.map fun i => { prevout := i.1, scriptSig := i.2 }
  vout := vout

def evenPlan : DicePlan where
  sbits := 1
  minbet := 100
  maxbet := 100000
  maxodds := 9
  timeoutblocks := 100

def evenOpret (funcid : Char) (hash proof : UInt256) : DiceOpret where
  funcid := funcCode funcid
  sbits := 1
  fundingtxid := 2
  hash := hash
  proof := proof

def evenPlanTx : CTransaction :=
  diceTx 2 [] [diceCoins 1000000, houseOut, ⟨0, encodeDiceFundingOpRet evenPlan⟩]

def houseEntropyTx : CTransaction := diceTx 3 [(⟨2, 1⟩, [])]
  [diceCoins 50000, houseOut, ⟨0, encodeDiceOpRet (evenOpret 'E' 1 0)⟩]

def evenBetTx : CTransaction := diceTx 4 [(⟨3, 0⟩, [evalDice])]
  [diceCoins 50000, diceCoins 1000, ⟨10001, [0x51]⟩, ⟨0, encodeDiceOpRet (evenOpret 'B' 5 0)⟩]

def diceWorld : DiceWorld where
  getTx h := [evenPlanTx, houseEntropyTx, evenBetTx].find? (·.hash == h)
  chainName := []
  height := 0
  ccDuration _ := (1, 0)

def evenBet : Bet diceWorld where
  tx := evenBetTx
  opret := evenOpret 'B' 5 0
  entropyTx := houseEntropyTx
  commitment := evenOpret 'E' 1 0
  found := by decide +kernel
  opret_eq := by decide +kernel
  isBet := rfl
  locked := ⟨diceCoins 1000, rfl, by decide +kernel⟩
  entropy := ⟨_, rfl, by decide +kernel⟩
  commitment_eq := by decide +kernel

def evenBetEnd : List (COutPoint × CScript) :=
  [(⟨2, 1⟩, []), (⟨4, 0⟩, [evalDice]), (⟨4, 1⟩, [evalDice])]

def evenWinTx : CTransaction := diceTx 5 evenBetEnd
  [diceCoins 49000, houseOut, ⟨2000, [0x51]⟩, ⟨0, encodeDiceOpRet (evenOpret 'W' 1 1)⟩]

def evenLossTx : CTransaction := diceTx 6 evenBetEnd
  [diceCoins 51000, houseOut, ⟨0, encodeDiceOpRet (evenOpret 'L' 1 9)⟩]

theorem dicePlan_even :
    dicePlan diceWorld (evenOpret 'B' 5 0) = .ok (evenPlan, [opChecksig]) := by
  decide +kernel

theorem beforeTimeout_evenBet : evenBet.BeforeTimeout := by
  intro plan key hplan
  obtain ⟨rfl, rfl⟩ := Prod.mk.inj (ok.inj (hplan.symm.trans dicePlan_even))
  decide

theorem acceptedSpend_evenBet {tx : CTransaction} {o : DiceOpret} (ho : diceOpretOf tx = some o)
    (hplan : o.fundingtxid = 2) (hvalid : diceValidate diceWorld tx = .ok ())
    (hamounts : ∀ out ∈ tx.vout, 0 ≤ out.nValue)
    (hvin : { prevout := ⟨4, 1⟩, scriptSig := [evalDice] } ∈ tx.vin) :
    AcceptedSpend evenBet tx o evenPlan [opChecksig] := by
  refine ⟨ho, ?_, hvalid, hamounts, _, hvin, rfl, by decide, rfl⟩
  rw [← dicePlan_even, dicePlan, hplan]
  rfl

theorem acceptedSpend_evenWinTx :
    AcceptedSpend evenBet evenWinTx (evenOpret 'W' 1 1) evenPlan [opChecksig] :=
  acceptedSpend_evenBet (by decide +kernel) rfl (by decide +kernel) (by decide +kernel)
    (by decide +kernel)

theorem acceptedSpend_evenLossTx :
    AcceptedSpend evenBet evenLossTx (evenOpret 'L' 1 9) evenPlan [opChecksig] :=
  acceptedSpend_evenBet (by decide +kernel) rfl (by decide +kernel) (by decide +kernel)
    (by decide +kernel)

/-- Before its timeout the bet is not bound, though its win with the committed value is sound. -/
theorem dice_settlement_evenBet : evenBet.BeforeTimeout ∧ ¬BetBound evenBet ∧
    diceValidate diceWorld evenWinTx = .ok () ∧ SoundSpend evenBet (evenOpret 'W' 1 1) := by
  have hcc : ∃ sig, isCCInput sig = true := ⟨[evalDice], rfl⟩
  refine ⟨beforeTimeout_evenBet, fun hbound => ?_, acceptedSpend_evenWinTx.valid,
    .inl ⟨.inl rfl, by decide +kernel⟩⟩
  exact ((dice_settlement evenBet hcc).1 beforeTimeout_evenBet).mp hbound _ _ dicePlan_even

/-- **One bet, two outcomes**: the win with the committed value is accepted, and the loss with
another; and before the timeout a refund. -/
theorem dice_both_outcomes : diceValidate diceWorld evenBetTx = .ok () ∧
    diceValidate diceWorld evenWinTx = .ok () ∧ diceValidate diceWorld evenLossTx = .ok () ∧
    ¬ SoundSpend evenBet (evenOpret 'L' 1 9) ∧
    diceValidate diceWorld (refundTx 2 evenBet [evalDice]) = .ok () ∧
    ¬ SoundSpend evenBet (refundOpret 2) ∧ ¬ BetBound evenBet := by
  have hloss : ¬ SoundSpend evenBet (evenOpret 'L' 1 9) := by
    rintro (⟨-, hproof⟩ | ⟨hother, -⟩)
    · exact absurd hproof (by decide +kernel)
    · exact hother (.inr rfl)
  have hrefund : ¬ SoundSpend evenBet (refundOpret 2) := by
    rintro (⟨houtcome, -⟩ | ⟨-, hpassed⟩)
    · exact absurd houtcome (by decide)
    · exact hpassed beforeTimeout_evenBet
  refine ⟨by decide +kernel, acceptedSpend_evenWinTx.valid, acceptedSpend_evenLossTx.valid, hloss,
    by decide +kernel, hrefund, fun hbound => ?_⟩
  exact not_sha256Collision (hbound.2 _ _ _ _ _ _ _ _ acceptedSpend_evenWinTx
    acceptedSpend_evenLossTx rfl rfl)

end

end Elosys
