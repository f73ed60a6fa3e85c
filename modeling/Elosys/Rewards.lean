import Elosys.Tokens

/-!
# Rewards

The rewards contract of `cc/rewards.cpp`: plans are funded (`F`, `A`), coins locked (`L`) and
unlocked with a reward (`U`). `RewardsValidate` looks at the first input, takes the amount from the
first output of its transaction, and balances the plan's outputs and the unlock address.
-/

namespace Elosys

open ByteCodec

/-! ### What a transaction says -/

/-- The terms of a plan. -/
structure RewardsPlan where
  sbits : UInt64
  apr : UInt64
  minseconds : UInt64
  maxseconds : UInt64
  mindeposit : UInt64
  deriving DecidableEq

def readRewardsPlan : Reader RewardsPlan := do
  skip 2
  let sbits ← readSbits
  let apr ← readSbits
  let minseconds ← readSbits
  let maxseconds ← readSbits
  let mindeposit ← readSbits
  return ⟨sbits, apr, minseconds, maxseconds, mindeposit⟩

def decodeRewardsFundingOpRet (scriptPubKey : CScript) : Option RewardsPlan :=
  let vopret := vopretOf scriptPubKey
  if 2 < vopret.length ∧ vopret.getD 0 0 = evalRewards ∧ vopret.getD 1 0 = funcCode 'F' then
    unmarshal readRewardsPlan vopret
  else none

/-- What `DecodeRewardsOpRet` gives. -/
structure RewardsOpret where
  funcid : UInt8
  sbits : UInt64
  fundingtxid : UInt256
  deriving DecidableEq

def readRewards : Reader (UInt64 × UInt256) := do
  skip 2
  let sbits ← readSbits
  let fundingtxid ← readUint256
  return (sbits, fundingtxid)

/-- `DecodeRewardsOpRet`: a funding is the plan itself. -/
def decodeRewardsOpRet (txid : UInt256) (scriptPubKey : CScript) : Option RewardsOpret :=
  let vopret := vopretOf scriptPubKey
  if 2 < vopret.length ∧ vopret.getD 0 0 = evalRewards then
    if vopret.getD 1 0 = funcCode 'F' then
      (unmarshal readRewardsPlan vopret).map fun plan => ⟨funcCode 'F', plan.sbits, txid⟩
    else if vopret.getD 1 0 ∈ [funcCode 'L', funcCode 'U', funcCode 'A'] then
      (unmarshal readRewards vopret).map fun p => ⟨vopret.getD 1 0, p.1, p.2⟩
    else none
  else none

def rewardsOpretOf (tx : CTransaction) : Option RewardsOpret :=
  tx.vout.getLast?.bind fun out => decodeRewardsOpRet tx.hash out.scriptPubKey

def encodeRewardsFundingOpRet (plan : RewardsPlan) : CScript :=
  opReturnScript ([evalRewards, funcCode 'F'] ++ [plan.sbits, plan.apr, plan.minseconds,
    plan.maxseconds, plan.mindeposit].flatMap fun n => leBytes 8 n.toNat)

def encodeRewardsOpRet (funcid : UInt8) (sbits : UInt64) (fundingtxid : UInt256) : CScript :=
  opReturnScript ([evalRewards, funcid] ++ leBytes 8 sbits.toNat ++ leBytes 32 fundingtxid.toNat)

/-! ### The reward -/

/-- What the contract asks the rest of the node besides. -/
structure RewardsWorld extends CCWorld where
  hashBlock : UInt256 → UInt256
  ccDuration : UInt256 → Int64
  hardforkActive : Bool
  maxMoney : CAmount
  uninitialised : RewardsPlan

def yearSeconds : Int := 365 * 24 * 3600

/-- A number as `mpz_set_lli` takes it, without its sign. -/
def mpzSetLli (n : Int64) : Nat := n.toUInt64.toNat

/-- `mpz_get_ui2`, which overruns if the number does not fit. -/
def mpzGetUi2 (n : Nat) : Except EvalFault UInt64 :=
  if n < 2 ^ 64 then .ok (UInt64.ofNat n) else .error (.trap .overflow)

def uncappedReward (hardfork : Bool) (amount duration apr : Int64) : Except EvalFault UInt64 :=
  if hardfork then
    mpzGetUi2 (mpzSetLli amount * mpzSetLli duration * mpzSetLli apr /
      (100000000 * 100 * yearSeconds.toNat))
  else
    .ok (amount * duration / Int64.ofInt yearSeconds * (apr / 1000000) / 10000).toUInt64

/-- `RewardsCalc`: no more than the amount itself. -/
def rewardsCalc (world : RewardsWorld) (amount : Int64) (txid : UInt256) (plan : RewardsPlan) :
    Except EvalFault UInt64 :=
  if world.ccDuration txid < plan.minseconds.toInt64 then .ok 0
  else do
    let duration := if plan.maxseconds.toInt64 < world.ccDuration txid then
      plan.maxseconds.toInt64 else world.ccDuration txid
    let reward ← uncappedReward world.hardforkActive amount duration plan.apr.toInt64
    return if amount.toUInt64 < reward then amount.toUInt64 else reward

theorem rewardsCalc_le {world : RewardsWorld} {amount : Int64} {txid : UInt256}
    {plan : RewardsPlan} {reward : UInt64}
    (h : rewardsCalc world amount txid plan = .ok reward) : reward ≤ amount.toUInt64 := by
  unfold rewardsCalc at h
  split at h
  · obtain rfl := Except.ok.inj h
    exact UInt64.zero_le
  · simp only [bind_eq_ok] at h
    obtain ⟨r, -, hret⟩ := h
    obtain rfl := Except.ok.inj hret
    split
    · exact UInt64.le_refl _
    · next hle => exact UInt64.not_lt.mp hle

section

variable [CCLibrary]

open CCLibrary

variable (world : RewardsWorld) (tx : CTransaction) (out : CTxOut)

def isRewardsvout (refsbits : UInt64) (reffundingtxid : UInt256) : CAmount :=
  if out.scriptPubKey.isPayToCryptoCondition then
    match rewardsOpretOf tx with
    | some o =>
      if o.sbits = refsbits ∧ (o.fundingtxid = reffundingtxid ∨ tx.hash = reffundingtxid) ∧
          getscriptaddress out.scriptPubKey = some (unspendableCCaddr evalRewards) then
        out.nValue
      else 0
    | none => 0
  else 0

/-- The inputs in `RewardsExactAmounts`. -/
def rewardsInputs (world : RewardsWorld) (refsbits : UInt64) (reffundingtxid : UInt256) :
    List CTxIn → Except EvalFault CAmount
  | [] => .ok 0
  | i :: vin =>
    if ismyvin evalRewards i.scriptSig then do
      let vinTx ← someOrInvalid (world.getTx i.prevout.hash) "always should find vin, but didnt"
      invalidIf (world.hashBlock i.prevout.hash == UInt256.null) "cant rewards from mempool"
      let out ← voutAt vinTx i.prevout.n
      let rest ← rewardsInputs world refsbits reffundingtxid vin
      return isRewardsvout vinTx out refsbits reffundingtxid + rest
    else rewardsInputs world refsbits reffundingtxid vin

/-- The outputs in `RewardsExactAmounts`. -/
def rewardsOutputs (refsbits : UInt64) (reffundingtxid : UInt256) : CAmount :=
  (tx.vout.map fun out => isRewardsvout tx out refsbits reffundingtxid).sum

def rewardsExactAmounts (txfee refsbits : UInt64)
    (reffundingtxid : UInt256) : Except EvalFault Unit := do
  let inputs ← rewardsInputs world refsbits reffundingtxid tx.vin
  invalidIf (inputs.toUInt64 != (rewardsOutputs tx refsbits reffundingtxid).toUInt64 + txfee)
    "mismatched inputs != outputs + txfee"

/-! ### The validation -/

def orThrown {α : Type} : Except Fault α → Except EvalFault α
  | .ok a => .ok a
  | .error f => .error (.thrown f)

omit [CCLibrary] in
@[simp] theorem orThrown_eq_ok {α : Type} {x : Except Fault α} {a : α} :
    orThrown x = .ok a ↔ x = .ok a := by
  cases x with
  | ok b => simp [orThrown]
  | error f => simp [orThrown]

def transparentIn (world : CCWorld) (tx : CTransaction) : CAmount :=
  (tx.vin.map fun i => ((world.output? i.prevout).map CTxOut.nValue).getD 0).sum

/-- `CheckTxFee`: the fee is within a limit; a negative one is large. -/
def checkTxFee (txfee : UInt64) : Except EvalFault Bool := do
  let shielded ← orThrown (tx.getShieldedValueIn world.maxMoney)
  let valueOut ← orThrown (tx.getValueOut world.maxMoney)
  return (transparentIn world.toCCWorld tx + shielded - valueOut).toUInt64 ≤ txfee

def rewardsTxfee : UInt64 := 10000

variable (o : RewardsOpret)

def fundingPlan : Except EvalFault RewardsPlan := do
  let fundingTx ← someOrInvalid (world.getTx o.fundingtxid) "cant find fundingtxid"
  match fundingTx.vout.getLast? with
  | none => return { world.uninitialised with sbits := o.sbits }
  | some out => someOrInvalid (decodeRewardsFundingOpRet out.scriptPubKey) "fundingTx not valid"

/-- What an unlock starts from: the lock's transaction, amount and reward. -/
structure RewardsLock where
  vinTx : CTransaction
  vout0 : CTxOut
  reward : UInt64

variable (plan : RewardsPlan)

def unlockHead : Except EvalFault RewardsLock := do
  let vin0 ← vinAt tx 0
  invalidIf (o.fundingtxid == vin0.prevout.hash) "cant unlock fundingtxid"
  let vinTx ← someOrInvalid (world.getTx vin0.prevout.hash) "always should find vin.0, but didnt"
  let last ← voutAt vinTx (vinTx.vout.length - 1)
  let lock ← someOrInvalid ((decodeRewardsOpRet vin0.prevout.hash last.scriptPubKey).filter
    fun l => l.funcid == funcCode 'L') "can only unlock locktxid"
  invalidIf (o.fundingtxid != lock.fundingtxid) "mismatched vinfundingtxid"
  invalidIf (tx.vin.any fun i => !ismyvin evalRewards i.scriptSig)
    "unexpected normal vin for unlock"
  let feeOk ← checkTxFee world tx rewardsTxfee
  invalidIf (!feeOk) "txfee is too high"
  let vout0 ← voutAt vinTx 0
  let reward ← rewardsCalc world vout0.nValue vin0.prevout.hash plan
  invalidIf (reward == 0) "no eligible rewards"
  return ⟨vinTx, vout0, reward⟩

def recovers : Bool :=
  tx.vin.length == 1 && !out.scriptPubKey.isPayToCryptoCondition

def recoverOutputs (l : RewardsLock) : Except EvalFault Unit := do
  let out1 ← voutAt tx 1
  invalidIf (out1.nValue != 10000) "wrong marker vout value"
  invalidIf (out1.scriptPubKey != out.scriptPubKey)
    "unlock recover tx vout.1 mismatched scriptPubKey"
  let vout1 ← voutAt l.vinTx 1
  invalidIf (out.scriptPubKey != vout1.scriptPubKey)
    "unlock recover tx vout.0 mismatched scriptPubKey"
  invalidIf (l.vout0.nValue < out.nValue) "unlock recover tx vout.0 mismatched amounts"
  let out2 ← voutAt tx 2
  invalidIf (0 < out2.nValue) "unlock recover tx vout.1 nonz amount"

def unlockOutputs (l : RewardsLock) : Except EvalFault Unit := do
  invalidIf (!l.vout0.scriptPubKey.isPayToCryptoCondition) "unlock tx vout.0 is normal output"
  invalidIf (tx.vout.length != 3) "unlock tx wrong number of vouts"
  invalidIf (!out.scriptPubKey.isPayToCryptoCondition) "unlock tx vout.0 is normal output"
  let out1 ← voutAt tx 1
  invalidIf out1.scriptPubKey.isPayToCryptoCondition "unlock tx vout.1 is CC output"
  let vout1 ← voutAt l.vinTx 1
  invalidIf (out1.scriptPubKey != vout1.scriptPubKey) "unlock tx vout.1 mismatched scriptPubKey"
  rewardsExactAmounts world tx (rewardsTxfee + out1.nValue.toUInt64) plan.sbits o.fundingtxid
  invalidIf (l.vout0.nValue.toUInt64 + l.reward < out1.nValue.toUInt64)
    "unlock tx vout.1 isnt amount+reward"
  let out2 ← voutAt tx 2
  invalidIf (0 < out2.nValue) "unlock tx vout.2 isnt 0"
  preventCC tx none (some 1)

def unlock : Except EvalFault Unit := do
  let l ← unlockHead world tx o plan
  let out ← voutAt tx 0
  if recovers tx out then recoverOutputs tx out l
  else unlockOutputs world tx out o plan l

def rewardsccMaxapr : UInt64 := 100000000 * 25

def rewardsValidate : Except EvalFault Unit := do
  let last ← someOrInvalid tx.vout.getLast? "no vouts"
  let o ← someOrInvalid (decodeRewardsOpRet tx.hash last.scriptPubKey)
    "unexpected rewards missing funcid"
  let plan ← fundingPlan world o
  invalidIf (rewardsccMaxapr < plan.apr) "excessive APR"
  invalidIf (o.funcid == funcCode 'F') "unexpected RewardsValidate for createfunding"
  invalidIf (o.funcid == funcCode 'A') "unexpected RewardsValidate for addfunding"
  invalidIf (o.funcid == funcCode 'L') "unexpected RewardsValidate for lock"
  invalidIf (o.funcid != funcCode 'U') "unexpected rewards funcid"
  unlock world tx o plan

end

end Elosys
