import Elosys.Rewards

/-!
# Dice

The dice contract of `cc/dice.cpp`: fundings (`F`), commitments (`E`), bets (`B`), wins (`W`),
losses (`L`), timeouts (`T`) and refunds (`R`). `DiceValidate` computes the hash of the value the
house shows, but does not use it.
-/

namespace Elosys

open ByteCodec

/-! ### What a transaction says -/

/-- The terms of a plan. -/
structure DicePlan where
  sbits : UInt64
  minbet : CAmount
  maxbet : CAmount
  maxodds : CAmount
  timeoutblocks : Int64
  deriving DecidableEq

def readDicePlan : Reader DicePlan := do
  skip 2
  let sbits ← readSbits
  let minbet ← readAmount
  let maxbet ← readAmount
  let maxodds ← readAmount
  let timeoutblocks ← readAmount
  return ⟨sbits, minbet, maxbet, maxodds, timeoutblocks⟩

def decodeDiceFundingOpRet (scriptPubKey : CScript) : Option DicePlan :=
  let vopret := vopretOf scriptPubKey
  if 2 < vopret.length ∧ vopret.getD 0 0 = evalDice ∧ vopret.getD 1 0 = funcCode 'F' then
    unmarshal readDicePlan vopret
  else none

/-- What `DecodeDiceOpRet` gives. -/
structure DiceOpret where
  funcid : UInt8
  sbits : UInt64
  fundingtxid : UInt256
  hash : UInt256
  proof : UInt256
  deriving DecidableEq

def readDice : Reader (UInt64 × UInt256 × UInt256 × UInt256) := do
  skip 2
  let sbits ← readSbits
  let fundingtxid ← readUint256
  let hash ← readUint256
  let proof ← readUint256
  return (sbits, fundingtxid, hash, proof)

/-- `DecodeDiceOpRet`: a funding is the plan itself, its proof not set. -/
def decodeDiceOpRet (txid : UInt256) (scriptPubKey : CScript) : Option DiceOpret :=
  let vopret := vopretOf scriptPubKey
  if 2 < vopret.length ∧ vopret.getD 0 0 = evalDice then
    if vopret.getD 1 0 = funcCode 'F' then
      (unmarshal readDicePlan vopret).map fun plan =>
        ⟨funcCode 'F', plan.sbits, txid, UInt256.null, UInt256.null⟩
    else if vopret.getD 1 0 ∈ [funcCode 'R', funcCode 'B', funcCode 'W', funcCode 'L',
        funcCode 'T', funcCode 'E'] then
      (unmarshal readDice vopret).map fun p => ⟨vopret.getD 1 0, p.1, p.2.1, p.2.2.1, p.2.2.2⟩
    else none
  else none

def diceOpretOf (tx : CTransaction) : Option DiceOpret :=
  tx.vout.getLast?.bind fun out => decodeDiceOpRet tx.hash out.scriptPubKey

def encodeDiceFundingOpRet (plan : DicePlan) : CScript :=
  opReturnScript ([evalDice, funcCode 'F'] ++ leBytes 8 plan.sbits.toNat ++
    [plan.minbet, plan.maxbet, plan.maxodds, plan.timeoutblocks].flatMap fun n =>
      leBytes 8 n.toUInt64.toNat)

def encodeDiceOpRet (o : DiceOpret) : CScript :=
  opReturnScript ([evalDice, o.funcid] ++ leBytes 8 o.sbits.toNat ++
    [o.fundingtxid, o.hash, o.proof].flatMap fun h => leBytes 32 h.toNat)

theorem decodeDiceOpRet_encodeDiceOpRet (txid : UInt256) {o : DiceOpret}
    (h : o.funcid ∈ [funcCode 'R', funcCode 'B', funcCode 'W', funcCode 'L', funcCode 'T',
      funcCode 'E']) : decodeDiceOpRet txid (encodeDiceOpRet o) = some o := by
  have hF : o.funcid ≠ funcCode 'F' := by
    rintro hF
    rw [hF] at h
    exact absurd h (by decide)
  -- the bytes, in the order in which they are read
  have hbytes : [evalDice, o.funcid] ++ leBytes 8 o.sbits.toNat ++
      [o.fundingtxid, o.hash, o.proof].flatMap (fun h => leBytes 32 h.toNat)
      = [evalDice, o.funcid] ++ (leBytes 8 o.sbits.toNat ++
        (writeUint256 o.fundingtxid ++ (writeUint256 o.hash ++ writeUint256 o.proof))) := by
    simp [writeUint256]
  have hread : Reads readDice ([evalDice, o.funcid] ++ (leBytes 8 o.sbits.toNat ++
      (writeUint256 o.fundingtxid ++ (writeUint256 o.hash ++ writeUint256 o.proof))))
      (o.sbits, o.fundingtxid, o.hash, o.proof) :=
    (reads_skip [evalDice, o.funcid]).bind ((reads_sbits o.sbits).bind
      ((reads_uint256 _).bind ((reads_uint256 _).bind ((reads_uint256 _).bind_pure rfl))))
  have hdecode := hread []
  rw [List.append_nil, ← hbytes] at hdecode
  rw [decodeDiceOpRet, encodeDiceOpRet, vopretOf_opReturnScript (by simp) (by simp),
    if_pos ⟨by simp, rfl⟩, if_neg (by exact hF), if_pos (by exact h),
    unmarshal_eq_some.mpr hdecode]
  rfl

/-! ### What a bet wins -/

/-- SHA-256, with its 32 bytes as a number. -/
class Sha256 where
  sha256 : List UInt8 → UInt256

section

variable [Sha256]

/-- `vcalc_sha256` of two numbers. -/
def sha256Pair (a b : UInt256) : UInt256 := Sha256.sha256 (writeUint256 a ++ writeUint256 b)

/-- The nibbles of a number, the upper one first. -/
def nibbles (h : UInt256) : List Nat :=
  (writeUint256 h).flatMap fun b => [b.toNat / 16, b.toNat % 16]

def dice5nibbles (fivevals : List Nat) : Nat := fivevals.foldl (fun n v => n * 16 + v) 0

def diceModval : Nat → Nat → List Nat → Nat
  | 0, modval, _ => modval
  | n + 1, _, hash16 =>
    let modval := dice5nibbles (hash16.take 5)
    if modval < 1000000 then modval % 10000 else diceModval n modval (hash16.drop 5)

def diceWins (odds : UInt64) (houseentropy bettorentropy : UInt256) : Bool :=
  let house := sha256Pair houseentropy bettorentropy
  let bettor := sha256Pair bettorentropy houseentropy
  if 1 < odds then
    if 9999 < odds then false
    else decide (diceModval 12 0 (nibbles (sha256Pair house bettor)) < 10000 / (odds.toNat + 1))
  else decide (house.toNat ≤ bettor.toNat)

def diceCalc (bet vout2 : CAmount) (plan : DicePlan) (houseentropy bettorentropy : UInt256) :
    UInt64 :=
  let odds := (vout2 - 10000).toUInt64
  if vout2 ≤ 10000 then 0
  else if bet < plan.minbet ∨ plan.maxbet < bet then 0
  else if plan.maxodds.toUInt64 < odds then 0
  else if diceWins odds houseentropy bettorentropy then bet.toUInt64 * (odds + 1)
  else 0

theorem diceCalc_eq {bet vout2 : CAmount} {plan : DicePlan} {houseentropy bettorentropy : UInt256}
    (h : diceCalc bet vout2 plan houseentropy bettorentropy ≠ 0) :
    diceCalc bet vout2 plan houseentropy bettorentropy
      = bet.toUInt64 * ((vout2 - 10000).toUInt64 + 1) := by
  unfold diceCalc at h ⊢
  dsimp only at h ⊢
  split at h
  · exact absurd rfl h
  next h₁ =>
  split at h
  · exact absurd rfl h
  next h₂ =>
  split at h
  · exact absurd rfl h
  next h₃ =>
  split at h
  · next h₄ => rw [if_neg h₁, if_neg h₂, if_neg h₃, if_pos h₄]
  · exact absurd rfl h

end

/-- What the contract asks the rest of the node besides. -/
structure DiceWorld extends CCWorld where
  ccDuration : UInt256 → Int64 × Int

section

variable [CCLibrary] [Sha256]

open CCLibrary

variable (world : DiceWorld) (tx : CTransaction)

def isDicevout (out : CTxOut) (refsbits : UInt64) (reffundingtxid : UInt256) : UInt64 :=
  if out.scriptPubKey.isPayToCryptoCondition ∧
      getscriptaddress out.scriptPubKey = some (unspendableCCaddr evalDice) then
    match diceOpretOf tx with
    | some o =>
      if o.sbits = refsbits ∧ ((o.funcid = funcCode 'F' ∧ tx.hash = reffundingtxid) ∨
          o.fundingtxid = reffundingtxid) then out.nValue.toUInt64
      else 0
    | none => 0
  else 0

/-- The inputs in `DiceAmounts`. A missing one fails; other checks still run. -/
def diceInputs (world : DiceWorld) (refsbits : UInt64) (reffundingtxid : UInt256) :
    List CTxIn → Except EvalFault UInt64
  | [] => .ok 0
  | i :: vin =>
    if ismyvin evalDice i.scriptSig then do
      let vinTx ← someOrInvalid (world.getTx i.prevout.hash) "always should find vin, but didnt"
      let out ← voutAt vinTx i.prevout.n
      let rest ← diceInputs world refsbits reffundingtxid vin
      return isDicevout vinTx out refsbits reffundingtxid + rest
    else diceInputs world refsbits reffundingtxid vin

/-- The outputs in `DiceAmounts`. -/
def diceOutputs (refsbits : UInt64) (reffundingtxid : UInt256) : UInt64 :=
  (tx.vout.map fun out => isDicevout tx out refsbits reffundingtxid).sum

variable (o : DiceOpret)

/-- The plan and the house's script; without outputs neither. -/
def dicePlan : Except EvalFault (DicePlan × CScript) := do
  let fundingTx ← someOrInvalid (world.getTx o.fundingtxid) "cant find fundingtxid"
  let last ← voutAt fundingTx (fundingTx.vout.length - 1)
  let plan ← someOrInvalid (decodeDiceFundingOpRet last.scriptPubKey) "fundingTx not valid"
  invalidIf (9999 < plan.maxodds) "maxodds too big"
  let vout1 ← voutAt fundingTx 1
  return (plan, vout1.scriptPubKey)

def sameAddress (a b : CScript) : Bool :=
  (getscriptaddress a).getD [] == (getscriptaddress b).getD []

/-- The commitment's transaction has an input of the house. -/
def entropySource (vinTx : CTransaction) (fundingtxid : UInt256)
    (fundingPubKey : CScript) : Except EvalFault Unit := do
  let vin0 ← vinAt vinTx 0
  let vinofvinTx ← someOrInvalid ((world.getTx vin0.prevout.hash).filter fun t =>
    !t.vout.isEmpty) "always should find vinofvin.0, but didnt for bet"
  if vin0.prevout.hash = fundingtxid then .ok ()
  else do
    let out ← voutAt vinofvinTx vin0.prevout.n
    invalidIf (out.scriptPubKey != fundingPubKey && !sameAddress out.scriptPubKey fundingPubKey)
      "vin1 of entropy tx not fundingPubKey for bet"

variable (plan : DicePlan) (fundingPubKey : CScript)

/-- A bet; the house deciding it is not part of the verdict. -/
def diceBet : Except EvalFault Unit := do
  let vin0 ← vinAt tx 0
  invalidIf (!isCCInput vin0.scriptSig) "vin.0 is normal for bet"
  let vout0 ← voutAt tx 0
  invalidIf (!vout0.scriptPubKey.isPayToCryptoCondition) "vout.0 is normal for bet"
  let vout1 ← voutAt tx 1
  invalidIf (!vout1.scriptPubKey.isPayToCryptoCondition) "vout.1 is normal for bet"
  let vinTx ← someOrInvalid (world.getTx vin0.prevout.hash)
    "always should find vin.0, but didnt for bet"
  let tag ← voutAt vinTx 1
  invalidIf (tag.scriptPubKey != fundingPubKey) "entropy tx not fundingPubKey for bet"
  let entropyOut ← voutAt vinTx vin0.prevout.n
  invalidIf (!constrainVout vout0 true (some (unspendableCCaddr evalDice)) entropyOut.nValue)
    "vout[0] != entropy nValue for bet"
  invalidIf (!constrainVout vout1 true (some (unspendableCCaddr evalDice)) 0)
    "vout[1] constrain violation for bet"
  let vout2 ← voutAt tx 2
  invalidIf (10000 + plan.maxodds.toUInt64 < vout2.nValue.toUInt64 ||
    vout2.nValue.toUInt64 ≤ 10000) "vout[2] nValue violation for bet"
  entropySource world vinTx o.fundingtxid fundingPubKey

/-! ### The end of a bet -/

structure BetSpent where
  betTx : CTransaction
  bet : DiceOpret
  inputs : UInt64

/-- The first part of a win, a loss and a timeout. -/
def betSpent : Except EvalFault BetSpent := do
  let inputs ← diceInputs world plan.sbits o.fundingtxid tx.vin
  let vin1 ← vinAt tx 1
  let vin2 ← vinAt tx 2
  invalidIf (!isCCInput vin1.scriptSig || !isCCInput vin2.scriptSig)
    "vin0 or vin1 normal vin for bet"
  invalidIf (vin1.prevout.hash != vin2.prevout.hash) "vin0 != vin1 prevout.hash for bet"
  let betTx ← someOrInvalid (world.getTx vin1.prevout.hash)
    "always should find vin.0, but didnt for wlt"
  let bet ← someOrInvalid ((betTx.vout.getLast?.bind fun out =>
    decodeDiceOpRet vin1.prevout.hash out.scriptPubKey).filter fun b =>
      decide (3 ≤ betTx.vout.length) && b.funcid == funcCode 'B') "not betTx for vin0/1 for wlt"
  invalidIf (plan.sbits != bet.sbits || o.fundingtxid != bet.fundingtxid)
    "sbits or fundingtxid mismatch for wlt"
  let vout1 ← voutAt tx 1
  invalidIf (fundingPubKey != vout1.scriptPubKey) "tx.vout[1] != fundingPubKey for wlt"
  return ⟨betTx, bet, inputs⟩

def forHouse (out : CTxOut) (fundingPubKey : CScript) : Bool :=
  out.scriptPubKey == fundingPubKey || out.scriptPubKey.head? == some opReturn

def lossOutputs (b : BetSpent) : Except EvalFault Unit := do
  let vout0 ← voutAt tx 0
  invalidIf (!constrainVout vout0 true (some (unspendableCCaddr evalDice)) b.inputs.toInt64)
    "vout[0] != inputs-txfee for loss"
  let vout2 ← voutAt tx 2
  invalidIf (!forHouse vout2 fundingPubKey) "vout[2] not send to fundingPubKey for loss"

def winOutputs (b : BetSpent) : Except EvalFault Unit := do
  let betVout1 ← voutAt b.betTx 1
  let betVout2 ← voutAt b.betTx 2
  let odds := betVout2.nValue - 10000
  let vout0 ← voutAt tx 0
  invalidIf (!constrainVout vout0 true (some (unspendableCCaddr evalDice)) 0)
    "vout[0] != inputs-txfee for win/timeout"
  let vout2 ← voutAt tx 2
  invalidIf (vout2.scriptPubKey != betVout2.scriptPubKey)
    "vout[2] scriptPubKey mismatch for win/timeout"
  invalidIf (vout2.nValue != (odds + 1) * betVout1.nValue)
    "vout[2] payut mismatch for win/timeout"
  let outputs := diceOutputs tx plan.sbits o.fundingtxid
  invalidIf (b.inputs != outputs + vout2.nValue.toUInt64 &&
    b.inputs != outputs + vout2.nValue.toUInt64 + 10000) "CC funds mismatch for win/timeout"
  let vout3 ← voutAt tx 3
  invalidIf (!forHouse vout3 fundingPubKey) "vout[3] not send to fundingPubKey for win/timeout"

def diceGetEntropy (reffuncid : UInt8) : UInt256 :=
  match diceOpretOf tx with
  | some o => if o.funcid = reffuncid then o.hash else UInt256.null
  | none => UInt256.null

/-- The outcome is the one of the two values. The hash of the house's value is computed, but
compared with nothing. -/
def checkOutcome (b : BetSpent) (won : Bool) : Except EvalFault Unit := do
  let betVout1 ← voutAt b.betTx 1
  let betVout2 ← voutAt b.betTx 2
  let winnings := (diceCalc betVout1.nValue betVout2.nValue plan o.proof
    (diceGetEntropy b.betTx (funcCode 'B'))).toInt64
  invalidIf (winnings == 0 && won || decide (0 < winnings) && !won)
    "DiceCalc mismatch for win/loss"

/-- `DiceVerifyTimeout`: the plan's blocks cut to 32 bits. -/
def diceVerifyTimeout (betTx : CTransaction) (timeoutblocks : Int64) : Bool :=
  0 < (world.ccDuration betTx.hash).1 &&
    decide (timeoutblocks.toInt32.toInt ≤ (world.ccDuration betTx.hash).2)

def diceEnd : Except EvalFault Unit := do
  let b ← betSpent world tx o plan fundingPubKey
  if o.funcid = funcCode 'L' then do
    lossOutputs tx fundingPubKey b
    checkOutcome o plan b false
  else if o.funcid = funcCode 'W' then do
    winOutputs tx o plan fundingPubKey b
    checkOutcome o plan b true
  else do
    winOutputs tx o plan fundingPubKey b
    invalidIf (!diceVerifyTimeout world b.betTx plan.timeoutblocks)
      "invalid timeout claim for timeout"

def diceRefund : Except EvalFault Unit := do
  let vin0 ← vinAt tx 0
  let vinTx ← someOrInvalid (world.getTx vin0.prevout.hash)
    "always should find vin.0, but didnt for refund"
  let out ← voutAt vinTx vin0.prevout.n
  invalidIf (out.scriptPubKey != fundingPubKey && !sameAddress out.scriptPubKey fundingPubKey)
    "vin.0 not from fundingPubKey for refund"

/-- The cases of `DiceValidate`: where inputs and outputs may have no conditions. -/
def diceCases : Except EvalFault (Option Nat × Option Nat) :=
  if o.funcid = funcCode 'F' then
    .error (.invalid "unexpected DiceValidate for createfunding")
  else if o.funcid = funcCode 'E' then
    .error (.invalid "unexpected DiceValidate for addfunding entropy")
  else if o.funcid = funcCode 'B' then do
    diceBet world tx o plan fundingPubKey
    return (some 1, some 2)
  else if o.funcid ∈ [funcCode 'L', funcCode 'W', funcCode 'T'] then do
    diceEnd world tx o plan fundingPubKey
    return (none, some 1)
  else if o.funcid = funcCode 'R' then do
    diceRefund world tx fundingPubKey
    return (none, none)
  else .error (.invalid "unexpected dice funcid")

def diceValidate : Except EvalFault Unit := do
  let last ← someOrInvalid tx.vout.getLast? "no vouts"
  let o ← someOrInvalid (decodeDiceOpRet tx.hash last.scriptPubKey)
    "unexpected dice missing funcid"
  let plan ← dicePlan world o
  let prevent ← diceCases world tx o plan.1 plan.2
  preventCC tx prevent.1 prevent.2

end

end Elosys
