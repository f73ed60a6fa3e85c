import Elosys.Primitives

/-!
# Context-Free Transaction Checks

`CheckTransactionWithoutProofVerification` and `CheckTransaction` of `main.cpp`, in the order of the
source, with ban scores and reject reasons. On private chains value reaches transparent addresses
only through notaries, with two exceptions.

## Main results

* Acceptance is characterised for every chain; a private one adds two checks.
* On a private chain an accepted transaction pays only notaries, but for coinbases and the two
  exceptions (`SaplingReveal`, `SproutExit`).
-/

open List

namespace Elosys

/-! ### Chain parameters -/

/-- The globals of the context-free checks. `scriptAddress` is `Getscriptaddress` (empty without
an address), `notaryAddresses` the rows of `NOTARY_ADDRESSES`, `isBanned` the table of banned
inputs and `isStakingTx` recognises a staking transaction at a time. -/
structure ChainParams where
  maxMoney : CAmount
  assetchainsPrivate : Bool
  assetchainsPublic : Bool
  isKMD : Bool
  isZEX : Bool
  assetchainsTxpow : Nat
  scriptAddress : CScript → String
  notaryAddresses : Nat → List String
  serializeSize : CTransaction → Nat
  verifySprout : JSDescription → Bool
  isBanned : COutPoint → Bool
  isStakingTx : Nat → CTransaction → Bool

def kmdSeasonTimestamps : List Nat :=
  [1525132800, 1563148800, 1576840000, 1592146800, 1623682800, 1656077853, 1688132253,
    1951328000]

def getacseason (timestamp : Nat) : Nat :=
  match kmdSeasonTimestamps.findIdx? (timestamp ≤ ·) with
  | some i => i + 1
  | none => 0

def komodoSaplingDeadline : Nat := 1550188800

def crypto777Kmdaddr : String := "RXL3YXG2ceaB6C5hfJcN4fvmLH2C34knhA"

def komodoIsnotaryvout (c : ChainParams) (coinaddr : String) (tiptime : Nat) : Bool :=
  coinaddr == crypto777Kmdaddr ||
    (c.notaryAddresses (getacseason tiptime)).contains coinaddr

/-- `komodo_acpublic`: without a time the tip's is taken. -/
def komodoAcpublic (c : ChainParams) (chainTip : Option Nat) (tiptime : Nat) : Bool :=
  c.assetchainsPublic ||
    let tiptime := if tiptime = 0 then chainTip.getD 0 else tiptime
    (c.isKMD || c.isZEX) && komodoSaplingDeadline ≤ tiptime

/-! ### Scripts of the private-chain exception -/

def CScript.isPayToScriptHash (s : CScript) : Bool :=
  s.length == 23 && s[0]? == some 0xa9 && s[1]? == some 0x14 && s[22]? == some 0x87

/-- A redeem script's size with its push, and the positions with their allowed values. -/
structure RevealShape where
  size : Nat
  bytes : List (Nat × List UInt8)

/-- The shapes of `CScript::IsRedeemScriptReveal`: the usual hash time lock, one with a 32-byte
hash, and one with a label. -/
def revealShapes : List RevealShape :=
  [⟨110, [(0, [0x6a]), (3, [0x63]), (9, [0xb1]), (10, [0x75]), (45, [0xac]), (46, [0x67]),
      (47, [0x82]), (48, [0x01]), (49, [0x20]), (50, [0x88]), (51, [0xa9]), (73, [0x88]),
      (108, [0xac]), (109, [0x68])]⟩,
    ⟨122, [(0, [0x6a]), (3, [0x63]), (9, [0xb1]), (10, [0x75]), (45, [0xac]), (46, [0x67]),
      (47, [0x82]), (48, [0x01]), (49, [0x20]), (50, [0x88]), (51, [0xa8, 0xaa]),
      (85, [0x88]), (120, [0xac]), (121, [0x68])]⟩,
    ⟨101, [(0, [0x6a]), (1, [0x4c]), (2, [0x62]), (20, [0x75]), (21, [0x63]), (22, [0x04]),
      (27, [0xb1]), (28, [0x75]), (63, [0xac]), (64, [0x67]), (99, [0xac]),
      (100, [0x68])]⟩]

def RevealShape.fits (shape : RevealShape) (s : CScript) : Bool :=
  s.length == shape.size &&
    shape.bytes.all fun (i, allowed) => (s[i]?).any allowed.contains

/-- `OP_HASH160 <20 bytes> OP_EQUAL`. -/
def payToScriptHash (h : BitVec 160) : CScript :=
  [0xa9, 0x14] ++ (range 20).map (fun i => UInt8.ofBitVec (h.extractLsb' (8 * i) 8)) ++
    [0x87]

/-- `CScript::IsRedeemScriptReveal`: the other output reveals the redeem script this one
pays to. -/
def CScript.isRedeemScriptReveal [CryptoHash] (s revealed : CScript) : Bool :=
  revealShapes.any (fun shape => shape.fits revealed) &&
    payToScriptHash (CryptoHash.Hash160 (revealed.drop 3)) == s

/-! ### The checks -/

variable (c : ChainParams)

def checkVersion (tx : CTransaction) : Except Fault Unit :=
  if !tx.fOverwintered then rejectIf (tx.nVersion < 1) 100 "bad-txns-version-too-low"
  else do
    rejectIf (tx.nVersion < 3) 100 "bad-tx-overwinter-version-too-low"
    rejectIf (tx.nVersionGroupId ≠ 0x03C48270 && tx.nVersionGroupId ≠ 0x892F2085) 100
      "bad-tx-version-group-id"
    rejectIf (500000000 ≤ tx.nExpiryHeight) 100 "bad-tx-expiry-height-too-high"

/-- Carried by the output loop: the total, and whether an ordinary address is paid. -/
structure VoutScan where
  nValueOut : CAmount
  invalidPrivateTaddr : Bool

/-- An output a private chain does not allow alone. -/
def paysOrdinary (tiptime : Nat) (o : CTxOut) : Bool :=
  0 < o.nValue && !komodoIsnotaryvout c (c.scriptAddress o.scriptPubKey) tiptime

def iguanaMaxscriptsize : Nat := 10001

def checkVout (tiptime : Nat) (iscoinbase : Bool) :
    VoutScan → List CTxOut → Except Fault VoutScan
  | scan, [] => .ok scan
  | scan, o :: os => do
    rejectIf (o.nValue < 0) 100 "bad-txns-vout-negative"
    rejectIf (c.maxMoney < o.nValue) 100 "bad-txns-vout-toolarge"
    rejectIf (iguanaMaxscriptsize < o.scriptPubKey.length) 100 "bad-txns-opret-too-big"
    let total := scan.nValueOut + o.nValue
    rejectIf (!moneyRange c.maxMoney total) 100 "bad-txns-txouttotal-toolarge"
    checkVout tiptime iscoinbase
      ⟨total, scan.invalidPrivateTaddr ||
        (c.assetchainsPrivate && !iscoinbase && paysOrdinary c tiptime o)⟩ os

/-- The Sapling exception of private chains: a script-hash output with its redeem script, in a
late enough season. -/
def allowedReveal [CryptoHash] (tiptime : Nat) (tx : CTransaction) : Bool :=
  5 < getacseason tiptime && tx.vin.isEmpty &&
    match tx.vout with
    | [o, r] =>
      o.scriptPubKey.isPayToScriptHash && o.scriptPubKey.isRedeemScriptReveal r.scriptPubKey
    | _ => false

def checkPrivateSapling [CryptoHash] (tiptime : Nat) (tx : CTransaction) (invalid : Bool) :
    Except Fault Bool :=
  if c.assetchainsPrivate && invalid && !tx.vShieldedSpend.isEmpty then
    if allowedReveal tiptime tx then .ok false
    else .error (.reject 100 "bad-txns-acprivate-chain")
  else .ok invalid

/-- Carried by the JoinSplit loop: the total, and how many stay, shield and unshield. -/
structure JoinSplitScan where
  nValueOut : CAmount
  zz : Nat := 0
  tz : Nat := 0
  zt : Nat := 0

/-- Count a JoinSplit by its direction. -/
def JoinSplitScan.count (scan : JoinSplitScan) (js : JSDescription) : JoinSplitScan :=
  if js.vpubNew = 0 ∧ js.vpubOld = 0 then { scan with zz := scan.zz + 1 }
  else if js.vpubNew = 0 ∧ js.vpubOld ≠ 0 then { scan with tz := scan.tz + 1 }
  else if js.vpubNew ≠ 0 ∧ js.vpubOld = 0 then { scan with zt := scan.zt + 1 }
  else scan

def checkJoinSplits (maxMoney : CAmount) (acpublic : Bool) (tiptime : Nat) :
    JoinSplitScan → List JSDescription → Except Fault JoinSplitScan
  | scan, [] => .ok scan
  | scan, js :: jss => do
    rejectIf acpublic 100 "bad-txns-acpublic-chain"
    rejectIf (komodoSaplingDeadline ≤ tiptime) 100 "bad-txns-sprout-expired"
    rejectIf (js.vpubOld < 0) 100 "bad-txns-vpub_old-negative"
    rejectIf (js.vpubNew < 0) 100 "bad-txns-vpub_new-negative"
    rejectIf (maxMoney < js.vpubOld) 100 "bad-txns-vpub_old-toolarge"
    rejectIf (maxMoney < js.vpubNew) 100 "bad-txns-vpub_new-toolarge"
    rejectIf (js.vpubNew ≠ 0 && js.vpubOld ≠ 0) 100 "bad-txns-vpubs-both-nonzero"
    let total := scan.nValueOut + js.vpubOld
    rejectIf (!moneyRange maxMoney total) 100 "bad-txns-txouttotal-toolarge"
    checkJoinSplits maxMoney acpublic tiptime ({ scan with nValueOut := total }.count js) jss

def UInt256.byte (h : UInt256) (i : Nat) : BitVec 8 := h.extractLsb' (8 * i) 8

/-- Whether the hash must end in zero bytes and does not. -/
def failsTxpow (tx : CTransaction) : Bool :=
  c.assetchainsTxpow ≠ 0 &&
    ((c.assetchainsTxpow &&& 2 ≠ 0 && tx.isCoinBase) ||
      (c.assetchainsTxpow &&& 1 ≠ 0 && !tx.isCoinBase)) &&
    (UInt256.byte tx.hash 0 ≠ 0 || UInt256.byte tx.hash 31 ≠ 0) &&
    tx.hash ≠ 0x4a5e1e4baab89f3a32518a88c31bc87f618f76673e2cc77ab2127b7afdeda33b

def checkValueIn (maxMoney : CAmount) (tx : CTransaction) :
    CAmount → List JSDescription → Except Fault Unit
  | total, [] =>
    rejectIf (0 ≤ tx.valueBalance && !moneyRange maxMoney (total + tx.valueBalance)) 100
      "bad-txns-txintotal-toolarge"
  | total, js :: jss => do
    rejectIf (!moneyRange maxMoney js.vpubNew || !moneyRange maxMoney (total + js.vpubNew))
      100 "bad-txns-txintotal-toolarge"
    checkValueIn maxMoney tx (total + js.vpubNew) jss

def checkDistinct {α : Type} [DecidableEq α] (reason : String) :
    List α → List α → Except Fault Unit
  | _, [] => .ok ()
  | seen, a :: as => do
    rejectIf (seen.contains a) 100 reason
    checkDistinct reason (a :: seen) as

/-- The checks of transactions that create coins or not. -/
def checkMint (tx : CTransaction) : Except Fault Unit :=
  if tx.isMint then do
    rejectIf (!tx.vjoinsplit.isEmpty) 100 "bad-cb-has-joinsplits"
    rejectIf (!tx.vShieldedSpend.isEmpty) 100 "bad-cb-has-spend-description"
    rejectIf (!tx.vShieldedOutput.isEmpty) 100 "bad-cb-has-output-description"
    rejectIf (tx.vin.head?.any fun i => i.scriptSig.length < 2 || 100 < i.scriptSig.length)
      100 "bad-cb-length"
  else rejectIf (tx.vin.any fun i => i.prevout.isNull) 10 "bad-txns-prevout-null"

def maxTxSizeAfterSapling : Nat := 200000

def checkTransactionWithoutProofVerification [CryptoHash] (chainTip : Option Nat) (tiptime : Nat)
    (tx : CTransaction) : Except Fault Unit := do
  let acpublic := komodoAcpublic c chainTip tiptime
  checkVersion tx
  rejectIf (tx.vin.isEmpty && tx.vjoinsplit.isEmpty && tx.vShieldedSpend.isEmpty) 10
    "bad-txns-vin-empty"
  rejectIf (tx.vout.isEmpty && tx.vjoinsplit.isEmpty && tx.vShieldedOutput.isEmpty) 10
    "bad-txns-vout-empty"
  rejectIf (maxTxSizeAfterSapling < c.serializeSize tx) 100 "bad-txns-oversize"
  let scan ← checkVout c tiptime tx.isCoinBase ⟨0, false⟩ tx.vout
  rejectIf (tx.vShieldedSpend.isEmpty && tx.vShieldedOutput.isEmpty && tx.valueBalance ≠ 0)
    100 "bad-txns-valuebalance-nonzero"
  rejectIf (acpublic && (!tx.vShieldedSpend.isEmpty || !tx.vShieldedOutput.isEmpty)) 100
    "bad-txns-acpublic-chain"
  let invalid ← checkPrivateSapling c tiptime tx scan.invalidPrivateTaddr
  rejectIf (c.maxMoney < tx.valueBalance || tx.valueBalance < -c.maxMoney) 100
    "bad-txns-valuebalance-toolarge"
  let nValueOut :=
    if tx.valueBalance ≤ 0 then scan.nValueOut + -tx.valueBalance else scan.nValueOut
  rejectIf (tx.valueBalance ≤ 0 && !moneyRange c.maxMoney nValueOut) 100
    "bad-txns-txouttotal-toolarge"
  let joinsplits ←
    checkJoinSplits c.maxMoney acpublic tiptime ⟨nValueOut, 0, 0, 0⟩ tx.vjoinsplit
  rejectIf (c.assetchainsPrivate && invalid &&
      (joinsplits.zt = 0 || joinsplits.zz ≠ 0 || joinsplits.tz ≠ 0 || !tx.vin.isEmpty)) 100
    "bad-txns-acprivacy-chain"
  rejectIf (failsTxpow c tx) 100 "bad-txns-actxpow-chain"
  checkValueIn c.maxMoney tx 0 tx.vjoinsplit
  checkDistinct "bad-txns-inputs-duplicate" [] (tx.vin.map CTxIn.prevout)
  checkDistinct "bad-joinsplits-nullifiers-duplicate" [] tx.sproutNullifiers
  checkDistinct "bad-spend-description-nullifiers-duplicate" [] tx.saplingNullifiers
  checkMint tx

/-- `CheckTransaction`; a banned input is refused without a reason, and a staking transaction must
be its block's last. -/
def checkTransaction [CryptoHash] (chainTip : Option Nat) (tiptime txIndex numTxs : Nat)
    (tx : CTransaction) : Except Fault Unit := do
  rejectIf (c.isKMD && tx.vin.any fun i => c.isBanned i.prevout) 0 ""
  rejectIf (c.isStakingTx tiptime tx && (numTxs = 0 || txIndex ≠ numTxs - 1)) 100
    "bad-txns-stakingtx"
  checkTransactionWithoutProofVerification c chainTip tiptime tx
  rejectIf (!tx.vjoinsplit.all c.verifySprout) 100 "bad-txns-joinsplit-verification-failed"

/-! ### What the loops have checked -/

theorem checkVout_eq (tiptime : Nat) (iscoinbase : Bool) (scan : VoutScan) (vout : List CTxOut) :
    checkVout c tiptime iscoinbase scan vout =
      (checkVout { c with assetchainsPrivate := false } tiptime iscoinbase
        ⟨scan.nValueOut, false⟩ vout).map fun s =>
          ⟨s.nValueOut, scan.invalidPrivateTaddr || (c.assetchainsPrivate && !iscoinbase &&
            vout.any (paysOrdinary c tiptime))⟩ := by
  induction vout generalizing scan with
  | nil => simp [checkVout, Except.map]
  | cons o os ih =>
    simp only [checkVout, ih ⟨_, _⟩, Bool.false_and, Bool.or_false, any_cons]
    cases rejectIf (o.nValue < 0) 100 "bad-txns-vout-negative" with
    | error e => rfl
    | ok u =>
    cases rejectIf (c.maxMoney < o.nValue) 100 "bad-txns-vout-toolarge" with
    | error e => rfl
    | ok u =>
    cases rejectIf (iguanaMaxscriptsize < o.scriptPubKey.length) 100 "bad-txns-opret-too-big" with
    | error e => rfl
    | ok u =>
    cases rejectIf (!moneyRange c.maxMoney (scan.nValueOut + o.nValue)) 100
        "bad-txns-txouttotal-toolarge" with
    | error e => rfl
    | ok u =>
    simp only [bind, Except.bind, Bool.and_or_distrib_left, Bool.or_assoc]

/-- A JoinSplit that only unshields Sprout value. -/
def JSDescription.Unshields (js : JSDescription) : Prop := js.vpubOld = 0 ∧ 0 < js.vpubNew

theorem JoinSplitScan.count_cases (scan : JoinSplitScan) {js : JSDescription}
    (hpos : 0 ≤ js.vpubNew) (hone : js.vpubNew = 0 ∨ js.vpubOld = 0) :
    (js.Unshields ∧ scan.count js = { scan with zt := scan.zt + 1 }) ∨
      (¬ js.Unshields ∧ 0 < (scan.count js).zz + (scan.count js).tz) := by
  have hlt : 0 < js.vpubNew ↔ js.vpubNew ≠ 0 := by
    simp only [Int64.lt_iff_toInt_lt, Int64.le_iff_toInt_le, ne_eq, ← Int64.toInt_inj] at hpos ⊢
    omega
  by_cases hnew : js.vpubNew = 0
  · refine .inr ⟨fun hu => hlt.mp hu.2 hnew, ?_⟩
    by_cases hold : js.vpubOld = 0
    · simp only [count, hnew, hold, and_self, if_true]
      omega
    · simp only [count, hnew, hold, and_false, not_false_eq_true, and_self, if_true,
        if_false, ne_eq]
      omega
  · have hold : js.vpubOld = 0 := hone.resolve_left hnew
    exact .inl ⟨⟨hold, hlt.mpr hnew⟩, by simp [count, hnew, hold]⟩

theorem JoinSplitScan.count_le (scan : JoinSplitScan) (js : JSDescription) :
    scan.zz ≤ (scan.count js).zz ∧ scan.tz ≤ (scan.count js).tz := by
  unfold count
  split_ifs
  all_goals simp

variable {tiptime : Nat}

theorem checkJoinSplits_le {maxMoney : CAmount} {acpublic : Bool}
    {scan scan' : JoinSplitScan} {jss : List JSDescription}
    (h : checkJoinSplits maxMoney acpublic tiptime scan jss = .ok scan') :
    scan.zz ≤ scan'.zz ∧ scan.tz ≤ scan'.tz := by
  induction jss generalizing scan with
  | nil =>
    obtain rfl : scan = scan' := by simpa [checkJoinSplits] using h
    simp
  | cons js jss ih =>
    simp only [checkJoinSplits, bind_eq_ok, rejectIf_eq_ok, exists_const] at h
    obtain ⟨-, -, -, -, -, -, -, -, h⟩ := h
    have hstep := JoinSplitScan.count_le { scan with nValueOut := scan.nValueOut + js.vpubOld } js
    exact ⟨hstep.1.trans (ih h).1, hstep.2.trans (ih h).2⟩

theorem checkJoinSplits_eq_ok {maxMoney : CAmount} {acpublic : Bool}
    {scan scan' : JoinSplitScan} {jss : List JSDescription}
    (h : checkJoinSplits maxMoney acpublic tiptime scan jss = .ok scan')
    (hzz : scan.zz = 0) (htz : scan.tz = 0) :
    (jss ≠ [] → tiptime < komodoSaplingDeadline) ∧
      ((∀ js ∈ jss, js.Unshields) → scan'.zz = 0 ∧ scan'.tz = 0 ∧ scan'.zt = scan.zt + jss.length) ∧
      (scan'.zz = 0 → scan'.tz = 0 → ∀ js ∈ jss, js.Unshields) := by
  induction jss generalizing scan with
  | nil =>
    obtain rfl : scan = scan' := by simpa [checkJoinSplits] using h
    simp [hzz, htz]
  | cons js jss ih =>
    simp only [checkJoinSplits, bind_eq_ok, rejectIf_eq_ok, exists_const] at h
    obtain ⟨-, hdeadline, -, hnew, -, -, hboth, -, h⟩ := h
    have hpos : 0 ≤ js.vpubNew := by
      simp only [decide_eq_false_iff_not, Int64.lt_iff_toInt_lt] at hnew
      exact Int64.le_iff_toInt_le.mpr (by omega)
    have hone : js.vpubNew = 0 ∨ js.vpubOld = 0 := by
      by_contra hne
      simp_all
    refine ⟨fun _ => by simpa using hdeadline, ?_, ?_⟩
    · intro hall
      have hjs : js.Unshields := hall js mem_cons_self
      obtain ⟨-, hcount⟩ | ⟨hno, -⟩ := JoinSplitScan.count_cases
        { scan with nValueOut := scan.nValueOut + js.vpubOld } hpos hone
      · rw [hcount] at h
        obtain ⟨-, hend, -⟩ := ih h hzz htz
        obtain ⟨h₁, h₂, h₃⟩ := hend fun j hj => hall j (mem_cons_of_mem _ hj)
        refine ⟨h₁, h₂, ?_⟩
        simp only [length_cons] at h₃ ⊢
        omega
      · exact absurd hjs hno
    · intro h₁ h₂
      obtain ⟨hjs, hcount⟩ | ⟨-, hcount⟩ := JoinSplitScan.count_cases
        { scan with nValueOut := scan.nValueOut + js.vpubOld } hpos hone
      · rw [hcount] at h
        obtain ⟨-, -, hend⟩ := ih h hzz htz
        exact forall_mem_cons.mpr ⟨hjs, hend h₁ h₂⟩
      · have hle := checkJoinSplits_le h
        omega

theorem checkDistinct_eq_ok {α : Type} [DecidableEq α] {reason : String} {seen as : List α} :
    checkDistinct reason seen as = .ok () ↔ as.Nodup ∧ ∀ a ∈ as, a ∉ seen := by
  induction as generalizing seen with
  | nil => simp [checkDistinct]
  | cons a as ih =>
    simp only [checkDistinct, bind_eq_ok, rejectIf_eq_ok, exists_const, ih,
      nodup_cons, mem_cons, not_or, forall_eq_or_imp]
    constructor
    · rintro ⟨ha, hnodup, hall⟩
      exact ⟨⟨fun hmem => (hall a hmem).1 rfl, hnodup⟩, by simpa using ha,
        fun b hb => (hall b hb).2⟩
    · rintro ⟨⟨hnew, hnodup⟩, ha, hall⟩
      exact ⟨by simpa using ha, hnodup, fun b hb => ⟨fun heq => hnew (heq ▸ hb), hall b hb⟩⟩

/-! ### Acceptance, check by check -/

def ChainParams.unprivate : ChainParams := { c with assetchainsPrivate := false }

@[simp] theorem ChainParams.unprivate_assetchainsPrivate :
    c.unprivate.assetchainsPrivate = false := rfl

@[simp] theorem ChainParams.unprivate_maxMoney : c.unprivate.maxMoney = c.maxMoney := rfl

@[simp] theorem ChainParams.unprivate_serializeSize :
    c.unprivate.serializeSize = c.serializeSize := rfl

@[simp] theorem komodoAcpublic_unprivate (chainTip : Option Nat) (tiptime : Nat) :
    komodoAcpublic c.unprivate chainTip tiptime = komodoAcpublic c chainTip tiptime := rfl

/-- What every chain checks; `total` is the sum of the outputs and `joinsplits` the end of the
JoinSplit loop. -/
structure ContextFree (c : ChainParams) (chainTip : Option Nat) (tiptime : Nat) (tx : CTransaction)
    (total : CAmount) (joinsplits : JoinSplitScan) : Prop where
  version : checkVersion tx = .ok ()
  inputs : (tx.vin.isEmpty && tx.vjoinsplit.isEmpty && tx.vShieldedSpend.isEmpty) = false
  outputs :
    (tx.vout.isEmpty && tx.vjoinsplit.isEmpty && tx.vShieldedOutput.isEmpty) = false
  size : c.serializeSize tx ≤ maxTxSizeAfterSapling
  scanned : checkVout c tiptime tx.isCoinBase ⟨0, false⟩ tx.vout =
    .ok ⟨total, false⟩
  balanceZero : tx.vShieldedSpend = [] → tx.vShieldedOutput = [] → tx.valueBalance = 0
  acpublic : komodoAcpublic c chainTip tiptime = true →
    tx.vShieldedSpend = [] ∧ tx.vShieldedOutput = []
  balance : tx.valueBalance ≤ c.maxMoney ∧ -c.maxMoney ≤ tx.valueBalance
  balanceOut : tx.valueBalance ≤ 0 →
    moneyRange c.maxMoney (total + -tx.valueBalance) = true
  joinsplits : checkJoinSplits c.maxMoney (komodoAcpublic c chainTip tiptime) tiptime
    ⟨if tx.valueBalance ≤ 0 then total + -tx.valueBalance else total, 0, 0, 0⟩
    tx.vjoinsplit = .ok joinsplits
  txpow : failsTxpow c tx = false
  valueIn : checkValueIn c.maxMoney tx 0 tx.vjoinsplit = .ok ()
  inputsDistinct : (tx.vin.map CTxIn.prevout).Nodup
  sproutDistinct : tx.sproutNullifiers.Nodup
  saplingDistinct : tx.saplingNullifiers.Nodup
  mint : checkMint tx = .ok ()

def PrivatePass [CryptoHash] (tiptime : Nat) (tx : CTransaction)
    (joinsplits : JoinSplitScan) : Prop :=
  if tx.vShieldedSpend = [] then
    joinsplits.zt ≠ 0 ∧ joinsplits.zz = 0 ∧ joinsplits.tz = 0 ∧ tx.vin = []
  else allowedReveal tiptime tx = true

def OrdinaryOutput (tiptime : Nat) (tx : CTransaction) : Prop :=
  tx.isCoinBase = false ∧ ∃ o ∈ tx.vout, paysOrdinary c tiptime o = true

theorem checkVout_eq_ok {iscoinbase : Bool} {scan : VoutScan} {vout : List CTxOut} :
    checkVout c tiptime iscoinbase ⟨0, false⟩ vout = .ok scan ↔
      checkVout c.unprivate tiptime iscoinbase ⟨0, false⟩ vout = .ok ⟨scan.nValueOut, false⟩ ∧
      scan.invalidPrivateTaddr = (c.assetchainsPrivate && !iscoinbase &&
        vout.any (paysOrdinary c tiptime)) := by
  -- The flag of the loop without the private rule stays as it was.
  have hflag := checkVout_eq c.unprivate tiptime iscoinbase ⟨0, false⟩ vout
  rw [checkVout_eq c, ← ChainParams.unprivate]
  simp only [ChainParams.unprivate, Bool.false_and, Bool.or_false, Bool.false_or] at hflag ⊢
  cases hrun : checkVout { c with assetchainsPrivate := false } tiptime iscoinbase
      ⟨0, false⟩ vout with
  | error e => simp [Except.map]
  | ok s =>
    obtain ⟨total, flag⟩ := s
    obtain rfl : flag = false := by simpa [hrun, Except.map] using hflag
    obtain ⟨total', flag'⟩ := scan
    simp [Except.map, eq_comm]

variable {tx : CTransaction}

theorem private_checks [CryptoHash] {invalid : Bool} {joinsplits : JoinSplitScan} :
    (∃ b, checkPrivateSapling c tiptime tx invalid = .ok b ∧
      (c.assetchainsPrivate && b && (joinsplits.zt = 0 || joinsplits.zz ≠ 0 ||
        joinsplits.tz ≠ 0 || !tx.vin.isEmpty)) = false) ↔
      (c.assetchainsPrivate = true → invalid = true → PrivatePass tiptime tx joinsplits) := by
  rcases c.assetchainsPrivate.eq_false_or_eq_true with hp | hp
  · cases invalid with
    | false => simp [checkPrivateSapling, hp]
    | true =>
      by_cases hspends : tx.vShieldedSpend = []
      · simp [checkPrivateSapling, PrivatePass, hp, hspends, and_assoc]
      · by_cases hallowed : allowedReveal tiptime tx = true
        · simp [checkPrivateSapling, PrivatePass, hp, hspends, hallowed]
        · simp [checkPrivateSapling, PrivatePass, hp, hspends, hallowed]
  · simp [checkPrivateSapling, hp]

/-- **Acceptance**: the checks of every chain, and on a private one two more if an ordinary
address is paid. -/
theorem checkTransactionWithoutProofVerification_eq_ok [CryptoHash] {chainTip : Option Nat} :
    checkTransactionWithoutProofVerification c chainTip tiptime tx = .ok () ↔
      ∃ total joinsplits, ContextFree c.unprivate chainTip tiptime tx total joinsplits ∧
        (c.assetchainsPrivate = true → OrdinaryOutput c tiptime tx →
          PrivatePass tiptime tx joinsplits) := by
  simp only [checkTransactionWithoutProofVerification, bind_eq_ok, rejectIf_eq_ok,
    exists_const, checkVout_eq_ok c]
  constructor
  · rintro ⟨_, hversion, hin, hout, hsize, scan, ⟨hscan, hflag⟩, hzero, hpublic, b, hsapling,
      hbal, hbalOut, joinsplits, hjs, hprivate, hpow, _, hvalueIn, _, hdin, _, hdsprout, _,
      hdsapling, hmint⟩
    have hcond : c.assetchainsPrivate = true → OrdinaryOutput c tiptime tx →
        PrivatePass tiptime tx joinsplits := by
      rintro hp ⟨hcb, o, ho, hpays⟩
      refine (private_checks c).mp ⟨b, hsapling, hprivate⟩ hp ?_
      simpa [hflag, hp, hcb] using ⟨o, ho, hpays⟩
    refine ⟨scan.nValueOut, joinsplits, ⟨hversion, hin, hout, by simpa using hsize, hscan,
      by simpa using hzero, by simpa using hpublic, by simpa using hbal, fun hle => ?_, hjs,
      hpow, hvalueIn, (checkDistinct_eq_ok.mp hdin).1, (checkDistinct_eq_ok.mp hdsprout).1,
      (checkDistinct_eq_ok.mp hdsapling).1, hmint⟩, hcond⟩
    simpa [hle] using hbalOut
  · rintro ⟨total, joinsplits, h, hcond⟩
    have hinvalid : c.assetchainsPrivate = true →
        (c.assetchainsPrivate && !tx.isCoinBase && tx.vout.any (paysOrdinary c tiptime)) =
          true → PrivatePass tiptime tx joinsplits := by
      intro hp hflag
      simp only [hp, Bool.true_and, Bool.and_eq_true, Bool.not_eq_true', any_eq_true] at hflag
      exact hcond hp hflag
    obtain ⟨b, hsapling, hprivate⟩ := (private_checks c).mpr hinvalid
    have hdistinct : ∀ {α : Type} [DecidableEq α] {reason : String} {as : List α},
        as.Nodup → checkDistinct reason [] as = .ok () :=
      fun hnodup => checkDistinct_eq_ok.mpr ⟨hnodup, by simp⟩
    refine ⟨(), h.version, h.inputs, h.outputs, by simpa using h.size, ⟨total, _⟩,
      ⟨h.scanned, rfl⟩, by simpa using h.balanceZero, by simpa using h.acpublic, b, hsapling,
      by simpa using h.balance, ?_, joinsplits, h.joinsplits, hprivate, h.txpow, (),
      h.valueIn, (), hdistinct h.inputsDistinct, (), hdistinct h.sproutDistinct, (),
      hdistinct h.saplingDistinct, h.mint⟩
    by_cases hle : tx.valueBalance ≤ 0
    · simpa [hle] using h.balanceOut hle
    · simp [hle]

/-! ### The rule of private chains -/

/-- The first exception: shielded value leaves into a script hash whose redeem script the second
output reveals. -/
structure SaplingReveal [CryptoHash] (tiptime : Nat) (tx : CTransaction) : Prop where
  season : 5 < getacseason tiptime
  vin : tx.vin = []
  spends : tx.vShieldedSpend ≠ []
  vout : ∃ o r, tx.vout = [o, r] ∧ o.scriptPubKey.isPayToScriptHash = true ∧
    o.scriptPubKey.isRedeemScriptReveal r.scriptPubKey = true

/-- The second exception: before the deadline, JoinSplits that only unshield. -/
structure SproutExit (tiptime : Nat) (tx : CTransaction) : Prop where
  beforeDeadline : tiptime < komodoSaplingDeadline
  vin : tx.vin = []
  spends : tx.vShieldedSpend = []
  joinsplits : tx.vjoinsplit ≠ []
  unshields : ∀ js ∈ tx.vjoinsplit, js.Unshields

theorem saplingReveal_iff [CryptoHash] :
    SaplingReveal tiptime tx ↔ tx.vShieldedSpend ≠ [] ∧ allowedReveal tiptime tx = true := by
  constructor
  · rintro ⟨hseason, hvin, hspends, o, r, hvout, hp2sh, hreveal⟩
    exact ⟨hspends, by simp [allowedReveal, hseason, hvin, hvout, hp2sh, hreveal]⟩
  · rintro ⟨hspends, h⟩
    simp only [allowedReveal, Bool.and_eq_true, decide_eq_true_eq, List.isEmpty_iff] at h
    obtain ⟨⟨hseason, hvin⟩, hvout⟩ := h
    split at hvout
    · rename_i o r heq
      exact ⟨hseason, hvin, hspends, o, r, heq, by simpa using hvout⟩
    · exact absurd hvout (by simp)

theorem ContextFree.privatePass_iff [CryptoHash] {c : ChainParams} {chainTip : Option Nat}
    {total : CAmount} {joinsplits : JoinSplitScan}
    (h : ContextFree c chainTip tiptime tx total joinsplits) :
    PrivatePass tiptime tx joinsplits ↔ SaplingReveal tiptime tx ∨ SproutExit tiptime tx := by
  obtain ⟨hdeadline, hcounts, hunshields⟩ := checkJoinSplits_eq_ok h.joinsplits rfl rfl
  rw [saplingReveal_iff]
  by_cases hspends : tx.vShieldedSpend = []
  · simp only [PrivatePass, hspends, if_true, ne_eq, not_true_eq_false, false_and, false_or]
    constructor
    · rintro ⟨hzt, hzz, htz, hvin⟩
      have hall := hunshields hzz htz
      have hne : tx.vjoinsplit ≠ [] := by
        rintro hnil
        have hlen := (hcounts hall).2.2
        simp only [hnil, length_nil] at hlen
        omega
      exact ⟨hdeadline hne, hvin, hspends, hne, hall⟩
    · rintro ⟨-, hvin, -, hne, hall⟩
      obtain ⟨hzz, htz, hzt⟩ := hcounts hall
      have hpos := length_pos_iff.mpr hne
      exact ⟨by omega, hzz, htz, hvin⟩
  · simp only [PrivatePass, hspends, if_false, ne_eq, not_false_eq_true, true_and]
    exact ⟨.inl, fun hor => hor.resolve_right fun hexit => hspends hexit.spends⟩

/-- **The rule of private chains**: a transaction other than a coinbase pays only notaries, or is an
exception. -/
theorem private_chain_outputs [CryptoHash] {c : ChainParams} {chainTip : Option Nat}
    {tiptime : Nat} {tx : CTransaction} (hprivate : c.assetchainsPrivate = true) :
    checkTransactionWithoutProofVerification c chainTip tiptime tx = .ok () ↔
      checkTransactionWithoutProofVerification c.unprivate chainTip tiptime tx = .ok () ∧
        (tx.isCoinBase = false → (∀ o ∈ tx.vout, 0 < o.nValue →
            komodoIsnotaryvout c (c.scriptAddress o.scriptPubKey) tiptime = true) ∨
          SaplingReveal tiptime tx ∨ SproutExit tiptime tx) := by
  have hnotary : OrdinaryOutput c tiptime tx ↔ tx.isCoinBase = false ∧
      ¬ ∀ o ∈ tx.vout, 0 < o.nValue →
        komodoIsnotaryvout c (c.scriptAddress o.scriptPubKey) tiptime = true := by
    simp [OrdinaryOutput, paysOrdinary]
  simp only [checkTransactionWithoutProofVerification_eq_ok]
  constructor
  · rintro ⟨total, joinsplits, h, hpass⟩
    refine ⟨⟨total, joinsplits, h, by simp⟩, fun hcb => ?_⟩
    by_cases hall : ∀ o ∈ tx.vout, 0 < o.nValue →
        komodoIsnotaryvout c (c.scriptAddress o.scriptPubKey) tiptime = true
    · exact .inl hall
    · exact .inr (h.privatePass_iff.mp (hpass hprivate (hnotary.mpr ⟨hcb, hall⟩)))
  · rintro ⟨⟨total, joinsplits, h, -⟩, hrule⟩
    refine ⟨total, joinsplits, h, fun _ hordinary => h.privatePass_iff.mpr ?_⟩
    obtain ⟨hcb, hnot⟩ := hnotary.mp hordinary
    exact (hrule hcb).resolve_left hnot

section

local instance zeroHash : CryptoHash := ⟨fun _ => 0, fun _ => 0⟩

def privateChain : ChainParams where
  maxMoney := 1000
  assetchainsPrivate := true
  assetchainsPublic := false
  isKMD := false
  isZEX := false
  assetchainsTxpow := 0
  scriptAddress := fun _ => ""
  notaryAddresses := fun _ => []
  serializeSize := fun _ => 100
  verifySprout := fun _ => true
  isBanned := fun _ => false
  isStakingTx := fun _ _ => false

def unshieldingTx : CTransaction where
  hash := 1
  nVersion := 2
  vin := []
  vout := [⟨5, []⟩]
  vjoinsplit := [{ vpubNew := 5, anchor := 0, nullifiers := (1, 2), commitments := (3, 4) }]

def revealingTx : CTransaction where
  hash := 2
  fOverwintered := true
  nVersion := 4
  nVersionGroupId := 0x892F2085
  vin := []
  vout := [⟨5, payToScriptHash 0⟩,
    ⟨0, [0x6a, 0x4c, 0x62] ++ replicate 17 0 ++ [0x75, 0x63, 0x04] ++
      replicate 4 0 ++ [0xb1, 0x75] ++ replicate 34 0 ++ [0xac, 0x67] ++
      replicate 34 0 ++ [0xac, 0x68]⟩]
  valueBalance := 5
  vShieldedSpend := [{ anchor := 0, nullifier := 7, zkproof := [] }]

/-- Both exceptions occur: each transaction is accepted, in its shape. -/
theorem private_chain_outputs_exceptions :
    (checkTransactionWithoutProofVerification privateChain none 0 unshieldingTx = .ok () ∧
        SproutExit 0 unshieldingTx) ∧
      (checkTransactionWithoutProofVerification privateChain none 1660000000 revealingTx =
          .ok () ∧ SaplingReveal 1660000000 revealingTx) := by
  have hunshield :
      checkTransactionWithoutProofVerification privateChain none 0 unshieldingTx = .ok () := by
    decide
  have hreveal : checkTransactionWithoutProofVerification privateChain none 1660000000 revealingTx =
        .ok () := by decide
  refine ⟨⟨hunshield, ?_⟩, hreveal, ?_⟩
  · rcases ((private_chain_outputs rfl).mp hunshield).2 rfl with hall | hsapling | hsprout
    · exact absurd (hall ⟨5, []⟩ mem_cons_self (by decide)) (by decide)
    · exact absurd hsapling.season (by decide)
    · exact hsprout
  · rcases ((private_chain_outputs rfl).mp hreveal).2 rfl with hall | hsapling | hsprout
    · exact absurd (hall _ mem_cons_self (by decide)) (by decide)
    · exact hsapling
    · exact absurd hsprout.spends (by decide)

end

end Elosys
