import Elosys.Primitives
import Elosys.WorkerPool

/-!
# Contextual Transaction Checks

The checks of `main.cpp` that depend on the height, written twice: `ContextualCheckTransaction` for
one transaction, `ContextualCheckTransactionMultithreaded` for those of a block, with spends,
outputs and binding signatures in batches. The verifiers belong to `librustzcash`; what
`rustzcash.rs` does around them is modelled.
-/

open WorkerPool List

namespace Elosys

/-! ### Network upgrades -/

inductive UpgradeIndex where
  | baseSprout
  | upgradeTestdummy
  | upgradeOverwinter
  | upgradeSapling
  | upgradeCanopy
  deriving DecidableEq, Repr

/-- The branch identifiers of `NetworkUpgradeInfo`. -/
def UpgradeIndex.nBranchId : UpgradeIndex → Nat
  | .baseSprout => 0
  | .upgradeTestdummy => 0x74736554
  | .upgradeOverwinter => 0x5ba81b19
  | .upgradeSapling => 0x76b809bb
  | .upgradeCanopy => 0xe9ff75a6

def UpgradeIndex.latestFirst : List UpgradeIndex :=
  [.upgradeCanopy, .upgradeSapling, .upgradeOverwinter, .upgradeTestdummy, .baseSprout]

/-- What contextual checks read of the chain: activation heights, checkpoint heights, and
functions not modelled. `signatureHash` (over the whole transaction) and
`contextualCheckCoinbaseTransaction` may throw. -/
structure ContextualParams where
  nActivationHeight : UpgradeIndex → Int
  fCheckpointsEnabled : Bool := true
  mapCheckpoints : List Nat := []
  assetchainsPrivate : Bool := false
  serializeSize : CTransaction → Nat
  contextualCheckCoinbaseTransaction : CTransaction → Nat → Except Fault Bool
  signatureHash : CTransaction → Nat → Option UInt256
  cryptoSignVerifyDetached : List UInt8 → UInt256 → UInt256 → Bool

namespace ContextualParams

variable (c : ContextualParams)

/-- `NetworkUpgradeActive`; height -1 disables an upgrade. -/
def networkUpgradeActive (nHeight : Nat) (idx : UpgradeIndex) : Bool :=
  c.nActivationHeight idx ≠ -1 && c.nActivationHeight idx ≤ nHeight

def currentEpoch (nHeight : Nat) : UpgradeIndex :=
  (UpgradeIndex.latestFirst.find? (c.networkUpgradeActive nHeight)).getD .baseSprout

def currentEpochBranchId (nHeight : Nat) : Nat := (c.currentEpoch nHeight).nBranchId

def getTotalBlocksEstimate : Nat := c.mapCheckpoints.getLast?.getD 0

/-- No Sapling checks below the hardcoded checkpoints. -/
def skipsSaplingChecks (nHeight : Nat) : Bool :=
  c.fCheckpointsEnabled && nHeight < c.getTotalBlocksEstimate

end ContextualParams

def saplingMinTxVersion : Int := 4

def saplingMaxTxVersion : Int := 4

def overwinterMinTxVersion : Int := 3

def overwinterMaxTxVersion : Int := 3

def saplingVersionGroupId : Nat := 0x892F2085

def overwinterVersionGroupId : Nat := 0x03C48270

def maxTxSizeBeforeSapling : Nat := 100000

/-! ### The Sapling verifiers -/

/-- The Sapling verifier behind `rustzcash.rs`. `spendValid` and `outputValid` check a
description's proof and signature. -/
class Librustzcash where
  ValueCommitment : Type
  SaplingVerificationContext : Type
  new : SaplingVerificationContext
  fromBytesNotSmallOrder : UInt256 → Option ValueCommitment
  addSpendToContext : SaplingVerificationContext → ValueCommitment → SaplingVerificationContext
  addOutputToContext : SaplingVerificationContext → ValueCommitment → SaplingVerificationContext
  spendValid : ValueCommitment → (anchor nullifier rk : UInt256) → GrothProof →
    (spendAuthSig : List UInt8) → (sighash : UInt256) → Bool
  outputValid : ValueCommitment → (cm epk : UInt256) → GrothProof → Bool
  finalCheck : SaplingVerificationContext → CAmount → (bindingSig : List UInt8) →
    (sighash : UInt256) → Bool

namespace Librustzcash

variable [Librustzcash]

/-- `librustzcash_sapling_check_spend`: verdict and context. -/
def saplingCheckSpend (sighash : UInt256) (ctx : SaplingVerificationContext)
    (spend : SpendDescription) : Bool × SaplingVerificationContext :=
  match fromBytesNotSmallOrder spend.cv with
  | none => (false, ctx)
  | some cv =>
    (spendValid cv spend.anchor spend.nullifier spend.rk spend.zkproof spend.spendAuthSig sighash,
      addSpendToContext ctx cv)

variable (ctx : SaplingVerificationContext)

/-- `librustzcash_sapling_check_output`. -/
def saplingCheckOutput (output : OutputDescription) : Bool × SaplingVerificationContext :=
  match fromBytesNotSmallOrder output.cv with
  | none => (false, ctx)
  | some cv =>
    (outputValid cv output.cmu output.ephemeralKey output.zkproof, addOutputToContext ctx cv)

/-- `librustzcash_add_sapling_spend_to_context`. -/
def addSaplingSpendToContext (spend : SpendDescription) : Bool × SaplingVerificationContext :=
  match fromBytesNotSmallOrder spend.cv with
  | none => (false, ctx)
  | some cv => (true, addSpendToContext ctx cv)

/-- `librustzcash_add_sapling_output_to_context`. -/
def addSaplingOutputToContext (output : OutputDescription) : Bool × SaplingVerificationContext :=
  match fromBytesNotSmallOrder output.cv with
  | none => (false, ctx)
  | some cv => (true, addOutputToContext ctx cv)

end Librustzcash

def accumulate {α κ : Type} (check : κ → α → Bool × κ) : κ → List α → Option κ
  | ctx, [] => some ctx
  | ctx, a :: as => if (check ctx a).1 then accumulate check (check ctx a).2 as else none

section Shared

variable (c : ContextualParams)

variable (tx : CTransaction)

def CTransaction.hasSapling : Bool :=
  !tx.vShieldedSpend.isEmpty || !tx.vShieldedOutput.isEmpty

/-- `dataToBeSigned`: null without shielded parts or if coins are created. -/
def dataToBeSigned (nHeight : Nat) : Except Fault UInt256 :=
  if !tx.isMint && (!tx.vjoinsplit.isEmpty || tx.hasSapling) then
    match c.signatureHash tx (c.currentEpochBranchId nHeight) with
    | some h => .ok h
    | none => .error (.reject 100 "error-computing-signature-hash")
  else .ok UInt256.null

def checkJoinSplitSig (dataToBeSigned : UInt256)
    (isInitialBlockDownload : Bool) : Except Fault Unit :=
  rejectIf (!(tx.isMint || tx.vjoinsplit.isEmpty) &&
      !c.cryptoSignVerifyDetached tx.joinSplitSig dataToBeSigned tx.joinSplitPubKey)
    (if isInitialBlockDownload then 0 else 100) "bad-txns-invalid-joinsplit-signature"

def checkCoinbaseTimeLock (nHeight : Nat) : Except Fault Unit :=
  if tx.isCoinBase then do
    let passed ← c.contextualCheckCoinbaseTransaction tx nHeight
    rejectIf (!passed) 100 "bad-txns-invalid-script-data-for-coinbase-time-lock"
  else .ok ()

end Shared

section Sequential

variable (c : ContextualParams) (tx : CTransaction) (nHeight dosLevel : Nat)
  (isInitialBlockDownload : Bool)

/-- The version rules of `ContextualCheckTransaction` from Overwinter on. -/
def checkUpgradeVersion : Except Fault Unit :=
  if c.networkUpgradeActive nHeight .upgradeSapling then do
    rejectIf (saplingMinTxVersion ≤ tx.nVersion && !tx.fOverwintered) dosLevel
      "tx-overwintered-flag-not-set"
    rejectIf (tx.fOverwintered && tx.nVersionGroupId ≠ saplingVersionGroupId)
      (if isInitialBlockDownload then 0 else dosLevel) "bad-sapling-tx-version-group-id"
    rejectIf (tx.fOverwintered && tx.nVersion < saplingMinTxVersion) 100
      "bad-tx-sapling-version-too-low"
    rejectIf (tx.fOverwintered && saplingMaxTxVersion < tx.nVersion) 100
      "bad-tx-sapling-version-too-high"
  else if c.networkUpgradeActive nHeight .upgradeOverwinter then do
    rejectIf (overwinterMinTxVersion ≤ tx.nVersion && !tx.fOverwintered) dosLevel
      "tx-overwinter-flag-not-set"
    rejectIf (tx.fOverwintered && tx.nVersionGroupId ≠ overwinterVersionGroupId)
      (if isInitialBlockDownload then 0 else dosLevel) "bad-overwinter-tx-version-group-id"
    rejectIf (tx.fOverwintered && overwinterMaxTxVersion < tx.nVersion) 100
      "bad-tx-overwinter-version-too-high"
  else .ok ()

/-- `ContextualCheckTransaction` from Overwinter on; a transaction that has just expired does not
count against the peer. -/
def checkOverwinterRules : Except Fault Unit :=
  if c.networkUpgradeActive nHeight .upgradeOverwinter then do
    let ht := c.nActivationHeight .upgradeOverwinter
    rejectIf (!tx.fOverwintered)
      (if c.assetchainsPrivate || ht < 0 || (nHeight : Int) < ht then 0 else dosLevel)
      "tx-overwinter-active"
    rejectIf (isExpiredTx tx nHeight)
      (if isExpiredTx tx (nHeight - 1) then max dosLevel 10 else 0) "tx-overwinter-expired"
  else .ok ()

/-- The Sapling checks of `ContextualCheckTransaction`: spends and outputs are verified while
accumulated, then the binding signature. -/
def checkSapling [Librustzcash] (dataToBeSigned : UInt256) : Except Fault Unit :=
  if tx.hasSapling then
    match accumulate (Librustzcash.saplingCheckSpend dataToBeSigned) Librustzcash.new
        tx.vShieldedSpend with
    | none => .error (.reject 100 "bad-txns-sapling-spend-description-invalid")
    | some ctx =>
      match accumulate Librustzcash.saplingCheckOutput ctx tx.vShieldedOutput with
      | none => .error (.reject 100 "bad-txns-sapling-output-description-invalid")
      | some ctx =>
        rejectIf (!Librustzcash.finalCheck ctx tx.valueBalance tx.bindingSig dataToBeSigned) 100
          "bad-txns-sapling-binding-signature-invalid"
  else .ok ()

def contextualCheckTransaction [Librustzcash] : Except Fault Unit := do
  let ht := c.nActivationHeight .upgradeOverwinter
  rejectIf (!c.networkUpgradeActive nHeight .upgradeOverwinter && tx.fOverwintered)
    (if ht < 0 || (nHeight : Int) < ht then 0 else dosLevel) "tx-overwinter-not-active"
  checkUpgradeVersion c tx nHeight dosLevel isInitialBlockDownload
  checkOverwinterRules c tx nHeight dosLevel
  rejectIf (!c.networkUpgradeActive nHeight .upgradeSapling &&
      maxTxSizeBeforeSapling < c.serializeSize tx) 100 "bad-txns-oversize"
  let dataToBeSigned ← dataToBeSigned c tx nHeight
  checkJoinSplitSig c tx dataToBeSigned isInitialBlockDownload
  checkCoinbaseTimeLock c tx nHeight
  if c.skipsSaplingChecks nHeight then .ok () else checkSapling tx dataToBeSigned

end Sequential

/-! ### The single-threaded part of the parallel check -/

/-- `CheckTransationResults`, without the log text. -/
structure CheckTransationResults where
  validationPassed : Bool := true
  dosLevel : Nat := 0
  reasonString : String := ""
  deriving DecidableEq, Repr

/-- Fill in `txResults` and return it. -/
def CheckTransationResults.failed (dosLevel : Nat) (reasonString : String) :
    CheckTransationResults :=
  ⟨false, dosLevel, reasonString⟩

/-- Return early under a condition, with score and reason. -/
def returnIf (b : Bool) (dosLevel : Nat) (reasonString : String) : Except (Nat × String) Unit :=
  if b then .error (dosLevel, reasonString) else .ok ()

def CheckTransationResults.ofReturns : Except (Nat × String) Unit → CheckTransationResults
  | .error (dosLevel, reasonString) => .failed dosLevel reasonString
  | .ok () => {}

section SingleThreaded

variable (c : ContextualParams) (tx : CTransaction) (nHeight dosLevel : Nat)
  (isInitialBlockDownload : Bool)

def returnUpgradeVersion : Except (Nat × String) Unit :=
  if c.networkUpgradeActive nHeight .upgradeSapling then do
    returnIf (saplingMinTxVersion ≤ tx.nVersion && !tx.fOverwintered) dosLevel
      "tx-overwintered-flag-not-set"
    returnIf (tx.fOverwintered && tx.nVersionGroupId ≠ saplingVersionGroupId)
      (if isInitialBlockDownload then 0 else dosLevel) "bad-sapling-tx-version-group-id"
    returnIf (tx.fOverwintered && tx.nVersion < saplingMinTxVersion) 100
      "bad-tx-sapling-version-too-low"
    returnIf (tx.fOverwintered && saplingMaxTxVersion < tx.nVersion) 100
      "bad-tx-sapling-version-too-high"
  else if c.networkUpgradeActive nHeight .upgradeOverwinter then do
    returnIf (overwinterMinTxVersion ≤ tx.nVersion && !tx.fOverwintered) dosLevel
      "tx-overwinter-flag-not-set"
    returnIf (tx.fOverwintered && tx.nVersionGroupId ≠ overwinterVersionGroupId)
      (if isInitialBlockDownload then 0 else dosLevel) "bad-overwinter-tx-version-group-id"
    returnIf (tx.fOverwintered && overwinterMaxTxVersion < tx.nVersion) 100
      "bad-tx-overwinter-version-too-high"
  else .ok ()

/-- `ContextualCheckTransactionSingleThreaded` from Overwinter on. The ban score of an expired
transaction is computed, but 100 returned. -/
def returnOverwinterRules : Except (Nat × String) Unit :=
  if c.networkUpgradeActive nHeight .upgradeOverwinter then do
    let ht := c.nActivationHeight .upgradeOverwinter
    returnIf (!tx.fOverwintered)
      (if c.assetchainsPrivate || ht < 0 || (nHeight : Int) < ht then 0 else dosLevel)
      "tx-overwinter-active"
    returnIf (isExpiredTx tx nHeight) 100 "tx-overwinter-expired"
  else .ok ()

def contextualCheckTransactionSingleThreaded : CheckTransationResults :=
  .ofReturns do
    let ht := c.nActivationHeight .upgradeOverwinter
    returnIf (!c.networkUpgradeActive nHeight .upgradeOverwinter && tx.fOverwintered)
      (if ht < 0 || (nHeight : Int) < ht then 0 else dosLevel) "tx-overwinter-not-active"
    returnUpgradeVersion c tx nHeight dosLevel isInitialBlockDownload
    returnOverwinterRules c tx nHeight dosLevel
    returnIf (!c.networkUpgradeActive nHeight .upgradeSapling &&
        maxTxSizeBeforeSapling < c.serializeSize tx) 100 "bad-txns-oversize"

end SingleThreaded

/-! ### Workers -/

/-- A worker's loop over its items, up to the first failure. -/
def checkEach {α : Type} (check : α → CheckTransationResults) : List α → CheckTransationResults
  | [] => {}
  | a :: as => if (check a).validationPassed then checkEach check as else check a

/-- Two vectors' items by index. -/
def pairUp {α : Type} (as : List α) (sigs : List UInt256) : List (α × UInt256) :=
  as.zipIdx.map fun p => (p.1, sigs.getD p.2 UInt256.null)

section Workers

variable [Librustzcash]

/-- The loop body of `ContextualCheckTransactionBindingSigWorker`: commitments are accumulated
without verifying descriptions. -/
def checkBindingSig (p : CTransaction × UInt256) : CheckTransationResults :=
  if p.1.hasSapling then
    match accumulate Librustzcash.addSaplingSpendToContext Librustzcash.new
        p.1.vShieldedSpend with
    | none => .failed 100 "bad-txns-sapling-spend-description-invalid"
    | some ctx =>
      match accumulate Librustzcash.addSaplingOutputToContext ctx p.1.vShieldedOutput with
      | none => .failed 100 "bad-txns-sapling-spend-description-invalid"
      | some ctx =>
        if Librustzcash.finalCheck ctx p.1.valueBalance p.1.bindingSig p.2 then {}
        else .failed 100 "bad-txns-sapling-binding-signature-invalid"
  else {}

/-- The body of `ContextualCheckTransactionSaplingSpendWorker`, a context per spend. -/
def checkSaplingSpend (p : SpendDescription × UInt256) : CheckTransationResults :=
  if (Librustzcash.saplingCheckSpend p.2 Librustzcash.new p.1).1 then {}
  else .failed 100 "bad-txns-sapling-spend-description-invalid"

def checkSaplingOutput (output : OutputDescription) : CheckTransationResults :=
  if (Librustzcash.saplingCheckOutput Librustzcash.new output).1 then {}
  else .failed 100 "bad-txns-sapling-output-description-invalid"

/-- The calls that are passed to `std::async`. -/
inductive CheckWorker where
  | bindingSig (vtx : List CTransaction) (vTxSig : List UInt256)
  | saplingSpend (vSpend : List SpendDescription) (vSpendSig : List UInt256)
  | saplingOutput (vOutput : List OutputDescription)

/-- `ContextualCheckTransactionBindingSigWorker`,
`ContextualCheckTransactionSaplingSpendWorker` and
`ContextualCheckTransactionSaplingOutputWorker`. -/
def CheckWorker.run : CheckWorker → CheckTransationResults
  | .bindingSig vtx vTxSig => checkEach checkBindingSig (pairUp vtx vTxSig)
  | .saplingSpend vSpend vSpendSig => checkEach checkSaplingSpend (pairUp vSpend vSpendSig)
  | .saplingOutput vOutput => checkEach checkSaplingOutput vOutput

end Workers

/-! ### The batches -/

/-- The vectors of batches and their cursors. -/
structure CheckBatches where
  vvtx : List (List CTransaction)
  vvTxSig : List (List UInt256)
  vvSpend : List (List SpendDescription)
  vvSpendSig : List (List UInt256)
  vvOutput : List (List OutputDescription)
  t : Nat := 0
  s : Nat := 0
  o : Nat := 0

namespace CheckBatches

def create (maxProcessingThreads : Nat) : CheckBatches where
  vvtx := replicate maxProcessingThreads []
  vvTxSig := replicate maxProcessingThreads []
  vvSpend := replicate maxProcessingThreads []
  vvSpendSig := replicate maxProcessingThreads []
  vvOutput := replicate maxProcessingThreads []

variable (b : CheckBatches)

def pushTx (tx : CTransaction) (dataToBeSigned : UInt256) : CheckBatches :=
  { b with
    vvtx := pushAt b.t tx b.vvtx
    vvTxSig := pushAt b.t dataToBeSigned b.vvTxSig
    t := advance b.t b.vvtx.length }

def pushSpend (dataToBeSigned : UInt256) (b : CheckBatches) (spend : SpendDescription) :
    CheckBatches :=
  { b with
    vvSpend := pushAt b.s spend b.vvSpend
    vvSpendSig := pushAt b.s dataToBeSigned b.vvSpendSig
    s := advance b.s b.vvSpend.length }

def pushOutput (output : OutputDescription) : CheckBatches :=
  { b with
    vvOutput := pushAt b.o output b.vvOutput
    o := advance b.o b.vvOutput.length }

def pushSapling (tx : CTransaction) (dataToBeSigned : UInt256) : CheckBatches :=
  if tx.hasSapling then
    tx.vShieldedOutput.foldl pushOutput
      (tx.vShieldedSpend.foldl (pushSpend dataToBeSigned) (b.pushTx tx dataToBeSigned))
  else b

def workers : List CheckWorker :=
  ((b.vvtx.zipIdx.filter fun p => !p.1.isEmpty).map fun p =>
      .bindingSig p.1 (b.vvTxSig.getD p.2 [])) ++
    ((b.vvSpend.zipIdx.filter fun p => !p.1.isEmpty).map fun p =>
      .saplingSpend p.1 (b.vvSpendSig.getD p.2 [])) ++
    (b.vvOutput.filter fun vOutput => !vOutput.isEmpty).map .saplingOutput

end CheckBatches

section Multithreaded

variable (c : ContextualParams) (nHeight dosLevel : Nat) (isInitialBlockDownload : Bool)

def checkAndPush (b : CheckBatches) (tx : CTransaction) : Except Fault CheckBatches := do
  checkCoinbaseTimeLock c tx nHeight
  let dataToBeSigned ← dataToBeSigned c tx nHeight
  checkJoinSplitSig c tx dataToBeSigned isInitialBlockDownload
  let singleResults :=
    contextualCheckTransactionSingleThreaded c tx nHeight dosLevel isInitialBlockDownload
  rejectIf (!singleResults.validationPassed) singleResults.dosLevel singleResults.reasonString
  .ok (if c.skipsSaplingChecks nHeight then b else b.pushSapling tx dataToBeSigned)

def pushBatches (maxProcessingThreads : Nat) (vptx : List CTransaction) :
    Except Fault CheckBatches :=
  vptx.foldlM (checkAndPush c nHeight dosLevel isInitialBlockDownload)
    (.create maxProcessingThreads)

/-- The body that collects results: the highest ban score, with its first result. -/
def collectResult (acc : Bool × CheckTransationResults) (result : CheckTransationResults) :
    Bool × CheckTransationResults :=
  if result.validationPassed then acc
  else (false, if acc.2.validationPassed || acc.2.dosLevel < result.dosLevel then result else acc.2)

/-- `ContextualCheckTransactionMultithreaded`, with its order of completion. -/
def contextualCheckTransactionMultithreaded [Librustzcash] (maxProcessingThreads : Nat)
    (σ : Schedule) (vptx : List CTransaction) : Except Fault Unit := do
  let b ← pushBatches c nHeight dosLevel isInitialBlockDownload maxProcessingThreads vptx
  match awaitAll (complete CheckWorker.run b.workers (σ.order b.workers.length)) with
  | none => .error (.exception "future not ready")
  | some results =>
    let collected := results.foldl collectResult (true, {})
    rejectIf (!collected.1) collected.2.dosLevel collected.2.reasonString

end Multithreaded

end Elosys
