import Elosys.CheckTransaction
import Elosys.ViewProgram

/-!
# Connecting a Block

`UpdateCoins`, `CheckTxInputs`, `ContextualCheckInputs`, `CheckBlock` and `ConnectBlock` of
`main.cpp`, as programs over a coins view. `ConnectBlock` is as `ConnectTip` calls it: with the
proof of work checked, and not merely for checking. What they read besides the view is in
`ConsensusParams`.
-/

open Program

namespace Elosys

open ViewProg

/-- A block, with its identifier. -/
structure CBlock where
  hash : UInt256
  nTime : Nat
  hashFinalSaplingRoot : UInt256
  vtx : List CTransaction

/-- A block's index entry, with its predecessor. -/
structure CBlockIndex where
  hash : UInt256
  nHeight : Nat
  nTime : Nat
  hashFinalSaplingRoot : UInt256
  pprev : Option CBlockIndex

/-- The globals and outside code of block processing. `checkBlockHeader` is what `CheckBlock` does
before the transactions, `blockHeight` is `mapBlockIndex`, `komodoConnectblock` the scan for
notarisations, `verifyScript` is `CScriptCheck` with all or the mandatory flags. -/
structure ConsensusParams extends ChainParams where
  hashGenesisBlock : UInt256
  chainTipTime : Option Nat
  chainTipHeight : Nat
  blockHeight : UInt256 → Nat
  expensiveChecks : CBlockIndex → Bool
  checkBlockHeader : CBlockIndex → CBlock → Except Fault Unit
  contextualCheckBlock : CBlockIndex → CBlock → Bool
  maxBlockSize : Nat → Nat
  blockSize : CBlock → Nat
  maxBlockSigops : Nat
  legacySigOps : CTransaction → Nat
  p2shSigOps : CTransaction → List CTxOut → Nat
  checkDeposit : Nat → CBlock → Bool
  saplingActive : Nat → Bool
  getBlockSubsidy : Nat → CAmount
  notaryPay : Bool
  komodoConnectblock : CBlockIndex → CBlock → Int
  komodoChecknotarypay : CBlock → Nat → UInt64
  assetchainsStaked : Bool
  slowCheckPOW : CAmount → CBlock → Nat → Bool
  commission : Bool
  komodoCommission : CBlock → Nat → UInt64
  komodoExtrasatoshi : CAmount
  accruedInterest : COutPoint → CAmount → Nat → CAmount
  coinImportValue : CTransaction → CAmount
  verifyCoinImport : CTransaction → Except Fault Unit
  timelockGte : UInt64
  unlockTime : Nat → Nat
  coinbaseMaturity : Nat
  coinbaseMustBeProtected : Bool
  verifyScript : Bool → CTransaction → Nat → CCoins → Bool

/-- `CTxInUndo`: a spent output, with metadata if it was the last. -/
structure CTxInUndo where
  txout : CTxOut
  fCoinBase : Bool := false
  nHeight : Nat := 0
  nVersion : Int := 0
  deriving DecidableEq

structure CTxUndo where
  vprevout : List CTxInUndo := []
  deriving DecidableEq

/-- `CBlockUndo`: the undo data, coinbase apart. -/
structure CBlockUndo where
  vtxundo : List CTxUndo
  oldSproutTreeRoot : UInt256
  deriving DecidableEq

section

variable [NoteTrees]

/-! ### The effect of a transaction -/

/-- A spend's undo record: metadata only when nothing is left of the coins. -/
def CTxInUndo.ofSpend (coins : CCoins) (n : Nat) : CTxInUndo :=
  if (coins.spend n).2.vout = [] then
    ⟨coins.outputAt n, coins.fCoinBase, coins.nHeight, coins.nVersion⟩
  else ⟨coins.outputAt n, false, 0, 0⟩

/-- The body of the input loop of `UpdateCoins`. -/
def spendInput (i : CTxIn) : ViewProg CTxInUndo := do
  let coins ← modifyCoins i.prevout.hash fun c => (c.spend i.prevout.n).2
  assertThat (coins.isAvailable i.prevout.n) "UpdateCoins: false"
  return .ofSpend coins i.prevout.n

/-- The marker that `AddImportTombstone` adds. -/
def tombstone : CTxOut := ⟨0, [0x00]⟩

variable (tx : CTransaction) (nHeight : Nat)

/-- `AddImportTombstone`: an output added to whatever is there. -/
def addImportTombstone (c : CCoins) : CCoins :=
  { c with nHeight := nHeight, nVersion := 4, vout := c.vout ++ [tombstone] }

/-- The burn transaction a coin import redeems. -/
def CTransaction.burnTxid : UInt256 :=
  (tx.vin.head?.map fun i => i.prevout.hash).getD UInt256.null

/-- A transaction's inputs marked spent, unless it mints. -/
def spendInputs : ViewProg (List CTxInUndo) :=
  if tx.isMint then pure [] else tx.vin.mapM spendInput

/-- The tombstone for a coin import's burn. -/
def markImport : ViewProg Unit :=
  if tx.isCoinImport then do
    let _ ← modifyCoins tx.burnTxid (addImportTombstone nHeight)
    return ()
  else pure ()

def updateCoins : ViewProg CTxUndo := do
  let vprevout ← spendInputs tx
  setNullifiers tx true
  setZkProofHashes tx true
  let _ ← modifyCoins tx.hash fun _ => .fromTx tx nHeight
  markImport tx nHeight
  return ⟨vprevout⟩

/-! ### Checking the inputs -/

variable (c : ConsensusParams)

def coin : CAmount := 100000000

/-- The interest of a main-chain input at a height. -/
def inputInterest (height : Nat) (i : CTxIn) (value : CAmount) : CAmount :=
  if c.isKMD && 60000 ≤ height && 10 * coin ≤ value then
    c.accruedInterest i.prevout value height
  else 0

def transparentValueIn : CAmount × CAmount → List CTxIn → ViewProg (CAmount × CAmount)
  | total, [] => pure total
  | (value, interest), i :: is => do
    let o ← getOutputFor i
    let extra := inputInterest c c.chainTipHeight i o.nValue
    transparentValueIn (value + o.nValue + extra, interest + extra) is

def getValueIn (tx : CTransaction) : ViewProg (CAmount × CAmount) :=
  if tx.isCoinImport then pure (c.coinImportValue tx, 0)
  else if tx.isCoinBase then pure (0, 0)
  else do
    let (value, interest) ← transparentValueIn c (0, 0) tx.vin
    let shielded ← tx.getShieldedValueIn c.maxMoney
    return (value + shielded, interest)

/-- What `CheckTxInputs` asks of spent coinbase coins. -/
def checkCoinbaseSpend (tx : CTransaction) (nSpendHeight : Nat) (coins : CCoins) :
    Except Fault Unit :=
  if coins.fCoinBase then do
    rejectIf (c.timelockGte ≤ coins.totalTxValue.toUInt64 &&
      nSpendHeight < c.unlockTime coins.nHeight) 10 "bad-txns-premature-spend-of-coinbase"
    -- the difference is compared as an unsigned integer
    rejectIf (((nSpendHeight : Int) - coins.nHeight) % 2 ^ 32 < c.coinbaseMaturity) 0
      "bad-txns-premature-spend-of-coinbase"
    rejectIf (c.coinbaseMustBeProtected && !tx.vout.isEmpty) 100
      "bad-txns-coinbase-spend-has-transparent-outputs"
  else .ok ()

/-- The input loop of `CheckTxInputs`. -/
def checkInputValues (tx : CTransaction) (nSpendHeight : Nat) :
    CAmount → List CTxIn → ViewProg CAmount
  | nValueIn, [] => pure nValueIn
  | nValueIn, i :: is => do
    let coins ← assertSome "CheckTxInputs: coins" (← getCoins i.prevout.hash)
    checkCoinbaseSpend c tx nSpendHeight coins
    let value := (coins.outputAt i.prevout.n).nValue
    let total := nValueIn + value + inputInterest c (nSpendHeight - 1) i value
    rejectIf (!moneyRange c.maxMoney value || !moneyRange c.maxMoney total) 100
      "bad-txns-inputvalues-outofrange"
    checkInputValues tx nSpendHeight total is

/-- `Consensus::CheckTxInputs`; duplicate proofs are looked up, but only logged. -/
def checkTxInputs [CryptoHash] (tx : CTransaction) (nSpendHeight : Nat) : ViewProg Unit := do
  rejectIf (!(← haveInputs tx)) 0 ""
  rejectIf (!(← haveJoinSplitRequirements tx)) 0 ""
  let _ ← haveJoinSplitRequirementsDuplicateProofs tx
  let nValueIn ← checkInputValues c tx nSpendHeight 0 tx.vin
  let shielded ← tx.getShieldedValueIn c.maxMoney
  let nValueIn := nValueIn + shielded
  rejectIf (!moneyRange c.maxMoney nValueIn) 100 "bad-txns-inputvalues-outofrange"
  let valueOut ← tx.getValueOut c.maxMoney
  rejectIf (nValueIn < valueOut) 100 "bad-txns-in-belowout"
  rejectIf (nValueIn - valueOut < 0) 100 "bad-txns-fee-negative"
  rejectIf (!moneyRange c.maxMoney (nValueIn - valueOut)) 100 "bad-txns-fee-outofrange"

/-- The script checks of `ContextualCheckInputs`, at once. -/
def checkScripts (tx : CTransaction) : Nat → List CTxIn → ViewProg Unit
  | _, [] => pure ()
  | n, i :: is => do
    let coins ← assertSome "ContextualCheckInputs: coins" (← getCoins i.prevout.hash)
    rejectIf (!c.verifyScript true tx n coins && c.verifyScript false tx n coins) 0
      "non-mandatory-script-verify-flag"
    rejectIf (!c.verifyScript true tx n coins) 100 "mandatory-script-verify-flag-failed"
    checkScripts tx (n + 1) is

/-- `ContextualCheckInputs`, with `GetSpendHeight`; of transactions that mint it only looks at
coin imports. -/
def contextualCheckInputs [CryptoHash] (fScriptChecks : Bool) (tx : CTransaction) :
    ViewProg Unit :=
  if !tx.isMint then do
    let best ← getBestBlock
    checkTxInputs c tx (c.blockHeight best + 1)
    checkScripts c tx 0 (if fScriptChecks then tx.vin else [])
  else if tx.isCoinImport then liftM (c.verifyCoinImport tx)
  else pure ()

/-! ### Blocks -/

/-- The transaction loop of `CheckBlock`. -/
def checkTransactions [CryptoHash] (params : ChainParams) (tiptime numTxs : Nat) :
    Nat → List CTransaction → Except Fault Unit
  | _, [] => .ok ()
  | i, tx :: txs => do
    checkTransaction params c.chainTipTime tiptime i numTxs tx
    checkTransactions params tiptime numTxs (i + 1) txs

/-- `CheckBlock` with proof of work; the Sprout verifier may be disabled. -/
def checkBlock [CryptoHash] (pindex : CBlockIndex) (block : CBlock) : Except Fault Unit := do
  c.checkBlockHeader pindex block
  let tiptime := (pindex.pprev.map CBlockIndex.nTime).getD block.nTime
  let size := c.maxBlockSize pindex.nHeight
  rejectIf (block.vtx.isEmpty || size < block.vtx.length || size < c.blockSize block) 100
    "bad-blk-length"
  rejectIf (!block.vtx.head?.any CTransaction.isCoinBase) 100 "bad-cb-missing"
  rejectIf (block.vtx.tail.any CTransaction.isCoinBase) 100 "bad-cb-multiple"
  let params :=
    if c.expensiveChecks pindex then c.toChainParams
    else { c.toChainParams with verifySprout := fun _ => true }
  checkTransactions c params tiptime block.vtx.length 0 block.vtx
  rejectIf (c.maxBlockSigops < (block.vtx.map c.legacySigOps).sum) 100 "bad-blk-sigops"
  rejectIf (!c.checkDeposit pindex.nHeight block) 0 ""

/-- The notary pay in the block reward. -/
def notaryPaycheque (pindex : CBlockIndex) (block : CBlock) : Except Fault UInt64 :=
  if c.notaryPay && 10 < pindex.nHeight then
    let notarisationTx := c.komodoConnectblock pindex block
    if notarisationTx = -1 then .error (.reject 100 "bad-notarization-position")
    else if notarisationTx = 1 then do
      rejectIf (block.vtx.head?.any fun tx => tx.vout.length == 1) 100 "bad-cb-amount"
      let cheque := c.komodoChecknotarypay block pindex.nHeight
      rejectIf (cheque = 0) 100 "bad-cb-amount"
      return cheque
    else .ok 0
  else .ok 0

/-- No transaction overwrites one not fully spent. -/
def checkOverwrites : List CTransaction → ViewProg Unit
  | [] => pure ()
  | tx :: txs => do
    let coins ← getCoins tx.hash
    rejectIf (coins.any fun c => !c.isPruned) 100 "bad-txns-BIP30"
    checkOverwrites txs

/-- Carried by the transaction loop of `ConnectBlock`. -/
structure ConnectState where
  nSigOps : Nat := 0
  nFees : CAmount := 0
  sum : CAmount := 0
  stakeTxValue : CAmount := 0
  sproutTree : Tree .sprout
  saplingTree : Tree .sapling
  frontierTree : Tree .saplingFrontier
  vtxundo : List CTxUndo := []

/-- What `ConnectBlock` asks of inputs before values; gives the signature operations with those of
spent scripts. -/
def checkSpends [CryptoHash] (nSigOps : Nat) (tx : CTransaction) : ViewProg Nat :=
  if tx.isMint then pure nSigOps
  else do
    rejectIf (!(← haveInputs tx)) 100 "bad-txns-inputs-missingorspent"
    rejectIf (!(← haveJoinSplitRequirements tx)) 100
      "bad-txns-joinsplit-requirements-not-met"
    let _ ← haveJoinSplitRequirementsDuplicateProofs tx
    let outs ← tx.vin.mapM getOutputFor
    let nSigOps := nSigOps + c.p2shSigOps tx outs
    rejectIf (c.maxBlockSigops < nSigOps) 100 "bad-blk-sigops"
    return nSigOps

def komodoValuetoobig (value : CAmount) : Bool :=
  10000000001 * coin.toUInt64 < value.toUInt64

/-- The fee accounting of the transaction loop, with the checks of the inputs. -/
def connectFees [CryptoHash] (pindex : CBlockIndex) (st : ConnectState) (tx : CTransaction)
    (valueout : CAmount) : ViewProg ConnectState :=
  if tx.isCoinBase then pure st
  else do
    let (valueIn, interest) ← getValueIn c tx
    contextualCheckInputs c (c.expensiveChecks pindex) tx
    return { st with
      nFees := st.nFees + (valueIn - valueout)
      stakeTxValue := valueIn - valueout
      sum := st.sum + interest }

/-- A transaction's commitments, appended to the three trees. -/
def appendNotes (st : ConnectState) (tx : CTransaction) : Except Fault ConnectState := do
  let sproutTree ←
    appendAll st.sproutTree (tx.vjoinsplit.flatMap JSDescription.commitmentList)
  let saplingTree ← appendAll st.saplingTree (tx.vShieldedOutput.map OutputDescription.cmu)
  let frontierTree ←
    appendAll st.frontierTree (tx.vShieldedOutput.map OutputDescription.cmu)
  return { st with sproutTree, saplingTree, frontierTree }

/-- The body of the transaction loop of `ConnectBlock`. -/
def connectTx [CryptoHash] (pindex : CBlockIndex) (i : Nat) (st : ConnectState)
    (tx : CTransaction) : ViewProg ConnectState := do
  let nSigOps := st.nSigOps + c.legacySigOps tx
  rejectIf (c.maxBlockSigops < nSigOps) 100 "bad-blk-sigops"
  let nSigOps ← checkSpends c nSigOps tx
  let valueout ← tx.getValueOut c.maxMoney
  rejectIf (komodoValuetoobig valueout) 100 "tx valueout is too big"
  let st ← connectFees c pindex { st with nSigOps } tx valueout
  let undo ← updateCoins tx pindex.nHeight
  -- the coinbase has no undo data
  let st := { st with vtxundo := if i = 0 then st.vtxundo else st.vtxundo ++ [undo] }
  appendNotes st tx

/-- The transaction loop of `ConnectBlock`. -/
def connectTxs [CryptoHash] (pindex : CBlockIndex) :
    Nat → ConnectState → List CTransaction → ViewProg ConnectState
  | _, st, [] => pure st
  | i, st, tx :: txs => do
    let st ← connectTx c pindex i st tx
    connectTxs pindex (i + 1) st txs

/-- The trees at the view's tip, and the Sprout root before. -/
def readTrees : ViewProg (UInt256 × ConnectState) := do
  let oldSproutTreeRoot ← getBestAnchor .sprout
  let sproutTree ← assertSome "ConnectBlock: view.GetSproutAnchorAt(old_sprout_tree_root)"
    (← getAnchorAt .sprout oldSproutTreeRoot)
  assertThat (root sproutTree = oldSproutTreeRoot)
    "ConnectBlock: sprout_tree.root() == old_sprout_tree_root"
  let saplingTree ← assertSome "ConnectBlock: view.GetSaplingAnchorAt"
    (← getAnchorAt .sapling (← getBestAnchor .sapling))
  let frontierTree ← assertSome "ConnectBlock: view.GetSaplingFrontierAnchorAt"
    (← getAnchorAt .saplingFrontier (← getBestAnchor .saplingFrontier))
  return (oldSproutTreeRoot, { sproutTree, saplingTree, frontierTree })

def komodoNotariesHeight1 : Nat := 814000

def komodoNotariesHeight2 : Nat := 2588672

section

variable (pindex : CBlockIndex) (block : CBlock)

/-- The commission that `ConnectBlock` grants: what the coinbase's second output pays. -/
def grantedCommission : UInt64 :=
  if c.commission then
    let checktoshis := c.komodoCommission block pindex.nHeight
    let paid := (block.vtx.head?.bind fun tx => tx.vout[1]?).map fun o => o.nValue.toUInt64
    if paid = some checktoshis then checktoshis else 0
  else 0

def blockReward (notarypaycheque : UInt64) (nFees sum : CAmount) : CAmount :=
  let reward := c.getBlockSubsidy pindex.nHeight + notarypaycheque.toInt64 + (nFees + sum)
  let reward :=
    if c.isKMD && komodoNotariesHeight2 ≤ pindex.nHeight then reward - sum else reward
  reward + (grantedCommission c pindex block).toInt64

def checkReward (reward : CAmount) : Except Fault Unit := do
  let coinbase ← assertSome "ConnectBlock: block.vtx[0]" block.vtx.head?
  let valueOut ← coinbase.getValueOut c.maxMoney
  rejectIf (!c.isKMD && pindex.nHeight = 1 && valueOut ≠ reward) 100 "bad-cb-amount"
  rejectIf (reward + c.komodoExtrasatoshi < valueOut &&
      (!c.isKMD || komodoNotariesHeight1 ≤ pindex.nHeight ||
        coinbase.vout.head?.any fun o => reward < o.nValue)) 100 "bad-cb-amount"

/-- `ConnectBlock` on the trees after the last transaction. -/
def checkSaplingRoot (st : ConnectState) : Except Fault Unit :=
  rejectIf (c.saplingActive pindex.nHeight &&
      (block.hashFinalSaplingRoot ≠ root st.saplingTree ||
        block.hashFinalSaplingRoot ≠ root st.frontierTree)) 100 "bad-sapling-root-in-block"

end

/-- The part of `ConnectBlock` that connects and pays for transactions; gives the undo data. -/
def connectTransactions [CryptoHash] (pindex : CBlockIndex) (block : CBlock)
    (notarypaycheque : UInt64) : ViewProg CBlockUndo := do
  checkOverwrites block.vtx
  let (oldSproutTreeRoot, st) ← readTrees
  let st ← connectTxs c pindex 0 st block.vtx
  rejectIf (c.assetchainsStaked && !c.slowCheckPOW
    (c.getBlockSubsidy pindex.nHeight + notarypaycheque.toInt64 + st.stakeTxValue -
      notarypaycheque.toInt64) block pindex.nHeight) 100 "failed-slow_checkPOW"
  pushAnchor .sprout st.sproutTree
  pushAnchor .sapling st.saplingTree
  pushAnchor .saplingFrontier st.frontierTree
  checkSaplingRoot c pindex block st
  checkReward c pindex block (blockReward c pindex block notarypaycheque st.nFees st.sum)
  setBestBlock pindex.hash
  return ⟨st.vtxundo, oldSproutTreeRoot⟩

/-- `ConnectBlock`; the transactions of the genesis block are not connected, and it has no
undo data. -/
def connectBlock [CryptoHash] (pindex : CBlockIndex) (block : CBlock) :
    ViewProg (Option CBlockUndo) := do
  checkBlock c pindex block
  rejectIf (!c.contextualCheckBlock pindex block && 1547510400 < pindex.nTime) 0 ""
  let notarypaycheque ← notaryPaycheque c pindex block
  let hashPrevBlock := (pindex.pprev.map CBlockIndex.hash).getD UInt256.null
  rejectIf (hashPrevBlock ≠ (← getBestBlock)) 1 "hashPrevBlock-not-bestblock"
  if block.hash = c.hashGenesisBlock then
    setBestBlock pindex.hash
    return none
  else
    let undo ← connectTransactions c pindex block notarypaycheque
    return some undo

/-! ### Which parts of the view are worked on -/

theorem uses_spendInputs : (spendInputs tx).Uses (ViewOp.On .coins) := by
  have hspend : ∀ i, (spendInput i).Uses (ViewOp.On .coins) :=
    fun i => uses_bind (uses_op (S := viewSig) rfl) fun _ =>
      uses_lift_bind fun _ => uses_pure
  unfold spendInputs
  split
  · exact uses_pure
  · exact uses_mapM hspend _

theorem uses_markImport : (markImport tx nHeight).Uses (ViewOp.On .coins) := by
  unfold markImport
  split
  · exact uses_bind (uses_op (S := viewSig) rfl) fun _ => uses_pure
  · exact uses_pure

theorem uses_transparentValueIn (is : List CTxIn) :
    ∀ total, (transparentValueIn c total is).Uses ViewOp.PlainRead := by
  induction is with
  | nil => exact fun _ => uses_pure
  | cons i is ih => exact fun _ => uses_bind (uses_getOutputFor i) fun _ => ih _

theorem uses_getValueIn (tx : CTransaction) : (getValueIn c tx).Uses ViewOp.PlainRead := by
  unfold getValueIn
  split
  · exact uses_pure
  · split
    · exact uses_pure
    · exact uses_bind (uses_transparentValueIn c _ _) fun _ =>
        uses_lift_bind fun _ => uses_pure

theorem uses_checkInputValues (tx : CTransaction) (nSpendHeight : Nat) (is : List CTxIn) :
    ∀ total, (checkInputValues c tx nSpendHeight total is).Uses ViewOp.PlainRead := by
  induction is with
  | nil => exact fun _ => uses_pure
  | cons i is ih =>
    exact fun _ => uses_bind (uses_op (S := viewSig) trivial) fun _ =>
      uses_lift_bind fun _ => uses_lift_bind fun _ =>
        uses_lift_bind fun _ => ih _

theorem uses_checkScripts (tx : CTransaction) (is : List CTxIn) :
    ∀ n, (checkScripts c tx n is).Uses ViewOp.PlainRead := by
  induction is with
  | nil => exact fun _ => uses_pure
  | cons i is ih =>
    exact fun _ => uses_bind (uses_op (S := viewSig) trivial) fun _ =>
      uses_lift_bind fun _ => uses_lift_bind fun _ =>
        uses_lift_bind fun _ => ih _

theorem uses_checkOverwrites (txs : List CTransaction) :
    (checkOverwrites txs).Uses ViewOp.PlainRead := by
  induction txs with
  | nil => exact uses_pure
  | cons tx txs ih =>
    exact uses_bind (uses_op (S := viewSig) trivial) fun _ =>
      uses_lift_bind fun _ => ih

theorem uses_readTrees : readTrees.Uses ViewOp.PlainRead := by
  have hread : ∀ t rt, (getAnchorAt t rt).Uses ViewOp.PlainRead :=
    fun t rt => uses_op (S := viewSig) trivial
  have hbest : ∀ t, (getBestAnchor t).Uses ViewOp.PlainRead :=
    fun t => uses_op (S := viewSig) trivial
  exact uses_bind (hbest _) fun _ => uses_bind (hread _ _) fun _ =>
    uses_lift_bind fun _ => uses_lift_bind fun _ =>
      uses_bind (hbest _) fun _ => uses_bind (hread _ _) fun _ =>
        uses_lift_bind fun _ => uses_bind (hbest _) fun _ =>
          uses_bind (hread _ _) fun _ => uses_lift_bind fun _ => uses_pure

theorem uses_read_of_plain {α : Type} {p : ViewProg α} (h : p.Uses ViewOp.PlainRead) :
    p.Uses ViewOp.IsRead :=
  Prog.Uses.mono (fun _ => .inl) h

section

variable [CryptoHash]

theorem uses_checkTxInputs (tx : CTransaction) (nSpendHeight : Nat) :
    (checkTxInputs c tx nSpendHeight).Uses ViewOp.IsRead :=
  uses_bind (uses_read_of_plain (uses_haveInputs tx)) fun _ =>
    uses_lift_bind fun _ =>
      uses_bind (uses_read_of_plain (uses_haveJoinSplitRequirements tx)) fun _ =>
        uses_lift_bind fun _ =>
          uses_bind (uses_haveJoinSplitRequirementsDuplicateProofs tx) fun _ =>
            uses_bind
                (uses_read_of_plain (uses_checkInputValues c tx nSpendHeight tx.vin _)) fun _ =>
              uses_lift_bind fun _ => uses_lift_bind fun _ =>
                uses_lift_bind fun _ => uses_lift_bind fun _ =>
                  uses_lift_bind fun _ => uses_lift _

theorem uses_contextualCheckInputs (fScriptChecks : Bool) (tx : CTransaction) :
    (contextualCheckInputs c fScriptChecks tx).Uses ViewOp.IsRead := by
  unfold contextualCheckInputs
  split
  · exact uses_bind (uses_op (S := viewSig) (.inl trivial)) fun _ =>
      uses_bind (uses_checkTxInputs c tx _) fun _ =>
        uses_read_of_plain (uses_checkScripts c tx _ _)
  · split
    · exact uses_lift _
    · exact uses_pure

theorem uses_checkSpends (nSigOps : Nat) (tx : CTransaction) :
    (checkSpends c nSigOps tx).Uses ViewOp.IsRead := by
  unfold checkSpends
  split
  · exact uses_pure
  · exact uses_bind (uses_read_of_plain (uses_haveInputs tx)) fun _ =>
      uses_lift_bind fun _ =>
        uses_bind (uses_read_of_plain (uses_haveJoinSplitRequirements tx)) fun _ =>
          uses_lift_bind fun _ =>
            uses_bind (uses_haveJoinSplitRequirementsDuplicateProofs tx) fun _ =>
              uses_bind (uses_mapM (fun i => uses_read_of_plain (uses_getOutputFor i)) _)
                fun _ => uses_lift_bind fun _ => uses_pure

theorem uses_connectFees (pindex : CBlockIndex) (st : ConnectState) (tx : CTransaction)
    (valueout : CAmount) : (connectFees c pindex st tx valueout).Uses ViewOp.IsRead := by
  unfold connectFees
  split
  · exact uses_pure
  · exact uses_bind (uses_read_of_plain (uses_getValueIn c tx)) fun _ =>
      uses_bind (uses_contextualCheckInputs c _ tx) fun _ => uses_pure

end

end

end Elosys
