import Elosys.MemPoolIndex
import Elosys.MerkleTree

/-!
# Checking a Block

`CheckBlockHeader` and `CheckBlock` of `main.cpp`, with the memory pools. On a chain with contracts
all but shielded transactions move to `tmpmempool` before, those of the block are added, and all
move back at the end. A block from the near future fails, but sets a flag with which the check goes
on.
-/

namespace Elosys

/-! ### Blocks and verdicts -/

/-- A block with the members of its header. -/
structure ReceivedBlock extends CBlock where
  nVersion : Int
  hashPrevBlock : UInt256
  hashMerkleRoot : UInt256
  nBits : Nat

/-- How a block's check fails: by `state.DoS`, `return false`, an assertion or exception. -/
inductive BlockFault where
  | dos (level : Nat) (reason : String) (corruptionIn : Bool)
  | plain
  | thrown (fault : Fault)
  deriving DecidableEq

/-- `return state.DoS` under a condition. -/
def dosIf (b : Bool) (level : Nat) (reason : String) (corruptionIn : Bool) :
    Except BlockFault Unit :=
  if b then .error (.dos level reason corruptionIn) else .ok ()

/-- `return false` under a condition. -/
def plainIf (b : Bool) : Except BlockFault Unit := if b then .error .plain else .ok ()

/-- The verdict of a check whose `state.DoS` calls have a flag; no score and no reason means the
state is not touched. -/
def ofFault (corruptionIn : Bool) : Except Fault Unit → Except BlockFault Unit
  | .ok u => .ok u
  | .error (.reject level reason) =>
    if level = 0 ∧ reason = "" then .error .plain else .error (.dos level reason corruptionIn)
  | .error fault => .error (.thrown fault)

/-- The globals and outside code of a block's check. -/
structure BlockRules extends ChainParams where
  assetchainsCC : Bool
  assetchainsAdaptivepow : Bool
  assetchainsStaked : Bool
  nDecemberHardforkHeight : Int
  nS5HardforkHeight : Int
  checkEquihashSolution : ReceivedBlock → Bool
  checkProofOfWork : ReceivedBlock → Int → Bool
  komodoCheckPOW : ReceivedBlock → Int → Bool
  komodoChosennotary : Int → ReceivedBlock → Nat → Int
  komodoCheckopret : ReceivedBlock → Bool
  maxBlockSize : Int → Nat
  blockSize : ReceivedBlock → Nat
  maxBlockSigops : Nat
  getLegacySigOpCount : CTransaction → Nat
  komodoIsPoS : ReceivedBlock → Int → Bool
  komodoCheckDeposit : Int → ReceivedBlock → Bool
  recursiveDynamicUsage : CTransaction → UInt64
  consensusBranchId : Nat

/-- The arguments of `CheckBlock`, the clock, and the times of the tip and a known predecessor. -/
structure CheckBlockCall where
  getTime : Int
  chainTipTime : Option Nat
  height : Int
  prevTime : Option Nat
  block : ReceivedBlock
  fCheckPOW : Bool
  fCheckMerkleRoot : Bool

/-- `mempool` and `tmpmempool`. -/
structure Pools where
  mempool : CTxMemPool
  tmpmempool : CTxMemPool

/-- What `CheckBlock` leaves: the near-future flag, the verdict and the pools. -/
structure BlockChecked where
  futureblock : Bool
  result : Except BlockFault Unit
  pools : Pools

namespace BlockRules

variable (c : BlockRules) (call : CheckBlockCall)

def minBlockVersion : Int := 4

/-- `CheckBlockHeader`: `*futureblockp` and the verdict. -/
def checkBlockHeader (getTime height : Int) (block : ReceivedBlock) (fCheckPOW : Bool) :
    Bool × Except BlockFault Unit :=
  if c.assetchainsAdaptivepow && getTime + 4 < block.nTime then (false, .error .plain)
  else if !c.assetchainsAdaptivepow && getTime + 60 < block.nTime then
    (decide (block.nTime < getTime + 300), .error .plain)
  else
    (false, do
      dosIf (0 < height && block.nVersion < minBlockVersion) 100 "version-too-low" false
      dosIf (fCheckPOW && !c.checkEquihashSolution block) 100 "invalid-solution" false)

/-! ### Before the transactions -/

def tiptime : Nat := call.prevTime.getD call.block.nTime

def checkWork : Except BlockFault Unit :=
  if call.fCheckPOW then do
    dosIf (!c.checkProofOfWork call.block call.height) 50 "high-hash" false
    dosIf (!c.assetchainsStaked && !c.komodoCheckPOW call.block call.height) 100
      "failed-slow_checkPOW" false
  else .ok ()

def checkEasyMined : Except BlockFault Unit :=
  let notaryid := c.komodoChosennotary call.height call.block (tiptime call)
  dosIf (decide (c.nDecemberHardforkHeight < call.height) && c.isKMD &&
    (0 < notaryid || notaryid = 0 && c.nS5HardforkHeight < call.height) &&
    !c.komodoCheckopret call.block) 100 "failed-merkle-opret-in-easy-mined" false

variable [CryptoHash]

def merkleHash (left right : UInt256) : UInt256 :=
  CryptoHash.Hash (writeUint256 left ++ writeUint256 right)

def checkBlockHead : Except BlockFault Unit := do
  let block := call.block
  let size := c.maxBlockSize call.height
  checkWork c call
  checkEasyMined c call
  ofFault true (checkMerkleRoot merkleHash CTransaction.hash call.fCheckMerkleRoot
    ⟨block.hashMerkleRoot, block.vtx⟩)
  dosIf (block.vtx.isEmpty || size < block.vtx.length || size < c.blockSize block) 100
    "bad-blk-length" false
  dosIf (!block.vtx.head?.any CTransaction.isCoinBase) 100 "bad-cb-missing" false
  dosIf (block.vtx.tail.any CTransaction.isCoinBase) 100 "bad-cb-multiple" false

def checkBlockTransactions : Except BlockFault Unit := do
  let vtx := call.block.vtx
  vtx.zipIdx.forM fun p => ofFault false
    (checkTransaction c.toChainParams call.chainTipTime (tiptime call) p.2 vtx.length p.1)
  dosIf (c.maxBlockSigops < (vtx.map c.getLegacySigOpCount).sum) 100 "bad-blk-sigops" true
  plainIf (call.fCheckPOW && !c.komodoCheckDeposit call.height call.block)

/-! ### The pools -/

omit [CryptoHash] in
def leavesPool (e : CTxMemPoolEntry) : Bool :=
  e.tx.vjoinsplit.isEmpty && e.tx.vShieldedSpend.isEmpty

def removeEntries (pool : CTxMemPool) (txs : List CTransaction) : CTxMemPool :=
  txs.foldl (fun pool tx => (pool.remove tx false []).2) pool

def addEntries (pool : CTxMemPool) (entries : List CTxMemPoolEntry) : CTxMemPool :=
  entries.foldl (fun pool e => pool.addUnchecked e) pool

variable (pools : Pools)

def setAside : Pools :=
  let moved := pools.mempool.mapTx.filter leavesPool
  { mempool := removeEntries pools.mempool (moved.map CTxMemPoolEntry.tx)
    tmpmempool := addEntries pools.tmpmempool moved }

def restore : Pools where
  mempool := addEntries pools.mempool pools.tmpmempool.mapTx
  tmpmempool := pools.tmpmempool.clear

omit [CryptoHash] in
/-- The entry of `CCTxFixAcceptToMemPoolUnchecked`. -/
def fixEntry (tx : CTransaction) : CTxMemPoolEntry where
  tx := tx
  nTxSize := UInt64.ofNat (c.serializeSize tx)
  nUsageSize := c.recursiveDynamicUsage tx
  nTime := call.getTime
  spendsCoinbase := false
  nBranchId := c.consensusBranchId

/-- `myAddtomempool` with `fSkipExpiry`: no checks. -/
def myAddtomempool (tx : CTransaction) (pool : CTxMemPool) : Bool × CTxMemPool :=
  if pool.exists tx.hash then (true, pool) else (true, pool.addUnchecked (c.fixEntry call tx))

omit [CryptoHash] in
/-- A transaction of the block joins the pool. -/
def joinsPool (p : CTransaction × Nat) : Bool :=
  !(p.1.isCoinBase || !p.1.vjoinsplit.isEmpty || !p.1.vShieldedSpend.isEmpty ||
    p.2 + 1 == call.block.vtx.length && c.komodoIsPoS call.block call.height)

def addBlockTx (st : Nat × Pools) (p : CTransaction × Nat) : Nat × Pools :=
  if c.joinsPool call p then
    let added := c.myAddtomempool call p.1 st.2.mempool
    (if added.1 then st.1 else st.1 + 1,
      ⟨added.2, (st.2.tmpmempool.remove p.1 false []).2⟩)
  else st

def addBlockPass : Nat × Pools :=
  call.block.vtx.zipIdx.foldl (c.addBlockTx call) (0, pools)

theorem addBlockPass_rejects : (c.addBlockPass call pools).1 = 0 := by
  unfold addBlockPass
  generalize call.block.vtx.zipIdx = ps
  induction ps generalizing pools with
  | nil => rfl
  | cons p ps ih =>
    have hstep : (c.addBlockTx call (0, pools) p).1 = 0 := by
      unfold addBlockTx myAddtomempool
      split
      · split <;> rfl
      · rfl
    rw [List.foldl_cons, ← Prod.mk.eta (p := c.addBlockTx call (0, pools) p), hstep]
    exact ih _

/-- The passes, until one rejects as many as the one before. The first rejects none, so there is
no second. -/
def addBlockTxs (lastrejects : Nat) (pools : Pools) : Pools :=
  let pass := c.addBlockPass call pools
  if _h : pass.1 = 0 ∨ pass.1 = lastrejects then pass.2 else addBlockTxs pass.1 pass.2
termination_by 0
decreasing_by exact absurd (.inl (c.addBlockPass_rejects call pools)) _h

theorem addBlockTxs_eq (lastrejects : Nat) (pools : Pools) :
    c.addBlockTxs call lastrejects pools = (c.addBlockPass call pools).2 := by
  rw [addBlockTxs]
  exact dif_pos (.inl (c.addBlockPass_rejects call pools))

/-- `CheckBlock` after the header. -/
def checkBlockRest : Except BlockFault Unit × Pools :=
  match c.checkBlockHead call with
  | .error fault => (.error fault, pools)
  | .ok () =>
    if c.assetchainsCC && !call.fCheckPOW then (.ok (), pools)
    else
      let pools := if c.assetchainsCC then c.addBlockTxs call 0 (setAside pools) else pools
      match c.checkBlockTransactions call with
      | .error fault => (.error fault, pools)
      | .ok () => (.ok (), if c.assetchainsCC then restore pools else pools)

/-- `CheckBlock`. A failing header ends it unless from the near future. -/
def checkBlock : BlockChecked :=
  let header := c.checkBlockHeader call.getTime call.height call.block call.fCheckPOW
  match header.2, header.1 with
  | .error fault, false => ⟨false, .error fault, pools⟩
  | _, futureblock =>
    let rest := c.checkBlockRest call pools
    ⟨futureblock, rest.1, rest.2⟩

end BlockRules

end Elosys
