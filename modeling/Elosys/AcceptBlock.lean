import Elosys.BlockCheck
import Elosys.BlockIndex
import Elosys.ContextualCheck

/-!
# Accepting a Block

`AcceptBlockHeader` and `AcceptBlock` of `main.cpp`. A block that fails is rejected and marked; but
a flag, meant for blocks from the near future and set as well around the activation of Sapling, has
its data stored all the same.
-/

open ByteCodec

namespace Elosys

/-! ### Validation states -/

inductive ModeState where
  | valid
  | invalid
  | error
  deriving DecidableEq

structure CValidationState where
  mode : ModeState := .valid
  nDoS : Nat := 0
  strRejectReason : String := ""
  corruptionPossible : Bool := false

namespace CValidationState

variable (state : CValidationState)

def doS (level : Nat) (reason : String) (corruptionIn : Bool) : CValidationState :=
  if state.mode = .error then
    { state with strRejectReason := reason, corruptionPossible := corruptionIn }
  else ⟨.invalid, state.nDoS + level, reason, corruptionIn⟩

def after : Except BlockFault Unit → CValidationState
  | .error (.dos level reason corruptionIn) => state.doS level reason corruptionIn
  | _ => state

def isRejected : Bool :=
  decide (state.mode = .invalid) && !state.corruptionPossible

end CValidationState

def thrownBy : Except BlockFault Unit → Option Fault
  | .error (.thrown fault) => some fault
  | _ => none

/-! ### Contextual checks -/

/-- The globals and outside code that accepting a block reads besides; functions of a hash are
members of its entry. -/
structure AcceptRules extends BlockRules where
  contextual : ContextualParams
  hashGenesisBlock : UInt256
  nTime : UInt256 → Nat
  getMedianTimePast : UInt256 → Int
  getNextWorkRequired : UInt256 → ReceivedBlock → Nat
  nMaxFutureBlockTime : Int
  checkpointsCheckBlock : Nat → UInt256 → Bool
  getLastCheckpoint : Option Nat
  komodoCheckpoint : Nat → UInt256 → Bool
  komodoValidateInterest : CTransaction → Int → Int → Bool
  komodoBlock2height : ReceivedBlock → Int
  nHF22Height : Option Int
  komodoHardforkActive : Int → Bool
  isInitialBlockDownload : Bool
  maxProcessingThreads : Nat
  schedule : WorkerPool.Schedule

namespace AcceptRules

variable (r : AcceptRules)

/-- The checkpoint part of `ContextualCheckBlockHeader`; `true` for a block of the active chain,
accepted at once. -/
def checkForks (s : BlockIndex) (block : ReceivedBlock) (nHeight : Nat) :
    Except BlockFault Bool :=
  let known := s.chainActive.reverse[nHeight]? == some block.hash
  if !r.contextual.fCheckpointsEnabled then .ok false
  else do
    dosIf (!r.checkpointsCheckBlock nHeight block.hash) 100 "checkpoint mismatch" false
    if nHeight = 1 ∧ s.tip.any (fun t => 1 < s.nHeight t) then
      -- trying to change height 1 forbidden
      if known then .ok true else .error (.dos 1 "" false)
    else do
      dosIf (r.getLastCheckpoint.any (nHeight < ·)) 1 "" false
      if r.komodoCheckpoint nHeight block.hash then .ok false
      else if known then .ok true
      else .error (.dos 1 "" false)

def contextualCheckBlockHeader (getTime : Int) (s : BlockIndex) (block : ReceivedBlock)
    (pindexPrev : Option UInt256) : Except BlockFault Unit :=
  if block.hash = r.hashGenesisBlock then .ok ()
  else
    match pindexPrev with
    | none => .error (.thrown (.assertion "pindexPrev"))
    | some prev => do
      let nHeight := s.nHeight prev + 1
      dosIf ((!r.isKMD || nHeight < 235300 || 236000 < nHeight) &&
        block.nBits != r.getNextWorkRequired prev block) 100 "bad-diffbits" false
      dosIf (if !r.assetchainsAdaptivepow || nHeight < 30 then
          decide ((block.nTime : Int) ≤ r.getMedianTimePast prev)
        else decide (block.nTime ≤ r.nTime prev)) 0 "time-too-old" false
      dosIf (getTime + r.nMaxFutureBlockTime < block.nTime) 0 "time-too-new" false
      let accepted ← r.checkForks s block nHeight
      dosIf (!accepted && block.nVersion < 4) 0 "bad-version" false

def locktimeThreshold : Nat := 500000000

def isFinalTx (tx : CTransaction) (nBlockHeight nBlockTime : Int) : Bool :=
  let isHeight := decide (tx.nLockTime < locktimeThreshold)
  let active := r.komodoHardforkActive nBlockTime
  let locked := nBlockTime < tx.nLockTime && !isHeight || nBlockHeight < tx.nLockTime && isHeight
  tx.nLockTime == 0 ||
    decide ((tx.nLockTime : Int) < if isHeight then nBlockHeight else nBlockTime) ||
    tx.vin.all fun txin =>
      (txin.nSequence == 0xfffffffe && (!active && locked || active && !locked)) ||
        txin.nSequence == 0xffffffff

/-- `CScript() << nHeight`, for a height above 0. -/
def pushHeight (nHeight : Nat) : CScript :=
  if nHeight ≤ 16 then [UInt8.ofNat (0x50 + nHeight)]
  else
    let bytes := leBytes (Nat.log 256 nHeight + 1) nHeight
    -- the sign of a number is its highest bit
    let bytes := if bytes.getLast?.any (0x80 ≤ ·) then bytes ++ [0] else bytes
    UInt8.ofNat bytes.length :: bytes

def interestTime (block : ReceivedBlock) (pindexPrev : Option UInt256) (txheight : Int) : Int :=
  match pindexPrev with
  | some prev =>
    if r.isKMD && r.nHF22Height.any (· < txheight) then r.getMedianTimePast prev + 777
    else block.nTime
  | none => block.nTime

/-- One transaction in `ContextualCheckBlock`. -/
def checkInterestAndLock (block : ReceivedBlock) (nHeight : Nat) (txheight cmptime : Int)
    (tx : CTransaction) : Except BlockFault Unit := do
  dosIf (!r.komodoValidateInterest tx txheight cmptime) 0 "komodo-interest-invalid" false
  dosIf (!r.isFinalTx tx nHeight block.nTime) 10 "bad-txns-nonfinal" false

/-- The height in the coinbase, if there is an input to read. -/
def checkCoinbaseHeight (block : ReceivedBlock) (nHeight : Nat) : Except BlockFault Unit :=
  if nHeight = 0 then .ok ()
  else
    match block.vtx.head?.bind fun tx => tx.vin.head? with
    | none => .error (.thrown (.exception "block.vtx[0].vin[0]"))
    | some txin =>
      dosIf (!(pushHeight nHeight).isPrefixOf txin.scriptSig) 100 "bad-cb-height" false

variable [Librustzcash]

def contextualCheckBlock (s : BlockIndex) (block : ReceivedBlock) (pindexPrev : Option UInt256) :
    Except BlockFault Unit := do
  let nHeight := (pindexPrev.map fun prev => s.nHeight prev + 1).getD 0
  let txheight := if nHeight = 0 then r.komodoBlock2height block else nHeight
  block.vtx.forM (r.checkInterestAndLock block nHeight txheight
    (r.interestTime block pindexPrev txheight))
  ofFault false (contextualCheckTransactionMultithreaded r.contextual nHeight 100
    r.isInitialBlockDownload r.maxProcessingThreads r.schedule block.vtx)
  checkCoinbaseHeight block nHeight

end AcceptRules

/-! ### Calls -/

/-- A call of `AcceptBlock`: globals, clock and active chain, the caller's arguments, and data for
a new entry. -/
structure AcceptCall where
  rules : AcceptRules
  getTime : Int
  chainActive : List UInt256
  block : ReceivedBlock
  blockProof : UInt256
  address : Nat
  fRequested : Bool
  futureblock : Bool
  state : CValidationState

/-- Kept between calls: the index, the pools, and the static Sapling height. -/
structure AcceptState where
  index : BlockIndex
  pools : Pools
  saplinght : Int := -1

/-- What `AcceptBlockHeader` leaves. -/
structure HeaderOutcome where
  accepted : Bool
  pindex : Option UInt256
  futureblock : Bool
  state : CValidationState
  index : BlockIndex

/-- What `AcceptBlock` leaves. -/
structure AcceptOutcome where
  accepted : Except Fault Bool
  futureblock : Bool
  state : CValidationState
  node : AcceptState

namespace AcceptCall

variable (call : AcceptCall)

def header : BlockIndex.Header where
  hash := call.block.hash
  hashPrevBlock := call.block.hashPrevBlock
  blockProof := call.blockProof
  address := call.address

variable (s : BlockIndex)

/-- `AcceptBlockHeader` for a new header: flag and verdict, all that touches the state. -/
def checkNewHeader : Bool × Except BlockFault Unit :=
  let block := call.block
  let header := call.rules.checkBlockHeader call.getTime 0 block false
  match header.2, header.1 with
  | .error fault, false => (false, .error fault)
  | _, futureblock =>
    (futureblock, do
      if block.hash = call.rules.hashGenesisBlock then
        call.rules.contextualCheckBlockHeader call.getTime s block none
      else do
        plainIf (decide (block.hashPrevBlock ∉ s.mapBlockIndex))
        dosIf (s.entry block.hashPrevBlock).failed 100 "bad-prevblk" false
        call.rules.contextualCheckBlockHeader call.getTime s block (some block.hashPrevBlock))

/-- `AcceptBlockHeader`. With contracts a marked block is reconsidered. -/
def acceptBlockHeader : HeaderOutcome :=
  let hash := call.block.hash
  if hash ∈ s.mapBlockIndex then
    if !(s.entry hash).failed then ⟨true, some hash, call.futureblock, call.state, s⟩
    else if !call.rules.assetchainsCC then
      ⟨false, some hash, call.futureblock, call.state.doS 0 "duplicate" false, s⟩
    else
      ⟨true, some hash, call.futureblock, call.state,
        s.modify hash fun e => { e with failedValid := false, failedChild := false }⟩
  else
    let verdict := call.checkNewHeader s
    match verdict.2 with
    | .error fault => ⟨false, none, verdict.1, call.state.after (.error fault), s⟩
    | .ok () => ⟨true, some hash, verdict.1, call.state, s.addToBlockIndex call.header⟩

def blockDownloadWindow : Int := 1024

/-- A new block is processed unless unasked for and known, without more work than the tip, or too
far ahead. -/
def processes : Bool :=
  let e := s.entry call.block.hash
  let fHasMoreWork := !s.tip.any fun t => e.nChainWork ≤ (s.entry t).nChainWork
  let fTooFarAhead := (s.chainActive.length : Int) - 1 + blockDownloadWindow < e.nHeight
  !e.haveData && (call.fRequested || e.nTx == 0 && fHasMoreWork && !fTooFarAhead)

def aroundSapling (saplinght : Int) (tip : Option Nat) (nHeight : Int) : Bool :=
  saplinght < 0 || (0 < saplinght && tip.any fun tipht =>
    nHeight < 0 || (saplinght ≤ nHeight && nHeight < saplinght + 50000) ||
      (saplinght - 720 < (tipht : Int) && (tipht : Int) < saplinght + 720))

def activation (saplinght : Int) : Int :=
  if saplinght = -1 then call.rules.contextual.nActivationHeight .upgradeSapling else saplinght

variable [CryptoHash] [Librustzcash]

/-- The verdict of `ContextualCheckBlock`. -/
def contextualVerdict (s : BlockIndex) : Except BlockFault Unit :=
  call.rules.contextualCheckBlock s call.block (s.pprev call.block.hash)

/-- `CheckBlock`, without proof of work and joinsplit proofs. -/
def checked (s : BlockIndex) (pools : Pools) : BlockChecked :=
  BlockRules.checkBlock { call.rules.toBlockRules with verifySprout := fun _ => true }
    { getTime := call.getTime
      chainTipTime := s.tip.map call.rules.nTime
      height := s.nHeight call.block.hash
      prevTime := (s.pprev call.block.hash).map call.rules.nTime
      block := call.block
      fCheckPOW := false
      fCheckMerkleRoot := true } pools

/-- Whether a failure of the checks does not count. -/
def excused (s : BlockIndex) (node : AcceptState) : Bool :=
  (call.checked s node.pools).futureblock ||
    aroundSapling (call.activation node.saplinght) (s.tip.map s.nHeight)
      (s.nHeight call.block.hash)

def mark : BlockIndex :=
  s.modify call.block.hash fun e => { e with failedValid := true }

/-- The block's data is stored; `BLOCK_VALID_CONTEXT` is part of the validity. -/
def store (contextual : Bool) : BlockIndex :=
  let s := if contextual then
      s.modify call.block.hash fun e => { e with validity := e.validity ||| 6 }
    else s
  s.receivedBlockTransactions call.block.hash call.block.vtx

/-- `AcceptBlock` for a block that is processed. -/
def processBlock (header : HeaderOutcome) (node : AcceptState) : AcceptOutcome :=
  let s := header.index
  let contextual := call.contextualVerdict s
  let checked := call.checked s node.pools
  let state := (header.state.after contextual).after checked.result
  match (thrownBy contextual).or (thrownBy checked.result) with
  | some fault => ⟨.error fault, checked.futureblock, state, { node with index := s }⟩
  | none =>
    if contextual = .ok () ∧ checked.result = .ok () then
      ⟨.ok (!checked.futureblock), checked.futureblock, state,
        { node with index := call.store s true, pools := checked.pools }⟩
    else
      let saplinght := call.activation node.saplinght
      if call.excused s node then
        ⟨.ok false, true, state,
          ⟨call.store s (decide (contextual = .ok ())), checked.pools, saplinght⟩⟩
      else
        ⟨.ok false, false, state,
          ⟨if state.isRejected then call.mark s else s, checked.pools, saplinght⟩⟩

def acceptBlock (node : AcceptState) : AcceptOutcome :=
  let header := call.acceptBlockHeader { node.index with chainActive := call.chainActive }
  let node := { node with index := header.index }
  if !header.accepted && !header.futureblock then ⟨.ok false, false, header.state, node⟩
  else
    match header.pindex with
    | none => ⟨.ok false, true, header.state, node⟩
    | some _ =>
      if call.processes header.index then call.processBlock header node
      else ⟨.ok true, header.futureblock, header.state, node⟩

end AcceptCall

end Elosys
