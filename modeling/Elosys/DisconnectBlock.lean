import Elosys.ConnectBlock

/-!
# Disconnecting a Block

`ApplyTxInUndo` and `DisconnectBlock` of `main.cpp`, as programs over a coins view. The undo data
is an argument; a mismatch with the view is only reported as not clean.
-/

open Program

namespace Elosys

open ViewProg

/-- `vout.resize(n + 1)` where needed, and an assignment. -/
def CCoins.putOutput (c : CCoins) (n : Nat) (o : CTxOut) : CCoins :=
  { c with
    vout := (c.vout ++ List.replicate (n + 1 - c.vout.length) CTxOut.null).set n o }

/-- The coins that `ApplyTxInUndo` restores to: a height starts the record anew. -/
def CTxInUndo.revive (undo : CTxInUndo) (c : CCoins) : CCoins :=
  if undo.nHeight ≠ 0 then
    { fCoinBase := undo.fCoinBase, nHeight := undo.nHeight, nVersion := undo.nVersion }
  else c

/-- What `ApplyTxInUndo` complains about: the record is there exactly when the undo data has no
height, the output never. -/
def CTxInUndo.fits (undo : CTxInUndo) (n : Nat) (c : CCoins) : Bool :=
  (if undo.nHeight ≠ 0 then c.isPruned else !c.isPruned) && !(undo.revive c).isAvailable n

section

variable [NoteTrees]

def applyTxInUndo (undo : CTxInUndo) (out : COutPoint) : ViewProg Bool := do
  let coins ← modifyCoins out.hash fun c => (undo.revive c).putOutput out.n undo.txout
  return undo.fits out.n coins

/-- Restore a transaction's inputs, the last first. -/
def restoreInputs : List (CTxInUndo × CTxIn) → ViewProg Bool
  | [] => pure true
  | (undo, i) :: rest => do
    let restClean ← restoreInputs rest
    let clean ← applyTxInUndo undo i.prevout
    return restClean && clean

/-- Whether a transaction's coins are what the block says, but for unspendable outputs and
negative versions. -/
def matchesBlock (tx : CTransaction) (nHeight : Nat) (outs : CCoins) : Bool :=
  let outsBlock := CCoins.fromTx tx nHeight
  let outs := outs.clearUnspendable
  let outs := if outsBlock.nVersion < 0 then { outs with nVersion := outsBlock.nVersion }
    else outs
  outs.equal outsBlock

/-- The inputs' part of the loop of `DisconnectBlock`, over what is done with the inputs and their
undo data. -/
def undoInputs {α : Type} (restore : List (CTxInUndo × CTxIn) → ViewProg α) (nothing : α)
    (tx : CTransaction) (txundo : Option CTxUndo) : ViewProg α :=
  if !tx.isMint then do
    let txundo ← assertSome "DisconnectBlock: blockUndo.vtxundo[i-1]" txundo
    rejectIf (txundo.vprevout.length ≠ tx.vin.length) 0
      "DisconnectBlock(): transaction and undo data inconsistent"
    restore (txundo.vprevout.zip tx.vin)
  else if tx.isCoinImport then do
    -- `RemoveImportTombstone`
    let _ ← modifyCoins tx.burnTxid fun _ => .clear
    return nothing
  else pure nothing

/-- Whether the inputs of a transaction were restored cleanly. -/
def disconnectInputs : CTransaction → Option CTxUndo → ViewProg Bool :=
  undoInputs restoreInputs true

/-- The body of the transaction loop of `DisconnectBlock`. -/
def disconnectTx (nHeight : Nat) (tx : CTransaction) (txundo : Option CTxUndo) :
    ViewProg Bool := do
  let outs ← modifyCoins tx.hash fun _ => .clear
  setNullifiers tx false
  setZkProofHashes tx false
  let inputsClean ← disconnectInputs tx txundo
  return matchesBlock tx nHeight outs && inputsClean

/-- The loop of `DisconnectBlock`: the last transaction first. -/
def disconnectTxs (nHeight : Nat) :
    List (CTransaction × Option CTxUndo) → ViewProg Bool
  | [] => pure true
  | (tx, txundo) :: rest => do
    let restClean ← disconnectTxs nHeight rest
    let clean ← disconnectTx nHeight tx txundo
    return restClean && clean

def oldSaplingRoot (c : ConsensusParams) (pprev : CBlockIndex) (t : ShieldedType) : UInt256 :=
  if c.saplingActive pprev.nHeight then pprev.hashFinalSaplingRoot else emptyRoot t

/-- `DisconnectBlock`, on undo data that has been read. -/
def disconnectBlock (c : ConsensusParams) (pindex : CBlockIndex) (block : CBlock)
    (blockUndo : CBlockUndo) : ViewProg Bool := do
  assertThat (pindex.hash = (← getBestBlock))
    "DisconnectBlock: pindex->GetBlockHash() == view.GetBestBlock()"
  rejectIf (blockUndo.vtxundo.length + 1 ≠ block.vtx.length) 0
    "DisconnectBlock(): block and undo data inconsistent"
  let fClean ← disconnectTxs pindex.nHeight
    (block.vtx.zip (none :: blockUndo.vtxundo.map some))
  popAnchor .sprout blockUndo.oldSproutTreeRoot
  let pprev ← assertSome "DisconnectBlock: pindex->pprev" pindex.pprev
  popAnchor .sapling (oldSaplingRoot c pprev .sapling)
  popAnchor .saplingFrontier (oldSaplingRoot c pprev .saplingFrontier)
  setBestBlock pprev.hash
  return fClean

theorem uses_disconnectInputs (tx : CTransaction) (txundo : Option CTxUndo) :
    (disconnectInputs tx txundo).Uses (ViewOp.On .coins) := by
  have hrestore : ∀ l, (restoreInputs l).Uses (ViewOp.On .coins) := by
    intro l
    induction l with
    | nil => exact uses_pure
    | cons p rest ih =>
      exact uses_bind ih fun _ => uses_bind
        (uses_bind (uses_op (S := viewSig) rfl) fun _ => uses_pure) fun _ => uses_pure
  unfold disconnectInputs undoInputs
  split
  · exact uses_lift_bind fun _ => uses_lift_bind fun _ => hrestore _
  · split
    · exact uses_bind (uses_op (S := viewSig) rfl) fun _ => uses_pure
    · exact uses_pure

end

end Elosys
