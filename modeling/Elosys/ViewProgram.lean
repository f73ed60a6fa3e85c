import Elosys.Program
import Elosys.CoinsView

/-!
# Programs Over a Coins View

The methods of `CCoinsViewCache` as an interface, so that code over a view can be run on the
caches or read as a statement about what they stand for; with the readers of `coins.cpp` built
from other methods.
-/

open AssocBatch LayerStack Program

namespace Elosys

section

variable [NoteTrees]

/-! ### The interface -/

/-- The methods of `CCoinsViewCache` that block processing calls; `modifyCoins` edits through the
modifier. -/
inductive ViewOp where
  | getCoins (txid : UInt256)
  | modifyCoins (txid : UInt256) (edit : CCoins → CCoins)
  | getAnchorAt (t : ShieldedType) (rt : UInt256)
  | getNullifier (nf : UInt256) (type : ShieldedType)
  | getZkProofHash (h : UInt256) (p : ProofType)
  | getBestBlock
  | getBestAnchor (t : ShieldedType)
  | pushAnchor (t : ShieldedType) (tree : Tree t)
  | popAnchor (t : ShieldedType) (newrt : UInt256)
  | setNullifiers (tx : CTransaction) (spent : Bool)
  | setZkProofHashes (tx : CTransaction) (addTx : Bool)
  | setBestBlock (h : UInt256)

/-- What each method returns; `modifyCoins` gives the coins as they were before the
edit. -/
@[reducible] def ViewOp.Ret : ViewOp → Type
  | .getCoins _ => Option CCoins
  | .modifyCoins _ _ => CCoins
  | .getAnchorAt t _ => Option (Tree t)
  | .getNullifier _ _ => Bool
  | .getZkProofHash _ _ => Bool × Finset ProofId
  | .getBestBlock => UInt256
  | .getBestAnchor _ => UInt256
  | .pushAnchor _ _ => Unit
  | .popAnchor _ _ => Unit
  | .setNullifiers _ _ => Unit
  | .setZkProofHashes _ _ => Unit
  | .setBestBlock _ => Unit

/-- The parts of a view's data that its methods work on. -/
inductive ViewPart where
  | coins
  | anchors
  | nullifiers
  | proofs
  | bestBlock
  deriving DecidableEq

def ViewOp.part : ViewOp → ViewPart
  | .getCoins _ => .coins
  | .modifyCoins _ _ => .coins
  | .getAnchorAt _ _ => .anchors
  | .getBestAnchor _ => .anchors
  | .pushAnchor _ _ => .anchors
  | .popAnchor _ _ => .anchors
  | .getNullifier _ _ => .nullifiers
  | .setNullifiers _ _ => .nullifiers
  | .getZkProofHash _ _ => .proofs
  | .setZkProofHashes _ _ => .proofs
  | .getBestBlock => .bestBlock
  | .setBestBlock _ => .bestBlock

def ViewOp.On (part : ViewPart) (o : ViewOp) : Prop := o.part = part

/-- Methods that only look up, a proof apart. -/
def ViewOp.PlainRead : ViewOp → Prop
  | .getCoins _ => True
  | .getAnchorAt _ _ => True
  | .getNullifier _ _ => True
  | .getBestBlock => True
  | .getBestAnchor _ => True
  | _ => False

def ViewOp.IsRead (o : ViewOp) : Prop := o.PlainRead ∨ ∃ h p, o = .getZkProofHash h p

/-- Methods that look up something but a proof, or work on anchors or the best block; they leave
coins, nullifiers and proofs alone. -/
def ViewOp.Neutral (o : ViewOp) : Prop := o.PlainRead ∨ o.On .anchors ∨ o.On .bestBlock

@[reducible] def viewSig : Signature := ⟨ViewOp, ViewOp.Ret⟩

abbrev ViewProg := Prog viewSig Fault

/-- A method that may fail, leaving the view as it was. -/
def settle {α : Type} (v : CacheView) :
    Except Fault (α × CacheView) → Except Fault α × CacheView
  | .ok (a, v') => (.ok a, v')
  | .error e => (.error e, v)

def viewHandler [CryptoHash] : Handler viewSig Fault CacheView
  | .getCoins txid, v => settle v (.ok (v.getCoins txid))
  | .modifyCoins txid edit, v => settle v (v.modifyCoinsWith txid edit)
  | .getAnchorAt t rt, v => settle v (.ok (v.getAnchorAt t rt))
  | .getNullifier nf type, v => settle v (v.getNullifier nf type)
  | .getZkProofHash h p, v => settle v (.ok (v.getZkProofHash h p))
  | .getBestBlock, v => settle v (.ok v.getBestBlock)
  | .getBestAnchor t, v => settle v (.ok (v.getBestAnchor t))
  | .pushAnchor t tree, v => (.ok (), v.pushAnchor t tree)
  | .popAnchor t newrt, v => settle v ((v.popAnchor t newrt).map ((), ·))
  | .setNullifiers tx spent, v => (.ok (), v.setNullifiers tx spent)
  | .setZkProofHashes tx addTx, v => (.ok (), v.setZkProofHashes tx addTx)
  | .setBestBlock h, v => (.ok (), v.setBestBlock h)

variable (tx : CTransaction)

namespace ViewProg

def call (o : ViewOp) : ViewProg o.Ret := Prog.op (S := viewSig) o

def getCoins (txid : UInt256) : ViewProg (Option CCoins) := call (.getCoins txid)

def modifyCoins (txid : UInt256) (edit : CCoins → CCoins) : ViewProg CCoins :=
  call (.modifyCoins txid edit)

variable (t : ShieldedType)

def getAnchorAt (rt : UInt256) : ViewProg (Option (Tree t)) :=
  call (.getAnchorAt t rt)

def getNullifier (nf : UInt256) (type : ShieldedType) : ViewProg Bool :=
  call (.getNullifier nf type)

def getZkProofHash (h : UInt256) (p : ProofType) : ViewProg (Bool × Finset ProofId) :=
  call (.getZkProofHash h p)

def getBestBlock : ViewProg UInt256 := call .getBestBlock

def getBestAnchor : ViewProg UInt256 := call (.getBestAnchor t)

def pushAnchor (tree : Tree t) : ViewProg Unit :=
  call (.pushAnchor t tree)

def popAnchor (newrt : UInt256) : ViewProg Unit :=
  call (.popAnchor t newrt)

def setNullifiers (spent : Bool) : ViewProg Unit :=
  call (.setNullifiers tx spent)

def setZkProofHashes (addTx : Bool) : ViewProg Unit :=
  call (.setZkProofHashes tx addTx)

def setBestBlock (h : UInt256) : ViewProg Unit := call (.setBestBlock h)

end ViewProg

open ViewProg

/-- The loop of `CCoinsViewCache::HaveInputs`. -/
def haveInputsLoop : List CTxIn → ViewProg Bool
  | [] => pure true
  | i :: is => do
    let coins ← getCoins i.prevout.hash
    if coins.any fun c => c.isAvailable i.prevout.n then haveInputsLoop is else pure false

def haveInputs : ViewProg Bool :=
  if tx.isMint then pure true else haveInputsLoop tx.vin

/-- A record's output at an index known to be in range. -/
def CCoins.outputAt (c : CCoins) (n : Nat) : CTxOut := (c.vout[n]?).getD CTxOut.null

def getOutputFor (i : CTxIn) : ViewProg CTxOut := do
  let coins ← getCoins i.prevout.hash
  let coins ← assertSome "GetOutputFor: coins && coins->IsAvailable(input.prevout.n)"
    (coins.filter fun c => c.isAvailable i.prevout.n)
  return coins.outputAt i.prevout.n

/-! ### Shielded inputs -/

/-- Whether one of the nullifiers is set, read in order. -/
def anyNullifierSet (type : ShieldedType) : List UInt256 → ViewProg Bool
  | [] => pure false
  | nf :: nfs => do
    if ← getNullifier nf type then pure true else anyNullifierSet type nfs

def appendCommitment {t : ShieldedType} (tree : Tree t) (cm : UInt256) : Except Fault (Tree t) :=
  match NoteTrees.append tree cm with
  | some tree => .ok tree
  | none => .error (.exception "tree is full")

def appendAll {t : ShieldedType} (tree : Tree t) (cms : List UInt256) : Except Fault (Tree t) :=
  cms.foldlM appendCommitment tree

/-- The tree at a Sprout anchor, intermediate or in the view. -/
def sproutTreeAt (intermediates : Assoc UInt256 (Tree .sprout)) (anchor : UInt256) :
    ViewProg (Option (Tree .sprout)) :=
  match intermediates.lookup anchor with
  | some tree => pure (some tree)
  | none => getAnchorAt .sprout anchor

/-- The JoinSplit loop of `CCoinsViewCache::HaveJoinSplitRequirements`; trees of earlier
JoinSplits count as anchors. -/
def joinSplitsMet (intermediates : Assoc UInt256 (Tree .sprout)) :
    List JSDescription → ViewProg Bool
  | [] => pure true
  | js :: jss => do
    if ← anyNullifierSet .sprout js.nullifierList then pure false
    else
      match ← sproutTreeAt intermediates js.anchor with
      | none => pure false
      | some tree =>
        let tree ← appendAll tree js.commitmentList
        -- `unordered_map::insert` keeps an entry that is already there
        let intermediates :=
          if (intermediates.lookup (root tree)).isSome then intermediates
          else intermediates.insert (root tree) tree
        joinSplitsMet intermediates jss

/-- `HaveJoinSplitRequirementsWorkerAnchor`. -/
def spendAnchorsMet : List SpendDescription → ViewProg Bool
  | [] => pure true
  | d :: ds => do
    match ← getAnchorAt .sapling d.anchor with
    | none => pure false
    | some _ => spendAnchorsMet ds

/-- `CCoinsViewCache::HaveJoinSplitRequirements`: both workers run to their end. -/
def haveJoinSplitRequirements : ViewProg Bool := do
  if ← joinSplitsMet ∅ tx.vjoinsplit then
    let doubleSpend ← anyNullifierSet .sapling tx.saplingNullifiers
    let anchored ← spendAnchorsMet tx.vShieldedSpend
    return !doubleSpend && anchored
  else return false

/-- `HaveJoinSplitRequirementsWorkerDuplicateSpendProofs` and its sibling: the first registered
proof ends the loop. -/
def noDuplicateProofs (p : ProofType) : List UInt256 → ViewProg Bool
  | [] => pure true
  | h :: hs => do
    let (found, txids) ← getZkProofHash h p
    if found then pure (decide (txids = ∅)) else noDuplicateProofs p hs

def haveJoinSplitRequirementsDuplicateProofs [CryptoHash] (tx : CTransaction) :
    ViewProg Bool := do
  let spends ← noDuplicateProofs .spend (tx.vShieldedSpend.map SpendDescription.proofHash)
  let outputs ←
    noDuplicateProofs .output (tx.vShieldedOutput.map OutputDescription.proofHash)
  return spends && outputs

/-! ### Which readers only read -/

theorem uses_getOutputFor (i : CTxIn) : (getOutputFor i).Uses ViewOp.PlainRead :=
  uses_bind (uses_op (S := viewSig) trivial) fun _ =>
    uses_lift_bind fun _ => uses_pure

theorem uses_haveInputs : (haveInputs tx).Uses ViewOp.PlainRead := by
  have hloop : ∀ is, (haveInputsLoop is).Uses ViewOp.PlainRead := by
    intro is
    induction is with
    | nil => exact uses_pure
    | cons i is ih =>
      refine uses_bind (uses_op (S := viewSig) trivial) fun coins => ?_
      split
      · exact ih
      · exact uses_pure
  rw [haveInputs]
  split
  · exact uses_pure
  · exact hloop _

theorem uses_anyNullifierSet (type : ShieldedType) (nfs : List UInt256) :
    (anyNullifierSet type nfs).Uses ViewOp.PlainRead := by
  induction nfs with
  | nil => exact uses_pure
  | cons nf nfs ih =>
    refine uses_bind (uses_op (S := viewSig) trivial) fun found => ?_
    split
    · exact uses_pure
    · exact ih

theorem uses_sproutTreeAt (intermediates : Assoc UInt256 (Tree .sprout)) (rt : UInt256) :
    (sproutTreeAt intermediates rt).Uses ViewOp.PlainRead := by
  rw [sproutTreeAt]
  split
  · exact uses_pure
  · exact uses_op (S := viewSig) trivial

theorem uses_joinSplitsMet (jss : List JSDescription) :
    ∀ intermediates, (joinSplitsMet intermediates jss).Uses ViewOp.PlainRead := by
  induction jss with
  | nil => exact fun _ => uses_pure
  | cons js jss ih =>
    intro intermediates
    refine uses_bind (uses_anyNullifierSet _ _) fun found => ?_
    split
    · exact uses_pure
    · refine uses_bind (uses_sproutTreeAt _ _) fun tree => ?_
      split
      · exact uses_pure
      · exact uses_lift_bind fun _ => ih _

theorem uses_spendAnchorsMet (ds : List SpendDescription) :
    (spendAnchorsMet ds).Uses ViewOp.PlainRead := by
  induction ds with
  | nil => exact uses_pure
  | cons d ds ih =>
    refine uses_bind (uses_op (S := viewSig) trivial) fun tree => ?_
    split
    · exact uses_pure
    · exact ih

theorem uses_haveJoinSplitRequirements : (haveJoinSplitRequirements tx).Uses ViewOp.PlainRead := by
  refine uses_bind (uses_joinSplitsMet _ _) fun met => ?_
  split
  · exact uses_bind (uses_anyNullifierSet _ _) fun _ =>
      uses_bind (uses_spendAnchorsMet _) fun _ => uses_pure
  · exact uses_pure

theorem uses_noDuplicateProofs (p : ProofType) (hs : List UInt256) :
    (noDuplicateProofs p hs).Uses ViewOp.IsRead := by
  induction hs with
  | nil => exact uses_pure
  | cons h hs ih =>
    refine uses_bind (uses_op (S := viewSig) (.inr ⟨h, p, rfl⟩)) fun found => ?_
    split
    split
    · exact uses_pure
    · exact ih

theorem uses_haveJoinSplitRequirementsDuplicateProofs [CryptoHash] (tx : CTransaction) :
    (haveJoinSplitRequirementsDuplicateProofs tx).Uses ViewOp.IsRead :=
  uses_bind (uses_noDuplicateProofs _ _) fun _ =>
    uses_bind (uses_noDuplicateProofs _ _) fun _ => uses_pure

/-! ### Specifications of one part -/

/-- The specification of a part of a view's data: others leave it alone. -/
structure PartSpec {σ : Type} (part : ViewPart) (spec : Spec viewSig Fault σ) : Prop where
  other : ∀ o : ViewOp, o.part ≠ part → ∀ s res, spec o s res → res.2 = s
  plainRead : ∀ o : ViewOp, o.PlainRead → ∀ s res, spec o s res → res.2 = s

namespace PartSpec

variable {σ : Type} {part : ViewPart} {spec : Spec viewSig Fault σ} {s s' : σ}

theorem neutral (h : PartSpec part spec) (ha : part ≠ .anchors) (hb : part ≠ .bestBlock) :
    ∀ o : ViewOp, o.Neutral → ∀ s res, spec o s res → res.2 = s := by
  rintro o (ho | ho | ho)
  · exact h.plainRead o ho
  · exact h.other o (by rw [show o.part = .anchors from ho]; exact ha.symm)
  · exact h.other o (by rw [show o.part = .bestBlock from ho]; exact hb.symm)

theorem of_call (h : PartSpec part spec) {o : ViewOp} {r : Except Fault o.Ret}
    (hout : (call o).Outcome spec s (r, s')) (ho : o.part ≠ part) : s' = s :=
  h.other o ho s _ (outcome_op.mp hout)

variable {α : Type} {p : ViewProg α} {r : Except Fault α}

theorem of_on (h : PartSpec part spec) {part' : ViewPart} (hne : part' ≠ part)
    (hp : p.Uses (ViewOp.On part')) (hout : p.Outcome spec s (r, s')) : s' = s :=
  hp.keeps (fun o ho => h.other o (by rw [show o.part = part' from ho]; exact hne)) hout

theorem of_plain (h : PartSpec part spec) (hp : p.Uses ViewOp.PlainRead)
    (hout : p.Outcome spec s (r, s')) : s' = s :=
  hp.keeps h.plainRead hout

theorem of_read (h : PartSpec part spec) (hne : ViewPart.proofs ≠ part)
    (hp : p.Uses ViewOp.IsRead) (hout : p.Outcome spec s (r, s')) : s' = s := by
  refine hp.keeps (fun o ho => ?_) hout
  obtain ho | ⟨k, t, rfl⟩ := ho
  · exact h.plainRead o ho
  · exact h.other _ hne

end PartSpec

end

end Elosys
