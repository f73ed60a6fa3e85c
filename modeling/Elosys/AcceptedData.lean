import Elosys.AcceptBlock
import Elosys.BlockArrival
import Elosys.BlockCheckPools

/-!
# The Data of Accepted Blocks

`AcceptBlock` stores data only for blocks that passed the checks, and marks others, unless the
failure is excused: near future, Sapling activation unknown, or block or tip around it.
-/

open Option Function

namespace Elosys

section

variable [CryptoHash] [Librustzcash]

variable {x : UInt256}

namespace AcceptCall

variable (call : AcceptCall) (node : AcceptState)

/-! ### What a call comes to -/

section
omit [CryptoHash] [Librustzcash]

def headerOf : HeaderOutcome :=
  call.acceptBlockHeader { node.index with chainActive := call.chainActive }

def Reached : Prop :=
  ((call.headerOf node).accepted = true ∨ (call.headerOf node).futureblock = true) ∧
    (call.headerOf node).pindex.isSome = true ∧ call.processes (call.headerOf node).index = true

end

/-- `ContextualCheckBlock` in a call. -/
def contextualOf : Except BlockFault Unit := call.contextualVerdict (call.headerOf node).index

def checkedOf : Except BlockFault Unit :=
  (call.checked (call.headerOf node).index node.pools).result

/-- Both checks return `true`. -/
def Passes : Prop := call.contextualOf node = .ok () ∧ call.checkedOf node = .ok ()

def Fails : Prop :=
  ¬ call.Passes node ∧ thrownBy (call.contextualOf node) = none ∧
    thrownBy (call.checkedOf node) = none

def stateOf : CValidationState :=
  ((call.headerOf node).state.after (call.contextualOf node)).after (call.checkedOf node)

def Excused : Prop := call.excused (call.headerOf node).index node = true

theorem acceptBlock_of_not_reached (h : ¬ call.Reached node) :
    (call.acceptBlock node).node.index = (call.headerOf node).index := by
  unfold acceptBlock
  dsimp only
  split
  · rfl
  · next hgo =>
      split
      · rfl
      · next hash hpindex =>
          split
          · next hprocesses =>
              refine absurd ⟨?_, ?_, hprocesses⟩ h
              · simpa [imp_iff_not_or, headerOf] using hgo
              · rw [headerOf, hpindex]
                rfl
          · rfl

theorem acceptBlock_of_reached (h : call.Reached node) : call.acceptBlock node =
    call.processBlock (call.headerOf node) { node with index := (call.headerOf node).index } := by
  obtain ⟨hgo, hpindex, hprocesses⟩ := h
  obtain ⟨hash, hpindex⟩ := isSome_iff_exists.mp hpindex
  unfold headerOf at hgo hpindex hprocesses
  unfold acceptBlock
  rw [if_neg (by simpa [imp_iff_not_or] using hgo), hpindex]
  rw [if_pos hprocesses]
  rfl

theorem acceptBlock_cases (h : call.Reached node) : (¬ call.Passes node ∧ ¬ call.Fails node ∧
        (call.acceptBlock node).node.index = (call.headerOf node).index) ∨
      (call.Passes node ∧
        (call.acceptBlock node).node.index = call.store (call.headerOf node).index true) ∨
      (call.Fails node ∧ call.Excused node ∧ ∃ contextual,
        (call.acceptBlock node).node.index = call.store (call.headerOf node).index contextual) ∨
      (call.Fails node ∧ ¬ call.Excused node ∧ (call.acceptBlock node).node.index =
        if (call.stateOf node).isRejected then call.mark (call.headerOf node).index
        else (call.headerOf node).index) := by
  rw [call.acceptBlock_of_reached node h, processBlock]
  split
  · next fault hthrown =>
      have hreturns : ¬ (thrownBy (call.contextualOf node) = none ∧
          thrownBy (call.checkedOf node) = none) := by
        rintro ⟨hcontextual, hchecked⟩
        have hnone := or_eq_none_iff.mpr ⟨hcontextual, hchecked⟩
        exact absurd (hthrown.symm.trans hnone) (by simp)
      refine .inl ⟨?_, fun hfails => hreturns hfails.2, rfl⟩
      rintro ⟨hcontextual, hchecked⟩
      exact hreturns ⟨by rw [hcontextual]; rfl, by rw [hchecked]; rfl⟩
  · next hreturns =>
      obtain ⟨hcontextual, hchecked⟩ := or_eq_none_iff.mp hreturns
      split
      · next hpass => exact .inr (.inl ⟨hpass, rfl⟩)
      · next hfail =>
          have hfails : call.Fails node := ⟨hfail, hcontextual, hchecked⟩
          split
          · next hexcused => exact .inr (.inr (.inl ⟨hfails, hexcused, _, rfl⟩))
          · next hexcused => exact .inr (.inr (.inr ⟨hfails, hexcused, rfl⟩))

/-! ### Entries -/

section
omit [CryptoHash] [Librustzcash]

theorem haveData_addToBlockIndex {s : BlockIndex} {block : BlockIndex.Header}
    (h : ((s.addToBlockIndex block).entry x).haveData = true) : (s.entry x).haveData = true := by
  have hnew : (s.newEntry block).haveData = false := by
    unfold BlockIndex.newEntry
    split <;> rfl
  unfold BlockIndex.addToBlockIndex at h
  split at h
  · exact h
  · dsimp only at h
    by_cases hx : x = block.hash
    · rw [hx, update_self, hnew] at h
      exact absurd h (by simp)
    · rwa [update_of_ne hx] at h

theorem haveData_headerOf (h : ((call.headerOf node).index.entry x).haveData = true) :
    (node.index.entry x).haveData = true := by
  unfold headerOf acceptBlockHeader at h
  dsimp only at h
  split at h
  · split at h
    · exact h
    split at h
    · exact h
    · rwa [congrFun (BlockIndex.modify_member (·.haveData) rfl) x] at h
  split at h
  · exact h
  · exact haveData_addToBlockIndex (s := { node.index with chainActive := call.chainActive }) h

theorem haveData_store (s : BlockIndex) (contextual : Bool) (hx : x ≠ call.block.hash) :
    ((call.store s contextual).entry x).haveData = (s.entry x).haveData := by
  unfold store
  rw [BlockIndex.receivedBlockTransactions_haveData hx]
  split
  · rw [BlockIndex.modify_entry, update_of_ne hx]
  · rfl

end

/-- **Where data comes from**: a call gives data to its own block, if that passes or is excused.
-/
theorem haveData_acceptBlock (h : ((call.acceptBlock node).node.index.entry x).haveData = true) :
    (node.index.entry x).haveData = true ∨
      (x = call.block.hash ∧ call.Reached node ∧ (call.Passes node ∨ call.Excused node)) := by
  by_cases hreached : call.Reached node
  · have hstored : ∀ contextual,
        ((call.store (call.headerOf node).index contextual).entry x).haveData = true →
          (node.index.entry x).haveData = true ∨ x = call.block.hash := by
      intro contextual hdata
      by_cases hx : x = call.block.hash
      · exact .inr hx
      · rw [call.haveData_store _ contextual hx] at hdata
        exact .inl (call.haveData_headerOf node hdata)
    rcases call.acceptBlock_cases node hreached with ⟨-, -, hindex⟩ | ⟨hpass, hindex⟩ |
      ⟨-, hexcused, contextual, hindex⟩ | ⟨-, -, hindex⟩
    · rw [hindex] at h
      exact .inl (call.haveData_headerOf node h)
    · rw [hindex] at h
      exact (hstored true h).imp_right fun hx => ⟨hx, hreached, .inl hpass⟩
    · rw [hindex] at h
      exact (hstored contextual h).imp_right fun hx => ⟨hx, hreached, .inr hexcused⟩
    · rw [hindex] at h
      split at h
      · rw [mark, congrFun (BlockIndex.modify_member (·.haveData) rfl) x] at h
        exact .inl (call.haveData_headerOf node h)
      · exact .inl (call.haveData_headerOf node h)
  · rw [call.acceptBlock_of_not_reached node hreached] at h
    exact .inl (call.haveData_headerOf node h)

theorem failedValid_acceptBlock (hreached : call.Reached node) (hfails : call.Fails node)
    (hrejected : (call.stateOf node).isRejected = true) (hexcused : ¬ call.Excused node) :
    ((call.acceptBlock node).node.index.entry call.block.hash).failedValid = true := by
  rcases call.acceptBlock_cases node hreached with ⟨-, hnot, -⟩ | ⟨hpass, -⟩ | ⟨-, hyes, -⟩ |
    ⟨-, -, hindex⟩
  · exact absurd hfails hnot
  · exact absurd hpass hfails.1
  · exact absurd hyes hexcused
  · rw [hindex, if_pos hrejected, mark, BlockIndex.modify_entry, update_self]

end AcceptCall

def acceptRun (node : AcceptState) (calls : List AcceptCall) : AcceptState :=
  calls.foldl (fun node call => (call.acceptBlock node).node) node

theorem haveData_acceptRun (calls : List AcceptCall) (node : AcceptState)
    (h : ((acceptRun node calls).index.entry x).haveData = true) :
    (node.index.entry x).haveData = true ∨ ∃ before call rest,
      calls = before ++ call :: rest ∧ x = call.block.hash ∧ call.Reached (acceptRun node before) ∧
        (call.Passes (acceptRun node before) ∨ call.Excused (acceptRun node before)) := by
  induction calls generalizing node with
  | nil => exact .inl h
  | cons call calls ih =>
    rcases ih (call.acceptBlock node).node h with h | ⟨before, later, rest, rfl, hlater⟩
    · rcases call.haveData_acceptBlock node h with h | hcall
      · exact .inl h
      · exact .inr ⟨[], call, calls, rfl, hcall⟩
    · exact .inr ⟨call :: before, later, rest, rfl, hlater⟩

/-- **Block data is checked, and failures are marked, unless excused**, in every run. -/
theorem acceptRun_data_checked (node : AcceptState) (calls : List AcceptCall) :
    (∀ x, ((acceptRun node calls).index.entry x).haveData = true →
      (node.index.entry x).haveData = true ∨ ∃ before call rest,
        calls = before ++ call :: rest ∧ x = call.block.hash ∧
          call.Reached (acceptRun node before) ∧
          (call.Passes (acceptRun node before) ∨ call.Excused (acceptRun node before))) ∧
      ∀ before call rest, calls = before ++ call :: rest → call.Reached (acceptRun node before) →
        call.Fails (acceptRun node before) →
        (call.stateOf (acceptRun node before)).isRejected = true →
        ¬ call.Excused (acceptRun node before) →
        ((acceptRun node (before ++ [call])).index.entry call.block.hash).failedValid = true := by
  refine ⟨fun x hx => haveData_acceptRun calls node hx, ?_⟩
  intro before call rest _ hreached hfails hrejected hexcused
  rw [acceptRun, List.foldl_append]
  exact call.failedValid_acceptBlock _ hreached hfails hrejected hexcused

end

/-! ### A block at the activation of Sapling -/

section

local instance acceptHash : CryptoHash := ⟨fun _ => 0, fun _ => 0⟩

local instance acceptLibrustzcash : Librustzcash where
  ValueCommitment := Unit
  SaplingVerificationContext := Unit
  new := ()
  fromBytesNotSmallOrder _ := none
  addSpendToContext _ _ := ()
  addOutputToContext _ _ := ()
  spendValid _ _ _ _ _ _ _ := false
  outputValid _ _ _ _ := false
  finalCheck _ _ _ _ := false

def firstHeightUpgrades : ContextualParams where
  nActivationHeight _ := 1
  fCheckpointsEnabled := false
  serializeSize _ := 100
  contextualCheckCoinbaseTransaction _ _ := .ok true
  signatureHash _ _ := some 0
  cryptoSignVerifyDetached _ _ _ := true

def acceptRules : AcceptRules where
  toBlockRules := contractRules
  contextual := firstHeightUpgrades
  hashGenesisBlock := 10
  nTime _ := 1599999000
  getMedianTimePast _ := 1599999000
  getNextWorkRequired _ _ := 0
  nMaxFutureBlockTime := 420
  checkpointsCheckBlock _ _ := true
  getLastCheckpoint := none
  komodoCheckpoint _ _ := true
  komodoValidateInterest _ _ _ := true
  komodoBlock2height _ := 0
  nHF22Height := none
  komodoHardforkActive _ := true
  isInitialBlockDownload := false
  maxProcessingThreads := 1
  schedule := .inOrder

def genesisNode : AcceptState where
  index := {
    mapBlockIndex := [10]
    entry := fun h =>
      if h = 10 then { address := 1, nTx := 1, nChainTx := 1, validity := 5, haveData := true }
      else { address := 0 }
    chainActive := [10] }
  pools := ⟨{}, {}⟩

def acceptCall (tx : CTransaction) : AcceptCall where
  rules := acceptRules
  getTime := 1600000000
  chainActive := [10]
  block := {
    hash := 11
    nTime := 1600000000
    hashFinalSaplingRoot := 0
    vtx := [tx]
    nVersion := 4
    hashPrevBlock := 10
    hashMerkleRoot := tx.hash
    nBits := 0 }
  blockProof := 1
  address := 2
  fRequested := true
  futureblock := false
  state := {}

def notCoinbaseTx : CTransaction where
  hash := 2
  fOverwintered := true
  nVersion := 4
  nVersionGroupId := 0x892F2085
  vin := [{ prevout := ⟨6, 0⟩, scriptSig := [0x51] }]
  vout := [⟨3, [0x51]⟩]

/-- **A block that fails its check is stored** at the activation height, and not marked. -/
theorem acceptRun_stores_failed : (acceptCall notCoinbaseTx).Reached genesisNode ∧
    (acceptCall notCoinbaseTx).checkedOf genesisNode = .error (.dos 100 "bad-cb-missing" false) ∧
    ((acceptCall notCoinbaseTx).stateOf genesisNode).isRejected = true ∧
    (genesisNode.index.entry 11).haveData = false ∧
    ((acceptRun genesisNode [acceptCall notCoinbaseTx]).index.entry 11).haveData = true ∧
    ((acceptRun genesisNode [acceptCall notCoinbaseTx]).index.entry 11).failedValid = false := by
  refine ⟨⟨?_, ?_, ?_⟩, ?_, ?_, ?_, ?_, ?_⟩ <;> decide +kernel

end

end Elosys
