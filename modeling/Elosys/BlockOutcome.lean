import Elosys.DisconnectBlock
import Elosys.ViewSpec

/-!
# What an Accepted Block Has Passed

Inversions of the block programs, for any reading of a view's methods: on success every check was
passed, and the view went through the states in between.
-/

open Program List Except Prod

namespace Elosys

open CoinsColumn ViewProg

def Checked (c : ConsensusParams) (tx : CTransaction) : Prop :=
  ∃ params chainTip tiptime total joinsplits,
    params.maxMoney = c.maxMoney ∧ params.serializeSize = c.serializeSize ∧
      ContextFree params chainTip tiptime tx total joinsplits

variable {c : ConsensusParams}

theorem checkTransactions_eq_ok [CryptoHash] (params : ChainParams)
    {tiptime numTxs i : Nat} {txs : List CTransaction}
    (hmoney : params.maxMoney = c.maxMoney) (hsize : params.serializeSize = c.serializeSize)
    (h : checkTransactions c params tiptime numTxs i txs = .ok ()) :
    ∀ tx ∈ txs, Checked c tx := by
  induction txs generalizing i with
  | nil => simp
  | cons tx txs ih =>
    simp only [checkTransactions, checkTransaction, bind_eq_ok, rejectIf_eq_ok, exists_const] at h
    obtain ⟨⟨-, -, _, hcheck, -⟩, hrest⟩ := h
    obtain ⟨total, joinsplits, hfree, -⟩ :=
      (checkTransactionWithoutProofVerification_eq_ok params).mp hcheck
    exact forall_mem_cons.mpr
      ⟨⟨params.unprivate, _, tiptime, total, joinsplits, hmoney, hsize, hfree⟩, ih hrest⟩

/-- **An accepted block** starts with its only coinbase, and its transactions pass the
context-free checks. -/
theorem checkBlock_eq_ok [CryptoHash] {pindex : CBlockIndex}
    {block : CBlock} (h : checkBlock c pindex block = .ok ()) :
    ∃ coinbase rest, block.vtx = coinbase :: rest ∧ coinbase.isCoinBase = true ∧
      (∀ tx ∈ rest, tx.isCoinBase = false) ∧ (∀ tx ∈ block.vtx, Checked c tx) ∧
      block.vtx.length ≤ c.maxBlockSize pindex.nHeight := by
  simp only [checkBlock, bind_eq_ok, rejectIf_eq_ok, exists_const] at h
  obtain ⟨-, -, hsize, hfirst, hrest, _, hall, -, -⟩ := h
  have hchecked : ∀ tx ∈ block.vtx, Checked c tx := by
    split at hall
    · exact checkTransactions_eq_ok c.toChainParams rfl rfl hall
    · exact checkTransactions_eq_ok { c.toChainParams with verifySprout := fun _ => true }
        rfl rfl hall
  cases hvtx : block.vtx with
  | nil => simp [hvtx] at hsize
  | cons coinbase rest =>
    rw [hvtx] at hchecked hfirst hrest hsize
    refine ⟨coinbase, rest, rfl, by simpa using hfirst, by simpa using hrest, hchecked, ?_⟩
    simp only [Bool.or_eq_false_iff, decide_eq_false_iff_not] at hsize
    omega

variable {tx : CTransaction}

theorem Checked.of_mint (h : Checked c tx) (hmint : tx.isMint = true) :
    tx.vjoinsplit = [] ∧ tx.vShieldedSpend = [] ∧ tx.vShieldedOutput = [] ∧
      tx.valueBalance = 0 := by
  obtain ⟨params, chainTip, tiptime, total, joinsplits, -, -, hfree⟩ := h
  have hcheck := hfree.mint
  simp only [checkMint, hmint, if_true, bind_eq_ok, rejectIf_eq_ok, exists_const,
    Bool.not_eq_false', List.isEmpty_iff] at hcheck
  obtain ⟨hjs, hspend, hout, -⟩ := hcheck
  exact ⟨hjs, hspend, hout, hfree.balanceZero hspend hout⟩

/-! ### Connecting, step by step -/

section

variable [NoteTrees] {c : ConsensusParams} {pindex : CBlockIndex}
  {block : CBlock} {σ : Type} {spec : Spec viewSig Fault σ} {s s' : σ}

theorem updateCoins_ok {nHeight : Nat} {undo : CTxUndo}
    (h : (updateCoins tx nHeight).Outcome spec s (.ok undo, s')) :
    ∃ s₁ s₂ s₃ coins s₄, (spendInputs tx).Outcome spec s (.ok undo.vprevout, s₁) ∧
      (setNullifiers tx true).Outcome spec s₁ (.ok (), s₂) ∧
      (setZkProofHashes tx true).Outcome spec s₂ (.ok (), s₃) ∧
      (modifyCoins tx.hash fun _ => .fromTx tx nHeight).Outcome spec s₃ (.ok coins, s₄) ∧
      (markImport tx nHeight).Outcome spec s₄ (.ok (), s') := by
  simp only [updateCoins, outcome_bind_ok, outcome_pure_ok] at h
  obtain ⟨vprevout, s₁, hspend, _, s₂, hnf, _, s₃, hzk, coins, s₄, hcoins, _, _, hmark, rfl,
    rfl⟩ := h
  exact ⟨s₁, s₂, s₃, coins, s₄, hspend, hnf, hzk, hcoins, hmark⟩

theorem connectTx_ok [CryptoHash] {i : Nat} {st st' : ConnectState}
    (h : (connectTx c pindex i st tx).Outcome spec s (.ok st', s')) :
    ∃ nSigOps s₁ valueout st₁ s₂ undo,
      (checkSpends c (st.nSigOps + c.legacySigOps tx) tx).Outcome spec s (.ok nSigOps, s₁) ∧
      tx.getValueOut c.maxMoney = .ok valueout ∧ komodoValuetoobig valueout = false ∧
      (connectFees c pindex { st with nSigOps } tx valueout).Outcome spec s₁ (.ok st₁, s₂) ∧
      (updateCoins tx pindex.nHeight).Outcome spec s₂ (.ok undo, s') ∧
      appendNotes { st₁ with
        vtxundo := if i = 0 then st₁.vtxundo else st₁.vtxundo ++ [undo] } tx = .ok st' := by
  simp only [connectTx, outcome_bind_ok, outcome_lift_ok, rejectIf_eq_ok] at h
  obtain ⟨_, _, ⟨-, rfl⟩, nSigOps, s₁, hspends, valueout, _, ⟨hvalue, rfl⟩, _, _,
    ⟨hbig, rfl⟩, st₁, s₂, hfees, undo, _, hupdate, hnotes, rfl⟩ := h
  exact ⟨nSigOps, _, valueout, st₁, s₂, undo, hspends, hvalue, hbig, hfees, hupdate, hnotes⟩

variable {undo : CBlockUndo}

theorem connectTransactions_ok [CryptoHash] {cheque : UInt64}
    (h : (connectTransactions c pindex block cheque).Outcome spec s (.ok undo, s')) :
    ∃ s₁ oldRoot st₀ s₂ st s₃ s₄ s₅ s₆, (checkOverwrites block.vtx).Outcome spec s (.ok (), s₁) ∧
      readTrees.Outcome spec s₁ (.ok (oldRoot, st₀), s₂) ∧
      (connectTxs c pindex 0 st₀ block.vtx).Outcome spec s₂ (.ok st, s₃) ∧
      (pushAnchor .sprout st.sproutTree).Outcome spec s₃ (.ok (), s₄) ∧
      (pushAnchor .sapling st.saplingTree).Outcome spec s₄ (.ok (), s₅) ∧
      (pushAnchor .saplingFrontier st.frontierTree).Outcome spec s₅ (.ok (), s₆) ∧
      checkSaplingRoot c pindex block st = .ok () ∧
      checkReward c pindex block (blockReward c pindex block cheque st.nFees st.sum) = .ok () ∧
      (setBestBlock pindex.hash).Outcome spec s₆ (.ok (), s') ∧
      undo = ⟨st.vtxundo, oldRoot⟩ := by
  simp only [connectTransactions, outcome_bind_ok, outcome_lift_ok, rejectIf_eq_ok,
    outcome_pure_ok] at h
  obtain ⟨_, s₁, hover, ⟨oldRoot, st₀⟩, s₂, hread, st, s₃, htxs, _, _, ⟨-, rfl⟩, _, s₄, hsprout,
    _, s₅, hsapling, _, s₆, hfrontier, _, _, ⟨hroots, rfl⟩, _, _, ⟨hreward, rfl⟩, _, _, hbest,
    hundo, rfl⟩ := h
  exact ⟨s₁, oldRoot, st₀, s₂, st, _, s₄, s₅, _, hover, hread, htxs, hsprout, hsapling,
    hfrontier, hroots, hreward, hbest, hundo⟩

/-- **A connected block** passed `CheckBlock` and builds on the best block; unless it is the
genesis block, its transactions are connected. -/
theorem connectBlock_ok [CryptoHash] {undo : Option CBlockUndo}
    (h : (connectBlock c pindex block).Outcome spec s (.ok undo, s')) :
    checkBlock c pindex block = .ok () ∧ ∃ cheque best s₁,
      notaryPaycheque c pindex block = .ok cheque ∧
      getBestBlock.Outcome spec s (.ok best, s₁) ∧
      (pindex.pprev.map CBlockIndex.hash).getD UInt256.null = best ∧
      if block.hash = c.hashGenesisBlock then
        undo = none ∧ (setBestBlock pindex.hash).Outcome spec s₁ (.ok (), s')
      else ∃ u, undo = some u ∧
        (connectTransactions c pindex block cheque).Outcome spec s₁ (.ok u, s') := by
  simp only [connectBlock, outcome_bind_ok, outcome_lift_ok, rejectIf_eq_ok] at h
  obtain ⟨_, _, ⟨hcheck, rfl⟩, _, _, ⟨-, rfl⟩, cheque, _, ⟨hcheque, rfl⟩, best, s₁, hbest, _, _,
    ⟨hprev, rfl⟩, h⟩ := h
  refine ⟨hcheck, cheque, best, _, hcheque, hbest, by simpa using hprev, ?_⟩
  by_cases hgenesis : block.hash = c.hashGenesisBlock
  · simp only [hgenesis, if_true, outcome_bind_ok, outcome_pure_ok] at h ⊢
    obtain ⟨_, _, hset, hundo, rfl⟩ := h
    exact ⟨hundo, hset⟩
  · simp only [hgenesis, if_false, outcome_bind_ok, outcome_pure_ok] at h ⊢
    obtain ⟨u, _, hbody, hundo, rfl⟩ := h
    exact ⟨u, hundo, hbody⟩

theorem readTrees_ok {oldRoot : UInt256} {st : ConnectState}
    (h : readTrees.Outcome spec s (.ok (oldRoot, st), s')) :
    st.nFees = 0 ∧ st.sum = 0 ∧ st.vtxundo = [] := by
  simp only [readTrees, outcome_bind_ok, outcome_lift_ok, outcome_pure_ok] at h
  obtain ⟨_, _, -, _, _, -, _, _, -, _, _, -, _, _, -, _, _, -, _, _, -, _, _, -, _, _, -, _, _,
    -, hres, -⟩ := h
  obtain ⟨-, rfl⟩ := mk.inj hres
  exact ⟨rfl, rfl, rfl⟩

theorem connectBlock_txs [CryptoHash] {undo : Option CBlockUndo}
    (hkeep : ∀ o : ViewOp, o.Neutral → ∀ s res, spec o s res → res.2 = s)
    (h : (connectBlock c pindex block).Outcome spec s (.ok undo, s')) :
    if block.hash = c.hashGenesisBlock then undo = none ∧ s' = s
    else ∃ cheque oldRoot st₀ st, undo = some ⟨st.vtxundo, oldRoot⟩ ∧
      notaryPaycheque c pindex block = .ok cheque ∧
      st₀.nFees = 0 ∧ st₀.sum = 0 ∧ st₀.vtxundo = [] ∧
      (checkOverwrites block.vtx).Outcome spec s (.ok (), s) ∧
      (connectTxs c pindex 0 st₀ block.vtx).Outcome spec s (.ok st, s') ∧
      checkReward c pindex block (blockReward c pindex block cheque st.nFees st.sum) = .ok () := by
  obtain ⟨-, cheque, best, s₁, hcheque, hbest, -, hbody⟩ := connectBlock_ok h
  have hop : ∀ {o : ViewOp} {r s s'}, (call o).Outcome spec s (.ok r, s') → o.Neutral →
      s' = s := fun {o r s s'} hout ho => hkeep o ho s _ (outcome_op.mp hout)
  obtain rfl := hop hbest (.inr (.inr rfl))
  by_cases hgenesis : block.hash = c.hashGenesisBlock
  · simp only [hgenesis, if_true] at hbody ⊢
    exact ⟨hbody.1, hop hbody.2 (.inr (.inr rfl))⟩
  · simp only [hgenesis, if_false] at hbody ⊢
    obtain ⟨u, rfl, hbody⟩ := hbody
    obtain ⟨s₂, oldRoot, st₀, s₃, st, s₄, s₅, s₆, s₇, hover, hread, htxs, h₅, h₆, h₇, -, hreward,
      h₈, rfl⟩ := connectTransactions_ok hbody
    have hread' : ∀ {α : Type} {p : ViewProg α} {r s s'}, p.Uses ViewOp.PlainRead →
        p.Outcome spec s (.ok r, s') → s' = s :=
      fun hp hout => hp.keeps (fun o ho => hkeep o (.inl ho)) hout
    obtain rfl := hread' (uses_checkOverwrites _) hover
    obtain rfl := hread' uses_readTrees hread
    obtain rfl := hop h₅ (.inr (.inl rfl))
    obtain rfl := hop h₆ (.inr (.inl rfl))
    obtain rfl := hop h₇ (.inr (.inl rfl))
    obtain rfl := hop h₈ (.inr (.inr rfl))
    obtain ⟨hfees, hsum, hundo⟩ := readTrees_ok hread
    exact ⟨cheque, oldRoot, st₀, st, rfl, hcheque, hfees, hsum, hundo, hover, htxs, hreward⟩

theorem appendNotes_ok {st st' : ConnectState} (h : appendNotes st tx = .ok st') :
    st'.nFees = st.nFees ∧ st'.sum = st.sum ∧ st'.vtxundo = st.vtxundo := by
  simp only [appendNotes, bind_eq_ok] at h
  obtain ⟨_, -, _, -, _, -, hst⟩ := h
  obtain rfl := ok.inj hst
  exact ⟨rfl, rfl, rfl⟩

variable {clean : Bool}

theorem disconnectTx_ok {nHeight : Nat} {txundo : Option CTxUndo}
    (h : (disconnectTx nHeight tx txundo).Outcome spec s (.ok clean, s')) :
    ∃ outs s₁ s₂ s₃ inputsClean,
      (modifyCoins tx.hash fun _ => .clear).Outcome spec s (.ok outs, s₁) ∧
      (setNullifiers tx false).Outcome spec s₁ (.ok (), s₂) ∧
      (setZkProofHashes tx false).Outcome spec s₂ (.ok (), s₃) ∧
      (disconnectInputs tx txundo).Outcome spec s₃ (.ok inputsClean, s') ∧
      clean = (matchesBlock tx nHeight outs && inputsClean) := by
  simp only [disconnectTx, outcome_bind_ok, outcome_pure_ok] at h
  obtain ⟨outs, s₁, houts, _, s₂, hnf, _, s₃, hzk, inputsClean, _, hinputs, rfl, rfl⟩ := h
  exact ⟨outs, s₁, s₂, s₃, inputsClean, houts, hnf, hzk, hinputs, rfl⟩

/-- **A disconnected block** was the best one; its transactions are undone, its roots popped, and
its predecessor is the best. -/
theorem disconnectBlock_ok
    (h : (disconnectBlock c pindex block undo).Outcome spec s (.ok clean, s')) :
    ∃ s₁ s₂ s₃ pprev s₄ s₅, getBestBlock.Outcome spec s (.ok pindex.hash, s₁) ∧
      undo.vtxundo.length + 1 = block.vtx.length ∧
      (disconnectTxs pindex.nHeight
        (block.vtx.zip (none :: undo.vtxundo.map some))).Outcome spec s₁ (.ok clean, s₂) ∧
      (popAnchor .sprout undo.oldSproutTreeRoot).Outcome spec s₂ (.ok (), s₃) ∧
      pindex.pprev = some pprev ∧
      (popAnchor .sapling (oldSaplingRoot c pprev .sapling)).Outcome spec s₃ (.ok (), s₄) ∧
      (popAnchor .saplingFrontier (oldSaplingRoot c pprev .saplingFrontier)).Outcome spec s₄
        (.ok (), s₅) ∧
      (setBestBlock pprev.hash).Outcome spec s₅ (.ok (), s') := by
  simp only [disconnectBlock, outcome_bind_ok, outcome_lift_ok, outcome_pure_ok,
    assertThat_eq_ok, assertSome_eq_ok, rejectIf_eq_ok, decide_eq_true_eq] at h
  obtain ⟨_, s₁, hbest, _, _, ⟨rfl, rfl⟩, _, _, ⟨hlen, rfl⟩, _, s₂, htxs, _, s₃, hsprout, pprev, _,
    ⟨hprev, rfl⟩, _, s₄, hsapling, _, s₅, hfrontier, _, _, hset, rfl, rfl⟩ := h
  exact ⟨_, s₂, _, pprev, s₄, s₅, hbest, by simpa using hlen, htxs, hsprout, hprev, hsapling,
    hfrontier, hset⟩

theorem disconnectBlock_txs (hkeep : ∀ o : ViewOp, o.Neutral → ∀ s res, spec o s res → res.2 = s)
    (h : (disconnectBlock c pindex block undo).Outcome spec s (.ok clean, s')) :
    ∃ undos, undos.map Prod.fst = block.vtx ∧
      (disconnectTxs pindex.nHeight undos).Outcome spec s (.ok clean, s') := by
  obtain ⟨s₁, s₂, s₃, pprev, s₄, s₅, hbest, hlen, htxs, h₃, -, h₄, h₅, h₆⟩ :=
    disconnectBlock_ok h
  have hop : ∀ {o : ViewOp} {r s s'}, (call o).Outcome spec s (.ok r, s') → o.Neutral →
      s' = s := fun {o r s s'} hout ho => hkeep o ho s _ (outcome_op.mp hout)
  obtain rfl := hop hbest (.inr (.inr rfl))
  obtain rfl := hop h₃ (.inr (.inl rfl))
  obtain rfl := hop h₄ (.inr (.inl rfl))
  obtain rfl := hop h₅ (.inr (.inl rfl))
  obtain rfl := hop h₆ (.inr (.inr rfl))
  exact ⟨_, map_fst_zip (by simp [← hlen]), htxs⟩

end

section

variable [NoteTrees] {m m' : UInt256 → Option CCoins}

omit [NoteTrees] in
theorem shows_available {o : Option CCoins} {c : CCoins} {n : Nat} (h : Shows o c)
    (ha : c.isAvailable n = true) : o = some c := by
  cases o with
  | some c' => exact congrArg some (show c = c' from h).symm
  | none =>
    have hnil : c.vout = [] := h
    simp [CCoins.isAvailable, hnil] at ha

theorem spendInput_ok {i : CTxIn} {u : CTxInUndo}
    (h : (spendInput i).Outcome coinsSpec m (.ok u, m')) :
    ∃ c, m i.prevout.hash = some c ∧ c.isAvailable i.prevout.n = true ∧ u = .ofSpend c i.prevout.n ∧
      m' = Function.update m i.prevout.hash (c.spend i.prevout.n).2.cleanup.present := by
  simp only [spendInput, outcome_bind_ok, outcome_lift_ok, assertThat_eq_ok, outcome_pure_ok] at h
  obtain ⟨c, _, hmod, _, _, ⟨ha, rfl⟩, hu, rfl⟩ := h
  rw [ViewProg.modifyCoins, ViewProg.call, outcome_op] at hmod
  obtain ⟨c', hshows, hres⟩ := hmod
  obtain ⟨hc, rfl⟩ := mk.inj hres
  obtain rfl := ok.inj hc
  exact ⟨c, shows_available hshows ha, ha, hu, rfl⟩

theorem checkOverwrites_ok {txs : List CTransaction}
    (h : (checkOverwrites txs).Outcome coinsSpec m (.ok (), m')) :
    ∀ tx ∈ txs, m tx.hash = none := by
  induction txs with
  | nil => simp
  | cons tx txs ih =>
    simp only [checkOverwrites, outcome_bind_ok, outcome_lift_ok, rejectIf_eq_ok] at h
    obtain ⟨coins, m₁, hread, _, _, ⟨hpruned, rfl⟩, hrest⟩ := h
    rw [ViewProg.getCoins, ViewProg.call, outcome_op] at hread
    obtain ⟨r, hres, hm⟩ := hread
    obtain ⟨hcoins, rfl⟩ := mk.inj hres
    obtain rfl := ok.inj hcoins
    refine forall_mem_cons.mpr ⟨?_, ih hrest⟩
    rw [← hm]
    cases coins with
    | none => rfl
    | some c =>
      refine CCoins.present_of_isPruned ?_
      simpa using hpruned

end

end Elosys
