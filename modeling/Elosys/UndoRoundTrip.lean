import Elosys.TxUndo

/-!
# Disconnecting What Was Connected

An accepted block is disconnected with its undo data, read back from disk: transactions are
undone, nullifiers cleared, the three roots popped, and the previous block is the best.
-/

open LayerStack Program List Except Prod

namespace Elosys

open CacheView CoinsColumn View

section

variable [NoteTrees] [CryptoHash] {c : ConsensusParams} {pindex : CBlockIndex} {ids : List UInt256}

/-! ### The trees and the anchors -/

/-- A transaction's commitments for the tree of one kind. -/
def CTransaction.commitments (tx : CTransaction) : ShieldedType → List UInt256
  | .sprout => tx.vjoinsplit.flatMap JSDescription.commitmentList
  | .sapling => tx.vShieldedOutput.map OutputDescription.cmu
  | .saplingFrontier => tx.vShieldedOutput.map OutputDescription.cmu

variable {txs : List CTransaction}

theorem connectTxs_trees {σ : Type} {spec : Spec viewSig Fault σ} {s s' : σ} {i : Nat}
    {st st' : ConnectState}
    (h : (connectTxs c pindex i st txs).Outcome spec s (.ok st', s')) (t : ShieldedType) :
    appendAll (st.tree t) (txs.flatMap fun tx => tx.commitments t) = .ok (st'.tree t) := by
  induction txs generalizing i st s with
  | nil =>
    obtain ⟨rfl, rfl⟩ := outcome_pure_ok.mp h
    rfl
  | cons tx txs ih =>
    obtain ⟨st₁, s₁, htx, hrest⟩ := outcome_bind_ok.mp h
    obtain ⟨_, _, _, st₂, _, _, -, -, -, hfees, -, hnotes⟩ := connectTx_ok htx
    have hfirst : appendAll (st.tree t) (tx.commitments t) = .ok (st₁.tree t) := by
      have hkept : st₂.tree t = st.tree t := by
        rw [(connectFees_kept hfees).2 t]
        cases t <;> rfl
      rw [← hkept]
      simp only [appendNotes, bind_eq_ok] at hnotes
      obtain ⟨sprout, hsprout, sapling, hsapling, frontier, hfrontier, hst⟩ := hnotes
      obtain rfl := ok.inj hst
      cases t with
      | sprout => exact hsprout
      | sapling => exact hsapling
      | saplingFrontier => exact hfrontier
    rw [flatMap_cons, appendAll, foldlM_append]
    exact bind_eq_ok.mpr ⟨_, hfirst, ih hrest⟩

variable {f f' : ShieldedType → AnchorFace}

theorem connectTxs_anchors {i : Nat} {st st' : ConnectState}
    (h : (connectTxs c pindex i st txs).Outcome anchorSpec f (.ok st', f')) : f' = f := by
  induction txs generalizing i st f with
  | nil => exact (outcome_pure_ok.mp h).2
  | cons tx txs ih =>
    obtain ⟨st₁, f₁, htx, hrest⟩ := outcome_bind_ok.mp h
    obtain ⟨_, _, _, _, _, _, hspends, -, -, hfees, hupdate, -⟩ := connectTx_ok htx
    obtain rfl := anchors_part.of_read (by decide) (uses_checkSpends c _ tx) hspends
    obtain rfl := anchors_part.of_read (by decide) (uses_connectFees c pindex _ tx _) hfees
    obtain ⟨_, _, _, _, _, hspend, hnf, hzk, hcoins, hmark⟩ := updateCoins_ok hupdate
    obtain rfl := anchors_part.of_on (by decide) (uses_spendInputs tx) hspend
    obtain rfl := anchors_part.of_call hnf (by simp [ViewOp.part])
    obtain rfl := anchors_part.of_call hzk (by simp [ViewOp.part])
    obtain rfl := anchors_part.of_call hcoins (by simp [ViewOp.part])
    obtain rfl := anchors_part.of_on (by decide) (uses_markImport tx _) hmark
    exact ih hrest

section
omit [CryptoHash]

theorem getBestAnchor_outcome {t : ShieldedType}
    {rt : UInt256} (h : (ViewProg.getBestAnchor t).Outcome anchorSpec f (.ok rt, f')) :
    rt = (f t).best ∧ f' = f := by
  have hres := outcome_op.mp h
  obtain ⟨hrt, rfl⟩ := mk.inj hres
  exact ⟨ok.inj hrt, rfl⟩

theorem getAnchorAt_outcome {t : ShieldedType} {rt : UInt256} {tree : Tree t}
    (h : (ViewProg.getAnchorAt t rt).Outcome anchorSpec f (.ok (some tree), f')) :
    root tree = rt ∧ (f t).visible rt = true ∧ f' = f := by
  obtain ⟨r, hres, hvis, hroot⟩ := outcome_op.mp h
  obtain ⟨hr, rfl⟩ := mk.inj hres
  obtain rfl := ok.inj hr
  exact ⟨hroot tree rfl, hvis.symm, rfl⟩

theorem readTrees_anchors {oldRoot : UInt256}
    {st : ConnectState} (h : readTrees.Outcome anchorSpec f (.ok (oldRoot, st), f')) :
    oldRoot = (f .sprout).best ∧ f' = f ∧
      ∀ t, root (st.tree t) = (f t).best ∧ (f t).visible (f t).best = true := by
  simp only [readTrees, outcome_bind_ok, outcome_lift_ok, outcome_pure_ok, assertSome_eq_ok] at h
  obtain ⟨_, _, hb₁, _, _, hr₁, _, _, ⟨rfl, rfl⟩, _, _, ⟨-, rfl⟩, _, _, hb₂, _, _, hr₂, _, _,
    ⟨rfl, rfl⟩, _, _, hb₃, _, _, hr₃, _, _, ⟨rfl, rfl⟩, hres, rfl⟩ := h
  obtain ⟨rfl, rfl⟩ := getBestAnchor_outcome hb₁
  obtain ⟨hroot₁, hvis₁, rfl⟩ := getAnchorAt_outcome hr₁
  obtain ⟨rfl, rfl⟩ := getBestAnchor_outcome hb₂
  obtain ⟨hroot₂, hvis₂, rfl⟩ := getAnchorAt_outcome hr₂
  obtain ⟨rfl, rfl⟩ := getBestAnchor_outcome hb₃
  obtain ⟨hroot₃, hvis₃, rfl⟩ := getAnchorAt_outcome hr₃
  obtain ⟨rfl, rfl⟩ := mk.inj hres
  refine ⟨rfl, rfl, fun t => ?_⟩
  cases t with
  | sprout => exact ⟨hroot₁, hvis₁⟩
  | sapling => exact ⟨hroot₂, hvis₂⟩
  | saplingFrontier => exact ⟨hroot₃, hvis₃⟩

end

variable {block : CBlock} {undo : CBlockUndo}

theorem connectTransactions_anchors {cheque : UInt64}
    (hnull : ∀ t (tree tree' : Tree t), root tree = (f t).best →
      appendAll tree (block.vtx.flatMap fun tx => tx.commitments t) = .ok tree' →
      root tree' ≠ UInt256.null)
    (h : (connectTransactions c pindex block cheque).Outcome anchorSpec f (.ok undo, f')) :
    undo.oldSproutTreeRoot = (f .sprout).best ∧
      ∀ t, (f t).visible (f t).best = true ∧ ∃ tree tree' : Tree t, root tree = (f t).best ∧
        appendAll tree (block.vtx.flatMap fun tx => tx.commitments t) = .ok tree' ∧
        f' t = (f t).push (root tree') := by
  obtain ⟨f₁, oldRoot, st₀, f₂, st, f₃, f₄, f₅, f₆, hover, hread, htxs, h₁, h₂, h₃, -, -, hbest,
    rfl⟩ := connectTransactions_ok h
  obtain rfl := anchors_part.of_plain (uses_checkOverwrites _) hover
  obtain ⟨hold, rfl, hroots⟩ := readTrees_anchors hread
  have htrees := connectTxs_trees htxs
  obtain rfl := connectTxs_anchors htxs
  have hnull' : ∀ t, root (st.tree t) ≠ UInt256.null :=
    fun t => hnull t _ _ (hroots t).1 (htrees t)
  obtain ⟨-, rfl⟩ := mk.inj (outcome_op.mp h₁ (hnull' .sprout))
  obtain ⟨-, rfl⟩ := mk.inj (outcome_op.mp h₂ (hnull' .sapling))
  obtain ⟨-, rfl⟩ := mk.inj (outcome_op.mp h₃ (hnull' .saplingFrontier))
  obtain rfl := anchors_part.of_call hbest (by simp [ViewOp.part])
  refine ⟨hold, fun t => ⟨(hroots t).2, st₀.tree t, st.tree t, (hroots t).1, htrees t, ?_⟩⟩
  cases t <;> simp [ConnectState.tree]

/-! ### A block -/

/-- What is known of a view and a block connected to it: the view is the one after the previous
block, with coins such as blocks create, the block's commitments lead back to the best anchor or
to a new one, and the block keeps to the formats' limits. -/
structure Extends (c : ConsensusParams) (pindex pprev : CBlockIndex) (block : CBlock)
    (s : PlainView) : Prop where
  prev : pindex.pprev = some pprev
  hash : pindex.hash ≠ UInt256.null
  prevHash : pprev.hash ≠ UInt256.null
  height : 0 < pindex.nHeight
  height_lt : pindex.nHeight < 2 ^ 31
  coins : Stored s.coins
  best : ∀ t, (s.anchors t).best ≠ UInt256.null
  sapling : (s.anchors .sapling).best = oldSaplingRoot c pprev .sapling
  frontier : (s.anchors .saplingFrontier).best = oldSaplingRoot c pprev .saplingFrontier
  roots : ∀ t (tree tree' : Tree t), root tree = (s.anchors t).best →
    appendAll tree (block.vtx.flatMap fun tx => tx.commitments t) = .ok tree' →
    root tree' ≠ UInt256.null ∧
      (root tree' = (s.anchors t).best ∨ (s.anchors t).visible (root tree') = false)
  versions : ∀ tx ∈ block.vtx, tx.nVersion < 2 ^ 31
  sizes : ∀ tx ∈ block.vtx, tx.vin.length ≤ c.serializeSize tx
  maxBlockSize : c.maxBlockSize pindex.nHeight ≤ maxSize

/-- The transactions' identifiers differ, are not those of redeemed burn transactions, and none
spends outputs of these. -/
structure CBlock.TxidsApart (block : CBlock) : Prop where
  distinct : (block.vtx.map CTransaction.hash).Nodup
  own : ∀ tx ∈ block.vtx, tx.hash ∉ burnTxids block.vtx
  inputs : ∀ tx ∈ block.vtx, tx.isMint = false → ∀ i ∈ tx.vin,
    i.prevout.hash ∉ burnTxids block.vtx

section
omit [NoteTrees] [CryptoHash]

theorem CBlock.TxidsApart.clearOf (h : block.TxidsApart) {tx : CTransaction}
    (htx : tx ∈ block.vtx) : ClearOf (burnTxids block.vtx) tx := by
  refine ⟨h.own tx htx, h.inputs tx htx, fun himport => ?_⟩
  exact mem_map_of_mem (mem_filter.mpr ⟨htx, himport⟩)

theorem RevealFresh.restore {n : NullifierSet → UInt256 → Bool} (h : RevealFresh n txs) :
    setRevealed txs false (setRevealed txs true n) = n := by
  funext set nf
  simp only [setRevealed, setAll]
  by_cases hnf : nf ∈ txs.flatMap fun tx => nullifiersOf tx set
  · simp [hnf, (h set).2 nf hnf]
  · simp [hnf]

end

def PlainView.without (s : PlainView) (ids : List UInt256) : PlainView :=
  { s with coins := fun x => if x ∈ ids then none else s.coins x }

omit [NoteTrees] [CryptoHash] in
theorem PlainView.without_eq_self {s : PlainView} :
    s.without ids = s ↔ ∀ x ∈ ids, s.coins x = none := by
  constructor
  · intro h x hx
    rw [← h]
    exact if_pos hx
  · intro h
    refine PlainView.ext (funext fun x => ?_) rfl rfl rfl
    by_cases hx : x ∈ ids
    · rw [h x hx]
      exact if_pos hx
    · exact if_neg hx

theorem connectBlock_coins {pprev : CBlockIndex}
    {s₀ s : PlainView} (hext : Extends c pindex pprev block s₀) (hapart : block.TxidsApart)
    (h : (connectBlock c pindex block).Outcome plainSpec s₀ (.ok (some undo), s)) :
    undo.Encodable ∧ undo.vtxundo.length + 1 = block.vtx.length ∧ (disconnectTxs pindex.nHeight
        (block.vtx.zip (none :: undo.vtxundo.map some))).Ensures plainSpec s
        fun clean s' => clean = true ∧ s'.coins = (s₀.without (burnTxids block.vtx)).coins ∧
          s'.anchors = s.anchors ∧ s'.bestBlock = s.bestBlock := by
  obtain ⟨coinbase, rest, hvtx, hcb, -, hchecked, hsize⟩ :=
    checkBlock_eq_ok (connectBlock_ok h).1
  have htxs := connectBlock_txs (coins_part.neutral (by decide) (by decide)) (outcome_coins h)
  split at htxs
  · exact absurd htxs.1 (by simp)
  obtain ⟨_, oldRoot, st₀, st, hundo, -, -, -, hnil, hover, hconnect, -⟩ := htxs
  obtain rfl := Option.some.inj hundo
  have hok : Undoable c (burnTxids block.vtx) s₀.coins block.vtx :=
    ⟨fun tx htx => ⟨hchecked tx htx, hext.versions tx htx⟩, fun tx htx => hapart.clearOf htx,
      hapart.distinct, checkOverwrites_ok hover⟩
  generalize hids : burnTxids block.vtx = ids at hok
  rw [hvtx] at hconnect hok
  obtain ⟨st₁, m₁, hfirst, hrest⟩ := outcome_bind_ok.mp hconnect
  obtain ⟨undo₀, hstor, hupdate, hundo₀⟩ := connectTx_coins (hok.checked _ (.head _)) hfirst
  obtain ⟨hm₁, -⟩ := updateCoins_stored hext.coins hstor hext.height hext.height_lt hupdate
  obtain ⟨undos, hundos, hcount, hfits, hback⟩ := disconnectTxs_undoes (a := s.coins) hm₁
    (hok.step hext.coins hstor hext.height hext.height_lt hupdate) hext.height hext.height_lt
    (by omega) hrest
  have hmint : coinbase.isMint = true := by simp [CTransaction.isMint, hcb]
  rw [if_pos rfl, hnil] at hundo₀
  rw [hundo₀, nil_append] at hundos
  rw [hundos]
  refine ⟨?_, by simp [hvtx, hcount], ?_⟩
  · have hrestlen : undos.length ≤ maxSize := by
      have hle := hsize.trans hext.maxBlockSize
      rw [hvtx, length_cons] at hle
      omega
    refine ⟨hrestlen, fun u hu => ?_, fun u hu => (hfits u hu).1⟩
    obtain ⟨-, tx, htx, hle⟩ := hfits u hu
    have hmem : tx ∈ block.vtx := hvtx ▸ mem_cons_of_mem _ htx
    exact hle.trans ((hext.sizes tx hmem).trans (hchecked tx hmem).size_le)
  · rw [hvtx]
    refine ensures_bind (hback s ?_) ?_
    · funext x
      simp [overlay]
    · rintro _ s₁ ⟨rfl, hcoins, hanchors, hbest⟩
      refine ensures_bind (disconnectTx_undoes hext.coins (hok.clear _ (.head _))
        (hok.new _ (.head _)) hupdate (fun hno => absurd hmint (by simp [hno])) hcoins) ?_
      rintro _ s₂ ⟨rfl, rfl⟩
      refine ensures_pure ⟨rfl, ?_, hanchors, hbest⟩
      funext x
      have hclear : x ∈ ids → clearBurn coinbase (clearBurns rest s.coins) x = none := by
        rw [← hids, hvtx]
        exact clearBurns_of_mem
      by_cases hx : x ∈ ids
      · simpa [overlay, PlainView.without, hids, hx] using hclear hx
      · simp [overlay, PlainView.without, hx]

/-- **Disconnecting a block** takes everything back cleanly, but for coins under redeemed burn
hashes: these are gone. -/
theorem disconnectBlock_undoes {pprev : CBlockIndex}
    {s₀ s : PlainView} (hext : Extends c pindex pprev block s₀) (hapart : block.TxidsApart)
    (h : (connectBlock c pindex block).Outcome plainSpec s₀ (.ok (some undo), s)) :
    undo.Encodable ∧ (disconnectBlock c pindex block undo).Ensures plainSpec s fun clean s' =>
        clean = true ∧ s' = s₀.without (burnTxids block.vtx) := by
  obtain ⟨henc, hlen, htxs⟩ := connectBlock_coins hext hapart h
  refine ⟨henc, ?_⟩
  obtain ⟨hcheck, _, best, s₁, -, hgetBest, hbest, hbody⟩ := connectBlock_ok h
  obtain ⟨_, _, ⟨⟩, hread, hsame⟩ := ensures_getBestBlock s₀ _ hgetBest
  rw [hsame] at hbody
  split at hbody
  · exact absurd hbody.1 (by simp)
  next hgenesis =>
  obtain ⟨_, hundo, hbody⟩ := hbody
  obtain rfl := Option.some.inj hundo
  -- what the block did to the other parts of the view
  have hprev : s₀.bestBlock = pprev.hash := by
    rw [← hread, ← hbest, hext.prev]
    rfl
  have htip : s.bestBlock = pindex.hash := by
    obtain ⟨_, _, _, _, _, _, _, _, _, -, -, -, -, -, -, -, -, hset, -⟩ :=
      connectTransactions_ok (outcome_bestBlock hbody)
    exact congrArg Prod.snd (outcome_op.mp hset hext.hash)
  obtain ⟨hold, hanchors⟩ := connectTransactions_anchors
    (fun t tree tree' h₁ h₂ => (hext.roots t tree tree' h₁ h₂).1) (outcome_anchors hbody)
  have hnullifiers :=
    connectBlock_nullifiers (fun hgen => absurd hgen hgenesis) (outcome_nullifiers h)
  have hvis : ∀ t, (s.anchors t).visible (s.anchors t).best = true := by
    intro t
    obtain ⟨hshown, _, _, -, -, hpush⟩ := hanchors t
    rw [hpush]
    exact AnchorFace.visible_push hshown _
  have hpop : ∀ t, (s.anchors t).pop (s₀.anchors t).best = s₀.anchors t := by
    intro t
    obtain ⟨-, tree, tree', hroot, happend, hpush⟩ := hanchors t
    rw [hpush]
    exact AnchorFace.pop_push (hext.roots t tree tree' hroot happend).2
  -- the way back, but for the nullifiers
  have hback : (disconnectBlock c pindex block undo).Ensures plainSpec s fun clean s' =>
      clean = true ∧ s'.coins = (s₀.without (burnTxids block.vtx)).coins ∧
        s'.anchors = s₀.anchors ∧ s'.bestBlock = s₀.bestBlock := by
    refine ensures_bind (ensures_getBestBlock s) ?_
    rintro _ s ⟨rfl, rfl⟩
    refine ensures_lift_bind (a := ()) (assertThat_eq_ok.mpr (by simp [htip])) ?_
    refine ensures_lift_bind (a := ()) (rejectIf_eq_ok.mpr (by simp [hlen])) ?_
    refine ensures_bind htxs ?_
    rintro _ s₁ ⟨rfl, hcoins, hanchors₁, -⟩
    rw [hold]
    refine ensures_bind (ensures_popAnchor s₁ (hext.best _) (by rw [hanchors₁]; exact hvis _)) ?_
    rintro _ s₂ rfl
    refine ensures_lift_bind (assertSome_eq_ok.mpr hext.prev) ?_
    rw [← hext.sapling, ← hext.frontier]
    refine ensures_bind (ensures_popAnchor _ (hext.best _) ?_) ?_
    · simpa [hanchors₁] using hvis .sapling
    rintro _ s₃ rfl
    refine ensures_bind (ensures_popAnchor _ (hext.best _) ?_) ?_
    · simpa [hanchors₁] using hvis .saplingFrontier
    rintro _ s₄ rfl
    refine ensures_bind (ensures_setBestBlock _ hext.prevHash) ?_
    rintro _ s₅ rfl
    refine ensures_pure ⟨rfl, hcoins, ?_, hprev.symm⟩
    funext t
    cases t with
    | sprout => simpa [hanchors₁] using hpop .sprout
    | sapling => simpa [hanchors₁] using hpop .sapling
    | saplingFrontier => simpa [hanchors₁] using hpop .saplingFrontier
  intro res hres
  obtain ⟨clean, s', rfl, hclean, hcoins, hanchors', hbest'⟩ := hback res hres
  obtain ⟨undos, hfst, hclear⟩ := disconnectBlock_txs
    (nullifiers_part.neutral (by decide) (by decide)) (outcome_nullifiers hres)
  have hnf : s'.nullifiers = s₀.nullifiers := by
    rw [disconnectTxs_nullifiers hclear, hfst, hnullifiers.2]
    exact hnullifiers.1.restore
  exact ⟨clean, s', rfl, hclean, PlainView.ext hcoins hnf hanchors' hbest'⟩

/-- **A block is taken back exactly when its coin imports found no coins under their burn hashes.**
-/
theorem disconnect_restores_iff [PubKeys] {pprev : CBlockIndex} {block : CBlock}
    {v v₁ : CacheView} {undo : CBlockUndo} (hv : v.AllSound)
    (hext : Extends c pindex pprev block v.answers) (hapart : block.TxidsApart)
    (hconnect : (connectBlock c pindex block).run viewHandler v = (.ok (some undo), v₁)) :
    (∃ undo' v₂, undoReadFromDisk pprev.hash (undoWriteToDisk pprev.hash undo) = .ok undo' ∧
        (disconnectBlock c pindex block undo').run viewHandler v₁ = (.ok true, v₂) ∧
        v₂.answers = v.answers) ↔
      ∀ tx ∈ block.vtx, tx.isCoinImport = true → v.answers.coins tx.burnTxid = none := by
  have hrel : PlainRel v v.answers := ⟨hv, rfl⟩
  obtain ⟨_, hout, hv₁, rfl⟩ := plain_simulates.run (p := connectBlock c pindex block) hrel
  rw [hconnect] at hout hv₁
  obtain ⟨henc, hback⟩ := disconnectBlock_undoes hext hapart hout
  have hrel₁ : PlainRel v₁ v₁.answers := ⟨hv₁, rfl⟩
  obtain ⟨_, v₂, _, hrun, ⟨rfl, rfl⟩, hv₂, hans⟩ := plain_simulates.run_ensures hrel₁ hback
  have hread : undoReadFromDisk pprev.hash (undoWriteToDisk pprev.hash undo) = .ok undo :=
    undoReadFromDisk_undoWriteToDisk henc
  have hgone : v.answers.without (burnTxids block.vtx) = v.answers ↔
      ∀ tx ∈ block.vtx, tx.isCoinImport = true → v.answers.coins tx.burnTxid = none := by
    rw [PlainView.without_eq_self]
    simp only [burnTxids, mem_map, mem_filter]
    constructor
    · exact fun h tx htx himport => h _ ⟨tx, ⟨htx, himport⟩, rfl⟩
    · rintro h _ ⟨tx, ⟨htx, himport⟩, rfl⟩
      exact h tx htx himport
  rw [← hgone]
  constructor
  · rintro ⟨undo', v₃, hread', hrun', hans'⟩
    obtain rfl : undo = undo' := ok.inj (hread.symm.trans hread')
    obtain rfl : v₂ = v₃ := congrArg Prod.snd (hrun.symm.trans hrun')
    rw [← hans, hans']
  · exact fun h => ⟨undo, v₂, hread, hrun, hans.trans h⟩

end

/-! ### A burn transaction redeemed twice -/

section

local instance undoTrees : NoteTrees := listTrees

local instance undoHash : CryptoHash := ⟨fun _ => 0, fun _ => 0⟩

local instance undoKeys : PubKeys := diagonalKeys

def importChain : ConsensusParams := { smallChain with coinImportValue := fun _ => 5 }

def importTx (hash : UInt256) : CTransaction where
  hash := hash
  nVersion := 1
  vin := [⟨⟨77, 1000000000⟩, [0x01, 0x01], 0⟩]
  vout := [⟨2, [0x51]⟩, ⟨3, [0x51]⟩]

def spendImportTx : CTransaction where
  hash := 61
  nVersion := 1
  vin := [⟨⟨60, 1⟩, [], 0⟩, ⟨⟨60, 0⟩, [], 0⟩]
  vout := [⟨5, [0x51]⟩]

def importBlock : CBlock :=
  ⟨2, 0, UInt256.null, [coinbaseTx 41, importTx 60, spendImportTx]⟩

def importAgainBlock : CBlock := ⟨3, 0, UInt256.null, [coinbaseTx 42, importTx 62]⟩

def importAgainIndex : CBlockIndex := ⟨3, 2, 0, UInt256.null, some (indexOnGenesis 2)⟩

def genesisView : CacheView := ⟨{}, .base { bestBlock := some 1 }⟩

theorem allSound_genesisView : genesisView.AllSound := by
  refine ⟨CoinsOp.sound_new _, fun _ => nullifierKind.coherent_empty trivial, ?_⟩
  have hbase : AnchorsSound (.base { bestBlock := some 1 }) :=
    ⟨fun _ => trivial, fun t rt tree h => represents_empty.rooted t rt tree h⟩
  exact hbase.layer_empty fun _ => rfl

theorem extends_importBlock :
    Extends importChain (indexOnGenesis 2) genesisIndex importBlock genesisView.answers where
  prev := rfl
  hash := by decide
  prevHash := by decide
  height := by decide
  height_lt := by decide
  coins := by
    intro x c hc
    exact absurd (show none = some c from hc) (by simp)
  best t := listTrees_root_ne_null t _
  sapling := rfl
  frontier := rfl
  roots t tree tree' hroot happend := by
    obtain rfl : tree = tree' := by
      cases t <;> exact ok.inj happend
    exact ⟨listTrees_root_ne_null t tree, .inl hroot⟩
  versions := by decide
  sizes := by decide
  maxBlockSize := by decide

/-- A block whose coin import redeems a fresh burn is taken back. -/
theorem disconnect_restores_importBlock : ∃ undo v₁ undo' v₂,
      (connectBlock importChain (indexOnGenesis 2) importBlock).run viewHandler genesisView
        = (.ok (some undo), v₁) ∧
      undoReadFromDisk genesisIndex.hash (undoWriteToDisk genesisIndex.hash undo) = .ok undo' ∧
      (disconnectBlock importChain (indexOnGenesis 2) importBlock undo').run viewHandler v₁
        = (.ok true, v₂) ∧ v₂.answers = genesisView.answers := by
  generalize hrun : (connectBlock importChain (indexOnGenesis 2) importBlock).run viewHandler
    genesisView = out
  obtain ⟨undo, v₁, rfl⟩ : ∃ undo v₁, out = (.ok (some undo), v₁) := by
    rw [← hrun]
    exact ⟨_, _, rfl⟩
  have hapart : importBlock.TxidsApart := ⟨by decide, by decide, by decide⟩
  obtain ⟨undo', v₂, hread, hback, hans⟩ :=
    (disconnect_restores_iff allSound_genesisView extends_importBlock hapart hrun).mpr
      fun _ _ _ => rfl
  exact ⟨undo, v₁, undo', v₂, rfl, hread, hback, hans⟩

/-- The undo data of a block whose transactions spend nothing. -/
def bareUndo : CBlockUndo := ⟨[{}], emptyRoot .sprout⟩

/-- **A burn redeemed twice**: disconnecting the second import takes both tombstones away. -/
theorem disconnect_loses_tombstone :
    ∃ v v₁ v₂, v = ((connectBlock importChain (indexOnGenesis 2) importBlock).run viewHandler
        genesisView).2 ∧
      (connectBlock importChain importAgainIndex importAgainBlock).run viewHandler v
        = (.ok (some bareUndo), v₁) ∧
      undoReadFromDisk (indexOnGenesis 2).hash
          (undoWriteToDisk (indexOnGenesis 2).hash bareUndo) = .ok bareUndo ∧
      (disconnectBlock importChain importAgainIndex importAgainBlock bareUndo).run viewHandler
        v₁ = (.ok true, v₂) ∧
      (v.answers.coins 77).isSome = true ∧ v₂.answers.coins 77 = none := by
  refine ⟨_, _, _, rfl, rfl, undoReadFromDisk_undoWriteToDisk ?_, rfl, rfl, rfl⟩
  exact ⟨by decide, by simp [bareUndo], by simp [bareUndo]⟩

end

end Elosys
