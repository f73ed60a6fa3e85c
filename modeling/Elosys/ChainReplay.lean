import Elosys.UnspentIndex

/-!
# The State of the Active Chain

Blocks are connected to a view and taken back with the undo data that was written for them, in any
order a chain allows. Whatever the history, the view answers as after connecting the blocks of the
active chain alone, so that what one block does can be added up along the chain. `VerifyDB` of
`main.cpp` takes the last blocks back in memory and finds nothing wrong.
-/

open LayerStack Program List Except Prod

namespace Elosys

open CacheView View

/-- A block of the active chain, with what `ConnectBlock` left behind for it: the undo data on
disk, and the roots of the three trees. -/
structure ChainBlock where
  c : ConsensusParams
  pindex : CBlockIndex
  pprev : CBlockIndex
  block : CBlock
  undo : CBlockUndo
  roots : ShieldedType → UInt256

section

variable [NoteTrees] [CryptoHash] {b : ChainBlock} {chain above below : List ChainBlock}

namespace ChainBlock

def connect (b : ChainBlock) : ViewProg (Option CBlockUndo) := connectBlock b.c b.pindex b.block

def disconnect [PubKeys] (b : ChainBlock) : ViewProg Bool := do
  let undo ← (undoReadFromDisk b.pprev.hash (undoWriteToDisk b.pprev.hash b.undo)).mapError
    fun _ => Fault.reject 0 "DisconnectBlock(): failure reading undo data"
  disconnectBlock b.c b.pindex b.block undo

/-- The block extends a view in which its coin imports find no coins. -/
structure Joins (b : ChainBlock) (s : PlainView) : Prop where
  extend : Extends b.c b.pindex b.pprev b.block s
  apart : b.block.TxidsApart
  burns : ∀ x ∈ burnTxids b.block.vtx, s.coins x = none

end ChainBlock

/-- **A history**: blocks are connected to the tip and taken back, in any order. -/
inductive TipRun [PubKeys] (v₀ : CacheView) : List ChainBlock → CacheView → Prop
  | start : TipRun v₀ [] v₀
  | connect {b chain v v'} (h : TipRun v₀ chain v) (hjoins : b.Joins v.answers)
      (hrun : b.connect.run viewHandler v = (.ok (some b.undo), v'))
      (hroots : ∀ t, b.roots t = (v'.answers.anchors t).best) : TipRun v₀ (b :: chain) v'
  | disconnect {b chain v} (h : TipRun v₀ (b :: chain) v) :
      TipRun v₀ chain (b.disconnect.run viewHandler v).2

/-- The blocks of a chain, its tip first, are connected one after the other. -/
inductive BuiltFrom (s₀ : PlainView) : List ChainBlock → PlainView → Prop
  | nil : BuiltFrom s₀ [] s₀
  | cons {b chain s s'} (h : BuiltFrom s₀ chain s) (hjoins : b.Joins s)
      (hout : b.connect.Outcome plainSpec s (.ok (some b.undo), s'))
      (hroots : ∀ t, b.roots t = (s'.anchors t).best) : BuiltFrom s₀ (b :: chain) s'

/-! ### Taking back -/

section

variable [PubKeys] {s₀ s s' : PlainView} {v₀ v : CacheView}

theorem disconnect_ensures (hjoins : b.Joins s)
    (hout : b.connect.Outcome plainSpec s (.ok (some b.undo), s')) :
    b.disconnect.Ensures plainSpec s' fun clean s₁ => clean = true ∧ s₁ = s := by
  obtain ⟨henc, hback⟩ := disconnectBlock_undoes hjoins.extend hjoins.apart hout
  refine ensures_lift_bind (a := b.undo)
    (by rw [undoReadFromDisk_undoWriteToDisk henc]; rfl) fun res hres => ?_
  obtain ⟨clean, s₁, rfl, hclean, rfl⟩ := hback res hres
  exact ⟨clean, _, rfl, hclean, PlainView.without_eq_self.mpr hjoins.burns⟩

theorem TipRun.builtFrom (hv₀ : v₀.AllSound) (h : TipRun v₀ chain v) :
    v.AllSound ∧ BuiltFrom v₀.answers chain v.answers := by
  induction h with
  | start => exact ⟨hv₀, .nil⟩
  | @connect b chain v v' _ hjoins hrun hroots ih =>
    obtain ⟨_, hout, hv', rfl⟩ := plain_simulates.run (p := b.connect) ⟨ih.1, rfl⟩
    rw [hrun] at hout hv'
    exact ⟨hv', ih.2.cons hjoins hout hroots⟩
  | @disconnect b chain v _ ih =>
    obtain ⟨hv, hbuilt⟩ := ih
    cases hbuilt with
    | cons h hjoins hout hroots =>
      obtain ⟨_, v', _, hrun, ⟨-, rfl⟩, hv', hans⟩ :=
        plain_simulates.run_ensures ⟨hv, rfl⟩ (disconnect_ensures hjoins hout)
      rw [hrun]
      exact ⟨hv', hans ▸ h⟩

/-- The loop of `VerifyDB` at level 3, with `pindexFailure` and `nGoodTransactions`. -/
def verifyDB : List ChainBlock → Option CBlockIndex → Nat → ViewProg (Option CBlockIndex × Nat)
  | [], pindexFailure, nGoodTransactions => pure (pindexFailure, nGoodTransactions)
  | b :: chain, pindexFailure, nGoodTransactions => do
    let fClean ← b.disconnect
    if fClean then verifyDB chain pindexFailure (nGoodTransactions + b.block.vtx.length)
    else verifyDB chain (some b.pindex) 0

theorem verifyDB_ensures (n : Nat) (h : BuiltFrom s₀ (above ++ below) s) :
    (verifyDB above none n).Ensures plainSpec s fun r s' =>
      r = (none, n + (above.map fun b => b.block.vtx.length).sum) ∧ BuiltFrom s₀ below s' := by
  induction above generalizing n s with
  | nil => exact ensures_pure ⟨rfl, h⟩
  | cons b above ih =>
    cases h with
    | cons h hjoins hout _ =>
      refine ensures_bind (disconnect_ensures hjoins hout) ?_
      rintro _ _ ⟨rfl, rfl⟩
      rw [map_cons, sum_cons, ← Nat.add_assoc]
      exact ih _ h

/-- **The last blocks are taken back cleanly**, after any history: `VerifyDB` finds no failure in
any number of them, and the view then answers as after the blocks below alone. -/
theorem verifyDB_passes (hv₀ : v₀.AllSound) (h : TipRun v₀ (above ++ below) v) :
    ∃ v', (verifyDB above none 0).run viewHandler v =
        (.ok (none, (above.map fun b => b.block.vtx.length).sum), v') ∧
      BuiltFrom v₀.answers below v'.answers := by
  obtain ⟨hv, hbuilt⟩ := h.builtFrom hv₀
  obtain ⟨_, v', _, hrun, ⟨rfl, hbelow⟩, -, rfl⟩ :=
    plain_simulates.run_ensures ⟨hv, rfl⟩ (verifyDB_ensures 0 hbuilt)
  exact ⟨v', by rw [hrun, Nat.zero_add], hbelow⟩

/-! ### What can have been created -/

def ChainBlock.allowance (b : ChainBlock) : Int :=
  (b.c.getBlockSubsidy b.pindex.nHeight).toInt
    + ((notaryPaycheque b.c b.pindex b.block).toOption.getD 0).toNat
    + (grantedCommission b.c b.pindex b.block).toNat + b.c.komodoExtrasatoshi.toInt

/-- **The supply is bounded by the active chain**: after any history, outputs and pools hold at
most what the blocks that are still connected were allowed to create. -/
theorem supply_bounded (hv₀ : v₀.AllSound) (h : TipRun v₀ chain v)
    (hplain : ∀ b ∈ chain, b.c.isKMD = false ∧ 0 ≤ b.c.komodoExtrasatoshi.toInt ∧
      ∀ tx ∈ b.block.vtx, tx.isCoinImport = false) :
    coinsWorth v.answers.coins + (chain.map fun b => shieldedInflow b.block.vtx).sum ≤
      coinsWorth v₀.answers.coins + (chain.map ChainBlock.allowance).sum := by
  obtain ⟨-, hbuilt⟩ := h.builtFrom hv₀
  generalize v.answers = s at hbuilt ⊢
  clear h
  induction hbuilt with
  | nil => simp
  | @cons b chain s s' _ _ hout _ ih =>
    obtain ⟨⟨hkmd, hextra, himport⟩, hplain⟩ := forall_mem_cons.mp hplain
    have hlone : LoneGenesis b.c b.pindex b.block := by
      intro hgenesis
      obtain ⟨-, _, _, _, -, -, -, hbody⟩ := connectBlock_ok hout
      rw [if_pos hgenesis] at hbody
      cases hbody.1
    obtain ⟨cheque, hcheque, hle⟩ :=
      connectBlock_worth hkmd himport hextra hlone (outcome_coins hout)
    have hallow : b.allowance = (b.c.getBlockSubsidy b.pindex.nHeight).toInt + cheque.toNat
        + (grantedCommission b.c b.pindex b.block).toNat + b.c.komodoExtrasatoshi.toInt := by
      rw [ChainBlock.allowance, hcheque]
      rfl
    have hbelow := ih hplain
    rw [map_cons, sum_cons, map_cons, sum_cons, hallow]
    omega

/-! ### The unspent outputs -/

def chainTxs (chain : List ChainBlock) : List CTransaction :=
  chain.reverse.flatMap fun b => b.block.vtx

/-- What each transaction spends is there, and once. -/
def SpendsUnspent : (UInt256 → List CTxOut) → List CTransaction → Prop
  | _, [] => True
  | U, tx :: txs => tx.spends.Nodup ∧ (∀ o ∈ tx.spends, (unspentOutput U o).isSome) ∧
      SpendsUnspent (outputsAfter U tx) txs

variable {txs : List CTransaction}

omit [PubKeys] [NoteTrees] [CryptoHash] in
theorem SpendsUnspent.append {U : UInt256 → List CTxOut} {txs' : List CTransaction}
    (h : SpendsUnspent U txs) (h' : SpendsUnspent (txs.foldl outputsAfter U) txs') :
    SpendsUnspent U (txs ++ txs') := by
  induction txs generalizing U with
  | nil => exact h'
  | cons tx txs ih => exact ⟨h.1, h.2.1, ih h.2.2 h'⟩

omit [PubKeys] in
theorem connectTxs_spends {c : ConsensusParams} {pindex : CBlockIndex} {i : Nat}
    {st st' : ConnectState} {m m' : UInt256 → Option CCoins} (hchecked : ∀ tx ∈ txs, Checked c tx)
    (h : (connectTxs c pindex i st txs).Outcome coinsSpec m (.ok st', m')) :
    SpendsUnspent (outputsOf m) txs ∧ outputsOf m' = txs.foldl outputsAfter (outputsOf m) := by
  induction txs generalizing i st m with
  | nil => exact ⟨trivial, by rw [(outcome_pure_ok.mp h).2]; rfl⟩
  | cons tx txs ih =>
    obtain ⟨st₁, m₁, htx, hrest⟩ := outcome_bind_ok.mp h
    obtain ⟨_, _, _, _, _, _, hspends, -, -, hfees, hupdate, -⟩ := connectTx_ok htx
    obtain rfl := coins_part.of_read (by decide) (uses_checkSpends c _ tx) hspends
    obtain rfl := coins_part.of_read (by decide) (uses_connectFees c pindex _ tx _) hfees
    have houts := updateCoins_outputs hupdate
    obtain ⟨_, hspend, -⟩ := updateCoins_coins hupdate
    obtain ⟨⟨_, _, _, _, _, -, -, hfree⟩, hchecked⟩ := forall_mem_cons.mp hchecked
    have hapart : tx.spends.Nodup := by
      unfold CTransaction.spends
      split
      · exact nodup_nil
      · exact hfree.inputsDistinct
    obtain ⟨hlater, hfold⟩ := ih hchecked hrest
    rw [houts] at hlater hfold
    exact ⟨⟨hapart, (spendInputs_undo hspend).2.1, hlater⟩, hfold⟩

/-- **The unspent outputs are those of the active chain**, after any history: what its transactions
make of the first ones, in their order. Each of them spends what is unspent when it comes. -/
theorem unspent_outputs_of_chain (hv₀ : v₀.AllSound) (h : TipRun v₀ chain v) :
    SpendsUnspent (outputsOf v₀.answers.coins) (chainTxs chain) ∧
      outputsOf v.answers.coins =
        (chainTxs chain).foldl outputsAfter (outputsOf v₀.answers.coins) := by
  obtain ⟨-, hbuilt⟩ := h.builtFrom hv₀
  generalize v.answers = s at hbuilt ⊢
  clear h
  induction hbuilt with
  | nil => exact ⟨trivial, rfl⟩
  | @cons b chain s s' _ _ hout _ ih =>
    have htxs := connectBlock_txs (coins_part.neutral (by decide) (by decide)) (outcome_coins hout)
    split at htxs
    · cases htxs.1
    obtain ⟨_, _, _, _, -, -, -, -, -, -, hconnect, -⟩ := htxs
    obtain ⟨_, _, _, _, -, hchecked, -⟩ := checkBlock_eq_ok (connectBlock_ok hout).1
    obtain ⟨hspends, hfold⟩ := connectTxs_spends hchecked hconnect
    have hcons : chainTxs (b :: chain) = chainTxs chain ++ b.block.vtx := by simp [chainTxs]
    rw [hcons, foldl_append, ← ih.2]
    exact ⟨ih.1.append (ih.2 ▸ hspends), hfold⟩

/-! ### The anchors -/

/-- **The anchors are those of the active chain**, after any history: the best one is the root
after the tip, and the visible ones are the first ones and the roots after its blocks. -/
theorem anchors_of_chain (hv₀ : v₀.AllSound) (h : TipRun v₀ chain v) (t : ShieldedType) :
    (v.answers.anchors t).best = (chain.head?.map (·.roots t)).getD (v₀.answers.anchors t).best ∧
      ∀ rt, (v.answers.anchors t).visible rt = true ↔
        (v₀.answers.anchors t).visible rt = true ∨ ∃ b ∈ chain, b.roots t = rt := by
  obtain ⟨-, hbuilt⟩ := h.builtFrom hv₀
  generalize v.answers = s at hbuilt ⊢
  clear h
  induction hbuilt with
  | nil => simp
  | @cons b chain s s' _ hjoins hout hroots ih =>
    refine ⟨(hroots t).symm, fun rt => ?_⟩
    obtain ⟨-, _, _, f₁, -, hbest, -, hbody⟩ := connectBlock_ok (outcome_anchors hout)
    obtain rfl : f₁ = s.anchors := anchors_part.of_call hbest (by simp [ViewOp.part])
    split at hbody
    · cases hbody.1
    obtain ⟨u, -, hconnect⟩ := hbody
    obtain ⟨-, hpush⟩ := connectTransactions_anchors
      (fun t tree tree' hroot happend => (hjoins.extend.roots t tree tree' hroot happend).1)
      hconnect
    obtain ⟨hvis, tree, tree', -, -, hpush⟩ := hpush t
    have hroot := hroots t
    rw [exists_mem_cons_iff, or_left_comm, ← ih.2 rt]
    rw [hpush, AnchorFace.push] at hroot ⊢
    split at hroot
    · next hsame =>
        rw [if_pos hsame, hroot]
        exact ⟨.inr, fun h => h.elim (fun heq => heq ▸ hvis) id⟩
    · next hother =>
        rw [if_neg hother, hroot]
        by_cases hrt : rt = root tree'
        · simp [hrt]
        · simp [hrt, Ne.symm hrt]

end

end

section

local instance replayTrees : NoteTrees := listTrees

local instance replayHash : CryptoHash := ⟨fun _ => 0, fun _ => 0⟩

local instance replayKeys : PubKeys := diagonalKeys

theorem tipRun_spendFirstBlock : ∃ (b : ChainBlock) (v : CacheView), b.c = smallChain ∧
    b.block = spendFirstBlock ∧ TipRun (recordView oneOutput rfl) [b] v := by
  generalize hrun : (connectBlock smallChain spendFirstIndex spendFirstBlock).run viewHandler
    (recordView oneOutput rfl) = out
  obtain ⟨undo, v, rfl⟩ : ∃ undo v, out = (.ok (some undo), v) := by
    rw [← hrun]
    exact ⟨_, _, rfl⟩
  have hapart : spendFirstBlock.TxidsApart := ⟨by decide, by decide, by decide⟩
  have hburns : ∀ x ∈ burnTxids spendFirstBlock.vtx,
      (recordView oneOutput rfl).answers.coins x = none := fun x hx => by cases hx
  exact ⟨⟨_, _, _, _, undo, fun t => (v.answers.anchors t).best⟩, v, rfl, rfl, TipRun.start.connect
    ⟨extends_spendFirstBlock storable_oneOutput, hapart, hburns⟩ hrun fun _ => rfl⟩

theorem verifyDB_passes_spendFirstBlock : ∃ b v v', TipRun (recordView oneOutput rfl) [b] v ∧
    (verifyDB [b] none 0).run viewHandler v = (.ok (none, 2), v') := by
  obtain ⟨b, v, -, hblock, hrun⟩ := tipRun_spendFirstBlock
  obtain ⟨v', hpasses, -⟩ :=
    verifyDB_passes (allSound_recordView oneOutput rfl) (show TipRun _ ([b] ++ []) v from hrun)
  exact ⟨b, v, v', hrun, by simpa [hblock, spendFirstBlock] using hpasses⟩

theorem supply_bounded_spendFirstBlock : ∃ b v, TipRun (recordView oneOutput rfl) [b] v ∧
    coinsWorth v.answers.coins + shieldedInflow b.block.vtx ≤
      coinsWorth (recordView oneOutput rfl).answers.coins + b.allowance := by
  obtain ⟨b, v, hc, hblock, hrun⟩ := tipRun_spendFirstBlock
  have hle := supply_bounded (allSound_recordView oneOutput rfl) hrun (by
    simp only [mem_singleton, forall_eq, hc, hblock]
    decide)
  exact ⟨b, v, hrun, by simpa using hle⟩

theorem unspent_outputs_spendFirstBlock : ∃ b v, TipRun (recordView oneOutput rfl) [b] v ∧
    SpendsUnspent (outputsOf (recordView oneOutput rfl).answers.coins) spendFirstBlock.vtx := by
  obtain ⟨b, v, -, hblock, hrun⟩ := tipRun_spendFirstBlock
  have hspends := (unspent_outputs_of_chain (allSound_recordView oneOutput rfl) hrun).1
  exact ⟨b, v, hrun, by simpa [chainTxs, hblock] using hspends⟩

theorem anchors_spendFirstBlock : ∃ b v, TipRun (recordView oneOutput rfl) [b] v ∧
    (v.answers.anchors .sapling).best = b.roots .sapling := by
  obtain ⟨b, v, -, -, hrun⟩ := tipRun_spendFirstBlock
  exact ⟨b, v, hrun, (anchors_of_chain (allSound_recordView oneOutput rfl) hrun .sapling).1⟩

end

end Elosys
