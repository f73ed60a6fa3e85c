import Elosys.BlockCheck
import Elosys.MemPoolRemove

/-!
# The Pools after a Check

The check of a block moves the transactions of the pool back only where it accepts the block: a
failing transaction, too many signature operations or an undue deposit end it before.
-/

open List

namespace Elosys

section

variable [CryptoHash]

namespace CTxMemPool

variable {pool : CTxMemPool} {e x : CTxMemPoolEntry}

theorem mem_addUnchecked : x ∈ (pool.addUnchecked e).mapTx ↔
    x ∈ pool.mapTx ∨ (pool.exists e.tx.hash = false ∧ x = e) := by
  change x ∈ pool.insertEntry e ↔ _
  cases hexists : pool.exists e.tx.hash with
  | false =>
    rw [mem_insertEntry hexists]
    tauto
  | true =>
    have hsome : (pool.find? e.tx.hash).isSome = true := hexists
    simp [insertEntry, hsome]

theorem mem_remove_single {tx : CTransaction} {removed : List CTransaction} :
    x ∈ (pool.remove tx false removed).2.mapTx ↔ x ∈ pool.mapTx ∧ x.tx.hash ≠ tx.hash := by
  simp only [remove, Bool.false_and, Bool.false_eq_true, if_false]
  rw [removeLoop]
  split
  · next hnone =>
      rw [removeLoop]
      exact ⟨fun hx => ⟨hx, ne_of_find?_none hnone hx⟩, And.left⟩
  · next e he =>
      obtain ⟨-, hhash⟩ := mem_of_find? he
      simp only [queuedBy, append_nil, Bool.false_eq_true, if_false]
      rw [removeLoop]
      simp [removeEntry, hhash]

end CTxMemPool

namespace BlockRules

variable {pool : CTxMemPool} {x : CTxMemPoolEntry}

theorem mem_removeEntries {txs : List CTransaction} :
    x ∈ (removeEntries pool txs).mapTx ↔ x ∈ pool.mapTx ∧ ∀ tx ∈ txs, x.tx.hash ≠ tx.hash := by
  induction txs generalizing pool with
  | nil => simp [removeEntries]
  | cons tx txs ih =>
    change x ∈ (removeEntries (pool.remove tx false []).2 txs).mapTx ↔ _
    rw [ih, CTxMemPool.mem_remove_single, forall_mem_cons, and_assoc]

theorem mem_addEntries {entries : List CTxMemPoolEntry}
    (hknown : ∀ e ∈ entries, ∀ y, y ∈ pool.mapTx ∨ y ∈ entries → y.tx.hash = e.tx.hash → y = e) :
    x ∈ (addEntries pool entries).mapTx ↔ x ∈ pool.mapTx ∨ x ∈ entries := by
  induction entries generalizing pool with
  | nil => simp [addEntries]
  | cons e entries ih =>
    -- The entry is there in any case.
    have hmem : ∀ y, y ∈ (pool.addUnchecked e).mapTx ↔ y ∈ pool.mapTx ∨ y = e := by
      intro y
      rw [CTxMemPool.mem_addUnchecked]
      cases hexists : pool.exists e.tx.hash with
      | false => simp
      | true =>
        obtain ⟨z, hfind⟩ := Option.isSome_iff_exists.mp hexists
        obtain ⟨hz, hhash⟩ := CTxMemPool.mem_of_find? hfind
        obtain rfl := hknown e mem_cons_self z (.inl hz) hhash
        simp only [Bool.true_eq_false, false_and, or_false]
        exact ⟨.inl, fun h => h.elim id (· ▸ hz)⟩
    have hrest : ∀ e' ∈ entries, ∀ y, y ∈ (pool.addUnchecked e).mapTx ∨ y ∈ entries →
        y.tx.hash = e'.tx.hash → y = e' := by
      intro e' he' y hy
      rw [hmem, or_assoc, ← mem_cons] at hy
      exact hknown e' (mem_cons_of_mem _ he') y hy
    change x ∈ (addEntries (pool.addUnchecked e) entries).mapTx ↔ _
    rw [ih hrest, hmem, mem_cons, or_assoc]

/-! ### A pass over the block -/

variable (c : BlockRules) (call : CheckBlockCall)

omit [CryptoHash] in
def Joined (hash : UInt256) : Prop :=
  ∃ p ∈ call.block.vtx.zipIdx, c.joinsPool call p = true ∧ p.1.hash = hash

omit [CryptoHash] in
theorem Joined.mem_block {hash : UInt256} (h : c.Joined call hash) :
    hash ∈ call.block.vtx.map CTransaction.hash := by
  obtain ⟨p, hp, -, rfl⟩ := h
  exact mem_map_of_mem (fst_mem_of_mem_zipIdx hp)

theorem mem_addBlockTx (st : Nat × Pools) (p : CTransaction × Nat) :
    (x ∈ (c.addBlockTx call st p).2.tmpmempool.mapTx ↔ x ∈ st.2.tmpmempool.mapTx ∧
        (c.joinsPool call p = true → p.1.hash ≠ x.tx.hash)) ∧
      (x ∈ st.2.mempool.mapTx → x ∈ (c.addBlockTx call st p).2.mempool.mapTx) ∧
      (x ∈ (c.addBlockTx call st p).2.mempool.mapTx →
        x ∈ st.2.mempool.mapTx ∨ (c.joinsPool call p = true ∧ p.1.hash = x.tx.hash)) := by
  unfold addBlockTx
  split
  · next hjoins =>
      refine ⟨?_, fun hx => ?_, fun hx => ?_⟩
      · simp [CTxMemPool.mem_remove_single, hjoins, ne_comm]
      · unfold myAddtomempool
        split
        · exact hx
        · exact CTxMemPool.mem_addUnchecked.mpr (.inl hx)
      · unfold myAddtomempool at hx
        split at hx
        · exact .inl hx
        · rcases CTxMemPool.mem_addUnchecked.mp hx with hx | ⟨-, rfl⟩
          · exact .inl hx
          · exact .inr ⟨hjoins, rfl⟩
  · next hjoins => exact ⟨by simp [hjoins], id, .inl⟩

theorem mem_foldl_addBlockTx (ps : List (CTransaction × Nat)) (st : Nat × Pools) :
    (x ∈ (ps.foldl (c.addBlockTx call) st).2.tmpmempool.mapTx ↔ x ∈ st.2.tmpmempool.mapTx ∧
        ¬ ∃ p ∈ ps, c.joinsPool call p = true ∧ p.1.hash = x.tx.hash) ∧
      (x ∈ st.2.mempool.mapTx → x ∈ (ps.foldl (c.addBlockTx call) st).2.mempool.mapTx) ∧
      (x ∈ (ps.foldl (c.addBlockTx call) st).2.mempool.mapTx → x ∈ st.2.mempool.mapTx ∨
        ∃ p ∈ ps, c.joinsPool call p = true ∧ p.1.hash = x.tx.hash) := by
  induction ps generalizing st with
  | nil => simp
  | cons p ps ih =>
    obtain ⟨htmp, hkeep, honly⟩ := c.mem_addBlockTx call (x := x) st p
    obtain ⟨ihtmp, ihkeep, ihonly⟩ := ih (c.addBlockTx call st p)
    rw [foldl_cons, exists_mem_cons_iff]
    refine ⟨?_, fun hx => ihkeep (hkeep hx), fun hx => ?_⟩
    · rw [ihtmp, htmp, not_or, not_and, and_assoc]
    · rcases ihonly hx with hx | hx
      · rcases honly hx with hx | hx
        · exact .inl hx
        · exact .inr (.inl hx)
      · exact .inr (.inr hx)

theorem mem_addBlockPass (pools : Pools) : (x ∈ (c.addBlockPass call pools).2.tmpmempool.mapTx ↔
        x ∈ pools.tmpmempool.mapTx ∧ ¬ c.Joined call x.tx.hash) ∧
      (x ∈ pools.mempool.mapTx → x ∈ (c.addBlockPass call pools).2.mempool.mapTx) ∧
      (x ∈ (c.addBlockPass call pools).2.mempool.mapTx →
        x ∈ pools.mempool.mapTx ∨ c.Joined call x.tx.hash) :=
  c.mem_foldl_addBlockTx call _ _

section

variable {pools : Pools} (hnodup : (pools.mempool.mapTx.map fun e => e.tx.hash).Nodup)
  (htmp : pools.tmpmempool.mapTx = [])

include hnodup

theorem mem_setAside_mempool :
    x ∈ (setAside pools).mempool.mapTx ↔ x ∈ pools.mempool.mapTx ∧ leavesPool x = false := by
  simp only [setAside, mem_removeEntries, mem_map, mem_filter]
  refine and_congr_right fun hx => ?_
  constructor
  · intro hother
    by_contra hleaves
    exact hother x.tx ⟨x, ⟨hx, by simpa using hleaves⟩, rfl⟩ rfl
  · rintro hstays _ ⟨e, ⟨he, hleaves⟩, rfl⟩ hhash
    obtain rfl := eq_of_hash_eq hnodup he hx hhash
    rw [hstays] at hleaves
    exact absurd hleaves (by simp)

include htmp

theorem mem_setAside_tmpmempool :
    x ∈ (setAside pools).tmpmempool.mapTx ↔ x ∈ pools.mempool.mapTx ∧ leavesPool x = true := by
  have hknown : ∀ e ∈ pools.mempool.mapTx.filter leavesPool, ∀ y,
      y ∈ pools.tmpmempool.mapTx ∨ y ∈ pools.mempool.mapTx.filter leavesPool →
        y.tx.hash = e.tx.hash → y = e := by
    intro e he y hy hhash
    rw [htmp] at hy
    have hy := hy.resolve_left not_mem_nil
    exact eq_of_hash_eq hnodup (mem_of_mem_filter he) (mem_of_mem_filter hy) hhash
  rw [setAside, mem_addEntries hknown, htmp, mem_filter]
  simp

theorem mem_filled : (x ∈ (c.addBlockTxs call 0 (setAside pools)).tmpmempool.mapTx ↔
      x ∈ pools.mempool.mapTx ∧ leavesPool x = true ∧ ¬ c.Joined call x.tx.hash) ∧
    (x ∈ pools.mempool.mapTx → leavesPool x = false →
      x ∈ (c.addBlockTxs call 0 (setAside pools)).mempool.mapTx) ∧
    (x ∈ (c.addBlockTxs call 0 (setAside pools)).mempool.mapTx →
      (x ∈ pools.mempool.mapTx ∧ leavesPool x = false) ∨ c.Joined call x.tx.hash) := by
  obtain ⟨hside, hkeep, honly⟩ := c.mem_addBlockPass call (x := x) (setAside pools)
  rw [mem_setAside_tmpmempool hnodup htmp] at hside
  rw [mem_setAside_mempool hnodup] at hkeep honly
  rw [addBlockTxs_eq]
  exact ⟨hside.trans and_assoc, fun hx hstays => hkeep ⟨hx, hstays⟩, honly⟩

end

/-! ### The whole check -/

def SetsAside : Prop :=
  ((c.checkBlockHeader call.getTime call.height call.block call.fCheckPOW).1 = true ∨
      (c.checkBlockHeader call.getTime call.height call.block call.fCheckPOW).2 = .ok ()) ∧
    c.checkBlockHead call = .ok () ∧ call.fCheckPOW = true

def PoolKept (block : ReceivedBlock) (before after : Pools) : Prop :=
  (∀ e : CTxMemPoolEntry, e.tx.hash ∉ block.vtx.map CTransaction.hash →
      (e ∈ after.mempool.mapTx ↔ e ∈ before.mempool.mapTx)) ∧
    after.tmpmempool.mapTx = []

theorem checkBlock_of_header (pools : Pools)
    (h : (c.checkBlockHeader call.getTime call.height call.block call.fCheckPOW).1 = true ∨
      (c.checkBlockHeader call.getTime call.height call.block call.fCheckPOW).2 = .ok ()) :
    (c.checkBlock call pools).pools = (c.checkBlockRest call pools).2 := by
  unfold checkBlock
  dsimp only
  split
  · next hfail hfuture =>
      rw [hfail, hfuture] at h
      exact absurd h (by simp)
  · rfl

theorem checkBlock_pools_of_not_setsAside (hcc : c.assetchainsCC = true) (pools : Pools)
    (h : ¬ c.SetsAside call) : (c.checkBlock call pools).pools = pools := by
  by_cases hheader :
      (c.checkBlockHeader call.getTime call.height call.block call.fCheckPOW).1 = true ∨
        (c.checkBlockHeader call.getTime call.height call.block call.fCheckPOW).2 = .ok ()
  · rw [c.checkBlock_of_header call pools hheader, checkBlockRest]
    cases hhead : c.checkBlockHead call with
    | error fault => rfl
    | ok u =>
      have hpow : call.fCheckPOW = false := by
        by_contra hpow
        exact h ⟨hheader, hhead, by simpa using hpow⟩
      simp [hcc, hpow]
  · rw [not_or, Bool.not_eq_true] at hheader
    unfold checkBlock
    dsimp only
    cases hverdict : (c.checkBlockHeader call.getTime call.height call.block call.fCheckPOW).2 with
    | ok u => exact absurd hverdict hheader.2
    | error fault => rw [hheader.1]

theorem checkBlock_pools_of_setsAside (hcc : c.assetchainsCC = true) (pools : Pools)
    (h : c.SetsAside call) : (c.checkBlock call pools).pools =
      if c.checkBlockTransactions call = .ok () then
        restore (c.addBlockTxs call 0 (setAside pools))
      else c.addBlockTxs call 0 (setAside pools) := by
  obtain ⟨hheader, hhead, hpow⟩ := h
  rw [c.checkBlock_of_header call pools hheader, checkBlockRest, hhead]
  cases htxs : c.checkBlockTransactions call with
  | error fault => simp [hcc, hpow]
  | ok u => simp [hcc, hpow]

section

variable {c call} {pools : Pools} (hnodup : (pools.mempool.mapTx.map fun e => e.tx.hash).Nodup)
  (htmp : pools.tmpmempool.mapTx = [])

include hnodup htmp

theorem poolKept_restore :
    PoolKept call.block pools (restore (c.addBlockTxs call 0 (setAside pools))) := by
  refine ⟨fun e hblock => ?_, rfl⟩
  have hnot : ¬ c.Joined call e.tx.hash := fun hjoined => hblock (hjoined.mem_block c call)
  have hfilled := fun x => c.mem_filled call (x := x) hnodup htmp
  have hknown : ∀ x ∈ (c.addBlockTxs call 0 (setAside pools)).tmpmempool.mapTx, ∀ y,
      y ∈ (c.addBlockTxs call 0 (setAside pools)).mempool.mapTx ∨
        y ∈ (c.addBlockTxs call 0 (setAside pools)).tmpmempool.mapTx →
        y.tx.hash = x.tx.hash → y = x := by
    intro x hx y hy hhash
    obtain ⟨hx, -, hother⟩ := (hfilled x).1.mp hx
    rcases hy with hy | hy
    · rcases (hfilled y).2.2 hy with ⟨hy, -⟩ | hjoined
      · exact eq_of_hash_eq hnodup hx hy hhash
      · rw [hhash] at hjoined
        exact absurd hjoined hother
    · exact eq_of_hash_eq hnodup hx ((hfilled y).1.mp hy).1 hhash
  obtain ⟨hside, hkeep, honly⟩ := hfilled e
  rw [restore, mem_addEntries hknown, hside]
  constructor
  · rintro (he | ⟨he, -, -⟩)
    · exact (honly he).elim And.left (absurd · hnot)
    · exact he
  · intro he
    cases hleaves : leavesPool e with
    | true => exact .inr ⟨he, rfl, hnot⟩
    | false => exact .inl (hkeep he hleaves)

theorem poolKept_addBlockTxs_iff :
    PoolKept call.block pools (c.addBlockTxs call 0 (setAside pools)) ↔
      ∀ e ∈ pools.mempool.mapTx, leavesPool e = true → c.Joined call e.tx.hash := by
  constructor
  · rintro ⟨-, hempty⟩ e he hleaves
    by_contra hjoined
    have hmem := (c.mem_filled call (x := e) hnodup htmp).1.mpr ⟨he, hleaves, hjoined⟩
    rw [hempty] at hmem
    exact absurd hmem (by simp)
  · intro hall
    refine ⟨fun e hblock => ?_, eq_nil_iff_forall_not_mem.mpr fun e he => ?_⟩
    · have hnot : ¬ c.Joined call e.tx.hash := fun hjoined => hblock (hjoined.mem_block c call)
      obtain ⟨-, hkeep, honly⟩ := c.mem_filled call (x := e) hnodup htmp
      constructor
      · intro he
        exact (honly he).elim And.left (absurd · hnot)
      · intro he
        refine hkeep he ?_
        by_contra hleaves
        exact hnot (hall e he (by simpa using hleaves))
    · obtain ⟨he, hleaves, hnot⟩ := (c.mem_filled call hnodup htmp).1.mp he
      exact hnot (hall e he hleaves)

/-- **When the check keeps the pools**: it ends before they are moved, the transactions pass, or
the block has all that was moved. -/
theorem checkBlock_poolKept_iff (hcc : c.assetchainsCC = true) :
    PoolKept call.block pools (c.checkBlock call pools).pools ↔
      (c.SetsAside call → c.checkBlockTransactions call = .ok () ∨
        ∀ e ∈ pools.mempool.mapTx, leavesPool e = true → c.Joined call e.tx.hash) := by
  by_cases haside : c.SetsAside call
  · rw [c.checkBlock_pools_of_setsAside call hcc pools haside]
    split
    · next hpass => exact ⟨fun _ _ => .inl hpass, fun _ => poolKept_restore hnodup htmp⟩
    · next hfail =>
        rw [poolKept_addBlockTxs_iff hnodup htmp]
        exact ⟨fun hall _ => .inr hall, fun h => (h haside).resolve_left hfail⟩
  · rw [c.checkBlock_pools_of_not_setsAside call hcc pools haside]
    exact ⟨fun _ h => absurd h haside, fun _ => ⟨fun _ _ => Iff.rfl, htmp⟩⟩

end

end BlockRules

end

/-! ### A transaction waits in the pool -/

section

local instance blockHash : CryptoHash := ⟨fun _ => 0, fun _ => 0⟩

def contractRules : BlockRules where
  maxMoney := 1000
  assetchainsPrivate := false
  assetchainsPublic := false
  isKMD := false
  isZEX := false
  assetchainsTxpow := 0
  scriptAddress := fun _ => ""
  notaryAddresses := fun _ => []
  serializeSize := fun _ => 100
  verifySprout := fun _ => true
  isBanned := fun _ => false
  isStakingTx := fun _ _ => false
  assetchainsCC := true
  assetchainsAdaptivepow := false
  assetchainsStaked := false
  nDecemberHardforkHeight := 0
  nS5HardforkHeight := 0
  checkEquihashSolution := fun _ => true
  checkProofOfWork := fun _ _ => true
  komodoCheckPOW := fun _ _ => true
  komodoChosennotary := fun _ _ _ => -1
  komodoCheckopret := fun _ => true
  maxBlockSize := fun _ => 1000
  blockSize := fun b => 100 * b.vtx.length
  maxBlockSigops := 100
  getLegacySigOpCount := fun _ => 1
  komodoIsPoS := fun _ _ => false
  komodoCheckDeposit := fun _ _ => true
  recursiveDynamicUsage := fun _ => 0
  consensusBranchId := 0

def firstTx : CTransaction where
  hash := 1
  nVersion := 1
  vin := [{ prevout := ⟨UInt256.null, 2 ^ 32 - 1⟩, scriptSig := [0x51, 0x51] }]
  vout := [⟨50, [0x51]⟩]

def noInputTx : CTransaction := { hash := 2, nVersion := 1, vin := [], vout := [⟨3, [0x51]⟩] }

def checkCall (hashMerkleRoot : UInt256) (vtx : List CTransaction) : CheckBlockCall where
  getTime := 1600000000
  chainTipTime := some 1599999000
  height := 5
  prevTime := some 1599999000
  block := {
    hash := 90
    nTime := 1600000000
    hashFinalSaplingRoot := 0
    vtx := vtx
    nVersion := 4
    hashPrevBlock := 89
    hashMerkleRoot := hashMerkleRoot
    nBits := 0 }
  fCheckPOW := true
  fCheckMerkleRoot := true

def waitingEntry : CTxMemPoolEntry where
  tx := { hash := 7, nVersion := 1, vin := [⟨⟨6, 0⟩, [], 0⟩], vout := [⟨3, [0x51]⟩] }
  nTxSize := 100

def waitingPools : Pools := ⟨({} : CTxMemPool).addUnchecked waitingEntry, {}⟩

theorem waitingPools_mapTx : waitingPools.mempool.mapTx = [waitingEntry] := rfl

theorem checkBlock_poolKept_coinbase :
    (contractRules.checkBlock (checkCall 1 [firstTx]) waitingPools).result = .ok () ∧
    waitingEntry ∈
      (contractRules.checkBlock (checkCall 1 [firstTx]) waitingPools).pools.mempool.mapTx := by
  refine ⟨by decide +kernel, ?_⟩
  have hkept : BlockRules.PoolKept (checkCall 1 [firstTx]).block waitingPools
      (contractRules.checkBlock (checkCall 1 [firstTx]) waitingPools).pools :=
    (BlockRules.checkBlock_poolKept_iff (by decide) rfl rfl).mpr fun _ => .inl (by decide +kernel)
  exact (hkept.1 waitingEntry (by decide)).mpr (by simp [waitingPools_mapTx])

/-- **A rejected block empties the pool**: it is rejected for a transaction without inputs, and
the pool stays in `tmpmempool`. -/
theorem checkBlock_loses_pool :
    (contractRules.checkBlock (checkCall 0 [firstTx, noInputTx]) waitingPools).result
      = .error (.dos 10 "bad-txns-vin-empty" false) ∧
    ¬ BlockRules.PoolKept (checkCall 0 [firstTx, noInputTx]).block waitingPools
      (contractRules.checkBlock (checkCall 0 [firstTx, noInputTx]) waitingPools).pools := by
  refine ⟨by decide +kernel, ?_⟩
  have haside : contractRules.SetsAside (checkCall 0 [firstTx, noInputTx]) := by
    unfold BlockRules.SetsAside
    decide +kernel
  have hfail : contractRules.checkBlockTransactions (checkCall 0 [firstTx, noInputTx])
      ≠ .ok () := by decide +kernel
  rw [BlockRules.checkBlock_pools_of_setsAside _ _ rfl _ haside, if_neg hfail,
    BlockRules.poolKept_addBlockTxs_iff (by decide) rfl]
  intro hall
  obtain ⟨p, hp, hjoins, hhash⟩ := hall waitingEntry (by simp [waitingPools_mapTx]) rfl
  have hnone : ∀ p ∈ [firstTx, noInputTx].zipIdx, p.1.hash ≠ 7 := by decide
  exact hnone p hp hhash

end

end Elosys
