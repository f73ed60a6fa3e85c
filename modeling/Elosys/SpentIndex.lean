import Elosys.Prevouts

/-!
# The Spent Index

Under an outpoint, `ConnectBlock` of `main.cpp` stores which input spent it. `DisconnectBlock`
collects the entries that would take this back, but does not write them, and an output without an
address gets no entry.
-/

open LayerStack Program List Option Function Except

namespace Elosys

open CacheView CoinsColumn View ViewProg

/-! ### Indexes of the block database -/

section

variable {κ α : Type} [DecidableEq κ]

/-- A batch of the block database: null values erase, others write. -/
def updateIndex (isNull : α → Bool) (vect : List (κ × α)) (db : κ → Option α) : κ → Option α :=
  vect.foldl (fun db e => update db e.1 (if isNull e.2 then none else some e.2)) db

variable {isNull : α → Bool} {vect vect' : List (κ × α)} {db : κ → Option α} {k : κ}

theorem updateIndex_append : updateIndex isNull (vect ++ vect') db
      = updateIndex isNull vect' (updateIndex isNull vect db) :=
  foldl_append

theorem updateIndex_of_notMem (h : ∀ e ∈ vect, e.1 ≠ k) : updateIndex isNull vect db k = db k := by
  induction vect generalizing db with
  | nil => rfl
  | cons e vect ih =>
    obtain ⟨he, hrest⟩ := forall_mem_cons.mp h
    exact (ih hrest).trans (update_of_ne (Ne.symm he) _ _)

theorem updateIndex_of_mem (isNull : α → Bool) (db : κ → Option α) (h : ∃ e ∈ vect, e.1 = k) :
    ∃ e ∈ vect, e.1 = k ∧ updateIndex isNull vect db k = if isNull e.2 then none else some e.2 := by
  induction vect generalizing db with
  | nil =>
    obtain ⟨e, he, -⟩ := h
    exact absurd he (by simp)
  | cons e vect ih =>
    rw [updateIndex, foldl_cons]
    by_cases hrest : ∃ e ∈ vect, e.1 = k
    · obtain ⟨e', he', hk, heq⟩ :=
        ih (update db e.1 (if isNull e.2 then none else some e.2)) hrest
      exact ⟨e', .tail _ he', hk, heq⟩
    · have hk : e.1 = k := by
        obtain ⟨e', he', hk⟩ := h
        rcases mem_cons.mp he' with rfl | he'
        · exact hk
        · exact absurd ⟨e', he', hk⟩ hrest
      refine ⟨e, .head _, hk, ?_⟩
      refine (updateIndex_of_notMem fun e' he' hk' => hrest ⟨e', he', hk'⟩).trans ?_
      rw [← hk, update_self]

end

/-- `GetAddressType`: a script's address type, zero for none, and what `Solver` extracts. -/
class AddressTypes where
  getAddressType : CScript → Nat × List (List UInt8)

abbrev CSpentIndexKey := COutPoint

structure CSpentIndexValue where
  txid : UInt256
  inputIndex : Nat
  blockHeight : Int
  satoshis : CAmount
  addressType : Nat
  addressHash : BitVec 160
  deriving DecidableEq

def CSpentIndexValue.isNull (v : CSpentIndexValue) : Bool := v.txid.isNull

def updateSpentIndex : List (CSpentIndexKey × CSpentIndexValue) →
    (CSpentIndexKey → Option CSpentIndexValue) → CSpentIndexKey → Option CSpentIndexValue :=
  updateIndex CSpentIndexValue.isNull

/-- The hash of an address: 20 bytes are one already. -/
def addrHash [CryptoHash] (addr : List UInt8) : BitVec 160 :=
  if addr.length = 20 then BitVec.ofNat 160 (ByteCodec.ofLeBytes addr)
  else CryptoHash.Hash160 addr

section

variable [CryptoHash] [AddressTypes]

/-- The entry of `ConnectBlock` for an input, with the last address. -/
def spentEntry (nHeight : Nat) (txhash : UInt256) (j : Nat) (input : CTxIn)
    (prevout : CTxOut) : List (CSpentIndexKey × CSpentIndexValue) :=
  let (keyType, vSols) := AddressTypes.getAddressType prevout.scriptPubKey
  if keyType ≠ 0 then
    [(input.prevout, ⟨txhash, j, nHeight, prevout.nValue, keyType,
      (vSols.getLast?.map addrHash).getD 0⟩)]
  else []

/-- The entries of `ConnectBlock` for a transaction's inputs from one on. -/
def spentEntriesFrom (nHeight : Nat) (txhash : UInt256) :
    Nat → List (CTxIn × CTxOut) → List (CSpentIndexKey × CSpentIndexValue)
  | _, [] => []
  | j, (input, prevout) :: rest =>
    spentEntry nHeight txhash j input prevout ++ spentEntriesFrom nHeight txhash (j + 1) rest

/-- The entries of `ConnectBlock` for a block, with the outputs seen. -/
def spentIndexBatch (nHeight : Nat) (txs : List CTransaction) (prevouts : List (List CTxOut)) :
    List (CSpentIndexKey × CSpentIndexValue) :=
  (txs.zip prevouts).flatMap fun p =>
    spentEntriesFrom nHeight p.1.hash 0 (p.1.vin.zip p.2)

end

/-! ### The entries of a block -/

section

variable [CryptoHash] [AddressTypes]

def HasAddress (o : CTxOut) : Prop := (AddressTypes.getAddressType o.scriptPubKey).1 ≠ 0

instance (o : CTxOut) : Decidable (HasAddress o) := inferInstanceAs (Decidable (_ ≠ _))

/-- The entry names the spender and its input. -/
def CSpentIndexValue.Names (v : CSpentIndexValue) (nHeight : Nat) (tx : CTransaction)
    (o : COutPoint) : Prop :=
  tx.isMint = false ∧ v.txid = tx.hash ∧ v.blockHeight = nHeight ∧
    (tx.vin[v.inputIndex]?).map CTxIn.prevout = some o

omit [CryptoHash] [AddressTypes] in
theorem CSpentIndexValue.Names.mem_spends {v : CSpentIndexValue} {nHeight : Nat}
    {tx : CTransaction} {o : COutPoint} (h : v.Names nHeight tx o) : o ∈ tx.spends := by
  obtain ⟨hmint, -, -, hat⟩ := h
  obtain ⟨i, hi, rfl⟩ := map_eq_some_iff.mp hat
  rw [CTransaction.spends, hmint]
  exact mem_map_of_mem (mem_of_getElem? hi)

theorem spentEntry_of_hasAddress {prevout : CTxOut} (h : HasAddress prevout) (nHeight : Nat)
    (txhash : UInt256) (j : Nat) (input : CTxIn) :
    ∃ v : CSpentIndexValue, spentEntry nHeight txhash j input prevout = [(input.prevout, v)] :=
  ⟨_, if_pos h⟩

theorem mem_spentEntry {nHeight j : Nat} {txhash : UInt256} {input : CTxIn} {prevout : CTxOut}
    {e : CSpentIndexKey × CSpentIndexValue} (h : e ∈ spentEntry nHeight txhash j input prevout) :
    e.1 = input.prevout ∧ e.2.txid = txhash ∧ e.2.inputIndex = j ∧ e.2.blockHeight = nHeight := by
  simp only [spentEntry] at h
  split at h
  · obtain rfl := mem_singleton.mp h
    exact ⟨rfl, rfl, rfl, rfl⟩
  · exact absurd h (by simp)

theorem mem_spentEntriesFrom {nHeight : Nat} {txhash : UInt256} {j : Nat}
    {ps : List (CTxIn × CTxOut)} {e : CSpentIndexKey × CSpentIndexValue}
    (h : e ∈ spentEntriesFrom nHeight txhash j ps) :
    e.2.txid = txhash ∧ e.2.blockHeight = nHeight ∧ j ≤ e.2.inputIndex ∧
      (ps[e.2.inputIndex - j]?).map (fun p => p.1.prevout) = some e.1 := by
  induction ps generalizing j with
  | nil => exact absurd h (by simp [spentEntriesFrom])
  | cons p ps ih =>
    rcases mem_append.mp h with h | h
    · obtain ⟨hkey, htxid, hindex, hheight⟩ := mem_spentEntry h
      exact ⟨htxid, hheight, hindex.ge, by simp [hindex, hkey]⟩
    · obtain ⟨htxid, hheight, hle, hat⟩ := ih h
      refine ⟨htxid, hheight, by omega, ?_⟩
      rwa [show e.2.inputIndex - j = e.2.inputIndex - (j + 1) + 1 by omega, getElem?_cons_succ]

theorem exists_spentEntriesFrom (nHeight : Nat) (txhash : UInt256) (j : Nat)
    {ps : List (CTxIn × CTxOut)} (hall : ∀ p ∈ ps, HasAddress p.2) {p : CTxIn × CTxOut}
    (hp : p ∈ ps) : ∃ e ∈ spentEntriesFrom nHeight txhash j ps, e.1 = p.1.prevout := by
  induction ps generalizing j with
  | nil => exact absurd hp (by simp)
  | cons q ps ih =>
    obtain ⟨hq, hall⟩ := forall_mem_cons.mp hall
    rcases mem_cons.mp hp with rfl | hp
    · obtain ⟨v, hv⟩ := spentEntry_of_hasAddress hq nHeight txhash j p.1
      exact ⟨(p.1.prevout, v), mem_append_left _ (hv ▸ mem_singleton.mpr rfl), rfl⟩
    · obtain ⟨e, he, hkey⟩ := ih (j + 1) hall hp
      exact ⟨e, mem_append_right _ he, hkey⟩

theorem spentIndexBatch_spec (nHeight : Nat) (m : UInt256 → List CTxOut) (txs : List CTransaction) :
    (∀ e ∈ spentIndexBatch nHeight txs (spentOutputs m txs), ∃ tx ∈ txs, e.2.Names nHeight tx e.1) ∧
    ((∀ outs ∈ spentOutputs m txs, ∀ o ∈ outs, HasAddress o) → ∀ tx ∈ txs, ∀ o ∈ tx.spends,
        ∃ e ∈ spentIndexBatch nHeight txs (spentOutputs m txs), e.1 = o) := by
  induction txs generalizing m with
  | nil => simp [spentIndexBatch]
  | cons tx txs ih =>
    obtain ⟨hnames, hexists⟩ := ih (outputsAfter m tx)
    have hcons : spentIndexBatch nHeight (tx :: txs) (spentOutputs m (tx :: txs))
        = spentEntriesFrom nHeight tx.hash 0 (tx.vin.zip (spentBy m tx))
          ++ spentIndexBatch nHeight txs (spentOutputs (outputsAfter m tx) txs) := rfl
    constructor
    · intro e he
      rcases mem_append.mp he with he | he
      · obtain ⟨htxid, hheight, -, hat⟩ := mem_spentEntriesFrom he
        cases hmint : tx.isMint with
        | true => simp [spentBy, CTransaction.spends, hmint, spentEntriesFrom] at he
        | false =>
          refine ⟨tx, .head _, hmint, htxid, hheight, ?_⟩
          obtain ⟨p, hp, hkey⟩ := map_eq_some_iff.mp hat
          have hin := (getElem?_zip_eq_some.mp hp).1
          rw [Nat.sub_zero] at hin
          rw [hin, ← hkey]
          rfl
      · obtain ⟨t, ht, h⟩ := hnames e he
        exact ⟨t, .tail _ ht, h⟩
    · intro hall t ht o ho
      obtain ⟨hfirst, hrest⟩ := forall_mem_cons.mp hall
      rcases mem_cons.mp ht with rfl | ht
      · cases hmint : t.isMint with
        | true => simp [CTransaction.spends, hmint] at ho
        | false =>
          have hspends : t.spends = t.vin.map CTxIn.prevout := by
            simp [CTransaction.spends, hmint]
          obtain ⟨i, hi, rfl⟩ := mem_map.mp (hspends ▸ ho)
          have hp : (i, (unspentOutput m i.prevout).getD CTxOut.null) ∈
              t.vin.zip (spentBy m t) := by
            rw [spentBy, hspends, List.map_map, ← List.map_prod_left_eq_zip]
            exact List.mem_map_of_mem hi
          obtain ⟨e, he, hkey⟩ := exists_spentEntriesFrom nHeight t.hash 0
            (fun p hp => hfirst _ (List.of_mem_zip hp).2) hp
          exact ⟨e, mem_append_left _ he, hkey⟩
      · obtain ⟨e, he, hkey⟩ := hexists hrest t ht o ho
        exact ⟨e, mem_append_right _ he, hkey⟩

end

/-! ### The index along a run -/

section

variable [NoteTrees] [CryptoHash] [AddressTypes]

/-- The chain state with its spent index. -/
structure IndexedState where
  chain : ChainState
  spentIndex : CSpentIndexKey → Option CSpentIndexValue

/-- What `ConnectBlock` does to the spent index on acceptance. -/
def connectSpentIndex (c : ConsensusParams) (pindex : CBlockIndex) (block : CBlock)
    (s : IndexedState) : Except Fault (CSpentIndexKey → Option CSpentIndexValue) := do
  let (res, _) ← inChild (connectBlock c pindex block) s.chain.pcoinsTip
  if res.isOk && block.hash ≠ c.hashGenesisBlock then
    let prevouts ←
      ((readPrevouts pindex.nHeight block.vtx).run viewHandler s.chain.pcoinsTip.push).1
    return updateSpentIndex (spentIndexBatch pindex.nHeight block.vtx prevouts) s.spentIndex
  else return s.spentIndex

def IndexedState.step (s : IndexedState) (op : ChainOp) : Except Fault IndexedState := do
  let chain ← op.step s.chain
  match op with
  | .connectTip c pindex block => do
    let spentIndex ← connectSpentIndex c pindex block s
    return ⟨chain, spentIndex⟩
  | .disconnectTip _ _ => return ⟨chain, s.spentIndex⟩
  | .flushStateToDisk => return ⟨chain, s.spentIndex⟩

def IndexedState.run (ops : List ChainOp) : Except Fault IndexedState :=
  ops.foldlM IndexedState.step ⟨.initial, fun _ => none⟩

def CBlock.Spends (block : CBlock) (o : COutPoint) : Prop := ∃ tx ∈ block.vtx, o ∈ tx.spends

/-- **The index is exact**: its entries are the outpoints the active chain spends, with the
transactions that do. -/
structure IndexedState.Exact (s : IndexedState) : Prop where
  complete : ∀ b ∈ s.chain.chainActive, ∀ o, b.block.Spends o → (s.spentIndex o).isSome
  names : ∀ o v, s.spentIndex o = some v →
    ∃ b ∈ s.chain.chainActive, ∃ tx ∈ b.block.vtx, v.Names b.pindex.nHeight tx o

/-- The steps that keep the index exact: a connected block spends only outputs with an address, a
disconnected one nothing. The genesis block is a lone coinbase, and no transaction has the null
hash. -/
def ChainOp.KeepsSpentIndex (s : ChainState) : ChainOp → Prop
  | .connectTip c pindex block =>
    ChainOp.GenesisAlone (.connectTip c pindex block) ∧
      (∀ tx ∈ block.vtx, tx.hash ≠ UInt256.null) ∧
      ∀ outs ∈ spentOutputs (outputsOf (plainCoins s.pcoinsTip.stack)) block.vtx,
        ∀ o ∈ outs, HasAddress o
  | .disconnectTip _ _ => ∀ b ∈ s.chainActive.head?, ∀ o, ¬b.block.Spends o
  | .flushStateToDisk => True

variable {pindex : CBlockIndex} {block : CBlock}

omit [AddressTypes] in
theorem connected_coins {c : ConsensusParams}
    {v v' : CacheView} {undo : Option CBlockUndo} (hs : v.Sound)
    (h : inChild (connectBlock c pindex block) v = .ok (.ok undo, v')) :
    ∃ m', (connectBlock c pindex block).Outcome coinsSpec (plainCoins v.stack) (.ok undo, m') := by
  obtain ⟨child, hrun, -, -⟩ := inChild_ok hs h
  obtain ⟨hpush, hgen⟩ := push_spec hs
  obtain ⟨m', hout, -⟩ := (coins_simulates v.push.coinsGenerations.below).run
    (p := connectBlock c pindex block) (s := v.push) (t := v.push.coinsGenerations.top)
    ⟨hpush, rfl⟩
  rw [hrun, hgen] at hout
  exact ⟨m', hout⟩

variable {s : IndexedState}

theorem connectSpentIndex_ok {c : ConsensusParams}
    {v : CacheView} {res : Except Fault (Option CBlockUndo)} (hs : s.chain.pcoinsTip.Sound)
    (h : inChild (connectBlock c pindex block) s.chain.pcoinsTip = .ok (res, v)) :
    connectSpentIndex c pindex block s = .ok (if res.isOk && block.hash ≠ c.hashGenesisBlock then
          updateSpentIndex (spentIndexBatch pindex.nHeight block.vtx
            (spentOutputs (outputsOf (plainCoins s.chain.pcoinsTip.stack)) block.vtx))
            s.spentIndex
        else s.spentIndex) := by
  unfold connectSpentIndex
  rw [h]
  by_cases hcond : (res.isOk && block.hash ≠ c.hashGenesisBlock) = true
  · obtain ⟨hok, hgenesis⟩ := Bool.and_eq_true_iff.mp hcond
    obtain ⟨undo, rfl⟩ : ∃ undo, res = .ok undo := by
      cases res with
      | ok undo => exact ⟨undo, rfl⟩
      | error e => exact absurd hok (by simp [Except.isOk, Except.toBool])
    obtain ⟨m', hout⟩ := connected_coins hs h
    have htxs := connectBlock_txs (coins_part.neutral (by decide) (by decide)) hout
    rw [if_neg (by simpa using hgenesis)] at htxs
    obtain ⟨_, _, st₀, st, -, -, -, -, -, -, hconnect, -⟩ := htxs
    obtain ⟨hpush, hgen⟩ := push_spec hs
    obtain ⟨prevouts, v', m'', hrun, hread, -⟩ :=
      (coinsUpdate_simulates s.chain.pcoinsTip.push.coinsGenerations.below).run_ensures
        (t := s.chain.pcoinsTip.push.coinsGenerations.top) ⟨hpush, rfl⟩
        (Runs.readPrevouts hconnect (by rw [hgen]; rfl))
    obtain rfl := readPrevouts_outputs hread
    simp only [bind, Except.bind, hcond, if_true, hrun]
    rfl
  · simp only [bind, Except.bind, hcond]
    rfl

variable {chain : ChainState}

section
omit [CryptoHash] [AddressTypes]

theorem IndexedState.Exact.of_chain (h : s.Exact)
    (hchain : chain.chainActive = s.chain.chainActive) :
    IndexedState.Exact ⟨chain, s.spentIndex⟩ :=
  ⟨fun b hb => h.complete b (hchain ▸ hb), fun o v hv => by
    obtain ⟨b, hb, hnames⟩ := h.names o v hv
    exact ⟨b, by rw [hchain]; exact hb, hnames⟩⟩

theorem IndexedState.Exact.cons_iff {b : ActiveBlock}
    {rest : List ActiveBlock} {idx : CSpentIndexKey → Option CSpentIndexValue}
    (hchain : chain.chainActive = b :: rest) (hb : ∀ o, ¬b.block.Spends o) (v : CacheView) :
    IndexedState.Exact ⟨chain, idx⟩ ↔ IndexedState.Exact ⟨⟨v, rest⟩, idx⟩ := by
  constructor
  · intro h
    refine ⟨fun b' hb' => h.complete b' (hchain ▸ .tail _ hb'), fun o v hv => ?_⟩
    obtain ⟨b', hb', tx, htx, hnames⟩ := h.names o v hv
    rcases mem_cons.mp (hchain ▸ hb') with rfl | hb'
    · exact absurd ⟨tx, htx, hnames.mem_spends⟩ (hb o)
    · exact ⟨b', hb', tx, htx, hnames⟩
  · intro h
    refine ⟨fun b' hb' o ho => ?_, fun o v hv => ?_⟩
    · rcases mem_cons.mp (hchain ▸ hb') with rfl | hb'
      · exact absurd ho (hb o)
      · exact h.complete b' hb' o ho
    · obtain ⟨b', hb', hnames⟩ := h.names o v hv
      exact ⟨b', by rw [hchain]; exact .tail _ hb', hnames⟩

end

theorem IndexedState.Exact.connect (h : s.Exact)
    {m : UInt256 → List CTxOut} (hnull : ∀ tx ∈ block.vtx, tx.hash ≠ UInt256.null)
    (haddr : ∀ outs ∈ spentOutputs m block.vtx, ∀ o ∈ outs, HasAddress o) (v : CacheView) :
    IndexedState.Exact ⟨⟨v, ⟨pindex, block⟩ :: s.chain.chainActive⟩,
      updateSpentIndex (spentIndexBatch pindex.nHeight block.vtx (spentOutputs m block.vtx))
        s.spentIndex⟩ := by
  obtain ⟨hnames, hexists⟩ := spentIndexBatch_spec pindex.nHeight m block.vtx
  generalize spentIndexBatch pindex.nHeight block.vtx (spentOutputs m block.vtx) = batch
    at hnames hexists
  -- an outpoint of the batch gets an entry of the batch, another one keeps what it has
  have hcases : ∀ o, (∃ e ∈ batch, e.1 = o ∧ updateSpentIndex batch s.spentIndex o = some e.2) ∨
      (∀ e ∈ batch, e.1 ≠ o) ∧ updateSpentIndex batch s.spentIndex o = s.spentIndex o := by
    intro o
    by_cases ho : ∃ e ∈ batch, e.1 = o
    · obtain ⟨e, he, hkey, heq⟩ :=
        updateIndex_of_mem CSpentIndexValue.isNull s.spentIndex ho
      obtain ⟨tx, htx, hname⟩ := hnames e he
      have hne : e.2.isNull = false := by
        rw [CSpentIndexValue.isNull, hname.2.1]
        simpa using hnull tx htx
      rw [hne] at heq
      exact .inl ⟨e, he, hkey, heq⟩
    · refine .inr ⟨fun e he hkey => ho ⟨e, he, hkey⟩, ?_⟩
      exact updateIndex_of_notMem fun e he hkey => ho ⟨e, he, hkey⟩
  constructor
  · intro b hb o hspent
    rcases hcases o with ⟨e, -, -, heq⟩ | ⟨hnot, heq⟩
    · simp [heq]
    · rcases mem_cons.mp hb with rfl | hb
      · obtain ⟨tx, htx, ho⟩ := hspent
        obtain ⟨e, he, hkey⟩ := hexists haddr tx htx o ho
        exact absurd hkey (hnot e he)
      · change (updateSpentIndex batch s.spentIndex o).isSome = true
        rw [heq]
        exact h.complete b hb o hspent
  · intro o v hv
    change updateSpentIndex batch s.spentIndex o = some v at hv
    rcases hcases o with ⟨e, he, hkey, heq⟩ | ⟨-, heq⟩
    · obtain ⟨tx, htx, hname⟩ := hnames e he
      rw [heq] at hv
      obtain rfl := some.inj hv
      exact ⟨_, .head _, tx, htx, hkey ▸ hname⟩
    · rw [heq] at hv
      obtain ⟨b, hb, hname⟩ := h.names o v hv
      exact ⟨b, .tail _ hb, hname⟩

theorem IndexedState.Exact.step {op : ChainOp}
    (h : s.Exact) (hs : s.chain.pcoinsTip.Sound) (hkeeps : op.KeepsSpentIndex s.chain)
    (hstep : op.step s.chain = .ok chain) :
    ∃ idx, s.step op = .ok ⟨chain, idx⟩ ∧ IndexedState.Exact ⟨chain, idx⟩ := by
  cases op with
  | connectTip c pindex block =>
    obtain ⟨hgenesis, hnull, haddr⟩ := hkeeps
    obtain ⟨res, v, hin, hchain⟩ := connectTip_ok hstep
    have hidx := connectSpentIndex_ok hs hin
    refine ⟨_, bind_eq_ok.mpr ⟨chain, hstep, bind_eq_ok.mpr ⟨_, hidx, rfl⟩⟩, ?_⟩
    rw [hchain]
    cases res with
    | error e => exact h.of_chain rfl
    | ok undo =>
      by_cases hgen : block.hash = c.hashGenesisBlock
      · have hlone : ∀ o, ¬block.Spends o := by
          obtain ⟨m', hout⟩ := connected_coins hs hin
          obtain ⟨coinbase, rest, hvtx, hcb, -⟩ := checkBlock_eq_ok (connectBlock_ok hout).1
          obtain rfl : rest = [] := by simpa [hvtx] using hgenesis hgen
          rintro o ⟨tx, htx, ho⟩
          obtain rfl : tx = coinbase := by simpa [hvtx] using htx
          simp [CTransaction.spends, CTransaction.isMint, hcb] at ho
        simp only [hgen, ne_eq, not_true, decide_false, Bool.and_false]
        refine (IndexedState.Exact.cons_iff rfl hlone s.chain.pcoinsTip).mpr ?_
        exact h.of_chain rfl
      · simp only [Except.isOk, Except.toBool, ne_eq, hgen, not_false_eq_true, decide_true,
          Bool.and_true, if_true]
        exact h.connect hnull haddr v
  | disconnectTip c undo =>
    refine ⟨s.spentIndex, bind_eq_ok.mpr ⟨chain, hstep, rfl⟩, ?_⟩
    obtain rfl | ⟨b, rest, blockUndo, res, v, hcons, -, rfl⟩ := disconnectTip_ok hstep
    · exact h
    · cases res with
      | error e => exact h.of_chain rfl
      | ok u =>
        have hb : ∀ o, ¬b.block.Spends o := hkeeps b (by rw [hcons]; rfl)
        exact (IndexedState.Exact.cons_iff hcons hb v).mp h
  | flushStateToDisk =>
    refine ⟨s.spentIndex, bind_eq_ok.mpr ⟨chain, hstep, rfl⟩, ?_⟩
    obtain rfl := flushStateToDisk_ok hs hstep
    exact h.of_chain rfl

/-- **The spent index is exact** while connected blocks spend only outputs with an address, and no
block that spends is disconnected. -/
theorem spent_index_exact {ops : List ChainOp} {s : ChainState}
    (hmeet : ChainOp.AllMeet ChainOp.KeepsSpentIndex ops .initial)
    (hrun : ChainState.run ops = .ok s) :
    ∃ idx, IndexedState.run ops = .ok ⟨s, idx⟩ ∧ IndexedState.Exact ⟨s, idx⟩ := by
  have hloop : ∀ (ops : List ChainOp) (s₀ : IndexedState), s₀.Exact → s₀.chain.pcoinsTip.Sound →
      ChainOp.AllMeet ChainOp.KeepsSpentIndex ops s₀.chain →
      ops.foldlM (fun s op => op.step s) s₀.chain = .ok s →
      ∃ idx, ops.foldlM IndexedState.step s₀ = .ok ⟨s, idx⟩ ∧ IndexedState.Exact ⟨s, idx⟩ := by
    intro ops
    induction ops with
    | nil =>
      intro s₀ h _ _ hrun
      obtain rfl := ok.inj hrun
      exact ⟨s₀.spentIndex, rfl, h⟩
    | cons op ops ih =>
      intro s₀ h hs hmeet hrun
      obtain ⟨hkeeps, hrest⟩ := hmeet
      obtain ⟨s₁, hop, hrun⟩ := bind_eq_ok.mp hrun
      obtain ⟨idx₁, hstep, h₁⟩ := h.step hs hkeeps hop
      obtain ⟨idx, hidx, hexact⟩ :=
        ih ⟨s₁, idx₁⟩ h₁ (step_sound hs hop) (hrest s₁ hop) hrun
      exact ⟨idx, bind_eq_ok.mpr ⟨_, hstep, hidx⟩, hexact⟩
  refine hloop ops ⟨.initial, fun _ => none⟩ ⟨?_, ?_⟩ (CoinsOp.sound_new _) hmeet hrun
  · intro b hb
    exact absurd hb (by simp [ChainState.initial])
  · intro o v hv
    exact absurd hv (by simp)

end

section

local instance spentTrees : NoteTrees := listTrees

local instance spentHash : CryptoHash := ⟨fun _ => 0, fun _ => 0⟩

local instance spentAddresses : AddressTypes :=
  ⟨fun s => if s.length = 1 then (1, [s]) else (0, [])⟩

def spendCoinbaseTx : CTransaction where
  hash := 51
  nVersion := 1
  vin := [⟨⟨41, 0⟩, [], 0⟩]
  vout := [⟨3, [0x51]⟩]

def spendingChain : List ChainOp :=
  [connectGenesis,
    .connectTip smallChain (indexOnGenesis 2) ⟨2, 0, UInt256.null, [coinbaseTx 41]⟩,
    .connectTip smallChain ⟨3, 2, 0, UInt256.null, some (indexOnGenesis 2)⟩
      ⟨3, 0, UInt256.null, [coinbaseTx 42, spendCoinbaseTx]⟩]

theorem spent_index_exact_spendingChain :
    ChainOp.AllMeet ChainOp.KeepsSpentIndex spendingChain .initial ∧
      ∃ s idx, IndexedState.run spendingChain = .ok ⟨s, idx⟩ ∧ IndexedState.Exact ⟨s, idx⟩ ∧
        (idx ⟨41, 0⟩).map CSpentIndexValue.txid = some 51 := by
  have hmeet : ChainOp.AllMeet ChainOp.KeepsSpentIndex spendingChain .initial := by
    refine ⟨⟨fun _ => rfl, by decide, ?_⟩, fun s₁ h₁ => ?_⟩
    · decide
    obtain rfl := ok.inj h₁
    refine ⟨⟨fun h => absurd h (by decide), by decide, ?_⟩, fun s₂ h₂ => ?_⟩
    · decide
    obtain rfl := ok.inj h₂
    exact ⟨⟨fun h => absurd h (by decide), by decide, by decide⟩, fun s₃ h₃ => trivial⟩
  obtain ⟨s, hrun⟩ : ∃ s, ChainState.run spendingChain = .ok s := ⟨_, rfl⟩
  obtain ⟨idx, hidx, hexact⟩ := spent_index_exact hmeet hrun
  obtain ⟨s', hrun', hentry⟩ : ∃ s', IndexedState.run spendingChain = .ok s' ∧
      (s'.spentIndex ⟨41, 0⟩).map CSpentIndexValue.txid = some 51 := by
    refine ⟨_, rfl, ?_⟩
    decide
  obtain rfl := ok.inj (hidx.symm.trans hrun')
  exact ⟨hmeet, s, idx, hidx, hexact, hentry⟩

/-- **The entry of a disconnected block stays.** -/
theorem disconnect_keeps_spent_entry :
    ∃ s, IndexedState.run (spendingChain ++ [.disconnectTip smallChain
        (some ⟨[⟨[⟨⟨3, [0x51]⟩, true, 1, 1⟩]⟩], emptyRoot .sprout⟩)]) = .ok s ∧
      (s.chain.chainActive.map fun b => b.pindex.hash) = [2, 1] ∧
      (∀ b ∈ s.chain.chainActive, ∀ tx ∈ b.block.vtx, (⟨41, 0⟩ : COutPoint) ∉ tx.spends) ∧
      (s.spentIndex ⟨41, 0⟩).map CSpentIndexValue.txid = some 51 := by
  refine ⟨_, rfl, ?_, ?_, ?_⟩
  · decide
  · decide
  · decide

end

end Elosys
