import Elosys.RestoredOutputs
import Elosys.SpentIndex
import Elosys.UndoRoundTrip

/-!
# The Address Index of Unspent Outputs

The index of an address's unspent outputs. Connecting erases the outputs a block spends and writes
those it makes; disconnecting goes back, with outputs as found in the view and the heights of the
undo data, which has one only for the last output of a record.

## Main results

* An entry of an address's output is written when it is made and erased when it is spent, also
  within one block.
* Disconnecting restores the index if and only if each spent output of an address was the last of
  its record; the others come back with height 0.
-/

open LayerStack Program List Option Function Bool

namespace Elosys

open CacheView CoinsColumn View ViewProg

/-! ### The index -/

structure CAddressUnspentKey where
  type : Nat
  hashBytes : BitVec 160
  txhash : UInt256
  index : Nat
  deriving DecidableEq

structure CAddressUnspentValue where
  satoshis : CAmount
  script : CScript
  blockHeight : Nat
  deriving DecidableEq

def CAddressUnspentValue.null : CAddressUnspentValue := ⟨-1, [], 0⟩

def CAddressUnspentValue.isNull (v : CAddressUnspentValue) : Bool := v.satoshis == -1

def CAddressUnspentKey.outPoint (k : CAddressUnspentKey) : COutPoint := ⟨k.txhash, k.index⟩

def updateAddressUnspentIndex : List (CAddressUnspentKey × CAddressUnspentValue) →
    (CAddressUnspentKey → Option CAddressUnspentValue) →
    CAddressUnspentKey → Option CAddressUnspentValue :=
  updateIndex CAddressUnspentValue.isNull

section

variable [CryptoHash] [AddressTypes]

/-- The keys of an output: one for each address. -/
def addressKeys (script : CScript) (o : COutPoint) : List CAddressUnspentKey :=
  let (keyType, vSols) := AddressTypes.getAddressType script
  if keyType ≠ 0 then vSols.map fun addr => ⟨keyType, addrHash addr, o.hash, o.n⟩ else []

def addressEntries (script : CScript) (o : COutPoint) (v : CAddressUnspentValue) :
    List (CAddressUnspentKey × CAddressUnspentValue) :=
  (addressKeys script o).map fun k => (k, v)

def CTransaction.outputs (tx : CTransaction) : List (COutPoint × CTxOut) :=
  tx.vout.zipIdx.map fun p => (⟨tx.hash, p.2⟩, p.1)

/-- The entries of `ConnectBlock` for a transaction, with the outputs seen. -/
def connectUnspentEntries (nHeight : Nat) (tx : CTransaction) (prevouts : List CTxOut) :
    List (CAddressUnspentKey × CAddressUnspentValue) :=
  (tx.vin.zip prevouts).flatMap (fun p =>
      addressEntries p.2.scriptPubKey p.1.prevout .null) ++
    tx.outputs.flatMap fun p =>
      addressEntries p.2.scriptPubKey p.1 ⟨p.2.nValue, p.2.scriptPubKey, nHeight⟩

/-- The entries of `ConnectBlock` for a block. -/
def connectUnspentBatch (nHeight : Nat) (txs : List CTransaction)
    (prevouts : List (List CTxOut)) : List (CAddressUnspentKey × CAddressUnspentValue) :=
  (txs.zip prevouts).flatMap fun p => connectUnspentEntries nHeight p.1 p.2

/-- The entries of `DisconnectBlock`: outputs and inputs, each the last first. -/
def disconnectUnspentEntries (tx : CTransaction) (restored : List (CTxInUndo × CTxOut)) :
    List (CAddressUnspentKey × CAddressUnspentValue) :=
  tx.outputs.reverse.flatMap (fun p => addressEntries p.2.scriptPubKey p.1 .null) ++
    (tx.vin.zip restored).reverse.flatMap fun p =>
      addressEntries p.2.2.scriptPubKey p.1.prevout
        ⟨p.2.2.nValue, p.2.2.scriptPubKey, p.2.1.nHeight⟩

def disconnectUnspentBatch (txs : List CTransaction)
    (restored : List (List (CTxInUndo × CTxOut))) :
    List (CAddressUnspentKey × CAddressUnspentValue) :=
  (txs.zip restored).reverse.flatMap fun p => disconnectUnspentEntries p.1 p.2

end

section

variable [NoteTrees] [CryptoHash] [AddressTypes]

/-- What `ConnectBlock` does to the index on acceptance. -/
def connectUnspentIndex (nHeight : Nat) (block : CBlock) (v : CacheView)
    (idx : CAddressUnspentKey → Option CAddressUnspentValue) :
    Except Fault (CAddressUnspentKey → Option CAddressUnspentValue) := do
  let prevouts ← ((readPrevouts nHeight block.vtx).run viewHandler v).1
  return updateAddressUnspentIndex (connectUnspentBatch nHeight block.vtx prevouts) idx

/-- What `DisconnectBlock` does to the index. -/
def disconnectUnspentIndex (block : CBlock) (blockUndo : CBlockUndo) (v : CacheView)
    (idx : CAddressUnspentKey → Option CAddressUnspentValue) :
    Except Fault (CAddressUnspentKey → Option CAddressUnspentValue) := do
  let restored ← ((readRestored (block.vtx.zip (none :: blockUndo.vtxundo.map some))).run
    viewHandler v).1
  return updateAddressUnspentIndex (disconnectUnspentBatch block.vtx restored) idx

variable {m m' : UInt256 → Option CCoins}

/-! ### The index after a block was connected and disconnected -/

variable {k : CAddressUnspentKey} {o : COutPoint}

omit [NoteTrees] in
theorem outPoint_of_mem {script : CScript} (h : k ∈ addressKeys script o) : k.outPoint = o := by
  unfold addressKeys at h
  simp only at h
  split at h
  · obtain ⟨addr, -, rfl⟩ := mem_map.mp h
    rfl
  · exact absurd h (by simp)

omit [NoteTrees] in
theorem mem_addressEntries {e : CAddressUnspentKey × CAddressUnspentValue} {script : CScript}
    {v : CAddressUnspentValue} :
    e ∈ addressEntries script o v ↔ e.1 ∈ addressKeys script o ∧ e.2 = v := by
  obtain ⟨k, w⟩ := e
  simp [addressEntries, eq_comm]

def CTransaction.MakesKey (tx : CTransaction) (k : CAddressUnspentKey) : Prop :=
  ∃ p ∈ tx.outputs, k ∈ addressKeys p.2.scriptPubKey p.1

def CTransaction.SpendsKey (U : UInt256 → List CTxOut) (tx : CTransaction)
    (k : CAddressUnspentKey) : Prop :=
  ∃ o ∈ tx.spends, ∃ t, unspentOutput U o = some t ∧ k ∈ addressKeys t.scriptPubKey o

variable {tx : CTransaction}

omit [NoteTrees] in
theorem CTransaction.MakesKey.txhash_eq (h : tx.MakesKey k) : k.txhash = tx.hash := by
  obtain ⟨p, hp, hk⟩ := h
  have ho := outPoint_of_mem hk
  obtain ⟨q, -, rfl⟩ := mem_map.mp hp
  exact congrArg COutPoint.hash ho

omit [NoteTrees] in
theorem connectUnspentEntries_eq (nHeight : Nat) (tx : CTransaction) (U : UInt256 → List CTxOut) :
    connectUnspentEntries nHeight tx (spentBy U tx) = tx.spends.flatMap (fun o => addressEntries
            ((unspentOutput U o).getD CTxOut.null).scriptPubKey o .null) ++
          tx.outputs.flatMap fun p =>
            addressEntries p.2.scriptPubKey p.1 ⟨p.2.nValue, p.2.scriptPubKey, nHeight⟩ := by
  unfold connectUnspentEntries spentBy CTransaction.spends
  cases tx.isMint with
  | true => simp
  | false =>
    simp only [Bool.false_eq_true, if_false, List.map_map]
    rw [← List.map_prod_left_eq_zip, List.flatMap_map, List.flatMap_map]
    rfl

variable {undo : CTxUndo}

omit [NoteTrees] [CryptoHash] [AddressTypes] in
theorem zip_restored (h : undo.vprevout.map (fun u => (u.txout, u.nHeight))
      = tx.spends.map (undoOf m tx.spends)) :
    (tx.vin.zip undo.restored).map (fun p => (p.1.prevout, p.2.2, p.2.1.nHeight))
      = tx.spends.map fun o => (o, undoOf m tx.spends o) := by
  rw [map_prod_left_eq_zip, ← h, CTxUndo.restored]
  unfold CTransaction.spends at h ⊢
  cases hmint : tx.isMint with
  | true =>
    simp only [hmint, if_true, map_nil, map_eq_nil_iff] at h
    simp [h]
  | false =>
    simp only [Bool.false_eq_true, if_false]
    rw [List.zip_map, List.zip_map_right, List.map_map]
    rfl

variable {nHeight : Nat}

theorem mem_disconnectUnspentEntries
    (h : (updateCoins tx nHeight).Outcome coinsSpec m (.ok undo, m'))
    {e : CAddressUnspentKey × CAddressUnspentValue} :
    (e ∈ (tx.vin.zip undo.restored).reverse.flatMap fun p =>
        addressEntries p.2.2.scriptPubKey p.1.prevout
          ⟨p.2.2.nValue, p.2.2.scriptPubKey, p.2.1.nHeight⟩) ↔
      ∃ o ∈ tx.spends, ∃ t, unspentOutput (outputsOf m) o = some t ∧
        e.1 ∈ addressKeys t.scriptPubKey o ∧
        e.2 = ⟨t.nValue, t.scriptPubKey, undoHeight (outputsOf m) (heightsOf m) tx.spends o⟩ := by
  obtain ⟨m₁, hspend, -⟩ := updateCoins_coins h
  obtain ⟨hundo, hsome, -⟩ := spendInputs_undo hspend
  have hflat : (tx.vin.zip undo.restored).flatMap (fun p =>
        addressEntries p.2.2.scriptPubKey p.1.prevout
          ⟨p.2.2.nValue, p.2.2.scriptPubKey, p.2.1.nHeight⟩)
      = tx.spends.flatMap fun o => addressEntries (undoOf m tx.spends o).1.scriptPubKey o
          ⟨(undoOf m tx.spends o).1.nValue, (undoOf m tx.spends o).1.scriptPubKey,
            (undoOf m tx.spends o).2⟩ := by
    have hmap := congrArg (List.flatMap fun q : COutPoint × CTxOut × Nat =>
      addressEntries q.2.1.scriptPubKey q.1 ⟨q.2.1.nValue, q.2.1.scriptPubKey, q.2.2⟩)
      (zip_restored hundo)
    rwa [flatMap_map, flatMap_map] at hmap
  have hrev : (e ∈ (tx.vin.zip undo.restored).reverse.flatMap fun p =>
      addressEntries p.2.2.scriptPubKey p.1.prevout
        ⟨p.2.2.nValue, p.2.2.scriptPubKey, p.2.1.nHeight⟩) ↔
      e ∈ (tx.vin.zip undo.restored).flatMap fun p =>
        addressEntries p.2.2.scriptPubKey p.1.prevout
          ⟨p.2.2.nValue, p.2.2.scriptPubKey, p.2.1.nHeight⟩ := by
    simp
  rw [hrev, hflat, mem_flatMap]
  refine exists_congr fun o => and_congr_right fun ho => ?_
  obtain ⟨t, ht⟩ := isSome_iff_exists.mp (hsome o ho)
  rw [mem_addressEntries, undoOf, ht, getD_some]
  constructor
  · exact fun he => ⟨t, rfl, he⟩
  · rintro ⟨_, ⟨⟩, he⟩
    exact he

variable {U : UInt256 → List CTxOut}

section

variable {nHeight : Nat} {tx : CTransaction} {k : CAddressUnspentKey}
  {idx : CAddressUnspentKey → Option CAddressUnspentValue}

omit [NoteTrees] in
theorem connectUnspentEntries_of_not
    (hsome : ∀ o ∈ tx.spends, (unspentOutput U o).isSome) (hspends : ¬ tx.SpendsKey U k)
    (hmakes : ¬ tx.MakesKey k) :
    updateAddressUnspentIndex (connectUnspentEntries nHeight tx (spentBy U tx)) idx k = idx k := by
  refine updateIndex_of_notMem fun e he hk => ?_
  subst hk
  rw [connectUnspentEntries_eq, mem_append, mem_flatMap, mem_flatMap] at he
  rcases he with ⟨o, ho, he⟩ | ⟨p, hp, he⟩
  · obtain ⟨t, ht⟩ := isSome_iff_exists.mp (hsome o ho)
    rw [ht, getD_some, mem_addressEntries] at he
    exact hspends ⟨o, ho, t, ht, he.1⟩
  · exact hmakes ⟨p, hp, (mem_addressEntries.mp he).1⟩

omit [NoteTrees] in
theorem connectUnspentEntries_of_not_makesKey (hmakes : ¬ tx.MakesKey k) (hidx : idx k = none) :
    updateAddressUnspentIndex (connectUnspentEntries nHeight tx (spentBy U tx)) idx k = none := by
  rw [connectUnspentEntries_eq, updateAddressUnspentIndex, updateIndex_append]
  refine (updateIndex_of_notMem fun e he hk => ?_).trans ?_
  · subst hk
    obtain ⟨p, hp, he⟩ := mem_flatMap.mp he
    exact hmakes ⟨p, hp, (mem_addressEntries.mp he).1⟩
  · by_cases hmem : ∃ e ∈ tx.spends.flatMap (fun o => addressEntries
        ((unspentOutput U o).getD CTxOut.null).scriptPubKey o .null), e.1 = k
    · obtain ⟨e, he, -, heq⟩ := updateIndex_of_mem CAddressUnspentValue.isNull idx hmem
      obtain ⟨o, -, he⟩ := mem_flatMap.mp he
      rw [heq, (mem_addressEntries.mp he).2]
      rfl
    · exact (updateIndex_of_notMem fun e he hk => hmem ⟨e, he, hk⟩).trans hidx

variable {undo : CTxUndo}

theorem disconnectUnspentEntries_of_spends
    (h : (updateCoins tx nHeight).Outcome coinsSpec m (.ok undo, m')) {t : CTxOut}
    (ho : k.outPoint ∈ tx.spends) (ht : unspentOutput (outputsOf m) k.outPoint = some t)
    (hk : k ∈ addressKeys t.scriptPubKey k.outPoint) :
    updateAddressUnspentIndex (disconnectUnspentEntries tx undo.restored) idx k
      = some ⟨t.nValue, t.scriptPubKey,
          undoHeight (outputsOf m) (heightsOf m) tx.spends k.outPoint⟩ := by
  rw [disconnectUnspentEntries, updateAddressUnspentIndex, updateIndex_append]
  generalize updateIndex CAddressUnspentValue.isNull _ idx = idx₁
  obtain ⟨e, he, hek, heq⟩ := updateIndex_of_mem CAddressUnspentValue.isNull idx₁
    ⟨(k, _), (mem_disconnectUnspentEntries h).mpr ⟨_, ho, t, ht, hk, rfl⟩, rfl⟩
  obtain ⟨o, -, t', ht', hk', hval⟩ := (mem_disconnectUnspentEntries h).mp he
  obtain rfl : k.outPoint = o := outPoint_of_mem (hek ▸ hk')
  obtain rfl : t = t' := some.inj (ht.symm.trans ht')
  have hnull : CAddressUnspentValue.isNull e.2 = false := by
    have hfilter := (filter_eq_some_iff.mp ht).2
    rw [hval]
    simpa [CAddressUnspentValue.isNull, CTxOut.isNull] using hfilter
  rw [heq, hnull, hval]
  rfl

theorem disconnectUnspentEntries_of_not_spends
    (h : (updateCoins tx nHeight).Outcome coinsSpec m (.ok undo, m'))
    (hspends : ¬ tx.SpendsKey (outputsOf m) k) :
    (tx.MakesKey k →
      updateAddressUnspentIndex (disconnectUnspentEntries tx undo.restored) idx k = none) ∧
    (¬ tx.MakesKey k →
      updateAddressUnspentIndex (disconnectUnspentEntries tx undo.restored) idx k = idx k) := by
  have hinputs : ∀ e ∈ (tx.vin.zip undo.restored).reverse.flatMap (fun p =>
      addressEntries p.2.2.scriptPubKey p.1.prevout
        ⟨p.2.2.nValue, p.2.2.scriptPubKey, p.2.1.nHeight⟩), e.1 ≠ k := by
    rintro e he rfl
    obtain ⟨o, ho, t, ht, hk, -⟩ := (mem_disconnectUnspentEntries h).mp he
    exact hspends ⟨o, ho, t, ht, hk⟩
  rw [disconnectUnspentEntries, updateAddressUnspentIndex, updateIndex_append,
    updateIndex_of_notMem hinputs]
  constructor
  · rintro ⟨p, hp, hk⟩
    have hmem : ∃ e ∈ tx.outputs.reverse.flatMap (fun p =>
        addressEntries p.2.scriptPubKey p.1 .null), e.1 = k :=
      ⟨(k, .null), mem_flatMap.mpr ⟨p, mem_reverse.mpr hp, mem_addressEntries.mpr ⟨hk, rfl⟩⟩, rfl⟩
    obtain ⟨e, he, -, heq⟩ := updateIndex_of_mem CAddressUnspentValue.isNull idx hmem
    obtain ⟨q, -, he⟩ := mem_flatMap.mp he
    rw [heq, (mem_addressEntries.mp he).2]
    rfl
  · refine fun hmakes => updateIndex_of_notMem ?_
    rintro e he rfl
    obtain ⟨q, hq, he⟩ := mem_flatMap.mp he
    exact hmakes ⟨q, mem_reverse.mp hq, (mem_addressEntries.mp he).1⟩

end

/-- What disconnecting these spends puts under a key. -/
def restoredValue (m : UInt256 → Option CCoins) (S : List COutPoint) (k : CAddressUnspentKey) :
    Option CAddressUnspentValue :=
  (unspentOutput (outputsOf m) k.outPoint).bind fun t =>
    if k.outPoint ∈ S ∧ k ∈ addressKeys t.scriptPubKey k.outPoint then
      some ⟨t.nValue, t.scriptPubKey, undoHeight (outputsOf m) (heightsOf m) S k.outPoint⟩
    else none

omit [NoteTrees] [CryptoHash] [AddressTypes] in
theorem outputsAfter_of_ne {x : UInt256}
    (hown : x ≠ tx.hash) (hburn : tx.isCoinImport = true → x ≠ tx.burnTxid) :
    outputsAfter U tx x = tx.spends.foldl spendOutput U x := by
  unfold outputsAfter
  by_cases himport : tx.isCoinImport = true
  · simp [himport, update_of_ne (hburn himport), update_of_ne hown]
  · simp [himport, update_of_ne hown]

omit [CryptoHash] [AddressTypes] in
theorem updateCoins_heights {x : UInt256}
    (h : (updateCoins tx nHeight).Outcome coinsSpec m (.ok undo, m')) (hown : x ≠ tx.hash)
    (hburn : tx.isCoinImport = true → x ≠ tx.burnTxid) : HeightKept m m' x := by
  intro c' hc'
  obtain ⟨m₁, hspend, hrest⟩ := updateCoins_coins h
  refine (spendInputs_undo hspend).2.2 x c' ?_
  by_cases himport : tx.isCoinImport = true
  · simp only [himport, if_true] at hrest
    obtain ⟨c, -, rfl⟩ := hrest
    rwa [update_of_ne (hburn himport), update_of_ne hown] at hc'
  · simp only [himport, false_eq_true, if_false] at hrest
    rwa [hrest, update_of_ne hown] at hc'

theorem restoredValue_cons {S : List COutPoint}
    (h : (updateCoins tx nHeight).Outcome coinsSpec m (.ok undo, m')) (hown : k.txhash ≠ tx.hash)
    (hburn : k.outPoint ∈ tx.spends ++ S → tx.isCoinImport = true → k.txhash ≠ tx.burnTxid)
    (hspends : ¬ tx.SpendsKey (outputsOf m) k) :
    restoredValue m' S k = restoredValue m (tx.spends ++ S) k := by
  by_cases ho : k.outPoint ∈ tx.spends ++ S
  · have hU : outputsOf m' k.outPoint.hash
        = tx.spends.foldl spendOutput (outputsOf m) k.outPoint.hash := by
      rw [updateCoins_outputs h]
      exact outputsAfter_of_ne hown (hburn ho)
    have hthere : unspentOutput (outputsOf m') k.outPoint
        = if k.outPoint ∈ tx.spends then none else unspentOutput (outputsOf m) k.outPoint := by
      rw [← unspentOutput_foldl, unspentOutput, unspentOutput, hU]
    unfold restoredValue
    rw [hthere]
    by_cases hin : k.outPoint ∈ tx.spends
    · rw [if_pos hin, bind_none]
      cases ht : unspentOutput (outputsOf m) k.outPoint with
      | none => rfl
      | some t =>
        have hk : k ∉ addressKeys t.scriptPubKey k.outPoint :=
          fun hk => hspends ⟨_, hin, t, ht, hk⟩
        simp [hk]
    · rw [if_neg hin]
      cases ht : unspentOutput (outputsOf m) k.outPoint with
      | none => rfl
      | some t =>
        have hH : heightsOf m' k.outPoint.hash = heightsOf m k.outPoint.hash :=
          (updateCoins_heights h hown (hburn ho)).heightsOf_eq (by rw [hthere, if_neg hin, ht]; rfl)
        rw [bind_some, bind_some, undoHeight_append_of_notMem hin, undoHeight_congr hU hH]
        simp [hin]
  · have hS : k.outPoint ∉ S := fun hmem => ho (mem_append_right _ hmem)
    have hnone : ∀ (m : UInt256 → Option CCoins) {S : List COutPoint}, k.outPoint ∉ S →
        restoredValue m S k = none := by
      intro m S hS
      unfold restoredValue
      cases unspentOutput (outputsOf m) k.outPoint with
      | none => rfl
      | some t => simp [hS]
    rw [hnone m' hS, hnone m ho]

omit [NoteTrees] [CryptoHash] [AddressTypes] in
theorem mem_outputs_of_unspent
    {t : CTxOut} (hburn : tx.isCoinImport = true → tx.hash ≠ tx.burnTxid) (ho : o.hash = tx.hash)
    (h : unspentOutput (outputsAfter U tx) o = some t) : (o, t) ∈ tx.outputs := by
  have hown : outputsAfter U tx tx.hash = (CCoins.fromTx tx 0).vout := by
    unfold outputsAfter
    by_cases himport : tx.isCoinImport = true
    · simp [himport, update_of_ne (hburn himport)]
    · simp [himport]
  rw [unspentOutput, ho, hown, filter_eq_some_iff] at h
  obtain ⟨hat, hnull⟩ := h
  have hmap : (tx.vout.map fun o : CTxOut =>
      if o.scriptPubKey.isUnspendable then CTxOut.null else o)[o.n]? = some t := by
    rcases CCoins.getElem?_rdropWhile (tx.vout.map fun o : CTxOut =>
      if o.scriptPubKey.isUnspendable then CTxOut.null else o) o.n with hk | ⟨hk, -⟩
    · exact hk ▸ hat
    · exact absurd (hk.symm.trans hat) (by simp)
  rw [getElem?_map, map_eq_some_iff] at hmap
  obtain ⟨t', ht', heq⟩ := hmap
  split at heq
  · rw [← heq] at hnull
    exact absurd hnull (by decide)
  · subst heq
    refine mem_map.mpr ⟨(t', o.n), mk_mem_zipIdx_iff_getElem?.mpr ht', ?_⟩
    rw [← ho]

theorem restoredValue_of_not_makesKey {S : List COutPoint}
    (h : (updateCoins tx nHeight).Outcome coinsSpec m (.ok undo, m'))
    (hburn : tx.isCoinImport = true → tx.hash ≠ tx.burnTxid) (hown : k.txhash = tx.hash)
    (hmakes : ¬ tx.MakesKey k) : restoredValue m' S k = none := by
  unfold restoredValue
  cases ht : unspentOutput (outputsOf m') k.outPoint with
  | none => rfl
  | some t =>
    rw [updateCoins_outputs h] at ht
    have hk : k ∉ addressKeys t.scriptPubKey k.outPoint :=
      fun hk => hmakes ⟨_, mem_outputs_of_unspent hburn hown ht, hk⟩
    simp [hk]

omit [NoteTrees] [CryptoHash] [AddressTypes] in
theorem ClearOf.spends {ids : List UInt256} (h : ClearOf ids tx)
    (ho : o ∈ tx.spends) : o.hash ∉ ids := by
  unfold CTransaction.spends at ho
  cases hmint : tx.isMint with
  | true => simp [hmint] at ho
  | false =>
    simp only [hmint, false_eq_true, if_false] at ho
    obtain ⟨i, hi, rfl⟩ := mem_map.mp ho
    exact h.inputs hmint i hi

omit [NoteTrees] in
theorem disconnectUnspentBatch_cons (tx : CTransaction) (txs : List CTransaction)
    (r : List (CTxInUndo × CTxOut)) (rs : List (List (CTxInUndo × CTxOut))) :
    disconnectUnspentBatch (tx :: txs) (r :: rs)
      = disconnectUnspentBatch txs rs ++ disconnectUnspentEntries tx r := by
  simp [disconnectUnspentBatch]

theorem unspent_undone {ids : List UInt256} {txs : List CTransaction}
    {undos : List CTxUndo} {idx : CAddressUnspentKey → Option CAddressUnspentValue}
    (h : Connected nHeight m txs undos) (hclear : ∀ tx ∈ txs, ClearOf ids tx)
    (hdistinct : (txs.map CTransaction.hash).Nodup)
    (hnew : ∀ x ∈ txs.map CTransaction.hash, outputsOf m x = [])
    (hidx : ∀ k, k.txhash ∈ txs.map CTransaction.hash → idx k = none) (k : CAddressUnspentKey) :
    updateAddressUnspentIndex (disconnectUnspentBatch txs (undos.map CTxUndo.restored))
        (updateAddressUnspentIndex
          (connectUnspentBatch nHeight txs (spentOutputs (outputsOf m) txs)) idx) k
      = if k.txhash ∈ txs.map CTransaction.hash then none
        else (restoredValue m (txs.flatMap CTransaction.spends) k).or (idx k) := by
  induction txs generalizing m undos idx with
  | nil =>
    have hnone : restoredValue m [] k = none := by
      unfold restoredValue
      cases unspentOutput (outputsOf m) k.outPoint <;> simp
    simp [hnone, disconnectUnspentBatch, connectUnspentBatch, updateAddressUnspentIndex,
      updateIndex]
  | cons tx txs ih =>
    obtain ⟨undo, rest, m₁, rfl, hupdate, hrest⟩ := h
    obtain ⟨hclear₀, hclear⟩ := forall_mem_cons.mp hclear
    obtain ⟨hnot, hdistinct⟩ := nodup_cons.mp hdistinct
    obtain ⟨m', hspend, -⟩ := updateCoins_coins hupdate
    have hsome := (spendInputs_undo hspend).2.1
    set idx₁ := updateAddressUnspentIndex
      (connectUnspentEntries nHeight tx (spentBy (outputsOf m) tx)) idx with hidx₁
    have hconnect : updateAddressUnspentIndex (connectUnspentBatch nHeight (tx :: txs)
          (spentOutputs (outputsOf m) (tx :: txs))) idx
        = updateAddressUnspentIndex (connectUnspentBatch nHeight txs
          (spentOutputs (outputsOf m₁) txs)) idx₁ := by
      rw [updateCoins_outputs hupdate, hidx₁]
      exact updateIndex_append
    have hburn : ∀ {x : UInt256}, x ∉ ids → tx.isCoinImport = true → x ≠ tx.burnTxid :=
      fun hx himport heq => hx (heq ▸ hclear₀.burn himport)
    have hothers : ∀ {k : CAddressUnspentKey}, k.txhash ∈ txs.map CTransaction.hash →
        ¬ tx.MakesKey k := fun hk hmakes => hnot (hmakes.txhash_eq ▸ hk)
    have hnew₁ : ∀ x ∈ txs.map CTransaction.hash, outputsOf m₁ x = [] := by
      intro x hx
      obtain ⟨tx', htx', rfl⟩ := mem_map.mp hx
      rw [updateCoins_outputs hupdate, outputsAfter_of_ne (fun heq => hnot (heq ▸ hx))
        (hburn (hclear tx' htx').own)]
      exact foldl_spendOutput_nil (hnew _ (.tail _ hx)) _
    have hold : tx.SpendsKey (outputsOf m) k → k.txhash ∉ (tx :: txs).map CTransaction.hash := by
      rintro ⟨o, -, t, ht, hk⟩ hmem
      obtain rfl := outPoint_of_mem hk
      have hnil : outputsOf m k.outPoint.hash = [] := hnew _ hmem
      simp [unspentOutput, hnil] at ht
    have hnone₁ : ∀ k, k.txhash ∈ txs.map CTransaction.hash → idx₁ k = none := fun k hk =>
      connectUnspentEntries_of_not_makesKey (hothers hk) (hidx k (.tail _ hk))
    rw [map_cons, disconnectUnspentBatch_cons, hconnect, updateAddressUnspentIndex,
      updateIndex_append, ← updateAddressUnspentIndex]
    by_cases hspends : tx.SpendsKey (outputsOf m) k
    · rw [if_neg (hold hspends)]
      obtain ⟨o, ho, t, ht, hk⟩ := hspends
      obtain rfl := outPoint_of_mem hk
      rw [disconnectUnspentEntries_of_spends hupdate ho ht hk, restoredValue, ht,
        bind_some, flatMap_cons, if_pos ⟨mem_append_left _ ho, hk⟩,
        undoHeight_append_of_mem ho]
      rfl
    obtain ⟨herased, hkept⟩ := disconnectUnspentEntries_of_not_spends hupdate hspends
    by_cases hmakes : tx.MakesKey k
    · rw [herased hmakes, hmakes.txhash_eq]
      simp
    rw [hkept hmakes, ih hrest hclear hdistinct hnew₁ hnone₁, hidx₁,
      connectUnspentEntries_of_not hsome hspends hmakes]
    by_cases hown : k.txhash = tx.hash
    · have hmem : k.txhash ∈ (tx :: txs).map CTransaction.hash := hown ▸ .head _
      rw [if_neg (hown ▸ hnot), if_pos hmem, hidx k hmem, or_none]
      refine restoredValue_of_not_makesKey hupdate (fun himport heq => ?_) hown hmakes
      exact hclear₀.own (heq ▸ hclear₀.burn himport)
    · have hspent : k.outPoint ∈ tx.spends ++ txs.flatMap CTransaction.spends → k.txhash ∉ ids := by
        intro hmem
        rw [← flatMap_cons] at hmem
        obtain ⟨tx', htx', ho⟩ := mem_flatMap.mp hmem
        exact (forall_mem_cons.mpr ⟨hclear₀, hclear⟩ tx' htx').spends ho
      rw [restoredValue_cons hupdate hown (fun ho => hburn (hspent ho)) hspends]
      simp [hown]

/-! ### A block -/

/-- The index of these plain coins: every key of every unspent output. -/
def MatchesCoins (idx : CAddressUnspentKey → Option CAddressUnspentValue)
    (m : UInt256 → Option CCoins) : Prop :=
  ∀ k, idx k = (unspentOutput (outputsOf m) k.outPoint).bind fun t =>
    if k ∈ addressKeys t.scriptPubKey k.outPoint then
      some ⟨t.nValue, t.scriptPubKey, heightsOf m k.txhash⟩
    else none

def CBlock.SpendsLast (block : CBlock) (m : UInt256 → Option CCoins) : Prop :=
  ∀ o ∈ block.vtx.flatMap CTransaction.spends, ∀ coins, m o.hash = some coins →
    coins.isAvailable o.n = true → addressKeys (coins.outputAt o.n).scriptPubKey o ≠ [] →
    ∀ n, n ≠ o.n → coins.isAvailable n = true →
      ⟨o.hash, n⟩ ∈ spentBefore (block.vtx.flatMap CTransaction.spends) o

omit [NoteTrees] in
theorem restored_eq_iff {block : CBlock}
    {idx idx' : CAddressUnspentKey → Option CAddressUnspentValue} (hm : Stored m)
    (hidx : MatchesCoins idx m) (hnew : ∀ tx ∈ block.vtx, m tx.hash = none)
    (hidx' : ∀ k, idx' k = if k.txhash ∈ block.vtx.map CTransaction.hash then none
      else (restoredValue m (block.vtx.flatMap CTransaction.spends) k).or (idx k)) :
    idx' = idx ↔ block.SpendsLast m := by
  have hkey : ∀ k, idx' k = idx k ↔ ∀ t, unspentOutput (outputsOf m) k.outPoint = some t →
      k.outPoint ∈ block.vtx.flatMap CTransaction.spends →
      k ∈ addressKeys t.scriptPubKey k.outPoint →
      undoHeight (outputsOf m) (heightsOf m) (block.vtx.flatMap CTransaction.spends) k.outPoint
        = heightsOf m k.outPoint.hash := by
    intro k
    have hhash : k.outPoint.hash = k.txhash := rfl
    rw [hidx', hidx k, restoredValue]
    cases ht : unspentOutput (outputsOf m) k.outPoint with
    | none => simp
    | some t =>
      have hnot : k.txhash ∉ block.vtx.map CTransaction.hash := by
        intro hmem
        obtain ⟨tx, htx, heq⟩ := mem_map.mp hmem
        obtain ⟨coins, hcoins, -⟩ := unspentOutput_eq_some.mp ht
        rw [hhash, ← heq, hnew tx htx] at hcoins
        exact absurd hcoins (by simp)
      rw [if_neg hnot]
      by_cases hk : k ∈ addressKeys t.scriptPubKey k.outPoint
      · by_cases hS : k.outPoint ∈ block.vtx.flatMap CTransaction.spends
        · simp [hk, hS, hhash]
        · simp [hk, hS]
      · simp [hk]
  have hlast : ∀ o coins, m o.hash = some coins →
      (undoHeight (outputsOf m) (heightsOf m) (block.vtx.flatMap CTransaction.spends) o
          = heightsOf m o.hash ↔
        ∀ n, n ≠ o.n → coins.isAvailable n = true →
          ⟨o.hash, n⟩ ∈ spentBefore (block.vtx.flatMap CTransaction.spends) o) := by
    intro o coins hcoins
    have hpos : 0 < heightsOf m o.hash := by
      rw [heightsOf, hcoins]
      exact (hm _ coins hcoins).2.height
    rw [undoHeight_eq_iff hpos]
    refine forall_congr' fun n => forall_congr' fun _ => ?_
    rw [unspentOutput_outputsOf, outputIn, hcoins, bind_some, CCoins.isAvailable_eq]
  rw [funext_iff]
  constructor
  · intro h o ho coins hcoins ha hkeys
    obtain ⟨k, hk⟩ := exists_mem_of_ne_nil _ hkeys
    obtain rfl := outPoint_of_mem hk
    refine (hlast _ coins hcoins).mp ((hkey k).mp (h k) _ ?_ ho hk)
    exact unspentOutput_eq_some.mpr ⟨coins, hcoins, ha, rfl⟩
  · intro h k
    refine (hkey k).mpr fun t ht ho hk => ?_
    obtain ⟨coins, hcoins, ha, rfl⟩ := unspentOutput_eq_some.mp ht
    exact (hlast _ coins hcoins).mpr (h _ ho coins hcoins ha (ne_nil_of_mem hk))

section

variable {c : ConsensusParams} {pindex : CBlockIndex}

omit [AddressTypes] in
theorem connectTxs_connected {i : Nat} {st st' : ConnectState} {txs : List CTransaction}
    (hc : ∀ tx ∈ txs, Checked c tx ∧ tx.nVersion < 2 ^ 31) (hi : i ≠ 0)
    (h : (connectTxs c pindex i st txs).Outcome coinsSpec m (.ok st', m')) :
    ∃ undos, Connected pindex.nHeight m txs undos ∧ st'.vtxundo = st.vtxundo ++ undos := by
  induction txs generalizing i st m with
  | nil =>
    obtain ⟨rfl, rfl⟩ := outcome_pure_ok.mp h
    exact ⟨[], rfl, by simp⟩
  | cons tx txs ih =>
    obtain ⟨st₁, m₁, htx, hrest⟩ := outcome_bind_ok.mp h
    obtain ⟨hc₀, hc⟩ := forall_mem_cons.mp hc
    obtain ⟨undo, -, hupdate, hundo⟩ := connectTx_coins hc₀ htx
    obtain ⟨undos, hundos, heq⟩ := ih hc (by omega) hrest
    refine ⟨undo :: undos, ⟨undo, undos, m₁, rfl, hupdate, hundos⟩, ?_⟩
    rw [heq, hundo, if_neg hi, append_assoc]
    rfl

omit [AddressTypes] in
theorem connectBlock_connected {pprev : CBlockIndex} {block : CBlock} {undo : CBlockUndo}
    {s₀ s : PlainView} (hext : Extends c pindex pprev block s₀)
    (h : (connectBlock c pindex block).Outcome plainSpec s₀ (.ok (some undo), s)) :
    ∃ coinbase rest undo₀, block.vtx = coinbase :: rest ∧ coinbase.isMint = true ∧
      Connected pindex.nHeight s₀.coins block.vtx (undo₀ :: undo.vtxundo) ∧
      (∀ tx ∈ block.vtx, s₀.coins tx.hash = none) ∧
      Runs (readPrevouts pindex.nHeight block.vtx) s₀.coins := by
  obtain ⟨coinbase, rest, hvtx, hcb, -, hchecked, -⟩ := checkBlock_eq_ok (connectBlock_ok h).1
  have htxs := connectBlock_txs (coins_part.neutral (by decide) (by decide)) (outcome_coins h)
  split at htxs
  · exact absurd htxs.1 (by simp)
  obtain ⟨_, _, st₀, st, hundo, -, -, -, hnil, hover, hconnect, -⟩ := htxs
  obtain rfl := some.inj hundo
  have hc : ∀ tx ∈ block.vtx, Checked c tx ∧ tx.nVersion < 2 ^ 31 :=
    fun tx htx => ⟨hchecked tx htx, hext.versions tx htx⟩
  have hruns := Runs.readPrevouts hconnect rfl
  have hnew := checkOverwrites_ok hover
  have hmint : coinbase.isMint = true := by simp [CTransaction.isMint, hcb]
  rw [hvtx] at hconnect hc
  obtain ⟨st₁, m₁, hfirst, hrest⟩ := outcome_bind_ok.mp hconnect
  obtain ⟨hc₀, hc⟩ := forall_mem_cons.mp hc
  obtain ⟨undo₀, -, hupdate, hundo₀⟩ := connectTx_coins hc₀ hfirst
  obtain ⟨undos, hundos, heq⟩ := connectTxs_connected hc (by omega) hrest
  rw [if_pos rfl, hnil] at hundo₀
  rw [hundo₀, nil_append] at heq
  refine ⟨coinbase, rest, undo₀, hvtx, hmint, ?_, hnew, hruns⟩
  rw [hvtx, heq]
  exact ⟨undo₀, undos, m₁, rfl, hupdate, hundos⟩

/-- **The index is restored exactly when every spent output of an address was the last of its
record**: for others the undo data has no height. -/
theorem unspent_index_restored_iff [PubKeys] {pprev : CBlockIndex} {block : CBlock}
    {v v₁ : CacheView} {undo : CBlockUndo}
    {idx : CAddressUnspentKey → Option CAddressUnspentValue} (hv : v.AllSound)
    (hext : Extends c pindex pprev block v.answers) (hapart : block.TxidsApart)
    (hidx : MatchesCoins idx v.answers.coins)
    (hconnect : (connectBlock c pindex block).run viewHandler v = (.ok (some undo), v₁)) :
    ∃ idx₁ undo' v₂ idx₂, connectUnspentIndex pindex.nHeight block v idx = .ok idx₁ ∧
      undoReadFromDisk pprev.hash (undoWriteToDisk pprev.hash undo) = .ok undo' ∧
      (disconnectBlock c pindex block undo').run viewHandler v₁ = (.ok true, v₂) ∧
      disconnectUnspentIndex block undo' v₁ idx₁ = .ok idx₂ ∧
      (idx₂ = idx ↔ block.SpendsLast v.answers.coins) := by
  have hrel : PlainRel v v.answers := ⟨hv, rfl⟩
  obtain ⟨_, hout, hv₁, rfl⟩ := plain_simulates.run (p := connectBlock c pindex block) hrel
  rw [hconnect] at hout hv₁
  obtain ⟨henc, hback⟩ := disconnectBlock_undoes hext hapart hout
  obtain ⟨_, v₂, _, hrun, ⟨rfl, -⟩, -⟩ :=
    plain_simulates.run_ensures (s := v₁) (t := v₁.answers) ⟨hv₁, rfl⟩ hback
  obtain ⟨coinbase, rest, undo₀, hvtx, hmint, hconnected, hnew, hruns⟩ :=
    connectBlock_connected hext hout
  -- the outputs that the two loops see
  have htop : v.answers.coins = v.coinsGenerations.top := answers_coins v
  obtain ⟨prevouts, v₃, m₃, hrun₃, hread, -⟩ :=
    (coinsUpdate_simulates v.coinsGenerations.below).run_ensures
      (t := v.answers.coins) ⟨hv.coins, by rw [htop]⟩ hruns
  obtain rfl := readPrevouts_outputs hread
  have hrestored : (readRestored (block.vtx.zip (none :: undo.vtxundo.map some))).Ensures
      coinsUpdateSpec v₁.coinsGenerations.top fun restored _ =>
        restored = (undo₀ :: undo.vtxundo).map CTxUndo.restored := by
    rw [hvtx] at hconnected ⊢
    obtain ⟨_, _, m₁, heq, hupdate, hrest⟩ := hconnected
    obtain ⟨rfl, rfl⟩ := cons.inj heq
    exact readRestored_cons hupdate (fun hno => absurd hmint (by simp [hno]))
      (readRestored_outputs hrest _)
  obtain ⟨_, v₄, _, hrun₄, rfl, -⟩ :=
    (coinsUpdate_simulates v₁.coinsGenerations.below).run_ensures
      (t := v₁.coinsGenerations.top) ⟨hv₁.coins, rfl⟩ hrestored
  have hnil : ∀ x ∈ block.vtx.map CTransaction.hash, outputsOf v.answers.coins x = [] := by
    intro x hx
    obtain ⟨tx, htx, rfl⟩ := mem_map.mp hx
    rw [outputsOf, hnew tx htx]
    rfl
  have hnone : ∀ k, k.txhash ∈ block.vtx.map CTransaction.hash → idx k = none := by
    intro k hk
    have hout : outputsOf v.answers.coins k.outPoint.hash = [] := hnil _ hk
    rw [hidx k, unspentOutput, hout]
    rfl
  refine ⟨_, undo, v₂, _, by simp only [connectUnspentIndex, hrun₃]; rfl,
    undoReadFromDisk_undoWriteToDisk henc, hrun,
    by simp only [disconnectUnspentIndex, hrun₄]; rfl, ?_⟩
  exact restored_eq_iff hext.coins hidx hnew
    (unspent_undone hconnected (fun tx htx => hapart.clearOf htx) hapart.distinct hnil hnone)

end

end

/-! ### Records with one output and with two -/

section

local instance unspentTrees : NoteTrees := listTrees

local instance unspentHash : CryptoHash := ⟨fun _ => 0, fun _ => 0⟩

local instance unspentKeys : PubKeys := diagonalKeys

local instance unspentAddresses : AddressTypes :=
  ⟨fun s => if s.length = 1 then (1, [s]) else (0, [])⟩

def recordDB (c : CCoins) (h : c.isPruned = false) : CCoinsViewDB :=
  { coins := AList.insert 41 (.ofCoins c h) ∅, bestBlock := some 2 }

def recordView (c : CCoins) (h : c.isPruned = false) : CacheView := ⟨{}, .base (recordDB c h)⟩

def oneOutput : CCoins := ⟨false, [⟨3, [0x51]⟩], 1, 1⟩

theorem storable_oneOutput : oneOutput.Storable := by
  refine ⟨fun o ho hnull => ?_, fun o ho _ => ?_, by decide, by decide, by decide, by decide⟩
  · obtain rfl := mem_singleton.mp ho
    exact absurd hnull (by decide)
  · obtain rfl := mem_singleton.mp ho
    exact ⟨by decide, by decide, by decide⟩

def twoOutputs : CCoins := ⟨false, [⟨3, [0x51]⟩, ⟨4, [0x51]⟩], 1, 1⟩

def spendFirstBlock : CBlock := ⟨3, 0, UInt256.null, [coinbaseTx 42, spendCoinbaseTx]⟩

def spendFirstIndex : CBlockIndex := ⟨3, 2, 0, UInt256.null, some (indexOnGenesis 2)⟩

theorem allSound_recordView (c : CCoins) (h : c.isPruned = false) : (recordView c h).AllSound := by
  refine ⟨CoinsOp.sound_new _, fun _ => nullifierKind.coherent_empty trivial, ?_⟩
  have hbase : AnchorsSound (.base (recordDB c h)) :=
    ⟨fun _ => trivial, fun t rt tree h => represents_empty.rooted t rt tree h⟩
  exact hbase.layer_empty fun _ => rfl

theorem extends_spendFirstBlock {c : CCoins} {h : c.isPruned = false} (hs : c.Storable) :
    Extends smallChain spendFirstIndex (indexOnGenesis 2) spendFirstBlock
      (recordView c h).answers where
  prev := rfl
  hash := by decide
  prevHash := by decide
  height := by decide
  height_lt := by decide
  coins := by
    intro x d hd
    have hget : ((recordDB c h).getCoins x).bind CCoins.present = some d := by
      exact hd
    obtain ⟨e, he, hd⟩ := bind_eq_some_iff.mp hget
    obtain ⟨r, hr, rfl⟩ := map_eq_some_iff.mp he
    obtain rfl : r = .ofCoins c h := by
      by_cases hx : x = 41
      · subst hx
        exact some.inj (hr.symm.trans (AList.lookup_insert _))
      · have hnone : (recordDB c h).coins.lookup x = none :=
          (AList.lookup_insert_ne hx).trans (AList.lookup_empty x)
        exact absurd (hr.symm.trans hnone) (by simp)
    rw [StoredCoins.coins_ofCoins, CCoins.present_of_not_isPruned
      (by rw [CCoins.isPruned_cleanup, h])] at hd
    rw [← some.inj hd]
    exact ⟨c.clean_cleanup, hs.cleanup⟩
  best t := listTrees_root_ne_null t _
  sapling := rfl
  frontier := rfl
  roots t tree tree' hroot happend := by
    obtain rfl : tree = tree' := by
      cases t <;> exact Except.ok.inj happend
    exact ⟨listTrees_root_ne_null t tree, .inl hroot⟩
  versions := by decide
  sizes := by decide
  maxBlockSize := by decide

theorem unspent_index_restored_oneOutput : ∃ idx idx₁ idx₂ v₁ v₂ undo undo',
      MatchesCoins idx (recordView oneOutput rfl).answers.coins ∧
      (connectBlock smallChain spendFirstIndex spendFirstBlock).run viewHandler
        (recordView oneOutput rfl) = (.ok (some undo), v₁) ∧
      connectUnspentIndex 2 spendFirstBlock (recordView oneOutput rfl) idx = .ok idx₁ ∧
      undoReadFromDisk 2 (undoWriteToDisk 2 undo) = .ok undo' ∧
      (disconnectBlock smallChain spendFirstIndex spendFirstBlock undo').run viewHandler v₁
        = (.ok true, v₂) ∧
      disconnectUnspentIndex spendFirstBlock undo' v₁ idx₁ = .ok idx₂ ∧ idx₂ = idx := by
  generalize hrun : (connectBlock smallChain spendFirstIndex spendFirstBlock).run viewHandler
    (recordView oneOutput rfl) = out
  obtain ⟨undo, v₁, rfl⟩ : ∃ undo v₁, out = (.ok (some undo), v₁) := by
    rw [← hrun]
    exact ⟨_, _, rfl⟩
  have hapart : spendFirstBlock.TxidsApart := ⟨by decide, by decide, by decide⟩
  obtain ⟨idx₁, undo', v₂, idx₂, h₁, hread, hback, h₂, hiff⟩ :=
    unspent_index_restored_iff (allSound_recordView oneOutput rfl)
      (extends_spendFirstBlock storable_oneOutput) hapart (fun k => rfl) hrun
  refine ⟨_, idx₁, idx₂, v₁, v₂, undo, undo', fun k => rfl, rfl, h₁, hread, hback, h₂,
    hiff.mpr fun o ho coins hcoins _ _ n hn ha => ?_⟩
  obtain rfl : o = ⟨41, 0⟩ := mem_singleton.mp ho
  obtain rfl : oneOutput = coins := some.inj hcoins
  obtain ⟨k, rfl⟩ := Nat.exists_eq_succ_of_ne_zero hn
  exact absurd ha (by simp [CCoins.isAvailable, oneOutput])

def firstKey : CAddressUnspentKey := ⟨1, addrHash [0x51], 41, 0⟩

/-- **The height is lost**: one of two outputs of a record is spent, and comes back in the index
with height zero. -/
theorem disconnect_loses_height : ∃ idx idx₁ idx₂ v₁ undo,
      MatchesCoins idx (recordView twoOutputs rfl).answers.coins ∧
      (connectBlock smallChain spendFirstIndex spendFirstBlock).run viewHandler
        (recordView twoOutputs rfl) = (.ok (some undo), v₁) ∧
      connectUnspentIndex 2 spendFirstBlock (recordView twoOutputs rfl) idx = .ok idx₁ ∧
      undoReadFromDisk 2 (undoWriteToDisk 2 undo) = .ok undo ∧
      disconnectUnspentIndex spendFirstBlock undo v₁ idx₁ = .ok idx₂ ∧
      idx firstKey = some ⟨3, [0x51], 1⟩ ∧ idx₂ firstKey = some ⟨3, [0x51], 0⟩ := by
  refine ⟨fun k => _, _, _, _, ⟨[⟨[⟨⟨3, [0x51]⟩, false, 0, 0⟩]⟩], emptyRoot .sprout⟩, fun k => rfl,
    rfl, rfl, undoReadFromDisk_undoWriteToDisk ?_, rfl, ?_, ?_⟩
  · refine ⟨by decide, by simp [maxSize], ?_⟩
    simp only [mem_singleton, forall_eq]
    exact ⟨⟨by decide, by decide, by decide⟩, by decide, by decide, by decide, fun _ => rfl⟩
  · decide
  · decide

end

end Elosys
