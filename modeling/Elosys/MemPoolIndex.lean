import Elosys.MemPool

/-!
# What the Memory Pool Says of Its Transactions

As long as what enters the pool does not conflict with it, which `AcceptToMemoryPool` checks, all
maps of `CTxMemPool` are induced by `mapTx` after any operations but `clear`, which empties only
the transactions and the map of spent outputs.

## Main results

* `Kept` is the invariant of the pool: each of its maps is induced by `mapTx`.
* Every admitted sequence of operations but `clear` keeps it.
-/

open AssocBatch List Option Except

namespace Elosys

section

variable [CryptoHash]

/-! ### The invariant -/

/-- The maps hold exactly what the pool's transactions have. -/
structure CTxMemPool.Exact (pool : CTxMemPool) : Prop where
  nextTx : Induced (fun e => e.tx.nextTxEntries) pool.mapTx pool.mapNextTx
  sproutNullifiers : Induced (fun e => ownedBy e.tx e.tx.sproutNullifiers) pool.mapTx
    pool.mapSproutNullifiers
  saplingNullifiers : Induced (fun e => ownedBy e.tx e.tx.saplingNullifiers) pool.mapTx
    pool.mapSaplingNullifiers
  spendProofs : Induced (fun e => ownedBy e.tx e.tx.spendProofHashes) pool.mapTx
    pool.mapZkSpendProofHash
  outputProofs : Induced (fun e => ownedBy e.tx e.tx.outputProofHashes) pool.mapTx
    pool.mapZkOutputProofHash
  address : ∀ k d, pool.mapAddress.lookup k = some d → ∃ e ∈ pool.mapTx, e.tx.hash = k.txhash
  spent : ∀ k v, pool.mapSpent.lookup k = some v → ∃ e ∈ pool.mapTx, e.tx.hash = v.txid
  totalTxSize : pool.totalTxSize = (pool.mapTx.map CTxMemPoolEntry.nTxSize).sum
  cachedInnerUsage :
    pool.cachedInnerUsage = (pool.mapTx.map CTxMemPoolEntry.nUsageSize).sum

/-- The invariant of the pool: besides, its hashes are distinct, no transaction spends what a
coin import names, and its index entries are on record. -/
structure CTxMemPool.Kept (pool : CTxMemPool) : Prop extends pool.Exact where
  distinct : (pool.mapTx.map fun e => e.tx.hash).Nodup
  imports : ∀ e ∈ pool.mapTx, e.tx.isCoinImport = true → ∀ e' ∈ pool.mapTx,
    e'.tx.isCoinImport = false → ∀ i ∈ e.tx.vin, i.prevout ∉ e'.tx.vin.map CTxIn.prevout
  addressInserted : ∀ k d, pool.mapAddress.lookup k = some d →
    ∃ keys, pool.mapAddressInserted.lookup k.txhash = some keys ∧ k ∈ keys
  spentInserted : ∀ k v, pool.mapSpent.lookup k = some v →
    ∃ keys, pool.mapSpentInserted.lookup v.txid = some keys ∧ k ∈ keys

/-- The five maps hold exactly the entries of the pool's transactions, and nothing under what a
coin import names. -/
structure CTxMemPool.MapsAgree (pool : CTxMemPool) : Prop where
  distinct : (pool.mapTx.map fun e => e.tx.hash).Nodup
  nextTx : Induced (fun e => e.tx.nextTxEntries) pool.mapTx pool.mapNextTx
  imports : ∀ e ∈ pool.mapTx, e.tx.isCoinImport = true →
    ∀ i ∈ e.tx.vin, pool.mapNextTx.lookup i.prevout = none
  sproutNullifiers : Induced (fun e => ownedBy e.tx e.tx.sproutNullifiers) pool.mapTx
    pool.mapSproutNullifiers
  saplingNullifiers : Induced (fun e => ownedBy e.tx e.tx.saplingNullifiers) pool.mapTx
    pool.mapSaplingNullifiers
  spendProofs : Induced (fun e => ownedBy e.tx e.tx.spendProofHashes) pool.mapTx
    pool.mapZkSpendProofHash
  outputProofs : Induced (fun e => ownedBy e.tx e.tx.outputProofHashes) pool.mapTx
    pool.mapZkOutputProofHash

theorem CTxMemPool.kept_empty : CTxMemPool.Kept {} := by
  refine ⟨⟨induced_empty, induced_empty, induced_empty, induced_empty, induced_empty, ?_, ?_,
    rfl, rfl⟩, by simp, by simp, ?_, ?_⟩ <;> simp

omit [CryptoHash] in
theorem mem_nextTxEntries {tx : CTransaction} {o : COutPoint} {x : CInPoint} :
    (o, x) ∈ tx.nextTxEntries ↔
      tx.isCoinImport = false ∧ x.ptx = tx ∧ (tx.vin[x.n]?).map CTxIn.prevout = some o := by
  obtain ⟨ptx, n⟩ := x
  unfold CTransaction.nextTxEntries
  cases tx.isCoinImport with
  | true => simp
  | false =>
    simp only [Bool.false_eq_true, if_false, List.mem_map, Prod.exists,
      List.mk_mem_zipIdx_iff_getElem?, Prod.mk.injEq, CInPoint.mk.injEq, true_and,
      Option.map_eq_some_iff]
    constructor
    · rintro ⟨i, _, hi, rfl, rfl, rfl⟩
      exact ⟨rfl, i, hi, rfl⟩
    · rintro ⟨rfl, i, hi, rfl⟩
      exact ⟨i, n, hi, rfl, rfl, rfl⟩

omit [CryptoHash] in
theorem mem_ownedBy {tx t : CTransaction} {hashes : List UInt256} {h : UInt256} :
    (h, t) ∈ ownedBy tx hashes ↔ t = tx ∧ h ∈ hashes := by
  simp only [ownedBy, List.mem_map, Prod.mk.injEq]
  constructor
  · rintro ⟨_, hmem, rfl, rfl⟩
    exact ⟨rfl, hmem⟩
  · rintro ⟨rfl, hmem⟩
    exact ⟨h, hmem, rfl, rfl⟩

/-! ### One entry goes -/

section

variable {pool : CTxMemPool} {e e' : CTxMemPoolEntry}

omit [CryptoHash] in
theorem eq_of_hash_eq (h : (pool.mapTx.map fun e => e.tx.hash).Nodup) (he : e ∈ pool.mapTx)
    (he' : e' ∈ pool.mapTx) (heq : e'.tx.hash = e.tx.hash) : e' = e :=
  inj_on_of_nodup_map h he' he heq

theorem mem_removeEntry (h : (pool.mapTx.map fun e => e.tx.hash).Nodup) (he : e ∈ pool.mapTx)
    (x : CTxMemPoolEntry) : x ∈ (pool.removeEntry e).mapTx ↔ x ∈ pool.mapTx ∧ x ≠ e := by
  simp only [CTxMemPool.removeEntry, mem_filter, bne_iff_ne, ne_eq]
  refine and_congr_right fun hx => not_congr ⟨fun heq => eq_of_hash_eq h he hx heq, ?_⟩
  rintro rfl
  rfl

theorem induced_removeEntry {hashes : CTransaction → List UInt256}
    {m : Assoc UInt256 CTransaction} (hd : (pool.mapTx.map fun e => e.tx.hash).Nodup)
    (he : e ∈ pool.mapTx) (h : Induced (fun e => ownedBy e.tx (hashes e.tx)) pool.mapTx m) :
    Induced (fun e => ownedBy e.tx (hashes e.tx)) (pool.removeEntry e).mapTx
      (eraseAll (hashes e.tx) m) := by
  refine h.remove (mem_removeEntry hd he) (fun p hp => (mem_ownedBy.mp hp).2) ?_
  rintro x hx ⟨k, t⟩ hk hmem
  obtain ⟨hx, hne⟩ := (mem_removeEntry hd he x).mp hx
  obtain ⟨rfl, -⟩ := mem_ownedBy.mp hk
  -- the key would belong to two transactions of the pool
  have h₁ := (h k x.tx).mpr ⟨x, hx, hk⟩
  have h₂ := (h k e.tx).mpr ⟨e, he, mem_ownedBy.mpr ⟨rfl, hmem⟩⟩
  exact hne (eq_of_hash_eq hd he hx (congrArg CTransaction.hash (some.inj (h₁.symm.trans h₂))))

section
omit [CryptoHash]

theorem sum_filter_hash {f : CTxMemPoolEntry → UInt64} {l : List CTxMemPoolEntry}
    (hd : (l.map fun e => e.tx.hash).Nodup) (he : e ∈ l) :
    ((l.filter fun e' => e'.tx.hash != e.tx.hash).map f).sum = (l.map f).sum - f e := by
  induction l with
  | nil => exact absurd he (by simp)
  | cons e' l ih =>
    obtain ⟨hnot, hd⟩ := nodup_cons.mp hd
    rw [filter_cons]
    rcases mem_cons.mp he with rfl | he
    · have hall : (l.filter fun e' => e'.tx.hash != e.tx.hash) = l := by
        refine filter_eq_self.mpr fun x hx => ?_
        rw [bne_iff_ne]
        exact fun heq => hnot (mem_map.mpr ⟨x, hx, heq⟩)
      grind
    · have hne : (e'.tx.hash != e.tx.hash) = true := by
        rw [bne_iff_ne]
        exact fun heq => hnot (mem_map.mpr ⟨e, he, heq.symm⟩)
      grind

theorem lookup_eraseRecorded {κ α : Type} [DecidableEq κ] {m : Assoc κ α}
    {inserted : Assoc UInt256 (List κ)} {owner : κ → α → UInt256} {hash : UInt256} {k : κ} {a : α}
    (h : ∀ k a, m.lookup k = some a → ∃ keys, inserted.lookup (owner k a) = some keys ∧ k ∈ keys)
    (hk : (eraseAll ((inserted.lookup hash).getD []) m).lookup k = some a) :
    m.lookup k = some a ∧ owner k a ≠ hash ∧
      ∃ keys, (inserted.erase hash).lookup (owner k a) = some keys ∧ k ∈ keys := by
  rw [lookup_eraseAll] at hk
  split at hk
  · exact absurd hk (by simp)
  next hnot =>
  obtain ⟨keys, hkeys, hmem⟩ := h k a hk
  have hne : owner k a ≠ hash := by
    intro heq
    rw [heq] at hkeys
    exact hnot (by rwa [hkeys, getD_some])
  exact ⟨hk, hne, keys, by rw [lookup_erase_eq, if_neg hne, hkeys], hmem⟩

theorem mem_prevouts_of_mem_nextTxEntries {tx : CTransaction} {o : COutPoint} {x : CInPoint}
    (h : (o, x) ∈ tx.nextTxEntries) : o ∈ tx.vin.map CTxIn.prevout := by
  obtain ⟨-, -, hat⟩ := mem_nextTxEntries.mp h
  obtain ⟨i, hi, rfl⟩ := map_eq_some_iff.mp hat
  exact mem_map_of_mem (mem_of_getElem? hi)

end

theorem CTxMemPool.Kept.mapsAgree (h : pool.Kept) : pool.MapsAgree := by
  refine ⟨h.distinct, h.nextTx, fun e he himport i hi => ?_, h.sproutNullifiers,
    h.saplingNullifiers, h.spendProofs, h.outputProofs⟩
  by_contra hentered
  obtain ⟨x, hx⟩ := ne_none_iff_exists'.mp hentered
  obtain ⟨e', he', ho⟩ := (h.nextTx i.prevout x).mp hx
  exact h.imports e he himport e' he' (mem_nextTxEntries.mp ho).1 i hi
    (mem_prevouts_of_mem_nextTxEntries ho)

theorem CTxMemPool.MapsAgree.removeEntry (h : pool.MapsAgree) (he : e ∈ pool.mapTx) :
    (pool.removeEntry e).MapsAgree := by
  have hmem := mem_removeEntry h.distinct he
  refine ⟨h.distinct.sublist (filter_sublist.map _), ?_, fun x hx himport i hi => ?_,
    induced_removeEntry h.distinct he h.sproutNullifiers,
    induced_removeEntry h.distinct he h.saplingNullifiers,
    induced_removeEntry h.distinct he h.spendProofs,
    induced_removeEntry h.distinct he h.outputProofs⟩
  · refine h.nextTx.remove hmem (fun _ ho => mem_prevouts_of_mem_nextTxEntries ho) ?_
    rintro e' he' ⟨o, x⟩ ho hkey
    obtain ⟨he', hne⟩ := (hmem e').mp he'
    have h₁ := (h.nextTx o x).mpr ⟨e', he', ho⟩
    obtain ⟨i, hi, rfl⟩ := mem_map.mp hkey
    cases himport : e.tx.isCoinImport with
    | true => exact absurd (h₁.symm.trans (h.imports e he himport i hi)) (by simp)
    | false =>
      -- the input would belong to two transactions of the pool
      obtain ⟨n, hn⟩ := getElem?_of_mem hi
      have h₂ := (h.nextTx i.prevout ⟨e.tx, n⟩).mpr ⟨e, he, mem_nextTxEntries.mpr
        ⟨himport, rfl, by rw [hn, map_some]⟩⟩
      have hx : x.ptx = e.tx := by rw [some.inj (h₁.symm.trans h₂)]
      have hptx := (mem_nextTxEntries.mp ho).2.1
      exact hne (eq_of_hash_eq h.distinct he he' (by rw [← hptx, hx]))
  · change (eraseAll _ pool.mapNextTx).lookup i.prevout = none
    rw [lookup_eraseAll, h.imports x ((hmem x).mp hx).1 himport i hi, ite_self]

theorem CTxMemPool.Kept.removeEntry (h : pool.Kept) (he : e ∈ pool.mapTx) :
    (pool.removeEntry e).Kept := by
  have hmem := mem_removeEntry h.distinct he
  have hagree := h.mapsAgree.removeEntry he
  refine ⟨⟨hagree.nextTx, hagree.sproutNullifiers, hagree.saplingNullifiers,
    hagree.spendProofs, hagree.outputProofs, fun k d hk => ?_, fun k v hk => ?_,
    ?_, ?_⟩, hagree.distinct, ?_, fun k d hk => ?_, fun k v hk => ?_⟩
  · obtain ⟨hold, hne, -⟩ := lookup_eraseRecorded h.addressInserted hk
    obtain ⟨x, hx, heq⟩ := h.address k d hold
    refine ⟨x, (hmem x).mpr ⟨hx, ?_⟩, heq⟩
    rintro rfl
    exact hne heq.symm
  · obtain ⟨hold, hne, -⟩ := lookup_eraseRecorded h.spentInserted hk
    obtain ⟨x, hx, heq⟩ := h.spent k v hold
    refine ⟨x, (hmem x).mpr ⟨hx, ?_⟩, heq⟩
    rintro rfl
    exact hne heq.symm
  · exact (congrArg (· - e.nTxSize) h.totalTxSize).trans (sum_filter_hash h.distinct he).symm
  · exact (congrArg (· - e.nUsageSize) h.cachedInnerUsage).trans
      (sum_filter_hash h.distinct he).symm
  · intro x hx himport x' hx' himport'
    exact h.imports x ((hmem x).mp hx).1 himport x' ((hmem x').mp hx').1 himport'
  · exact (lookup_eraseRecorded h.addressInserted hk).2.2
  · exact (lookup_eraseRecorded h.spentInserted hk).2.2

end

/-! ### Operations that remove -/

section

variable {P : CTxMemPool → Prop} {pool : CTxMemPool}

theorem removeLoop_keeps (hP : ∀ pool e, P pool → e ∈ pool.mapTx → P (pool.removeEntry e))
    (fRecursive : Bool) (queue : List UInt256) (removed : List CTransaction) (h : P pool) :
    P (pool.removeLoop fRecursive queue removed).2 := by
  fun_induction CTxMemPool.removeLoop fRecursive queue removed pool with
  | case1 removed pool => exact h
  | case2 removed pool hash queue hfind ih => exact ih h
  | case3 removed pool hash queue e hfind ih =>
    exact ih (hP pool e h (CTxMemPool.mem_of_find? hfind).1)

variable (hP : ∀ pool e, P pool → e ∈ pool.mapTx → P (pool.removeEntry e))

include hP

theorem remove_keeps (origTx : CTransaction) (fRecursive : Bool) (removed : List CTransaction)
    (h : P pool) : P (pool.remove origTx fRecursive removed).2 :=
  removeLoop_keeps hP fRecursive _ removed h

theorem removeAll_keeps (txs : List CTransaction) (h : P pool) : P (pool.removeAll txs) := by
  induction txs generalizing pool with
  | nil => exact h
  | cons tx txs ih => exact ih (remove_keeps hP tx true [] h)

theorem removeConflicts_keeps (tx : CTransaction) {st : List CTransaction × CTxMemPool}
    (h : P st.2) : P (CTxMemPool.removeConflicts tx st).2 := by
  unfold CTxMemPool.removeConflicts
  generalize conflictFinders tx = finders
  induction finders generalizing st with
  | nil => exact h
  | cons find finders ih =>
    refine ih ?_
    change P (CTxMemPool.removeConflict tx find st).2
    unfold CTxMemPool.removeConflict
    split
    · split
      · exact remove_keeps hP _ true st.1 h
      · exact h
    · exact h

theorem removeForBlock_keeps (vtx : List CTransaction) {st : List CTransaction × CTxMemPool}
    (h : P st.2) : P (CTxMemPool.removeForBlock vtx st).2 := by
  induction vtx generalizing st with
  | nil => exact h
  | cons tx vtx ih =>
    exact ih (removeConflicts_keeps hP tx (remove_keeps hP tx false [] h))

end

/-! ### A transaction enters -/

/-- A transaction may enter: it is new, passes the conflict check of `AcceptToMemoryPool`, and,
coin imports apart, its inputs are distinct and not named by a coin import of the pool. -/
structure CTxMemPool.Admits (pool : CTxMemPool) (tx : CTransaction) : Prop where
  new : pool.exists tx.hash = false
  clear : pool.conflictsWith tx = false
  inputs : tx.isCoinImport = false → (tx.vin.map CTxIn.prevout).Nodup
  imports : tx.isCoinImport = false → ∀ e ∈ pool.mapTx, e.tx.isCoinImport = true →
    ∀ i ∈ e.tx.vin, i.prevout ∉ tx.vin.map CTxIn.prevout

section

variable {pool : CTxMemPool} {entry : CTxMemPoolEntry}

section
omit [CryptoHash]

theorem insertEntry_eq (h : pool.exists entry.tx.hash = false) : pool.insertEntry entry
      = pool.mapTx.orderedInsert (fun a b => UInt256.le a.tx.hash b.tx.hash) entry := by
  unfold CTxMemPool.exists at h
  simp [CTxMemPool.insertEntry, h]

theorem mem_insertEntry (h : pool.exists entry.tx.hash = false) (x : CTxMemPoolEntry) :
    x ∈ pool.insertEntry entry ↔ x = entry ∨ x ∈ pool.mapTx := by
  rw [insertEntry_eq h, mem_orderedInsert]

theorem sum_insertEntry (h : pool.exists entry.tx.hash = false) (f : CTxMemPoolEntry → UInt64) :
    ((pool.insertEntry entry).map f).sum = (pool.mapTx.map f).sum + f entry := by
  rw [insertEntry_eq h]
  generalize pool.mapTx = l
  induction l with
  | nil => simp
  | cons e l ih =>
    rw [orderedInsert_cons]
    split
    · simp only [map_cons, sum_cons]
      grind
    · simp only [map_cons, sum_cons, ih]
      grind

theorem induced_insertEntry {hashes : CTransaction → List UInt256} {m : Assoc UInt256 CTransaction}
    (h : Induced (fun e => ownedBy e.tx (hashes e.tx)) pool.mapTx m)
    (hnew : pool.exists entry.tx.hash = false)
    (hnone : (hashes entry.tx).any (fun h => (m.lookup h).isSome) = false) :
    Induced (fun e => ownedBy e.tx (hashes e.tx)) (pool.insertEntry entry)
      (writeAll (ownedBy entry.tx (hashes entry.tx)) m) := by
  refine h.add (mem_insertEntry hnew) (fun k a b ha hb => ?_) fun e he => ?_
  · rw [(mem_ownedBy.mp ha).1, (mem_ownedBy.mp hb).1]
  · have hmem := (mem_ownedBy.mp he).2
    simpa using any_eq_false.mp hnone e.1 hmem

end

theorem CTxMemPool.Kept.addUnchecked (h : pool.Kept) (hadm : pool.Admits entry.tx) :
    (pool.addUnchecked entry).Kept := by
  have hnone : pool.find? entry.tx.hash = none := by
    simpa [CTxMemPool.exists] using hadm.new
  have hself : (pool.find? entry.tx.hash).getD entry = entry := by rw [hnone, getD_none]
  have hmem := mem_insertEntry hadm.new
  have hclear := hadm.clear
  simp only [CTxMemPool.conflictsWith, Bool.or_eq_false_iff] at hclear
  obtain ⟨⟨⟨⟨hins, hsprout⟩, hsapling⟩, hspends⟩, houts⟩ := hclear
  have hins : ∀ i ∈ entry.tx.vin, pool.mapNextTx.lookup i.prevout = none :=
    fun i hi => by simpa using any_eq_false.mp hins i hi
  have hnext : Induced (fun e => e.tx.nextTxEntries) (pool.insertEntry entry)
      (writeAll entry.tx.nextTxEntries pool.mapNextTx) := by
    refine h.nextTx.add hmem ?_ ?_
    · rintro o ⟨ptx, n⟩ ⟨ptx', n'⟩ hx hy
      obtain ⟨himport, rfl, hn⟩ := mem_nextTxEntries.mp hx
      obtain ⟨-, rfl, hn'⟩ := mem_nextTxEntries.mp hy
      rw [← getElem?_map] at hn hn'
      have hlt : n < (entry.tx.vin.map CTxIn.prevout).length :=
        (List.getElem?_eq_some_iff.mp hn).1
      rw [(List.getElem?_inj hlt (hadm.inputs himport)).mp (hn.trans hn'.symm)]
    · rintro ⟨o, x⟩ ho
      obtain ⟨-, -, hat⟩ := mem_nextTxEntries.mp ho
      obtain ⟨i, hi, rfl⟩ := map_eq_some_iff.mp hat
      exact hins i (mem_of_getElem? hi)
  unfold CTxMemPool.addUnchecked
  simp only [hself]
  refine ⟨⟨hnext, induced_insertEntry h.sproutNullifiers hadm.new hsprout,
    induced_insertEntry h.saplingNullifiers hadm.new hsapling,
    induced_insertEntry h.spendProofs hadm.new hspends,
    induced_insertEntry h.outputProofs hadm.new houts, fun k d hk => ?_, fun k v hk => ?_,
    ?_, ?_⟩, ?_, ?_, h.addressInserted, h.spentInserted⟩
  · obtain ⟨e, he, heq⟩ := h.address k d hk
    exact ⟨e, (hmem e).mpr (.inr he), heq⟩
  · obtain ⟨e, he, heq⟩ := h.spent k v hk
    exact ⟨e, (hmem e).mpr (.inr he), heq⟩
  · rw [sum_insertEntry hadm.new, h.totalTxSize]
  · rw [sum_insertEntry hadm.new, h.cachedInnerUsage]
  · have hperm : (pool.insertEntry entry).map (fun e => e.tx.hash) |>.Perm
        ((entry :: pool.mapTx).map fun e => e.tx.hash) := by
      rw [insertEntry_eq hadm.new]
      exact (perm_orderedInsert _ _ _).map _
    rw [hperm.nodup_iff, map_cons, nodup_cons]
    refine ⟨fun hdup => ?_, h.distinct⟩
    obtain ⟨e, he, heq⟩ := mem_map.mp hdup
    exact absurd (find?_eq_none.mp hnone e he) (by simp [heq])
  · intro e he himport e' he' himport' i hi
    rcases (hmem e).mp he with rfl | hold
    · rcases (hmem e').mp he' with rfl | hold'
      · exact absurd himport (by simp [himport'])
      · -- an input of another transaction would be recorded
        intro hdup
        obtain ⟨j, hj, heq⟩ := mem_map.mp hdup
        obtain ⟨n, hn⟩ := getElem?_of_mem hj
        have hsome := (h.nextTx j.prevout ⟨e'.tx, n⟩).mpr ⟨e', hold', mem_nextTxEntries.mpr
          ⟨himport', rfl, by rw [hn]; rfl⟩⟩
        rw [heq, hins i hi] at hsome
        exact absurd hsome (by simp)
    · rcases (hmem e').mp he' with rfl | hold'
      · exact hadm.imports himport' e hold himport i hi
      · exact h.imports e hold himport e' hold' himport' i hi

omit [CryptoHash] in
theorem lookup_insertRecorded {κ α : Type} [DecidableEq κ] {m : Assoc κ α}
    {inserted : Assoc UInt256 (List κ)} {owner : κ → α → UInt256} {hash : UInt256}
    {entries : List (κ × α)} {k : κ} {a : α} (h : ∀ k a, m.lookup k = some a →
      ∃ keys, inserted.lookup (owner k a) = some keys ∧ k ∈ keys)
    (hnone : inserted.lookup hash = none) (hown : ∀ e ∈ entries, owner e.1 e.2 = hash)
    (hk : (insertNewAll entries m).lookup k = some a) :
    (m.lookup k = some a ∨ owner k a = hash) ∧
      ∃ keys, (insertNew inserted hash (entries.map Prod.fst)).lookup (owner k a) = some keys ∧
        k ∈ keys := by
  have hinsert : insertNew inserted hash (entries.map Prod.fst)
      = inserted.insert hash (entries.map Prod.fst) := by simp [insertNew, hnone]
  rw [hinsert]
  rcases lookup_insertNewAll hk with hold | hnew
  · obtain ⟨keys, hkeys, hmem⟩ := h k a hold
    have hne : owner k a ≠ hash := by
      intro heq
      rw [heq, hnone] at hkeys
      exact absurd hkeys (by simp)
    exact ⟨.inl hold, keys, by rw [lookup_insert_eq, if_neg hne, hkeys], hmem⟩
  · have heq := hown _ hnew
    exact ⟨.inr heq, entries.map Prod.fst, by rw [lookup_insert_eq, if_pos heq],
      mem_map_of_mem hnew⟩

variable [ScriptAddresses] {view : UInt256 → Option CCoins} {pool' : CTxMemPool}

theorem txhash_addressDeltas {prevouts : List CTxOut}
    {p : CMempoolAddressDeltaKey × CMempoolAddressDelta} (h : p ∈ addressDeltas entry prevouts) :
    p.1.txhash = entry.tx.hash := by
  simp only [addressDeltas, List.mem_append, List.mem_flatMap, List.mem_map] at h
  rcases h with ⟨q, -, a, -, rfl⟩ | ⟨q, -, a, -, rfl⟩
  · rfl
  · rfl

theorem txid_spentDeltas {prevouts : List CTxOut} {p : CSpentIndexKey × CSpentIndexValue}
    (h : p ∈ spentDeltas entry prevouts) : p.2.txid = entry.tx.hash := by
  simp only [spentDeltas, List.mem_flatMap, List.mem_map] at h
  obtain ⟨q, -, a, -, rfl⟩ := h
  rfl

theorem CTxMemPool.Kept.addAddressIndex (h : pool.Kept)
    (hmem : ∃ e ∈ pool.mapTx, e.tx.hash = entry.tx.hash)
    (hnone : pool.mapAddressInserted.lookup entry.tx.hash = none)
    (hstep : pool.addAddressIndex entry view = .ok pool') : pool'.Kept := by
  obtain ⟨prevouts, -, hstep⟩ := bind_eq_ok.mp hstep
  obtain rfl := ok.inj hstep
  have hrec : ∀ k d,
      (insertNewAll (addressDeltas entry prevouts) pool.mapAddress).lookup k = some d → _ :=
    fun k d => lookup_insertRecorded h.addressInserted hnone fun p hp => txhash_addressDeltas hp
  refine { h with
    address := fun k d hk => ?_
    addressInserted := fun k d hk => (hrec k d hk).2 }
  rcases (hrec k d hk).1 with hold | hown
  · exact h.address k d hold
  · obtain ⟨e, he, heq⟩ := hmem
    exact ⟨e, he, heq.trans hown.symm⟩

theorem CTxMemPool.Kept.addSpentIndex (h : pool.Kept)
    (hmem : ∃ e ∈ pool.mapTx, e.tx.hash = entry.tx.hash)
    (hnone : pool.mapSpentInserted.lookup entry.tx.hash = none)
    (hstep : pool.addSpentIndex entry view = .ok pool') : pool'.Kept := by
  obtain ⟨prevouts, -, hstep⟩ := bind_eq_ok.mp hstep
  obtain rfl := ok.inj hstep
  have hrec : ∀ k v,
      (insertNewAll (spentDeltas entry prevouts) pool.mapSpent).lookup k = some v → _ :=
    fun k v => lookup_insertRecorded h.spentInserted hnone fun p hp => txid_spentDeltas hp
  refine { h with
    spent := fun k v hk => ?_
    spentInserted := fun k v hk => (hrec k v hk).2 }
  rcases (hrec k v hk).1 with hold | hown
  · exact h.spent k v hold
  · obtain ⟨e, he, heq⟩ := hmem
    exact ⟨e, he, heq.trans hown.symm⟩

end

/-- The condition on a step: what enters is admitted, index entries are added once, and a cleared
pool has no shielded data and index entries. -/
def PoolOp.KeepsMaps (pool : CTxMemPool) : PoolOp → Prop
  | .addUnchecked entry => pool.Admits entry.tx
  | .addAddressIndex entry _ => pool.exists entry.tx.hash = true ∧
      pool.mapAddressInserted.lookup entry.tx.hash = none
  | .addSpentIndex entry _ => pool.exists entry.tx.hash = true ∧
      pool.mapSpentInserted.lookup entry.tx.hash = none
  | .clear => (∀ e ∈ pool.mapTx, e.tx.vjoinsplit = [] ∧ e.tx.vShieldedSpend = [] ∧
      e.tx.vShieldedOutput = []) ∧ pool.mapAddress = ∅ ∧ pool.mapSpent = ∅
  | _ => True

theorem CTxMemPool.Kept.clear {pool : CTxMemPool} (h : pool.Kept)
    (hplain : ∀ e ∈ pool.mapTx, e.tx.vjoinsplit = [] ∧ e.tx.vShieldedSpend = [] ∧
      e.tx.vShieldedOutput = [])
    (haddress : pool.mapAddress = ∅) (hspent : pool.mapSpent = ∅) : pool.clear.Kept := by
  have hgone : ∀ {hashes : CTransaction → List UInt256} {m : Assoc UInt256 CTransaction},
      Induced (fun e => ownedBy e.tx (hashes e.tx)) pool.mapTx m →
      (∀ e ∈ pool.mapTx, hashes e.tx = []) →
      Induced (fun e : CTxMemPoolEntry => ownedBy e.tx (hashes e.tx)) [] m := by
    intro hashes m hm hnil k t
    rw [hm k t]
    constructor
    · rintro ⟨e, he, hk⟩
      exact absurd (mem_ownedBy.mp hk).2 (by simp [hnil e he])
    · rintro ⟨e, he, -⟩
      exact absurd he (by simp)
  refine ⟨⟨induced_empty, hgone h.sproutNullifiers fun e he => ?_,
    hgone h.saplingNullifiers fun e he => ?_, hgone h.spendProofs fun e he => ?_,
    hgone h.outputProofs fun e he => ?_, fun k d hk => ?_, fun k v hk => ?_, rfl, rfl⟩,
    nodup_nil, fun e he => absurd he (by simp [CTxMemPool.clear]), h.addressInserted,
    h.spentInserted⟩
  · simp [CTransaction.sproutNullifiers, (hplain e he).1]
  · simp [CTransaction.saplingNullifiers, (hplain e he).2.1]
  · simp [CTransaction.spendProofHashes, (hplain e he).2.1]
  · simp [CTransaction.outputProofHashes, (hplain e he).2.2]
  · change pool.mapAddress.lookup k = some d at hk
    exact absurd hk (by simp [haddress])
  · change pool.mapSpent.lookup k = some v at hk
    exact absurd hk (by simp [hspent])

variable [ScriptAddresses]

theorem CTxMemPool.Kept.step {op : PoolOp} {pool pool' : CTxMemPool}
    (hcond : op.KeepsMaps pool) (h : pool.Kept) (hstep : op.step pool = .ok pool') :
    pool'.Kept := by
  have hP : ∀ (pool : CTxMemPool) (e : CTxMemPoolEntry), pool.Kept → e ∈ pool.mapTx →
      (pool.removeEntry e).Kept := fun _ _ h he => h.removeEntry he
  have hentry : ∀ {hash : UInt256}, pool.exists hash = true →
      ∃ e ∈ pool.mapTx, e.tx.hash = hash := by
    intro hash hex
    obtain ⟨e, he⟩ := isSome_iff_exists.mp hex
    exact ⟨e, (CTxMemPool.mem_of_find? he).1, (CTxMemPool.mem_of_find? he).2⟩
  cases op with
  | addUnchecked entry =>
    obtain rfl := ok.inj hstep
    exact h.addUnchecked hcond
  | addAddressIndex entry view => exact h.addAddressIndex (hentry hcond.1) hcond.2 hstep
  | addSpentIndex entry view => exact h.addSpentIndex (hentry hcond.1) hcond.2 hstep
  | remove origTx fRecursive =>
    obtain rfl := ok.inj hstep
    exact remove_keeps hP origTx fRecursive [] h
  | removeForReorg c pcoins nMemPoolHeight =>
    obtain ⟨leaving, -, hstep⟩ := bind_eq_ok.mp hstep
    obtain rfl := ok.inj hstep
    exact removeAll_keeps hP _ h
  | removeWithAnchor invalidRoot type =>
    obtain rfl := ok.inj hstep
    exact removeAll_keeps hP _ h
  | removeConflicts tx =>
    obtain rfl := ok.inj hstep
    exact removeConflicts_keeps hP tx h
  | removeExpired nBlockHeight interest =>
    obtain rfl := ok.inj hstep
    exact removeAll_keeps hP _ h
  | removeForBlock vtx =>
    obtain rfl := ok.inj hstep
    exact removeForBlock_keeps hP vtx h
  | removeWithoutBranchId id =>
    obtain rfl := ok.inj hstep
    exact removeAll_keeps hP _ h
  | clear =>
    obtain rfl := ok.inj hstep
    exact h.clear hcond.1 hcond.2.1 hcond.2.2

/-- **The maps of the pool are exact** after every admitted sequence of operations. -/
theorem pool_structures_exact {ops : List PoolOp} {pool : CTxMemPool}
    (hmeet : Program.AllMeet (fun pool op => op.step pool)
      (fun pool op => PoolOp.KeepsMaps pool op) ops {})
    (hrun : CTxMemPool.run ops = .ok pool) : pool.Exact :=
  (hmeet.invariant (P := CTxMemPool.Kept) (fun _ _ _ hcond h hstep => h.step hcond hstep)
    CTxMemPool.kept_empty hrun).toExact

end

/-! ### A pool that is cleared -/

section

local instance poolHash : CryptoHash := ⟨fun _ => 7, fun _ => 0⟩

local instance poolAddresses : ScriptAddresses where
  CTxDestination := Unit
  solver s := if s.length = 1 then (true, .pubkeyhash, [s]) else (false, .nonstandard, [])
  extractDestination _ := none
  getIndexKey _ _ := none
  getKeyID _ := none
  isPayToCryptoCondition _ := false

def shieldEntry : CTxMemPoolEntry where
  tx := { hash := 51, nVersion := 4, vin := [⟨⟨41, 0⟩, [], 0⟩], vout := [⟨2, [0x51]⟩],
          vShieldedOutput := [{ cmu := 9, zkproof := [1] }] }
  nTxSize := 100

def childEntry : CTxMemPoolEntry where
  tx := { hash := 52, nVersion := 4, vin := [⟨⟨51, 0⟩, [], 0⟩], vout := [⟨2, [0x51]⟩] }
  nTxSize := 80

def removeParent : List PoolOp :=
  [.addUnchecked shieldEntry,
    .addSpentIndex shieldEntry fun _ => some ⟨false, [⟨3, [0x51]⟩], 1, 1⟩,
    .addUnchecked childEntry, .remove shieldEntry.tx true]

theorem pool_structures_exact_removeParent :
    ∃ pool, CTxMemPool.run removeParent = .ok pool ∧ pool.Exact := by
  have hmeet : Program.AllMeet (fun pool op => op.step pool)
      (fun pool op => PoolOp.KeepsMaps pool op) removeParent {} := by
    refine ⟨⟨by decide, by decide, fun _ => by decide, fun _ e he => absurd he (by simp)⟩,
      fun s₁ h₁ => ?_⟩
    obtain rfl := ok.inj h₁
    refine ⟨⟨by decide, by decide⟩, fun s₂ h₂ => ?_⟩
    obtain rfl := ok.inj h₂
    refine ⟨⟨by decide, by decide, fun _ => by decide, fun _ => by decide⟩, fun s₃ h₃ => ?_⟩
    exact ⟨trivial, fun _ _ => trivial⟩
  exact ⟨_, rfl, pool_structures_exact hmeet rfl⟩

/-- **A cleared pool remembers** output proofs and the spent index. -/
theorem clear_keeps_entries : ∃ pool, CTxMemPool.run [.addUnchecked shieldEntry,
        .addSpentIndex shieldEntry fun _ => some ⟨false, [⟨3, [0x51]⟩], 1, 1⟩, .clear] = .ok pool ∧
      pool.mapTx = [] ∧ pool.mapZkOutputProofHash.lookup 7 = some shieldEntry.tx ∧
      (pool.mapSpent.lookup ⟨41, 0⟩).map CSpentIndexValue.txid = some 51 := by
  refine ⟨_, rfl, rfl, ?_, ?_⟩
  · decide
  · decide

end

end Elosys
