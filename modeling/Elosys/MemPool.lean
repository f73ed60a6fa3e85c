import Elosys.SpentIndex

/-!
# The Memory Pool

`CTxMemPool` of `txmempool.cpp`: the transactions that wait for a block, the maps from spent
outputs, nullifiers and proofs to them, and the address and spent indexes, all kept by hand. Fee
estimator, update counters, priorities and recently added transactions are left out.
-/

open AssocBatch List

namespace Elosys

/-! ### The pool -/

/-- `CTxMemPoolEntry`, without fees and priorities. -/
structure CTxMemPoolEntry where
  tx : CTransaction
  nTxSize : UInt64
  nUsageSize : UInt64 := 0
  nTime : Int := 0
  spendsCoinbase : Bool := false
  nBranchId : Nat := 0

/-- `CInPoint`: a transaction and an input's index. -/
structure CInPoint where
  ptx : CTransaction
  n : Nat
  deriving DecidableEq

structure CMempoolAddressDeltaKey where
  type : Nat
  addressBytes : BitVec 160
  txhash : UInt256
  index : Nat
  spending : Bool
  deriving DecidableEq

structure CMempoolAddressDelta where
  time : Int
  amount : CAmount
  prevhash : UInt256 := UInt256.null
  prevout : Nat := 0
  deriving DecidableEq

/-- `CTxMemPool`, entries in the order of hashes. -/
structure CTxMemPool where
  mapTx : List CTxMemPoolEntry := []
  mapNextTx : Assoc COutPoint CInPoint := ∅
  mapSproutNullifiers : Assoc UInt256 CTransaction := ∅
  mapSaplingNullifiers : Assoc UInt256 CTransaction := ∅
  mapZkSpendProofHash : Assoc UInt256 CTransaction := ∅
  mapZkOutputProofHash : Assoc UInt256 CTransaction := ∅
  mapAddress : Assoc CMempoolAddressDeltaKey CMempoolAddressDelta := ∅
  mapAddressInserted : Assoc UInt256 (List CMempoolAddressDeltaKey) := ∅
  mapSpent : Assoc CSpentIndexKey CSpentIndexValue := ∅
  mapSpentInserted : Assoc UInt256 (List CSpentIndexKey) := ∅
  totalTxSize : UInt64 := 0
  cachedInnerUsage : UInt64 := 0

/-- `base_blob::operator<`, by stored bytes. -/
def UInt256.le (a b : UInt256) : Bool :=
  ByteCodec.leBytes 32 a.toNat ≤ ByteCodec.leBytes 32 b.toNat

variable (fRecursive : Bool) (pool : CTxMemPool)

/-- `mapTx.find`. -/
def CTxMemPool.find? (hash : UInt256) : Option CTxMemPoolEntry :=
  pool.mapTx.find? fun e => e.tx.hash == hash

/-- `mapTx.insert`: a known hash is not added. -/
def CTxMemPool.insertEntry (entry : CTxMemPoolEntry) : List CTxMemPoolEntry :=
  if (pool.find? entry.tx.hash).isSome then pool.mapTx
  else pool.mapTx.orderedInsert (fun a b => UInt256.le a.tx.hash b.tx.hash) entry

/-! ### Adding transactions -/

section

variable [CryptoHash]

variable (tx : CTransaction)

def CTransaction.nextTxEntries : List (COutPoint × CInPoint) :=
  if tx.isCoinImport then [] else tx.vin.zipIdx.map fun p => (p.1.prevout, ⟨tx, p.2⟩)

def CTransaction.spendProofHashes : List UInt256 :=
  tx.vShieldedSpend.map SpendDescription.proofHash

def CTransaction.outputProofHashes : List UInt256 :=
  tx.vShieldedOutput.map OutputDescription.proofHash

/-- A map's entries from hashes to their transaction. -/
def ownedBy (hashes : List UInt256) : List (UInt256 × CTransaction) :=
  hashes.map fun h => (h, tx)

def CTxMemPool.addUnchecked (entry : CTxMemPoolEntry) (pool : CTxMemPool) : CTxMemPool :=
  -- the transaction as it is in the pool now
  let tx := ((pool.find? entry.tx.hash).getD entry).tx
  { pool with
    mapTx := pool.insertEntry entry
    mapNextTx := writeAll tx.nextTxEntries pool.mapNextTx
    mapSproutNullifiers :=
      writeAll (ownedBy tx tx.sproutNullifiers) pool.mapSproutNullifiers
    mapSaplingNullifiers :=
      writeAll (ownedBy tx tx.saplingNullifiers) pool.mapSaplingNullifiers
    mapZkSpendProofHash :=
      writeAll (ownedBy tx tx.spendProofHashes) pool.mapZkSpendProofHash
    mapZkOutputProofHash :=
      writeAll (ownedBy tx tx.outputProofHashes) pool.mapZkOutputProofHash
    totalTxSize := pool.totalTxSize + entry.nTxSize
    cachedInnerUsage := pool.cachedInnerUsage + entry.nUsageSize }

def CTxMemPool.exists (hash : UInt256) : Bool := (pool.find? hash).isSome

/-- The conflict check of `AcceptToMemoryPool`. -/
def CTxMemPool.conflictsWith (pool : CTxMemPool) (tx : CTransaction) : Bool :=
  tx.vin.any (fun i => (pool.mapNextTx.lookup i.prevout).isSome) ||
    tx.sproutNullifiers.any (fun nf => (pool.mapSproutNullifiers.lookup nf).isSome) ||
    tx.saplingNullifiers.any (fun nf => (pool.mapSaplingNullifiers.lookup nf).isSome) ||
    tx.spendProofHashes.any (fun h => (pool.mapZkSpendProofHash.lookup h).isSome) ||
    tx.outputProofHashes.any (fun h => (pool.mapZkOutputProofHash.lookup h).isSome)

end

/-! ### The address and spent indexes -/

inductive TxnOutType where
  | nonstandard
  | pubkey
  | pubkeyhash
  | scripthash
  | multisig
  | cryptocondition
  | nullData
  deriving DecidableEq

/-- What the script library says of a script's addresses. -/
class ScriptAddresses where
  CTxDestination : Type
  solver : CScript → Bool × TxnOutType × List (List UInt8)
  extractDestination : CScript → Option CTxDestination
  getIndexKey : CTxDestination → Bool → Option (BitVec 160 × Nat)
  getKeyID : CTxDestination → Option (BitVec 160)
  isPayToCryptoCondition : CScript → Bool

section

variable [CryptoHash] [ScriptAddresses]

open ScriptAddresses

variable (script : CScript)

/-- `Solver(…) || ExtractDestination(…)`: the destination is sought only when the script is not
solved. -/
def solve : Option (TxnOutType × List (List UInt8) × Option CTxDestination) :=
  let (solved, txType, vSols) := solver script
  if solved then some (txType, vSols, none)
  else (extractDestination script).map fun vDest => (txType, vSols, some vDest)

def hashBytes (h : BitVec 160) : List UInt8 := ByteCodec.leBytes 20 h.toNat

def withIndexKey (vSols : List (List UInt8)) :
    Option CTxDestination → Nat × List (List UInt8)
  | none => (1, vSols)
  | some vDest =>
    match getIndexKey vDest (isPayToCryptoCondition script) with
    | some (h, keyType) => (keyType, vSols ++ [hashBytes h])
    | none => (1, vSols)

/-- The addresses of a spent output in `addAddressIndex`. -/
def inputAddresses : List (Nat × BitVec 160) :=
  match solve script with
  | none => []
  | some (txType, vSols, vDest) =>
    let (keyType, vSols) := withIndexKey script vSols vDest
    let keyType := if txType = .scripthash then 2 else keyType
    vSols.map fun addr => (keyType, addrHash addr)

def outputAddresses : List (Nat × BitVec 160) :=
  match solve script with
  | none => []
  | some (txType, vSols, vDest) =>
    if txType = .multisig then []
    else
      let (keyType, vSols) := withIndexKey script vSols vDest
      let keyType := if vDest.isNone ∧ txType = .scripthash then 2 else keyType
      vSols.map fun addr => (keyType, addrHash addr)

/-- A spent output's type and addresses in `addSpentIndex`, else an unknown way. -/
def spenderAddresses : List (Nat × BitVec 160) :=
  match solve script with
  | none => [(0, 0)]
  | some (txType, vSols, vDest) =>
    if txType = .multisig then [(0, 0)]
    else
      let vSols := vSols ++ ((vDest.bind getKeyID).map hashBytes).toList
      let keyType := if vDest.isNone ∧ txType = .scripthash then 2 else 1
      vSols.map fun addr => (keyType, addrHash addr)

variable (entry : CTxMemPoolEntry) (view : UInt256 → Option CCoins)

/-- `CCoinsViewCache::GetOutputFor`, on plain coins. -/
def outputFor (input : CTxIn) : Except Fault CTxOut := do
  let coins ← assertSome "GetOutputFor: coins && coins->IsAvailable(input.prevout.n)"
    ((view input.prevout.hash).filter fun c => c.isAvailable input.prevout.n)
  return coins.outputAt input.prevout.n

/-- The entries of `addAddressIndex`, with the spent outputs. -/
def addressDeltas (prevouts : List CTxOut) :
    List (CMempoolAddressDeltaKey × CMempoolAddressDelta) :=
  ((entry.tx.vin.zip prevouts).zipIdx.flatMap fun p =>
    (inputAddresses p.1.2.scriptPubKey).map fun a =>
      (⟨a.1, a.2, entry.tx.hash, p.2, true⟩,
        ⟨entry.nTime, p.1.2.nValue * -1, p.1.1.prevout.hash, p.1.1.prevout.n⟩)) ++
  entry.tx.vout.zipIdx.flatMap fun p =>
    (outputAddresses p.1.scriptPubKey).map fun a =>
      (⟨a.1, a.2, entry.tx.hash, p.2, false⟩, { time := entry.nTime, amount := p.1.nValue })

def CTxMemPool.addAddressIndex (pool : CTxMemPool) : Except Fault CTxMemPool := do
  let prevouts ← entry.tx.vin.mapM (outputFor view)
  let inserted := addressDeltas entry prevouts
  return { pool with
    mapAddress := insertNewAll inserted pool.mapAddress
    mapAddressInserted :=
      insertNew pool.mapAddressInserted entry.tx.hash (inserted.map Prod.fst) }

/-- The entries of `addSpentIndex`, with the spent outputs. -/
def spentDeltas (prevouts : List CTxOut) : List (CSpentIndexKey × CSpentIndexValue) :=
  (entry.tx.vin.zip prevouts).zipIdx.flatMap fun p =>
    (spenderAddresses p.1.2.scriptPubKey).map fun a =>
      (p.1.1.prevout, ⟨entry.tx.hash, p.2, -1, p.1.2.nValue, a.1, a.2⟩)

def CTxMemPool.addSpentIndex (pool : CTxMemPool) : Except Fault CTxMemPool := do
  let prevouts ← entry.tx.vin.mapM (outputFor view)
  let inserted := spentDeltas entry prevouts
  return { pool with
    mapSpent := insertNewAll inserted pool.mapSpent
    mapSpentInserted :=
      insertNew pool.mapSpentInserted entry.tx.hash (inserted.map Prod.fst) }

end

/-! ### Removing transactions -/

variable (tx : CTransaction)

section

variable [CryptoHash]

/-- The loop body of `CTxMemPool::remove` for an entry. -/
def CTxMemPool.removeEntry (e : CTxMemPoolEntry) (pool : CTxMemPool) : CTxMemPool :=
  { mapNextTx := eraseAll (e.tx.vin.map CTxIn.prevout) pool.mapNextTx
    mapSproutNullifiers := eraseAll e.tx.sproutNullifiers pool.mapSproutNullifiers
    mapSaplingNullifiers := eraseAll e.tx.saplingNullifiers pool.mapSaplingNullifiers
    mapZkSpendProofHash := eraseAll e.tx.spendProofHashes pool.mapZkSpendProofHash
    mapZkOutputProofHash := eraseAll e.tx.outputProofHashes pool.mapZkOutputProofHash
    totalTxSize := pool.totalTxSize - e.nTxSize
    cachedInnerUsage := pool.cachedInnerUsage - e.nUsageSize
    mapTx := pool.mapTx.filter fun e' => e'.tx.hash != e.tx.hash
    -- `removeAddressIndex` and `removeSpentIndex`
    mapAddress :=
      eraseAll ((pool.mapAddressInserted.lookup e.tx.hash).getD []) pool.mapAddress
    mapAddressInserted := pool.mapAddressInserted.erase e.tx.hash
    mapSpent := eraseAll ((pool.mapSpentInserted.lookup e.tx.hash).getD []) pool.mapSpent
    mapSpentInserted := pool.mapSpentInserted.erase e.tx.hash }

def CTxMemPool.spendersOf : List UInt256 :=
  (range tx.vout.length).filterMap fun i =>
    (pool.mapNextTx.lookup ⟨tx.hash, i⟩).map fun p => p.ptx.hash

omit [CryptoHash] in
theorem CTxMemPool.mem_of_find? {pool : CTxMemPool} {hash : UInt256} {e : CTxMemPoolEntry}
    (h : pool.find? hash = some e) : e ∈ pool.mapTx ∧ e.tx.hash = hash :=
  ⟨mem_of_find?_eq_some h, by simpa using find?_some h⟩

def CTxMemPool.countOutputs : Nat :=
  (pool.mapTx.map fun e => e.tx.vout.length).sum

theorem CTxMemPool.countOutputs_removeEntry {pool : CTxMemPool} {e : CTxMemPoolEntry}
    (h : e ∈ pool.mapTx) :
    (pool.removeEntry e).countOutputs + e.tx.vout.length ≤ pool.countOutputs := by
  have hle : ∀ l : List CTxMemPoolEntry, ((l.filter fun e' => e'.tx.hash != e.tx.hash).map
      fun e => e.tx.vout.length).sum ≤ (l.map fun e => e.tx.vout.length).sum := by
    intro l
    induction l with
    | nil => simp
    | cons e' l ih =>
      rw [filter_cons]
      split <;> simp only [map_cons, sum_cons] <;> omega
  change ((pool.mapTx.filter fun e' => e'.tx.hash != e.tx.hash).map
    fun e => e.tx.vout.length).sum + _ ≤ (pool.mapTx.map fun e => e.tx.vout.length).sum
  generalize pool.mapTx = l at h
  induction l with
  | nil => exact absurd h (by simp)
  | cons e' l ih =>
    rcases mem_cons.mp h with rfl | h
    · have hrest := hle l
      simp only [filter_cons, bne_self_eq_false, Bool.false_eq_true, if_false, map_cons, sum_cons]
      omega
    · have hrest := ih h
      rw [filter_cons]
      split <;> simp only [map_cons, sum_cons] <;> omega

def CTxMemPool.queuedBy : List UInt256 :=
  if fRecursive then pool.spendersOf tx else []

omit [CryptoHash] in
theorem CTxMemPool.length_queuedBy_le : (pool.queuedBy fRecursive tx).length ≤ tx.vout.length := by
  cases fRecursive with
  | false => exact Nat.zero_le _
  | true => exact (length_filterMap_le _ _).trans (by simp)

/-- The loop of `CTxMemPool::remove`. It ends since every queued transaction spends an output of
one that leaves. -/
def CTxMemPool.removeLoop (fRecursive : Bool) (txToRemove : List UInt256)
    (removed : List CTransaction) (pool : CTxMemPool) : List CTransaction × CTxMemPool :=
  match txToRemove with
  | [] => (removed, pool)
  | hash :: queue =>
    match _h : pool.find? hash with
    | none => removeLoop fRecursive queue removed pool
    | some e =>
      removeLoop fRecursive (queue ++ pool.queuedBy fRecursive e.tx)
        (removed ++ [e.tx]) (pool.removeEntry e)
termination_by txToRemove.length + pool.countOutputs
decreasing_by
  · simp
  · have hcount := countOutputs_removeEntry (mem_of_find? _h).1
    have hlen := pool.length_queuedBy_le fRecursive e.tx
    rw [List.length_append, List.length_cons]
    omega

def CTxMemPool.remove (origTx : CTransaction) (fRecursive : Bool) (removed : List CTransaction)
    (pool : CTxMemPool) : List CTransaction × CTxMemPool :=
  let orphans := if fRecursive && !pool.exists origTx.hash then pool.spendersOf origTx else []
  removeLoop fRecursive (origTx.hash :: orphans) removed pool

def CTxMemPool.removeAll (transactionsToRemove : List CTransaction) (pool : CTxMemPool) :
    CTxMemPool :=
  transactionsToRemove.foldl (fun pool tx => (pool.remove tx true []).2) pool

def CTxMemPool.removeWhere (cond : CTxMemPoolEntry → Bool) (pool : CTxMemPool) : CTxMemPool :=
  pool.removeAll ((pool.mapTx.filter cond).map CTxMemPoolEntry.tx)

def CTxMemPool.removeWithAnchor (invalidRoot : UInt256) (type : ShieldedType) :
    CTxMemPool → CTxMemPool :=
  removeWhere fun e =>
    match type with
    | .sprout => e.tx.vjoinsplit.any fun js => js.anchor == invalidRoot
    | .sapling => e.tx.vShieldedSpend.any fun s => s.anchor == invalidRoot
    | .saplingFrontier => e.tx.vShieldedSpend.any fun s => s.anchor == invalidRoot

def CTxMemPool.removeExpired (nBlockHeight : Nat) (interestNotValidated : CTransaction → Bool) :
    CTxMemPool → CTxMemPool :=
  removeWhere fun e => isExpiredTx e.tx nBlockHeight || interestNotValidated e.tx

def CTxMemPool.removeWithoutBranchId (nMemPoolBranchId : Nat) : CTxMemPool → CTxMemPool :=
  removeWhere fun e => e.nBranchId != nMemPoolBranchId

/-- The chain as `removeForReorg` sees it. -/
structure ReorgParams where
  checkFinalTx : CTransaction → Bool
  coinbaseMaturity : Int
  blockUnlocktime : Nat → Int
  timelockGte : UInt64
  nCheckFrequency : Nat

def CTxMemPool.spendsImmature (c : ReorgParams) (pcoins : UInt256 → Option CCoins)
    (nMemPoolHeight : Int) (pool : CTxMemPool) (txin : CTxIn) : Except Fault Bool :=
  if pool.exists txin.prevout.hash then .ok false
  else
    match pcoins txin.prevout.hash with
    | none => do
      assertThat (c.nCheckFrequency = 0) "removeForReorg: coins"
      return true
    | some coins =>
      .ok (coins.fCoinBase && (nMemPoolHeight - coins.nHeight < c.coinbaseMaturity &&
        (nMemPoolHeight < c.blockUnlocktime coins.nHeight && coins.isAvailable 0 &&
          c.timelockGte ≤ (coins.outputAt 0).nValue.toUInt64)))

def CTxMemPool.anyImmature (c : ReorgParams) (pcoins : UInt256 → Option CCoins)
    (nMemPoolHeight : Int) (pool : CTxMemPool) : List CTxIn → Except Fault Bool
  | [] => .ok false
  | txin :: rest => do
    if ← pool.spendsImmature c pcoins nMemPoolHeight txin then return true
    pool.anyImmature c pcoins nMemPoolHeight rest

/-- Whether `removeForReorg` removes an entry. -/
def CTxMemPool.leavesOnReorg (c : ReorgParams) (pcoins : UInt256 → Option CCoins)
    (nMemPoolHeight : Int) (pool : CTxMemPool) (e : CTxMemPoolEntry) : Except Fault Bool :=
  if !c.checkFinalTx e.tx then .ok true
  else if e.spendsCoinbase then pool.anyImmature c pcoins nMemPoolHeight e.tx.vin
  else .ok false

def CTxMemPool.removeForReorg (c : ReorgParams) (pcoins : UInt256 → Option CCoins)
    (nMemPoolHeight : Int) (pool : CTxMemPool) : Except Fault CTxMemPool := do
  let leaving ← pool.mapTx.filterM (pool.leavesOnReorg c pcoins nMemPoolHeight)
  return pool.removeAll (leaving.map CTxMemPoolEntry.tx)

def CTxMemPool.removeConflict (tx : CTransaction)
    (find : CTxMemPool → Option CTransaction) (st : List CTransaction × CTxMemPool) :
    List CTransaction × CTxMemPool :=
  match find st.2 with
  | some txConflict => if txConflict.hash ≠ tx.hash then st.2.remove txConflict true st.1 else st
  | none => st

/-- Where `CTxMemPool::removeConflicts` looks, in order. -/
def conflictFinders (tx : CTransaction) : List (CTxMemPool → Option CTransaction) :=
  tx.vin.map (fun i pool => (pool.mapNextTx.lookup i.prevout).map CInPoint.ptx) ++
    tx.sproutNullifiers.map (fun nf pool => pool.mapSproutNullifiers.lookup nf) ++
    tx.vShieldedSpend.flatMap (fun s =>
      [fun pool => pool.mapSaplingNullifiers.lookup s.nullifier,
        fun pool => pool.mapZkSpendProofHash.lookup s.proofHash]) ++
    tx.outputProofHashes.map fun h pool => pool.mapZkOutputProofHash.lookup h

def CTxMemPool.removeConflicts (tx : CTransaction) (st : List CTransaction × CTxMemPool) :
    List CTransaction × CTxMemPool :=
  (conflictFinders tx).foldl (fun st find => removeConflict tx find st) st

/-- `CTxMemPool::removeForBlock`, without the fee estimates. -/
def CTxMemPool.removeForBlock (vtx : List CTransaction) (st : List CTransaction × CTxMemPool) :
    List CTransaction × CTxMemPool :=
  vtx.foldl (fun st tx => removeConflicts tx (st.1, (st.2.remove tx false []).2)) st

end

def CTxMemPool.clear : CTxMemPool :=
  { pool with mapTx := [], mapNextTx := ∅, totalTxSize := 0, cachedInnerUsage := 0 }

/-- The operations of the pool. -/
inductive PoolOp where
  | addUnchecked (entry : CTxMemPoolEntry)
  | addAddressIndex (entry : CTxMemPoolEntry) (view : UInt256 → Option CCoins)
  | addSpentIndex (entry : CTxMemPoolEntry) (view : UInt256 → Option CCoins)
  | remove (origTx : CTransaction) (fRecursive : Bool)
  | removeForReorg (c : ReorgParams) (pcoins : UInt256 → Option CCoins) (nMemPoolHeight : Int)
  | removeWithAnchor (invalidRoot : UInt256) (type : ShieldedType)
  | removeConflicts (tx : CTransaction)
  | removeExpired (nBlockHeight : Nat) (interestNotValidated : CTransaction → Bool)
  | removeForBlock (vtx : List CTransaction)
  | removeWithoutBranchId (nMemPoolBranchId : Nat)
  | clear

section

variable [CryptoHash] [ScriptAddresses]

def PoolOp.step (pool : CTxMemPool) : PoolOp → Except Fault CTxMemPool
  | .addUnchecked entry => .ok (pool.addUnchecked entry)
  | .addAddressIndex entry view => pool.addAddressIndex entry view
  | .addSpentIndex entry view => pool.addSpentIndex entry view
  | .remove origTx fRecursive => .ok (pool.remove origTx fRecursive []).2
  | .removeForReorg c pcoins nMemPoolHeight => pool.removeForReorg c pcoins nMemPoolHeight
  | .removeWithAnchor invalidRoot type => .ok (pool.removeWithAnchor invalidRoot type)
  | .removeConflicts tx => .ok (CTxMemPool.removeConflicts tx ([], pool)).2
  | .removeExpired nBlockHeight interest => .ok (pool.removeExpired nBlockHeight interest)
  | .removeForBlock vtx => .ok (CTxMemPool.removeForBlock vtx ([], pool)).2
  | .removeWithoutBranchId id => .ok (pool.removeWithoutBranchId id)
  | .clear => .ok pool.clear

def CTxMemPool.run (ops : List PoolOp) : Except Fault CTxMemPool :=
  ops.foldlM (fun pool op => op.step pool) {}

end

end Elosys
