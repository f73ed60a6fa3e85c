import Mathlib.Data.Finset.Basic
import Elosys.Coins
import Elosys.WriteBack

/-!
# Coins Views

The views of `coins.cpp` and `txdb.cpp`: the database `CCoinsViewDB`, the cache `CCoinsViewCache`,
and stacks of caches. All reads have one shape (the own map, else the base, and remember), so each
is a `Query`. Members kept once per kind are indexed by the kind; memory accounting is left out.
-/

open AssocBatch LayerStack Function

namespace Elosys

inductive ShieldedType where
  | sprout
  | sapling
  | saplingFrontier
  deriving DecidableEq

/-- The shielded kinds that have a nullifier set. -/
inductive NullifierSet where
  | sprout
  | sapling
  deriving DecidableEq

inductive ProofType where
  | spend
  | output
  deriving DecidableEq

/-- The note commitment trees of three kinds, with roots. -/
class NoteTrees where
  Tree : ShieldedType → Type
  root : {t : ShieldedType} → Tree t → UInt256
  emptyTree : (t : ShieldedType) → Tree t
  append : {t : ShieldedType} → Tree t → UInt256 → Option (Tree t)

export NoteTrees (Tree root emptyTree)

/-- `empty_root` of a kind. -/
def emptyRoot [NoteTrees] (t : ShieldedType) : UInt256 := root (emptyTree t)

/-- A registered proof: its transaction and position. -/
abbrev ProofId := UInt256 × Nat

/-- `CCoinsCacheEntry`, with its `DIRTY` and `FRESH` flags. -/
structure CCoinsCacheEntry where
  coins : CCoins := {}
  dirty : Bool := false
  fresh : Bool := false
  deriving DecidableEq

/-- `CAnchorsSproutCacheEntry` and its two siblings. -/
structure CAnchorsCacheEntry (τ : Type) where
  entered : Bool := false
  tree : τ
  dirty : Bool := false

structure CNullifiersCacheEntry where
  entered : Bool := false
  dirty : Bool := false
  deriving DecidableEq

structure CProofHashCacheEntry where
  txids : Finset ProofId := ∅
  dirty : Bool := false
  deriving DecidableEq

/-! ### The database -/

/-- Coins on disk: reading cleans up, and only unspent records are written. -/
structure StoredCoins where
  coins : CCoins
  clean : coins.Clean
  notPruned : coins.isPruned = false

/-- What writing coins with an unspent output leaves on disk. -/
def StoredCoins.ofCoins (c : CCoins) (h : c.isPruned = false) : StoredCoins :=
  ⟨c.cleanup, c.clean_cleanup, by rw [CCoins.isPruned_cleanup, h]⟩

@[simp] theorem StoredCoins.coins_ofCoins (c : CCoins) (h : c.isPruned = false) :
    (StoredCoins.ofCoins c h).coins = c.cleanup := rfl

section

variable [NoteTrees]

/-- `CCoinsViewDB`: a table per record kind, and the best hashes. -/
structure CCoinsViewDB where
  coins : Assoc UInt256 StoredCoins := ∅
  anchors : (t : ShieldedType) → Assoc UInt256 (Tree t) := fun _ => ∅
  nullifiers : NullifierSet → Assoc UInt256 Bool := fun _ => ∅
  zkProofHashes : ProofType → Assoc UInt256 (Finset ProofId) := fun _ => ∅
  bestBlock : Option UInt256 := none
  bestAnchor : ShieldedType → Option UInt256 := fun _ => none

/-- `CCoinsViewCache` without its `base`. -/
structure CCoinsViewCache where
  hasModifier : Bool := false
  hashBlock : UInt256 := UInt256.null
  cacheCoins : Assoc UInt256 CCoinsCacheEntry := ∅
  hashAnchor : ShieldedType → UInt256 := fun _ => UInt256.null
  cacheAnchors : (t : ShieldedType) → Assoc UInt256 (CAnchorsCacheEntry (Tree t)) :=
    fun _ => ∅
  cacheNullifiers : NullifierSet → Assoc UInt256 CNullifiersCacheEntry := fun _ => ∅
  cacheZkProofHash : ProofType → Assoc UInt256 CProofHashCacheEntry := fun _ => ∅

abbrev View := LayerStack CCoinsViewDB CCoinsViewCache

/-- A cache with its backing view, the `CCoinsViewCache` object. -/
abbrev CacheView := LayerStack.Tip CCoinsViewDB CCoinsViewCache

namespace CCoinsViewDB

variable (d : CCoinsViewDB)

def getCoins (txid : UInt256) : Option CCoins :=
  (d.coins.lookup txid).map StoredCoins.coins

/-- `CCoinsViewDB::GetSproutAnchorAt` and siblings. -/
def getAnchorAt (t : ShieldedType) (rt : UInt256) : Option (Tree t) :=
  if rt = emptyRoot t then some (emptyTree t) else (d.anchors t).lookup rt

/-- `CCoinsViewDB::GetNullifier`: presence counts. -/
def getNullifier (s : NullifierSet) (nf : UInt256) : Bool :=
  ((d.nullifiers s).lookup nf).isSome

def getZkProofHash (p : ProofType) (h : UInt256) : Finset ProofId :=
  ((d.zkProofHashes p).lookup h).getD ∅

def getBestBlock : UInt256 := d.bestBlock.getD UInt256.null

def getBestAnchor (t : ShieldedType) : UInt256 :=
  (d.bestAnchor t).getD (emptyRoot t)

/-- The coins loop of `CCoinsViewDB::BatchWrite`. -/
def batchWriteCoins (_ : UInt256) (e : CCoinsCacheEntry) (o : Option StoredCoins) :
    Option StoredCoins :=
  if e.dirty then
    if h : e.coins.isPruned = false then some (.ofCoins e.coins h) else none
  else o

/-- `BatchWriteAnchors` of `txdb.cpp`: never the empty tree. -/
def batchWriteAnchors (t : ShieldedType) (rt : UInt256) (e : CAnchorsCacheEntry (Tree t))
    (o : Option (Tree t)) : Option (Tree t) :=
  if e.dirty then
    if !e.entered then none else if rt ≠ emptyRoot t then some e.tree else o
  else o

/-- `BatchWriteNullifiers` of `txdb.cpp`. -/
def batchWriteNullifiers (_ : UInt256) (e : CNullifiersCacheEntry) (o : Option Bool) :
    Option Bool :=
  if e.dirty then if !e.entered then none else some true else o

def batchWriteProofHashes (_ : UInt256) (e : CProofHashCacheEntry)
    (o : Option (Finset ProofId)) : Option (Finset ProofId) :=
  if e.dirty then if e.txids = ∅ then none else some e.txids else o

def writeBest (h : UInt256) (o : Option UInt256) : Option UInt256 :=
  if h.isNull then o else some h

def batchWrite (child : CCoinsViewCache) (d : CCoinsViewDB) : CCoinsViewDB where
  coins := batch batchWriteCoins child.cacheCoins d.coins
  anchors t := batch (batchWriteAnchors t) (child.cacheAnchors t) (d.anchors t)
  nullifiers s := batch batchWriteNullifiers (child.cacheNullifiers s) (d.nullifiers s)
  zkProofHashes p :=
    batch batchWriteProofHashes (child.cacheZkProofHash p) (d.zkProofHashes p)
  bestBlock := writeBest child.hashBlock d.bestBlock
  bestAnchor t := writeBest (child.hashAnchor t) (d.bestAnchor t)

end CCoinsViewDB

/-! ### Reading through a cache -/

/-- `CCoinsViewCache::FetchCoins`: the base's coins are remembered, fresh when pruned. -/
def coinsQuery (txid : UInt256) : Query CCoinsViewDB CCoinsViewCache (Option CCoins) where
  read d := d.getCoins txid
  find l := (l.cacheCoins.lookup txid).map fun e => some e.coins
  fill r l :=
    match r with
    | some c =>
      { l with cacheCoins := l.cacheCoins.insert txid ⟨c, false, c.isPruned⟩ }
    | none => l

/-- `CCoinsViewCache::GetSproutAnchorAt` and its siblings: an entry not entered hides the anchor;
only the base's anchors are remembered. -/
def anchorQuery (t : ShieldedType) (rt : UInt256) :
    Query CCoinsViewDB CCoinsViewCache (Option (Tree t)) where
  read d := d.getAnchorAt t rt
  find l := ((l.cacheAnchors t).lookup rt).map fun e =>
    if e.entered then some e.tree else none
  fill r l :=
    match r with
    | some tree =>
      { l with
        cacheAnchors :=
          update l.cacheAnchors t
            ((l.cacheAnchors t).insert rt ⟨true, tree, false⟩) }
    | none => l

/-- `CCoinsViewCache::GetNullifier` for a set: answers are remembered. -/
def nullifierQuery (s : NullifierSet) (nf : UInt256) :
    Query CCoinsViewDB CCoinsViewCache Bool where
  read d := d.getNullifier s nf
  find l := ((l.cacheNullifiers s).lookup nf).map CNullifiersCacheEntry.entered
  fill r l :=
    { l with
      cacheNullifiers :=
        update l.cacheNullifiers s ((l.cacheNullifiers s).insert nf ⟨r, false⟩) }

/-- `CCoinsViewCache::GetZkProofHash`: answers are remembered. -/
def zkProofHashQuery (p : ProofType) (h : UInt256) :
    Query CCoinsViewDB CCoinsViewCache (Finset ProofId) where
  read d := d.getZkProofHash p h
  find l := ((l.cacheZkProofHash p).lookup h).map CProofHashCacheEntry.txids
  fill r l :=
    { l with
      cacheZkProofHash :=
        update l.cacheZkProofHash p ((l.cacheZkProofHash p).insert h ⟨r, false⟩) }

/-- `CCoinsViewCache::GetBestBlock`: a null hash means "ask the base". -/
def bestBlockQuery : Query CCoinsViewDB CCoinsViewCache UInt256 where
  read d := d.getBestBlock
  find l := if l.hashBlock.isNull then none else some l.hashBlock
  fill h l := { l with hashBlock := h }

/-- `CCoinsViewCache::GetBestAnchor`. -/
def bestAnchorQuery (t : ShieldedType) : Query CCoinsViewDB CCoinsViewCache UInt256 where
  read d := d.getBestAnchor t
  find l := if (l.hashAnchor t).isNull then none else some (l.hashAnchor t)
  fill h l := { l with hashAnchor := update l.hashAnchor t h }

namespace CacheView

variable (t : ShieldedType) (txid : UInt256) (v : CacheView)

/-- `CCoinsViewCache::GetCoins` and `AccessCoins`, null as `none`. -/
def getCoins : Option CCoins × CacheView :=
  (coinsQuery txid).ask v

/-- `CCoinsViewCache::HaveCoins`, by `vout.empty()`. -/
def haveCoins : Bool × CacheView :=
  let (r, v) := getCoins txid v
  (r.any fun c => !c.vout.isEmpty, v)

/-- `CCoinsViewCache::Get...AnchorAt`. -/
def getAnchorAt (rt : UInt256) (v : CacheView) : Option (Tree t) × CacheView :=
  (anchorQuery t rt).ask v

def getNullifier (nf : UInt256) (type : ShieldedType) (v : CacheView) :
    Except Fault (Bool × CacheView) :=
  match type with
  | .sprout => .ok ((nullifierQuery .sprout nf).ask v)
  | .sapling => .ok ((nullifierQuery .sapling nf).ask v)
  | .saplingFrontier => .error (.exception "Unknown shielded type")

/-- `CCoinsViewCache::GetZkProofHash`: whether registered, and by whom. -/
def getZkProofHash (h : UInt256) (p : ProofType) (v : CacheView) :
    (Bool × Finset ProofId) × CacheView :=
  let (txids, v) := (zkProofHashQuery p h).ask v
  ((decide (txids ≠ ∅), txids), v)

def getBestBlock : UInt256 × CacheView := bestBlockQuery.ask v

def getBestAnchor : UInt256 × CacheView :=
  (bestAnchorQuery t).ask v

/-! ### Editing coins -/

/-- `CCoinsModifier`: the entry under edit, with its key. -/
structure CCoinsModifier where
  txid : UInt256
  entry : CCoinsCacheEntry

/-- The entry `ModifyCoins` adds: fresh when the base has none or pruned coins. -/
def entryFromBase : Option CCoins → CCoinsCacheEntry
  | some c => ⟨c, false, c.isPruned⟩
  | none => ⟨CCoins.clear, false, true⟩

def workEntry : CCoinsCacheEntry × View :=
  match v.top.cacheCoins.lookup txid with
  | some e => (e, v.base)
  | none =>
    let (r, below) := (coinsQuery txid).fetch v.base
    (entryFromBase r, below)

/-- `CCoinsViewCache::ModifyCoins`, constructing a `CCoinsModifier`. -/
def modifyCoins : Except Fault (CCoinsModifier × CacheView) :=
  if v.top.hasModifier then .error (.assertion "ModifyCoins: !hasModifier")
  else
    let (e, below) := workEntry txid v
    let entry := { e with dirty := true }
    .ok (⟨txid, entry⟩,
      ⟨{ v.top with
          cacheCoins := v.top.cacheCoins.insert txid entry, hasModifier := true }, below⟩)

/-- `CCoinsModifier::~CCoinsModifier`: clean up, forget a pruned fresh entry. -/
def CCoinsModifier.release (m : CCoinsModifier) (v : CacheView) : Except Fault CacheView :=
  if !v.top.hasModifier then .error (.assertion "~CCoinsModifier: hasModifier")
  else
    let entry := { m.entry with coins := m.entry.coins.cleanup }
    .ok ⟨{ v.top with
      hasModifier := false
      cacheCoins :=
        if entry.fresh && entry.coins.isPruned then v.top.cacheCoins.erase m.txid
        else v.top.cacheCoins.insert m.txid entry }, v.base⟩

/-- `ModifyCoins` with an edit; gives the coins before. -/
def modifyCoinsWith (edit : CCoins → CCoins) (v : CacheView) :
    Except Fault (CCoins × CacheView) := do
  let (m, v) ← modifyCoins txid v
  let v ← CCoinsModifier.release
    { m with entry := { m.entry with coins := edit m.entry.coins } } v
  return (m.entry.coins, v)

/-! ### Anchors, nullifiers, proof hashes and the best block -/

/-- `AbstractPushAnchor`. -/
def pushAnchor (tree : Tree t) (v : CacheView) : CacheView :=
  let (currentRoot, v) := getBestAnchor t v
  -- an anchor that is already the best one is not written again
  if currentRoot = root tree then v
  else
    { v with top :=
      { v.top with
        cacheAnchors :=
          update v.top.cacheAnchors t
            ((v.top.cacheAnchors t).insert (root tree) ⟨true, tree, true⟩)
        hashAnchor := update v.top.hashAnchor t (root tree) } }

/-- `AbstractPopAnchor`: the best anchor is loaded, unmarked and replaced. -/
def popAnchor (newrt : UInt256) (v : CacheView) : Except Fault CacheView :=
  let (currentRoot, v) := getBestAnchor t v
  if currentRoot = newrt then .ok v
  else
    match getAnchorAt t currentRoot v with
    | (none, _) => .error (.assertion "BringBestAnchorIntoCache: GetAnchorAt(currentRoot)")
    | (some _, v) =>
      let entry :=
        ((v.top.cacheAnchors t).lookup currentRoot).getD ⟨false, emptyTree t, false⟩
      .ok { v with top :=
        { v.top with
          cacheAnchors :=
            update v.top.cacheAnchors t
              ((v.top.cacheAnchors t).insert currentRoot
                { entry with entered := false, dirty := true })
          hashAnchor := update v.top.hashAnchor t newrt } }

def setNullifier (spent : Bool) (m : Assoc UInt256 CNullifiersCacheEntry)
    (nf : UInt256) : Assoc UInt256 CNullifiersCacheEntry :=
  m.insert nf { (m.lookup nf).getD {} with entered := spent, dirty := true }

def nullifiersOf (tx : CTransaction) : NullifierSet → List UInt256
  | .sprout => tx.sproutNullifiers
  | .sapling => tx.saplingNullifiers

def setNullifiers (tx : CTransaction) (spent : Bool) (v : CacheView) : CacheView :=
  { v with top :=
    { v.top with cacheNullifiers := fun s =>
        (nullifiersOf tx s).foldl (setNullifier spent) (v.top.cacheNullifiers s) } }

/-- Register or remove a proof in a cache map. A missing entry is empty: the base is not asked. -/
def setZkProofHash (addTx : Bool) (m : Assoc UInt256 CProofHashCacheEntry)
    (p : UInt256 × ProofId) : Assoc UInt256 CProofHashCacheEntry :=
  let entry := (m.lookup p.1).getD {}
  m.insert p.1
    { entry with
      txids := if addTx then insert p.2 entry.txids else entry.txids.erase p.2
      dirty := true }

def proofsOf [CryptoHash] (tx : CTransaction) : ProofType → List (UInt256 × ProofId)
  | .spend => tx.vShieldedSpend.zipIdx.map fun (d, i) => (d.proofHash, (tx.hash, i))
  | .output => tx.vShieldedOutput.zipIdx.map fun (d, i) => (d.proofHash, (tx.hash, i))

def setZkProofHashes [CryptoHash] (tx : CTransaction) (addTx : Bool) (v : CacheView) :
    CacheView :=
  { v with top :=
    { v.top with cacheZkProofHash := fun p =>
        (proofsOf tx p).foldl (setZkProofHash addTx) (v.top.cacheZkProofHash p) } }

def setBestBlock (h : UInt256) (v : CacheView) : CacheView :=
  { v with top := { v.top with hashBlock := h } }

end CacheView

/-! ### Flushing a cache into its base -/

namespace CCoinsViewCache

/-- An entry of the coins loop of `CCoinsViewCache::BatchWrite`. -/
def batchWriteCoins (_ : UInt256) (e : CCoinsCacheEntry) (us : Option CCoinsCacheEntry) :
    Except Fault (Option CCoinsCacheEntry) :=
  if !e.dirty then .ok us
  else
    match us with
    | none =>
      if !e.coins.isPruned then
        if e.fresh then .ok (some ⟨e.coins, true, true⟩)
        else .error (.assertion "BatchWrite: it->second.flags & FRESH")
      else .ok none
    | some p =>
      if p.fresh && e.coins.isPruned then .ok none
      else .ok (some { p with coins := e.coins, dirty := true })

/-- `BatchWriteAnchors` of `coins.cpp`: an existing entry takes the mark only. -/
def batchWriteAnchors {τ : Type} (_ : UInt256) (e : CAnchorsCacheEntry τ)
    (us : Option (CAnchorsCacheEntry τ)) : Option (CAnchorsCacheEntry τ) :=
  if e.dirty then
    match us with
    | none => some ⟨e.entered, e.tree, true⟩
    | some p =>
      if p.entered ≠ e.entered then some { p with entered := e.entered, dirty := true }
      else some p
  else us

/-- `BatchWriteNullifiers` of `coins.cpp`. -/
def batchWriteNullifiers (_ : UInt256) (e : CNullifiersCacheEntry)
    (us : Option CNullifiersCacheEntry) : Option CNullifiersCacheEntry :=
  if e.dirty then
    match us with
    | none => some ⟨e.entered, true⟩
    | some p =>
      if p.entered ≠ e.entered then some { p with entered := e.entered, dirty := true }
      else some p
  else us

/-- `BatchWriteProofHashes` of `coins.cpp`. -/
def batchWriteProofHashes (_ : UInt256) (e : CProofHashCacheEntry)
    (us : Option CProofHashCacheEntry) : Option CProofHashCacheEntry :=
  if e.dirty then
    match us with
    | none => some ⟨e.txids, true⟩
    | some p =>
      if p.txids ≠ e.txids then some { p with txids := e.txids, dirty := true }
      else some p
  else us

/-- `CCoinsViewCache::BatchWrite`: best hashes are taken over, null or not. -/
def batchWrite (child p : CCoinsViewCache) : Except Fault CCoinsViewCache :=
  if p.hasModifier then .error (.assertion "BatchWrite: !hasModifier")
  else do
    let coins ← batchM batchWriteCoins child.cacheCoins p.cacheCoins
    return { p with
      cacheCoins := coins
      cacheAnchors := fun t =>
        batch batchWriteAnchors (child.cacheAnchors t) (p.cacheAnchors t)
      cacheNullifiers := fun s =>
        batch batchWriteNullifiers (child.cacheNullifiers s) (p.cacheNullifiers s)
      cacheZkProofHash := fun q =>
        batch batchWriteProofHashes (child.cacheZkProofHash q) (p.cacheZkProofHash q)
      hashAnchor := child.hashAnchor
      hashBlock := child.hashBlock }

/-- What `Flush` leaves: empty maps, and the best hashes. -/
def cleared (l : CCoinsViewCache) : CCoinsViewCache :=
  { l with
    cacheCoins := ∅
    cacheAnchors := fun _ => ∅
    cacheNullifiers := fun _ => ∅
    cacheZkProofHash := fun _ => ∅ }

end CCoinsViewCache

/-- `BatchWrite` of a view, on whichever class it is. -/
def View.batchWrite (child : CCoinsViewCache) : View → Except Fault View
  | .base d => .ok (.base (d.batchWrite child))
  | .layer p b => do
    let p' ← CCoinsViewCache.batchWrite child p
    return .layer p' b

def CacheView.flush (v : CacheView) : Except Fault CacheView := do
  let below ← View.batchWrite v.top v.base
  return ⟨v.top.cleared, below⟩

def CacheView.push (v : CacheView) : CacheView := ⟨{}, v.stack⟩

/-- Drop the top cache; the last one stays. -/
def CacheView.drop (v : CacheView) : CacheView :=
  match v.base with
  | .base _ => v
  | .layer l b => ⟨l, b⟩

end

@[reducible] def listTrees : NoteTrees where
  Tree _ := List UInt256
  root leaves := 2 * leaves.foldl (fun h c => 31 * h + c + 1) 1 + 1
  emptyTree _ := []
  append leaves c := some (leaves ++ [c])

theorem listTrees_root_ne_null (t : ShieldedType) (tree : listTrees.Tree t) :
    listTrees.root tree ≠ UInt256.null := by
  intro h
  have hodd : ∀ x : BitVec 256, 2 * x + 1 ≠ 0 := by
    bv_omega
  exact hodd _ h

end Elosys
