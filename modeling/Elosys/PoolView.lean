import Elosys.MemPoolIndex

/-!
# Proofs Seen through the Pool

`CCoinsViewMemPool` puts the pool over a view, and `AcceptToMemoryPool` a cache over both.
`GetZkProofHash` answers whether a proof is held, and by whom. The pool gives the first answer
only; the cache keeps the second, and goes by it.
-/

open AssocBatch Option Function

namespace Elosys

section

variable [NoteTrees] [CryptoHash]

def CTransaction.proofHashes (tx : CTransaction) : ProofType → List UInt256
  | .spend => tx.spendProofHashes
  | .output => tx.outputProofHashes

def CTxMemPool.zkProofHashExists (pool : CTxMemPool) (zkproofHash : UInt256) : ProofType → Bool
  | .spend => (pool.mapZkSpendProofHash.lookup zkproofHash).isSome
  | .output => (pool.mapZkOutputProofHash.lookup zkproofHash).isSome

/-- `CCoinsViewMemPool`, with the base view's proofs. -/
structure CCoinsViewMemPool where
  base : ProofType → UInt256 → Finset ProofId
  mempool : CTxMemPool

namespace CCoinsViewMemPool

variable (view : CCoinsViewMemPool)

/-- `CCoinsViewMemPool::GetZkProofHash`, for an empty set of holders. -/
def getZkProofHash (zkproofHash : UInt256) (type : ProofType) : Bool × Finset ProofId :=
  if view.mempool.zkProofHashExists zkproofHash type then (true, ∅)
  else (decide (view.base type zkproofHash ≠ ∅), view.base type zkproofHash)

variable (cache : CCoinsViewCache)

/-- `CCoinsViewCache::GetZkProofHash` over the pool. -/
def askCache (q : UInt256 × ProofType) : Bool × CCoinsViewCache :=
  match (zkProofHashQuery q.2 q.1).find cache with
  | some txids => (decide (txids ≠ ∅), cache)
  | none =>
    let txids := (view.getZkProofHash q.1 q.2).2
    (decide (txids ≠ ∅), (zkProofHashQuery q.2 q.1).fill txids cache)

def askAll (qs : List (UInt256 × ProofType)) : CCoinsViewCache :=
  qs.foldl (fun cache q => (view.askCache cache q).2) cache

def Remembered : Prop :=
  ∀ h p txids, (zkProofHashQuery p h).find cache = some txids →
    txids = (view.getZkProofHash h p).2

def HeldByPool (h : UInt256) (p : ProofType) : Prop :=
  ∃ e ∈ view.mempool.mapTx, h ∈ e.tx.proofHashes p

variable {view}

omit [NoteTrees] in
theorem zkProofHashExists_iff (hpool : view.mempool.MapsAgree) (h : UInt256) (p : ProofType) :
    view.mempool.zkProofHashExists h p = true ↔ view.HeldByPool h p := by
  cases p with
  | spend =>
    simp [CTxMemPool.zkProofHashExists, isSome_iff_exists, hpool.spendProofs _ _, ownedBy,
      HeldByPool, CTransaction.proofHashes]
  | output =>
    simp [CTxMemPool.zkProofHashExists, isSome_iff_exists, hpool.outputProofs _ _, ownedBy,
      HeldByPool, CTransaction.proofHashes]

omit [CryptoHash] in
theorem Remembered.ask {cache : CCoinsViewCache} (hc : view.Remembered cache)
    (q : UInt256 × ProofType) :
    (view.askCache cache q).1 = decide ((view.getZkProofHash q.1 q.2).2 ≠ ∅) ∧
      view.Remembered (view.askCache cache q).2 := by
  unfold askCache
  split
  · rename_i txids hfind
    obtain rfl := hc _ _ _ hfind
    exact ⟨rfl, hc⟩
  · refine ⟨rfl, fun h p txids hfind => ?_⟩
    by_cases hp : p = q.2
    · subst hp
      simp only [zkProofHashQuery, update_self, lookup_insert_eq] at hfind
      split at hfind
      · rename_i hh
        subst hh
        exact (some.inj hfind).symm
      · exact hc h _ txids hfind
    · simp only [zkProofHashQuery, update_of_ne hp] at hfind
      exact hc h p txids hfind

omit [CryptoHash] in
theorem Remembered.askAll {cache : CCoinsViewCache} (hc : view.Remembered cache)
    (qs : List (UInt256 × ProofType)) : view.Remembered (view.askAll cache qs) :=
  List.foldlRecOn (motive := view.Remembered) qs _ hc fun _ hcache q _ => (hcache.ask q).2

end CCoinsViewMemPool

/-- **Proofs seen through the pool**: the cache answers rightly exactly if the pool does not hold
the proof. -/
theorem proof_seen_iff (view : CCoinsViewMemPool) (hpool : view.mempool.MapsAgree)
    (cache : CCoinsViewCache) (hcache : view.Remembered cache) (qs : List (UInt256 × ProofType))
    (h : UInt256) (p : ProofType) :
    ((view.askCache (view.askAll cache qs) (h, p)).1 = true ↔
        view.HeldByPool h p ∨ view.base p h ≠ ∅) ↔
      ¬view.HeldByPool h p := by
  have hexists := CCoinsViewMemPool.zkProofHashExists_iff hpool h p
  rw [((hcache.askAll qs).ask (h, p)).1, decide_eq_true_eq, CCoinsViewMemPool.getZkProofHash]
  by_cases hheld : view.HeldByPool h p
  · simp [hexists.mpr hheld, hheld]
  · simp [mt hexists.mp hheld, hheld]

end

section

local instance poolViewTrees : NoteTrees := listTrees

local instance poolViewHash : CryptoHash := ⟨fun _ => 7, fun _ => 0⟩

def shieldView : CCoinsViewMemPool := ⟨fun _ _ => ∅, ({} : CTxMemPool).addUnchecked shieldEntry⟩

theorem proof_seen_shieldView :
    ((shieldView.askCache (shieldView.askAll {} [(7, .output)]) (7, .spend)).1 = true ↔
        shieldView.HeldByPool 7 .spend ∨ shieldView.base .spend 7 ≠ ∅) ↔
      ¬shieldView.HeldByPool 7 .spend := by
  have hkept : shieldView.mempool.Kept := CTxMemPool.kept_empty.addUnchecked
    ⟨by decide, by decide, fun _ => by decide, fun _ e he => absurd he (by simp)⟩
  have hnew : shieldView.Remembered {} := fun h p txids hfind => by
    cases p <;> exact nomatch hfind
  exact proof_seen_iff shieldView hkept.mapsAgree {} hnew [(7, .output)] 7 .spend

/-- The pool holds its output's proof, and the cache never sees it. -/
theorem proof_in_pool_unseen :
    shieldView.mempool.mapTx.any (fun e => (e.tx.proofHashes .output).contains 7) = true ∧
      (shieldView.getZkProofHash 7 .output).1 = true ∧
      (shieldView.askCache {} (7, .output)).1 = false ∧
      (shieldView.askCache (shieldView.askAll {} [(7, .output)]) (7, .output)).1 = false := by
  decide

end

end Elosys
