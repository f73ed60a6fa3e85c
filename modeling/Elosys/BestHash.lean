import Elosys.CoinsRefinement

/-!
# Best Hashes Through a Flush

A cache keeps the best hashes with null for "not known here". `Flush` hands them down raw and the
cache below takes them over, so a cache that never touched a best hash wipes out its parent's.
-/

open AssocBatch LayerStack

namespace Elosys

/-- The best block of a view, or the best anchor of a kind. -/
inductive BestHash where
  | block
  | anchor (t : ShieldedType)
  deriving DecidableEq

section

variable [NoteTrees]

namespace BestHash

/-- The hash a cache holds, null when it has to ask. -/
def held : BestHash → CCoinsViewCache → UInt256
  | block, l => l.hashBlock
  | anchor t, l => l.hashAnchor t

/-- The query behind `GetBestBlock` and `GetBestAnchor`. -/
def query : BestHash → Query CCoinsViewDB CCoinsViewCache UInt256
  | block => bestBlockQuery
  | anchor t => bestAnchorQuery t

variable (f : BestHash)

def best (v : View) : UInt256 := f.query.peek v

/-- `GetBestBlock` and `GetBestAnchor`. -/
def getBest (v : CacheView) : UInt256 × CacheView :=
  match f with
  | block => v.getBestBlock
  | anchor t => v.getBestAnchor t

theorem getBest_eq (v : CacheView) : f.getBest v = f.query.ask v := by
  cases f <;> rfl

theorem getBest_fst (v : CacheView) : (f.getBest v).1 = f.best v.stack := by
  rw [getBest_eq, Query.ask_fst, best]

variable (l : CCoinsViewCache)

theorem find_query : f.query.find l = if (f.held l).isNull then none else some (f.held l) := by
  cases f <;> rfl

theorem best_layer (b : View) :
    f.best (.layer l b) = if f.held l = UInt256.null then f.best b else f.held l := by
  rw [best, Query.peek_layer, find_query]
  by_cases h : f.held l = UInt256.null
  · simp [h, best]
  · rw [if_neg (by simpa using h), if_neg h, Option.getD_some]

theorem best_congr {v v' : View}
    (h : v'.map (fun d => f.query.read d) f.held = v.map (fun d => f.query.read d) f.held) :
    f.best v' = f.best v := by
  induction v generalizing v' with
  | base d =>
    cases v' with
    | base d' => exact LayerStack.base.inj h
    | layer l' b' => exact absurd h (by simp)
  | layer l b ih =>
    cases v' with
    | base d' => exact absurd h (by simp)
    | layer l' b' =>
      obtain ⟨hl, hb⟩ := LayerStack.layer.inj h
      rw [best_layer, best_layer, hl, ih hb]

theorem held_fill (f f' : BestHash) (h : UInt256) (l : CCoinsViewCache) :
    f'.held (f.query.fill h l) = if f' = f then h else f'.held l := by
  cases f with
  | block =>
    cases f' with
    | block => rfl
    | anchor t' => rfl
  | anchor t =>
    cases f' with
    | block => rfl
    | anchor t' =>
      by_cases ht : t' = t
      · subst ht
        simp [held, query, bestAnchorQuery]
      · simp [held, query, bestAnchorQuery, ht]

theorem levels_best_getBest (f f' : BestHash) (v : CacheView) :
    levels f'.best (f.getBest v).2.stack = levels f'.best v.stack := by
  rw [getBest_eq, Query.stack_ask]
  by_cases hf : f' = f
  · subst hf
    refine f'.query.levels_peek_fetch (fun r l hn => ?_) v.stack
    rw [find_query, held_fill, if_pos rfl]
    by_cases hr : r = UInt256.null
    · exact .inl (if_pos (by simpa using hr))
    · exact .inr (if_neg (by simpa using hr))
  · refine f.query.levels_peek_fetch_of_frame f'.query (fun r l => ?_) v.stack
    rw [find_query, find_query, held_fill, if_neg hf]

theorem best_merged_base (d : CCoinsViewDB) :
    f.best (.base (d.batchWrite l)) = f.best (.layer l (.base d)) := by
  rw [best_layer]
  cases f with
  | block =>
    by_cases h : l.hashBlock = UInt256.null
    · simp [best, query, bestBlockQuery, held, h, CCoinsViewDB.getBestBlock,
        CCoinsViewDB.batchWrite, CCoinsViewDB.writeBest]
    · simp [best, query, bestBlockQuery, held, h, CCoinsViewDB.getBestBlock,
        CCoinsViewDB.batchWrite, CCoinsViewDB.writeBest]
  | anchor t =>
    by_cases h : l.hashAnchor t = UInt256.null
    · simp [best, query, bestAnchorQuery, held, h, CCoinsViewDB.getBestAnchor,
        CCoinsViewDB.batchWrite, CCoinsViewDB.writeBest]
    · simp [best, query, bestAnchorQuery, held, h, CCoinsViewDB.getBestAnchor,
        CCoinsViewDB.batchWrite, CCoinsViewDB.writeBest]

theorem held_of_batchWrite {child p p' : CCoinsViewCache}
    (h : CCoinsViewCache.batchWrite child p = .ok p') : f.held p' = f.held child := by
  rw [CCoinsViewCache.batchWrite] at h
  split at h
  · cases h
  · cases hb : batchM CCoinsViewCache.batchWriteCoins child.cacheCoins p.cacheCoins with
    | error e => rw [hb] at h; cases h
    | ok coins =>
      rw [hb] at h
      rw [← Except.ok.inj h]
      cases f <;> rfl

/-- A flush of `child` into `parent` over `b` keeps a best hash: the child knows it, the parent
does not hold it, or holds what the view below answers. -/
def Kept (child parent : CCoinsViewCache) (b : View) : Prop :=
  f.held child ≠ UInt256.null ∨ f.held parent = UInt256.null ∨ f.best b = f.held parent

theorem best_handed_down {child parent p' : CCoinsViewCache} (b : View)
    (h : f.held p' = f.held child) :
    f.best (.layer p' b) = f.best (.layer child (.layer parent b)) ↔ f.Kept child parent b := by
  rw [best_layer, best_layer, best_layer, h, Kept]
  by_cases hc : f.held child = UInt256.null
  · by_cases hp : f.held parent = UInt256.null
    · simp [hc, hp]
    · simp [hc, hp]
  · simp [hc]

end BestHash

/-- **When a flush keeps the best hashes**: the child knows the hash, or the parent does not hold
it, or holds what the view below it answers. -/
theorem flush_best_iff (child parent : CCoinsViewCache) (b : View) (v' : CacheView)
    (h : CacheView.flush ⟨child, .layer parent b⟩ = .ok v') (f : BestHash) :
    (f.getBest v'.drop).1 = (f.getBest ⟨child, .layer parent b⟩).1 ↔
      f.held child ≠ UInt256.null ∨ f.held parent = UInt256.null ∨ f.best b = f.held parent := by
  cases hp : CCoinsViewCache.batchWrite child parent with
  | error e =>
    rw [CacheView.flush, View.batchWrite, hp] at h
    cases h
  | ok p' =>
    rw [CacheView.flush, View.batchWrite, hp] at h
    rw [← Except.ok.inj h, BestHash.getBest_fst, BestHash.getBest_fst]
    exact f.best_handed_down b (f.held_of_batchWrite hp)

end

section

local instance instListTrees : NoteTrees := listTrees

theorem flush_best_kept_by_reading_child :
    CacheView.flush ⟨{ hashBlock := 5 }, .layer { hashBlock := 5 } (.base {})⟩
        = .ok ⟨{ hashBlock := 5 }, .layer { hashBlock := 5 } (.base {})⟩ ∧
      (BestHash.block.getBest ⟨{ hashBlock := 5 }, .base {}⟩).1 = (BestHash.block.getBest
            ⟨{ hashBlock := 5 }, .layer { hashBlock := 5 } (.base {})⟩).1 :=
  ⟨rfl, (flush_best_iff { hashBlock := 5 } { hashBlock := 5 } (.base {})
    ⟨{ hashBlock := 5 }, .layer { hashBlock := 5 } (.base {})⟩ rfl .block).mpr (.inl (by decide))⟩

/-- A child that never touched the best hashes is flushed, and the parent loses its best block. -/
theorem flush_untouched_child_loses_best : ∃ v' : CacheView,
      CacheView.flush ⟨{}, .layer { hashBlock := 5, hashAnchor := fun _ => 6 } (.base {})⟩
        = .ok v' ∧
      (CacheView.getBestBlock
        ⟨{}, .layer { hashBlock := 5, hashAnchor := fun _ => 6 } (.base {})⟩).1 = 5 ∧
      (CacheView.getBestBlock v'.drop).1 = 0 ∧ (5 : UInt256) ≠ 0 :=
  ⟨_, rfl, rfl, rfl, by decide⟩

end

end Elosys
