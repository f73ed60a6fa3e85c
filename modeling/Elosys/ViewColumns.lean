import Elosys.CoinsView

/-!
# The Columns of a View

A view is read column by column: the coins, the anchors of a kind, a nullifier set, a proof
registry, each a `Column` with its `CacheKind`. A read acts on its own column as the column's
fetch (`coinsColumn_fetch` and its siblings) and leaves the others alone (`..._of_frame`).
-/

open AssocBatch LayerStack Option

namespace Elosys

def coinsKind : CacheKind CCoinsCacheEntry (Option CCoins) (Option CCoins) where
  res e := some e.coins
  fresh r := r.map fun c => ⟨c, false, c.isPruned⟩
  dirty e := e.dirty
  obs r := r.bind CCoins.present
  res_fresh := by
    intro r e h
    obtain ⟨c, hr, he⟩ := Option.map_eq_some_iff.mp h
    rw [← he, hr]
  dirty_fresh := by
    intro r e h
    obtain ⟨c, -, he⟩ := Option.map_eq_some_iff.mp h
    rw [← he]

def nullifierKind : CacheKind CNullifiersCacheEntry Bool Bool where
  res e := e.entered
  fresh r := some ⟨r, false⟩
  dirty e := e.dirty
  obs r := r
  res_fresh := by
    intro r e h
    rw [← some.inj h]
  dirty_fresh := by
    intro r e h
    rw [← some.inj h]

def proofKind : CacheKind CProofHashCacheEntry (Finset ProofId) (Finset ProofId) where
  res e := e.txids
  fresh r := some ⟨r, false⟩
  dirty e := e.dirty
  obs r := r
  res_fresh := by
    intro r e h
    rw [← some.inj h]
  dirty_fresh := by
    intro r e h
    rw [← some.inj h]

/-- Anchors of one kind, visible or not. -/
def anchorKind (τ : Type) : CacheKind (CAnchorsCacheEntry τ) (Option τ) Bool where
  res e := if e.entered then some e.tree else none
  fresh r := r.map fun tree => ⟨true, tree, false⟩
  dirty e := e.dirty
  obs r := r.isSome
  res_fresh := by
    intro r e h
    obtain ⟨tree, hr, he⟩ := Option.map_eq_some_iff.mp h
    rw [← he, hr]
    rfl
  dirty_fresh := by
    intro r e h
    obtain ⟨tree, -, he⟩ := Option.map_eq_some_iff.mp h
    rw [← he]

variable [NoteTrees]

/-! ### The columns -/

namespace View

def coinsColumn (v : View) : Column UInt256 CCoinsCacheEntry (Option CCoins) :=
  v.map CCoinsViewDB.getCoins CCoinsViewCache.cacheCoins

def nullifierColumn (s : NullifierSet) (v : View) : Column UInt256 CNullifiersCacheEntry Bool :=
  v.map (fun d => d.getNullifier s) (fun l => l.cacheNullifiers s)

def proofColumn (p : ProofType) (v : View) :
    Column UInt256 CProofHashCacheEntry (Finset ProofId) :=
  v.map (fun d => d.getZkProofHash p) (fun l => l.cacheZkProofHash p)

def anchorColumn (t : ShieldedType) (v : View) :
    Column UInt256 (CAnchorsCacheEntry (Tree t)) (Option (Tree t)) :=
  v.map (fun d => d.getAnchorAt t) (fun l => l.cacheAnchors t)

def Idle : View → Prop
  | .base _ => True
  | .layer l b => l.hasModifier = false ∧ Idle b

theorem coinsColumn_fetch (txid : UInt256) (v : View) : coinsColumn ((coinsQuery txid).fetch v).2
      = ((coinsKind.query txid).fetch v.coinsColumn).2 ∧
    (coinsKind.query txid).peek v.coinsColumn = (coinsQuery txid).peek v := by
  refine map_fetch CCoinsViewDB.getCoins CCoinsViewCache.cacheCoins (coinsQuery txid)
    (coinsKind.query txid) (fun d => rfl) (fun l => ?_) (fun r l _ => ?_) v
  · simp [CacheKind.query, coinsKind, coinsQuery]
  · cases r with
    | none => rfl
    | some c => rfl

theorem nullifierColumn_fetch (s : NullifierSet) (nf : UInt256) (v : View) :
    nullifierColumn s ((nullifierQuery s nf).fetch v).2
      = ((nullifierKind.query nf).fetch (v.nullifierColumn s)).2 ∧
    (nullifierKind.query nf).peek (v.nullifierColumn s) = (nullifierQuery s nf).peek v := by
  refine map_fetch (fun d => d.getNullifier s) (fun l => l.cacheNullifiers s)
    (nullifierQuery s nf) (nullifierKind.query nf) (fun d => rfl) (fun l => rfl)
    (fun r l _ => ?_) v
  simp [nullifierQuery, CacheKind.query, nullifierKind]

theorem proofColumn_fetch (p : ProofType) (h : UInt256) (v : View) :
    proofColumn p ((zkProofHashQuery p h).fetch v).2
      = ((proofKind.query h).fetch (v.proofColumn p)).2 ∧
    (proofKind.query h).peek (v.proofColumn p) = (zkProofHashQuery p h).peek v := by
  refine map_fetch (fun d => d.getZkProofHash p) (fun l => l.cacheZkProofHash p)
    (zkProofHashQuery p h) (proofKind.query h) (fun d => rfl) (fun l => rfl)
    (fun r l _ => ?_) v
  simp [zkProofHashQuery, CacheKind.query, proofKind]

theorem anchorColumn_fetch (t : ShieldedType) (rt : UInt256) (v : View) :
    anchorColumn t ((anchorQuery t rt).fetch v).2
      = (((anchorKind (Tree t)).query rt).fetch (v.anchorColumn t)).2 ∧
    ((anchorKind (Tree t)).query rt).peek (v.anchorColumn t) = (anchorQuery t rt).peek v := by
  refine map_fetch (fun d => d.getAnchorAt t) (fun l => l.cacheAnchors t)
    (anchorQuery t rt) ((anchorKind (Tree t)).query rt) (fun d => rfl) (fun l => rfl)
    (fun r l _ => ?_) v
  cases r with
  | none => rfl
  | some tree => simp [anchorQuery, CacheKind.query, anchorKind]

theorem idle_fetch {R : Type} (q : Query CCoinsViewDB CCoinsViewCache R)
    (h : ∀ r l, (q.fill r l).hasModifier = l.hasModifier) {v : View} (hv : Idle v) :
    Idle (q.fetch v).2 := by
  induction v with
  | base d => exact hv
  | layer l b ih =>
    cases hf : q.find l with
    | some r => rw [q.fetch_of_find hf]; exact hv
    | none => rw [q.fetch_of_find_none hf]; exact ⟨(h _ l).trans hv.1, ih hv.2⟩

end View

end Elosys
