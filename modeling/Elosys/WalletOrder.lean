import Elosys.Primitives
import Mathlib.Data.List.Sort
import Mathlib.Data.List.Perm.Subperm
import Mathlib.Data.Prod.Lex

/-!
# The Order of Wallet Transactions

`CWallet::ReorderWalletTransactions` and `CWallet::UpdateWalletTransactionOrder` give the wallet's
transactions new positions after deletions. An entry for a taken key is dropped, and the running
counter is stored as the next position before it is incremented.
-/

open List Option

namespace Elosys

/-! ### The wallet -/

/-- `CWalletTx`, with what the order is made from. -/
structure CWalletTx where
  hash : UInt256
  hashBlock : UInt256
  nIndex : Int
  nOrderPos : Int
  deriving DecidableEq

/-- The transactions of `CWallet` in map order, and the next position. -/
structure CWallet where
  mapWallet : List CWalletTx
  nOrderPosNext : Int
  distinct : (mapWallet.map CWalletTx.hash).Nodup

/-- The blocks that the node knows. -/
structure KnownBlocks where
  heightOf : UInt256 → Option Int
  tipHeight : Int

/-- `std::pair<int, int>`: height and index in the block. -/
abbrev SortKey := Int ×ₗ Int

/-- `std::map<std::pair<int, int>, CWalletTx*>`, in order. -/
abbrev SortedTxs := List (SortKey × CWalletTx)

/-- `mapSorted.insert`: nothing for a known key. -/
def insertKey (mapSorted : SortedTxs) (x : SortKey × CWalletTx) : SortedTxs :=
  if x.1 ∈ mapSorted.map Prod.fst then mapSorted
  else mapSorted.orderedInsert (fun a b => a.1 ≤ b.1) x

/-- `CWallet::ReorderWalletTransactions`, from a `maxSortNumber` on. -/
def reorderWalletTransactions (world : KnownBlocks) :
    Int → List CWalletTx → SortedTxs × Int → SortedTxs × Int
  | _, [], acc => acc
  | maxSortNumber, wtx :: txs, (mapSorted, maxOrderPos) =>
    match world.heightOf wtx.hashBlock with
    | some wtxHeight =>
      reorderWalletTransactions world maxSortNumber txs
        (insertKey mapSorted (toLex (wtxHeight, wtx.nIndex), wtx), max maxOrderPos wtx.nOrderPos)
    | none =>
      reorderWalletTransactions world (maxSortNumber + 1) txs
        (insertKey mapSorted (toLex (maxSortNumber, 0), wtx), max maxOrderPos wtx.nOrderPos)

/-- The loop of `CWallet::UpdateWalletTransactionOrder`: positions, and `previousPosition` behind
the last. -/
def orderLoop (resetOrder : Bool) : Int → SortedTxs → SortedTxs × Int
  | previousPosition, [] => ([], previousPosition)
  | previousPosition, (key, wtx) :: rest =>
    let nOrderPos :=
      if wtx.nOrderPos ≤ previousPosition ∨ resetOrder then previousPosition + 1
      else wtx.nOrderPos
    let (updated, last) := orderLoop resetOrder nOrderPos rest
    ((key, { wtx with nOrderPos := nOrderPos }) :: updated, last)

def changedTo (updated : SortedTxs) (wtx : CWalletTx) : CWalletTx :=
  ((updated.find? fun x => x.2.hash == wtx.hash).map Prod.snd).getD wtx

theorem changedTo_hash (updated : SortedTxs) (wtx : CWalletTx) :
    (changedTo updated wtx).hash = wtx.hash := by
  unfold changedTo
  cases hfind : updated.find? fun x => x.2.hash == wtx.hash with
  | none => rfl
  | some x => simpa using find?_some hfind

/-- `CWallet::UpdateWalletTransactionOrder`; `nOrderPosNext` is incremented too late. -/
def CWallet.updateWalletTransactionOrder (wallet : CWallet) (mapSorted : SortedTxs)
    (resetOrder : Bool) : CWallet where
  mapWallet := wallet.mapWallet.map (changedTo (orderLoop resetOrder 0 mapSorted).1)
  nOrderPosNext := (orderLoop resetOrder 0 mapSorted).2
  distinct := by
    rw [List.map_map]
    refine (List.map_congr_left fun wtx _ => ?_) ▸ wallet.distinct
    exact (changedTo_hash _ wtx).symm

/-- What `CWallet::ReorderWalletTransactions` fills. -/
def CWallet.mapSorted (world : KnownBlocks) (wallet : CWallet) : SortedTxs :=
  (reorderWalletTransactions world (world.tipHeight + 1) wallet.mapWallet ([], 0)).1

def CWallet.reorder (world : KnownBlocks) (resetOrder : Bool) (wallet : CWallet) : CWallet :=
  wallet.updateWalletTransactionOrder (wallet.mapSorted world) resetOrder

def CWallet.incOrderPosNext (wallet : CWallet) : Int × CWallet :=
  (wallet.nOrderPosNext, { wallet with nOrderPosNext := wallet.nOrderPosNext + 1 })

/-- A transaction comes before another: a lower block, the same with a lower index, or the other
in no known block. -/
def Before (world : KnownBlocks) (a b : CWalletTx) : Prop :=
  ∃ h, world.heightOf a.hashBlock = some h ∧
    (world.heightOf b.hashBlock = none ∨
      ∃ h', world.heightOf b.hashBlock = some h' ∧ toLex (h, a.nIndex) < toLex (h', b.nIndex))

/-- The positions are distinct and follow the order. -/
structure Increasing (world : KnownBlocks) (txs : List CWalletTx) : Prop where
  distinct : (txs.map CWalletTx.nOrderPos).Nodup
  increases : ∀ a ∈ txs, ∀ b ∈ txs, Before world a b → a.nOrderPos < b.nOrderPos

/-- Besides, the next position is behind all of them. -/
structure OrderKept (world : KnownBlocks) (wallet : CWallet) : Prop
    extends Increasing world wallet.mapWallet where
  fresh : ∀ a ∈ wallet.mapWallet, a.nOrderPos < wallet.nOrderPosNext

/-! ### The map of sorted transactions -/

section

variable {world : KnownBlocks} {mapSorted : SortedTxs} {x : SortKey × CWalletTx}

theorem insertKey_cases (mapSorted : SortedTxs) (x : SortKey × CWalletTx) :
    (x.1 ∈ mapSorted.map Prod.fst ∧ insertKey mapSorted x = mapSorted) ∨
      (x.1 ∉ mapSorted.map Prod.fst ∧ (insertKey mapSorted x).Perm (x :: mapSorted)) := by
  unfold insertKey
  by_cases h : x.1 ∈ mapSorted.map Prod.fst
  · exact .inl ⟨h, if_pos h⟩
  · rw [if_neg h]
    exact .inr ⟨h, perm_orderedInsert _ x mapSorted⟩

theorem insertKey_subperm (mapSorted : SortedTxs) (x : SortKey × CWalletTx) :
    (insertKey mapSorted x).Subperm (x :: mapSorted) := by
  rcases insertKey_cases mapSorted x with ⟨-, heq⟩ | ⟨-, hperm⟩
  · rw [heq]
    exact (sublist_cons_self x mapSorted).subperm
  · exact hperm.subperm

theorem insertKey_ne_nil (mapSorted : SortedTxs) (x : SortKey × CWalletTx) :
    insertKey mapSorted x ≠ [] := by
  rcases insertKey_cases mapSorted x with ⟨hkey, heq⟩ | ⟨-, hperm⟩
  · rw [heq]
    rintro rfl
    exact absurd hkey (by simp)
  · intro hnil
    rw [hnil] at hperm
    exact absurd hperm.symm.eq_nil (by simp)

def sortEntries (world : KnownBlocks) : Int → List CWalletTx → SortedTxs
  | _, [] => []
  | maxSortNumber, wtx :: txs =>
    match world.heightOf wtx.hashBlock with
    | some wtxHeight =>
      (toLex (wtxHeight, wtx.nIndex), wtx) :: sortEntries world maxSortNumber txs
    | none => (toLex (maxSortNumber, 0), wtx) :: sortEntries world (maxSortNumber + 1) txs

theorem reorder_eq_foldl (maxSortNumber : Int) (txs : List CWalletTx) (acc : SortedTxs × Int) :
    (reorderWalletTransactions world maxSortNumber txs acc).1
      = (sortEntries world maxSortNumber txs).foldl insertKey acc.1 := by
  induction txs generalizing maxSortNumber acc with
  | nil => rfl
  | cons wtx txs ih =>
    rw [reorderWalletTransactions, sortEntries]
    cases world.heightOf wtx.hashBlock with
    | none => exact ih _ _
    | some h => exact ih _ _

theorem map_snd_sortEntries (world : KnownBlocks) (maxSortNumber : Int) (txs : List CWalletTx) :
    (sortEntries world maxSortNumber txs).map Prod.snd = txs := by
  induction txs generalizing maxSortNumber with
  | nil => rfl
  | cons wtx txs ih =>
    rw [sortEntries]
    cases world.heightOf wtx.hashBlock with
    | none => exact congrArg (wtx :: ·) (ih _)
    | some h => exact congrArg (wtx :: ·) (ih _)

theorem foldl_insertKey_subperm (entries mapSorted : SortedTxs) :
    (entries.foldl insertKey mapSorted).Subperm (mapSorted ++ entries) := by
  induction entries generalizing mapSorted with
  | nil => exact (append_nil mapSorted).symm ▸ List.Subperm.refl _
  | cons x entries ih =>
    refine (ih (insertKey mapSorted x)).trans ?_
    refine ((subperm_append_right entries).mpr (insertKey_subperm mapSorted x)).trans ?_
    exact perm_middle.symm.subperm

theorem foldl_insertKey_ne_nil {entries mapSorted : SortedTxs}
    (h : mapSorted ≠ [] ∨ entries ≠ []) : entries.foldl insertKey mapSorted ≠ [] := by
  induction entries generalizing mapSorted with
  | nil => exact h.resolve_right (by simp)
  | cons x entries ih => exact ih (.inl (insertKey_ne_nil mapSorted x))

end

section

variable {resetOrder : Bool}

theorem orderLoop_last (resetOrder : Bool) {mapSorted : SortedTxs} (previousPosition : Int)
    (h : mapSorted ≠ []) :
    ∃ x ∈ (orderLoop resetOrder previousPosition mapSorted).1,
      x.2.nOrderPos = (orderLoop resetOrder previousPosition mapSorted).2 := by
  induction mapSorted generalizing previousPosition with
  | nil => exact absurd rfl h
  | cons x rest ih =>
    cases rest with
    | nil => exact ⟨_, mem_singleton.mpr rfl, rfl⟩
    | cons y rest =>
      obtain ⟨z, hz, heq⟩ := ih _ (by simp)
      exact ⟨z, mem_cons_of_mem _ hz, heq⟩

theorem orderLoop_map {β : Type} {f : SortKey × CWalletTx → β}
    (hf : ∀ (x : SortKey × CWalletTx) (pos : Int), f (x.1, { x.2 with nOrderPos := pos }) = f x)
    {mapSorted : SortedTxs} (previousPosition : Int) :
    (orderLoop resetOrder previousPosition mapSorted).1.map f = mapSorted.map f := by
  induction mapSorted generalizing previousPosition with
  | nil => rfl
  | cons x rest ih =>
    rw [orderLoop, map_cons, map_cons, ih]
    exact congrArg (· :: _) (hf x _)

end

/-! ### The order after an update -/

section

variable {world : KnownBlocks} {resetOrder : Bool} {wallet : CWallet}

theorem mapSorted_eq (world : KnownBlocks) (wallet : CWallet) : wallet.mapSorted world
    = (sortEntries world (world.tipHeight + 1) wallet.mapWallet).foldl insertKey [] :=
  reorder_eq_foldl _ _ _

theorem mapSorted_hashes (world : KnownBlocks) (wallet : CWallet) :
    ((wallet.mapSorted world).map fun x => x.2.hash).Subperm
      (wallet.mapWallet.map CWalletTx.hash) := by
  have hsub := foldl_insertKey_subperm (sortEntries world (world.tipHeight + 1) wallet.mapWallet) []
  rw [← mapSorted_eq, nil_append] at hsub
  have hhash : (sortEntries world (world.tipHeight + 1) wallet.mapWallet).map (fun x => x.2.hash)
      = wallet.mapWallet.map CWalletTx.hash := by
    have hsnd := map_snd_sortEntries world (world.tipHeight + 1) wallet.mapWallet
    exact (List.map_map (g := CWalletTx.hash)).symm.trans (congrArg _ hsnd)
  obtain ⟨l, hperm, hsub⟩ := hsub
  rw [← hhash]
  exact ⟨l.map _, hperm.map _, hsub.map _⟩

theorem mem_reorder {x : SortKey × CWalletTx}
    (h : x ∈ (orderLoop resetOrder 0 (wallet.mapSorted world)).1) :
    x.2 ∈ (wallet.reorder world resetOrder).mapWallet := by
  have hsub : ((orderLoop resetOrder 0 (wallet.mapSorted world)).1.map fun x => x.2.hash).Subperm
      (wallet.mapWallet.map CWalletTx.hash) := by
    rw [orderLoop_map fun _ _ => rfl]
    exact mapSorted_hashes world wallet
  obtain ⟨wtx, hwtx, heq⟩ := mem_map.mp (hsub.subset (mem_map_of_mem h))
  refine mem_map.mpr ⟨wtx, hwtx, ?_⟩
  have hfound : ((orderLoop resetOrder 0 (wallet.mapSorted world)).1.find? fun x =>
      x.2.hash == wtx.hash).isSome :=
    find?_isSome.mpr ⟨x, h, beq_iff_eq.mpr heq.symm⟩
  obtain ⟨y, hy⟩ := isSome_iff_exists.mp hfound
  have hyhash : y.2.hash = wtx.hash := by simpa using find?_some hy
  -- hashes are distinct, so what is found is the transaction itself
  obtain ⟨l, hperm, hsub⟩ := hsub
  have hnodup := hperm.nodup_iff.mp (wallet.distinct.sublist hsub)
  obtain rfl := inj_on_of_nodup_map hnodup (mem_of_find?_eq_some hy) h (hyhash.trans heq)
  rw [changedTo, hy, map_some, getD_some]

theorem reorder_last (h : wallet.mapWallet ≠ []) :
    ∃ a ∈ (wallet.reorder world resetOrder).mapWallet,
      a.nOrderPos = (wallet.reorder world resetOrder).nOrderPosNext := by
  have hsome : wallet.mapSorted world ≠ [] := by
    rw [mapSorted_eq]
    refine foldl_insertKey_ne_nil (.inr fun hnil => h ?_)
    rw [← map_snd_sortEntries world (world.tipHeight + 1) wallet.mapWallet, hnil, map_nil]
  obtain ⟨x, hx, hpos⟩ := orderLoop_last resetOrder 0 hsome
  exact ⟨x.2, mem_reorder hx, hpos⟩

/-- **The order is kept for an empty wallet only**: the next position is taken. -/
theorem orderKept_iff_empty (world : KnownBlocks) (resetOrder : Bool) (wallet : CWallet) :
    OrderKept world (wallet.reorder world resetOrder) ↔ wallet.mapWallet = [] := by
  constructor
  · intro h
    by_contra hsome
    obtain ⟨a, ha, hpos⟩ := reorder_last hsome
    exact absurd (h.fresh a ha) (by omega)
  · intro hempty
    have hnone : (wallet.reorder world resetOrder).mapWallet = [] := by
      change wallet.mapWallet.map _ = []
      rw [hempty, map_nil]
    refine ⟨⟨?_, ?_⟩, ?_⟩ <;> simp [hnone]

def oneTxWallet : CWallet where
  mapWallet := [{ hash := 5, hashBlock := 9, nIndex := 1, nOrderPos := 3 }]
  nOrderPosNext := 4
  distinct := by simp

/-- **A position is given twice**: the next transaction gets one taken. -/
theorem reorder_reuses_position :
    (oneTxWallet.reorder ⟨fun h => if h = 9 then some 10 else none, 10⟩ true).mapWallet.map
        CWalletTx.nOrderPos = [1] ∧
      (oneTxWallet.reorder ⟨fun h => if h = 9 then some 10 else none, 10⟩
        true).incOrderPosNext.1 = 1 := by
  decide

end

end Elosys
