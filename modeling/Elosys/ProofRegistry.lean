import Elosys.ChainState

/-!
# The Registry of Shielded Proofs

`GetZkProofHash` and `SetZkProofHashes`: under a proof's hash the caches keep the transactions
that carry it. A write does not look below its cache, so the abstract state is what the cache in
use holds, over fixed answers from below.

## Main results

* `inChild_proofs`: a child cache that is flushed adds its writes to the registry of its parent, and
  one that is dropped leaves it as it was.
* At the tip the registry holds the carriers of a proof in the active chain, after any connects and
  disconnects.
-/

open AssocBatch LayerStack Program List Option Function Except Prod Finset

namespace Elosys

open CacheView View

section

variable [NoteTrees]

omit [NoteTrees] in
theorem merge_proofs {m p : Assoc UInt256 CProofHashCacheEntry}
    {b : Column UInt256 CProofHashCacheEntry (Finset ProofId)}
    (hc : proofKind.Coherent (.layer m (.layer p b))) :
    proofKind.Coherent (.layer (batch CCoinsViewCache.batchWriteProofHashes m p) b) ∧
      proofKind.view (.layer (batch CCoinsViewCache.batchWriteProofHashes m p) b)
        = proofKind.view (.layer m (.layer p b)) := by
  refine proofKind.merge_batch_spec (·.txids) (fun _ => rfl) (fun _ _ => rfl)
    (fun _ _ _ => rfl) (fun _ => ?_) (fun _ _ => ?_) hc
  · exact ⟨rfl, rfl⟩
  · exact ⟨rfl, rfl⟩

theorem merge_proofs_base (p : ProofType) {l : CCoinsViewCache} {d : CCoinsViewDB}
    (hc : proofKind.Coherent (.layer (l.cacheZkProofHash p) (.base (d.getZkProofHash p)))) :
    proofKind.view (.base ((d.batchWrite l).getZkProofHash p))
      = proofKind.view (.layer (l.cacheZkProofHash p) (.base (d.getZkProofHash p))) := by
  have hlookup : ∀ h, (d.batchWrite l).getZkProofHash p h
      = (batchAt CCoinsViewDB.batchWriteProofHashes h ((l.cacheZkProofHash p).lookup h)
          ((d.zkProofHashes p).lookup h)).getD ∅ := by
    intro h
    rw [CCoinsViewDB.getZkProofHash, CCoinsViewDB.batchWrite, lookup_batch]
  refine proofKind.merge_base_spec (fun h hk => ?_) (fun h e he hd => ?_) hc
  · rw [hlookup]
    cases hm : (l.cacheZkProofHash p).lookup h with
    | none => rfl
    | some e =>
      have hd : e.dirty = false := hk e hm
      rw [batchAt_some, CCoinsViewDB.batchWriteProofHashes, hd]
      rfl
  · have hd' : e.dirty = true := hd
    rw [hlookup, he, batchAt_some, CCoinsViewDB.batchWriteProofHashes, if_pos hd']
    change Option.getD _ ∅ = e.txids
    by_cases hempty : e.txids = ∅
    · rw [if_pos hempty, hempty]
      rfl
    · rw [if_neg hempty]
      rfl

/-- The registry of one type of proofs, as a column. -/
def proofMerged (p : ProofType) :
    MergedColumn CProofHashCacheEntry (Finset ProofId) (Finset ProofId) where
  kind := proofKind
  read d := d.getZkProofHash p
  cache l := l.cacheZkProofHash p
  cache_new := rfl
  cache_cleared _ := rfl
  merge := merge_proofs
  merge_base := merge_proofs_base p

/-! ### The abstract state -/

/-- A registry as plain maps: who carries a proof. -/
abbrev Registry := ProofType → UInt256 → Finset ProofId

abbrev Loaded := ProofType → UInt256 → Option (Finset ProofId)

/-- What a lookup through the cache in use answers. -/
def Registry.through (M : Registry) (c : Loaded) : Registry := fun p h => (c p h).getD (M p h)

/-- Register a proof in the cache, or take it back. -/
def Loaded.enter (addTx : Bool) (c : UInt256 → Option (Finset ProofId))
    (q : UInt256 × ProofId) : UInt256 → Option (Finset ProofId) :=
  let txids := (c q.1).getD ∅
  update c q.1 (some (if addTx then insert q.2 txids else txids.erase q.2))

/-- What the methods do to the cache in use: a lookup loads the answer, a write starts
from what is loaded. -/
def proofSpec [CryptoHash] (M : Registry) : Spec viewSig Fault Loaded
  | .getZkProofHash h p, c, res =>
    res = (.ok (decide (M.through c p h ≠ ∅), M.through c p h),
      update c p (update (c p) h (some (M.through c p h))))
  | .setZkProofHashes tx addTx, c, res =>
    res = (.ok (), fun p => (proofsOf tx p).foldl (Loaded.enter addTx) (c p))
  | _, c, res => res.2 = c

/-- The cache holds `c`, over a stack that stands for `M` and the maps below. -/
structure ProofRel (M : Registry) (below : ProofType → List (UInt256 → Finset ProofId))
    (v : CacheView) (c : Loaded) : Prop where
  sound : ∀ p, (proofMerged p).Sound v
  holds : ∀ p h, ((v.top.cacheZkProofHash p).lookup h).map CProofHashCacheEntry.txids = c p h
  under : ∀ p, levels (proofMerged p).plain v.base = M p :: below p

variable {M : Registry} {below : ProofType → List (UInt256 → Finset ProofId)}

theorem ProofRel.congr {v v' : CacheView} {c : Loaded} (h : ProofRel M below v c)
    (hcol : ∀ p, (proofMerged p).column v'.stack = (proofMerged p).column v.stack) :
    ProofRel M below v' c := by
  have hparts := fun p => LayerStack.layer.inj (hcol p)
  refine ⟨fun p => ?_, fun p k => ?_, fun p => ?_⟩
  · rw [MergedColumn.Sound, hcol p]
    exact h.sound p
  · rw [← h.holds p k]
    exact congrArg (fun m => (AList.lookup k m).map CProofHashCacheEntry.txids) (hparts p).1
  · rw [← h.under p, MergedColumn.levels_plain, MergedColumn.levels_plain]
    exact congrArg _ (hparts p).2

variable {v : CacheView}

theorem ProofRel.ask {c : Loaded} (h : ProofRel M below v c) (p : ProofType) (k : UInt256) :
    ((zkProofHashQuery p k).ask v).1 = M.through c p k ∧
      ProofRel M below ((zkProofHashQuery p k).ask v).2
        (update c p (update (c p) k (some (M.through c p k)))) := by
  have hbelow : (zkProofHashQuery p k).peek v.base = M p k := by
    rw [← (proofColumn_fetch p k v.base).2]
    exact congrFun (levels_eq_cons (h.under p)) k
  have hans : ((zkProofHashQuery p k).ask v).1 = M.through c p k := by
    rw [Query.ask_fst, Tip.stack, Query.peek_layer, hbelow, Registry.through, ← h.holds p k]
    rfl
  have hspec : ∀ p', (proofMerged p').Sound ((zkProofHashQuery p k).ask v).2 ∧
      ((zkProofHashQuery p k).ask v).2.generations (proofMerged p').plain
        = v.generations (proofMerged p').plain := by
    intro p'
    by_cases hp : p' = p
    · subst hp
      exact (proofMerged p').ask_spec (proofColumn_fetch p' k v.stack).1 (h.sound p')
    · have hframe := (proofMerged p').ask_frame (Q := zkProofHashQuery p k) (v := v)
        fun r l => update_of_ne hp _ _
      refine ⟨?_, (proofMerged p').generations_congr (congrArg _ hframe)⟩
      rw [MergedColumn.Sound, hframe]
      exact h.sound p'
  refine ⟨hans, fun p' => (hspec p').1, fun p' k' => ?_, fun p' => ?_⟩
  · cases hfind : (zkProofHashQuery p k).find v.top with
    | some r =>
      have hc : c p k = some r := (h.holds p k).symm.trans hfind
      rw [Registry.through, hc, getD_some, ← hc, update_eq_self, update_eq_self, Query.ask, hfind]
      exact h.holds p' k'
    | none =>
      rw [← hans]
      simp only [Query.ask, hfind]
      by_cases hp : p' = p
      · subst hp
        simp only [zkProofHashQuery, update_self, lookup_insert_eq]
        by_cases hk : k' = k
        · simp [hk]
        · simp only [hk, if_false]
          rw [update_of_ne hk]
          exact h.holds p' k'
      · simp only [zkProofHashQuery, update_of_ne hp]
        exact h.holds p' k'
  · rw [← h.under p']
    exact congrArg Generations.below (hspec p').2

omit [NoteTrees] in
theorem foldl_setZkProofHash (addTx : Bool) (qs : List (UInt256 × ProofId))
    {m : Assoc UInt256 CProofHashCacheEntry}
    {b : Column UInt256 CProofHashCacheEntry (Finset ProofId)}
    {c : UInt256 → Option (Finset ProofId)} (hm : proofKind.Coherent (.layer m b))
    (hc : ∀ h, (m.lookup h).map CProofHashCacheEntry.txids = c h) :
    proofKind.Coherent (.layer (qs.foldl (setZkProofHash addTx) m) b) ∧
      ∀ h, ((qs.foldl (setZkProofHash addTx) m).lookup h).map CProofHashCacheEntry.txids
        = qs.foldl (Loaded.enter addTx) c h := by
  induction qs generalizing m c with
  | nil => exact ⟨hm, hc⟩
  | cons q qs ih =>
    refine ih (proofKind.insert_spec rfl hm).1 fun h => ?_
    have hentry : ((m.lookup q.1).getD {}).txids = (c q.1).getD ∅ := by
      rw [← hc q.1]
      cases m.lookup q.1 with
      | none => rfl
      | some e => rfl
    rw [setZkProofHash, lookup_insert_eq, Loaded.enter, hentry]
    by_cases hq : h = q.1
    · simp [hq]
    · rw [if_neg hq, update_of_ne hq]
      exact hc h

theorem proofs_simulates [CryptoHash] (M : Registry)
    (below : ProofType → List (UInt256 → Finset ProofId)) :
    Simulates (ProofRel M below) viewHandler.spec (proofSpec M) := by
  rintro o v c res h rfl
  by_cases ho : o.part = .proofs
  · cases o with
    | getZkProofHash k p =>
      obtain ⟨hans, hrel⟩ := h.ask p k
      refine ⟨_, Prod.ext ?_ rfl, hrel⟩
      simp only [viewHandler, settle, CacheView.getZkProofHash, hans]
    | setZkProofHashes tx addTx =>
      have hset := fun p =>
        foldl_setZkProofHash addTx (proofsOf tx p) (h.sound p) (h.holds p)
      exact ⟨_, rfl, fun p => (hset p).1, fun p => (hset p).2, h.under⟩
    | _ => exact absurd ho (by simp [ViewOp.part])
  · refine ⟨c, ?_, h.congr fun p => ?_⟩
    · cases o <;> first | rfl | exact absurd rfl ho
    · refine map_viewHandler _ _ (fun l => ?_) v
      cases hp : o.part <;> first | rfl | exact absurd hp ho

theorem inChild_proofs [CryptoHash] {α : Type} {prog : ViewProg α} {v v' : CacheView}
    {res : Except Fault α} (hs : v.Sound)
    (hbelow : ∀ p, below p ≠ []) (hp : ∀ p, (proofMerged p).Sound v)
    (hM : ∀ p, v.generations (proofMerged p).plain = ⟨M p, below p⟩)
    (h : inChild prog v = .ok (res, v')) :
    ∃ c, prog.Outcome (proofSpec M) (fun _ _ => none) (res, c) ∧ (∀ p, (proofMerged p).Sound v') ∧
      ∀ p, v'.generations (proofMerged p).plain
        = ⟨if res.isOk then M.through c p else M p, below p⟩ := by
  obtain ⟨child, hrun, -, rfl⟩ := inChild_ok hs h
  have hpush := fun p => (proofMerged p).push_spec (hp p)
  obtain ⟨c, hout, hrel⟩ := (proofs_simulates M below).run (p := prog) (s := v.push)
    (t := fun _ _ => none) ⟨fun p => (hpush p).1, fun p k => rfl, fun p =>
      (congrArg Generations.below (hpush p).2).trans (by rw [hM p]; rfl)⟩
  rw [hrun] at hout hrel
  -- the cache in use stands for what is seen through it
  have htop : ∀ p, child.generations (proofMerged p).plain = ⟨M.through c p, M p :: below p⟩ := by
    intro p
    refine congrArg₂ Generations.mk ?_ (hrel.under p)
    funext k
    rw [Registry.through, ← hrel.holds p k, ← levels_eq_cons (hrel.under p)]
    rfl
  refine ⟨c, hout, ?_⟩
  cases res with
  | ok a =>
    have hflush := fun p => (proofMerged p).flush_spec (hrel.sound p)
    have hdrop := fun p => (proofMerged p).drop_spec (hflush p).1
    refine ⟨fun p => (hdrop p).1, fun p => ?_⟩
    change child.flushed.drop.generations (proofMerged p).plain = _
    rw [CacheView.flushed, (hdrop p).2, (hflush p).2, htop p]
    exact Generations.drop_cons (hbelow p)
  | error e =>
    have hdrop := fun p => (proofMerged p).drop_spec (hrel.sound p)
    refine ⟨fun p => (hdrop p).1, fun p => ?_⟩
    change child.drop.generations (proofMerged p).plain = _
    rw [(hdrop p).2, htop p]
    exact Generations.drop_cons (hbelow p)

/-! ### What is carried -/

section

variable [CryptoHash]

def proofsIn (p : ProofType) (txs : List CTransaction) : List (UInt256 × ProofId) :=
  txs.flatMap fun tx => proofsOf tx p

/-- The proofs of a type that a chain carries. -/
def proofsOnChain (p : ProofType) (chain : List ActiveBlock) : List (UInt256 × ProofId) :=
  chain.flatMap fun b => proofsIn p b.block.vtx

omit [NoteTrees] [CryptoHash] in
def carriers (qs : List (UInt256 × ProofId)) (k : UInt256) : Finset ProofId :=
  ((qs.filter fun q => q.1 = k).map Prod.snd).toFinset

variable {qs : List (UInt256 × ProofId)} {k : UInt256}

section
omit [NoteTrees] [CryptoHash]

theorem mem_carriers {i : ProofId} : i ∈ carriers qs k ↔ (k, i) ∈ qs := by
  simp only [carriers, List.mem_toFinset, List.mem_map, List.mem_filter, decide_eq_true_eq]
  constructor
  · rintro ⟨⟨_, _⟩, ⟨hmem, rfl⟩, rfl⟩
    exact hmem
  · intro hmem
    exact ⟨(k, i), ⟨hmem, rfl⟩, rfl⟩

@[simp] theorem carriers_nil (k : UInt256) : carriers [] k = ∅ := rfl

theorem carriers_append (qs qs' : List (UInt256 × ProofId)) (k : UInt256) :
    carriers (qs ++ qs') k = carriers qs k ∪ carriers qs' k := by
  ext i
  simp [mem_carriers]

theorem carriers_eq_empty : carriers qs k = ∅ ↔ k ∉ qs.map Prod.fst := by
  simp [eq_empty_iff_forall_notMem, mem_carriers]

theorem foldl_enter (addTx : Bool) (qs : List (UInt256 × ProofId))
    (c : UInt256 → Option (Finset ProofId)) (k : UInt256) :
    qs.foldl (Loaded.enter addTx) c k = if k ∈ qs.map Prod.fst then
          some (if addTx then (c k).getD ∅ ∪ carriers qs k else (c k).getD ∅ \ carriers qs k)
        else c k := by
  induction qs generalizing c with
  | nil => simp
  | cons q qs ih =>
    have hcons : carriers (q :: qs) k = carriers [q] k ∪ carriers qs k :=
      carriers_append [q] qs k
    rw [foldl_cons, ih, hcons]
    by_cases hq : k = q.1
    · subst hq
      have hone : carriers [q] q.1 = {q.2} := by
        ext i
        simp [mem_carriers, Prod.ext_iff]
      rw [hone]
      by_cases hqs : q.1 ∈ qs.map Prod.fst
      · cases addTx with
        | true => simp [Loaded.enter, hqs, insert_union, union_comm]
        | false =>
          simp only [Loaded.enter, hqs, Function.update_self, List.map_cons,
            List.mem_cons, true_or, if_true, Option.getD_some, Bool.false_eq_true,
            if_false, some.injEq]
          ext i
          simp
          tauto
      · have hnone := carriers_eq_empty.mpr hqs
        cases addTx with
        | true => simp [Loaded.enter, hqs, hnone, Finset.union_comm]
        | false => simp [Loaded.enter, hqs, hnone, sdiff_singleton_eq_erase]
    · have hone : carriers [q] k = ∅ := carriers_eq_empty.mpr (by simpa using hq)
      have hmem : k ∈ (q :: qs).map Prod.fst ↔ k ∈ qs.map Prod.fst := by
        rw [List.map_cons, List.mem_cons]
        exact or_iff_right hq
      simp only [hmem, hone, Loaded.enter, Function.update_of_ne hq, Finset.empty_union]

end

/-! ### The effect of a block -/

variable {params : ConsensusParams}

section

variable {M : Registry} {c c' : Loaded}

theorem proofs_part : PartSpec .proofs (proofSpec M) where
  other o ho c res h := by
    cases o <;> first | exact h | exact absurd rfl ho
  plainRead o ho c res h := by
    cases o <;> first | exact h | exact absurd ho (by simp [ViewOp.PlainRead])

/-- More has been loaded, and lookups answer as before. -/
def Loaded.Grows (M : Registry) (c c' : Loaded) : Prop :=
  M.through c' = M.through c ∧ ∀ p k, (c p k).isSome → (c' p k).isSome

omit [NoteTrees] [CryptoHash] in
theorem grows_of_lookup (p : ProofType) (k : UInt256) :
    c.Grows M (update c p (update (c p) k (some (M.through c p k)))) := by
  refine ⟨?_, fun p' k' h => ?_⟩
  · funext p' k'
    by_cases hp : p' = p
    · subst hp
      by_cases hk : k' = k
      · simp [Registry.through, hk]
      · simp [Registry.through, hk]
    · simp [Registry.through, hp]
  · by_cases hp : p' = p
    · subst hp
      by_cases hk : k' = k
      · simp [hk]
      · simpa [hk] using h
    · simpa [hp] using h

theorem grows_of_read {α : Type} {prog : ViewProg α} (hp : prog.Uses ViewOp.IsRead)
    {r : Except Fault α} (h : prog.Outcome (proofSpec M) c (r, c')) : c.Grows M c' := by
  refine hp.relates (r := Loaded.Grows M) (fun c => ⟨rfl, fun _ _ h => h⟩)
    (fun c c₁ c₂ h₁ h₂ => ⟨h₂.1.trans h₁.1, fun p k h => h₂.2 p k (h₁.2 p k h)⟩)
    (fun o ho c res hres => ?_) h
  obtain hplain | ⟨k, p, rfl⟩ := ho
  · rw [proofs_part.plainRead o hplain c res hres]
    exact ⟨rfl, fun _ _ h => h⟩
  · rw [show res = _ from hres]
    exact grows_of_lookup p k

/-- The hashes looked up until one is found. -/
def consulted (found : UInt256 → Bool) : List UInt256 → List UInt256
  | [] => []
  | k :: ks => if found k then [k] else k :: consulted found ks

theorem noDuplicateProofs_loads {p : ProofType} {ks : List UInt256} {r : Bool}
    (h : (noDuplicateProofs p ks).Outcome (proofSpec M) c (.ok r, c')) :
    ∀ k ∈ consulted (fun k => decide (M.through c p k ≠ ∅)) ks, (c' p k).isSome := by
  induction ks generalizing c with
  | nil => simp [consulted]
  | cons k ks ih =>
    simp only [noDuplicateProofs, outcome_bind_ok] at h
    obtain ⟨⟨found, txids⟩, c₁, hlookup, h⟩ := h
    rw [ViewProg.getZkProofHash, ViewProg.call, outcome_op] at hlookup
    obtain ⟨hans, hc₁⟩ := mk.inj (show _ = _ from hlookup)
    obtain ⟨rfl, rfl⟩ := mk.inj (ok.inj hans)
    subst hc₁
    have hgrows := grows_of_lookup (M := M) (c := c) p k
    set c₁ := update c p (update (c p) k (some (M.through c p k)))
    have hk : (c₁ p k).isSome := by simp [c₁]
    unfold consulted
    split at h
    · next hfound =>
        obtain ⟨-, rfl⟩ := outcome_pure_ok.mp h
        rw [if_pos hfound]
        simpa using hk
    · next hfound =>
        rw [if_neg hfound, ← hgrows.1]
        refine forall_mem_cons.mpr ⟨?_, ih h⟩
        exact (grows_of_read (uses_noDuplicateProofs p ks) h).2 p k hk

omit [NoteTrees] in
theorem map_fst_proofsOf (tx : CTransaction) :
    (proofsOf tx .spend).map Prod.fst = tx.vShieldedSpend.map SpendDescription.proofHash ∧
      (proofsOf tx .output).map Prod.fst = tx.vShieldedOutput.map OutputDescription.proofHash := by
  have hidx : ∀ {α : Type} (g : α → UInt256) (l : List α),
      (l.zipIdx.map fun (d, i) => (g d, (tx.hash, i))).map Prod.fst = l.map g := by
    intro α g l
    conv_rhs => rw [← List.zipIdx_map_fst 0 l, List.map_map]
    rw [List.map_map]
    rfl
  exact ⟨hidx _ _, hidx _ _⟩

variable {tx : CTransaction}

theorem checkSpends_loads {nSigOps n : Nat} (hmint : tx.isMint = false)
    (h : (checkSpends params nSigOps tx).Outcome (proofSpec M) c (.ok n, c')) :
    ∀ p, ∀ k ∈ consulted (fun k => decide (M.through c p k ≠ ∅))
      ((proofsOf tx p).map Prod.fst), (c' p k).isSome := by
  simp only [checkSpends, hmint, Bool.false_eq_true, if_false, outcome_bind_ok,
    outcome_lift_ok, haveJoinSplitRequirementsDuplicateProofs, outcome_pure_ok] at h
  obtain ⟨have₁, c₁, h₁, _, _, ⟨-, rfl⟩, have₂, c₂, h₂, _, _, ⟨-, rfl⟩, _, _,
    ⟨spends, c₃, hspends, outputs, c₄, houtputs, -, rfl⟩, outs, c₅, houts, _, _, ⟨-, rfl⟩, -, rfl⟩
    := h
  obtain rfl := proofs_part.of_plain (uses_haveInputs tx) h₁
  obtain rfl := proofs_part.of_plain (uses_haveJoinSplitRequirements tx) h₂
  obtain rfl := proofs_part.of_plain (uses_mapM uses_getOutputFor _) houts
  have hgrows := grows_of_read (uses_noDuplicateProofs _ _) hspends
  intro p
  cases p with
  | spend =>
    intro k hk
    rw [(map_fst_proofsOf tx).1] at hk
    exact (grows_of_read (uses_noDuplicateProofs _ _) houtputs).2 .spend k
      (noDuplicateProofs_loads hspends k hk)
  | output =>
    rw [(map_fst_proofsOf tx).2, ← hgrows.1]
    exact noDuplicateProofs_loads houtputs

variable {nHeight : Nat}

theorem updateCoins_proofs {undo : CTxUndo}
    (h : (updateCoins tx nHeight).Outcome (proofSpec M) c (.ok undo, c')) :
    c' = fun p => (proofsOf tx p).foldl (Loaded.enter true) (c p) := by
  obtain ⟨c₁, c₂, c₃, coins, c₄, hspend, hnf, hzk, hcoins, hmark⟩ := updateCoins_ok h
  obtain rfl := proofs_part.of_on (by decide) (uses_spendInputs tx) hspend
  obtain rfl : c₂ = _ := proofs_part.of_call hnf (by simp [ViewOp.part])
  obtain rfl : c₃ = _ := congrArg Prod.snd (outcome_op.mp hzk)
  obtain rfl : c₄ = _ := proofs_part.of_call hcoins (by simp [ViewOp.part])
  exact proofs_part.of_on (by decide) (uses_markImport tx nHeight) hmark

theorem disconnectTx_proofs {txundo : Option CTxUndo} {clean : Bool}
    (h : (disconnectTx nHeight tx txundo).Outcome (proofSpec M) c (.ok clean, c')) :
    c' = fun p => (proofsOf tx p).foldl (Loaded.enter false) (c p) := by
  obtain ⟨outs, c₁, c₂, c₃, inputsClean, houts, hnf, hzk, hinputs, -⟩ := disconnectTx_ok h
  obtain rfl : c₁ = _ := proofs_part.of_call houts (by simp [ViewOp.part])
  obtain rfl : c₂ = _ := proofs_part.of_call hnf (by simp [ViewOp.part])
  obtain rfl : c₃ = _ := congrArg Prod.snd (outcome_op.mp hzk)
  exact proofs_part.of_on (by decide) (uses_disconnectInputs tx txundo) hinputs

/-- At its turn a transaction has loaded every proof it shares with the chain: by an earlier one
of the block, or by the duplicate check. -/
def LoadsShared (onChain earlier own : List UInt256) : Prop :=
  ∀ k ∈ own, k ∈ onChain →
    k ∈ earlier ∨ k ∈ consulted (fun k => decide (k ∈ onChain ∨ k ∈ earlier)) own

def BlockLoads (p : ProofType) (onChain : List UInt256) :
    List CTransaction → List CTransaction → Prop
  | _, [] => True
  | earlier, tx :: txs =>
    LoadsShared onChain ((proofsIn p earlier).map Prod.fst) ((proofsOf tx p).map Prod.fst) ∧
      BlockLoads p onChain (earlier ++ [tx]) txs

instance (onChain earlier own : List UInt256) : Decidable (LoadsShared onChain earlier own) :=
  List.decidableBAll (fun k => k ∈ onChain →
    k ∈ earlier ∨ k ∈ consulted (fun k => decide (k ∈ onChain ∨ k ∈ earlier)) own) own

instance BlockLoads.decidable (p : ProofType) (onChain : List UInt256) :
    ∀ earlier txs, Decidable (BlockLoads p onChain earlier txs)
  | _, [] => isTrue trivial
  | earlier, tx :: txs =>
    have := BlockLoads.decidable p onChain (earlier ++ [tx]) txs
    inferInstanceAs (Decidable (_ ∧ _))

section
omit [NoteTrees]

theorem proofsIn_append (p : ProofType) (txs txs' : List CTransaction) :
    proofsIn p (txs ++ txs') = proofsIn p txs ++ proofsIn p txs' := flatMap_append

theorem proofsIn_singleton (p : ProofType) (tx : CTransaction) :
    proofsIn p [tx] = proofsOf tx p := by
  simp [proofsIn]

theorem Checked.proofsOf_of_mint
    (h : Checked params tx) (hmint : tx.isMint = true) (p : ProofType) : proofsOf tx p = [] := by
  obtain ⟨-, hspend, hout, -⟩ := h.of_mint hmint
  cases p with
  | spend => simp [proofsOf, hspend]
  | output => simp [proofsOf, hout]

end

omit [NoteTrees] [CryptoHash] in
theorem through_enter {p : ProofType} (h : k ∈ qs.map Prod.fst → M p k ≠ ∅ → (c p k).isSome) :
    (qs.foldl (Loaded.enter true) (c p) k).getD (M p k) = M.through c p k ∪ carriers qs k := by
  rw [foldl_enter]
  by_cases hk : k ∈ qs.map Prod.fst
  · rw [if_pos hk, if_pos rfl, getD_some]
    refine congrArg (· ∪ _) ?_
    cases hc : c p k with
    | some ids => simp [Registry.through, hc]
    | none =>
      have hM : M p k = ∅ := by
        by_contra hne
        simpa [hc] using h hk hne
      simp [Registry.through, hc, hM]
  · rw [if_neg hk, carriers_eq_empty.mpr hk, union_empty]
    rfl

theorem connectTxs_proofs {pindex : CBlockIndex} {i : Nat}
    {st st' : ConnectState} {onChain : ProofType → List UInt256}
    (hchain : ∀ p k, k ∈ onChain p ↔ M p k ≠ ∅) {txs earlier : List CTransaction}
    (hchecked : ∀ tx ∈ txs, Checked params tx)
    (hloads : ∀ p, BlockLoads p (onChain p) earlier txs)
    (hheld : ∀ p, ∀ k ∈ (proofsIn p earlier).map Prod.fst, (c p k).isSome)
    (hearlier : ∀ p k, M.through c p k = M p k ∪ carriers (proofsIn p earlier) k)
    (h : (connectTxs params pindex i st txs).Outcome (proofSpec M) c (.ok st', c')) :
    ∀ p k, M.through c' p k = M p k ∪ carriers (proofsIn p (earlier ++ txs)) k := by
  induction txs generalizing earlier i st c with
  | nil =>
    obtain ⟨-, rfl⟩ := outcome_pure_ok.mp h
    simpa using hearlier
  | cons tx txs ih =>
    obtain ⟨st₁, c₁, htx, hrest⟩ := outcome_bind_ok.mp h
    obtain ⟨htxc, htxsc⟩ := forall_mem_cons.mp hchecked
    obtain ⟨_, c₂, _, _, c₃, _, hspends, -, -, hfees, hupdate, -⟩ := connectTx_ok htx
    have hgrow₁ := grows_of_read (uses_checkSpends params _ tx) hspends
    have hgrow₂ := grows_of_read (uses_connectFees params pindex _ tx _) hfees
    have hthrough : M.through c₃ = M.through c := hgrow₂.1.trans hgrow₁.1
    -- what the transaction shares with the chain is in the cache when it is entered
    have hready : ∀ p, ∀ k ∈ (proofsOf tx p).map Prod.fst, M p k ≠ ∅ → (c₃ p k).isSome := by
      intro p k hk hM
      refine hgrow₂.2 p k ?_
      obtain hold | hnew := (hloads p).1 k hk ((hchain p k).mpr hM)
      · exact hgrow₁.2 p k (hheld p k hold)
      · by_cases hmint : tx.isMint = true
        · rw [htxc.proofsOf_of_mint hmint] at hk
          exact absurd hk (by simp)
        · refine checkSpends_loads (by simpa using hmint) hspends p k ?_
          have hfound : (fun k => decide (M.through c p k ≠ ∅)) = fun k =>
              decide (k ∈ onChain p ∨ k ∈ (proofsIn p earlier).map Prod.fst) := by
            funext k
            rw [decide_eq_decide, hearlier, hchain, Ne, union_eq_empty, not_and_or,
              carriers_eq_empty, not_not]
          rwa [hfound]
    obtain rfl := updateCoins_proofs hupdate
    have happend : earlier ++ tx :: txs = (earlier ++ [tx]) ++ txs := by simp
    rw [happend]
    refine ih htxsc (fun p => (hloads p).2) (fun p k hk => ?_) (fun p k => ?_) hrest
    · rw [foldl_enter]
      by_cases hown : k ∈ (proofsOf tx p).map Prod.fst
      · simp [hown]
      · rw [proofsIn_append, proofsIn_singleton, map_append, mem_append] at hk
        rw [if_neg hown]
        exact hgrow₂.2 p k (hgrow₁.2 p k (hheld p k (hk.resolve_right hown)))
    · rw [proofsIn_append, proofsIn_singleton, carriers_append, ← union_assoc,
        ← hearlier, ← hthrough]
      exact through_enter (hready p k)

theorem disconnectTxs_proofs {txs : List (CTransaction × Option CTxUndo)} {clean : Bool}
    (h : (disconnectTxs nHeight txs).Outcome (proofSpec M) (fun _ _ => none)
      (.ok clean, c')) (p : ProofType) (k : UInt256) :
    c' p k = if k ∈ (proofsIn p (txs.map Prod.fst)).map Prod.fst then some ∅ else none := by
  induction txs generalizing clean c' with
  | nil =>
    obtain ⟨-, rfl⟩ := outcome_pure_ok.mp h
    rfl
  | cons q rest ih =>
    obtain ⟨tx, txundo⟩ := q
    simp only [disconnectTxs, outcome_bind_ok, outcome_pure_ok] at h
    obtain ⟨restClean, c₁, hrest, txClean, _, htx, -, rfl⟩ := h
    have htx := congrFun (congrFun (disconnectTx_proofs htx) p) k
    rw [htx, foldl_enter, ih hrest]
    have hmem : k ∈ (proofsIn p (tx :: rest.map Prod.fst)).map Prod.fst ↔
        k ∈ (proofsOf tx p).map Prod.fst ∨ k ∈ (proofsIn p (rest.map Prod.fst)).map Prod.fst := by
      rw [proofsIn, flatMap_cons, map_append, mem_append]
      rfl
    simp only [List.map_cons, hmem]
    by_cases hown : k ∈ (proofsOf tx p).map Prod.fst
    · have hnone : (if k ∈ (proofsIn p (rest.map Prod.fst)).map Prod.fst then
          some (∅ : Finset ProofId) else none).getD ∅ = ∅ := by
        split <;> rfl
      simp [hown, hnone]
    · simp only [hown, if_false, false_or]

end

/-! ### The effect of a run -/

def registered (chain : List ActiveBlock) : Registry :=
  fun p k => carriers (proofsOnChain p chain) k

omit [NoteTrees] in
theorem registered_cons (b : ActiveBlock) (chain : List ActiveBlock) (p : ProofType) (k : UInt256) :
    registered (b :: chain) p k = carriers (proofsIn p b.block.vtx) k ∪ registered chain p k :=
  carriers_append _ _ k

/-- What keeps registrations: a connected block has loaded what it shares with the chain, and a
disconnected one, for which nothing is loaded, shares nothing. -/
def ChainOp.KeepsProofs (s : ChainState) : ChainOp → Prop
  | .connectTip _ _ block =>
    ∀ p, BlockLoads p ((proofsOnChain p s.chainActive).map Prod.fst) [] block.vtx
  | .disconnectTip _ _ =>
    ∀ b rest, s.chainActive = b :: rest → ∀ p,
      ∀ k ∈ (proofsIn p b.block.vtx).map Prod.fst, k ∉ (proofsOnChain p rest).map Prod.fst
  | .flushStateToDisk => True

/-- The view of the tip registers exactly the chain's carriers. -/
structure RegisteredExactly (s : ChainState) : Prop where
  sound : s.pcoinsTip.Sound
  columns : ∀ p, (proofMerged p).Sound s.pcoinsTip
  plain : ∃ below : ProofType → List (UInt256 → Finset ProofId), (∀ p, below p ≠ []) ∧
    ∀ p, s.pcoinsTip.generations (proofMerged p).plain
      = ⟨registered s.chainActive p, below p⟩

variable {s : ChainState}

theorem RegisteredExactly.connect
    {pindex : CBlockIndex} {block : CBlock} {res : Except Fault (Option CBlockUndo)}
    (hs : RegisteredExactly s)
    (hgenesis : block.hash = params.hashGenesisBlock → block.vtx.length = 1)
    (hloads : ∀ p, BlockLoads p ((proofsOnChain p s.chainActive).map Prod.fst) [] block.vtx)
    (h : inChild (connectBlock params pindex block) s.pcoinsTip = .ok (res, v)) :
    RegisteredExactly
      ⟨v, if res.isOk then ⟨pindex, block⟩ :: s.chainActive else s.chainActive⟩ := by
  obtain ⟨below, hbelow, hplain⟩ := hs.plain
  obtain ⟨c, hout, hcols, hplain'⟩ := inChild_proofs hs.sound hbelow hs.columns hplain h
  have hsound := inChild_sound hs.sound h
  cases res with
  | error e => exact ⟨hsound, hcols, below, hbelow, hplain'⟩
  | ok undo =>
    refine ⟨hsound, hcols, below, hbelow, fun p => ?_⟩
    obtain ⟨coinbase, rest, hvtx, hcb, -, hchecked, -⟩ :=
      checkBlock_eq_ok (connectBlock_ok hout).1
    have hblock : ∀ p k, (registered s.chainActive).through c p k
        = registered s.chainActive p k ∪ carriers (proofsIn p block.vtx) k := by
      have htxs := connectBlock_txs (proofs_part.neutral (by decide) (by decide)) hout
      by_cases hgen : block.hash = params.hashGenesisBlock
      · simp only [hgen, if_true] at htxs
        obtain rfl : rest = [] := by simpa [hvtx] using hgenesis hgen
        have hnone := (hchecked coinbase (by simp [hvtx])).proofsOf_of_mint
          (by simp [CTransaction.isMint, hcb])
        intro p k
        rw [htxs.2, hvtx, proofsIn_singleton, hnone]
        simp [Registry.through]
      · simp only [hgen, if_false] at htxs
        obtain ⟨cheque, oldRoot, st₀, st, -, -, -, -, -, -, htxs, -⟩ := htxs
        refine connectTxs_proofs (fun p k => ?_) hchecked hloads (by simp [proofsIn])
          (by simp [proofsIn, Registry.through]) htxs
        rw [registered, Ne, carriers_eq_empty, not_not]
    refine (hplain' p).trans (congrArg (fun m => Generations.mk m (below p)) ?_)
    funext k
    change (registered s.chainActive).through c p k
      = registered (⟨pindex, block⟩ :: s.chainActive) p k
    rw [hblock, registered_cons, union_comm]

theorem RegisteredExactly.disconnect
    {b : ActiveBlock} {rest : List ActiveBlock} {undo : CBlockUndo} {res : Except Fault Unit}
    (hs : RegisteredExactly s) (hchain : s.chainActive = b :: rest)
    (hown : ∀ p, ∀ k ∈ (proofsIn p b.block.vtx).map Prod.fst,
      k ∉ (proofsOnChain p rest).map Prod.fst)
    (h : inChild (disconnectCleanly params b.pindex b.block undo) s.pcoinsTip
      = .ok (res, v)) : RegisteredExactly ⟨v, if res.isOk then rest else s.chainActive⟩ := by
  obtain ⟨below, hbelow, hplain⟩ := hs.plain
  obtain ⟨c, hout, hcols, hplain'⟩ := inChild_proofs hs.sound hbelow hs.columns hplain h
  have hsound := inChild_sound hs.sound h
  cases res with
  | error e => exact ⟨hsound, hcols, below, hbelow, hplain'⟩
  | ok u =>
    refine ⟨hsound, hcols, below, hbelow, fun p => ?_⟩
    simp only [disconnectCleanly, outcome_bind_ok, outcome_lift_ok] at hout
    obtain ⟨clean, _, hout, -, rfl⟩ := hout
    obtain ⟨undos, hfst, htxs⟩ :=
      disconnectBlock_txs (proofs_part.neutral (by decide) (by decide)) hout
    refine (hplain' p).trans (congrArg (fun m => Generations.mk m (below p)) ?_)
    funext k
    have hc := disconnectTxs_proofs htxs p k
    rw [hfst] at hc
    change (registered s.chainActive).through c p k = registered rest p k
    rw [Registry.through, hc, hchain, registered_cons]
    by_cases hk : k ∈ (proofsIn p b.block.vtx).map Prod.fst
    · rw [if_pos hk, getD_some]
      exact (carriers_eq_empty.mpr (hown p k hk)).symm
    · rw [if_neg hk, getD_none, carriers_eq_empty.mpr hk, empty_union]

theorem RegisteredExactly.flush (hs : RegisteredExactly s) :
    RegisteredExactly { s with pcoinsTip := s.pcoinsTip.flushed } := by
  obtain ⟨below, hbelow, hplain⟩ := hs.plain
  have hflush := fun p => (proofMerged p).flush_spec (hs.columns p)
  refine ⟨hs.sound.flush, fun p => (hflush p).1,
    fun p => registered s.chainActive p :: (below p).tail, fun p => by simp, fun p => ?_⟩
  obtain ⟨a, rest, ha⟩ := exists_cons_of_ne_nil (hbelow p)
  simp [CacheView.flushed, (hflush p).2, hplain p, ha, Generations.flush]

theorem RegisteredExactly.step {op : ChainOp} {s s' : ChainState} (hgenesis : op.GenesisAlone)
    (hop : op.KeepsProofs s) (hs : RegisteredExactly s) (h : op.step s = .ok s') :
    RegisteredExactly s' := by
  cases op with
  | connectTip params pindex block =>
    obtain ⟨res, v, hchild, rfl⟩ := connectTip_ok h
    exact hs.connect hgenesis hop hchild
  | disconnectTip params undo =>
    obtain rfl | ⟨b, rest, blockUndo, res, v, hchain, hchild, rfl⟩ := disconnectTip_ok h
    · exact hs
    · exact hs.disconnect hchain (hop b rest hchain) hchild
  | flushStateToDisk =>
    obtain rfl := flushStateToDisk_ok hs.sound h
    exact hs.flush

theorem RegisteredExactly.initial : RegisteredExactly .initial :=
  ⟨CoinsOp.sound_new {}, fun p => (proofMerged p).coherent_layer_of_empty rfl trivial,
    fun p => [(proofMerged p).plain (.base {})], fun p => by simp, fun p => rfl⟩

/-- The identifiers of a chain's carriers of a proof. -/
def carryingTxids (chain : List ActiveBlock) (p : ProofType) (k : UInt256) : Finset UInt256 :=
  (((chain.flatMap fun b => b.block.vtx).filter
    fun tx => k ∈ (proofsOf tx p).map Prod.fst).map CTransaction.hash).toFinset

omit [NoteTrees] in
theorem image_registered (chain : List ActiveBlock) (p : ProofType) (k : UInt256) :
    (registered chain p k).image Prod.fst = carryingTxids chain p k := by
  have hhash : ∀ {tx : CTransaction} {q}, q ∈ proofsOf tx p → q.2.1 = tx.hash := by
    intro tx q hq
    cases p with
    | spend => obtain ⟨_, _, rfl⟩ := mem_map.mp hq; rfl
    | output => obtain ⟨_, _, rfl⟩ := mem_map.mp hq; rfl
  ext txid
  simp only [registered, carryingTxids, proofsOnChain, proofsIn, Finset.mem_image,
    mem_carriers, List.mem_flatMap, List.mem_toFinset, List.mem_map, List.mem_filter,
    decide_eq_true_eq]
  constructor
  · rintro ⟨i, ⟨b, hb, tx, htx, hq⟩, rfl⟩
    exact ⟨tx, ⟨⟨b, hb, htx⟩, (k, i), hq, rfl⟩, (hhash hq).symm⟩
  · rintro ⟨tx, ⟨⟨b, hb, htx⟩, ⟨_, i⟩, hq, rfl⟩, rfl⟩
    exact ⟨i, ⟨b, hb, tx, htx, hq⟩, hhash hq⟩

/-- **The registry is exact**: `GetZkProofHash` at the tip gives the carriers in the active chain,
in every run that loads what it shares. -/
theorem registered_exactly {ops : List ChainOp} {s : ChainState}
    (hmeet : ChainOp.AllMeet (fun s op => op.GenesisAlone ∧ op.KeepsProofs s) ops .initial)
    (hrun : ChainState.run ops = .ok s) (p : ProofType) (k : UInt256) :
    (s.pcoinsTip.getZkProofHash k p).1
        = (decide (registered s.chainActive p k ≠ ∅), registered s.chainActive p k) ∧
      (s.pcoinsTip.getZkProofHash k p).1.2.image Prod.fst = carryingTxids s.chainActive p k := by
  have hs : RegisteredExactly s := ChainState.run_invariant .initial
    (fun op s s' hop hs h => hs.step hop.1 hop.2 h) hmeet hrun
  obtain ⟨below, -, hplain⟩ := hs.plain
  have hans : ((zkProofHashQuery p k).ask s.pcoinsTip).1 = registered s.chainActive p k := by
    rw [Query.ask_fst, ← (proofColumn_fetch p k s.pcoinsTip.stack).2]
    exact congrFun (congrArg Generations.top (hplain p)) k
  have hget : (s.pcoinsTip.getZkProofHash k p).1
      = (decide (registered s.chainActive p k ≠ ∅), registered s.chainActive p k) := by
    simp only [CacheView.getZkProofHash, hans]
  exact ⟨hget, by rw [hget, image_registered]⟩

end

end

section

local instance proofTrees : NoteTrees := listTrees

local instance proofHash : CryptoHash :=
  ⟨fun bytes => bytes.foldl (fun h b => 257 * h + BitVec.ofNat 256 b.toNat + 1) 1, fun _ => 0⟩

def saplingChain : ConsensusParams := { smallChain with saplingActive := fun h => 1 ≤ h }

def shieldedTx (hash nullifier cmu : UInt256) (spendProof outputProof : GrothProof) :
    CTransaction where
  hash := hash
  fOverwintered := true
  nVersion := 4
  nVersionGroupId := 0x892F2085
  vin := []
  vout := []
  vShieldedSpend :=
    [{ anchor := emptyRoot .sapling, nullifier := nullifier, zkproof := spendProof }]
  vShieldedOutput := [{ cmu := cmu, zkproof := outputProof }]

def sharedProof : List ChainOp :=
  let root₁ := listTrees.root (t := .sapling) [5]
  let root₂ := listTrees.root (t := .sapling) [5, 6]
  let first : CBlockIndex := ⟨2, 1, 0, root₁, some genesisIndex⟩
  [connectGenesis,
    .connectTip saplingChain first
      ⟨2, 0, root₁, [coinbaseTx 41, shieldedTx 51 7 5 [1] [9]]⟩,
    .connectTip saplingChain ⟨3, 2, 0, root₂, some first⟩
      ⟨3, 0, root₂, [coinbaseTx 42, shieldedTx 52 8 6 [2] [9]]⟩]

/-- The second block finds the shared proof loaded; the registry names both. -/
theorem registered_exactly_sharedProof :
    ChainOp.AllMeet (fun s op => op.GenesisAlone ∧ op.KeepsProofs s) sharedProof .initial ∧
      ∃ s, ChainState.run sharedProof = .ok s ∧
        (s.pcoinsTip.getZkProofHash (CryptoHash.Hash [9]) .output).1.2 = {(51, 0), (52, 0)} := by
  have hmeet : ChainOp.AllMeet (fun s op => op.GenesisAlone ∧ op.KeepsProofs s) sharedProof
      .initial := by
    refine ⟨⟨fun _ => rfl, fun p => by cases p <;> decide⟩, fun s₁ h₁ => ?_⟩
    obtain rfl := ok.inj h₁
    refine ⟨⟨fun h => absurd h (by decide), fun p => by cases p <;> decide⟩, fun s₂ h₂ => ?_⟩
    obtain rfl := ok.inj h₂
    exact ⟨⟨fun h => absurd h (by decide), fun p => by cases p <;> decide⟩, fun s₃ h₃ => trivial⟩
  obtain ⟨s, hrun, hids⟩ : ∃ s, ChainState.run sharedProof = .ok s ∧
      registered s.chainActive .output (CryptoHash.Hash [9]) = {(51, 0), (52, 0)} := by
    refine ⟨_, rfl, ?_⟩
    decide
  refine ⟨hmeet, s, hrun, ?_⟩
  rw [(registered_exactly hmeet hrun .output (CryptoHash.Hash [9])).1, hids]

/-- The second of two blocks sharing a proof is disconnected: the first still carries it, but its
registration is gone. -/
theorem disconnect_drops_registration : ∃ s, ChainState.run (sharedProof ++
        [.disconnectTip saplingChain (some ⟨[⟨[]⟩], emptyRoot .sprout⟩)]) = .ok s ∧
      (51, 0) ∈ registered s.chainActive .output (CryptoHash.Hash [9]) ∧
      (s.pcoinsTip.getZkProofHash (CryptoHash.Hash [9]) .output).1 = (false, ∅) := by
  refine ⟨_, rfl, ?_, ?_⟩
  · decide
  · decide

end

end Elosys
