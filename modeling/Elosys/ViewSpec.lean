import Elosys.NullifierRefinement
import Elosys.ViewProgram

/-!
# What Programs See of a Coins View

The methods of a view fall into parts that do not touch each other's data. What they do to the
plain coins and nullifiers of the refinement theorems, and that a stack of caches is simulated by
these.
-/

open AssocBatch LayerStack Program

namespace Elosys

open CacheView CoinsColumn View

variable [NoteTrees]

/-! ### Frames -/

def CCoinsViewCache.forget (l : CCoinsViewCache) : ViewPart → CCoinsViewCache
  | .coins => { l with cacheCoins := ∅, hasModifier := false }
  | .anchors => { l with cacheAnchors := fun _ => ∅, hashAnchor := fun _ => UInt256.null }
  | .nullifiers => { l with cacheNullifiers := fun _ => ∅ }
  | .proofs => { l with cacheZkProofHash := fun _ => ∅ }
  | .bestBlock => { l with hashBlock := UInt256.null }

def View.forget (v : View) (part : ViewPart) : View :=
  v.map id fun l => l.forget part

variable {part : ViewPart}

theorem View.forget_fetch {R : Type} (q : Query CCoinsViewDB CCoinsViewCache R)
    (h : ∀ r l, CCoinsViewCache.forget (q.fill r l) part = l.forget part) (v : View) :
    View.forget (q.fetch v).2 part = v.forget part :=
  map_fetch_of_frame id (fun l : CCoinsViewCache => l.forget part) q h v

theorem View.forget_ask {R : Type} (q : Query CCoinsViewDB CCoinsViewCache R)
    (h : ∀ r l, CCoinsViewCache.forget (q.fill r l) part = l.forget part) (v : CacheView) :
    View.forget (q.ask v).2.stack part = View.forget v.stack part := by
  rw [Query.stack_ask]
  exact forget_fetch q h v.stack

theorem View.forget_workEntry (txid : UInt256) (v : CacheView) :
    View.forget (CacheView.workEntry txid v).2 .coins = View.forget v.base .coins := by
  rw [CacheView.workEntry]
  cases v.top.cacheCoins.lookup txid with
  | some e => rfl
  | none =>
    refine forget_fetch (coinsQuery txid) (fun r l => ?_) v.base
    cases r <;> rfl

theorem View.forget_pushAnchor (t : ShieldedType) (tree : Tree t) (v : CacheView) :
    View.forget (pushAnchor t tree v).stack .anchors = View.forget v.stack .anchors := by
  have hask : View.forget (getBestAnchor t v).2.stack .anchors = _ :=
    forget_ask (bestAnchorQuery t) (fun r l => rfl) v
  unfold pushAnchor
  generalize getBestAnchor t v = q at hask ⊢
  obtain ⟨cur, w⟩ := q
  rw [← hask]
  by_cases hcur : cur = root tree
  · simp [hcur]
  · simp only [hcur, if_false]
    rfl

theorem View.forget_popAnchor (t : ShieldedType) (newrt : UInt256) {v v' : CacheView}
    (h : popAnchor t newrt v = .ok v') :
    View.forget v'.stack .anchors = View.forget v.stack .anchors := by
  have hask : View.forget (getBestAnchor t v).2.stack .anchors = _ :=
    forget_ask (bestAnchorQuery t) (fun r l => rfl) v
  unfold popAnchor at h
  generalize getBestAnchor t v = q at hask h
  obtain ⟨cur, w⟩ := q
  rw [← hask]
  by_cases hcur : cur = newrt
  · simp only [hcur, if_true] at h
    rw [← Except.ok.inj h]
  · simp only [hcur, if_false] at h
    have hread : View.forget (getAnchorAt t cur w).2.stack .anchors
        = View.forget w.stack .anchors := by
      refine forget_ask (anchorQuery t cur) (fun r l => ?_) w
      cases r <;> rfl
    generalize getAnchorAt t cur w = q at hread h
    obtain ⟨_ | tree, w'⟩ := q
    · exact absurd h (by simp)
    · rw [← hread, ← Except.ok.inj h]
      rfl

/-- **Frame**: a method leaves the data of the other parts alone, in every cache. -/
theorem viewHandler_frame [CryptoHash] (o : ViewOp) (v : CacheView) :
    View.forget (viewHandler o v).2.stack o.part = View.forget v.stack o.part := by
  cases o with
  | getCoins txid =>
    refine forget_ask (coinsQuery txid) (fun r l => ?_) v
    cases r <;> rfl
  | modifyCoins txid edit =>
    cases hm : v.top.hasModifier with
    | true =>
      simp [viewHandler, modifyCoinsWith, CacheView.modifyCoins, hm, settle, bind, Except.bind]
    | false =>
      simp only [viewHandler, modifyCoinsWith_eq txid edit hm, settle]
      exact congrArg (LayerStack.layer _) (forget_workEntry txid v)
  | getAnchorAt t rt =>
    refine forget_ask (anchorQuery t rt) (fun r l => ?_) v
    cases r <;> rfl
  | getNullifier nf type =>
    cases type with
    | sprout => exact forget_ask (nullifierQuery .sprout nf) (fun r l => rfl) v
    | sapling => exact forget_ask (nullifierQuery .sapling nf) (fun r l => rfl) v
    | saplingFrontier => rfl
  | getZkProofHash h p => exact forget_ask (zkProofHashQuery p h) (fun r l => rfl) v
  | getBestBlock => exact forget_ask bestBlockQuery (fun r l => rfl) v
  | getBestAnchor t => exact forget_ask (bestAnchorQuery t) (fun r l => rfl) v
  | pushAnchor t tree => exact forget_pushAnchor t tree v
  | popAnchor t newrt =>
    cases hpop : popAnchor t newrt v with
    | error e => simp [viewHandler, hpop, settle, Except.map]
    | ok v' =>
      simp only [viewHandler, hpop, settle, Except.map]
      exact forget_popAnchor t newrt hpop
  | setNullifiers tx spent => rfl
  | setZkProofHashes tx addTx => rfl
  | setBestBlock h => rfl

theorem View.map_forget {D' L' : Type} (f : CCoinsViewDB → D') (g : CCoinsViewCache → L')
    (hg : ∀ l : CCoinsViewCache, g (l.forget part) = g l) (v : View) :
    (v.forget part).map f g = v.map f g := by
  induction v with
  | base d => rfl
  | layer l b ih => exact congrArg₂ LayerStack.layer (hg l) ih

variable {o : ViewOp}

theorem map_viewHandler [CryptoHash] {D' L' : Type} (f : CCoinsViewDB → D')
    (g : CCoinsViewCache → L')
    (hg : ∀ l : CCoinsViewCache, g (l.forget o.part) = g l) (v : CacheView) :
    (viewHandler o v).2.stack.map f g = v.stack.map f g := by
  rw [← map_forget f g hg, viewHandler_frame, map_forget f g hg]

/-! ### Coins -/

/-- What the methods do to the plain coins: a read gives them up to pruned records, an edit sees
them or an empty one. -/
def coinsSpec : Spec viewSig Fault (UInt256 → Option CCoins)
  | .getCoins txid, m, res =>
    ∃ r : Option CCoins, res = (.ok r, m) ∧ r.bind CCoins.present = m txid
  | .modifyCoins txid edit, m, res =>
    ∃ c : CCoins, Shows (m txid) c ∧
      res = (.ok c, Function.update m txid (edit c).cleanup.present)
  | _, m, res => res.2 = m

theorem coins_part : PartSpec .coins coinsSpec where
  other o ho m res h := by
    cases o <;> first | exact h | exact absurd rfl ho
  plainRead o ho m res h := by
    cases o with
    | getCoins txid =>
      obtain ⟨r, rfl, -⟩ := h
      rfl
    | modifyCoins txid edit => exact absurd ho (by simp [ViewOp.PlainRead])
    | _ => exact h

/-- A stack stands for plain coins, over fixed ones. -/
def CoinsRel (below : List (UInt256 → Option CCoins)) (v : CacheView)
    (m : UInt256 → Option CCoins) : Prop :=
  v.Sound ∧ v.coinsGenerations = ⟨m, below⟩

theorem View.Idle.congr {v v' : View}
    (h : v'.map id CCoinsViewCache.hasModifier = v.map id CCoinsViewCache.hasModifier)
    (hv : v.Idle) : v'.Idle := by
  induction v generalizing v' with
  | base d =>
    cases v' with
    | base d' => trivial
    | layer l' b' => exact absurd h (by simp)
  | layer l b ih =>
    cases v' with
    | base d' => exact absurd h (by simp)
    | layer l' b' =>
      obtain ⟨hl, hb⟩ := LayerStack.layer.inj h
      exact ⟨hl.trans hv.1, ih hb hv.2⟩

variable {v : CacheView}

theorem CoinsRel.frame [CryptoHash] {below : List (UInt256 → Option CCoins)}
    {m : UInt256 → Option CCoins} (h : CoinsRel below v m)
    (ho : o.part ≠ .coins) : CoinsRel below (viewHandler o v).2 m := by
  have hcol : coinsColumn (viewHandler o v).2.stack = coinsColumn v.stack := by
    refine map_viewHandler _ _ (fun l => ?_) v
    cases hp : o.part <;> first | rfl | exact absurd hp ho
  have hmod : (viewHandler o v).2.stack.map id CCoinsViewCache.hasModifier
      = v.stack.map id CCoinsViewCache.hasModifier := by
    refine map_viewHandler _ _ (fun l => ?_) v
    cases hp : o.part <;> first | rfl | exact absurd hp ho
  refine ⟨⟨h.1.idle.congr hmod, hcol ▸ h.1.flagged⟩, ?_⟩
  rw [← h.2]
  exact coinsGenerations_congr (congrArg _ hcol)

theorem coins_simulates [CryptoHash] (below : List (UInt256 → Option CCoins)) :
    Simulates (CoinsRel below) viewHandler.spec coinsSpec := by
  rintro o v m res h rfl
  by_cases ho : o.part = .coins
  · cases o with
    | getCoins txid =>
      obtain ⟨hs, hg⟩ := getCoins_snd txid h.1
      refine ⟨m, ⟨(CacheView.getCoins txid v).1, rfl, ?_⟩, hs, hg.trans h.2⟩
      rw [getCoins_fst, h.2]
    | modifyCoins txid edit =>
      obtain ⟨c, v', heq, hs, hshows, hg⟩ := modifyCoinsWith_spec txid edit h.1
      rw [h.2] at hshows hg
      refine ⟨Function.update m txid (edit c).cleanup.present, ⟨c, hshows, ?_⟩, ?_⟩
      · simp only [viewHandler, heq, settle]
      · simp only [viewHandler, heq, settle]
        exact ⟨hs, hg⟩
    | _ => exact absurd ho (by simp [ViewOp.part])
  · refine ⟨m, ?_, h.frame ho⟩
    cases o <;> first | rfl | exact absurd rfl ho

/-! ### Nullifiers -/

/-- What the methods do to the plain nullifier sets. -/
def nullifierSpec : Spec viewSig Fault (NullifierSet → UInt256 → Bool)
  | .getNullifier nf .sprout, m, res => res = (.ok (m .sprout nf), m)
  | .getNullifier nf .sapling, m, res => res = (.ok (m .sapling nf), m)
  | .setNullifiers tx spent, m, res =>
    res = (.ok (), fun s => setAll (nullifiersOf tx s) spent (m s))
  | _, m, res => res.2 = m

theorem nullifiers_part : PartSpec .nullifiers nullifierSpec where
  other o ho m res h := by
    cases o <;> first | exact h | exact absurd rfl ho
  plainRead o ho m res h := by
    cases o with
    | getNullifier nf type =>
      cases type with
      | sprout => rw [show res = (.ok (m .sprout nf), m) from h]
      | sapling => rw [show res = (.ok (m .sapling nf), m) from h]
      | saplingFrontier => exact h
    | setNullifiers tx spent => exact absurd ho (by simp [ViewOp.PlainRead])
    | _ => exact h

/-- A stack stands for nullifier sets, over fixed ones. -/
def NullifierRel (below : NullifierSet → List (UInt256 → Bool)) (v : CacheView)
    (m : NullifierSet → UInt256 → Bool) : Prop :=
  v.NullifiersSound ∧ ∀ s, v.nullifierGenerations s = ⟨m s, below s⟩

theorem NullifierRel.frame [CryptoHash] {below : NullifierSet → List (UInt256 → Bool)}
    {m : NullifierSet → UInt256 → Bool} (h : NullifierRel below v m) (ho : o.part ≠ .nullifiers) :
    NullifierRel below (viewHandler o v).2 m := by
  have hcol : ∀ s, nullifierColumn s (viewHandler o v).2.stack = nullifierColumn s v.stack := by
    intro s
    refine map_viewHandler _ _ (fun l => ?_) v
    cases hp : o.part <;> first | rfl | exact absurd hp ho
  refine ⟨fun s => hcol s ▸ h.1 s, fun s => ?_⟩
  rw [← h.2 s]
  refine Tip.generations_congr ?_
  rw [levels_plainNullifiers, levels_plainNullifiers, hcol s]

theorem NullifierRel.ask {below : NullifierSet → List (UInt256 → Bool)}
    {m : NullifierSet → UInt256 → Bool} (h : NullifierRel below v m) (s : NullifierSet)
    (nf : UInt256) :
    ((nullifierQuery s nf).ask v).1 = m s nf ∧
      NullifierRel below ((nullifierQuery s nf).ask v).2 m := by
  obtain ⟨hsound, hg⟩ := nullifierQuery_spec s nf h.1
  refine ⟨?_, hsound, fun s' => (hg s').trans (h.2 s')⟩
  rw [Query.ask_fst, ← (nullifierColumn_fetch s nf v.stack).2]
  exact congrFun (congrArg Generations.top (h.2 s)) nf

theorem nullifiers_simulates [CryptoHash] (below : NullifierSet → List (UInt256 → Bool)) :
    Simulates (NullifierRel below) viewHandler.spec nullifierSpec := by
  rintro o v m res h rfl
  by_cases ho : o.part = .nullifiers
  · cases o with
    | getNullifier nf type =>
      cases type with
      | sprout =>
        obtain ⟨hans, hrel⟩ := h.ask .sprout nf
        exact ⟨m, Prod.ext (congrArg Except.ok hans) rfl, hrel⟩
      | sapling =>
        obtain ⟨hans, hrel⟩ := h.ask .sapling nf
        exact ⟨m, Prod.ext (congrArg Except.ok hans) rfl, hrel⟩
      | saplingFrontier => exact ⟨m, rfl, h⟩
    | setNullifiers tx spent =>
      refine ⟨_, rfl, fun s => ?_, fun s => ?_⟩
      · exact (nullifierColumn_setNullifiers tx spent s (h.1 s)).1
      · have hset := (nullifierColumn_setNullifiers tx spent s (h.1 s)).2
        have htop : plainNullifiers s v.stack = m s := congrArg Generations.top (h.2 s)
        rw [htop] at hset
        have hbelow : levels (plainNullifiers s) v.base = below s :=
          congrArg Generations.below (h.2 s)
        exact congrArg₂ Generations.mk hset hbelow
    | _ => exact absurd ho (by simp [ViewOp.part])
  · refine ⟨m, ?_, h.frame ho⟩
    cases o <;> first | rfl | exact absurd rfl ho

end Elosys
