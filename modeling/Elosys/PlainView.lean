import Elosys.AnchorRefinement
import Elosys.ViewSpec

/-!
# A Coins View as What It Answers

What a coins view answers, as one record: coins, nullifiers, visible anchors with the best of each
kind, and the best block. The methods change that record, and a stack of caches is simulated by
it, with failures ruled out.
-/

open AssocBatch LayerStack Program Function Prod

namespace Elosys

open CacheView CoinsColumn View

/-! ### Anchors of one kind -/

/-- What a view shows of the anchors of one kind. -/
@[ext] structure AnchorFace where
  visible : UInt256 → Bool
  best : UInt256

namespace AnchorFace

variable {f : AnchorFace} {r : UInt256}

/-- The effect of `PushAnchor`. -/
def push (f : AnchorFace) (r : UInt256) : AnchorFace :=
  if f.best = r then f else ⟨update f.visible r true, r⟩

/-- The effect of `PopAnchor`. -/
def pop (f : AnchorFace) (newrt : UInt256) : AnchorFace :=
  if f.best = newrt then f else ⟨update f.visible f.best false, newrt⟩

theorem pop_push (h : r = f.best ∨ f.visible r = false) : (f.push r).pop f.best = f := by
  by_cases hr : f.best = r
  · simp [push, pop, hr]
  · have hvis : f.visible r = false := h.resolve_left fun h => hr h.symm
    have hback : update (update f.visible r true) r false = f.visible := by
      rw [update_idem, ← hvis, update_eq_self]
    simp [push, pop, hr, Ne.symm hr, hback]

theorem visible_push (h : f.visible f.best = true) (r : UInt256) :
    (f.push r).visible (f.push r).best = true := by
  by_cases hr : f.best = r
  · rw [push, if_pos hr, h]
  · simp [push, hr]

end AnchorFace

/-! ### The answers of a view -/

/-- What a coins view answers. -/
@[ext] structure PlainView where
  coins : UInt256 → Option CCoins
  nullifiers : NullifierSet → UInt256 → Bool
  anchors : ShieldedType → AnchorFace
  bestBlock : UInt256

section

variable [NoteTrees]

variable (v : CacheView)

/-- What a stack's readers return; pruned coins are absent. -/
def CacheView.answers : PlainView where
  coins txid := (v.getCoins txid).1.bind CCoins.present
  nullifiers s nf := ((nullifierQuery s nf).ask v).1
  anchors t := ⟨fun rt => (v.getAnchorAt t rt).1.isSome, (v.getBestAnchor t).1⟩
  bestBlock := v.getBestBlock.1

/-- A stack's invariant between operations. -/
structure CacheView.AllSound (v : CacheView) : Prop where
  coins : v.Sound
  nullifiers : v.NullifiersSound
  anchors : AnchorsSound v.stack

def View.anchorFaces (v : View) (t : ShieldedType) : AnchorFace :=
  ⟨View.visible t v, (BestHash.anchor t).best v⟩

theorem answers_coins : v.answers.coins = plainCoins v.stack :=
  funext fun txid => getCoins_fst txid v

theorem answers_nullifiers (s : NullifierSet) :
    v.answers.nullifiers s = plainNullifiers s v.stack := by
  funext nf
  change ((nullifierQuery s nf).ask v).1 = _
  rw [Query.ask_fst, ← (nullifierColumn_fetch s nf v.stack).2]
  rfl

theorem answers_anchors : v.answers.anchors = View.anchorFaces v.stack := by
  funext t
  refine AnchorFace.ext (funext fun rt => ?_) (BestHash.getBest_fst (.anchor t) v)
  change (v.getAnchorAt t rt).1.isSome = _
  rw [getAnchorAt, Query.ask_fst, ← (anchorColumn_fetch t _ _).2]
  rfl

theorem answers_bestBlock : v.answers.bestBlock = BestHash.block.best v.stack :=
  BestHash.getBest_fst .block v

/-! ### Anchors and the best block under the methods -/

/-- What the methods do to a view's anchors. Null roots, which a cache takes for "not known here",
are not described. -/
def anchorSpec : Spec viewSig Fault (ShieldedType → AnchorFace)
  | .getAnchorAt t rt, f, res =>
    ∃ r : Option (Tree t), res = (.ok r, f) ∧ r.isSome = (f t).visible rt ∧
      ∀ tree, r = some tree → root tree = rt
  | .getBestAnchor t, f, res => res = (.ok (f t).best, f)
  | .pushAnchor t tree, f, res =>
    root tree ≠ UInt256.null →
      res = (.ok (), update f t ((f t).push (root tree)))
  | .popAnchor t newrt, f, res =>
    newrt ≠ UInt256.null → (f t).visible (f t).best = true →
      res = (.ok (), update f t ((f t).pop newrt))
  | _, f, res => res.2 = f

def bestBlockSpec : Spec viewSig Fault UInt256
  | .getBestBlock, h, res => res = (.ok h, h)
  | .setBestBlock h', _, res => h' ≠ UInt256.null → res = (.ok (), h')
  | _, h, res => res.2 = h

def registerSpec : Spec viewSig Fault Unit
  | .setZkProofHashes _ _, _, res => res.1 = .ok ()
  | _, _, _ => True

def plainSpec : Spec viewSig Fault PlainView := fun o s res =>
  coinsSpec o s.coins (res.1, res.2.coins) ∧
    nullifierSpec o s.nullifiers (res.1, res.2.nullifiers) ∧
    anchorSpec o s.anchors (res.1, res.2.anchors) ∧
    bestBlockSpec o s.bestBlock (res.1, res.2.bestBlock) ∧ registerSpec o () (res.1, ())

theorem anchorFaces_write {t : ShieldedType} {rt newbest : UInt256}
    {e : CAnchorsCacheEntry (Tree t)} {v w : CacheView} (hsame : SameAnchors v w)
    (hd : e.dirty = true) (hn : newbest ≠ UInt256.null) :
    View.anchorFaces (writeAnchor t rt e newbest w).stack = update (View.anchorFaces v.stack) t
          ⟨update (View.visible t v.stack) rt e.entered, newbest⟩ := by
  funext t'
  have hvis : View.visible t' (writeAnchor t rt e newbest w).stack
      = if t' = t then update (View.visible t' w.stack) rt e.entered
        else View.visible t' w.stack :=
    congrArg Generations.top (writeAnchor_visible hsame.anchors hd t')
  have hbest : (BestHash.anchor t').best (writeAnchor t rt e newbest w).stack
      = if t' = t then newbest else (BestHash.anchor t').best w.stack :=
    congrArg Generations.top (writeAnchor_best hn w t')
  have hvis' : View.visible t' w.stack = View.visible t' v.stack :=
    congrArg Generations.top (hsame.visible t')
  have hbest' : (BestHash.anchor t').best w.stack = (BestHash.anchor t').best v.stack :=
    congrArg Generations.top (hsame.best t')
  rw [hvis'] at hvis
  rw [hbest'] at hbest
  by_cases ht : t' = t
  · subst ht
    rw [if_pos rfl] at hvis hbest
    rw [update_self]
    exact AnchorFace.ext hvis hbest
  · rw [if_neg ht] at hvis hbest
    rw [update_of_ne ht]
    exact AnchorFace.ext hvis hbest

theorem anchorFaces_same {v w : CacheView} (h : SameAnchors v w) :
    View.anchorFaces w.stack = View.anchorFaces v.stack :=
  funext fun t => AnchorFace.ext (congrArg Generations.top (h.visible t))
    (congrArg Generations.top (h.best t))

/-! ### The caches follow -/

variable (s : PlainView)

section

variable [CryptoHash]

theorem anchors_frame {o : ViewOp} {v : CacheView} (ho : o.part ≠ .anchors)
    (h : AnchorsSound v.stack) :
    AnchorsSound (viewHandler o v).2.stack ∧
      View.anchorFaces (viewHandler o v).2.stack = View.anchorFaces v.stack := by
  have hcol : ∀ t, anchorColumn t (viewHandler o v).2.stack = anchorColumn t v.stack := by
    intro t
    refine map_viewHandler _ _ (fun l => ?_) v
    cases hp : o.part <;> first | rfl | exact absurd hp ho
  have hbest : ∀ t, (BestHash.anchor t).best (viewHandler o v).2.stack
      = (BestHash.anchor t).best v.stack := by
    intro t
    refine BestHash.best_congr _ (map_viewHandler _ _ (fun l => ?_) v)
    cases hp : o.part <;> first | rfl | exact absurd hp ho
  refine ⟨⟨fun t => hcol t ▸ h.coherent t, fun t => hcol t ▸ h.rooted t⟩, ?_⟩
  funext t
  refine AnchorFace.ext ?_ (hbest t)
  exact congrArg (anchorKind (Tree t)).view (hcol t)

theorem anchors_follow (o : ViewOp) {v : CacheView} (hs : v.Sound) (h : AnchorsSound v.stack) :
    AnchorsSound (viewHandler o v).2.stack ∧ anchorSpec o (View.anchorFaces v.stack)
        ((viewHandler o v).1, View.anchorFaces (viewHandler o v).2.stack) := by
  by_cases ho : o.part = .anchors
  · cases o with
    | getAnchorAt t rt =>
      have hsame := getAnchorAt_spec t rt hs h
      refine ⟨hsame.anchors, (CacheView.getAnchorAt t rt v).1, ?_, ?_, fun tree htree => ?_⟩
      · exact Prod.ext rfl (anchorFaces_same hsame)
      · exact congrArg (fun f => (f t).visible rt) (answers_anchors v)
      · rw [CacheView.getAnchorAt, Query.ask_fst, ← (anchorColumn_fetch t _ _).2] at htree
        exact (h.rooted t).root_of_peek htree
    | getBestAnchor t =>
      have hsame := getBestAnchor_spec t hs h
      refine ⟨hsame.anchors, Prod.ext ?_ (anchorFaces_same hsame)⟩
      exact congrArg Except.ok (BestHash.getBest_fst (.anchor t) v)
    | pushAnchor t tree =>
      simp only [viewHandler]
      obtain ⟨w, hsame, ⟨heq, hw⟩ | ⟨hne, hw⟩⟩ := pushAnchor_cases tree hs h
      · rw [hw]
        refine ⟨hsame.anchors, fun _ => Prod.ext rfl ?_⟩
        have hpush : (View.anchorFaces v.stack t).push (root tree)
            = View.anchorFaces v.stack t := if_pos heq
        rw [hpush, Function.update_eq_self]
        exact anchorFaces_same hsame
      · rw [hw]
        refine ⟨(writeAnchor_sound (e := ⟨true, tree, true⟩) hsame.sound hsame.anchors
          rfl rfl).2, fun hnull => Prod.ext rfl ?_⟩
        have hpush : (View.anchorFaces v.stack t).push (root tree) = _ := if_neg hne
        rw [hpush]
        exact anchorFaces_write hsame rfl hnull
    | popAnchor t newrt =>
      obtain ⟨w, hsame, heq, hw⟩ | ⟨w, e, hsame, hne, hroot, hw⟩ | ⟨hvis, e, hw⟩ :=
        popAnchor_cases t newrt hs h
      · simp only [viewHandler, hw, Except.map, settle]
        refine ⟨hsame.anchors, fun _ _ => Prod.ext rfl ?_⟩
        have hpop : (View.anchorFaces v.stack t).pop newrt
            = View.anchorFaces v.stack t := if_pos heq
        rw [hpop, Function.update_eq_self]
        exact anchorFaces_same hsame
      · simp only [viewHandler, hw, Except.map, settle]
        refine ⟨(writeAnchor_sound (e := { e with entered := false, dirty := true })
          hsame.sound hsame.anchors rfl hroot).2, fun hnull _ => Prod.ext rfl ?_⟩
        have hpop : (View.anchorFaces v.stack t).pop newrt = _ := if_neg hne
        rw [hpop]
        exact anchorFaces_write hsame rfl hnull
      · simp only [viewHandler, hw, Except.map, settle]
        refine ⟨h, fun _ hvis' => ?_⟩
        rw [show (View.anchorFaces v.stack t).visible (View.anchorFaces v.stack t).best
          = false from hvis] at hvis'
        exact absurd hvis' (by simp)
    | _ => exact absurd ho (by simp [ViewOp.part])
  · obtain ⟨hsound, hface⟩ := anchors_frame ho h
    refine ⟨hsound, ?_⟩
    rw [hface]
    cases o <;> first | rfl | exact absurd rfl ho

theorem bestBlock_follows (o : ViewOp) (v : CacheView) :
    bestBlockSpec o (BestHash.block.best v.stack)
      ((viewHandler o v).1, BestHash.block.best (viewHandler o v).2.stack) := by
  by_cases ho : o.part = .bestBlock
  · cases o with
    | getBestBlock =>
      refine Prod.ext (congrArg Except.ok (BestHash.getBest_fst .block v)) ?_
      exact congrArg Generations.top (Tip.generations_congr
        (BestHash.levels_best_getBest .block .block v))
    | setBestBlock h =>
      intro hnull
      refine Prod.ext rfl ?_
      simp [viewHandler, setBestBlock, Tip.stack, BestHash.best_layer, BestHash.held, hnull]
    | _ => exact absurd ho (by simp [ViewOp.part])
  · have hframe : BestHash.block.best (viewHandler o v).2.stack = BestHash.block.best v.stack := by
      refine BestHash.best_congr _ (map_viewHandler _ _ (fun l => ?_) v)
      cases hp : o.part <;> first | rfl | exact absurd hp ho
    rw [hframe]
    cases o <;> first | rfl | exact absurd rfl ho

def PlainRel : Prop := v.AllSound ∧ v.answers = s

theorem plain_simulates : Simulates PlainRel viewHandler.spec plainSpec := by
  rintro o v s res ⟨hv, rfl⟩ rfl
  obtain ⟨m, hcoins, hcsound, hm⟩ := coins_simulates v.coinsGenerations.below o v
    v.coinsGenerations.top _ ⟨hv.coins, rfl⟩ rfl
  obtain ⟨n, hnull, hnsound, hn⟩ := nullifiers_simulates
    (fun s => (v.nullifierGenerations s).below) o v (fun s => (v.nullifierGenerations s).top) _
    ⟨hv.nullifiers, fun s => rfl⟩ rfl
  obtain ⟨hasound, hanchors⟩ := anchors_follow o hv.coins hv.anchors
  refine ⟨(viewHandler o v).2.answers, ⟨?_, ?_, ?_, ?_, ?_⟩, ⟨hcsound, hnsound, hasound⟩, rfl⟩
  · rw [answers_coins, answers_coins]
    rwa [show m = plainCoins (viewHandler o v).2.stack from
      (congrArg Generations.top hm).symm] at hcoins
  · rw [funext (answers_nullifiers v), funext (answers_nullifiers (viewHandler o v).2)]
    rwa [show n = fun s => plainNullifiers s (viewHandler o v).2.stack from
      funext fun s => (congrArg Generations.top (hn s)).symm] at hnull
  · rwa [answers_anchors, answers_anchors]
  · rw [answers_bestBlock, answers_bestBlock]
    exact bestBlock_follows o v
  · cases o <;> first | rfl | trivial

end

/-! ### Part by part -/

theorem anchors_part : PartSpec .anchors anchorSpec where
  other o ho f res h := by
    cases o <;> first | exact h | exact absurd rfl ho
  plainRead o ho f res h := by
    cases o with
    | getAnchorAt t rt =>
      obtain ⟨r, rfl, -⟩ := h
      rfl
    | getBestAnchor t => rw [show res = (.ok (f t).best, f) from h]
    | pushAnchor t tree => exact absurd ho (by simp [ViewOp.PlainRead])
    | popAnchor t newrt => exact absurd ho (by simp [ViewOp.PlainRead])
    | _ => exact h

section

variable {α : Type} {p : ViewProg α} {s s' : PlainView} {r : Except Fault α}

section

variable (h : p.Outcome plainSpec s (r, s'))

include h

theorem outcome_coins : p.Outcome coinsSpec s.coins (r, s'.coins) :=
  outcome_proj (fun _ _ _ h => h.1) h

theorem outcome_nullifiers : p.Outcome nullifierSpec s.nullifiers (r, s'.nullifiers) :=
  outcome_proj (fun _ _ _ h => h.2.1) h

theorem outcome_anchors : p.Outcome anchorSpec s.anchors (r, s'.anchors) :=
  outcome_proj (fun _ _ _ h => h.2.2.1) h

theorem outcome_bestBlock : p.Outcome bestBlockSpec s.bestBlock (r, s'.bestBlock) :=
  outcome_proj (fun _ _ _ h => h.2.2.2.1) h

end

end

/-! ### Method by method -/

theorem ensures_modifyCoins (txid : UInt256) (edit : CCoins → CCoins) :
    (ViewProg.modifyCoins txid edit).Ensures plainSpec s fun c s' =>
      Shows (s.coins txid) c ∧
        s' = { s with coins := update s.coins txid (edit c).cleanup.present } := by
  rintro ⟨r, s'⟩ h
  obtain ⟨⟨c, hshows, hres⟩, hn, ha, hb, -⟩ := outcome_op.mp h
  obtain ⟨rfl, hc⟩ := mk.inj hres
  exact ⟨c, s', rfl, hshows, PlainView.ext hc hn ha hb⟩

theorem ensures_setNullifiers (tx : CTransaction) (spent : Bool) :
    (ViewProg.setNullifiers tx spent).Ensures plainSpec s fun _ s' =>
      s' = { s with
        nullifiers := fun set => setAll (nullifiersOf tx set) spent (s.nullifiers set) } := by
  rintro ⟨r, s'⟩ h
  obtain ⟨hc, hres, ha, hb, -⟩ := outcome_op.mp h
  obtain ⟨rfl, hn⟩ := mk.inj hres
  exact ⟨(), s', rfl, PlainView.ext hc hn ha hb⟩

theorem ensures_setZkProofHashes (tx : CTransaction) (addTx : Bool) :
    (ViewProg.setZkProofHashes tx addTx).Ensures plainSpec s fun _ s' => s' = s := by
  rintro ⟨r, s'⟩ h
  obtain ⟨hc, hn, ha, hb, hr⟩ := outcome_op.mp h
  obtain rfl : r = .ok () := hr
  exact ⟨(), s', rfl, PlainView.ext hc hn ha hb⟩

theorem ensures_popAnchor {t : ShieldedType} {newrt : UInt256}
    (hnull : newrt ≠ UInt256.null) (hvis : (s.anchors t).visible (s.anchors t).best = true) :
    (ViewProg.popAnchor t newrt).Ensures plainSpec s fun _ s' =>
      s' = { s with anchors := update s.anchors t ((s.anchors t).pop newrt) } := by
  rintro ⟨r, s'⟩ h
  obtain ⟨hc, hn, ha, hb, -⟩ := outcome_op.mp h
  obtain ⟨rfl, ha⟩ := mk.inj (ha hnull hvis)
  exact ⟨(), s', rfl, PlainView.ext hc hn ha hb⟩

theorem ensures_getBestBlock :
    ViewProg.getBestBlock.Ensures plainSpec s fun h s' => h = s.bestBlock ∧ s' = s := by
  rintro ⟨r, s'⟩ h
  obtain ⟨hc, hn, ha, hres, -⟩ := outcome_op.mp h
  obtain ⟨rfl, hb⟩ := mk.inj hres
  exact ⟨_, s', rfl, rfl, PlainView.ext hc hn ha hb⟩

theorem ensures_setBestBlock {h : UInt256} (hnull : h ≠ UInt256.null) :
    (ViewProg.setBestBlock h).Ensures plainSpec s fun _ s' => s' = { s with bestBlock := h } := by
  rintro ⟨r, s'⟩ hout
  obtain ⟨hc, hn, ha, hb, -⟩ := outcome_op.mp hout
  obtain ⟨rfl, hb⟩ := mk.inj (hb hnull)
  exact ⟨(), s', rfl, PlainView.ext hc hn ha hb⟩

end

end Elosys
