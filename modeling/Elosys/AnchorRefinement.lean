import Elosys.BestHash

/-!
# Anchors: The Cache Stack Keeps a Stack of Roots

`PushAnchor` and `PopAnchor` treat the anchors of one kind as a stack. Caches and database follow
the stack of pushed roots as long as a pushed root is the best already or new: one pushed again on
top of others is hidden by the matching pop (`repushed_root_is_hidden`).

## Main results

* `Stacked` is the invariant of a stack of caches over stacks of roots; each operation keeps it.
* After every admitted run the best anchor is the top of the stack of roots, and a lookup succeeds
  exactly for the empty root and those on the stack.
-/

open AssocBatch LayerStack List Function Except

namespace Elosys

section

variable [NoteTrees]

open View CacheView

abbrev AnchorColumn (t : ShieldedType) :=
  Column UInt256 (CAnchorsCacheEntry (Tree t)) (Option (Tree t))

def View.visible (t : ShieldedType) (v : View) : UInt256 → Bool :=
  (anchorKind (Tree t)).view (v.anchorColumn t)

/-- Every tree is stored under its root. -/
def Rooted (t : ShieldedType) : AnchorColumn t → Prop
  | .base d => ∀ rt tree, d rt = some tree → root tree = rt
  | .layer m b => (∀ rt e, m.lookup rt = some e → root e.tree = rt) ∧ Rooted t b

/-- The invariant of a view's anchors between operations. -/
structure View.AnchorsSound (v : View) : Prop where
  coherent : ∀ t, (anchorKind (Tree t)).Coherent (v.anchorColumn t)
  rooted : ∀ t, Rooted t (v.anchorColumn t)

theorem View.levels_visible (t : ShieldedType) (v : View) :
    levels (visible t) v = (anchorKind (Tree t)).plain (v.anchorColumn t) :=
  levels_map (anchorKind (Tree t)).view (fun d : CCoinsViewDB => d.getAnchorAt t)
    (fun l : CCoinsViewCache => l.cacheAnchors t) v

/-! ### Reading -/

variable {t : ShieldedType}

variable {rt : UInt256} {tree : Tree t}

theorem Rooted.root_of_peek {v : AnchorColumn t} (h : Rooted t v)
    (hp : (anchorKind (Tree t)).peek v rt = some tree) : root tree = rt := by
  induction v with
  | base d => exact h rt tree hp
  | layer m b ih =>
    cases hm : m.lookup rt with
    | none =>
      rw [(anchorKind (Tree t)).peek_of_lookup_none hm] at hp
      exact ih h.2 hp
    | some e =>
      rw [(anchorKind (Tree t)).peek_of_lookup hm] at hp
      change (if e.entered then some e.tree else none) = some tree at hp
      split at hp
      · rw [← Option.some.inj hp]
        exact h.1 rt e hm
      · cases hp

theorem Rooted.fetch {v : AnchorColumn t} (h : Rooted t v) (rt : UInt256) :
    Rooted t (((anchorKind (Tree t)).query rt).fetch v).2 := by
  induction v with
  | base d => exact h
  | layer m b ih =>
    cases hf : ((anchorKind (Tree t)).query rt).find m with
    | some r => rw [Query.fetch_of_find _ hf]; exact h
    | none =>
      rw [Query.fetch_of_find_none _ hf, Query.fetch_fst]
      refine ⟨fun rt' e he => ?_, ih h.2⟩
      cases hr : ((anchorKind (Tree t)).query rt).peek b with
      | none =>
        rw [hr] at he
        exact h.1 rt' e he
      | some tree =>
        rw [hr] at he
        change (m.insert rt ⟨true, tree, false⟩).lookup rt' = some e at he
        rw [lookup_insert_eq] at he
        split at he
        · next heq =>
            rw [← Option.some.inj he, heq]
            exact h.2.root_of_peek hr
        · exact h.1 rt' e he

/-- What a read keeps: the anchors' invariant, and what each level shows and has as best. -/
structure SameAnchors (v v' : CacheView) : Prop where
  sound : v'.Sound
  anchors : AnchorsSound v'.stack
  visible : ∀ t, v'.generations (View.visible t) = v.generations (View.visible t)
  best : ∀ t, v'.generations (BestHash.anchor t).best
    = v.generations (BestHash.anchor t).best

theorem SameAnchors.trans {v v' v'' : CacheView} (h : SameAnchors v v')
    (h' : SameAnchors v' v'') : SameAnchors v v'' where
  sound := h'.sound
  anchors := h'.anchors
  visible t := (h'.visible t).trans (h.visible t)
  best t := (h'.best t).trans (h.best t)

variable {v : CacheView}

theorem getAnchorAt_spec (t : ShieldedType) (rt : UInt256) (hs : v.Sound)
    (ha : AnchorsSound v.stack) : SameAnchors v (getAnchorAt t rt v).2 := by
  have hcol : ∀ t', (anchorKind (Tree t')).Coherent (anchorColumn t' (getAnchorAt t rt v).2.stack) ∧
      Rooted t' (anchorColumn t' (getAnchorAt t rt v).2.stack) ∧
      (anchorKind (Tree t')).plain (anchorColumn t' (getAnchorAt t rt v).2.stack)
        = (anchorKind (Tree t')).plain (anchorColumn t' v.stack) := by
    intro t'
    rw [getAnchorAt, Query.stack_ask]
    by_cases ht : t' = t
    · subst ht
      rw [(anchorColumn_fetch t' rt v.stack).1]
      have hf := (anchorKind (Tree t')).fetch_spec rt (ha.coherent t')
      exact ⟨hf.1, (ha.rooted t').fetch rt, hf.2⟩
    · have hframe : anchorColumn t' ((anchorQuery t rt).fetch v.stack).2
          = anchorColumn t' v.stack := by
        refine map_fetch_of_frame _ _ _ (fun r l => ?_) _
        cases r with
        | none => rfl
        | some tree => exact update_of_ne ht _ _
      rw [hframe]
      exact ⟨ha.coherent t', ha.rooted t', rfl⟩
  refine ⟨?_, ⟨fun t' => (hcol t').1, fun t' => (hcol t').2.1⟩,
    fun t' => Tip.generations_congr ?_, fun t' => Tip.generations_congr ?_⟩
  · refine hs.ask_of_frame _ (fun r l => ?_) (fun r l => ?_)
    · cases r <;> rfl
    · cases r <;> rfl
  · rw [levels_visible, levels_visible]
    exact (hcol t').2.2
  · rw [getAnchorAt, Query.stack_ask]
    refine (anchorQuery t rt).levels_peek_fetch_of_frame (BestHash.anchor t').query
      (fun r l => ?_) v.stack
    cases r <;> rfl

theorem lookup_of_getAnchorAt (h : (getAnchorAt t rt v).1 = some tree) :
    ∃ e, ((getAnchorAt t rt v).2.top.cacheAnchors t).lookup rt = some e := by
  cases hm : (v.top.cacheAnchors t).lookup rt with
  | some e =>
    have hf : (anchorQuery t rt).find v.top = some (if e.entered then some e.tree else none) := by
      simp [anchorQuery, hm]
    refine ⟨e, ?_⟩
    rwa [getAnchorAt, Query.ask, hf]
  | none =>
    have hf : (anchorQuery t rt).find v.top = none := by simp [anchorQuery, hm]
    rw [getAnchorAt, Query.ask, hf] at h ⊢
    refine ⟨⟨true, tree, false⟩, ?_⟩
    simp only [anchorQuery] at h ⊢
    rw [h]
    simp

theorem getBestAnchor_spec (t : ShieldedType) (hs : v.Sound)
    (ha : AnchorsSound v.stack) : SameAnchors v (getBestAnchor t v).2 := by
  have hcol : ∀ t', anchorColumn t' (getBestAnchor t v).2.stack = anchorColumn t' v.stack := by
    intro t'
    rw [getBestAnchor, Query.stack_ask]
    exact map_fetch_of_frame _ _ _ (fun r l => rfl) _
  refine ⟨hs.ask_of_frame _ (fun r l => rfl) (fun r l => rfl), ⟨fun t' => ?_, fun t' => ?_⟩,
    fun t' => Tip.generations_congr ?_, fun t' => Tip.generations_congr ?_⟩
  · rw [hcol t']
    exact ha.coherent t'
  · rw [hcol t']
    exact ha.rooted t'
  · rw [levels_visible, levels_visible, hcol t']
  · exact BestHash.levels_best_getBest (.anchor t) (.anchor t') v

/-! ### Writing -/

/-- The end of `PushAnchor` and `PopAnchor`: a top entry and the best anchor are replaced. -/
def writeAnchor (t : ShieldedType) (rt : UInt256) (e : CAnchorsCacheEntry (Tree t))
    (newbest : UInt256) (v : CacheView) : CacheView :=
  { v with top :=
    { v.top with
      cacheAnchors := update v.top.cacheAnchors t ((v.top.cacheAnchors t).insert rt e)
      hashAnchor := update v.top.hashAnchor t newbest } }

variable {rt newbest : UInt256} {e : CAnchorsCacheEntry (Tree t)}

theorem writeAnchor_sound (hs : v.Sound) (ha : AnchorsSound v.stack) (hd : e.dirty = true)
    (hr : root e.tree = rt) :
    (writeAnchor t rt e newbest v).Sound ∧ AnchorsSound (writeAnchor t rt e newbest v).stack := by
  refine ⟨⟨hs.idle, hs.flagged⟩, ⟨fun t' => ?_, fun t' => ?_⟩⟩
  · by_cases ht : t' = t
    · subst ht
      simp only [anchorColumn, writeAnchor, Tip.stack, map_layer, update_self]
      exact ((anchorKind (Tree t')).insert_spec hd (ha.coherent t')).1
    · simp only [anchorColumn, writeAnchor, Tip.stack, map_layer, update_of_ne ht]
      exact ha.coherent t'
  · by_cases ht : t' = t
    · subst ht
      simp only [anchorColumn, writeAnchor, Tip.stack, map_layer, update_self]
      refine ⟨fun rt' e' he' => ?_, (ha.rooted t').2⟩
      rw [lookup_insert_eq] at he'
      split at he'
      · next heq => rw [← Option.some.inj he', heq, hr]
      · exact (ha.rooted t').1 rt' e' he'
    · simp only [anchorColumn, writeAnchor, Tip.stack, map_layer, update_of_ne ht]
      exact ha.rooted t'

theorem writeAnchor_visible (ha : AnchorsSound v.stack) (hd : e.dirty = true) (t' : ShieldedType) :
    (writeAnchor t rt e newbest v).generations (visible t')
      = (v.generations (visible t')).modify fun m =>
          if t' = t then update m rt e.entered else m := by
  have htop : visible t' (writeAnchor t rt e newbest v).stack
      = if t' = t then update (visible t' v.stack) rt e.entered
        else visible t' v.stack := by
    by_cases ht : t' = t
    · subst ht
      simp only [visible, anchorColumn, writeAnchor, Tip.stack, map_layer, update_self]
      refine ((anchorKind (Tree t')).insert_spec hd (ha.coherent t')).2.trans ?_
      congr 1
      cases he : e.entered <;> simp [anchorKind, he]
    · rw [if_neg ht]
      simp only [visible, anchorColumn, writeAnchor, Tip.stack, map_layer, update_of_ne ht]
  rw [Tip.generations, htop]
  rfl

theorem writeAnchor_best (hn : newbest ≠ UInt256.null) (v : CacheView) (t' : ShieldedType) :
    (writeAnchor t rt e newbest v).generations (BestHash.anchor t').best
      = (v.generations (BestHash.anchor t').best).modify fun h =>
          if t' = t then newbest else h := by
  have htop : (BestHash.anchor t').best (writeAnchor t rt e newbest v).stack
      = if t' = t then newbest else (BestHash.anchor t').best v.stack := by
    by_cases ht : t' = t
    · subst ht
      simp [Tip.stack, BestHash.best_layer, BestHash.held, writeAnchor, hn]
    · have hheld : (BestHash.anchor t').held (writeAnchor t rt e newbest v).top
          = (BestHash.anchor t').held v.top := update_of_ne ht _ _
      rw [if_neg ht, Tip.stack, Tip.stack, BestHash.best_layer, BestHash.best_layer, hheld]
      rfl
  rw [Tip.generations, htop]
  rfl

theorem pushAnchor_cases (tree : Tree t) (hs : v.Sound) (ha : AnchorsSound v.stack) :
    ∃ w, SameAnchors v w ∧ ((BestHash.anchor t).best v.stack = root tree ∧ v.pushAnchor t tree = w ∨
        (BestHash.anchor t).best v.stack ≠ root tree ∧
          v.pushAnchor t tree = writeAnchor t (root tree) ⟨true, tree, true⟩ (root tree) w) := by
  have hcur : (getBestAnchor t v).1 = (BestHash.anchor t).best v.stack :=
    BestHash.getBest_fst (.anchor t) v
  refine ⟨_, getBestAnchor_spec t hs ha, ?_⟩
  rw [CacheView.pushAnchor]
  by_cases heq : (BestHash.anchor t).best v.stack = root tree
  · exact .inl ⟨heq, by simp only [hcur, heq, if_true]⟩
  · refine .inr ⟨heq, ?_⟩
    simp only [hcur, heq, if_false]
    rfl

/-- **Popping an anchor** reads the best one and hides it unless it is the one to go back to; the
assertion fails exactly when it is not visible. -/
theorem popAnchor_cases (t : ShieldedType) (newrt : UInt256) (hs : v.Sound)
    (ha : AnchorsSound v.stack) :
    (∃ w, SameAnchors v w ∧ (BestHash.anchor t).best v.stack = newrt ∧
        v.popAnchor t newrt = .ok w) ∨
      (∃ w, ∃ e : CAnchorsCacheEntry (Tree t), SameAnchors v w ∧
        (BestHash.anchor t).best v.stack ≠ newrt ∧
        root e.tree = (BestHash.anchor t).best v.stack ∧
        v.popAnchor t newrt = .ok (writeAnchor t ((BestHash.anchor t).best v.stack)
          { e with entered := false, dirty := true } newrt w)) ∨
      View.visible t v.stack ((BestHash.anchor t).best v.stack) = false ∧
        ∃ e, v.popAnchor t newrt = .error e := by
  have hsame := getBestAnchor_spec t hs ha
  have hcur : (getBestAnchor t v).1 = (BestHash.anchor t).best v.stack :=
    BestHash.getBest_fst (.anchor t) v
  rw [CacheView.popAnchor, ← hcur]
  by_cases heq : (getBestAnchor t v).1 = newrt
  · exact .inl ⟨_, hsame, heq, by simp only [heq, if_true]⟩
  · simp only [heq, if_false]
    have hvis : ((getAnchorAt t (getBestAnchor t v).1 (getBestAnchor t v).2).1).isSome
        = View.visible t v.stack (getBestAnchor t v).1 := by
      have htop : View.visible t (getBestAnchor t v).2.stack = View.visible t v.stack :=
        congrArg Generations.top (hsame.visible t)
      rw [← htop, getAnchorAt, Query.ask_fst, ← (anchorColumn_fetch t _ _).2]
      rfl
    have hread := getAnchorAt_spec t (getBestAnchor t v).1 hsame.sound hsame.anchors
    cases htree : (getAnchorAt t (getBestAnchor t v).1 (getBestAnchor t v).2).1 with
    | none =>
      refine .inr (.inr ⟨by rw [← hvis, htree]; rfl, ?_⟩)
      rw [← Prod.eta (getAnchorAt t (getBestAnchor t v).1 (getBestAnchor t v).2), htree]
      exact ⟨_, rfl⟩
    | some tree =>
      obtain ⟨e, hentry⟩ := lookup_of_getAnchorAt htree
      refine .inr (.inl ⟨_, e, hsame.trans hread, heq, (hread.anchors.rooted t).1 _ e hentry, ?_⟩)
      rw [← Prod.eta (getAnchorAt t (getBestAnchor t v).1 (getBestAnchor t v).2), htree]
      simp only [hentry, Option.getD_some]
      rfl

/-! ### The stack of roots -/

def bestIn (t : ShieldedType) (s : List UInt256) : UInt256 := s.headD (emptyRoot t)

def visibleIn (t : ShieldedType) (s : List UInt256) (rt : UInt256) : Bool :=
  decide (rt = emptyRoot t ∨ rt ∈ s)

/-- A root may go on a stack: not null, and the best already or new. -/
def Pushable (t : ShieldedType) (r : UInt256) (s : List UInt256) : Prop :=
  r ≠ UInt256.null ∧ (r = bestIn t s ∨ r ∉ s ∧ r ≠ emptyRoot t)

/-- A stack of roots that was built by such pushes. -/
def WellStacked (t : ShieldedType) : List UInt256 → Prop
  | [] => True
  | r :: s => Pushable t r s ∧ WellStacked t s

abbrev RootStacks := ShieldedType → List UInt256

theorem visibleIn_bestIn (t : ShieldedType) (s : List UInt256) :
    visibleIn t s (bestIn t s) = true := by
  cases s with
  | nil => simp [visibleIn, bestIn]
  | cons r s => simp [visibleIn, bestIn]

theorem WellStacked.bestIn_ne_null {s : List UInt256} (h : WellStacked t s)
    (he : emptyRoot t ≠ UInt256.null) : bestIn t s ≠ UInt256.null := by
  cases s with
  | nil => exact he
  | cons r s => exact h.1.1

theorem visibleIn_cons (t : ShieldedType) (r : UInt256) (s : List UInt256) :
    visibleIn t (r :: s) = update (visibleIn t s) r true := by
  funext rt
  by_cases h : rt = r
  · subst h
    simp [visibleIn]
  · simp [visibleIn, h]

theorem visibleIn_cons_best (t : ShieldedType) (s : List UInt256) :
    visibleIn t (bestIn t s :: s) = visibleIn t s := by
  rw [visibleIn_cons]
  conv_rhs => rw [← update_eq_self (bestIn t s) (visibleIn t s)]
  rw [visibleIn_bestIn]

theorem visibleIn_pop {r : UInt256} {s : List UInt256} (h : WellStacked t (r :: s))
    (hne : r ≠ bestIn t s) : visibleIn t s = update (visibleIn t (r :: s)) r false := by
  obtain ⟨hnot, hempty⟩ := h.1.2.resolve_left hne
  rw [visibleIn_cons, update_idem]
  funext rt
  by_cases hrt : rt = r
  · subst hrt
    simp [visibleIn, hnot, hempty]
  · rw [update_of_ne hrt]

/-- The caches follow the stacks of roots by generation. -/
structure Stacked (g : Generations RootStacks) (v : CacheView) : Prop where
  sound : v.Sound
  anchors : AnchorsSound v.stack
  stacked : ∀ s ∈ g.top :: g.below, ∀ t, WellStacked t (s t)
  best : ∀ t, v.generations (BestHash.anchor t).best = g.map fun s => bestIn t (s t)
  visible : ∀ t, v.generations (visible t) = g.map fun s => visibleIn t (s t)

namespace Stacked

variable {g : Generations RootStacks} {v v' : CacheView}

theorem best_top (h : Stacked g v) (t : ShieldedType) :
    (BestHash.anchor t).best v.stack = bestIn t (g.top t) :=
  congrArg Generations.top (h.best t)

theorem visible_top (h : Stacked g v) (t : ShieldedType) :
    View.visible t v.stack = visibleIn t (g.top t) :=
  congrArg Generations.top (h.visible t)

theorem of_same (h : Stacked g v) (hv : SameAnchors v v') : Stacked g v' where
  sound := hv.sound
  anchors := hv.anchors
  stacked := h.stacked
  best t := (hv.best t).trans (h.best t)
  visible t := (hv.visible t).trans (h.visible t)

variable {s' : List UInt256}

theorem stacked_modify (h : Stacked g v) (hs : WellStacked t s') :
    ∀ s ∈ update g.top t s' :: g.below, ∀ t', WellStacked t' (s t') := by
  intro s hmem t'
  rcases mem_cons.mp hmem with rfl | hmem
  · by_cases ht : t' = t
    · subst ht
      rwa [update_self]
    · rw [update_of_ne ht]
      exact h.stacked _ mem_cons_self t'
  · exact h.stacked s (mem_cons_of_mem _ hmem) t'

theorem replace_top (h : Stacked g v) (hs : WellStacked t s')
    (hb : bestIn t s' = bestIn t (g.top t)) (hv : visibleIn t s' = visibleIn t (g.top t)) :
    Stacked (g.modify fun s => update s t s') v where
  sound := h.sound
  anchors := h.anchors
  stacked := h.stacked_modify hs
  best t' := by
    rw [h.best t']
    refine (Generations.map_modify_of_eq ?_).symm
    by_cases ht : t' = t
    · subst ht
      rw [update_self, hb]
    · rw [update_of_ne ht]
  visible t' := by
    rw [h.visible t']
    refine (Generations.map_modify_of_eq ?_).symm
    by_cases ht : t' = t
    · subst ht
      rw [update_self, hv]
    · rw [update_of_ne ht]

theorem write_top (h : Stacked g v) (hs : WellStacked t s') (hd : e.dirty = true)
    (hr : root e.tree = rt) (hn : bestIn t s' ≠ UInt256.null)
    (hv : visibleIn t s' = update (visibleIn t (g.top t)) rt e.entered) :
    Stacked (g.modify fun s => update s t s') (writeAnchor t rt e (bestIn t s') v) where
  sound := (writeAnchor_sound h.sound h.anchors hd hr).1
  anchors := (writeAnchor_sound h.sound h.anchors hd hr).2
  stacked := h.stacked_modify hs
  best t' := by
    rw [writeAnchor_best hn, h.best t']
    refine (Generations.map_modify ?_).symm
    by_cases ht : t' = t
    · subst ht
      rw [update_self, if_pos rfl]
    · rw [update_of_ne ht, if_neg ht]
  visible t' := by
    rw [writeAnchor_visible h.anchors hd, h.visible t']
    refine (Generations.map_modify ?_).symm
    by_cases ht : t' = t
    · subst ht
      rw [update_self, if_pos rfl, hv]
    · rw [update_of_ne ht, if_neg ht]

theorem pushAnchor (h : Stacked g v) (hp : Pushable t (root tree) (g.top t)) :
    Stacked (g.modify fun s => update s t (root tree :: g.top t)) (v.pushAnchor t tree) := by
  have hs' : WellStacked t (root tree :: g.top t) :=
    ⟨hp, h.stacked _ mem_cons_self t⟩
  obtain ⟨w, hsame, ⟨heq, hw⟩ | ⟨-, hw⟩⟩ := pushAnchor_cases tree h.sound h.anchors
  · rw [hw]
    rw [h.best_top t] at heq
    refine (h.of_same hsame).replace_top hs' heq.symm ?_
    rw [← heq, visibleIn_cons_best]
  · rw [hw]
    exact (h.of_same hsame).write_top (e := ⟨true, tree, true⟩) hs' rfl rfl hp.1
      (visibleIn_cons t (root tree) (g.top t))

theorem popAnchor (h : Stacked g v) {r : UInt256} {rest : List UInt256}
    (hg : g.top t = r :: rest) (he : emptyRoot t ≠ UInt256.null) :
    ∃ v', v.popAnchor t (bestIn t rest) = .ok v' ∧
      Stacked (g.modify fun s => update s t rest) v' := by
  have hcur : (BestHash.anchor t).best v.stack = r := by
    rw [h.best_top t, hg]
    rfl
  have hwell : WellStacked t (r :: rest) := hg ▸ h.stacked _ mem_cons_self t
  obtain ⟨w, hsame, heq, hw⟩ | ⟨w, e, hsame, hne, hroot, hw⟩ | ⟨hvis, -⟩ :=
    popAnchor_cases t (bestIn t rest) h.sound h.anchors
  · refine ⟨w, hw, (h.of_same hsame).replace_top hwell.2 ?_ ?_⟩
    · rw [← h.best_top t, heq]
    · rw [hg, ← hcur, heq, visibleIn_cons_best]
  · rw [hcur] at hne hroot hw
    refine ⟨_, hw, (h.of_same hsame).write_top
      (e := { e with entered := false, dirty := true }) hwell.2 rfl hroot
      (hwell.2.bestIn_ne_null he) ?_⟩
    rw [hg]
    exact visibleIn_pop hwell hne
  · -- the best anchor is on the stack
    rw [hcur, h.visible_top t, hg] at hvis
    simp [visibleIn] at hvis

end Stacked

/-! ### Flushing -/

theorem merge_anchors {m p : Assoc UInt256 (CAnchorsCacheEntry (Tree t))}
    {b : AnchorColumn t} (hc : (anchorKind (Tree t)).Coherent (.layer m (.layer p b))) :
    (anchorKind (Tree t)).Coherent (.layer (batch CCoinsViewCache.batchWriteAnchors m p) b) ∧
      (anchorKind (Tree t)).view (.layer (batch CCoinsViewCache.batchWriteAnchors m p) b)
        = (anchorKind (Tree t)).view (.layer m (.layer p b)) := by
  refine (anchorKind (Tree t)).merge_batch_spec (·.entered) (fun e => ?_) (fun _ _ => rfl)
    (fun _ _ _ => rfl) (fun _ => ?_) (fun _ _ => ?_) hc
  · cases he : e.entered <;> simp [anchorKind, he]
  · exact ⟨rfl, rfl⟩
  · exact ⟨rfl, rfl⟩

theorem rooted_merge {m p : Assoc UInt256 (CAnchorsCacheEntry (Tree t))}
    {b : AnchorColumn t} (h : Rooted t (.layer m (.layer p b))) :
    Rooted t (.layer (batch CCoinsViewCache.batchWriteAnchors m p) b) := by
  refine ⟨fun rt e he => ?_, h.2.2⟩
  rw [lookup_batch] at he
  cases hm : m.lookup rt with
  | none =>
    rw [hm, batchAt_none] at he
    exact h.2.1 rt e he
  | some c =>
    rw [hm, batchAt_some] at he
    simp only [CCoinsViewCache.batchWriteAnchors] at he
    split at he
    · cases hp : p.lookup rt with
      | none =>
        rw [hp] at he
        rw [← Option.some.inj he]
        exact h.1 rt c hm
      | some q =>
        rw [hp] at he
        simp only at he
        split at he
        · rw [← Option.some.inj he]
          exact h.2.1 rt q hp
        · rw [← Option.some.inj he]
          exact h.2.1 rt q hp
    · exact h.2.1 rt e he

variable {l : CCoinsViewCache} {d : CCoinsViewDB}

theorem merge_anchors_base
    (hc : (anchorKind (Tree t)).Coherent (.layer (l.cacheAnchors t) (.base (d.getAnchorAt t))))
    (he : (anchorKind (Tree t)).view (.layer (l.cacheAnchors t) (.base (d.getAnchorAt t)))
      (emptyRoot t) = true) :
    (anchorKind (Tree t)).view (.base ((d.batchWrite l).getAnchorAt t))
      = (anchorKind (Tree t)).view (.layer (l.cacheAnchors t) (.base (d.getAnchorAt t))) := by
  have hlookup : ∀ rt, (d.batchWrite l).getAnchorAt t rt
      = if rt = emptyRoot t then some (emptyTree t)
        else batchAt (CCoinsViewDB.batchWriteAnchors t) rt ((l.cacheAnchors t).lookup rt)
          ((d.anchors t).lookup rt) := by
    intro rt
    rw [CCoinsViewDB.getAnchorAt, CCoinsViewDB.batchWrite, lookup_batch]
  refine (anchorKind (Tree t)).merge_base_spec (fun rt hk => ?_) (fun rt e hm hd => ?_) hc
  · rw [hlookup, CCoinsViewDB.getAnchorAt]
    cases hm : (l.cacheAnchors t).lookup rt with
    | none => rfl
    | some e =>
      have hd : e.dirty = false := hk e hm
      rw [batchAt_some, CCoinsViewDB.batchWriteAnchors, hd]
      rfl
  · have hd' : e.dirty = true := hd
    rw [hlookup]
    by_cases hrt : rt = emptyRoot t
    · rw [if_pos hrt, ← (anchorKind (Tree t)).view_of_lookup hm, hrt, he]
      rfl
    · rw [if_neg hrt, hm, batchAt_some, CCoinsViewDB.batchWriteAnchors, if_pos hd']
      change Option.isSome _ = Option.isSome (if e.entered then some e.tree else none)
      cases e.entered with
      | true => rw [if_neg (by decide), if_pos hrt]; rfl
      | false => rfl

theorem rooted_merge_base (h : Rooted t (.layer (l.cacheAnchors t) (.base (d.getAnchorAt t)))) :
    Rooted t (.base ((d.batchWrite l).getAnchorAt t)) := by
  intro rt tree htree
  rw [CCoinsViewDB.getAnchorAt, CCoinsViewDB.batchWrite] at htree
  split at htree
  · next heq => rw [← Option.some.inj htree, heq]; rfl
  · next hne =>
      have hold : (d.anchors t).lookup rt = some tree → root tree = rt := fun ho =>
        h.2 rt tree (by rw [CCoinsViewDB.getAnchorAt, if_neg hne, ho])
      rw [lookup_batch] at htree
      cases hm : (l.cacheAnchors t).lookup rt with
      | none =>
        rw [hm, batchAt_none] at htree
        exact hold htree
      | some e =>
        rw [hm, batchAt_some, CCoinsViewDB.batchWriteAnchors] at htree
        split at htree
        · split at htree
          · cases htree
          · rw [← Option.some.inj htree]
            exact h.1 rt e hm
        · exact hold htree

theorem View.AnchorsSound.layer_empty {b : View} (h : AnchorsSound b)
    (hl : ∀ t, l.cacheAnchors t = ∅) : AnchorsSound (.layer l b) := by
  refine ⟨fun t => ?_, fun t => ?_⟩
  · simp only [anchorColumn, map_layer, hl t]
    exact (anchorKind (Tree t)).coherent_empty (h.coherent t)
  · simp only [anchorColumn, map_layer, hl t]
    refine ⟨fun rt e he => ?_, h.rooted t⟩
    cases he

/-- A flush does not lose the parent's best anchor. -/
def FlushKept (v : CacheView) : Prop :=
  match v.base with
  | .base _ => True
  | .layer p b => ∀ t, (BestHash.anchor t).Kept v.top p b

namespace Stacked

variable {g : Generations RootStacks} {v : CacheView}

theorem merged (h : Stacked g v) (hk : FlushKept v) : AnchorsSound (View.merged v.top v.base) ∧
      (∀ t, View.visible t (View.merged v.top v.base) = View.visible t v.stack) ∧
      ∀ t, (BestHash.anchor t).best (View.merged v.top v.base)
        = (BestHash.anchor t).best v.stack := by
  have hempty : ∀ t, View.visible t v.stack (emptyRoot t) = true := fun t => by
    rw [h.visible_top t]
    simp [visibleIn]
  obtain ⟨l, b⟩ := v
  cases b with
  | base d =>
    refine ⟨⟨fun t => trivial, fun t => rooted_merge_base (h.anchors.rooted t)⟩,
      fun t => merge_anchors_base (h.anchors.coherent t) (hempty t), fun t => ?_⟩
    exact BestHash.best_merged_base (.anchor t) l d
  | layer p b =>
    refine ⟨⟨fun t => (merge_anchors (h.anchors.coherent t)).1,
      fun t => rooted_merge (h.anchors.rooted t)⟩,
      fun t => (merge_anchors (h.anchors.coherent t)).2, fun t => ?_⟩
    exact ((BestHash.anchor t).best_handed_down b rfl).mpr (hk t)

theorem flush (h : Stacked g v) (hk : FlushKept v) :
    Stacked g.flush ⟨v.top.cleared, View.merged v.top v.base⟩ := by
  obtain ⟨hsound, hvis, hbest⟩ := h.merged hk
  have hrest : ∀ {α : Type} (f : View → α),
      (levels f (View.merged v.top v.base)).tail = (levels f v.base).tail := by
    intro α f
    cases v.base <;> rfl
  refine ⟨h.sound.flush, hsound.layer_empty fun t => rfl, ?_, fun t => ?_, fun t => ?_⟩
  · intro s hmem
    refine h.stacked s ?_
    obtain ⟨top, below⟩ := g
    cases below with
    | nil => exact hmem
    | cons a rest =>
      simp only [Generations.flush, mem_cons] at hmem ⊢
      tauto
  · rw [Generations.map_flush, ← h.best t]
    refine Tip.generations_flush ?_ (hbest t) (hrest _)
    rw [BestHash.best_layer, hbest t]
    split
    · rfl
    · next hne => exact (((BestHash.anchor t).best_layer v.top v.base).trans (if_neg hne)).symm
  · rw [Generations.map_flush, ← h.visible t]
    refine Tip.generations_flush ?_ (hvis t) (hrest _)
    exact ((anchorKind (Tree t)).view_empty _).trans (hvis t)

theorem push (h : Stacked g v) : Stacked g.push v.push := by
  refine ⟨(push_spec h.sound).1, h.anchors.layer_empty fun t => rfl, ?_, fun t => ?_, fun t => ?_⟩
  · intro s hmem
    refine h.stacked s ?_
    simp only [Generations.push, mem_cons] at hmem ⊢
    tauto
  · rw [Generations.map_push, ← h.best t]
    rfl
  · rw [Generations.map_push, ← h.visible t]
    rfl

theorem drop (h : Stacked g v) : Stacked g.drop v.drop := by
  refine ⟨(drop_spec h.sound).1, ?_, ?_, fun t => ?_, fun t => ?_⟩
  · obtain ⟨l, b⟩ := v
    cases b with
    | base d => exact h.anchors
    | layer l' b =>
      exact ⟨fun t => (h.anchors.coherent t).2, fun t => (h.anchors.rooted t).2⟩
  · intro s hmem
    refine h.stacked s ?_
    obtain ⟨top, below⟩ := g
    match below with
    | [] => exact hmem
    | [_] => exact hmem
    | _ :: _ :: _ => exact mem_cons_of_mem _ hmem
  · rw [Generations.map_drop, ← h.best t]
    obtain ⟨l, b⟩ := v
    cases b with
    | base d => rfl
    | layer l' b => exact Tip.generations_drop _ l l' b
  · rw [Generations.map_drop, ← h.visible t]
    obtain ⟨l, b⟩ := v
    cases b with
    | base d => rfl
    | layer l' b => exact Tip.generations_drop _ l l' b

end Stacked

/-! ### Runs -/

/-- An operation on the anchors of a stack of caches. -/
inductive AnchorOp where
  | push
  | drop
  | flush
  | pushAnchor (t : ShieldedType) (tree : Tree t)
  | popAnchor (t : ShieldedType) (newrt : UInt256)
  | getAnchorAt (t : ShieldedType) (rt : UInt256)
  | getBestAnchor (t : ShieldedType)

namespace AnchorOp

def step : AnchorOp → CacheView → Except Fault CacheView
  | push, v => .ok v.push
  | drop, v => .ok v.drop
  | flush, v => v.flush
  | pushAnchor t tree, v => .ok (v.pushAnchor t tree)
  | popAnchor t newrt, v => v.popAnchor t newrt
  | getAnchorAt t rt, v => .ok (v.getAnchorAt t rt).2
  | getBestAnchor t, v => .ok (v.getBestAnchor t).2

/-- One operation on the stacks of roots: a push adds an entry, also of the best root, and a pop
takes one away. -/
def record : AnchorOp → Generations RootStacks → Generations RootStacks
  | push, g => g.push
  | drop, g => g.drop
  | flush, g => g.flush
  | pushAnchor t tree, g => g.modify fun s => update s t (root tree :: s t)
  | popAnchor t _, g => g.modify fun s => update s t (s t).tail
  | getAnchorAt _ _, g => g
  | getBestAnchor _, g => g

def finalStacks (ops : List AnchorOp) (s : RootStacks) : RootStacks :=
  (ops.foldl (fun g op => op.record g) (⟨s, [s]⟩ : Generations RootStacks)).top

/-- A pop is given the best root before the matching push. -/
def PopMatches (g : Generations RootStacks) : AnchorOp → Prop
  | popAnchor t newrt => g.top t ≠ [] ∧ newrt = bestIn t (g.top t).tail
  | _ => True

/-- A pushed root is the best already, or new. -/
def PushFresh (g : Generations RootStacks) : AnchorOp → Prop
  | pushAnchor t tree => root tree = bestIn t (g.top t) ∨
      root tree ∉ g.top t ∧ root tree ≠ emptyRoot t
  | _ => True

/-- A flush loses no best anchor of the parent. -/
def FlushKeeps (v : CacheView) : AnchorOp → Prop
  | flush => FlushKept v
  | _ => True

/-- Every operation of a run meets its condition. -/
def Admitted : List AnchorOp → Generations RootStacks → CacheView → Prop
  | [], _, _ => True
  | op :: ops, g, v =>
    (op.PopMatches g ∧ op.PushFresh g ∧ op.FlushKeeps v) ∧
      ∀ v', op.step v = .ok v' → Admitted ops (op.record g) v'

theorem step_stacked (hroot : ∀ (t : ShieldedType) (tree : Tree t), root tree ≠ UInt256.null)
    (op : AnchorOp) {g : Generations RootStacks} (h : Stacked g v)
    (hop : op.PopMatches g ∧ op.PushFresh g ∧ op.FlushKeeps v) :
    ∃ v', op.step v = .ok v' ∧ Stacked (op.record g) v' := by
  cases op with
  | push => exact ⟨_, rfl, h.push⟩
  | drop => exact ⟨_, rfl, h.drop⟩
  | flush => exact ⟨_, flush_eq h.sound, h.flush hop.2.2⟩
  | pushAnchor t tree => exact ⟨_, rfl, h.pushAnchor ⟨hroot t tree, hop.2.1⟩⟩
  | popAnchor t newrt =>
    obtain ⟨hne, rfl⟩ := hop.1
    obtain ⟨r, rest, hg⟩ := exists_cons_of_ne_nil hne
    obtain ⟨v', hv', hs'⟩ := h.popAnchor hg (hroot t (emptyTree t))
    refine ⟨v', ?_, ?_⟩
    · rwa [step, hg]
    · change Stacked (g.modify fun s => update s t (g.top t).tail) v'
      rwa [hg]
  | getAnchorAt t rt =>
    exact ⟨_, rfl, h.of_same (getAnchorAt_spec t rt h.sound h.anchors)⟩
  | getBestAnchor t => exact ⟨_, rfl, h.of_same (getBestAnchor_spec t h.sound h.anchors)⟩

theorem run_stacked (hroot : ∀ (t : ShieldedType) (tree : Tree t), root tree ≠ UInt256.null)
    (ops : List AnchorOp) {g : Generations RootStacks} (h : Stacked g v)
    (hops : Admitted ops g v) :
    ∃ v', ops.foldlM (fun v op => op.step v) v = .ok v' ∧
      Stacked (ops.foldl (fun g op => op.record g) g) v' := by
  induction ops generalizing g v with
  | nil => exact ⟨v, rfl, h⟩
  | cons op ops ih =>
    obtain ⟨v₁, hstep, h₁⟩ := step_stacked hroot op h hops.1
    obtain ⟨v', hrun, h'⟩ := ih h₁ (hops.2 v₁ hstep)
    refine ⟨v', ?_, h'⟩
    rwa [foldlM_cons, hstep]

/-- A run's pops are given the best roots before the matching pushes. -/
def PopsMatch : List AnchorOp → Generations RootStacks → Prop
  | [], _ => True
  | op :: ops, g => op.PopMatches g ∧ PopsMatch ops (op.record g)

end AnchorOp

/-- A database with the anchors of well-built stacks. -/
structure Represents (d : CCoinsViewDB) (s : RootStacks) : Prop where
  stacked : ∀ t, WellStacked t (s t)
  best : ∀ t, d.getBestAnchor t = bestIn t (s t)
  visible : ∀ t rt, (d.getAnchorAt t rt).isSome = visibleIn t (s t) rt
  rooted : ∀ t rt tree, d.getAnchorAt t rt = some tree → root tree = rt

theorem represents_empty : Represents {} (fun _ => []) where
  stacked _ := trivial
  best _ := rfl
  visible t rt := by
    by_cases h : rt = emptyRoot t
    · simp [CCoinsViewDB.getAnchorAt, visibleIn, h]
    · simp [CCoinsViewDB.getAnchorAt, visibleIn, h]
  rooted t rt tree h := by
    rw [CCoinsViewDB.getAnchorAt] at h
    split at h
    · next heq => rw [← Option.some.inj h, heq]; rfl
    · rw [AList.lookup_empty] at h
      cases h

theorem Represents.stacked_new {s : RootStacks} (h : Represents d s) :
    Stacked ⟨s, [s]⟩ ⟨{}, .base d⟩ := by
  have hbase : AnchorsSound (.base d) := ⟨fun t => trivial, fun t => h.rooted t⟩
  refine ⟨CoinsOp.sound_new d, hbase.layer_empty fun t => rfl, ?_, fun t => ?_, fun t => ?_⟩
  · intro s' hmem
    simp only [mem_cons, not_mem_nil, or_false, or_self] at hmem
    rw [hmem]
    exact h.stacked
  · have htop : (BestHash.anchor t).best (.layer {} (.base d)) = d.getBestAnchor t :=
      ((BestHash.anchor t).best_layer {} (.base d)).trans (if_pos rfl)
    have hlow : (BestHash.anchor t).best (.base d) = d.getBestAnchor t := rfl
    rw [Tip.generations, Tip.stack_mk, levels_base, htop, hlow, h.best t]
    rfl
  · have htop : View.visible t (.layer {} (.base d)) = View.visible t (.base d) :=
      (anchorKind (Tree t)).view_empty _
    have hlow : View.visible t (.base d) = visibleIn t (s t) :=
      funext fun rt => h.visible t rt
    rw [Tip.generations, Tip.stack_mk, levels_base, htop, hlow]
    rfl

/-- **The stack of caches follows the stacks of roots**: after an admitted run the best anchor is
the top of the stack, and a lookup succeeds exactly for the empty root and those on the stack. -/
theorem anchor_stack_refines
    (hroot : ∀ (t : ShieldedType) (tree : Tree t), root tree ≠ UInt256.null)
    {d : CCoinsViewDB} {s : RootStacks} (hd : Represents d s) (ops : List AnchorOp)
    (hops : AnchorOp.Admitted ops ⟨s, [s]⟩ ⟨{}, .base d⟩) :
    ∃ v, ops.foldlM (fun v op => op.step v) ⟨{}, .base d⟩ = .ok v ∧
      ∀ t, (v.getBestAnchor t).1 = bestIn t (AnchorOp.finalStacks ops s t) ∧
        ∀ rt, ((v.getAnchorAt t rt).1.isSome ↔
            rt = emptyRoot t ∨ rt ∈ AnchorOp.finalStacks ops s t) ∧
          ∀ tree, (v.getAnchorAt t rt).1 = some tree → root tree = rt := by
  obtain ⟨v, hrun, h⟩ := AnchorOp.run_stacked hroot ops hd.stacked_new hops
  refine ⟨v, hrun, fun t => ⟨?_, fun rt => ⟨?_, fun tree htree => ?_⟩⟩⟩
  · exact (BestHash.getBest_fst (.anchor t) v).trans (h.best_top t)
  · have hvis := congrFun (h.visible_top t) rt
    rw [getAnchorAt, Query.ask_fst, ← (anchorColumn_fetch t rt v.stack).2]
    change (View.visible t v.stack rt = true) ↔ _
    rw [hvis, visibleIn, decide_eq_true_iff]
    exact Iff.rfl
  · rw [getAnchorAt, Query.ask_fst, ← (anchorColumn_fetch t rt v.stack).2] at htree
    exact (h.anchors.rooted t).root_of_peek htree

end

section

local instance instLeafTrees : NoteTrees := listTrees

def pushFlushPop : List AnchorOp :=
  [.pushAnchor .sprout [7], .push, .getBestAnchor .sprout, .flush,
    .popAnchor .sprout (emptyRoot .sprout)]

theorem anchor_stack_refines_pushFlushPop :
    AnchorOp.Admitted pushFlushPop ⟨fun _ => [], [fun _ => []]⟩ ⟨{}, .base {}⟩ ∧
      ∃ v, pushFlushPop.foldlM (fun v op => op.step v) ⟨{}, .base {}⟩ = .ok v ∧
        (v.getBestAnchor .sprout).1 = emptyRoot .sprout := by
  have hadm : AnchorOp.Admitted pushFlushPop ⟨fun _ => [], [fun _ => []]⟩ ⟨{}, .base {}⟩ := by
    refine ⟨⟨trivial, .inr ⟨by decide, by decide⟩, trivial⟩, fun v₁ h₁ => ?_⟩
    obtain rfl := ok.inj h₁
    refine ⟨⟨trivial, trivial, trivial⟩, fun v₂ h₂ => ?_⟩
    obtain rfl := ok.inj h₂
    refine ⟨⟨trivial, trivial, trivial⟩, fun v₃ h₃ => ?_⟩
    obtain rfl := ok.inj h₃
    refine ⟨⟨trivial, trivial, fun t => ?_⟩, fun v₄ h₄ => ?_⟩
    · cases t with
      | sprout => exact .inl (by decide)
      | sapling => exact .inr (.inl rfl)
      | saplingFrontier => exact .inr (.inl rfl)
    · obtain rfl := ok.inj h₄
      exact ⟨⟨⟨by decide, rfl⟩, trivial, trivial⟩, fun _ _ => trivial⟩
  obtain ⟨v, hrun, hv⟩ := anchor_stack_refines listTrees_root_ne_null represents_empty
    pushFlushPop hadm
  exact ⟨hadm, v, hrun, (hv .sprout).1⟩

def pushRepushPop : List AnchorOp :=
  [.pushAnchor .sprout [7], .pushAnchor .sprout [8], .pushAnchor .sprout [7],
    .popAnchor .sprout (listTrees.root (t := .sprout) [8])]

/-- The pop matches, the first root is on the stack, and its lookup fails. -/
theorem repushed_root_is_hidden : AnchorOp.PopsMatch pushRepushPop ⟨fun _ => [], [fun _ => []]⟩ ∧
      listTrees.root (t := .sprout) [7]
        ∈ AnchorOp.finalStacks pushRepushPop (fun _ => []) .sprout ∧
      ∃ v, pushRepushPop.foldlM (fun v op => op.step v) ⟨{}, .base {}⟩ = .ok v ∧
        (v.getAnchorAt .sprout (listTrees.root (t := .sprout) [7])).1 = none :=
  ⟨⟨trivial, trivial, trivial, ⟨by decide, rfl⟩, trivial⟩, by decide, _, rfl, rfl⟩

end

end Elosys
