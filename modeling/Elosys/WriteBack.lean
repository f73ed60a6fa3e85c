import Elosys.AssocBatch
import Elosys.LayerStack

/-!
# Write-Back Columns

One keyed map kept by every layer of a `LayerStack`: entries answer under their key and may be
dirty, and a flush merges the dirty ones into the layer below. `CacheKind.plain` is the stack of
plain maps it stands for, `CacheKind.Coherent` the invariant: a clean entry agrees with what lies
below.
-/

open AssocBatch LayerStack Function Option

/-- One column: how an entry answers, what a read leaves, which entries are dirty, and how answers
are observed. -/
structure CacheKind (E R V : Type) where
  res : E → R
  fresh : R → Option E
  dirty : E → Bool
  obs : R → V
  res_fresh : ∀ {r e}, fresh r = some e → res e = r
  dirty_fresh : ∀ {r e}, fresh r = some e → dirty e = false

/-- One keyed map over all layers; the database by its answers. -/
abbrev Column (κ E R : Type) := LayerStack (κ → R) (Assoc κ E)

namespace CacheKind

variable {κ E R V : Type} [DecidableEq κ] (c : CacheKind E R V)

def query (k : κ) : Query (κ → R) (Assoc κ E) R where
  read d := d k
  find m := (m.lookup k).map c.res
  fill r m :=
    match c.fresh r with
    | some e => m.insert k e
    | none => m

def peek (v : Column κ E R) (k : κ) : R := (c.query k).peek v

def view (v : Column κ E R) (k : κ) : V := c.obs (c.peek v k)

/-- The plain maps a column stands for, top first. -/
def plain (v : Column κ E R) : List (κ → V) := levels c.view v

/-- Every clean entry agrees with the map below its layer. -/
def Coherent : Column κ E R → Prop
  | .base _ => True
  | .layer m b =>
    (∀ k e, m.lookup k = some e → c.dirty e = false → c.obs (c.res e) = c.view b k) ∧
      Coherent b

variable {m m' : Assoc κ E} {b b' v : Column κ E R} {k : κ} {e : E}

@[simp] theorem peek_base (d : κ → R) (k : κ) : c.peek (.base d) k = d k := rfl

theorem peek_of_lookup (h : m.lookup k = some e) : c.peek (.layer m b) k = c.res e := by
  simp [peek, Query.peek_layer, query, h]

theorem peek_of_lookup_none (h : m.lookup k = none) : c.peek (.layer m b) k = c.peek b k := by
  simp [peek, Query.peek_layer, query, h]

theorem view_of_lookup (h : m.lookup k = some e) : c.view (.layer m b) k = c.obs (c.res e) := by
  rw [view, peek_of_lookup c h]

theorem view_of_lookup_none (h : m.lookup k = none) : c.view (.layer m b) k = c.view b k := by
  rw [view, peek_of_lookup_none c h, view]

theorem view_layer_congr (hl : m'.lookup k = m.lookup k) (hb : c.view b' k = c.view b k) :
    c.view (.layer m' b') k = c.view (.layer m b) k := by
  cases hm : m.lookup k with
  | some e => rw [c.view_of_lookup (hl.trans hm), c.view_of_lookup hm]
  | none => rw [c.view_of_lookup_none (hl.trans hm), c.view_of_lookup_none hm, hb]

theorem view_congr (h : c.plain b' = c.plain b) : c.view b' = c.view b := levels_top h

theorem plain_layer (m : Assoc κ E) (b : Column κ E R) :
    c.plain (.layer m b) = c.view (.layer m b) :: c.plain b := rfl

theorem coherent_congr_below (h : c.plain b' = c.plain b) (hb : c.Coherent b')
    (hc : c.Coherent (.layer m b)) : c.Coherent (.layer m b') := by
  refine ⟨fun k e hk hd => ?_, hb⟩
  rw [c.view_congr h]
  exact hc.1 k e hk hd

theorem view_layer_congr_below (h : c.plain b' = c.plain b) :
    c.view (.layer m b') = c.view (.layer m b) := by
  funext k
  exact c.view_layer_congr rfl (by rw [c.view_congr h])

theorem view_fill (r : R) (hr : c.obs r = c.view b k) (hk : m.lookup k = none) :
    c.view (.layer ((c.query k).fill r m) b) = c.view (.layer m b) := by
  funext j
  cases hf : c.fresh r with
  | none => simp only [query, hf]
  | some e =>
    simp only [query, hf]
    by_cases hj : j = k
    · subst hj
      rw [c.view_of_lookup (AList.lookup_insert m), c.res_fresh hf, hr, c.view_of_lookup_none hk]
    · exact c.view_layer_congr (AList.lookup_insert_ne hj) rfl

theorem coherent_fill (r : R) (hr : c.obs r = c.view b k) (hc : c.Coherent (.layer m b)) :
    c.Coherent (.layer ((c.query k).fill r m) b) := by
  refine ⟨fun j e hj hd => ?_, hc.2⟩
  cases hf : c.fresh r with
  | none =>
    simp only [query, hf] at hj
    exact hc.1 j e hj hd
  | some e' =>
    simp only [query, hf] at hj
    rw [lookup_insert_eq] at hj
    by_cases hjk : j = k
    · rw [if_pos hjk, some.injEq] at hj
      rw [← hj, c.res_fresh hf, hr, hjk]
    · rw [if_neg hjk] at hj
      exact hc.1 j e hj hd

theorem fetch_spec (k : κ) (hc : c.Coherent v) :
    c.Coherent ((c.query k).fetch v).2 ∧ c.plain ((c.query k).fetch v).2 = c.plain v := by
  induction v with
  | base d => exact ⟨trivial, rfl⟩
  | layer m b ih =>
    cases hf : (c.query k).find m with
    | some r => rw [(c.query k).fetch_of_find hf]; exact ⟨hc, rfl⟩
    | none =>
      have hk : m.lookup k = none := by
        simpa only [query, Option.map_eq_none_iff] using hf
      obtain ⟨hb, hp⟩ := ih hc.2
      have hr : c.obs ((c.query k).fetch b).1 = c.view ((c.query k).fetch b).2 k := by
        rw [Query.fetch_fst, c.view_congr hp]; rfl
      rw [(c.query k).fetch_of_find_none hf]
      refine ⟨c.coherent_fill _ hr (c.coherent_congr_below hp hb hc), ?_⟩
      rw [plain_layer, plain_layer, c.view_fill _ hr hk, c.view_layer_congr_below hp, hp]

/-- **A dirty entry changes the top map at its key only**, keeping the invariant. -/
theorem insert_spec (hd : c.dirty e = true) (hc : c.Coherent (.layer m b)) :
    c.Coherent (.layer (m.insert k e) b) ∧
      c.view (.layer (m.insert k e) b) = update (c.view (.layer m b)) k (c.obs (c.res e)) := by
  refine ⟨⟨fun j e' hj hd' => ?_, hc.2⟩, ?_⟩
  · rw [lookup_insert_eq] at hj
    by_cases hjk : j = k
    · rw [if_pos hjk, some.injEq] at hj
      rw [← hj, hd] at hd'
      exact absurd hd' (by decide)
    · rw [if_neg hjk] at hj
      exact hc.1 j e' hj hd'
  · funext j
    by_cases hjk : j = k
    · subst hjk
      rw [c.view_of_lookup (AList.lookup_insert m), update_self]
    · rw [update_of_ne hjk]
      exact c.view_layer_congr (AList.lookup_insert_ne hjk) rfl

/-- What merging the dirty entries of `m` into `p` over `b` may leave under a key: the dirty
answer, dirty or equal to what lies below. -/
def MergesAt (m p p' : Assoc κ E) (b : Column κ E R) (k : κ) : Prop :=
  ((∀ e, m.lookup k = some e → c.dirty e = false) → p'.lookup k = p.lookup k) ∧
  ∀ e, m.lookup k = some e → c.dirty e = true →
    c.view (.layer p' b) k = c.obs (c.res e) ∧
      ∀ e', p'.lookup k = some e' → c.dirty e' = false → c.obs (c.res e') = c.view b k

theorem merge_spec {p p' : Assoc κ E} (hm : ∀ k, c.MergesAt m p p' b k)
    (hc : c.Coherent (.layer m (.layer p b))) :
    c.Coherent (.layer p' b) ∧ c.view (.layer p' b) = c.view (.layer m (.layer p b)) := by
  have hclean : ∀ k, (∀ e, m.lookup k = some e → c.dirty e = false) →
      c.view (.layer p' b) k = c.view (.layer p b) k := fun k hk =>
    c.view_layer_congr ((hm k).1 hk) rfl
  refine ⟨⟨fun k e' he' hd' => ?_, hc.2.2⟩, ?_⟩
  · by_cases hk : ∀ e, m.lookup k = some e → c.dirty e = false
    · exact hc.2.1 k e' (((hm k).1 hk).symm.trans he') hd'
    · push Not at hk
      obtain ⟨e, he, hde⟩ := hk
      exact ((hm k).2 e he (by simpa using hde)).2 e' he' hd'
  · funext k
    cases hk : m.lookup k with
    | none =>
      rw [hclean k (fun e he => by rw [hk] at he; cases he), c.view_of_lookup_none hk]
    | some e =>
      rw [c.view_of_lookup hk]
      cases hd : c.dirty e with
      | true => exact ((hm k).2 e hk hd).1
      | false =>
        rw [hclean k (fun e' he' => by rw [hk] at he'; cases he'; exact hd)]
        exact (hc.1 k e hk hd).symm

theorem merge_batch_spec [DecidableEq V] {p : Assoc κ E} {f : κ → E → Option E → Option E}
    (w : E → V) {copy : E → E} {onto : E → E → E} (hw : ∀ e, c.obs (c.res e) = w e)
    (hnone : ∀ k e, f k e none = if c.dirty e then some (copy e) else none)
    (hsome : ∀ k e q, f k e (some q) =
      if c.dirty e then if w q ≠ w e then some (onto q e) else some q else some q)
    (hcopy : ∀ e, c.dirty (copy e) = true ∧ w (copy e) = w e)
    (honto : ∀ q e, c.dirty (onto q e) = true ∧ w (onto q e) = w e)
    (hc : c.Coherent (.layer m (.layer p b))) :
    c.Coherent (.layer (batch f m p) b) ∧
      c.view (.layer (batch f m p) b) = c.view (.layer m (.layer p b)) := by
  refine c.merge_spec (fun k => ⟨fun hk => ?_, fun e he hd => ?_⟩) hc
  · rw [lookup_batch]
    cases hm : m.lookup k with
    | none => rfl
    | some e =>
      cases p.lookup k with
      | none => exact (hnone k e).trans (if_neg (by simp [hk e hm]))
      | some q => exact (hsome k e q).trans (if_neg (by simp [hk e hm]))
  · obtain ⟨e', hf, hobs, hd'⟩ : ∃ e', f k e (p.lookup k) = some e' ∧ w e' = w e ∧
        (c.dirty e' = true ∨ p.lookup k = some e') := by
      cases p.lookup k with
      | none => exact ⟨_, (hnone k e).trans (if_pos hd), (hcopy e).2, .inl (hcopy e).1⟩
      | some q =>
        rw [hsome, if_pos hd]
        by_cases hq : w q ≠ w e
        · exact ⟨_, if_pos hq, (honto q e).2, .inl (honto q e).1⟩
        · exact ⟨q, if_neg hq, not_not.mp hq, .inr rfl⟩
    have hl : (batch f m p).lookup k = some e' := by rw [lookup_batch, he, batchAt_some, hf]
    refine ⟨by rw [c.view_of_lookup hl, hw, hw, hobs], fun e'' he'' hclean'' => ?_⟩
    rw [hl, some.injEq] at he''
    subst he''
    rcases hd' with hd' | hp
    · rw [hd'] at hclean''
      exact absurd hclean'' (by decide)
    · exact hc.2.1 k e' hp hclean''

theorem merge_base_spec {d d' : κ → R}
    (hclean : ∀ k, (∀ e, m.lookup k = some e → c.dirty e = false) → d' k = d k)
    (hdirty : ∀ k e, m.lookup k = some e → c.dirty e = true →
      c.obs (d' k) = c.obs (c.res e)) (hc : c.Coherent (.layer m (.base d))) :
    c.view (.base d') = c.view (.layer m (.base d)) := by
  funext k
  cases hk : m.lookup k with
  | none =>
    rw [c.view_of_lookup_none hk, view, peek_base,
      hclean k (fun e he => by rw [hk] at he; cases he)]
    rfl
  | some e =>
    rw [c.view_of_lookup hk]
    cases hd : c.dirty e with
    | true => exact hdirty k e hk hd
    | false =>
      have hsame := hclean k (fun e' he' => by rw [hk] at he'; cases he'; exact hd)
      rw [hc.1 k e hk hd, view, view, peek_base, peek_base, hsame]

theorem view_empty (b : Column κ E R) : c.view (.layer ∅ b) = c.view b := by
  funext k
  exact c.view_of_lookup_none (AList.lookup_empty k)

theorem coherent_empty (hb : c.Coherent b) : c.Coherent (.layer ∅ b) := by
  refine ⟨fun k e hk _ => ?_, hb⟩
  cases hk

end CacheKind
