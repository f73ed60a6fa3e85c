import Elosys.ViewColumns

/-!
# Coins: The Cache Stack Refines a Stack of Plain Maps

The `DIRTY` and `FRESH` flags let a flush skip or erase entries. The invariant behind (`Flagged`):
every entry is clean, a fresh one has nothing below, another has its key right below, and one that
is not dirty agrees with what lies below. Every operation keeps it, and the stack behaves as plain
maps.

## Main results

* `step_refines` and `run_refines`: every operation succeeds on a sound stack; a blind edit, which
  makes the same of all records without outputs, is that on plain maps.
* Edits that are not blind can tell a spent record that is still cached from one that is gone.
-/

open AssocBatch LayerStack Option Function

namespace Elosys

abbrev CoinsColumn := Column UInt256 CCoinsCacheEntry (Option CCoins)

namespace CoinsColumn

def Held : CoinsColumn → UInt256 → Prop
  | .base _, _ => True
  | .layer m _, k => (m.lookup k).isSome

/-- What an entry's flags promise about the column below. -/
structure EntryOk (b : CoinsColumn) (k : UInt256) (e : CCoinsCacheEntry) : Prop where
  clean : e.coins.Clean
  fresh : e.fresh = true → coinsKind.view b k = none
  held : e.fresh = false → Held b k
  synced : e.dirty = false → e.coins.present = coinsKind.view b k

/-- Every entry keeps its promise, and the database holds clean coins. -/
def Flagged : CoinsColumn → Prop
  | .base d => ∀ k c, d k = some c → c.Clean
  | .layer m b => (∀ k e, m.lookup k = some e → EntryOk b k e) ∧ Flagged b

variable {b b' v : CoinsColumn} {m p : Assoc UInt256 CCoinsCacheEntry} {k : UInt256}

@[simp] theorem obs_none : coinsKind.obs none = none := rfl

@[simp] theorem obs_some (c : CCoins) : coinsKind.obs (some c) = c.present := rfl

theorem Flagged.coherent (h : Flagged v) : coinsKind.Coherent v := by
  induction v with
  | base d => exact trivial
  | layer m b ih => exact ⟨fun k e hk hd => (h.1 k e hk).synced hd, ih h.2⟩

theorem flagged_empty (h : Flagged b) : Flagged (.layer ∅ b) := by
  refine ⟨fun k e hk => ?_, h⟩
  cases hk

variable {e : CCoinsCacheEntry}

theorem EntryOk.congr_below (h : EntryOk b k e)
    (hp : coinsKind.plain b' = coinsKind.plain b) (hh : Held b k → Held b' k) :
    EntryOk b' k e where
  clean := h.clean
  fresh hf := by rw [coinsKind.view_congr hp]; exact h.fresh hf
  held hf := hh (h.held hf)
  synced hd := by rw [coinsKind.view_congr hp]; exact h.synced hd

theorem EntryOk.fresh_of_lookup_none
    (h : EntryOk (.layer p b) k e) (hp : p.lookup k = none) : e.fresh = true := by
  by_contra hf
  have hheld := h.held (by simpa using hf)
  rw [Held, hp] at hheld
  exact absurd hheld (by decide)

variable {c : CCoins}

theorem entryOk_remembered (hc : c.Clean) (hv : coinsKind.view b k = c.present) (hh : Held b k) :
    EntryOk b k ⟨c, false, c.isPruned⟩ where
  clean := hc
  fresh hf := by rw [hv, CCoins.present_of_isPruned hf]
  held _ := hh
  synced _ := hv.symm

theorem Flagged.clean_of_peek (h : Flagged v) (hc : coinsKind.peek v k = some c) : c.Clean := by
  induction v with
  | base d => exact h k c hc
  | layer m b ih =>
    cases hm : m.lookup k with
    | some e =>
      rw [coinsKind.peek_of_lookup hm] at hc
      rw [← some.inj hc]
      exact (h.1 k e hm).clean
    | none =>
      rw [coinsKind.peek_of_lookup_none hm] at hc
      exact ih h.2 hc

theorem lookup_fill (r : Option CCoins) (m : Assoc UInt256 CCoinsCacheEntry) (k j : UInt256) :
    ((coinsKind.query k).fill r m).lookup j
      = if j = k ∧ r.isSome then r.map (fun c => ⟨c, false, c.isPruned⟩) else m.lookup j := by
  cases r with
  | none => simp [CacheKind.query, coinsKind]
  | some c =>
    change (m.insert k ⟨c, false, c.isPruned⟩).lookup j = _
    rw [lookup_insert_eq]
    simp

theorem Held.fetch {j : UInt256} (k : UInt256) (h : Held v j) :
    Held ((coinsKind.query k).fetch v).2 j := by
  cases v with
  | base d => exact h
  | layer m b =>
    cases hf : (coinsKind.query k).find m with
    | some r => rw [(coinsKind.query k).fetch_of_find hf]; exact h
    | none =>
      rw [(coinsKind.query k).fetch_of_find_none hf, Held, lookup_fill]
      split
      · next hr => rw [isSome_map]; exact hr.2
      · exact h

theorem held_fetch_of_peek (hp : coinsKind.peek v k ≠ none) :
    Held ((coinsKind.query k).fetch v).2 k := by
  cases v with
  | base d => exact trivial
  | layer m b =>
    cases hm : m.lookup k with
    | some e =>
      have hf : (coinsKind.query k).find m = some (some e.coins) := by
        simp [CacheKind.query, coinsKind, hm]
      rw [(coinsKind.query k).fetch_of_find hf, Held, hm]
      rfl
    | none =>
      have hf : (coinsKind.query k).find m = none := by simp [CacheKind.query, hm]
      rw [coinsKind.peek_of_lookup_none hm, ← isSome_iff_ne_none] at hp
      rw [(coinsKind.query k).fetch_of_find_none hf, Query.fetch_fst, Held, lookup_fill,
        if_pos ⟨rfl, hp⟩, isSome_map]
      exact hp

theorem Flagged.fetch (k : UInt256) (h : Flagged v) : Flagged ((coinsKind.query k).fetch v).2 := by
  induction v with
  | base d => exact h
  | layer m b ih =>
    cases hf : (coinsKind.query k).find m with
    | some r => rw [(coinsKind.query k).fetch_of_find hf]; exact h
    | none =>
      have hp := (coinsKind.fetch_spec k h.2.coherent).2
      rw [(coinsKind.query k).fetch_of_find_none hf, Query.fetch_fst]
      refine ⟨fun j e hj => ?_, ih h.2⟩
      rw [lookup_fill] at hj
      split at hj
      · next hr =>
          obtain ⟨c, hc, rfl⟩ := map_eq_some_iff.mp hj
          rw [hr.1]
          refine entryOk_remembered (h.2.clean_of_peek hc) ?_ (held_fetch_of_peek ?_)
          · rw [coinsKind.view_congr hp, CacheKind.view, CacheKind.peek, hc, obs_some]
          · exact fun hn => some_ne_none c (hc.symm.trans hn)
      · exact (h.1 j e hj).congr_below hp (Held.fetch k)

/-! ### Editing -/

def workEntry (k : UInt256) (m : Assoc UInt256 CCoinsCacheEntry) (b : CoinsColumn) :
    CCoinsCacheEntry × CoinsColumn :=
  match m.lookup k with
  | some e => (e, b)
  | none =>
    (CacheView.entryFromBase (coinsKind.peek b k), ((coinsKind.query k).fetch b).2)

def Shows (o : Option CCoins) (c : CCoins) : Prop :=
  match o with
  | some c' => c = c'
  | none => c.vout = []

theorem shows_of_clean (h : c.Clean) : Shows c.present c := by
  cases hp : c.isPruned with
  | true =>
    rw [CCoins.present_of_isPruned hp]
    exact (CCoins.isPruned_iff_of_clean h).mp hp
  | false => rw [CCoins.present_of_not_isPruned hp]; rfl

/-- What the entry under edit promises before the edit. -/
structure WorkOk (k : UInt256) (m : Assoc UInt256 CCoinsCacheEntry) (b : CoinsColumn)
    (w : CCoinsCacheEntry × CoinsColumn) : Prop where
  flagged : Flagged w.2
  plain : coinsKind.plain w.2 = coinsKind.plain b
  held : ∀ j, Held b j → Held w.2 j
  fresh_entry : w.1.fresh = true → coinsKind.view b k = none
  held_entry : w.1.fresh = false → Held w.2 k
  shows : Shows (coinsKind.view (.layer m b) k) w.1.coins

theorem Flagged.workEntry_ok (k : UInt256) (h : Flagged (.layer m b)) :
    WorkOk k m b (workEntry k m b) := by
  cases hm : m.lookup k with
  | some e =>
    have he := h.1 k e hm
    simp only [workEntry, hm]
    refine ⟨h.2, rfl, fun j hj => hj, he.fresh, he.held, ?_⟩
    rw [coinsKind.view_of_lookup hm]
    exact shows_of_clean he.clean
  | none =>
    have hp := (coinsKind.fetch_spec k h.2.coherent).2
    simp only [workEntry, hm]
    cases hr : coinsKind.peek b k with
    | none =>
      have hv : coinsKind.view b k = none := by rw [CacheKind.view, hr, obs_none]
      refine ⟨h.2.fetch k, hp, fun j => Held.fetch k, fun _ => hv, fun hf => ?_, ?_⟩
      · exact absurd hf (by simp [CacheView.entryFromBase])
      · rw [coinsKind.view_of_lookup_none hm, hv]
        rfl
    | some c =>
      have hv : coinsKind.view b k = c.present := by
        rw [CacheKind.view, hr, obs_some]
      refine ⟨h.2.fetch k, hp, fun j => Held.fetch k, fun hf => ?_, fun _ => ?_, ?_⟩
      · rw [hv, CCoins.present_of_isPruned hf]
      · exact held_fetch_of_peek fun hn => some_ne_none c (hr.symm.trans hn)
      · rw [coinsKind.view_of_lookup_none hm, hv]
        exact shows_of_clean (h.2.clean_of_peek hr)

def releasedEntry (e : CCoinsCacheEntry) : Option CCoinsCacheEntry :=
  if e.fresh && e.coins.isPruned then none else some e

theorem Flagged.edit {m' : Assoc UInt256 CCoinsCacheEntry}
    {w : CCoinsCacheEntry × CoinsColumn} (h : Flagged (.layer m b))
    (hw : WorkOk k m b w) (hfresh : e.fresh = w.1.fresh) (hclean : e.coins.Clean)
    (hdirty : e.dirty = true)
    (hm' : ∀ j, m'.lookup j = if j = k then releasedEntry e else m.lookup j) :
    Flagged (.layer m' w.2) ∧ coinsKind.view (.layer m' w.2)
        = update (coinsKind.view (.layer m b)) k e.coins.present := by
  have hent : EntryOk w.2 k e := by
    refine ⟨hclean, fun hf => ?_, fun hf => hw.held_entry (hfresh ▸ hf), fun hd => ?_⟩
    · rw [coinsKind.view_congr hw.plain]
      exact hw.fresh_entry (hfresh ▸ hf)
    · rw [hdirty] at hd
      exact absurd hd (by decide)
  refine ⟨⟨fun j e' hj => ?_, hw.flagged⟩, ?_⟩
  · rw [hm'] at hj
    split at hj
    · next hjk =>
        rw [releasedEntry] at hj
        split at hj
        · cases hj
        · rw [← some.inj hj, hjk]; exact hent
    · exact (h.1 j e' hj).congr_below hw.plain (hw.held j)
  · funext j
    by_cases hjk : j = k
    · subst hjk
      rw [update_self]
      cases hr : releasedEntry e with
      | some e' =>
        have he' : e' = e := by
          rw [releasedEntry] at hr
          split at hr
          · cases hr
          · exact (some.inj hr).symm
        have hl : m'.lookup j = some e := by rw [hm', if_pos rfl, hr, he']
        rw [coinsKind.view_of_lookup hl]
        rfl
      | none =>
        -- the entry was forgotten: the map below has nothing under the key either
        have hp : e.fresh = true ∧ e.coins.isPruned = true := by
          rw [releasedEntry] at hr
          split at hr
          · next hc => simpa using hc
          · cases hr
        have hl : m'.lookup j = none := by rw [hm', if_pos rfl, hr]
        rw [coinsKind.view_of_lookup_none hl, coinsKind.view_congr hw.plain,
          hw.fresh_entry (hfresh ▸ hp.1), CCoins.present_of_isPruned hp.2]
    · rw [update_of_ne hjk]
      exact coinsKind.view_layer_congr (by rw [hm', if_neg hjk])
        (by rw [coinsKind.view_congr hw.plain])

/-! ### Flushing -/

def mergedEntry (_ : UInt256) (e : CCoinsCacheEntry) (us : Option CCoinsCacheEntry) :
    Option CCoinsCacheEntry :=
  if !e.dirty then us
  else
    match us with
    | none => if !e.coins.isPruned then some ⟨e.coins, true, true⟩ else none
    | some q =>
      if q.fresh && e.coins.isPruned then none
      else some { q with coins := e.coins, dirty := true }

theorem Flagged.batchM_ok (h : Flagged (.layer m (.layer p b))) :
    batchM CCoinsViewCache.batchWriteCoins m p = .ok (batch mergedEntry m p) := by
  refine batchM_eq_ok _ _ m p fun k e he => ?_
  have hok := h.1 k e he
  cases hus : p.lookup k with
  | some q =>
    rw [CCoinsViewCache.batchWriteCoins, mergedEntry]
    cases e.dirty <;> cases q.fresh <;> cases e.coins.isPruned <;> rfl
  | none =>
    have hfresh := hok.fresh_of_lookup_none hus
    rw [CCoinsViewCache.batchWriteCoins, mergedEntry, hfresh]
    cases e.dirty <;> cases e.coins.isPruned <;> rfl

theorem Flagged.merged_ok (h : Flagged (.layer m (.layer p b)))
    (he : m.lookup k = some e) (hd : e.dirty = true) :
    (∀ e', mergedEntry k e (p.lookup k) = some e' →
      EntryOk b k e' ∧ e'.dirty = true ∧ e'.coins = e.coins) ∧
    (mergedEntry k e (p.lookup k) = none → coinsKind.view b k = e.coins.present) := by
  have hok := h.1 k e he
  cases hus : p.lookup k with
  | none =>
    have hview : e.fresh = true → coinsKind.view b k = none := fun hf => by
      rw [← coinsKind.view_of_lookup_none (b := b) hus]
      exact hok.fresh hf
    have hfresh := hok.fresh_of_lookup_none hus
    simp only [mergedEntry, hd, Bool.not_true, Bool.false_eq_true, if_false]
    cases hp : e.coins.isPruned with
    | true =>
      refine ⟨fun e' he' => absurd he' (by simp), fun _ => ?_⟩
      rw [hview hfresh, CCoins.present_of_isPruned hp]
    | false =>
      refine ⟨fun e' he' => ?_, fun hn => absurd hn (by simp)⟩
      simp only [Bool.not_false, if_true, some.injEq] at he'
      rw [← he']
      exact ⟨⟨hok.clean, fun _ => hview hfresh, fun hf => absurd hf (by simp),
        fun hf => absurd hf (by simp)⟩, rfl, rfl⟩
  | some q =>
    have hq := h.2.1 k q hus
    simp only [mergedEntry, hd, Bool.not_true, Bool.false_eq_true, if_false]
    by_cases hc : (q.fresh && e.coins.isPruned) = true
    · rw [if_pos hc]
      rw [Bool.and_eq_true] at hc
      refine ⟨fun e' he' => absurd he' (by simp), fun _ => ?_⟩
      rw [hq.fresh hc.1, CCoins.present_of_isPruned hc.2]
    · rw [if_neg hc]
      refine ⟨fun e' he' => ?_, fun hn => absurd hn (by simp)⟩
      rw [← some.inj he']
      exact ⟨⟨hok.clean, hq.fresh, hq.held, fun hf => absurd hf (by simp)⟩, rfl, rfl⟩

/-- **A flush into a cache keeps the invariant** and hands the contents down. -/
theorem Flagged.flush (h : Flagged (.layer m (.layer p b))) :
    Flagged (.layer (batch mergedEntry m p) b) ∧ coinsKind.view (.layer (batch mergedEntry m p) b)
        = coinsKind.view (.layer m (.layer p b)) := by
  have hclean : ∀ k, (∀ e, m.lookup k = some e → e.dirty = false) →
      (batch mergedEntry m p).lookup k = p.lookup k := by
    intro k hk
    rw [lookup_batch]
    cases hm : m.lookup k with
    | none => rfl
    | some e => simp [mergedEntry, hk e hm]
  have hdirty : ∀ k e, m.lookup k = some e →
      (batch mergedEntry m p).lookup k = mergedEntry k e (p.lookup k) := by
    intro k e hm
    rw [lookup_batch, hm, batchAt_some]
  refine ⟨⟨fun k e' he' => ?_, h.2.2⟩, ?_⟩
  · by_cases hk : ∀ e, m.lookup k = some e → e.dirty = false
    · exact h.2.1 k e' ((hclean k hk).symm.trans he')
    · push Not at hk
      obtain ⟨e, he, hde⟩ := hk
      exact ((h.merged_ok he (by simpa using hde)).1 e' ((hdirty k e he).symm.trans he')).1
  · refine (coinsKind.merge_spec (fun k => ⟨hclean k, fun e he hd => ?_⟩) h.coherent).2
    have hmerged := h.merged_ok he hd
    have hl := hdirty k e he
    cases hr : mergedEntry k e (p.lookup k) with
    | none =>
      refine ⟨?_, fun e' he' => ?_⟩
      · rw [coinsKind.view_of_lookup_none (hl.trans hr), hmerged.2 hr]
        rfl
      · rw [hl.trans hr] at he'
        cases he'
    | some e₁ =>
      obtain ⟨-, hd₁, hc₁⟩ := hmerged.1 e₁ hr
      refine ⟨?_, fun e' he' hd' => ?_⟩
      · rw [coinsKind.view_of_lookup (hl.trans hr)]
        change e₁.coins.present = e.coins.present
        rw [hc₁]
      · rw [hl.trans hr, some.injEq] at he'
        rw [← he'] at hd'
        exact absurd (hd₁.symm.trans hd') (by decide)

theorem flagged_base_getCoins [NoteTrees] (d : CCoinsViewDB) : Flagged (.base d.getCoins) := by
  intro k c hc
  obtain ⟨s, -, hs⟩ := map_eq_some_iff.mp hc
  rw [← hs]
  exact s.clean

theorem Flagged.flush_base [NoteTrees] {d : CCoinsViewDB} {l : CCoinsViewCache}
    (h : Flagged (.layer l.cacheCoins (.base d.getCoins))) :
    coinsKind.view (.base (d.batchWrite l).getCoins)
      = coinsKind.view (.layer l.cacheCoins (.base d.getCoins)) := by
  have hlookup : ∀ k, (d.batchWrite l).getCoins k
      = (batchAt CCoinsViewDB.batchWriteCoins k (l.cacheCoins.lookup k)
          (d.coins.lookup k)).map StoredCoins.coins := by
    intro k
    rw [CCoinsViewDB.getCoins, CCoinsViewDB.batchWrite, lookup_batch]
  refine coinsKind.merge_base_spec (fun k hk => ?_) (fun k e he hd => ?_) h.coherent
  · rw [hlookup]
    cases hm : l.cacheCoins.lookup k with
    | none => rfl
    | some e =>
      have hd : e.dirty = false := hk e hm
      rw [batchAt_some, CCoinsViewDB.batchWriteCoins, hd]
      rfl
  · have hd' : e.dirty = true := hd
    rw [hlookup, he, batchAt_some, CCoinsViewDB.batchWriteCoins, if_pos hd']
    change _ = e.coins.present
    by_cases hp : e.coins.isPruned = false
    · rw [dif_pos hp, CCoins.present_of_not_isPruned hp, map_some, obs_some,
        StoredCoins.coins_ofCoins, (h.1 k e he).clean, CCoins.present_of_not_isPruned hp]
    · rw [dif_neg hp, CCoins.present_of_isPruned (by simpa using hp)]
      rfl

end CoinsColumn

/-! ### Operations on the stack -/

section

variable [NoteTrees]

open CoinsColumn View

def View.plainCoins (v : View) : UInt256 → Option CCoins := coinsKind.view v.coinsColumn

/-- The invariant of a stack between two operations. -/
structure CacheView.Sound (v : CacheView) : Prop where
  idle : View.Idle v.stack
  flagged : Flagged (coinsColumn v.stack)

def CacheView.coinsGenerations (v : CacheView) : Generations (UInt256 → Option CCoins) :=
  v.generations View.plainCoins

theorem View.levels_plainCoins (v : View) :
    levels View.plainCoins v = coinsKind.plain v.coinsColumn :=
  levels_map coinsKind.view CCoinsViewDB.getCoins CCoinsViewCache.cacheCoins v

variable {v : CacheView}

namespace CacheView

theorem Sound.ask_of_frame {R : Type} (h : v.Sound) (q : Query CCoinsViewDB CCoinsViewCache R)
    (hmod : ∀ r l, (q.fill r l).hasModifier = l.hasModifier)
    (hcoins : ∀ r l, (q.fill r l).cacheCoins = l.cacheCoins) : Sound (q.ask v).2 := by
  refine ⟨?_, ?_⟩
  · rw [Query.stack_ask]
    exact View.idle_fetch q hmod h.idle
  · rw [Query.stack_ask, coinsColumn, map_fetch_of_frame _ _ q hcoins]
    exact h.flagged

theorem coinsGenerations_congr {v v' : CacheView}
    (h : coinsKind.plain (coinsColumn v'.stack) = coinsKind.plain (coinsColumn v.stack)) :
    v'.coinsGenerations = v.coinsGenerations := by
  refine Tip.generations_congr ?_
  rw [View.levels_plainCoins, View.levels_plainCoins, h]

section

variable (txid : UInt256)

theorem getCoins_fst (v : CacheView) :
    (getCoins txid v).1.bind CCoins.present = v.coinsGenerations.top txid := by
  rw [getCoins, Query.ask_fst, ← (View.coinsColumn_fetch txid v.stack).2]
  rfl

theorem haveCoins_fst (h : v.Sound) :
    (haveCoins txid v).1 = (v.coinsGenerations.top txid).isSome := by
  rw [← getCoins_fst, haveCoins]
  have hclean : ∀ c, (getCoins txid v).1 = some c → c.Clean := by
    intro c hc
    rw [getCoins, Query.ask_fst, ← (View.coinsColumn_fetch txid v.stack).2] at hc
    exact h.flagged.clean_of_peek hc
  change (getCoins txid v).1.any _ = _
  cases hr : (getCoins txid v).1 with
  | none => rfl
  | some c =>
    have hp := CCoins.isPruned_iff_of_clean (hclean c hr)
    cases hpr : c.isPruned with
    | true =>
      simp only [any_some, bind_some]
      rw [CCoins.present_of_isPruned hpr, hp.mp hpr]
      rfl
    | false =>
      have hne : c.vout ≠ [] := fun hn => by
        rw [hp.mpr hn] at hpr
        cases hpr
      simp [CCoins.present_of_not_isPruned hpr, hne]

theorem getCoins_snd (h : v.Sound) :
    (getCoins txid v).2.Sound ∧ (getCoins txid v).2.coinsGenerations = v.coinsGenerations := by
  have hcol := (View.coinsColumn_fetch txid v.stack).1
  have hstack : (getCoins txid v).2.stack = ((coinsQuery txid).fetch v.stack).2 :=
    Query.stack_ask _ _
  refine ⟨⟨?_, ?_⟩, coinsGenerations_congr ?_⟩
  · rw [hstack]
    refine View.idle_fetch _ (fun r l => ?_) h.idle
    cases r <;> rfl
  · rw [hstack, hcol]
    exact h.flagged.fetch txid
  · rw [hstack, hcol]
    exact (coinsKind.fetch_spec txid h.flagged.coherent).2

theorem workEntry_column (v : CacheView) :
    (workEntry txid v).1 = (CoinsColumn.workEntry txid v.top.cacheCoins (coinsColumn v.base)).1 ∧
    coinsColumn (workEntry txid v).2
      = (CoinsColumn.workEntry txid v.top.cacheCoins (coinsColumn v.base)).2 := by
  obtain ⟨hcol, hpeek⟩ := View.coinsColumn_fetch txid v.base
  cases hm : v.top.cacheCoins.lookup txid with
  | some e => simp [workEntry, CoinsColumn.workEntry, hm]
  | none =>
    simp only [workEntry, CoinsColumn.workEntry, hm, Query.fetch_fst, CacheKind.peek, hpeek]
    exact ⟨trivial, hcol⟩

theorem idle_workEntry (h : View.Idle v.stack) : View.Idle (workEntry txid v).2 := by
  cases hm : v.top.cacheCoins.lookup txid with
  | some e => simp only [workEntry, hm]; exact h.2
  | none =>
    simp only [workEntry, hm]
    refine View.idle_fetch _ (fun r l => ?_) h.2
    cases r <;> rfl

def editedCoins (edit : CCoins → CCoins) (v : CacheView) : Assoc UInt256 CCoinsCacheEntry :=
  let e := (workEntry txid v).1
  let m := v.top.cacheCoins.insert txid { e with dirty := true }
  let entry := { e with dirty := true, coins := (edit e.coins).cleanup : CCoinsCacheEntry }
  if entry.fresh && entry.coins.isPruned then m.erase txid else m.insert txid entry

/-- **No assertion of `ModifyCoins` or `CCoinsModifier` fails** without an open modifier. -/
theorem modifyCoinsWith_eq (edit : CCoins → CCoins) (h : v.top.hasModifier = false) :
    modifyCoinsWith txid edit v = .ok ((workEntry txid v).1.coins,
          ⟨{ v.top with cacheCoins := editedCoins txid edit v }, (workEntry txid v).2⟩) := by
  simp only [modifyCoinsWith, modifyCoins, h, CCoinsModifier.release, editedCoins]
  rfl

theorem lookup_editedCoins (edit : CCoins → CCoins) (v : CacheView) (j : UInt256) :
    (editedCoins txid edit v).lookup j = if j = txid then
          releasedEntry { (workEntry txid v).1 with
              dirty := true
              coins := (edit (workEntry txid v).1.coins).cleanup }
        else v.top.cacheCoins.lookup j := by
  simp only [editedCoins, releasedEntry]
  split
  · rw [lookup_erase_eq, lookup_insert_eq]
    split <;> rfl
  · rw [lookup_insert_eq, lookup_insert_eq]
    split <;> rfl

theorem modifyCoinsWith_spec (edit : CCoins → CCoins) (h : v.Sound) :
    ∃ c v', modifyCoinsWith txid edit v = .ok (c, v') ∧ v'.Sound ∧
      Shows (v.coinsGenerations.top txid) c ∧
      v'.coinsGenerations
        = v.coinsGenerations.modify fun m => update m txid (edit c).cleanup.present := by
  obtain ⟨hfst, hsnd⟩ := workEntry_column txid v
  have hf : Flagged (.layer v.top.cacheCoins (coinsColumn v.base)) := h.flagged
  have hw := Flagged.workEntry_ok txid hf
  have hedit := Flagged.edit hf hw (e := { (workEntry txid v).1 with
      dirty := true, coins := (edit (workEntry txid v).1.coins).cleanup })
    (by rw [← hfst]) (CCoins.clean_cleanup _) rfl (lookup_editedCoins txid edit v)
  rw [← hsnd] at hedit
  refine ⟨_, _, modifyCoinsWith_eq txid edit h.idle.1, ⟨⟨h.idle.1, ?_⟩, hedit.1⟩, ?_, ?_⟩
  · exact idle_workEntry txid h.idle
  · rw [hfst]
    exact hw.shows
  · have hlevels : levels View.plainCoins (workEntry txid v).2 = levels View.plainCoins v.base := by
      rw [View.levels_plainCoins, View.levels_plainCoins, hsnd]
      exact hw.plain
    rw [coinsGenerations, Tip.generations, hlevels]
    exact congrArg (fun m => (⟨m, _⟩ : Generations (UInt256 → Option CCoins))) hedit.2

end

end CacheView

/-- The parent after a `BatchWrite` without failure. -/
def CCoinsViewCache.merged (child p : CCoinsViewCache) : CCoinsViewCache :=
  { p with
    cacheCoins := batch mergedEntry child.cacheCoins p.cacheCoins
    cacheAnchors := fun t =>
      batch CCoinsViewCache.batchWriteAnchors (child.cacheAnchors t) (p.cacheAnchors t)
    cacheNullifiers := fun s =>
      batch CCoinsViewCache.batchWriteNullifiers (child.cacheNullifiers s)
        (p.cacheNullifiers s)
    cacheZkProofHash := fun q =>
      batch CCoinsViewCache.batchWriteProofHashes (child.cacheZkProofHash q)
        (p.cacheZkProofHash q)
    hashAnchor := child.hashAnchor
    hashBlock := child.hashBlock }

/-- The view below after a flush, when no assertion fails. -/
def View.merged (child : CCoinsViewCache) : View → View
  | .base d => .base (d.batchWrite child)
  | .layer p b => .layer (child.merged p) b

namespace CacheView

theorem flush_eq (h : v.Sound) : flush v = .ok ⟨v.top.cleared, View.merged v.top v.base⟩ := by
  obtain ⟨l, b⟩ := v
  cases b with
  | base d => rfl
  | layer p b =>
    have hmod : p.hasModifier = false := h.idle.2.1
    have hbatch := Flagged.batchM_ok h.flagged
    simp only [flush, View.batchWrite, CCoinsViewCache.batchWrite, hmod, hbatch,
      View.merged, CCoinsViewCache.merged]
    rfl

theorem Sound.flush (h : v.Sound) : Sound ⟨v.top.cleared, View.merged v.top v.base⟩ := by
  obtain ⟨l, b⟩ := v
  cases b with
  | base d =>
    exact ⟨⟨h.idle.1, trivial⟩, flagged_empty (flagged_base_getCoins _)⟩
  | layer p b =>
    exact ⟨⟨h.idle.1, h.idle.2⟩, flagged_empty (Flagged.flush h.flagged).1⟩

theorem plainCoins_merged (h : v.Sound) :
    plainCoins (View.merged v.top v.base) = plainCoins v.stack := by
  obtain ⟨l, b⟩ := v
  cases b with
  | base d => exact Flagged.flush_base h.flagged
  | layer p b => exact (Flagged.flush h.flagged).2

theorem coinsGenerations_flush (h : v.Sound) :
    coinsGenerations ⟨v.top.cleared, View.merged v.top v.base⟩ = v.coinsGenerations.flush := by
  refine Tip.generations_flush ?_ (plainCoins_merged h) ?_
  · exact (coinsKind.view_empty _).trans (plainCoins_merged h)
  · obtain ⟨l, b⟩ := v
    cases b with
    | base d => rfl
    | layer p b => rfl

theorem push_spec (h : v.Sound) :
    v.push.Sound ∧ v.push.coinsGenerations = v.coinsGenerations.push := by
  exact ⟨⟨⟨rfl, h.idle⟩, flagged_empty h.flagged⟩, rfl⟩

theorem drop_spec (h : v.Sound) :
    v.drop.Sound ∧ v.drop.coinsGenerations = v.coinsGenerations.drop := by
  obtain ⟨l, b⟩ := v
  cases b with
  | base d => exact ⟨h, rfl⟩
  | layer l' b =>
    exact ⟨⟨h.idle.2, h.flagged.2⟩, Tip.generations_drop View.plainCoins l l' b⟩

end CacheView

/-! ### Runs -/

/-- An operation on the coins of a stack of caches. -/
inductive CoinsOp where
  | push
  | drop
  | flush
  | getCoins (txid : UInt256)
  | accessCoins (txid : UInt256)
  | haveCoins (txid : UInt256)
  | modifyCoins (txid : UInt256) (edit : CCoins → CCoins)

namespace CoinsOp

def step : CoinsOp → CacheView → Except Fault CacheView
  | push, v => .ok v.push
  | drop, v => .ok v.drop
  | flush, v => v.flush
  | getCoins txid, v => .ok (v.getCoins txid).2
  | accessCoins txid, v => .ok (v.getCoins txid).2
  | haveCoins txid, v => .ok (v.haveCoins txid).2
  | modifyCoins txid edit, v => (v.modifyCoinsWith txid edit).map Prod.snd

/-- One operation on the stack of plain maps: an edit of a transaction that is not there starts from
`CCoins()`. -/
def plainStep : CoinsOp → Generations (UInt256 → Option CCoins) →
    Generations (UInt256 → Option CCoins)
  | push, g => g.push
  | drop, g => g.drop
  | flush, g => g.flush
  | getCoins _, g => g
  | accessCoins _, g => g
  | haveCoins _, g => g
  | modifyCoins txid edit, g =>
    g.modify fun m => update m txid (edit ((g.top txid).getD {})).cleanup.present

/-- An edit of a transaction that is not there comes out the same on every record without outputs:
the record of one that was spent in the cache still has its metadata. -/
def Blind (g : Generations (UInt256 → Option CCoins)) : CoinsOp → Prop
  | modifyCoins txid edit => g.top txid = none → ∀ c : CCoins, c.vout = [] →
      (edit c).cleanup.present = (edit {}).cleanup.present
  | _ => True

/-- Every edit of a run is blind where it is made. -/
def BlindRun : List CoinsOp → Generations (UInt256 → Option CCoins) → Prop
  | [], _ => True
  | op :: ops, g => op.Blind g ∧ BlindRun ops (op.plainStep g)

/-- **One step**: an operation on a sound stack succeeds, soundly, and a blind one is that on plain
maps. -/
theorem step_refines (op : CoinsOp) (h : v.Sound) : ∃ v', op.step v = .ok v' ∧ v'.Sound ∧
      (op.Blind v.coinsGenerations → v'.coinsGenerations = op.plainStep v.coinsGenerations) := by
  cases op with
  | push =>
    obtain ⟨hs, hg⟩ := CacheView.push_spec h
    exact ⟨_, rfl, hs, fun _ => hg⟩
  | drop =>
    obtain ⟨hs, hg⟩ := CacheView.drop_spec h
    exact ⟨_, rfl, hs, fun _ => hg⟩
  | flush =>
    exact ⟨_, CacheView.flush_eq h, h.flush, fun _ => CacheView.coinsGenerations_flush h⟩
  | getCoins txid =>
    obtain ⟨hs, hg⟩ := CacheView.getCoins_snd txid h
    exact ⟨_, rfl, hs, fun _ => hg⟩
  | accessCoins txid =>
    obtain ⟨hs, hg⟩ := CacheView.getCoins_snd txid h
    exact ⟨_, rfl, hs, fun _ => hg⟩
  | haveCoins txid =>
    obtain ⟨hs, hg⟩ := CacheView.getCoins_snd txid h
    exact ⟨_, rfl, hs, fun _ => hg⟩
  | modifyCoins txid edit =>
    obtain ⟨c, v', hv', hs, hshows, hg⟩ := CacheView.modifyCoinsWith_spec txid edit h
    refine ⟨v', by rw [step, hv']; rfl, hs, fun hblind => ?_⟩
    rw [hg, plainStep]
    cases htop : v.coinsGenerations.top txid with
    | none =>
      rw [htop] at hshows
      rw [hblind htop c hshows]
      rfl
    | some c' =>
      rw [htop] at hshows
      obtain rfl : c = c' := hshows
      rfl

theorem run_refines (ops : List CoinsOp) (h : v.Sound) :
    ∃ v', ops.foldlM (fun v op => op.step v) v = .ok v' ∧ v'.Sound ∧
      (BlindRun ops v.coinsGenerations →
        v'.coinsGenerations = ops.foldl (fun g op => op.plainStep g) v.coinsGenerations) := by
  induction ops generalizing v with
  | nil => exact ⟨v, rfl, h, fun _ => rfl⟩
  | cons op ops ih =>
    obtain ⟨v₁, hstep, hs₁, hp₁⟩ := step_refines op h
    obtain ⟨v', hrun, hs', hp'⟩ := ih hs₁
    refine ⟨v', by rwa [List.foldlM_cons, hstep], hs', fun hblind => ?_⟩
    rw [hp₁ hblind.1] at hp'
    exact hp' hblind.2

theorem sound_new (d : CCoinsViewDB) : CacheView.Sound ⟨{}, .base d⟩ :=
  ⟨⟨rfl, trivial⟩, flagged_empty (flagged_base_getCoins d)⟩

/-- **The stack of caches refines the stack of plain maps**: every sequence of operations runs
without a failed assertion, and answers what the top map says if its edits are blind. -/
theorem coins_stack_refines (d : CCoinsViewDB) (ops : List CoinsOp) :
    ∃ v, ops.foldlM (fun v op => op.step v) ⟨{}, .base d⟩ = .ok v ∧
      (BlindRun ops ⟨d.getCoins, [d.getCoins]⟩ →
        let g := ops.foldl (fun g op => op.plainStep g) ⟨d.getCoins, [d.getCoins]⟩
        ∀ txid, (v.getCoins txid).1.bind CCoins.present = g.top txid ∧
          (v.haveCoins txid).1 = (g.top txid).isSome) := by
  obtain ⟨v, hrun, hs, hp⟩ := run_refines ops (sound_new d)
  have hbase : plainCoins (.base d) = d.getCoins := by
    funext k
    change (d.getCoins k).bind CCoins.present = d.getCoins k
    rw [CCoinsViewDB.getCoins]
    cases d.coins.lookup k with
    | none => rfl
    | some s => exact CCoins.present_of_not_isPruned s.notPruned
  have hstart : CacheView.coinsGenerations ⟨{}, .base d⟩ = ⟨d.getCoins, [d.getCoins]⟩ := by
    have htop : plainCoins (.layer {} (.base d)) = plainCoins (.base d) :=
      coinsKind.view_empty _
    rw [CacheView.coinsGenerations, Tip.generations, Tip.stack_mk, htop, levels_base, hbase]
  rw [hstart] at hp
  refine ⟨v, hrun, fun hblind txid => ?_⟩
  rw [← hp hblind]
  exact ⟨CacheView.getCoins_fst txid v, CacheView.haveCoins_fst txid hs⟩

end CoinsOp

end

namespace CoinsOp

local instance coinTrees : NoteTrees := listTrees

/-- A database with one coinbase record. -/
def coinbaseDB : CCoinsViewDB where
  coins := (∅ : Assoc UInt256 StoredCoins).insert 7
    (StoredCoins.ofCoins { fCoinBase := true, vout := [⟨5, []⟩] } rfl)

/-- Spends the record's output and puts one back, with a `Flush` between if wanted. -/
def respend (flushed : Bool) : List CoinsOp :=
  let spend := modifyCoins 7 fun c => { c with vout := [] }
  let put := modifyCoins 7 fun c => { c with vout := [⟨5, []⟩] }
  if flushed then [spend, flush, put] else [spend, put]

/-- The coinbase flag under 7 after a run. -/
def respent (flushed : Bool) : Except Fault (Option Bool) := do
  let v ← (respend flushed).foldlM (fun v (op : CoinsOp) => op.step v) ⟨{}, .base coinbaseDB⟩
  return (v.getCoins 7).1.map (·.fCoinBase)

/-- **The cache remembers a spent record**: what is put back is a coinbase again, though on plain
maps, and after a `Flush`, it is not. -/
theorem tombstone_seen :
    respent false = .ok (some true) ∧ respent true = .ok (some false) ∧
      (((respend false).foldl (fun g (op : CoinsOp) => op.plainStep g)
        ⟨coinbaseDB.getCoins, [coinbaseDB.getCoins]⟩).top 7).map (·.fCoinBase) = some false :=
  ⟨rfl, rfl, rfl⟩

end CoinsOp

end Elosys
