import Mathlib.Data.List.TakeWhile
import Elosys.StateReplay

/-!
# Rewinding Events

`komodo_event_rewind` takes the events at a height and above from the list of a `komodo_state`,
but not what they left: the checkpoint of a notarisation, or the saved height of the main chain.
-/

open List

namespace Elosys

variable (cfg : KomodoConfig)

/-- Events added one by one, each at its height. -/
def addEvents (evs : List Event) (sp : KomodoState) : KomodoState :=
  evs.foldl (fun sp e => addLive cfg sp e.height e) sp

/-- An event its function puts in the list and leaves there. -/
def Event.Added : Event → Prop
  | .notarized e => cfg.isKMD = false ∧ (cfg.isKomodoNotary = true →
      0 ≤ cfg.verifynotarization cfg.symbol e.dest e.height e.notarizedheight e.blockhash
        e.desttxid)
  | .kmdheight e => cfg.isKMD = false ∧ 0 < e.kheight
  | .u _ => False
  | .rewind _ => False
  | _ => cfg.isKMD = false

/-- An event that leaves a checkpoint or greater saved height. -/
def Event.Lasts (sp : KomodoState) : Event → Prop
  | .notarized e => ¬Refused cfg e.height e
  | .kmdheight e => 0 < e.kheight ∧ sp.SAVEDHEIGHT < e.kheight
  | _ => False

/-- The saved height, the last checkpoint and all of them. -/
def KomodoState.record (sp : KomodoState) :
    Int32 × NotarizedCheckpoint × List NotarizedCheckpoint :=
  (sp.SAVEDHEIGHT, sp.last, sp.NPOINTS)

/-- A number that only an event which lasts makes greater. -/
def KomodoState.rank (sp : KomodoState) : Int :=
  sp.SAVEDHEIGHT.toInt + sp.NPOINTS.length

variable {cfg} {sp rp : KomodoState} {e : Event} {evs : List Event} {height : Int32}

theorem record_of_kept (h : sp.kept = rp.kept) : sp.record = rp.record := by
  obtain ⟨hpoints, hlast, hsaved, -⟩ := Kept.mk.inj h
  rw [KomodoState.record, hpoints, hlast, hsaved, KomodoState.record]

theorem rank_of_record (h : sp.record = rp.record) : sp.rank = rp.rank := by
  obtain ⟨hsaved, hrest⟩ := Prod.mk.inj h
  rw [KomodoState.rank, hsaved, (Prod.mk.inj hrest).2, KomodoState.rank]

/-! ### What an event leaves behind -/

theorem record_addLive (h : ¬e.Lasts cfg sp) : (addLive cfg sp e.height e).record = sp.record := by
  cases e with
  | notarized e => exact record_of_kept (kept_of_refused sp (not_not.mp h))
  | kmdheight e =>
    rw [addLive, komodoEventaddKmdheight]
    split
    · next hpos =>
      have hsaved : ¬sp.SAVEDHEIGHT < e.kheight := fun hlt => h ⟨hpos, hlt⟩
      rw [record_of_kept (kept_setkmdheight (kept_addEvent _) _ _), komodoSetkmdheight,
        if_neg hsaved]
      split <;> rfl
    · exact record_of_kept (kept_addEvent _)
  | opreturn e =>
    rw [addLive, komodoEventaddOpreturn]
    split
    · rfl
    · exact record_of_kept (kept_addEvent _)
  | pubkeys e => exact @record_of_kept (sp.addEvent cfg _) sp (kept_addEvent _)
  | pricefeed e => exact record_of_kept (kept_addEvent _)
  | u e => rfl
  | rewind height => rfl

theorem rank_addLive (h : e.Lasts cfg sp) : sp.rank < (addLive cfg sp e.height e).rank := by
  cases e with
  | notarized e =>
    have hrecord : (addLive cfg sp e.height (.notarized e)).record =
        ({ sp with NPOINTS := sp.NPOINTS ++ [e.checkpoint e.height]
                   last := e.checkpoint e.height } : KomodoState).record :=
      record_of_kept (kept_of_not_refused sp h)
    change sp.rank < (addLive cfg sp e.height (.notarized e)).rank
    rw [rank_of_record hrecord]
    rw [KomodoState.rank, KomodoState.rank, length_append]
    exact Int.add_lt_add_left (by simp) _
  | kmdheight e =>
    obtain ⟨hpos, hlt⟩ := h
    have hrecord : (addLive cfg sp e.height (.kmdheight e)).record =
        ({ sp with SAVEDHEIGHT := e.kheight } : KomodoState).record := by
      rw [addLive, komodoEventaddKmdheight, if_pos hpos,
        record_of_kept (kept_setkmdheight (kept_addEvent _) _ _), komodoSetkmdheight, if_pos hlt]
      split <;> rfl
    change sp.rank < (addLive cfg sp e.height (.kmdheight e)).rank
    rw [rank_of_record hrecord]
    exact Int.add_lt_add_right (Int32.lt_iff_toInt_lt.mp hlt) _
  | _ => exact h.elim

theorem rank_addEvents (evs : List Event) (sp : KomodoState) :
    sp.rank ≤ (addEvents cfg evs sp).rank := by
  induction evs generalizing sp with
  | nil => exact Int.le_refl _
  | cons e evs ih =>
    refine Int.le_trans ?_ (ih _)
    by_cases hlasts : e.Lasts cfg sp
    · exact Int.le_of_lt (rank_addLive hlasts)
    · exact Int.le_of_eq (rank_of_record (record_addLive hlasts)).symm

theorem lasts_congr (h : sp.record = rp.record) : e.Lasts cfg sp ↔ e.Lasts cfg rp := by
  cases e with
  | kmdheight e => rw [Event.Lasts, Event.Lasts, (Prod.mk.inj h).1]
  | _ => rfl

theorem record_addEvents_iff (evs : List Event) (sp : KomodoState) :
    (addEvents cfg evs sp).record = sp.record ↔ ∀ e ∈ evs, ¬e.Lasts cfg sp := by
  induction evs generalizing sp with
  | nil => simp [addEvents]
  | cons e evs ih =>
    rw [forall_mem_cons]
    by_cases hlasts : e.Lasts cfg sp
    · refine iff_of_false (fun h => ?_) fun h => h.1 hlasts
      have hlt := Int.lt_of_lt_of_le (rank_addLive hlasts) (@rank_addEvents cfg evs _)
      exact absurd (rank_of_record h) (Int.ne_of_gt hlt)
    · have hrecord := record_addLive hlasts
      refine Iff.trans ?_ (and_iff_right hlasts).symm
      have hrest := ih (addLive cfg sp e.height e)
      simp only [hrecord, lasts_congr hrecord] at hrest
      exact hrest

/-! ### Rewinding -/

theorem events_addLive (h : e.Added cfg) :
    (addLive cfg sp e.height e).events = sp.events ++ [e] := by
  have hadd : ∀ {e : Event}, cfg.isKMD = false →
      (sp.addEvent cfg e).events = sp.events ++ [e] := fun hkmd => by
    rw [KomodoState.addEvent, hkmd, if_neg Bool.false_ne_true]
  cases e with
  | notarized e =>
    obtain ⟨hkmd, hverify⟩ := h
    rw [addLive, komodoEventaddNotarized, if_neg, symbol_matches, if_pos rfl,
      komodoNotarizedUpdate]
    · split <;> exact hadd hkmd
    · rw [Bool.and_eq_true, decide_eq_true_eq]
      exact fun hfails => Int32.not_lt.mpr (hverify hfails.1) hfails.2
  | kmdheight e =>
    rw [addLive, komodoEventaddKmdheight, if_pos h.2, komodoSetkmdheight]
    split <;> split <;> exact hadd h.1
  | opreturn e =>
    have hkmd : cfg.isKMD = false := h
    rw [addLive, komodoEventaddOpreturn, hkmd, if_neg Bool.false_ne_true]
    exact hadd hkmd
  | pubkeys e => exact hadd h
  | pricefeed e => exact hadd h
  | u e => exact h.elim
  | rewind height => exact h.elim

theorem events_addEvents (h : ∀ e ∈ evs, e.Added cfg) (sp : KomodoState) :
    (addEvents cfg evs sp).events = sp.events ++ evs := by
  induction evs generalizing sp with
  | nil => simp [addEvents]
  | cons e evs ih =>
    obtain ⟨he, hevs⟩ := forall_mem_cons.mp h
    rw [append_cons, ← events_addLive he]
    exact ih hevs _

theorem split_at_height (h : evs.Pairwise fun e e' => e.height ≤ e'.height) (height : Int32) :
    evs = evs.filter (·.height < height) ++ evs.filter (height ≤ ·.height) := by
  induction h with
  | nil => rfl
  | @cons e evs he hevs ih =>
    by_cases hlt : e.height < height
    · rw [filter_cons_of_pos (by simpa using hlt), filter_cons_of_neg (by simpa using hlt),
        cons_append, ← ih]
    · have hall : ∀ e' ∈ e :: evs, height ≤ e'.height :=
        forall_mem_cons.mpr ⟨Int32.not_lt.mp hlt, fun e' he' =>
          Int32.le_trans (Int32.not_lt.mp hlt) (he e' he')⟩
      rw [filter_eq_nil_iff.mpr fun e' he' => by simpa using hall e' he', nil_append,
        filter_eq_self.mpr fun e' he' => by simpa using hall e' he']

/-- **A rewind undoes later events** exactly if none has left anything. -/
theorem rewind_undoes_iff (hadded : ∀ e ∈ evs, e.Added cfg)
    (hsorted : evs.Pairwise fun e e' => e.height ≤ e'.height) (height : Int32) :
    let below := evs.filter (·.height < height)
    let sp := komodoEventRewind (addEvents cfg evs {}) height
    sp.events = below ∧
      (sp.record = (addEvents cfg below {}).record ↔
        ∀ e ∈ evs, height ≤ e.height → ¬e.Lasts cfg (addEvents cfg below {})) := by
  intro below sp
  have hsplit := split_at_height hsorted height
  constructor
  · have hbelow : ∀ e ∈ below, e.height < height := fun e he => by
      simpa using (mem_filter.mp he).2
    change (dropWhile _ (addEvents cfg evs {}).events.reverse).reverse = below
    rw [events_addEvents hadded, hsplit, nil_append, reverse_append, dropWhile_append_of_pos,
      dropWhile_eq_self_iff.mpr, reverse_reverse]
    · intro hne
      simpa using hbelow _ (mem_reverse.mp (getElem_mem hne))
    · intro e he
      exact (mem_filter.mp (mem_reverse.mp he)).2
  · change (addEvents cfg evs {}).record = _ ↔ _
    conv_lhs => rw [hsplit, addEvents, foldl_append]
    refine (record_addEvents_iff _ _).trans ?_
    simp only [mem_filter, decide_eq_true_eq, and_imp]
    rfl

def heightEvent (height kheight : Int32) : Event := .kmdheight ⟨height, kheight, 0⟩

theorem rewind_undoes_lowerHeight :
    (komodoEventRewind (addEvents assetChain [heightEvent 10 100, heightEvent 20 90] {}) 15).record
      = (100, {}, []) := by
  have hadded : ∀ e ∈ [heightEvent 10 100, heightEvent 20 90], e.Added assetChain := by
    simp [heightEvent, Event.Added, assetChain, KomodoConfig.isKMD]
  have hlower : ¬(heightEvent 20 90).Lasts assetChain
      (addEvents assetChain [heightEvent 10 100] {}) := fun h => absurd h.2 (by decide)
  refine ((rewind_undoes_iff hadded (by decide) 15).2.mpr fun e he hheight => ?_).trans rfl
  rw [mem_pair] at he
  obtain rfl | rfl := he
  · exact absurd hheight (by decide)
  · exact hlower

/-- **What later events have left stays**, though they are no longer in the list. -/
theorem rewind_keeps_record : let sp := komodoEventRewind (addEvents assetChain [heightEvent 10 100,
      .notarized { height := 12, dest := "KMD", notarizedheight := 8, blockhash := 1 }] {}) 5
    sp.events = [] ∧ sp.SAVEDHEIGHT = 100 ∧ sp.last.notarizedHeight = 8 ∧
      sp.NPOINTS.length = 1 ∧ (addEvents assetChain [] {}).record = (0, {}, []) := by
  decide

end Elosys
