import Mathlib.Data.List.Sort

/-!
# The Activation Height of an Upgrade

`komodo_activate_sapling` and `komodo_activate_canopy` of `main.cpp` go back 30 blocks from the tip
and look for the first block after a time. As a block is only later than the median of eleven, a
late one may stand among early ones, and the tip decides whether the search gets past it.
-/

open List

namespace Elosys

def komodoSaplingActivation : Nat := 1544832000

def komodoCanopyActivation : Nat := 32503622400

/-- A block that ends the search for the first after a time. -/
def endsSearch (activationTime : Nat) (prevtime : UInt32) : Prop :=
  prevtime.toNat < activationTime - 3600 * 24

instance (activationTime : Nat) : DecidablePred (endsSearch activationTime) :=
  fun _ => Nat.decLt _ _

/-- The loop over the blocks behind one, last to first; a block's height is the number of blocks
behind it. -/
def activationScan (activationTime : Nat) (blocktime : UInt32) :
    List UInt32 → Nat → Nat
  | [], activation => activation
  | prevtime :: prevs, activation =>
    let activation :=
      if prevtime.toNat ≤ activationTime ∧ activationTime < blocktime.toNat then
        (prevs.length + 1) + 60
      else activation
    if endsSearch activationTime prevtime then activation
    else activationScan activationTime prevtime prevs activation

/-- The search from the block 30 blocks behind the tip. -/
def activationFrom (activationTime : Nat) : List UInt32 → Nat
  | [] => 0
  | blocktime :: prevs =>
    if activationTime < blocktime.toNat then activationScan activationTime blocktime prevs 0 else 0

/-- What both functions do with a chain, given as block times from the tip down. -/
def komodoActivate (activationTime : Nat) (chain : List UInt32) : Nat :=
  if chain.length ≤ 30 then 0 else activationFrom activationTime (chain.drop 30)

def komodoActivateSapling : List UInt32 → Nat := komodoActivate komodoSaplingActivation

def komodoActivateCanopy : List UInt32 → Nat := komodoActivate komodoCanopyActivation

/-- `GetMedianTimePast` of the last block of a chain. -/
def getMedianTimePast (chain : List UInt32) : Nat :=
  let pmedian := ((chain.take 11).map UInt32.toNat).insertionSort (· ≤ ·)
  pmedian.getD (pmedian.length / 2) 0

/-- Every block is later than the median before it. -/
def MedianTimeRule : List UInt32 → Prop
  | [] => True
  | t :: prevs => (prevs ≠ [] → getMedianTimePast prevs < t.toNat) ∧ MedianTimeRule prevs

instance decidableMedianTimeRule : DecidablePred MedianTimeRule
  | [] => .isTrue trivial
  | _ :: prevs => @instDecidableAnd _ _ _ (decidableMedianTimeRule prevs)

section

variable {T a : Nat} {b c : UInt32} {prevs rest front : List UInt32}

theorem activationScan_acc (h : activationScan T b prevs 0 ≠ 0) :
    activationScan T b prevs a = activationScan T b prevs 0 := by
  induction prevs generalizing b a with
  | nil => exact absurd rfl h
  | cons p prevs ih =>
    simp only [activationScan] at h ⊢
    by_cases hfirst : p.toNat ≤ T ∧ T < b.toNat
    · simp only [if_pos hfirst]
    · simp only [if_neg hfirst] at h ⊢
      by_cases hend : endsSearch T p
      · exact absurd (if_pos hend) h
      · rw [if_neg hend] at h ⊢
        rw [if_neg hend]
        exact ih h

theorem activationScan_le : activationScan T b prevs a ≤ max a (prevs.length + 60) := by
  induction prevs generalizing b a with
  | nil => exact le_max_left _ _
  | cons p prevs ih =>
    simp only [activationScan, length_cons]
    generalize hfound : (if p.toNat ≤ T ∧ T < b.toNat then prevs.length + 1 + 60 else a) = found
    have hle : found ≤ max a (prevs.length + 1 + 60) := by
      rw [← hfound]
      split
      · exact le_max_right _ _
      · exact le_max_left _ _
    split
    · exact hle
    · exact ih.trans (max_le hle ((Nat.le_succ _).trans (le_max_right _ _)))

theorem activationScan_through (hfront : ∀ t ∈ front, ¬ endsSearch T t) (hc : ¬ endsSearch T c) :
    ∃ a', activationScan T b (front ++ c :: rest) a = activationScan T c rest a' := by
  induction front generalizing b a with
  | nil =>
    rw [nil_append, activationScan]
    exact ⟨_, if_neg hc⟩
  | cons p front ih =>
    obtain ⟨hp, hfront⟩ := forall_mem_cons.mp hfront
    rw [cons_append, activationScan]
    simp only [if_neg hp]
    exact ih hfront

theorem activationScan_stopped (hfront : ∃ t ∈ front, endsSearch T t) :
    activationScan T b (front ++ rest) a = a ∨
      rest.length + 60 < activationScan T b (front ++ rest) a := by
  induction front generalizing b a with
  | nil => simp at hfront
  | cons p front ih =>
    simp only [cons_append, activationScan, length_append]
    generalize hfound : (if p.toNat ≤ T ∧ T < b.toNat then front.length + rest.length + 1 + 60
      else a) = found
    -- the block before `p` is above `rest`
    have habove : found = a ∨ rest.length + 60 < found := by
      rw [← hfound]
      split
      · exact .inr (by omega)
      · exact .inl rfl
    by_cases hp : endsSearch T p
    · rwa [if_pos hp]
    · rw [if_neg hp]
      rcases ih (by simpa [hp] using hfront) with h | h
      · rwa [h]
      · exact .inr h

end

theorem komodoActivate_ne_zero {T : Nat} {chain : List UInt32} (h : komodoActivate T chain ≠ 0) :
    30 < chain.length ∧ ∃ b prevs, chain.drop 30 = b :: prevs ∧ T < b.toNat ∧
      komodoActivate T chain = activationScan T b prevs 0 := by
  have hlen : 30 < chain.length := by
    by_contra hle
    exact h (if_pos (not_lt.mp hle))
  have heq : komodoActivate T chain = activationFrom T (chain.drop 30) := if_neg (not_le.mpr hlen)
  rw [heq] at h ⊢
  cases hdrop : chain.drop 30 with
  | nil => exact absurd (drop_eq_nil_iff.mp hdrop) (not_le.mpr hlen)
  | cons b prevs =>
    rw [hdrop, activationFrom] at h
    have hlate : T < b.toNat := by
      by_contra hle
      exact h (if_neg hle)
    exact ⟨hlen, b, prevs, rfl, hlate, if_pos hlate⟩

theorem komodoActivate_eq_iff {T : Nat} {extra chain : List UInt32}
    (h : komodoActivate T chain ≠ 0) (h' : komodoActivate T (extra ++ chain) ≠ 0) :
    komodoActivate T (extra ++ chain) = komodoActivate T chain ↔
      ∀ t ∈ ((extra ++ chain).drop 30).take extra.length, ¬ endsSearch T t := by
  obtain ⟨hlen, b, prevs, hdrop, hb, heq⟩ := komodoActivate_ne_zero h
  obtain ⟨-, b', prevs', hdrop', hb', heq'⟩ := komodoActivate_ne_zero h'
  have hlate : ∀ {t : UInt32}, T < t.toNat → ¬ endsSearch T t := by
    intro t ht hend
    unfold endsSearch at hend
    omega
  -- the blocks between the starts, and behind them what is behind the lower one
  have hsplit : ((extra ++ chain).drop 30).take extra.length ++ b :: prevs = b' :: prevs' := by
    rw [← hdrop', ← hdrop]
    conv_rhs => rw [← take_append_drop extra.length ((extra ++ chain).drop 30)]
    rw [drop_drop, Nat.add_comm, ← drop_drop, drop_left]
  generalize ((extra ++ chain).drop 30).take extra.length = between at hsplit ⊢
  rw [heq, heq']
  cases between with
  | nil =>
    obtain ⟨rfl, rfl⟩ := cons.inj hsplit
    simp
  | cons t front =>
    rw [cons_append] at hsplit
    obtain ⟨rfl, rfl⟩ := cons.inj hsplit
    rw [forall_mem_cons, and_iff_right (hlate hb')]
    constructor
    · intro hsame x hx hend
      have hle : activationScan T b prevs 0 ≤ max 0 (prevs.length + 60) := activationScan_le
      have hne := heq' ▸ h'
      have habove := (activationScan_stopped ⟨x, hx, hend⟩).resolve_left hne
      rw [hsame, length_cons] at habove
      omega
    · intro hfront
      obtain ⟨a', hscan⟩ : ∃ a', activationScan T t (front ++ b :: prevs) 0 = _ :=
        activationScan_through hfront (hlate hb)
      rw [hscan]
      exact activationScan_acc (heq ▸ h)

theorem komodoActivateCanopy_eq_zero (chain : List UInt32) : komodoActivateCanopy chain = 0 := by
  by_contra h
  obtain ⟨-, b, -, -, hb, -⟩ := komodoActivate_ne_zero h
  have hlt := b.toNat_lt
  rw [komodoCanopyActivation] at hb
  omega

/-- **When two tips agree on the activation height.** No tip activates Canopy. -/
theorem activation_agrees_iff (extra chain : List UInt32) :
    (komodoActivateSapling chain ≠ 0 → komodoActivateSapling (extra ++ chain) ≠ 0 →
      (komodoActivateSapling (extra ++ chain) = komodoActivateSapling chain ↔
        ∀ t ∈ ((extra ++ chain).drop 30).take extra.length,
          ¬ endsSearch komodoSaplingActivation t)) ∧
      komodoActivateCanopy chain = 0 :=
  ⟨komodoActivate_eq_iff, komodoActivateCanopy_eq_zero chain⟩

def blocksFrom (time : UInt32) (n : Nat) : List UInt32 :=
  (range n).reverse.map fun i => time + i.toUInt32

def steadyChain : List UInt32 := blocksFrom 1544832001 31 ++ blocksFrom 1543968000 2

theorem activation_agrees_steadyChain : MedianTimeRule (blocksFrom 1544833000 40 ++ steadyChain) ∧
      komodoActivateSapling steadyChain = 62 ∧
      komodoActivateSapling (blocksFrom 1544833000 40 ++ steadyChain) = 62 := by
  have hne : komodoActivateSapling steadyChain ≠ 0 ∧
      komodoActivateSapling (blocksFrom 1544833000 40 ++ steadyChain) ≠ 0 := by decide +kernel
  have hlate : ((blocksFrom 1544833000 40 ++ steadyChain).drop 30 |>.take 40).all
      (fun t => decide (¬ endsSearch komodoSaplingActivation t)) = true := by decide +kernel
  have hsame := ((activation_agrees_iff (blocksFrom 1544833000 40) steadyChain).1 hne.1 hne.2).mpr
    fun t ht => of_decide_eq_true (all_eq_true.mp hlate t ht)
  have hheight : komodoActivateSapling steadyChain = 62 := by decide +kernel
  exact ⟨by decide +kernel, hheight, hsame.trans hheight⟩

def lateBlockChain : List UInt32 :=
  blocksFrom 1543968010 30 ++ [1544832001] ++ blocksFrom 1543968000 2

/-- **Two tips that do not agree**, on a chain that keeps the median rule. -/
theorem activation_disagrees : MedianTimeRule (blocksFrom 1544832010 31 ++ lateBlockChain) ∧
      komodoActivateSapling lateBlockChain = 62 ∧
      komodoActivateSapling (blocksFrom 1544832010 31 ++ lateBlockChain) = 93 := by
  decide +kernel

end Elosys
