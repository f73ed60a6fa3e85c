import Mathlib.Data.Nat.Log
import Mathlib.Data.List.Nodup
import Mathlib.Tactic.Common
import Mathlib.Tactic.Ring

/-!
# Levels of Paired Hashes

A list of hashes is paired up, level by level, until one is left; a last one without partner is
paired with itself. Only a list that ends in a pair of equals (`endsTwice`) makes this ambiguous.
-/

open List Option

namespace PairedLevels

variable {H : Type} (hash : H → H → H)

def up : List H → List H
  | [] => []
  | [a] => [hash a a]
  | a :: b :: l => hash a b :: up l

def level : Nat → List H → List H
  | 0, l => l
  | k + 1, l => level k (up hash l)

def endsTwice [DecidableEq H] : List H → Bool
  | [] => false
  | [_] => false
  | [a, b] => a == b
  | _ :: _ :: c :: l => endsTwice (c :: l)

def PairInjective : Prop := ∀ a b c d, hash a b = hash c d → a = c ∧ b = d

variable {hash}

/-! ### Positions -/

@[simp] theorem length_up (l : List H) : (up hash l).length = (l.length + 1) / 2 := by
  induction l using up.induct with
  | case1 => simp [up]
  | case2 a => simp [up]
  | case3 a b l ih =>
    simp only [up, length_cons, ih]
    omega

variable {l : List H}

theorem up_eq_nil : up hash l = [] ↔ l = [] := by
  rw [← length_eq_zero_iff, ← length_eq_zero_iff, length_up]
  omega

theorem getElem?_up (l : List H) (j : Nat) : (up hash l)[j]? =
      (l[2 * j]?).bind fun a => (l[min (2 * j + 1) (l.length - 1)]?).map (hash a) := by
  induction l using up.induct generalizing j with
  | case1 => simp [up]
  | case2 a =>
    cases j with
    | zero => simp [up]
    | succ j => simp [up]
  | case3 a b l ih =>
    cases j with
    | zero => simp [up]
    | succ j =>
      have hdouble : 2 * (j + 1) = 2 * j + 1 + 1 := by omega
      simp only [up, getElem?_cons_succ, ih, hdouble]
      by_cases hj : 2 * j < l.length
      · have hmin : min (2 * j + 1 + 1 + 1) ((a :: b :: l).length - 1) =
            min (2 * j + 1) (l.length - 1) + 1 + 1 := by
          simp only [length_cons]
          omega
        rw [hmin, getElem?_cons_succ, getElem?_cons_succ]
      · rw [getElem?_eq_none (by omega)]
        rfl

theorem level_succ (k : Nat) (l : List H) : level hash (k + 1) l = up hash (level hash k l) := by
  induction k generalizing l with
  | zero => rfl
  | succ k ih => exact ih (up hash l)

theorem level_add (j k : Nat) (l : List H) :
    level hash (j + k) l = level hash j (level hash k l) := by
  induction k generalizing l with
  | zero => rfl
  | succ k ih => exact ih (up hash l)

theorem width_succ (n k : Nat) :
    (n + 2 ^ (k + 1) - 1) / 2 ^ (k + 1) = ((n + 2 ^ k - 1) / 2 ^ k + 1) / 2 := by
  have hpos : 0 < 2 ^ k := Nat.two_pow_pos k
  rw [Nat.pow_succ, ← Nat.div_div_eq_div_mul, ← Nat.add_div_right _ hpos]
  congr 2
  omega

theorem length_level (k : Nat) (l : List H) :
    (level hash k l).length = (l.length + 2 ^ k - 1) / 2 ^ k := by
  induction k with
  | zero => simp [level]
  | succ k ih => rw [level_succ, length_up, ih, width_succ]

variable [DecidableEq H]

theorem up_inj (hinj : PairInjective hash) {l l' : List H} (hup : up hash l = up hash l')
    (hl : endsTwice l = false) (hl' : endsTwice l' = false) : l = l' := by
  induction l using up.induct generalizing l' with
  | case1 => exact (up_eq_nil.mp hup.symm).symm
  | case2 a =>
    match l', hup, hl' with
    | [c], hup, _ =>
      rw [(hinj _ _ _ _ (cons.inj hup).1).1]
    | c :: d :: m, hup, hl' =>
      obtain ⟨hhead, htail⟩ := cons.inj hup
      obtain ⟨rfl, rfl⟩ := hinj _ _ _ _ hhead
      obtain rfl := up_eq_nil.mp htail.symm
      simp [endsTwice] at hl'
  | case3 a b l ih =>
    match l', hup, hl' with
    | [c], hup, _ =>
      obtain ⟨hhead, htail⟩ := cons.inj hup
      obtain ⟨rfl, rfl⟩ := hinj _ _ _ _ hhead
      obtain rfl := up_eq_nil.mp htail
      simp [endsTwice] at hl
    | c :: d :: m, hup, hl' =>
      obtain ⟨hhead, htail⟩ := cons.inj hup
      obtain ⟨rfl, rfl⟩ := hinj _ _ _ _ hhead
      have hrest : ∀ {x y : H} {n : List H}, endsTwice (x :: y :: n) = false →
          endsTwice n = false := by
        intro x y n hn
        cases n with
        | nil => rfl
        | cons z n => exact hn
      rw [ih htail (hrest hl) (hrest hl')]

/-- **A level determines the leaves**, unless one below ends twice. -/
theorem level_inj (hinj : PairInjective hash) {k : Nat} {l l' : List H}
    (hlevel : level hash k l = level hash k l') (hl : ∀ j < k, endsTwice (level hash j l) = false)
    (hl' : ∀ j < k, endsTwice (level hash j l') = false) : l = l' := by
  induction k with
  | zero => exact hlevel
  | succ k ih =>
    rw [level_succ, level_succ] at hlevel
    have hbelow := up_inj hinj hlevel (hl k (by omega)) (hl' k (by omega))
    exact ih hbelow (fun j hj => hl j (by omega)) fun j hj => hl' j (by omega)

omit [DecidableEq H]

theorem up_nodup (hinj : PairInjective hash) (hl : l.Nodup) : (up hash l).Nodup := by
  rw [nodup_iff_getElem?_ne_getElem?]
  intro i j hij hj heq
  rw [length_up] at hj
  have hlast : l.length - 1 < l.length := by omega
  have hfirst : ∀ {x}, x < (l.length + 1) / 2 → 2 * x < l.length := by omega
  rw [getElem?_up, getElem?_up, getElem?_eq_getElem (hfirst (Nat.lt_trans hij hj)),
    getElem?_eq_getElem (hfirst hj),
    getElem?_eq_getElem (Nat.lt_of_le_of_lt (Nat.min_le_right _ _) hlast),
    getElem?_eq_getElem (Nat.lt_of_le_of_lt (Nat.min_le_right _ _) hlast)] at heq
  have hleft := (hinj _ _ _ _ (some.inj heq)).1
  have hindex := (Nodup.getElem_inj_iff hl).mp hleft
  omega

theorem level_nodup (hinj : PairInjective hash) (k : Nat) (hl : l.Nodup) :
    (level hash k l).Nodup := by
  induction k generalizing l with
  | zero => exact hl
  | succ k ih => exact ih (up_nodup hinj hl)

theorem clog_eq {n : Nat} (hn : 2 ≤ n) : Nat.clog 2 n = Nat.clog 2 ((n + 1) / 2) + 1 := by
  rw [Nat.clog_of_two_le (by omega) hn, show n + 2 - 1 = n + 1 by omega]

variable (hash) in
theorem level_clog (hl : l ≠ []) : ∃ r, level hash (Nat.clog 2 l.length) l = [r] := by
  rw [← length_eq_one_iff, length_level]
  have hpos := length_pos_iff.mpr hl
  have hle : l.length ≤ 2 ^ Nat.clog 2 l.length := Nat.le_pow_clog (by omega) _
  refine Nat.div_eq_of_lt_le ?_ ?_
  · omega
  · omega

theorem mem_level_succ {k : Nat} {x : H} (hx : x ∈ level hash (k + 1) l) : ∃ a b, x = hash a b := by
  rw [level_succ] at hx
  obtain ⟨j, hj⟩ := mem_iff_getElem?.mp hx
  rw [getElem?_up] at hj
  obtain ⟨a, -, hb⟩ := bind_eq_some_iff.mp hj
  obtain ⟨b, -, hab⟩ := map_eq_some_iff.mp hb
  exact ⟨a, b, hab.symm⟩

end PairedLevels
