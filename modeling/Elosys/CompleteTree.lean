import Mathlib.Tactic.Common
import Mathlib.Tactic.Ring
import Mathlib.Data.Nat.Bits

/-!
# Complete Binary Hash Trees

Complete binary trees over leaves given by position: node `j` on level `d` combines the nodes `2
j` and `2 j + 1` below. The siblings left and right of a leaf's path are what incremental trees
keep.
-/

open List

namespace CompleteTree

/-- How a level combines nodes, and the leaf for none. -/
class MerkleHash (H : Type) where
  combine : H → H → Nat → H
  uncommitted : H

open MerkleHash

variable {H : Type} [MerkleHash H]

def emptyRoot : Nat → H
  | 0 => uncommitted
  | d + 1 => combine (emptyRoot d) (emptyRoot d) d

/-- A level's node at an index, over leaves by position. -/
def node (leaf : Nat → H) : Nat → Nat → H
  | 0, j => leaf j
  | d + 1, j => combine (node leaf d (2 * j)) (node leaf d (2 * j + 1)) d

variable {d j : Nat}

theorem node_congr {f g : Nat → H}
    (h : ∀ i, j * 2 ^ d ≤ i → i < (j + 1) * 2 ^ d → f i = g i) : node f d j = node g d j := by
  induction d generalizing j with
  | zero => exact h j (by simp) (by simp)
  | succ d ih =>
    have hleft : 2 * j * 2 ^ d = j * 2 ^ (d + 1) := by ring
    have hmid : (2 * j + 1) * 2 ^ d + 2 ^ d = (j + 1) * 2 ^ (d + 1) := by ring
    have hpos : 0 < 2 ^ d := Nat.pow_pos (by omega)
    rw [node, node, ih fun i h₁ h₂ => h i ?_ ?_, ih fun i h₁ h₂ => h i ?_ ?_]
    · rw [← hleft]
      exact (Nat.mul_le_mul_right _ (by omega)).trans h₁
    · rw [← hmid]
      calc i < (2 * j + 1 + 1) * 2 ^ d := h₂
        _ = (2 * j + 1) * 2 ^ d + 2 ^ d := by ring
    · rwa [← hleft]
    · rw [← hmid]
      omega

variable {f : Nat → H}

theorem node_eq_emptyRoot
    (h : ∀ i, j * 2 ^ d ≤ i → f i = uncommitted) : node f d j = emptyRoot d := by
  induction d generalizing j with
  | zero => exact h j (by simp)
  | succ d ih =>
    have hleft : 2 * j * 2 ^ d = j * 2 ^ (d + 1) := by ring
    have hle : 2 * j * 2 ^ d ≤ (2 * j + 1) * 2 ^ d := Nat.mul_le_mul_right _ (by omega)
    rw [node, emptyRoot, ih fun i hi => h i (hleft ▸ hi), ih fun i hi => h i (hleft ▸ hle.trans hi)]

theorem node_shift (f : Nat → H) (d j k : Nat) :
    node (fun i => f (j * 2 ^ d + i)) d k = node f d (j + k) := by
  induction d generalizing j k with
  | zero => simp [node]
  | succ d ih =>
    have hleft : j * 2 ^ (d + 1) = 2 * j * 2 ^ d := by ring
    rw [node, node, hleft, ih, ih]
    congr 2 <;> ring

/-! ### The path to a node -/

def pathRoot : List (Bool × H) → Nat → H → H
  | [], _, r => r
  | (true, s) :: rest, d, r => pathRoot rest (d + 1) (combine s r d)
  | (false, s) :: rest, d, r => pathRoot rest (d + 1) (combine r s d)

/-- The siblings on the way up from a node, for some levels. -/
def siblings (f : Nat → H) : Nat → Nat → Nat → List (Bool × H)
  | 0, _, _ => []
  | r + 1, d, j =>
    (if j % 2 = 1 then (true, node f d (j - 1)) else (false, node f d (j + 1))) ::
      siblings f r (d + 1) (j / 2)

theorem combine_left (h : j % 2 = 1) :
    combine (node f d (j - 1)) (node f d j) d = node f (d + 1) (j / 2) := by
  rw [node, show 2 * (j / 2) = j - 1 by omega, show j - 1 + 1 = j by omega]

theorem combine_right (h : ¬j % 2 = 1) :
    combine (node f d j) (node f d (j + 1)) d = node f (d + 1) (j / 2) := by
  rw [node, show 2 * (j / 2) = j by omega]

theorem pathRoot_siblings (f : Nat → H) (r d j : Nat) :
    pathRoot (siblings f r d j) d (node f d j) = node f (d + r) (j / 2 ^ r) := by
  induction r generalizing d j with
  | zero => simp [siblings, pathRoot]
  | succ r ih =>
    have hlevel : d + 1 + r = d + (r + 1) := by omega
    have hindex : j / 2 / 2 ^ r = j / 2 ^ (r + 1) := by
      rw [Nat.div_div_eq_div_mul, ← Nat.pow_succ']
    rw [siblings]
    split
    · next h => rw [pathRoot, combine_left h, ih, hlevel, hindex]
    · next h => rw [pathRoot, combine_right h, ih, hlevel, hindex]

@[simp] theorem length_siblings (f : Nat → H) (r d j : Nat) : (siblings f r d j).length = r := by
  induction r generalizing d j with
  | zero => rfl
  | succ r ih => simp [siblings, ih]

theorem map_fst_siblings (f : Nat → H) (r d j : Nat) :
    (siblings f r d j).map Prod.fst = (range r).map j.testBit := by
  induction r generalizing d j with
  | zero => rfl
  | succ r ih =>
    rw [siblings, map_cons, ih, range_succ_eq_map, map_cons, map_map]
    congr 1
    · rw [Nat.testBit_zero]
      split <;> simp_all
    · exact map_congr_left fun i _ => by simp [Nat.testBit_succ]

/-! ### Left siblings -/

/-- The left siblings on the way up, up to the last there is. -/
def ommers (f : Nat → H) (d j : Nat) : List (Option H) :=
  if j = 0 then []
  else (if j % 2 = 1 then some (node f d (j - 1)) else none) :: ommers f (d + 1) (j / 2)
termination_by j
decreasing_by omega

@[simp] theorem ommers_zero (f : Nat → H) (d : Nat) : ommers f d 0 = [] := by
  rw [ommers, if_pos rfl]

theorem ommers_odd (h : j % 2 = 1) :
    ommers f d j = some (node f d (j - 1)) :: ommers f (d + 1) (j / 2) := by
  rw [ommers, if_neg (by omega), if_pos h]

theorem ommers_even (h : j ≠ 0) (heven : ¬j % 2 = 1) :
    ommers f d j = none :: ommers f (d + 1) (j / 2) := by
  rw [ommers, if_neg h, if_neg heven]

theorem ommers_congr {f g : Nat → H} (h : ∀ i < j * 2 ^ d, f i = g i) :
    ommers f d j = ommers g d j := by
  induction j using Nat.strongRecOn generalizing d with
  | ind j ih =>
    by_cases hj : j = 0
    · simp [hj]
    · have hle : j / 2 * 2 ^ (d + 1) ≤ j * 2 ^ d := by
        rw [Nat.pow_succ, Nat.mul_comm (2 ^ d) 2, ← Nat.mul_assoc]
        exact Nat.mul_le_mul_right _ (by omega)
      have hnode : node f d (j - 1) = node g d (j - 1) := by
        refine node_congr fun i _ hi => h i ?_
        rwa [Nat.sub_add_cancel (by omega)] at hi
      have hrest : ommers f (d + 1) (j / 2) = ommers g (d + 1) (j / 2) :=
        ih (j / 2) (by omega) fun i hi => h i (by omega)
      by_cases hodd : j % 2 = 1
      · rw [ommers_odd hodd, ommers_odd hodd, hnode, hrest]
      · rw [ommers_even hj hodd, ommers_even hj hodd, hrest]

theorem length_ommers_le {r d j : Nat} (h : j < 2 ^ r) : (ommers f d j).length ≤ r := by
  induction r generalizing d j with
  | zero =>
    obtain rfl : j = 0 := by simpa using h
    simp
  | succ r ih =>
    by_cases hj : j = 0
    · simp [hj]
    · rw [ommers, if_neg hj, length_cons]
      have hle := ih (d := d + 1) (j := j / 2) (by rw [Nat.pow_succ] at h; omega)
      omega

theorem getLast?_ommers (h : j ≠ 0) : ∃ x, (ommers f d j).getLast? = some (some x) := by
  induction j using Nat.strongRecOn generalizing d with
  | ind j ih =>
    by_cases hone : j = 1
    · subst hone
      refine ⟨node f d 0, ?_⟩
      rw [ommers_odd (by omega)]
      simp
    · obtain ⟨x, hx⟩ := ih (j / 2) (by omega) (d := d + 1) (by omega)
      refine ⟨x, ?_⟩
      rw [ommers, if_neg h, getLast?_cons, hx]
      rfl

theorem ommers_full {r d j : Nat} :
    (ommers f d j).length = r ∧ (∀ o ∈ ommers f d j, o.isSome = true) ↔ j = 2 ^ r - 1 := by
  induction r generalizing d j with
  | zero =>
    by_cases hj : j = 0
    · simp [hj]
    · rw [ommers, if_neg hj]
      simp [hj]
  | succ r ih =>
    have hpos : 0 < 2 ^ r := Nat.pow_pos (by omega)
    by_cases hj : j = 0
    · simp only [hj, ommers_zero, length_nil]
      constructor
      · exact fun h => absurd h.1 (by omega)
      · exact fun h => absurd h (by omega)
    · have hrest := ih (d := d + 1) (j := j / 2)
      rw [ommers, if_neg hj, length_cons, Nat.add_right_cancel_iff, forall_mem_cons,
        and_left_comm, hrest, Nat.pow_succ]
      by_cases hodd : j % 2 = 1
      · simp only [hodd, if_true, Option.isSome_some, true_and]
        omega
      · simp only [hodd, if_false, Option.isSome_none, Bool.false_eq_true, false_and, false_iff]
        omega

def carry : Nat → Nat → H → List (Option H) → List (Option H)
  | 0, _, _, ps => ps
  | _ + 1, _, x, [] => [some x]
  | _ + 1, _, x, none :: ps => some x :: ps
  | fuel + 1, d, x, some p :: ps => none :: carry fuel (d + 1) (combine p x d) ps

theorem ommers_succ {fuel d j : Nat} (h : j + 1 < 2 ^ fuel) :
    carry fuel d (node f d j) (ommers f d j) = ommers f d (j + 1) := by
  induction fuel generalizing d j with
  | zero => simp at h
  | succ fuel ih =>
    by_cases hj : j = 0
    · subst hj
      rw [ommers_zero, carry, ommers_odd (by omega)]
      simp
    · by_cases hodd : j % 2 = 1
      · have hnext : ommers f d (j + 1) = none :: ommers f (d + 1) (j / 2 + 1) := by
          rw [ommers_even (by omega) (by omega), show (j + 1) / 2 = j / 2 + 1 by omega]
        rw [ommers_odd hodd, carry, combine_left hodd, ih (by rw [Nat.pow_succ] at h; omega), hnext]
      · have hnext : ommers f d (j + 1) = some (node f d j) :: ommers f (d + 1) (j / 2) := by
          rw [ommers_odd (by omega), Nat.add_sub_cancel, show (j + 1) / 2 = j / 2 by omega]
        rw [ommers_even hj hodd, carry, hnext]

/-! ### Right siblings -/

/-- The right siblings on the way up, for some levels. -/
def uncles (f : Nat → H) : Nat → Nat → Nat → List H
  | 0, _, _ => []
  | r + 1, d, j =>
    (if j % 2 = 1 then [] else [node f d (j + 1)]) ++ uncles f r (d + 1) (j / 2)

/-- The next level from a level on with a right sibling. -/
def nextUncle (d j : Nat) : Nat := if j % 2 = 1 then nextUncle (d + 1) (j / 2) else d
termination_by j
decreasing_by omega

/-- The first leaf right of a node's leaves. -/
def boundary (p d : Nat) : Nat := (p / 2 ^ d + 1) * 2 ^ d

@[simp] theorem boundary_zero (p : Nat) : boundary p 0 = p + 1 := by simp [boundary]

theorem div_pow_succ (p d : Nat) : p / 2 ^ (d + 1) = p / 2 ^ d / 2 := by
  rw [Nat.div_div_eq_div_mul, Nat.pow_succ]

theorem boundary_succ (p d : Nat) :
    boundary p (d + 1) = if p / 2 ^ d % 2 = 1 then boundary p d else boundary p d + 2 ^ d := by
  simp only [boundary, div_pow_succ]
  split
  · next h =>
      obtain ⟨k, hk⟩ : ∃ k, p / 2 ^ d = 2 * k + 1 := ⟨p / 2 ^ d / 2, by omega⟩
      rw [hk, show (2 * k + 1) / 2 = k by omega]
      ring
  · next h =>
      obtain ⟨k, hk⟩ : ∃ k, p / 2 ^ d = 2 * k := ⟨p / 2 ^ d / 2, by omega⟩
      rw [hk, show 2 * k / 2 = k by omega]
      ring

theorem boundary_le_succ (p d : Nat) : boundary p d ≤ boundary p (d + 1) := by
  rw [boundary_succ]
  split
  · exact le_refl _
  · exact Nat.le_add_right _ _

theorem boundary_mono (p : Nat) {d e : Nat} (h : d ≤ e) : boundary p d ≤ boundary p e := by
  induction h with
  | refl => exact le_refl _
  | step _ ih => exact ih.trans (boundary_le_succ p _)

theorem boundary_of_lt {p d : Nat} (h : p < 2 ^ d) : boundary p d = 2 ^ d := by
  rw [boundary, Nat.div_eq_of_lt h]
  ring

theorem uncles_snoc (f : Nat → H) (r d j : Nat) : uncles f (r + 1) d j = uncles f r d j ++
      if j / 2 ^ r % 2 = 1 then [] else [node f (d + r) (j / 2 ^ r + 1)] := by
  induction r generalizing d j with
  | zero => simp [uncles]
  | succ r ih =>
    have hlevel : d + 1 + r = d + (r + 1) := by omega
    have hindex : j / 2 / 2 ^ r = j / 2 ^ (r + 1) := by
      rw [Nat.div_div_eq_div_mul, ← Nat.pow_succ']
    rw [uncles, ih, hlevel, hindex, ← append_assoc]
    rfl

end CompleteTree
