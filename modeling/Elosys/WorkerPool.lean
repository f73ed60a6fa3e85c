import Mathlib.Data.List.Perm.Basic
import Mathlib.Tactic.Common

/-!
# Batches and Workers

Items are dealt to a fixed number of batches by a cursor that runs around (`Hand`); each batch
goes to a worker that fills its future's slot; the results are read when every slot is full, in
whatever order (`Schedule`).
-/

open scoped List

open List

namespace WorkerPool

variable {α β τ : Type}

/-! ### Dealing -/

def pushAt (i : Nat) (a : α) (batches : List (List α)) : List (List α) :=
  batches.modify i (· ++ [a])

def advance (i size : Nat) : Nat := if size ≤ i + 1 then 0 else i + 1

@[simp] theorem length_pushAt (i : Nat) (a : α) (batches : List (List α)) :
    (pushAt i a batches).length = batches.length := by
  simp [pushAt]

theorem advance_lt {i size : Nat} (h : 0 < size) : advance i size < size := by
  unfold advance
  split <;> omega

theorem flatten_pushAt_perm {i : Nat} {batches : List (List α)} (a : α)
    (h : i < batches.length) : (pushAt i a batches).flatten.Perm (batches.flatten ++ [a]) := by
  induction batches generalizing i with
  | nil => simp at h
  | cons b batches ih =>
    cases i with
    | zero =>
      simp only [pushAt, modify_zero_cons, flatten_cons, append_assoc]
      exact Perm.append_left b perm_append_comm
    | succ i =>
      have hrest := ih (Nat.lt_of_succ_lt_succ h)
      simp only [pushAt, modify_succ_cons, flatten_cons, append_assoc] at hrest ⊢
      exact Perm.append_left b hrest

theorem map_pushAt (f : α → β) (i : Nat) (a : α) (batches : List (List α)) :
    (pushAt i a batches).map (map f) = pushAt i (f a) (batches.map (map f)) := by
  induction batches generalizing i with
  | nil => simp [pushAt]
  | cons b batches ih =>
    cases i with
    | zero => simp [pushAt]
    | succ i =>
      have hrest := ih i
      simp only [pushAt] at hrest
      simp [pushAt, hrest]

/-- The batches and a cursor into them. -/
structure Hand (α : Type) where
  batches : List (List α)
  cursor : Nat
  cursor_lt : cursor < batches.length

namespace Hand

def empty (n : Nat) (h : 0 < n) : Hand α where
  batches := replicate n []
  cursor := 0
  cursor_lt := by simpa using h

def deal (h : Hand α) (a : α) : Hand α where
  batches := pushAt h.cursor a h.batches
  cursor := advance h.cursor h.batches.length
  cursor_lt := by
    rw [length_pushAt]
    exact advance_lt (Nat.zero_lt_of_lt h.cursor_lt)

def dealAll (h : Hand α) (as : List α) : Hand α := as.foldl deal h

@[simp] theorem dealAll_nil (h : Hand α) : h.dealAll [] = h := rfl

@[simp] theorem dealAll_cons (h : Hand α) (a : α) (as : List α) :
    h.dealAll (a :: as) = (h.deal a).dealAll as := rfl

theorem dealAll_append (h : Hand α) (as bs : List α) :
    h.dealAll (as ++ bs) = (h.dealAll as).dealAll bs := by
  simp [dealAll]

@[simp] theorem flatten_empty (n : Nat) (h : 0 < n) :
    (empty n h : Hand α).batches.flatten = [] := by
  simp [empty]

theorem dealAll_perm (h : Hand α) (as : List α) :
    (h.dealAll as).batches.flatten.Perm (h.batches.flatten ++ as) := by
  induction as generalizing h with
  | nil => simp
  | cons a as ih =>
    calc ((h.deal a).dealAll as).batches.flatten
      _ ~ (h.deal a).batches.flatten ++ as := ih (h.deal a)
      _ ~ (h.batches.flatten ++ [a]) ++ as :=
          Perm.append_right as (flatten_pushAt_perm a h.cursor_lt)
      _ = h.batches.flatten ++ a :: as := by simp

end Hand

/-! ### Futures -/

/-- An order in which futures complete, for any number. -/
structure Schedule where
  order : Nat → List Nat
  perm : ∀ k, (order k).Perm (range k)

def Schedule.inOrder : Schedule where
  order := range
  perm _ := .refl _

def complete (run : τ → β) (tasks : List τ) (order : List Nat) : List (Option β) :=
  order.foldl (fun slots i => slots.set i (tasks[i]?.map run))
    (replicate tasks.length none)

def awaitAll : List (Option β) → Option (List β)
  | [] => some []
  | none :: _ => none
  | some b :: slots => (awaitAll slots).map (b :: ·)

theorem awaitAll_map_some (bs : List β) : awaitAll (bs.map some) = some bs := by
  induction bs with
  | nil => rfl
  | cons b bs ih => simp [awaitAll, ih]

theorem getElem?_foldl_set (run : τ → β) (tasks : List τ) (order : List Nat)
    (slots : List (Option β)) (hlength : slots.length = tasks.length) (j : Nat) :
    (order.foldl (fun slots i => slots.set i (tasks[i]?.map run)) slots)[j]? =
      if j ∈ order ∧ j < tasks.length then some (tasks[j]?.map run) else slots[j]? := by
  induction order generalizing slots with
  | nil => simp
  | cons i order ih =>
    rw [foldl_cons, ih _ (by simpa using hlength), getElem?_set, hlength]
    by_cases hji : i = j
    · subst hji
      by_cases hlt : i < tasks.length
      · simp [hlt]
      · simp [hlt, getElem?_eq_none (hlength ▸ Nat.le_of_not_lt hlt)]
    · simp [hji, Ne.symm hji]

theorem awaitAll_complete (run : τ → β) (tasks : List τ) (σ : Schedule) :
    awaitAll (complete run tasks (σ.order tasks.length)) = some (tasks.map run) := by
  have hslots : complete run tasks (σ.order tasks.length) = (tasks.map run).map some := by
    refine ext_getElem? fun j => ?_
    rw [complete, getElem?_foldl_set run tasks _ _ (by simp)]
    by_cases hj : j < tasks.length
    · have hmem : j ∈ σ.order tasks.length :=
        (σ.perm _).mem_iff.mpr (mem_range.mpr hj)
      simp [hmem, hj]
    · simp [hj]
  rw [hslots, awaitAll_map_some]

end WorkerPool
