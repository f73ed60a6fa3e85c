import Mathlib.Data.List.GetD
import Mathlib.Data.List.TakeWhile
import Mathlib.Tactic.Common

/-!
# Programs That Read a Buffer

A program reads bytes at positions that may depend on what it has read, and ends with a value. If
it stays within the bytes that were put into the buffer, what stands behind has no say.
-/

open List

namespace BufferRead

/-- A program that reads a buffer byte by byte, and ends with a value. -/
inductive BufProg (α : Type) : Type where
  | done (a : α)
  | byte (k : Nat) (next : UInt8 → BufProg α)

namespace BufProg

variable {α β : Type}

def bind : BufProg α → (α → BufProg β) → BufProg β
  | .done a, f => f a
  | .byte k next, f => .byte k fun b => (next b).bind f

instance : Monad BufProg where
  pure := .done
  bind := .bind

/-- A program's value; behind the buffer stand zeros. -/
def run (buf : List UInt8) : BufProg α → α
  | .done a => a
  | .byte k next => (next (buf.getD k 0)).run buf

def positions (buf : List UInt8) : BufProg α → List Nat
  | .done _ => []
  | .byte k next => k :: (next (buf.getD k 0)).positions buf

/-- The program reads nothing behind the buffer. -/
def ReadsIn (buf : List UInt8) : BufProg α → Prop
  | .done _ => True
  | .byte k next => k < buf.length ∧ (next (buf.getD k 0)).ReadsIn buf

end BufProg

open BufProg

variable {α β : Type} {buf script : List UInt8}

variable {p : BufProg α}

theorem readsIn_iff_positions : p.ReadsIn buf ↔ ∀ k ∈ p.positions buf, k < buf.length := by
  induction p with
  | done a => simp [ReadsIn, positions]
  | byte k next ih => simp [ReadsIn, positions, ih]

theorem BufProg.ReadsIn.append (h : p.ReadsIn script) (stale : List UInt8) :
    p.run (script ++ stale) = p.run script ∧
      p.positions (script ++ stale) = p.positions script := by
  induction p with
  | done a => exact ⟨rfl, rfl⟩
  | byte k next ih =>
    have hbyte :=
      getD_append script stale 0 k h.1
    obtain ⟨hrun, hpos⟩ := ih _ h.2
    rw [run, run, positions, positions, hbyte, hrun, hpos]
    exact ⟨rfl, rfl⟩

theorem BufProg.ReadsIn.run_append (h : p.ReadsIn script) (stale : List UInt8) :
    p.run (script ++ stale) = p.run script :=
  (h.append stale).1

theorem readsIn_iff :
    p.ReadsIn script ↔ ∀ stale, ∀ k ∈ p.positions (script ++ stale), k < script.length := by
  constructor
  · intro h stale k hk
    rw [(h.append stale).2] at hk
    exact readsIn_iff_positions.mp h k hk
  · intro h
    refine readsIn_iff_positions.mpr fun k hk => h [] k ?_
    rwa [append_nil]

/-! ### Step by step -/

@[simp] theorem run_pure (a : α) : (Pure.pure a : BufProg α).run buf = a := by
  simp only [Pure.pure, run]

@[simp] theorem readsIn_pure (a : α) : (Pure.pure a : BufProg α).ReadsIn buf ↔ True := Iff.rfl

@[simp] theorem run_bind (p : BufProg α) (f : α → BufProg β) :
    (p >>= f).run buf = (f (p.run buf)).run buf := by
  induction p with
  | done a => rfl
  | byte k next ih => exact ih _

@[simp] theorem readsIn_bind (p : BufProg α) (f : α → BufProg β) :
    (p >>= f).ReadsIn buf ↔ p.ReadsIn buf ∧ (f (p.run buf)).ReadsIn buf := by
  change (p.bind f).ReadsIn buf ↔ _
  induction p with
  | done a => simp [BufProg.bind, ReadsIn, run]
  | byte k next ih => simp [BufProg.bind, ReadsIn, run, ih, and_assoc]

@[simp] theorem run_ite {c : Prop} [Decidable c] (p q : BufProg α) :
    (if c then p else q).run buf = if c then p.run buf else q.run buf := by
  split <;> rfl

@[simp] theorem readsIn_ite {c : Prop} [Decidable c] (p q : BufProg α) :
    (if c then p else q).ReadsIn buf ↔ if c then p.ReadsIn buf else q.ReadsIn buf := by
  split <;> rfl

/-! ### Fields and strings -/

def get (k : Nat) : BufProg UInt8 := .byte k .done

@[simp] theorem run_get (k : Nat) : (get k).run buf = buf.getD k 0 := by
  simp only [get, run]

@[simp] theorem readsIn_get (k : Nat) : (get k).ReadsIn buf ↔ k < buf.length :=
  and_iff_left trivial

def bytes : Nat → Nat → BufProg (List UInt8)
  | _, 0 => pure []
  | k, n + 1 => do
    let b ← get k
    let bs ← bytes (k + 1) n
    return b :: bs

theorem run_bytes (k n : Nat) :
    (bytes k n).run buf = (range n).map fun i => (buf.drop k).getD i 0 := by
  induction n generalizing k with
  | zero => rfl
  | succ n ih =>
    rw [bytes, range_succ_eq_map, map_cons, map_map]
    simp only [run_bind, run_get, run_pure, ih]
    congr 1
    · simp [getD_eq_getElem?_getD]
    · refine map_congr_left fun i _ => ?_
      simp [getD_eq_getElem?_getD, Nat.add_assoc, Nat.add_comm 1]

@[simp] theorem readsIn_bytes (k n : Nat) :
    (bytes k n).ReadsIn buf ↔ n = 0 ∨ k + n ≤ buf.length := by
  induction n generalizing k with
  | zero => exact iff_of_true trivial (Or.inl rfl)
  | succ n ih =>
    simp only [bytes, readsIn_bind, readsIn_get, ih, readsIn_pure, and_true]
    omega

/-- Whether a zero-terminated string stands at a position. -/
def matchesString : List UInt8 → Nat → BufProg Bool
  | [], k => do return (← get k) == 0
  | c :: cs, k => do if (← get k) = c then matchesString cs (k + 1) else return false

theorem drop_eq_getD_cons {k : Nat} (h : k < buf.length) :
    buf.drop k = buf.getD k 0 :: buf.drop (k + 1) := by
  rw [getD_eq_getElem buf 0 h, drop_eq_getElem_cons h]

theorem readsIn_matches (cs : List UInt8) (k : Nat) :
    (matchesString cs k).ReadsIn buf ↔ ¬buf.drop k <+: cs := by
  induction cs generalizing k with
  | nil =>
    simp [matchesString, readsIn_bind, readsIn_get, readsIn_pure]
  | cons c cs ih =>
    simp only [matchesString, readsIn_bind, readsIn_get, run_get]
    by_cases hk : k < buf.length
    · rw [drop_eq_getD_cons hk, cons_prefix_cons]
      by_cases hbyte : buf.getD k 0 = c
      · simp [hk, ih]
      · simp only [hk, hbyte, if_false, readsIn_pure, and_self, false_and, not_false_eq_true]
    · rw [drop_eq_nil_of_le (by omega)]
      simp [hk]

theorem run_matches_of_readsIn {cs : List UInt8} {k : Nat} (h : ¬buf.drop k <+: cs) :
    (matchesString cs k).run buf = decide (cs ++ [0] <+: buf.drop k) := by
  have hk : k < buf.length := by
    by_contra hk
    rw [drop_eq_nil_of_le (by omega)] at h
    exact h nil_prefix
  induction cs generalizing k with
  | nil =>
    simp only [matchesString, run_bind, run_get, run_pure]
    rw [drop_eq_getD_cons hk, nil_append, Bool.beq_eq_decide_eq]
    simp [cons_prefix_cons, eq_comm]
  | cons c cs ih =>
    simp only [matchesString, run_bind, run_get, run_ite, run_pure]
    rw [drop_eq_getD_cons hk, cons_prefix_cons] at h
    rw [drop_eq_getD_cons hk, cons_append]
    by_cases hbyte : buf.getD k 0 = c
    · have hrest : ¬buf.drop (k + 1) <+: cs := fun hp => h ⟨hbyte, hp⟩
      have hk' : k + 1 < buf.length := by
        by_contra hk'
        rw [drop_eq_nil_of_le (by omega)] at hrest
        exact hrest nil_prefix
      rw [if_pos hbyte, ih hrest hk', hbyte]
      simp [cons_prefix_cons]
    · rw [if_neg hbyte, eq_comm, decide_eq_false_iff_not, cons_prefix_cons]
      exact fun hprefix => hbyte hprefix.1.symm

def string : Nat → Nat → BufProg (List UInt8)
  | 0, _ => pure []
  | fuel + 1, k => do
    let b ← get k
    if b = 0 then return []
    else do
      let bs ← string fuel (k + 1)
      return b :: bs

theorem run_string {fuel k : Nat} (h : buf.length < k + fuel) :
    (string fuel k).run buf = (buf.drop k).takeWhile (· ≠ 0) := by
  induction fuel generalizing k with
  | zero =>
    rw [drop_eq_nil_of_le (by omega)]
    rfl
  | succ fuel ih =>
    simp only [string, run_bind, run_get, run_ite, run_pure]
    by_cases hk : k < buf.length
    · rw [drop_eq_getD_cons hk, takeWhile_cons, ih (by omega)]
      by_cases hzero : buf.getD k 0 = 0
      · rw [if_pos hzero, if_neg (by simpa using hzero)]
      · rw [if_neg hzero, if_pos (by simpa using hzero)]
    · rw [drop_eq_nil_of_le (by omega), getD_eq_default _ _ (by omega)]
      rfl

theorem readsIn_string {fuel k : Nat} (h : buf.length ≤ k + fuel) :
    (string (fuel + 1) k).ReadsIn buf ↔ 0 ∈ buf.drop k := by
  induction fuel generalizing k with
  | zero =>
    rw [drop_eq_nil_of_le (show buf.length ≤ k from h)]
    simp only [string, readsIn_bind, readsIn_get, not_mem_nil, iff_false, not_and]
    omega
  | succ fuel ih =>
    rw [string]
    simp only [readsIn_bind, readsIn_get, run_get]
    by_cases hk : k < buf.length
    · rw [drop_eq_getD_cons hk, mem_cons]
      by_cases hzero : buf.getD k 0 = 0
      · simp only [hk, hzero, if_true, readsIn_pure, and_self, true_or]
      · simp only [hk, hzero, if_false, readsIn_bind, readsIn_pure, and_true, true_and,
          ih (show buf.length ≤ k + 1 + fuel by omega), Ne.symm hzero, false_or]
    · rw [drop_eq_nil_of_le (by omega)]
      simp [hk]

end BufferRead
