import Mathlib.Data.List.DropRight
import Elosys.Primitives

/-!
# Coins

The record `CCoins` of `coins.h`: the unspent outputs of one transaction, spent ones kept as null
and trailing nulls dropped. Its methods, and what they do to availability, to being pruned and to
being clean (no trailing null output).
-/

open List

namespace Elosys

/-- A transaction's unspent outputs, with its metadata. -/
structure CCoins where
  fCoinBase : Bool := false
  vout : List CTxOut := []
  nHeight : Nat := 0
  nVersion : Int := 0
  deriving DecidableEq

namespace CCoins

def clear : CCoins := {}

variable (c : CCoins)

/-- `CCoins::Cleanup`: drop the null outputs at the end. -/
def cleanup : CCoins := { c with vout := c.vout.rdropWhile CTxOut.isNull }

def clearUnspendable : CCoins :=
  { c with
    vout := c.vout.map fun o : CTxOut =>
      if o.scriptPubKey.isUnspendable then CTxOut.null else o : CCoins }.cleanup

/-- `CCoins::FromTx`, and the constructor at a height. -/
def fromTx (tx : CTransaction) (nHeight : Nat) : CCoins :=
  { fCoinBase := tx.isCoinBase, vout := tx.vout, nHeight, nVersion := tx.nVersion
    : CCoins }.clearUnspendable

def isAvailable (n : Nat) : Bool :=
  match c.vout[n]? with
  | some o => !o.isNull
  | none => false

def isPruned : Bool := c.vout.all CTxOut.isNull

/-- `CCoins::Spend`: whether the output was there, and the rest. -/
def spend (n : Nat) : Bool × CCoins :=
  if c.isAvailable n then
    (true, { c with vout := c.vout.set n CTxOut.null : CCoins }.cleanup)
  else (false, c)

/-- `CCoins::TotalTxValue`: null outputs count minus one. -/
def totalTxValue : CAmount := (c.vout.map CTxOut.nValue).sum

/-- `operator==` on coins: pruned records are all equal. -/
def equal (a b : CCoins) : Bool :=
  (a.isPruned && b.isPruned) ||
    (a.fCoinBase == b.fCoinBase && a.nHeight == b.nHeight && a.nVersion == b.nVersion &&
      a.vout == b.vout)

/-- What a record stands for: pruned coins are absent. -/
def present : Option CCoins := if c.isPruned then none else some c

def Clean (c : CCoins) : Prop := c.cleanup = c

instance (c : CCoins) : Decidable c.Clean := inferInstanceAs (Decidable (c.cleanup = c))

/-! ### What cleaning up changes -/

variable {c : CCoins}

theorem present_of_isPruned (h : c.isPruned = true) : c.present = none :=
  if_pos h

theorem present_of_not_isPruned (h : c.isPruned = false) :
    c.present = some c := by rw [present, h]; rfl

theorem isPruned_iff : c.isPruned = true ↔ ∀ o ∈ c.vout, o.isNull = true :=
  all_eq_true

theorem isPruned_of_vout_nil (h : c.vout = []) : c.isPruned = true := by
  rw [isPruned, h]; rfl

@[simp] theorem clean_cleanup (c : CCoins) : c.cleanup.Clean := by
  simp only [Clean, cleanup, rdropWhile_idempotent]

theorem vout_cleanup_eq_nil_iff : c.cleanup.vout = [] ↔ c.isPruned = true := by
  rw [cleanup, isPruned_iff, rdropWhile_eq_nil_iff]

theorem isPruned_iff_of_clean (h : c.Clean) : c.isPruned = true ↔ c.vout = [] := by
  rw [← vout_cleanup_eq_nil_iff, h]

theorem getElem?_rdropWhile (l : List CTxOut) (n : Nat) : (l.rdropWhile CTxOut.isNull)[n]? = l[n]? ∨
      (l.rdropWhile CTxOut.isNull)[n]? = none ∧ ∀ o, l[n]? = some o → o.isNull = true := by
  induction l using List.reverseRecOn with
  | nil => exact .inl rfl
  | append_singleton l x ih =>
    by_cases hx : x.isNull = true
    · rw [rdropWhile_concat_pos _ _ _ hx]
      by_cases hn : n < l.length
      · rwa [getElem?_append_left hn]
      · refine .inr ⟨?_, fun o ho => ?_⟩
        · have hprefix := rdropWhile_prefix CTxOut.isNull (l := l)
          have hp := hprefix.length_le
          exact getElem?_eq_none (by omega)
        · rw [getElem?_append_right (by omega)] at ho
          have hmem : o ∈ [x] := mem_of_getElem? ho
          rwa [mem_singleton.mp hmem]
    · rw [rdropWhile_concat_neg _ _ _ hx]
      exact .inl rfl

theorem mem_of_mem_cleanup {c : CCoins} {o : CTxOut} (h : o ∈ c.cleanup.vout) : o ∈ c.vout := by
  have hprefix := rdropWhile_prefix CTxOut.isNull (l := c.vout)
  exact hprefix.subset h

@[simp] theorem isPruned_cleanup (c : CCoins) : c.cleanup.isPruned = c.isPruned := by
  rw [Bool.eq_iff_iff, isPruned_iff_of_clean (clean_cleanup c), vout_cleanup_eq_nil_iff]

@[simp] theorem clean_fromTx (tx : CTransaction) (nHeight : Nat) :
    (fromTx tx nHeight).Clean := clean_cleanup _

theorem isPruned_eq_false_of_isAvailable {n : Nat}
    (h : c.isAvailable n = true) : c.isPruned = false := by
  rw [isAvailable] at h
  split at h
  · next o ho =>
      by_contra hp
      rw [Bool.not_eq_false, isPruned_iff] at hp
      rw [hp o (mem_of_getElem? ho)] at h
      exact absurd h (by decide)
  · exact absurd h (by decide)

end CCoins

end Elosys
