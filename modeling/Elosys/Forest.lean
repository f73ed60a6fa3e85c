import Mathlib.Logic.Relation
import Mathlib.Data.List.Basic
import Mathlib.Tactic.Common

/-!
# Trees by Parent Pointers

Nodes that point to their parent, with a depth that counts the pointers. Only a set closed under
parents is of interest (`Graded`).
-/

namespace Forest

variable {ι : Type}

/-- A node lies on the way from another to its root. -/
def Ancestor (parent : ι → Option ι) (a b : ι) : Prop :=
  Relation.ReflTransGen (fun x y => parent x = some y) b a

/-- The walk along at most so many pointers. -/
def lineage (parent : ι → Option ι) : Nat → ι → List ι
  | 0, h => [h]
  | n + 1, h =>
    h :: match parent h with
      | none => []
      | some p => lineage parent n p

/-- On a set closed under parents the depth counts pointers. -/
structure Graded (parent : ι → Option ι) (depth : ι → Nat) (K : ι → Prop) : Prop where
  step : ∀ {h p}, K h → parent h = some p → K p ∧ depth h = depth p + 1

variable {parent : ι → Option ι} {depth : ι → Nat} {K : ι → Prop} {a b c h p : ι}

theorem Ancestor.refl (a : ι) : Ancestor parent a a := Relation.ReflTransGen.refl

theorem Ancestor.trans (hab : Ancestor parent a b) (hbc : Ancestor parent b c) :
    Ancestor parent a c :=
  Relation.ReflTransGen.trans hbc hab

theorem Ancestor.of_parent (h : parent b = some a) : Ancestor parent a b :=
  Relation.ReflTransGen.single h

namespace Graded

theorem ancestor_mem (hg : Graded parent depth K) (hb : K b) (hab : Ancestor parent a b) : K a := by
  induction hab with
  | refl => exact hb
  | tail _ hstep ih => exact (hg.step ih hstep).1

theorem induction (hg : Graded parent depth K) {P : ι → Prop}
    (hstep : ∀ h, K h → (∀ p, parent h = some p → P p) → P h) (hb : K b) : P b := by
  have hall : ∀ n h, depth h = n → K h → P h := by
    intro n
    induction n using Nat.strongRecOn with
    | _ n ih =>
      intro h hdepth hh
      refine hstep h hh fun p hp => ?_
      obtain ⟨hpK, hpdepth⟩ := hg.step hh hp
      exact ih (depth p) (by omega) p rfl hpK
  exact hall (depth b) b rfl hb

theorem lineage_parent (hg : Graded parent depth K) (hh : K h) (hp : parent h = some p) :
    lineage parent (depth h) h = h :: lineage parent (depth p) p := by
  rw [(hg.step hh hp).2, lineage, hp]

theorem lineage_root (n : Nat) (hroot : parent h = none) : lineage parent n h = [h] := by
  cases n with
  | zero => rfl
  | succ n => simp [lineage, hroot]

end Graded

end Forest
