import Mathlib.Data.List.Basic
import Mathlib.Tactic.Common

/-!
# Ordered Sets with an External Order

A `std::set` with a comparator, as the list of its elements in order. Each operation looks at the
comparator anew, so that elements may change while they are inside.
-/

open List

namespace OrderedSet

variable {α : Type}

/-- A comparator orders a part of a type strictly and totally. -/
structure StrictTotal (lt : α → α → Bool) (P : α → Prop) : Prop where
  irrefl : ∀ a, lt a a = false
  trans : ∀ a b c, lt a b = true → lt b c = true → lt a c = true
  eq_of : ∀ a b, P a → P b → lt a b = false → lt b a = false → a = b

variable (lt : α → α → Bool)

/-- `set::insert`: an equivalent of a member is not inserted. -/
def insert (a : α) : List α → List α
  | [] => [a]
  | x :: xs => if lt x a then x :: insert a xs else if lt a x then a :: x :: xs else x :: xs

variable {lt} {P : α → Prop}

variable {xs : List α}

theorem mem_insert_of_mem {a x : α} (h : x ∈ xs) : x ∈ insert lt a xs := by
  induction xs with
  | nil => cases h
  | cons y ys ih =>
    unfold insert
    split
    · rcases mem_cons.mp h with rfl | h
      · exact mem_cons_self
      · exact mem_cons_of_mem _ (ih h)
    · split
      · exact mem_cons_of_mem _ h
      · exact h

theorem eq_or_mem_of_mem_insert {a x : α} (h : x ∈ insert lt a xs) : x = a ∨ x ∈ xs := by
  induction xs with
  | nil => exact .inl (mem_singleton.mp h)
  | cons y ys ih =>
    unfold insert at h
    split at h
    · rcases mem_cons.mp h with rfl | h
      · exact .inr mem_cons_self
      · exact (ih h).imp_right (mem_cons_of_mem _)
    · split at h
      · exact mem_cons.mp h
      · exact .inr h

theorem mem_insert_self (hlt : StrictTotal lt P) {a : α} (ha : P a)
    (hxs : ∀ x ∈ xs, P x) : a ∈ insert lt a xs := by
  induction xs with
  | nil => exact mem_singleton_self a
  | cons y ys ih =>
    have hrest := ih fun x hx => hxs x (mem_cons_of_mem _ hx)
    unfold insert
    split
    · exact mem_cons_of_mem _ hrest
    · next hya =>
        split
        · exact mem_cons_self
        · next hay =>
            have heq := hlt.eq_of y a (hxs y mem_cons_self) ha
              (Bool.eq_false_iff.mpr hya) (Bool.eq_false_iff.mpr hay)
            exact heq ▸ mem_cons_self

end OrderedSet
