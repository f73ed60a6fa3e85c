import Elosys.ByteCodec

/-!
# Scanning a Buffer by Position

A scanner reads a buffer at a position and leaves a position also when it fails, which says where
it stopped. Scanners of one format are twins when they need the same bytes, give one value where
these are there, and fail together where not.
-/

open List Prod

namespace ByteScan

/-- A scanner: the value at a position, and the position it leaves. -/
def Scan (α : Type) := List UInt8 → Nat → Except String α × Nat

namespace Scan

variable {α β : Type}

def bind (p : Scan α) (f : α → Scan β) : Scan β := fun data pos =>
  match p data pos with
  | (.ok a, pos') => f a data pos'
  | (.error e, pos') => (.error e, pos')

instance : Monad Scan where
  pure a := fun _ pos => (.ok a, pos)
  bind := bind

def fail (e : String) : Scan α := fun _ pos => (.error e, pos)

variable {p : Scan α} {f : α → Scan β} {data : List UInt8} {pos pos' : Nat}

theorem bind_ok {a : α} (h : p data pos = (.ok a, pos')) :
    (p >>= f) data pos = f a data pos' := by
  change Scan.bind p f data pos = _
  rw [Scan.bind, h]

theorem bind_error {e : String} (h : p data pos = (.error e, pos')) :
    (p >>= f) data pos = (.error e, pos') := by
  change Scan.bind p f data pos = _
  rw [Scan.bind, h]

theorem bind_eq_ok {b : β} :
    (p >>= f) data pos = (.ok b, pos') ↔
      ∃ a pos₁, p data pos = (.ok a, pos₁) ∧ f a data pos₁ = (.ok b, pos') := by
  constructor
  · intro h
    cases hresult : p data pos with
    | mk result pos₁ =>
      cases result with
      | error e =>
        rw [bind_error hresult] at h
        cases h
      | ok a =>
        rw [bind_ok hresult] at h
        exact ⟨a, pos₁, rfl, h⟩
  · rintro ⟨a, pos₁, hp, hf⟩
    rw [bind_ok hp, hf]

end Scan

/-! ### What is read -/

def Gives {α : Type} (p : Scan α) (bs : List UInt8) (a : α) : Prop :=
  ∀ data pos rest, pos ≤ data.length → data.drop pos = bs ++ rest →
    p data pos = (.ok a, pos + bs.length)

section Gives

variable {α β : Type} {p : Scan α} {bs bs' : List UInt8} {a : α} {b : β}

theorem Gives.pure (a : α) : Gives (Pure.pure a) [] a := fun _ _ _ _ _ => rfl

theorem add_length_le {data rest : List UInt8} {pos : Nat} (hpos : pos ≤ data.length)
    (hdata : data.drop pos = bs ++ rest) : pos + bs.length ≤ data.length := by
  have hlength := congrArg length hdata
  rw [length_drop, length_append] at hlength
  omega

theorem Gives.bind {f : α → Scan β} (hp : Gives p bs a) (hf : Gives (f a) bs' b) :
    Gives (p >>= f) (bs ++ bs') b := by
  intro data pos rest hpos hdata
  rw [append_assoc] at hdata
  have hnext : data.drop (pos + bs.length) = bs' ++ rest := by
    rw [← drop_drop, hdata, drop_left]
  rw [Scan.bind_ok (hp data pos _ hpos hdata), hf data _ rest (add_length_le hpos hdata) hnext,
    length_append, Nat.add_assoc]

theorem Gives.bind_pure {f : α → Scan β} (hp : Gives p bs a) (hf : f a = Pure.pure b) :
    Gives (p >>= f) bs b := by
  have h := hp.bind (hf ▸ Gives.pure b)
  rwa [append_nil] at h

end Gives

/-! ### Two scanners of one format -/

def Fails {α : Type} (p : Scan α) (data : List UInt8) (pos : Nat) : Prop :=
  ∃ e pos', p data pos = (.error e, pos')

/-- Both scanners need `n` bytes, and agree where these are there. -/
def Twins {α : Type} (p q : Scan α) (n : Nat) : Prop :=
  ∀ data pos, pos ≤ data.length →
    (pos + n ≤ data.length →
      ∃ a, p data pos = (.ok a, pos + n) ∧ q data pos = (.ok a, pos + n)) ∧
    (data.length < pos + n → Fails p data pos ∧ Fails q data pos)

section Twins

variable {α β : Type} {p q : Scan α} {n m : Nat}

theorem Twins.pure (a : α) : Twins (Pure.pure a) (Pure.pure a) 0 :=
  fun _ _ hpos => ⟨fun _ => ⟨a, rfl, rfl⟩, fun h => absurd h (by omega)⟩

theorem Twins.bind {f g : α → Scan β} (hpq : Twins p q n) (hfg : ∀ a, Twins (f a) (g a) m) :
    Twins (p >>= f) (q >>= g) (n + m) := by
  intro data pos hpos
  by_cases hn : pos + n ≤ data.length
  · obtain ⟨a, hp, hq⟩ := (hpq data pos hpos).1 hn
    rw [Scan.bind_ok hp, Scan.bind_ok hq, Fails, Fails, Scan.bind_ok hp, Scan.bind_ok hq,
      ← Nat.add_assoc]
    exact hfg a data (pos + n) hn
  · obtain ⟨⟨e, pos₁, hp⟩, ⟨e', pos₂, hq⟩⟩ := (hpq data pos hpos).2 (by omega)
    refine ⟨fun h => absurd h (by omega), fun _ => ⟨⟨e, pos₁, ?_⟩, ⟨e', pos₂, ?_⟩⟩⟩
    · exact Scan.bind_error hp
    · exact Scan.bind_error hq

/-- Both scanners succeed alike. -/
def Both (p q : Scan α) (data : List UInt8) (pos pos' : Nat) : Prop :=
  ∃ a, p data pos = (.ok a, pos') ∧ q data pos = (.ok a, pos')

variable {data : List UInt8} {pos pos' : Nat}

theorem Fails.ne_ok {a : α} (h : Fails p data pos) :
    p data pos ≠ (.ok a, pos') := by
  obtain ⟨e, pos₁, he⟩ := h
  rw [he]
  intro heq
  cases heq

theorem Twins.both_iff (h : Twins p q n) (hpos : pos ≤ data.length) :
    Both p q data pos pos' ↔ pos + n ≤ data.length ∧ pos' = pos + n := by
  constructor
  · rintro ⟨a, hp, hq⟩
    by_cases hn : pos + n ≤ data.length
    · obtain ⟨b, hp', -⟩ := (h data pos hpos).1 hn
      rw [hp] at hp'
      exact ⟨hn, (mk.inj hp').2⟩
    · exact absurd hp ((h data pos hpos).2 (by omega)).1.ne_ok
  · rintro ⟨hn, rfl⟩
    exact (h data pos hpos).1 hn

theorem both_wrap {wrap : α → β} (hwrap : Function.Injective wrap) :
    Both (p >>= fun a => Pure.pure (wrap a)) (q >>= fun a => Pure.pure (wrap a)) data pos pos' ↔
      Both p q data pos pos' := by
  constructor
  · rintro ⟨b, hp, hq⟩
    obtain ⟨a, pos₁, hpa, hwrapped⟩ := Scan.bind_eq_ok.mp hp
    obtain ⟨a', pos₂, hqa, hwrapped'⟩ := Scan.bind_eq_ok.mp hq
    obtain ⟨hb, rfl⟩ := mk.inj hwrapped
    obtain ⟨hb', rfl⟩ := mk.inj hwrapped'
    have heq : a = a' := hwrap ((Except.ok.inj hb).trans (Except.ok.inj hb').symm)
    exact ⟨a, hpa, heq ▸ hqa⟩
  · rintro ⟨a, hp, hq⟩
    exact ⟨wrap a, Scan.bind_ok hp, Scan.bind_ok hq⟩

end Twins

/-- The scanner does not go back, nor past the end. -/
def Advances {α : Type} (p : Scan α) : Prop :=
  ∀ data pos, pos ≤ data.length → pos ≤ (p data pos).2 ∧ (p data pos).2 ≤ data.length

theorem Advances.pure {α : Type} (a : α) : Advances (Pure.pure a) :=
  fun _ pos hpos => ⟨Nat.le_refl pos, hpos⟩

theorem Advances.bind {α β : Type} {p : Scan α} {f : α → Scan β} (hp : Advances p)
    (hf : ∀ a, Advances (f a)) : Advances (p >>= f) := by
  intro data pos hpos
  obtain ⟨hle, hend⟩ := hp data pos hpos
  cases hresult : p data pos with
  | mk result pos' =>
    rw [hresult] at hle hend
    cases result with
    | error e =>
      rw [Scan.bind_error hresult]
      exact ⟨hle, hend⟩
    | ok a =>
      rw [Scan.bind_ok hresult]
      obtain ⟨hle', hend'⟩ := hf a data pos' hend
      exact ⟨Nat.le_trans hle hle', hend'⟩

end ByteScan
