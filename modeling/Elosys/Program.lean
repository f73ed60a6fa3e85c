import Mathlib.Tactic.Common

/-!
# Programs Over an Interface

A program calls the operations of an interface and may fail. A `Handler` runs it on a concrete
state; a `Spec` says which answers and next states an operation may have, so that a program has a
set of outcomes. A failing program still leaves a state behind.
-/

open List Prod

namespace Program

/-- The operations of a program, with their answers' types. -/
structure Signature where
  Op : Type
  Ret : Op → Type

/-- A program calls operations, and ends with a value or failure. -/
inductive Prog (S : Signature) (ε α : Type) : Type where
  | pure (a : α)
  | fail (e : ε)
  | call (o : S.Op) (k : S.Ret o → Prog S ε α)

/-- What an operation may answer in a state, and leave. -/
abbrev Spec (S : Signature) (ε σ : Type) :=
  (o : S.Op) → σ → Except ε (S.Ret o) × σ → Prop

abbrev Handler (S : Signature) (ε σ : Type) :=
  (o : S.Op) → σ → Except ε (S.Ret o) × σ

variable {S : Signature} {ε α β σ τ : Type}

namespace Prog

def bind : Prog S ε α → (α → Prog S ε β) → Prog S ε β
  | .pure a, f => f a
  | .fail e, _ => .fail e
  | .call o k, f => .call o fun r => (k r).bind f

instance : Monad (Prog S ε) where
  pure := .pure
  bind := .bind

theorem bind_pure (p : Prog S ε α) : p.bind .pure = p := by
  induction p with
  | pure a => rfl
  | fail e => rfl
  | call o k ih => exact congrArg (call o) (funext ih)

theorem bind_assoc {γ : Type} (p : Prog S ε α) (f : α → Prog S ε β) (g : β → Prog S ε γ) :
    (p.bind f).bind g = p.bind fun a => (f a).bind g := by
  induction p with
  | pure a => rfl
  | fail e => rfl
  | call o k ih => exact congrArg (call o) (funext ih)

instance : LawfulMonad (Prog S ε) :=
  LawfulMonad.mk' _ bind_pure (fun _ _ => rfl) bind_assoc

def op (o : S.Op) : Prog S ε (S.Ret o) := .call o .pure

def ofExcept : Except ε α → Prog S ε α
  | .ok a => .pure a
  | .error e => .fail e

instance : MonadLift (Except ε) (Prog S ε) := ⟨ofExcept⟩

def run (h : Handler S ε σ) : Prog S ε α → σ → Except ε α × σ
  | .pure a, s => (.ok a, s)
  | .fail e, s => (.error e, s)
  | .call o k, s =>
    match h o s with
    | (.ok r, s) => (k r).run h s
    | (.error e, s) => (.error e, s)

/-- The outcomes of a program when operations behave as specified. -/
def Outcome (spec : Spec S ε σ) : Prog S ε α → σ → Except ε α × σ → Prop
  | .pure a, s, res => res = (.ok a, s)
  | .fail e, s, res => res = (.error e, s)
  | .call o k, s, res =>
    (∃ e s', spec o s (.error e, s') ∧ res = (.error e, s')) ∨
      ∃ r s', spec o s (.ok r, s') ∧ (k r).Outcome spec s' res

/-- The program calls no other operations. -/
def Uses (A : S.Op → Prop) : Prog S ε α → Prop
  | .pure _ => True
  | .fail _ => True
  | .call o k => A o ∧ ∀ r, (k r).Uses A

/-- Every outcome is a success, as required. -/
def Ensures (spec : Spec S ε σ) (p : Prog S ε α) (s : σ) (Q : α → σ → Prop) : Prop :=
  ∀ res, p.Outcome spec s res → ∃ a s', res = (.ok a, s') ∧ Q a s'

end Prog

/-- The spec that allows exactly what a handler does. -/
def Handler.spec (h : Handler S ε σ) : Spec S ε σ := fun o s res => res = h o s

open Prog

/-! ### Outcomes, step by step -/

variable {spec : Spec S ε σ} {p : Prog S ε α} {f : α → Prog S ε β} {s s' : σ} {a : α}
  {b : β}

theorem outcome_bind {res : Except ε β × σ} : (p >>= f).Outcome spec s res ↔
      (∃ e s₁, p.Outcome spec s (.error e, s₁) ∧ res = (.error e, s₁)) ∨
        ∃ a s₁, p.Outcome spec s (.ok a, s₁) ∧ (f a).Outcome spec s₁ res := by
  change (p.bind f).Outcome spec s res ↔ _
  induction p generalizing s with
  | pure a =>
    simp only [Prog.bind, Outcome, mk.injEq, reduceCtorEq, false_and, exists_false,
      false_or, Except.ok.injEq]
    constructor
    · intro h
      exact ⟨a, s, ⟨rfl, rfl⟩, h⟩
    · rintro ⟨_, _, ⟨rfl, rfl⟩, h⟩
      exact h
  | fail e => simp [Prog.bind, Outcome]
  | call o k ih =>
    simp only [Prog.bind, Outcome, ih]
    constructor
    · rintro (⟨e, s₁, h, rfl⟩ | ⟨r, s₁, h, ⟨e, s₂, hk, rfl⟩ | ⟨a, s₂, hk, hf⟩⟩)
      · exact .inl ⟨e, s₁, .inl ⟨e, s₁, h, rfl⟩, rfl⟩
      · exact .inl ⟨e, s₂, .inr ⟨r, s₁, h, hk⟩, rfl⟩
      · exact .inr ⟨a, s₂, .inr ⟨r, s₁, h, hk⟩, hf⟩
    · rintro (⟨e, s₁, ⟨e', s₂, h, heq⟩ | ⟨r, s₂, h, hk⟩, rfl⟩ |
        ⟨a, s₁, ⟨e', s₂, h, heq⟩ | ⟨r, s₂, h, hk⟩, hf⟩)
      · obtain ⟨⟨⟩, ⟨⟩⟩ := heq
        exact .inl ⟨e, s₁, h, rfl⟩
      · exact .inr ⟨r, s₂, h, .inl ⟨e, s₁, hk, rfl⟩⟩
      · exact absurd (congrArg Prod.fst heq) (by simp)
      · exact .inr ⟨r, s₂, h, .inr ⟨a, s₁, hk, hf⟩⟩

theorem outcome_bind_ok : (p >>= f).Outcome spec s (.ok b, s') ↔
      ∃ a s₁, p.Outcome spec s (.ok a, s₁) ∧ (f a).Outcome spec s₁ (.ok b, s') := by
  simp [outcome_bind]

variable {res : Except ε α × σ}

@[simp] theorem outcome_pure :
    (Pure.pure a : Prog S ε α).Outcome spec s res ↔ res = (.ok a, s) := Iff.rfl

theorem outcome_pure_ok {a' : α} :
    (Pure.pure a : Prog S ε α).Outcome spec s (.ok a', s') ↔ a' = a ∧ s' = s := by
  simp

@[simp] theorem outcome_op {o : S.Op} {res : Except ε (S.Ret o) × σ} :
    (op o : Prog S ε _).Outcome spec s res ↔ spec o s res := by
  obtain ⟨r | r, s₁⟩ := res
  · simp [op, Outcome]
  · simp [op, Outcome]

variable {x : Except ε α}

theorem outcome_ofExcept : (ofExcept x : Prog S ε α).Outcome spec s res ↔ res = (x, s) := by
  cases x with
  | ok a => rfl
  | error e => rfl

@[simp] theorem outcome_lift_ok :
    (liftM x : Prog S ε α).Outcome spec s (.ok a, s') ↔ x = .ok a ∧ s' = s := by
  change (ofExcept x : Prog S ε α).Outcome spec s _ ↔ _
  rw [outcome_ofExcept, mk.injEq, eq_comm]

theorem ensures_pure {Q : α → σ → Prop} (h : Q a s) :
    (Pure.pure a : Prog S ε α).Ensures spec s Q := by
  rintro res rfl
  exact ⟨a, s, rfl, h⟩

theorem ensures_bind {Q : α → σ → Prop} {Q' : β → σ → Prop} (hp : p.Ensures spec s Q)
    (hf : ∀ a s₁, Q a s₁ → (f a).Ensures spec s₁ Q') : (p >>= f).Ensures spec s Q' := by
  intro res hres
  obtain ⟨e, s₁, h, rfl⟩ | ⟨a, s₁, h, hres⟩ := outcome_bind.mp hres
  · obtain ⟨a, s₂, heq, -⟩ := hp _ h
    exact absurd (congrArg Prod.fst heq) (by simp)
  · obtain ⟨a', s₂, heq, hQ⟩ := hp _ h
    obtain ⟨⟨⟩, ⟨⟩⟩ := heq
    exact hf a s₁ hQ res hres

theorem ensures_lift_bind {Q : β → σ → Prop} (hx : x = .ok a)
    (h : (f a).Ensures spec s Q) : ((liftM x : Prog S ε α) >>= f).Ensures spec s Q := by
  subst hx
  exact h

/-! ### The operations of a program -/

section

variable {A : S.Op → Prop}

theorem uses_pure : (Pure.pure a : Prog S ε α).Uses A := trivial

theorem uses_lift (x : Except ε α) : (liftM x : Prog S ε α).Uses A := by
  cases x with
  | ok a => trivial
  | error e => trivial

theorem uses_op {o : S.Op} (h : A o) : (op o : Prog S ε _).Uses A := ⟨h, fun _ => trivial⟩

theorem uses_bind (hp : p.Uses A) (hf : ∀ a, (f a).Uses A) : (p >>= f).Uses A := by
  induction p with
  | pure a => exact hf a
  | fail e => trivial
  | call o k ih => exact ⟨hp.1, fun r => ih r (hp.2 r)⟩

theorem uses_lift_bind (hf : ∀ a, (f a).Uses A) : ((liftM x : Prog S ε α) >>= f).Uses A :=
  uses_bind (uses_lift x) hf

theorem Prog.Uses.mono {B : S.Op → Prop} (h : ∀ o, A o → B o) (hp : p.Uses A) : p.Uses B := by
  induction p with
  | pure a => trivial
  | fail e => trivial
  | call o k ih => exact ⟨h o hp.1, fun r => ih r (hp.2 r)⟩

theorem uses_mapM {γ : Type} {g : γ → Prog S ε α} (hg : ∀ x, (g x).Uses A)
    (xs : List γ) : (xs.mapM g).Uses A := by
  induction xs with
  | nil => exact uses_pure
  | cons x xs ih =>
    rw [mapM_cons]
    exact uses_bind (hg x) fun _ => uses_bind ih fun _ => uses_pure

theorem Prog.Uses.relates {r : σ → σ → Prop} (hrefl : ∀ s, r s s)
    (htrans : ∀ s s₁ s₂, r s s₁ → r s₁ s₂ → r s s₂)
    (hrel : ∀ o, A o → ∀ s res, spec o s res → r s res.2)
    (hp : p.Uses A) (h : p.Outcome spec s res) : r s res.2 := by
  induction p generalizing s with
  | pure a => rw [show res = (.ok a, s) from h]; exact hrefl s
  | fail e => rw [show res = (.error e, s) from h]; exact hrefl s
  | call o k ih =>
    obtain ⟨e, s₁, ho, rfl⟩ | ⟨a, s₁, ho, hk⟩ := h
    · exact hrel o hp.1 s _ ho
    · exact htrans s s₁ res.2 (hrel o hp.1 s _ ho) (ih a (hp.2 a) hk)

theorem Prog.Uses.keeps (hkeep : ∀ o, A o → ∀ s res, spec o s res → res.2 = s)
    (hp : p.Uses A) (h : p.Outcome spec s res) : res.2 = s :=
  hp.relates (r := fun s s' => s' = s) (fun _ => rfl) (fun _ _ _ h₁ h₂ => h₂.trans h₁) hkeep h

end

variable {h : Handler S ε σ}

theorem outcome_handler : p.Outcome h.spec s res ↔ res = p.run h s := by
  induction p generalizing s with
  | pure a => rfl
  | fail e => rfl
  | call o k ih =>
    simp only [Outcome, Handler.spec, run, ih]
    rcases h o s with ⟨r | r, s₁⟩
    · simp [eq_comm]
    · simp

/-! ### Simulation -/

/-- Related states stay related, with the same answer, when an operation is called and some
abstract outcome chosen. -/
def Simulates (R : σ → τ → Prop) (conc : Spec S ε σ) (abs : Spec S ε τ) : Prop :=
  ∀ o s t res, R s t → conc o s res → ∃ t', abs o t (res.1, t') ∧ R res.2 t'

section

variable {R : σ → τ → Prop} {conc : Spec S ε σ} {abs : Spec S ε τ} {t : τ}

theorem Simulates.outcome (hsim : Simulates R conc abs) (hR : R s t) (h : p.Outcome conc s res) :
    ∃ t', p.Outcome abs t (res.1, t') ∧ R res.2 t' := by
  induction p generalizing s t with
  | pure a =>
    obtain rfl := h
    exact ⟨t, rfl, hR⟩
  | fail e =>
    obtain rfl := h
    exact ⟨t, rfl, hR⟩
  | call o k ih =>
    obtain ⟨e, s₁, ho, rfl⟩ | ⟨r, s₁, ho, hk⟩ := h
    · obtain ⟨t₁, ha, hR₁⟩ := hsim o s t _ hR ho
      exact ⟨t₁, .inl ⟨e, t₁, ha, rfl⟩, hR₁⟩
    · obtain ⟨t₁, ha, hR₁⟩ := hsim o s t _ hR ho
      obtain ⟨t₂, hout, hR₂⟩ := ih r hR₁ hk
      exact ⟨t₂, .inr ⟨r, t₁, ha, hout⟩, hR₂⟩

theorem outcome_proj {g : σ → τ} (hg : ∀ o s res, conc o s res → abs o (g s) (res.1, g res.2))
    (h : p.Outcome conc s res) : p.Outcome abs (g s) (res.1, g res.2) := by
  have hsim : Simulates (fun s t => t = g s) conc abs := by
    rintro o s _ res rfl hres
    exact ⟨_, hg o s res hres, rfl⟩
  obtain ⟨_, hout, rfl⟩ := hsim.outcome rfl h
  exact hout

theorem Simulates.run (hsim : Simulates R h.spec abs) (hR : R s t) :
    ∃ t', p.Outcome abs t ((p.run h s).1, t') ∧ R (p.run h s).2 t' :=
  hsim.outcome hR (outcome_handler.mpr rfl)

theorem Simulates.run_ensures {Q : α → τ → Prop}
    (hsim : Simulates R h.spec abs) (hR : R s t) (hQ : p.Ensures abs t Q) :
    ∃ a s' t', p.run h s = (.ok a, s') ∧ Q a t' ∧ R s' t' := by
  obtain ⟨t', hout, hR'⟩ := hsim.run (p := p) hR
  obtain ⟨a, t'', heq, hq⟩ := hQ _ hout
  obtain ⟨hres, rfl⟩ := Prod.mk.inj heq
  exact ⟨a, _, t', Prod.ext hres rfl, hq, hR'⟩

end

/-! ### Runs of a step function -/

section

variable {σ ι ε : Type} {step : σ → ι → Except ε σ} {cond : σ → ι → Prop} {P : σ → Prop}

/-- Every step of a run meets a condition on its state. -/
def AllMeet (step : σ → ι → Except ε σ) (cond : σ → ι → Prop) : List ι → σ → Prop
  | [], _ => True
  | i :: is, s => cond s i ∧ ∀ s', step s i = .ok s' → AllMeet step cond is s'

/-- Whether every step meets a condition is found by running. -/
instance AllMeet.decidable [∀ s i, Decidable (cond s i)] :
    ∀ (is : List ι) (s : σ), Decidable (AllMeet step cond is s)
  | [], _ => .isTrue trivial
  | i :: is, s =>
    match hstep : step s i with
    | .error _ =>
      decidable_of_iff (cond s i) ⟨fun h => ⟨h, fun _ h' => by cases hstep ▸ h'⟩, And.left⟩
    | .ok s' =>
      have := AllMeet.decidable is s'
      decidable_of_iff (cond s i ∧ AllMeet step cond is s')
        (and_congr_right fun _ =>
          ⟨fun h _ h' => Except.ok.inj (hstep.symm.trans h') ▸ h, fun h => h s' hstep⟩)

variable {is : List ι}

theorem AllMeet.with_mem {s : σ} (hmeet : AllMeet step cond is s) :
    AllMeet step (fun s i => cond s i ∧ i ∈ is) is s := by
  have hsub : ∀ {is' : List ι} {s : σ}, is' ⊆ is → AllMeet step cond is' s →
      AllMeet step (fun s i => cond s i ∧ i ∈ is) is' s := by
    intro is' s hsub hmeet
    induction is' generalizing s with
    | nil => trivial
    | cons i is' ih =>
      obtain ⟨hi, hsub⟩ := cons_subset.mp hsub
      exact ⟨⟨hmeet.1, hi⟩, fun s' hstep => ih hsub (hmeet.2 s' hstep)⟩
  exact hsub (fun _ => id) hmeet

theorem allMeet_iff {s : σ} : AllMeet step cond is s ↔
      ∀ before i after s', is = before ++ i :: after → before.foldlM step s = .ok s' →
        cond s' i := by
  induction is generalizing s with
  | nil => exact ⟨fun _ before i after s' his => by simp at his, fun _ => trivial⟩
  | cons j is ih =>
    constructor
    · rintro ⟨hcond, hrest⟩ before i after s' his hrun
      cases before with
      | nil =>
        obtain ⟨rfl, -⟩ := cons.inj his
        obtain rfl := Except.ok.inj hrun
        exact hcond
      | cons k before =>
        obtain ⟨rfl, hrest'⟩ := cons.inj his
        rw [foldlM_cons] at hrun
        cases hstep : step s j with
        | error e =>
          rw [hstep] at hrun
          cases hrun
        | ok s₁ =>
          rw [hstep] at hrun
          exact ih.mp (hrest s₁ hstep) before i after s' hrest' hrun
    · intro h
      refine ⟨h [] j is s rfl rfl, fun s₁ hstep => ih.mpr ?_⟩
      intro before i after s' his hrun
      refine h (j :: before) i after s' (by rw [his]; rfl) ?_
      rwa [foldlM_cons, hstep]

/-- **Invariants of runs**: what holds at the start and is kept by each step that meets the
condition holds after every such run. -/
theorem AllMeet.invariant {s s' : σ} (hmeet : AllMeet step cond is s)
    (hstep : ∀ i s s', cond s i → P s → step s i = .ok s' → P s') (h : P s)
    (hrun : is.foldlM step s = .ok s') : P s' := by
  induction is generalizing s with
  | nil =>
    obtain rfl := Except.ok.inj hrun
    exact h
  | cons i is ih =>
    obtain ⟨hcond, hrest⟩ := hmeet
    rw [foldlM_cons] at hrun
    cases hi : step s i with
    | error e =>
      rw [hi] at hrun
      cases hrun
    | ok s₁ =>
      rw [hi] at hrun
      exact ih (hrest s₁ hi) (hstep i s s₁ hcond h hi) hrun

end

end Program
