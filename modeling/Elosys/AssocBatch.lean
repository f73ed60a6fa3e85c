import Mathlib.Data.List.AList

/-!
# Batches of Keyed Updates on Association Maps

A write-back cache hands its map to the store below, which walks the entries and replaces, inserts
or erases its own entry under each key. As the keys are distinct, no step sees another's effect:
the fold acts key by key.
-/

open List

namespace AssocBatch

/-- A finite map: an association list with distinct keys. -/
abbrev Assoc (κ α : Type) := AList (fun _ : κ => α)

variable {κ α β ε : Type}

section

variable (f : κ → β → Option α → Option α) (k : κ)

/-- A batch step at one key, given the source's entry. -/
def batchAt (b : Option β) (o : Option α) : Option α :=
  match b with
  | some b => f k b o
  | none => o

@[simp] theorem batchAt_none (o : Option α) : batchAt f k none o = o := rfl

@[simp] theorem batchAt_some (b : β) (o : Option α) : batchAt f k (some b) o = f k b o := rfl

end

variable [DecidableEq κ]

variable (m : Assoc κ α)

/-- Rewrite one key's entry: insert a value or erase it. -/
def alter (k : κ) : Option α → Assoc κ α
  | some a => m.insert k a
  | none => m.erase k

theorem lookup_alter (k j : κ) (o : Option α) :
    (alter m k o).lookup j = if j = k then o else m.lookup j := by
  by_cases h : j = k
  · subst h
    cases o with
    | none => simp [alter]
    | some a => simp [alter]
  · cases o with
    | none => simp [alter, h, AList.lookup_erase_ne h]
    | some a => simp [alter, h, AList.lookup_insert_ne h]

theorem lookup_insert_eq (k j : κ) (a : α) :
    (m.insert k a).lookup j = if j = k then some a else m.lookup j :=
  lookup_alter m k j (some a)

theorem lookup_erase_eq (k j : κ) : (m.erase k).lookup j = if j = k then none else m.lookup j :=
  lookup_alter m k j none

variable (f : κ → β → Option α → Option α)

/-- For each entry of `src`, rewrite `dst` under the same key by `f`. -/
def batch (src : Assoc κ β) (dst : Assoc κ α) : Assoc κ α :=
  src.entries.foldl (fun d e => alter d e.1 (f e.1 e.2 (d.lookup e.1))) dst

/-- The same walk with a step that may fail. -/
def batchM (f : κ → β → Option α → Except ε (Option α)) (src : Assoc κ β)
    (dst : Assoc κ α) : Except ε (Assoc κ α) :=
  src.entries.foldlM (fun d e => (f e.1 e.2 (d.lookup e.1)).map (alter d e.1)) dst

variable {k : κ}

private theorem lookup_foldl_of_notMem
    (l : List (Sigma fun _ : κ => β)) (h : k ∉ l.keys) (dst : Assoc κ α) :
    (l.foldl (fun d e => alter d e.1 (f e.1 e.2 (d.lookup e.1))) dst).lookup k = dst.lookup k := by
  induction l generalizing dst with
  | nil => rfl
  | cons e l ih =>
    rw [keys_cons, mem_cons, not_or] at h
    rw [foldl_cons, ih h.2, lookup_alter, if_neg h.1]

private theorem lookup_foldl (k : κ)
    (l : List (Sigma fun _ : κ => β)) (hl : l.NodupKeys) (dst : Assoc κ α) :
    (l.foldl (fun d e => alter d e.1 (f e.1 e.2 (d.lookup e.1))) dst).lookup k
      = batchAt f k (l.dlookup k) (dst.lookup k) := by
  induction l generalizing dst with
  | nil => rfl
  | cons e l ih =>
    obtain ⟨j, b⟩ := e
    rw [nodupKeys_cons] at hl
    by_cases hk : k = j
    · subst hk
      rw [foldl_cons, lookup_foldl_of_notMem f l hl.1, lookup_alter, if_pos rfl,
        dlookup_cons_eq, batchAt_some]
    · rw [foldl_cons, ih hl.2, lookup_alter, if_neg hk, dlookup_cons_ne _ _ hk]

/-- **A batch acts key by key**, on the source's entry, and leaves other keys alone. -/
theorem lookup_batch (src : Assoc κ β) (dst : Assoc κ α) (k : κ) :
    (batch f src dst).lookup k = batchAt f k (src.lookup k) (dst.lookup k) :=
  lookup_foldl f k src.entries src.nodupKeys dst

private theorem foldlM_eq_ok (f : κ → β → Option α → Except ε (Option α))
    (g : κ → β → Option α → Option α) (l : List (Sigma fun _ : κ => β))
    (hl : l.NodupKeys) (dst : Assoc κ α)
    (h : ∀ e ∈ l, f e.1 e.2 (dst.lookup e.1) = .ok (g e.1 e.2 (dst.lookup e.1))) :
    l.foldlM (fun d e => (f e.1 e.2 (d.lookup e.1)).map (alter d e.1)) dst
      = .ok (l.foldl (fun d e => alter d e.1 (g e.1 e.2 (d.lookup e.1))) dst) := by
  induction l generalizing dst with
  | nil => rfl
  | cons e l ih =>
    rw [nodupKeys_cons] at hl
    have he := h e (mem_cons_self)
    rw [foldlM_cons, foldl_cons, he]
    refine ih hl.2 _ fun e' he' => ?_
    have hne : e'.1 ≠ e.1 := fun heq =>
      hl.1 (heq ▸ mem_keys_of_mem he')
    rw [lookup_alter, if_neg hne]
    exact h e' (mem_cons_of_mem _ he')

theorem batchM_eq_ok (f : κ → β → Option α → Except ε (Option α))
    (g : κ → β → Option α → Option α) (src : Assoc κ β) (dst : Assoc κ α)
    (h : ∀ k b, src.lookup k = some b → f k b (dst.lookup k) = .ok (g k b (dst.lookup k))) :
    batchM f src dst = .ok (batch g src dst) := by
  refine foldlM_eq_ok f g src.entries src.nodupKeys dst fun e he => ?_
  exact h e.1 e.2 (AList.mem_lookup_iff.mpr he)

/-! ### Entries of owners -/

def writeAll (entries : List (κ × α)) (m : Assoc κ α) : Assoc κ α :=
  entries.foldl (fun m e => m.insert e.1 e.2) m

def insertNew (k : κ) (a : α) : Assoc κ α :=
  if (m.lookup k).isSome then m else m.insert k a

def insertNewAll (entries : List (κ × α)) (m : Assoc κ α) : Assoc κ α :=
  entries.foldl (fun m e => insertNew m e.1 e.2) m

def eraseAll (keys : List κ) (m : Assoc κ α) : Assoc κ α :=
  keys.foldl (fun m k => m.erase k) m

theorem lookup_eraseAll (keys : List κ) (m : Assoc κ α) (k : κ) :
    (eraseAll keys m).lookup k = if k ∈ keys then none else m.lookup k := by
  induction keys generalizing m with
  | nil => simp [eraseAll]
  | cons j keys ih =>
    change (eraseAll keys (m.erase j)).lookup k = _
    rw [ih, lookup_erase_eq]
    by_cases hk : k = j
    · simp [hk]
    · simp [hk]

variable {entries : List (κ × α)} {m : Assoc κ α}

theorem lookup_writeAll_of_notMem
    (h : ∀ e ∈ entries, e.1 ≠ k) : (writeAll entries m).lookup k = m.lookup k := by
  induction entries generalizing m with
  | nil => rfl
  | cons e entries ih =>
    obtain ⟨he, hrest⟩ := forall_mem_cons.mp h
    change (writeAll entries (m.insert e.1 e.2)).lookup k = _
    rw [ih hrest, lookup_insert_eq, if_neg (Ne.symm he)]

theorem lookup_writeAll_of_mem {a : α}
    (hmem : (k, a) ∈ entries) (hfun : ∀ b, (k, b) ∈ entries → b = a) :
    (writeAll entries m).lookup k = some a := by
  induction entries generalizing m with
  | nil => exact absurd hmem (by simp)
  | cons e entries ih =>
    change (writeAll entries (m.insert e.1 e.2)).lookup k = _
    by_cases hrest : (k, a) ∈ entries
    · exact ih hrest fun b hb => hfun b (.tail _ hb)
    · obtain rfl : (k, a) = e := (mem_cons.mp hmem).resolve_right hrest
      rw [lookup_writeAll_of_notMem, lookup_insert_eq, if_pos rfl]
      rintro ⟨k', b⟩ he rfl
      exact hrest (hfun b (.tail _ he) ▸ he)

theorem exists_lookup_writeAll (h : ∃ e ∈ entries, e.1 = k) :
    ∃ e ∈ entries, e.1 = k ∧ (writeAll entries m).lookup k = some e.2 := by
  induction entries generalizing m with
  | nil => exact absurd h (by simp)
  | cons e entries ih =>
    by_cases hrest : ∃ e' ∈ entries, e'.1 = k
    · obtain ⟨e', hmem, hkey, hlookup⟩ := ih (m := m.insert e.1 e.2) hrest
      exact ⟨e', .tail _ hmem, hkey, hlookup⟩
    · obtain ⟨e', hmem, hkey⟩ := h
      obtain rfl : e' = e :=
        (mem_cons.mp hmem).resolve_right fun hmem => hrest ⟨e', hmem, hkey⟩
      refine ⟨e', .head _, hkey, ?_⟩
      change (writeAll entries (m.insert e'.1 e'.2)).lookup k = _
      rw [lookup_writeAll_of_notMem fun e hmem hk => hrest ⟨e, hmem, hk⟩, lookup_insert_eq,
        if_pos hkey.symm]

theorem lookup_insertNewAll {a : α} (h : (insertNewAll entries m).lookup k = some a) :
    m.lookup k = some a ∨ (k, a) ∈ entries := by
  induction entries generalizing m with
  | nil => exact .inl h
  | cons e entries ih =>
    rcases ih (m := insertNew m e.1 e.2) h with hk | hk
    · rw [insertNew] at hk
      split at hk
      · exact .inl hk
      · rw [lookup_insert_eq] at hk
        split at hk
        · next heq =>
            obtain rfl := Option.some.inj hk
            exact .inr (heq ▸ .head _)
        · exact .inl hk
    · exact .inr (.tail _ hk)

section

variable {τ : Type} {entries : τ → List (κ × α)} {owners owners' : List τ} {m : Assoc κ α} {t : τ}

/-- The map holds the owners' entries, and no others. -/
def Induced (entries : τ → List (κ × α)) (owners : List τ) (m : Assoc κ α) : Prop :=
  ∀ k a, m.lookup k = some a ↔ ∃ t ∈ owners, (k, a) ∈ entries t

theorem induced_empty : Induced entries [] (∅ : Assoc κ α) := by
  intro k a
  simp

theorem Induced.add (h : Induced entries owners m) (hmem : ∀ x, x ∈ owners' ↔ x = t ∨ x ∈ owners)
    (hfun : ∀ k a b, (k, a) ∈ entries t → (k, b) ∈ entries t → b = a)
    (hnew : ∀ e ∈ entries t, m.lookup e.1 = none) :
    Induced entries owners' (writeAll (entries t) m) := by
  intro k a
  by_cases hk : ∃ b, (k, b) ∈ entries t
  · obtain ⟨b, hb⟩ := hk
    rw [lookup_writeAll_of_mem hb fun c hc => hfun k b c hb hc]
    constructor
    · rintro ⟨⟩
      exact ⟨t, (hmem t).mpr (.inl rfl), hb⟩
    · rintro ⟨x, hx, ha⟩
      rcases (hmem x).mp hx with rfl | hx
      · rw [hfun k a b ha hb]
      · have hsome := (h k a).mpr ⟨x, hx, ha⟩
        rw [hnew _ hb] at hsome
        exact absurd hsome (by simp)
  · rw [lookup_writeAll_of_notMem fun e he heq => hk ⟨e.2, heq ▸ he⟩, h k a]
    constructor
    · rintro ⟨x, hx, ha⟩
      exact ⟨x, (hmem x).mpr (.inr hx), ha⟩
    · rintro ⟨x, hx, ha⟩
      rcases (hmem x).mp hx with rfl | hx
      · exact absurd ⟨a, ha⟩ hk
      · exact ⟨x, hx, ha⟩

theorem Induced.remove {keys : List κ} (h : Induced entries owners m)
    (hmem : ∀ x, x ∈ owners' ↔ x ∈ owners ∧ x ≠ t) (hkeys : ∀ e ∈ entries t, e.1 ∈ keys)
    (hothers : ∀ x ∈ owners', ∀ e ∈ entries x, e.1 ∉ keys) :
    Induced entries owners' (eraseAll keys m) := by
  intro k a
  rw [lookup_eraseAll]
  by_cases hk : k ∈ keys
  · simp only [hk, if_true, reduceCtorEq, false_iff, not_exists, not_and]
    exact fun x hx ha => hothers x hx _ ha hk
  · rw [if_neg hk, h k a]
    constructor
    · rintro ⟨x, hx, ha⟩
      refine ⟨x, (hmem x).mpr ⟨hx, ?_⟩, ha⟩
      rintro rfl
      exact hk (hkeys _ ha)
    · rintro ⟨x, hx, ha⟩
      exact ⟨x, ((hmem x).mp hx).1, ha⟩

end

end AssocBatch
