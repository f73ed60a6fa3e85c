import Mathlib.Data.List.Forall2
import Elosys.Primitives

/-!
# Multisignatures

`OP_CHECKMULTISIG` of `EvalScript` in `script/interpreter.cpp`. The walk drops a key with every
check and a signature with every success, and gives up when more signatures are left than keys. The
stack is a list, its top first.
-/

open List Except

namespace Elosys

inductive ScriptError where
  | invalidStackOperation
  | pubkeyCount
  | opCount
  | sigCount
  | sigNulldummy
  | checkmultisigverify
  | unknown
  | sigEncoding
  | pubkeyEncoding
  deriving DecidableEq

/-- What the instruction calls: `CScriptNum(…).getint()`, the checks of encodings under the flags,
`checker.CheckSig`, and whether `SCRIPT_VERIFY_NULLDUMMY` is set. -/
structure SigRules where
  getint : List UInt8 → Except ScriptError Int
  sigEncoding : List UInt8 → Bool
  pubkeyEncoding : List UInt8 → Bool
  checkSig : List UInt8 → List UInt8 → Bool
  nullDummy : Bool

def SigRules.Signs (r : SigRules) (sig key : List UInt8) : Prop := r.checkSig sig key = true

/-- `set_error`, unless a condition holds. -/
def require (cond : Prop) [Decidable cond] (e : ScriptError) : Except ScriptError Unit :=
  if cond then .ok () else .error e

/-- `stacktop(-i)`. -/
def stacktop (stack : List (List UInt8)) (i : Nat) : Except ScriptError (List UInt8) :=
  match stack[i - 1]? with
  | some v => .ok v
  | none => .error .unknown

variable (r : SigRules)

/-- The loop over `nKeysCount` keys and `nSigsCount` signatures, from `ikey` and `isig` on:
`fSuccess`, and how often `CheckSig` was called. -/
def matchSigs (stack : List (List UInt8)) : Nat → Nat → Nat → Nat → Except ScriptError (Bool × Nat)
  | _, 0, _, _ => .ok (true, 0)
  | 0, _ + 1, _, _ => .error .unknown -- not reached: there are never more signatures than keys
  | nKeys + 1, nSigs + 1, ikey, isig => do
    let vchSig ← stacktop stack isig
    let vchPubKey ← stacktop stack ikey
    require (r.sigEncoding vchSig) .sigEncoding
    require (r.pubkeyEncoding vchPubKey) .pubkeyEncoding
    let fOk := r.checkSig vchSig vchPubKey
    let nSigs := if fOk then nSigs else nSigs + 1
    if nKeys < nSigs then return (false, 1)
    let (fSuccess, checks) ← matchSigs stack nKeys nSigs (ikey + 1) (if fOk then isig + 1 else isig)
    return (fSuccess, checks + 1)

def boolValue (b : Bool) : List UInt8 := if b then [1] else []

/-- `OP_CHECKMULTISIG`, and with `verify` `OP_CHECKMULTISIGVERIFY`: the stack, `nOpCount` and the
number of checks. -/
def checkMultisig (verify : Bool) (nOpCount : Nat) (stack : List (List UInt8)) :
    Except ScriptError (List (List UInt8) × Nat × Nat) := do
  require (1 ≤ stack.length) .invalidStackOperation
  let nKeysCount ← r.getint (← stacktop stack 1)
  require (0 ≤ nKeysCount ∧ nKeysCount ≤ 20) .pubkeyCount
  let nKeys := nKeysCount.toNat
  require (nOpCount + nKeys ≤ 201) .opCount
  require (2 + nKeys ≤ stack.length) .invalidStackOperation
  let nSigsCount ← r.getint (← stacktop stack (2 + nKeys))
  require (0 ≤ nSigsCount ∧ nSigsCount ≤ nKeysCount) .sigCount
  let nSigs := nSigsCount.toNat
  require (3 + nKeys + nSigs ≤ stack.length) .invalidStackOperation
  let (fSuccess, checks) ← matchSigs r stack nKeys nSigs 2 (3 + nKeys)
  let stack := stack.drop (2 + nKeys + nSigs)
  require (1 ≤ stack.length) .invalidStackOperation
  require (r.nullDummy = true → stack.head? = some []) .sigNulldummy
  let stack := boolValue fSuccess :: stack.tail
  if verify then
    require (fSuccess = true) .checkmultisigverify
    return (stack.tail, nOpCount + nKeys, checks)
  return (stack, nOpCount + nKeys, checks)

/-! ### The walk -/

section Greedy

variable {α β : Type} {R : α → β → Prop} {a : α} {b : β} {l₁ : List α} {l₂ : List β}

theorem SublistForall₂.of_cons (h : SublistForall₂ R (a :: l₁) l₂) : SublistForall₂ R l₁ l₂ := by
  generalize hl : a :: l₁ = l at h
  induction h with
  | nil => cases hl
  | cons _ h => exact cons.inj hl |>.2 ▸ h.cons_right
  | cons_right _ ih => exact (ih hl).cons_right

theorem sublistForall₂_of_match (h : R a b) :
    SublistForall₂ R (a :: l₁) (b :: l₂) ↔ SublistForall₂ R l₁ l₂ := by
  refine ⟨fun hsub => ?_, .cons h⟩
  cases hsub with
  | cons _ hsub => exact hsub
  | cons_right hsub => exact SublistForall₂.of_cons hsub

theorem sublistForall₂_of_miss (h : ¬R a b) :
    SublistForall₂ R (a :: l₁) (b :: l₂) ↔ SublistForall₂ R (a :: l₁) l₂ := by
  refine ⟨fun hsub => ?_, .cons_right⟩
  cases hsub with
  | cons hab => exact absurd hab h
  | cons_right hsub => exact hsub

theorem SublistForall₂.length_le (h : SublistForall₂ R l₁ l₂) : l₁.length ≤ l₂.length := by
  obtain ⟨l, hl, hsub⟩ := sublistForall₂_iff.mp h
  exact hl.length_eq ▸ hsub.length_le

theorem sublistForall₂_reverse : SublistForall₂ R l₁.reverse l₂.reverse ↔
    ∃ l, l <+ l₂ ∧ Forall₂ R l₁ l := by
  rw [sublistForall₂_iff]
  constructor
  · rintro ⟨l, hl, hsub⟩
    exact ⟨l.reverse, reverse_sublist.mp (by rwa [reverse_reverse]),
      forall₂_reverse_iff.mp (by rwa [reverse_reverse])⟩
  · rintro ⟨l, hsub, hl⟩
    exact ⟨l.reverse, forall₂_reverse_iff.mpr hl, reverse_sublist.mpr hsub⟩

end Greedy

variable {r} {stack : List (List UInt8)}

theorem stacktop_of_drop {i : Nat} {v : List UInt8} {l : List (List UInt8)}
    (h : stack.drop (i - 1) = v :: l) : stacktop stack i = .ok v := by
  have hget : stack[i - 1]? = some v := by rw [← head?_drop, h, head?_cons]
  rw [stacktop, hget]

/-- **The walk finds the signatures among the keys**, both as they stand on the stack, and makes at
most as many checks as there are keys. -/
theorem matchSigs_spec {keys sigs belowKeys belowSigs : List (List UInt8)} {ikey isig : Nat}
    (hi : 1 ≤ ikey) (hj : 1 ≤ isig) (hkeys : stack.drop (ikey - 1) = keys ++ belowKeys)
    (hsigs : stack.drop (isig - 1) = sigs ++ belowSigs) (hle : sigs.length ≤ keys.length)
    (hsigEnc : ∀ s ∈ sigs, r.sigEncoding s = true)
    (hkeyEnc : ∀ k ∈ keys, r.pubkeyEncoding k = true) :
    ∃ fSuccess checks,
      matchSigs r stack keys.length sigs.length ikey isig = .ok (fSuccess, checks) ∧
      checks ≤ keys.length ∧
      (fSuccess = true ↔ SublistForall₂ r.Signs sigs keys) := by
  induction keys generalizing sigs ikey isig with
  | nil =>
    obtain rfl := eq_nil_of_length_eq_zero (Nat.le_zero.mp hle)
    exact ⟨true, 0, rfl, Nat.le_refl _, iff_of_true rfl .nil⟩
  | cons k keys ih =>
    cases sigs with
    | nil => exact ⟨true, 0, rfl, Nat.zero_le _, iff_of_true rfl .nil⟩
    | cons s sigs =>
      obtain ⟨hs, hsigEnc'⟩ := forall_mem_cons.mp hsigEnc
      obtain ⟨hk, hkeyEnc⟩ := forall_mem_cons.mp hkeyEnc
      have hnext : ∀ {i : Nat} {v : List UInt8} {l}, 1 ≤ i → stack.drop (i - 1) = v :: l →
          stack.drop (i + 1 - 1) = l := by
        intro i v l hi h
        rw [show i + 1 - 1 = i - 1 + 1 by omega, ← drop_drop, h]
        rfl
      have hstep : matchSigs r stack (keys.length + 1) (sigs.length + 1) ikey isig = do
          let nSigs := if r.checkSig s k then sigs.length else sigs.length + 1
          if keys.length < nSigs then return (false, 1)
          let (fSuccess, checks) ← matchSigs r stack keys.length nSigs (ikey + 1)
            (if r.checkSig s k then isig + 1 else isig)
          return (fSuccess, checks + 1) := by
        rw [matchSigs, stacktop_of_drop hsigs, stacktop_of_drop hkeys]
        simp [require, hs, hk, bind, Except.bind]
      rw [length_cons, length_cons, hstep]
      cases hcheck : r.checkSig s k with
      | true =>
        rw [sublistForall₂_of_match (show r.Signs s k from hcheck)]
        obtain ⟨fSuccess, checks, hrun, hchecks, hiff⟩ := ih (Nat.le_succ_of_le hi)
          (Nat.le_succ_of_le hj) (hnext hi hkeys) (hnext hj hsigs) (Nat.le_of_succ_le_succ hle)
          hsigEnc' hkeyEnc
        refine ⟨fSuccess, checks + 1, ?_, Nat.succ_le_succ hchecks, hiff⟩
        have hrest := Nat.not_lt.mpr (Nat.le_of_succ_le_succ hle)
        simp [hrun, hrest, bind, Except.bind, pure, Except.pure]
      | false =>
        rw [sublistForall₂_of_miss (by simp [SigRules.Signs, hcheck])]
        by_cases hfew : keys.length < sigs.length + 1
        · refine ⟨false, 1, by simp [hfew, pure, Except.pure], Nat.succ_le_succ (Nat.zero_le _),
            iff_of_false (by simp) fun h => ?_⟩
          exact absurd (SublistForall₂.length_le h) (Nat.not_le.mpr hfew)
        · obtain ⟨fSuccess, checks, hrun, hchecks, hiff⟩ := ih (Nat.le_succ_of_le hi) hj
            (hnext hi hkeys) hsigs (Nat.not_lt.mp hfew) hsigEnc hkeyEnc
          rw [length_cons] at hrun
          refine ⟨fSuccess, checks + 1, ?_, Nat.succ_le_succ hchecks, hiff⟩
          simp [hrun, hfew, bind, Except.bind, pure, Except.pure]

/-! ### The instruction -/

def multisigStack (kcount scount dummy : List UInt8) (keys sigs rest : List (List UInt8)) :
    List (List UInt8) :=
  kcount :: (keys.reverse ++ scount :: (sigs.reverse ++ dummy :: rest))

theorem checkMultisig_eq {kcount scount dummy : List UInt8} {args rest : List (List UInt8)}
    {nKeys nSigs nOpCount : Nat} (htop : stacktop stack 1 = .ok kcount)
    (hsigs : stack.drop (1 + nKeys) = scount :: args)
    (hrest : stack.drop (2 + nKeys + nSigs) = dummy :: rest)
    (hkcount : r.getint kcount = .ok nKeys) (hscount : r.getint scount = .ok nSigs)
    (hdummy : r.nullDummy = true → dummy = []) :
    checkMultisig r false nOpCount stack = do
      require (nKeys ≤ 20) .pubkeyCount
      require (nOpCount + nKeys ≤ 201) .opCount
      require (nSigs ≤ nKeys) .sigCount
      let (fSuccess, checks) ← matchSigs r stack nKeys nSigs 2 (3 + nKeys)
      return (boolValue fSuccess :: rest, nOpCount + nKeys, checks) := by
  have hlength := congrArg length hrest
  rw [length_drop, length_cons] at hlength
  have hone : 1 ≤ stack.length := by omega
  have hcount : 2 + nKeys ≤ stack.length := by omega
  have hargs : 3 + nKeys + nSigs ≤ stack.length := by omega
  have hnSigs : stacktop stack (2 + nKeys) = .ok scount :=
    stacktop_of_drop (by rwa [show 2 + nKeys - 1 = 1 + nKeys by omega])
  have hlimit : (nKeys : Int) ≤ 20 ↔ nKeys ≤ 20 := by omega
  simp [checkMultisig, htop, hnSigs, hkcount, hscount, hrest, require, hone, hcount, hargs, hlimit,
    eq_true hdummy, bind, Except.bind, pure, Except.pure, -head?_drop]

/-- **Multisignatures**: with counts that are those of the keys and signatures, and encodings that
pass, the result is whether the signatures are those of some of the keys, in their order. Only the
arguments are taken from the stack. Outside the limits on the counts there is no result. -/
theorem multisig_exact (keys sigs rest : List (List UInt8)) {kcount scount dummy : List UInt8}
    (nOpCount : Nat) (hkcount : r.getint kcount = .ok keys.length)
    (hscount : r.getint scount = .ok sigs.length) (hsigEnc : ∀ s ∈ sigs, r.sigEncoding s = true)
    (hkeyEnc : ∀ k ∈ keys, r.pubkeyEncoding k = true) (hdummy : r.nullDummy = true → dummy = []) :
    let result := checkMultisig r false nOpCount
      (multisigStack kcount scount dummy keys sigs rest)
    (keys.length ≤ 20 ∧ nOpCount + keys.length ≤ 201 ∧ sigs.length ≤ keys.length →
      ∃ fSuccess checks, result = .ok (boolValue fSuccess :: rest, nOpCount + keys.length, checks) ∧
        checks ≤ keys.length ∧
        (fSuccess = true ↔ ∃ chosen, chosen <+ keys ∧ Forall₂ r.Signs sigs chosen)) ∧
    (¬(keys.length ≤ 20 ∧ nOpCount + keys.length ≤ 201 ∧ sigs.length ≤ keys.length) →
      ∃ e, result = .error e) := by
  intro result
  have hsigs : (multisigStack kcount scount dummy keys sigs rest).drop (1 + keys.length) =
      scount :: (sigs.reverse ++ dummy :: rest) := by
    simp [multisigStack, Nat.add_comm 1]
  have hargs : (multisigStack kcount scount dummy keys sigs rest).drop (2 + keys.length) =
      sigs.reverse ++ dummy :: rest := by
    rw [show 2 + keys.length = 1 + keys.length + 1 by omega, ← drop_drop, hsigs]
    rfl
  have hrest : (multisigStack kcount scount dummy keys sigs rest).drop
      (2 + keys.length + sigs.length) = dummy :: rest := by
    rw [← drop_drop, hargs]
    simp
  have hresult : result = _ :=
    checkMultisig_eq (stacktop_of_drop rfl) hsigs hrest hkcount hscount hdummy
  rw [hresult]
  constructor
  · rintro ⟨hkeys, hops, hle⟩
    obtain ⟨fSuccess, checks, hrun, hchecks, hiff⟩ := matchSigs_spec (show 1 ≤ 2 by decide)
      (show 1 ≤ 3 + keys.length by omega) (show _ = keys.reverse ++ _ from rfl)
      (by rwa [show 3 + keys.length - 1 = 2 + keys.length by omega]) (by simpa using hle)
      (by simpa using hsigEnc) (by simpa using hkeyEnc)
    rw [length_reverse, length_reverse] at hrun
    refine ⟨fSuccess, checks, ?_, by simpa using hchecks, ?_⟩
    · simp [require, hkeys, hops, hle, hrun, bind, Except.bind, pure, Except.pure]
    · rw [hiff, sublistForall₂_reverse]
  · intro hlimits
    by_cases hkeys : keys.length ≤ 20
    · by_cases hops : nOpCount + keys.length ≤ 201
      · have hle : ¬sigs.length ≤ keys.length := fun hle => hlimits ⟨hkeys, hops, hle⟩
        exact ⟨.sigCount, by simp only [require, if_pos hkeys, if_pos hops, if_neg hle]; rfl⟩
      · exact ⟨.opCount, by simp only [require, if_pos hkeys, if_neg hops]; rfl⟩
    · exact ⟨.pubkeyCount, by simp only [require, if_neg hkeys]; rfl⟩

def byteRules : SigRules where
  getint v := .ok (v.headD 0).toNat
  sigEncoding _ := true
  pubkeyEncoding _ := true
  checkSig s k := s == k
  nullDummy := true

theorem multisig_exact_two_of_three : ∃ fSuccess checks,
    checkMultisig byteRules false 0 (multisigStack [3] [2] [] [[1], [2], [3]] [[1], [3]] []) =
      .ok ([boolValue fSuccess], 3, checks) ∧ checks ≤ 3 ∧
    (fSuccess = true ↔
      ∃ chosen, chosen <+ [[1], [2], [3]] ∧ Forall₂ byteRules.Signs [[1], [3]] chosen) :=
  (multisig_exact [[1], [2], [3]] [[1], [3]] [] 0 rfl rfl (by decide) (by decide)
    fun _ => rfl).1 (by decide)

theorem many_keys_rejected : (∃ chosen, chosen <+ replicate 21 [1] ∧
      Forall₂ byteRules.Signs [] chosen) ∧
    checkMultisig byteRules false 0 (multisigStack [21] [0] [] (replicate 21 [1]) [] []) =
      .error .pubkeyCount :=
  ⟨⟨[], nil_sublist _, .nil⟩, rfl⟩

end Elosys
