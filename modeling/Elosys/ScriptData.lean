import Elosys.CCEval

/-!
# Data in scripts

`GetPushedData`, `GetOpretData` and `GetBalancedData` of `script/script.cpp`, against the pushes as
the interpreter runs them.

## Conventions

A rest of a script is the list of its bytes, and `getOp` reads one instruction off its front. What
an instruction pushes is a value function of its opcode and data: `interpretedValue` in
`EvalScript`, `pushedValue` in the functions here. They differ at `OP_0` (a zero byte for the empty
vector), at `OP_1NEGATE` and at an empty `OP_PUSHDATA` (no pushes here).

## Main results

`getPushedData_eq_true_iff` says for every script when `GetPushedData` returns true: where an
instruction is cut short it goes on behind the length bytes (`Skims`). `script_data_exact` compares
the three functions with the interpreter's pushes, and says exactly for which scripts they agree.
-/

open List ByteCodec

namespace Elosys

/-! ### The functions -/

/-- The number of length bytes behind a push opcode. -/
def sizeWidth (opcode : UInt8) : Nat :=
  if opcode < 0x4c then 0 else if opcode = 0x4c then 1 else if opcode = 0x4d then 2 else 4

/-- The number of data bytes that a push opcode with its length bytes asks for. -/
def pushSize (opcode : UInt8) (size : List UInt8) : Nat :=
  if opcode < 0x4c then opcode.toNat else ofLeBytes size

/-- Where `GetOp` leaves `pc` when it returns false. -/
def stoppedAt : List UInt8 → List UInt8
  | [] => []
  | opcode :: pc => if pc.length < sizeWidth opcode then pc else pc.drop (sizeWidth opcode)

/-- What is added to `vData` for an instruction. -/
def pushedValue (opcode : UInt8) (data : List UInt8) : Option (List UInt8) :=
  if opcode = 0 then some [0]
  else if 0x51 ≤ opcode ∧ opcode ≤ 0x60 then some [opcode - 0x51 + 1]
  else if opcode ≤ 0x4e ∧ data ≠ [] then some data
  else none

/-- The loop of `GetPushedData`; the first argument is fuel. -/
def getPushedDataFrom : Nat → List (List UInt8) → List UInt8 → Bool × List (List UInt8)
  | _, vData, [] => (!vData.isEmpty, vData)
  | 0, vData, _ :: _ => (false, vData)
  | fuel + 1, vData, pc =>
    match getOp pc with
    | some (opcode, data, rest) =>
      match pushedValue opcode data with
      | some v => getPushedDataFrom fuel (vData ++ [v]) rest
      | none => (false, vData)
    -- no branch of the loop is for a `GetOp` that returns false
    | none => getPushedDataFrom fuel vData (stoppedAt pc)

/-- `CScript::GetPushedData`, with the vectors it leaves. -/
def getPushedData (pc : List UInt8) : Bool × List (List UInt8) := getPushedDataFrom pc.length [] pc

/-- `CScript::GetOpretData`; `vData` is what the caller passed. -/
def CScript.getOpretData (s : CScript) (vData : List (List UInt8)) : Bool × List (List UInt8) :=
  match getOp s with
  | some (opcode, _, pc) => if opcode = opReturn then getPushedData pc else (false, vData)
  | none => (false, vData)

/-! ### Pushes -/

/-- What an instruction pushes in `EvalScript`: data up to `OP_PUSHDATA4`, -1 for `OP_1NEGATE`, and
small numbers. -/
def interpretedValue (opcode : UInt8) (data : List UInt8) : Option (List UInt8) :=
  if opcode ≤ 0x4e then some data
  else if opcode = 0x4f then some [0x81]
  else if 0x51 ≤ opcode ∧ opcode ≤ 0x60 then some [opcode - 0x50]
  else none

/-- The pushes of the interpreter that put bytes on the stack, `OP_1NEGATE` apart. -/
def regularValue (opcode : UInt8) (data : List UInt8) : Option (List UInt8) :=
  if opcode = 0x4f ∨ (opcode ≤ 0x4e ∧ data = []) then none else interpretedValue opcode data

/-- A sequence of complete instructions, each with a value. -/
inductive Pushes (value : UInt8 → List UInt8 → Option (List UInt8)) :
    List UInt8 → List (List UInt8) → Prop
  | nil : Pushes value [] []
  | cons {s data rest v : List UInt8} {opcode : UInt8} {vData : List (List UInt8)}
      (hop : getOp s = some (opcode, data, rest)) (hvalue : value opcode data = some v)
      (hrest : Pushes value rest vData) : Pushes value s (v :: vData)

/-- Pushes of the interpreter in front of an instruction that is cut short. -/
inductive Truncated : List UInt8 → Prop
  | here {s : List UInt8} (hs : s ≠ []) (hop : getOp s = none) : Truncated s
  | cons {s data rest v : List UInt8} {opcode : UInt8}
      (hop : getOp s = some (opcode, data, rest)) (hvalue : interpretedValue opcode data = some v)
      (hrest : Truncated rest) : Truncated s

/-- Instructions with a value, and heads of instructions that are cut short, passed over. -/
inductive Skims : List UInt8 → List (List UInt8) → Prop
  | nil : Skims [] []
  | push {s data rest v : List UInt8} {opcode : UInt8} {vData : List (List UInt8)}
      (hop : getOp s = some (opcode, data, rest)) (hvalue : pushedValue opcode data = some v)
      (hrest : Skims rest vData) : Skims s (v :: vData)
  | cut {s : List UInt8} {vData : List (List UInt8)} (hs : s ≠ []) (hop : getOp s = none)
      (hrest : Skims (stoppedAt s) vData) : Skims s vData

/-- Pushes and drops in which, with `n` values below, none underflows and nothing is left. -/
inductive Balanced (IsPush : UInt8 → List UInt8 → Prop) : Nat → List UInt8 → Prop
  | nil : Balanced IsPush 0 []
  | push {n : Nat} {s data rest : List UInt8} {opcode : UInt8}
      (hop : getOp s = some (opcode, data, rest)) (hpush : IsPush opcode data)
      (hrest : Balanced IsPush (n + 1) rest) : Balanced IsPush n s
  | drop {n : Nat} {s data rest : List UInt8} (hop : getOp s = some (0x75, data, rest))
      (hrest : Balanced IsPush n rest) : Balanced IsPush (n + 1) s

/-- A push of the interpreter. -/
def Interpreted (opcode : UInt8) (data : List UInt8) : Prop :=
  (interpretedValue opcode data).isSome

/-- A push of the interpreter other than `OP_1NEGATE` and an `OP_PUSHDATA` of no byte. -/
def CountedPush (opcode : UInt8) (data : List UInt8) : Prop :=
  Interpreted opcode data ∧ opcode ≠ 0x4f ∧ (opcode ≤ 0x4e → opcode ≠ 0 → data ≠ [])

/-! ### One instruction -/

theorem getOp_cons (opcode : UInt8) (pc : List UInt8) : getOp (opcode :: pc) =
    if 0x4e < opcode then some (opcode, [], pc) else
      if pc.length < sizeWidth opcode then none else
        let nSize := pushSize opcode (pc.take (sizeWidth opcode))
        let pc := pc.drop (sizeWidth opcode)
        if pc.length < nSize then none else some (opcode, pc.take nSize, pc.drop nSize) := rfl

variable {s data rest v : List UInt8} {opcode : UInt8} {vData acc : List (List UInt8)}
  {fuel n : Nat}

/-- A complete instruction starts with its opcode, is not empty, and with `OP_0` has no data. -/
theorem getOp_spec (h : getOp s = some (opcode, data, rest)) :
    s.head? = some opcode ∧ rest.length < s.length ∧ (opcode = 0 → data = []) ∧
      (0x4e < opcode → s = opcode :: rest) := by
  cases s with
  | nil => cases h
  | cons op pc =>
    rw [getOp_cons] at h
    split at h
    · cases h
      exact ⟨rfl, Nat.lt_succ_self _, fun _ => rfl, fun _ => rfl⟩
    · next hop =>
      dsimp only at h
      split at h
      · cases h
      split at h
      · cases h
      · next hwidth hsize =>
        cases h
        refine ⟨rfl, ?_, ?_, fun hgt => absurd hgt hop⟩
        · rw [length_drop, length_drop, length_cons]
          omega
        · rintro rfl
          rfl

theorem length_stoppedAt_lt (hs : s ≠ []) : (stoppedAt s).length < s.length := by
  cases s with
  | nil => exact absurd rfl hs
  | cons op pc =>
    rw [stoppedAt, length_cons]
    split
    · exact Nat.lt_succ_self _
    · rw [length_drop]
      omega

/-- The code and the interpreter take an instruction for the same push exactly if it is regular. -/
theorem regularValue_eq_some_iff (hzero : opcode = 0 → data = []) :
    regularValue opcode data = some v ↔
      pushedValue opcode data = some v ∧ interpretedValue opcode data = some v := by
  unfold regularValue pushedValue interpretedValue
  by_cases h0 : opcode = 0
  · subst h0
    simp [hzero rfl]
    grind
  · by_cases hle : opcode ≤ 0x4e
    · have hsmall : ¬(0x51 ≤ opcode ∧ opcode ≤ 0x60) :=
        fun h => absurd (UInt8.le_trans h.1 hle) (by decide)
      have hneg : opcode ≠ 0x4f := by
        rintro rfl
        exact absurd hle (by decide)
      by_cases hdata : data = [] <;> simp [h0, hle, hsmall, hneg, hdata]
    · by_cases hneg : opcode = 0x4f
      · subst hneg
        simp
      · have hval : opcode - 0x51 + 1 = opcode - 0x50 := by grind
        by_cases hsmall : 0x51 ≤ opcode ∧ opcode ≤ 0x60 <;> simp [h0, hle, hneg, hsmall, hval]

theorem exists_interpretedValue (h : pushedValue opcode data = some v) :
    ∃ w, interpretedValue opcode data = some w := by
  unfold pushedValue at h
  unfold interpretedValue
  grind

/-! ### Sequences -/

section Sequences

variable {f g : UInt8 → List UInt8 → Option (List UInt8)} {ws : List (List UInt8)}

theorem Pushes.unique (h : Pushes f s vData) (h' : Pushes f s ws) : vData = ws := by
  induction h generalizing ws with
  | nil =>
    cases h' with
    | nil => rfl
    | cons hop _ _ => cases hop
  | cons hop hvalue _ ih =>
    cases h' with
    | nil => cases hop
    | cons hop' hvalue' hrest' =>
      rw [hop] at hop'
      cases hop'
      rw [hvalue] at hvalue'
      cases hvalue'
      rw [ih hrest']

theorem Pushes.of_regular (h : Pushes regularValue s vData) :
    Pushes pushedValue s vData ∧ Pushes interpretedValue s vData := by
  induction h with
  | nil => exact ⟨.nil, .nil⟩
  | cons hop hvalue _ ih =>
    obtain ⟨hcode, hinterpreted⟩ :=
      (regularValue_eq_some_iff (getOp_spec hop).2.2.1).mp hvalue
    exact ⟨.cons hop hcode ih.1, .cons hop hinterpreted ih.2⟩

theorem Pushes.interpreted (h : Pushes pushedValue s vData) :
    ∃ ws, Pushes interpretedValue s ws ∧ ws.length = vData.length := by
  induction h with
  | nil => exact ⟨[], .nil, rfl⟩
  | cons hop hvalue _ ih =>
    obtain ⟨w, hw⟩ := exists_interpretedValue hvalue
    obtain ⟨ws, hws, hlength⟩ := ih
    exact ⟨w :: ws, .cons hop hw hws, by rw [length_cons, length_cons, hlength]⟩

theorem Pushes.skims (h : Pushes pushedValue s vData) : Skims s vData := by
  induction h with
  | nil => exact .nil
  | cons hop hvalue _ ih => exact .push hop hvalue ih

theorem Skims.pushes (h : Skims s vData) (hwhole : ¬Truncated s) : Pushes pushedValue s vData := by
  induction h with
  | nil => exact .nil
  | push hop hvalue _ ih =>
    obtain ⟨w, hw⟩ := exists_interpretedValue hvalue
    exact .cons hop hvalue (ih fun ht => hwhole (.cons hop hw ht))
  | cut hs hop _ _ => exact absurd (.here hs hop) hwhole

theorem Truncated.not_pushes (h : Truncated s) : ¬Pushes interpretedValue s vData := by
  induction h generalizing vData with
  | here hs hop =>
    intro h
    cases h with
    | nil => exact hs rfl
    | cons hop' _ _ => rw [hop] at hop'; cases hop'
  | cons hop _ _ ih =>
    intro h
    cases h with
    | nil => cases hop
    | cons hop' _ hrest =>
      rw [hop] at hop'
      cases hop'
      exact ih hrest

/-- Pushes of which the code takes the interpreter's data are regular. -/
theorem Skims.regular (h : Skims s vData) (h' : Pushes interpretedValue s vData) :
    Pushes regularValue s vData := by
  induction h with
  | nil => exact .nil
  | push hop hvalue _ ih =>
    cases h' with
    | cons hop' hvalue' hrest' =>
      rw [hop] at hop'
      cases hop'
      exact .cons hop ((regularValue_eq_some_iff (getOp_spec hop).2.2.1).mpr ⟨hvalue, hvalue'⟩)
        (ih hrest')
  | cut hs hop _ _ => exact absurd h' (Truncated.here hs hop).not_pushes

end Sequences

/-! ### The loops -/

theorem getPushedDataFrom_eq_true_iff (hfuel : s.length ≤ fuel) :
    getPushedDataFrom fuel acc s = (true, vData) ↔
      vData ≠ [] ∧ ∃ added, Skims s added ∧ vData = acc ++ added := by
  -- an empty rest ends both; otherwise `GetOp` decides which constructor applies
  induction fuel generalizing acc s with
  | zero =>
    obtain rfl := eq_nil_of_length_eq_zero (Nat.le_zero.mp hfuel)
    rw [getPushedDataFrom]
    constructor
    · intro h
      obtain ⟨hne, rfl⟩ := Prod.mk.inj h
      exact ⟨by simpa using hne, [], .nil, (append_nil acc).symm⟩
    · rintro ⟨hne, added, hadded, rfl⟩
      cases hadded with
      | nil => simpa using hne
      | push hop _ _ => cases hop
      | cut hs _ _ => exact absurd rfl hs
  | succ fuel ih =>
    by_cases hs : s = []
    · subst hs
      have hnil : getPushedDataFrom fuel acc [] = (true, vData) ↔ _ := ih (Nat.zero_le fuel)
      rwa [getPushedDataFrom] at hnil ⊢
    rw [getPushedDataFrom.eq_3 _ _ _ hs]
    cases hop : getOp s with
    | none =>
      have hlt := length_stoppedAt_lt hs
      rw [ih (by omega)]
      refine and_congr_right fun _ => exists_congr fun added => and_congr_left fun _ => ?_
      constructor
      · exact fun h => .cut hs hop h
      · intro h
        cases h with
        | nil => exact absurd rfl hs
        | push hop' _ _ => rw [hop] at hop'; cases hop'
        | cut _ _ hrest => exact hrest
    | some instruction =>
      obtain ⟨opcode, data, rest⟩ := instruction
      have hlt := (getOp_spec hop).2.1
      cases hvalue : pushedValue opcode data with
      | none =>
        simp only [hvalue, Prod.mk.injEq, Bool.false_eq_true, false_and, false_iff]
        rintro ⟨_, added, hadded, _⟩
        cases hadded with
        | nil => exact hs rfl
        | push hop' hvalue' _ =>
          rw [hop] at hop'
          cases hop'
          rw [hvalue] at hvalue'
          cases hvalue'
        | cut _ hop' _ => rw [hop] at hop'; cases hop'
      | some v =>
        simp only [hvalue]
        rw [ih (by omega)]
        refine and_congr_right fun _ => ?_
        constructor
        · rintro ⟨added, hadded, rfl⟩
          exact ⟨v :: added, .push hop hvalue hadded, by simp⟩
        · rintro ⟨added, hadded, rfl⟩
          cases hadded with
          | nil => exact absurd rfl hs
          | push hop' hvalue' hrest =>
            rw [hop] at hop'
            cases hop'
            rw [hvalue] at hvalue'
            cases hvalue'
            exact ⟨_, hrest, by simp⟩
          | cut _ hop' _ => rw [hop] at hop'; cases hop'

/-- **What `GetPushedData` accepts**, for every script. -/
theorem getPushedData_eq_true_iff :
    getPushedData s = (true, vData) ↔ vData ≠ [] ∧ Skims s vData := by
  rw [getPushedData, getPushedDataFrom_eq_true_iff (Nat.le_refl _)]
  simp

theorem countedPush_iff : CountedPush opcode data ↔
    opcode = 0 ∨ (0x51 ≤ opcode ∧ opcode ≤ 0x60) ∨ (opcode ≤ 0x4e ∧ data ≠ []) := by
  unfold CountedPush Interpreted interpretedValue
  grind

theorem balancedData_eq_true_iff (hfuel : s.length ≤ fuel) :
    balancedData fuel n s = true ↔ Balanced CountedPush n s := by
  induction fuel generalizing n s with
  | zero =>
    obtain rfl := eq_nil_of_length_eq_zero (Nat.le_zero.mp hfuel)
    rw [balancedData, beq_iff_eq]
    constructor
    · rintro rfl
      exact .nil
    · intro h
      cases h with
      | nil => rfl
      | push hop _ _ => cases hop
      | drop hop _ => cases hop
  | succ fuel ih =>
    by_cases hs : s = []
    · subst hs
      have hnil : balancedData fuel n [] = true ↔ _ := ih (Nat.zero_le fuel)
      rwa [balancedData] at hnil ⊢
    rw [balancedData.eq_3 _ _ _ hs]
    cases hop : getOp s with
    | none =>
      refine iff_of_false Bool.false_ne_true fun h => ?_
      cases h with
      | nil => exact hs rfl
      | push hop' _ _ => rw [hop] at hop'; cases hop'
      | drop hop' _ => rw [hop] at hop'; cases hop'
    | some instruction =>
      obtain ⟨opcode, data, rest⟩ := instruction
      obtain ⟨-, hlt, -, -⟩ := getOp_spec hop
      dsimp only
      by_cases hdrop : opcode = 0x75
      · subst hdrop
        have hno : ¬CountedPush 0x75 data := by rw [countedPush_iff]; simp
        rw [if_pos rfl]
        cases n with
        | zero =>
          refine iff_of_false Bool.false_ne_true fun h => ?_
          cases h with
          | nil => exact hs rfl
          | push hop' hpush _ => rw [hop] at hop'; cases hop'; exact hno hpush
        | succ n =>
          rw [if_neg (Nat.succ_ne_zero n), Nat.add_sub_cancel, ih (by omega)]
          constructor
          · exact fun h => .drop hop h
          · intro h
            cases h with
            | push hop' hpush _ => rw [hop] at hop'; cases hop'; exact absurd hpush hno
            | drop hop' hrest => rw [hop] at hop'; cases hop'; exact hrest
      · rw [if_neg hdrop]
        split
        · next hpush =>
          rw [ih (by omega)]
          constructor
          · exact fun h => .push hop (countedPush_iff.mpr hpush) h
          · intro h
            cases h with
            | nil => exact absurd rfl hs
            | push hop' _ hrest => rw [hop] at hop'; cases hop'; exact hrest
            | drop hop' _ => rw [hop] at hop'; cases hop'; exact absurd rfl hdrop
        · next hpush =>
          refine iff_of_false Bool.false_ne_true fun h => ?_
          cases h with
          | nil => exact hs rfl
          | push hop' hpush' _ =>
            rw [hop] at hop'
            cases hop'
            exact hpush (countedPush_iff.mp hpush')
          | drop hop' _ => rw [hop] at hop'; cases hop'; exact hdrop rfl

theorem Balanced.interpreted (h : Balanced CountedPush n s) : Balanced Interpreted n s := by
  induction h with
  | nil => exact .nil
  | push hop hpush _ ih => exact .push hop hpush.1 ih
  | drop hop _ ih => exact .drop hop ih

theorem getOpretData_eq_true (h : CScript.getOpretData s acc = (true, vData)) :
    ∃ pc, s = opReturn :: pc ∧ getPushedData pc = (true, vData) := by
  unfold CScript.getOpretData at h
  split at h
  · next opcode _ pc hop =>
    split at h
    · next hreturn =>
      subst hreturn
      exact ⟨pc, (getOp_spec hop).2.2.2 (by decide), h⟩
    · cases h
  · cases h

/-- The scripts on which `GetPushedData` is right: what the interpreter pushes are regular pushes,
and nothing is skimmed where an instruction is cut short. -/
structure Readable (pc : List UInt8) : Prop where
  regular : ∀ vData, vData ≠ [] → Pushes interpretedValue pc vData → Pushes regularValue pc vData
  uncut : Truncated pc → ∀ vData, vData ≠ [] → ¬Skims pc vData

theorem getPushedData_exact_iff : (∀ vData, getPushedData pc = (true, vData) ↔
    vData ≠ [] ∧ Pushes interpretedValue pc vData) ↔ Readable pc := by
  simp only [getPushedData_eq_true_iff]
  constructor
  · intro h
    refine ⟨fun vData hne hpushes => ((h vData).mpr ⟨hne, hpushes⟩).2.regular hpushes,
      fun ht vData hne hskims => ?_⟩
    exact ht.not_pushes ((h vData).mp ⟨hne, hskims⟩).2
  · rintro ⟨hregular, hcut⟩ vData
    refine and_congr_right fun hne => ⟨fun hskims => ?_, fun hpushes => ?_⟩
    · have hcode := hskims.pushes fun ht => hcut ht vData hne hskims
      obtain ⟨ws, hws, hlength⟩ := hcode.interpreted
      have hwne : ws ≠ [] := by
        rintro rfl
        exact hne (eq_nil_of_length_eq_zero hlength.symm)
      have hsame := (hregular ws hwne hws).of_regular.1.unique hcode
      exact hsame ▸ hws
    · exact (hregular vData hne hpushes).of_regular.1.skims

/-- **Data in scripts**: `GetPushedData` returns true exactly for the interpreter's pushes with
their data if and only if the script is readable; so does `GetOpretData` behind its opcode, and it
returns true for no other script; `GetBalancedData` is exact if and only if balanced pushes are all
counted. -/
theorem script_data_exact (pc : List UInt8) (before : List (List UInt8)) :
    ((∀ vData, getPushedData pc = (true, vData) ↔
      vData ≠ [] ∧ Pushes interpretedValue pc vData) ↔ Readable pc) ∧
    ((∀ vData, CScript.getOpretData (opReturn :: pc) before = (true, vData) ↔
      vData ≠ [] ∧ Pushes interpretedValue pc vData) ↔ Readable pc) ∧
    (∀ vData, CScript.getOpretData pc before = (true, vData) → pc.head? = some opReturn) ∧
    ((balancedData pc.length 0 pc = true ↔ Balanced Interpreted 0 pc) ↔
      (Balanced Interpreted 0 pc → Balanced CountedPush 0 pc)) := by
  refine ⟨getPushedData_exact_iff, getPushedData_exact_iff, fun vData h => ?_, ?_⟩
  · obtain ⟨rest, rfl, _⟩ := getOpretData_eq_true h
    rfl
  · rw [balancedData_eq_true_iff (Nat.le_refl _)]
    exact ⟨fun h => h.mpr, fun h => ⟨Balanced.interpreted, h⟩⟩

/-- A push that is cut short passes with data that the script does not push, `OP_0` gives a byte
where the interpreter pushes none, and an empty `OP_PUSHDATA1` is refused. -/
theorem truncated_push_passes : Truncated [0x02, 0x51] ∧
    getPushedData [0x02, 0x51] = (true, [[1]]) ∧
    CScript.getOpretData [0x6a, 0x02, 0x51] [] = (true, [[1]]) ∧
    (Pushes interpretedValue [0x00] [[]] ∧ getPushedData [0x00] = (true, [[0]])) ∧
    (Pushes interpretedValue [0x4c, 0x00] [[]] ∧ (getPushedData [0x4c, 0x00]).1 = false) :=
  ⟨.here (by decide) (by decide), by decide, by decide, ⟨.cons rfl rfl .nil, by decide⟩,
    ⟨.cons rfl rfl .nil, by decide⟩⟩

end Elosys
