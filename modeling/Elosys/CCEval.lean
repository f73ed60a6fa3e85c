import Elosys.MemPool
import Elosys.NotarisationCodec

/-!
# Crypto-Condition Contracts

What the validators under `cc/` share: the verdicts of `Eval`, the conditions of `CCutils.cpp` and
`CCtokenutils.cpp`, their addresses, `ConstrainVout` and `PreventCC`. A validator accepts, calls
`eval->Invalid`, returns false, or does what the language leaves undefined.
-/

namespace Elosys

open ByteCodec

/-! ### Verdicts -/

/-- How a validation stops without accepting. -/
inductive EvalFault where
  | invalid (reason : String)
  | refused
  | thrown (f : Fault)
  | trap (t : Trap)
  deriving DecidableEq, Repr

/-- `return eval->Invalid(reason)` under a condition. -/
def invalidIf (b : Bool) (reason : String) : Except EvalFault Unit :=
  if b then .error (.invalid reason) else .ok ()

variable {reason : String}

@[simp] theorem invalidIf_eq_ok {b : Bool} {u : Unit} : invalidIf b reason = .ok u ↔ b = false := by
  cases b with
  | true => simp [invalidIf]
  | false => simp [invalidIf]

/-- A value, or `return eval->Invalid(reason)`. -/
def someOrInvalid {α : Type} (o : Option α) (reason : String) : Except EvalFault α :=
  match o with
  | some a => .ok a
  | none => .error (.invalid reason)

variable {α : Type}

@[simp] theorem someOrInvalid_eq_ok {o : Option α} {a : α} :
    someOrInvalid o reason = .ok a ↔ o = some a := by
  cases o with
  | none => simp [someOrInvalid]
  | some b => simp [someOrInvalid]

/-- `tx.vout[n]`, which is not checked. -/
def voutAt (tx : CTransaction) (n : Nat) : Except EvalFault CTxOut :=
  match tx.vout[n]? with
  | some out => .ok out
  | none => .error (.trap .outOfRange)

variable {tx : CTransaction} {n : Nat}

@[simp] theorem voutAt_eq_ok {out : CTxOut} : voutAt tx n = .ok out ↔ tx.vout[n]? = some out := by
  unfold voutAt
  cases tx.vout[n]? with
  | none => simp
  | some o => simp

/-- `tx.vin[n]`, which is not checked. -/
def vinAt (tx : CTransaction) (n : Nat) : Except EvalFault CTxIn :=
  match tx.vin[n]? with
  | some i => .ok i
  | none => .error (.trap .outOfRange)

@[simp] theorem vinAt_eq_ok {i : CTxIn} : vinAt tx n = .ok i ↔ tx.vin[n]? = some i := by
  unfold vinAt
  cases tx.vin[n]? with
  | none => simp
  | some o => simp

/-- `a / b` of the language, rounding towards zero. -/
def divInt64 (a b : Int64) : Except EvalFault Int64 :=
  if b = 0 then .error (.trap .divisionByZero)
  else if a = Int64.minValue ∧ b = -1 then .error (.trap .overflow)
  else .ok (a / b)

theorem divInt64_eq_ok {a b q : Int64} :
    divInt64 a b = .ok q ↔ b ≠ 0 ∧ ¬ (a = Int64.minValue ∧ b = -1) ∧ a / b = q := by
  unfold divInt64
  by_cases hb : b = 0
  · simp [hb]
  · by_cases hmin : a = Int64.minValue ∧ b = -1
    · simp [hmin]
    · simp [hb, hmin]

/-! ### Traps

A step traps where a part of it does, after the parts before it went through. -/

variable {t : Trap}

theorem bind_eq_trap {α β : Type} {x : Except EvalFault α} {f : α → Except EvalFault β} :
    (x >>= f) = .error (.trap t) ↔
      x = .error (.trap t) ∨ ∃ a, x = .ok a ∧ f a = .error (.trap t) := by
  cases x with
  | error e => simp [bind, Except.bind]
  | ok a => simp [bind, Except.bind]

@[simp] theorem pure_eq_trap {a : α} :
    (pure a : Except EvalFault α) = .error (.trap t) ↔ False := by
  simp [pure, Except.pure]

@[simp] theorem invalidIf_eq_trap {b : Bool} : invalidIf b reason = .error (.trap t) ↔ False := by
  cases b with
  | true => simp [invalidIf]
  | false => simp [invalidIf]

@[simp] theorem someOrInvalid_eq_trap {o : Option α} :
    someOrInvalid o reason = .error (.trap t) ↔ False := by
  cases o with
  | none => simp [someOrInvalid]
  | some b => simp [someOrInvalid]

@[simp] theorem voutAt_eq_trap :
    voutAt tx n = .error (.trap t) ↔ t = .outOfRange ∧ tx.vout[n]? = none := by
  unfold voutAt
  cases tx.vout[n]? with
  | none => simp [eq_comm]
  | some o => simp

@[simp] theorem vinAt_eq_trap :
    vinAt tx n = .error (.trap t) ↔ t = .outOfRange ∧ tx.vin[n]? = none := by
  unfold vinAt
  cases tx.vin[n]? with
  | none => simp [eq_comm]
  | some o => simp

theorem divInt64_eq_trap {a b : Int64} :
    divInt64 a b = .error (.trap t) ↔ (t = .divisionByZero ∧ b = 0) ∨
      (t = .overflow ∧ a = Int64.minValue ∧ b = -1) := by
  unfold divInt64
  by_cases hb : b = 0
  · subst hb
    simp [eq_comm]
  · by_cases hmin : a = Int64.minValue ∧ b = -1
    · simp [hmin, eq_comm]
    · simp [hb, hmin]

def opCheckCryptoCondition : UInt8 := 0xcc

/-- `GetBalancedData`: pushes of data, each dropped; the first argument is fuel. -/
def balancedData : Nat → Nat → List UInt8 → Bool
  | _, netPushes, [] => netPushes == 0
  | 0, _, _ :: _ => false
  | fuel + 1, netPushes, pc =>
    match getOp pc with
    | none => false
    | some (opcode, data, rest) =>
      -- `OP_DROP`
      if opcode = 0x75 then
        if netPushes = 0 then false else balancedData fuel (netPushes - 1) rest
      -- `OP_0`, `OP_1` to `OP_16`, or data
      else if opcode = 0 ∨ (0x51 ≤ opcode ∧ opcode ≤ 0x60) ∨ (opcode ≤ 0x4e ∧ data ≠ []) then
        balancedData fuel (netPushes + 1) rest
      else false

def CScript.isPayToCryptoCondition (s : CScript) : Bool :=
  match getOp s with
  | none => false
  | some (opcode, _, pc) =>
    if 0 < opcode ∧ opcode < 0x4c then
      match getOp pc with
      | none => false
      | some (opcode, _, pc) =>
        opcode == opCheckCryptoCondition && balancedData pc.length 0 pc
    else false

theorem getOpReturnData_of_condition {s : CScript} (h : s.isPayToCryptoCondition = true) :
    getOpReturnData s = none := by
  unfold CScript.isPayToCryptoCondition at h
  unfold getOpReturnData
  split at h
  · exact absurd h (by simp)
  next opcode data pc hop =>
  rw [hop]
  split at h
  · next hrange =>
      have hne : opcode ≠ opReturn := by
        rintro rfl
        exact absurd hrange (by decide)
      exact if_neg hne
  · exact absurd h (by simp)

/-! ### Keys and conditions -/

/-- `CPubKey`: the bytes of a key, none if not valid. -/
abbrev CPubKey := List UInt8

def CPubKey.getLen (chHeader : UInt8) : Nat :=
  if chHeader = 2 ∨ chHeader = 3 then 33
  else if chHeader = 4 ∨ chHeader = 6 ∨ chHeader = 7 then 65
  else 0

/-- `CPubKey::Set`, as `pubkey2pk` calls it. -/
def pubkey2pk (vch : List UInt8) : CPubKey :=
  match vch with
  | [] => []
  | chHeader :: _ => if CPubKey.getLen chHeader = vch.length then vch else []

/-- `CPubKey::Unserialize`: the first byte tells the key's length, not what was read. The bytes of
`vch` that were not read are uninitialised in the source; here they are zeros. -/
def readPubKey : Reader CPubKey := do
  let len ← readCompactSize (2 ^ 25)
  let vch ← bytes len
  if 65 < len then return []
  else return (vch ++ List.replicate 65 0).take (CPubKey.getLen (vch.headD 0xff))

def CPubKey.isValid (pk : CPubKey) : Bool := 0 < pk.length

/-- The evaluation codes of the contracts. -/
def evalAssets : UInt8 := 0xe3

@[inherit_doc evalAssets] def evalRewards : UInt8 := 0xe5

@[inherit_doc evalAssets] def evalDice : UInt8 := 0xe6

@[inherit_doc evalAssets] def evalTokens : UInt8 := 0xf2

/-- A condition as the contracts build it: every evaluation passes, in this order, and one of the
keys signs. -/
structure CCCond where
  evals : List UInt8
  pks : List CPubKey
  deriving DecidableEq

def makeCCcond1 (evalcode : UInt8) (pk : CPubKey) : CCCond := ⟨[evalcode], [pk]⟩

variable (evalcode evalcode2 : UInt8)

/-- The evaluations of a token condition, around `EVAL_TOKENS`. -/
def tokenEvals : List UInt8 :=
  [evalcode] ++ (if evalcode ≠ evalTokens then [evalTokens] else []) ++
    (if evalcode2 ≠ 0 then [evalcode2] else [])

def makeTokensCCcond1 (pk : CPubKey) : CCCond :=
  ⟨tokenEvals evalcode evalcode2, [pk]⟩

def makeTokensCCcond1of2 (pk1 pk2 : CPubKey) : CCCond :=
  ⟨tokenEvals evalcode evalcode2, [pk1, pk2]⟩

abbrev Address := List UInt8

/-- The condition library, script recognition and the contracts' constants. -/
class CCLibrary where
  /-- `Getscriptaddress`: the address that a script pays. -/
  getscriptaddress : CScript → Option Address
  /-- `Solver`, for scripts that pay one key or its hash. -/
  solver : CScript → Option (TxnOutType × List (List UInt8))
  /-- `CCPubKey`: the script that pays a condition. -/
  ccPubKey : CCCond → CScript
  isCCInput : CScript → Bool
  /-- `cp->ismyvin`: whether an input's condition has the contract's evaluation. -/
  ismyvin : UInt8 → CScript → Bool
  vinPubkey : CScript → Option CPubKey
  getUnspendable : UInt8 → CPubKey
  unspendableCCaddr : UInt8 → Address

section

variable [CCLibrary]

open CCLibrary

def makeCC1vout (evalcode : UInt8) (nValue : CAmount) (pk : CPubKey) : CTxOut :=
  ⟨nValue, ccPubKey (makeCCcond1 evalcode pk)⟩

def makeTokensCC1vout (evalcode evalcode2 : UInt8) (nValue : CAmount) (pk : CPubKey) : CTxOut :=
  ⟨nValue, ccPubKey (makeTokensCCcond1 evalcode evalcode2 pk)⟩

def makeTokensCC1of2vout (evalcode evalcode2 : UInt8) (nValue : CAmount) (pk1 pk2 : CPubKey) :
    CTxOut :=
  ⟨nValue, ccPubKey (makeTokensCCcond1of2 evalcode evalcode2 pk1 pk2)⟩

/-- `CCcontract_info`, as far as it varies. -/
structure CCcontractInfo where
  evalcode : UInt8
  additionalTokensEvalcode2 : UInt8 := 0

/-- The contract's key in the place of an invalid one. -/
def keyOrUnspendable (cp : CCcontractInfo) (pk : CPubKey) : CPubKey :=
  if pk.isValid then pk else getUnspendable cp.evalcode

def getCCaddress (cp : CCcontractInfo) (pk : CPubKey) : Address :=
  (getscriptaddress (ccPubKey (makeCCcond1 cp.evalcode (keyOrUnspendable cp pk)))).getD []

def getTokensCCaddress (cp : CCcontractInfo) (pk : CPubKey) : Address :=
  (getscriptaddress (ccPubKey (makeTokensCCcond1 cp.evalcode cp.additionalTokensEvalcode2
    (keyOrUnspendable cp pk)))).getD []

def constrainVout (vout : CTxOut) (ccFlag : Bool) (cmpaddr : Option Address) (nValue : CAmount) :
    Bool :=
  vout.scriptPubKey.isPayToCryptoCondition == ccFlag &&
    (cmpaddr.isNone || getscriptaddress vout.scriptPubKey == cmpaddr) &&
    (nValue == 0 || nValue == vout.nValue)

/-- `PreventCC`: no conditions from an input and an output on; `-1` asks nothing. -/
def preventCC (tx : CTransaction) (preventCCvins preventCCvouts : Option Nat) :
    Except EvalFault Unit := do
  invalidIf (preventCCvins.any fun n => (tx.vin.drop n).any fun i => isCCInput i.scriptSig)
    "invalid CC vin"
  invalidIf (preventCCvouts.any fun n =>
    (tx.vout.drop n).any fun o => o.scriptPubKey.isPayToCryptoCondition) "invalid CC vout"

@[simp] theorem preventCC_eq_trap {preventCCvins preventCCvouts : Option Nat}
    : preventCC tx preventCCvins preventCCvouts = .error (.trap t) ↔ False := by
  simp [preventCC, bind_eq_trap]

end

end Elosys
