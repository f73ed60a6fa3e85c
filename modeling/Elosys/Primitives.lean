import Mathlib.Data.BitVec

/-!
# Transactions

The data model of `uint256.h`, `amount.h`, `script/script.h` and `primitives/transaction.h`, with
the predicates and value sums that validation reads. A transaction carries its `hash` as a
memory-only member, as in the source. Ciphertexts and what validation does not read are left out.
-/

namespace Elosys

abbrev UInt256 := BitVec 256

instance instLawfulBEqUInt256 : LawfulBEq UInt256 := inferInstance

/-- The all-zero value, which the code uses as "not set". -/
def UInt256.null : UInt256 := 0

def UInt256.isNull (h : UInt256) : Bool := h == UInt256.null

@[simp] theorem UInt256.isNull_iff {h : UInt256} : UInt256.isNull h = true ↔ h = UInt256.null := by
  simp [UInt256.isNull]

@[simp] theorem UInt256.isNull_eq_false_iff {h : UInt256} :
    UInt256.isNull h = false ↔ h ≠ UInt256.null := by
  simp [UInt256.isNull]

/-- Amounts are 64-bit signed integers with wrap-around. -/
abbrev CAmount := Int64

/-- What ends the process without an exception: an index out of range, a division by zero, a signed
overflow. -/
inductive Trap where
  | outOfRange
  | divisionByZero
  | overflow
  deriving DecidableEq, Repr

/-- Why a computation stops: a validation failure with ban score and reason, a failed `assert`, an
exception, or a trap. -/
inductive Fault where
  | reject (dos : Nat) (reason : String)
  | assertion (what : String)
  | exception (what : String)
  | trap (t : Trap)
  deriving DecidableEq, Repr

/-- `return state.DoS(dos, …, REJECT_INVALID, reason)` under a condition. -/
def rejectIf (b : Bool) (dos : Nat) (reason : String) : Except Fault Unit :=
  if b then .error (.reject dos reason) else .ok ()

@[simp] theorem rejectIf_eq_ok {b : Bool} {dos : Nat} {reason : String} {u : Unit} :
    rejectIf b dos reason = .ok u ↔ b = false := by
  cases b with
  | true => simp [rejectIf]
  | false => simp [rejectIf]

/-- A failed `assert`. -/
def assertThat (b : Bool) (what : String) : Except Fault Unit :=
  if b then .ok () else .error (.assertion what)

@[simp] theorem assertThat_eq_ok {b : Bool} {what : String} {u : Unit} :
    assertThat b what = .ok u ↔ b = true := by
  cases b with
  | true => simp [assertThat]
  | false => simp [assertThat]

/-- `*ptr` under an `assert` that the pointer is not null. -/
def assertSome {α : Type} (what : String) : Option α → Except Fault α
  | some a => .ok a
  | none => .error (.assertion what)

@[simp] theorem assertSome_eq_ok {α : Type} {what : String} {o : Option α} {a : α} :
    assertSome what o = .ok a ↔ o = some a := by
  cases o with
  | none => simp [assertSome]
  | some b => simp [assertSome]

theorem bind_eq_ok {ε α β : Type} {x : Except ε α} {f : α → Except ε β} {b : β} :
    (x >>= f) = .ok b ↔ ∃ a, x = .ok a ∧ f a = .ok b := by
  cases x with
  | error e => simp [bind, Except.bind]
  | ok a => simp [bind, Except.bind]

/-- The hash functions of the vendored crypto library. -/
class CryptoHash where
  Hash : List UInt8 → UInt256
  Hash160 : List UInt8 → BitVec 160

abbrev CScript := List UInt8

def opReturn : UInt8 := 0x6a

def maxScriptSize : Nat := 10000

def CScript.isUnspendable (s : CScript) : Bool :=
  (0 < s.length && s.head? == some opReturn) || maxScriptSize < s.length

/-! ### Transparent inputs and outputs -/

/-- A reference to one output of a transaction. -/
structure COutPoint where
  hash : UInt256
  n : Nat
  deriving DecidableEq

/-- `COutPoint::IsNull`: the null hash with index -1. -/
def COutPoint.isNull (o : COutPoint) : Bool := o.hash.isNull && o.n == 2 ^ 32 - 1

/-- A transparent input. -/
structure CTxIn where
  prevout : COutPoint
  scriptSig : CScript
  nSequence : Nat := 2 ^ 32 - 1
  deriving DecidableEq

/-- A transparent output. -/
structure CTxOut where
  nValue : CAmount
  scriptPubKey : CScript
  deriving DecidableEq

/-- `CTxOut::SetNull`: the value of a spent or missing output. -/
def CTxOut.null : CTxOut := ⟨-1, []⟩

/-- `CTxOut::IsNull`: only the amount is looked at. -/
def CTxOut.isNull (o : CTxOut) : Bool := o.nValue == -1

@[simp] theorem CTxOut.isNull_null : CTxOut.null.isNull = true := by decide

/-! ### Shielded descriptions -/

abbrev GrothProof := List UInt8

def nullSignature : List UInt8 := List.replicate 64 0

/-- A JoinSplit: two nullifiers and two commitments. -/
structure JSDescription where
  vpubOld : CAmount := 0
  vpubNew : CAmount := 0
  anchor : UInt256
  nullifiers : UInt256 × UInt256
  commitments : UInt256 × UInt256
  deriving DecidableEq

def JSDescription.nullifierList (js : JSDescription) : List UInt256 :=
  [js.nullifiers.1, js.nullifiers.2]

def JSDescription.commitmentList (js : JSDescription) : List UInt256 :=
  [js.commitments.1, js.commitments.2]

/-- A Sapling spend. -/
structure SpendDescription where
  cv : UInt256 := UInt256.null
  anchor : UInt256
  nullifier : UInt256
  rk : UInt256 := UInt256.null
  zkproof : GrothProof
  spendAuthSig : List UInt8 := nullSignature
  deriving DecidableEq

def SpendDescription.proofHash [CryptoHash] (s : SpendDescription) : UInt256 :=
  CryptoHash.Hash s.zkproof

/-- A Sapling output. -/
structure OutputDescription where
  cv : UInt256 := UInt256.null
  cmu : UInt256
  ephemeralKey : UInt256 := UInt256.null
  zkproof : GrothProof
  deriving DecidableEq

def OutputDescription.proofHash [CryptoHash] (o : OutputDescription) : UInt256 :=
  CryptoHash.Hash o.zkproof

/-! ### The transaction -/

/-- A transaction, with its cached identifier. -/
structure CTransaction where
  hash : UInt256
  fOverwintered : Bool := false
  nVersion : Int
  nVersionGroupId : Nat := 0
  vin : List CTxIn
  vout : List CTxOut
  nLockTime : Nat := 0
  nExpiryHeight : Nat := 0
  valueBalance : CAmount := 0
  vShieldedSpend : List SpendDescription := []
  vShieldedOutput : List OutputDescription := []
  vjoinsplit : List JSDescription := []
  joinSplitPubKey : UInt256 := UInt256.null
  joinSplitSig : List UInt8 := nullSignature
  bindingSig : List UInt8 := nullSignature
  deriving DecidableEq

namespace CTransaction

variable (tx : CTransaction)

def isCoinBase : Bool :=
  match tx.vin with
  | [i] => i.prevout.isNull
  | _ => false

/-- `CTransaction::IsCoinImport`: one input with index `10e8`. -/
def isCoinImport : Bool :=
  match tx.vin with
  | [i] => i.prevout.n == 1000000000
  | _ => false

def isMint : Bool := tx.isCoinImport || tx.isCoinBase

def sproutNullifiers : List UInt256 :=
  tx.vjoinsplit.flatMap JSDescription.nullifierList

def saplingNullifiers : List UInt256 :=
  tx.vShieldedSpend.map SpendDescription.nullifier

end CTransaction

def isExpiredTx (tx : CTransaction) (nBlockHeight : Nat) : Bool :=
  if tx.nExpiryHeight = 0 || tx.isCoinBase then false else tx.nExpiryHeight < nBlockHeight

/-- `MoneyRange`, for the chain's `MAX_MONEY`. -/
def moneyRange (maxMoney v : CAmount) : Bool := 0 ≤ v && v ≤ maxMoney

/-- Add checked amounts to a checked running total: the loop body of `GetValueOut` and
`GetShieldedValueIn`. -/
def addInRange (maxMoney : CAmount) (what : String) :
    CAmount → List CAmount → Except Fault CAmount
  | total, [] => .ok total
  | total, v :: vs =>
    if moneyRange maxMoney v && moneyRange maxMoney (total + v) then
      addInRange maxMoney what (total + v) vs
    else .error (.exception what)

def CTransaction.getValueOut (maxMoney : CAmount) (tx : CTransaction) : Except Fault CAmount := do
  let what := "CTransaction::GetValueOut(): value out of range"
  let outs ← addInRange maxMoney what 0 (tx.vout.map CTxOut.nValue)
  let shielded ← addInRange maxMoney what outs
    (if tx.valueBalance ≤ 0 then [-tx.valueBalance] else [])
  addInRange maxMoney what shielded (tx.vjoinsplit.map JSDescription.vpubOld)

def CTransaction.getShieldedValueIn (maxMoney : CAmount) (tx : CTransaction) :
    Except Fault CAmount := do
  let what := "CTransaction::GetShieldedValueIn(): value out of range"
  let shielded ← addInRange maxMoney what 0
    (if 0 ≤ tx.valueBalance then [tx.valueBalance] else [])
  addInRange maxMoney what shielded (tx.vjoinsplit.map JSDescription.vpubNew)

end Elosys
