import Elosys.Rewards

/-!
# Payments

The payments contract of `cc/payments.cpp`. A release pays the destinations of a plan in the shares
of their allocations; from the first too small share on, all may be left out. `PaymentsValidate`
takes the second destination left out for the first.
-/

open List Except

namespace Elosys

inductive PaymentsFuncid where
  | create
  | snapshot
  | tokens
  deriving DecidableEq

/-- What a plan's variables hold once its last output is decoded. -/
structure PaymentsPlan where
  funcid : PaymentsFuncid
  lockedblocks : Int32
  minrelease : Int32
  totalallocations : Int64
  txidoprets : List UInt256
  minimum : Int32
  top : Int32
  bottom : Int32
  fixedAmount : Int8
  excludeScriptPubKeys : List CScript

/-- A destination and its allocation. -/
structure Allocation where
  amount : Int64
  scriptPubKey : CScript
  deriving DecidableEq

/-- The chain and the functions of `PaymentsValidate`. -/
structure PaymentsWorld where
  myGetTransaction : UInt256 → Option (CTransaction × UInt256)
  getCCopret : CScript → Option CScript
  getscriptaddress : CScript → Option Address
  decodePaymentsMergeOpRet : CScript → Option UInt256
  decodePaymentsReleaseOpRet : CScript → Option (UInt256 × Int64)
  decodePaymentsFundOpRet : CScript → Option UInt256
  decodePlan : CScript → Option PaymentsPlan
  decodePaymentsTxidOpRet : CScript → Option (Allocation × CScript)
  unspendableCCaddr : Address
  txidaddr : UInt256 → Address
  checkTxFee : CTransaction → Bool
  snapshotInterval : Int32
  vAddressSnapshot : List Allocation
  paymentsGame : Int32 × Int32
  paymentsLockedblocks : UInt256 → Int32 → Bool

def PaymentsWorld.isPaymentsvout (world : PaymentsWorld) (out : CTxOut)
    (cmpaddr : Option Address) : CAmount × CScript :=
  match world.getCCopret out.scriptPubKey with
  | none => (0, [])
  | some ccopret =>
    let pays := (world.getscriptaddress out.scriptPubKey).any fun destaddr =>
      cmpaddr.all (· == destaddr)
    (if pays then out.nValue else 0, ccopret)

/-- `fHasOpret`. -/
def hasOpret (tx : CTransaction) : Bool :=
  (tx.vout.getLast?.bind fun out => out.scriptPubKey.head?) == some opReturn

def paidOutputs (tx : CTransaction) : List CTxOut :=
  (if hasOpret tx then tx.vout.dropLast else tx.vout).drop 1

/-! ### The allocations -/

def createdAllocations (world : PaymentsWorld) (tx : CTransaction) :
    List UInt256 → Except EvalFault (List Allocation)
  | [] => .ok []
  | txidopret :: txidoprets =>
    match ((world.myGetTransaction txidopret).filter (1 < ·.1.vout.length)).bind fun tx0 =>
      tx0.1.vout.getLast?.bind fun out => world.decodePaymentsTxidOpRet out.scriptPubKey with
    | none => createdAllocations world tx txidoprets
    | some (allocation, opret) => do
      invalidIf (!opret.isEmpty && !hasOpret tx) "missing opret in payments release"
      invalidIf (!opret.isEmpty && tx.vout.getLast?.map (·.scriptPubKey) != some opret)
        "pays incorrect opret"
      let allocations ← createdAllocations world tx txidoprets
      return allocation :: allocations

/-- `payments_getallocations`, with `i` addresses before. -/
def paymentsGetallocations (top bottom : Int) (excludeScriptPubKeys : List CScript) :
    List Allocation → Int → List Allocation
  | [], _ => []
  | address :: addresses, i =>
    let skip := excludeScriptPubKeys.contains address.scriptPubKey
    let i := if skip then i else i + 1
    let rest :=
      if i + bottom = top then []
      else paymentsGetallocations top bottom excludeScriptPubKeys addresses i
    if skip then rest else address :: rest

namespace PaymentsPlan

variable (plan : PaymentsPlan) (world : PaymentsWorld)

def bounds : Int32 × Int32 :=
  if plan.fixedAmount = 7 then world.paymentsGame else (plan.top, plan.bottom)

def fFixedAmount : Bool := plan.funcid != .create && plan.fixedAmount != 0

/-- The destinations of a plan and `mpzTotalAllocations`. -/
def allocations (tx : CTransaction) : Except EvalFault (List Allocation × Nat) :=
  match plan.funcid with
  | .create => do
    let allocations ← createdAllocations world tx plan.txidoprets
    invalidIf (plan.totalallocations != (allocations.map (·.amount)).sum) "allocation missmatch"
    return (allocations, mpzSetLli plan.totalallocations)
  | funcid => do
    invalidIf (world.snapshotInterval == 0) "snapshots not activated on this chain"
    invalidIf world.vAddressSnapshot.isEmpty "need first snapshot"
    invalidIf (3999 < plan.top) "transaction too big"
    invalidIf (funcid == .tokens) "tokens not yet implemented"
    let (top, bottom) := plan.bounds world
    let addresses := if bottom < 0 then [] else world.vAddressSnapshot.drop bottom.toInt.toNat
    let allocations :=
      paymentsGetallocations top.toInt bottom.toInt plan.excludeScriptPubKeys addresses 0
    return (allocations, (allocations.map (mpzSetLli ·.amount)).sum)

/-! ### The outputs -/

def mpzShare (mpzTotal : Nat) (released amount : Int64) : Except EvalFault Int64 :=
  if mpzTotal = 0 then .error (.trap .divisionByZero)
  else (mpzGetUi2 (mpzSetLli amount * mpzSetLli released / mpzTotal)).map UInt64.toInt64

def test (mpzTotal : Nat) (released amount : Int64) : Except EvalFault Int64 :=
  if plan.fFixedAmount then
    let (top, bottom) := plan.bounds world
    if 0 < top - bottom then divInt64 released (top - bottom).toInt64
    else .error (.invalid "top/bottom range is illegal")
  else mpzShare mpzTotal released amount

def checkOutputs (test : Int64 → Except EvalFault Int64) :
    List CTxOut → List Allocation → Except EvalFault (List Allocation)
  | [], left => .ok left
  | _ :: _, [] => .error (.trap .outOfRange)
  | out :: outs, a :: left => do
    invalidIf (a.scriptPubKey != out.scriptPubKey) "pays wrong address"
    let test' ← test a.amount
    invalidIf (test' != out.nValue) "amounts do not match"
    invalidIf (test' < plan.minimum.toInt64) "under minimum size"
    checkOutputs test outs left

def checkNext (mpzTotal : Nat) (released : Int64) : List Allocation → Except EvalFault Unit
  | [] => .ok ()
  | [_] => .error (.trap .outOfRange)
  | _ :: next :: _ => do
    let test ← mpzShare mpzTotal released next.amount
    invalidIf (plan.minimum.toInt64 < test) "next allocation was not under minimum"

def checkRelease (tx : CTransaction) (released : Int64) : Except EvalFault Unit := do
  invalidIf (released < plan.minrelease.toInt64 * 100000000) "amount is too small"
  let (allocations, mpzTotal) ← plan.allocations world tx
  invalidIf allocations.isEmpty "missing data cannot validate"
  let left ← plan.checkOutputs (plan.test world mpzTotal released) (paidOutputs tx) allocations
  plan.checkNext mpzTotal released left

def checkVin (createtxid : UInt256) (fIsMerge : Bool) (vin : CTxIn) : Except EvalFault Bool := do
  let (txin, blockhash) ←
    someOrInvalid (world.myGetTransaction vin.prevout.hash) "cant get vin transaction"
  let out ← voutAt txin vin.prevout.n
  let (fund, fundccopret) := world.isPaymentsvout out (some world.unspendableCCaddr)
  let (value, vinccopret) := world.isPaymentsvout out (some (world.txidaddr createtxid))
  invalidIf (fund != 0 && (fundccopret.length < 2 ||
    world.decodePaymentsFundOpRet fundccopret != some createtxid)) "vin is not paymentsCC type"
  invalidIf (fund == 0 && value == 0) "utxo comes from incorrect address"
  let merged := fund == 0 && fIsMerge && 2 < vinccopret.length &&
    (world.decodePaymentsMergeOpRet vinccopret).isSome
  invalidIf (!world.paymentsLockedblocks blockhash
    (plan.lockedblocks + if merged then 60 else 0)) "vin not elegible"
  return fIsMerge && out.nValue < 100000000

def checkVins (createtxid : UInt256) (fIsMerge : Bool) (tx : CTransaction) :
    Except EvalFault Unit := do
  let dust ← tx.vin.mapM (plan.checkVin world createtxid fIsMerge)
  invalidIf (fIsMerge && tx.vin.length < 2) "must have at least 2 vins to carry out merge"
  invalidIf (fIsMerge && tx.vin.length == dust.count true + 1) "cannot merge only dust"

end PaymentsPlan

/-- A transaction's plan, and what it releases unless it merges. -/
def paymentsPlan (world : PaymentsWorld) (tx : CTransaction) :
    Except EvalFault (UInt256 × PaymentsPlan × Option Int64) := do
  let out ← voutAt tx 0
  let (change, ccopret) := world.isPaymentsvout out none
  invalidIf (change == 0 || ccopret.length ≤ 2) "could not decode ccopret"
  let (createtxid, released) ← someOrInvalid
    (((world.decodePaymentsMergeOpRet ccopret).map (·, none)).or
      ((world.decodePaymentsReleaseOpRet ccopret).map fun r => (r.1, some r.2)))
    "could not decode ccopret"
  let plantx ← someOrInvalid ((world.myGetTransaction createtxid).filter (0 < ·.1.vout.length))
    "could not get contract transaction"
  let plan ← someOrInvalid
    (plantx.1.vout.getLast?.bind fun out => world.decodePlan out.scriptPubKey)
    "cannot decode create transaction"
  invalidIf (plan.lockedblocks < 0 || plan.minrelease < 0 ||
    (plan.totalallocations ≤ 0 && plan.top ≤ 0)) "negative values"
  invalidIf (plan.minimum < 10000) "minimum must be over 10000"
  invalidIf (!world.checkTxFee tx) "txfee is too high"
  invalidIf ((world.isPaymentsvout out (some (world.txidaddr createtxid))).1 == 0)
    "change pays wrong address"
  return (createtxid, plan, released)

def paymentsValidate (world : PaymentsWorld) (tx : CTransaction) : Except EvalFault Unit := do
  let (createtxid, plan, released) ← paymentsPlan world tx
  match released with
  | some released => plan.checkRelease world tx released
  | none => .ok ()
  plan.checkVins world createtxid released.isNone tx

/-! ### What a release pays -/

namespace PaymentsPlan

variable (plan : PaymentsPlan) (released : Int64) (allocations : List Allocation)

def total : Int :=
  if plan.funcid = .create then plan.totalallocations.toInt
  else (allocations.map (·.amount.toInt)).sum

/-- The share of a destination, rounded down. -/
def share (a : Allocation) : Int :=
  (a.amount.toInt * released.toInt).fdiv (plan.total allocations)

/-- An output pays a share, not below the minimum. -/
def PaysShare (a : Allocation) (out : CTxOut) : Prop :=
  a.scriptPubKey = out.scriptPubKey ∧ out.nValue.toInt = plan.share released allocations a ∧
    plan.minimum.toInt ≤ out.nValue.toInt

/-- The outputs pay the first shares; the first left out has at most the minimum. -/
structure PaysExactly (outs : List CTxOut) : Prop where
  paid : Forall₂ (plan.PaysShare released allocations) (allocations.take outs.length) outs
  leftOut : ∀ a ∈ allocations[outs.length]?, plan.share released allocations a ≤ plan.minimum.toInt

variable {plan released allocations} {world : PaymentsWorld} {tx : CTransaction}
  {createtxid : UInt256} {mpzTotal : Nat} {left : List Allocation}
  {outs : List CTxOut} {test : Int64 → Except EvalFault Int64}

theorem checkOutputs_eq_ok : plan.checkOutputs test outs allocations = .ok left ↔
    allocations.drop outs.length = left ∧ Forall₂ (fun a out =>
      a.scriptPubKey = out.scriptPubKey ∧ test a.amount = .ok out.nValue ∧
        plan.minimum.toInt64 ≤ out.nValue) (allocations.take outs.length) outs := by
  induction outs generalizing allocations with
  | nil => simp [checkOutputs]
  | cons out outs ih =>
    cases allocations with
    | nil => simp [checkOutputs]
    | cons a allocations =>
      simp only [checkOutputs, bind_eq_ok, invalidIf_eq_ok, ih, length_cons,
        take_succ_cons, drop_succ_cons, forall₂_cons, bne_eq_false_iff_eq,
        decide_eq_false_iff_not, Int64.not_lt]
      constructor
      · rintro ⟨_, hscript, v, htest, _, rfl, _, hmin, hleft, hrest⟩
        exact ⟨hleft, ⟨hscript, htest, hmin⟩, hrest⟩
      · rintro ⟨hleft, ⟨hscript, htest, hmin⟩, hrest⟩
        exact ⟨(), hscript, _, htest, (), rfl, (), hmin, hleft, hrest⟩

theorem checkOutputs_outOfRange (htest : ∀ a, test a ≠ .error (.trap .outOfRange))
    (h : plan.checkOutputs test outs allocations = .error (.trap .outOfRange)) :
    allocations.length < outs.length := by
  induction outs generalizing allocations with
  | nil => cases h
  | cons out outs ih =>
    cases allocations with
    | nil => simp
    | cons a allocations =>
      simp only [checkOutputs, bind_eq_trap, invalidIf_eq_trap, false_or, htest] at h
      obtain ⟨_, -, _, -, _, -, _, -, h⟩ := h
      simpa using ih h

theorem mpzShare_eq_ok {amount value : Int64} (hpos : 0 ≤ value.toInt)
    (h : mpzShare mpzTotal released amount = .ok value) :
    value.toInt = (mpzSetLli amount * mpzSetLli released / mpzTotal : Nat) := by
  unfold mpzShare mpzGetUi2 at h
  split at h
  · cases h
  · split at h
    · next hlt =>
      obtain rfl := ok.inj h
      have hnat := toNat_toUInt64_cond
        (UInt64.ofNat (mpzSetLli amount * mpzSetLli released / mpzTotal)).toInt64
      rw [if_neg (Int.not_lt.mpr hpos), UInt64.toUInt64_toInt64,
        UInt64.toNat_ofNat_of_lt' hlt] at hnat
      exact hnat.symm
    · cases h

theorem mpzShare_ne_outOfRange (amount : Int64) :
    mpzShare mpzTotal released amount ≠ .error (.trap .outOfRange) := by
  unfold mpzShare mpzGetUi2
  split
  · simp
  · split <;> simp [Except.map]

theorem checkNext_eq_ok (h : plan.checkNext mpzTotal released left = .ok ()) : left.length ≠ 1 := by
  rintro hone
  obtain ⟨a, rfl⟩ := length_eq_one_iff.mp hone
  cases h

theorem checkNext_outOfRange
    (h : plan.checkNext mpzTotal released left = .error (.trap .outOfRange)) :
    left.length = 1 := by
  match left with
  | [] => cases h
  | [_] => rfl
  | _ :: next :: _ => simp [checkNext, bind_eq_trap, mpzShare_ne_outOfRange] at h

theorem paid_iff {paid : List Allocation} (hmin : 0 ≤ plan.minimum.toInt)
    (hpaid : Forall₂ (fun a out => a.scriptPubKey = out.scriptPubKey ∧
      mpzShare mpzTotal released a.amount = .ok out.nValue ∧
        plan.minimum.toInt64 ≤ out.nValue) paid outs) :
    Forall₂ (plan.PaysShare released allocations) paid outs ↔ ∀ a ∈ paid,
      (mpzSetLli a.amount * mpzSetLli released / mpzTotal : Nat) =
        plan.share released allocations a := by
  induction hpaid with
  | nil => simp
  | cons h _ ih =>
    obtain ⟨hscript, htest, hle⟩ := h
    rw [Int64.le_iff_toInt_le, Int32.toInt_toInt64] at hle
    have hvalue := mpzShare_eq_ok (hmin.trans hle) htest
    rw [forall₂_cons, ih, forall_mem_cons, PaysShare, hvalue]
    rw [hvalue] at hle
    exact and_congr_left fun _ => ⟨fun h => h.2.1, fun h => ⟨hscript, h, hle⟩⟩

theorem mpzSetLli_of_nonneg {n : Int64} (h : 0 ≤ n.toInt) : (mpzSetLli n : Int) = n.toInt := by
  rw [mpzSetLli, toNat_toUInt64_cond, if_neg (Int.not_lt.mpr h)]

theorem sum_mpzSetLli (hamounts : ∀ a ∈ allocations, 0 ≤ a.amount.toInt) :
    ((allocations.map (mpzSetLli ·.amount)).sum : Int) =
      (allocations.map (·.amount.toInt)).sum := by
  induction allocations with
  | nil => rfl
  | cons a allocations ih =>
    obtain ⟨ha, hrest⟩ := forall_mem_cons.mp hamounts
    rw [map_cons, map_cons, sum_cons, sum_cons, Int.natCast_add, mpzSetLli_of_nonneg ha, ih hrest]

theorem mpzTotal_eq (hall : plan.allocations world tx = .ok (allocations, mpzTotal))
    (hamounts : ∀ a ∈ allocations, 0 ≤ a.amount.toInt) (htotal : 0 ≤ plan.total allocations) :
    (mpzTotal : Int) = plan.total allocations := by
  unfold PaymentsPlan.allocations at hall
  split at hall
  · next hcreate =>
    simp only [bind_eq_ok] at hall
    obtain ⟨_, -, _, -, hret⟩ := hall
    obtain ⟨-, rfl⟩ := Prod.mk.inj (ok.inj hret)
    rw [total, if_pos hcreate] at htotal ⊢
    exact mpzSetLli_of_nonneg htotal
  · next hother =>
    simp only [bind_eq_ok] at hall
    obtain ⟨_, -, _, -, _, -, _, -, hret⟩ := hall
    obtain ⟨rfl, rfl⟩ := Prod.mk.inj (ok.inj hret)
    rw [total, if_neg hother]
    exact sum_mpzSetLli hamounts

/-- Without negative numbers nothing is lost in the unsigned ones. -/
theorem share_of_nonneg (hall : plan.allocations world tx = .ok (allocations, mpzTotal))
    (hreleased : 0 ≤ released.toInt) (hamounts : ∀ a ∈ allocations, 0 ≤ a.amount.toInt)
    (htotal : 0 ≤ plan.total allocations) {a : Allocation} (ha : a ∈ allocations) :
    (mpzSetLli a.amount * mpzSetLli released / mpzTotal : Nat) =
      plan.share released allocations a := by
  rw [share, ← mpzTotal_eq hall hamounts htotal, ← mpzSetLli_of_nonneg hreleased,
    ← mpzSetLli_of_nonneg (hamounts a ha), ← Int.natCast_mul]
  exact Int.ofNat_fdiv _ _

theorem minimum_pos (hplan : paymentsPlan world tx = .ok (createtxid, plan, some released)) :
    0 ≤ plan.minimum.toInt := by
  simp only [paymentsPlan, bind_eq_ok, invalidIf_eq_ok] at hplan
  obtain ⟨_, -, _, -, _, -, _, -, plan', -, _, -, _, hmin, _, -, _, -, h⟩ := hplan
  obtain ⟨-, h⟩ := Prod.mk.inj (ok.inj h)
  obtain ⟨rfl, -⟩ := Prod.mk.inj h
  rw [decide_eq_false_iff_not, Int32.not_lt, Int32.le_iff_toInt_le] at hmin
  exact le_trans (by decide) hmin

theorem test_eq (hshares : plan.fFixedAmount = false) :
    plan.test world mpzTotal released = mpzShare mpzTotal released := by
  funext amount
  simp [test, hshares]

/-- A read behind the destinations: too many outputs, or exactly one destination left out. -/
theorem lengths_of_outOfRange (hshares : plan.fFixedAmount = false)
    (hall : plan.allocations world tx = .ok (allocations, mpzTotal))
    (h : plan.checkRelease world tx released = .error (.trap .outOfRange)) :
    allocations.length < (paidOutputs tx).length ∨
      allocations.length = (paidOutputs tx).length + 1 := by
  simp only [checkRelease, hall, bind_eq_trap, invalidIf_eq_trap, false_or, reduceCtorEq,
    Except.ok.injEq, exists_eq_left', test_eq hshares] at h
  obtain ⟨_, -, _, -, hloop | ⟨left, houts, hnext⟩⟩ := h
  · exact .inl (checkOutputs_outOfRange mpzShare_ne_outOfRange hloop)
  · obtain ⟨rfl, -⟩ := checkOutputs_eq_ok.mp houts
    have hone := checkNext_outOfRange hnext
    rw [length_drop] at hone
    exact .inr (by omega)

/-- **A release pays exactly the shares** if no sign gets lost, and it pays all, or leaves out more
than one. No sign gets lost if nothing is negative. -/
theorem pays_exactly_iff (hplan : paymentsPlan world tx = .ok (createtxid, plan, some released))
    (hshares : plan.fFixedAmount = false)
    (hall : plan.allocations world tx = .ok (allocations, mpzTotal))
    (hrun : paymentsValidate world tx = .ok () ∨
      plan.checkRelease world tx released = .error (.trap .outOfRange)) :
    ((plan.PaysExactly released allocations (paidOutputs tx) ∧
        plan.checkRelease world tx released ≠ .error (.trap .outOfRange)) ↔
      (∀ a ∈ allocations.take (paidOutputs tx).length,
        (mpzSetLli a.amount * mpzSetLli released / mpzTotal : Nat) =
          plan.share released allocations a) ∧
      ((paidOutputs tx).length = allocations.length ∨
        (paidOutputs tx).length + 1 < allocations.length ∧
          ∀ a ∈ allocations[(paidOutputs tx).length]?,
            plan.share released allocations a ≤ plan.minimum.toInt)) ∧
    (0 ≤ released.toInt → (∀ a ∈ allocations, 0 ≤ a.amount.toInt) →
      0 ≤ plan.total allocations → ∀ a ∈ allocations,
        (mpzSetLli a.amount * mpzSetLli released / mpzTotal : Nat) =
          plan.share released allocations a) := by
  refine ⟨?_, fun hreleased hamounts htotal a => share_of_nonneg hall hreleased hamounts htotal⟩
  have hcheck : plan.checkRelease world tx released = .ok () ∨
      plan.checkRelease world tx released = .error (.trap .outOfRange) := by
    refine hrun.imp_left fun h => ?_
    rw [paymentsValidate, hplan] at h
    obtain ⟨_, hp, h⟩ := bind_eq_ok.mp h
    obtain rfl := ok.inj hp
    obtain ⟨_, h, -⟩ := bind_eq_ok.mp h
    exact h
  rcases hcheck with hresult | hresult
  · rw [hresult]
    simp only [checkRelease, hall, bind_eq_ok] at hresult
    obtain ⟨_, -, _, ⟨⟩, _, -, left, houts, hnext⟩ := hresult
    dsimp only at houts hnext
    rw [test_eq hshares] at houts
    obtain ⟨rfl, hpaid⟩ := checkOutputs_eq_ok.mp houts
    have hone := checkNext_eq_ok hnext
    have hlength := hpaid.length_eq
    rw [length_drop] at hone
    rw [length_take] at hlength
    have hvalues : Forall₂ (plan.PaysShare released allocations) _ _ ↔ _ :=
      paid_iff (minimum_pos hplan) hpaid
    constructor
    · rintro ⟨⟨hshare, hleft⟩, -⟩
      refine ⟨hvalues.mp hshare, ?_⟩
      by_cases hall : (paidOutputs tx).length = allocations.length
      · exact .inl hall
      · exact .inr ⟨by omega, hleft⟩
    · rintro ⟨hshare, hrest⟩
      refine ⟨⟨hvalues.mpr hshare, ?_⟩, by simp⟩
      rcases hrest with hall | ⟨-, hleft⟩
      · simp [hall]
      · exact hleft
  · have hlength := lengths_of_outOfRange hshares hall hresult
    simp only [hresult, ne_eq, not_true_eq_false, and_false, false_iff, not_and, not_or]
    exact fun _ => ⟨by omega, fun hlt => by omega⟩

end PaymentsPlan

def threeWayPlan : PaymentsPlan where
  funcid := .create
  lockedblocks := 0
  minrelease := 0
  totalallocations := 100
  txidoprets := [50, 49, 1]
  minimum := 10000
  top := 0
  bottom := 0
  fixedAmount := 0
  excludeScriptPubKeys := []

def threeWayWorld : PaymentsWorld where
  myGetTransaction h :=
    some ({ hash := h, nVersion := 1, vin := [], vout := .replicate 2 ⟨1, [.ofNat h.toNat]⟩ }, 0)
  getCCopret s := some s
  getscriptaddress _ := some []
  decodePaymentsMergeOpRet _ := none
  decodePaymentsReleaseOpRet _ := some (9, 1000000)
  decodePaymentsFundOpRet _ := none
  decodePlan _ := some threeWayPlan
  decodePaymentsTxidOpRet s := s.head?.map fun b => (⟨Int64.ofNat b.toNat, s⟩, [])
  unspendableCCaddr := [1]
  txidaddr _ := []
  checkTxFee _ := true
  snapshotInterval := 0
  vAddressSnapshot := []
  paymentsGame := (0, 0)
  paymentsLockedblocks _ _ := true

def threeWayRelease (outs : List CTxOut) : CTransaction :=
  { hash := 8, nVersion := 1, vin := [], vout := ⟨1, [1, 1, 1]⟩ :: outs }

theorem pays_exactly_threeWay :
    let tx := threeWayRelease [⟨500000, [50]⟩, ⟨490000, [49]⟩, ⟨10000, [1]⟩]
    paymentsValidate threeWayWorld tx = .ok () ∧
      threeWayPlan.PaysExactly 1000000 [⟨50, [50]⟩, ⟨49, [49]⟩, ⟨1, [1]⟩] (paidOutputs tx) := by
  intro tx
  have hplan : paymentsPlan threeWayWorld tx = .ok (9, threeWayPlan, some 1000000) := rfl
  have hall : threeWayPlan.allocations threeWayWorld tx =
    .ok ([⟨50, [50]⟩, ⟨49, [49]⟩, ⟨1, [1]⟩], 100) := rfl
  obtain ⟨hiff, hsigns⟩ := PaymentsPlan.pays_exactly_iff hplan rfl hall (.inl rfl)
  have hshares := hsigns (by decide) (by decide) (by decide)
  exact ⟨rfl, (hiff.mpr ⟨fun a ha => hshares a (mem_of_mem_take ha), .inl rfl⟩).1⟩

/-- **A release that stops early**: the second destination is not paid its 490000. -/
theorem release_stops_early :
    paymentsValidate threeWayWorld (threeWayRelease [⟨500000, [50]⟩]) = .ok () ∧
      ¬ threeWayPlan.PaysExactly 1000000 [⟨50, [50]⟩, ⟨49, [49]⟩, ⟨1, [1]⟩]
        (paidOutputs (threeWayRelease [⟨500000, [50]⟩])) ∧
      threeWayPlan.checkRelease threeWayWorld
        (threeWayRelease [⟨500000, [50]⟩, ⟨490000, [49]⟩]) 1000000 = .error (.trap .outOfRange) :=
  ⟨rfl, fun h => absurd (h.leftOut _ rfl) (by decide), rfl⟩

end Elosys
