import Elosys.RewardsUnlock

/-!
# The Faucet

The faucet of `cc/faucet.cpp`. `FaucetValidate` balances its address and looks for transactions of
the address paid, which is to be new. It looks at the first input in the place of each, and at the
second output where there may be one.
-/

namespace Elosys

open List CCLibrary

@[inherit_doc evalAssets] def evalFaucet : UInt8 := 0xe4

def faucetSize : CAmount := 100000000 / 10

/-- What the faucet asks the rest of the node besides. -/
structure FaucetWorld extends CCWorld where
  hashBlock : UInt256 → UInt256
  blockOf : UInt256 → Option (UInt32 × Int)
  tip : UInt32 × Int
  setCCtxids : Address → Bool → List UInt256

/-- `CCduration`: time and blocks since a transaction. -/
def FaucetWorld.ccDuration (world : FaucetWorld) (txid : UInt256) : Nat × Int :=
  match world.blockOf txid with
  | none => (0, 0)
  | some (txtime, txheight) =>
    if txtime = 0 ∨ txheight ≤ 0 ∨ world.tip.1 < txtime ∨ world.tip.2 ≤ txheight then (0, 0)
    else ((world.tip.1 - txtime).toNat, world.tip.2 - txheight)

section

variable [CCLibrary] (world : FaucetWorld) (tx : CTransaction)

/-- `IsFaucetvout`: an output's value at the faucet's address. -/
def isFaucetvout (out : CTxOut) : CAmount :=
  if out.scriptPubKey.isPayToCryptoCondition ∧
      getscriptaddress out.scriptPubKey = some (unspendableCCaddr evalFaucet) then out.nValue
  else 0

/-- The inputs in `FaucetExactAmounts`. -/
def faucetInputs : List CTxIn → Except EvalFault CAmount
  | [] => .ok 0
  | i :: vin =>
    if ismyvin evalFaucet i.scriptSig then do
      let vinTx ← someOrInvalid (world.getTx i.prevout.hash) "cant find vinTx"
      invalidIf (world.hashBlock i.prevout.hash == UInt256.null) "cant faucet from mempool"
      let out ← voutAt vinTx i.prevout.n
      let rest ← faucetInputs vin
      return isFaucetvout out + rest
    else faucetInputs vin

/-- `FaucetExactAmounts`, in unsigned numbers. -/
def faucetExactAmounts (txfee : UInt64) : Except EvalFault Unit := do
  let inputs ← faucetInputs world tx.vin
  let outputs := (tx.vout.map isFaucetvout).sum
  invalidIf (inputs.toUInt64 != outputs.toUInt64 + faucetSize.toUInt64 + txfee)
    "mismatched inputs != outputs + FAUCETSIZE + txfee"

def payeeIndex : Nat := if tx.vout.head?.any fun out => isFaucetvout out ≠ 0 then 1 else 0

def faucetValidate : Except EvalFault Unit := do
  invalidIf tx.vout.isEmpty "no vouts"
  invalidIf (tx.vin.head?.any fun i => !isCCInput i.scriptSig) "illegal normal vini"
  faucetExactAmounts world tx 10000
  let out ← voutAt tx (payeeIndex tx)
  invalidIf (out.nValue != faucetSize) "invalid faucet output"
  invalidIf (UInt256.byte tx.hash 0 != 0 || UInt256.byte tx.hash 31 != 0) "invalid faucetget txid"
  let destaddr := (getscriptaddress out.scriptPubKey).getD []
  invalidIf ((world.setCCtxids destaddr out.scriptPubKey.isPayToCryptoCondition).any fun txid =>
    0 < (world.ccDuration txid).1 && 3 < (world.ccDuration txid).2)
    "faucet is only for brand new addresses"
  preventCC tx none (some (payeeIndex tx + 1))

/-! ### What a withdrawal is to be -/

def faucetSpent : List CAmount :=
  tx.vin.map fun i => ((world.output? i.prevout).map isFaucetvout).getD 0

/-- A transaction in a block more than three blocks ago. -/
def FaucetWorld.Old (txid : UInt256) : Prop :=
  ∃ b, world.blockOf txid = some b ∧ 3 < world.tip.2 - b.2

/-- **A bounded withdrawal.** -/
structure BoundedWithdrawal : Prop where
  conditions : ∀ i ∈ tx.vin, isCCInput i.scriptSig = true
  balance : amountSum (faucetSpent world tx) =
    amountSum (tx.vout.map isFaucetvout) + faucetSize.toInt + 10000
  paid : ∃ out addr, tx.vout[payeeIndex tx]? = some out ∧ isFaucetvout out = 0 ∧
    out.nValue = faucetSize ∧ getscriptaddress out.scriptPubKey = some addr ∧
    ∀ txid ∈ world.setCCtxids addr out.scriptPubKey.isPayToCryptoCondition, ¬ world.Old txid

/-- What the validation does not look at. -/
structure WithdrawalMeets : Prop where
  conditions : ∀ i ∈ tx.vin, isCCInput i.scriptSig = true
  paid : ∀ out, tx.vout[payeeIndex tx]? = some out → isFaucetvout out = 0 ∧
    ∃ addr, getscriptaddress out.scriptPubKey = some addr ∧
      ∀ txid ∈ world.setCCtxids addr out.scriptPubKey.isPayToCryptoCondition,
        ∀ b, world.blockOf txid = some b → 3 < world.tip.2 - b.2 →
          b.1 ≠ 0 ∧ 0 < b.2 ∧ b.1 < world.tip.1

def InputChecked (i : CTxIn) : Prop :=
  ∃ out, world.output? i.prevout = some out ∧ 0 ≤ out.nValue.toInt ∧
    (isFaucetvout out ≠ 0 → ismyvin evalFaucet i.scriptSig = true)

/-- What other checks found: the amounts have sums. -/
structure FaucetChecked : Prop where
  inputs : ∀ i ∈ tx.vin, InputChecked world i
  spent : amountSum (faucetSpent world tx) < 2 ^ 63
  outputs : ∀ out ∈ tx.vout, 0 ≤ out.nValue.toInt
  made : amountSum (tx.vout.map isFaucetvout) < 2 ^ 63

variable {world tx}

theorem isFaucetvout_nonneg {out : CTxOut} (h : 0 ≤ out.nValue.toInt) :
    0 ≤ (isFaucetvout out).toInt := by
  unfold isFaucetvout
  split
  · exact h
  · exact Int.le_refl 0

variable {vin : List CTxIn} (hinputs : ∀ i ∈ vin, InputChecked world i)

include hinputs

theorem faucetInputs_ok {inputs : CAmount} (h : faucetInputs world vin = .ok inputs) :
    inputs = (vin.map fun i => ((world.output? i.prevout).map isFaucetvout).getD 0).sum := by
  induction vin generalizing inputs with
  | nil => exact (Except.ok.inj h).symm
  | cons i vin ih =>
    obtain ⟨⟨out, hspent, -, hshown⟩, hrest⟩ := forall_mem_cons.mp hinputs
    rw [map_cons, sum_cons, hspent]
    rw [faucetInputs] at h
    split at h
    · simp only [bind_eq_ok, someOrInvalid_eq_ok, voutAt_eq_ok] at h
      obtain ⟨t, ht, -, -, out', hout, rest, hsum, hret⟩ := h
      obtain rfl : out' = out := by simpa [CCWorld.output?, ht, hout] using hspent
      rw [← ih hrest hsum]
      exact (Except.ok.inj hret).symm
    · next hmine =>
      have hnone : isFaucetvout out = 0 := by
        by_contra hne
        exact hmine (hshown hne)
      rw [Option.map_some, Option.getD_some, hnone, ← ih hrest h, Int64.zero_add]

theorem faucetInputs_ne_trap {t : Trap} : faucetInputs world vin ≠ .error (.trap t) := by
  induction vin with
  | nil => exact nofun
  | cons i vin ih =>
    obtain ⟨⟨out, hspent, -⟩, hrest⟩ := forall_mem_cons.mp hinputs
    rw [faucetInputs]
    split
    · simp only [ne_eq, bind_eq_trap, someOrInvalid_eq_ok, someOrInvalid_eq_trap, invalidIf_eq_trap,
        voutAt_eq_trap, pure_eq_trap, ih hrest, false_or, or_false, and_false, exists_false]
      rintro ⟨vinTx, hvinTx, -, -, -, hnone⟩
      simp [CCWorld.output?, hvinTx, hnone] at hspent
    · exact ih hrest

omit hinputs

omit [CCLibrary] in
theorem toNat_toUInt64_sum {vs : List CAmount} (hpos : ∀ v ∈ vs, 0 ≤ v.toInt)
    (hfits : amountSum vs < 2 ^ 63) : (vs.sum.toUInt64.toNat : Int) = amountSum vs := by
  rw [toNat_toUInt64_cond, toInt_sum_of_nonneg hpos hfits, if_neg]
  exact Int.not_lt.mpr (sum_nonneg (forall_mem_map.mpr hpos))

theorem balance_of_exactAmounts (hchecked : FaucetChecked world tx)
    (h : faucetExactAmounts world tx 10000 = .ok ()) : amountSum (faucetSpent world tx) =
      amountSum (tx.vout.map isFaucetvout) + faucetSize.toInt + 10000 := by
  simp only [faucetExactAmounts, bind_eq_ok, invalidIf_eq_ok, bne_eq_false_iff_eq] at h
  obtain ⟨inputs, hinputs, hexact⟩ := h
  obtain rfl := faucetInputs_ok hchecked.inputs hinputs
  have hspent : ∀ v ∈ faucetSpent world tx, 0 ≤ v.toInt := by
    refine forall_mem_map.mpr fun i hi => ?_
    obtain ⟨out, hout, hnonneg, -⟩ := hchecked.inputs i hi
    rw [hout]
    exact isFaucetvout_nonneg hnonneg
  have hmade : ∀ v ∈ tx.vout.map isFaucetvout, 0 ≤ v.toInt :=
    forall_mem_map.mpr fun out hout => isFaucetvout_nonneg (hchecked.outputs out hout)
  have hin := toNat_toUInt64_sum hspent hchecked.spent
  have hout := toNat_toUInt64_sum hmade hchecked.made
  have hsize : faucetSize.toUInt64.toNat = 10000000 ∧ faucetSize.toInt = 10000000 := by decide
  have hnat := congrArg UInt64.toNat hexact
  have hfits := hchecked.made
  rw [UInt64.toNat_add, UInt64.toNat_add, hsize.1, show UInt64.toNat 10000 = 10000 from rfl] at hnat
  change (faucetSpent world tx).sum.toUInt64.toNat = _ at hnat
  omega

theorem faucetValidate_ok (h : faucetValidate world tx = .ok ()) :
    faucetExactAmounts world tx 10000 = .ok () ∧ ∃ out, tx.vout[payeeIndex tx]? = some out ∧
      out.nValue = faucetSize ∧ ∀ txid ∈ world.setCCtxids
        ((getscriptaddress out.scriptPubKey).getD []) out.scriptPubKey.isPayToCryptoCondition,
        0 < (world.ccDuration txid).1 → (world.ccDuration txid).2 ≤ 3 := by
  simp only [faucetValidate, bind_eq_ok, invalidIf_eq_ok, voutAt_eq_ok] at h
  obtain ⟨-, -, -, -, u, hexact, out, hout, -, hvalue, -, -, -, hnew, -⟩ := h
  refine ⟨hexact, out, hout, by simpa using hvalue, fun txid htxid hpos => ?_⟩
  have := List.any_eq_false.mp hnew txid htxid
  simpa [hpos] using this

omit [CCLibrary] in
theorem ccDuration_of_later {txid : UInt256} {b : UInt32 × Int}
    (hb : world.blockOf txid = some b) (htime : b.1 ≠ 0) (hheight : 0 < b.2)
    (hlater : b.1 < world.tip.1) (hage : 3 < world.tip.2 - b.2) :
    0 < (world.ccDuration txid).1 ∧ 3 < (world.ccDuration txid).2 := by
  rw [FaucetWorld.ccDuration, hb]
  dsimp only
  have hle := UInt32.le_of_lt hlater
  rw [if_neg (by simp only [not_or, UInt32.not_lt]; exact ⟨htime, by omega, hle, by omega⟩)]
  refine ⟨?_, hage⟩
  rw [UInt32.toNat_sub_of_le _ _ hle]
  exact Nat.sub_pos_of_lt hlater

/-- **When withdrawals are bounded**: no check looks at later inputs, a second output of the
faucet, or times that go back. -/
theorem faucet_bounded_iff (hchecked : FaucetChecked world tx) :
    (faucetValidate world tx = .ok () → (BoundedWithdrawal world tx ↔ WithdrawalMeets world tx)) ∧
    (faucetValidate world tx = .error (.trap .outOfRange) ↔ tx.vout ≠ [] ∧
      (tx.vin.head?.any fun i => !isCCInput i.scriptSig) = false ∧
      faucetExactAmounts world tx 10000 = .ok () ∧ tx.vout[payeeIndex tx]? = none) := by
  refine ⟨fun h => ?_, ?_⟩
  · obtain ⟨hexact, out, hout, hvalue, hnew⟩ := faucetValidate_ok h
    constructor
    · rintro ⟨hcc, -, out', addr, hout', hnot, -, haddr, hold⟩
      obtain rfl := Option.some.inj (hout.symm.trans hout')
      refine ⟨hcc, fun o ho => ?_⟩
      obtain rfl := Option.some.inj (hout.symm.trans ho)
      exact ⟨hnot, addr, haddr, fun txid htxid b hb hage => absurd ⟨b, hb, hage⟩ (hold txid htxid)⟩
    · rintro ⟨hcc, hpaid⟩
      obtain ⟨hnot, addr, haddr, hforward⟩ := hpaid out hout
      rw [haddr, Option.getD_some] at hnew
      refine ⟨hcc, balance_of_exactAmounts hchecked hexact, out, addr, hout, hnot, hvalue, haddr,
        ?_⟩
      rintro txid htxid ⟨b, hb, hage⟩
      obtain ⟨htime, hheight, hlater⟩ := hforward txid htxid b hb hage
      obtain ⟨hpos, hmore⟩ := ccDuration_of_later hb htime hheight hlater hage
      exact absurd (hnew txid htxid hpos) (by omega)
  · have hamounts : faucetExactAmounts world tx 10000 ≠ .error (.trap .outOfRange) := by
      simp [faucetExactAmounts, bind_eq_trap, faucetInputs_ne_trap hchecked.inputs]
    simp only [faucetValidate, bind_eq_trap, invalidIf_eq_ok, invalidIf_eq_trap, voutAt_eq_trap,
      preventCC_eq_trap, hamounts, and_false, exists_false, or_false, false_or]
    constructor
    · rintro ⟨_, hne, _, hcc, _, hexact, -, hnone⟩
      exact ⟨by simpa using hne, hcc, hexact, hnone⟩
    · rintro ⟨hne, hcc, hexact, hnone⟩
      exact ⟨(), by simpa using hne, (), hcc, (), hexact, trivial, hnone⟩

end

section

local instance faucetLibrary : CCLibrary := rewardsLibrary

def faucetCoins (nValue : CAmount) : CTxOut :=
  makeCC1vout evalFaucet nValue (getUnspendable evalFaucet)

def faucetTx (hash : UInt256) (vin : List CTxIn) (vout : List CTxOut) : CTransaction :=
  { hash := hash, nVersion := 1, vin := vin, vout := vout }

def faucetWorld : FaucetWorld where
  getTx h := if h = 2 then some (faucetTx 2 [] [faucetCoins 20010000]) else none
  chainName := []
  height := 9
  hashBlock _ := 1
  blockOf _ := none
  tip := (1, 9)
  setCCtxids _ _ := []

def faucetIn : CTxIn := { prevout := ⟨2, 0⟩, scriptSig := [evalFaucet] }

def withdrawTx : CTransaction :=
  faucetTx 256 [faucetIn] [faucetCoins 10000000, ⟨10000000, [opChecksig]⟩]

theorem faucet_bounded_withdrawTx : faucetValidate faucetWorld withdrawTx = .ok () ∧
    BoundedWithdrawal faucetWorld withdrawTx := by
  have hok : faucetValidate faucetWorld withdrawTx = .ok () := by decide +kernel
  have hchecked : FaucetChecked faucetWorld withdrawTx := by
    refine ⟨fun i hi => ?_, by decide +kernel, by decide +kernel, by decide +kernel⟩
    obtain rfl := mem_singleton.mp hi
    exact ⟨faucetCoins 20010000, by decide +kernel, by decide, fun _ => rfl⟩
  refine ⟨hok, ((faucet_bounded_iff hchecked).1 hok).mpr ⟨by decide +kernel, fun out hout => ?_⟩⟩
  have hpaid : withdrawTx.vout[payeeIndex withdrawTx]? = some ⟨10000000, [opChecksig]⟩ := by
    decide +kernel
  obtain rfl := Option.some.inj (hpaid.symm.trans hout)
  exact ⟨by decide +kernel, [opChecksig], rfl, nofun⟩

/-- **A normal input is accepted**, and a missing second output is read. -/
theorem faucet_unbounded : let normal := { prevout := ⟨3, 0⟩, scriptSig := [] }
    faucetValidate faucetWorld { withdrawTx with vin := [faucetIn, normal] } = .ok () ∧
      isCCInput normal.scriptSig = false ∧
      faucetValidate faucetWorld { withdrawTx with vout := [faucetCoins 10000000] } =
        .error (.trap .outOfRange) := by
  decide +kernel

end

end Elosys
