import Elosys.Program
import Elosys.TransactionBuilder

/-!
# The Balance of a Built Transaction

The transaction of `Build` balances: its value balance is what its notes say, its spends have one
anchor, and inputs exceed outputs by the fee. A `Ledger` has what the successful calls said, in
numbers that do not wrap; the builder follows it (`Tracks`) modulo 2⁶⁴.

## Main results

* `Tracks.call`: the builder follows the ledger through every call that succeeds, and no other call
  changes it.
* Every transaction of `Build` balances and carries the ledger's notes, after any calls whose sums
  are amounts.
-/

open Program List Option Except Prod

namespace Elosys

/-! ### The ledger of the calls -/

/-- A shielded payment: outgoing viewing key, address and value. -/
structure Payment where
  ovk : UInt256
  addr : SaplingPaymentAddress
  value : UInt64
  deriving DecidableEq

/-- Where the change goes. -/
inductive ChangeTo where
  | sapling (ovk : UInt256) (addr : SaplingPaymentAddress)
  | transparent (dest : TxDestination)
  deriving DecidableEq

/-- What the calls that went through ask for. -/
structure Ledger where
  spent : List (SaplingExpandedSpendingKey × SaplingNote) := []
  paid : List Payment := []
  inputs : List (COutPoint × CAmount) := []
  outs : List CTxOut := []
  fee : CAmount := 10000
  changeTo : Option ChangeTo := none
  opRet : Option CScript := none

def noteSum (values : List UInt64) : Int := (values.map fun v => (v.toNat : Int)).sum

@[simp] theorem noteSum_append (vs ws : List UInt64) :
    noteSum (vs ++ ws) = noteSum vs + noteSum ws := by
  simp [noteSum]

@[simp] theorem noteSum_nil : noteSum [] = 0 := rfl

@[simp] theorem noteSum_singleton (v : UInt64) : noteSum [v] = v.toNat := by
  simp [noteSum]

def FitsAmount (x : Int) : Prop := -2 ^ 63 ≤ x ∧ x < 2 ^ 63

instance (x : Int) : Decidable (FitsAmount x) := inferInstanceAs (Decidable (_ ∧ _))

namespace Ledger

def add (l : Ledger) : BuilderCall → Ledger
  | .addSaplingSpend expsk note _ _ _ => { l with spent := l.spent ++ [(expsk, note)] }
  | .addSaplingOutput ovk addr value _ _ =>
    { l with paid := l.paid ++ [⟨ovk, addr, value.toUInt64⟩] }
  | .addTransparentInput utxo _ value _ => { l with inputs := l.inputs ++ [(utxo, value)] }
  | .addTransparentOutput dest value =>
    { l with outs := l.outs ++ [⟨value, getScriptForDestination dest⟩] }
  | .setFee fee => { l with fee := fee }
  | .sendChangeToSapling changeAddr ovk => { l with changeTo := some (.sapling ovk changeAddr) }
  | .sendChangeTo changeAddr => { l with changeTo := some (.transparent changeAddr) }
  | .addOpRet s => { l with opRet := some s }

variable (l : Ledger)

def shielded : Int := noteSum (l.spent.map (·.2.value)) - noteSum (l.paid.map (·.value))

def paidIn : Int := amountSum (l.inputs.map (·.2))

def paidOut : Int := amountSum (l.outs.map (·.nValue))

def change : Int := l.shielded - l.fee.toInt + l.paidIn - l.paidOut

def changeTarget : Option ChangeTo :=
  l.changeTo.or (l.spent.head?.map fun s => .sapling s.1.ovk s.2.address)

def changePayments : List Payment :=
  if l.change = 0 then []
  else match l.changeTarget with
    | some (.sapling ovk addr) => [⟨ovk, addr, UInt64.ofNat l.change.toNat⟩]
    | _ => []

def changeOuts : List CTxOut :=
  if l.change = 0 then []
  else match l.changeTarget with
    | some (.transparent dest) => [⟨Int64.ofInt l.change, getScriptForDestination dest⟩]
    | _ => []

def opRetOuts : List CTxOut := l.opRet.toList.map fun s => ⟨0, s⟩

/-- **The sums that the builder forms are amounts**: the notes' balance, the change, and the
balance with the change as a note. -/
structure SumsFit : Prop where
  shielded : FitsAmount l.shielded
  change : FitsAmount l.change
  settled : FitsAmount (l.shielded - l.change)

end Ledger

/-- One call of a run with the ledger: a throw changes nothing and others may follow, a failed
assertion ends it. -/
def callStep (env : BuilderEnv) (s : TransactionBuilder × Ledger) (c : BuilderCall) :
    Except Fault (TransactionBuilder × Ledger) :=
  match s.1.call env c with
  | .ok (true, b) => .ok (b, s.2.add c)
  | .ok (false, b) => .ok (b, s.2)
  | .error (.exception _) => .ok s
  | .error f => .error f

/-! ### The builder follows the ledger -/

def OutputDescriptionInfo.payment (output : OutputDescriptionInfo) : Payment :=
  ⟨output.ovk, output.note.address, output.note.value⟩

def ChangeTo.fields : Option ChangeTo →
    Option (UInt256 × SaplingPaymentAddress) × Option TxDestination
  | none => (none, none)
  | some (.sapling ovk addr) => (some (ovk, addr), none)
  | some (.transparent dest) => (none, some dest)

/-- **The builder holds what the ledger says**, nothing described yet. -/
structure Tracks (b : TransactionBuilder) (l : Ledger) : Prop where
  balance : b.mtx.valueBalance = Int64.ofInt l.shielded
  spends : b.spends.map (fun s => (s.expsk, s.note)) = l.spent
  outputs : b.outputs.map (·.payment) = l.paid
  inputs : b.mtx.vin.map (·.prevout) = l.inputs.map (·.1)
  amounts : b.tIns.map (·.value) = l.inputs.map (·.2)
  vout : b.mtx.vout = l.outs
  fee : b.fee = l.fee
  changeTo : (b.zChangeAddr, b.tChangeAddr) = ChangeTo.fields l.changeTo
  opReturn : b.opReturn = l.opRet
  anchors : ∀ s ∈ b.spends, b.anchorFits s.anchor = true
  undescribed : b.mtx.vShieldedSpend = [] ∧ b.mtx.vShieldedOutput = []

/-- A builder as its constructors make it. -/
structure TransactionBuilder.Fresh (b : TransactionBuilder) : Prop where
  empty : b.spends = [] ∧ b.outputs = [] ∧ b.tIns = []
  vectors : b.alMerklePathPosition = [] ∧ b.asMerklePath = [] ∧ b.sOutputRecipients = []
  unchosen : b.fee = 10000 ∧ b.zChangeAddr = none ∧ b.tChangeAddr = none ∧ b.opReturn = none
  header : b.mtx.vin = [] ∧ b.mtx.vout = [] ∧ b.mtx.valueBalance = 0 ∧
    b.mtx.vShieldedSpend = [] ∧ b.mtx.vShieldedOutput = []

variable {b : TransactionBuilder}

theorem fresh_new {params : NetworkUpgrades} {expiryDelta : UInt32} {nHeight : Int32}
    {hasKeystore : Bool}
    (h : TransactionBuilder.new params expiryDelta nHeight hasKeystore = .ok b) : b.Fresh := by
  obtain ⟨mtx, hmtx, h⟩ := bind_eq_ok.mp h
  obtain ⟨branchId, -, h⟩ := bind_eq_ok.mp h
  obtain rfl := ok.inj h
  obtain ⟨isOverwintered, -, hmtx⟩ := bind_eq_ok.mp hmtx
  obtain ⟨isSapling, -, hmtx⟩ := bind_eq_ok.mp hmtx
  obtain rfl := ok.inj hmtx
  refine ⟨⟨rfl, rfl, rfl⟩, ⟨rfl, rfl, rfl⟩, ⟨rfl, rfl, rfl, rfl⟩, ?_⟩
  cases isOverwintered with
  | false => exact ⟨rfl, rfl, rfl, rfl, rfl⟩
  | true =>
    cases isSapling with
    | false => exact ⟨rfl, rfl, rfl, rfl, rfl⟩
    | true => exact ⟨rfl, rfl, rfl, rfl, rfl⟩

theorem fresh_offline (params : NetworkUpgrades) (hasKeystore fOverwintered : Bool)
    (nExpiryHeight nVersionGroupId : UInt32) (nVersion nBlockHeight : Int32) (branchId : UInt32)
    (cZip212Enabled : UInt8) :
    (TransactionBuilder.offline params hasKeystore fOverwintered nExpiryHeight nVersionGroupId
      nVersion nBlockHeight branchId cZip212Enabled).Fresh :=
  ⟨⟨rfl, rfl, rfl⟩, ⟨rfl, rfl, rfl⟩, ⟨rfl, rfl, rfl, rfl⟩, rfl, rfl, rfl, rfl, rfl⟩

theorem TransactionBuilder.Fresh.tracks (h : b.Fresh) : Tracks b {} := by
  obtain ⟨⟨hspends, houtputs, htIns⟩, -, ⟨hfee, hz, ht, hop⟩, hvin, hvout, hvalue, hdescribed⟩ := h
  constructor
  case balance => exact hvalue
  case spends => simp [hspends]
  case outputs => simp [houtputs]
  case inputs => simp [hvin]
  case amounts => simp [htIns]
  case vout => exact hvout
  case fee => exact hfee
  case changeTo => rw [hz, ht, ChangeTo.fields]
  case opReturn => exact hop
  case anchors => simp [hspends]
  case undescribed => exact hdescribed

theorem ofInt_add_value (x : Int) (v : UInt64) :
    Int64.ofInt x + v.toInt64 = Int64.ofInt (x + v.toNat) := by
  rw [toInt64_eq, Int64.ofInt_add]

theorem ofInt_sub_value (x : Int) (v : CAmount) :
    Int64.ofInt x - v = Int64.ofInt (x - v.toUInt64.toNat) := by
  rw [Int64.ofInt_sub, ← toInt64_eq]
  simp

variable {ok : Bool}

theorem map_true_eq_ok {α : Type} {x : Except Fault α} {a : α} :
    x.map (true, ·) = .ok (ok, a) ↔ ok = true ∧ x = .ok a := by
  cases x with
  | error f => simp [Except.map]
  | ok a' => simp [Except.map, eq_comm]

section Step

variable {env : BuilderEnv} {b b' : TransactionBuilder} {l : Ledger}

variable {path : MerklePathData}

theorem addSaplingSpend_ok {expsk : SaplingExpandedSpendingKey} {note : SaplingNote}
    {anchor alpha : UInt256} (h : b.addSaplingSpend expsk note anchor path alpha = .ok (ok, b')) :
    (ok = true ∧ b.anchorFits anchor = true ∧
        b' = b.pushSpend ⟨expsk, note, alpha, anchor⟩ path) ∨ (ok = false ∧ b' = b) := by
  obtain ⟨_, -, h⟩ := bind_eq_ok.mp h
  by_cases hfits : b.anchorFits anchor = true
  · rw [if_pos hfits] at h
    obtain ⟨hok, hb⟩ := mk.inj (Except.ok.inj h)
    exact .inl ⟨hok.symm, hfits, hb.symm⟩
  · rw [if_neg hfits] at h
    obtain ⟨hok, hb⟩ := mk.inj (Except.ok.inj h)
    exact .inr ⟨hok.symm, hb.symm⟩

variable {value : CAmount}

theorem addSaplingOutput_ok {ovk rseed : UInt256} {addr : SaplingPaymentAddress} {memo : Memo}
    (h : b.addSaplingOutput env ovk addr value memo rseed = .ok b') :
    ∃ zip212, b' = b.pushOutput ⟨ovk, .toAddress addr value.toUInt64 zip212 rseed, memo⟩
      value := by
  obtain ⟨_, -, h⟩ := bind_eq_ok.mp h
  obtain ⟨zip212, -, h⟩ := bind_eq_ok.mp h
  exact ⟨zip212, (ok.inj h).symm⟩

theorem anchorFits_pushSpend {spend : SpendDescriptionInfo}
    (hfits : b.anchorFits spend.anchor = true)
    (h : ∀ s ∈ b.spends, b.anchorFits s.anchor = true) :
    ∀ s ∈ (b.pushSpend spend path).spends, (b.pushSpend spend path).anchorFits s.anchor = true := by
  unfold TransactionBuilder.anchorFits TransactionBuilder.pushSpend at *
  cases hspends : b.spends with
  | nil => simp
  | cons first rest =>
    rw [hspends] at hfits h
    intro s hs
    rcases mem_append.mp hs with hs | hs
    · exact h s hs
    · rwa [mem_singleton.mp hs]

theorem Tracks.pushSpend {expsk : SaplingExpandedSpendingKey} {note : SaplingNote}
    {anchor alpha : UInt256} (ht : Tracks b l) (hfits : b.anchorFits anchor = true) :
    Tracks (b.pushSpend ⟨expsk, note, alpha, anchor⟩ path)
      (l.add (.addSaplingSpend expsk note anchor path alpha)) :=
  { ht with
    balance := by
      change b.mtx.valueBalance + note.value.toInt64 = _
      rw [ht.balance, ofInt_add_value]
      congr 1
      simp only [Ledger.shielded, Ledger.add, map_append, map_cons, map_nil,
        noteSum_append, noteSum_singleton]
      omega
    spends := by simp [TransactionBuilder.pushSpend, Ledger.add, ht.spends]
    anchors := anchorFits_pushSpend hfits ht.anchors }

theorem Tracks.pushOutput {ovk rseed : UInt256} {addr : SaplingPaymentAddress}
    {memo : Memo} {zip212 : Zip212Enabled} (ht : Tracks b l) :
    Tracks (b.pushOutput ⟨ovk, .toAddress addr value.toUInt64 zip212 rseed, memo⟩ value)
      (l.add (.addSaplingOutput ovk addr value memo rseed)) :=
  { ht with
    balance := by
      change b.mtx.valueBalance - value = _
      rw [ht.balance, ofInt_sub_value]
      congr 1
      simp only [Ledger.shielded, Ledger.add, map_append, map_cons, map_nil,
        noteSum_append, noteSum_singleton]
      omega
    outputs := by
      change (b.outputs ++ [_]).map OutputDescriptionInfo.payment = l.paid ++ [_]
      rw [map_append, ht.outputs]
      rfl }

theorem Tracks.pushTxOut {dest : TxDestination} (ht : Tracks b l) :
    Tracks (b.pushTxOut ⟨value, getScriptForDestination dest⟩)
      (l.add (.addTransparentOutput dest value)) :=
  { ht with vout := by simp [TransactionBuilder.pushTxOut, Ledger.add, ht.vout] }

/-- **A call that goes through is one of the ledger; another changes nothing.** -/
theorem Tracks.call {c : BuilderCall} (ht : Tracks b l) (h : b.call env c = .ok (ok, b')) :
    (ok = true ∧ Tracks b' (l.add c)) ∨ (ok = false ∧ b' = b) := by
  cases c with
  | addSaplingSpend expsk note anchor path alpha =>
    rcases addSaplingSpend_ok h with ⟨rfl, hfits, rfl⟩ | ⟨rfl, rfl⟩
    · exact .inl ⟨rfl, ht.pushSpend hfits⟩
    · exact .inr ⟨rfl, rfl⟩
  | addSaplingOutput ovk addr value memo rseed =>
    obtain ⟨rfl, hadd⟩ := map_true_eq_ok.mp h
    obtain ⟨zip212, rfl⟩ := addSaplingOutput_ok hadd
    exact .inl ⟨rfl, ht.pushOutput⟩
  | addTransparentInput utxo scriptPubKey value nSequence =>
    obtain ⟨rfl, hadd⟩ := map_true_eq_ok.mp h
    unfold TransactionBuilder.addTransparentInput at hadd
    split at hadd
    · obtain rfl := ok.inj hadd
      refine .inl ⟨rfl, { ht with inputs := ?_, amounts := ?_ }⟩
      · simp [Ledger.add, ht.inputs]
      · simp [Ledger.add, ht.amounts]
    · cases hadd
  | addTransparentOutput dest value =>
    have h := Except.ok.inj h
    unfold TransactionBuilder.addTransparentOutput at h
    split at h
    · obtain ⟨rfl, rfl⟩ := mk.inj h
      exact .inl ⟨rfl, ht.pushTxOut⟩
    · obtain ⟨rfl, rfl⟩ := mk.inj h
      exact .inr ⟨rfl, rfl⟩
  | setFee fee =>
    obtain ⟨rfl, rfl⟩ := mk.inj (Except.ok.inj h)
    exact .inl ⟨rfl, { ht with fee := rfl }⟩
  | sendChangeToSapling changeAddr ovk =>
    obtain ⟨rfl, rfl⟩ := mk.inj (Except.ok.inj h)
    exact .inl ⟨rfl, { ht with changeTo := rfl }⟩
  | sendChangeTo changeAddr =>
    have h := Except.ok.inj h
    unfold TransactionBuilder.sendChangeTo at h
    split at h
    · obtain ⟨rfl, rfl⟩ := mk.inj h
      exact .inl ⟨rfl, { ht with changeTo := rfl }⟩
    · obtain ⟨rfl, rfl⟩ := mk.inj h
      exact .inr ⟨rfl, rfl⟩
  | addOpRet s =>
    obtain ⟨rfl, rfl⟩ := mk.inj (Except.ok.inj h)
    exact .inl ⟨rfl, { ht with opReturn := rfl }⟩

end Step

theorem tracks_of_run {env : BuilderEnv} {calls : List BuilderCall}
    {s : TransactionBuilder × Ledger} (hfresh : b.Fresh)
    (hrun : calls.foldlM (callStep env) (b, {}) = .ok s) : Tracks s.1 s.2 := by
  have hall : AllMeet (callStep env) (fun _ _ => True) calls (b, {}) :=
    allMeet_iff.mpr fun _ _ _ _ _ _ => trivial
  refine hall.invariant (P := fun s => Tracks s.1 s.2) ?_ hfresh.tracks hrun
  intro c s s' _ ht hstep
  unfold callStep at hstep
  split at hstep
  · rename_i b' hcall
    obtain rfl := ok.inj hstep
    rcases ht.call hcall with ⟨-, ht'⟩ | ⟨hfalse, -⟩
    · exact ht'
    · cases hfalse
  · rename_i b' hcall
    obtain rfl := ok.inj hstep
    rcases ht.call hcall with ⟨htrue, -⟩ | ⟨-, rfl⟩
    · cases htrue
    · exact ht
  · obtain rfl := ok.inj hstep
    exact ht
  · cases hstep

/-! ### The change -/

theorem foldl_add_ofInt (vs : List CAmount) (x : Int) :
    vs.foldl (· + ·) (Int64.ofInt x) = Int64.ofInt (x + amountSum vs) := by
  induction vs generalizing x with
  | nil => simp
  | cons v vs ih =>
    rw [foldl_cons, ← Int64.ofInt_toInt v, ← Int64.ofInt_add, ih, Int64.ofInt_toInt,
      amountSum_cons, Int.add_assoc]

theorem foldl_sub_ofInt (vs : List CAmount) (x : Int) :
    vs.foldl (· - ·) (Int64.ofInt x) = Int64.ofInt (x - amountSum vs) := by
  induction vs generalizing x with
  | nil => simp
  | cons v vs ih =>
    rw [foldl_cons, ← Int64.ofInt_toInt v, ← Int64.ofInt_sub, ih, Int64.ofInt_toInt,
      amountSum_cons, Int.sub_sub]

theorem toInt_ofInt_of_fits {x : Int} (h : FitsAmount x) : (Int64.ofInt x).toInt = x :=
  Int64.toInt_ofInt_of_le h.1 h.2

theorem toUInt64_ofInt {x : Int} (hpos : 0 ≤ x) :
    (Int64.ofInt x).toUInt64 = UInt64.ofNat x.toNat := by
  obtain ⟨n, rfl⟩ := Int.eq_ofNat_of_zero_le hpos
  apply UInt64.toBitVec_inj.mp
  change (Int64.ofInt n).toBitVec = BitVec.ofNat 64 n
  simp

namespace Ledger

variable (l : Ledger)

def pay (amount : CAmount) : ChangeTo → Ledger
  | .sapling ovk addr => { l with paid := l.paid ++ [⟨ovk, addr, amount.toUInt64⟩] }
  | .transparent dest => { l with outs := l.outs ++ [⟨amount, getScriptForDestination dest⟩] }

def settle : Ledger := { l with paid := l.paid ++ l.changePayments, outs := l.outs ++ l.changeOuts }

theorem settle_balance {l : Ledger} (hpos : 0 ≤ l.change) (hfit : l.SumsFit)
    (htarget : l.change ≠ 0 → l.changeTarget.isSome) :
    l.settle.paidIn + l.settle.shielded - l.settle.paidOut = l.fee.toInt ∧
      FitsAmount l.settle.shielded := by
  have hchange : l.change = l.shielded - l.fee.toInt + l.paidIn - l.paidOut := rfl
  have hshielded : l.settle.shielded = l.shielded - noteSum (l.changePayments.map (·.value)) := by
    simp only [settle, shielded, map_append, noteSum_append]
    omega
  have hout : l.settle.paidOut = l.paidOut + amountSum (l.changeOuts.map (·.nValue)) := by
    simp [settle, paidOut, amountSum]
  have hin : l.settle.paidIn = l.paidIn := rfl
  rw [hshielded, hout, hin]
  unfold changePayments changeOuts
  by_cases hzero : l.change = 0
  · rw [if_pos hzero, if_pos hzero]
    refine ⟨?_, ?_⟩
    · simp only [map_nil, noteSum_nil, amountSum_nil]
      omega
    · simpa using hfit.shielded
  · rw [if_neg hzero, if_neg hzero]
    obtain ⟨target, ht⟩ := isSome_iff_exists.mp (htarget hzero)
    obtain ⟨hlow, hhigh⟩ := hfit.change
    rw [ht]
    cases target with
    | sapling ovk addr =>
      have hvalue : ((UInt64.ofNat l.change.toNat).toNat : Int) = l.change := by
        rw [UInt64.toNat_ofNat_of_lt' (by rw [UInt64.size]; omega)]
        omega
      simp only [map_cons, map_nil, noteSum_singleton, amountSum_nil, hvalue]
      exact ⟨by omega, hfit.settled⟩
    | transparent dest =>
      simp only [map_cons, map_nil, noteSum_nil, amountSum_cons, amountSum_nil,
        toInt_ofInt_of_fits hfit.change]
      refine ⟨by omega, ?_⟩
      rw [Int.sub_zero]
      exact hfit.shielded

end Ledger

section Change

variable {env : BuilderEnv} {b b' : TransactionBuilder} {l : Ledger}

theorem Tracks.change_eq (ht : Tracks b l) : b.change = Int64.ofInt l.change := by
  have hamounts := ht.amounts
  rw [TransactionBuilder.change, hamounts, ht.vout, ht.balance, ht.fee,
    ← Int64.ofInt_toInt l.fee, ← Int64.ofInt_sub, foldl_add_ofInt, foldl_sub_ofInt]
  rfl

theorem Tracks.addChange {change : CAmount} {rseed : UInt256} (ht : Tracks b l)
    (h : b.addChange env change rseed = .ok b') :
    ∃ target, l.changeTarget = some target ∧ Tracks b' (l.pay change target) := by
  have hfields := ht.changeTo
  unfold TransactionBuilder.addChange at h
  cases hto : l.changeTo with
  | some target =>
    rw [hto] at hfields
    refine ⟨target, by rw [Ledger.changeTarget, hto, some_or], ?_⟩
    cases target with
    | sapling ovk addr =>
      obtain ⟨hz, -⟩ := mk.inj hfields
      rw [hz] at h
      obtain ⟨zip212, rfl⟩ := addSaplingOutput_ok (liftFault_eq_ok.mp h)
      exact ht.pushOutput
    | transparent dest =>
      obtain ⟨hz, hdest⟩ := mk.inj hfields
      rw [hz, hdest] at h
      obtain ⟨_, hvalid, h⟩ := bind_eq_ok.mp h
      obtain rfl := ok.inj h
      have hvalid := assertThat_eq_ok.mp (liftFault_eq_ok.mp hvalid)
      unfold TransactionBuilder.addTransparentOutput at hvalid ⊢
      split at hvalid
      · rename_i hdest
        rw [if_pos hdest]
        exact ht.pushTxOut
      · cases hvalid
  | none =>
    rw [hto] at hfields
    obtain ⟨hz, hdest⟩ := mk.inj hfields
    rw [hz, hdest] at h
    have hspent := ht.spends
    cases hspends : b.spends with
    | nil =>
      rw [hspends] at h
      cases h
    | cons spend rest =>
      rw [hspends] at h hspent
      obtain ⟨zip212, rfl⟩ := addSaplingOutput_ok (liftFault_eq_ok.mp h)
      refine ⟨.sapling spend.expsk.ovk spend.note.address, ?_, ht.pushOutput⟩
      rw [Ledger.changeTarget, hto, ← hspent]
      rfl

theorem Tracks.settleChange {rseed : UInt256} (ht : Tracks b l) (hfit : l.SumsFit)
    (h : b.settleChange env rseed = .ok b') :
    0 ≤ l.change ∧ (l.change ≠ 0 → l.changeTarget.isSome) ∧ Tracks b' l.settle := by
  unfold TransactionBuilder.settleChange at h
  have hchange : b.change.toInt = l.change := by
    rw [ht.change_eq, toInt_ofInt_of_fits hfit.change]
  split at h
  · cases h
  · rename_i hnonneg
    have hpos : 0 ≤ l.change := by
      rw [← hchange]
      exact Int64.le_iff_toInt_le.mp (Int64.not_lt.mp hnonneg)
    split at h
    · rename_i hlt
      have hne : l.change ≠ 0 := by
        rw [← hchange]
        exact (Int64.lt_iff_toInt_lt.mp hlt).ne'
      obtain ⟨target, htarget, htracks⟩ := ht.addChange h
      refine ⟨hpos, fun _ => by rw [htarget]; rfl, ?_⟩
      rw [ht.change_eq] at htracks
      unfold Ledger.settle Ledger.changePayments Ledger.changeOuts
      rw [if_neg hne, if_neg hne, htarget]
      cases target with
      | sapling ovk addr =>
        rw [Ledger.pay, toUInt64_ofInt hpos] at htracks
        simpa using htracks
      | transparent dest => simpa [Ledger.pay] using htracks
    · rename_i hnpos
      obtain rfl := ok.inj h
      have hzero : l.change = 0 := by
        have := Int64.le_iff_toInt_le.mp (Int64.not_lt.mp hnpos)
        rw [hchange, Int64.toInt_zero] at this
        omega
      refine ⟨hpos, fun hne => absurd hzero hne, ?_⟩
      unfold Ledger.settle Ledger.changePayments Ledger.changeOuts
      simpa [hzero] using ht

end Change

/-! ### The transaction -/

def DescribesSpend (env : BuilderEnv) (sdesc : SpendDescription) (spend : SpendDescriptionInfo) :
    Prop :=
  sdesc.anchor = spend.anchor ∧
    ∃ position, spend.note.nullifier env (spend.expsk.fullViewingKey env) position =
      some sdesc.nullifier

/-- An output's description: the commitment of its note. -/
def DescribesOutput (env : BuilderEnv) (odesc : OutputDescription)
    (output : OutputDescriptionInfo) : Prop :=
  output.note.cmu env = some odesc.cmu

variable {spends : List SpendDescriptionInfo} {sdescs : List SpendDescription}

section Descriptions

variable {env : BuilderEnv}

variable {i : Nat}

theorem describesSpend_of_build {spend : SpendDescriptionInfo} {position : UInt64}
    {path : MerkleBytes} {sdesc : SpendDescription}
    (h : spend.build env i position path = .ok sdesc) : DescribesSpend env sdesc spend := by
  obtain ⟨_, -, h⟩ := bind_eq_ok.mp h
  obtain ⟨nf, hnf, h⟩ := bind_eq_ok.mp h
  obtain ⟨proof, -, h⟩ := bind_eq_ok.mp h
  obtain rfl := ok.inj h
  exact ⟨rfl, position, orStop_eq_ok.mp hnf⟩

theorem forall₂_buildSpends {positions : List UInt64} {paths : List MerkleBytes}
    (h : buildSpends env i spends positions paths = .ok sdescs) :
    Forall₂ (DescribesSpend env) sdescs spends := by
  induction i, spends, positions, paths using buildSpends.induct generalizing sdescs with
  | case1 i spend spends position positions path paths ih =>
    obtain ⟨sdesc, hsdesc, h⟩ := bind_eq_ok.mp h
    obtain ⟨rest, hrest, h⟩ := bind_eq_ok.mp h
    obtain rfl := ok.inj h
    exact .cons (describesSpend_of_build hsdesc) (ih hrest)
  | case2 =>
    obtain rfl := ok.inj h
    exact .nil
  | case3 i spend spends positions paths hshort =>
    rw [buildSpends] at h
    · cases h
    · exact hshort

theorem describesOutput_of_describe {output : OutputDescriptionInfo}
    {odesc : OutputDescription} (h : output.describe env i = some odesc) :
    DescribesOutput env odesc output := by
  obtain ⟨cmu, hcmu, h⟩ := bind_eq_some_iff.mp h
  obtain ⟨keys, -, h⟩ := bind_eq_some_iff.mp h
  obtain ⟨proof, -, h⟩ := bind_eq_some_iff.mp h
  obtain rfl := some.inj h
  exact hcmu

theorem forall₂_buildOutputs {outputs : List OutputDescriptionInfo}
    {odescs : List OutputDescription} (h : buildOutputs env i outputs = .ok odescs) :
    Forall₂ (DescribesOutput env) odescs outputs := by
  induction outputs generalizing i odescs with
  | nil =>
    obtain rfl := ok.inj h
    exact .nil
  | cons output outputs ih =>
    obtain ⟨_, -, h⟩ := bind_eq_ok.mp h
    obtain ⟨odesc, hodesc, h⟩ := bind_eq_ok.mp h
    obtain ⟨rest, hrest, h⟩ := bind_eq_ok.mp h
    obtain rfl := ok.inj h
    exact .cons (describesOutput_of_describe (orStop_eq_ok.mp hodesc)) (ih hrest)

theorem forall₂_signSpends {dataToBeSigned : UInt256}
    (h : Forall₂ (DescribesSpend env) sdescs spends) :
    Forall₂ (DescribesSpend env) (signSpends env dataToBeSigned spends sdescs) spends := by
  induction h with
  | nil => exact .nil
  | cons hhead _ ih => exact .cons hhead ih

theorem signInputs_prevouts {txNewConst : CMutableTransaction} {branchId : UInt32} {nIn : Nat}
    {vin vin' : List CTxIn} {tIns : List TransparentInputInfo}
    (h : signInputs env txNewConst branchId nIn vin tIns = .ok vin') :
    vin'.map (·.prevout) = vin.map (·.prevout) := by
  induction vin generalizing nIn tIns vin' with
  | nil =>
    obtain rfl := ok.inj h
    rfl
  | cons txin vin ih =>
    cases tIns with
    | nil => cases h
    | cons tIn tIns =>
      obtain ⟨scriptSig, -, h⟩ := bind_eq_ok.mp h
      obtain ⟨rest, hrest, h⟩ := bind_eq_ok.mp h
      obtain rfl := ok.inj h
      exact congrArg (txin.prevout :: ·) (ih hrest)

end Descriptions

/-- **What a transaction carries of a ledger**: a description for each note spent or paid, change
included, and the inputs and outputs. -/
structure Carries (env : BuilderEnv) (l : Ledger) (tx : CTransaction) (b : TransactionBuilder) :
    Prop where
  spends : Forall₂ (DescribesSpend env) tx.vShieldedSpend b.spends
  outputs : Forall₂ (DescribesOutput env) tx.vShieldedOutput b.outputs
  spent : b.spends.map (fun s => (s.expsk, s.note)) = l.spent
  paid : b.outputs.map (·.payment) = l.paid ++ l.changePayments
  inputs : tx.vin.map (·.prevout) = l.inputs.map (·.1)
  outs : tx.vout = l.outs ++ l.changeOuts ++ l.opRetOuts

section Build

variable {env : BuilderEnv} {b b' : TransactionBuilder} {l : Ledger} {rseed : UInt256}
  {tx : CTransaction}

theorem describe_ok (h : b.describe env = .ok b')
    (hnone : b.mtx.vShieldedSpend = [] ∧ b.mtx.vShieldedOutput = []) :
    b'.spends = b.spends ∧ b'.outputs = b.outputs ∧
      b'.mtx.valueBalance = b.mtx.valueBalance ∧ b'.mtx.vin = b.mtx.vin ∧
      b'.mtx.vout = b.mtx.vout ++ (b.opReturn.toList.map fun s => ⟨0, s⟩) ∧
      Forall₂ (DescribesSpend env) b'.mtx.vShieldedSpend b.spends ∧
      Forall₂ (DescribesOutput env) b'.mtx.vShieldedOutput b.outputs := by
  obtain ⟨sdescs, hsdescs, h⟩ := bind_eq_ok.mp h
  obtain ⟨odescs, hodescs, h⟩ := bind_eq_ok.mp h
  obtain rfl := ok.inj h
  have hspends := forall₂_buildSpends hsdescs
  have houtputs := forall₂_buildOutputs hodescs
  unfold TransactionBuilder.addOpRetLast TransactionBuilder.pushTxOut
  dsimp only
  rw [hnone.1, hnone.2]
  cases b.opReturn with
  | none => exact ⟨rfl, rfl, rfl, rfl, (append_nil _).symm, hspends, houtputs⟩
  | some s => exact ⟨rfl, rfl, rfl, rfl, rfl, hspends, houtputs⟩

theorem sign_ok (h : b.sign env = .ok b') : b'.spends = b.spends ∧ b'.outputs = b.outputs ∧
      b'.mtx.valueBalance = b.mtx.valueBalance ∧
      b'.mtx.vin.map (·.prevout) = b.mtx.vin.map (·.prevout) ∧ b'.mtx.vout = b.mtx.vout ∧
      b'.mtx.vShieldedOutput = b.mtx.vShieldedOutput ∧
      ∃ dataToBeSigned, b'.mtx.vShieldedSpend =
        signSpends env dataToBeSigned b.spends b.mtx.vShieldedSpend := by
  obtain ⟨dataToBeSigned, -, h⟩ := bind_eq_ok.mp h
  obtain ⟨vin, hvin, h⟩ := bind_eq_ok.mp h
  obtain rfl := ok.inj h
  exact ⟨rfl, rfl, rfl, signInputs_prevouts hvin, rfl, rfl, dataToBeSigned, rfl⟩

theorem build_ok (h : b.build env rseed = .ok (tx, b')) :
    ∃ b₁ b₂, b.settleChange env rseed = .ok b₁ ∧ b₁.describe env = .ok b₂ ∧
      b₂.sign env = .ok b' ∧ tx = b'.mtx.toTransaction env := by
  obtain ⟨b₁, hsettle, h⟩ := bind_eq_ok.mp h
  obtain ⟨b₂, hdescribe, h⟩ := bind_eq_ok.mp h
  obtain ⟨b₃, hsign, h⟩ := bind_eq_ok.mp h
  obtain ⟨rfl, rfl⟩ := mk.inj (ok.inj h)
  exact ⟨b₁, b₂, hsettle, hdescribe, hsign, rfl⟩

theorem anchor_of_describes {anchor : UInt256} (h : Forall₂ (DescribesSpend env) sdescs spends)
    (hanchors : ∀ s ∈ spends, s.anchor = anchor) : ∀ sdesc ∈ sdescs, sdesc.anchor = anchor := by
  induction h with
  | nil => simp
  | cons hhead _ ih =>
    obtain ⟨hfirst, hrest⟩ := forall_mem_cons.mp hanchors
    exact forall_mem_cons.mpr ⟨hhead.1.trans hfirst, ih hrest⟩

theorem Tracks.exists_anchor (ht : Tracks b l) : ∃ anchor, ∀ s ∈ b.spends, s.anchor = anchor := by
  have hanchors := ht.anchors
  unfold TransactionBuilder.anchorFits at hanchors
  cases hspends : b.spends with
  | nil => exact ⟨0, by simp⟩
  | cons first rest =>
    rw [hspends] at hanchors
    exact ⟨first.anchor, fun s hs => (eq_of_beq (hanchors s hs)).symm⟩

/-- **Every transaction of `Build` balances**, after any calls of a fresh builder whose sums are
amounts, and carries what the calls asked for, with the change once. -/
theorem build_balance {b₀ : TransactionBuilder} {calls : List BuilderCall} (hfresh : b₀.Fresh)
    (hrun : calls.foldlM (callStep env) (b₀, {}) = .ok (b, l)) (hfit : l.SumsFit)
    (hbuild : b.build env rseed = .ok (tx, b')) :
    tx.valueBalance.toInt =
        noteSum (b'.spends.map (·.note.value)) - noteSum (b'.outputs.map (·.note.value)) ∧
      (∃ anchor, ∀ sdesc ∈ tx.vShieldedSpend, sdesc.anchor = anchor) ∧
      l.paidIn + tx.valueBalance.toInt - tx.transparentOut = l.fee.toInt ∧
      Carries env l tx b' := by
  obtain ⟨b₁, b₂, hsettle, hdescribe, hsign, rfl⟩ := build_ok hbuild
  obtain ⟨hpos, htarget, ht⟩ := (tracks_of_run hfresh hrun).settleChange hfit hsettle
  obtain ⟨hbalances, hfits⟩ := Ledger.settle_balance hpos hfit htarget
  obtain ⟨hspends, houtputs, hbalance, hvin, hvout, hdescSpends, hdescOutputs⟩ :=
    describe_ok hdescribe ht.undescribed
  obtain ⟨hspends', houtputs', hbalance', hvin', hvout', hsame, dataToBeSigned, hsigned⟩ :=
    sign_ok hsign
  have hspends : b'.spends = b₁.spends := hspends'.trans hspends
  have houtputs : b'.outputs = b₁.outputs := houtputs'.trans houtputs
  have hdescSpends : Forall₂ (DescribesSpend env) b'.mtx.vShieldedSpend b'.spends := by
    rw [hsigned, hspends']
    exact forall₂_signSpends (hspends'.symm.trans hspends ▸ hdescSpends)
  have hdescNotes : Forall₂ (DescribesOutput env) b'.mtx.vShieldedOutput b'.outputs := by
    rwa [hsame, houtputs]
  have hvalue : b'.mtx.valueBalance.toInt = l.settle.shielded := by
    rw [hbalance', hbalance, ht.balance, toInt_ofInt_of_fits hfits]
  have hvout : b'.mtx.vout = l.settle.outs ++ l.opRetOuts := by
    rw [hvout', hvout, ht.vout, ht.opReturn]
    rfl
  have hspent : l.settle.spent.map (·.2.value) = b'.spends.map (·.note.value) := by
    rw [← ht.spends, hspends, List.map_map]
    rfl
  have hpaid : l.settle.paid.map (·.value) = b'.outputs.map (·.note.value) := by
    rw [← ht.outputs, houtputs, List.map_map]
    rfl
  have hout : (b'.mtx.toTransaction env).transparentOut = l.settle.paidOut := by
    change amountSum (b'.mtx.vout.map CTxOut.nValue) = _
    rw [hvout, Ledger.paidOut, Ledger.opRetOuts]
    cases l.opRet with
    | none => simp
    | some s => simp [amountSum]
  refine ⟨?_, ?_, ?_, ?_⟩
  · change b'.mtx.valueBalance.toInt = _
    rw [hvalue, Ledger.shielded, hspent, hpaid]
  · obtain ⟨anchor, hanchor⟩ := ht.exists_anchor
    exact ⟨anchor, anchor_of_describes hdescSpends (hspends ▸ hanchor)⟩
  · rw [hout]
    change _ + b'.mtx.valueBalance.toInt - _ = _
    rwa [hvalue]
  · exact {
      spends := hdescSpends
      outputs := hdescNotes
      spent := hspends ▸ ht.spends
      paid := houtputs ▸ ht.outputs
      inputs := (hvin'.trans (hvin ▸ rfl)).trans ht.inputs
      outs := hvout }

end Build

def plainEnv : BuilderEnv where
  nMaxConnections := 0
  askToAk ask := ask + 1
  nskToNk nsk := nsk + 2
  prfRcm rseed := rseed + 3
  computeCmu _ pkD value rcm := some (pkD + BitVec.ofNat 256 value.toNat + rcm)
  computeNf _ pkD _ rcm _ nk position := some (pkD + rcm + nk + BitVec.ofNat 256 position.toNat)
  spendProof i _ _ _ _ _ _ _ _ := some (BitVec.ofNat 256 i, 0, [])
  encrypt _ _ _ := some (0, 0)
  outputProof i _ _ _ _ := some (BitVec.ofNat 256 i, [])
  signatureHash _ _ := .ok 0
  spendSig _ _ _ := nullSignature
  bindingSig _ _ := nullSignature
  produceSignature _ _ _ _ _ := some []
  isPayToCryptoCondition _ := false
  getHash _ := 0

def mixedCalls : List BuilderCall :=
  [.addSaplingSpend ⟨1, 2, 3⟩ ⟨Vector.replicate 11 0, 4, 100000, 5, .beforeZip212⟩ 7
      ⟨Vector.replicate 1065 0, 0⟩ 6,
    .addSaplingOutput 3 ⟨Vector.replicate 11 1, 8⟩ 30000 (Vector.replicate 512 0) 9,
    .addTransparentOutput (.keyID 5) 20000, .setFee 1000, .sendChangeTo (.keyID 9)]

theorem build_balance_mixed : ∃ b l tx b', mixedCalls.foldlM (callStep plainEnv)
        (.offline (fun _ => -1) false true 0 0x892f2085 4 100 0 0, {}) = .ok (b, l) ∧
      b.build plainEnv 0 = .ok (tx, b') ∧ l.change = 49000 ∧
      l.paidIn + tx.valueBalance.toInt - tx.transparentOut = l.fee.toInt := by
  obtain ⟨b, l, tx, b', hrun, hbuild, hfit, hchange⟩ : ∃ b l tx b',
      mixedCalls.foldlM (callStep plainEnv)
        (.offline (fun _ => -1) false true 0 0x892f2085 4 100 0 0, {}) = .ok (b, l) ∧
      b.build plainEnv 0 = .ok (tx, b') ∧ l.SumsFit ∧ l.change = 49000 :=
    ⟨_, _, _, _, rfl, rfl, ⟨by decide, by decide, by decide⟩, by decide⟩
  have hbalance := build_balance (fresh_offline _ _ _ _ _ _ _ _ _) hrun hfit hbuild
  exact ⟨b, l, tx, b', hrun, hbuild, hchange, hbalance.2.2.1⟩

end Elosys
