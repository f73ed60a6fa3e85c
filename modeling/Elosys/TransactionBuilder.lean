import Elosys.Amounts
import Elosys.ByteCodec
import Elosys.ContextualCheck

/-!
# The Transaction Builder

`TransactionBuilder` collects Sapling spends and outputs, transparent inputs and outputs, a fee and
a change address, and `Build` turns them into a signed transaction. The Sapling library, random
numbers and transparent signing are outside code (`BuilderEnv`).
-/

open ByteCodec

namespace Elosys

/-! ### Notes and keys -/

inductive Zip212Enabled where
  | beforeZip212
  | afterZip212
  deriving DecidableEq

/-- A `diversifier_t`: `ZC_DIVERSIFIER_SIZE` bytes. -/
abbrev Diversifier := Vector UInt8 11

/-- The memo of an output: `ZC_MEMO_SIZE` bytes. -/
abbrev Memo := Vector UInt8 512

/-- A `myCharArray_s`: a serialised Merkle path of `SAPLING_TREE_DEPTH`. -/
abbrev MerkleBytes := Vector UInt8 1065

structure SaplingPaymentAddress where
  d : Diversifier
  pkD : UInt256
  deriving DecidableEq

/-- `libzcash::SaplingNote`; the private `rseed` is read through `rcm`. -/
structure SaplingNote where
  d : Diversifier
  pkD : UInt256
  value : UInt64
  rseed : UInt256
  zip212Enabled : Zip212Enabled
  deriving DecidableEq

/-- The constructor of a note; the seed is random. -/
def SaplingNote.toAddress (address : SaplingPaymentAddress) (value : UInt64)
    (zip212Enabled : Zip212Enabled) (rseed : UInt256) : SaplingNote where
  d := address.d
  pkD := address.pkD
  value := value
  rseed := rseed
  zip212Enabled := zip212Enabled

def SaplingNote.address (note : SaplingNote) : SaplingPaymentAddress := ⟨note.d, note.pkD⟩

structure SaplingFullViewingKey where
  ak : UInt256
  nk : UInt256
  ovk : UInt256
  deriving DecidableEq

structure SaplingExpandedSpendingKey where
  ask : UInt256
  nsk : UInt256
  ovk : UInt256
  deriving DecidableEq

/-- What is read of a `libzcash::MerklePath`: bytes and position. -/
structure MerklePathData where
  bytes : MerkleBytes
  position : UInt64
  deriving DecidableEq

/-- `CTxDestination`. -/
inductive TxDestination where
  | noDestination
  | pubKey (key : List UInt8)
  | keyID (id : BitVec 160)
  | scriptID (id : BitVec 160)
  deriving DecidableEq

def isValidDestination : TxDestination → Bool
  | .noDestination => false
  | _ => true

/-- `CScript::operator<<`: the shortest push. -/
def CScript.push (b : List UInt8) : CScript :=
  if b.length < 0x4c then UInt8.ofNat b.length :: b
  else if b.length ≤ 0xff then 0x4c :: UInt8.ofNat b.length :: b
  else if b.length ≤ 0xffff then 0x4d :: (leBytes 2 b.length ++ b)
  else 0x4e :: (leBytes 4 b.length ++ b)

def getScriptForDestination : TxDestination → CScript
  | .noDestination => []
  | .pubKey key => CScript.push key ++ [0xac]
  | .keyID id => [0x76, 0xa9] ++ CScript.push (leBytes 20 id.toNat) ++ [0x88, 0xac]
  | .scriptID id => [0xa9] ++ CScript.push (leBytes 20 id.toNat) ++ [0x87]

/-! ### Outside code -/

/-- The `CMutableTransaction` under construction, without JoinSplits. -/
structure CMutableTransaction where
  fOverwintered : Bool := false
  nVersion : Int32 := 1
  nVersionGroupId : UInt32 := 0
  vin : List CTxIn := []
  vout : List CTxOut := []
  nLockTime : UInt32 := 0
  nExpiryHeight : UInt32 := 0
  valueBalance : CAmount := 0
  vShieldedSpend : List SpendDescription := []
  vShieldedOutput : List OutputDescription := []
  bindingSig : List UInt8 := nullSignature
  deriving DecidableEq

/-- What the builder calls; a proof, with context and randomness, is told apart by index. -/
structure BuilderEnv where
  /-- `nMaxConnections`: an offline wallet has none. -/
  nMaxConnections : Int
  askToAk : UInt256 → UInt256
  nskToNk : UInt256 → UInt256
  prfRcm : UInt256 → UInt256
  /-- `librustzcash_sapling_compute_cmu`: diversifier, `pk_d`, value, `rcm`. -/
  computeCmu : Diversifier → UInt256 → UInt64 → UInt256 → Option UInt256
  /-- `librustzcash_sapling_compute_nf`: keys and position. -/
  computeNf : Diversifier → UInt256 → UInt64 → UInt256 → UInt256 → UInt256 → UInt64 →
    Option UInt256
  /-- `librustzcash_sapling_spend_proof`: gives `cv`, `rk` and the proof. -/
  spendProof : Nat → UInt256 → UInt256 → Diversifier → UInt256 → UInt256 → UInt64 → UInt256 →
    MerkleBytes → Option (UInt256 × UInt256 × GrothProof)
  /-- `SaplingNotePlaintext::encrypt`: the ephemeral keys `esk` and `epk`. -/
  encrypt : Nat → SaplingNote → Memo → Option (UInt256 × UInt256)
  /-- `librustzcash_sapling_output_proof`: gives `cv` and the proof. -/
  outputProof : Nat → UInt256 → SaplingPaymentAddress → UInt256 → UInt64 →
    Option (UInt256 × GrothProof)
  /-- `SignatureHash` for no input; may throw a `logic_error`. -/
  signatureHash : CMutableTransaction → UInt32 → Except String UInt256
  /-- `librustzcash_sapling_spend_sig`: `ask`, `alpha` and the hash. -/
  spendSig : UInt256 → UInt256 → UInt256 → List UInt8
  /-- `librustzcash_sapling_binding_sig`: the balance and the hash. -/
  bindingSig : CAmount → UInt256 → List UInt8
  /-- `ProduceSignature` for an input's index, amount and script. -/
  produceSignature : CMutableTransaction → Nat → CAmount → CScript → UInt32 → Option CScript
  isPayToCryptoCondition : CScript → Bool
  getHash : CMutableTransaction → UInt256

def CMutableTransaction.toTransaction (env : BuilderEnv) (mtx : CMutableTransaction) :
    CTransaction where
  hash := env.getHash mtx
  fOverwintered := mtx.fOverwintered
  nVersion := mtx.nVersion.toInt
  nVersionGroupId := mtx.nVersionGroupId.toNat
  vin := mtx.vin
  vout := mtx.vout
  nLockTime := mtx.nLockTime.toNat
  nExpiryHeight := mtx.nExpiryHeight.toNat
  valueBalance := mtx.valueBalance
  vShieldedSpend := mtx.vShieldedSpend
  vShieldedOutput := mtx.vShieldedOutput
  bindingSig := mtx.bindingSig

section Keys

variable (env : BuilderEnv)

def SaplingExpandedSpendingKey.fullViewingKey (expsk : SaplingExpandedSpendingKey) :
    SaplingFullViewingKey :=
  ⟨env.askToAk expsk.ask, env.nskToNk expsk.nsk, expsk.ovk⟩

def SaplingNote.rcm (note : SaplingNote) : UInt256 :=
  match note.zip212Enabled with
  | .afterZip212 => env.prfRcm note.rseed
  | .beforeZip212 => note.rseed

def SaplingNote.cmu (note : SaplingNote) : Option UInt256 :=
  env.computeCmu note.d note.pkD note.value (note.rcm env)

def SaplingNote.nullifier (note : SaplingNote) (vk : SaplingFullViewingKey)
    (position : UInt64) : Option UInt256 :=
  env.computeNf note.d note.pkD note.value (note.rcm env) vk.ak vk.nk position

end Keys

/-! ### The state of a builder -/

/-- The heights of `Consensus::Params`; -1 disables an upgrade. -/
abbrev NetworkUpgrades := UpgradeIndex → Int

variable (params : NetworkUpgrades)

/-- `NetworkUpgradeActive`, asserting a height not negative. -/
def NetworkUpgrades.active (nHeight : Int32) (idx : UpgradeIndex) : Except Fault Bool :=
  if nHeight < 0 then .error (.assertion "nHeight >= 0")
  else .ok (params idx ≠ -1 && decide (params idx ≤ nHeight.toInt))

def NetworkUpgrades.currentEpochBranchId (nHeight : Int32) : Except Fault UInt32 :=
  if nHeight < 0 then .error (.assertion "nHeight >= 0")
  else .ok (UInt32.ofNat ((UpgradeIndex.latestFirst.find? fun idx =>
    params idx ≠ -1 && decide (params idx ≤ nHeight.toInt)).getD .baseSprout).nBranchId)

def createNewContextualCMutableTransaction (expiryDelta : UInt32)
    (nHeight : Int32) : Except Fault CMutableTransaction := do
  let isOverwintered ← params.active nHeight .upgradeOverwinter
  let isSapling ← params.active nHeight .upgradeSapling
  let nExpiryHeight := nHeight.toUInt32 + expiryDelta
  .ok (if isOverwintered then
      if isSapling then
        { fOverwintered := true
          nVersion := 4
          nVersionGroupId := 0x892f2085
          nExpiryHeight := nExpiryHeight }
      else
        { fOverwintered := true
          nVersion := 3
          nVersionGroupId := 0x03c48270
          nExpiryHeight := min nExpiryHeight
            (UInt32.ofInt (params .upgradeSapling - 1)) }
    else {})

/-- `SpendDescriptionInfo`; `alpha` is drawn with it. -/
structure SpendDescriptionInfo where
  expsk : SaplingExpandedSpendingKey
  note : SaplingNote
  alpha : UInt256
  anchor : UInt256
  deriving DecidableEq

structure OutputDescriptionInfo where
  ovk : UInt256
  note : SaplingNote
  memo : Memo
  deriving DecidableEq

structure TransparentInputInfo where
  scriptPubKey : CScript
  value : CAmount
  deriving DecidableEq

/-- The state of a `TransactionBuilder`. The key store is there or not; the offline builder's
fields come before the change. -/
structure TransactionBuilder where
  consensusParams : NetworkUpgrades
  nHeight : Int32 := 0
  hasKeystore : Bool := false
  mtx : CMutableTransaction := {}
  fee : CAmount := 10000
  iMinConf : Int32 := 1
  consensusBranchId : UInt32 := 0
  cZip212Enabled : UInt8 := 0
  spends : List SpendDescriptionInfo := []
  alMerklePathPosition : List UInt64 := []
  asMerklePath : List MerkleBytes := []
  outputs : List OutputDescriptionInfo := []
  tIns : List TransparentInputInfo := []
  fromAddress : List UInt8 := []
  sOutputRecipients : List (List UInt8) := []
  zChangeAddr : Option (UInt256 × SaplingPaymentAddress) := none
  tChangeAddr : Option TxDestination := none
  opReturn : Option CScript := none

namespace TransactionBuilder

def new (consensusParams : NetworkUpgrades) (expiryDelta : UInt32) (nHeight : Int32)
    (hasKeystore : Bool) : Except Fault TransactionBuilder := do
  let mtx ← createNewContextualCMutableTransaction consensusParams expiryDelta nHeight
  let consensusBranchId ← consensusParams.currentEpochBranchId nHeight
  .ok { consensusParams, nHeight, hasKeystore, mtx, consensusBranchId }

/-- The offline constructor; consensus parameters and key store are not initialised. -/
def offline (consensusParams : NetworkUpgrades) (hasKeystore fOverwintered : Bool)
    (nExpiryHeight nVersionGroupId : UInt32) (nVersion nBlockHeight : Int32)
    (branchId : UInt32) (cZip212Enabled : UInt8) : TransactionBuilder where
  consensusParams := consensusParams
  nHeight := nBlockHeight
  hasKeystore := hasKeystore
  mtx :=
    { fOverwintered := fOverwintered
      nVersion := nVersion
      nVersionGroupId := nVersionGroupId
      nExpiryHeight := nExpiryHeight }
  consensusBranchId := branchId
  cZip212Enabled := cZip212Enabled

def saplingTxVersion : Int32 := 4

variable (env : BuilderEnv) (b : TransactionBuilder)

/-! ### The calls -/

def requireSapling (what : String) : Except Fault Unit :=
  if b.mtx.nVersion < saplingTxVersion then
    .error (.exception
      ("TransactionBuilder cannot add Sapling " ++ what ++ " to pre-Sapling transaction"))
  else .ok ()

/-- Whether the spends, by the first, have this anchor. -/
def anchorFits (anchor : UInt256) : Bool :=
  match b.spends with
  | [] => true
  | spend :: _ => spend.anchor == anchor

/-- The spend with its path, and its value in the balance. -/
def pushSpend (spend : SpendDescriptionInfo) (path : MerklePathData) : TransactionBuilder :=
  { b with
    spends := b.spends ++ [spend]
    asMerklePath := b.asMerklePath ++ [path.bytes]
    alMerklePathPosition := b.alMerklePathPosition ++ [path.position]
    mtx := { b.mtx with valueBalance := b.mtx.valueBalance + spend.note.value.toInt64 } }

/-- `AddSaplingSpend`: false for another anchor than before. -/
def addSaplingSpend (expsk : SaplingExpandedSpendingKey) (note : SaplingNote)
    (anchor : UInt256) (path : MerklePathData) (alpha : UInt256) :
    Except Fault (Bool × TransactionBuilder) := do
  b.requireSapling "spend"
  .ok (if b.anchorFits anchor then (true, b.pushSpend ⟨expsk, note, alpha, anchor⟩ path)
    else (false, b))

/-- Which notes `AddSaplingOutput` makes: by the upgrades online, as told offline. -/
def outputZip212 : Except Fault Zip212Enabled :=
  if 0 < env.nMaxConnections then do
    let active ← b.consensusParams.active (b.nHeight + 1) .upgradeCanopy
    .ok (if active then .afterZip212 else .beforeZip212)
  else .ok (if b.cZip212Enabled = 0 then .beforeZip212 else .afterZip212)

def pushOutput (output : OutputDescriptionInfo) (value : CAmount) : TransactionBuilder :=
  { b with
    outputs := b.outputs ++ [output]
    mtx := { b.mtx with valueBalance := b.mtx.valueBalance - value } }

/-- `AddSaplingOutput`; the amount becomes unsigned. -/
def addSaplingOutput (ovk : UInt256) (addr : SaplingPaymentAddress) (value : CAmount)
    (memo : Memo) (rseed : UInt256) : Except Fault TransactionBuilder := do
  b.requireSapling "output"
  let zip212 ← b.outputZip212 env
  .ok (b.pushOutput ⟨ovk, .toAddress addr value.toUInt64 zip212 rseed, memo⟩ value)

def addTransparentInput (utxo : COutPoint) (scriptPubKey : CScript) (value : CAmount)
    (nSequence : Nat) : Except Fault TransactionBuilder :=
  if b.hasKeystore || env.isPayToCryptoCondition scriptPubKey then
    .ok { b with
      mtx := { b.mtx with vin := b.mtx.vin ++ [⟨utxo, [], nSequence⟩] }
      tIns := b.tIns ++ [⟨scriptPubKey, value⟩] }
  else .error (.exception ("Cannot add transparent inputs to a TransactionBuilder without a " ++
    "keystore, except with crypto conditions"))

def pushTxOut (out : CTxOut) : TransactionBuilder :=
  { b with mtx := { b.mtx with vout := b.mtx.vout ++ [out] } }

/-- `AddTransparentOutput`: false for an invalid destination. -/
def addTransparentOutput (dest : TxDestination) (value : CAmount) : Bool × TransactionBuilder :=
  if isValidDestination dest then (true, b.pushTxOut ⟨value, getScriptForDestination dest⟩)
  else (false, b)

def addOpRet (s : CScript) : TransactionBuilder := { b with opReturn := some s }

def addOpRetLast : TransactionBuilder :=
  match b.opReturn with
  | some s => b.pushTxOut ⟨0, s⟩
  | none => b

def setFee (fee : CAmount) : TransactionBuilder := { b with fee := fee }

def sendChangeToSapling (changeAddr : SaplingPaymentAddress) (ovk : UInt256) :
    TransactionBuilder :=
  { b with zChangeAddr := some (ovk, changeAddr), tChangeAddr := none }

/-- `SendChangeTo` a destination: false if invalid. -/
def sendChangeTo (changeAddr : TxDestination) : Bool × TransactionBuilder :=
  if isValidDestination changeAddr then
    (true, { b with tChangeAddr := some changeAddr, zChangeAddr := none })
  else (false, b)

end TransactionBuilder

/-- A call of the builder, with the random number it draws. -/
inductive BuilderCall where
  | addSaplingSpend (expsk : SaplingExpandedSpendingKey) (note : SaplingNote)
      (anchor : UInt256) (path : MerklePathData) (alpha : UInt256)
  | addSaplingOutput (ovk : UInt256) (addr : SaplingPaymentAddress) (value : CAmount)
      (memo : Memo) (rseed : UInt256)
  | addTransparentInput (utxo : COutPoint) (scriptPubKey : CScript) (value : CAmount)
      (nSequence : Nat)
  | addTransparentOutput (dest : TxDestination) (value : CAmount)
  | setFee (fee : CAmount)
  | sendChangeToSapling (changeAddr : SaplingPaymentAddress) (ovk : UInt256)
  | sendChangeTo (changeAddr : TxDestination)
  | addOpRet (s : CScript)
  deriving DecidableEq

/-- What a call returns and does; without result it goes through unless it throws. -/
def TransactionBuilder.call (env : BuilderEnv) (b : TransactionBuilder) :
    BuilderCall → Except Fault (Bool × TransactionBuilder)
  | .addSaplingSpend expsk note anchor path alpha => b.addSaplingSpend expsk note anchor path alpha
  | .addSaplingOutput ovk addr value memo rseed =>
    (b.addSaplingOutput env ovk addr value memo rseed).map (true, ·)
  | .addTransparentInput utxo scriptPubKey value nSequence =>
    (b.addTransparentInput env utxo scriptPubKey value nSequence).map (true, ·)
  | .addTransparentOutput dest value => .ok (b.addTransparentOutput dest value)
  | .setFee fee => .ok (true, b.setFee fee)
  | .sendChangeToSapling changeAddr ovk => .ok (true, b.sendChangeToSapling changeAddr ovk)
  | .sendChangeTo changeAddr => .ok (b.sendChangeTo changeAddr)
  | .addOpRet s => .ok (true, b.addOpRet s)

/-! ### Build -/

/-- Why `Build` gives no transaction: an error, or a fault. -/
inductive BuildStop where
  | error (what : String)
  | fault (f : Fault)
  deriving DecidableEq, Repr

/-- A call inside `Build`, with its faults. -/
def liftFault {α : Type} : Except Fault α → Except BuildStop α
  | .ok a => .ok a
  | .error f => .error (.fault f)

/-- `return TransactionBuilderResult(what)` where there is no value. -/
def orStop {α : Type} (what : String) : Option α → Except BuildStop α
  | some a => .ok a
  | none => .error (.error what)

@[simp] theorem liftFault_eq_ok {α : Type} {x : Except Fault α} {a : α} :
    liftFault x = .ok a ↔ x = .ok a := by
  cases x with
  | ok b => simp [liftFault]
  | error f => simp [liftFault]

@[simp] theorem orStop_eq_ok {α : Type} {what : String} {x : Option α} {a : α} :
    orStop what x = .ok a ↔ x = some a := by
  cases x with
  | none => simp [orStop]
  | some b => simp [orStop]

section Descriptions

variable (env : BuilderEnv)

/-- A spend's `SpendDescription`; the signature comes later. -/
def SpendDescriptionInfo.build (i : Nat) (spend : SpendDescriptionInfo) (position : UInt64)
    (path : MerkleBytes) : Except BuildStop SpendDescription := do
  let _ ← orStop "Spend is invalid" (spend.note.cmu env)
  let nf ← orStop "Spend is invalid"
    (spend.note.nullifier env (spend.expsk.fullViewingKey env) position)
  let proof ← orStop "Spend proof failed"
    (env.spendProof i (spend.expsk.fullViewingKey env).ak spend.expsk.nsk spend.note.d
      (spend.note.rcm env) spend.alpha spend.note.value spend.anchor path)
  .ok { cv := proof.1, anchor := spend.anchor, nullifier := nf, rk := proof.2.1,
        zkproof := proof.2.2 }

/-- The spend loop; positions and paths by index. -/
def buildSpends : Nat → List SpendDescriptionInfo → List UInt64 → List MerkleBytes →
    Except BuildStop (List SpendDescription)
  | i, spend :: spends, position :: positions, path :: paths => do
      let sdesc ← spend.build env i position path
      let rest ← buildSpends (i + 1) spends positions paths
      .ok (sdesc :: rest)
  | _, [], _, _ => .ok []
  | _, _ :: _, _, _ => .error (.fault (.exception "alMerklePathPosition[i]"))

/-- `OutputDescriptionInfo::Build`. -/
def OutputDescriptionInfo.describe (i : Nat) (output : OutputDescriptionInfo) :
    Option OutputDescription := do
  let cmu ← output.note.cmu env
  let keys ← env.encrypt i output.note output.memo
  let proof ← env.outputProof i keys.1 output.note.address (output.note.rcm env)
    output.note.value
  some { cv := proof.1, cmu := cmu, ephemeralKey := keys.2, zkproof := proof.2 }

/-- The output loop, which looks at the commitment first. -/
def buildOutputs : Nat → List OutputDescriptionInfo → Except BuildStop (List OutputDescription)
  | _, [] => .ok []
  | i, output :: outputs => do
      let _ ← orStop "Output is invalid" (output.note.cmu env)
      let odesc ← orStop "Failed to create output description" (output.describe env i)
      let rest ← buildOutputs (i + 1) outputs
      .ok (odesc :: rest)

def signSpends (dataToBeSigned : UInt256) :
    List SpendDescriptionInfo → List SpendDescription → List SpendDescription
  | spend :: spends, sdesc :: sdescs =>
    { sdesc with spendAuthSig := env.spendSig spend.expsk.ask spend.alpha dataToBeSigned } ::
      signSpends dataToBeSigned spends sdescs
  | _, sdescs => sdescs

/-- The loop that signs transparent inputs. -/
def signInputs (txNewConst : CMutableTransaction) (branchId : UInt32) :
    Nat → List CTxIn → List TransparentInputInfo → Except BuildStop (List CTxIn)
  | nIn, txin :: vin, tIn :: tIns => do
      let scriptSig ← orStop "Failed to sign transaction"
        (env.produceSignature txNewConst nIn tIn.value tIn.scriptPubKey branchId)
      let rest ← signInputs txNewConst branchId (nIn + 1) vin tIns
      .ok ({ txin with scriptSig := scriptSig } :: rest)
  | _, [], _ => .ok []
  | _, _ :: _, [] => .error (.fault (.exception "tIns[nIn]"))

end Descriptions

namespace TransactionBuilder

variable (env : BuilderEnv) (b : TransactionBuilder)

/-- The change of `Build`: what does not go out. -/
def change : CAmount :=
  (b.mtx.vout.map CTxOut.nValue).foldl (· - ·)
    ((b.tIns.map TransparentInputInfo.value).foldl (· + ·) (b.mtx.valueBalance - b.fee))

/-- The change output: to the chosen address, else to that of the first note spent, with empty
memo and random seed. -/
def addChange (change : CAmount) (rseed : UInt256) : Except BuildStop TransactionBuilder :=
  match b.zChangeAddr, b.tChangeAddr, b.spends with
  | some zChangeAddr, _, _ =>
    liftFault (b.addSaplingOutput env zChangeAddr.1 zChangeAddr.2 change
      (Vector.replicate 512 0) rseed)
  | none, some tChangeAddr, _ => do
      liftFault (assertThat (b.addTransparentOutput tChangeAddr change).1
        "AddTransparentOutput(tChangeAddr.value(), change)")
      .ok (b.addTransparentOutput tChangeAddr change).2
  | none, none, spend :: _ =>
    liftFault (b.addSaplingOutput env (spend.expsk.fullViewingKey env).ovk spend.note.address
      change (Vector.replicate 512 0) rseed)
  | none, none, [] => .error (.error "Could not determine change address")

def settleChange (rseed : UInt256) : Except BuildStop TransactionBuilder :=
  if b.change < 0 then .error (.error "Change cannot be negative")
  else if 0 < b.change then b.addChange env b.change rseed
  else .ok b

/-- The spend and output descriptions, and the `OP_RETURN`. -/
def describe : Except BuildStop TransactionBuilder := do
  let sdescs ← buildSpends env 0 b.spends b.alMerklePathPosition b.asMerklePath
  let odescs ← buildOutputs env 0 b.outputs
  .ok { b with
    mtx := { b.mtx with
      vShieldedSpend := b.mtx.vShieldedSpend ++ sdescs
      vShieldedOutput := b.mtx.vShieldedOutput ++ odescs } }.addOpRetLast

def dataToBeSigned : Except BuildStop UInt256 :=
  match env.signatureHash b.mtx b.consensusBranchId with
  | .ok hash => .ok hash
  | .error what => .error (.error ("Could not construct signature hash: " ++ what))

/-- The signatures of spends, balance and transparent inputs. -/
def sign : Except BuildStop TransactionBuilder := do
  let dataToBeSigned ← b.dataToBeSigned env
  let mtx := { b.mtx with
    vShieldedSpend := signSpends env dataToBeSigned b.spends b.mtx.vShieldedSpend
    bindingSig := env.bindingSig b.mtx.valueBalance dataToBeSigned }
  let vin ← signInputs env mtx b.consensusBranchId 0 mtx.vin b.tIns
  .ok { b with mtx := { mtx with vin := vin } }

/-- **`Build`**: the transaction and the builder afterwards. The callers drop a builder that gave
an error. -/
def build (rseed : UInt256) : Except BuildStop (CTransaction × TransactionBuilder) := do
  let b₁ ← b.settleChange env rseed
  let b₂ ← b₁.describe env
  let b₃ ← b₂.sign env
  .ok (b₃.mtx.toTransaction env, b₃)

end TransactionBuilder

end Elosys
