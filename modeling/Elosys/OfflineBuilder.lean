import Elosys.BuilderBalance
import Elosys.NotarisationScan
import Elosys.TextCodec

/-!
# Transactions to be Signed Offline

A wallet without spending keys prints spends and outputs as a command, `z_sign_offline` with sixteen
parameters, for a wallet with the keys. The writing side: the calls that collect, and
`Build_offline_transaction`. `CharArrayToHex` writes its terminating zero one byte behind the
buffers that it is given; this byte is not modelled.
-/

open ByteCodec TextCodec Program List Except Prod

namespace Elosys

/-! ### Addresses and JSON values -/

/-- `libzcash::PaymentAddress`: what `DecodePaymentAddress` gives. -/
inductive PaymentAddress where
  | invalid
  | sprout
  | sapling (addr : SaplingPaymentAddress)
  deriving DecidableEq

/-- The decoders of addresses. -/
structure AddressCodec where
  decodePaymentAddress : List UInt8 → PaymentAddress
  decodeDestination : List UInt8 → TxDestination

/-- A `UniValue`; a number is its text. -/
inductive UniValue where
  | null
  | str (s : List UInt8)
  | num (text : List UInt8)
  | arr (values : List UniValue)
  | obj (fields : List (String × UniValue))

/-! ### The calls -/

namespace TransactionBuilder

variable (b : TransactionBuilder)

/-- `AddSaplingSpend_process_offline_transaction`, on the signer. -/
def addSaplingSpendProcess (expsk : SaplingExpandedSpendingKey) (note : SaplingNote)
    (anchor : UInt256) (lMerklePathPosition : UInt64) (pcMerkle : MerkleBytes)
    (alpha : UInt256) : Bool × TransactionBuilder :=
  if b.anchorFits anchor then
    (true, b.pushSpend ⟨expsk, note, alpha, anchor⟩ ⟨pcMerkle, lMerklePathPosition⟩)
  else (false, b)

/-- `AddSaplingSpend_prepare_offline_transaction`, on the wallet without keys; the spend's key is
not initialised. -/
def addSaplingSpendPrepare (sFromAddr : List UInt8) (expsk : SaplingExpandedSpendingKey)
    (note : SaplingNote) (anchor : UInt256) (lMerklePathPosition : UInt64)
    (pcMerkle : MerkleBytes) (alpha : UInt256) : Bool × TransactionBuilder :=
  if b.anchorFits anchor then
    (true, { b with fromAddress := sFromAddr }.pushSpend ⟨expsk, note, alpha, anchor⟩
      ⟨pcMerkle, lMerklePathPosition⟩)
  else (false, b)

def nextZip212 : Except Fault Zip212Enabled := do
  let active ← b.consensusParams.active (b.nHeight + 1) .upgradeCanopy
  .ok (if active then .afterZip212 else .beforeZip212)

def saplingRecipient (codec : AddressCodec) (address : List UInt8) :
    Except Fault SaplingPaymentAddress :=
  match codec.decodePaymentAddress address with
  | .sapling addr => .ok addr
  | _ => .error (.assertion "boost::get<libzcash::SaplingPaymentAddress>(&addr) != nullptr")

/-- `AddSaplingOutput_offline_transaction`; the viewing key is not initialised. -/
def addSaplingOutputOffline (codec : AddressCodec) (address : List UInt8) (value : CAmount)
    (memo : Memo) (ovk rseed : UInt256) : Except Fault TransactionBuilder := do
  let addr ← saplingRecipient codec address
  let zip212 ← b.nextZip212
  .ok { b.pushOutput ⟨ovk, .toAddress addr value.toUInt64 zip212 rseed, memo⟩ value with
    sOutputRecipients := b.sOutputRecipients ++ [address] }

end TransactionBuilder

/-- A call of the builder, online or offline. -/
inductive OfflineCall where
  | online (c : BuilderCall)
  | prepare (sFromAddr : List UInt8) (expsk : SaplingExpandedSpendingKey) (note : SaplingNote)
      (anchor : UInt256) (lMerklePathPosition : UInt64) (pcMerkle : MerkleBytes)
      (alpha : UInt256)
  | process (expsk : SaplingExpandedSpendingKey) (note : SaplingNote) (anchor : UInt256)
      (lMerklePathPosition : UInt64) (pcMerkle : MerkleBytes) (alpha : UInt256)
  | output (address : List UInt8) (value : CAmount) (memo : Memo) (ovk rseed : UInt256)
  | setMinConfirmations (iMinConf : Int32)
  | setConsensus (consensusParams : NetworkUpgrades)
  | setHeight (nHeight : Int32)
  | setExpiryHeight (expHeight : Int32)

def TransactionBuilder.offlineCall (env : BuilderEnv) (codec : AddressCodec)
    (b : TransactionBuilder) : OfflineCall → Except Fault TransactionBuilder
  | .online c => (b.call env c).map (·.2)
  | .prepare sFromAddr expsk note anchor position pcMerkle alpha =>
    .ok (b.addSaplingSpendPrepare sFromAddr expsk note anchor position pcMerkle alpha).2
  | .process expsk note anchor position pcMerkle alpha =>
    .ok (b.addSaplingSpendProcess expsk note anchor position pcMerkle alpha).2
  | .output address value memo ovk rseed =>
    b.addSaplingOutputOffline codec address value memo ovk rseed
  | .setMinConfirmations iMinConf => .ok { b with iMinConf := iMinConf }
  | .setConsensus consensusParams => do
      let branchId ← consensusParams.currentEpochBranchId b.nHeight
      .ok { b with consensusParams := consensusParams, consensusBranchId := branchId }
  | .setHeight nHeight => do
      let branchId ← b.consensusParams.currentEpochBranchId nHeight
      .ok { b with nHeight := nHeight, consensusBranchId := branchId }
  | .setExpiryHeight expHeight =>
    .ok { b with mtx := { b.mtx with nExpiryHeight := expHeight.toUInt32 } }

/-! ### The fields of the command -/

def UInt256.bytes (h : UInt256) : List UInt8 := leBytes 32 h.toNat

/-- The digit that stands for a `Zip212Enabled`. -/
def Zip212Enabled.text : Zip212Enabled → List UInt8
  | .beforeZip212 => asciiBytes "0"
  | .afterZip212 => asciiBytes "1"

def boolText (v : Bool) : List UInt8 := if v then asciiBytes "1" else asciiBytes "0"

/-- A spend with the other vectors' entries. -/
structure SpendRow where
  spend : SpendDescriptionInfo
  position : UInt64
  path : MerkleBytes

/-- A memo's characters: all, or those before the first zero if it ends in one. -/
def memoLength (memo : Memo) : Nat :=
  if memo.get 511 = 0 then (memo.toList.takeWhile (· ≠ 0)).length else 512

def hexMemo (memo : Memo) : List UInt8 := hexText (memo.toList.take (memoLength memo))

/-- `strprintf("%s ", …)`. -/
def field (text : List UInt8) : List UInt8 := text ++ [32]

section Rows

variable (env : BuilderEnv)

def SpendRow.text (r : SpendRow) : List UInt8 :=
  asciiBytes "\x7b\"merkleposition\":\"" ++ intText r.position.toInt64.toInt ++
  asciiBytes "\",\"merklepath\":\"" ++ hexText r.path.toList ++
  asciiBytes "\",\"note_d\":\"" ++ hexText r.spend.note.d.toList ++
  asciiBytes "\",\"note_pkd\":\"" ++ hexText r.spend.note.pkD.bytes ++
  asciiBytes "\",\"note_r\":\"" ++ hexText (r.spend.note.rcm env).bytes ++
  asciiBytes "\",\"value\":" ++ intText r.spend.note.value.toInt64.toInt ++
  asciiBytes ",\"zip212\":" ++ r.spend.note.zip212Enabled.text ++ asciiBytes "\x7d"

def SpendRow.fields (r : SpendRow) : List (String × UniValue) :=
  [("merkleposition", .str (intText r.position.toInt64.toInt)),
    ("merklepath", .str (hexText r.path.toList)),
    ("note_d", .str (hexText r.spend.note.d.toList)),
    ("note_pkd", .str (hexText r.spend.note.pkD.bytes)),
    ("note_r", .str (hexText (r.spend.note.rcm env).bytes)),
    ("value", .num (intText r.spend.note.value.toInt64.toInt)),
    ("zip212", .num r.spend.note.zip212Enabled.text)]

def SpendRow.json (r : SpendRow) : UniValue := .obj (r.fields env)

def SpendRow.checked (r : SpendRow) : List UInt8 :=
  field (natText r.position.toNat) ++ field (hexText r.path.toList) ++
  field (hexText r.spend.note.d.toList) ++ field (hexText r.spend.note.pkD.bytes) ++
  field (hexText (r.spend.note.rcm env).bytes) ++ field (natText r.spend.note.value.toNat) ++
  field r.spend.note.zip212Enabled.text

end Rows

/-- An output with its recipient. -/
structure OutputRow where
  recipient : List UInt8
  output : OutputDescriptionInfo

def OutputRow.text (r : OutputRow) : List UInt8 :=
  asciiBytes "\x7b\"address\":\"" ++ r.recipient ++ asciiBytes "\",\"amount\":" ++
  natText r.output.note.value.toNat ++
  if 0 < memoLength r.output.memo then
    asciiBytes ",\"memo\":\"" ++ hexMemo r.output.memo ++ asciiBytes "\"\x7d"
  else asciiBytes "\x7d"

def OutputRow.fields (r : OutputRow) : List (String × UniValue) :=
  [("address", .str r.recipient), ("amount", .num (natText r.output.note.value.toNat))] ++
    if 0 < memoLength r.output.memo then [("memo", .str (hexMemo r.output.memo))] else []

def OutputRow.json (r : OutputRow) : UniValue := .obj r.fields

def OutputRow.checked (r : OutputRow) : List UInt8 :=
  field r.recipient ++ field (natText r.output.note.value.toNat) ++ field (hexMemo r.output.memo)

/-- The rows of a loop that closes its array after the last. -/
def closeRows : List (List UInt8) → List UInt8
  | [] => []
  | [row] => row ++ asciiBytes "]' "
  | row :: next :: rows => row ++ asciiBytes "," ++ closeRows (next :: rows)

/-- The sum of the characters, which are signed, from 1. -/
def charSum (text : List UInt8) : UInt32 :=
  text.foldl (fun sum c => sum + c.toInt8.toInt32.toUInt32) 1

/-! ### The command -/

namespace TransactionBuilder

variable (env : BuilderEnv) (b : TransactionBuilder)

def spendRows : List SpendRow :=
  List.zipWith (fun spend (merkle : UInt64 × MerkleBytes) => ⟨spend, merkle.1, merkle.2⟩) b.spends
    (b.alMerklePathPosition.zip b.asMerklePath)

def outputRows : List OutputRow := List.zipWith OutputRow.mk b.sOutputRecipients b.outputs

/-- The anchor the spend loop leaves: the last one's. -/
def lastAnchor : UInt256 := (b.spends.getLast?.map (·.anchor)).getD 0

section

variable (branchId : UInt32) (zip212 : Zip212Enabled)

def checkedNumbers : List UInt8 :=
  field (intText b.iMinConf.toInt) ++ field (intText b.fee.toInt) ++
  field (intText b.nHeight.toInt) ++ field (natText branchId.toNat) ++
  field (hexText b.lastAnchor.bytes) ++ field (boolText b.mtx.fOverwintered) ++
  field (natText b.mtx.nExpiryHeight.toNat) ++ field (natText b.mtx.nVersionGroupId.toNat) ++
  field (intText b.mtx.nVersion.toInt) ++ field zip212.text

def checksumInput : List UInt8 :=
  asciiBytes "arrr 2 " ++ field b.fromAddress ++
  asciiBytes "spending notes: " ++ b.spendRows.flatMap (·.checked env) ++
  asciiBytes "outputs: " ++ b.outputRows.flatMap (·.checked) ++
  b.checkedNumbers branchId zip212

def offlineNumbers : List UInt8 :=
  field (intText b.iMinConf.toInt) ++ field (intText b.fee.toInt) ++
  field (intText b.nHeight.toInt) ++ field (natText branchId.toNat) ++
  asciiBytes "\"" ++ hexText b.lastAnchor.bytes ++ asciiBytes "\" " ++
  field (boolText b.mtx.fOverwintered) ++
  field (natText b.mtx.nExpiryHeight.toNat) ++ field (natText b.mtx.nVersionGroupId.toNat) ++
  field (intText b.mtx.nVersion.toInt) ++ field zip212.text ++
  natText (charSum (b.checksumInput env branchId zip212)).toNat

def offlineText : List UInt8 :=
  asciiBytes "z_sign_offline arrr 2 \"" ++ b.fromAddress ++ asciiBytes "\" " ++
  asciiBytes "'[" ++ closeRows (b.spendRows.map (·.text env)) ++
  asciiBytes "'[" ++ closeRows (b.outputRows.map (·.text)) ++
  b.offlineNumbers env branchId zip212

def offlineParamList : List UniValue :=
  [.str (asciiBytes "arrr"), .num (asciiBytes "2"), .str b.fromAddress,
    .arr (b.spendRows.map (·.json env)), .arr (b.outputRows.map (·.json)),
    .num (intText b.iMinConf.toInt), .num (intText b.fee.toInt),
    .num (intText b.nHeight.toInt), .num (natText branchId.toNat),
    .str (hexText b.lastAnchor.bytes), .num (boolText b.mtx.fOverwintered),
    .num (natText b.mtx.nExpiryHeight.toNat), .num (natText b.mtx.nVersionGroupId.toNat),
    .num (intText b.mtx.nVersion.toInt), .num zip212.text,
    .num (natText (charSum (b.checksumInput env branchId zip212)).toNat)]

/-- The parameters as the RPC parser presents them. Without outputs the array and quote of
parameter [4] stay open, and there are none. -/
def offlineParams : Option (List UniValue) :=
  if b.outputRows = [] then none else some (b.offlineParamList env branchId zip212)

end

/-- The change of `Build_offline_transaction`, to the sender. -/
def settleOfflineChange (codec : AddressCodec) (ovk rseed : UInt256) :
    Except BuildStop TransactionBuilder :=
  if b.spends = [] then .error (.error "Error: No spends specified")
  else if b.change < 0 then .error (.error "Error: Change < 0")
  else if 0 < b.change then
    match b.zChangeAddr with
    | some zChangeAddr =>
      liftFault (b.addSaplingOutput env zChangeAddr.1 zChangeAddr.2 b.change
        (Vector.replicate 512 0) rseed)
    | none =>
      liftFault (b.addSaplingOutputOffline codec b.fromAddress b.change
        (Vector.replicate 512 0) ovk rseed)
  else .ok b

/-- What `Build_offline_transaction` leaves after printing. -/
structure OfflineCommand where
  text : List UInt8
  params : Option (List UniValue)
  builder : TransactionBuilder
  branchId : UInt32
  zip212 : Zip212Enabled

/-- **`Build_offline_transaction`.** -/
def buildOfflineTransaction (codec : AddressCodec) (ovk rseed : UInt256) :
    Except BuildStop OfflineCommand := do
  let b₁ ← b.settleOfflineChange env codec ovk rseed
  let _ ← orStop "Internal error: sOutputRecipients.size() != outputs.size()"
    (if b₁.sOutputRecipients.length = b₁.outputs.length then some () else none)
  let branchId ← liftFault (b₁.consensusParams.currentEpochBranchId b₁.nHeight)
  let zip212 ← liftFault b₁.nextZip212
  .ok ⟨b₁.offlineText env branchId zip212, b₁.offlineParams env branchId zip212, b₁, branchId,
    zip212⟩

end TransactionBuilder

/-- One call on the wallet without keys; an exception leaves the builder as it was. -/
def offlineStep (env : BuilderEnv) (codec : AddressCodec) (b : TransactionBuilder)
    (c : OfflineCall) : Except Fault TransactionBuilder :=
  match b.offlineCall env codec c with
  | .error (.exception _) => .ok b
  | result => result

end Elosys
