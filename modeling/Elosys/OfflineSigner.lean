import Elosys.OfflineBuilder

/-!
# Signing Offline

`z_sign_offline` reads the sixteen parameters of a printed command, compares the checksum, and hands
spends and outputs to its own builder. For the diversifier `HexToCharArray` is given the length of
another parameter: with the 64 digits of `note_pkd` it writes 33 bytes into the 12 of `cD`, which
the model has as a trap. As `note_pkd` must have 64 digits, no command passes.
-/

open ByteCodec TextCodec

namespace Elosys

/-! ### Values -/

/-- `throw JSONRPCError(…, what)` where a test fails. -/
def throwUnless (b : Bool) (what : String) : Except Fault Unit :=
  if b then .ok () else .error (.exception what)

/-- An access outside an object where a test fails. -/
def trapUnless (b : Bool) (t : Trap) : Except Fault Unit :=
  if b then .ok () else .error (.trap t)

theorem trapUnless_eq_ok {b : Bool} {t : Trap} {u : Unit} :
    trapUnless b t = .ok u ↔ b = true := by
  cases b with
  | true => simp [trapUnless]
  | false => simp [trapUnless]

@[simp] theorem throwUnless_eq_ok {b : Bool} {what : String} {u : Unit} :
    throwUnless b what = .ok u ↔ b = true := by
  cases b with
  | true => simp [throwUnless]
  | false => simp [throwUnless]

namespace UniValue

def getStr : UniValue → Except Fault (List UInt8)
  | .str s => .ok s
  | _ => .error (.exception "JSON value is not a string as expected")

/-- `UniValue::getValStr`: the text of a string or number. -/
def getValStr : UniValue → List UInt8
  | .str s => s
  | .num text => text
  | _ => []

def getRange (low high : Int) : UniValue → Except Fault Int
  | .num text =>
    match readInt text with
    | some i =>
      if low ≤ i ∧ i ≤ high then .ok i else .error (.exception "JSON integer out of range")
    | none => .error (.exception "JSON integer out of range")
  | _ => .error (.exception "JSON value is not an integer as expected")

def getInt (v : UniValue) : Except Fault Int32 :=
  (v.getRange (-2 ^ 31) (2 ^ 31 - 1)).map Int32.ofInt

def getInt64 (v : UniValue) : Except Fault Int64 :=
  (v.getRange (-2 ^ 63) (2 ^ 63 - 1)).map Int64.ofInt

def getArray (what : String) : UniValue → Except Fault (List UniValue)
  | .arr values => .ok values
  | _ => .error (.exception what)

def getObject (what : String) : UniValue → Except Fault (List (String × UniValue))
  | .obj fields => .ok fields
  | _ => .error (.exception what)

def isNull : UniValue → Bool
  | .null => true
  | _ => false

end UniValue

variable (text : List UInt8) (fields : List (String × UniValue))

/-- `find_value`: null where there is no such key. -/
def findValue (key : String) : UniValue :=
  ((fields.find? (·.1 == key)).map (·.2)).getD .null

/-! ### Parsers -/

def upperBound : Int := 10 ^ 18 - 1

/-- The loop of `ProcessMantissaDigit`: powers of ten, none too large. -/
def scaleMantissa : Nat → Int → Option Int
  | 0, mantissa => some mantissa
  | n + 1, mantissa =>
    if mantissa > upperBound / 10 then none else scaleMantissa n (mantissa * 10)

/-- `ProcessMantissaDigit`: trailing zeros are multiplied in before another digit. -/
def processMantissaDigit (d : Nat) (mantissa : Int) (tzeros : Nat) : Option (Int × Nat) :=
  if d = 0 then some (mantissa, tzeros + 1)
  else (scaleMantissa (tzeros + 1) mantissa).map fun m => (m + d, 0)

def mantissaDigits : List UInt8 → Int → Nat → Nat → Option (List UInt8 × Int × Nat × Nat)
  | [], mantissa, tzeros, count => some ([], mantissa, tzeros, count)
  | c :: cs, mantissa, tzeros, count =>
    match digitValue c with
    | none => some (c :: cs, mantissa, tzeros, count)
    | some d =>
      match processMantissaDigit d mantissa tzeros with
      | none => none
      | some next => mantissaDigits cs next.1 next.2 (count + 1)

def exponentDigits : List UInt8 → Int → Option (List UInt8 × Int)
  | [], exponent => some ([], exponent)
  | c :: cs, exponent =>
    match digitValue c with
    | none => some (c :: cs, exponent)
    | some d =>
      if exponent > upperBound / 10 then none else exponentDigits cs (exponent * 10 + d)

def integerPart : List UInt8 → Option (List UInt8 × Int × Nat)
  | [] => none
  | c :: cs =>
    match digitValue c with
    | none => none
    | some 0 => some (cs, 0, 0)
    | some _ => (mantissaDigits (c :: cs) 0 0 0).map fun r => (r.1, r.2.1, r.2.2.1)

def startsWithDigit : List UInt8 → Bool
  | c :: _ => (digitValue c).isSome
  | [] => false

def fractionPart (mantissa : Int) (tzeros : Nat) : Option (List UInt8 × Int × Nat × Nat) :=
  match text with
  | 46 :: cs => if startsWithDigit cs then mantissaDigits cs mantissa tzeros 0 else none
  | _ => some (text, mantissa, tzeros, 0)

def signedExponent (negative : Bool) (text : List UInt8) : Option (List UInt8 × Int) :=
  if startsWithDigit text then
    (exponentDigits text 0).map fun r => (r.1, if negative then -r.2 else r.2)
  else none

def exponentPart : Option (List UInt8 × Int) :=
  match text with
  | c :: cs =>
    if c = 101 ∨ c = 69 then
      match cs with
      | 43 :: ds => signedExponent false ds
      | 45 :: ds => signedExponent true ds
      | ds => signedExponent false ds
    else some (text, 0)
  | [] => some ([], 0)

/-- The last loop: as many powers of ten, of either sign. -/
def scaleAmount : Nat → Int → Option Int
  | 0, mantissa => some mantissa
  | n + 1, mantissa =>
    if mantissa > upperBound / 10 ∨ mantissa < -(upperBound / 10) then none
    else scaleAmount n (mantissa * 10)

def finishAmount (mantissa exponent : Int) : Option Int :=
  if exponent < 0 ∨ 18 ≤ exponent then none
  else match scaleAmount exponent.toNat mantissa with
    | none => none
    | some amount => if amount > upperBound ∨ amount < -upperBound then none else some amount

/-- What follows an optional sign in `ParseFixedPoint`. -/
def parseUnsigned (negative : Bool) (text : List UInt8) (decimals : Int) : Option Int := do
  let int ← integerPart text
  let frac ← fractionPart int.1 int.2.1 int.2.2
  let exp ← exponentPart frac.1
  let _ ← if exp.1 = [] then some () else none
  finishAmount (if negative then -frac.2.1 else frac.2.1)
    (exp.2 - frac.2.2.2 + frac.2.2.1 + decimals)

def parseFixedPoint (val : List UInt8) (decimals : Int) : Option Int :=
  match val with
  | 45 :: cs => parseUnsigned true cs decimals
  | cs => parseUnsigned false cs decimals

def isHex : Bool :=
  text.all (fun c => (hexValue c).isSome) && decide (text ≠ []) && text.length % 2 == 0

/-- `strtoul` of two hexadecimal characters. -/
def hexPairValue (c d : UInt8) : UInt8 :=
  UInt8.ofNat (16 * (hexValue c).getD 0 + (hexValue d).getD 0)

def hexToCharArray : List UInt8 → List UInt8
  | c :: d :: cs => hexPairValue c d :: hexToCharArray cs
  | _ => []

/-- `memcpy` of a number of bytes from a buffer. -/
def copyBytes (n : Nat) (buf : List UInt8) : Vector UInt8 n := Vector.ofFn fun i => buf.getD i 0

def UInt256.ofBytes (buf : List UInt8) : UInt256 := BitVec.ofNat 256 (ofLeBytes (buf.take 32))

def isSpace (c : UInt8) : Bool :=
  c == 32 || c == 12 || c == 10 || c == 13 || c == 9 || c == 11

/-- `ParseHex`: pairs of digits and spaces, up to another character. -/
def parseHex : List UInt8 → List UInt8
  | [] => []
  | c :: cs =>
    if isSpace c then parseHex cs
    else match cs with
      | [] => []
      | d :: ds =>
        match hexValue c, hexValue d with
        | some high, some low => UInt8.ofNat (16 * high + low) :: parseHex ds
        | _, _ => []

/-- The default memo: the first byte is `0xF6`. -/
def noMemo : List UInt8 := 0xf6 :: List.replicate 511 0

/-- `get_memo_from_hex_string`: bytes over the default memo. -/
def getMemoFromHexString (s : List UInt8) : Except Fault Memo := do
  let rawMemo := parseHex s
  throwUnless (s.length % 2 == 0 && (s.length == 0 || rawMemo.length == s.length / 2))
    "Memo must be in hexadecimal format"
  throwUnless (rawMemo.length ≤ 512) "Memo size is too big, maximum allowed is 512"
  .ok (copyBytes 512 (rawMemo ++ noMemo.drop rawMemo.length))

/-! ### Spending notes and outputs -/

def knownKeys (keys : List String) (what : String) (fields : List (String × UniValue)) :
    Except Fault Unit :=
  match fields.find? fun f => !keys.contains f.1 with
  | some f => .error (.exception (what ++ f.1))
  | none => .ok ()

/-- A field of hexadecimal text, perhaps of given lengths. -/
def hexField (key missing : String)
    (length : Option (Nat × String)) (notHex : String) : Except Fault (List UInt8) := do
  throwUnless (!(findValue fields key).isNull) missing
  let s ← (findValue fields key).getStr
  throwUnless (length.all fun l => s.length == l.1) ((length.map (·.2)).getD "")
  throwUnless (isHex s) notHex
  .ok s

def readPosition : Except Fault Int :=
  match parseFixedPoint (findValue fields "merkleposition").getValStr 0 with
  | none => .error (.exception "Invalid parameter, could not decode merkle position")
  | some lMerklePosition =>
    if lMerklePosition < 0 then
      .error (.exception "Invalid parameter, merkle position must be positive")
    else .ok lMerklePosition

/-- A spending note as read, with its part of the checksum. -/
structure SpendingNote where
  position : UInt64
  path : MerkleBytes
  note : SaplingNote
  checked : List UInt8

/-- The fields of a note behind its position. -/
def readNoteFields (lMerklePosition : Int) : Except Fault SpendingNote := do
  let sPath ← hexField fields "merklepath" "Invalid parameter, did not find merkle path"
    (some (2130, "Invalid parameter, Length of merkle path is not 2130 bytes"))
    "Invalid parameter, expected merkle path in hexadecimal format."
  let sNoteD ← hexField fields "note_d" "Invalid parameter, did not find note_d" none
    "Invalid parameter, expected note_d in hexadecimal format."
  let sNotePKD ← hexField fields "note_pkd" "Invalid parameter, did not find note_pkd" none
    "Invalid parameter, expected note_pkd in hexadecimal format."
  let sNoteR ← hexField fields "note_r" "Invalid parameter, did not find note_r"
    (some (64, "Invalid parameter, Length of note_r is not 64 bytes"))
    "Invalid parameter, expected note_r in hexadecimal format."
  throwUnless (!(findValue fields "value").isNull) "Invalid parameter, did not find value"
  let lValue ← (findValue fields "value").getInt64
  throwUnless (!(findValue fields "zip212").isNull) "Invalid parameter, did not find value"
  let cZip212 ← (findValue fields "zip212").getInt
  throwUnless (sNoteD.length == 22) "Invalid parameter, Length of note_d is not 22 bytes"
  -- `HexToCharArray` writes a byte for two digits of `note_pkd`, and a zero, into `cD[12]`
  trapUnless (sNotePKD.length / 2 + 1 ≤ 12) .outOfRange
  throwUnless (sNotePKD.length == 64) "Invalid parameter, Length of note_pkd is not 64 bytes"
  let zip212 := if cZip212.toUInt32.toUInt8 = 0 then Zip212Enabled.beforeZip212 else .afterZip212
  .ok { position := UInt64.ofInt lMerklePosition
        path := copyBytes 1065 (hexToCharArray sPath)
        note :=
          { d := copyBytes 11 (hexToCharArray sNoteD)
            pkD := .ofBytes (hexToCharArray sNotePKD)
            value := lValue.toUInt64
            rseed := .ofBytes (hexToCharArray sNoteR)
            zip212Enabled := zip212 }
        checked := field (intText lMerklePosition) ++ field sPath ++ field sNoteD ++
          field sNotePKD ++ field sNoteR ++ field (natText lValue.toUInt64.toNat) ++
          field zip212.text }

def readSpendingNote (o : UniValue) : Except Fault SpendingNote := do
  let fields ← o.getObject "Invalid parameter, expected 'spending note' object"
  knownKeys ["merkleposition", "merklepath", "note_d", "note_pkd", "note_r", "value", "zip212"]
    "Invalid spending note parameter, unknown key: " fields
  let lMerklePosition ← readPosition fields
  readNoteFields fields lMerklePosition

/-- A recipient as it is read: a `SendManyRecipient`. -/
structure SendManyRecipient where
  address : List UInt8
  amount : CAmount
  hexMemo : List UInt8

def SendManyRecipient.checked (r : SendManyRecipient) : List UInt8 :=
  field r.address ++ field (intText r.amount.toInt) ++ field r.hexMemo

def readHexMemo : UniValue → Except Fault (List UInt8)
  | .null => .ok []
  | v => do
    let strHexMemo ← v.getStr
    throwUnless (isHex strHexMemo)
      "Invalid parameter, memo always encoded as a hex string for offline transactions"
    throwUnless (strHexMemo.length ≤ 1024)
      "Invalid parameter, size of hex encoded memo is larger than maximum allowed 1024"
    .ok strHexMemo

def readRecipient (codec : AddressCodec) (o : UniValue) : Except Fault SendManyRecipient := do
  let fields ← o.getObject "Invalid parameter, expected outputs object"
  knownKeys ["address", "amount", "memo"] "Invalid output parameter, unknown key: " fields
  let address ← (findValue fields "address").getStr
  throwUnless (!isValidDestination (codec.decodeDestination address)) "output taddr not allowed "
  let strHexMemo ← readHexMemo (findValue fields "memo")
  let nAmount ← (findValue fields "amount").getInt64
  throwUnless (0 ≤ nAmount) "output amount must be positive"
  .ok ⟨address, nAmount, strHexMemo⟩

def readAll {α : Type} (read : UniValue → Except Fault α) : List UniValue → Except Fault (List α)
  | [] => .ok []
  | v :: vs => do
    let a ← read v
    let rest ← readAll read vs
    .ok (a :: rest)

/-! ### The command -/

/-- The wallet that signs: its address decoding, whether it is unlocked, and its keys. -/
structure SigningWallet where
  codec : AddressCodec
  unlocked : Bool
  spendingKey : SaplingPaymentAddress → Option SaplingExpandedSpendingKey

/-- The sender's key. `boost::get` finds no Sprout key later. -/
def SigningWallet.senderKey (w : SigningWallet) (fromAddress : List UInt8) :
    Except Fault SaplingExpandedSpendingKey := do
  throwUnless (!isValidDestination (w.codec.decodeDestination fromAddress))
    "From address must be a z-addr"
  match w.codec.decodePaymentAddress fromAddress with
  | .invalid => .error (.exception "From address must be a z-addr")
  | .sprout => .error (.exception "boost::bad_get")
  | .sapling addr =>
    match w.spendingKey addr with
    | some expsk => .ok expsk
    | none =>
      .error (.exception "The spending key of the from_address is not in your wallet")

def defaultMinersFee : CAmount := 10000

def checkFee (nTotalOut nFee : CAmount) : Except Fault Unit :=
  if nTotalOut < defaultMinersFee then
    throwUnless (nFee ≤ defaultMinersFee)
      "Small transaction amount %s has fee %s that is greater than the default fee %s"
  else throwUnless (nFee ≤ nTotalOut) "Fee %s is greater than the sum of outputs %s"

/-- The anchor of parameter [9]: other text is turned into it. -/
def readAnchorHex : Except Fault (List UInt8) :=
  if isHex text then .ok text
  else do
    throwUnless (isHex (hexText text))
      "Invalid parameter, anchor data must be in hexadecimal format."
    throwUnless ((hexText text).length == 64)
      "Invalid parameter, anchor data length not 64 characters"
    .ok (hexText text)

/-- Parameters [5] to [14], with their part of the checksum. -/
structure OfflineNumbers where
  nFee : CAmount
  nextBlockHeight : UInt32
  branchId : UInt32
  anchor : UInt256
  fOverwintered : Bool
  nExpiryHeight : UInt32
  nVersionGroupId : UInt32
  nVersion : Int32
  zip212 : Int32
  checked : List UInt8

/-- A number, and null where parameter [5] is no number. -/
def readMinDepth : UniValue → Except Fault Int32
  | .num text => UniValue.getInt (.num text)
  | _ => .error (.exception "Expected an integer for 'Minimum confirmations'")

def readNumbers (params : List UniValue) (nTotalOut : CAmount) : Except Fault OfflineNumbers := do
  let nMinDepth ← readMinDepth (params.getD 5 .null)
  throwUnless (0 ≤ nMinDepth) "Minimum number of confirmations cannot be less than 0"
  let iFee ← (params.getD 6 .null).getInt
  checkFee nTotalOut iFee.toInt64
  let nextBlockHeight ← (params.getD 7 .null).getInt
  let branchId ← (params.getD 8 .null).getInt
  let anchorText ← (params.getD 9 .null).getStr
  let sAnchorHex ← readAnchorHex anchorText
  let overwintered ← (params.getD 10 .null).getInt
  let expiryHeight ← (params.getD 11 .null).getInt
  let versionGroupId ← (params.getD 12 .null).getInt64
  let version ← (params.getD 13 .null).getInt
  let zip212 ← (params.getD 14 .null).getInt
  throwUnless (zip212 == 0 || zip212 == 1) "Invalid parameter, zip212 must be 0 or 1"
  .ok { nFee := iFee.toInt64
        nextBlockHeight := nextBlockHeight.toUInt32
        branchId := branchId.toUInt32
        anchor := .ofBytes (hexToCharArray sAnchorHex)
        fOverwintered := overwintered.toUInt32 != 0
        nExpiryHeight := expiryHeight.toUInt32
        nVersionGroupId := versionGroupId.toUInt64.toUInt32
        nVersion := version
        zip212 := zip212
        checked := field (intText nMinDepth.toInt) ++ field (intText iFee.toInt64.toInt) ++
          field (natText nextBlockHeight.toUInt32.toNat) ++
          field (natText branchId.toUInt32.toNat) ++ field sAnchorHex ++
          field (boolText (overwintered.toUInt32 != 0)) ++
          field (natText expiryHeight.toUInt32.toNat) ++
          field (natText versionGroupId.toUInt64.toUInt32.toNat) ++
          field (intText version.toInt) ++ field (intText zip212.toInt) }

/-- The spends added; random numbers are told apart by index. -/
def addProcessedSpends (expsk : SaplingExpandedSpendingKey) (anchor : UInt256)
    (alpha : Nat → UInt256) : TransactionBuilder → Nat → List SpendingNote →
    Except Fault TransactionBuilder
  | b, _, [] => .ok b
  | b, i, n :: ns => do
    let added := b.addSaplingSpendProcess expsk n.note anchor n.position n.path (alpha i)
    assertThat added.1 "builder.AddSaplingSpend_process_offline_transaction"
    addProcessedSpends expsk anchor alpha added.2 (i + 1) ns

def addRecipients (env : BuilderEnv) (codec : AddressCodec) (ovk : UInt256)
    (rseed : Nat → UInt256) : TransactionBuilder → Nat → List SendManyRecipient →
    Except Fault TransactionBuilder
  | b, _, [] => .ok b
  | b, i, r :: rs => do
    let addr ← TransactionBuilder.saplingRecipient codec r.address
    let memo ← getMemoFromHexString r.hexMemo
    let b' ← b.addSaplingOutput env ovk addr r.amount memo (rseed i)
    addRecipients env codec ovk rseed b' (i + 1) rs

def wrappingSum (amounts : List CAmount) : CAmount := amounts.foldl (· + ·) 0

def sumUpTo (target : CAmount) : CAmount → List CAmount → CAmount
  | sum, [] => sum
  | sum, v :: vs => if target ≤ sum + v then sum + v else sumUpTo target (sum + v) vs

/-- **`z_sign_offline`**, up to the `Build` of its builder. -/
def zSignOffline (env : BuilderEnv) (w : SigningWallet) (uninitialised : NetworkUpgrades)
    (hasKeystore : Bool) (alpha rseed : Nat → UInt256) (params : List UniValue) :
    Except Fault TransactionBuilder := do
  let sProject ← (params.getD 0 .null).getStr
  throwUnless (sProject == asciiBytes "arrr") "Only Elosys Chain (arrr) supported"
  let iVersion ← (params.getD 1 .null).getInt
  throwUnless (iVersion.toUInt32 == 2) "Only version '2' supported"
  throwUnless (params.length == 16)
    "z_sign_offline signs the transaction presented in the hex input block"
  throwUnless w.unlocked
    "Error: Please enter the wallet passphrase with walletpassphrase first."
  let fromAddress ← (params.getD 2 .null).getStr
  let expsk ← w.senderKey fromAddress
  let noteValues ← (params.getD 3 .null).getArray
    "Invalid parameter, 'spending notes' not an array"
  throwUnless (!noteValues.isEmpty) "Invalid parameter, 'spending notes' array is empty."
  let notes ← readAll readSpendingNote noteValues
  let outputValues ← (params.getD 4 .null).getArray "Invalid parameter, 'outputs' not an array"
  throwUnless (!outputValues.isEmpty) "Invalid parameter, 'output' array is empty."
  let recipients ← readAll (readRecipient w.codec) outputValues
  let nTotalOut := wrappingSum (recipients.map (·.amount))
  let numbers ← readNumbers params nTotalOut
  let iProtocolChecksum ← (params.getD 15 .null).getInt
  let sChecksumInput := field sProject ++ field (natText iVersion.toUInt32.toNat) ++
    field fromAddress ++ asciiBytes "spending notes: " ++ notes.flatMap (·.checked) ++
    asciiBytes "outputs: " ++ recipients.flatMap (·.checked) ++ numbers.checked
  throwUnless ((charSum sChecksumInput).toInt32 == iProtocolChecksum)
    "Input error. Checksums mismatch."
  let inputs := notes.map fun n => n.note.value.toInt64
  let targetAmount := nTotalOut + numbers.nFee
  throwUnless (targetAmount ≤ wrappingSum inputs)
    "Insufficient shielded funds, have %s, need %s"
  throwUnless (targetAmount ≤ sumUpTo targetAmount 0 inputs)
    "Insufficient shielded funds, have %s, need %s"
  let builder := (TransactionBuilder.offline uninitialised hasKeystore numbers.fOverwintered
    numbers.nExpiryHeight numbers.nVersionGroupId numbers.nVersion
    numbers.nextBlockHeight.toInt32 numbers.branchId
    numbers.zip212.toUInt32.toUInt8).setFee numbers.nFee
  let builder ← addProcessedSpends expsk numbers.anchor alpha builder 0 notes
  addRecipients env w.codec (expsk.fullViewingKey env).ovk rseed builder 0 recipients

/-! ### What is signed -/

theorem readNoteFields_ne_ok {fields : List (String × UniValue)} {p : Int} {n : SpendingNote} :
    readNoteFields fields p ≠ .ok n := by
  intro h
  obtain ⟨sPath, -, h⟩ := bind_eq_ok.mp h
  obtain ⟨sNoteD, -, h⟩ := bind_eq_ok.mp h
  obtain ⟨sNotePKD, -, h⟩ := bind_eq_ok.mp h
  obtain ⟨sNoteR, -, h⟩ := bind_eq_ok.mp h
  obtain ⟨_, -, h⟩ := bind_eq_ok.mp h
  obtain ⟨lValue, -, h⟩ := bind_eq_ok.mp h
  obtain ⟨_, -, h⟩ := bind_eq_ok.mp h
  obtain ⟨cZip212, -, h⟩ := bind_eq_ok.mp h
  obtain ⟨_, -, h⟩ := bind_eq_ok.mp h
  obtain ⟨_, hroom, h⟩ := bind_eq_ok.mp h
  obtain ⟨_, hlength, -⟩ := bind_eq_ok.mp h
  -- 64 digits are asked for, and 22 are all that `cD` has room for
  rw [trapUnless_eq_ok, decide_eq_true_eq] at hroom
  rw [throwUnless_eq_ok, beq_iff_eq] at hlength
  omega

theorem readSpendingNote_ne_ok {o : UniValue} {n : SpendingNote} : readSpendingNote o ≠ .ok n := by
  intro h
  obtain ⟨fields, -, h⟩ := bind_eq_ok.mp h
  obtain ⟨_, -, h⟩ := bind_eq_ok.mp h
  obtain ⟨p, -, h⟩ := bind_eq_ok.mp h
  exact readNoteFields_ne_ok h

theorem readAll_readSpendingNote {values : List UniValue} {notes : List SpendingNote}
    (h : readAll readSpendingNote values = .ok notes) : values = [] := by
  cases values with
  | nil => rfl
  | cons v vs =>
    obtain ⟨n, hn, -⟩ := bind_eq_ok.mp h
    exact absurd hn readSpendingNote_ne_ok

def saplingUpgrades : NetworkUpgrades
  | .upgradeCanopy => -1
  | _ => 0

def payAddresses : AddressCodec where
  decodePaymentAddress s :=
    if s = asciiBytes "zsender" then .sapling ⟨Vector.replicate 11 1, 21⟩
    else if s = asciiBytes "zpayee" then .sapling ⟨Vector.replicate 11 2, 22⟩ else .invalid
  decodeDestination _ := .noDestination

def senderWallet : SigningWallet where
  codec := payAddresses
  unlocked := true
  spendingKey addr := if addr = ⟨Vector.replicate 11 1, 21⟩ then some ⟨1, 2, 3⟩ else none

def payCalls : List OfflineCall :=
  [.online (.setFee 10000),
    .prepare (asciiBytes "zsender") ⟨0, 0, 0⟩
      ⟨Vector.replicate 11 1, 21, 40000, 5, .beforeZip212⟩ 7 12 (Vector.replicate 1065 0) 6,
    .output (asciiBytes "zpayee") 30000 (Vector.replicate 512 65) 0 9]

def payBuilder (upgrades : NetworkUpgrades) : TransactionBuilder :=
  .offline upgrades false true 120 0x892f2085 4 100 0 0

end Elosys
