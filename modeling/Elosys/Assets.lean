import Elosys.Tokens

/-!
# Assets

The assets contract of `cc/assets.cpp` and `cc/CCassetsCore.cpp`: offers to buy and to sell tokens
lock coins or tokens until they are filled or taken back. The checks are in the order of the source;
an unasked read or division is a trap.
-/

namespace Elosys

open ByteCodec

/-! ### What an offer says -/

/-- What `DecodeAssetTokenOpRet` gives. -/
structure AssetOpret where
  funcid : UInt8
  assetid : UInt256
  assetid2 : UInt256 := UInt256.null
  price : CAmount := 0
  origpubkey : List UInt8 := []
  deriving DecidableEq

def readOffer : Reader (CAmount × List UInt8) := do
  skip 2
  let price ← readAmount
  let origpubkey ← readByteVector
  return (price, origpubkey)

def readExchange : Reader (UInt256 × CAmount × List UInt8) := do
  skip 2
  let assetid2 ← readUint256
  let price ← readAmount
  let origpubkey ← readByteVector
  return (revuint256 assetid2, price, origpubkey)

/-- `DecodeAssetTokenOpRet`: nothing for the function id 0. -/
def decodeAssetTokenOpRet (scriptPubKey : CScript) : Option AssetOpret := do
  let token ← decodeTokenOpRet scriptPubKey
  match getOpretBlob token.oprets opretIdAssetsData with
  | evalcode :: funcid :: rest =>
    if evalcode = evalAssets then
      if funcid = funcCode 'x' ∨ funcid = funcCode 'o' then
        if rest = [] then some { funcid := funcid, assetid := token.tokenid } else none
      else if funcid ∈ [funcCode 's', funcCode 'b', funcCode 'S', funcCode 'B'] then
        (unmarshal readOffer (evalcode :: funcid :: rest)).map fun p =>
          { funcid := funcid, assetid := token.tokenid, price := p.1, origpubkey := p.2 }
      else if funcid = funcCode 'E' ∨ funcid = funcCode 'e' then
        (unmarshal readExchange (evalcode :: funcid :: rest)).map fun p =>
          { funcid := funcid, assetid := token.tokenid, assetid2 := p.1, price := p.2.1,
            origpubkey := p.2.2 }
      else none
    else none
  | _ => none

theorem decodeAssetTokenOpRet_of_condition {s : CScript} (h : s.isPayToCryptoCondition = true) :
    decodeAssetTokenOpRet s = none := by
  have htoken : decodeTokenOpRet s = none := by
    simp [decodeTokenOpRet, vopretOf, getOpReturnData_of_condition h]
  simp [decodeAssetTokenOpRet, htoken]

def assetOpretOf (tx : CTransaction) : Option AssetOpret :=
  tx.vout.getLast?.bind fun out => decodeAssetTokenOpRet out.scriptPubKey

/-- `EncodeAssetOpRet` for offers and fills. -/
def encodeAssetOpRet (assetFuncId : UInt8) (price : CAmount) (origpubkey : List UInt8) :
    List UInt8 :=
  [evalAssets, assetFuncId] ++ leBytes 8 price.toUInt64.toNat ++ byteVector origpubkey

section

variable [CryptoHash] [CCLibrary]

open CCLibrary

/-! ### The offer that is spent -/

variable (cp : CCcontractInfo)

/-- `GetAssetorigaddrs`: the owner's token and coin addresses. -/
def getAssetorigaddrs (vintx : CTransaction) : Option (Address × Address) := do
  let o ← assetOpretOf vintx
  if o.funcid ∈ [funcCode 's', funcCode 'S', funcCode 'b', funcCode 'B'] then
    let origCCaddr := getTokensCCaddress ⟨evalTokens, cp.additionalTokensEvalcode2⟩
      (pubkey2pk o.origpubkey)
    if origCCaddr = [] then none
    else
      (getscriptaddress (pushInstruction o.origpubkey ++ [opChecksig])).map fun origNormalAddr =>
        (origCCaddr, origNormalAddr)
  else none

def checkAssetsAddr (vinTx : CTransaction) (n : Nat) (unspendableAddr : Address) :
    Except EvalFault Unit := do
  let out ← voutAt vinTx n
  invalidIf (getscriptaddress out.scriptPubKey != some unspendableAddr || unspendableAddr == [])
    "invalid vin assets CCaddr"

/-- The contract address an output is spent from: with tokens for an offer to sell, with coins for
one to buy. -/
def checkAssetsSource (funcid : UInt8) (vinTx : CTransaction) (n : Nat) : Except EvalFault Unit :=
  if funcid = funcCode 'S' ∨ funcid = funcCode 'x' then
    checkAssetsAddr vinTx n (getTokensCCaddress cp (getUnspendable cp.evalcode))
  else if funcid = funcCode 'B' ∨ funcid = funcCode 'o' then
    checkAssetsAddr vinTx n (getCCaddress cp (getUnspendable cp.evalcode))
  else .ok ()

/-- The transaction an input spends from, what it locks and the owner's addresses. -/
structure AssetVin where
  vinTx : CTransaction
  nValue : CAmount
  origCCaddr : Address
  origaddr : Address

variable (world : CCWorld) (tx : CTransaction)

def assetValidateCCvin (vini : Nat) : Except EvalFault AssetVin := do
  invalidIf (tx.vin.length < 2) "not enough for CC vins"
  let vin ← vinAt tx vini
  invalidIf (vin.prevout.n != 0) "vin1 needs to be buyvin.vout[0]"
  let vinTx ← someOrInvalid (world.getTx vin.prevout.hash) "always should find CCvin, but didnt"
  checkAssetsSource cp (((assetOpretOf tx).map AssetOpret.funcid).getD 0) vinTx vin.prevout.n
  let addrs ← someOrInvalid (getAssetorigaddrs cp vinTx) "couldnt get origaddr for buyvin"
  let vout0 ← voutAt vinTx 0
  invalidIf (vout0.nValue == 0) "null value CCvin"
  return ⟨vinTx, vout0.nValue, addrs.1, addrs.2⟩

/-- An offer that is spent, and what it says. -/
structure AssetOffer where
  vin : AssetVin
  offer : AssetOpret

/-- The marker of an offer to buy, which only the first has. -/
def checkBuyMarker (vinTx : CTransaction) : Except EvalFault Unit :=
  if (assetOpretOf vinTx).map AssetOpret.funcid = some (funcCode 'b') then do
    let vout1 ← voutAt vinTx 1
    invalidIf (!vout1.scriptPubKey.isPayToCryptoCondition) "invalid normal vout1 for buyvin"
  else .ok ()

/-- `AssetValidateBuyvin`: the offer to buy that is spent. -/
def assetValidateBuyvin (refassetid : UInt256) : Except EvalFault AssetOffer := do
  let vin ← assetValidateCCvin cp world tx 1
  let vout0 ← voutAt vin.vinTx 0
  invalidIf (!vout0.scriptPubKey.isPayToCryptoCondition) "invalid normal vout0 for buyvin"
  checkBuyMarker vin.vinTx
  let offer ← someOrInvalid ((assetOpretOf vin.vinTx).filter fun o =>
    o.funcid == funcCode 'b' || o.funcid == funcCode 'B') "invalid opreturn for buyvin"
  invalidIf (refassetid != offer.assetid) "invalid assetid for buyvin"
  return ⟨vin, offer⟩

def validateAssetOpret (v : Nat) (assetid : UInt256) : Option AssetOpret :=
  (assetOpretOf tx).filter fun o =>
    if o.funcid ≠ funcCode 'E' then assetid != UInt256.null && o.assetid == assetid
    else if v < 2 ∧ assetid ≠ UInt256.null ∧ o.assetid = assetid then true
    else v == 2 && (assetid != UInt256.null && o.assetid2 == assetid)

def isAssetvout (v : Nat) (refassetid : UInt256) : Option (CAmount × AssetOpret) :=
  if tx.vout.length ≤ v + 1 then none
  else
    match tx.vout[v]? with
    | none => none
    | some out =>
      if out.scriptPubKey.isPayToCryptoCondition then
        (validateAssetOpret tx v refassetid).map fun o => (out.nValue, o)
      else none

/-- `AssetValidateSellvin`: the offer to sell spent. -/
def assetValidateSellvin (assetid : UInt256) : Except EvalFault AssetOffer := do
  let vin ← assetValidateCCvin cp world tx 1
  let assetoshis ← someOrInvalid ((isAssetvout vin.vinTx 0 assetid).filter fun p => p.1 != 0)
    "invalid missing CC vout0 for sellvin"
  return ⟨{ vin with nValue := assetoshis.1 }, assetoshis.2⟩

/-- A quotient that is only computed under a condition. -/
def divIf (b : Bool) (a c : CAmount) : Except EvalFault CAmount :=
  if b then divInt64 a c else .ok 0

/-- The prices of `ValidateBidRemainder` and `ValidateAskRemainder`: what moves is not cheaper
than the offer. The remaining price is computed for the log only. -/
def unitpricesOk (newPrice : Bool)
    (coins units movedCoins movedUnits leftCoins leftUnits : CAmount) :
    Except EvalFault Bool := do
  let unitprice ← divInt64 coins units
  let recvunitprice ← divInt64 movedCoins movedUnits
  let _newunitprice ← divIf newPrice leftCoins leftUnits
  return !decide (recvunitprice < unitprice)

def validateBidRemainder (remainingUnits remainingNValue origNValue receivedNValue paidunits
    totalunits : CAmount) : Except EvalFault Bool :=
  if origNValue = 0 ∨ receivedNValue = 0 ∨ paidunits = 0 ∨ totalunits = 0 then .ok false
  else if totalunits ≠ remainingUnits + paidunits then .ok false
  else if origNValue ≠ remainingNValue + receivedNValue then .ok false
  else
    unitpricesOk (remainingUnits != 0) origNValue totalunits receivedNValue paidunits
      remainingNValue remainingUnits

/-- `ValidateAskRemainder`: what is checked is not what is divided by. -/
def validateAskRemainder (remainingNValue remainingAssetoshis origAssetoshis receivedAssetoshis
    paidNValue totalNValue : CAmount) : Except EvalFault Bool :=
  if origAssetoshis = 0 ∨ receivedAssetoshis = 0 ∨ paidNValue = 0 ∨ totalNValue = 0 then .ok false
  else if totalNValue ≠ remainingNValue + paidNValue then .ok false
  else if origAssetoshis ≠ remainingAssetoshis + receivedAssetoshis then .ok false
  else
    unitpricesOk (remainingNValue != 0) totalNValue origAssetoshis paidNValue receivedAssetoshis
      remainingNValue remainingAssetoshis

/-! ### The validation -/

/-- The exceptions from before offers were checked on two chains. -/
def assetsExempt : Bool :=
  world.chainName == asciiBytes "SEC" && decide (world.height ≤ 144073) ||
    world.chainName == asciiBytes "MGNX" && decide (world.height ≤ 210190)

/-- The contract with the evaluation of a non-fungible token; without one, the value of the
validation before stays. -/
def withNonfungible (vopretNonfungible : List UInt8) : CCcontractInfo :=
  match vopretNonfungible with
  | [] => cp
  | evalcode :: _ => { cp with additionalTokensEvalcode2 := evalcode }

omit [CryptoHash] [CCLibrary] in
@[simp] theorem withNonfungible_evalcode (vopretNonfungible : List UInt8) :
    (withNonfungible cp vopretNonfungible).evalcode = cp.evalcode := by
  cases vopretNonfungible with
  | nil => rfl
  | cons evalcode rest => rfl

/-- The tokens that come in, by `AssetCalcAmounts`. -/
def assetInputs (o : AssetOpret) : Except EvalFault CAmount := do
  if o.funcid = funcCode 'c' then return 0
  else
    invalidIf (o.assetid == UInt256.null) "illegal assetid"
    someOrInvalid (tokenInputs world (tokensvout world o.assetid) tx.vin)
      "always should find vin tx, but didnt"

/-- What the first part of `AssetsValidate` finds. -/
structure AssetsHead where
  cp : CCcontractInfo
  opret : AssetOpret
  inputs : CAmount

/-- The first part of `AssetsValidate`. -/
def assetsHead : Except EvalFault AssetsHead := do
  let last ← someOrInvalid tx.vout.getLast? "AssetValidate: no vouts"
  let o ← someOrInvalid (decodeAssetTokenOpRet last.scriptPubKey)
    "AssetValidate: invalid opreturn payload"
  let cancels := o.funcid == funcCode 'o' || o.funcid == funcCode 'x'
  invalidIf (!cancels && (world.getTx o.assetid).isNone) "cant find asset create txid"
  invalidIf (!cancels && (o.assetid2 != UInt256.null && (world.getTx o.assetid2).isNone))
    "cant find asset2 create txid"
  let vin0 ← vinAt tx 0
  invalidIf (CCLibrary.isCCInput vin0.scriptSig) "illegal asset vin0"
  invalidIf (tx.vout.length < 2) "too few vouts"
  let inputs ← assetInputs world tx o
  return ⟨withNonfungible cp (getNonfungibleData world o.assetid), o, inputs⟩

def cancelbuy (world : CCWorld) (tx : CTransaction) (h : AssetsHead) : Except EvalFault Unit := do
  let bid ← assetValidateBuyvin h.cp world tx h.opret.assetid
  let vout0 ← voutAt tx 0
  invalidIf (!constrainVout vout0 false (some bid.vin.origaddr) bid.vin.nValue)
    "invalid refund for cancelbuy"

def cancelsell (h : AssetsHead) : Except EvalFault Unit := do
  let ask ← assetValidateSellvin h.cp world tx h.opret.assetid
  let vout0 ← voutAt tx 0
  invalidIf (!constrainVout vout0 true (some ask.vin.origCCaddr) ask.vin.nValue)
    "invalid vout for cancel"

def fillOffer (found : Except EvalFault AssetOffer) (fewVouts mismatch value : String)
    (tx : CTransaction) (h : AssetsHead) : Except EvalFault AssetOffer := do
  let o ← found
  invalidIf (tx.vout.length < 4) fewVouts
  invalidIf (o.offer.origpubkey != h.opret.origpubkey) mismatch
  let vout0 ← voutAt tx 0
  let vout1 ← voutAt tx 1
  invalidIf (o.vin.nValue != vout0.nValue + vout1.nValue) value
  return o

def fillbuyOffer (h : AssetsHead) : Except EvalFault AssetOffer :=
  fillOffer (assetValidateBuyvin h.cp world tx h.opret.assetid) "not enough vouts for fillbuy"
    "mismatched origpubkeys for fillbuy" "locked value doesnt match vout0+1 fillbuy" tx h

def fillsellOffer (h : AssetsHead) : Except EvalFault AssetOffer :=
  fillOffer (assetValidateSellvin h.cp world tx h.opret.assetid) "not enough vouts for fillask"
    "mismatched origpubkeys for fillask" "locked value doesnt match vout0+1 fillask" tx h

def fillbuyChange (h : AssetsHead) (bid : AssetOffer) (vout4 : CTxOut) :
    Except EvalFault Nat := do
  let vout2 ← voutAt tx 2
  invalidIf (!constrainVout vout2 true (some bid.vin.origCCaddr) 0)
    "vout2 doesnt go to origpubkey fillbuy"
  invalidIf (h.inputs != vout2.nValue + vout4.nValue) "asset inputs doesnt match vout2+3 fillbuy"
  return 5

def fillbuyExact (h : AssetsHead) (bid : AssetOffer) : Except EvalFault Nat := do
  let vout0 ← voutAt tx 0
  let vout1 ← voutAt tx 1
  let vout2 ← voutAt tx 2
  let vout3 ← voutAt tx 3
  invalidIf (!constrainVout vout2 true (some bid.vin.origCCaddr) h.inputs)
    "vout2 doesnt match inputs fillbuy"
  invalidIf (!constrainVout vout1 false none 0) "vout1 is CC for fillbuy"
  invalidIf (!constrainVout vout3 true (some (getCCaddress h.cp (pubkey2pk h.opret.origpubkey)))
    10000) "invalid marker for original pubkey"
  let remainderOk ← validateBidRemainder h.opret.price vout0.nValue bid.vin.nValue
    vout1.nValue vout2.nValue bid.offer.price
  invalidIf (!remainderOk) "mismatched remainder for fillbuy"
  invalidIf (h.opret.price != 0 && !constrainVout vout0 true
    (some (CCLibrary.unspendableCCaddr h.cp.evalcode)) 0)
    "mismatched vout0 AssetsCCaddr for fillbuy"
  return 4

section

variable (world : CCWorld) (tx : CTransaction) (h : AssetsHead)

/-- An offer to buy is filled: the fifth of perhaps four outputs is read. Gives the first output
that may have no condition. -/
def fillbuy : Except EvalFault Nat := do
  let bid ← fillbuyOffer world tx h
  let vout4 ← voutAt tx 4
  if vout4.scriptPubKey.isPayToCryptoCondition then fillbuyChange tx h bid vout4
  else fillbuyExact tx h bid

def fillsell : Except EvalFault Unit := do
  let ask ← fillsellOffer world tx h
  let vout0 ← voutAt tx 0
  let vout1 ← voutAt tx 1
  let vout2 ← voutAt tx 2
  let vout3 ← voutAt tx 3
  let remainderOk ← validateAskRemainder h.opret.price vout0.nValue ask.vin.nValue
    vout1.nValue vout2.nValue ask.offer.price
  invalidIf (!remainderOk) "mismatched remainder for fillask"
  invalidIf (!constrainVout vout1 true none 0) "normal vout1 for fillask"
  invalidIf (!constrainVout vout2 false (some ask.vin.origaddr) 0) "normal vout1 for fillask"
  invalidIf (!constrainVout vout3 true (some (getCCaddress h.cp (pubkey2pk h.opret.origpubkey)))
    10000) "invalid marker for original pubkey"
  invalidIf (h.opret.price != 0 && !constrainVout vout0 true
    (some (getTokensCCaddress h.cp (CCLibrary.getUnspendable h.cp.evalcode))) 0)
    "mismatched vout0 assets dual unspendable CCaddr for fill sell"

/-- The cases of `AssetsValidate`: where inputs and outputs may have no conditions. -/
def assetsCases : Except EvalFault (Option Nat × Option Nat) :=
  if h.opret.funcid = funcCode 'c' then .error (.invalid "invalid asset funcid 'c'")
  else if h.opret.funcid = funcCode 't' then .error (.invalid "invalid asset funcid 't'")
  else if h.opret.funcid = funcCode 'b' then .error (.invalid "invalid asset funcid (b)")
  else if h.opret.funcid = funcCode 'o' then do
    cancelbuy world tx h
    return (some 3, some 0)
  else if h.opret.funcid = funcCode 'B' then do
    let preventCCvouts ← fillbuy world tx h
    return (none, some preventCCvouts)
  else if h.opret.funcid = funcCode 's' then .error (.invalid "invalid asset funcid (s)")
  else if h.opret.funcid = funcCode 'x' then do
    cancelsell world tx h
    return (some 3, some 1)
  else if h.opret.funcid = funcCode 'S' then do
    fillsell world tx h
    return (none, none)
  else if h.opret.funcid = funcCode 'E' then
    .error (.invalid "unexpected assets fillexchange funcid")
  else .error (.invalid "unexpected assets funcid")

end

def assetsValidate : Except EvalFault Unit :=
  if assetsExempt world then .ok ()
  else do
    let h ← assetsHead cp world tx
    let prevent ← assetsCases world tx h
    preventCC tx prevent.1 prevent.2

end

end Elosys
