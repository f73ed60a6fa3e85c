import Elosys.TokenOpret

/-!
# Tokens

The tokens contract of `cc/CCtokens.cpp`. An output holds tokens if its transaction's last output
names the token, and its script can be built from the keys there and those of the inputs.
`IsTokensvout` may ask besides that as many tokens come into that transaction as go out.
-/

open ByteCodec

namespace Elosys

/-- What a validation asks the rest of the node. -/
structure CCWorld where
  getTx : UInt256 → Option CTransaction
  chainName : List UInt8
  height : Int

def CCWorld.output? (world : CCWorld) (o : COutPoint) : Option CTxOut :=
  (world.getTx o.hash).bind fun t => t.vout[o.n]?

section

variable [CryptoHash] [CCLibrary]

open CCLibrary

/-! ### Keys -/

/-- The keys of inputs with tokens; without one, the key before counts again. -/
def vinPubkeysFrom : CPubKey → List CTxIn → List CPubKey
  | _, [] => []
  | pubkey, i :: vin =>
    if ismyvin evalTokens i.scriptSig then
      let pubkey := (vinPubkey i.scriptSig).getD pubkey
      if pubkey.isValid then pubkey :: vinPubkeysFrom pubkey vin else vinPubkeysFrom pubkey vin
    else vinPubkeysFrom pubkey vin

variable (e : TokenEvals) (world : CCWorld) (reftokenid : UInt256) (tx : CTransaction)

def extractTokensCCVinPubkeys : List CPubKey := vinPubkeysFrom [] tx.vin

def filterOutTokensUnspendablePk (pks : List CPubKey) : List CPubKey :=
  pks.filter fun pk => pk != getUnspendable evalTokens

def valueFrom (pubkey : CPubKey) (out : CTxOut) : CAmount :=
  match solver out.scriptPubKey with
  | some (.pubkey, sol :: _) => if pubkey = pubkey2pk sol then out.nValue else 0
  | some (.pubkeyhash, sol :: _) =>
    if CryptoHash.Hash160 pubkey = BitVec.ofNat 160 (ofLeBytes sol) then out.nValue else 0
  | _ => 0

def totalPubkeyNormalInputs (pubkey : CPubKey) : CAmount :=
  (tx.vin.map fun i =>
    if isCCInput i.scriptSig then 0
    else
      match (world.getTx i.prevout.hash).bind fun vintx => vintx.vout[i.prevout.n]? with
      | some out => valueFrom pubkey out
      | none => 0).sum

/-! ### The scripts of outputs with tokens -/

def isTokenMarkerVout (vout : CTxOut) : Bool :=
  vout == makeCC1vout evalTokens vout.nValue (getUnspendable evalTokens)

def getNonfungibleData (tokenid : UInt256) : List UInt8 :=
  match (world.getTx tokenid).bind fun tokenbasetx => tokenbasetx.vout.getLast? with
  | none => []
  | some out =>
    match decodeTokenCreateOpRet out.scriptPubKey with
    | none => []
    | some c => getOpretBlob c.oprets opretIdNonfungibleData

/-- The evaluations outputs may have besides tokens'. -/
structure TokenEvals where
  nonfungible : UInt8
  evalCode1 : UInt8
  evalCode2 : UInt8

/-- The evaluations, from the data of token and transaction. -/
def tokenEvalcodes (vopretNonfungible vopretExtra : List UInt8) : TokenEvals :=
  let nonfungible := vopretNonfungible.headD 0
  let evalCode1 := vopretNonfungible.headD evalTokens
  let evalCode2 := vopretExtra.headD 0
  if evalCode1 = evalTokens ∧ evalCode2 ≠ 0 then ⟨nonfungible, evalCode2, 0⟩
  else ⟨nonfungible, evalCode1, evalCode2⟩

/-- An output with one key, evaluations in both orders. -/
def bothOrders (make : UInt8 → UInt8 → CTxOut) : List CTxOut :=
  [make e.evalCode1 e.evalCode2] ++
    if e.evalCode2 ≠ 0 then [make e.evalCode2 e.evalCode1] else []

/-- Outputs that have only some of the evaluations. -/
def fewerEvals (nValue : CAmount) (pk : CPubKey) : List CTxOut :=
  (if e.nonfungible = 0 then [makeCC1vout evalTokens nValue pk] else []) ++
    (if e.evalCode1 ≠ 0 then [makeTokensCC1vout e.evalCode1 0 nValue pk] else []) ++
    (if e.evalCode2 ≠ 0 then [makeTokensCC1vout e.evalCode2 0 nValue pk] else [])

/-- The outputs built from the keys in the last output. -/
def opretVouts (nValue : CAmount) : List CPubKey → List CTxOut
  | [pk] =>
    bothOrders e (makeTokensCC1vout · · nValue pk) ++ fewerEvals e nValue pk
  | [pk1, pk2] =>
    bothOrders e (makeTokensCC1vout · · nValue pk1) ++
      bothOrders e (makeTokensCC1of2vout · · nValue pk1 pk2) ++
      bothOrders e (makeTokensCC1vout · · nValue pk2) ++
      fewerEvals e nValue pk1 ++ fewerEvals e nValue pk2
  | _ => []

/-- The outputs returning tokens to the inputs' keys. -/
def changeVouts (nValue : CAmount) (pks : List CPubKey) : List CTxOut :=
  pks.flatMap fun pk =>
    (if e.nonfungible = 0 then [makeCC1vout evalTokens nValue pk] else []) ++
      bothOrders e (makeTokensCC1vout · · nValue pk)

/-- All valued outputs that count as tokens in a transfer. -/
def testVouts (reftokenid : UInt256) (o : TokenOpret) (nValue : CAmount) : List CTxOut :=
  let e := tokenEvalcodes (getNonfungibleData world reftokenid) (filterOutNonCCOprets o.oprets)
  opretVouts e nValue (filterOutTokensUnspendablePk o.voutPubkeys) ++
    changeVouts e nValue (filterOutTokensUnspendablePk (extractTokensCCVinPubkeys tx))

/-! ### Which outputs hold tokens -/

/-- `ValidateTokenOpret`: the last output's data, if of a token. -/
def validateTokenOpret (tokenid : UInt256) : Option TokenOpret :=
  match tx.vout.getLast? with
  | none => none
  | some out =>
    (decodeTokenOpRet out.scriptPubKey).filter fun o =>
      if o.funcid = funcCode 'c' ∨ o.funcid = funcCode 'i' then
        tokenid != UInt256.null && tokenid == tx.hash
      else if o.funcid = funcCode 't' then tokenid != UInt256.null && tokenid == o.tokenid
      else false

def createdOutputs : CAmount :=
  ((tx.vout.filter fun out =>
    out.scriptPubKey.isPayToCryptoCondition && !isTokenMarkerVout out).map CTxOut.nValue).sum

def creationPaid : Bool :=
  tx.isCoinImport ||
    match tx.vout.getLast?.bind fun out => decodeTokenCreateOpRet out.scriptPubKey with
    | none => false
    | some c =>
      createdOutputs tx ≤ totalPubkeyNormalInputs world tx (pubkey2pk c.origpubkey)

/-- `IsTokensvout` without `goDeeper`: an output's tokens. -/
def tokensvout (v : Nat) : CAmount :=
  if tx.vout.length ≤ v + 1 then 0
  else
    match tx.vout[v]? with
    | none => 0
    | some out =>
      if out.scriptPubKey.isPayToCryptoCondition then
        match validateTokenOpret tx reftokenid with
        | none => 0
        | some o =>
          if o.funcid ≠ funcCode 'c' then
            if out ∈ testVouts world tx reftokenid o out.nValue then out.nValue else 0
          else if creationPaid world tx && !isTokenMarkerVout out then out.nValue
          else 0
      else 0

/-- The input sum of `TokensExactAmounts`, with the worth of an output; nothing if a transaction
is not found. -/
def tokenInputs (world : CCWorld) (count : CTransaction → Nat → CAmount) :
    List CTxIn → Option CAmount
  | [] => some 0
  | i :: vin =>
    if ismyvin evalTokens i.scriptSig then do
      let vinTx ← world.getTx i.prevout.hash
      let rest ← tokenInputs world count vin
      return count vinTx i.prevout.n + rest
    else tokenInputs world count vin

def tokenOutputs : CAmount :=
  ((List.range (tx.vout.length - 1)).map (tokensvout world reftokenid tx)).sum

/-- `TokensExactAmounts`: as many come in as go out. -/
def tokensExactAmounts (count : CTransaction → Nat → CAmount)
    (reftokenid : UInt256) (tx : CTransaction) : Bool :=
  tokenInputs world count tx.vin == some (tokenOutputs world reftokenid tx)

/-- `IsTokensvout` with `goDeeper`: as many tokens also come in as go out, or it is the creation;
inputs are counted without it. -/
def isTokensvout (v : Nat) : CAmount :=
  if tokensExactAmounts world (tokensvout world reftokenid) reftokenid tx ||
      reftokenid == tx.hash then
    tokensvout world reftokenid tx v
  else 0

/-! ### Spending tokens -/

/-- `CC_BURNPUBKEY`: tokens sent to it are burned. -/
def ccBurnPubkey : CPubKey := 0x02 :: (List.replicate 16 [0xde, 0xad]).flatten

/-- The outputs of `HasBurnedTokensvouts`: a script built for one is tried on later ones. -/
def burnedFrom (e : TokenEvals) : List CTxOut → List CTxOut → CAmount
  | _, [] => 0
  | tests, out :: vout =>
    if out.scriptPubKey.isPayToCryptoCondition then
      let tests := tests ++ [makeCC1vout evalTokens out.nValue ccBurnPubkey] ++
        bothOrders e (makeTokensCC1vout · · out.nValue ccBurnPubkey)
      ((tests.filter (· == out)).map CTxOut.nValue).sum + burnedFrom e tests vout
    else burnedFrom e tests vout

def hasBurnedTokensvouts (reftokenid : UInt256) : CAmount :=
  match tx.vout.getLast?.bind fun out => decodeTokenOpRet out.scriptPubKey with
  | none => 0
  | some o =>
    burnedFrom (tokenEvalcodes (getNonfungibleData world reftokenid)
      (filterOutNonCCOprets o.oprets)) [] tx.vout

/-- The amounts in `TokensValidate`: what comes in and goes out. -/
def tokenAmounts (o : TokenOpret) : Except EvalFault CAmount := do
  if o.funcid = funcCode 'c' then return 0
  else
    invalidIf (o.tokenid == UInt256.null) "illegal tokenid"
    invalidIf (!tokensExactAmounts world (isTokensvout world o.tokenid) o.tokenid tx)
      "tokens cc inputs != cc outputs"
    return tokenOutputs world o.tokenid tx

/-- A token's marker is spent while tokens are burned. -/
def spendsMarker (tokenid : UInt256) : Bool :=
  (extractTokensCCVinPubkeys tx).contains (getUnspendable evalTokens) &&
    (0 < hasBurnedTokensvouts world tx tokenid && (getNonfungibleData world tokenid).isEmpty)

/-- The exception from before tokens were checked on one chain. -/
def tokensExempt : Bool :=
  world.chainName == asciiBytes "ROGUE" && decide (world.height ≤ 12500)

/-- The checks of `TokensValidate`. That a deeper `eval->Invalid` is not returned is not modelled.
-/
def tokensChecks : Except EvalFault Unit := do
  let last ← someOrInvalid tx.vout.getLast? "no vouts"
  let o ← someOrInvalid (decodeTokenOpRet last.scriptPubKey)
    "TokenValidate: invalid opreturn payload"
  let _createTx ← someOrInvalid (world.getTx o.tokenid) "cant find token create txid"
  let inputs ← tokenAmounts world tx o
  invalidIf (spendsMarker world tx o.tokenid)
    "spending cc marker not supported for fungible tokens"
  invalidIf (o.funcid == funcCode 'c') "incorrect token funcid"
  invalidIf (o.funcid != funcCode 't') "unexpected token funcid"
  invalidIf (inputs == 0) "no token inputs for transfer"

def tokensValidate : Except EvalFault Unit :=
  if tokensExempt world then .ok () else tokensChecks world tx

variable {world : CCWorld} {tokenid : UInt256} {tx : CTransaction}

theorem tokensChecks_cases (h : tokensChecks world tx = .ok ()) :
    ∃ last o, tx.vout.getLast? = some last ∧ decodeTokenOpRet last.scriptPubKey = some o ∧
      o.funcid = funcCode 't' ∧ o.tokenid ≠ UInt256.null ∧
      (∃ createTx, world.getTx o.tokenid = some createTx) ∧
      tokenInputs world (isTokensvout world o.tokenid) tx.vin
        = some (tokenOutputs world o.tokenid tx) ∧
      tokenOutputs world o.tokenid tx ≠ 0 := by
  simp only [tokensChecks, bind_eq_ok, someOrInvalid_eq_ok, invalidIf_eq_ok] at h
  obtain ⟨last, hlast, o, ho, createTx, hcreate, inputs, hinputs, -, -, -, hc, -, ht, hzero⟩ := h
  have hfunc : o.funcid = funcCode 't' := by simpa using ht
  have hne : o.funcid ≠ funcCode 'c' := by simpa using hc
  simp only [tokenAmounts, if_neg hne, bind_eq_ok, invalidIf_eq_ok] at hinputs
  obtain ⟨-, hid, -, hexact, hret⟩ := hinputs
  obtain rfl := Except.ok.inj hret
  refine ⟨last, o, hlast, ho, hfunc, by simpa using hid, ⟨createTx, hcreate⟩, ?_,
    by simpa using hzero⟩
  simpa [tokensExactAmounts] using hexact

omit [CryptoHash] [CCLibrary] in
theorem validateTokenOpret_cases {o : TokenOpret} (h : validateTokenOpret tx tokenid = some o) :
    ∃ last, tx.vout.getLast? = some last ∧ decodeTokenOpRet last.scriptPubKey = some o ∧
      ((o.funcid = funcCode 'c' ∧ tokenid = tx.hash) ∨
        (o.funcid = funcCode 't' ∧ tokenid = o.tokenid)) := by
  unfold validateTokenOpret at h
  split at h
  · exact absurd h (by simp)
  next last hlast =>
  obtain ⟨ho, hkind⟩ := Option.filter_eq_some_iff.mp h
  refine ⟨last, hlast, ho, ?_⟩
  rcases decodeTokenOpRet_funcid ho with ⟨hc, -⟩ | ht
  · rw [if_pos (.inl hc)] at hkind
    exact .inl ⟨hc, beq_iff_eq.mp (Bool.and_eq_true_iff.mp hkind).2⟩
  · have hother : ¬ (o.funcid = funcCode 'c' ∨ o.funcid = funcCode 'i') := by
      rw [ht]
      decide
    rw [if_neg hother, if_pos ht] at hkind
    exact .inr ⟨ht, beq_iff_eq.mp (Bool.and_eq_true_iff.mp hkind).2⟩

end

end Elosys
