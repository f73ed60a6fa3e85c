import Mathlib.Data.List.GetD
import Mathlib.Data.List.TakeWhile
import Elosys.StateReplay

/-!
# Notarisations in Blocks

`komodo_connectblock` works out which notaries signed a transaction, and hands its outputs to
`komodo_voutupdate`, which reads a notarisation from a buffer that behind the script holds what was
there before. The fields go into the last checkpoint one by one, and from there into the new one.

## Main results

* A checkpoint's fields all come from one notarisation, in every chain of blocks whose scripts are
  whole.
* Otherwise they need not: one without a MoM takes over that of an earlier one.
-/

open ByteCodec Program List Option Except

namespace Elosys

/-! ### Reading a buffer -/

def bytesAt (buf : List UInt8) (k n : Nat) : List UInt8 := firstOf n (buf.drop k)

/-- The string at a position, up to its zero. -/
def cStringAt (buf : List UInt8) (k : Nat) : List UInt8 := (buf.drop k).takeWhile (· ≠ 0)

def asciiBytes (s : String) : List UInt8 := s.toList.map fun c => UInt8.ofNat c.toNat

/-- Where an `OP_RETURN`'s data starts, and its claimed length. -/
def opretHead (buf : List UInt8) : Nat × Nat :=
  let pushed := buf.getD 1 0
  if pushed = 0x4c then (3, (buf.getD 2 0).toNat)
  else if pushed = 0x4d then (4, (buf.getD 2 0).toNat + 256 * (buf.getD 3 0).toNat)
  else (2, pushed.toNat)

def momOffset (buf : List UInt8) : Nat :=
  (opretHead buf).1 + 68 + ((cStringAt buf ((opretHead buf).1 + 68)).length + 1)

/-- Whether the script has room for a MoM and depth. -/
def momFits (buf : List UInt8) : Bool :=
  momOffset buf + 36 - (opretHead buf).1 ≤ (opretHead buf).2

/-- The notarisation of this chain in an `OP_RETURN`. A MoM of impossible depth is cleared. -/
def notarisationAt (buf : List UInt8) : Notarisation :=
  let len := (opretHead buf).1
  let notarizedheight := int32Of (bytesAt buf (len + 32) 4)
  let MoM := if momFits buf then uint256Of (bytesAt buf (momOffset buf) 32) else .null
  let MoMdepth := if momFits buf then int32Of (bytesAt buf (momOffset buf + 32) 4) else 0
  let impossible := MoM = .null ∨ notarizedheight < MoMdepth &&& 0xffff ∨ MoMdepth &&& 0xffff < 0
  { notarizedheight := notarizedheight
    srchash := uint256Of (bytesAt buf len 32)
    desttxid := uint256Of (bytesAt buf (len + 36) 32)
    MoM := if impossible then .null else MoM
    MoMdepth := if impossible then 0 else MoMdepth }

/-- A connected block, with what the node knows of it. -/
structure KomodoBlock where
  nHeight : Int32
  nTime : UInt32
  hash : UInt256
  vtx : List CTransaction
  scriptbuf : List UInt8 := []
  tipHeight : Int32
  validateChain : UInt256 → Int32 → Bool
  pubkeys : List (List UInt8)
  rmd160 : List UInt8 → List UInt8
  prevScript : COutPoint → Option (List UInt8)
  regtest : Bool := false
  notaryPay : Bool := false
  eraGap : Bool := false

/-- `KOMODO_MINRATIFY`. -/
def minRatify (height : Int32) : Nat := if height < 90000 then 7 else 11

def bitweight (mask : Nat) : Nat := (range 64).countP mask.testBit

def crypto777 : List UInt8 :=
  [0x02, 0x0e, 0x46, 0xe7, 0x9a, 0x2a, 0x8d, 0x12, 0xb9, 0xb5, 0xd1, 0x2c, 0x7a, 0x91, 0xad,
    0xb4, 0xe4, 0x54, 0xed, 0xfa, 0xe4, 0x3c, 0x0a, 0x0c, 0xb8, 0x05, 0x42, 0x7d, 0x2a, 0xc7,
    0x61, 0x3f, 0xd9]

/-! ### `komodo_voutupdate` -/

/-- What the outputs of a transaction have shown so far. -/
structure TxScan where
  specialtx : Bool := false
  isratification : Bool := false
  notarizedheight : Int32 := 0

/-- What `komodo_voutupdate` is told about the output. -/
structure VoutContext where
  height : Int32
  txhash : UInt256
  i : Nat
  j : Nat
  value : UInt64
  notarized : Bool
  signedmask : Nat

/-- `komodo_stateupdate` for the data of an `OP_RETURN`. -/
def opretUpdate (ctx : VoutContext) (opretbuf : List UInt8) (opretlen : Nat) : StateUpdate where
  height := ctx.height
  txhash := ctx.txhash
  opretvalue := ctx.value
  opretbuf := some opretbuf
  opretlen := UInt16.ofNat opretlen
  vout := UInt16.ofNat ctx.j

def extraOffset (buf : List UInt8) : Nat :=
  let mom := if momFits buf then momOffset buf + 36 else momOffset buf
  if momFits buf ∧ mom + 4 - (opretHead buf).1 ≤ (opretHead buf).2 then mom + 4 else mom

/-- The extra data behind a notarisation of `KMD`. -/
def extraData (cfg : KomodoConfig) (ctx : VoutContext) (buf : List UInt8) : Option StateUpdate :=
  let len := extraOffset buf
  let opretlen := (opretHead buf).2
  if cfg.isKMD ∧ len < opretlen ∧ buf.getD len 0 = 0x41 then
    some (opretUpdate ctx (buf.drop len)
      (opretlen - len + 4 + 3 + if buf.getD 1 0 = 0x4d then 1 else 0))
  else none

/-- The symbols that need no signatures. -/
def countsUnsigned (symbol : List UInt8) : Bool :=
  symbol == asciiBytes "PIZZA" || symbol.take 5 == asciiBytes "TXSCL" ||
    symbol == asciiBytes "BEER"

section

variable (cfg : KomodoConfig) (validateChain : UInt256 → Int32 → Bool) (ctx : VoutContext)
  (buf : List UInt8)

/-- The part of `komodo_voutupdate` for an `OP_RETURN`. -/
def opretOps (scan : TxScan) : List LiveOp × TxScan :=
  let len := (opretHead buf).1
  let opretlen := (opretHead buf).2
  let data := buf.drop len
  -- a key of the key-value store
  if !cfg.isKMD && buf.getD len 0 == 0x4b then ([.update (opretUpdate ctx data opretlen)], scan)
  else
    let matched := cStringAt buf (len + 68) == asciiBytes cfg.symbol
    if ctx.j = 1 ∧ (if matched then 68 else 36) ≤ opretlen then
      let n := notarisationAt buf
      let seen := { scan with notarizedheight := n.notarizedheight }
      if matched && (ctx.notarized || countsUnsigned (cStringAt buf (len + 68))) &&
          validateChain n.srchash n.notarizedheight then
        ([.notarisation ctx.height n (extraData cfg ctx buf)], seen)
      else ([], seen)
    else if matched && !(ctx.i = 0 ∧ ctx.j = 1 ∧ opretlen = 149) then
      let isratification := scan.isratification ||
        (68 ≤ opretlen && bytesAt buf len 32 == replicate 32 0)
      let recorded := !isratification &&
        (ctx.signedmask != 0 || (buf.getD len 0 != 0x58 && buf.getD len 0 != 0x41))
      (if recorded then [.update (opretUpdate ctx data opretlen)] else [],
        { scan with isratification := isratification })
    else ([], scan)

/-- `komodo_voutupdate`: what is done and shown. -/
def komodoVoutupdate (scriptlen : Nat) (scan : TxScan) : List LiveOp × TxScan :=
  let special := scriptlen == 35 && buf.getD 0 0 == 33 && buf.getD 34 0 == 0xac &&
    bytesAt buf 1 33 == crypto777
  let scan := { scan with specialtx := scan.specialtx || special }
  if buf.getD 0 0 = 0x6a then opretOps cfg validateChain ctx buf scan else ([], scan)

end

/-! ### `komodo_connectblock` -/

/-- The outputs from index `ctx.j` on; a script overwrites the buffer's front. -/
def scanOutputs (cfg : KomodoConfig) (validateChain : UInt256 → Int32 → Bool) :
    VoutContext → List CTxOut → List UInt8 → TxScan → List LiveOp × TxScan × List UInt8
  | _, [], buf, scan => ([], scan, buf)
  | ctx, out :: outs, buf, scan =>
    let len := out.scriptPubKey.length
    if 4 ≤ len ∧ len ≤ 10001 then
      let buf := out.scriptPubKey ++ buf.drop len
      let here := komodoVoutupdate cfg validateChain { ctx with value := out.nValue.toUInt64 } buf
        len scan
      let rest := scanOutputs cfg validateChain { ctx with j := ctx.j + 1 } outs buf here.2
      (here.1 ++ rest.1, rest.2)
    else scanOutputs cfg validateChain { ctx with j := ctx.j + 1 } outs buf scan

/-- `komodo_notarycmp`: which notary a script pays. -/
def komodoNotarycmp (scriptPubKey : List UInt8) (pubkeys : List (List UInt8))
    (rmd160 : List UInt8) : Option Nat :=
  if scriptPubKey.length = 25 ∧ (scriptPubKey.drop 3).take 20 = rmd160 then some 0
  else if scriptPubKey.length = 35 then
    pubkeys.findIdx? fun pubkey => (scriptPubKey.drop 1).take 33 == pubkey
  else none

/-- The mask of notaries that signed the inputs; the very first is not looked at. -/
def signedMask (b : KomodoBlock) (pubkeys : List (List UInt8)) (i : Nat) (tx : CTransaction) :
    Nat :=
  let inputs := if i = 0 then tx.vin.drop 1 else tx.vin
  let rmd160 := b.rmd160 ((b.pubkeys.head?).getD [])
  let signers := inputs.filterMap fun txin =>
    (b.prevScript txin.prevout).bind fun script =>
      if script = [] then none else komodoNotarycmp script pubkeys rmd160
  signers.foldl (fun mask k => mask ||| 1 <<< k) (if b.nHeight < 91400 then 1 else 0)

def enoughSigned (cfg : KomodoConfig) (b : KomodoBlock) (signedmask : Nat) : Bool :=
  let numvalid := bitweight signedmask
  (decide (b.nHeight < 90000) || signedmask.testBit 0) && decide (minRatify b.nHeight ≤ numvalid) ||
    decide (minRatify b.nHeight ≤ numvalid) && !cfg.isKMD ||
    decide (b.pubkeys.length / 5 < numvalid)

def ratifiedKeys (tx : CTransaction) : List (List UInt8) :=
  (tx.vout.drop 1).dropLast.filterMap fun out =>
    let script := out.scriptPubKey
    if script.length = 35 ∧ script.getD 0 0 = 33 ∧ script.getD 34 0 = 0xac then
      some ((script.drop 1).take 33)
    else none

def ratifyOps (cfg : KomodoConfig) (b : KomodoBlock) (pubkeys : List (List UInt8))
    (tx : CTransaction) (signedmask : Nat) (notarized : Bool) (scan : TxScan) :
    List LiveOp × List (List UInt8) :=
  if notarized && (scan.notarizedheight != 0 || scan.specialtx) && scan.specialtx &&
      scan.isratification && decide (2 < tx.vout.length) then
    let keys := ratifiedKeys tx
    -- the array is cleared before they are stored
    let rows := (range b.pubkeys.length).map fun k => keys.getD k (replicate 33 0)
    if (!cfg.isKMD || decide (b.nHeight < 100000)) &&
        ((signedmask.testBit 0 && decide (minRatify b.nHeight ≤ keys.length)) ||
          decide (b.pubkeys.length / 3 < bitweight signedmask)) then
      ([.update
        { height := b.nHeight
          notarypubs := some keys.flatten
          numnotaries := UInt8.ofNat keys.length }], rows)
    else ([], rows)
  else ([], pubkeys)

def copyScript (buf script : List UInt8) : List UInt8 :=
  if 4 ≤ script.length ∧ script.length ≤ 10001 then script ++ buf.drop script.length else buf

/-- The buffer after a transaction: looking for new notaries copies the scripts between the first
and last output again. -/
def ratifiedBuf (tx : CTransaction) (notarized : Bool) (scan : TxScan) (buf : List UInt8) :
    List UInt8 :=
  if notarized && (scan.notarizedheight != 0 || scan.specialtx) && scan.specialtx &&
      scan.isratification && decide (2 < tx.vout.length) then
    ((tx.vout.drop 1).dropLast.map (·.scriptPubKey)).foldl copyScript buf
  else buf

def txOps (cfg : KomodoConfig) (b : KomodoBlock) (i : Nat) (tx : CTransaction)
    (buf : List UInt8) (pubkeys : List (List UInt8)) :
    List LiveOp × List UInt8 × List (List UInt8) :=
  let signedmask := signedMask b pubkeys i tx
  let simulated := b.regtest && b.nHeight % 7 == 0
  let notarized := enoughSigned cfg b signedmask || simulated
  let ctx : VoutContext := ⟨b.nHeight, tx.hash, i, 0, 0, notarized, signedmask⟩
  let outputs := scanOutputs cfg b.validateChain ctx tx.vout buf {}
  let ratified := ratifyOps cfg b pubkeys tx signedmask notarized outputs.2.1
  ((if simulated then [.simulated b.nHeight b.hash tx.hash] else []) ++ outputs.1 ++ ratified.1,
    ratifiedBuf tx notarized outputs.2.1 outputs.2.2, ratified.2)

/-- The transactions of a block from index `i` on. -/
def txsOps (cfg : KomodoConfig) (b : KomodoBlock) :
    Nat → List CTransaction → List UInt8 → List (List UInt8) → List LiveOp
  | _, [], _, _ => []
  | i, tx :: txs, buf, pubkeys =>
    -- notary pay chains have their notarisation in the second transaction
    if b.eraGap || (decide (1 < i) && b.notaryPay) then [] else
      let here := txOps cfg b i tx buf pubkeys
      here.1 ++ txsOps cfg b (i + 1) txs here.2.1 here.2.2

/-- `komodo_connectblock`, as its effects; `hwmheight` is the height before. -/
def komodoConnectblock (cfg : KomodoConfig) (hwmheight : Int32) (b : KomodoBlock) : List LiveOp :=
  (if hwmheight < b.nHeight then []
    else [.rewind b.nHeight,
      .update { height := b.nHeight, KMDheight := -b.nHeight, KMDtimestamp := b.nTime }]) ++
  .currentHeight b.tipHeight :: (txsOps cfg b 0 b.vtx b.scriptbuf b.pubkeys ++
    [.update { height := b.nHeight, KMDheight := b.nHeight, KMDtimestamp := b.nTime }])

def connectBlocks (cfg : KomodoConfig) : Int32 → List KomodoBlock → List LiveOp
  | _, [] => []
  | hwmheight, b :: blocks =>
    komodoConnectblock cfg hwmheight b ++ connectBlocks cfg b.nHeight blocks

/-! ### Where notarisations come from -/

theorem opretHead_lt (buf : List UInt8) : (opretHead buf).2 < 65536 := by
  have hlow := (buf.getD 2 0).toNat_lt
  have hhigh := (buf.getD 3 0).toNat_lt
  have hpushed := (buf.getD 1 0).toNat_lt
  unfold opretHead
  dsimp only
  split
  · omega
  · split <;> omega

theorem le_extraOffset (buf : List UInt8) : 69 ≤ extraOffset buf := by
  have hmom : 69 ≤ momOffset buf := by
    unfold momOffset
    omega
  unfold extraOffset
  dsimp only
  split <;> split <;> omega

theorem kind_opretUpdate (ctx : VoutContext) (data : List UInt8) {opretlen : Nat}
    (hpos : 0 < opretlen) (hlt : opretlen < 65536) :
    (opretUpdate ctx data opretlen).kind = .opreturn data := by
  have hlen : (0 : UInt16) < UInt16.ofNat opretlen := by
    rwa [UInt16.lt_iff_toNat_lt, UInt16.toNat_ofNat_of_lt' hlt]
  simp [StateUpdate.kind, opretUpdate, hlen]

variable {cfg : KomodoConfig} {ctx : VoutContext} {buf : List UInt8}

theorem kind_extraData
    {u : StateUpdate} (h : extraData cfg ctx buf = some u) : u.kind ≠ .notarized := by
  have hlt := opretHead_lt buf
  have hle := le_extraOffset buf
  unfold extraData at h
  dsimp only at h
  split at h
  · next hdata =>
      obtain rfl := some.inj h
      rw [kind_opretUpdate ctx _ (by omega) (by split <;> omega)]
      exact UpdateKind.noConfusion
  · cases h

variable {height : Int32} {n : Notarisation} {extra : Option StateUpdate}

theorem mem_opretOps {validateChain : UInt256 → Int32 → Bool} {scan : TxScan}
    (h : .notarisation height n extra ∈ (opretOps cfg validateChain ctx buf scan).1) :
    ctx.j = 1 ∧ (∀ u, extra = some u → u.kind ≠ .notarized) ∧ n = notarisationAt buf ∧
      68 ≤ (opretHead buf).2 ∧
      cStringAt buf ((opretHead buf).1 + 68) = asciiBytes cfg.symbol := by
  unfold opretOps at h
  dsimp only at h
  split at h
  · cases mem_singleton.mp h
  · cases hmatched : cStringAt buf ((opretHead buf).1 + 68) == asciiBytes cfg.symbol with
    | false =>
      simp only [hmatched, Bool.false_and, Bool.false_eq_true, if_false] at h
      split at h <;> cases h
    | true =>
      simp only [hmatched, Bool.true_and, if_true] at h
      split at h
      · next hj =>
          split at h
          · cases mem_singleton.mp h
            exact ⟨hj.1, fun u hu => kind_extraData hu, rfl, hj.2, eq_of_beq hmatched⟩
          · cases h
      · split at h
        · split at h
          · cases mem_singleton.mp h
          · cases h
        · cases h

/-- A notarisation read from an `OP_RETURN` naming this chain, stale bytes behind. -/
def ReadFrom (cfg : KomodoConfig) (script : List UInt8) (n : Notarisation) : Prop :=
  ∃ stale, 4 ≤ script.length ∧ (script ++ stale).getD 0 0 = 0x6a ∧
    n = notarisationAt (script ++ stale) ∧ 68 ≤ (opretHead (script ++ stale)).2 ∧
    cStringAt (script ++ stale) ((opretHead (script ++ stale)).1 + 68) = asciiBytes cfg.symbol

theorem mem_scanOutputs {validateChain : UInt256 → Int32 → Bool}
    {outs : List CTxOut} {scan : TxScan}
    (h : .notarisation height n extra ∈ (scanOutputs cfg validateChain ctx outs buf scan).1) :
    ∃ k out, outs[k]? = some out ∧ ctx.j + k = 1 ∧
      (∀ u, extra = some u → u.kind ≠ .notarized) ∧ ReadFrom cfg out.scriptPubKey n := by
  induction outs generalizing ctx buf scan with
  | nil => cases h
  | cons out outs ih =>
    have hlater : ∀ {ctx' : VoutContext} {buf' : List UInt8} {scan' : TxScan}, ctx'.j = ctx.j + 1 →
        .notarisation height n extra ∈ (scanOutputs cfg validateChain ctx' outs buf' scan').1 →
        ∃ k out', (out :: outs)[k]? = some out' ∧ ctx.j + k = 1 ∧
          (∀ u, extra = some u → u.kind ≠ .notarized) ∧ ReadFrom cfg out'.scriptPubKey n := by
      intro ctx' buf' scan' hj hmem
      obtain ⟨k, out', hout, hk, hread⟩ := ih hmem
      exact ⟨k + 1, out', by rwa [getElem?_cons_succ], by omega, hread⟩
    unfold scanOutputs at h
    dsimp only at h
    split at h
    · next hlen =>
        rcases mem_append.mp h with hhere | hrest
        · unfold komodoVoutupdate at hhere
          split at hhere
          · next hopret =>
              obtain ⟨hj, hrecorded, hn, hsize, hname⟩ := mem_opretOps hhere
              exact ⟨0, out, rfl, hj, hrecorded, _, hlen.1, hopret, hn, hsize, hname⟩
          · cases hhere
        · exact hlater rfl hrest
    · exact hlater rfl h

theorem mem_txsOps {b : KomodoBlock} {i : Nat} {txs : List CTransaction}
    {pubkeys : List (List UInt8)}
    (h : .notarisation height n extra ∈ txsOps cfg b i txs buf pubkeys) :
    (∀ u, extra = some u → u.kind ≠ .notarized) ∧
      ∃ tx ∈ txs, ∃ out, tx.vout[1]? = some out ∧ ReadFrom cfg out.scriptPubKey n := by
  induction txs generalizing i buf pubkeys with
  | nil => cases h
  | cons tx txs ih =>
    unfold txsOps at h
    split at h
    · cases h
    · rcases mem_append.mp h with hhere | hrest
      · unfold txOps at hhere
        rcases mem_append.mp hhere with hfront | hratified
        · rcases mem_append.mp hfront with hsimulated | houtputs
          · split at hsimulated
            · cases mem_singleton.mp hsimulated
            · cases hsimulated
          · obtain ⟨k, out, hout, hk, hread⟩ := mem_scanOutputs houtputs
            obtain rfl : k = 1 := by simpa using hk
            exact ⟨hread.1, tx, mem_cons_self, out, hout, hread.2⟩
        · unfold ratifyOps at hratified
          split at hratified
          · dsimp only at hratified
            split at hratified
            · cases mem_singleton.mp hratified
            · cases hratified
          · cases hratified
      · obtain ⟨hrecorded, tx', hmem, hread⟩ := ih hrest
        exact ⟨hrecorded, tx', mem_cons_of_mem tx hmem, hread⟩

theorem mem_connectBlocks {hwmheight : Int32} {blocks : List KomodoBlock}
    (h : .notarisation height n extra ∈ connectBlocks cfg hwmheight blocks) :
    (∀ u, extra = some u → u.kind ≠ .notarized) ∧
      ∃ b ∈ blocks, ∃ tx ∈ b.vtx, ∃ out, tx.vout[1]? = some out ∧
        ReadFrom cfg out.scriptPubKey n := by
  induction blocks generalizing hwmheight with
  | nil => cases h
  | cons b blocks ih =>
    rcases mem_append.mp h with hhere | hrest
    · unfold komodoConnectblock at hhere
      rcases mem_append.mp hhere with hrewind | hblock
      · split at hrewind
        · cases hrewind
        · simp at hrewind
      · rcases mem_cons.mp hblock with hheight | hblock
        · cases hheight
        · rcases mem_append.mp hblock with htxs | hlast
          · obtain ⟨hrecorded, hread⟩ := mem_txsOps htxs
            exact ⟨hrecorded, b, mem_cons_self, hread⟩
          · cases mem_singleton.mp hlast
    · obtain ⟨hrecorded, b', hmem, hread⟩ := ih hrest
      exact ⟨hrecorded, b', mem_cons_of_mem b hmem, hread⟩

/-! ### Scripts that are whole -/

/-- **The script is whole**: an `OP_RETURN` that may name this chain holds the zero behind the
name and all data it pushes. -/
def WholeOpret (cfg : KomodoConfig) (script : List UInt8) : Prop :=
  4 ≤ script.length → script.getD 0 0 = 0x6a → 68 ≤ (opretHead script).2 →
    cStringAt script ((opretHead script).1 + 68) <+: asciiBytes cfg.symbol →
    0 ∈ script.drop ((opretHead script).1 + 68) ∧
      (opretHead script).1 + (opretHead script).2 ≤ script.length

instance (cfg : KomodoConfig) (script : List UInt8) : Decidable (WholeOpret cfg script) :=
  inferInstanceAs (Decidable (_ → _ → _ → _ → _))

section

variable {script stale : List UInt8} {k : Nat}

theorem bytesAt_append {k n : Nat} (h : k + n ≤ script.length) :
    bytesAt (script ++ stale) k n = bytesAt script k n := by
  refine map_congr_left fun i hi => ?_
  have hi := mem_range.mp hi
  rw [drop_append_of_le_length (by omega), getD_append]
  rw [length_drop]
  omega

theorem opretHead_append (h : 4 ≤ script.length) :
    opretHead (script ++ stale) = opretHead script := by
  unfold opretHead
  rw [getD_append _ _ _ _ (by omega), getD_append _ _ _ _ (by omega),
    getD_append _ _ _ _ (by omega)]

theorem cStringAt_append (h : 0 ∈ script.drop k) :
    cStringAt (script ++ stale) k = cStringAt script k := by
  have hk : k ≤ script.length := by
    by_contra hlt
    rw [drop_eq_nil_of_le (by omega)] at h
    cases h
  unfold cStringAt
  rw [drop_append_of_le_length hk, takeWhile_append, if_neg]
  intro hall
  have hprefix := takeWhile_prefix (fun b : UInt8 => decide (b ≠ 0)) (l := script.drop k)
  rw [← hprefix.eq_of_length hall] at h
  simpa using mem_takeWhile_imp h

theorem cStringAt_prefix (h : k ≤ script.length) :
    cStringAt script k <+: cStringAt (script ++ stale) k := by
  unfold cStringAt
  rw [drop_append_of_le_length h, takeWhile_append]
  split
  · have hcut := takeWhile_prefix (l := drop k script) fun b => decide (b ≠ 0)
    exact hcut.trans (prefix_append _ _)
  · exact prefix_rfl

end

theorem notarisationAt_of_whole {script : List UInt8}
    (hwhole : WholeOpret cfg script) (h : ReadFrom cfg script n) : n = notarisationAt script := by
  obtain ⟨stale, hlen, hopret, rfl, hsize, hname⟩ := h
  have hhead : opretHead (script ++ stale) = opretHead script := opretHead_append hlen
  rw [getD_append _ _ _ _ (by omega)] at hopret
  rw [hhead] at hsize hname
  have hbegin : cStringAt script ((opretHead script).1 + 68) <+: asciiBytes cfg.symbol := by
    by_cases hlong : (opretHead script).1 + 68 ≤ script.length
    · rw [← hname]
      exact cStringAt_prefix hlong
    · unfold cStringAt
      rw [drop_eq_nil_of_le (by omega)]
      exact nil_prefix
  obtain ⟨hzero, hfits⟩ := hwhole hlen hopret hsize hbegin
  have hoffset : momOffset (script ++ stale) = momOffset script := by
    unfold momOffset
    rw [hhead, cStringAt_append hzero]
  have hmomFits : momFits (script ++ stale) = momFits script := by
    unfold momFits
    rw [hhead, hoffset]
  have hbytes : ∀ k m, k + m ≤ (opretHead script).1 + (opretHead script).2 →
      bytesAt (script ++ stale) k m = bytesAt script k m :=
    fun k m hkm => bytesAt_append (by omega)
  have hroom : momFits script = true →
      momOffset script + 36 ≤ (opretHead script).1 + (opretHead script).2 := by
    intro hroom
    have := of_decide_eq_true hroom
    omega
  have hMoM : (if momFits script then uint256Of (bytesAt (script ++ stale) (momOffset script) 32)
      else .null) = if momFits script then uint256Of (bytesAt script (momOffset script) 32)
      else .null :=
    ite_congr rfl (fun h => by rw [hbytes _ 32 (by have := hroom h; omega)]) fun _ => rfl
  have hdepth : (if momFits script
      then int32Of (bytesAt (script ++ stale) (momOffset script + 32) 4) else 0) =
      if momFits script then int32Of (bytesAt script (momOffset script + 32) 4) else 0 :=
    ite_congr rfl (fun h => by rw [hbytes _ 4 (by have := hroom h; omega)]) fun _ => rfl
  unfold notarisationAt
  dsimp only
  rw [hhead, hoffset, hmomFits, hbytes (opretHead script).1 32 (by omega),
    hbytes ((opretHead script).1 + 32) 4 (by omega),
    hbytes ((opretHead script).1 + 36) 32 (by omega), hMoM, hdepth]

/-! ### Where checkpoints come from -/

/-- **A checkpoint's fields are a notarisation's**; no MoM there, none here. -/
def NotarizedCheckpoint.Of (cp : NotarizedCheckpoint) (n : Notarisation) : Prop :=
  cp.notarizedHeight = n.notarizedheight ∧ cp.notarizedHash = n.srchash ∧
    cp.notarizedDesttxid = n.desttxid ∧
    cp.MoM = (if n.hasMoM then n.MoM else .null) ∧
    cp.MoMdepth = if n.hasMoM then n.MoMdepth else 0

instance (cp : NotarizedCheckpoint) (n : Notarisation) : Decidable (cp.Of n) :=
  inferInstanceAs (Decidable (_ ∧ _))

theorem checkpoint_of_stateupdate {s : LiveNode} {u : StateUpdate}
    {cp : NotarizedCheckpoint} (h : cp ∈ (komodoStateupdate cfg s u).sp.NPOINTS) :
    cp ∈ s.sp.NPOINTS ∨ (u.kind = .notarized ∧ 0 < u.height ∧
      cp = { s.sp.last with nHeight := u.height }) := by
  unfold komodoStateupdate at h
  split at h
  · exact .inl h
  · next hpos =>
      cases hevent : u.event cfg s.sp with
      | none =>
        rw [hevent] at h
        exact .inl h
      | some e =>
        rw [hevent] at h
        by_cases he : ∃ ntz, e = .notarized ntz
        · obtain ⟨ntz, rfl⟩ := he
          have hkind : u.kind = .notarized ∧ ntz = notarizedEvent cfg s.sp u.height := by
            unfold StateUpdate.event at hevent
            split at hevent
            · cases hevent
            · cases hevent
            · cases hevent
            · split at hevent <;> cases hevent
            · next hkind =>
                cases hevent
                exact ⟨hkind, rfl⟩
          by_cases hrefused : Refused cfg u.height ntz
          · have hsame : (addLive cfg s.sp u.height (.notarized ntz)).NPOINTS = s.sp.NPOINTS :=
              congrArg Kept.NPOINTS (kept_of_refused s.sp hrefused)
            exact .inl (hsame ▸ h)
          · have hadded : (addLive cfg s.sp u.height (.notarized ntz)).NPOINTS =
                s.sp.NPOINTS ++ [ntz.checkpoint u.height] :=
              congrArg Kept.NPOINTS (kept_of_not_refused s.sp hrefused)
            rw [hadded] at h
            rcases mem_append.mp h with hold | hnew
            · exact .inl hold
            · refine .inr ⟨hkind.1, Int32.not_le.mp hpos, ?_⟩
              rw [mem_singleton.mp hnew, hkind.2]
              rfl
        · rw [checkpoints_addLive cfg s.sp u.height fun ntz hne => he ⟨ntz, hne⟩] at h
          exact .inl h

/-- What keeps a checkpoint's fields together. A newer notarisation has a MoM, or none came
before; another call of `komodo_stateupdate` records something or repeats the last checkpoint. -/
def momKnown (s : LiveNode) : LiveOp → Prop
  | .update u => u.kind = .notarized → 0 < u.height → s.sp.last ∈ s.sp.NPOINTS
  | .notarisation height n _ =>
    s.sp.last.notarizedHeight < n.notarizedheight → n.notarizedheight < height →
      n.hasMoM = true ∨ (s.sp.last.MoM = .null ∧ s.sp.last.MoMdepth = 0)
  | _ => True

instance (s : LiveNode) : ∀ op, Decidable (momKnown s op)
  | .update _ => inferInstanceAs (Decidable (_ → _ → _))
  | .notarisation .. => inferInstanceAs (Decidable (_ → _ → _))
  | .rewind _ | .currentHeight _ | .simulated .. => .isTrue trivial

theorem of_setLast {sp : KomodoState} (height : Int32)
    (h : n.hasMoM = true ∨ (sp.last.MoM = .null ∧ sp.last.MoMdepth = 0)) :
    NotarizedCheckpoint.Of { (setLast sp n).last with nHeight := height } n := by
  rcases h with hmom | ⟨hnull, hzero⟩
  · simp [NotarizedCheckpoint.Of, setLast, hmom]
  · simp [NotarizedCheckpoint.Of, setLast, hnull, hzero]

theorem checkpoint_of_liveStep {s s' : LiveNode} {op : LiveOp} (hcond : momKnown s op)
    (hextra : ∀ height n extra, op = .notarisation height n extra →
      ∀ u, extra = some u → u.kind ≠ .notarized)
    (hstep : liveStep cfg s op = .ok s') {cp : NotarizedCheckpoint} (h : cp ∈ s'.sp.NPOINTS) :
    (∃ old ∈ s.sp.NPOINTS, cp = { old with nHeight := cp.nHeight }) ∨
      ∃ height n extra, op = .notarisation height n extra ∧ cp.Of n := by
  cases op with
  | update u =>
    obtain rfl := ok.inj hstep
    rcases checkpoint_of_stateupdate h with hold | ⟨hkind, hpos, rfl⟩
    · exact .inl ⟨cp, hold, rfl⟩
    · exact .inl ⟨s.sp.last, hcond hkind hpos, rfl⟩
  | notarisation height n extra =>
    obtain rfl := ok.inj hstep
    unfold applyNotarisation at h
    split at h
    · next hguard =>
        simp only [Bool.and_eq_true, decide_eq_true_eq] at hguard
        have hmain : cp ∈ (komodoStateupdate cfg { s with sp := setLast s.sp n }
            { height := height }).sp.NPOINTS := by
          cases extra with
          | none => exact h
          | some u =>
            rcases checkpoint_of_stateupdate h with hold | ⟨hkind, -, -⟩
            · exact hold
            · exact absurd hkind (hextra height n _ rfl u rfl)
        rcases checkpoint_of_stateupdate hmain with hold | ⟨-, -, rfl⟩
        · exact .inl ⟨cp, hold, rfl⟩
        · exact .inr ⟨height, n, extra, rfl, of_setLast height (hcond hguard.1 hguard.2)⟩
    · exact .inl ⟨cp, h, rfl⟩
  | rewind height =>
    obtain rfl := ok.inj hstep
    exact .inl ⟨cp, h, rfl⟩
  | currentHeight height =>
    obtain rfl := ok.inj hstep
    exact .inl ⟨cp, h, rfl⟩
  | simulated height hash txhash =>
    obtain rfl := ok.inj hstep
    exact .inl ⟨cp, h, rfl⟩

/-- **All fields of a checkpoint come from one notarisation**, in every admitted chain of whole
scripts. -/
theorem checkpoint_of_one_notarisation {cfg : KomodoConfig} {Pubkeys : List KnotariesEntry}
    {hwmheight : Int32} {blocks : List KomodoBlock} {s : LiveNode}
    (hwhole : ∀ b ∈ blocks, ∀ tx ∈ b.vtx, ∀ out, tx.vout[1]? = some out →
      WholeOpret cfg out.scriptPubKey)
    (hmeet : AllMeet (liveStep cfg) momKnown (connectBlocks cfg hwmheight blocks)
      { sp := { Pubkeys := Pubkeys } })
    (hrun : (connectBlocks cfg hwmheight blocks).foldlM (liveStep cfg)
      { sp := { Pubkeys := Pubkeys } } = .ok s) :
    ∀ cp ∈ s.sp.NPOINTS, ∃ b ∈ blocks, ∃ tx ∈ b.vtx, ∃ out, tx.vout[1]? = some out ∧
      cp.Of (notarisationAt out.scriptPubKey) := by
  refine hmeet.with_mem.invariant (P := fun s => ∀ cp ∈ s.sp.NPOINTS, ∃ b ∈ blocks,
    ∃ tx ∈ b.vtx, ∃ out, tx.vout[1]? = some out ∧ cp.Of (notarisationAt out.scriptPubKey))
    ?_ nofun hrun
  rintro op s₁ s₂ ⟨hcond, hmem⟩ hP hstep cp hcp
  have hextra : ∀ height n extra, op = .notarisation height n extra →
      ∀ u, extra = some u → u.kind ≠ .notarized := by
    rintro height n extra rfl
    exact (mem_connectBlocks hmem).1
  rcases checkpoint_of_liveStep hcond hextra hstep hcp with
    ⟨old, hold, hsame⟩ | ⟨height, n, extra, rfl, hof⟩
  · obtain ⟨b, hb, tx, htx, out, hout, hof⟩ := hP old hold
    rw [hsame]
    exact ⟨b, hb, tx, htx, out, hout, hof⟩
  · obtain ⟨-, b, hb, tx, htx, out, hout, hread⟩ := mem_connectBlocks hmem
    rw [notarisationAt_of_whole (hwhole b hb tx htx out hout) hread] at hof
    exact ⟨b, hb, tx, htx, out, hout, hof⟩

theorem liveRun_ok (cfg : KomodoConfig) (ops : List LiveOp) (s : LiveNode) :
    ∃ s', ops.foldlM (liveStep cfg) s = .ok s' := by
  induction ops generalizing s with
  | nil => exact ⟨s, rfl⟩
  | cons op ops ih =>
    obtain ⟨s₁, hstep⟩ : ∃ s₁, liveStep cfg s op = .ok s₁ := by
      cases op <;> exact ⟨_, rfl⟩
    rw [foldlM_cons, hstep]
    exact ih s₁

def notarisationData (srchash : UInt256) (height : Int32) (desttxid : UInt256)
    (rest : List UInt8) : List UInt8 :=
  uint256Bytes srchash ++ int32Bytes height ++ uint256Bytes desttxid ++ asciiBytes "ASSET" ++
    0 :: rest

/-- An `OP_RETURN` that pushes some data. -/
def opretScript (data : List UInt8) : List UInt8 :=
  0x6a :: (if data.length < 76 then [] else [0x4c]) ++ UInt8.ofNat data.length :: data

/-- A block with a transaction of seven notaries and an `OP_RETURN`. -/
def notarisingBlock (nHeight : Int32) (hash : UInt256) (opret : List UInt8) : KomodoBlock where
  nHeight := nHeight
  nTime := 0
  hash := hash
  vtx :=
    [{ hash := 10 + hash
       nVersion := 1
       vin := (range 8).map fun k => { prevout := ⟨hash, k⟩, scriptSig := [] }
       vout := [⟨5, [0x76, 0xa9, 0x88, 0xac]⟩, ⟨0, opretScript opret⟩] }]
  tipHeight := nHeight
  validateChain := fun _ _ => true
  pubkeys := (range 64).map fun k => replicate 33 (UInt8.ofNat k)
  rmd160 := fun key => key.take 20
  prevScript := fun o => some (33 :: replicate 33 (UInt8.ofNat o.n) ++ [0xac])

def earlierBlock : KomodoBlock :=
  notarisingBlock 20 1 (notarisationData 71 12 72 (uint256Bytes 73 ++ int32Bytes 4))

def laterBlock : KomodoBlock := notarisingBlock 30 2 (notarisationData 81 25 82 [])

theorem checkpoint_of_one_notarisation_earlier :
    ∃ s, (connectBlocks assetChain 0 [earlierBlock]).foldlM (liveStep assetChain) { sp := {} } =
        .ok s ∧
      s.sp.NPOINTS = [⟨71, 72, 73, 20, 12, 4⟩] ∧
      ∀ cp ∈ s.sp.NPOINTS, ∃ b ∈ [earlierBlock], ∃ tx ∈ b.vtx, ∃ out, tx.vout[1]? = some out ∧
        cp.Of (notarisationAt out.scriptPubKey) := by
  have hwhole : ∀ b ∈ [earlierBlock], ∀ tx ∈ b.vtx, ∀ out, tx.vout[1]? = some out →
      WholeOpret assetChain out.scriptPubKey := by
    intro b hb tx htx out hout
    have hall : ∀ b ∈ [earlierBlock], ∀ tx ∈ b.vtx, ∀ out ∈ tx.vout,
        WholeOpret assetChain out.scriptPubKey := by decide +kernel
    exact hall b hb tx htx out (mem_of_getElem? hout)
  have hmeet : AllMeet (liveStep assetChain) momKnown (connectBlocks assetChain 0 [earlierBlock])
      { sp := {} } := by decide +kernel
  have hpoints : ((connectBlocks assetChain 0 [earlierBlock]).foldlM (liveStep assetChain)
      { sp := {} }).toOption.map (·.sp.NPOINTS) = some [⟨71, 72, 73, 20, 12, 4⟩] := by
    decide +kernel
  obtain ⟨s, hrun⟩ := liveRun_ok assetChain (connectBlocks assetChain 0 [earlierBlock]) { sp := {} }
  rw [hrun] at hpoints
  exact ⟨s, hrun, some.inj hpoints, checkpoint_of_one_notarisation hwhole hmeet hrun⟩

/-- **A notarisation without MoM gets an earlier one's.** -/
theorem checkpoint_with_older_MoM :
    ∃ s, (connectBlocks assetChain 0 [earlierBlock, laterBlock]).foldlM (liveStep assetChain)
        { sp := {} } = .ok s ∧
      (∀ b ∈ [earlierBlock, laterBlock], ∀ tx ∈ b.vtx, ∀ out ∈ tx.vout,
        WholeOpret assetChain out.scriptPubKey) ∧
      s.sp.NPOINTS = [⟨71, 72, 73, 20, 12, 4⟩, ⟨81, 82, 73, 30, 25, 4⟩] ∧
      ∃ cp ∈ s.sp.NPOINTS, ∀ b ∈ [earlierBlock, laterBlock], ∀ tx ∈ b.vtx, ∀ out ∈ tx.vout,
        ¬cp.Of (notarisationAt out.scriptPubKey) := by
  have hpoints : ((connectBlocks assetChain 0 [earlierBlock, laterBlock]).foldlM
      (liveStep assetChain) { sp := {} }).toOption.map (·.sp.NPOINTS) =
        some [⟨71, 72, 73, 20, 12, 4⟩, ⟨81, 82, 73, 30, 25, 4⟩] := by
    decide +kernel
  obtain ⟨s, hrun⟩ := liveRun_ok assetChain (connectBlocks assetChain 0 [earlierBlock, laterBlock])
    { sp := {} }
  rw [hrun] at hpoints
  have hpoints : s.sp.NPOINTS = _ := some.inj hpoints
  refine ⟨s, hrun, by decide +kernel, hpoints, ?_⟩
  rw [hpoints]
  exact ⟨⟨81, 82, 73, 30, 25, 4⟩, mem_cons_of_mem _ mem_cons_self, by decide +kernel⟩

end Elosys
