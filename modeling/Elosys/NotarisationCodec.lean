import Elosys.NotarisationScan
import Elosys.UndoCodec

/-!
# Notarisation Data

The data of a notarisation as `NotarisationData` reads it from an `OP_RETURN`, and as the database
writes and reads it. Whether there is a transaction hash is not in the format: written if not null,
it is read on every chain but `KMD`, and there if the symbol behind would be `BTC` or `KMD`.
-/

open ByteCodec List Except Prod

namespace Elosys

/-! ### The format -/

structure NotarisationData where
  blockHash : UInt256 := .null
  height : UInt32 := 0
  txHash : UInt256 := .null
  symbol : List UInt8 := []
  MoM : UInt256 := .null
  MoMDepth : UInt16 := 0
  ccId : UInt16 := 0
  MoMoM : UInt256 := .null
  MoMoMDepth : UInt32 := 0
  deriving DecidableEq

def readUint32 : Reader UInt32 := do
  let n ← leInt 4
  return UInt32.ofNat n

def readUint16 : Reader UInt16 := do
  let n ← leInt 2
  return UInt16.ofNat n

/-- `uint32_t`, writing. -/
def writeUint32 (n : UInt32) : List UInt8 := leBytes 4 n.toNat

/-- `uint16_t`, writing. -/
def writeUint16 (n : UInt16) : List UInt8 := leBytes 2 n.toNat

def streamEmpty : Reader Bool := fun s => .ok (s.isEmpty, s)

def streamRest : Reader (List UInt8) := fun s => .ok (s, s)

/-- `SerSymbol`, reading. -/
def readSymbol : Reader (List UInt8) := fun s =>
  let symbol := s.takeWhile (· ≠ 0)
  if symbol.length < min 64 s.length then .ok (symbol, s.drop (symbol.length + 1))
  else .error (.invalid "couldn't parse symbol")

/-- `DetectBackNotarisation`, reading. -/
def detectBackNotarisation (isKMD : Bool) (s : List UInt8) : Bool :=
  !isKMD || (decide (72 ≤ s.length) &&
    ((s.drop 68).take 4 == asciiBytes "BTC" ++ [0] ||
      (s.drop 68).take 4 == asciiBytes "KMD" ++ [0]))

def readTxHash (isBack : Bool) : Reader UInt256 :=
  if isBack then readUint256 else pure .null

/-- The end of `NotarisationData::SerializationOp`, reading. -/
def readMoMoM (isBack : Bool) : Reader (UInt256 × UInt32) := do
  if ← streamEmpty then return (.null, 0)
  if isBack then
    let MoMoM ← readUint256
    let MoMoMDepth ← readUint32
    return (MoMoM, MoMoMDepth)
  else return (.null, 0)

def NotarisationData.unserializeFields (isBack : Bool) : Reader NotarisationData := do
  let blockHash ← readUint256
  let height ← readUint32
  let txHash ← readTxHash isBack
  let symbol ← readSymbol
  if ← streamEmpty then
    return { blockHash := blockHash, height := height, txHash := txHash, symbol := symbol }
  else
    let MoM ← readUint256
    let MoMDepth ← readUint16
    let ccId ← readUint16
    let MoMoM ← readMoMoM isBack
    return ⟨blockHash, height, txHash, symbol, MoM, MoMDepth, ccId, MoMoM.1, MoMoM.2⟩

/-- `NotarisationData::SerializationOp`, reading. -/
def NotarisationData.unserialize (isKMD : Bool) : Reader NotarisationData := do
  let s ← streamRest
  unserializeFields (detectBackNotarisation isKMD s)

/-- `NotarisationData::SerializationOp`, writing. -/
def NotarisationData.serialize (data : NotarisationData) : List UInt8 :=
  writeUint256 data.blockHash ++ (writeUint32 data.height ++
    ((if data.txHash ≠ .null then writeUint256 data.txHash else []) ++
      (data.symbol ++ [0] ++ (writeUint256 data.MoM ++ (writeUint16 data.MoMDepth ++
        (writeUint16 data.ccId ++
          if data.txHash ≠ .null then writeUint256 data.MoMoM ++ writeUint32 data.MoMoMDepth
          else []))))))

/-! ### Scripts -/

/-- `GetOp`: the next instruction, its data and what follows. -/
def getOp : List UInt8 → Option (UInt8 × List UInt8 × List UInt8)
  | [] => none
  | opcode :: pc =>
    if 0x4e < opcode then some (opcode, [], pc) else
      -- the number of bytes that hold the size
      let width := if opcode < 0x4c then 0 else if opcode = 0x4c then 1 else
        if opcode = 0x4d then 2 else 4
      if pc.length < width then none
      else
        let nSize := if opcode < 0x4c then opcode.toNat else ofLeBytes (pc.take width)
        let pc := pc.drop width
        if pc.length < nSize then none else some (opcode, pc.take nSize, pc.drop nSize)

def getOpReturnData (sig : CScript) : Option (List UInt8) :=
  match getOp sig with
  | some (opcode, _, pc) =>
    if opcode = opReturn then
      match getOp pc with
      | some (opcode, data, _) => if 0 < opcode ∧ opcode ≤ 0x4e then some data else none
      | none => none
    else none
  | none => none

variable (isKMD : Bool) (world : NotaryWorld) (symbol : List UInt8) (tx : CTransaction)

/-- The `OP_RETURN` data with a transaction's notarisation. -/
def CTransaction.notarisationOpReturn : Option (List UInt8) :=
  (tx.vout[1]?).bind fun out => getOpReturnData out.scriptPubKey

/-- `E_UNMARSHAL`: what is read has to end with the bytes. -/
def unmarshal {α : Type} (r : Reader α) (bs : List UInt8) : Option α :=
  match r.run bs with
  | .ok (a, []) => some a
  | _ => none

theorem unmarshal_eq_some {α : Type} {r : Reader α} {bs : List UInt8} {a : α} :
    unmarshal r bs = some a ↔ r.run bs = .ok (a, []) := by
  unfold unmarshal
  split
  · next a' hrun =>
      rw [hrun]
      simp
  · next hrun => exact ⟨nofun, fun h => absurd h (hrun a)⟩

def parseNotarisationOpReturn : Option NotarisationData :=
  tx.notarisationOpReturn.bind (unmarshal (NotarisationData.unserialize isKMD))

/-! ### Authorities -/

inductive CrosschainType where
  | komodo
  | txscl
  | staked
  deriving DecidableEq

def isStaked : Nat :=
  if symbol = asciiBytes "LABS" then 1
  else if asciiBytes "LABS" <+: symbol then 2
  else if asciiBytes "CFEK" <+: symbol then 3
  else if asciiBytes "TEST" <+: symbol then 4
  else if symbol = asciiBytes "THIS_CHAIN_IS_BANNED" then 255
  else 0

def getSymbolAuthority : CrosschainType :=
  if asciiBytes "TXSCL" <+: symbol then .txscl
  else if isStaked symbol ≠ 0 then .staked
  else .komodo

def stakedNotariesTimestamp : List Int32 := [1572523200, 1704244444, 1704244444, 1704244444]

def stakedEraGap : Int32 := 777

/-- `STAKED_era`; a block time of 2^31 or more is passed as a negative number. -/
def stakedEra (timestamp : Int32) : Nat :=
  if timestamp ≤ stakedNotariesTimestamp.getD 0 0 then 1
  else
    match [1, 2, 3].find? fun i => decide (timestamp ≤ stakedNotariesTimestamp.getD i 0) &&
        decide (stakedNotariesTimestamp.getD (i - 1) 0 + stakedEraGap ≤ timestamp) with
    | some i => i + 1
    | none => 0

structure CrosschainAuthority where
  requiredSigs : Nat
  notaries : List (List UInt8)

/-- What scanning a block asks the rest of the node. -/
structure NotaryWorld where
  getTxUnconfirmed : UInt256 → Option CTransaction
  getNotaries : Nat → Nat → List (List UInt8)
  notariesStaked : Nat → List (List UInt8)

/-- The key of a script `<key> OP_CHECKSIG`. -/
def paidKey (spk : CScript) : Option (List UInt8) :=
  if spk.length = 35 ∧ spk.getD 0 0 = 33 ∧ spk.getD 34 0 = opChecksig then
    some ((spk.drop 1).take 33)
  else none

/-- The key that the output spent by an input pays. An index right behind the last output is not
refused, and read. -/
def authorityKey (world : NotaryWorld) (txIn : CTxIn) : Except Trap (Option (List UInt8)) :=
  match world.getTxUnconfirmed txIn.prevout.hash with
  | none => .ok none
  | some tx =>
    if tx.vout.length < txIn.prevout.n then .ok none
    else
      match tx.vout[txIn.prevout.n]? with
      | none => .error .outOfRange
      | some out => .ok (paidKey out.scriptPubKey)

/-- The first notary with that key that no earlier input was from. -/
def unseenNotary (notaries : List (List UInt8)) (seen : List Nat) (pk : List UInt8) :
    Option Nat :=
  (range notaries.length).find? fun i => !seen.contains i && notaries.getD i [] == pk

/-- The loop over the inputs in `CrossChain::CheckTxAuthority`: each from a new notary. -/
def evalAuthorityInputs (world : NotaryWorld) (notaries : List (List UInt8)) :
    List CTxIn → List Nat → Except Trap Bool
  | [], _ => .ok true
  | txIn :: vin, seen =>
    match authorityKey world txIn with
    | .error t => .error t
    | .ok pk =>
      match pk.bind (unseenNotary notaries seen) with
      | some i => evalAuthorityInputs world notaries vin (i :: seen)
      | none => .ok false

/-- `CrossChain::CheckTxAuthority`. -/
def evalTxAuthority (auth : CrosschainAuthority) : Except Trap Bool :=
  if tx.vin.length < auth.requiredSigs then .ok false
  else evalAuthorityInputs world auth.notaries tx.vin []

/-- `Eval::CheckNotaryInputs`. -/
def evalNotaryInputs (height timestamp : Nat) : Except Trap Bool :=
  if tx.vin.length < 11 then .ok false
  else evalTxAuthority world tx ⟨11, world.getNotaries height timestamp⟩

/-- Where the transaction is in a block, its inputs exist and the check returns: see
`authority_returns`. -/
def checkTxAuthority (auth : CrosschainAuthority) : Bool :=
  decide (evalTxAuthority world tx auth = .ok true)

def checkNotaryInputs (height timestamp : Nat) : Bool :=
  decide (evalNotaryInputs world tx height timestamp = .ok true)

def chooseAuthStaked (era : Nat) : CrosschainAuthority :=
  ⟨(world.notariesStaked era).length / 5, world.notariesStaked era⟩

/-- Whether a notarisation is signed by those who may. The test for banned chains behind a
`continue` is never reached. -/
def checkAuthority (nHeight nTime : Nat) : Bool :=
  match getSymbolAuthority symbol with
  | .komodo => checkNotaryInputs world tx nHeight nTime
  | .staked =>
    let era := stakedEra (UInt32.ofNat nTime).toInt32
    era ≠ 0 && checkTxAuthority world tx (chooseAuthStaked world era)
  | .txscl => true

/-- `Notarisation` of the database: a transaction and its data. -/
abbrev NotarisationEntry := UInt256 × NotarisationData

/-- One transaction in `ScanBlockNotarisations`. -/
def scanNotarisation (nHeight nTime : Nat) (tx : CTransaction) : Option NotarisationEntry :=
  (parseNotarisationOpReturn isKMD tx).bind fun data =>
    if data.symbol ≠ [] ∧ checkAuthority world data.symbol tx nHeight nTime then
      some (tx.hash, data)
    else none

def scanBlockNotarisations (block : CBlock) (nHeight : Nat) : List NotarisationEntry :=
  block.vtx.filterMap (scanNotarisation isKMD world nHeight block.nTime)

/-! ### Fields -/

@[simp] theorem length_writeUint256 (h : UInt256) : (writeUint256 h).length = 32 :=
  length_leBytes 32 _

@[simp] theorem length_writeUint32 (n : UInt32) : (writeUint32 n).length = 4 := length_leBytes 4 _

@[simp] theorem length_writeUint16 (n : UInt16) : (writeUint16 n).length = 2 := length_leBytes 2 _

theorem exact_uint256 : Exact readUint256 writeUint256 :=
  exact_leInt (fun a => a.isLt) (fun a => by simp)
    fun n hn => by rw [BitVec.toNat_ofNat]; exact Nat.mod_eq_of_lt hn

theorem exact_uint32 : Exact readUint32 writeUint32 :=
  exact_leInt (fun a => a.toNat_lt) (fun _ => UInt32.ofNat_toNat)
    fun _ hn => UInt32.toNat_ofNat_of_lt' hn

theorem exact_uint16 : Exact readUint16 writeUint16 :=
  exact_leInt (fun a => a.toNat_lt) (fun _ => UInt16.ofNat_toNat)
    fun _ hn => UInt16.toNat_ofNat_of_lt' hn

/-- A symbol that the buffer of `NotarisationData` holds. -/
def SymbolFits (symbol : List UInt8) : Prop := 0 ∉ symbol ∧ symbol.length < 64

variable {s : List UInt8}

theorem eq_takeWhile_append (h : (s.takeWhile (· ≠ 0)).length < s.length) :
    s = s.takeWhile (· ≠ 0) ++ 0 :: s.drop ((s.takeWhile (· ≠ 0)).length + 1) := by
  induction s with
  | nil => cases h
  | cons b s ih =>
    by_cases hb : b = 0
    · subst hb
      simp
    · simp only [takeWhile_cons, ne_eq, hb, not_false_eq_true, decide_true, if_true,
        length_cons, Nat.add_lt_add_iff_right] at h ⊢
      rw [drop_succ_cons, cons_append, ← ih h]

theorem run_readSymbol {s symbol rest : List UInt8} :
    readSymbol.run s = .ok (symbol, rest) ↔ SymbolFits symbol ∧ s = symbol ++ [0] ++ rest := by
  have hrun : readSymbol.run s = if (s.takeWhile (· ≠ 0)).length < min 64 s.length then
      .ok (s.takeWhile (· ≠ 0), s.drop ((s.takeWhile (· ≠ 0)).length + 1))
      else .error (.invalid "couldn't parse symbol") := rfl
  rw [hrun]
  constructor
  · intro h
    split at h
    · next hlen =>
        obtain ⟨rfl, rfl⟩ := mk.inj (ok.inj h)
        refine ⟨⟨fun hzero => ?_, by omega⟩, ?_⟩
        · simpa using mem_takeWhile_imp hzero
        · rw [append_assoc]
          exact eq_takeWhile_append (by omega)
    · cases h
  · rintro ⟨⟨hzero, hshort⟩, rfl⟩
    have hall : ∀ b ∈ symbol, decide (b ≠ 0) = true := by
      intro b hb
      exact decide_eq_true fun h0 => hzero (h0 ▸ hb)
    have htake : (symbol ++ [0] ++ rest).takeWhile (· ≠ 0) = symbol := by
      rw [append_assoc, takeWhile_append_of_pos hall]
      simp
    rw [htake, if_pos (by simp; omega), drop_left' (by simp)]

def NotarisationData.Tail (data : NotarisationData) (isBack : Bool) (tail : List UInt8) : Prop :=
  (tail = [] ∧ data.MoM = .null ∧ data.MoMDepth = 0 ∧ data.ccId = 0 ∧ data.MoMoM = .null ∧
      data.MoMoMDepth = 0) ∨
    ∃ last, tail = writeUint256 data.MoM ++ (writeUint16 data.MoMDepth ++
        (writeUint16 data.ccId ++ last)) ∧
      ((last = [] ∧ data.MoMoM = .null ∧ data.MoMoMDepth = 0) ∨
        isBack = true ∧ last = writeUint256 data.MoMoM ++ writeUint32 data.MoMoMDepth)

variable {isBack : Bool}

theorem run_readTxHash {s rest : List UInt8} {txHash : UInt256} :
    (readTxHash isBack).run s = .ok (txHash, rest) ↔
      s = (if isBack then writeUint256 txHash else []) ++ rest ∧
        (isBack = false → txHash = .null) := by
  cases isBack with
  | false =>
    constructor
    · intro h
      obtain ⟨rfl, rfl⟩ := mk.inj (ok.inj h)
      exact ⟨rfl, fun _ => rfl⟩
    · rintro ⟨rfl, hnull⟩
      rw [hnull rfl]
      rfl
  | true =>
    refine exact_uint256.trans ⟨fun h => ⟨h, nofun⟩, And.left⟩

theorem run_readMoMoM {p : UInt256 × UInt32} (h : (readMoMoM isBack).run s = .ok (p, [])) :
    (s = [] ∧ p = (.null, 0)) ∨ isBack = true ∧ s = writeUint256 p.1 ++ writeUint32 p.2 := by
  obtain ⟨isEmpty, mid, hempty, h⟩ := run_bind_eq_ok.mp h
  obtain ⟨rfl, rfl⟩ := mk.inj (ok.inj hempty)
  cases s with
  | nil =>
    obtain ⟨rfl, -⟩ := mk.inj (ok.inj h)
    exact .inl ⟨rfl, rfl⟩
  | cons b s =>
    cases isBack with
    | false => cases (mk.inj (ok.inj h)).2
    | true =>
      obtain ⟨MoMoM, mid, hMoMoM, h⟩ := run_bind_eq_ok.mp h
      obtain ⟨depth, mid', hdepth, h⟩ := run_bind_eq_ok.mp h
      obtain ⟨rfl, rfl⟩ := mk.inj (ok.inj h)
      refine .inr ⟨rfl, ?_⟩
      rw [exact_uint256.mp hMoMoM, exact_uint32.mp hdepth, append_nil]

variable {isKMD : Bool} {data : NotarisationData}

theorem unserialize_spec (h : (NotarisationData.unserialize isKMD).run s = .ok (data, [])) :
    SymbolFits data.symbol ∧ (detectBackNotarisation isKMD s = false → data.txHash = .null) ∧
      ∃ tail, data.Tail (detectBackNotarisation isKMD s) tail ∧
        s = writeUint256 data.blockHash ++ (writeUint32 data.height ++
          ((if detectBackNotarisation isKMD s then writeUint256 data.txHash else []) ++
            (data.symbol ++ [0] ++ tail))) := by
  obtain ⟨s', mid, hs, h⟩ := run_bind_eq_ok.mp h
  obtain ⟨rfl, rfl⟩ := mk.inj (ok.inj hs)
  obtain ⟨blockHash, s₁, hblockHash, h⟩ := run_bind_eq_ok.mp h
  obtain ⟨height, s₂, hheight, h⟩ := run_bind_eq_ok.mp h
  obtain ⟨txHash, s₃, htxHash, h⟩ := run_bind_eq_ok.mp h
  obtain ⟨symbol, s₄, hsymbol, h⟩ := run_bind_eq_ok.mp h
  obtain ⟨isEmpty, s₅, hempty, h⟩ := run_bind_eq_ok.mp h
  obtain ⟨rfl, rfl⟩ := mk.inj (ok.inj hempty)
  obtain ⟨hfits, hs₃⟩ := run_readSymbol.mp hsymbol
  obtain ⟨hs₂, hnull⟩ := run_readTxHash.mp htxHash
  have hbytes : s = writeUint256 blockHash ++ (writeUint32 height ++
      ((if detectBackNotarisation isKMD s then writeUint256 txHash else []) ++
        (symbol ++ [0] ++ s₄))) := by
    rw [← hs₃, ← hs₂, ← exact_uint32.mp hheight, ← exact_uint256.mp hblockHash]
  cases s₄ with
  | nil =>
    obtain ⟨rfl, -⟩ := mk.inj (ok.inj h)
    exact ⟨hfits, hnull, [], .inl ⟨rfl, rfl, rfl, rfl, rfl, rfl⟩, hbytes⟩
  | cons b s₄ =>
    obtain ⟨MoM, s₅, hMoM, h⟩ := run_bind_eq_ok.mp h
    obtain ⟨MoMDepth, s₆, hMoMDepth, h⟩ := run_bind_eq_ok.mp h
    obtain ⟨ccId, s₇, hccId, h⟩ := run_bind_eq_ok.mp h
    obtain ⟨MoMoM, s₈, hMoMoM, h⟩ := run_bind_eq_ok.mp h
    obtain ⟨rfl, rfl⟩ := mk.inj (ok.inj h)
    refine ⟨hfits, hnull, b :: s₄, .inr ⟨s₇, ?_, ?_⟩, hbytes⟩
    · rw [exact_uint256.mp hMoM, exact_uint16.mp hMoMDepth, exact_uint16.mp hccId]
    · rcases run_readMoMoM hMoMoM with ⟨hnil, hpair⟩ | hpair
      · exact .inl ⟨hnil, congrArg Prod.fst hpair, congrArg Prod.snd hpair⟩
      · exact .inr hpair

theorem reads_streamEmpty {α : Type} {f : Bool → Reader α} {bs : List UInt8} {a : α}
    (hne : bs ≠ []) (h : Reads (f false) bs a) : Reads (streamEmpty >>= f) bs a := by
  intro rest
  have hempty : (bs ++ rest).isEmpty = false := by
    cases bs with
    | nil => exact absurd rfl hne
    | cons b bs => rfl
  refine run_bind_eq_ok.mpr ⟨false, bs ++ rest, ?_, h rest⟩
  rw [← hempty]
  rfl

theorem reads_MoMoM (data : NotarisationData)
    (hnone : isBack = false → data.MoMoM = .null ∧ data.MoMoMDepth = 0) :
    Reads (readMoMoM isBack)
      (if isBack then writeUint256 data.MoMoM ++ writeUint32 data.MoMoMDepth else [])
      (data.MoMoM, data.MoMoMDepth) := by
  cases isBack with
  | false =>
    obtain ⟨hMoMoM, hdepth⟩ := hnone rfl
    rw [hMoMoM, hdepth]
    intro rest
    cases rest with
    | nil => rfl
    | cons b rest => rfl
  | true =>
    refine reads_streamEmpty ?_
      ((exact_uint256.reads _).bind ((exact_uint32.reads _).bind_pure rfl))
    exact fun hnil => absurd (congrArg length hnil) (by simp)

theorem reads_serialize (hfits : SymbolFits data.symbol)
    (hdetect : ∀ rest, detectBackNotarisation isKMD (data.serialize ++ rest) =
      decide (data.txHash ≠ .null))
    (hnone : data.txHash = .null → data.MoMoM = .null ∧ data.MoMoMDepth = 0) :
    Reads (NotarisationData.unserialize isKMD) data.serialize data := by
  have htx : Reads (readTxHash (decide (data.txHash ≠ .null)))
      (if data.txHash ≠ .null then writeUint256 data.txHash else []) data.txHash := by
    intro rest
    refine run_readTxHash.mpr ⟨by simp only [decide_eq_true_eq], fun h => ?_⟩
    exact not_not.mp (of_decide_eq_false h)
  have hsymbol : Reads readSymbol (data.symbol ++ [0]) data.symbol :=
    fun _ => run_readSymbol.mpr ⟨hfits, rfl⟩
  have hMoMoM : Reads (readMoMoM (decide (data.txHash ≠ .null)))
      (if data.txHash ≠ .null then writeUint256 data.MoMoM ++ writeUint32 data.MoMoMDepth else [])
      (data.MoMoM, data.MoMoMDepth) := by
    have h : Reads (readMoMoM (decide (data.txHash ≠ .null))) _ _ :=
      reads_MoMoM data fun h => hnone (not_not.mp (of_decide_eq_false h))
    simpa only [decide_eq_true_eq] using h
  have hMoM : writeUint256 data.MoM ++ (writeUint16 data.MoMDepth ++ (writeUint16 data.ccId ++
      if data.txHash ≠ .null then writeUint256 data.MoMoM ++ writeUint32 data.MoMoMDepth
      else [])) ≠ [] := by
    intro hnil
    exact absurd (congrArg length (append_eq_nil_iff.mp hnil).1) (by simp)
  have hfields : Reads (NotarisationData.unserializeFields (decide (data.txHash ≠ .null)))
      data.serialize data :=
    (exact_uint256.reads _).bind <| (exact_uint32.reads _).bind <| htx.bind <| hsymbol.bind <|
      reads_streamEmpty hMoM <| (exact_uint256.reads _).bind <| (exact_uint16.reads _).bind <|
        (exact_uint16.reads _).bind <| hMoMoM.bind_pure rfl
  intro rest
  refine run_bind_eq_ok.mpr ⟨_, _, rfl, ?_⟩
  rw [hdetect]
  exact hfields rest

/-! ### Detection -/

/-- The symbols that make a back notarisation on `KMD`. -/
def BackSymbol (w : List UInt8) : Prop := w = asciiBytes "BTC" ∨ w = asciiBytes "KMD"

theorem BackSymbol.spec {w : List UInt8} (h : BackSymbol w) :
    ∃ x y z, w = [x, y, z] ∧ x ≠ 0 ∧ y ≠ 0 ∧ z ≠ 0 := by
  rcases h with rfl | rfl
  · exact ⟨0x42, 0x54, 0x43, by decide +kernel⟩
  · exact ⟨0x4b, 0x4d, 0x44, by decide +kernel⟩

theorem detect_iff : detectBackNotarisation true s = true ↔
      72 ≤ s.length ∧ ∃ w, BackSymbol w ∧ (s.drop 68).take 4 = w ++ [0] := by
  simp [detectBackNotarisation, BackSymbol]

theorem detect_append (rest : List UInt8) (h : 72 ≤ s.length) :
    detectBackNotarisation isKMD (s ++ rest) = detectBackNotarisation isKMD s := by
  have htake : ((s ++ rest).drop 68).take 4 = (s.drop 68).take 4 := by
    rw [drop_append_of_le_length (by omega), take_append_of_le_length (by simp; omega)]
  have hlen : 72 ≤ (s ++ rest).length := by
    rw [length_append]
    omega
  simp only [detectBackNotarisation, htake, h, hlen]

theorem eq_of_take_four {symbol tail : List UInt8} {x y z : UInt8} (hzero : 0 ∉ symbol)
    (hxyz : x ≠ 0 ∧ y ≠ 0 ∧ z ≠ 0) (h : (symbol ++ [0] ++ tail).take 4 = [x, y, z, 0]) :
    symbol = [x, y, z] := by
  match symbol with
  | [] =>
    simp at h
    exact absurd h.1.symm hxyz.1
  | [a] =>
    simp at h
    exact absurd h.2.1.symm hxyz.2.1
  | [a, b] =>
    simp at h
    exact absurd h.2.2.1.symm hxyz.2.2
  | [a, b, c] =>
    simp at h
    simp [h]
  | a :: b :: c :: d :: symbol =>
    simp at h
    simp [h] at hzero

theorem detect_of_txHash {tail : List UInt8}
    (hs : s = writeUint256 data.blockHash ++ (writeUint32 data.height ++
      (writeUint256 data.txHash ++ (data.symbol ++ [0] ++ tail)))) (hzero : 0 ∉ data.symbol) :
    detectBackNotarisation true s = true ↔ 72 ≤ s.length ∧ BackSymbol data.symbol := by
  have hdrop : s.drop 68 = data.symbol ++ [0] ++ tail := by
    rw [hs, ← append_assoc, ← append_assoc]
    exact drop_left' (by simp)
  rw [detect_iff, hdrop]
  refine and_congr_right fun _ => ⟨?_, fun hback => ⟨_, hback, ?_⟩⟩
  · rintro ⟨w, hw, htake⟩
    obtain ⟨x, y, z, rfl, hxyz⟩ := hw.spec
    rwa [eq_of_take_four hzero hxyz htake]
  · obtain ⟨x, y, z, hsymbol, -⟩ := hback.spec
    rw [hsymbol]
    rfl

theorem zeros_written : [0] ++ (writeUint256 .null ++ (writeUint16 0 ++ (writeUint16 0 ++ []))) =
    replicate 37 0 := by
  decide +kernel

theorem not_detect_of_zero (h : s[70]? = some 0) : detectBackNotarisation true s = false := by
  rw [← Bool.not_eq_true, detect_iff]
  rintro ⟨-, w, hw, htake⟩
  obtain ⟨x, y, z, rfl, -, -, hz⟩ := hw.spec
  have hthird : ((s.drop 68).take 4)[2]? = some 0 := by
    rwa [getElem?_take_of_lt (by omega), getElem?_drop]
  rw [htake] at hthird
  exact hz (Option.some.inj hthird)

theorem not_detect_serialize {s tail : List UInt8}
    (hs : s = writeUint256 data.blockHash ++ (writeUint32 data.height ++
      (data.symbol ++ [0] ++ tail))) (htail : data.Tail false tail) (htx : data.txHash = .null)
    (hdetect : detectBackNotarisation true s = false) (rest : List UInt8) :
    detectBackNotarisation true (data.serialize ++ rest) = false := by
  rcases htail with ⟨rfl, hMoM, hdepth, hccId, -, -⟩ | ⟨last, rfl, ⟨rfl, -, -⟩ | ⟨hback, -⟩⟩
  · have hserialize : data.serialize = s ++ (writeUint256 .null ++ (writeUint16 0 ++
        (writeUint16 0 ++ []))) := by
      simp [NotarisationData.serialize, hs, htx, hMoM, hdepth, hccId]
    by_cases hlong : 72 ≤ s.length
    · rw [hserialize, append_assoc, detect_append _ hlong, hdetect]
    · -- the zero that ends the symbol and those of the MoM reach from before byte 70 to behind it
      have hzeros : data.serialize ++ rest = writeUint256 data.blockHash ++
          writeUint32 data.height ++ data.symbol ++ (replicate 37 0 ++ rest) := by
        rw [hserialize, ← zeros_written, hs]
        simp
      have hlen : (writeUint256 data.blockHash ++ writeUint32 data.height ++ data.symbol).length =
          36 + data.symbol.length := by
        simp
        omega
      have hshort : 37 + data.symbol.length < 72 := by
        rw [hs] at hlong
        simp at hlong
        omega
      apply not_detect_of_zero
      rw [hzeros, getElem?_append_right (by omega),
        getElem?_append_left (by rw [hlen, length_replicate]; omega),
        getElem?_replicate_of_lt (by omega)]
  · have hserialize : data.serialize = s := by
      simp [NotarisationData.serialize, hs, htx]
    rw [hserialize, detect_append, hdetect]
    rw [hs]
    simp
    omega
  · cases hback

/-- **Data read from an `OP_RETURN` is read back** after writing, unless taken for a back
notarisation with a null hash. -/
theorem reads_notarisationData (h : (NotarisationData.unserialize isKMD).run s = .ok (data, []))
    (hback : detectBackNotarisation isKMD s = true → data.txHash ≠ .null) :
    Reads (NotarisationData.unserialize isKMD) data.serialize data := by
  obtain ⟨hfits, hnull, tail, htail, hs⟩ := unserialize_spec h
  cases hdetect : detectBackNotarisation isKMD s with
  | true =>
    have hne := hback hdetect
    refine reads_serialize hfits (fun rest => ?_) fun h => absurd h hne
    rw [decide_eq_true hne]
    cases isKMD with
    | false => rfl
    | true =>
      simp only [hdetect, if_true] at hs
      have hsymbol := ((detect_of_txHash hs hfits.1).mp hdetect).2
      obtain ⟨x, y, z, hxyz, -⟩ := hsymbol.spec
      have hwritten : data.serialize ++ rest = writeUint256 data.blockHash ++
          (writeUint32 data.height ++ (writeUint256 data.txHash ++ (data.symbol ++ [0] ++
            (writeUint256 data.MoM ++ (writeUint16 data.MoMDepth ++ (writeUint16 data.ccId ++
              (writeUint256 data.MoMoM ++ writeUint32 data.MoMoMDepth))) ++ rest)))) := by
        simp [NotarisationData.serialize, hne]
      refine (detect_of_txHash hwritten hfits.1).mpr ⟨?_, hsymbol⟩
      rw [hwritten]
      simp [hxyz]
      omega
  | false =>
    have htx := hnull hdetect
    cases isKMD with
    | false => cases hdetect
    | true =>
      rw [hdetect] at htail hs
      refine reads_serialize hfits (fun rest => ?_) fun _ => ?_
      · rw [not_detect_serialize hs htail htx hdetect, htx]
        rfl
      · rcases htail with ⟨-, -, -, -, hMoMoM⟩ | ⟨last, -, ⟨-, hMoMoM⟩ | ⟨hfalse, -⟩⟩
        · exact hMoMoM
        · exact hMoMoM
        · cases hfalse

end Elosys
