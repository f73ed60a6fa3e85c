import Elosys.CCEval
import Elosys.NotaryApproval

/-!
# The Data of Token Transactions

The last output of a token transaction is a creation (`'c'`) or a transfer (`'t'`), and behind it
data of other contracts under ids. `DecodeTokenOpRet` and `DecodeTokenCreateOpRet` of
`CCtokenutils.cpp` read it, also from before there were ids.
-/

open ByteCodec List Option

namespace Elosys

/-! ### Data of other contracts -/

abbrev Oprets := List (UInt8 × List UInt8)

def opretIdNonfungibleData : UInt8 := 0x11

def opretIdAssetsData : UInt8 := 0x12

def opretIdRogueGameData : UInt8 := 0x16

def opretIdFirstNonCCData : UInt8 := 0x80

/-- `GetOpretBlob`: the first data with an id, or none. -/
def getOpretBlob (oprets : Oprets) (id : UInt8) : List UInt8 :=
  ((oprets.find? fun p => p.1 == id).map Prod.snd).getD []

/-- `FilterOutNonCCOprets`: the first data of a contract. -/
def filterOutNonCCOprets (oprets : Oprets) : List UInt8 :=
  ((oprets.find? fun p => p.1 < opretIdFirstNonCCData).map Prod.snd).getD []

/-- The loop that reads data to the end; an id that nothing follows is dropped. The first argument
bounds the rounds. -/
def readOpretsFrom : Nat → Reader Oprets
  | 0 => return []
  | rounds + 1 => do
    match ← get with
    | [] => return []
    | [_] =>
      set ([] : List UInt8)
      return []
    | opretId :: rest =>
      set rest
      let vblob ← readByteVector
      let oprets ← readOpretsFrom rounds
      return (opretId, vblob) :: oprets

def readOprets : Reader Oprets := do
  let ss ← get
  readOpretsFrom ss.length

/-- The loop that writes data, id 0 apart. -/
def writeOprets (oprets : Oprets) : List UInt8 :=
  (oprets.filter fun p => p.1 ≠ 0).flatMap fun p =>
    p.1 :: (compactSize p.2.length ++ p.2)

/-! ### Creations -/

/-- What a creation says, without name and description. -/
structure TokenCreateOpret where
  origpubkey : List UInt8
  oprets : Oprets

/-- The bytes of the `OP_RETURN`, empty without one. -/
def vopretOf (scriptPubKey : CScript) : List UInt8 := (getOpReturnData scriptPubKey).getD []

def readAmount : Reader CAmount := do
  let n ← leInt 8
  return Int64.ofNat n

def readSbits : Reader UInt64 := do
  let n ← leInt 8
  return UInt64.ofNat n

theorem reads_sbits (n : UInt64) : Reads readSbits (leBytes 8 n.toNat) n :=
  (reads_leInt n.toNat_lt).bind_pure (by rw [UInt64.ofNat_toNat])

/-- The letters that tell the kinds of transactions. -/
def funcCode (c : Char) : UInt8 := UInt8.ofNat c.toNat

/-- What `DecodeTokenCreateOpRet` reads. -/
def readTokenCreate : Reader TokenCreateOpret := do
  skip 2
  let origpubkey ← readByteVector
  let _name ← readByteVector
  let _description ← readByteVector
  let oprets ← readOprets
  return ⟨origpubkey, oprets⟩

def decodeTokenCreateOpRet (scriptPubKey : CScript) : Option TokenCreateOpret :=
  let vopret := vopretOf scriptPubKey
  if 2 < vopret.length ∧ vopret.getD 0 0 = evalTokens ∧ vopret.getD 1 0 = funcCode 'c' then
    unmarshal readTokenCreate vopret
  else none

/-! ### Transfers -/

/-- What `DecodeTokenOpRet` gives. -/
structure TokenOpret where
  funcid : UInt8
  tokenid : UInt256 := UInt256.null
  voutPubkeys : List CPubKey := []
  oprets : Oprets

/-- `revuint256`: the bytes the other way round. -/
def revuint256 (h : UInt256) : UInt256 :=
  BitVec.ofNat 256 (ofLeBytes (leBytes 32 h.toNat).reverse)

/-- The first part of a transfer. -/
structure TransferHead where
  tokenid : UInt256
  ccType : Nat
  voutPubkey1 : CPubKey
  voutPubkey2 : CPubKey

def readPubKeyIf (b : Bool) : Reader CPubKey :=
  if b then readPubKey else return []

def readTransferHead : Reader TransferHead := do
  skip 2
  let tokenid ← readUint256
  let ccType ← leInt 1
  let voutPubkey1 ← readPubKeyIf (1 ≤ ccType)
  let voutPubkey2 ← readPubKeyIf (ccType = 2)
  return ⟨tokenid, ccType, voutPubkey1, voutPubkey2⟩

def readOldstyleData : Reader (List UInt8) := do
  match ← get with
  | [] => return []
  | _ => readByteVector

def readOldstyle : Reader (TransferHead × List UInt8) := do
  let head ← readTransferHead
  let data ← readOldstyleData
  return (head, data)

def readTransfer : Reader (TransferHead × Oprets) := do
  let head ← readTransferHead
  let oprets ← readOprets
  return (head, oprets)

def evalRogue : UInt8 := 0x11

/-- The id for data without one, of one of two contracts. -/
def oldstyleId (data : List UInt8) : Option UInt8 :=
  match data with
  | evalcode :: funcid :: _ =>
    if evalcode = evalRogue ∧ "RHQKG".toList.any (fun c => funcCode c == funcid) then
      some opretIdRogueGameData
    else if evalcode = evalAssets ∧ "sbSBxo".toList.any (fun c => funcCode c == funcid) then
      some opretIdAssetsData
    else none
  | _ => none

/-- A transfer's first part and data, in either form. -/
def unmarshalTransfer (vopret : List UInt8) : Option (TransferHead × Oprets) :=
  match (unmarshal readOldstyle vopret).bind fun p => (oldstyleId p.2).map fun id => (p, id) with
  | some ((head, data), id) => some (head, [(id, data)])
  | none => unmarshal readTransfer vopret

/-- `DecodeTokenOpRet`: nothing for the function id 0. -/
def decodeTokenOpRet (scriptPubKey : CScript) : Option TokenOpret :=
  let vopret := vopretOf scriptPubKey
  if 2 < vopret.length ∧ vopret.getD 0 0 = evalTokens then
    if vopret.getD 1 0 = funcCode 'c' then
      (decodeTokenCreateOpRet scriptPubKey).map fun c =>
        { funcid := funcCode 'c', oprets := c.oprets }
    else if vopret.getD 1 0 = funcCode 't' then
      (unmarshalTransfer vopret).bind fun p =>
        if 2 < p.1.ccType then none
        else some
          { funcid := funcCode 't'
            tokenid := revuint256 p.1.tokenid
            voutPubkeys := [p.1.voutPubkey1, p.1.voutPubkey2].filter CPubKey.isValid
            oprets := p.2 }
    else none
  else none

theorem decodeTokenOpRet_funcid {scriptPubKey : CScript} {o : TokenOpret}
    (h : decodeTokenOpRet scriptPubKey = some o) :
    (o.funcid = funcCode 'c' ∧ o.tokenid = UInt256.null ∧ o.voutPubkeys = [] ∧
      ∃ c, decodeTokenCreateOpRet scriptPubKey = some c) ∨ o.funcid = funcCode 't' := by
  unfold decodeTokenOpRet at h
  dsimp only at h
  split at h
  · split at h
    · obtain ⟨c, hc, rfl⟩ := map_eq_some_iff.mp h
      exact .inl ⟨rfl, rfl, rfl, c, hc⟩
    · split at h
      · obtain ⟨p, -, hp⟩ := bind_eq_some_iff.mp h
        split at hp
        · exact absurd hp (by simp)
        · obtain rfl := some.inj hp
          exact .inr rfl
      · exact absurd h (by simp)
  · exact absurd h (by simp)

/-! ### Writing -/

/-- `CScript << std::vector`: a push of bytes. -/
def pushInstruction (b : List UInt8) : CScript :=
  if b.length < 0x4c then UInt8.ofNat b.length :: b
  else if b.length ≤ 0xff then 0x4c :: UInt8.ofNat b.length :: b
  else if b.length ≤ 0xffff then 0x4d :: (leBytes 2 b.length ++ b)
  else 0x4e :: (leBytes 4 b.length ++ b)

/-- `OP_RETURN` with data. -/
def opReturnScript (vopret : List UInt8) : CScript := opReturn :: pushInstruction vopret

theorem getOp_sized {opcode : UInt8} {size b : List UInt8}
    (hop : (opcode, size.length) ∈ [((0x4c : UInt8), 1), (0x4d, 2), (0x4e, 4)])
    (hsize : ofLeBytes size = b.length) :
    getOp (opcode :: (size ++ b)) = some (opcode, b, []) := by
  have hlen : ∀ width, width = size.length → ¬ (size ++ b).length < width := by
    rw [length_append]
    omega
  have htake : ∀ width, width = size.length → (size ++ b).take width = size :=
    fun width hwidth => take_left' hwidth.symm
  have hdrop : ∀ width, width = size.length → (size ++ b).drop width = b :=
    fun width hwidth => drop_left' hwidth.symm
  simp only [mem_cons, Prod.mk.injEq, not_mem_nil, or_false] at hop
  rcases hop with ⟨rfl, hwidth⟩ | ⟨rfl, hwidth⟩ | ⟨rfl, hwidth⟩ <;>
  simp +decide only [getOp, hlen _ hwidth.symm, htake _ hwidth.symm, hdrop _ hwidth.symm, hsize,
    if_false, if_true, Nat.lt_irrefl, take_length, drop_length]

theorem getOp_pushInstruction {b : List UInt8} (h : b.length < 2 ^ 32) :
    ∃ opcode, opcode ≤ 0x4e ∧ (0 < b.length → 0 < opcode) ∧
      getOp (pushInstruction b) = some (opcode, b, []) := by
  have hbyte : b.length ≤ 0xff → (UInt8.ofNat b.length).toNat = b.length := by
    rw [UInt8.toNat_ofNat']
    omega
  unfold pushInstruction
  split
  · next hlen =>
      have hcode := hbyte (by omega)
      have hlt : UInt8.ofNat b.length < 0x4c := UInt8.lt_iff_toNat_lt.mpr (by rwa [hcode])
      have hle : ¬ 0x4e < UInt8.ofNat b.length := by
        rw [UInt8.lt_iff_toNat_lt, hcode]
        change ¬ 0x4e < b.length
        omega
      refine ⟨UInt8.ofNat b.length, UInt8.not_lt.mp hle, fun hpos => ?_, ?_⟩
      · rwa [UInt8.lt_iff_toNat_lt, hcode]
      · simp [getOp, hlt, hle, hcode]
  split
  · next hlen =>
      have hsize : ofLeBytes [UInt8.ofNat b.length] = b.length := by
        simp [ofLeBytes, hbyte hlen]
      exact ⟨0x4c, by decide, fun _ => by decide, getOp_sized (by simp) hsize⟩
  split
  · next hlen =>
      exact ⟨0x4d, by decide, fun _ => by decide,
        getOp_sized (by simp) (ofLeBytes_leBytes (by omega))⟩
  · exact ⟨0x4e, by decide, fun _ => by decide,
      getOp_sized (by simp) (ofLeBytes_leBytes (by omega))⟩

theorem vopretOf_opReturnScript {vopret : List UInt8} (hpos : 0 < vopret.length)
    (h : vopret.length < 2 ^ 32) : vopretOf (opReturnScript vopret) = vopret := by
  obtain ⟨opcode, hle, hopcode, hget⟩ := getOp_pushInstruction h
  have hop : getOp (opReturnScript vopret) = some (opReturn, [], pushInstruction vopret) := by
    simp [getOp, opReturnScript, opReturn]
  simp [vopretOf, getOpReturnData, hop, hget, hopcode hpos, hle]

def byteVector (b : List UInt8) : List UInt8 := compactSize b.length ++ b

def encodeTokenCreateOpRet (origpubkey name description : List UInt8) (oprets : Oprets) :
    CScript :=
  opReturnScript ([evalTokens, funcCode 'c'] ++ byteVector origpubkey ++ byteVector name ++
    byteVector description ++ writeOprets oprets)

/-- `EncodeTokenOpRet`: at most two keys are written. -/
def encodeTokenOpRet (tokenid : UInt256) (voutPubkeys : List CPubKey) (oprets : Oprets) :
    CScript :=
  let keys := if voutPubkeys.length ≤ 2 then voutPubkeys else []
  opReturnScript ([evalTokens, funcCode 't'] ++ leBytes 32 (revuint256 tokenid).toNat ++
    [UInt8.ofNat keys.length] ++ keys.flatMap byteVector ++ writeOprets oprets)

end Elosys
