import Elosys.NotarisationCodec
import Elosys.PartialMerkle

/-!
# Approvals of Notaries

`CrossChain::CheckNotariesApproval` counts the keys that signed approvals of a burn. Of an
approval's proof it is tested that its root is wrong, or that it has the burn: either is enough. The
array of keys is filled anew for every approval, as far as there are notaries then.
-/

open ByteCodec Program List Option Except

namespace Elosys

def readByteVector : Reader (List UInt8) := do
  let n ← readCompactSize maxSize
  bytes n

/-- `CMerkleBlock`: of the header, the root. -/
structure CMerkleBlock where
  hashMerkleRoot : UInt256
  txn : CPartialMerkleTree UInt256

/-- `CPartialMerkleTree::SerializationOp`, reading. -/
def readPartialMerkleTree : Reader (CPartialMerkleTree UInt256) := do
  let nTransactions ← leInt 4
  let vHash ← readVector maxSize readUint256
  let vBytes ← readByteVector
  return { nTransactions := nTransactions, vHash := vHash, vBits := vBytes.flatMap bits,
           fBad := false }

def readMerkleBlock : Reader CMerkleBlock := do
  -- the version and the hash of the block before
  skip 36
  let hashMerkleRoot ← readUint256
  -- the Sapling root, the time, the target and the nonce
  skip 72
  let _nSolution ← readByteVector
  let txn ← readPartialMerkleTree
  return ⟨hashMerkleRoot, txn⟩

/-- The rows that `komodo_notaries` writes, and whether it returns a number. -/
structure NotaryRows where
  rows : List (Option (List UInt8))
  ok : Bool

/-- What the function asks the rest of the node. -/
structure ApprovalWorld where
  getTxConfirmed : UInt256 → Option (CTransaction × Int32 × UInt32)
  komodoNotaries : Int32 → UInt32 → NotaryRows
  getTransaction : UInt256 → Option CTransaction
  getScriptAddress : CScript → Option (List UInt8)
  hash : UInt256 → UInt256 → UInt256
  maxBlockSize : Nat

variable (world : ApprovalWorld)

/-- `pubkey2addr`: an invalid key has an empty address. -/
def pubkey2addr (pubkey33 : List UInt8) : List UInt8 :=
  (world.getScriptAddress (33 :: pubkey33 ++ [opChecksig])).getD []

/-- `CheckVinPubKey`: an input spends an output of a key. -/
def checkVinPubKey (sourcetx : CTransaction) (i : Nat) (pubkey33 : List UInt8) : Bool :=
  (sourcetx.vin[i]?).any fun txin =>
    (world.getTransaction txin.prevout.hash).any fun vintx =>
      (vintx.vout[txin.prevout.n]?).any fun out =>
        (world.getScriptAddress out.scriptPubKey).any fun destaddr =>
          pubkey2addr world pubkey33 == destaddr

/-! ### The loop -/

/-- An approval that was found and read. -/
structure Approval where
  tx : CTransaction
  nHeight : Int32
  nTime : UInt32
  merkleBlock : CMerkleBlock

variable (burntxid : UInt256) (s : ApprovalState) (notarytxid : UInt256)

/-- The approval with an id: confirmed, a proof in its last output's `OP_RETURN`. -/
def getApproval : Option Approval := do
  let (tx, nHeight, nTime) ← world.getTxConfirmed notarytxid
  let out ← tx.vout.getLast?
  let vopret ← getOpReturnData out.scriptPubKey
  let txoutproof ← unmarshal readByteVector vopret
  let merkleBlock ← unmarshal readMerkleBlock txoutproof
  return ⟨tx, nHeight, nTime, merkleBlock⟩

variable (a : Approval)

/-- What an approval's proof shows, by the second call of `ExtractMatches`. -/
def Approval.proof : Extracted UInt256 :=
  let first := a.merkleBlock.txn.extractMatches world.hash world.maxBlockSize
  CPartialMerkleTree.extractMatches world.hash world.maxBlockSize
    { a.merkleBlock.txn with fBad := first.fBad }

def Approval.passes : Bool :=
  (a.proof world).root ≠ a.merkleBlock.hashMerkleRoot || (a.proof world).vMatch.contains burntxid

def Approval.notaries : NotaryRows :=
  world.komodoNotaries a.nHeight a.nTime

/-- The key array, the keys that signed, and their number. -/
structure ApprovalState where
  notariesPubkeys : List (List UInt8)
  alreadySigned : List (List UInt8) := []
  count : Nat := 0

/-- The array after `komodo_notaries`: unwritten rows stay. -/
def fillRows (pubkeys : List (List UInt8)) (notaries : NotaryRows) : List (List UInt8) :=
  pubkeys.mapIdx fun i old => (notaries.rows.getD i none).getD old

/-- The first unused key that signed an approval. -/
def unusedSigner : Option (List UInt8) :=
  (fillRows s.notariesPubkeys (a.notaries world)).find? fun pubkey =>
    checkVinPubKey world a.tx 0 pubkey && !s.alreadySigned.contains pubkey

def counted : Option (List UInt8) :=
  (getApproval world notarytxid).bind fun a =>
    if a.passes world burntxid && (a.notaries world).ok then unusedSigner world s a else none

/-- One approval in `CheckNotariesApproval`. -/
def countApproval : Except Fault ApprovalState :=
  let pubkeys :=
    match getApproval world notarytxid with
    | some a =>
      if a.passes world burntxid then fillRows s.notariesPubkeys (a.notaries world)
      else s.notariesPubkeys
    | none => s.notariesPubkeys
  match counted world burntxid s notarytxid with
  | some pubkey =>
    .ok
      { notariesPubkeys := pubkeys
        alreadySigned := s.alreadySigned ++ [pubkey]
        count := s.count + 1 }
  | none => .ok { s with notariesPubkeys := pubkeys }

/-- `CrossChain::CheckNotariesApproval`; `stack` is the uninitialised array. -/
def checkNotariesApproval (stack : List (List UInt8))
    (burntxid : UInt256) (notaryTxids : List UInt256) : Except Fault Bool := do
  let s ← notaryTxids.foldlM (countApproval world burntxid) { notariesPubkeys := stack }
  return 5 ≤ s.count

/-! ### Good approvals -/

def Approval.root : UInt256 :=
  (a.merkleBlock.txn.extractMatches world.hash world.maxBlockSize).root

def Approval.prooftxids : List UInt256 :=
  (a.merkleBlock.txn.extractMatches world.hash world.maxBlockSize).vMatch

/-- **A good approval**: confirmed, its proof has the root of its header and the burn, and input 0
is of a notary of its block. -/
def Approves (burntxid notarytxid : UInt256) (pubkey : List UInt8) : Prop :=
  ∃ a, getApproval world notarytxid = some a ∧ a.root world = a.merkleBlock.hashMerkleRoot ∧
    burntxid ∈ a.prooftxids world ∧ (a.notaries world).ok = true ∧
    some pubkey ∈ (a.notaries world).rows ∧ checkVinPubKey world a.tx 0 pubkey = true

/-- **What keeps other approvals from counting**: one with a wrong root is signed by no unused key
of the array, and the key of another is a notary of its block, not left by an earlier one. -/
def rightProof : Prop :=
  ∀ a, getApproval world notarytxid = some a → (a.notaries world).ok = true →
    (a.root world ≠ a.merkleBlock.hashMerkleRoot →
      ∀ pubkey ∈ fillRows s.notariesPubkeys (a.notaries world),
        checkVinPubKey world a.tx 0 pubkey = true → pubkey ∈ s.alreadySigned) ∧
    (a.root world = a.merkleBlock.hashMerkleRoot → burntxid ∈ a.prooftxids world →
      ∀ pubkey, unusedSigner world s a = some pubkey → some pubkey ∈ (a.notaries world).rows)

section

variable {world : ApprovalWorld} {burntxid notarytxid : UInt256} {s s' : ApprovalState}
  {pubkey : List UInt8} {a : Approval}

theorem passes_iff : a.passes world burntxid = true ↔
      a.root world ≠ a.merkleBlock.hashMerkleRoot ∨ burntxid ∈ a.prooftxids world := by
  have hagain : (a.proof world).root = a.root world ∧ (a.proof world).vMatch = a.prooftxids world :=
    extractMatches_again world.maxBlockSize a.merkleBlock.txn
  simp [Approval.passes, hagain.1, hagain.2]

theorem unusedSigner_eq_some (h : unusedSigner world s a = some pubkey) :
    pubkey ∈ fillRows s.notariesPubkeys (a.notaries world) ∧
      checkVinPubKey world a.tx 0 pubkey = true ∧ pubkey ∉ s.alreadySigned := by
  have hmem := mem_of_find?_eq_some h
  have hfound := find?_some h
  simp only [Bool.and_eq_true, Bool.not_eq_true', contains_eq_mem, decide_eq_false_iff_not]
    at hfound
  exact ⟨hmem, hfound⟩

theorem counted_iff : counted world burntxid s notarytxid = some pubkey ↔
      ∃ a, getApproval world notarytxid = some a ∧
        (a.root world ≠ a.merkleBlock.hashMerkleRoot ∨ burntxid ∈ a.prooftxids world) ∧
        (a.notaries world).ok = true ∧ unusedSigner world s a = some pubkey := by
  rw [counted, bind_eq_some_iff]
  refine exists_congr fun a => and_congr_right fun _ => ?_
  rw [← passes_iff]
  cases a.passes world burntxid with
  | false => simp
  | true => simp

theorem rightProof_iff : rightProof world burntxid s notarytxid ↔
      ∀ pubkey, counted world burntxid s notarytxid = some pubkey →
        Approves world burntxid notarytxid pubkey := by
  constructor
  · intro hcond pubkey hcounted
    obtain ⟨a, happroval, hpasses, hok, hunused⟩ := counted_iff.mp hcounted
    obtain ⟨hmem, hsigned, hnew⟩ := unusedSigner_eq_some hunused
    obtain ⟨hwrong, hright⟩ := hcond a happroval hok
    by_cases hroot : a.root world = a.merkleBlock.hashMerkleRoot
    · have hproves := hpasses.resolve_left (not_not.mpr hroot)
      exact ⟨a, happroval, hroot, hproves, hok, hright hroot hproves pubkey hunused, hsigned⟩
    · exact absurd (hwrong hroot pubkey hmem hsigned) hnew
  · intro hgood a happroval hok
    refine ⟨fun hroot pubkey hmem hsigned => ?_, fun hroot hproves pubkey hunused => ?_⟩
    · -- otherwise some key would be unused, and the approval would count for it
      by_contra hnew
      have hsome : (unusedSigner world s a).isSome := by
        rw [unusedSigner, find?_isSome]
        exact ⟨pubkey, hmem, by simp [hsigned, hnew]⟩
      obtain ⟨pubkey', hunused⟩ := isSome_iff_exists.mp hsome
      obtain ⟨a', happroval', hroot', -⟩ :=
        hgood pubkey' (counted_iff.mpr ⟨a, happroval, .inl hroot, hok, hunused⟩)
      obtain rfl := some.inj (happroval.symm.trans happroval')
      exact hroot hroot'
    · obtain ⟨a', happroval', -, -, -, hrow, -⟩ :=
        hgood pubkey (counted_iff.mpr ⟨a, happroval, .inr hproves, hok, hunused⟩)
      obtain rfl := some.inj (happroval.symm.trans happroval')
      exact hrow

/-! ### The whole list -/

theorem countApproval_spec (h : countApproval world burntxid s notarytxid = .ok s') :
    (s'.alreadySigned = s.alreadySigned ∧ s'.count = s.count) ∨
      ∃ pubkey, counted world burntxid s notarytxid = some pubkey ∧
        s'.alreadySigned = s.alreadySigned ++ [pubkey] ∧ s'.count = s.count + 1 := by
  unfold countApproval at h
  cases hcounted : counted world burntxid s notarytxid with
  | none =>
    rw [hcounted] at h
    obtain rfl := ok.inj h
    exact .inl ⟨rfl, rfl⟩
  | some pubkey =>
    rw [hcounted] at h
    obtain rfl := ok.inj h
    exact .inr ⟨pubkey, rfl, rfl, rfl⟩

/-- The signing keys are distinct, counted, each with a good approval. -/
structure Tallied (world : ApprovalWorld) (burntxid : UInt256) (notaryTxids : List UInt256)
    (s : ApprovalState) : Prop where
  nodup : s.alreadySigned.Nodup
  count : s.count = s.alreadySigned.length
  good : ∀ pubkey ∈ s.alreadySigned, ∃ notarytxid ∈ notaryTxids,
    Approves world burntxid notarytxid pubkey

theorem Tallied.step {notaryTxids : List UInt256} (hcond : rightProof world burntxid s notarytxid)
    (hmem : notarytxid ∈ notaryTxids) (h : Tallied world burntxid notaryTxids s)
    (hstep : countApproval world burntxid s notarytxid = .ok s') :
    Tallied world burntxid notaryTxids s' := by
  rcases countApproval_spec hstep with ⟨hsigned, hcount⟩ | ⟨pubkey, hcounted, hsigned, hcount⟩
  · refine ⟨?_, ?_, ?_⟩
    · rw [hsigned]
      exact h.nodup
    · rw [hcount, hsigned]
      exact h.count
    · rw [hsigned]
      exact h.good
  · obtain ⟨a, -, -, -, hunused⟩ := counted_iff.mp hcounted
    refine ⟨?_, ?_, ?_⟩
    · rw [hsigned]
      exact nodup_append.mpr ⟨h.nodup, nodup_singleton pubkey, by
        rintro k hk _ hk' rfl
        exact (unusedSigner_eq_some hunused).2.2 (mem_singleton.mp hk' ▸ hk)⟩
    · rw [hcount, hsigned, h.count, length_append, length_singleton]
    · rw [hsigned]
      intro k hk
      rcases mem_append.mp hk with hk | hk
      · exact h.good k hk
      · rw [mem_singleton.mp hk]
        exact ⟨notarytxid, hmem, rightProof_iff.mp hcond pubkey hcounted⟩

/-- **Only good approvals count, and true needs five notaries, exactly if every step meets the
condition.** -/
theorem notariesApproval_sound_iff (world : ApprovalWorld) (stack : List (List UInt8))
    (burntxid : UInt256) (notaryTxids : List UInt256) :
    ((∀ before notarytxid after s pubkey, notaryTxids = before ++ notarytxid :: after →
        before.foldlM (countApproval world burntxid) { notariesPubkeys := stack } = .ok s →
        counted world burntxid s notarytxid = some pubkey →
        Approves world burntxid notarytxid pubkey) ∧
      (checkNotariesApproval world stack burntxid notaryTxids = .ok true →
        ∃ pubkeys : List (List UInt8), pubkeys.Nodup ∧ 5 ≤ pubkeys.length ∧
          ∀ pubkey ∈ pubkeys, ∃ notarytxid ∈ notaryTxids,
            Approves world burntxid notarytxid pubkey)) ↔
    AllMeet (countApproval world burntxid) (rightProof world burntxid) notaryTxids
      { notariesPubkeys := stack } := by
  constructor
  · rintro ⟨hgood, -⟩
    refine allMeet_iff.mpr fun before notarytxid after s hsplit hrun => rightProof_iff.mpr ?_
    exact fun pubkey => hgood before notarytxid after s pubkey hsplit hrun
  · intro hmeet
    refine ⟨fun before notarytxid after s pubkey hsplit hrun hcounted => ?_, fun htrue => ?_⟩
    · exact rightProof_iff.mp (allMeet_iff.mp hmeet before notarytxid after s hsplit hrun) pubkey
        hcounted
    · obtain ⟨s, hrun, hcount⟩ := bind_eq_ok.mp htrue
      have htallied :=
        hmeet.with_mem.invariant (fun _ _ _ hcond => Tallied.step hcond.1 hcond.2)
          ⟨nodup_nil, rfl, nofun⟩ hrun
      have hfive : 5 ≤ s.count := of_decide_eq_true (ok.inj hcount)
      rw [htallied.count] at hfive
      exact ⟨s.alreadySigned, htallied.nodup, hfive, htallied.good⟩

end

def merkleBlockBytes (root txid : UInt256) : List UInt8 :=
  replicate 36 0 ++ writeUint256 root ++ replicate 73 0 ++ leBytes 4 1 ++
    1 :: writeUint256 txid ++ [1, 1]

def notaryKey (n : Nat) : List UInt8 := replicate 33 (UInt8.ofNat n)

def approvingWorld (root txid : UInt256) : ApprovalWorld where
  getTxConfirmed h := some
    ({ hash := h
       nVersion := 1
       vin := [{ prevout := ⟨h, 0⟩, scriptSig := [] }]
       vout := [⟨0, opretScript (180 :: merkleBlockBytes root txid)⟩] }, 7, 0)
  komodoNotaries _ _ := ⟨(range 64).map fun n => some (notaryKey n), true⟩
  getTransaction h := some
    { hash := h
      nVersion := 1
      vin := []
      vout := [⟨1, 33 :: notaryKey h.toNat ++ [opChecksig]⟩] }
  getScriptAddress spk := if spk.length = 35 then some ((spk.drop 1).take 33) else none
  hash a b := a + b
  maxBlockSize := 4096000

def fiveTxids : List UInt256 := [1, 2, 3, 4, 5]

/-- **Five approvals with wrong proofs are enough**: no right root, and no burn. -/
theorem wrong_proofs_approve :
    checkNotariesApproval (approvingWorld 7 9) (replicate 64 []) 3 fiveTxids = .ok true ∧
      fiveTxids.all fun notarytxid =>
        (getApproval (approvingWorld 7 9) notarytxid).any fun a =>
          a.root (approvingWorld 7 9) ≠ a.merkleBlock.hashMerkleRoot ∧
            3 ∉ a.prooftxids (approvingWorld 7 9) := by
  have htrue : (checkNotariesApproval (approvingWorld 7 9) (replicate 64 []) 3
      fiveTxids).toOption = some true := by
    decide +kernel
  refine ⟨?_, by decide +kernel⟩
  cases hrun : checkNotariesApproval (approvingWorld 7 9) (replicate 64 []) 3 fiveTxids with
  | error e =>
    rw [hrun] at htrue
    cases htrue
  | ok b =>
    rw [hrun] at htrue
    rw [some.inj htrue]

end Elosys
