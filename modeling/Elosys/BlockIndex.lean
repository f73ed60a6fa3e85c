import Elosys.Primitives
import Elosys.OrderedSet
import Elosys.Forest

/-!
# The Block Index

`mapBlockIndex` of `main.cpp` with the members of `CBlockIndex` that decide on the best chain, the
multimap of blocks whose data arrived before an ancestor's, and the candidates. Entries refer to
each other by hash; the address, the last tie breaker, is a member.
-/

open List Function Bool

namespace Elosys

/-! ### Entries -/

def blockValidTree : Nat := 2

def blockValidTransactions : Nat := 3

/-- An entry of the block index. `validity` is `nStatus` under `BLOCK_VALID_MASK`, the flags its
other bits. -/
structure CBlockIndexEntry where
  address : Nat
  pprev : Option UInt256 := none
  nHeight : Nat := 0
  nChainWork : UInt256 := 0
  nTx : UInt32 := 0
  nChainTx : UInt32 := 0
  nSproutValue : Option CAmount := none
  nChainSproutValue : Option CAmount := none
  nSaplingValue : CAmount := 0
  nChainSaplingValue : Option CAmount := none
  validity : Nat := 0
  haveData : Bool := false
  failedValid : Bool := false
  failedChild : Bool := false
  inTmpfile : Bool := false
  nSequenceId : UInt32 := 0
  deriving DecidableEq

namespace CBlockIndexEntry

/-- `nStatus & BLOCK_FAILED_MASK`. -/
def failed (e : CBlockIndexEntry) : Bool := e.failedValid || e.failedChild

def isValid (e : CBlockIndexEntry) (nUpTo : Nat) : Bool := !e.failed && nUpTo ≤ e.validity

def raiseValidity (e : CBlockIndexEntry) (nUpTo : Nat) : CBlockIndexEntry :=
  if e.failed then e else if e.validity < nUpTo then { e with validity := nUpTo } else e

end CBlockIndexEntry

/-- `CBlockIndexWorkComparator`: whether the first sorts before the second. -/
def workComparator (pa pb : CBlockIndexEntry) : Bool :=
  -- First sort by most total work, ...
  if pb.nChainWork < pa.nChainWork then false
  else if pa.nChainWork < pb.nChainWork then true
  -- ... then by earliest time received, ...
  else if pa.nSequenceId < pb.nSequenceId then false
  else if pb.nSequenceId < pa.nSequenceId then true
  -- ... and then by address.
  else if pa.address < pb.address then false
  else if pb.address < pa.address then true
  else false

theorem workComparator_iff (pa pb : CBlockIndexEntry) : workComparator pa pb = true ↔
      pa.nChainWork.toNat < pb.nChainWork.toNat ∨ pa.nChainWork.toNat = pb.nChainWork.toNat ∧
          (pb.nSequenceId.toNat < pa.nSequenceId.toNat ∨
            pa.nSequenceId.toNat = pb.nSequenceId.toNat ∧ pb.address < pa.address) := by
  simp only [workComparator, BitVec.lt_def, UInt32.lt_iff_toNat_lt]
  grind

def CBlockIndexEntry.key (e : CBlockIndexEntry) : UInt256 × UInt32 × Nat :=
  (e.nChainWork, e.nSequenceId, e.address)

theorem workComparator_congr {pa pa' pb pb' : CBlockIndexEntry} (ha : pa'.key = pa.key)
    (hb : pb'.key = pb.key) : workComparator pa' pb' = workComparator pa pb := by
  simp only [CBlockIndexEntry.key, Prod.mk.injEq] at ha hb
  simp only [workComparator, ha, hb]

/-! ### The index -/

/-- The globals of the block index; `chainActive` from the tip down. -/
structure BlockIndex where
  mapBlockIndex : List UInt256 := []
  entry : UInt256 → CBlockIndexEntry
  chainActive : List UInt256 := []
  setBlockIndexCandidates : List UInt256 := []
  mapBlocksUnlinked : List (UInt256 × UInt256) := []
  nBlockSequenceId : UInt32 := 1

namespace BlockIndex

section

variable (s : BlockIndex)

def pprev (h : UInt256) : Option UInt256 := (s.entry h).pprev

def nHeight (h : UInt256) : Nat := (s.entry h).nHeight

/-- `chainActive.Tip()`. -/
def tip : Option UInt256 := s.chainActive.head?

/-- `setBlockIndexCandidates.value_comp()`. -/
def workLess (a b : UInt256) : Bool := workComparator (s.entry a) (s.entry b)

def modify (h : UInt256) (f : CBlockIndexEntry → CBlockIndexEntry) : BlockIndex :=
  { s with entry := update s.entry h (f (s.entry h)) }

/-- `setBlockIndexCandidates.insert`. -/
def insertCandidate (h : UInt256) : BlockIndex :=
  { s with setBlockIndexCandidates :=
      OrderedSet.insert s.workLess h s.setBlockIndexCandidates }

/-- Whether a block does not compare below the tip. -/
def reachesTip (h : UInt256) : Bool :=
  match s.tip with
  | none => true
  | some t => !s.workLess h t

end

/-- What `AddToBlockIndex` reads of a header: its hash and its parent's, its `GetBlockProof`, and
the new address. -/
structure Header where
  hash : UInt256
  hashPrevBlock : UInt256
  blockProof : UInt256
  address : Nat

variable (vtx : List CTransaction) (s : BlockIndex)

def newEntry (block : Header) : CBlockIndexEntry :=
  if block.hashPrevBlock ∈ s.mapBlockIndex then
    { address := block.address
      pprev := some block.hashPrevBlock
      nHeight := s.nHeight block.hashPrevBlock + 1
      nChainWork := (s.entry block.hashPrevBlock).nChainWork + block.blockProof
      validity := blockValidTree }
  else
    { address := block.address
      nChainWork := block.blockProof
      validity := blockValidTree }

/-- `AddToBlockIndex`; a known header is left alone. -/
def addToBlockIndex (block : Header) : BlockIndex :=
  if block.hash ∈ s.mapBlockIndex then s
  else
    { s with
      mapBlockIndex := s.mapBlockIndex ++ [block.hash]
      entry := update s.entry block.hash (s.newEntry block) }

/-! ### Data -/

def sproutDelta : CAmount :=
  vtx.foldl (fun value tx =>
    tx.vjoinsplit.foldl (fun value js => value + js.vpubOld - js.vpubNew) value) 0

def saplingDelta : CAmount :=
  vtx.foldl (fun value tx => value + -tx.valueBalance) 0

/-- What `ReceivedBlockTransactions` sets first. -/
def receive (e : CBlockIndexEntry) : CBlockIndexEntry :=
  CBlockIndexEntry.raiseValidity
    { e with
      nTx := UInt32.ofNat vtx.length
      nChainTx := 0
      nSproutValue := some (sproutDelta vtx)
      nChainSproutValue := none
      nSaplingValue := saplingDelta vtx
      nChainSaplingValue := none
      haveData := true }
    blockValidTransactions

/-- The sums of an entry with complete ancestry, from its parent's, and its number. -/
def linkEntry (parent : Option CBlockIndexEntry) (nSequenceId : UInt32) (e : CBlockIndexEntry) :
    CBlockIndexEntry :=
  match parent with
  | some p =>
    { e with
      nChainTx := p.nChainTx + e.nTx
      nChainSproutValue :=
        match p.nChainSproutValue, e.nSproutValue with
        | some total, some value => some (total + value)
        | _, _ => none
      nChainSaplingValue := p.nChainSaplingValue.map (· + e.nSaplingValue)
      nSequenceId := nSequenceId }
  | none =>
    { e with
      nChainTx := 0 + e.nTx
      nChainSproutValue := e.nSproutValue
      nChainSaplingValue := some e.nSaplingValue
      nSequenceId := nSequenceId }

def waiting (s : BlockIndex) (h : UInt256) : List UInt256 :=
  (s.mapBlocksUnlinked.filter fun p => p.1 == h).map Prod.snd

/-- Set a block's sums and its next sequence number. -/
def number (h : UInt256) : BlockIndex :=
  { s.modify h (linkEntry ((s.pprev h).map s.entry) s.nBlockSequenceId) with
    nBlockSequenceId := s.nBlockSequenceId + 1 }

/-- Make a block a candidate unless below the tip. -/
def enter (h : UInt256) : BlockIndex :=
  if s.reachesTip h then s.insertCandidate h else s

/-- The body of the queue loop: sums, sequence number, candidate, and the waiting blocks leave the
multimap. -/
def linkBlock (s : BlockIndex) (h : UInt256) : BlockIndex :=
  { (s.number h).enter h with
    mapBlocksUnlinked := s.mapBlocksUnlinked.filter fun p => !(p.1 == h) }

/-- The queue loop. Each round takes a block and moves the waiting ones over, so queue and
multimap bound the rounds. -/
def linkLoop : Nat → List UInt256 → BlockIndex → BlockIndex
  | _, [], s => s
  | 0, _ :: _, s => s
  | fuel + 1, h :: queue, s => linkLoop fuel (queue ++ s.waiting h) (s.linkBlock h)

def receivedBlockTransactions (h : UInt256) (vtx : List CTransaction) : BlockIndex :=
  let s := s.modify h (receive vtx)
  match s.pprev h with
  | none => linkLoop (s.mapBlocksUnlinked.length + 1) [h] s
  | some p =>
    if (s.entry p).nChainTx ≠ 0 then linkLoop (s.mapBlocksUnlinked.length + 1) [h] s
    else if (s.entry p).isValid blockValidTree then
      { s with mapBlocksUnlinked := s.mapBlocksUnlinked ++ [(p, h)] }
    else s

/-! ### Frames -/

section

variable (s : BlockIndex) (h : UInt256) (f : CBlockIndexEntry → CBlockIndexEntry)

@[simp] theorem modify_entry : (s.modify h f).entry = update s.entry h (f (s.entry h)) := rfl

@[simp] theorem modify_mapBlockIndex : (s.modify h f).mapBlockIndex = s.mapBlockIndex := rfl

@[simp] theorem modify_tip : (s.modify h f).tip = s.tip := rfl

@[simp] theorem modify_candidates :
    (s.modify h f).setBlockIndexCandidates = s.setBlockIndexCandidates := rfl

@[simp] theorem modify_unlinked : (s.modify h f).mapBlocksUnlinked = s.mapBlocksUnlinked := rfl

end

variable {β : Type} {s : BlockIndex} (member : CBlockIndexEntry → β)

theorem modify_member {h : UInt256} {f : CBlockIndexEntry → CBlockIndexEntry}
    (hf : member (f (s.entry h)) = member (s.entry h)) :
    (fun x => member ((s.modify h f).entry x)) = fun x => member (s.entry x) := by
  funext x
  rw [modify_entry]
  by_cases hx : x = h
  · subst hx
    rw [update_self, hf]
  · rw [update_of_ne hx]

theorem raiseValidity_member (e : CBlockIndexEntry) (nUpTo : Nat)
    (hmember : ∀ v, member { e with validity := v } = member e) :
    member (e.raiseValidity nUpTo) = member e := by
  unfold CBlockIndexEntry.raiseValidity
  split
  · rfl
  · split
    · exact hmember nUpTo
    · rfl

section

variable (s : BlockIndex) (h : UInt256)

@[simp] theorem enter_entry : (s.enter h).entry = s.entry := by
  unfold enter
  split <;> rfl

@[simp] theorem enter_mapBlockIndex : (s.enter h).mapBlockIndex = s.mapBlockIndex := by
  unfold enter
  split <;> rfl

@[simp] theorem enter_chainActive : (s.enter h).chainActive = s.chainActive := by
  unfold enter
  split <;> rfl

@[simp] theorem linkBlock_entry : (s.linkBlock h).entry = update s.entry h
      (linkEntry ((s.pprev h).map s.entry) s.nBlockSequenceId (s.entry h)) :=
  enter_entry (s.number h) h

@[simp] theorem linkBlock_mapBlockIndex : (s.linkBlock h).mapBlockIndex = s.mapBlockIndex :=
  enter_mapBlockIndex (s.number h) h

@[simp] theorem linkBlock_chainActive : (s.linkBlock h).chainActive = s.chainActive :=
  enter_chainActive (s.number h) h

@[simp] theorem linkBlock_unlinked :
    (s.linkBlock h).mapBlocksUnlinked = s.mapBlocksUnlinked.filter fun p => !(p.1 == h) := rfl

def key : UInt256 × UInt32 × Nat := (s.entry h).key

end

variable {s s' : BlockIndex}

theorem workLess_congr (hkey : s'.key = s.key) : s'.workLess = s.workLess := by
  funext a b
  exact workComparator_congr (congrFun hkey a) (congrFun hkey b)

theorem reachesTip_congr (hkey : s'.key = s.key)
    (hchain : s'.chainActive = s.chainActive) : s'.reachesTip = s.reachesTip := by
  funext a
  simp only [reachesTip, tip, hchain, workLess_congr hkey]

theorem linkBlock_candidates (h : UInt256) : (s.linkBlock h).setBlockIndexCandidates =
      if (s.linkBlock h).reachesTip h then
        OrderedSet.insert (s.linkBlock h).workLess h s.setBlockIndexCandidates
      else s.setBlockIndexCandidates := by
  have hkey : (s.linkBlock h).key = (s.number h).key :=
    funext fun x => congrArg (fun e => (e x).key) (enter_entry (s.number h) h)
  rw [workLess_congr hkey, reachesTip_congr hkey (enter_chainActive (s.number h) h)]
  change ((s.number h).enter h).setBlockIndexCandidates = _
  unfold enter
  split <;> rfl

theorem receive_member (vtx : List CTransaction) (e : CBlockIndexEntry)
    (hmember : ∀ v, member { e with
        nTx := UInt32.ofNat vtx.length
        nChainTx := 0
        nSproutValue := some (sproutDelta vtx)
        nChainSproutValue := none
        nSaplingValue := saplingDelta vtx
        nChainSaplingValue := none
        haveData := true
        validity := v } = member e) : member (receive vtx e) = member e := by
  unfold receive CBlockIndexEntry.raiseValidity
  split
  · exact hmember e.validity
  · split
    · exact hmember blockValidTransactions
    · exact hmember e.validity

section

variable (vtx : List CTransaction) (e : CBlockIndexEntry)

@[simp] theorem receive_nTx : (receive vtx e).nTx = UInt32.ofNat vtx.length :=
  raiseValidity_member (·.nTx) _ _ fun _ => rfl

@[simp] theorem receive_nChainTx : (receive vtx e).nChainTx = 0 :=
  raiseValidity_member (·.nChainTx) _ _ fun _ => rfl

@[simp] theorem receive_nSproutValue : (receive vtx e).nSproutValue = some (sproutDelta vtx) :=
  raiseValidity_member (·.nSproutValue) _ _ fun _ => rfl

@[simp] theorem receive_nSaplingValue : (receive vtx e).nSaplingValue = saplingDelta vtx :=
  raiseValidity_member (·.nSaplingValue) _ _ fun _ => rfl

@[simp] theorem receive_haveData : (receive vtx e).haveData = true :=
  raiseValidity_member (·.haveData) _ _ fun _ => rfl

end

def KeptByLinking (member : CBlockIndexEntry → β) : Prop :=
  ∀ (e : CBlockIndexEntry) (t : UInt32) (u v : Option CAmount) (q : UInt32),
    member { e with
      nChainTx := t
      nChainSproutValue := u
      nChainSaplingValue := v
      nSequenceId := q } = member e

theorem linkEntry_member (hmember : KeptByLinking member) (parent : Option CBlockIndexEntry)
    (q : UInt32) (e : CBlockIndexEntry) : member (linkEntry parent q e) = member e := by
  cases parent with
  | none => exact hmember _ _ _ _ _
  | some p => exact hmember _ _ _ _ _

theorem linkBlock_member (hmember : KeptByLinking member) (s : BlockIndex) (h : UInt256) :
    (fun x => member ((s.linkBlock h).entry x)) = fun x => member (s.entry x) := by
  rw [linkBlock_entry]
  exact modify_member member (linkEntry_member member hmember _ _ _)

theorem linkBlock_entry_of_ne {h x : UInt256} (hx : x ≠ h) :
    (s.linkBlock h).entry x = s.entry x := by
  rw [linkBlock_entry, update_of_ne hx]

theorem reachesTip_linkBlock {h x : UInt256} (hx : x ≠ h)
    (htip : ∀ t, s.tip = some t → t ≠ h) : (s.linkBlock h).reachesTip x = s.reachesTip x := by
  have hchain : (s.linkBlock h).tip = s.tip := by simp only [tip, linkBlock_chainActive]
  unfold reachesTip
  rw [hchain]
  cases ht : s.tip with
  | none => rfl
  | some t => simp only [workLess, linkBlock_entry_of_ne hx, linkBlock_entry_of_ne (htip t ht)]

/-- The entries form trees: parents are known and one lower, addresses distinct. -/
structure Tree (s : BlockIndex) : Prop where
  graded : Forest.Graded s.pprev s.nHeight (· ∈ s.mapBlockIndex)
  address_inj : ∀ a ∈ s.mapBlockIndex, ∀ b ∈ s.mapBlockIndex,
    (s.entry a).address = (s.entry b).address → a = b

theorem Tree.strictTotal (ht : s.Tree) :
    OrderedSet.StrictTotal s.workLess (· ∈ s.mapBlockIndex) where
  irrefl a := by
    rw [eq_false_iff]
    intro h
    have := (workComparator_iff _ _).mp h
    omega
  trans a b c hab hbc := by
    have hab := (workComparator_iff _ _).mp hab
    have hbc := (workComparator_iff _ _).mp hbc
    exact (workComparator_iff _ _).mpr (by omega)
  eq_of a b ha hb hab hba := by
    refine ht.address_inj a ha b hb ?_
    have hab := mt (workComparator_iff (s.entry a) (s.entry b)).mpr (eq_false_iff.mp hab)
    have hba := mt (workComparator_iff (s.entry b) (s.entry a)).mpr (eq_false_iff.mp hba)
    omega

theorem Tree.congr (ht : s.Tree) (hmap : s'.mapBlockIndex = s.mapBlockIndex)
    (hpprev : s'.pprev = s.pprev) (hheight : s'.nHeight = s.nHeight)
    (haddress : (fun x => (s'.entry x).address) = fun x => (s.entry x).address) : s'.Tree := by
  refine ⟨?_, ?_⟩
  · rw [hmap, hpprev, hheight]
    exact ht.graded
  · intro a ha b hb hab
    rw [hmap] at ha hb
    exact ht.address_inj a ha b hb
      ((congrFun haddress a).symm.trans (hab.trans (congrFun haddress b)))

theorem mem_waiting {h c : UInt256} : c ∈ s.waiting h ↔ (h, c) ∈ s.mapBlocksUnlinked := by
  simp [waiting]

theorem length_round (s : BlockIndex) (h : UInt256) (queue : List UInt256) :
    (queue ++ s.waiting h).length + (s.linkBlock h).mapBlocksUnlinked.length =
      queue.length + s.mapBlocksUnlinked.length := by
  have hsplit : (s.mapBlocksUnlinked.filter fun p => p.1 == h).length +
      (s.mapBlocksUnlinked.filter fun p => !(p.1 == h)).length = s.mapBlocksUnlinked.length := by
    induction s.mapBlocksUnlinked with
    | nil => rfl
    | cons p ps ih => by_cases hp : p.1 = h <;> simp [hp] at ih ⊢ <;> omega
  rw [linkBlock_unlinked, length_append, waiting, length_map]
  omega

theorem linkLoop_member (hmember : KeptByLinking member) (fuel : Nat) (queue : List UInt256)
    (s : BlockIndex) :
    (fun x => member ((linkLoop fuel queue s).entry x)) = fun x => member (s.entry x) := by
  induction fuel generalizing queue s with
  | zero => cases queue <;> rfl
  | succ fuel ih =>
    cases queue with
    | nil => rfl
    | cons h queue => exact (ih _ _).trans (linkBlock_member member hmember s h)

theorem linkLoop_rule {P : List UInt256 → BlockIndex → Prop}
    (hround : ∀ h queue s, P (h :: queue) s → P (queue ++ s.waiting h) (s.linkBlock h))
    {fuel : Nat} {queue : List UInt256}
    (hfuel : queue.length + s.mapBlocksUnlinked.length ≤ fuel) (h : P queue s) :
    P [] (linkLoop fuel queue s) := by
  induction fuel generalizing queue s with
  | zero =>
    obtain rfl : queue = [] := length_eq_zero_iff.mp (by omega)
    exact h
  | succ fuel ih =>
    cases queue with
    | nil => exact h
    | cons b queue =>
      refine ih ?_ (hround b queue s h)
      have hlength := length_round s b queue
      simp only [length_cons] at hfuel
      omega

end BlockIndex

end Elosys
