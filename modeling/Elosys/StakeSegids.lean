import Elosys.Primitives

/-!
# The Segids of a Stake Kernel

`komodo_segids` of `komodo_bitcoind.cpp` gathers the segids of a hundred blocks for the hash of a
stake. The bytes are remembered with their height, but not with the chain: they are given again
after other blocks took the place of theirs. At first there are a hundred zeros for height 0.
-/

open Function List

namespace Elosys

/-- What is read of a block. -/
structure StakedBlock where
  nTime : UInt32
  vtx : List CTransaction

/-- What `komodo_segid` uses: `ExtractDestination` as text, `komodo_segid32`, `komodo_txtime` and
`DecodeStakingOpRet`. -/
structure StakeRules where
  extractDestination : CScript → Option (List UInt8)
  komodoSegid32 : List UInt8 → UInt32
  /-- The value and the address of an output. `komodo_segid` does not set `destaddr` before the
  call, so that it is uninitialised when the output is not found; here it is `none`. -/
  komodoTxtime : COutPoint → CAmount × Option (List UInt8)
  decodeStakingOpRet : CScript → Bool

def nStakedDecemberHardforkTimestamp : UInt32 := 1576840000

/-- `komodo_newStakerActive` for an active block. -/
def StakedBlock.newStakerActive (b : StakedBlock) : Bool :=
  decide (nStakedDecemberHardforkTimestamp < b.nTime)

variable (r : StakeRules)

/-- The segid of `komodo_segid`: -1, or six bits of a staking transaction's address. -/
def StakeRules.segidOf (b : StakedBlock) : Int8 :=
  match b.vtx with
  | _ :: tx :: txs =>
    match (tx :: txs).getLast?.map fun last => (last.vin, last.vout) with
    | some ([i], out :: outs) =>
      if outs.length = b.newStakerActive.toNat then
        let (value, destaddr) := r.komodoTxtime i.prevout
        match r.extractDestination out.scriptPubKey with
        | some voutaddr =>
          let staking := outs.any fun o => r.decodeStakingOpRet o.scriptPubKey
          if (b.newStakerActive && staking) || (!b.newStakerActive &&
              (destaddr == some voutaddr && out.nValue == value)) then
            (r.komodoSegid32 voutaddr &&& 0x3f).toUInt8.toInt8
          else -1
        | none => -1
      else -1
    | _ => -1
  | _ => -1

/-- The active chain with the `segid` of each block's index, -2 until set, and the statics of
`komodo_segids`. -/
structure SegidNode where
  blocks : List StakedBlock
  segid : Nat → Int8 := fun _ => -2
  prevhashbuf : List UInt8 := replicate 100 0
  prevheight : Int := 0

/-- `komodo_chainactive`, above the genesis block. -/
def blockAt (blocks : List StakedBlock) (height : Int) : Option StakedBlock :=
  if 0 < height then blocks[height.toNat]? else none

namespace StakeRules

variable (r : StakeRules)

def komodoSegid (nocache : Bool) (height : Int) (s : SegidNode) : Int8 × SegidNode :=
  match blockAt s.blocks height with
  | none => (-1, s)
  | some b =>
    let memo := s.segid height.toNat
    if nocache = false ∧ -1 ≤ memo then (memo, s)
    else (r.segidOf b, if memo = -2 then
      { s with segid := update s.segid height.toNat (r.segidOf b) } else s)

/-- The loop of `komodo_segids`. -/
def segidLoop (height : Int) : Nat → SegidNode → List UInt8 × SegidNode
  | 0, s => ([], s)
  | n + 1, s =>
    let (segid, s) := r.komodoSegid false height s
    let (rest, s) := segidLoop (height + 1) n s
    (segid.toUInt8 :: rest, s)

/-- `komodo_segids`: the bytes, with the statics that keep the last hundred. -/
def komodoSegids (height : Int) (n : Nat) (s : SegidNode) : List UInt8 × SegidNode :=
  if height = s.prevheight ∧ n = 100 then (s.prevhashbuf, s)
  else
    let (hashbuf, s) := r.segidLoop height n s
    (hashbuf, if n = 100 then { s with prevhashbuf := hashbuf, prevheight := height } else s)

def segidBytes (blocks : List StakedBlock) (height : Int) : Nat → List UInt8
  | 0 => []
  | n + 1 => (((blockAt blocks height).map r.segidOf).getD (-1)).toUInt8 ::
      segidBytes blocks (height + 1) n

end StakeRules

/-- What happens to a node. -/
inductive SegidOp where
  | connectTip (b : StakedBlock)
  | disconnectTip
  | segid (nocache : Bool) (height : Int)
  | segids (height : Int) (n : Nat)

/-- One step. A block comes without `segid`, and `DisconnectTip` takes it back. -/
def StakeRules.step (s : SegidNode) : SegidOp → SegidNode
  | .connectTip b =>
    { s with blocks := s.blocks ++ [b], segid := update s.segid s.blocks.length (-2) }
  | .disconnectTip => { s with blocks := s.blocks.dropLast }
  | .segid nocache height => (r.komodoSegid nocache height s).2
  | .segids height n => (r.komodoSegids height n s).2

/-- The height bytes were last gathered for, and the blocks then. -/
abbrev Gathered := Option (Int × List StakedBlock)

/-- Bytes are gathered for another height than before. -/
def Gathered.step (g : Gathered) (blocks : List StakedBlock) : SegidOp → Gathered
  | .segids height n =>
    if n = 100 ∧ height ≠ (g.map (·.1)).getD 0 then some (height, blocks) else g
  | _ => g

def StakeRules.run : SegidNode × Gathered → List SegidOp → SegidNode × Gathered :=
  List.foldl fun s op => (r.step s.1 op, s.2.step s.1.blocks op)

/-- **A height's bytes are not stale**: not remembered, or their segids are the same now. -/
def StakeRules.NotStale (g : Gathered) (blocks : List StakedBlock) (height : Int) : Prop :=
  match g with
  | none => height ≠ 0
  | some (h, old) => h = height → r.segidBytes old height 100 = r.segidBytes blocks height 100

/-! ### Runs -/

section

variable {r : StakeRules} {s : SegidNode} {g : Gathered}

/-- What is remembered with a block's index is its segid. -/
def StakeRules.Memoised (s : SegidNode) : Prop :=
  ∀ i b, s.blocks[i]? = some b → s.segid i = -2 ∨ s.segid i = r.segidOf b

/-- What asking for segids leaves alone. -/
structure StakeRules.Keeps (r : StakeRules) (s s' : SegidNode) : Prop where
  memo : r.Memoised s'
  blocks : s'.blocks = s.blocks
  prevhashbuf : s'.prevhashbuf = s.prevhashbuf
  prevheight : s'.prevheight = s.prevheight

theorem StakeRules.komodoSegid_spec (h : r.Memoised s) (nocache : Bool) (height : Int) :
    (r.komodoSegid nocache height s).1 = ((blockAt s.blocks height).map r.segidOf).getD (-1) ∧
      r.Keeps s (r.komodoSegid nocache height s).2 := by
  rw [komodoSegid]
  cases hfind : blockAt s.blocks height with
  | none => exact ⟨rfl, h, rfl, rfl, rfl⟩
  | some b =>
    have hb : s.blocks[height.toNat]? = some b := by
      unfold blockAt at hfind
      split at hfind
      · exact hfind
      · cases hfind
    dsimp only
    split
    · next hmemo =>
      refine ⟨(h _ b hb).resolve_left fun hunset => ?_, h, rfl, rfl, rfl⟩
      rw [hunset] at hmemo
      exact absurd hmemo.2 (by decide)
    · by_cases hunset : s.segid height.toNat = -2
      · rw [if_pos hunset]
        refine ⟨rfl, fun i b' hb' => ?_, rfl, rfl, rfl⟩
        by_cases hi : i = height.toNat
        · subst hi
          rw [← Option.some.inj (hb.symm.trans hb')]
          exact .inr (update_self ..)
        · dsimp only
          rw [update_of_ne hi]
          exact h i b' hb'
      · rw [if_neg hunset]
        exact ⟨rfl, h, rfl, rfl, rfl⟩

theorem StakeRules.segidLoop_spec (h : r.Memoised s) (height : Int) (n : Nat) :
    (r.segidLoop height n s).1 = r.segidBytes s.blocks height n ∧
      r.Keeps s (r.segidLoop height n s).2 := by
  induction n generalizing height s with
  | zero => exact ⟨rfl, h, rfl, rfl, rfl⟩
  | succ n ih =>
    obtain ⟨hsegid, hkeeps⟩ := r.komodoSegid_spec h false height
    obtain ⟨hrest, hkeeps'⟩ := ih hkeeps.memo (height + 1)
    refine ⟨?_, hkeeps'.memo, hkeeps'.blocks.trans hkeeps.blocks,
      hkeeps'.prevhashbuf.trans hkeeps.prevhashbuf, hkeeps'.prevheight.trans hkeeps.prevheight⟩
    rw [segidLoop, segidBytes, ← hsegid, ← hkeeps.blocks, ← hrest]

/-- The static variables hold the last bytes gathered. -/
structure StakeRules.Follows (r : StakeRules) (s : SegidNode) (g : Gathered) : Prop where
  memo : r.Memoised s
  prevheight : s.prevheight = (g.map (·.1)).getD 0
  prevhashbuf : s.prevhashbuf =
    (g.map fun p => r.segidBytes p.2 p.1 100).getD (replicate 100 0)

theorem StakeRules.Follows.step (h : r.Follows s g) (op : SegidOp) :
    r.Follows (r.step s op) (g.step s.blocks op) := by
  have hkept : ∀ {s'}, r.Keeps s s' → r.Follows s' g := fun hk =>
    ⟨hk.memo, hk.prevheight.trans h.prevheight, hk.prevhashbuf.trans h.prevhashbuf⟩
  cases op with
  | connectTip b =>
    refine ⟨fun i b' hb' => ?_, h.prevheight, h.prevhashbuf⟩
    by_cases hi : i = s.blocks.length
    · exact .inl (hi ▸ update_self ..)
    · have hlt : i < s.blocks.length := by
        have := (List.getElem?_eq_some_iff.mp hb').1
        simp only [StakeRules.step, List.length_append, List.length_singleton] at this
        omega
      simp only [StakeRules.step, List.getElem?_append_left hlt] at hb'
      simp only [StakeRules.step, update_of_ne hi]
      exact h.memo i b' hb'
  | disconnectTip =>
    refine ⟨fun i b' hb' => h.memo i b' ?_, h.prevheight, h.prevhashbuf⟩
    simp only [StakeRules.step, List.getElem?_dropLast] at hb'
    split at hb'
    · exact hb'
    · cases hb'
  | segid nocache height => exact hkept (r.komodoSegid_spec h.memo nocache height).2
  | segids height n =>
    obtain ⟨hbytes, hkeeps⟩ := r.segidLoop_spec h.memo height n
    rw [StakeRules.step, komodoSegids, Gathered.step, ← h.prevheight]
    by_cases hhit : height = s.prevheight ∧ n = 100
    · rwa [if_pos hhit, if_neg fun hnew => hnew.2 hhit.1]
    · rw [if_neg hhit]
      by_cases hn : n = 100
      · rw [if_pos ⟨hn, fun heq => hhit ⟨heq, hn⟩⟩]
        dsimp only
        rw [if_pos hn]
        exact ⟨hkeeps.memo, rfl, hn ▸ hbytes⟩
      · rw [if_neg fun hnew => hn hnew.1]
        dsimp only
        rw [if_neg hn]
        exact hkept hkeeps

theorem StakeRules.Follows.run {s : SegidNode × Gathered} (h : r.Follows s.1 s.2)
    (ops : List SegidOp) : r.Follows (r.run s ops).1 (r.run s ops).2 := by
  induction ops generalizing s with
  | nil => exact h
  | cons op ops ih => exact ih (h.step op)

end

/-- **When the hundred bytes are the segids of the chain**, after any history. -/
theorem segids_follow_chain_iff (r : StakeRules) (blocks : List StakedBlock) (ops : List SegidOp)
    (height : Int) : let s := r.run (⟨blocks, fun _ => -2, replicate 100 0, 0⟩, none) ops
    (r.komodoSegids height 100 s.1).1 = r.segidBytes s.1.blocks height 100 ↔
      r.NotStale s.2 s.1.blocks height := by
  have hstart : r.Follows ⟨blocks, fun _ => -2, replicate 100 0, 0⟩ none :=
    ⟨fun _ _ _ => .inl rfl, rfl, rfl⟩
  have hrun := StakeRules.Follows.run (s := (_, none)) hstart ops
  generalize r.run _ ops = s at hrun ⊢
  obtain ⟨s, g⟩ := s
  have hbytes := (r.segidLoop_spec hrun.memo height 100).1
  have hbuf := hrun.prevhashbuf
  have hheight := hrun.prevheight
  dsimp only at hbytes hbuf hheight ⊢
  rw [StakeRules.komodoSegids]
  by_cases hhit : height = s.prevheight
  · rw [if_pos ⟨hhit, rfl⟩]
    cases g with
    | none =>
      obtain rfl : height = 0 := hhit.trans hheight
      refine iff_of_false (fun heq => ?_) fun h => h rfl
      -- the first of the zeros stands where the genesis block has -1
      rw [show s.prevhashbuf = replicate 100 0 from hbuf] at heq
      have hhead : some (0 : UInt8) = some 255 := congrArg List.head? heq
      exact absurd hhead (by decide)
    | some p =>
      obtain ⟨h, old⟩ := p
      obtain rfl : height = h := hhit.trans hheight
      rw [show s.prevhashbuf = r.segidBytes old height 100 from hbuf]
      exact ⟨fun heq _ => heq, fun heq => heq rfl⟩
  · rw [if_neg fun h => hhit h.1]
    generalize r.segidLoop height 100 s = gathered at hbytes ⊢
    refine iff_of_true hbytes ?_
    cases g with
    | none => exact fun h => hhit (h.trans hheight.symm)
    | some p =>
      obtain ⟨h, old⟩ := p
      have hnew : h ≠ height := fun heq => hhit (heq.symm.trans hheight.symm)
      exact fun heq => absurd heq hnew

def plainStakeRules : StakeRules where
  extractDestination := some
  komodoSegid32 addr := (addr.headD 0).toUInt32
  komodoTxtime o := (5, some [o.n.toUInt8])
  decodeStakingOpRet _ := false

def stakedBlock (segid : UInt8) : StakedBlock where
  nTime := 0
  vtx := [{ hash := 1, nVersion := 1, vin := [], vout := [] },
    { hash := 2, nVersion := 1, vin := [{ prevout := ⟨3, segid.toNat⟩, scriptSig := [] }],
      vout := [⟨5, [segid]⟩] }]

def plainSegids (ops : List SegidOp) : List UInt8 :=
  (plainStakeRules.komodoSegids 1 100
    (plainStakeRules.run ({ blocks := [stakedBlock 0] }, none) ops).1).1

/-- **Two histories of one chain**: bytes from before a replacement begin with the old segid. -/
theorem segids_of_old_block :
    let replaced := [.connectTip (stakedBlock 5), .segids 1 100, .disconnectTip,
      .connectTip (stakedBlock 7)]
    (plainStakeRules.run ({ blocks := [stakedBlock 0] }, none) replaced).1.blocks =
        [stakedBlock 0, stakedBlock 7] ∧
      plainSegids replaced = 5 :: replicate 99 255 ∧
      plainSegids [.connectTip (stakedBlock 7)] = 7 :: replicate 99 255 :=
  ⟨rfl, by decide +kernel, by decide +kernel⟩

end Elosys
