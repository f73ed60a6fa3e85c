import Elosys.BlockIndex

/-!
# Data That Arrives in Any Order

`ReceivedBlockTransactions` keeps a child whose data comes before its parent's in
`mapBlocksUnlinked`, and releases it when the parent is linked. `Pending` is the invariant of the
queue; with an empty queue it says what counters, multimap and candidates hold (`Accounted`).

## Main results

* `Pending.round` and `Pending.enterData`: linking the front block and entering data keep the
  invariant.
* After all arrivals, in any order, the accounts are those of the tree.
-/

open Forest List Option Function

namespace Elosys

namespace BlockIndex

/-- The sum along the ancestry of a block, the block included. -/
def ancestrySum {M : Type} [Add M] [Zero M] (s : BlockIndex) (f : UInt256 → M)
    (h : UInt256) : M :=
  ((lineage s.pprev (s.nHeight h) h).map f).sum

def receiveAll (blocks : UInt256 → List CTransaction) (s : BlockIndex)
    (arrivals : List UInt256) : BlockIndex :=
  arrivals.foldl (fun s h => s.receivedBlockTransactions h (blocks h)) s

/-! ### The invariant of the queue -/

def ParentLinked (s : BlockIndex) (h : UInt256) : Prop :=
  ∀ p, s.pprev h = some p → (s.entry p).nChainTx ≠ 0

/-- The accounts between rounds, over the tree of `s₀`; `queue` is linked next. -/
structure Pending (blocks : UInt256 → List CTransaction) (s₀ s : BlockIndex)
    (queue : List UInt256) : Prop where
  pprev : s.pprev = s₀.pprev
  nHeight : s.nHeight = s₀.nHeight
  map : s.mapBlockIndex = s₀.mapBlockIndex
  address : (fun x => (s.entry x).address) = fun x => (s₀.entry x).address
  chain : s.chainActive = s₀.chainActive
  valid : ∀ h ∈ s₀.mapBlockIndex, (s.entry h).isValid blockValidTree = true
  data : ∀ h ∈ s₀.mapBlockIndex, (s.entry h).haveData = true →
    blocks h ≠ [] ∧ (s.entry h).nTx = UInt32.ofNat (blocks h).length ∧
      (s.entry h).nSproutValue = some (sproutDelta (blocks h)) ∧
      (s.entry h).nSaplingValue = saplingDelta (blocks h)
  linked : ∀ h ∈ s₀.mapBlockIndex, (s.entry h).nChainTx ≠ 0 →
    (s.entry h).haveData = true ∧ s.ParentLinked h
  sums : ∀ h ∈ s₀.mapBlockIndex, (s.entry h).nChainTx ≠ 0 →
    (s.entry h).nChainTx.toNat = s₀.ancestrySum (fun a => (blocks a).length) h ∧
      (s.entry h).nChainSproutValue =
        some (s₀.ancestrySum (fun a => sproutDelta (blocks a)) h) ∧
      (s.entry h).nChainSaplingValue =
        some (s₀.ancestrySum (fun a => saplingDelta (blocks a)) h)
  ready : ∀ h ∈ s₀.mapBlockIndex, (s.entry h).haveData = true → s.ParentLinked h →
    (s.entry h).nChainTx ≠ 0 ∨ h ∈ queue
  queued : ∀ h ∈ queue, h ∈ s₀.mapBlockIndex ∧ (s.entry h).haveData = true ∧
    s.ParentLinked h ∧ (s.entry h).nChainTx = 0
  queueNodup : queue.Nodup
  unlinked : ∀ p c, (p, c) ∈ s.mapBlocksUnlinked ↔
    c ∈ s₀.mapBlockIndex ∧ (s.entry c).haveData = true ∧ s₀.pprev c = some p ∧
      (s.entry p).nChainTx = 0
  unlinkedNodup : s.mapBlocksUnlinked.Nodup
  candidates : ∀ h ∈ s₀.mapBlockIndex, (s.entry h).nChainTx ≠ 0 → s.reachesTip h = true →
    h ∈ s.setBlockIndexCandidates
  known : ∀ h ∈ s.setBlockIndexCandidates, h ∈ s₀.mapBlockIndex
  tipLinked : ∀ t, s₀.tip = some t → t ∈ s₀.mapBlockIndex ∧ (s.entry t).nChainTx ≠ 0

/-- What counters, multimap and candidates hold. -/
structure Accounted (blocks : UInt256 → List CTransaction) (s : BlockIndex) : Prop where
  chainTx_ne_zero : ∀ h ∈ s.mapBlockIndex, (s.entry h).nChainTx ≠ 0 ↔
    ∀ a, Ancestor s.pprev a h → (s.entry a).haveData = true
  chainTx : ∀ h ∈ s.mapBlockIndex, (s.entry h).nChainTx ≠ 0 →
    (s.entry h).nChainTx.toNat = s.ancestrySum (fun a => (s.entry a).nTx.toNat) h
  chainSproutValue : ∀ h ∈ s.mapBlockIndex, (s.entry h).nChainTx ≠ 0 →
    (s.entry h).nChainSproutValue = some (s.ancestrySum (fun a => sproutDelta (blocks a)) h)
  chainSaplingValue : ∀ h ∈ s.mapBlockIndex, (s.entry h).nChainTx ≠ 0 →
    (s.entry h).nChainSaplingValue = some (s.ancestrySum (fun a => saplingDelta (blocks a)) h)
  unlinked : ∀ p c, (p, c) ∈ s.mapBlocksUnlinked ↔
    c ∈ s.mapBlockIndex ∧ (s.entry c).haveData = true ∧ s.pprev c = some p ∧
      (s.entry p).nChainTx = 0
  unlinkedNodup : s.mapBlocksUnlinked.Nodup
  candidates : ∀ h ∈ s.mapBlockIndex, (s.entry h).nChainTx ≠ 0 → s.reachesTip h = true →
    h ∈ s.setBlockIndexCandidates

variable {h : UInt256}

section Sums

variable {s : BlockIndex} {M : Type} [Add M] [Zero M] (f : UInt256 → M)

theorem ancestrySum_root [Std.LawfulIdentity (α := M) (· + ·) 0]
    (hroot : s.pprev h = none) : s.ancestrySum f h = f h := by
  rw [ancestrySum, Graded.lineage_root _ hroot, map_cons, sum_cons]
  exact Std.LawfulRightIdentity.right_id (f h)

theorem ancestrySum_parent [Std.Commutative (α := M) (· + ·)] (ht : s.Tree) {h p : UInt256}
    (hh : h ∈ s.mapBlockIndex) (hp : s.pprev h = some p) :
    s.ancestrySum f h = s.ancestrySum f p + f h := by
  rw [ancestrySum, ht.graded.lineage_parent hh hp, map_cons, sum_cons]
  exact Std.Commutative.comm (f h) _

end Sums

/-! ### One round -/

section Accounts

variable {blocks : UInt256 → List CTransaction} {s₀ s : BlockIndex} {queue : List UInt256}

theorem Pending.tip_eq (hs : Pending blocks s₀ s queue) : s.tip = s₀.tip := by
  simp only [BlockIndex.tip, hs.chain]

theorem nodup_waiting (hnodup : s.mapBlocksUnlinked.Nodup) (h : UInt256) : (s.waiting h).Nodup := by
  refine Nodup.map_on ?_ (hnodup.filter _)
  rintro ⟨p, c⟩ hp ⟨p', c'⟩ hp' rfl
  have hfst := (mem_filter.mp hp).2
  have hfst' := (mem_filter.mp hp').2
  rw [beq_iff_eq] at hfst hfst'
  exact Prod.ext (hfst.trans hfst'.symm) rfl

variable (ht : s₀.Tree)
  (hfit : ∀ x ∈ s₀.mapBlockIndex, s₀.ancestrySum (fun a => (blocks a).length) x < 2 ^ 32)

include ht hfit

theorem Pending.linkEntry_sums (hs : Pending blocks s₀ s (h :: queue)) (q : UInt32) :
    let e := linkEntry ((s.pprev h).map s.entry) q (s.entry h)
    e.nChainTx.toNat = s₀.ancestrySum (fun a => (blocks a).length) h ∧
      e.nChainSproutValue = some (s₀.ancestrySum (fun a => sproutDelta (blocks a)) h) ∧
      e.nChainSaplingValue = some (s₀.ancestrySum (fun a => saplingDelta (blocks a)) h) := by
  obtain ⟨hh, hdata, hparent, -⟩ := hs.queued h mem_cons_self
  obtain ⟨-, hnTx, hsprout, hsapling⟩ := hs.data h hh hdata
  have hlen := hfit h hh
  rw [hs.pprev]
  cases hp : s₀.pprev h with
  | none =>
    rw [ancestrySum_root _ hp] at hlen
    simp only [map_none, linkEntry, hnTx, hsprout, hsapling, ancestrySum_root _ hp]
    refine ⟨?_, trivial, trivial⟩
    rw [UInt32.zero_add, UInt32.toNat_ofNat_of_lt' hlen]
  | some p =>
    have hpK := (ht.graded.step hh hp).1
    obtain ⟨hpTx, hpSprout, hpSapling⟩ := hs.sums p hpK (hparent p (hs.pprev ▸ hp))
    rw [ancestrySum_parent _ ht hh hp] at hlen
    simp only [map_some, linkEntry, hnTx, hsprout, hsapling, hpSprout, hpSapling,
      ancestrySum_parent _ ht hh hp]
    refine ⟨?_, trivial, trivial⟩
    rw [UInt32.toNat_add, UInt32.toNat_ofNat_of_lt'
      (Nat.lt_of_le_of_lt (Nat.le_add_left _ _) hlen), hpTx, Nat.mod_eq_of_lt hlen]

theorem Pending.linkEntry_ne_zero (hs : Pending blocks s₀ s (h :: queue)) (q : UInt32) :
    (linkEntry ((s.pprev h).map s.entry) q (s.entry h)).nChainTx ≠ 0 := by
  obtain ⟨hh, hdata, -, -⟩ := hs.queued h mem_cons_self
  have hpos := length_pos_iff.mpr (hs.data h hh hdata).1
  have hsum := (hs.linkEntry_sums ht hfit q).1
  intro hzero
  simp only [hzero, UInt32.toNat_zero] at hsum
  cases hp : s₀.pprev h with
  | none =>
    rw [ancestrySum_root _ hp] at hsum
    omega
  | some p =>
    rw [ancestrySum_parent _ ht hh hp] at hsum
    omega

omit ht hfit in
theorem linkBlock_kept {β : Type} (member : CBlockIndexEntry → β)
    (hmember : KeptByLinking member) (s : BlockIndex) (h x : UInt256) :
    member ((s.linkBlock h).entry x) = member (s.entry x) :=
  congrFun (linkBlock_member member hmember s h) x

omit ht hfit in
theorem linkBlock_pprev (s : BlockIndex) (h : UInt256) : (s.linkBlock h).pprev = s.pprev :=
  linkBlock_member (·.pprev) (fun _ _ _ _ _ => rfl) s h

omit ht hfit in
theorem linkBlock_haveData (s : BlockIndex) (h x : UInt256) :
    ((s.linkBlock h).entry x).haveData = (s.entry x).haveData :=
  linkBlock_kept (·.haveData) (fun _ _ _ _ _ => rfl) s h x

theorem Pending.front_linked (hs : Pending blocks s₀ s (h :: queue)) :
    ((s.linkBlock h).entry h).nChainTx ≠ 0 := by
  rw [linkBlock_entry, update_self]
  exact hs.linkEntry_ne_zero ht hfit _

omit ht hfit in
theorem Pending.ne_front (hs : Pending blocks s₀ s (h :: queue)) {x : UInt256}
    (hx : (s.entry x).nChainTx ≠ 0) : x ≠ h := by
  rintro rfl
  exact hx (hs.queued x mem_cons_self).2.2.2

omit ht hfit in
/-- Nothing that was linked changes. -/
theorem Pending.stays_linked (hs : Pending blocks s₀ s (h :: queue)) {x : UInt256}
    (hx : (s.entry x).nChainTx ≠ 0) : ((s.linkBlock h).entry x).nChainTx ≠ 0 := by
  rwa [linkBlock_entry_of_ne (hs.ne_front hx)]

omit ht hfit in
theorem Pending.parent_stays_linked (hs : Pending blocks s₀ s (h :: queue)) {x : UInt256}
    (hx : s.ParentLinked x) : (s.linkBlock h).ParentLinked x := by
  intro p hp
  exact hs.stays_linked (hx p (linkBlock_pprev s h ▸ hp))

omit ht hfit in
/-- The blocks that wait for the front one are its children with data, and are not linked. -/
theorem Pending.of_waiting (hs : Pending blocks s₀ s (h :: queue)) {x : UInt256}
    (hx : x ∈ s.waiting h) :
    x ∈ s₀.mapBlockIndex ∧ (s.entry x).haveData = true ∧ s₀.pprev x = some h ∧
      ¬s.ParentLinked x ∧ (s.entry x).nChainTx = 0 := by
  obtain ⟨hxK, hxdata, hxp, hzero⟩ := (hs.unlinked h x).mp (mem_waiting.mp hx)
  have hchild : ¬s.ParentLinked x := fun hlinked => hlinked h (hs.pprev ▸ hxp) hzero
  refine ⟨hxK, hxdata, hxp, hchild, ?_⟩
  by_contra hlinked
  exact hchild (hs.linked x hxK hlinked).2

theorem Pending.round_ready (hs : Pending blocks s₀ s (h :: queue)) {x : UInt256}
    (hx : x ∈ s₀.mapBlockIndex) (hxdata : ((s.linkBlock h).entry x).haveData = true)
    (hxparent : (s.linkBlock h).ParentLinked x) :
    ((s.linkBlock h).entry x).nChainTx ≠ 0 ∨ x ∈ queue ++ s.waiting h := by
  by_cases hxh : x = h
  · subst hxh
    exact .inl (hs.front_linked ht hfit)
  rw [linkBlock_entry_of_ne hxh] at hxdata ⊢
  by_cases hready : s.ParentLinked x
  · rcases hs.ready x hx hxdata hready with hlinked | hxqueue
    · exact .inl hlinked
    · exact .inr (mem_append_left _ ((mem_cons.mp hxqueue).resolve_left hxh))
  · -- the parent has been linked in this round, so the block was waiting for it
    obtain ⟨p, hp, hpzero⟩ : ∃ p, s.pprev x = some p ∧ (s.entry p).nChainTx = 0 := by
      simpa [ParentLinked] using hready
    have hph : p = h := by
      by_contra hph
      have hplinked := hxparent p (linkBlock_pprev s h ▸ hp)
      rw [linkBlock_entry_of_ne hph] at hplinked
      exact hplinked hpzero
    subst hph
    exact .inr (mem_append_right _
      (mem_waiting.mpr ((hs.unlinked p x).mpr ⟨hx, hxdata, hs.pprev ▸ hp, hpzero⟩)))

theorem Pending.round_queued (hs : Pending blocks s₀ s (h :: queue)) {x : UInt256}
    (hx : x ∈ queue ++ s.waiting h) :
    x ∈ s₀.mapBlockIndex ∧ ((s.linkBlock h).entry x).haveData = true ∧
      (s.linkBlock h).ParentLinked x ∧ ((s.linkBlock h).entry x).nChainTx = 0 := by
  obtain ⟨-, -, hparent, -⟩ := hs.queued h mem_cons_self
  rcases mem_append.mp hx with hx | hx
  · have hxh : x ≠ h := fun heq => (nodup_cons.mp hs.queueNodup).1 (heq ▸ hx)
    obtain ⟨hxK, hxdata, hxparent, hxzero⟩ := hs.queued x (mem_cons_of_mem _ hx)
    rw [linkBlock_entry_of_ne hxh]
    exact ⟨hxK, hxdata, hs.parent_stays_linked hxparent, hxzero⟩
  · obtain ⟨hxK, hxdata, hxp, hchild, hxzero⟩ := hs.of_waiting hx
    have hxh : x ≠ h := by
      rintro rfl
      exact hchild hparent
    rw [linkBlock_entry_of_ne hxh]
    refine ⟨hxK, hxdata, ?_, hxzero⟩
    intro p hp
    rw [linkBlock_pprev, hs.pprev, hxp] at hp
    exact some.inj hp ▸ hs.front_linked ht hfit

theorem Pending.round_unlinked (hs : Pending blocks s₀ s (h :: queue)) (p c : UInt256) :
    (p, c) ∈ (s.linkBlock h).mapBlocksUnlinked ↔
      c ∈ s₀.mapBlockIndex ∧ ((s.linkBlock h).entry c).haveData = true ∧ s₀.pprev c = some p ∧
        ((s.linkBlock h).entry p).nChainTx = 0 := by
  rw [linkBlock_unlinked, mem_filter, hs.unlinked p c, linkBlock_haveData]
  constructor
  · rintro ⟨⟨hc, hcdata, hcp, hpzero⟩, hph⟩
    rw [linkBlock_entry_of_ne (by simpa using hph)]
    exact ⟨hc, hcdata, hcp, hpzero⟩
  · rintro ⟨hc, hcdata, hcp, hpzero⟩
    have hph : p ≠ h := fun heq => hs.front_linked ht hfit (heq ▸ hpzero)
    rw [linkBlock_entry_of_ne hph] at hpzero
    exact ⟨⟨hc, hcdata, hcp, hpzero⟩, by simpa using hph⟩

omit ht hfit in
theorem Pending.round_candidates (hs : Pending blocks s₀ s (h :: queue))
    (htree : (s.linkBlock h).Tree) {x : UInt256} (hx : x ∈ s₀.mapBlockIndex)
    (hlinked : ((s.linkBlock h).entry x).nChainTx ≠ 0)
    (hreach : (s.linkBlock h).reachesTip x = true) :
    x ∈ (s.linkBlock h).setBlockIndexCandidates := by
  have hmap := (linkBlock_mapBlockIndex s h).trans hs.map
  rw [linkBlock_candidates]
  by_cases hxh : x = h
  · subst hxh
    rw [if_pos hreach]
    refine OrderedSet.mem_insert_self htree.strictTotal ?_ fun y hy => ?_
    · rwa [hmap]
    · rw [hmap]
      exact hs.known y hy
  · have hold : x ∈ s.setBlockIndexCandidates := by
      refine hs.candidates x hx ?_ ?_
      · rwa [linkBlock_entry_of_ne hxh] at hlinked
      · rwa [reachesTip_linkBlock hxh fun t htip =>
          hs.ne_front (hs.tipLinked t (hs.tip_eq ▸ htip)).2] at hreach
    split
    · exact OrderedSet.mem_insert_of_mem hold
    · exact hold

/-- **A round keeps the accounts.** The front block is linked, and those that waited for it join
the queue. -/
theorem Pending.round (hs : Pending blocks s₀ s (h :: queue)) :
    Pending blocks s₀ (s.linkBlock h) (queue ++ s.waiting h) := by
  obtain ⟨hh, hdata, hparent, -⟩ := hs.queued h mem_cons_self
  have hpprev := (linkBlock_pprev s h).trans hs.pprev
  have hheight : (s.linkBlock h).nHeight = s₀.nHeight :=
    (linkBlock_member (·.nHeight) (fun _ _ _ _ _ => rfl) s h).trans hs.nHeight
  have haddress := (linkBlock_member (·.address) (fun _ _ _ _ _ => rfl) s h).trans hs.address
  have hmap := (linkBlock_mapBlockIndex s h).trans hs.map
  refine {
    pprev := hpprev, nHeight := hheight, map := hmap, address := haddress,
    chain := (linkBlock_chainActive s h).trans hs.chain,
    unlinkedNodup := hs.unlinkedNodup.filter _,
    tipLinked := fun t ht => ⟨(hs.tipLinked t ht).1, hs.stays_linked (hs.tipLinked t ht).2⟩,
    ready := fun x => hs.round_ready ht hfit,
    queued := fun x => hs.round_queued ht hfit,
    unlinked := hs.round_unlinked ht hfit,
    candidates := fun x => hs.round_candidates (ht.congr hmap hpprev hheight haddress),
    valid := ?valid, data := ?data, linked := ?linked, sums := ?sums, queueNodup := ?queueNodup,
    known := ?known }
  case valid =>
    intro x hx
    exact (linkBlock_kept (·.isValid blockValidTree) (fun _ _ _ _ _ => rfl) s h x).trans
      (hs.valid x hx)
  case data =>
    intro x hx hxdata
    rw [linkBlock_haveData] at hxdata
    obtain ⟨hvtx, hnTx, hsprout, hsapling⟩ := hs.data x hx hxdata
    exact ⟨hvtx, (linkBlock_kept (·.nTx) (fun _ _ _ _ _ => rfl) s h x).trans hnTx,
      (linkBlock_kept (·.nSproutValue) (fun _ _ _ _ _ => rfl) s h x).trans hsprout,
      (linkBlock_kept (·.nSaplingValue) (fun _ _ _ _ _ => rfl) s h x).trans hsapling⟩
  case linked =>
    intro x hx hlinked
    rw [linkBlock_haveData]
    by_cases hxh : x = h
    · subst hxh
      exact ⟨hdata, hs.parent_stays_linked hparent⟩
    · rw [linkBlock_entry_of_ne hxh] at hlinked
      obtain ⟨hxdata, hxparent⟩ := hs.linked x hx hlinked
      exact ⟨hxdata, hs.parent_stays_linked hxparent⟩
  case sums =>
    intro x hx hlinked
    by_cases hxh : x = h
    · subst hxh
      rw [linkBlock_entry, update_self]
      exact hs.linkEntry_sums ht hfit _
    · rw [linkBlock_entry_of_ne hxh] at hlinked ⊢
      exact hs.sums x hx hlinked
  case queueNodup =>
    refine Nodup.append (nodup_cons.mp hs.queueNodup).2 (nodup_waiting hs.unlinkedNodup h) ?_
    intro x hx hxwaiting
    exact (hs.of_waiting hxwaiting).2.2.2.1 (hs.queued x (mem_cons_of_mem _ hx)).2.2.1
  case known =>
    intro x hx
    rw [linkBlock_candidates] at hx
    split at hx
    · rcases OrderedSet.eq_or_mem_of_mem_insert hx with rfl | hx
      · exact hh
      · exact hs.known x hx
    · exact hs.known x hx

/-! ### Entering data -/

omit ht hfit in
theorem modify_receive_frames (s : BlockIndex) (h : UInt256) (vtx : List CTransaction) :
    (s.modify h (receive vtx)).pprev = s.pprev ∧ (s.modify h (receive vtx)).nHeight = s.nHeight ∧
      ((fun x => ((s.modify h (receive vtx)).entry x).address) = fun x => (s.entry x).address) ∧
      (s.modify h (receive vtx)).key = s.key :=
  ⟨modify_member (·.pprev) (receive_member _ _ _ fun _ => rfl),
    modify_member (·.nHeight) (receive_member _ _ _ fun _ => rfl),
    modify_member (·.address) (receive_member _ _ _ fun _ => rfl),
    modify_member (·.key) (receive_member _ _ _ fun _ => rfl)⟩

omit ht hfit in
theorem isValid_receive {e : CBlockIndexEntry} (vtx : List CTransaction)
    (he : e.isValid blockValidTree = true) :
    (BlockIndex.receive vtx e).isValid blockValidTree = true := by
  have hfailed : (BlockIndex.receive vtx e).failed = e.failed :=
    receive_member (·.failed) _ _ fun _ => rfl
  have hlevel : e.validity ≤ (BlockIndex.receive vtx e).validity := by
    unfold BlockIndex.receive CBlockIndexEntry.raiseValidity
    split
    · exact Nat.le_refl _
    · split
      · next hlt => exact Nat.le_of_lt hlt
      · exact Nat.le_refl _
  simp only [CBlockIndexEntry.isValid, Bool.and_eq_true, Bool.not_eq_true',
    decide_eq_true_eq] at he ⊢
  rw [hfailed]
  exact ⟨he.1, he.2.trans hlevel⟩

section

variable {vtx : List CTransaction}

omit ht hfit in
theorem modify_receive_haveData {x : UInt256} :
    ((s.modify h (BlockIndex.receive vtx)).entry x).haveData = true ↔
      x = h ∨ (s.entry x).haveData = true := by
  rw [modify_entry]
  by_cases hx : x = h
  · simp [hx, receive_haveData]
  · simp [hx]

omit ht hfit in
theorem modify_receive_nChainTx (vtx : List CTransaction) (hzero : (s.entry h).nChainTx = 0)
    (x : UInt256) :
    ((s.modify h (BlockIndex.receive vtx)).entry x).nChainTx = (s.entry x).nChainTx := by
  rw [modify_entry]
  by_cases hx : x = h
  · rw [hx, update_self, receive_nChainTx, hzero]
  · rw [update_of_ne hx]

omit ht hfit in
theorem modify_receive_parentLinked (hzero : (s.entry h).nChainTx = 0) {x : UInt256} :
    (s.modify h (BlockIndex.receive vtx)).ParentLinked x ↔ s.ParentLinked x := by
  simp only [ParentLinked, (modify_receive_frames s h vtx).1, modify_receive_nChainTx vtx hzero]

end

omit ht hfit in
theorem Pending.not_linked (hs : Pending blocks s₀ s queue) (hh : h ∈ s₀.mapBlockIndex)
    (hnew : (s.entry h).haveData = false) : (s.entry h).nChainTx = 0 := by
  by_contra hlinked
  rw [(hs.linked h hh hlinked).1] at hnew
  cases hnew

omit ht hfit in
/-- **Entering data keeps the accounts**: the block is queued if its parent is linked, and waits for
it otherwise. -/
theorem Pending.enterData (hs : Pending blocks s₀ s []) (hh : h ∈ s₀.mapBlockIndex)
    (hnew : (s.entry h).haveData = false) (hvtx : blocks h ≠ []) {queue : List UInt256}
    {unlinked : List (UInt256 × UInt256)} (hqueueNodup : queue.Nodup)
    (hqueue : ∀ x, x ∈ queue ↔ x = h ∧ s.ParentLinked h) (hunlinkedNodup : unlinked.Nodup)
    (hunlinked : ∀ p c, (p, c) ∈ unlinked ↔ (p, c) ∈ s.mapBlocksUnlinked ∨
      c = h ∧ s₀.pprev h = some p ∧ (s.entry p).nChainTx = 0) :
    Pending blocks s₀
      { s.modify h (BlockIndex.receive (blocks h)) with mapBlocksUnlinked := unlinked } queue := by
  obtain ⟨hpprev, hheight, haddress, hkey⟩ := modify_receive_frames s h (blocks h)
  have hzero := hs.not_linked hh hnew
  have hTx := modify_receive_nChainTx (blocks h) hzero
  have hother : ∀ {x}, x ≠ h →
      (s.modify h (BlockIndex.receive (blocks h))).entry x = s.entry x := by
    intro x hx
    rw [modify_entry, update_of_ne hx]
  refine { hs with
    pprev := hpprev.trans hs.pprev, nHeight := hheight.trans hs.nHeight,
    address := haddress.trans hs.address,
    queueNodup := hqueueNodup, unlinkedNodup := hunlinkedNodup,
    valid := ?valid, data := ?data, linked := ?linked, sums := ?sums, ready := ?ready,
    queued := ?queued, unlinked := ?unlinked, candidates := ?candidates, tipLinked := ?tipLinked }
  case valid =>
    intro x hx
    by_cases hxh : x = h
    · subst hxh
      rw [modify_entry, update_self]
      exact isValid_receive _ (hs.valid x hx)
    · rw [hother hxh]
      exact hs.valid x hx
  case data =>
    intro x hx hxdata
    by_cases hxh : x = h
    · subst hxh
      rw [modify_entry, update_self]
      exact ⟨hvtx, receive_nTx _ _, receive_nSproutValue _ _, receive_nSaplingValue _ _⟩
    · rw [hother hxh] at hxdata ⊢
      exact hs.data x hx hxdata
  case linked =>
    intro x hx hlinked
    rw [hTx] at hlinked
    obtain ⟨hxdata, hxparent⟩ := hs.linked x hx hlinked
    exact ⟨modify_receive_haveData.mpr (.inr hxdata),
      (modify_receive_parentLinked hzero).mpr hxparent⟩
  case sums =>
    intro x hx hlinked
    rw [hTx] at hlinked
    have hxh : x ≠ h := fun heq => hlinked (heq ▸ hzero)
    rw [hother hxh]
    exact hs.sums x hx hlinked
  case ready =>
    intro x hx hxdata hxparent
    have hold := (modify_receive_parentLinked hzero).mp hxparent
    rw [hTx]
    rcases modify_receive_haveData.mp hxdata with rfl | hxdata
    · exact .inr ((hqueue x).mpr ⟨rfl, hold⟩)
    · exact .inl ((hs.ready x hx hxdata hold).resolve_right not_mem_nil)
  case queued =>
    intro x hx
    obtain ⟨rfl, hxparent⟩ := (hqueue x).mp hx
    exact ⟨hh, modify_receive_haveData.mpr (.inl rfl),
      (modify_receive_parentLinked hzero).mpr hxparent, by rw [hTx, hzero]⟩
  case unlinked =>
    intro p c
    rw [hunlinked p c, hs.unlinked p c, hTx, modify_receive_haveData]
    constructor
    · rintro (⟨hc, hcdata, hcp, hpzero⟩ | ⟨rfl, hcp, hpzero⟩)
      · exact ⟨hc, .inr hcdata, hcp, hpzero⟩
      · exact ⟨hh, .inl rfl, hcp, hpzero⟩
    · rintro ⟨hc, rfl | hcdata, hcp, hpzero⟩
      · exact .inr ⟨rfl, hcp, hpzero⟩
      · exact .inl ⟨hc, hcdata, hcp, hpzero⟩
  case candidates =>
    intro x hx hlinked hreach
    rw [hTx] at hlinked
    have hsame : (s.modify h (BlockIndex.receive (blocks h))).reachesTip = s.reachesTip :=
      reachesTip_congr hkey rfl
    exact hs.candidates x hx hlinked ((congrFun hsame x).symm.trans hreach)
  case tipLinked =>
    intro t ht
    rw [hTx]
    exact hs.tipLinked t ht

theorem Pending.receive (hs : Pending blocks s₀ s []) (hh : h ∈ s₀.mapBlockIndex)
    (hnew : (s.entry h).haveData = false) (hvtx : blocks h ≠ []) :
    Pending blocks s₀ (s.receivedBlockTransactions h (blocks h)) [] := by
  have hpprev := (modify_receive_frames s h (blocks h)).1
  have hloop : s.ParentLinked h →
      Pending blocks s₀ (linkLoop
        ((s.modify h (BlockIndex.receive (blocks h))).mapBlocksUnlinked.length + 1) [h]
        (s.modify h (BlockIndex.receive (blocks h)))) [] := by
    intro hparent
    refine linkLoop_rule (P := fun queue s => Pending blocks s₀ s queue)
      (fun b queue s hs => hs.round ht hfit) (by simp [Nat.add_comm]) ?_
    refine hs.enterData hh hnew hvtx (nodup_singleton h) ?_ hs.unlinkedNodup ?_
    · intro x
      simp [hparent]
    · intro p c
      refine ⟨.inl, ?_⟩
      rintro (hold | ⟨rfl, hp, hzero⟩)
      · exact hold
      · exact absurd hzero (hparent p (hs.pprev ▸ hp))
  unfold receivedBlockTransactions
  dsimp only
  cases hp : (s.modify h (BlockIndex.receive (blocks h))).pprev h with
  | none =>
    rw [hpprev] at hp
    refine hloop fun p hp' => ?_
    rw [hp] at hp'
    cases hp'
  | some p =>
    rw [hpprev] at hp
    obtain ⟨hpK, hdepth⟩ := ht.graded.step hh (hs.pprev ▸ hp)
    have hph : p ≠ h := by
      rintro rfl
      omega
    simp only [modify_entry, update_of_ne hph]
    split
    · next hlinked =>
        refine hloop fun p' hp' => ?_
        rw [hp] at hp'
        exact some.inj hp' ▸ hlinked
    · next hzero =>
        rw [not_not] at hzero
        rw [if_pos (hs.valid p hpK)]
        have hwaits : ¬ s.ParentLinked h := fun hparent => hparent p hp hzero
        have hfresh : (p, h) ∉ s.mapBlocksUnlinked := by
          intro hmem
          rw [((hs.unlinked p h).mp hmem).2.1] at hnew
          cases hnew
        refine hs.enterData hh hnew hvtx nodup_nil ?_ ?_ ?_
        · intro x
          simp [hwaits]
        · exact Nodup.append hs.unlinkedNodup (nodup_singleton _) (disjoint_singleton.mpr hfresh)
        · intro p' c
          rw [hs.pprev] at hp
          simp only [modify_unlinked, mem_append, mem_singleton, Prod.mk.injEq, hp, some.injEq]
          constructor
          · rintro (hold | ⟨rfl, rfl⟩)
            · exact .inl hold
            · exact .inr ⟨rfl, rfl, hzero⟩
          · rintro (hold | ⟨rfl, rfl, -⟩)
            · exact .inl hold
            · exact .inr ⟨rfl, rfl⟩

/-! ### Any sequence of arrivals -/

omit hfit in
theorem Pending.ancestors_linked (hs : Pending blocks s₀ s [])
    (hh : h ∈ s₀.mapBlockIndex) (hlinked : (s.entry h).nChainTx ≠ 0) {a : UInt256}
    (ha : Ancestor s₀.pprev a h) : (s.entry a).nChainTx ≠ 0 := by
  induction ha with
  | refl => exact hlinked
  | tail hrest hstep ih =>
    have hK := ht.graded.ancestor_mem hh hrest
    exact (hs.linked _ hK ih).2 _ (hs.pprev ▸ hstep)

theorem Pending.sum_nTx (hs : Pending blocks s₀ s []) (hh : h ∈ s₀.mapBlockIndex)
    (hlinked : (s.entry h).nChainTx ≠ 0) :
    s₀.ancestrySum (fun a => (s.entry a).nTx.toNat) h =
      s₀.ancestrySum (fun a => (blocks a).length) h := by
  refine ht.graded.induction (P := fun h => (s.entry h).nChainTx ≠ 0 →
    s₀.ancestrySum (fun a => (s.entry a).nTx.toNat) h =
      s₀.ancestrySum (fun a => (blocks a).length) h) (fun h hh ih hlinked => ?_) hh hlinked
  obtain ⟨hdata, hparent⟩ := hs.linked h hh hlinked
  have hlen := hfit h hh
  have hnTx : (blocks h).length < 2 ^ 32 → (s.entry h).nTx.toNat = (blocks h).length := by
    intro hlt
    rw [(hs.data h hh hdata).2.1, UInt32.toNat_ofNat_of_lt' hlt]
  cases hp : s₀.pprev h with
  | none =>
    rw [ancestrySum_root _ hp] at hlen
    rw [ancestrySum_root _ hp, ancestrySum_root _ hp, hnTx hlen]
  | some p =>
    rw [ancestrySum_parent _ ht hh hp] at hlen
    rw [ancestrySum_parent _ ht hh hp, ancestrySum_parent _ ht hh hp,
      ih p hp (hparent p (hs.pprev ▸ hp)), hnTx (Nat.lt_of_le_of_lt (Nat.le_add_left _ _) hlen)]

theorem Pending.accounted (hs : Pending blocks s₀ s []) : Accounted blocks s := by
  have hsum : ∀ {M : Type} [Add M] [Zero M] (f : UInt256 → M) (h : UInt256),
      s.ancestrySum f h = s₀.ancestrySum f h := by
    intro M _ _ f h
    simp only [ancestrySum, hs.pprev, hs.nHeight]
  constructor
  case chainTx_ne_zero =>
    rw [hs.map, hs.pprev]
    intro h hh
    constructor
    · intro hlinked a ha
      exact (hs.linked a (ht.graded.ancestor_mem hh ha) (hs.ancestors_linked ht hh hlinked ha)).1
    · refine ht.graded.induction (P := fun h =>
        (∀ a, Ancestor s₀.pprev a h → (s.entry a).haveData = true) → (s.entry h).nChainTx ≠ 0)
        (fun h hh ih hdata => ?_) hh
      refine (hs.ready h hh (hdata h (.refl h)) fun p hp => ?_).resolve_right not_mem_nil
      have hp₀ : s₀.pprev h = some p := hs.pprev ▸ hp
      exact ih p hp₀ fun a ha => hdata a (ha.trans (.of_parent hp₀))
  case chainTx =>
    intro h hh hlinked
    rw [hs.map] at hh
    rw [hsum, hs.sum_nTx ht hfit hh hlinked]
    exact (hs.sums h hh hlinked).1
  case chainSproutValue =>
    intro h hh hlinked
    rw [hsum]
    exact (hs.sums h (hs.map ▸ hh) hlinked).2.1
  case chainSaplingValue =>
    intro h hh hlinked
    rw [hsum]
    exact (hs.sums h (hs.map ▸ hh) hlinked).2.2
  case unlinked =>
    rw [hs.map, hs.pprev]
    exact hs.unlinked
  case unlinkedNodup => exact hs.unlinkedNodup
  case candidates =>
    rw [hs.map]
    exact hs.candidates

omit ht hfit in
theorem receivedBlockTransactions_haveData {h x : UInt256} (hx : x ≠ h) (vtx : List CTransaction) :
    ((s.receivedBlockTransactions h vtx).entry x).haveData = (s.entry x).haveData := by
  have hloop : ∀ fuel, ((linkLoop fuel [h] (s.modify h (receive vtx))).entry x).haveData =
      (s.entry x).haveData := by
    intro fuel
    refine (congrFun (linkLoop_member (·.haveData) (fun _ _ _ _ _ => rfl) fuel [h] _) x).trans ?_
    simp only [modify_entry, update_of_ne hx]
  unfold receivedBlockTransactions
  dsimp only
  split
  · exact hloop _
  · split
    · exact hloop _
    · split <;> simp only [modify_entry, update_of_ne hx]

theorem Pending.receiveAll {arrivals : List UInt256} (hnodup : arrivals.Nodup)
    (hknown : ∀ h ∈ arrivals, h ∈ s₀.mapBlockIndex) (hvtx : ∀ h ∈ arrivals, blocks h ≠ [])
    (hs : Pending blocks s₀ s []) (hnew : ∀ h ∈ arrivals, (s.entry h).haveData = false) :
    Pending blocks s₀ (s.receiveAll blocks arrivals) [] := by
  induction arrivals generalizing s with
  | nil => exact hs
  | cons h arrivals ih =>
    obtain ⟨hfresh, hrest⟩ := nodup_cons.mp hnodup
    rw [forall_mem_cons] at hknown hvtx hnew
    refine ih hrest hknown.2 hvtx.2 (hs.receive ht hfit hknown.1 hnew.1 hvtx.1) fun x hx => ?_
    have hxh : x ≠ h := fun heq => hfresh (heq ▸ hx)
    rw [receivedBlockTransactions_haveData hxh]
    exact hnew.2 x hx

end Accounts

/-- A tree whose accounts are in order. -/
structure Settled (blocks : UInt256 → List CTransaction) (s : BlockIndex) : Prop where
  tree : s.Tree
  pending : Pending blocks s s []

theorem settled_of_headers {s : BlockIndex} (blocks : UInt256 → List CTransaction)
    (htree : s.Tree) (hvalid : ∀ h ∈ s.mapBlockIndex, (s.entry h).isValid blockValidTree = true)
    (hdata : ∀ h ∈ s.mapBlockIndex, (s.entry h).haveData = false ∧ (s.entry h).nChainTx = 0)
    (hchain : s.chainActive = []) (hcandidates : s.setBlockIndexCandidates = [])
    (hunlinked : s.mapBlocksUnlinked = []) : s.Settled blocks := by
  have hnone : ∀ h ∈ s.mapBlockIndex, (s.entry h).haveData ≠ true := by
    intro h hh
    rw [(hdata h hh).1]
    exact Bool.false_ne_true
  refine ⟨htree, {
    pprev := rfl, nHeight := rfl, map := rfl, address := rfl, chain := rfl, valid := hvalid,
    data := fun h hh hhave => absurd hhave (hnone h hh),
    linked := fun h hh hlinked => absurd (hdata h hh).2 hlinked,
    sums := fun h hh hlinked => absurd (hdata h hh).2 hlinked,
    ready := fun h hh hhave => absurd hhave (hnone h hh),
    queued := fun h hh => absurd hh not_mem_nil, queueNodup := nodup_nil,
    unlinked := ?unlinked, unlinkedNodup := by rw [hunlinked]; exact nodup_nil,
    candidates := fun h hh hlinked => absurd (hdata h hh).2 hlinked,
    known := by simp [hcandidates], tipLinked := by simp [BlockIndex.tip, hchain] }⟩
  intro p c
  simp only [hunlinked, not_mem_nil, false_iff, not_and]
  exact fun hc hhave => absurd hhave (hnone c hc)

/-- **The order of arrivals does not matter**: counters, sums, multimap and candidates are those of
the tree, whenever data arrives, each block once, with fewer than 2 ^ 32 transactions on a branch.
-/
theorem arrivals_accounted (blocks : UInt256 → List CTransaction) (s : BlockIndex)
    (hs : s.Settled blocks) (arrivals : List UInt256) (hnodup : arrivals.Nodup)
    (harrivals : ∀ h ∈ arrivals, h ∈ s.mapBlockIndex ∧ (s.entry h).haveData = false ∧ blocks h ≠ [])
    (hfit : ∀ h ∈ s.mapBlockIndex, s.ancestrySum (fun a => (blocks a).length) h < 2 ^ 32) :
    Accounted blocks (s.receiveAll blocks arrivals) := by
  have hpending := Pending.receiveAll hs.tree hfit hnodup (fun h hh => (harrivals h hh).1)
    (fun h hh => (harrivals h hh).2.2) hs.pending fun h hh => (harrivals h hh).2.1
  exact hpending.accounted hs.tree hfit

/-! ### Examples -/

def oneTx : List CTransaction := [{ hash := 70, nVersion := 1, vin := [], vout := [] }]

def noHeaders : BlockIndex where
  entry _ := { address := 0 }

def headerRow : BlockIndex :=
  ((noHeaders.addToBlockIndex ⟨1, 0, 1, 10⟩).addToBlockIndex ⟨2, 1, 1, 11⟩).addToBlockIndex
    ⟨3, 2, 1, 12⟩

theorem arrivals_accounted_backwards :
    [3, 2, 1].Nodup ∧ Accounted (fun _ => oneTx) (headerRow.receiveAll (fun _ => oneTx) [3, 2, 1]) ∧
      ((headerRow.receiveAll (fun _ => oneTx) [3, 2, 1]).entry 3).nChainTx = 3 := by
  have hmap : ∀ h, h ∈ headerRow.mapBlockIndex ↔ h = 1 ∨ h = 2 ∨ h = 3 := by
    simp [headerRow, noHeaders, addToBlockIndex]
  have htree : headerRow.Tree := by
    refine ⟨⟨fun {h p} hh hp => ?_⟩, fun a ha b hb hab => ?_⟩
    · rcases (hmap h).mp hh with rfl | rfl | rfl
      · have hroot : headerRow.pprev 1 = none := by decide
        cases hp
      · obtain rfl : (1 : UInt256) = p := some.inj hp
        exact ⟨by decide, by decide⟩
      · obtain rfl : (2 : UInt256) = p := some.inj hp
        exact ⟨by decide, by decide⟩
    · rcases (hmap a).mp ha with rfl | rfl | rfl <;> rcases (hmap b).mp hb with rfl | rfl | rfl <;>
        first | rfl | exact absurd hab (by decide)
  refine ⟨by decide, arrivals_accounted _ headerRow ?_ [3, 2, 1] (by decide) ?_ ?_, by decide⟩
  · refine settled_of_headers _ htree ?_ ?_ rfl rfl rfl
    all_goals
      intro h hh
      rcases (hmap h).mp hh with rfl | rfl | rfl <;> decide
  · intro h hh
    have hcases : h = 3 ∨ h = 2 ∨ h = 1 := by simpa using hh
    rcases hcases with rfl | rfl | rfl <;> decide
  · intro h hh
    rcases (hmap h).mp hh with rfl | rfl | rfl <;> decide

def equalWork : BlockIndex :=
  let s := (noHeaders.addToBlockIndex ⟨1, 0, 1, 10⟩).receivedBlockTransactions 1 oneTx
  let s := (s.addToBlockIndex ⟨2, 1, 1, 11⟩).receivedBlockTransactions 2 oneTx
  { s.addToBlockIndex ⟨3, 1, 1, 12⟩ with chainActive := [2, 1] }

def failedParent : BlockIndex :=
  headerRow.modify 2 fun e => { e with failedValid := true }

theorem nChainTx_root {s : BlockIndex} (hroot : s.pprev h = none)
    (hunlinked : s.mapBlocksUnlinked = []) (vtx : List CTransaction) :
    ((s.receivedBlockTransactions h vtx).entry h).nChainTx = UInt32.ofNat vtx.length := by
  have hroot' : (s.modify h (receive vtx)).pprev h = none := by
    rw [(modify_receive_frames s h vtx).1, hroot]
  have hwaiting : (s.modify h (receive vtx)).waiting h = [] := by
    simp [waiting, hunlinked]
  simp [receivedBlockTransactions, hroot', modify_unlinked, hunlinked, linkLoop, hwaiting,
    linkBlock_entry, linkEntry, modify_entry, receive_nTx]

def hugeBlock : List CTransaction :=
  replicate (2 ^ 32) { hash := 70, nVersion := 1, vin := [], vout := [] }

/-- A later block with the tip's work is no candidate, none waits for a failed parent, and the
counter wraps. -/
theorem later_equal_work_not_candidate : (let s := equalWork.receivedBlockTransactions 3 oneTx;
      s.tip = some 2 ∧ (s.entry 3).nChainTx ≠ 0 ∧
        (s.entry 2).nChainWork ≤ (s.entry 3).nChainWork ∧ 3 ∉ s.setBlockIndexCandidates) ∧
    (let s := failedParent.receivedBlockTransactions 3 oneTx;
      (s.entry 3).haveData = true ∧ s.pprev 3 = some 2 ∧ (s.entry 2).nChainTx = 0 ∧
        (2, 3) ∉ s.mapBlocksUnlinked) ∧
    headerRow.pprev 1 = none ∧
      ((headerRow.receivedBlockTransactions 1 hugeBlock).entry 1).nChainTx = 0 := by
  refine ⟨by decide, by decide, by decide, ?_⟩
  rw [nChainTx_root (by decide) rfl, hugeBlock, length_replicate]
  rfl

end BlockIndex

end Elosys
