import Elosys.ChainState

/-!
# Every Nullifier Is Revealed at Most Once

What blocks do to the nullifier sets, and for every run of the chain state: the active chain never
reveals a nullifier twice, and the view of the tip knows exactly those revealed.
-/

open LayerStack Program List

namespace Elosys

open CacheView View ViewProg

section

variable [NoteTrees]

variable {m m' : NullifierSet → UInt256 → Bool}

theorem anyNullifierSet_false (set : NullifierSet) {nfs : List UInt256}
    (h : (anyNullifierSet set.shieldedType nfs).Outcome nullifierSpec m (.ok false, m')) :
    ∀ nf ∈ nfs, m set nf = false := by
  induction nfs with
  | nil => simp
  | cons nf nfs ih =>
    simp only [anyNullifierSet, outcome_bind_ok] at h
    obtain ⟨found, m₁, hread, h⟩ := h
    have hfound : found = m set nf ∧ m₁ = m := by
      rw [ViewProg.getNullifier, call, outcome_op] at hread
      cases set with
      | sprout => exact ⟨Except.ok.inj (congrArg Prod.fst hread), congrArg Prod.snd hread⟩
      | sapling => exact ⟨Except.ok.inj (congrArg Prod.fst hread), congrArg Prod.snd hread⟩
    obtain ⟨rfl, rfl⟩ := hfound
    split at h
    · exact absurd h (by simp)
    · next hset => exact forall_mem_cons.mpr ⟨by simpa using hset, ih h⟩

theorem joinSplitsMet_nullifiers {jss : List JSDescription} :
    ∀ {intermediates}, (joinSplitsMet intermediates jss).Outcome nullifierSpec m
      (.ok true, m') → ∀ nf ∈ jss.flatMap JSDescription.nullifierList, m .sprout nf = false := by
  induction jss with
  | nil => simp
  | cons js jss ih =>
    intro intermediates h
    simp only [joinSplitsMet, outcome_bind_ok] at h
    obtain ⟨found, m₁, hfound, h⟩ := h
    split at h
    · exact absurd h (by simp)
    · next hset =>
        have hset : found = false := by simpa using hset
        subst hset
        obtain rfl := nullifiers_part.of_plain (uses_anyNullifierSet _ _) hfound
        obtain ⟨tree, m₂, htree, h⟩ := outcome_bind_ok.mp h
        obtain rfl := nullifiers_part.of_plain (uses_sproutTreeAt _ _) htree
        cases tree with
        | none => exact absurd h (by simp)
        | some tree =>
          simp only [outcome_bind_ok, outcome_lift_ok] at h
          obtain ⟨tree', _, ⟨-, rfl⟩, hrest⟩ := h
          intro nf hnf
          rw [flatMap_cons, mem_append] at hnf
          rcases hnf with hnf | hnf
          · exact anyNullifierSet_false .sprout hfound nf hnf
          · exact ih hrest nf hnf

variable {tx : CTransaction}

theorem haveJoinSplitRequirements_nullifiers
    (h : (haveJoinSplitRequirements tx).Outcome nullifierSpec m (.ok true, m')) :
    ∀ set, ∀ nf ∈ nullifiersOf tx set, m set nf = false := by
  simp only [haveJoinSplitRequirements, outcome_bind_ok] at h
  obtain ⟨met, m₁, hmet, h⟩ := h
  obtain rfl := nullifiers_part.of_plain (uses_joinSplitsMet _ _) hmet
  split at h
  · next hyes =>
      subst hyes
      simp only [outcome_bind_ok, outcome_pure_ok] at h
      obtain ⟨double, m₂, hdouble, anchored, m₃, -, hres, -⟩ := h
      have hno : double = false := by
        cases double with
        | false => rfl
        | true => exact absurd hres (by simp)
      subst hno
      intro set
      cases set with
      | sprout => exact joinSplitsMet_nullifiers hmet
      | sapling => exact anyNullifierSet_false .sapling hdouble
  · exact absurd h (by simp)

/-! ### The effect of a transaction -/

/-- The sets after some nullifiers were set or cleared. -/
def setRevealed (txs : List CTransaction) (spent : Bool)
    (m : NullifierSet → UInt256 → Bool) : NullifierSet → UInt256 → Bool :=
  fun set => setAll (txs.flatMap fun tx => nullifiersOf tx set) spent (m set)

omit [NoteTrees] in
theorem setRevealed_append (txs txs' : List CTransaction) (spent : Bool)
    (m : NullifierSet → UInt256 → Bool) :
    setRevealed (txs ++ txs') spent m = setRevealed txs' spent (setRevealed txs spent m) := by
  funext set nf
  simp only [setRevealed, setAll, flatMap_append, mem_append]
  by_cases h : nf ∈ txs'.flatMap fun tx => nullifiersOf tx set
  · simp [h]
  · simp [h]

omit [NoteTrees] in
theorem setRevealed_nil (spent : Bool) (m : NullifierSet → UInt256 → Bool) :
    setRevealed [] spent m = m := by
  funext set nf
  simp [setRevealed, setAll]

theorem setNullifiers_outcome {spent : Bool} {u : Unit}
    (h : (ViewProg.setNullifiers tx spent).Outcome nullifierSpec m (.ok u, m')) :
    m' = setRevealed [tx] spent m := by
  rw [ViewProg.setNullifiers, call, outcome_op] at h
  rw [show m' = fun s => setAll (nullifiersOf tx s) spent (m s) from congrArg Prod.snd h]
  funext set
  simp [setRevealed]

variable {nHeight : Nat}

theorem updateCoins_nullifiers {undo : CTxUndo}
    (h : (updateCoins tx nHeight).Outcome nullifierSpec m (.ok undo, m')) :
    m' = setRevealed [tx] true m := by
  obtain ⟨m₁, m₂, m₃, coins, m₄, hspend, hnf, hzk, hcoins, hmark⟩ := updateCoins_ok h
  obtain rfl := nullifiers_part.of_on (by decide) (uses_spendInputs tx) hspend
  obtain rfl := setNullifiers_outcome hnf
  obtain rfl : m₃ = _ := nullifiers_part.of_call hzk (by simp [ViewOp.part])
  obtain rfl : m₄ = _ :=
    nullifiers_part.of_call hcoins (by simp [ViewOp.part])
  exact nullifiers_part.of_on (by decide) (uses_markImport tx nHeight) hmark

theorem disconnectTx_nullifiers {txundo : Option CTxUndo} {clean : Bool}
    (h : (disconnectTx nHeight tx txundo).Outcome nullifierSpec m (.ok clean, m')) :
    m' = setRevealed [tx] false m := by
  obtain ⟨outs, m₁, m₂, m₃, inputsClean, houts, hnf, hzk, hinputs, -⟩ := disconnectTx_ok h
  obtain rfl : m₁ = _ :=
    nullifiers_part.of_call houts (by simp [ViewOp.part])
  obtain rfl := setNullifiers_outcome hnf
  obtain rfl : m₃ = _ := nullifiers_part.of_call hzk (by simp [ViewOp.part])
  exact nullifiers_part.of_on (by decide) (uses_disconnectInputs tx txundo) hinputs

/-! ### The effect of a block -/

/-- The transactions reveal each nullifier once, none set. -/
def RevealFresh (m : NullifierSet → UInt256 → Bool) (txs : List CTransaction) : Prop :=
  ∀ set, (txs.flatMap fun tx => nullifiersOf tx set).Nodup ∧
    ∀ nf ∈ txs.flatMap fun tx => nullifiersOf tx set, m set nf = false

omit [NoteTrees] in
theorem RevealFresh.cons {m : NullifierSet → UInt256 → Bool}
    {txs : List CTransaction} (hnodup : ∀ set, (nullifiersOf tx set).Nodup)
    (hunset : ∀ set, ∀ nf ∈ nullifiersOf tx set, m set nf = false)
    (h : RevealFresh (setRevealed [tx] true m) txs) : RevealFresh m (tx :: txs) := by
  intro set
  obtain ⟨hn, hu⟩ := h set
  -- what the later transactions reveal was not set after this one
  have hnew : ∀ nf ∈ txs.flatMap fun tx => nullifiersOf tx set,
      nf ∉ nullifiersOf tx set ∧ m set nf = false := by
    intro nf hnf
    have := hu nf hnf
    simp only [setRevealed, setAll, flatMap_cons, flatMap_nil, append_nil] at this
    split at this
    · exact absurd this (by simp)
    · next hnot => exact ⟨hnot, this⟩
  refine ⟨nodup_append'.mpr ⟨hnodup set, hn, ?_⟩, fun nf hnf => ?_⟩
  · intro nf hnf hnf'
    exact (hnew nf hnf').1 hnf
  · rcases mem_append.mp hnf with hnf | hnf
    · exact hunset set nf hnf
    · exact (hnew nf hnf).2

variable {c : ConsensusParams}

omit [NoteTrees] in
theorem Checked.nullifiers_nodup
    (h : Checked c tx) (set : NullifierSet) : (nullifiersOf tx set).Nodup := by
  obtain ⟨params, chainTip, tiptime, total, joinsplits, -, -, hfree⟩ := h
  cases set with
  | sprout => exact hfree.sproutDistinct
  | sapling => exact hfree.saplingDistinct

omit [NoteTrees] in
theorem Checked.nullifiers_of_mint
    (h : Checked c tx) (hmint : tx.isMint = true) (set : NullifierSet) :
    nullifiersOf tx set = [] := by
  obtain ⟨hjs, hspend, -⟩ := h.of_mint hmint
  cases set with
  | sprout => simp [nullifiersOf, CTransaction.sproutNullifiers, hjs]
  | sapling => simp [nullifiersOf, CTransaction.saplingNullifiers, hspend]

variable {pindex : CBlockIndex} {block : CBlock}

section

variable [CryptoHash]

theorem checkSpends_nullifiers {nSigOps n : Nat} (hc : Checked c tx)
    (h : (checkSpends c nSigOps tx).Outcome nullifierSpec m (.ok n, m')) :
    ∀ set, ∀ nf ∈ nullifiersOf tx set, m set nf = false := by
  by_cases hmint : tx.isMint = true
  · intro set nf hnf
    rw [hc.nullifiers_of_mint hmint] at hnf
    exact absurd hnf (by simp)
  · simp only [checkSpends, hmint, Bool.false_eq_true, if_false, outcome_bind_ok,
      outcome_lift_ok, rejectIf_eq_ok, Bool.not_eq_false'] at h
    obtain ⟨have₁, m₁, h₁, _, _, ⟨-, rfl⟩, have₂, m₂, h₂, _, _, ⟨rfl, rfl⟩, -⟩ := h
    obtain rfl := nullifiers_part.of_plain (uses_haveInputs tx) h₁
    exact haveJoinSplitRequirements_nullifiers h₂

/-- **Connecting transactions**: each nullifier is revealed once, none set before, then set. -/
theorem connectTxs_nullifiers {i : Nat} {st st' : ConnectState} {txs : List CTransaction}
    (hc : ∀ tx ∈ txs, Checked c tx)
    (h : (connectTxs c pindex i st txs).Outcome nullifierSpec m (.ok st', m')) :
    RevealFresh m txs ∧ m' = setRevealed txs true m := by
  induction txs generalizing i st m with
  | nil =>
    obtain ⟨-, rfl⟩ := outcome_pure_ok.mp h
    exact ⟨fun set => by simp, (setRevealed_nil true _).symm⟩
  | cons tx txs ih =>
    obtain ⟨st₁, m₁, htx, hrest⟩ := outcome_bind_ok.mp h
    obtain ⟨htxc, htxsc⟩ := forall_mem_cons.mp hc
    obtain ⟨_, m₂, _, _, m₃, _, hspends, -, -, hfees, hupdate, -⟩ := connectTx_ok htx
    have hunset := checkSpends_nullifiers htxc hspends
    obtain rfl := nullifiers_part.of_read (by decide) (uses_checkSpends c _ tx) hspends
    obtain rfl := nullifiers_part.of_read (by decide) (uses_connectFees c pindex _ tx _) hfees
    obtain rfl := updateCoins_nullifiers hupdate
    obtain ⟨hfresh, rfl⟩ := ih htxsc hrest
    exact ⟨.cons htxc.nullifiers_nodup hunset hfresh, (setRevealed_append [tx] txs true _).symm⟩

/-- **Connecting a block**: its transactions reveal each nullifier once, none set before, and then
these are set. Those of the genesis block are not connected, but a lone coinbase reveals nothing.
-/
theorem connectBlock_nullifiers {undo : Option CBlockUndo}
    (hgenesis : block.hash = c.hashGenesisBlock → block.vtx.length = 1)
    (h : (connectBlock c pindex block).Outcome nullifierSpec m (.ok undo, m')) :
    RevealFresh m block.vtx ∧ m' = setRevealed block.vtx true m := by
  obtain ⟨coinbase, rest, hvtx, hcb, -, hchecked, -⟩ :=
    checkBlock_eq_ok (connectBlock_ok h).1
  have htxs := connectBlock_txs (nullifiers_part.neutral (by decide) (by decide)) h
  by_cases hgen : block.hash = c.hashGenesisBlock
  · simp only [hgen, if_true] at htxs
    obtain rfl : rest = [] := by simpa [hvtx] using hgenesis hgen
    have hnone : ∀ set, nullifiersOf coinbase set = [] :=
      (hchecked coinbase (by simp [hvtx])).nullifiers_of_mint (by simp [CTransaction.isMint, hcb])
    rw [hvtx, htxs.2]
    refine ⟨fun set => by simp [hnone], ?_⟩
    funext set nf
    simp [setRevealed, setAll, hnone]
  · simp only [hgen, if_false] at htxs
    obtain ⟨cheque, oldRoot, st₀, st, -, -, -, -, -, -, htxs, -⟩ := htxs
    exact connectTxs_nullifiers hchecked htxs

end

theorem disconnectTxs_nullifiers {txs : List (CTransaction × Option CTxUndo)} {clean : Bool}
    (h : (disconnectTxs nHeight txs).Outcome nullifierSpec m (.ok clean, m')) :
    m' = setRevealed (txs.map Prod.fst) false m := by
  induction txs generalizing clean m' with
  | nil =>
    obtain ⟨-, rfl⟩ := outcome_pure_ok.mp h
    exact (setRevealed_nil false _).symm
  | cons p rest ih =>
    obtain ⟨tx, txundo⟩ := p
    simp only [disconnectTxs, outcome_bind_ok, outcome_pure_ok] at h
    obtain ⟨restClean, m₁, hrest, txClean, _, htx, -, rfl⟩ := h
    obtain rfl := ih hrest
    obtain rfl := disconnectTx_nullifiers htx
    funext set nf
    simp only [setRevealed, setAll, map_cons, flatMap_cons, flatMap_nil, append_nil, mem_append]
    by_cases hnf : nf ∈ nullifiersOf tx set
    · simp [hnf]
    · simp [hnf]

theorem disconnectBlock_nullifiers {undo : CBlockUndo}
    (h : (disconnectCleanly c pindex block undo).Outcome nullifierSpec m (.ok (), m')) :
    m' = setRevealed block.vtx false m := by
  simp only [disconnectCleanly, outcome_bind_ok, outcome_lift_ok] at h
  obtain ⟨clean, _, h, -, rfl⟩ := h
  obtain ⟨undos, hfst, htxs⟩ :=
    disconnectBlock_txs (nullifiers_part.neutral (by decide) (by decide)) h
  rw [← hfst]
  exact disconnectTxs_nullifiers htxs

/-! ### The effect of a run -/

def revealed (set : NullifierSet) (chain : List ActiveBlock) : List UInt256 :=
  chain.flatMap fun b => b.block.vtx.flatMap fun tx => nullifiersOf tx set

omit [NoteTrees] in
@[simp] theorem revealed_cons (set : NullifierSet) (b : ActiveBlock) (chain : List ActiveBlock) :
    revealed set (b :: chain)
      = (b.block.vtx.flatMap fun tx => nullifiersOf tx set) ++ revealed set chain := rfl

/-- The invariant of all runs: the active chain reveals no nullifier twice, and the view has
exactly those revealed set. -/
structure SpentOnce (s : ChainState) : Prop where
  sound : s.pcoinsTip.Sound
  nodup : ∀ set, (revealed set s.chainActive).Nodup
  registered : ∃ below, (∀ set, below set ≠ []) ∧
    NullifierRel below s.pcoinsTip fun set nf => decide (nf ∈ revealed set s.chainActive)

theorem SpentOnce.initial : SpentOnce .initial := by
  have hnew := NullifierOp.recorded_new {}
  exact ⟨hnew.sound, fun set => nodup_nil, fun set => [plainNullifiers set (.base {})],
    fun set => by simp, hnew.coherent, fun set => hnew.sets set⟩

variable {s : ChainState}

theorem SpentOnce.getNullifier (hs : SpentOnce s) (set : NullifierSet) (nf : UInt256) :
    (s.pcoinsTip.getNullifier nf set.shieldedType).map Prod.fst
      = .ok (decide (nf ∈ revealed set s.chainActive)) := by
  obtain ⟨below, -, hrel⟩ := hs.registered
  rw [getNullifier_eq]
  exact congrArg Except.ok (hrel.ask set nf).1

theorem SpentOnce.flush (hs : SpentOnce s) :
    SpentOnce { s with pcoinsTip := s.pcoinsTip.flushed } := by
  obtain ⟨below, hbelow, hrel⟩ := hs.registered
  obtain ⟨hflush, hg⟩ := nullifier_flush_spec hrel.1
  refine ⟨hs.sound.flush, hs.nodup,
    fun set => (fun nf => decide (nf ∈ revealed set s.chainActive)) :: (below set).tail,
    fun set => by simp, hflush, fun set => ?_⟩
  obtain ⟨a, rest, ha⟩ := exists_cons_of_ne_nil (hbelow set)
  simp [CacheView.flushed, hg set, hrel.2 set, ha, Generations.flush]

section

variable [CryptoHash]

theorem SpentOnce.connect {res : Except Fault (Option CBlockUndo)} {v : CacheView}
    (hs : SpentOnce s) (hgenesis : block.hash = c.hashGenesisBlock → block.vtx.length = 1)
    (h : inChild (connectBlock c pindex block) s.pcoinsTip = .ok (res, v)) :
    SpentOnce ⟨v, if res.isOk then ⟨pindex, block⟩ :: s.chainActive else s.chainActive⟩ := by
  obtain ⟨below, hbelow, hrel⟩ := hs.registered
  obtain ⟨m', hout, hrel'⟩ := inChild_nullifiers hs.sound hbelow hrel h
  have hsound := inChild_sound hs.sound h
  cases res with
  | error e => exact ⟨hsound, hs.nodup, below, hbelow, hrel'⟩
  | ok undo =>
    obtain ⟨hfresh, rfl⟩ := connectBlock_nullifiers hgenesis hout
    refine ⟨hsound, fun set => ?_, below, hbelow, ?_⟩
    · refine nodup_append'.mpr ⟨(hfresh set).1, hs.nodup set, fun nf hnf hold => ?_⟩
      exact of_decide_eq_false ((hfresh set).2 nf hnf) hold
    · have hset : (fun set nf => decide (nf ∈ revealed set (⟨pindex, block⟩ :: s.chainActive)))
          = setRevealed block.vtx true fun set nf => decide (nf ∈ revealed set s.chainActive) := by
        funext set nf
        simp only [revealed_cons, setRevealed, setAll, mem_append, Bool.decide_or]
        by_cases hnf : nf ∈ block.vtx.flatMap fun tx => nullifiersOf tx set
        · simp [hnf]
        · simp [hnf]
      exact hset ▸ hrel'

theorem SpentOnce.disconnect {b : ActiveBlock}
    {rest : List ActiveBlock} {undo : CBlockUndo} {res : Except Fault Unit} {v : CacheView}
    (hs : SpentOnce s) (hchain : s.chainActive = b :: rest)
    (h : inChild (disconnectCleanly c b.pindex b.block undo) s.pcoinsTip = .ok (res, v)) :
    SpentOnce ⟨v, if res.isOk then rest else s.chainActive⟩ := by
  obtain ⟨below, hbelow, hrel⟩ := hs.registered
  obtain ⟨m', hout, hrel'⟩ := inChild_nullifiers hs.sound hbelow hrel h
  have hsound := inChild_sound hs.sound h
  cases res with
  | error e => exact ⟨hsound, hs.nodup, below, hbelow, hrel'⟩
  | ok u =>
    obtain rfl := disconnectBlock_nullifiers hout
    rw [hchain] at hrel'
    have hnodup := fun set => nodup_append'.mp (hchain ▸ hs.nodup set)
    refine ⟨hsound, fun set => (hnodup set).2.1, below, hbelow, ?_⟩
    have hset : (fun set nf => decide (nf ∈ revealed set rest)) = setRevealed b.block.vtx false
          fun set nf => decide (nf ∈ revealed set (b :: rest)) := by
      funext set nf
      simp only [revealed_cons, setRevealed, setAll, mem_append, Bool.decide_or]
      by_cases hnf : nf ∈ b.block.vtx.flatMap fun tx => nullifiersOf tx set
      · have hno : nf ∉ revealed set rest := (hnodup set).2.2 hnf
        simp [hnf, hno]
      · simp [hnf]
    exact hset ▸ hrel'

theorem SpentOnce.step (op : ChainOp) {s s' : ChainState} (hop : op.GenesisAlone)
    (hs : SpentOnce s) (h : op.step s = .ok s') : SpentOnce s' := by
  cases op with
  | connectTip c pindex block =>
    obtain ⟨res, v, hchild, rfl⟩ := connectTip_ok h
    exact hs.connect hop hchild
  | disconnectTip c undo =>
    obtain rfl | ⟨b, rest, blockUndo, res, v, hchain, hchild, rfl⟩ := disconnectTip_ok h
    · exact hs
    · exact hs.disconnect hchain hchild
  | flushStateToDisk =>
    obtain rfl := flushStateToDisk_ok hs.sound h
    exact hs.flush

/-- **Every nullifier is revealed at most once** by the active chain, and the view has exactly these
set. -/
theorem nullifiers_revealed_once {ops : List ChainOp} {s : ChainState}
    (hgenesis : ∀ op ∈ ops, op.GenesisAlone) (hrun : ChainState.run ops = .ok s)
    (set : NullifierSet) :
    (revealed set s.chainActive).Nodup ∧
      (∀ nf, (s.pcoinsTip.getNullifier nf set.shieldedType).map Prod.fst
        = .ok (decide (nf ∈ revealed set s.chainActive))) ∧
      ∀ c undo s', (ChainOp.disconnectTip c undo).step s = .ok s' →
        ∀ b, s.chainActive = b :: s'.chainActive → ∀ nf ∈ revealed set [b],
            (s'.pcoinsTip.getNullifier nf set.shieldedType).map Prod.fst = .ok false := by
  have hs : SpentOnce s := ChainState.run_invariant .initial
    (fun op s s' hop hs h => hs.step op hop h) (.of_forall hgenesis _) hrun
  refine ⟨hs.nodup set, hs.getNullifier set, fun c undo s' hstep b hb nf hnf => ?_⟩
  have hs' : SpentOnce s' := hs.step (.disconnectTip c undo) trivial hstep
  have hdisj := (nodup_append'.mp (hb ▸ hs.nodup set)).2.2
  rw [hs'.getNullifier set nf, decide_eq_false]
  exact hdisj (by simpa [revealed] using hnf)

end

end

section

local instance revealTrees : NoteTrees := listTrees

local instance revealHash : CryptoHash := ⟨fun _ => 0, fun _ => 0⟩

def revealTx : CTransaction where
  hash := 50
  nVersion := 2
  vin := []
  vout := []
  vjoinsplit := [{ anchor := emptyRoot .sprout, nullifiers := (1, 2), commitments := (3, 4) }]

def revealAgain : List ChainOp :=
  [connectGenesis,
    .connectTip smallChain (indexOnGenesis 2) ⟨2, 0, UInt256.null, [coinbaseTx 41, revealTx]⟩,
    .disconnectTip smallChain (some ⟨[⟨[]⟩], emptyRoot .sprout⟩),
    .connectTip smallChain (indexOnGenesis 3) ⟨3, 0, UInt256.null, [coinbaseTx 42, revealTx]⟩,
    .flushStateToDisk]

/-- The run succeeds, and the two nullifiers are revealed once and set. -/
theorem nullifiers_revealed_once_revealAgain : (∀ op ∈ revealAgain, op.GenesisAlone) ∧
      ∃ s, ChainState.run revealAgain = .ok s ∧ revealed .sprout s.chainActive = [1, 2] ∧
        (s.pcoinsTip.getNullifier 1 .sprout).map Prod.fst = .ok true := by
  have hgenesis : ∀ op ∈ revealAgain, op.GenesisAlone := by
    simp [revealAgain, connectGenesis, ChainOp.GenesisAlone, smallChain]
  obtain ⟨s, hrun, hrevealed⟩ : ∃ s, ChainState.run revealAgain = .ok s ∧
      revealed .sprout s.chainActive = [1, 2] := by
    refine ⟨_, rfl, ?_⟩
    rfl
  have hset := (nullifiers_revealed_once hgenesis hrun .sprout).2.1 1
  rw [hrevealed] at hset
  exact ⟨hgenesis, s, hrun, hrevealed, hset⟩

end

end Elosys
