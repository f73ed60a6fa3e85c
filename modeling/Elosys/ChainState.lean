import Elosys.BlockOutcome

/-!
# Runs of the Chain State

`ConnectTip`, `DisconnectTip` and `FlushStateToDisk` of `main.cpp`. A block is processed in a new
cache over `pcoinsTip`, flushed on success and thrown away otherwise; lookups leave traces in both
cases. The undo data that is read may be anything.
-/

open LayerStack Program Except Prod

namespace Elosys

open CacheView View

variable [NoteTrees] [CryptoHash]

/-! ### Working in a new cache -/

/-- Run a program in a new cache. A failed assertion or a trap ends all. -/
def inChild {α : Type} (prog : ViewProg α) (v : CacheView) :
    Except Fault (Except Fault α × CacheView) :=
  match prog.run viewHandler v.push with
  | (.ok a, child) => do
    let child ← child.flush
    return (.ok a, child.drop)
  | (.error (.assertion what), _) => .error (.assertion what)
  | (.error (.trap t), _) => .error (.trap t)
  | (.error e, child) => .ok (.error e, child.drop)

/-- The stack after a flush, when no assertion fails. -/
def CacheView.flushed (v : CacheView) : CacheView := ⟨v.top.cleared, View.merged v.top v.base⟩

variable {α : Type}

theorem sound_run (prog : ViewProg α) {v : CacheView} (h : v.Sound) :
    (prog.run viewHandler v).2.Sound := by
  obtain ⟨m, -, hrel⟩ := (coins_simulates v.coinsGenerations.below).run (p := prog)
    (s := v) (t := v.coinsGenerations.top) ⟨h, rfl⟩
  exact hrel.1

variable {prog : ViewProg α} {v v' : CacheView} {res : Except Fault α}

theorem inChild_ok (hs : v.Sound) (h : inChild prog v = .ok (res, v')) :
    ∃ child : CacheView, prog.run viewHandler v.push = (res, child) ∧ child.Sound ∧
      v' = (if res.isOk then child.flushed else child).drop := by
  have hchild := sound_run prog (push_spec hs).1
  unfold inChild at h
  generalize prog.run viewHandler v.push = out at h hchild ⊢
  obtain ⟨res' | a, child⟩ := out
  · cases res' with
    | assertion what => exact absurd h (by simp)
    | trap t => exact absurd h (by simp)
    | reject dos reason =>
      obtain ⟨rfl, rfl⟩ := mk.inj (ok.inj h)
      exact ⟨child, rfl, hchild, rfl⟩
    | exception what =>
      obtain ⟨rfl, rfl⟩ := mk.inj (ok.inj h)
      exact ⟨child, rfl, hchild, rfl⟩
  · simp only [flush_eq hchild] at h
    obtain ⟨rfl, rfl⟩ := mk.inj (ok.inj h)
    exact ⟨child, rfl, hchild, rfl⟩

theorem inChild_sound (hs : v.Sound) (h : inChild prog v = .ok (res, v')) : v'.Sound := by
  obtain ⟨child, -, hchild, rfl⟩ := inChild_ok hs h
  split
  · exact (drop_spec hchild.flush).1
  · exact (drop_spec hchild).1

theorem inChild_nullifiers {below : NullifierSet → List (UInt256 → Bool)}
    {m : NullifierSet → UInt256 → Bool} (hs : v.Sound) (hbelow : ∀ s, below s ≠ [])
    (hm : NullifierRel below v m) (h : inChild prog v = .ok (res, v')) :
    ∃ m', prog.Outcome nullifierSpec m (res, m') ∧
      NullifierRel below v' (if res.isOk then m' else m) := by
  obtain ⟨child, hrun, hchild, rfl⟩ := inChild_ok hs h
  obtain ⟨hpush, hgpush⟩ := nullifier_push_spec hm.1
  obtain ⟨m', hout, hrel⟩ := (nullifiers_simulates fun s => m s :: below s).run (p := prog)
    (s := v.push) (t := m) ⟨hpush, fun s => by rw [hgpush s, hm.2 s]; rfl⟩
  rw [hrun] at hout hrel
  refine ⟨m', hout, ?_⟩
  cases res with
  | ok a =>
    obtain ⟨hflush, hgflush⟩ := nullifier_flush_spec hrel.1
    obtain ⟨hdr, hgdr⟩ := nullifier_drop_spec hflush
    refine ⟨hdr, fun s => ?_⟩
    change nullifierGenerations s child.flushed.drop = _
    rw [CacheView.flushed, hgdr s, hgflush s, hrel.2 s]
    exact Generations.drop_cons (hbelow s)
  | error e =>
    obtain ⟨hdr, hgdr⟩ := nullifier_drop_spec hrel.1
    refine ⟨hdr, fun s => ?_⟩
    change nullifierGenerations s child.drop = _
    rw [hgdr s, hrel.2 s]
    exact Generations.drop_cons (hbelow s)

/-! ### The chain state -/

/-- A block of the active chain, with its index entry. -/
structure ActiveBlock where
  pindex : CBlockIndex
  block : CBlock

/-- The view of the tip and the active chain, tip first. -/
structure ChainState where
  pcoinsTip : CacheView
  chainActive : List ActiveBlock

def ChainState.initial : ChainState := ⟨⟨{}, .base {}⟩, []⟩

/-- A step of the chain state, under the parameters in force; a disconnection comes with the undo
data it read. -/
inductive ChainOp where
  | connectTip (c : ConsensusParams) (pindex : CBlockIndex) (block : CBlock)
  | disconnectTip (c : ConsensusParams) (undo : Option CBlockUndo)
  | flushStateToDisk

/-- `DisconnectBlock` by `DisconnectTip`: an unclean one is a failure. -/
def disconnectCleanly (c : ConsensusParams) (pindex : CBlockIndex) (block : CBlock)
    (undo : CBlockUndo) : ViewProg Unit := do
  let clean ← disconnectBlock c pindex block undo
  rejectIf (!clean) 0 "DisconnectTip(): DisconnectBlock failed"

/-- One step. A failure leaves the active chain as it was. -/
def ChainOp.step : ChainOp → ChainState → Except Fault ChainState
  | .connectTip c pindex block, s => do
    assertThat (pindex.pprev.map CBlockIndex.hash
        = s.chainActive.head?.map fun b => b.pindex.hash)
      "ConnectTip: pindexNew->pprev == chainActive.LastTip()"
    let (res, v) ← inChild (connectBlock c pindex block) s.pcoinsTip
    return ⟨v, if res.isOk then ⟨pindex, block⟩ :: s.chainActive else s.chainActive⟩
  | .disconnectTip c undo, s =>
    match s.chainActive, undo with
    | b :: rest, some undo => do
      let (res, v) ← inChild (disconnectCleanly c b.pindex b.block undo) s.pcoinsTip
      return ⟨v, if res.isOk then rest else b :: rest⟩
    | _, _ => .ok s
  | .flushStateToDisk, s => do
    let v ← s.pcoinsTip.flush
    return { s with pcoinsTip := v }

def ChainState.run (ops : List ChainOp) : Except Fault ChainState :=
  ops.foldlM (fun s op => op.step s) .initial

/-- The genesis block has one transaction, its coinbase. -/
def ChainOp.GenesisAlone : ChainOp → Prop
  | .connectTip c _ block => block.hash = c.hashGenesisBlock → block.vtx.length = 1
  | _ => True

/-- Every step of a run meets a condition on its state. -/
def ChainOp.AllMeet (cond : ChainState → ChainOp → Prop) : List ChainOp → ChainState → Prop
  | [], _ => True
  | op :: ops, s => cond s op ∧ ∀ s', op.step s = .ok s' → AllMeet cond ops s'

theorem ChainOp.AllMeet.of_forall {cond : ChainOp → Prop} {ops : List ChainOp}
    (h : ∀ op ∈ ops, cond op) (s : ChainState) : AllMeet (fun _ => cond) ops s := by
  induction ops generalizing s with
  | nil => trivial
  | cons op ops ih =>
    obtain ⟨hop, hops⟩ := List.forall_mem_cons.mp h
    exact ⟨hop, fun s' _ => ih hops s'⟩

/-- **Invariants of runs**: what holds initially and is kept by each step that meets the condition
holds after every such run. -/
theorem ChainState.run_invariant {P : ChainState → Prop}
    {cond : ChainState → ChainOp → Prop} (hinit : P .initial)
    (hstep : ∀ op s s', cond s op → P s → op.step s = .ok s' → P s') {ops : List ChainOp}
    {s : ChainState} (hmeet : ChainOp.AllMeet cond ops .initial)
    (hrun : ChainState.run ops = .ok s) : P s := by
  unfold ChainState.run at hrun
  generalize ChainState.initial = s₀ at hinit hmeet hrun
  induction ops generalizing s₀ with
  | nil =>
    obtain rfl := ok.inj hrun
    exact hinit
  | cons op ops ih =>
    obtain ⟨hcond, hrest⟩ := hmeet
    rw [List.foldlM_cons, bind_eq_ok] at hrun
    obtain ⟨s₁, hop, hrun⟩ := hrun
    exact ih s₁ (hstep op s₀ s₁ hcond hinit hop) (hrest s₁ hop) hrun

variable {s s' : ChainState}

theorem connectTip_ok {c : ConsensusParams} {pindex : CBlockIndex} {block : CBlock}
    (h : (ChainOp.connectTip c pindex block).step s = .ok s') :
    ∃ res v, inChild (connectBlock c pindex block) s.pcoinsTip = .ok (res, v) ∧
      s' = ⟨v, if res.isOk then ⟨pindex, block⟩ :: s.chainActive else s.chainActive⟩ := by
  simp only [ChainOp.step, bind_eq_ok] at h
  obtain ⟨-, -, ⟨res, v⟩, hchild, hs⟩ := h
  exact ⟨res, v, hchild, (ok.inj hs).symm⟩

theorem disconnectTip_ok {c : ConsensusParams} {undo : Option CBlockUndo}
    (h : (ChainOp.disconnectTip c undo).step s = .ok s') :
    s' = s ∨ ∃ b rest blockUndo res v, s.chainActive = b :: rest ∧
      inChild (disconnectCleanly c b.pindex b.block blockUndo) s.pcoinsTip = .ok (res, v) ∧
      s' = ⟨v, if res.isOk then rest else s.chainActive⟩ := by
  obtain ⟨tip, chain⟩ := s
  simp only [ChainOp.step] at h
  split at h
  · next b rest blockUndo =>
      obtain ⟨⟨res, v⟩, hchild, hs⟩ := bind_eq_ok.mp h
      exact .inr ⟨b, rest, blockUndo, res, v, rfl, hchild, (ok.inj hs).symm⟩
  · exact .inl (ok.inj h).symm

theorem flushStateToDisk_ok (hs : s.pcoinsTip.Sound)
    (h : ChainOp.flushStateToDisk.step s = .ok s') :
    s' = { s with pcoinsTip := s.pcoinsTip.flushed } := by
  simp only [ChainOp.step, flush_eq hs] at h
  exact (ok.inj h).symm

theorem step_sound {op : ChainOp} (hs : s.pcoinsTip.Sound)
    (h : op.step s = .ok s') : s'.pcoinsTip.Sound := by
  cases op with
  | connectTip c pindex block =>
    obtain ⟨res, v, hchild, rfl⟩ := connectTip_ok h
    exact inChild_sound hs hchild
  | disconnectTip c undo =>
    obtain rfl | ⟨b, rest, blockUndo, res, v, -, hchild, rfl⟩ := disconnectTip_ok h
    · exact hs
    · exact inChild_sound hs hchild
  | flushStateToDisk =>
    obtain rfl := flushStateToDisk_ok hs h
    exact hs.flush

/-! ### A small chain -/

def smallChain : ConsensusParams where
  maxMoney := 1000
  assetchainsPrivate := false
  assetchainsPublic := false
  isKMD := false
  isZEX := false
  assetchainsTxpow := 0
  scriptAddress := fun _ => ""
  notaryAddresses := fun _ => []
  serializeSize := fun _ => 100
  verifySprout := fun _ => true
  isBanned := fun _ => false
  isStakingTx := fun _ _ => false
  hashGenesisBlock := 1
  chainTipTime := none
  chainTipHeight := 0
  blockHeight := fun h => h.toNat
  expensiveChecks := fun _ => true
  checkBlockHeader := fun _ _ => .ok ()
  contextualCheckBlock := fun _ _ => true
  maxBlockSize := fun _ => 1000
  blockSize := fun _ => 100
  maxBlockSigops := 100
  legacySigOps := fun _ => 0
  p2shSigOps := fun _ _ => 0
  checkDeposit := fun _ _ => true
  saplingActive := fun _ => false
  getBlockSubsidy := fun _ => 3
  notaryPay := false
  komodoConnectblock := fun _ _ => 0
  komodoChecknotarypay := fun _ _ => 0
  assetchainsStaked := false
  slowCheckPOW := fun _ _ _ => true
  commission := false
  komodoCommission := fun _ _ => 0
  komodoExtrasatoshi := 0
  accruedInterest := fun _ _ _ => 0
  coinImportValue := fun _ => 0
  verifyCoinImport := fun _ => .ok ()
  timelockGte := 1000
  unlockTime := fun h => h
  coinbaseMaturity := 1
  coinbaseMustBeProtected := false
  verifyScript := fun _ _ _ _ => true

def coinbaseTx (hash : UInt256) : CTransaction where
  hash := hash
  nVersion := 1
  vin := [⟨⟨UInt256.null, 2 ^ 32 - 1⟩, [0x01, 0x01], 0⟩]
  vout := [⟨3, [0x51]⟩]

def genesisIndex : CBlockIndex := ⟨1, 0, 0, UInt256.null, none⟩

def indexOnGenesis (hash : UInt256) : CBlockIndex :=
  ⟨hash, 1, 0, UInt256.null, some genesisIndex⟩

def connectGenesis : ChainOp :=
  .connectTip smallChain genesisIndex ⟨1, 0, UInt256.null, [coinbaseTx 40]⟩

end Elosys
