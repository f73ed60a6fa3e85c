import Elosys.Supply
import Elosys.TxUndo

/-!
# The Outputs That a Block Spends

The indexes are made from the outputs that the transaction loop of `ConnectBlock` sees at each
turn. That part of the loop, in terms of the coins before the block alone.
-/

open LayerStack Program List Option Function

namespace Elosys

open CacheView CoinsColumn View ViewProg

section

variable [NoteTrees]

def prevoutsOf (tx : CTransaction) : ViewProg (List CTxOut) :=
  if tx.isMint then pure [] else tx.vin.mapM getOutputFor

/-- The transaction loop of `ConnectBlock` for the indexes: each transaction's spent outputs,
looked up before its effect. -/
def readPrevouts (nHeight : Nat) : List CTransaction → ViewProg (List (List CTxOut))
  | [] => pure []
  | tx :: txs => do
    let prevouts ← prevoutsOf tx
    let _ ← updateCoins tx nHeight
    let rest ← readPrevouts nHeight txs
    return prevouts :: rest

/-! ### Plain outputs -/

def outputsOf (m : UInt256 → Option CCoins) (txid : UInt256) : List CTxOut :=
  (m txid).elim [] CCoins.vout

variable (U : UInt256 → List CTxOut)

def unspentOutput (o : COutPoint) : Option CTxOut :=
  ((U o.hash)[o.n]?).filter fun t => !t.isNull

def spendOutput (o : COutPoint) : UInt256 → List CTxOut :=
  update U o.hash (((U o.hash).set o.n CTxOut.null).rdropWhile CTxOut.isNull)

def CTransaction.spends (tx : CTransaction) : List COutPoint :=
  if tx.isMint then [] else tx.vin.map CTxIn.prevout

def outputsAfter (tx : CTransaction) : UInt256 → List CTxOut :=
  let U := update (tx.spends.foldl spendOutput U) tx.hash (CCoins.fromTx tx 0).vout
  if tx.isCoinImport then update U tx.burnTxid (U tx.burnTxid ++ [tombstone]) else U

def spentBy (tx : CTransaction) : List CTxOut :=
  tx.spends.map fun o => (unspentOutput U o).getD CTxOut.null

/-- The outputs transactions spend, in order. -/
def spentOutputs (U : UInt256 → List CTxOut) : List CTransaction → List (List CTxOut)
  | [] => []
  | tx :: txs => spentBy U tx :: spentOutputs (outputsAfter U tx) txs

variable {m m' : UInt256 → Option CCoins}

section
omit [NoteTrees]

theorem outputs_cleanup (c : CCoins) :
    c.cleanup.present.elim [] CCoins.vout = c.vout.rdropWhile CTxOut.isNull := by
  cases hp : c.cleanup.isPruned with
  | true =>
    rw [CCoins.present_of_isPruned hp]
    exact ((CCoins.isPruned_iff_of_clean c.clean_cleanup).mp hp).symm
  | false => rw [CCoins.present_of_not_isPruned hp]; rfl

theorem unspentOutput_outputsOf (m : UInt256 → Option CCoins) (o : COutPoint) :
    unspentOutput (outputsOf m) o = outputIn m o := by
  cases hm : m o.hash with
  | none => simp [unspentOutput, outputsOf, outputIn, hm]
  | some c => simp [unspentOutput, outputsOf, outputIn, hm, CCoins.output?]

theorem outputsOf_update (x : UInt256) (r : Option CCoins) :
    outputsOf (update m x r) = update (outputsOf m) x (r.elim [] CCoins.vout) := by
  funext y
  by_cases hy : y = x
  · subst hy
    simp [outputsOf]
  · simp [outputsOf, update_of_ne hy]

end

variable {i : CTxIn}

theorem spendInput_outputs {u : CTxInUndo} (h : (spendInput i).Outcome coinsSpec m (.ok u, m')) :
    outputsOf m' = spendOutput (outputsOf m) i.prevout := by
  obtain ⟨c, hc, ha, -, rfl⟩ := spendInput_ok h
  rw [outputsOf_update, outputs_cleanup, CCoins.spend, if_pos ha, CCoins.cleanup,
    rdropWhile_idempotent, spendOutput]
  simp [outputsOf, hc]

variable {tx : CTransaction}

theorem spendInputs_outputs {us : List CTxInUndo}
    (h : (spendInputs tx).Outcome coinsSpec m (.ok us, m')) :
    outputsOf m' = tx.spends.foldl spendOutput (outputsOf m) := by
  have hloop : ∀ (is : List CTxIn) {m : UInt256 → Option CCoins} {us : List CTxInUndo},
      (is.mapM spendInput).Outcome coinsSpec m (.ok us, m') →
      outputsOf m' = (is.map CTxIn.prevout).foldl spendOutput (outputsOf m) := by
    intro is
    induction is with
    | nil =>
      intro m us h
      rw [mapM_nil, outcome_pure_ok] at h
      rw [h.2]
      rfl
    | cons i is ih =>
      intro m us h
      rw [mapM_cons] at h
      simp only [outcome_bind_ok, outcome_pure_ok] at h
      obtain ⟨u, m₁, hspend, us', _, hrest, -, rfl⟩ := h
      rw [ih hrest, spendInput_outputs hspend]
      rfl
  unfold spendInputs at h
  unfold CTransaction.spends
  split at h
  · next hmint =>
      rw [if_pos hmint, (outcome_pure_ok.mp h).2]
      rfl
  · next hmint =>
      rw [if_neg hmint]
      exact hloop tx.vin h

variable {nHeight : Nat}

theorem updateCoins_outputs {undo : CTxUndo}
    (h : (updateCoins tx nHeight).Outcome coinsSpec m (.ok undo, m')) :
    outputsOf m' = outputsAfter (outputsOf m) tx := by
  obtain ⟨m₁, hspend, hrest⟩ := updateCoins_coins h
  have hown : ((CCoins.fromTx tx nHeight).present).elim [] CCoins.vout
      = (CCoins.fromTx tx 0).vout := by
    have hclean := outputs_cleanup (CCoins.fromTx tx nHeight)
    rw [show (CCoins.fromTx tx nHeight).cleanup = _ from CCoins.clean_fromTx tx nHeight] at hclean
    rw [hclean]
    exact congrArg CCoins.vout (CCoins.clean_fromTx tx 0)
  have hm₂ : outputsOf (update m₁ tx.hash (CCoins.fromTx tx nHeight).present)
      = update (tx.spends.foldl spendOutput (outputsOf m)) tx.hash (CCoins.fromTx tx 0).vout := by
    rw [outputsOf_update, hown, spendInputs_outputs hspend]
  unfold outputsAfter
  by_cases himport : tx.isCoinImport = true
  · simp only [himport, if_true] at hrest ⊢
    obtain ⟨c, hshows, rfl⟩ := hrest
    have hvout : c.vout = outputsOf
        (update m₁ tx.hash (CCoins.fromTx tx nHeight).present) tx.burnTxid := by
      unfold outputsOf
      generalize update m₁ tx.hash (CCoins.fromTx tx nHeight).present tx.burnTxid = o
        at hshows ⊢
      cases o with
      | none => exact hshows
      | some d => exact congrArg CCoins.vout (show c = d from hshows)
    rw [outputsOf_update, outputs_cleanup, addImportTombstone, hvout, hm₂,
      rdropWhile_concat_neg _ _ _ (by decide)]
  · simp only [himport, Bool.false_eq_true, if_false] at hrest ⊢
    rw [hrest, hm₂]

theorem prevoutsOf_outputs {outs : List CTxOut}
    (h : (prevoutsOf tx).Outcome coinsSpec m (.ok outs, m')) :
    outs = spentBy (outputsOf m) tx ∧ m' = m := by
  have hread : ∀ {i : CTxIn} {o : CTxOut} {m m' : UInt256 → Option CCoins},
      (getOutputFor i).Outcome coinsSpec m (.ok o, m') →
      o = (unspentOutput (outputsOf m) i.prevout).getD CTxOut.null ∧ m' = m := by
    intro i o m m' h
    refine ⟨?_, coins_part.of_plain (uses_getOutputFor i) h⟩
    rw [unspentOutput_outputsOf, getOutputFor_coins h, getD_some]
  have hloop : ∀ (is : List CTxIn) {outs : List CTxOut},
      (is.mapM getOutputFor).Outcome coinsSpec m (.ok outs, m') →
      outs = (is.map CTxIn.prevout).map
        (fun o => (unspentOutput (outputsOf m) o).getD CTxOut.null) ∧ m' = m := by
    intro is
    induction is with
    | nil =>
      intro outs h
      rwa [mapM_nil, outcome_pure_ok] at h
    | cons i is ih =>
      intro outs h
      rw [mapM_cons] at h
      simp only [outcome_bind_ok, outcome_pure_ok] at h
      obtain ⟨o, m₁, ho, outs', _, hrest, rfl, rfl⟩ := h
      obtain ⟨rfl, rfl⟩ := hread ho
      obtain ⟨rfl, rfl⟩ := ih hrest
      exact ⟨rfl, rfl⟩
  unfold prevoutsOf at h
  unfold spentBy CTransaction.spends
  split at h
  · next hmint =>
      rw [if_pos hmint]
      exact outcome_pure_ok.mp h
  · next hmint =>
      rw [if_neg hmint]
      exact hloop tx.vin h

theorem readPrevouts_outputs {txs : List CTransaction} {prevouts : List (List CTxOut)}
    (h : (readPrevouts nHeight txs).Outcome coinsSpec m (.ok prevouts, m')) :
    prevouts = spentOutputs (outputsOf m) txs := by
  induction txs generalizing m prevouts with
  | nil => exact (outcome_pure_ok.mp h).1
  | cons tx txs ih =>
    simp only [readPrevouts, outcome_bind_ok, outcome_pure_ok] at h
    obtain ⟨outs, m₁, houts, undo, m₂, hupdate, rest, _, hrest, rfl, rfl⟩ := h
    obtain ⟨rfl, rfl⟩ := prevoutsOf_outputs houts
    rw [spentOutputs, ← updateCoins_outputs hupdate, ih hrest]

/-! ### Looking the outputs up succeeds -/

omit [NoteTrees] in
theorem unspentOutput_eq_some {o : COutPoint} {t : CTxOut} :
    unspentOutput (outputsOf m) o = some t ↔
      ∃ c, m o.hash = some c ∧ c.isAvailable o.n = true ∧ c.outputAt o.n = t := by
  rw [unspentOutput_outputsOf, outputIn, bind_eq_some_iff]
  refine exists_congr fun c => and_congr_right fun _ => ?_
  rw [CCoins.isAvailable_eq, isSome_iff_exists]
  constructor
  · exact fun h => ⟨⟨t, h⟩, CCoins.outputAt_of_output? h⟩
  · rintro ⟨⟨t', h⟩, rfl⟩
    rw [CCoins.outputAt_of_output? h, h]

omit [NoteTrees] in
theorem unspentOutput_spendOutput (o o' : COutPoint) :
    unspentOutput (spendOutput U o') o = if o = o' then none else unspentOutput U o := by
  by_cases hhash : o.hash = o'.hash
  · have hdrop : unspentOutput (spendOutput U o') o
        = (((U o'.hash).set o'.n CTxOut.null)[o.n]?).filter fun t => !t.isNull := by
      rw [unspentOutput, spendOutput, hhash, update_self]
      rcases CCoins.getElem?_rdropWhile ((U o'.hash).set o'.n CTxOut.null) o.n with hk | ⟨hk, hnull⟩
      · rw [hk]
      · rw [hk]
        cases hat : ((U o'.hash).set o'.n CTxOut.null)[o.n]? with
        | none => rfl
        | some t => rw [filter_some_neg (by simp [hnull t hat])]; rfl
    rw [hdrop]
    by_cases hn : o.n = o'.n
    · have ho : o = o' := by
        cases o
        simp_all
      rw [if_pos ho, hn, getElem?_set_self']
      cases (U o'.hash)[o'.n]? <;> simp
    · rw [if_neg (fun ho => hn (by rw [ho])), getElem?_set_ne (Ne.symm hn), unspentOutput, hhash]
  · rw [if_neg (fun ho => hhash (by rw [ho])), unspentOutput, spendOutput,
      update_of_ne hhash, unspentOutput]

def ViewOp.Succeeds : (o : ViewOp) → Except Fault o.Ret → Prop
  | .setNullifiers _ _, r => r = .ok ()
  | .setZkProofHashes _ _, r => r = .ok ()
  | _, _ => True

/-- The methods on plain coins, with those that cannot fail. -/
def coinsUpdateSpec : Spec viewSig Fault (UInt256 → Option CCoins) :=
  fun o m res => coinsSpec o m res ∧ o.Succeeds res.1

theorem coinsUpdate_simulates [CryptoHash] (below : List (UInt256 → Option CCoins)) :
    Simulates (CoinsRel below) viewHandler.spec coinsUpdateSpec := by
  rintro o v m res hrel rfl
  obtain ⟨m', hm', hrel'⟩ := coins_simulates below o v m _ hrel rfl
  refine ⟨m', ⟨hm', ?_⟩, hrel'⟩
  cases o <;> trivial

/-- The program does not fail on these plain coins. -/
def Runs {α : Type} (p : ViewProg α) (m : UInt256 → Option CCoins) : Prop :=
  p.Ensures coinsUpdateSpec m fun a m' => p.Outcome coinsSpec m (.ok a, m')

section

variable {α β : Type} {p : ViewProg α} {f : α → ViewProg β}

theorem Runs.of_ensures {Q : α → (UInt256 → Option CCoins) → Prop}
    (h : p.Ensures coinsUpdateSpec m Q) : Runs p m := by
  intro res hres
  obtain ⟨a, m', rfl, -⟩ := h res hres
  exact ⟨a, m', rfl, outcome_proj (g := id) (fun _ _ _ h => h.1) hres⟩

theorem Runs.bind (hp : Runs p m)
    (hf : ∀ a m', p.Outcome coinsSpec m (.ok a, m') → Runs (f a) m') : Runs (p >>= f) m := by
  refine Runs.of_ensures (Q := fun _ _ => True) (ensures_bind hp fun a m' ha res hres => ?_)
  obtain ⟨b, m'', heq, -⟩ := hf a m' ha res hres
  exact ⟨b, m'', heq, trivial⟩

theorem Runs.pure (a : α) : Runs (Pure.pure a) m :=
  Runs.of_ensures (ensures_pure (Q := fun _ _ => True) trivial)

theorem Runs.lift {x : Except Fault α} {a : α} (h : x = .ok a) : Runs (liftM x) m := by
  subst h
  exact Runs.pure a

theorem Runs.modifyCoins (txid : UInt256) (edit : CCoins → CCoins) :
    Runs (ViewProg.modifyCoins txid edit) m := by
  refine Runs.of_ensures (Q := fun _ _ => True) fun res hres => ?_
  obtain ⟨⟨c, -, rfl⟩, -⟩ := outcome_op.mp hres
  exact ⟨c, _, rfl, trivial⟩

theorem Runs.getCoins (txid : UInt256) : Runs (ViewProg.getCoins txid) m := by
  refine Runs.of_ensures (Q := fun _ _ => True) fun res hres => ?_
  obtain ⟨⟨r, rfl, -⟩, -⟩ := outcome_op.mp hres
  exact ⟨r, _, rfl, trivial⟩

theorem Runs.setNullifiers (tx : CTransaction) (spent : Bool) :
    Runs (ViewProg.setNullifiers tx spent) m := by
  refine Runs.of_ensures (Q := fun _ _ => True) fun res hres => ?_
  exact ⟨(), res.2, Prod.ext (outcome_op.mp hres).2 rfl, trivial⟩

theorem Runs.setZkProofHashes (tx : CTransaction) (addTx : Bool) :
    Runs (ViewProg.setZkProofHashes tx addTx) m := by
  refine Runs.of_ensures (Q := fun _ _ => True) fun res hres => ?_
  exact ⟨(), res.2, Prod.ext (outcome_op.mp hres).2 rfl, trivial⟩

end

theorem Runs.spendInput (h : (unspentOutput (outputsOf m) i.prevout).isSome) :
    Runs (Elosys.spendInput i) m := by
  obtain ⟨t, ht⟩ := isSome_iff_exists.mp h
  obtain ⟨c, hc, ha, -⟩ := unspentOutput_eq_some.mp ht
  refine (Runs.modifyCoins _ _).bind fun c' m' hmod => ?_
  rw [ViewProg.modifyCoins, ViewProg.call, outcome_op] at hmod
  obtain ⟨d, hshows, hres⟩ := hmod
  obtain rfl := Except.ok.inj (congrArg Prod.fst hres)
  obtain rfl : c' = c := by rwa [hc] at hshows
  exact (Runs.lift (a := ()) (assertThat_eq_ok.mpr ha)).bind fun _ _ _ => Runs.pure _

theorem Runs.getOutputFor (h : (unspentOutput (outputsOf m) i.prevout).isSome) :
    Runs (Elosys.getOutputFor i) m := by
  obtain ⟨t, ht⟩ := isSome_iff_exists.mp h
  obtain ⟨c, hc, ha, -⟩ := unspentOutput_eq_some.mp ht
  refine (Runs.getCoins _).bind fun r m' hread => ?_
  rw [ViewProg.getCoins, ViewProg.call, outcome_op] at hread
  obtain ⟨r', hres, hm⟩ := hread
  obtain rfl := Except.ok.inj (congrArg Prod.fst hres)
  have hr : r = some c := by
    rw [hc] at hm
    obtain ⟨d, rfl, hd⟩ := bind_eq_some_iff.mp hm
    rw [CCoins.present] at hd
    split at hd
    · exact absurd hd (by simp)
    · exact hd
  have hfilter : r.filter (fun c => c.isAvailable i.prevout.n) = some c := by
    rw [hr]
    simp [ha]
  exact (Runs.lift (assertSome_eq_ok.mpr hfilter)).bind fun _ _ _ => Runs.pure _

variable {m₀ : UInt256 → Option CCoins}

theorem Runs.spendInputs {is : List CTxIn} {us : List CTxInUndo}
    (h : (is.mapM Elosys.spendInput).Outcome coinsSpec m (.ok us, m'))
    (h₀ : outputsOf m₀ = outputsOf m) :
    Runs (is.mapM Elosys.spendInput) m₀ ∧
      ∀ i ∈ is, (unspentOutput (outputsOf m₀) i.prevout).isSome := by
  induction is generalizing m us m₀ with
  | nil => exact ⟨Runs.pure [], by simp⟩
  | cons i is ih =>
    rw [mapM_cons] at h
    simp only [outcome_bind_ok, outcome_pure_ok] at h
    obtain ⟨u, m₁, hspend, us', _, hrest, -, rfl⟩ := h
    obtain ⟨c, hc, ha, -⟩ := spendInput_ok hspend
    have hi : (unspentOutput (outputsOf m₀) i.prevout).isSome := by
      rw [h₀, unspentOutput_eq_some.mpr ⟨c, hc, ha, rfl⟩]
      rfl
    have hafter : ∀ {m₂ : UInt256 → Option CCoins},
        outputsOf m₂ = spendOutput (outputsOf m₀) i.prevout → outputsOf m₂ = outputsOf m₁ := by
      intro m₂ hm₂
      rw [hm₂, h₀, spendInput_outputs hspend]
    refine ⟨?_, forall_mem_cons.mpr ⟨hi, fun j hj => ?_⟩⟩
    · rw [mapM_cons]
      refine (Runs.spendInput hi).bind fun _ m₂ h₂ => ?_
      exact (ih hrest (hafter (spendInput_outputs h₂))).1.bind fun _ _ _ => Runs.pure _
    · have hj' := (ih hrest rfl).2 j hj
      rw [spendInput_outputs hspend, ← h₀, unspentOutput_spendOutput] at hj'
      split at hj'
      · exact absurd hj' (by simp)
      · exact hj'

theorem Runs.updateCoins {undo : CTxUndo}
    (h : (Elosys.updateCoins tx nHeight).Outcome coinsSpec m (.ok undo, m'))
    (h₀ : outputsOf m₀ = outputsOf m) :
    Runs (Elosys.updateCoins tx nHeight) m₀ ∧ Runs (prevoutsOf tx) m₀ := by
  obtain ⟨m₁, hspend, -⟩ := updateCoins_coins h
  have hmark : ∀ {m}, Runs (markImport tx nHeight) m := by
    unfold markImport
    split
    · exact (Runs.modifyCoins _ _).bind fun _ _ _ => Runs.pure _
    · exact Runs.pure _
  have hrest : ∀ {vprevout m}, Runs (do
      ViewProg.setNullifiers tx true
      ViewProg.setZkProofHashes tx true
      let _ ← ViewProg.modifyCoins tx.hash fun _ => .fromTx tx nHeight
      markImport tx nHeight
      Pure.pure (⟨vprevout⟩ : CTxUndo)) m :=
    (Runs.setNullifiers tx true).bind fun _ _ _ =>
      (Runs.setZkProofHashes tx true).bind fun _ _ _ =>
        (Runs.modifyCoins _ _).bind fun _ _ _ => hmark.bind fun _ _ _ => Runs.pure _
  unfold Elosys.updateCoins prevoutsOf
  unfold Elosys.spendInputs at hspend ⊢
  cases hmint : tx.isMint with
  | true =>
    exact ⟨(Runs.pure _).bind fun _ _ _ => hrest, Runs.pure _⟩
  | false =>
    simp only [hmint, Bool.false_eq_true, if_false] at hspend ⊢
    obtain ⟨hspends, hall⟩ := Runs.spendInputs hspend h₀
    refine ⟨hspends.bind fun _ _ _ => hrest, ?_⟩
    generalize tx.vin = is at hall
    induction is with
    | nil => exact Runs.pure []
    | cons i is ih =>
      obtain ⟨hi, his⟩ := forall_mem_cons.mp hall
      rw [mapM_cons]
      refine (Runs.getOutputFor hi).bind fun _ m₂ h₂ => ?_
      rw [coins_part.of_plain (uses_getOutputFor i) h₂]
      exact (ih his).bind fun _ _ _ => Runs.pure _

theorem Runs.readPrevouts [CryptoHash] {c : ConsensusParams} {pindex : CBlockIndex} {i : Nat}
    {st st' : ConnectState} {txs : List CTransaction}
    (h : (connectTxs c pindex i st txs).Outcome coinsSpec m (.ok st', m'))
    (h₀ : outputsOf m₀ = outputsOf m) : Runs (Elosys.readPrevouts pindex.nHeight txs) m₀ := by
  induction txs generalizing i st m m₀ with
  | nil => exact Runs.pure []
  | cons tx txs ih =>
    obtain ⟨st₁, m₁, htx, hrest⟩ := outcome_bind_ok.mp h
    obtain ⟨_, m₂, _, _, m₃, undo, hspends, -, -, hfees, hupdate, -⟩ := connectTx_ok htx
    obtain rfl := coins_part.of_read (by decide) (uses_checkSpends c _ tx) hspends
    obtain rfl := coins_part.of_read (by decide) (uses_connectFees c pindex _ tx _) hfees
    obtain ⟨hruns, hprev⟩ := Runs.updateCoins hupdate h₀
    refine hprev.bind fun _ m₄ h₄ => ?_
    rw [(prevoutsOf_outputs h₄).2]
    refine hruns.bind fun _ m₅ h₅ => ?_
    have h₅' : outputsOf m₅ = outputsOf m₁ := by
      rw [updateCoins_outputs h₅, h₀, updateCoins_outputs hupdate]
    exact (ih hrest h₅').bind fun _ _ _ => Runs.pure _

end

end Elosys
