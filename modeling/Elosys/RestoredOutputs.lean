import Elosys.Prevouts

/-!
# The Outputs That a Block Restores

`DisconnectBlock` gives spent outputs back from the undo data, and looks each up in the view for
the address index. What it sees is known from the coins before the block: the spent output, with a
height only if nothing was left of its record.
-/

open LayerStack Program List Option Function

namespace Elosys

open CacheView CoinsColumn View ViewProg

section

variable [NoteTrees]

def readRestoredInputs : List (CTxInUndo × CTxIn) → ViewProg (List (CTxInUndo × CTxOut))
  | [] => pure []
  | (undo, i) :: rest => do
    let restored ← readRestoredInputs rest
    let _ ← applyTxInUndo undo i.prevout
    let prevout ← getOutputFor i
    return (undo, prevout) :: restored

/-- The inputs' part of the loop of `DisconnectBlock`, for the index. -/
def readRestoredTx : CTransaction → Option CTxUndo → ViewProg (List (CTxInUndo × CTxOut)) :=
  undoInputs readRestoredInputs []

/-- The loop of `DisconnectBlock` for the index: restored outputs, looked up then. -/
def readRestored :
    List (CTransaction × Option CTxUndo) → ViewProg (List (List (CTxInUndo × CTxOut)))
  | [] => pure []
  | (tx, txundo) :: rest => do
    let restored ← readRestored rest
    let _ ← modifyCoins tx.hash fun _ => .clear
    setNullifiers tx false
    setZkProofHashes tx false
    let inputs ← readRestoredTx tx txundo
    return inputs :: restored

end

/-! ### Heights in undo data -/

section

variable {U U' : UInt256 → List CTxOut} {H : UInt256 → Nat} {S : List COutPoint} {o : COutPoint}

theorem unspentOutput_foldl (S : List COutPoint) (U : UInt256 → List CTxOut) (o : COutPoint) :
    unspentOutput (S.foldl spendOutput U) o = if o ∈ S then none else unspentOutput U o := by
  induction S generalizing U with
  | nil => simp
  | cons o' S ih =>
    rw [foldl_cons, ih, unspentOutput_spendOutput]
    by_cases ho : o = o'
    · simp [ho]
    · simp [ho]

theorem foldl_spendOutput_congr {x : UInt256} (h : U x = U' x) (S : List COutPoint) :
    S.foldl spendOutput U x = S.foldl spendOutput U' x := by
  induction S generalizing U U' with
  | nil => exact h
  | cons o S ih =>
    refine ih ?_
    by_cases hx : x = o.hash
    · subst hx
      simp [spendOutput, h]
    · simp [spendOutput, update_of_ne hx, h]

theorem foldl_spendOutput_nil {x : UInt256} (h : U x = []) (S : List COutPoint) :
    S.foldl spendOutput U x = [] := by
  induction S generalizing U with
  | nil => exact h
  | cons o S ih =>
    refine ih ?_
    by_cases hx : x = o.hash
    · subst hx
      simp [spendOutput, h]
    · simp [spendOutput, update_of_ne hx, h]

theorem spendOutput_eq_nil :
    spendOutput U o o.hash = [] ↔ ∀ n, unspentOutput (spendOutput U o) ⟨o.hash, n⟩ = none := by
  have hself : spendOutput U o o.hash
      = ((U o.hash).set o.n CTxOut.null).rdropWhile CTxOut.isNull := by
    simp [spendOutput]
  constructor
  · intro h n
    simp [unspentOutput, h]
  · intro h
    rw [hself]
    by_contra hne
    have hlast := rdropWhile_last_not CTxOut.isNull _ hne
    have hn := h ((((U o.hash).set o.n CTxOut.null).rdropWhile CTxOut.isNull).length - 1)
    rw [unspentOutput, hself, ← getLast?_eq_getElem?, getLast?_eq_getLast_of_ne_nil hne,
      filter_eq_none_iff] at hn
    exact absurd hlast (by simpa using hn _ rfl)

def spentBefore (S : List COutPoint) (o : COutPoint) : List COutPoint := S.takeWhile (· ≠ o)

variable {S' : List COutPoint}

theorem spentBefore_append_of_mem (h : o ∈ S) : spentBefore (S ++ S') o = spentBefore S o := by
  induction S with
  | nil => exact absurd h (by simp)
  | cons o' S ih =>
    by_cases ho : o' = o
    · simp [spentBefore, ho]
    · have hmem : o ∈ S := (mem_cons.mp h).resolve_left (Ne.symm ho)
      simpa [spentBefore, ho] using ih hmem

theorem spentBefore_append_of_notMem (h : o ∉ S) :
    spentBefore (S ++ S') o = S ++ spentBefore S' o :=
  takeWhile_append_of_pos fun o' ho' => by
    simpa using fun heq : o' = o => h (heq ▸ ho')

/-- An outpoint's undo height: its record's if nothing is left, else none. -/
def undoHeight (U : UInt256 → List CTxOut) (H : UInt256 → Nat) (S : List COutPoint)
    (o : COutPoint) : Nat :=
  if spendOutput ((spentBefore S o).foldl spendOutput U) o o.hash = [] then H o.hash else 0

theorem undoHeight_eq_iff (hpos : 0 < H o.hash) : undoHeight U H S o = H o.hash ↔
      ∀ n, n ≠ o.n → (unspentOutput U ⟨o.hash, n⟩).isSome → ⟨o.hash, n⟩ ∈ spentBefore S o := by
  have hleft : undoHeight U H S o = H o.hash ↔
      spendOutput ((spentBefore S o).foldl spendOutput U) o o.hash = [] := by
    unfold undoHeight
    split
    · next h => simp [h]
    · next h =>
        simp only [h, iff_false]
        omega
  rw [hleft, spendOutput_eq_nil]
  refine forall_congr' fun n => ?_
  have hne : (⟨o.hash, n⟩ : COutPoint) = o ↔ n = o.n := by
    cases o
    simp
  rw [unspentOutput_spendOutput, unspentOutput_foldl]
  by_cases hn : n = o.n
  · simp [hn]
  · rw [if_neg (mt hne.mp hn)]
    by_cases hmem : (⟨o.hash, n⟩ : COutPoint) ∈ spentBefore S o
    · simp [hmem]
    · simp [hmem, hn]

theorem undoHeight_append_of_mem (h : o ∈ S) : undoHeight U H (S ++ S') o = undoHeight U H S o := by
  rw [undoHeight, spentBefore_append_of_mem h, undoHeight]

theorem undoHeight_append_of_notMem (h : o ∉ S) :
    undoHeight U H (S ++ S') o = undoHeight (S.foldl spendOutput U) H S' o := by
  rw [undoHeight, spentBefore_append_of_notMem h, foldl_append, undoHeight]

theorem undoHeight_congr {H' : UInt256 → Nat} (hU : U o.hash = U' o.hash)
    (hH : H o.hash = H' o.hash) : undoHeight U H S o = undoHeight U' H' S o := by
  have hleft : ∀ V : UInt256 → List CTxOut, spendOutput ((spentBefore S o).foldl spendOutput V) o
        = (spentBefore S o ++ [o]).foldl spendOutput V := by simp
  rw [undoHeight, undoHeight, hleft, hleft, foldl_spendOutput_congr hU, hH]

end

/-! ### Undo data -/

def heightsOf (m : UInt256 → Option CCoins) (txid : UInt256) : Nat :=
  (m txid).elim 0 CCoins.nHeight

/-- Output and height of an outpoint a transaction spends. -/
def undoOf (m : UInt256 → Option CCoins) (S : List COutPoint) (o : COutPoint) : CTxOut × Nat :=
  ((unspentOutput (outputsOf m) o).getD CTxOut.null, undoHeight (outputsOf m) (heightsOf m) S o)

section

variable [NoteTrees] {m m' : UInt256 → Option CCoins}

/-- A record of `m'` has its height from one of `m`. -/
def HeightKept (m m' : UInt256 → Option CCoins) (x : UInt256) : Prop :=
  ∀ c', m' x = some c' → ∃ c, m x = some c ∧ c'.nHeight = c.nHeight

omit [NoteTrees] in
theorem HeightKept.heightsOf_eq {o : COutPoint} (h : HeightKept m m' o.hash)
    (ho : (unspentOutput (outputsOf m') o).isSome) :
    heightsOf m' o.hash = heightsOf m o.hash := by
  obtain ⟨t, ht⟩ := isSome_iff_exists.mp ho
  obtain ⟨c', hc', -⟩ := unspentOutput_eq_some.mp ht
  obtain ⟨c, hc, heq⟩ := h c' hc'
  simp [heightsOf, hc, hc', heq]

theorem spendInput_undo {i : CTxIn} {u : CTxInUndo}
    (h : (spendInput i).Outcome coinsSpec m (.ok u, m')) :
    unspentOutput (outputsOf m) i.prevout = some u.txout ∧
      u.nHeight = (if outputsOf m' i.prevout.hash = [] then heightsOf m i.prevout.hash else 0) ∧
      ∀ x, HeightKept m m' x := by
  have houts := congrFun (spendInput_outputs h) i.prevout.hash
  obtain ⟨c, hc, ha, rfl, rfl⟩ := spendInput_ok h
  have hspend : (c.spend i.prevout.n).2
      = ({ c with vout := c.vout.set i.prevout.n CTxOut.null } : CCoins).cleanup := by
    rw [CCoins.spend, if_pos ha]
  have hleft : outputsOf (update m i.prevout.hash
      (c.spend i.prevout.n).2.cleanup.present) i.prevout.hash = (c.spend i.prevout.n).2.vout := by
    rw [houts, hspend]
    simp [spendOutput, outputsOf, hc, CCoins.cleanup]
  refine ⟨unspentOutput_eq_some.mpr ⟨c, hc, ha, ?_⟩, ?_, fun x d hd => ?_⟩
  · unfold CTxInUndo.ofSpend
    split <;> rfl
  · rw [hleft]
    unfold CTxInUndo.ofSpend
    split <;> simp [heightsOf, hc]
  · by_cases hxi : x = i.prevout.hash
    · subst hxi
      refine ⟨c, hc, ?_⟩
      rw [update_self, CCoins.present] at hd
      split at hd
      · exact absurd hd (by simp)
      · rw [← some.inj hd, hspend]
        rfl
    · rw [update_of_ne hxi] at hd
      exact ⟨d, hd, rfl⟩

variable {tx : CTransaction}

theorem spendInputs_undo {us : List CTxInUndo}
    (h : (spendInputs tx).Outcome coinsSpec m (.ok us, m')) :
    us.map (fun u => (u.txout, u.nHeight)) = tx.spends.map (undoOf m tx.spends) ∧
      (∀ o ∈ tx.spends, (unspentOutput (outputsOf m) o).isSome) ∧ ∀ x, HeightKept m m' x := by
  have hloop : ∀ (is : List CTxIn) {m : UInt256 → Option CCoins} {us : List CTxInUndo},
      (is.mapM spendInput).Outcome coinsSpec m (.ok us, m') →
      us.map (fun u => (u.txout, u.nHeight))
          = (is.map CTxIn.prevout).map (undoOf m (is.map CTxIn.prevout)) ∧
        ∀ x, HeightKept m m' x := by
    intro is
    induction is with
    | nil =>
      intro m us h
      obtain ⟨rfl, rfl⟩ := h
      exact ⟨rfl, fun _ c hc => ⟨c, hc, rfl⟩⟩
    | cons i is ih =>
      intro m us h
      rw [mapM_cons] at h
      simp only [outcome_bind_ok, outcome_pure_ok] at h
      obtain ⟨u, m₁, hspend, us', _, hrest, rfl, rfl⟩ := h
      obtain ⟨hus, hkept⟩ := ih hrest
      obtain ⟨hout, hheight, hkept₁⟩ := spendInput_undo hspend
      have hU := spendInput_outputs hspend
      refine ⟨?_, fun x c' hc' => ?_⟩
      · rw [map_cons, hus, map_cons, map_cons]
        refine congrArg₂ cons ?_ (map_congr_left fun o ho => ?_)
        · simp [undoOf, hout, hheight, undoHeight, spentBefore, hU]
        · -- the outputs of the other inputs are still there after the first
          obtain ⟨j, hj, rfl⟩ := mem_map.mp ho
          have hsome := (Runs.spendInputs hrest rfl).2 j hj
          have hne : j.prevout ≠ i.prevout := by
            intro heq
            rw [hU, unspentOutput_spendOutput, if_pos heq] at hsome
            exact absurd hsome (by simp)
          have hbefore : spentBefore (i.prevout :: is.map CTxIn.prevout) j.prevout
              = i.prevout :: spentBefore (is.map CTxIn.prevout) j.prevout := by
            simp [spentBefore, Ne.symm hne]
          rw [undoOf, undoOf, undoHeight, undoHeight, hbefore, foldl_cons, ← hU,
            (hkept₁ _).heightsOf_eq hsome]
          rw [hU, unspentOutput_spendOutput, if_neg hne]
      · obtain ⟨c₁, hc₁, heq⟩ := hkept x c' hc'
        obtain ⟨c, hc, heq₁⟩ := hkept₁ x c₁ hc₁
        exact ⟨c, hc, heq.trans heq₁⟩
  unfold spendInputs at h
  unfold CTransaction.spends
  split at h
  · next hmint =>
      obtain ⟨rfl, rfl⟩ := outcome_pure_ok.mp h
      rw [if_pos hmint]
      exact ⟨rfl, by simp, fun _ c hc => ⟨c, hc, rfl⟩⟩
  · next hmint =>
      rw [if_neg hmint]
      obtain ⟨hus, hkept⟩ := hloop tx.vin h
      refine ⟨hus, fun o ho => ?_, hkept⟩
      obtain ⟨i, hi, rfl⟩ := mem_map.mp ho
      exact (Runs.spendInputs h rfl).2 i hi

/-! ### The outputs that are restored -/

def Connected (nHeight : Nat) (m : UInt256 → Option CCoins) :
    List CTransaction → List CTxUndo → Prop
  | [], undos => undos = []
  | tx :: txs, undos => ∃ undo rest m₁, undos = undo :: rest ∧
      (updateCoins tx nHeight).Outcome coinsSpec m (.ok undo, m₁) ∧
      Connected nHeight m₁ txs rest

theorem applyTxInUndo_outputs {u : CTxInUndo} {i : CTxIn} {clean : Bool}
    (hu : u.txout.isNull = false)
    (h : (applyTxInUndo u i.prevout).Outcome coinsSpec m (.ok clean, m')) :
    unspentOutput (outputsOf m') i.prevout = some u.txout := by
  simp only [applyTxInUndo, outcome_bind_ok, outcome_pure_ok] at h
  obtain ⟨_, _, hmod, -, rfl⟩ := h
  rw [ViewProg.modifyCoins, ViewProg.call, outcome_op] at hmod
  obtain ⟨c, -, hres⟩ := hmod
  obtain ⟨-, rfl⟩ := Prod.mk.inj hres
  have hput : ((u.revive c).putOutput i.prevout.n u.txout).vout[i.prevout.n]? = some u.txout := by
    rw [CCoins.putOutput, getElem?_set_self]
    simp only [length_append, length_replicate]
    omega
  rw [outputsOf_update, outputs_cleanup, unspentOutput, update_self]
  rcases CCoins.getElem?_rdropWhile ((u.revive c).putOutput i.prevout.n u.txout).vout
    i.prevout.n with hk | ⟨-, hnull⟩
  · rw [hk, hput, filter_some_pos (by simp [hu])]
  · exact absurd (hnull _ hput) (by simp [hu])

theorem readRestoredInputs_outputs {us : List CTxInUndo} (hus : ∀ u ∈ us, u.txout.isNull = false)
    (is : List CTxIn) (m : UInt256 → Option CCoins) :
    (readRestoredInputs (us.zip is)).Ensures coinsUpdateSpec m fun restored _ =>
      restored = (us.zip is).map fun p => (p.1, p.1.txout) := by
  induction us generalizing is m with
  | nil => exact ensures_pure rfl
  | cons u us ih =>
    obtain ⟨hu, hus⟩ := forall_mem_cons.mp hus
    cases is with
    | nil => exact ensures_pure rfl
    | cons i is =>
      refine ensures_bind (ih hus is m) ?_
      rintro _ m₁ rfl
      have happly : Runs (applyTxInUndo u i.prevout) m₁ :=
        (Runs.modifyCoins _ _).bind fun _ _ _ => Runs.pure _
      refine ensures_bind happly fun clean m₂ h₂ => ?_
      have hthere := applyTxInUndo_outputs hu h₂
      refine ensures_bind (Runs.getOutputFor (by rw [hthere]; rfl)) fun t m₃ h₃ => ?_
      have ht : some t = some u.txout := by
        rw [← getOutputFor_coins h₃, ← unspentOutput_outputsOf, hthere]
      rw [some.inj ht]
      exact ensures_pure rfl

/-- A transaction's restored outputs, with undo data. -/
def CTxUndo.restored (undo : CTxUndo) : List (CTxInUndo × CTxOut) :=
  undo.vprevout.map fun u => (u, u.txout)

variable {nHeight : Nat}

theorem updateCoins_undo {undo : CTxUndo}
    (h : (updateCoins tx nHeight).Outcome coinsSpec m (.ok undo, m')) :
    undo.vprevout.length = tx.spends.length ∧ ∀ u ∈ undo.vprevout, u.txout.isNull = false := by
  obtain ⟨m₁, hspend, -⟩ := updateCoins_coins h
  obtain ⟨hundo, hsome, -⟩ := spendInputs_undo hspend
  refine ⟨by simpa using congrArg length hundo, fun u hu => ?_⟩
  have hmem :=
    hundo ▸ mem_map_of_mem hu
  obtain ⟨o, ho, heq⟩ := mem_map.mp hmem
  obtain ⟨t, ht⟩ := isSome_iff_exists.mp (hsome o ho)
  have htu : t = u.txout := by simpa [undoOf, ht] using congrArg Prod.fst heq
  have hfilter := (filter_eq_some_iff.mp ht).2
  rw [← htu]
  simpa using hfilter

theorem readRestored_cons {undo : CTxUndo}
    (h : (updateCoins tx nHeight).Outcome coinsSpec m (.ok undo, m'))
    {txundo : Option CTxUndo} (hundo : tx.isMint = false → txundo = some undo)
    {rest : List (CTransaction × Option CTxUndo)} {seen : List (List (CTxInUndo × CTxOut))}
    {m₀ : UInt256 → Option CCoins}
    (hrest : (readRestored rest).Ensures coinsUpdateSpec m₀ fun restored _ => restored = seen) :
    (readRestored ((tx, txundo) :: rest)).Ensures coinsUpdateSpec m₀ fun restored _ =>
      restored = undo.restored :: seen := by
  obtain ⟨hlen, hnull⟩ := updateCoins_undo h
  refine ensures_bind hrest ?_
  rintro _ m₁ rfl
  refine ensures_bind (Runs.modifyCoins _ _) fun _ m₂ _ => ?_
  refine ensures_bind (Runs.setNullifiers _ _) fun _ m₃ _ => ?_
  refine ensures_bind (Runs.setZkProofHashes _ _) fun _ m₄ _ => ?_
  have hinputs : (readRestoredTx tx txundo).Ensures coinsUpdateSpec m₄ fun restored _ =>
      restored = undo.restored := by
    unfold readRestoredTx undoInputs
    unfold CTransaction.spends at hlen
    cases hmint : tx.isMint with
    | false =>
      simp only [hmint, Bool.not_false, Bool.false_eq_true, if_true, if_false, hundo hmint,
        length_map] at hlen ⊢
      refine ensures_lift_bind rfl (ensures_lift_bind (a := ()) ?_ ?_)
      · exact rejectIf_eq_ok.mpr (by simp [hlen])
      · have hread := readRestoredInputs_outputs hnull tx.vin m₄
        have hzip : (undo.vprevout.zip tx.vin).map Prod.fst = undo.vprevout :=
          map_fst_zip (by rw [hlen])
        have hfst : (undo.vprevout.zip tx.vin).map (fun p => (p.1, p.1.txout)) = undo.restored := by
          conv_rhs => rw [CTxUndo.restored, ← hzip, List.map_map]
          rfl
        rwa [hfst] at hread
    | true =>
      simp only [hmint, if_true, length_nil, length_eq_zero_iff] at hlen
      simp only [Bool.not_true, Bool.false_eq_true, if_false, CTxUndo.restored, hlen]
      split
      · exact ensures_bind (Runs.modifyCoins _ _) fun _ _ _ => ensures_pure rfl
      · exact ensures_pure rfl
  refine ensures_bind hinputs ?_
  rintro _ m₅ rfl
  exact ensures_pure rfl

theorem readRestored_outputs {txs : List CTransaction} {undos : List CTxUndo}
    (h : Connected nHeight m txs undos) (m₀ : UInt256 → Option CCoins) :
    (readRestored (txs.zip (undos.map some))).Ensures coinsUpdateSpec m₀ fun restored _ =>
      restored = undos.map CTxUndo.restored := by
  induction txs generalizing m undos with
  | nil =>
    obtain rfl : undos = [] := h
    exact ensures_pure rfl
  | cons tx txs ih =>
    obtain ⟨undo, rest, m₁, rfl, hupdate, hrest⟩ := h
    exact readRestored_cons hupdate (fun _ => rfl) (ih hrest)

end

end Elosys
