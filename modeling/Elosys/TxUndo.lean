import Elosys.CoinsUndo
import Elosys.PlainView
import Elosys.SpendOnce

/-!
# Undoing Transactions

On plain coins every step of `DisconnectBlock` takes back the matching step of `UpdateCoins`, also
when outputs are spent within the block. The exception is the tombstone of a coin import: added to
whatever coins are there, it is taken back by clearing them.
-/

open LayerStack Program List Function Bool

namespace Elosys

open CacheView CoinsColumn View

/-! ### Coins besides some identifiers -/

/-- The coins `m`, but for listed identifiers, with coins `a`. -/
def overlay (ids : List UInt256) (a m : UInt256 → Option CCoins) : UInt256 → Option CCoins :=
  fun x => if x ∈ ids then a x else m x

section

variable {ids : List UInt256} {a m : UInt256 → Option CCoins} {x : UInt256}

theorem overlay_of_not_mem (h : x ∉ ids) : overlay ids a m x = m x := if_neg h

theorem update_overlay (h : x ∉ ids) (r : Option CCoins) :
    update (overlay ids a m) x r = overlay ids a (update m x r) := by
  funext y
  by_cases hy : y = x
  · subst hy
    rw [update_self, overlay_of_not_mem h, update_self]
  · simp [overlay, update_of_ne hy]

theorem update_overlay_of_mem (h : x ∈ ids) (r : Option CCoins) :
    update (overlay ids a m) x r = overlay ids (update a x r) m := by
  funext y
  by_cases hy : y = x
  · subst hy
    simp [overlay, h]
  · simp [overlay, update_of_ne hy]

theorem overlay_update_of_mem (h : x ∈ ids) (r : Option CCoins) :
    overlay ids a (update m x r) = overlay ids a m := by
  funext y
  by_cases hy : y ∈ ids
  · simp [overlay, hy]
  · have hne : y ≠ x := fun hyx => hy (hyx ▸ h)
    simp [overlay, hy, update_of_ne hne]

end

/-- The coins are clean, and such as blocks create. -/
def Stored (m : UInt256 → Option CCoins) : Prop :=
  ∀ x c, m x = some c → c.Clean ∧ c.Storable

theorem Stored.update {m : UInt256 → Option CCoins} (h : Stored m) (x : UInt256) {c : CCoins}
    (hc : c.isPruned = false → c.Storable) : Stored (update m x c.cleanup.present) := by
  intro y d hd
  by_cases hy : y = x
  · subst hy
    rw [update_self] at hd
    cases hp : c.isPruned with
    | true =>
      rw [CCoins.present_of_isPruned (by rw [CCoins.isPruned_cleanup, hp])] at hd
      exact absurd hd (by simp)
    | false =>
      rw [CCoins.present_of_not_isPruned (by rw [CCoins.isPruned_cleanup, hp])] at hd
      obtain rfl := Option.some.inj hd
      exact ⟨c.clean_cleanup, (hc hp).cleanup⟩
  · rw [update_of_ne hy] at hd
    exact h y d hd

section

variable [NoteTrees]

variable {ids : List UInt256} {a m m' : UInt256 → Option CCoins}

theorem spendInput_stored {i : CTxIn} {u : CTxInUndo} (hm : Stored m)
    (h : (spendInput i).Outcome coinsSpec m (.ok u, m')) :
    Stored m' ∧ u.Encodable ∧ ∀ x, m x = none → m' x = none := by
  obtain ⟨c, hc, ha, rfl, rfl⟩ := spendInput_ok h
  obtain ⟨hclean, hs⟩ := hm _ c hc
  refine ⟨hm.update _ fun _ => hs.spend _, CTxInUndo.encodable_ofSpend hs ha, fun x hx => ?_⟩
  have hne : x ≠ i.prevout.hash := by
    rintro rfl
    rw [hc] at hx
    exact absurd hx (by simp)
  rw [update_of_ne hne, hx]

variable {us : List CTxInUndo}

theorem spendInputs_stored {is : List CTxIn} (hm : Stored m)
    (h : (is.mapM spendInput).Outcome coinsSpec m (.ok us, m')) :
    Stored m' ∧ us.length = is.length ∧ (∀ u ∈ us, u.Encodable) ∧
      ∀ x, m x = none → m' x = none := by
  induction is generalizing m us with
  | nil =>
    obtain ⟨rfl, rfl⟩ := h
    exact ⟨hm, rfl, by simp, fun _ hx => hx⟩
  | cons i is ih =>
    rw [mapM_cons] at h
    simp only [outcome_bind_ok, outcome_pure_ok] at h
    obtain ⟨u, m₁, hspend, us', _, hrest, rfl, rfl⟩ := h
    obtain ⟨hm₁, hu, hnone⟩ := spendInput_stored hm hspend
    obtain ⟨hm', hlen, hus, hnone'⟩ := ih hm₁ hrest
    exact ⟨hm', by simp [hlen], forall_mem_cons.mpr ⟨hu, hus⟩, fun x hx => hnone' x (hnone x hx)⟩

variable {s : PlainView}

theorem applyTxInUndo_undoes {i : CTxIn} {u : CTxInUndo} (hm : Stored m)
    (hids : i.prevout.hash ∉ ids) (h : (spendInput i).Outcome coinsSpec m (.ok u, m'))
    (hs : s.coins = overlay ids a m') :
    (applyTxInUndo u i.prevout).Ensures plainSpec s fun clean s' =>
      clean = true ∧ s' = { s with coins := overlay ids a m } := by
  obtain ⟨c, hc, ha, rfl, rfl⟩ := spendInput_ok h
  obtain ⟨hclean, hstore⟩ := hm _ c hc
  refine ensures_bind (ensures_modifyCoins s _ _) ?_
  rintro c' s' ⟨hshows, rfl⟩
  rw [hs, overlay_of_not_mem hids, update_self] at hshows
  obtain ⟨hfits, hback⟩ := CTxInUndo.restores hclean hstore ha hshows
  refine ensures_pure ⟨hfits, ?_⟩
  rw [hs, update_overlay hids, update_idem, hback, ← hc, update_eq_self]

theorem restoreInputs_undoes {is : List CTxIn} (hm : Stored m)
    (hids : ∀ i ∈ is, i.prevout.hash ∉ ids)
    (h : (is.mapM spendInput).Outcome coinsSpec m (.ok us, m'))
    (hs : s.coins = overlay ids a m') :
    (restoreInputs (us.zip is)).Ensures plainSpec s fun clean s' =>
      clean = true ∧ s' = { s with coins := overlay ids a m } := by
  induction is generalizing m us with
  | nil =>
    obtain ⟨rfl, rfl⟩ := h
    exact ensures_pure ⟨rfl, by rw [← hs]⟩
  | cons i is ih =>
    rw [mapM_cons] at h
    simp only [outcome_bind_ok, outcome_pure_ok] at h
    obtain ⟨u, m₁, hspend, us', _, hrest, rfl, rfl⟩ := h
    obtain ⟨hi, hids⟩ := forall_mem_cons.mp hids
    obtain ⟨hm₁, -, -⟩ := spendInput_stored hm hspend
    refine ensures_bind (ih hm₁ hids hrest) ?_
    rintro _ s₁ ⟨rfl, rfl⟩
    refine ensures_bind (applyTxInUndo_undoes hm hi hspend rfl) ?_
    rintro _ s₂ ⟨rfl, rfl⟩
    exact ensures_pure ⟨rfl, rfl⟩

/-! ### One transaction -/

variable {tx : CTransaction} {nHeight : Nat} {undo : CTxUndo}

theorem updateCoins_coins (h : (updateCoins tx nHeight).Outcome coinsSpec m (.ok undo, m')) :
    ∃ m₁, (spendInputs tx).Outcome coinsSpec m (.ok undo.vprevout, m₁) ∧ if tx.isCoinImport then
        ∃ c, Shows (update m₁ tx.hash (CCoins.fromTx tx nHeight).present tx.burnTxid) c ∧
          m' = update (update m₁ tx.hash (CCoins.fromTx tx nHeight).present) tx.burnTxid
            (addImportTombstone nHeight c).cleanup.present
      else m' = update m₁ tx.hash (CCoins.fromTx tx nHeight).present := by
  obtain ⟨m₁, m₂, m₃, coins, m₄, hspend, hnf, hzk, hcoins, hmark⟩ := updateCoins_ok h
  obtain rfl : m₂ = m₁ := coins_part.of_call hnf (by simp [ViewOp.part])
  obtain rfl : m₃ = m₂ := coins_part.of_call hzk (by simp [ViewOp.part])
  refine ⟨m₃, hspend, ?_⟩
  rw [ViewProg.modifyCoins, ViewProg.call, outcome_op] at hcoins
  obtain ⟨c, -, hres⟩ := hcoins
  obtain rfl : m₄ = update m₃ tx.hash (CCoins.fromTx tx nHeight).cleanup.present :=
    congrArg Prod.snd hres
  rw [show (CCoins.fromTx tx nHeight).cleanup = _ from CCoins.clean_fromTx tx nHeight] at hmark
  unfold markImport at hmark
  by_cases himport : tx.isCoinImport = true
  · simp only [himport, if_true, outcome_bind_ok, outcome_pure_ok] at hmark ⊢
    obtain ⟨_, _, hmod, -, rfl⟩ := hmark
    rw [ViewProg.modifyCoins, ViewProg.call, outcome_op] at hmod
    obtain ⟨c, hshows, hres⟩ := hmod
    exact ⟨c, hshows, congrArg Prod.snd hres⟩
  · simp only [himport] at hmark ⊢
    exact (outcome_pure_ok.mp hmark).2

theorem spendInputs_coins (hm : Stored m) (h : (spendInputs tx).Outcome coinsSpec m (.ok us, m')) :
    Stored m' ∧ (∀ u ∈ us, u.Encodable) ∧ us.length ≤ tx.vin.length ∧
      ∀ x, m x = none → m' x = none := by
  unfold spendInputs at h
  split at h
  · obtain ⟨rfl, rfl⟩ := outcome_pure_ok.mp h
    exact ⟨hm, by simp, by simp, fun _ hx => hx⟩
  · obtain ⟨hm', hlen, hus, hnone⟩ := spendInputs_stored hm h
    exact ⟨hm', hus, by omega, hnone⟩

theorem updateCoins_stored
    (hm : Stored m) (htx : tx.Storable) (h0 : 0 < nHeight) (hlt : nHeight < 2 ^ 31)
    (h : (updateCoins tx nHeight).Outcome coinsSpec m (.ok undo, m')) :
    Stored m' ∧ (∀ u ∈ undo.vprevout, u.Encodable) ∧ undo.vprevout.length ≤ tx.vin.length ∧
      ∀ x, x ≠ tx.hash → (tx.isCoinImport = true → x ≠ tx.burnTxid) → m x = none → m' x = none := by
  obtain ⟨m₁, hspend, hrest⟩ := updateCoins_coins h
  obtain ⟨hm₁, hus, hlen, hnone⟩ := spendInputs_coins hm hspend
  have hm₂ : Stored (update m₁ tx.hash (CCoins.fromTx tx nHeight).present) := by
    have hown := hm₁.update tx.hash fun _ => CCoins.storable_fromTx htx h0 hlt
    rwa [show (CCoins.fromTx tx nHeight).cleanup = _ from CCoins.clean_fromTx tx nHeight]
      at hown
  by_cases himport : tx.isCoinImport = true
  · simp only [himport, if_true] at hrest
    obtain ⟨c, hshows, rfl⟩ := hrest
    refine ⟨hm₂.update _ fun _ => ?_, hus, hlen, fun x hx hburn hnx => ?_⟩
    · refine CCoins.storable_addImportTombstone h0 hlt ?_
      cases hold : update m₁ tx.hash (CCoins.fromTx tx nHeight).present tx.burnTxid with
      | none =>
        rw [hold] at hshows
        exact .inr hshows
      | some d =>
        rw [hold] at hshows
        obtain rfl : c = d := hshows
        exact .inl (hm₂ _ _ hold).2
    · rw [update_of_ne (hburn himport), update_of_ne hx]
      exact hnone x hnx
  · simp only [himport] at hrest
    subst hrest
    refine ⟨hm₂, hus, hlen, fun x hx _ hnx => ?_⟩
    rw [update_of_ne hx]
    exact hnone x hnx

/-- The identifiers of a transaction stay clear of those of burn transactions, its own redeemed
one included. -/
structure ClearOf (ids : List UInt256) (tx : CTransaction) : Prop where
  own : tx.hash ∉ ids
  inputs : tx.isMint = false → ∀ i ∈ tx.vin, i.prevout.hash ∉ ids
  burn : tx.isCoinImport = true → tx.burnTxid ∈ ids

/-- What is left above when a transaction's tombstone goes. -/
def clearBurn (tx : CTransaction) (a : UInt256 → Option CCoins) : UInt256 → Option CCoins :=
  if tx.isCoinImport then update a tx.burnTxid none else a

theorem overlay_updateCoins (hclear : ClearOf ids tx)
    (h : (updateCoins tx nHeight).Outcome coinsSpec m (.ok undo, m')) :
    ∃ m₁, (spendInputs tx).Outcome coinsSpec m (.ok undo.vprevout, m₁) ∧ overlay ids a m'
        = overlay ids a (update m₁ tx.hash (CCoins.fromTx tx nHeight).present) := by
  obtain ⟨m₁, hspend, hrest⟩ := updateCoins_coins h
  refine ⟨m₁, hspend, ?_⟩
  by_cases himport : tx.isCoinImport = true
  · simp only [himport, if_true] at hrest
    obtain ⟨c, -, rfl⟩ := hrest
    exact overlay_update_of_mem (hclear.burn himport) _
  · simp only [himport] at hrest
    rw [hrest]

theorem disconnectInputs_undoes (hm : Stored m) (hclear : ClearOf ids tx)
    (h : (spendInputs tx).Outcome coinsSpec m (.ok undo.vprevout, m'))
    {txundo : Option CTxUndo} (hundo : tx.isMint = false → txundo = some undo)
    (hs : s.coins = overlay ids a m') :
    (disconnectInputs tx txundo).Ensures plainSpec s fun clean s' =>
      clean = true ∧ s' = { s with coins := overlay ids (clearBurn tx a) m } := by
  cases hmint : tx.isMint with
  | false =>
    have himport : tx.isCoinImport = false := by
      rw [CTransaction.isMint, or_eq_false_iff] at hmint
      exact hmint.1
    simp only [spendInputs, hmint, false_eq_true, if_false] at h
    obtain ⟨-, hlen, -, -⟩ := spendInputs_stored hm h
    simp only [disconnectInputs, undoInputs, hmint, Bool.not_false, if_true, hundo hmint, clearBurn,
      himport, Bool.false_eq_true, if_false]
    refine ensures_lift_bind rfl (ensures_lift_bind (a := ()) ?_ ?_)
    · exact rejectIf_eq_ok.mpr (by simp [hlen])
    · exact restoreInputs_undoes hm (hclear.inputs hmint) h hs
  | true =>
    simp only [spendInputs, hmint, if_true, outcome_pure_ok] at h
    obtain ⟨-, rfl⟩ := h
    simp only [disconnectInputs, undoInputs, hmint, Bool.not_true, Bool.false_eq_true, if_false]
    by_cases himport : tx.isCoinImport = true
    · simp only [himport, if_true, clearBurn]
      refine ensures_bind (ensures_modifyCoins s _ _) ?_
      rintro c s₁ ⟨-, rfl⟩
      refine ensures_pure ⟨rfl, ?_⟩
      rw [hs, update_overlay_of_mem (hclear.burn himport)]
      rfl
    · simp only [himport, false_eq_true, if_false, clearBurn]
      exact ensures_pure ⟨rfl, by rw [← hs]⟩

/-- **Disconnecting a transaction** undoes connecting it, if there were no coins under its hash;
it is clean and forgets the nullifiers. -/
theorem disconnectTx_undoes (hm : Stored m) (hclear : ClearOf ids tx) (hnew : m tx.hash = none)
    (h : (updateCoins tx nHeight).Outcome coinsSpec m (.ok undo, m'))
    {txundo : Option CTxUndo} (hundo : tx.isMint = false → txundo = some undo)
    (hs : s.coins = overlay ids a m') :
    (disconnectTx nHeight tx txundo).Ensures plainSpec s fun clean s' =>
      clean = true ∧ s' = { s with
        coins := overlay ids (clearBurn tx a) m
        nullifiers := fun set => setAll (nullifiersOf tx set) false (s.nullifiers set) } := by
  obtain ⟨m₁, hspend, heq⟩ := overlay_updateCoins (a := a) hclear h
  have hnew₁ : m₁ tx.hash = none := (spendInputs_coins hm hspend).2.2.2 _ hnew
  rw [heq] at hs
  refine ensures_bind (ensures_modifyCoins s _ _) ?_
  rintro outs s₁ ⟨hshows, rfl⟩
  rw [hs, overlay_of_not_mem hclear.own, update_self] at hshows
  refine ensures_bind (ensures_setNullifiers _ tx false) ?_
  rintro _ s₂ rfl
  refine ensures_bind (ensures_setZkProofHashes _ tx false) ?_
  rintro _ s₃ rfl
  have hcoins : update s.coins tx.hash CCoins.clear.cleanup.present = overlay ids a m₁ := by
    rw [hs, update_overlay hclear.own, update_idem]
    conv_rhs => rw [← update_eq_self tx.hash m₁, hnew₁]
    rfl
  refine ensures_bind (disconnectInputs_undoes hm hclear hspend hundo hcoins) ?_
  rintro _ s₄ ⟨rfl, rfl⟩
  exact ensures_pure ⟨by rw [matchesBlock_of_shows hshows]; rfl, rfl⟩

/-! ### The transactions of a block -/

/-- The burn hashes that coin imports redeem. -/
def burnTxids (txs : List CTransaction) : List UInt256 :=
  (txs.filter CTransaction.isCoinImport).map CTransaction.burnTxid

/-- What is left above when all tombstones go. -/
def clearBurns (txs : List CTransaction) (a : UInt256 → Option CCoins) :
    UInt256 → Option CCoins :=
  txs.foldr clearBurn a

variable {txs : List CTransaction}

omit [NoteTrees] in
theorem clearBurns_of_mem {x : UInt256} (hx : x ∈ burnTxids txs) : clearBurns txs a x = none := by
  induction txs with
  | nil => exact absurd hx (by simp [burnTxids])
  | cons tx txs ih =>
    change clearBurn tx (clearBurns txs a) x = none
    unfold clearBurn
    by_cases himport : tx.isCoinImport = true
    · rw [if_pos himport]
      by_cases hxb : x = tx.burnTxid
      · rw [hxb, update_self]
      · rw [update_of_ne hxb]
        refine ih ?_
        simpa [burnTxids, himport, hxb] using hx
    · rw [if_neg himport]
      exact ih (by simpa [burnTxids, himport] using hx)

omit [NoteTrees] in
theorem Checked.storable {c : ConsensusParams} {valueout : CAmount}
    (hc : Checked c tx) (hversion : tx.nVersion < 2 ^ 31)
    (hvalue : tx.getValueOut c.maxMoney = .ok valueout)
    (hbig : komodoValuetoobig valueout = false) : tx.Storable := by
  obtain ⟨-, hpos, hnn⟩ := getValueOut_ok hvalue
  have hlimit : valueout.toInt ≤ valueLimit := by
    have hbits := toNat_toUInt64 hpos
    have hle : valueout.toUInt64.toNat ≤ 10000000001 * 100000000 := by
      simp only [komodoValuetoobig, decide_eq_false_iff_not, UInt64.not_lt] at hbig
      exact UInt64.le_iff_toNat_le.mp hbig
    simp only [valueLimit]
    omega
  refine ⟨fun o ho => ⟨hnn o ho, (nValue_le_getValueOut hvalue o ho).trans hlimit⟩, ?_, hversion⟩
  obtain ⟨_, _, _, _, _, -, -, hfree⟩ := hc
  have hv := hfree.version
  unfold checkVersion at hv
  split at hv
  · have hlow := rejectIf_eq_ok.mp hv
    simp only [decide_eq_false_iff_not] at hlow
    omega
  · simp only [bind_eq_ok, rejectIf_eq_ok, exists_const, decide_eq_false_iff_not] at hv
    omega

/-- The loop's tree of one kind. -/
def ConnectState.tree (st : ConnectState) : (t : ShieldedType) → Tree t
  | .sprout => st.sproutTree
  | .sapling => st.saplingTree
  | .saplingFrontier => st.frontierTree

omit [NoteTrees] in
theorem Checked.size_le {c : ConsensusParams} (hc : Checked c tx) :
    c.serializeSize tx ≤ maxSize := by
  obtain ⟨params, _, _, _, _, -, hsize, hfree⟩ := hc
  rw [← hsize]
  exact hfree.size.trans (by decide)

/-- What undoing a block's transactions needs, besides coins `ids`. -/
structure Undoable (c : ConsensusParams) (ids : List UInt256) (m : UInt256 → Option CCoins)
    (txs : List CTransaction) : Prop where
  checked : ∀ tx ∈ txs, Checked c tx ∧ tx.nVersion < 2 ^ 31
  clear : ∀ tx ∈ txs, ClearOf ids tx
  distinct : (txs.map CTransaction.hash).Nodup
  new : ∀ tx ∈ txs, m tx.hash = none

section

variable [CryptoHash] {c : ConsensusParams} {pindex : CBlockIndex}

variable {st st' : ConnectState}

theorem connectFees_kept {σ : Type} {spec : Spec viewSig Fault σ} {s s' : σ} {valueout : CAmount}
    (h : (connectFees c pindex st tx valueout).Outcome spec s (.ok st', s')) :
    st'.vtxundo = st.vtxundo ∧ ∀ t, st'.tree t = st.tree t := by
  unfold connectFees at h
  split at h
  · obtain ⟨rfl, -⟩ := outcome_pure_ok.mp h
    exact ⟨rfl, fun _ => rfl⟩
  · simp only [outcome_bind_ok, outcome_pure_ok] at h
    obtain ⟨_, _, -, _, _, -, rfl, -⟩ := h
    exact ⟨rfl, fun t => by cases t <;> rfl⟩

theorem connectTx_coins {i : Nat} (hc : Checked c tx ∧ tx.nVersion < 2 ^ 31)
    (h : (connectTx c pindex i st tx).Outcome coinsSpec m (.ok st', m')) :
    ∃ undo, tx.Storable ∧ (updateCoins tx pindex.nHeight).Outcome coinsSpec m (.ok undo, m') ∧
      st'.vtxundo = if i = 0 then st.vtxundo else st.vtxundo ++ [undo] := by
  obtain ⟨_, m₁, valueout, st₁, m₂, undo, hspends, hvalue, hbig, hfees, hupdate, hnotes⟩ :=
    connectTx_ok h
  obtain rfl := coins_part.of_read (by decide) (uses_checkSpends c _ tx) hspends
  have hkept := (connectFees_kept hfees).1
  obtain rfl := coins_part.of_read (by decide) (uses_connectFees c pindex _ tx _) hfees
  refine ⟨undo, hc.1.storable hc.2 hvalue hbig, hupdate, ?_⟩
  rw [(appendNotes_ok hnotes).2.2, hkept]

omit [CryptoHash] in
theorem Undoable.step (h : Undoable c ids m (tx :: txs)) (hm : Stored m) (htx : tx.Storable)
    (h0 : 0 < pindex.nHeight) (hlt : pindex.nHeight < 2 ^ 31)
    (hupdate : (updateCoins tx pindex.nHeight).Outcome coinsSpec m (.ok undo, m')) :
    Undoable c ids m' txs := by
  obtain ⟨-, -, -, hnone⟩ := updateCoins_stored hm htx h0 hlt hupdate
  obtain ⟨hnot, hdistinct⟩ := nodup_cons.mp h.distinct
  refine ⟨fun t ht => h.checked t (.tail _ ht), fun t ht => h.clear t (.tail _ ht), hdistinct,
    fun t ht => hnone _ ?_ (fun himport => ?_) (h.new t (.tail _ ht))⟩
  · rintro heq
    exact hnot (heq ▸ mem_map_of_mem ht)
  · rintro heq
    exact (h.clear t (.tail _ ht)).own (heq ▸ (h.clear tx (.head _)).burn himport)

/-- A transaction's undo data, within its format. -/
def CTxUndo.FitsIn (undo : CTxUndo) (txs : List CTransaction) : Prop :=
  (∀ r ∈ undo.vprevout, r.Encodable) ∧ ∃ tx ∈ txs, undo.vprevout.length ≤ tx.vin.length

theorem disconnectTxs_undoes {i : Nat}
    (hm : Stored m) (hok : Undoable c ids m txs) (h0 : 0 < pindex.nHeight)
    (hlt : pindex.nHeight < 2 ^ 31) (hi : i ≠ 0)
    (h : (connectTxs c pindex i st txs).Outcome coinsSpec m (.ok st', m')) :
    ∃ undos : List CTxUndo, st'.vtxundo = st.vtxundo ++ undos ∧
      undos.length = txs.length ∧ (∀ u ∈ undos, u.FitsIn txs) ∧
      ∀ s : PlainView, s.coins = overlay ids a m' →
        (disconnectTxs pindex.nHeight (txs.zip (undos.map some))).Ensures plainSpec s
          fun clean s' => clean = true ∧ s'.coins = overlay ids (clearBurns txs a) m ∧
            s'.anchors = s.anchors ∧ s'.bestBlock = s.bestBlock := by
  induction txs generalizing i st m with
  | nil =>
    obtain ⟨rfl, rfl⟩ := outcome_pure_ok.mp h
    exact ⟨[], by simp, rfl, by simp, fun s hs => ensures_pure ⟨rfl, hs, rfl, rfl⟩⟩
  | cons tx txs ih =>
    obtain ⟨st₁, m₁, htx, hrest⟩ := outcome_bind_ok.mp h
    obtain ⟨undo, hstor, hupdate, hundo⟩ := connectTx_coins (hok.checked tx (.head _)) htx
    obtain ⟨hm₁, henc, hlen, -⟩ := updateCoins_stored hm hstor h0 hlt hupdate
    obtain ⟨undos, hundos, hcount, hfits, hback⟩ :=
      ih hm₁ (hok.step hm hstor h0 hlt hupdate) (by omega) hrest
    refine ⟨undo :: undos, ?_, by simp [hcount], ?_, fun s hs => ?_⟩
    · rw [hundos, hundo, if_neg hi, append_assoc]
      rfl
    · refine forall_mem_cons.mpr ⟨⟨henc, tx, .head _, hlen⟩, fun u hu => ?_⟩
      obtain ⟨hu, t, ht, hle⟩ := hfits u hu
      exact ⟨hu, t, .tail _ ht, hle⟩
    · refine ensures_bind (hback s hs) ?_
      rintro _ s₁ ⟨rfl, hcoins, hanchors, hbest⟩
      refine ensures_bind (disconnectTx_undoes hm (hok.clear tx (.head _))
        (hok.new tx (.head _)) hupdate (fun _ => rfl) hcoins) ?_
      rintro _ s₂ ⟨rfl, rfl⟩
      exact ensures_pure ⟨rfl, rfl, hanchors, hbest⟩

end

end

end Elosys
