import Elosys.Tokens

/-!
# Tokens Are Conserved

`IsTokensvout` looks one transaction back, and `TokensValidate` two, but those further back were
looked at when they were confirmed: tokens that count come from the creation in the end. That the
condition shown is the output's is up to the condition library.

A `TokenLedger` has the confirmed transactions and the unspent outpoints; `Confirms` is what the
chain has checked of one more transaction.

## Main results

* `Confirms.tokens_le`: a transaction creates no tokens of an existing kind.
* `TokenLedger.Conserved` holds in every run of confirmed transactions whose token spends are
  validated; on the exempt chain it fails.
-/

open List Option Bool

namespace Elosys

/-! ### Confirmed transactions -/

/-- The confirmed transactions and the unspent outputs. -/
structure TokenLedger where
  txs : List CTransaction := []
  unspent : List COutPoint := []

def CTransaction.outpoints (tx : CTransaction) : List COutPoint :=
  (range tx.vout.length).map fun n => ⟨tx.hash, n⟩

/-- The outputs spent: none if it mints. -/
def CTransaction.spentOutpoints (tx : CTransaction) : List COutPoint :=
  if tx.isMint then [] else tx.vin.map CTxIn.prevout

def TokenLedger.confirm (l : TokenLedger) (tx : CTransaction) : TokenLedger where
  txs := tx :: l.txs
  unspent := tx.outpoints ++ l.unspent.filter fun o => o ∉ tx.spentOutpoints

/-- A node with the confirmed transactions, of bounded outputs. -/
structure Knows (world : CCWorld) (txs : List CTransaction) : Prop where
  found : ∀ t ∈ txs, world.getTx t.hash = some t
  sizes : ∀ h t, world.getTx h = some t → t.vout.length ≤ 1000000000

def CCWorld.countAt (world : CCWorld) (count : CTransaction → Nat → CAmount) (o : COutPoint) :
    CAmount :=
  ((world.getTx o.hash).map fun t => count t o.n).getD 0

variable {count : CTransaction → Nat → CAmount} {o : COutPoint}

theorem CCWorld.countAt_of_getTx {world : CCWorld}
    {t : CTransaction} (h : world.getTx o.hash = some t) :
    world.countAt count o = count t o.n := by
  rw [countAt, h, map_some, getD_some]

section

variable [CryptoHash] [CCLibrary]

open CCLibrary

/-- A transaction can be confirmed: its hash is new, inputs unspent, amounts in range, and it
passes `TokensValidate` if it spends tokens. -/
structure Confirms (maxMoney : CAmount) (world : CCWorld) (l : TokenLedger) (tx : CTransaction) :
    Prop where
  knows : Knows world l.txs
  fresh : ∀ t ∈ l.txs, t.hash ≠ tx.hash
  valueOut : ∃ r, tx.getValueOut maxMoney = .ok r
  distinct : tx.spentOutpoints.Nodup
  unspent : ∀ o ∈ tx.spentOutpoints, o ∈ l.unspent
  valueIn : amountSum (tx.spentOutpoints.map fun o =>
    ((world.output? o).map CTxOut.nValue).getD 0) ≤ maxMoney.toInt
  validated : tx.isMint = false → ∀ i ∈ tx.vin, ∀ out, world.output? i.prevout = some out →
    out.scriptPubKey.isPayToCryptoCondition = true → ismyvin evalTokens i.scriptSig = true →
    tokensValidate world tx = .ok ()

/-- The states of runs with a world of a kind at every step. -/
inductive Reaches (maxMoney : CAmount) (kind : CCWorld → Prop) : TokenLedger → Prop where
  | empty : Reaches maxMoney kind {}
  | confirm {world : CCWorld} {l : TokenLedger} {tx : CTransaction} (h : Reaches maxMoney kind l)
      (hkind : kind world) (htx : Confirms maxMoney world l tx) :
      Reaches maxMoney kind (l.confirm tx)

def tokensAt (world : CCWorld) (tokenid : UInt256) (o : COutPoint) : Int :=
  (world.countAt (isTokensvout world tokenid) o).toInt

def TokenLedger.tokens (world : CCWorld) (tokenid : UInt256) (l : TokenLedger) : Int :=
  (l.unspent.map (tokensAt world tokenid)).sum

def createdTokens (world : CCWorld) (createTx : CTransaction) : Int :=
  (createTx.outpoints.map (tokensAt world createTx.hash)).sum

/-! ### What an output holds -/

section

variable {world world' : CCWorld} {tokenid : UInt256} {tx : CTransaction} {v : Nat}

def CTransaction.valueAt (tx : CTransaction) (v : Nat) : Int :=
  ((tx.vout[v]?).map fun o => o.nValue.toInt).getD 0

section

variable (world : CCWorld) (tokenid : UInt256)

theorem tokensvout_cases (tx : CTransaction) (v : Nat) :
    tokensvout world tokenid tx v = 0 ∨ (v + 1 < tx.vout.length ∧
      ∃ out o, tx.vout[v]? = some out ∧ out.scriptPubKey.isPayToCryptoCondition = true ∧
        validateTokenOpret tx tokenid = some o ∧
        tokensvout world tokenid tx v = out.nValue) := by
  unfold tokensvout
  split
  · exact .inl rfl
  next hlen =>
  split
  · exact .inl rfl
  next out hout =>
  split
  · next hcc =>
      split
      · exact .inl rfl
      next o ho =>
      split
      · split
        · exact .inr ⟨by omega, out, o, hout, hcc, ho, rfl⟩
        · exact .inl rfl
      · split
        · exact .inr ⟨by omega, out, o, hout, hcc, ho, rfl⟩
        · exact .inl rfl
  · exact .inl rfl

theorem tokensvout_bounds (h : ∀ o ∈ tx.vout, 0 ≤ o.nValue.toInt) (v : Nat) :
    0 ≤ (tokensvout world tokenid tx v).toInt ∧
      (tokensvout world tokenid tx v).toInt ≤ tx.valueAt v := by
  have hvalue : 0 ≤ tx.valueAt v := by
    unfold CTransaction.valueAt
    cases hout : tx.vout[v]? with
    | none => exact le_rfl
    | some out => exact h out (mem_of_getElem? hout)
  rcases tokensvout_cases world tokenid tx v with hzero | ⟨-, out, o, hout, -, -, heq⟩
  · rw [hzero]
    exact ⟨le_rfl, hvalue⟩
  · rw [heq]
    refine ⟨h out (mem_of_getElem? hout), ?_⟩
    rw [CTransaction.valueAt, hout, map_some, getD_some]

theorem isTokensvout_cases (tx : CTransaction) (v : Nat) : isTokensvout world tokenid tx v = 0 ∨
      (isTokensvout world tokenid tx v = tokensvout world tokenid tx v ∧
        (tokenid = tx.hash ∨ tokenInputs world (tokensvout world tokenid) tx.vin
          = some (tokenOutputs world tokenid tx))) := by
  unfold isTokensvout
  split
  · next h =>
      rw [or_eq_true] at h
      refine .inr ⟨rfl, h.symm.imp beq_iff_eq.mp fun h => ?_⟩
      exact beq_iff_eq.mp h
  · exact .inl rfl

theorem isTokensvout_bounds (h : ∀ o ∈ tx.vout, 0 ≤ o.nValue.toInt) (v : Nat) :
    0 ≤ (isTokensvout world tokenid tx v).toInt ∧
      (isTokensvout world tokenid tx v).toInt ≤ (tokensvout world tokenid tx v).toInt := by
  have hbounds := tokensvout_bounds world tokenid h v
  rcases isTokensvout_cases world tokenid tx v with hzero | ⟨heq, -⟩
  · rw [hzero]
    exact ⟨le_rfl, hbounds.1⟩
  · rw [heq]
    exact ⟨hbounds.1, le_rfl⟩

end

/-! ### Sums over the outputs and the inputs -/

omit [CryptoHash] [CCLibrary] in
theorem sum_valueAt (tx : CTransaction) :
    ((range tx.vout.length).map tx.valueAt).sum = tx.transparentOut := by
  have hlist : (range tx.vout.length).map tx.valueAt
      = (tx.vout.map CTxOut.nValue).map Int64.toInt := by
    refine ext_getElem (by simp) fun i h₁ h₂ => ?_
    have hi : i < tx.vout.length := by simpa using h₁
    simp [CTransaction.valueAt, getElem?_eq_getElem hi]
  rw [hlist]
  rfl

theorem sum_tokensvout (world : CCWorld) (tokenid : UInt256) (tx : CTransaction) :
    ((range (tx.vout.length - 1)).map fun v => (tokensvout world tokenid tx v).toInt).sum
      = ((range tx.vout.length).map fun v => (tokensvout world tokenid tx v).toInt).sum := by
  cases hlen : tx.vout.length with
  | zero => rfl
  | succ n =>
    have hlast : tokensvout world tokenid tx n = 0 := by
      rw [tokensvout, if_pos (by omega)]
    rw [Nat.add_sub_cancel, range_succ, map_append, sum_append, map_singleton, sum_singleton, hlast]
    simp

variable {maxMoney : CAmount}

theorem tokenOutputs_toInt (h : ∃ r, tx.getValueOut maxMoney = .ok r) :
    (tokenOutputs world tokenid tx).toInt
      = ((range tx.vout.length).map fun v => (tokensvout world tokenid tx v).toInt).sum := by
  obtain ⟨r, hr⟩ := h
  have hbounds := tokensvout_bounds world tokenid (getValueOut_ok hr).2.2
  have hle : ((range tx.vout.length).map fun v => (tokensvout world tokenid tx v).toInt).sum
      ≤ tx.transparentOut := by
    rw [← sum_valueAt]
    exact sum_le_sum fun v _ => (hbounds v).2
  have hsum : amountSum ((range (tx.vout.length - 1)).map (tokensvout world tokenid tx))
      = ((range tx.vout.length).map fun v => (tokensvout world tokenid tx v).toInt).sum := by
    rw [← sum_tokensvout, amountSum, List.map_map]
    rfl
  rw [tokenOutputs, toInt_sum_of_nonneg ?_ ?_, hsum]
  · intro x hx
    obtain ⟨v, -, rfl⟩ := mem_map.mp hx
    exact (hbounds v).1
  · have hfits := transparentOut_le_getValueOut hr
    have hlt := Int64.toInt_lt r
    omega

theorem tokenOutputs_ne_zero (h : ∃ r, tx.getValueOut maxMoney = .ok r)
    (hv : tokensvout world tokenid tx v ≠ 0) : tokenOutputs world tokenid tx ≠ 0 := by
  intro hzero
  have hsum : (tokenOutputs world tokenid tx).toInt = _ := tokenOutputs_toInt h
  obtain ⟨r, hr⟩ := h
  have hbounds := tokensvout_bounds world tokenid (getValueOut_ok hr).2.2
  have hlen : v < tx.vout.length := by
    rcases tokensvout_cases world tokenid tx v with h0 | ⟨hlen, -⟩
    · exact absurd h0 hv
    · omega
  have hle : (tokensvout world tokenid tx v).toInt ≤
      ((range tx.vout.length).map fun v => (tokensvout world tokenid tx v).toInt).sum := by
    refine single_le_sum (fun x hx => ?_) _
      (mem_map_of_mem (f := fun v => (tokensvout world tokenid tx v).toInt) (mem_range.mpr hlen))
    obtain ⟨w, -, rfl⟩ := mem_map.mp hx
    exact (hbounds w).1
  rw [hzero] at hsum
  have hpos := (hbounds v).1
  refine hv (Int64.toInt_inj.mp ?_)
  simp only [Int64.toInt_zero] at hsum ⊢
  omega

variable {vin : List CTxIn} {s : CAmount}

section
omit [CryptoHash]

theorem tokenInputs_eq_some (h : tokenInputs world count vin = some s) :
    s = ((vin.filter fun i => ismyvin evalTokens i.scriptSig).map fun i =>
      world.countAt count i.prevout).sum := by
  induction vin generalizing s with
  | nil => exact (some.inj h).symm
  | cons i vin ih =>
    rw [tokenInputs] at h
    split at h
    · next hmy =>
        simp only [Option.bind_eq_bind, Option.bind_eq_some_iff, Option.pure_def] at h
        obtain ⟨t, ht, rest, hrest, hs⟩ := h
        simp only [List.filter_cons, hmy, if_true, List.map_cons, List.sum_cons, ← ih hrest,
          CCWorld.countAt_of_getTx ht]
        exact (some.inj hs).symm
    · next hmy =>
        simp only [filter_cons, hmy]
        exact ih h

theorem exists_input (h : tokenInputs world count vin = some s) (hs : s ≠ 0) :
    ∃ i ∈ vin, ismyvin evalTokens i.scriptSig = true ∧
      ∃ t, world.getTx i.prevout.hash = some t ∧ count t i.prevout.n ≠ 0 := by
  induction vin generalizing s with
  | nil => exact absurd (some.inj h).symm hs
  | cons i vin ih =>
    have hlater : ∀ s', tokenInputs world count vin = some s' → s' ≠ 0 →
        ∃ j ∈ i :: vin, ismyvin evalTokens j.scriptSig = true ∧
          ∃ t, world.getTx j.prevout.hash = some t ∧ count t j.prevout.n ≠ 0 := by
      intro s' hs' hne
      obtain ⟨j, hj, hrest⟩ := ih hs' hne
      exact ⟨j, mem_cons_of_mem _ hj, hrest⟩
    rw [tokenInputs] at h
    split at h
    · next hmy =>
        simp only [Option.bind_eq_bind, Option.bind_eq_some_iff, Option.pure_def] at h
        obtain ⟨t, ht, rest, hrest, hsum⟩ := h
        by_cases hzero : count t i.prevout.n = 0
        · refine hlater rest hrest fun hrestZero => hs ?_
          rw [← some.inj hsum, hzero, hrestZero]
          rfl
        · exact ⟨i, mem_cons_self, hmy, t, ht, hzero⟩
    · exact hlater s h hs

theorem tokenInputs_le (h : tokenInputs world count tx.vin = some s) (hmint : tx.isMint = false)
    (hcount : ∀ o ∈ tx.spentOutpoints, 0 ≤ (world.countAt count o).toInt ∧
      (world.countAt count o).toInt ≤ (((world.output? o).map CTxOut.nValue).getD 0).toInt)
    (hvalue : amountSum (tx.spentOutpoints.map fun o =>
      ((world.output? o).map CTxOut.nValue).getD 0) ≤ maxMoney.toInt) :
    s.toInt ≤ (tx.spentOutpoints.map fun o => (world.countAt count o).toInt).sum := by
  have hspent : tx.spentOutpoints = tx.vin.map CTxIn.prevout := by
    rw [CTransaction.spentOutpoints, hmint]
    rfl
  have hmem : ∀ i ∈ tx.vin, i.prevout ∈ tx.spentOutpoints := by
    intro i hi
    rw [hspent]
    exact mem_map_of_mem hi
  have hle : amountSum ((tx.vin.filter fun i => ismyvin evalTokens i.scriptSig).map fun i =>
      world.countAt count i.prevout)
      ≤ (tx.spentOutpoints.map fun o => (world.countAt count o).toInt).sum := by
    rw [amountSum, hspent, List.map_map, List.map_map]
    refine (List.filter_sublist.map _).sum_le_sum fun x hx => ?_
    obtain ⟨i, hi, rfl⟩ := List.mem_map.mp hx
    exact (hcount _ (hmem i hi)).1
  have hfits : (tx.spentOutpoints.map fun o => (world.countAt count o).toInt).sum
      ≤ maxMoney.toInt := by
    refine le_trans ?_ hvalue
    rw [amountSum, List.map_map]
    exact List.sum_le_sum fun o ho => (hcount o ho).2
  rw [tokenInputs_eq_some h, toInt_sum_of_nonneg ?_ ?_]
  · exact hle
  · intro x hx
    obtain ⟨i, hi, rfl⟩ := mem_map.mp hx
    exact (hcount _ (hmem i (mem_of_mem_filter hi))).1
  · have hlt := Int64.toInt_lt maxMoney
    omega

end

omit [CryptoHash] [CCLibrary] in
theorem le_of_isMint (h : tx.isMint = true) : ∀ i ∈ tx.vin, 1000000000 ≤ i.prevout.n := by
  rw [CTransaction.isMint, or_eq_true] at h
  intro i hi
  rcases h with h | h
  · rw [CTransaction.isCoinImport] at h
    split at h
    · next hvin =>
        obtain rfl := mem_singleton.mp (hvin ▸ hi)
        exact (beq_iff_eq.mp h).ge
    · exact absurd h (by simp)
  · rw [CTransaction.isCoinBase] at h
    split at h
    · next hvin =>
        obtain rfl := mem_singleton.mp (hvin ▸ hi)
        have hn := beq_iff_eq.mp (and_eq_true_iff.mp h).2
        omega
    · exact absurd h (by simp)

theorem input_of_isTokensvout (hsizes : ∀ h t, world.getTx h = some t → t.vout.length ≤ 1000000000)
    (hvalue : ∃ r, tx.getValueOut maxMoney = .ok r) (hne : tx.hash ≠ tokenid)
    (h : isTokensvout world tokenid tx v ≠ 0) :
    tx.isMint = false ∧ ∃ i ∈ tx.vin, ismyvin evalTokens i.scriptSig = true ∧
      ∃ t, world.getTx i.prevout.hash = some t ∧ tokensvout world tokenid t i.prevout.n ≠ 0 := by
  rcases isTokensvout_cases world tokenid tx v with hzero | ⟨heq, hexact⟩
  · exact absurd hzero h
  have hin := hexact.resolve_left fun heq => hne heq.symm
  have hout := tokenOutputs_ne_zero hvalue (heq ▸ h)
  obtain ⟨i, hi, hmy, t, ht, hcount⟩ := exists_input hin hout
  refine ⟨?_, i, hi, hmy, t, ht, hcount⟩
  rcases tokensvout_cases world tokenid t i.prevout.n with hzero | ⟨hlen, -⟩
  · exact absurd hzero hcount
  · by_contra hmint
    have hn := le_of_isMint (eq_true_of_not_eq_false hmint) i hi
    have hsize := hsizes _ t ht
    omega

omit [CryptoHash] in
theorem tokenInputs_congr {count count' : CTransaction → Nat → CAmount}
    (h : ∀ i ∈ vin, ∃ p, world.getTx i.prevout.hash = some p ∧
      world'.getTx i.prevout.hash = some p ∧ count p i.prevout.n = count' p i.prevout.n) :
    tokenInputs world count vin = tokenInputs world' count' vin := by
  induction vin with
  | nil => rfl
  | cons i vin ih =>
    obtain ⟨p, hp, hp', hcount⟩ := h i mem_cons_self
    rw [tokenInputs, tokenInputs, ih fun j hj => h j (mem_cons_of_mem _ hj), hp, hp']
    simp [hcount]

theorem creationPaid_congr (h : ∀ i ∈ tx.vin, world.output? i.prevout = world'.output? i.prevout) :
    creationPaid world tx = creationPaid world' tx := by
  have htotal : ∀ pk,
      totalPubkeyNormalInputs world tx pk = totalPubkeyNormalInputs world' tx pk := by
    intro pk
    unfold totalPubkeyNormalInputs
    congr 1
    refine map_congr_left fun i hi => ?_
    have hout := h i hi
    unfold CCWorld.output? at hout
    rw [hout]
  simp only [creationPaid, htotal]

theorem tokensvout_congr (htoken : world.getTx tokenid = world'.getTx tokenid)
    (hpaid : tx.hash = tokenid → creationPaid world tx = creationPaid world' tx) (v : Nat) :
    tokensvout world tokenid tx v = tokensvout world' tokenid tx v := by
  have htest : ∀ o nValue, testVouts world tx tokenid o nValue
      = testVouts world' tx tokenid o nValue := by
    intro o nValue
    simp only [testVouts, getNonfungibleData, htoken]
  unfold tokensvout
  cases ho : validateTokenOpret tx tokenid with
  | none => rfl
  | some o =>
    obtain ⟨-, -, -, hkind⟩ := validateTokenOpret_cases ho
    rcases hkind with ⟨-, hhash⟩ | ⟨hfunc, -⟩
    · simp only [htest, hpaid hhash.symm]
    · have hne : o.funcid ≠ funcCode 'c' := by
        rw [hfunc]
        decide
      simp only [htest, if_pos hne]

end

/-! ### Ledgers that runs lead to -/

section

variable {maxMoney : CAmount} {world world' : CCWorld} {l : TokenLedger} {tx t c : CTransaction}
  {tokenid : UInt256}

/-- What is spent in a ledger is in it, amounts in range. -/
structure TokenLedger.Closed (maxMoney : CAmount) (l : TokenLedger) : Prop where
  distinct : l.unspent.Nodup
  held : ∀ o ∈ l.unspent, ∃ t ∈ l.txs, t.hash = o.hash
  inputs : ∀ t ∈ l.txs, ∀ o ∈ t.spentOutpoints, ∃ p ∈ l.txs, p.hash = o.hash
  valueOut : ∀ t ∈ l.txs, ∃ r, t.getValueOut maxMoney = .ok r

omit [CryptoHash] [CCLibrary] in
theorem Knows.of_cons (h : Knows world (tx :: l.txs)) : Knows world l.txs where
  found := fun t ht => h.found t (mem_cons_of_mem _ ht)
  sizes := h.sizes

theorem Confirms.closed (hl : l.Closed maxMoney) (h : Confirms maxMoney world l tx) :
    (l.confirm tx).Closed maxMoney where
  distinct := by
    refine nodup_append'.mpr ⟨?_, hl.distinct.filter _, ?_⟩
    · refine Nodup.map (fun m n hmn => ?_) nodup_range
      exact congrArg COutPoint.n hmn
    · intro o ho ho'
      obtain ⟨n, -, rfl⟩ := mem_map.mp ho
      obtain ⟨t, ht, hhash⟩ := hl.held _ (mem_of_mem_filter ho')
      exact h.fresh t ht hhash
  held := by
    intro o ho
    rcases mem_append.mp ho with ho | ho
    · obtain ⟨n, -, rfl⟩ := mem_map.mp ho
      exact ⟨tx, mem_cons_self, rfl⟩
    · obtain ⟨t, ht, hhash⟩ := hl.held o (mem_of_mem_filter ho)
      exact ⟨t, mem_cons_of_mem _ ht, hhash⟩
  inputs := by
    intro t ht o ho
    have hspent : ∃ p ∈ l.txs, p.hash = o.hash := by
      rcases mem_cons.mp ht with rfl | ht
      · exact hl.held o (h.unspent o ho)
      · exact hl.inputs t ht o ho
    obtain ⟨p, hp, hhash⟩ := hspent
    exact ⟨p, mem_cons_of_mem _ hp, hhash⟩
  valueOut := by
    intro t ht
    rcases mem_cons.mp ht with rfl | ht
    · exact h.valueOut
    · exact hl.valueOut t ht

section
omit [CryptoHash] [CCLibrary]

theorem mem_spentOutpoints (hmint : tx.isMint = false) {i : CTxIn} (hi : i ∈ tx.vin) :
    i.prevout ∈ tx.spentOutpoints := by
  rw [CTransaction.spentOutpoints, hmint]
  exact mem_map_of_mem hi

theorem output?_congr (hl : l.Closed maxMoney) (hw : Knows world l.txs)
    (hw' : Knows world' l.txs) (ht : t ∈ l.txs) :
    ∀ i ∈ t.vin, world.output? i.prevout = world'.output? i.prevout := by
  intro i hi
  by_cases hmint : t.isMint = true
  · have hn := le_of_isMint hmint i hi
    have hnone : ∀ w : CCWorld, (∀ h t, w.getTx h = some t → t.vout.length ≤ 1000000000) →
        w.output? i.prevout = none := by
      intro w hsizes
      refine bind_eq_none_iff.mpr fun p hp => getElem?_eq_none ?_
      have hsize := hsizes _ p hp
      omega
    rw [hnone world hw.sizes, hnone world' hw'.sizes]
  · have hspent := mem_spentOutpoints (eq_false_of_not_eq_true hmint) hi
    obtain ⟨p, hp, hhash⟩ := hl.inputs t ht _ hspent
    rw [CCWorld.output?, CCWorld.output?, ← hhash, hw.found p hp, hw'.found p hp]

end

theorem tokensvout_eq (hl : l.Closed maxMoney) (hw : Knows world l.txs)
    (hw' : Knows world' l.txs) (hc : c ∈ l.txs) (ht : t ∈ l.txs) (v : Nat) :
    tokensvout world c.hash t v = tokensvout world' c.hash t v := by
  refine tokensvout_congr ?_ (fun _ => creationPaid_congr (output?_congr hl hw hw' ht)) v
  rw [hw.found c hc, hw'.found c hc]

theorem isTokensvout_eq (hl : l.Closed maxMoney) (hw : Knows world l.txs)
    (hw' : Knows world' l.txs) (hc : c ∈ l.txs) (ht : t ∈ l.txs) (v : Nat) :
    isTokensvout world c.hash t v = isTokensvout world' c.hash t v := by
  have heq : ∀ p ∈ l.txs, tokensvout world c.hash p = tokensvout world' c.hash p :=
    fun p hp => funext fun n => tokensvout_eq hl hw hw' hc hp n
  by_cases hcreate : c.hash = t.hash
  · have hbeq : (c.hash == t.hash) = true := beq_iff_eq.mpr hcreate
    simp only [isTokensvout, hbeq, Bool.or_true, if_true, heq t ht]
  by_cases hmint : t.isMint = true
  · -- Coins are minted: no tokens, whatever the nodes find under the inputs.
    have hzero : ∀ w : CCWorld, Knows w l.txs → isTokensvout w c.hash t v = 0 := by
      intro w hw
      by_contra hne
      obtain ⟨hnot, -⟩ := input_of_isTokensvout hw.sizes (hl.valueOut t ht) (Ne.symm hcreate) hne
      rw [hnot] at hmint
      exact absurd hmint (by simp)
    rw [hzero world hw, hzero world' hw']
  · have hinputs : tokenInputs world (tokensvout world c.hash) t.vin
        = tokenInputs world' (tokensvout world' c.hash) t.vin := by
      refine tokenInputs_congr fun i hi => ?_
      have hspent := mem_spentOutpoints (eq_false_of_not_eq_true hmint) hi
      obtain ⟨p, hp, hhash⟩ := hl.inputs t ht _ hspent
      exact ⟨p, hhash ▸ hw.found p hp, hhash ▸ hw'.found p hp, by rw [heq p hp]⟩
    have hexact : tokensExactAmounts world (tokensvout world c.hash) c.hash t
        = tokensExactAmounts world' (tokensvout world' c.hash) c.hash t := by
      rw [tokensExactAmounts, tokensExactAmounts, hinputs, tokenOutputs, tokenOutputs, heq t ht]
    rw [isTokensvout, isTokensvout, hexact, heq t ht]

section

variable (hl : l.Closed maxMoney) (h : Confirms maxMoney world l tx)

include hl h

theorem Confirms.spent (ho : o ∈ tx.spentOutpoints) :
    ∃ p ∈ l.txs, ∀ w : CCWorld, Knows w l.txs → w.getTx o.hash = some p := by
  obtain ⟨p, hp, hhash⟩ := hl.held o (h.unspent o ho)
  exact ⟨p, hp, fun w hw => hhash ▸ hw.found p hp⟩

/-- **Outside the creation, an output holds tokens only in a validated transfer**: it spent an
output with tokens when confirmed. -/
theorem transfer_of_isTokensvout
    (hchecked : tokensExempt world = false) (hw' : Knows world' l.txs) (hne : tx.hash ≠ tokenid)
    {v : Nat} (hv : isTokensvout world' tokenid tx v ≠ 0) :
    tx.isMint = false ∧ tokenOutputs world tokenid tx ≠ 0 ∧
      tokenInputs world (isTokensvout world tokenid) tx.vin
        = some (tokenOutputs world tokenid tx) := by
  obtain ⟨hmint, i, hi, hmy, p, hp', hcount⟩ :=
    input_of_isTokensvout hw'.sizes h.valueOut hne hv
  refine ⟨hmint, ?_⟩
  obtain ⟨q, -, hfind⟩ := h.spent hl (mem_spentOutpoints hmint hi)
  obtain rfl : q = p := some.inj ((hfind world' hw').symm.trans hp')
  obtain ⟨-, out, -, hout, hcc, -⟩ :=
    (tokensvout_cases world' tokenid q i.prevout.n).resolve_left hcount
  have hspent : world.output? i.prevout = some out := by
    rwa [CCWorld.output?, hfind world h.knows]
  have hvalid := h.validated hmint i hi out hspent hcc hmy
  rw [tokensValidate, hchecked] at hvalid
  obtain ⟨last, o, hlast, ho, hfunc, -, -, hin, hzero⟩ := tokensChecks_cases hvalid
  -- The transaction names one token, so this is the one it was validated for.
  have htoken : tokenid = o.tokenid := by
    have hshallow : tokensvout world' tokenid tx v ≠ 0 := by
      rcases isTokensvout_cases world' tokenid tx v with hzero | ⟨heq, -⟩
      · exact absurd hzero hv
      · exact heq ▸ hv
    obtain ⟨-, -, o', -, -, ho', -⟩ :=
      (tokensvout_cases world' tokenid tx v).resolve_left hshallow
    obtain ⟨last', hlast', hdecode, hkind⟩ := validateTokenOpret_cases ho'
    obtain rfl := some.inj (hlast.symm.trans hlast')
    obtain rfl := some.inj (ho.symm.trans hdecode)
    rcases hkind with ⟨-, hhash⟩ | ⟨-, hid⟩
    · exact absurd hhash.symm hne
    · exact hid
  subst htoken
  exact ⟨hzero, hin⟩

theorem Confirms.countAt_bounds (tokenid : UInt256) (ho : o ∈ tx.spentOutpoints) :
    0 ≤ (world.countAt (isTokensvout world tokenid) o).toInt ∧
      (world.countAt (isTokensvout world tokenid) o).toInt
        ≤ (((world.output? o).map CTxOut.nValue).getD 0).toInt := by
  obtain ⟨p, hp, hfind⟩ := h.spent hl ho
  have hfound := hfind world h.knows
  obtain ⟨r, hr⟩ := hl.valueOut p hp
  have hpos := (getValueOut_ok hr).2.2
  have hdeep := isTokensvout_bounds world tokenid hpos o.n
  have hshallow := tokensvout_bounds world tokenid hpos o.n
  have hvalue : (((world.output? o).map CTxOut.nValue).getD 0).toInt = p.valueAt o.n := by
    rw [CCWorld.output?, hfound, bind_some, CTransaction.valueAt]
    cases p.vout[o.n]? with
    | none => rfl
    | some out => rfl
  rw [CCWorld.countAt_of_getTx hfound, hvalue]
  exact ⟨hdeep.1, hdeep.2.trans hshallow.2⟩

/-- **A transaction creates no tokens**: its outputs hold no more of an existing token than those
it spends. -/
theorem Confirms.tokens_le
    (hchecked : tokensExempt world = false) (hw' : Knows world' (tx :: l.txs)) (hc : c ∈ l.txs) :
    (tx.outpoints.map (tokensAt world' c.hash)).sum
      ≤ (tx.spentOutpoints.map (tokensAt world' c.hash)).sum := by
  have hold := hw'.of_cons
  have hspent : tx.spentOutpoints.map (tokensAt world' c.hash)
      = tx.spentOutpoints.map fun o => (world.countAt (isTokensvout world c.hash) o).toInt := by
    refine map_congr_left fun o ho => ?_
    obtain ⟨p, hp, hfind⟩ := h.spent hl ho
    rw [tokensAt, CCWorld.countAt_of_getTx (hfind world' hold),
      CCWorld.countAt_of_getTx (hfind world h.knows), isTokensvout_eq hl hold h.knows hc hp]
  have hout : tx.outpoints.map (tokensAt world' c.hash)
      = (range tx.vout.length).map fun v => (isTokensvout world' c.hash tx v).toInt := by
    rw [CTransaction.outpoints, List.map_map]
    refine List.map_congr_left fun v _ => ?_
    rw [Function.comp_apply, tokensAt, CCWorld.countAt_of_getTx (hw'.found tx List.mem_cons_self)]
  have hne : tx.hash ≠ c.hash := (h.fresh c hc).symm
  rw [hspent, hout]
  by_cases hzero : ∀ v, isTokensvout world' c.hash tx v = 0
  · have hsum : ((range tx.vout.length).map fun v =>
        (isTokensvout world' c.hash tx v).toInt).sum = 0 := by
      refine sum_eq_zero fun x hx => ?_
      obtain ⟨v, -, rfl⟩ := mem_map.mp hx
      rw [hzero v]
      rfl
    rw [hsum]
    refine sum_nonneg fun x hx => ?_
    obtain ⟨o, ho, rfl⟩ := mem_map.mp hx
    exact (h.countAt_bounds hl c.hash ho).1
  · obtain ⟨v, hv⟩ := not_forall.mp hzero
    obtain ⟨hmint, -, hin⟩ := transfer_of_isTokensvout hl h hchecked hold hne hv
    have hsame : ∀ v, tokensvout world' c.hash tx v = tokensvout world c.hash tx v := by
      refine tokensvout_congr ?_ fun heq => absurd heq hne
      rw [hold.found c hc, h.knows.found c hc]
    have hpos : ∀ o ∈ tx.vout, 0 ≤ o.nValue.toInt := by
      obtain ⟨r, hr⟩ := h.valueOut
      exact (getValueOut_ok hr).2.2
    calc ((range tx.vout.length).map fun v => (isTokensvout world' c.hash tx v).toInt).sum
        ≤ ((range tx.vout.length).map fun v => (tokensvout world c.hash tx v).toInt).sum := by
          refine sum_le_sum fun v _ => ?_
          rw [← hsame v]
          exact (isTokensvout_bounds world' c.hash hpos v).2
      _ = (tokenOutputs world c.hash tx).toInt := (tokenOutputs_toInt h.valueOut).symm
      _ ≤ _ := tokenInputs_le hin hmint (fun o ho => h.countAt_bounds hl c.hash ho) h.valueIn

end

/-! ### Whole runs -/

/-- **Conserved tokens**: none before their creation, and never more than it made. -/
structure TokenLedger.Conserved (maxMoney : CAmount) (l : TokenLedger) : Prop where
  closed : l.Closed maxMoney
  absent : ∀ tokenid, (∀ t ∈ l.txs, t.hash ≠ tokenid) → ∀ w, Knows w l.txs → ∀ t ∈ l.txs,
    ∀ v, isTokensvout w tokenid t v = 0
  bound : ∀ c ∈ l.txs, ∀ w, Knows w l.txs → l.tokens w c.hash ≤ createdTokens w c

omit [CryptoHash] [CCLibrary] in
theorem TokenLedger.Closed.perm (hl : l.Closed maxMoney) {spent : List COutPoint}
    (hnodup : spent.Nodup) (hsub : ∀ o ∈ spent, o ∈ l.unspent) :
    (spent ++ l.unspent.filter fun o => o ∉ spent).Perm l.unspent := by
  refine (perm_ext_iff_of_nodup ?_ hl.distinct).mpr fun o => ?_
  · refine nodup_append'.mpr ⟨hnodup, hl.distinct.filter _, fun o ho ho' => ?_⟩
    exact of_decide_eq_true (mem_filter.mp ho').2 ho
  · simp only [mem_append, mem_filter, decide_eq_true_eq]
    constructor
    · rintro (ho | ⟨ho, -⟩)
      · exact hsub o ho
      · exact ho
    · intro ho
      by_cases hs : o ∈ spent
      · exact .inl hs
      · exact .inr ⟨ho, hs⟩

theorem TokenLedger.Conserved.empty : TokenLedger.Conserved maxMoney {} where
  closed := ⟨List.nodup_nil, by simp, by simp, by simp⟩
  absent := by simp
  bound := by simp

theorem TokenLedger.Conserved.confirm (hl : l.Conserved maxMoney)
    (h : Confirms maxMoney world l tx) (hchecked : tokensExempt world = false) :
    (l.confirm tx).Conserved maxMoney where
  closed := h.closed hl.closed
  absent := by
    intro tokenid hnew w hw t ht v
    have hold : ∀ t ∈ l.txs, t.hash ≠ tokenid := fun t ht => hnew t (mem_cons_of_mem _ ht)
    rcases mem_cons.mp ht with rfl | ht
    · by_contra hv
      obtain ⟨hmint, hzero, hin⟩ := transfer_of_isTokensvout hl.closed h hchecked hw.of_cons
        (hnew t mem_cons_self) hv
      obtain ⟨i, hi, -, p, hp, hcount⟩ := exists_input hin hzero
      obtain ⟨q, hq, hfind⟩ := h.spent hl.closed (mem_spentOutpoints hmint hi)
      obtain rfl : q = p := some.inj ((hfind world h.knows).symm.trans hp)
      exact hcount (hl.absent tokenid hold world h.knows q hq _)
    · exact hl.absent tokenid hold w hw.of_cons t ht v
  bound := by
    intro c hc w hw
    have hsplit : (l.confirm tx).tokens w c.hash = (tx.outpoints.map (tokensAt w c.hash)).sum
        + ((l.unspent.filter fun o => o ∉ tx.spentOutpoints).map (tokensAt w c.hash)).sum := by
      rw [TokenLedger.tokens, TokenLedger.confirm, map_append, sum_append]
    rw [hsplit]
    rcases mem_cons.mp hc with rfl | hc
    · -- The creation itself: none of its tokens were there before.
      have hzero : ((l.unspent.filter fun o => o ∉ c.spentOutpoints).map
          (tokensAt w c.hash)).sum = 0 := by
        refine sum_eq_zero fun x hx => ?_
        obtain ⟨o, ho, rfl⟩ := mem_map.mp hx
        obtain ⟨p, hp, hhash⟩ := hl.closed.held o (mem_of_mem_filter ho)
        rw [tokensAt, CCWorld.countAt_of_getTx (hhash ▸ hw.of_cons.found p hp),
          hl.absent c.hash h.fresh w hw.of_cons p hp]
        rfl
      rw [hzero, createdTokens]
      omega
    · have hle := h.tokens_le hl.closed hchecked hw hc
      have hbound := hl.bound c hc w hw.of_cons
      have hperm := ((hl.closed.perm h.distinct h.unspent).map (tokensAt w c.hash)).sum_eq
      rw [map_append, sum_append] at hperm
      rw [TokenLedger.tokens] at hbound
      omega

/-- **Tokens are conserved** in every run of confirmed transactions with validated token spends. -/
theorem ledger_tokens_le (h : Reaches maxMoney (fun w => tokensExempt w = false) l)
    (hw : Knows world l.txs) (hc : c ∈ l.txs) :
    l.tokens world c.hash ≤ createdTokens world c := by
  have hconserved : l.Conserved maxMoney := by
    clear hw hc
    induction h with
    | empty => exact .empty
    | confirm _ hkind htx ih => exact ih.confirm htx hkind
  exact hconserved.bound c hc world hw

end

end

/-! ### Two runs -/

section

local instance tokenLibrary : CCLibrary where
  getscriptaddress := some
  solver s := if s.getLast? = some 0xac then some (.pubkey, [s.tail.dropLast]) else none
  ccPubKey c := pushInstruction (c.evals ++ c.pks.flatten) ++ [0xcc]
  isCCInput s := !s.isEmpty
  ismyvin e s := s.head? == some e
  vinPubkey s := some s.tail
  getUnspendable e := 0x02 :: replicate 32 e
  unspendableCCaddr e := [e]

local instance tokenHash : CryptoHash := ⟨fun _ => 0, fun _ => 0⟩

def tokenKey : CPubKey := 0x02 :: replicate 32 0x11

def tokenOut (nValue : CAmount) : CTxOut := makeCC1vout evalTokens nValue tokenKey

def transferOut : CTxOut := ⟨0, encodeTokenOpRet 2 [tokenKey] []⟩

def mintTx (hash : UInt256) (vout : List CTxOut) : CTransaction where
  hash := hash
  nVersion := 1
  vin := [{ prevout := ⟨UInt256.null, 2 ^ 32 - 1⟩, scriptSig := [] }]
  vout := vout

def spendTx (hash prev : UInt256) (scriptSig : CScript) (vout : List CTxOut) : CTransaction where
  hash := hash
  nVersion := 1
  vin := [{ prevout := ⟨prev, 0⟩, scriptSig := scriptSig }]
  vout := vout

def fundTx : CTransaction := mintTx 1 [⟨5, pushInstruction tokenKey ++ [0xac]⟩]

def createTx : CTransaction :=
  spendTx 2 1 [] [tokenOut 5, ⟨0, encodeTokenCreateOpRet tokenKey [0x54] [] []⟩]

def transferTx : CTransaction :=
  spendTx 3 2 (evalTokens :: tokenKey) [tokenOut 5, transferOut]

def forgedTx : CTransaction := mintTx 4 [tokenOut 7, transferOut]

def launderTx : CTransaction :=
  spendTx 5 4 (evalTokens :: tokenKey) [tokenOut 7, transferOut]

def tokenWorld (chainName : List UInt8) : CCWorld where
  getTx h := [fundTx, createTx, transferTx, forgedTx, launderTx].find? (·.hash == h)
  chainName := chainName
  height := 100

theorem tokenWorld_knows (chainName : List UInt8) {txs : List CTransaction}
    (h : ∀ t ∈ txs, (tokenWorld []).getTx t.hash = some t) :
    Knows (tokenWorld chainName) txs where
  found := h
  sizes := by
    intro h t ht
    have hall : ∀ t ∈ [fundTx, createTx, transferTx, forgedTx, launderTx],
        t.vout.length ≤ 1000000000 := by decide
    dsimp only [tokenWorld] at ht
    exact hall t (mem_of_find?_eq_some ht)

theorem reaches_confirm {kind : CCWorld → Prop} (chainName : List UInt8) {l : TokenLedger}
    {tx : CTransaction} (h : Reaches 1000 kind l) (hkind : kind (tokenWorld chainName))
    (hfound : ∀ t ∈ l.txs, (tokenWorld []).getTx t.hash = some t)
    (hfresh : ∀ t ∈ l.txs, t.hash ≠ tx.hash) (hvalue : ∃ r, tx.getValueOut 1000 = .ok r)
    (hdistinct : tx.spentOutpoints.Nodup) (hunspent : ∀ o ∈ tx.spentOutpoints, o ∈ l.unspent)
    (hin : amountSum (tx.spentOutpoints.map fun o =>
      (((tokenWorld []).output? o).map CTxOut.nValue).getD 0) ≤ 1000)
    (hvalid : (∀ i ∈ tx.vin, CCLibrary.ismyvin evalTokens i.scriptSig = false) ∨
      tokensValidate (tokenWorld chainName) tx = .ok ()) : Reaches 1000 kind (l.confirm tx) := by
  refine .confirm h hkind ⟨tokenWorld_knows chainName hfound, hfresh, hvalue, hdistinct, hunspent,
    hin, fun _ i hi _ _ _ hmy => ?_⟩
  rcases hvalid with hno | hvalid
  · exact absurd hmy (by simp [hno i hi])
  · exact hvalid

def tokenLedger : TokenLedger := (TokenLedger.confirm {} fundTx).confirm createTx

theorem tokenLedger_reaches {kind : CCWorld → Prop} (chainName : List UInt8)
    (hkind : kind (tokenWorld chainName)) : Reaches 1000 kind tokenLedger := by
  have hfund : Reaches 1000 kind (TokenLedger.confirm {} fundTx) :=
    reaches_confirm chainName .empty hkind (by simp) (by simp) ⟨5, by decide +kernel⟩ (by decide)
      (by decide) (by decide) (.inl (by decide))
  exact reaches_confirm chainName hfund hkind (fun t ht => by
      obtain rfl := mem_singleton.mp ht
      rfl) (by decide) ⟨5, by decide +kernel⟩ (by decide) (by decide) (by decide +kernel)
    (.inl (by decide))

theorem ledger_tokens_le_transfer :
    (tokenLedger.confirm transferTx).tokens (tokenWorld []) createTx.hash = 5 ∧
      (tokenLedger.confirm transferTx).tokens (tokenWorld []) createTx.hash
        ≤ createdTokens (tokenWorld []) createTx := by
  have hchecked : tokensExempt (tokenWorld []) = false := by decide
  have hreach : Reaches 1000 (fun w => tokensExempt w = false) (tokenLedger.confirm transferTx) :=
    reaches_confirm [] (tokenLedger_reaches [] hchecked) hchecked (by decide +kernel)
      (by decide) ⟨5, by decide +kernel⟩ (by decide) (by decide) (by decide +kernel)
      (.inr (by decide +kernel))
  exact ⟨by decide +kernel,
    ledger_tokens_le hreach (tokenWorld_knows [] (by decide +kernel)) (by decide)⟩

/-- **Without validation there can be more**: coins that look like tokens are minted and spent, and
count later. -/
theorem rogue_tokens_exceed : ∃ l, Reaches 1000 (· = tokenWorld (asciiBytes "ROGUE")) l ∧
    Knows (tokenWorld (asciiBytes "ROGUE")) l.txs ∧ createTx ∈ l.txs ∧
    createTx.isCoinImport = false ∧
    createdTokens (tokenWorld (asciiBytes "ROGUE")) createTx
      < l.tokens (tokenWorld (asciiBytes "ROGUE")) createTx.hash := by
  have hforged : Reaches 1000 (· = tokenWorld (asciiBytes "ROGUE"))
      (tokenLedger.confirm forgedTx) :=
    reaches_confirm _ (tokenLedger_reaches _ rfl) rfl (by decide +kernel) (by decide)
      ⟨7, by decide +kernel⟩ (by decide) (by decide) (by decide +kernel) (.inl (by decide))
  refine ⟨(tokenLedger.confirm forgedTx).confirm launderTx, ?_,
    tokenWorld_knows _ (by decide +kernel), by decide, by decide, by decide +kernel⟩
  exact reaches_confirm _ hforged rfl (by decide +kernel) (by decide) ⟨7, by decide +kernel⟩
    (by decide) (by decide) (by decide +kernel) (.inr (by decide +kernel))

end

end Elosys
