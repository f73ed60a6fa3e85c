import Elosys.KomodoConnect

/-!
# Checking a Block for Its Notarisation

`komodo_connectblock` with the check-only flag. The flag is looked at late: other data is recorded
before, a notary's counters are set, a block of a regression test is taken for notarised, and the
high-water mark moves. And the `-2` of a notarisation stays with later outputs, each counted again.

## Main results

* The verdict of the check is read off the transactions that hold a notarisation of this chain.
* A block with quiet outputs (`VoutQuiet`) changes nothing but the high-water mark and the current
  height.
-/

open ByteCodec BufferRead List

namespace Elosys

/-! ### What the check looks for -/

variable (cfg : KomodoConfig)

/-- `strcmp` with the symbol of this chain. -/
def namesChain (buf : List UInt8) : Bool :=
  (matchesString (asciiBytes cfg.symbol) ((opretHead buf).1 + 68)).run buf

def holdsKey (buf : List UInt8) : Bool :=
  !cfg.isKMD && buf.getD (opretHead buf).1 0 == 0x4b

def holdsNotarisation (buf : List UInt8) : Bool :=
  buf.getD 0 0 == 0x6a && !holdsKey cfg buf && namesChain cfg buf &&
    decide (68 ≤ (opretHead buf).2)

/-- An output with nothing recorded, not paying this notary. -/
def VoutQuiet (c : VoutCall) (v : VoutVars) (script buf : List UInt8) : Prop :=
  let len := (opretHead buf).1
  let opretlen := (opretHead buf).2
  let isratification := v.isratification ||
    (decide (68 ≤ opretlen) && bytesAt buf len 32 == replicate 32 0)
  ¬(script.length = 35 ∧ buf.getD 0 0 = 33 ∧ buf.getD 34 0 = 0xac ∧ c.i = 0 ∧ c.j = 0 ∧
      c.NOTARY_PUBKEY33 = bytesAt buf 1 33 ∧ cfg.isKomodoNotary = true) ∧
    (buf.getD 0 0 = 0x6a → holdsKey cfg buf = false ∧
      (namesChain cfg buf = true → (c.j = 1 ∧ 68 ≤ opretlen) ∨ isratification = true ∨
        (c.signedmask = 0 ∧ (buf.getD len 0 = 0x58 ∨ buf.getD len 0 = 0x41))))

instance (cfg : KomodoConfig) (c : VoutCall) (v : VoutVars) (script buf : List UInt8) :
    Decidable (VoutQuiet cfg c v script buf) :=
  inferInstanceAs (Decidable (¬_ ∧ (_ → _ ∧ (_ → _))))

section Check

variable (cfg : KomodoConfig) {c : VoutCall} (v : VoutVars) (buf : List UInt8)

/-! ### One output -/

theorem run_readNotarisation_check (hcheck : c.fJustCheck = true) (len opretlen : Nat)
    (matched : Bool) (name : List UInt8) :
    ((readNotarisation cfg c v len opretlen matched name).run buf).vars.notaryid =
        (if matched then -2 else v.notaryid) ∧
      ((readNotarisation cfg c v len opretlen matched name).run buf).ops = [] := by
  unfold readNotarisation
  simp only [run_bind, run_ite, run_pure, hcheck, Bool.true_and]
  cases matched with
  | true => simp
  | false =>
    simp only [Bool.false_eq_true, if_false, false_and]
    split <;> exact ⟨rfl, rfl⟩

theorem run_readOther (c : VoutCall) (len opretlen : Nat) :
    ((readOther c v len opretlen).run buf).vars.notaryid = v.notaryid ∧
      ((v.isratification || (decide (68 ≤ opretlen) &&
          bytesAt buf len 32 == replicate 32 0)) = true ∨
        (c.signedmask = 0 ∧ (buf.getD len 0 = 0x58 ∨ buf.getD len 0 = 0x41)) →
        ((readOther c v len opretlen).run buf).ops = []) := by
  unfold readOther
  simp only [run_bind, run_ite, run_pure, run_get, run_bytes_eq, zeroHash_eq]
  generalize buf.getD len 0 = letter
  generalize (v.isratification || (decide (68 ≤ opretlen) &&
    bytesAt buf len 32 == replicate 32 0)) = isratification
  constructor
  · split <;> rfl
  · rintro (hratified | ⟨hmask, hletter⟩)
    · simp [hratified]
    · rcases hletter with hletter | hletter <;> simp [hmask, hletter]

theorem run_readNamed_check (hcheck : c.fJustCheck = true) (len opretlen : Nat) (matched : Bool) :
    ((readNamed cfg c v len opretlen matched).run buf).vars.notaryid =
        (if c.j = 1 ∧ 68 ≤ opretlen ∧ matched = true then -2 else v.notaryid) ∧
      ((matched = true → (c.j = 1 ∧ 68 ≤ opretlen) ∨ (v.isratification || (decide (68 ≤ opretlen) &&
          bytesAt buf len 32 == replicate 32 0)) = true ∨
        (c.signedmask = 0 ∧ (buf.getD len 0 = 0x58 ∨ buf.getD len 0 = 0x41))) →
        ((readNamed cfg c v len opretlen matched).run buf).ops = []) := by
  unfold readNamed
  rw [run_bind, run_ite, run_ite, run_pure]
  generalize (string 10002 (len + nameOffset matched)).run buf = name
  obtain ⟨hnotary, hops⟩ := run_readNotarisation_check cfg v buf hcheck len opretlen matched name
  obtain ⟨hother, hquiet⟩ := run_readOther v buf c len opretlen
  cases matched with
  | false =>
    simp only [Bool.false_eq_true, and_false, if_false, Bool.false_and]
    split
    · exact ⟨hnotary, fun _ => hops⟩
    · exact ⟨rfl, fun _ => rfl⟩
  | true =>
    have hoffset : nameOffset true = 68 := rfl
    simp only [hoffset, and_true, Bool.true_and, true_imp_iff]
    by_cases hfirst : c.j = 1 ∧ 68 ≤ opretlen
    · simp only [if_pos hfirst]
      exact ⟨hnotary, fun _ => hops⟩
    · simp only [hfirst, if_false, false_or]
      split
      · exact ⟨hother, hquiet⟩
      · exact ⟨rfl, fun _ => rfl⟩

theorem run_readOpret_check (hcheck : c.fJustCheck = true) :
    ((readOpret cfg c v).run buf).vars.notaryid = (if holdsKey cfg buf then -1
        else if c.j = 1 ∧ 68 ≤ (opretHead buf).2 ∧ namesChain cfg buf = true then -2
        else v.notaryid) ∧
      (holdsKey cfg buf = false → (namesChain cfg buf = true → (c.j = 1 ∧ 68 ≤ (opretHead buf).2) ∨
        (v.isratification || (decide (68 ≤ (opretHead buf).2) &&
          bytesAt buf (opretHead buf).1 32 == replicate 32 0)) = true ∨
        (c.signedmask = 0 ∧ (buf.getD (opretHead buf).1 0 = 0x58 ∨
          buf.getD (opretHead buf).1 0 = 0x41))) →
        ((readOpret cfg c v).run buf).ops = []) := by
  have hnamed := run_readNamed_check cfg v buf hcheck (opretHead buf).1 (opretHead buf).2
    (namesChain cfg buf)
  have hsymbol : (compareSymbol cfg c v (opretHead buf).1 (opretHead buf).2).run buf =
      (readNamed cfg c v (opretHead buf).1 (opretHead buf).2 (namesChain cfg buf)).run buf :=
    run_bind _ _
  unfold readOpret
  simp only [run_bind, run_readHead, run_ite, run_get, run_pure, hsymbol]
  unfold holdsKey
  cases cfg.isKMD with
  | true =>
    simp only [if_true, Bool.not_true, Bool.false_and, Bool.false_eq_true, if_false, true_imp_iff]
    exact hnamed
  | false =>
    simp only [Bool.false_eq_true, if_false, Bool.not_false, Bool.true_and, beq_iff_eq]
    by_cases hkey : buf.getD (opretHead buf).1 0 = 0x4b
    · simp only [hkey, if_true]
      exact ⟨trivial, fun h => absurd h (by decide)⟩
    · simp only [hkey, if_false]
      exact ⟨hnamed.1, fun _ => hnamed.2⟩

theorem notaryid_readPubkey (c : VoutCall) (scriptlen : Nat) (hv : v.notaryid ≠ -2) :
    ((readPubkey cfg c scriptlen v).run buf).1.notaryid ≠ -2 := by
  have hnext : ∀ nid, nextNotaryid v.notaryid nid ≠ -2 := by
    intro nid
    cases nid with
    | none => exact hv
    | some nid =>
      unfold nextNotaryid
      dsimp only
      split
      · split
        · omega
        · split <;> omega
      · exact hv
  unfold readPubkey
  split
  · simp only [run_bind, run_ite, run_pure]
    split
    · split
      · exact hv
      · exact hnext _
    · exact hv
  · exact hv

theorem run_voutupdate_check (hcheck : c.fJustCheck = true) (scriptlen : Nat)
    (hv : v.notaryid ≠ -2) :
    ((voutupdate cfg c scriptlen v).run buf).vars.notaryid = -2 ↔
      c.j = 1 ∧ holdsNotarisation cfg buf = true := by
  have hpaid := notaryid_readPubkey cfg v buf c scriptlen hv
  unfold voutupdate holdsNotarisation
  simp only [run_bind, run_ite, run_pure, run_get]
  generalize ((readPubkey cfg c scriptlen v).run buf) = paid at hpaid ⊢
  have hopret := (run_readOpret_check cfg paid.1 buf hcheck).1
  by_cases hfirst : buf.getD 0 0 = 0x6a
  · simp only [hfirst, if_true, hopret, beq_self_eq_true, Bool.true_and]
    cases hkey : holdsKey cfg buf with
    | true => simp
    | false =>
      simp only [Bool.false_eq_true, if_false, Bool.not_false, Bool.true_and,
        Bool.and_eq_true, decide_eq_true_eq]
      by_cases hseen : c.j = 1 ∧ 68 ≤ (opretHead buf).2 ∧ namesChain cfg buf = true
      · rw [if_pos hseen]
        exact iff_of_true rfl ⟨hseen.1, hseen.2.2, hseen.2.1⟩
      · rw [if_neg hseen]
        exact iff_of_false hpaid fun h => hseen ⟨h.1, h.2.2, h.2.1⟩
  · simp only [hfirst, if_false]
    refine iff_of_false hpaid fun h => ?_
    simp only [Bool.and_eq_true, beq_iff_eq] at h
    exact hfirst h.2.1.1.1

theorem run_voutupdate_quiet (hcheck : c.fJustCheck = true) {script : List UInt8}
    (hquiet : VoutQuiet cfg c v script buf) :
    ((voutupdate cfg c script.length v).run buf).mined = false ∧
      ((voutupdate cfg c script.length v).run buf).ops = [] := by
  obtain ⟨hmine, hrecord⟩ := hquiet
  have hmined : ((readPubkey cfg c script.length v).run buf).2 = false := by
    unfold readPubkey
    by_cases hlen : script.length = 35
    · simp only [if_pos hlen, run_bind, run_ite, run_pure, run_get, run_bytes_eq]
      by_cases hpay : buf.getD 0 0 = 33 ∧ buf.getD 34 0 = 0xac
      · rw [if_pos hpay]
        have hnot : (decide (c.i = 0 ∧ c.j = 0 ∧ c.NOTARY_PUBKEY33 = bytesAt buf 1 33) &&
            cfg.isKomodoNotary) = false := by
          rw [Bool.and_eq_false_iff, decide_eq_false_iff_not]
          by_contra hboth
          obtain ⟨hpaid, hnotary⟩ := not_or.mp hboth
          obtain ⟨hi, hj, hkey⟩ := not_not.mp hpaid
          exact hmine ⟨hlen, hpay.1, hpay.2, hi, hj, hkey, Bool.of_not_eq_false hnotary⟩
        split <;> exact hnot
      · rw [if_neg hpay]
    · rw [if_neg hlen]
      rfl
  have hratified : ((readPubkey cfg c script.length v).run buf).1.isratification =
      v.isratification := isratification_readPubkey script.length
  unfold voutupdate
  simp only [run_bind, run_ite, run_pure, run_get]
  generalize ((readPubkey cfg c script.length v).run buf) = paid at hmined hratified ⊢
  have hopret := (run_readOpret_check cfg paid.1 buf hcheck).2
  rw [hratified] at hopret
  split
  · next hfirst =>
      obtain ⟨hkey, hnamed⟩ := hrecord hfirst
      exact ⟨hmined, hopret hkey hnamed⟩
  · exact ⟨hmined, rfl⟩

end Check

/-! ### The outputs of a transaction -/

variable {v : VoutVars} {ctx : VoutContext}

section Outputs

variable (cfg : KomodoConfig) (b : ScannedBlock)

def scripts (outs : List CTxOut) : List (List UInt8) := outs.map (·.scriptPubKey)

theorem scriptbuf_voutStep (fJustCheck : Bool) (ctx : VoutContext) (script : List UInt8)
    (v : VoutVars) (s : BlockScan) :
    (voutStep cfg fJustCheck b ctx script v s).2.scriptbuf = copyScript s.scriptbuf script := by
  unfold voutStep
  split
  · rfl
  · next hlen => rw [copyScript, if_neg hlen]

theorem scriptbuf_voutSteps (fJustCheck : Bool) (ctx : VoutContext) (outs : List CTxOut)
    (v : VoutVars) (s : BlockScan) :
    (voutSteps cfg fJustCheck b ctx outs v s).2.scriptbuf =
      (scripts outs).foldl copyScript s.scriptbuf := by
  induction outs generalizing ctx v s with
  | nil => rfl
  | cons out outs ih =>
    rw [voutSteps, ih, scriptbuf_voutStep]
    rfl

theorem notarisations_voutSteps (ctx : VoutContext) (outs : List CTxOut) (v : VoutVars)
    (s : BlockScan) :
    ∃ m, (voutSteps cfg true b ctx outs v s).2.notarisations =
      s.notarisations ++ replicate m ctx.i := by
  induction outs generalizing ctx v s with
  | nil => exact ⟨0, by simp [voutSteps]⟩
  | cons out outs ih =>
    obtain ⟨m, hm⟩ := ih { ctx with j := ctx.j + 1 }
      (voutStep cfg true b (ctx.next out) out.scriptPubKey v s).1
      (voutStep cfg true b (ctx.next out) out.scriptPubKey v s).2
    rw [voutSteps, hm]
    have hhere : (voutStep cfg true b (ctx.next out) out.scriptPubKey v s).2.notarisations =
        s.notarisations ∨
        (voutStep cfg true b (ctx.next out) out.scriptPubKey v s).2.notarisations =
          s.notarisations ++ [ctx.i] := by
      unfold voutStep
      split
      · dsimp only
        split
        · exact .inr rfl
        · exact .inl rfl
      · exact .inl rfl
    rcases hhere with hhere | hhere
    · exact ⟨m, by rw [hhere]⟩
    · refine ⟨m + 1, ?_⟩
      rw [hhere, append_assoc, replicate_succ]
      rfl

/-- The second output, whose script holds a notarisation. -/
def NotedHere (ctx : VoutContext) (script buf : List UInt8) : Prop :=
  (4 ≤ script.length ∧ script.length ≤ 10001) ∧ ctx.j = 1 ∧
    holdsNotarisation cfg (copyScript buf script) = true

instance (ctx : VoutContext) (script buf : List UInt8) :
    Decidable (NotedHere cfg ctx script buf) :=
  inferInstanceAs (Decidable (_ ∧ _))

theorem voutStep_check (ctx : VoutContext) (script : List UInt8) (s : BlockScan)
    (hv : v.notaryid ≠ -2) :
    (voutStep cfg true b ctx script v s).2.notarisations = s.notarisations ++
        (if NotedHere cfg ctx script s.scriptbuf then [ctx.i] else []) ∧
      (¬NotedHere cfg ctx script s.scriptbuf →
        (voutStep cfg true b ctx script v s).1.notaryid ≠ -2) := by
  have hseen : ((voutupdate cfg (s.call true b ctx) script.length v).run
      (copyScript s.scriptbuf script)).vars.notaryid = -2 ↔ _ :=
    run_voutupdate_check cfg v (copyScript s.scriptbuf script) rfl script.length hv
  unfold voutStep
  by_cases hlen : 4 ≤ script.length ∧ script.length ≤ 10001
  · simp only [if_pos hlen, true_and]
    constructor
    · by_cases hnoted : NotedHere cfg ctx script s.scriptbuf
      · rw [if_pos (hseen.mpr hnoted.2), if_pos hnoted]
      · rw [if_neg fun h => hnoted ⟨hlen, hseen.mp h⟩, if_neg hnoted, append_nil]
    · exact fun hnoted h => hnoted ⟨hlen, hseen.mp h⟩
  · rw [if_neg hlen, if_neg fun h => hlen h.1, append_nil]
    exact ⟨rfl, fun _ => hv⟩

theorem voutStep_other (hj : ctx.j ≠ 1) (script : List UInt8)
    (s : BlockScan) (hv : v.notaryid ≠ -2) :
    (voutStep cfg true b ctx script v s).2.notarisations = s.notarisations ∧
      (voutStep cfg true b ctx script v s).1.notaryid ≠ -2 := by
  obtain ⟨hkept, hnext⟩ := voutStep_check cfg b ctx script s hv
  have hnot : ¬NotedHere cfg ctx script s.scriptbuf := fun h => hj h.2.1
  rw [if_neg hnot, append_nil] at hkept
  exact ⟨hkept, hnext hnot⟩

theorem notarisations_later (hj : 2 ≤ ctx.j) (outs : List CTxOut)
    (s : BlockScan) (hv : v.notaryid ≠ -2) :
    (voutSteps cfg true b ctx outs v s).2.notarisations = s.notarisations := by
  induction outs generalizing ctx v s with
  | nil => rfl
  | cons out outs ih =>
    have hj' : (ctx.next out).j ≠ 1 := by
      rw [show (ctx.next out).j = ctx.j from rfl]
      omega
    obtain ⟨hkept, hnext⟩ := voutStep_other cfg b hj' out.scriptPubKey s hv
    rw [voutSteps, ih (Nat.le_succ_of_le hj) _ hnext, hkept]

def txNoted (outs : List CTxOut) (buf : List UInt8) : Bool :=
  match outs with
  | first :: out :: _ =>
    let buf := copyScript (copyScript buf first.scriptPubKey) out.scriptPubKey
    decide (4 ≤ out.scriptPubKey.length ∧ out.scriptPubKey.length ≤ 10001) &&
      holdsNotarisation cfg buf
  | _ => false

theorem voutSteps_check (hj : ctx.j = 0) (outs : List CTxOut) (s : BlockScan) :
    ∃ m, (voutSteps cfg true b ctx outs {} s).2.notarisations =
        s.notarisations ++ replicate m ctx.i ∧
      (0 < m ↔ txNoted cfg outs s.scriptbuf = true) ∧ (outs.length ≤ 2 → m ≤ 1) := by
  cases outs with
  | nil => exact ⟨0, by simp [voutSteps, txNoted]⟩
  | cons first outs =>
    have hj0 : (ctx.next first).j ≠ 1 := by
      rw [show (ctx.next first).j = ctx.j from rfl, hj]
      decide
    obtain ⟨hfirst, hv⟩ := voutStep_other cfg b hj0 first.scriptPubKey s
      (show ({} : VoutVars).notaryid ≠ -2 by decide)
    have hbuf := scriptbuf_voutStep cfg b true (ctx.next first) first.scriptPubKey {} s
    cases outs with
    | nil =>
      refine ⟨0, ?_, by simp [txNoted], fun _ => Nat.zero_le 1⟩
      rw [voutSteps, voutSteps, hfirst, replicate_zero, append_nil]
    | cons out outs =>
      rw [voutSteps, voutSteps]
      generalize voutStep cfg true b (ctx.next first) first.scriptPubKey {} s = here
        at hfirst hbuf hv ⊢
      generalize hctx : VoutContext.next { ctx with j := ctx.j + 1 } out = ctx₁
      have hj1 : ctx₁.j = 1 := by
        rw [← hctx, show (VoutContext.next { ctx with j := ctx.j + 1 } out).j = ctx.j + 1
          from rfl, hj]
      have hi1 : ctx₁.i = ctx.i := by
        rw [← hctx]
        rfl
      obtain ⟨hsecond, hv1⟩ := voutStep_check cfg b ctx₁ out.scriptPubKey here.2 hv
      have hnoted : txNoted cfg (first :: out :: outs) s.scriptbuf = true ↔
          NotedHere cfg ctx₁ out.scriptPubKey here.2.scriptbuf := by
        rw [hbuf, txNoted, NotedHere, Bool.and_eq_true, decide_eq_true_eq, and_iff_right hj1]
      generalize voutStep cfg true b ctx₁ out.scriptPubKey here.1 here.2 = there
        at hsecond hv1 ⊢
      by_cases hseen : NotedHere cfg ctx₁ out.scriptPubKey here.2.scriptbuf
      · rw [if_pos hseen, hfirst, hi1] at hsecond
        obtain ⟨m, hm⟩ := notarisations_voutSteps cfg b { ctx with j := ctx.j + 1 + 1 } outs
          there.1 there.2
        refine ⟨m + 1, ?_, iff_of_true (Nat.succ_pos m) (hnoted.mpr hseen), fun hlen => ?_⟩
        · rw [hm, hsecond, append_assoc, replicate_succ]
          rfl
        · obtain rfl : outs = [] := by
            rw [← length_eq_zero_iff]
            simp only [length_cons] at hlen
            omega
          have hzero : replicate m ctx.i = [] := append_right_eq_self.mp hm.symm
          rw [show m = 0 by simpa using hzero]
      · rw [if_neg hseen, append_nil, hfirst] at hsecond
        refine ⟨0, ?_, iff_of_false (Nat.lt_irrefl 0) (mt hnoted.mp hseen), fun _ => Nat.zero_le 1⟩
        rw [notarisations_later cfg b (Nat.le_add_left 2 ctx.j) outs there.2 (hv1 hseen),
          hsecond, replicate_zero, append_nil]

def notedTxs : Nat → List CTransaction → List UInt8 → List Nat
  | _, [], _ => []
  | i, tx :: txs, buf =>
    (if txNoted cfg tx.vout buf then [i] else []) ++
      notedTxs (i + 1) txs ((scripts tx.vout).foldl copyScript buf)

theorem le_of_mem_notedTxs {cfg : KomodoConfig} {i k : Nat} {txs : List CTransaction}
    {buf : List UInt8} (h : k ∈ notedTxs cfg i txs buf) : i ≤ k := by
  induction txs generalizing i buf with
  | nil => cases h
  | cons tx txs ih =>
    rcases mem_append.mp h with hhere | hlater
    · split at hhere
      · rw [mem_singleton.mp hhere]
      · cases hhere
    · exact Nat.le_of_succ_le (ih hlater)

theorem txStep_check (i : Nat) (tx : CTransaction) (s : BlockScan) :
    (txStep cfg true b i tx s).scriptbuf = (scripts tx.vout).foldl copyScript s.scriptbuf ∧
      ∃ m, (txStep cfg true b i tx s).notarisations = s.notarisations ++ replicate m i ∧
        (0 < m ↔ txNoted cfg tx.vout s.scriptbuf = true) ∧ (tx.vout.length ≤ 2 → m ≤ 1) := by
  have hsimulated : (simulateStep cfg b tx s).scriptbuf = s.scriptbuf ∧
      (simulateStep cfg b tx s).notarisations = s.notarisations := by
    unfold simulateStep
    split <;> exact ⟨rfl, rfl⟩
  have hstep : txStep cfg true b i tx s = (voutSteps cfg true b (txContext cfg b i tx s) tx.vout {}
      (simulateStep cfg b tx s)).2 := rfl
  obtain ⟨m, hm, hnoted, hshort⟩ := voutSteps_check cfg b
    (show (txContext cfg b i tx s).j = 0 from rfl) tx.vout (simulateStep cfg b tx s)
  rw [hsimulated.1] at hnoted
  rw [hsimulated.2] at hm
  rw [hstep, scriptbuf_voutSteps, hsimulated.1]
  exact ⟨rfl, m, hm, hnoted, hshort⟩

theorem txSteps_check (hgap : b.eraGap = false) (i : Nat) (txs : List CTransaction)
    (s : BlockScan) :
    ∃ m : Nat → Nat, (∀ k, 0 < m k) ∧
      (∀ k, (∀ tx, txs[k]? = some tx → tx.vout.length ≤ 2) → m (i + k) = 1) ∧
      (txSteps cfg true b i txs s).notarisations = s.notarisations ++
        (notedTxs cfg i txs s.scriptbuf).flatMap fun k => replicate (m k) k := by
  induction txs generalizing i s with
  | nil => exact ⟨fun _ => 1, fun _ => Nat.one_pos, fun _ _ => rfl, by simp [txSteps, notedTxs]⟩
  | cons tx txs ih =>
    obtain ⟨hbuf, m₀, hm₀, hnoted, hshort₀⟩ := txStep_check cfg b i tx s
    obtain ⟨m, hpos, hshort, hm⟩ := ih (i + 1) (txStep cfg true b i tx s)
    -- the transaction itself is the only one with this index
    refine ⟨fun k => if k = i then max m₀ 1 else m k, fun k => ?_, fun k hlen => ?_, ?_⟩
    · dsimp only
      split
      · omega
      · exact hpos k
    · cases k with
      | zero =>
        have := hshort₀ (hlen tx rfl)
        simp only [Nat.add_zero, if_true]
        omega
      | succ k =>
        have := hshort k fun tx' htx => hlen tx' htx
        dsimp only
        rwa [if_neg (by omega), show i + (k + 1) = i + 1 + k by omega]
    · have hrest : (notedTxs cfg (i + 1) txs (txStep cfg true b i tx s).scriptbuf).flatMap
          (fun k => replicate (if k = i then max m₀ 1 else m k) k) =
          (notedTxs cfg (i + 1) txs (txStep cfg true b i tx s).scriptbuf).flatMap
            fun k => replicate (m k) k := by
        refine flatMap_congr fun k hk => ?_
        have := le_of_mem_notedTxs hk
        rw [if_neg (by omega)]
      rw [txSteps, if_neg (by simp [hgap]), hm, hm₀, notedTxs, flatMap_append, ← hbuf,
        hrest, append_assoc]
      congr 2
      by_cases hseen : txNoted cfg tx.vout s.scriptbuf = true
      · have := hnoted.mpr hseen
        rw [if_pos hseen, flatMap_singleton]
        dsimp only
        rw [if_pos rfl, Nat.max_eq_left this]
      · have : m₀ = 0 := by
          have := mt hnoted.mp hseen
          omega
        rw [if_neg hseen, this]
        rfl

end Outputs

/-! ### What the check returns -/

section Verdict

variable {m : Nat → Nat} {noted : List Nat}

theorem flatMap_replicate_eq_nil (hpos : ∀ k, 0 < m k) :
    (noted.flatMap fun k => replicate (m k) k) = [] ↔ noted = [] := by
  cases noted with
  | nil => exact iff_of_true rfl rfl
  | cons k noted =>
    have := hpos k
    rw [flatMap_cons, append_eq_nil_iff]
    refine iff_of_false (fun h => ?_) (cons_ne_nil k noted)
    have : m k = 0 := by simpa using h.1
    omega

theorem eq_singleton_of_flatMap {i : Nat} (hpos : ∀ k, 0 < m k)
    (h : (noted.flatMap fun k => replicate (m k) k) = [i]) : noted = [i] := by
  cases noted with
  | nil => cases h
  | cons k noted =>
    obtain ⟨n, hn⟩ : ∃ n, m k = n + 1 := ⟨m k - 1, by have := hpos k; omega⟩
    rw [flatMap_cons, hn, replicate_succ, cons_append] at h
    obtain ⟨rfl, hrest⟩ := cons.inj h
    rw [(flatMap_replicate_eq_nil hpos).mp (append_eq_nil_iff.mp hrest).2]

theorem verdict_cases (l : List Nat) : verdict l = 0 ∨ verdict l = 1 ∨ verdict l = -1 := by
  match l with
  | [] => exact .inl rfl
  | [i] =>
    rw [verdict]
    split
    · exact .inr (.inl rfl)
    · exact .inr (.inr rfl)
  | i :: j :: l => exact .inr (.inr rfl)

theorem verdict_eq_zero_iff {l : List Nat} : verdict l = 0 ↔ l = [] := by
  match l with
  | [] => exact iff_of_true rfl rfl
  | [i] =>
    refine iff_of_false ?_ (cons_ne_nil i [])
    rw [verdict]
    split <;> decide
  | i :: j :: l => exact iff_of_false (show ¬(-1 : Int) = 0 by decide) (cons_ne_nil i _)

theorem verdict_eq_one_iff {l : List Nat} : verdict l = 1 ↔ l = [1] := by
  match l with
  | [] => exact iff_of_false (show ¬(0 : Int) = 1 by decide) (cons_ne_nil 1 []).symm
  | [i] =>
    rw [verdict]
    by_cases hi : i = 1
    · simp [hi]
    · simp [hi]
  | i :: j :: l => exact iff_of_false (show ¬(-1 : Int) = 1 by decide) (by simp)

end Verdict

/-! ### What the check leaves -/

section Quiet

variable {cfg : KomodoConfig} {b : ScannedBlock}

theorem node_voutSteps {outs : List CTxOut} {s : BlockScan}
    (hquiet : EachVout cfg true b (VoutQuiet cfg) ctx outs v s) :
    (voutSteps cfg true b ctx outs v s).2.node = s.node := by
  induction outs generalizing ctx v s with
  | nil => rfl
  | cons out outs ih =>
    obtain ⟨hhere, hlater⟩ := hquiet
    rw [voutSteps, ih hlater]
    unfold voutStep
    split
    · next hlen =>
        obtain ⟨hmined, hops⟩ := run_voutupdate_quiet cfg v _ rfl (hhere hlen.1 hlen.2)
        dsimp only
        rw [hmined, hops]
        rfl
    · rfl

theorem node_txSteps {i : Nat} {txs : List CTransaction} {s : BlockScan}
    (hsimulated : (b.regtest && b.nHeight % 7 == 0) = false)
    (hquiet : EachTx cfg true b (VoutQuiet cfg) i txs s) :
    (txSteps cfg true b i txs s).node = s.node := by
  induction txs generalizing i s with
  | nil => rfl
  | cons tx txs ih =>
    unfold EachTx at hquiet
    unfold txSteps
    split
    · rfl
    · next hstop =>
        rw [if_neg hstop] at hquiet
        rw [ih hquiet.2]
        have hstep : txStep cfg true b i tx s = (voutSteps cfg true b (txContext cfg b i tx s)
            tx.vout {} (simulateStep cfg b tx s)).2 := rfl
        have hsame : simulateStep cfg b tx s = s := by
          rw [simulateStep, hsimulated]
          rfl
        rw [hstep, node_voutSteps hquiet.1, hsame]

end Quiet

def notarisedBlock : ScannedBlock :=
  scannedBlock ({ hash := 4, nVersion := 1, vin := [], vout := [] } :: earlierBlock.vtx)

end Elosys
