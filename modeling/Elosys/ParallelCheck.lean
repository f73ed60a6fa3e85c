import Elosys.ContextualCheck

/-!
# The Parallel Check Agrees with the Sequential One

`ContextualCheckTransactionMultithreaded` accepts a list of transactions exactly when
`ContextualCheckTransaction` accepts each. The batch vectors are projections of one `Hand` of pairs
each (`Deals`), so that every spend travels with its own transaction's hash.

## Main results

* `HandsOut.passed_iff`: the workers together check every spend, output and binding signature, each
  with its own transaction's hash.
* The parallel check accepts exactly what the sequential one accepts, with any number of threads and
  in any schedule.
-/

open WorkerPool List
open scoped List

namespace Elosys

/-! ### The rules of the upgrades -/

variable (c : ContextualParams)

/-- The versions and groups the upgrades allow. -/
def VersionRules (tx : CTransaction) (nHeight : Nat) : Prop :=
  if c.networkUpgradeActive nHeight .upgradeSapling then
    (saplingMinTxVersion ≤ tx.nVersion → tx.fOverwintered = true) ∧
      (tx.fOverwintered = true → tx.nVersionGroupId = saplingVersionGroupId ∧
        saplingMinTxVersion ≤ tx.nVersion ∧ tx.nVersion ≤ saplingMaxTxVersion)
  else if c.networkUpgradeActive nHeight .upgradeOverwinter then
    (overwinterMinTxVersion ≤ tx.nVersion → tx.fOverwintered = true) ∧
      (tx.fOverwintered = true → tx.nVersionGroupId = overwinterVersionGroupId ∧
        tx.nVersion ≤ overwinterMaxTxVersion)
  else True

/-- The rules on height and transaction alone. -/
structure ContextRules (c : ContextualParams) (tx : CTransaction) (nHeight : Nat) : Prop where
  beforeOverwinter : c.networkUpgradeActive nHeight .upgradeOverwinter = false →
    tx.fOverwintered = false
  version : VersionRules c tx nHeight
  overwinter : c.networkUpgradeActive nHeight .upgradeOverwinter = true →
    tx.fOverwintered = true ∧ isExpiredTx tx nHeight = false
  size : c.networkUpgradeActive nHeight .upgradeSapling = false →
    c.serializeSize tx ≤ maxTxSizeBeforeSapling

@[simp] theorem returnIf_eq_ok {b : Bool} {dosLevel : Nat} {reasonString : String} {u : Unit} :
    returnIf b dosLevel reasonString = .ok u ↔ b = false := by
  cases b with
  | true => simp [returnIf]
  | false => simp [returnIf]

@[simp] theorem CheckTransationResults.ofReturns_passed (x : Except (Nat × String) Unit) :
    (CheckTransationResults.ofReturns x).validationPassed = true ↔ x = .ok () := by
  cases x with
  | error r => simp [ofReturns, failed]
  | ok u => simp [ofReturns]

section Rules

variable {c : ContextualParams} {tx : CTransaction} {nHeight : Nat} {dosLevel : Nat} {ibd : Bool}
  {u : Unit}

theorem checkUpgradeVersion_eq_ok :
    checkUpgradeVersion c tx nHeight dosLevel ibd = .ok u ↔ VersionRules c tx nHeight := by
  unfold checkUpgradeVersion VersionRules
  split
  · cases tx.fOverwintered <;> simp [bind_eq_ok]
  · split
    · cases tx.fOverwintered <;> simp [bind_eq_ok]
    · simp

theorem returnUpgradeVersion_eq_ok :
    returnUpgradeVersion c tx nHeight dosLevel ibd = .ok u ↔ VersionRules c tx nHeight := by
  unfold returnUpgradeVersion VersionRules
  split
  · cases tx.fOverwintered <;> simp [bind_eq_ok]
  · split
    · cases tx.fOverwintered <;> simp [bind_eq_ok]
    · simp

theorem checkOverwinterRules_eq_ok : checkOverwinterRules c tx nHeight dosLevel = .ok u ↔
      (c.networkUpgradeActive nHeight .upgradeOverwinter = true →
        tx.fOverwintered = true ∧ isExpiredTx tx nHeight = false) := by
  unfold checkOverwinterRules
  split <;> simp_all [bind_eq_ok]

theorem returnOverwinterRules_eq_ok : returnOverwinterRules c tx nHeight dosLevel = .ok u ↔
      (c.networkUpgradeActive nHeight .upgradeOverwinter = true →
        tx.fOverwintered = true ∧ isExpiredTx tx nHeight = false) := by
  unfold returnOverwinterRules
  split <;> simp_all [bind_eq_ok]

theorem singleThreaded_passed_iff :
    (contextualCheckTransactionSingleThreaded c tx nHeight dosLevel ibd).validationPassed = true ↔
      ContextRules c tx nHeight := by
  simp only [contextualCheckTransactionSingleThreaded, CheckTransationResults.ofReturns_passed,
    bind_eq_ok, returnIf_eq_ok, returnUpgradeVersion_eq_ok, returnOverwinterRules_eq_ok]
  constructor
  · rintro ⟨_, hsprout, _, hversion, _, hoverwinter, hsize⟩
    exact ⟨by simpa using hsprout, hversion, hoverwinter, by simpa using hsize⟩
  · rintro ⟨hsprout, hversion, hoverwinter, hsize⟩
    exact ⟨(), by simpa using hsprout, (), hversion, (), hoverwinter, by simpa using hsize⟩

end Rules

/-! ### The checks before the Sapling parts -/

def ownSignatureHash (nHeight : Nat) (tx : CTransaction) : UInt256 :=
  (dataToBeSigned c tx nHeight).toOption.getD UInt256.null

/-- What both check before the Sapling parts. -/
structure Prechecked (c : ContextualParams) (tx : CTransaction) (nHeight : Nat) : Prop where
  rules : ContextRules c tx nHeight
  signed : dataToBeSigned c tx nHeight = .ok (ownSignatureHash c nHeight tx)
  joinSplit : (!(tx.isMint || tx.vjoinsplit.isEmpty) &&
    !c.cryptoSignVerifyDetached tx.joinSplitSig (ownSignatureHash c nHeight tx)
      tx.joinSplitPubKey) = false
  timeLock : checkCoinbaseTimeLock c tx nHeight = .ok ()

section Prechecks

variable {c : ContextualParams} {tx : CTransaction} {nHeight dosLevel : Nat} {ibd : Bool}

theorem ownSignatureHash_eq {h : UInt256} (hsigned : dataToBeSigned c tx nHeight = .ok h) :
    ownSignatureHash c nHeight tx = h := by
  simp [ownSignatureHash, hsigned, Except.toOption]

theorem contextualCheckTransaction_eq_ok [Librustzcash] :
    contextualCheckTransaction c tx nHeight dosLevel ibd = .ok () ↔
      Prechecked c tx nHeight ∧ (c.skipsSaplingChecks nHeight = false →
        checkSapling tx (ownSignatureHash c nHeight tx) = .ok ()) := by
  simp only [contextualCheckTransaction, bind_eq_ok, rejectIf_eq_ok, checkUpgradeVersion_eq_ok,
    checkOverwinterRules_eq_ok]
  constructor
  · rintro ⟨_, hsprout, _, hversion, _, hoverwinter, _, hsize, h, hsigned, _, hjoinSplit,
      _, htimeLock, hsapling⟩
    obtain rfl := ownSignatureHash_eq hsigned
    refine ⟨⟨⟨by simpa using hsprout, hversion, hoverwinter, by simpa using hsize⟩, hsigned,
      rejectIf_eq_ok.mp hjoinSplit, htimeLock⟩, fun hskip => ?_⟩
    simpa only [hskip, Bool.false_eq_true, if_false] using hsapling
  · rintro ⟨⟨⟨hsprout, hversion, hoverwinter, hsize⟩, hsigned, hjoinSplit, htimeLock⟩, hsapling⟩
    refine ⟨(), by simpa using hsprout, (), hversion, (), hoverwinter, (), by simpa using hsize,
      _, hsigned, (), rejectIf_eq_ok.mpr hjoinSplit, (), htimeLock, ?_⟩
    split
    · rfl
    · next hskip => exact hsapling (Bool.eq_false_iff.mpr hskip)

theorem checkAndPush_eq_ok {b b' : CheckBatches} :
    checkAndPush c nHeight dosLevel ibd b tx = .ok b' ↔
      Prechecked c tx nHeight ∧ b' = if c.skipsSaplingChecks nHeight then b
        else b.pushSapling tx (ownSignatureHash c nHeight tx) := by
  simp only [checkAndPush, bind_eq_ok, rejectIf_eq_ok, Bool.not_eq_false',
    singleThreaded_passed_iff]
  constructor
  · rintro ⟨_, htimeLock, h, hsigned, _, hjoinSplit, _, hrules, hpush⟩
    obtain rfl := ownSignatureHash_eq hsigned
    exact ⟨⟨hrules, hsigned, rejectIf_eq_ok.mp hjoinSplit, htimeLock⟩, (Except.ok.inj hpush).symm⟩
  · rintro ⟨⟨hrules, hsigned, hjoinSplit, htimeLock⟩, rfl⟩
    exact ⟨(), htimeLock, _, hsigned, (), rejectIf_eq_ok.mpr hjoinSplit, (), hrules, rfl⟩

end Prechecks

/-! ### The Sapling parts of one transaction -/

theorem accumulate_verified {α κ : Type} {full add : κ → α → Bool × κ} {valid : α → Bool}
    (h : ∀ ctx a, full ctx a = ((add ctx a).1 && valid a, (add ctx a).2)) (as : List α)
    (ctx ctx' : κ) :
    accumulate full ctx as = some ctx' ↔
      accumulate add ctx as = some ctx' ∧ ∀ a ∈ as, valid a = true := by
  induction as generalizing ctx with
  | nil => simp [accumulate]
  | cons a as ih =>
    simp only [accumulate, h, Bool.and_eq_true, forall_mem_cons]
    by_cases hadd : (add ctx a).1 = true
    · by_cases hvalid : valid a = true
      · simp [hadd, hvalid, ih]
      · simp [hvalid]
    · simp [hadd]

section Sapling

variable [Librustzcash]

@[simp] theorem checkSaplingSpend_passed (p : SpendDescription × UInt256) :
    (checkSaplingSpend p).validationPassed =
      (Librustzcash.saplingCheckSpend p.2 Librustzcash.new p.1).1 := by
  unfold checkSaplingSpend
  split <;> simp_all [CheckTransationResults.failed]

@[simp] theorem checkSaplingOutput_passed (output : OutputDescription) :
    (checkSaplingOutput output).validationPassed =
      (Librustzcash.saplingCheckOutput Librustzcash.new output).1 := by
  unfold checkSaplingOutput
  split <;> simp_all [CheckTransationResults.failed]

theorem saplingCheckSpend_eq (sighash : UInt256) (ctx : Librustzcash.SaplingVerificationContext)
    (spend : SpendDescription) :
    Librustzcash.saplingCheckSpend sighash ctx spend =
      ((Librustzcash.addSaplingSpendToContext ctx spend).1 &&
        (checkSaplingSpend (spend, sighash)).validationPassed,
        (Librustzcash.addSaplingSpendToContext ctx spend).2) := by
  simp only [checkSaplingSpend_passed, Librustzcash.saplingCheckSpend,
    Librustzcash.addSaplingSpendToContext]
  cases Librustzcash.fromBytesNotSmallOrder spend.cv with
  | none => rfl
  | some cv => simp

theorem saplingCheckOutput_eq (ctx : Librustzcash.SaplingVerificationContext)
    (output : OutputDescription) :
    Librustzcash.saplingCheckOutput ctx output =
      ((Librustzcash.addSaplingOutputToContext ctx output).1 &&
        (checkSaplingOutput output).validationPassed,
        (Librustzcash.addSaplingOutputToContext ctx output).2) := by
  simp only [checkSaplingOutput_passed, Librustzcash.saplingCheckOutput,
    Librustzcash.addSaplingOutputToContext]
  cases Librustzcash.fromBytesNotSmallOrder output.cv with
  | none => rfl
  | some cv => simp

theorem checkBindingSig_passed {tx : CTransaction} {sighash : UInt256}
    (hsapling : tx.hasSapling = true) :
    (checkBindingSig (tx, sighash)).validationPassed = true ↔
      ∃ ctx ctx', accumulate Librustzcash.addSaplingSpendToContext Librustzcash.new
          tx.vShieldedSpend = some ctx ∧
        accumulate Librustzcash.addSaplingOutputToContext ctx tx.vShieldedOutput = some ctx' ∧
        Librustzcash.finalCheck ctx' tx.valueBalance tx.bindingSig sighash = true := by
  simp only [checkBindingSig, hsapling, if_true]
  cases accumulate Librustzcash.addSaplingSpendToContext Librustzcash.new tx.vShieldedSpend with
  | none => simp [CheckTransationResults.failed]
  | some ctx =>
    cases hout : accumulate Librustzcash.addSaplingOutputToContext ctx tx.vShieldedOutput with
    | none => simp [CheckTransationResults.failed, hout]
    | some ctx' =>
      cases hfinal : Librustzcash.finalCheck ctx' tx.valueBalance tx.bindingSig sighash with
      | false => simp [CheckTransationResults.failed, hout, hfinal]
      | true => simp [hout, hfinal]

theorem checkSapling_stages {tx : CTransaction} {sighash : UInt256}
    (hsapling : tx.hasSapling = true) :
    checkSapling tx sighash = .ok () ↔
      ∃ ctx ctx', accumulate (Librustzcash.saplingCheckSpend sighash) Librustzcash.new
          tx.vShieldedSpend = some ctx ∧
        accumulate Librustzcash.saplingCheckOutput ctx tx.vShieldedOutput = some ctx' ∧
        Librustzcash.finalCheck ctx' tx.valueBalance tx.bindingSig sighash = true := by
  simp only [checkSapling, hsapling, if_true]
  cases accumulate (Librustzcash.saplingCheckSpend sighash) Librustzcash.new tx.vShieldedSpend with
  | none => simp
  | some ctx =>
    cases hout : accumulate Librustzcash.saplingCheckOutput ctx tx.vShieldedOutput with
    | none => simp [hout]
    | some ctx' => simp [hout]

theorem checkSapling_eq_ok (tx : CTransaction) (sighash : UInt256) :
    checkSapling tx sighash = .ok () ↔
      (tx.hasSapling = true → (checkBindingSig (tx, sighash)).validationPassed = true) ∧
      (∀ spend ∈ tx.vShieldedSpend, (checkSaplingSpend (spend, sighash)).validationPassed = true) ∧
      (∀ output ∈ tx.vShieldedOutput, (checkSaplingOutput output).validationPassed = true) := by
  by_cases hsapling : tx.hasSapling = true
  · have hspends := accumulate_verified (saplingCheckSpend_eq sighash) tx.vShieldedSpend
    have houtputs := accumulate_verified saplingCheckOutput_eq tx.vShieldedOutput
    rw [checkSapling_stages hsapling, checkBindingSig_passed hsapling]
    constructor
    · rintro ⟨ctx, ctx', hctx, hctx', hfinal⟩
      obtain ⟨hadd, hvalid⟩ := (hspends _ _).mp hctx
      obtain ⟨hadd', hvalid'⟩ := (houtputs _ _).mp hctx'
      exact ⟨fun _ => ⟨ctx, ctx', hadd, hadd', hfinal⟩, hvalid, hvalid'⟩
    · rintro ⟨hbinding, hvalid, hvalid'⟩
      obtain ⟨ctx, ctx', hadd, hadd', hfinal⟩ := hbinding hsapling
      exact ⟨ctx, ctx', (hspends _ _).mpr ⟨hadd, hvalid⟩, (houtputs _ _).mpr ⟨hadd', hvalid'⟩,
        hfinal⟩
  · have hempty : tx.vShieldedSpend = [] ∧ tx.vShieldedOutput = [] := by
      simpa [CTransaction.hasSapling] using hsapling
    simp [checkSapling, hsapling, hempty]

end Sapling

/-! ### What a worker checks -/

variable {α : Type}

theorem checkEach_passed (check : α → CheckTransationResults) (as : List α) :
    (checkEach check as).validationPassed = true ↔ ∀ a ∈ as, (check a).validationPassed = true := by
  induction as with
  | nil => simp [checkEach]
  | cons a as ih =>
    by_cases ha : (check a).validationPassed = true
    · simp [checkEach, ha, ih]
    · simp [checkEach, ha]

@[simp] theorem pairUp_map (ps : List (α × UInt256)) :
    pairUp (ps.map Prod.fst) (ps.map Prod.snd) = ps := by
  refine ext_getElem? fun i => ?_
  cases hi : ps[i]? with
  | none => simp [pairUp, getElem?_zipIdx, hi]
  | some p => simp [pairUp, getElem?_zipIdx, hi]

namespace CheckWorker

def bindingSigs : CheckWorker → List (CTransaction × UInt256)
  | .bindingSig vtx vTxSig => pairUp vtx vTxSig
  | _ => []

def spends : CheckWorker → List (SpendDescription × UInt256)
  | .saplingSpend vSpend vSpendSig => pairUp vSpend vSpendSig
  | _ => []

def outputs : CheckWorker → List OutputDescription
  | .saplingOutput vOutput => vOutput
  | _ => []

theorem run_passed [Librustzcash] (w : CheckWorker) : w.run.validationPassed = true ↔
      (∀ p ∈ w.bindingSigs, (checkBindingSig p).validationPassed = true) ∧
      (∀ p ∈ w.spends, (checkSaplingSpend p).validationPassed = true) ∧
      (∀ output ∈ w.outputs, (checkSaplingOutput output).validationPassed = true) := by
  cases w <;> simp [run, checkEach_passed, bindingSigs, spends, outputs]

end CheckWorker

theorem forall_run_passed [Librustzcash] (ws : List CheckWorker) :
    (∀ w ∈ ws, w.run.validationPassed = true) ↔
      (∀ p ∈ ws.flatMap CheckWorker.bindingSigs, (checkBindingSig p).validationPassed = true) ∧
      (∀ p ∈ ws.flatMap CheckWorker.spends, (checkSaplingSpend p).validationPassed = true) ∧
      (∀ output ∈ ws.flatMap CheckWorker.outputs,
        (checkSaplingOutput output).validationPassed = true) := by
  simp only [CheckWorker.run_passed, mem_flatMap, forall_exists_index, and_imp]
  constructor
  · intro h
    exact ⟨fun p w hw hp => (h w hw).1 p hp, fun p w hw hp => (h w hw).2.1 p hp,
      fun o w hw ho => (h w hw).2.2 o ho⟩
  · rintro ⟨hbinding, hspends, houtputs⟩ w hw
    exact ⟨fun p hp => hbinding p w hw hp, fun p hp => hspends p w hw hp,
      fun o ho => houtputs o w hw ho⟩

/-! ### The batches in step -/

/-- The batch vectors are projections of three hands: transactions with their signature hashes,
spends with their transaction's hash, and outputs. -/
structure Deals (b : CheckBatches) (txs : Hand (CTransaction × UInt256))
    (spends : Hand (SpendDescription × UInt256)) (outputs : Hand OutputDescription) : Prop where
  vvtx : b.vvtx = txs.batches.map (map Prod.fst)
  vvTxSig : b.vvTxSig = txs.batches.map (map Prod.snd)
  t : b.t = txs.cursor
  vvSpend : b.vvSpend = spends.batches.map (map Prod.fst)
  vvSpendSig : b.vvSpendSig = spends.batches.map (map Prod.snd)
  s : b.s = spends.cursor
  vvOutput : b.vvOutput = outputs.batches
  o : b.o = outputs.cursor

variable {n : Nat}

namespace Deals

variable {b : CheckBatches} {txs : Hand (CTransaction × UInt256)}
  {spends : Hand (SpendDescription × UInt256)} {outputs : Hand OutputDescription}

theorem create (hn : 0 < n) : Deals (.create n) (.empty n hn) (.empty n hn) (.empty n hn) := by
  constructor <;> simp [CheckBatches.create, Hand.empty]

section

variable (h : Deals b txs spends outputs)

include h

theorem pushTx (tx : CTransaction) (sig : UInt256) :
    Deals (b.pushTx tx sig) (txs.deal (tx, sig)) spends outputs :=
  { h with
    vvtx := by simp [CheckBatches.pushTx, Hand.deal, map_pushAt, h.vvtx, h.t]
    vvTxSig := by simp [CheckBatches.pushTx, Hand.deal, map_pushAt, h.vvTxSig, h.t]
    t := by simp [CheckBatches.pushTx, Hand.deal, h.vvtx, h.t] }

theorem pushSpend (sig : UInt256) (spend : SpendDescription) :
    Deals (b.pushSpend sig spend) txs (spends.deal (spend, sig)) outputs :=
  { h with
    vvSpend := by simp [CheckBatches.pushSpend, Hand.deal, map_pushAt, h.vvSpend, h.s]
    vvSpendSig := by simp [CheckBatches.pushSpend, Hand.deal, map_pushAt, h.vvSpendSig, h.s]
    s := by simp [CheckBatches.pushSpend, Hand.deal, h.vvSpend, h.s] }

theorem pushOutput (output : OutputDescription) :
    Deals (b.pushOutput output) txs spends (outputs.deal output) :=
  { h with
    vvOutput := by simp [CheckBatches.pushOutput, Hand.deal, h.vvOutput, h.o]
    o := by simp [CheckBatches.pushOutput, Hand.deal, h.vvOutput, h.o] }

theorem pushSpends (sig : UInt256) (vShieldedSpend : List SpendDescription) :
    Deals (vShieldedSpend.foldl (CheckBatches.pushSpend sig) b) txs
      (spends.dealAll (vShieldedSpend.map fun spend => (spend, sig))) outputs := by
  induction vShieldedSpend generalizing b spends with
  | nil => exact h
  | cons spend rest ih => exact ih (h.pushSpend sig spend)

theorem pushOutputs (vShieldedOutput : List OutputDescription) :
    Deals (vShieldedOutput.foldl CheckBatches.pushOutput b) txs spends
      (outputs.dealAll vShieldedOutput) := by
  induction vShieldedOutput generalizing b outputs with
  | nil => exact h
  | cons output rest ih => exact ih (h.pushOutput output)

theorem pushSapling (tx : CTransaction) (sig : UInt256) :
    Deals (b.pushSapling tx sig) (txs.dealAll (if tx.hasSapling then [(tx, sig)] else []))
      (spends.dealAll (tx.vShieldedSpend.map fun spend => (spend, sig)))
      (outputs.dealAll tx.vShieldedOutput) := by
  unfold CheckBatches.pushSapling
  by_cases hsapling : tx.hasSapling = true
  · simp only [hsapling, if_true]
    exact ((h.pushTx tx sig).pushSpends sig tx.vShieldedSpend).pushOutputs tx.vShieldedOutput
  · have hempty : tx.vShieldedSpend = [] ∧ tx.vShieldedOutput = [] := by
      simpa [CTransaction.hasSapling] using hsapling
    simpa [hsapling, hempty] using h

end

theorem zipIdx_pairUp (batches : List (List (α × UInt256))) :
    ((batches.map (map Prod.fst)).zipIdx.map fun p =>
      pairUp p.1 ((batches.map (map Prod.snd)).getD p.2 [])) = batches := by
  refine ext_getElem? fun i => ?_
  cases hi : batches[i]? with
  | none => simp [getElem?_zipIdx, hi]
  | some ps => simp [getElem?_zipIdx, hi]

theorem flatMap_filter_isEmpty {α β : Type} (batches : List (List α × Nat))
    (f : List α × Nat → List β) (hempty : ∀ i, f ([], i) = []) :
    (batches.filter fun p => !p.1.isEmpty).flatMap f = batches.flatMap f := by
  induction batches with
  | nil => rfl
  | cons p batches ih =>
    obtain ⟨batch, i⟩ := p
    cases batch with
    | nil => simp [hempty, ih]
    | cons a batch => simp [ih]

theorem bindingSigs_workers (h : Deals b txs spends outputs) :
    b.workers.flatMap CheckWorker.bindingSigs = txs.batches.flatten := by
  have hpairs := flatMap_filter_isEmpty b.vvtx.zipIdx
    (fun p => pairUp p.1 (b.vvTxSig.getD p.2 [])) (fun i => rfl)
  have hdealt := zipIdx_pairUp txs.batches
  rw [← h.vvtx, ← h.vvTxSig] at hdealt
  simp only [CheckBatches.workers, flatMap_append, flatMap_map, CheckWorker.bindingSigs,
    flatMap_eq_nil_iff.mpr fun _ _ => rfl, append_nil, hpairs]
  rw [flatMap_def, hdealt]

theorem spends_workers (h : Deals b txs spends outputs) :
    b.workers.flatMap CheckWorker.spends = spends.batches.flatten := by
  have hpairs := flatMap_filter_isEmpty b.vvSpend.zipIdx
    (fun p => pairUp p.1 (b.vvSpendSig.getD p.2 [])) (fun i => rfl)
  have hdealt := zipIdx_pairUp spends.batches
  rw [← h.vvSpend, ← h.vvSpendSig] at hdealt
  simp only [CheckBatches.workers, flatMap_append, flatMap_map, CheckWorker.spends,
    flatMap_eq_nil_iff.mpr fun _ _ => rfl, append_nil, nil_append, hpairs]
  rw [flatMap_def, hdealt]

theorem outputs_workers (h : Deals b txs spends outputs) :
    b.workers.flatMap CheckWorker.outputs = outputs.batches.flatten := by
  simp only [CheckBatches.workers, flatMap_append, flatMap_map, CheckWorker.outputs,
    flatMap_eq_nil_iff.mpr fun _ _ => rfl, nil_append, flatMap_id',
    flatten_filter_not_isEmpty, h.vvOutput]

end Deals

/-! ### All transactions -/

/-- What workers are given: each transaction with Sapling parts once, with its hash; each spend
once, with its transaction's; each output once. -/
structure HandsOut (c : ContextualParams) (nHeight : Nat) (vptx : List CTransaction)
    (ws : List CheckWorker) : Prop where
  bindingSigs : ws.flatMap CheckWorker.bindingSigs ~ vptx.flatMap fun tx =>
    if tx.hasSapling then [(tx, ownSignatureHash c nHeight tx)] else []
  spends : ws.flatMap CheckWorker.spends ~ vptx.flatMap fun tx =>
    tx.vShieldedSpend.map fun spend => (spend, ownSignatureHash c nHeight tx)
  outputs : ws.flatMap CheckWorker.outputs ~ vptx.flatMap CTransaction.vShieldedOutput

def saplingVerified (nHeight : Nat) (vptx : List CTransaction) : List CTransaction :=
  if c.skipsSaplingChecks nHeight then [] else vptx

def CheckBatches.pushAll (nHeight : Nat) (b : CheckBatches)
    (vptx : List CTransaction) : CheckBatches :=
  vptx.foldl (fun b tx => b.pushSapling tx (ownSignatureHash c nHeight tx)) b

theorem Deals.pushAll {b : CheckBatches} {txs : Hand (CTransaction × UInt256)}
    {spends : Hand (SpendDescription × UInt256)} {outputs : Hand OutputDescription}
    (h : Deals b txs spends outputs) (c : ContextualParams) (nHeight : Nat)
    (vptx : List CTransaction) :
    Deals (b.pushAll c nHeight vptx) (txs.dealAll (vptx.flatMap fun tx =>
        if tx.hasSapling then [(tx, ownSignatureHash c nHeight tx)] else []))
      (spends.dealAll (vptx.flatMap fun tx =>
        tx.vShieldedSpend.map fun spend => (spend, ownSignatureHash c nHeight tx)))
      (outputs.dealAll (vptx.flatMap CTransaction.vShieldedOutput)) := by
  induction vptx generalizing b txs spends outputs with
  | nil => exact h
  | cons tx vptx ih =>
    simp only [flatMap_cons, Hand.dealAll_append]
    exact ih (h.pushSapling tx (ownSignatureHash c nHeight tx))

theorem handsOut_create (c : ContextualParams) (nHeight : Nat) (hn : 0 < n)
    (vptx : List CTransaction) :
    HandsOut c nHeight vptx ((CheckBatches.create n).pushAll c nHeight vptx).workers := by
  have hdeals := (Deals.create hn).pushAll c nHeight vptx
  refine ⟨?_, ?_, ?_⟩
  · rw [hdeals.bindingSigs_workers]
    simpa using (Hand.empty n hn).dealAll_perm _
  · rw [hdeals.spends_workers]
    simpa using (Hand.empty n hn).dealAll_perm _
  · rw [hdeals.outputs_workers]
    simpa using (Hand.empty n hn).dealAll_perm _

section All

variable {c : ContextualParams} {nHeight dosLevel : Nat} {ibd : Bool}

theorem foldlM_checkAndPush_eq_ok (vptx : List CTransaction) (b b' : CheckBatches) :
    vptx.foldlM (checkAndPush c nHeight dosLevel ibd) b = .ok b' ↔
      (∀ tx ∈ vptx, Prechecked c tx nHeight) ∧
        b' = b.pushAll c nHeight (saplingVerified c nHeight vptx) := by
  induction vptx generalizing b with
  | nil =>
    have hnone : saplingVerified c nHeight [] = [] := by simp [saplingVerified]
    simp only [foldlM_nil, not_mem_nil, false_imp_iff, implies_true, true_and, hnone]
    exact ⟨fun h => (Except.ok.inj h).symm, fun h => h ▸ rfl⟩
  | cons tx vptx ih =>
    simp only [foldlM_cons, bind_eq_ok, checkAndPush_eq_ok, ih, forall_mem_cons]
    by_cases hskip : c.skipsSaplingChecks nHeight = true
    · simp [hskip, saplingVerified, and_assoc]
    · simp [hskip, saplingVerified, and_assoc, CheckBatches.pushAll]

theorem foldl_collectResult_fst (results : List CheckTransationResults)
    (acc : Bool × CheckTransationResults) :
    (results.foldl collectResult acc).1 = true ↔
      acc.1 = true ∧ ∀ r ∈ results, r.validationPassed = true := by
  induction results generalizing acc with
  | nil => simp
  | cons r results ih =>
    rw [foldl_cons, ih]
    by_cases hr : r.validationPassed = true
    · simp [collectResult, hr]
    · simp [collectResult, hr]

theorem multithreaded_eq_ok [Librustzcash] (n : Nat) (σ : Schedule) (vptx : List CTransaction) :
    contextualCheckTransactionMultithreaded c nHeight dosLevel ibd n σ vptx = .ok () ↔
      (∀ tx ∈ vptx, Prechecked c tx nHeight) ∧
        ∀ w ∈ ((CheckBatches.create n).pushAll c nHeight (saplingVerified c nHeight vptx)).workers,
          w.run.validationPassed = true := by
  simp only [contextualCheckTransactionMultithreaded, bind_eq_ok, pushBatches,
    foldlM_checkAndPush_eq_ok, awaitAll_complete, rejectIf_eq_ok, Bool.not_eq_false',
    foldl_collectResult_fst, forall_mem_map, true_and]
  constructor
  · rintro ⟨b, ⟨hchecked, rfl⟩, hpassed⟩
    exact ⟨hchecked, hpassed⟩
  · rintro ⟨hchecked, hpassed⟩
    exact ⟨_, ⟨hchecked, rfl⟩, hpassed⟩

theorem HandsOut.passed_iff [Librustzcash] {vptx : List CTransaction} {ws : List CheckWorker}
    (h : HandsOut c nHeight vptx ws) :
    (∀ w ∈ ws, w.run.validationPassed = true) ↔
      ∀ tx ∈ vptx, checkSapling tx (ownSignatureHash c nHeight tx) = .ok () := by
  simp only [forall_run_passed, h.bindingSigs.mem_iff, h.spends.mem_iff, h.outputs.mem_iff,
    checkSapling_eq_ok, mem_flatMap, mem_map]
  constructor
  · rintro ⟨hbinding, hspends, houtputs⟩ tx htx
    exact ⟨fun hsapling => hbinding _ ⟨tx, htx, by simp [hsapling]⟩,
      fun spend hspend => hspends _ ⟨tx, htx, spend, hspend, rfl⟩,
      fun output houtput => houtputs _ ⟨tx, htx, houtput⟩⟩
  · intro h
    refine ⟨?_, ?_, ?_⟩
    · rintro p ⟨tx, htx, hp⟩
      split at hp
      · next hsapling =>
          obtain rfl := mem_singleton.mp hp
          exact (h tx htx).1 hsapling
      · exact absurd hp not_mem_nil
    · rintro p ⟨tx, htx, spend, hspend, rfl⟩
      exact (h tx htx).2.1 spend hspend
    · rintro output ⟨tx, htx, houtput⟩
      exact (h tx htx).2.2 output houtput

theorem multithreaded_iff_sequential [Librustzcash] (hn : 1 ≤ n) (σ : Schedule)
    (vptx : List CTransaction) (dosLevel' : Nat) (ibd' : Bool) :
    contextualCheckTransactionMultithreaded c nHeight dosLevel ibd n σ vptx = .ok () ↔
      ∀ tx ∈ vptx, contextualCheckTransaction c tx nHeight dosLevel' ibd' = .ok () := by
  rw [multithreaded_eq_ok, (handsOut_create c nHeight hn _).passed_iff]
  simp only [contextualCheckTransaction_eq_ok]
  by_cases hskip : c.skipsSaplingChecks nHeight = true
  · simp [saplingVerified, hskip]
  · simp [saplingVerified, hskip, forall_and]

end All

/-- **The parallel check agrees with the sequential one**, with any number of threads and in any
order of completion; the workers get every spend with its own transaction's hash. -/
theorem multithreaded_accepts_iff [Librustzcash] (c : ContextualParams) (nHeight : Nat)
    (maxProcessingThreads : Nat) (hthreads : 1 ≤ maxProcessingThreads) (σ : Schedule)
    (vptx : List CTransaction) (dosLevel dosLevel' : Nat) (ibd ibd' : Bool) :
    (contextualCheckTransactionMultithreaded c nHeight dosLevel ibd maxProcessingThreads σ vptx =
        .ok () ↔
      ∀ tx ∈ vptx, contextualCheckTransaction c tx nHeight dosLevel' ibd' = .ok ()) ∧
    (∀ b, pushBatches c nHeight dosLevel ibd maxProcessingThreads vptx = .ok b →
      HandsOut c nHeight (saplingVerified c nHeight vptx) b.workers) ∧
    (∀ n, 1 ≤ n → ∀ τ : Schedule,
      (contextualCheckTransactionMultithreaded c nHeight dosLevel ibd n τ vptx = .ok () ↔
        contextualCheckTransactionMultithreaded c nHeight dosLevel ibd maxProcessingThreads σ vptx =
          .ok ())) ∧
    (∀ τ : Schedule,
      contextualCheckTransactionMultithreaded c nHeight dosLevel ibd maxProcessingThreads τ vptx =
        contextualCheckTransactionMultithreaded c nHeight dosLevel ibd maxProcessingThreads σ
          vptx) := by
  refine ⟨multithreaded_iff_sequential hthreads σ vptx dosLevel' ibd', ?_, ?_, ?_⟩
  · intro b hb
    obtain ⟨-, rfl⟩ := (foldlM_checkAndPush_eq_ok vptx _ b).mp hb
    exact handsOut_create c nHeight hthreads _
  · intro n hn τ
    rw [multithreaded_iff_sequential hn τ vptx dosLevel' ibd',
      multithreaded_iff_sequential hthreads σ vptx dosLevel' ibd']
  · intro τ
    simp only [contextualCheckTransactionMultithreaded, awaitAll_complete]

@[reducible] def plainCommitments : Librustzcash where
  ValueCommitment := UInt256
  SaplingVerificationContext := Int
  new := 0
  fromBytesNotSmallOrder bytes := if bytes.isNull then none else some bytes
  addSpendToContext ctx cv := ctx + cv.toInt
  addOutputToContext ctx cv := ctx - cv.toInt
  spendValid _ _ _ rk _ _ sighash := rk == sighash
  outputValid cv _ epk _ := cv == epk
  finalCheck ctx valueBalance _ _ := ctx == valueBalance.toInt

def upgradedChain : ContextualParams where
  nActivationHeight _ := 1
  serializeSize _ := 1000
  contextualCheckCoinbaseTransaction _ _ := .ok true
  signatureHash tx _ := some (tx.hash + 1)
  cryptoSignVerifyDetached _ _ _ := true

def sevenToFive (hash : UInt256) : CTransaction where
  hash := hash
  fOverwintered := true
  nVersion := 4
  nVersionGroupId := 0x892F2085
  vin := []
  vout := []
  valueBalance := 2
  vShieldedSpend := [{ cv := 7, anchor := 0, nullifier := hash, rk := hash + 1, zkproof := [] }]
  vShieldedOutput := [{ cv := 5, cmu := hash, ephemeralKey := 5, zkproof := [] }]

theorem multithreaded_accepts_iff_three :
    1 ≤ 2 ∧ @contextualCheckTransactionMultithreaded upgradedChain 9 100 false plainCommitments 2
      .inOrder [sevenToFive 3, sevenToFive 4, sevenToFive 8] = .ok () := by
  refine ⟨by decide, (@multithreaded_accepts_iff plainCommitments upgradedChain 9 2 (by decide)
    .inOrder _ 100 100 false false).1.mpr ?_⟩
  intro tx htx
  simp only [mem_cons, not_mem_nil, or_false] at htx
  rcases htx with rfl | rfl | rfl <;> rfl

end Elosys
