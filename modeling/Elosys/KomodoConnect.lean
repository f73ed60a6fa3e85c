import Elosys.VoutUpdate

/-!
# Connecting and Checking a Block

`komodo_connectblock` with its check-only flag, over `komodo_voutupdate` as a program that reads the
script buffer. Only the check returns the verdict, and it does not keep the state from what
`komodo_voutupdate` does before it looks at the flag.
-/

open ByteCodec BufferRead

namespace Elosys

/-! ### `komodo_connectblock` -/

/-- A block with what `komodo_voutupdate` looks up. -/
structure ScannedBlock extends KomodoBlock where
  chosennotary : List UInt8 → Option Nat := fun _ => none
  NOTARY_PUBKEY33 : List UInt8 := []

/-- A node's state with the counters of `komodo_connectblock`. -/
structure KomodoNode extends LiveNode where
  hwmheight : Int32 := 0
  KOMODO_LASTMINED : Int32 := 0
  prevKOMODO_LASTMINED : Int32 := 0

def applyOp (cfg : KomodoConfig) (s : LiveNode) (op : LiveOp) : LiveNode :=
  match liveStep cfg s op with
  | .ok s' => s'
  | .error _ => s

def KomodoNode.apply (cfg : KomodoConfig) (n : KomodoNode) (ops : List LiveOp) : KomodoNode :=
  { n with toLiveNode := ops.foldl (applyOp cfg) n.toLiveNode }

/-- The counters, if a block was mined by this notary. -/
def KomodoNode.setMined (n : KomodoNode) (height : Int32) (mined : Bool) : KomodoNode :=
  if mined then
    { n with
      prevKOMODO_LASTMINED := n.KOMODO_LASTMINED
      KOMODO_LASTMINED := height }
  else n

/-- What `komodo_event_rewind` does to the height last mined. A second rewind to the same height
leaves it as it is. -/
def KomodoNode.undoMined (cfg : KomodoConfig) (n : KomodoNode) (height : Int32) : KomodoNode :=
  if cfg.isKMD ∧ height ≤ n.KOMODO_LASTMINED ∧ n.prevKOMODO_LASTMINED ≠ 0 then
    { n with
      KOMODO_LASTMINED := n.prevKOMODO_LASTMINED
      prevKOMODO_LASTMINED := 0 }
  else n

/-- What the loop over the transactions works on. -/
structure BlockScan where
  node : KomodoNode
  scriptbuf : List UInt8
  pubkeys : List (List UInt8)
  notarisations : List Nat := []

section Scan

variable (cfg : KomodoConfig) (fJustCheck : Bool) (b : ScannedBlock)

/-- The call of `komodo_voutupdate` for an output. -/
def BlockScan.call (s : BlockScan) (ctx : VoutContext) : VoutCall where
  toVoutContext := ctx
  fJustCheck := fJustCheck
  lastNotarizedHeight := s.node.sp.last.notarizedHeight
  validateChain := b.validateChain
  chosennotary := b.chosennotary
  NOTARY_PUBKEY33 := b.NOTARY_PUBKEY33

def voutStep (ctx : VoutContext) (script : List UInt8) (v : VoutVars) (s : BlockScan) :
    VoutVars × BlockScan :=
  if 4 ≤ script.length ∧ script.length ≤ 10001 then
    let scriptbuf := copyScript s.scriptbuf script
    let r := (voutupdate cfg (s.call fJustCheck b ctx) script.length v).run scriptbuf
    (r.vars, { s with
      node := (s.node.setMined ctx.height r.mined).apply cfg r.ops
      scriptbuf := scriptbuf
      notarisations :=
        if fJustCheck ∧ r.vars.notaryid = -2 then s.notarisations ++ [ctx.i]
        else s.notarisations })
  else (v, s)

def VoutContext.next (ctx : VoutContext) (out : CTxOut) : VoutContext :=
  { ctx with value := out.nValue.toUInt64 }

/-- The outputs of a transaction from index `ctx.j` on. -/
def voutSteps : VoutContext → List CTxOut → VoutVars → BlockScan → VoutVars × BlockScan
  | _, [], v, s => (v, s)
  | ctx, out :: outs, v, s =>
    let here := voutStep cfg fJustCheck b (ctx.next out) out.scriptPubKey v s
    voutSteps { ctx with j := ctx.j + 1 } outs here.1 here.2

/-- The front of the transaction loop: a regression-test block taken for notarised. -/
def simulateStep (tx : CTransaction) (s : BlockScan) : BlockScan :=
  if b.regtest && b.nHeight % 7 == 0 then
    { s with node := s.node.apply cfg [.simulated b.nHeight b.hash tx.hash] }
  else s

def txContext (i : Nat) (tx : CTransaction) (s : BlockScan) : VoutContext :=
  let signedmask := signedMask b.toKomodoBlock s.pubkeys i tx
  { height := b.nHeight
    txhash := tx.hash
    i := i
    j := 0
    value := 0
    notarized := enoughSigned cfg b.toKomodoBlock signedmask || (b.regtest && b.nHeight % 7 == 0)
    signedmask := signedmask }

/-- The end of the transaction loop: new notaries. -/
def ratifyStep (ctx : VoutContext) (tx : CTransaction) (v : VoutVars) (s : BlockScan) :
    BlockScan :=
  if fJustCheck then s
  else
    let ratified := ratifyOps cfg b.toKomodoBlock s.pubkeys tx ctx.signedmask ctx.notarized
      v.toTxScan
    { s with
      node := s.node.apply cfg ratified.1
      scriptbuf := ratifiedBuf tx ctx.notarized v.toTxScan s.scriptbuf
      pubkeys := ratified.2 }

def txStep (i : Nat) (tx : CTransaction) (s : BlockScan) : BlockScan :=
  let ctx := txContext cfg b i tx s
  let scanned := voutSteps cfg fJustCheck b ctx tx.vout {} (simulateStep cfg b tx s)
  ratifyStep cfg fJustCheck b ctx tx scanned.1 scanned.2

/-- The transactions of a block from index `i` on. -/
def txSteps : Nat → List CTransaction → BlockScan → BlockScan
  | _, [], s => s
  | i, tx :: txs, s =>
    if b.eraGap || (!fJustCheck && decide (1 < i) && b.notaryPay) then s
    else txSteps (i + 1) txs (txStep cfg fJustCheck b i tx s)

/-- The high-water mark is raised or lowered to the block; a block that is connected at or below it
rewinds the events first. -/
def connectStart (n : KomodoNode) : KomodoNode :=
  let raised := { n with hwmheight := b.nHeight }
  let rewound :=
    if n.hwmheight < b.nHeight ∨ fJustCheck = true then raised
    else (raised.undoMined cfg b.nHeight).apply cfg [.rewind b.nHeight,
      .update { height := b.nHeight, KMDheight := -b.nHeight, KMDtimestamp := b.nTime }]
  rewound.apply cfg [.currentHeight b.tipHeight]

def verdict : List Nat → Int
  | [] => 0
  | [i] => if i = 1 then 1 else -1
  | _ => -1

def scanStart (scriptbuf : List UInt8) (n : KomodoNode) : BlockScan where
  node := connectStart cfg fJustCheck b n
  scriptbuf := scriptbuf
  pubkeys := b.pubkeys

/-- `komodo_connectblock`, with the state it leaves. The block's height is the final high-water
mark, so the state is always updated. -/
def connectblock (scriptbuf : List UInt8) (n : KomodoNode) : Int × KomodoNode :=
  let s := txSteps cfg fJustCheck b 0 b.vtx (scanStart cfg fJustCheck b scriptbuf n)
  if fJustCheck then (verdict s.notarisations, s.node)
  else (0, s.node.apply cfg
    [.update { height := b.nHeight, KMDheight := b.nHeight, KMDtimestamp := b.nTime }])

/-! ### Every call of `komodo_voutupdate` -/

variable (P : VoutCall → VoutVars → List UInt8 → List UInt8 → Prop)

def EachVout : VoutContext → List CTxOut → VoutVars → BlockScan → Prop
  | _, [], _, _ => True
  | ctx, out :: outs, v, s =>
    let here := voutStep cfg fJustCheck b (ctx.next out) out.scriptPubKey v s
    (4 ≤ out.scriptPubKey.length → out.scriptPubKey.length ≤ 10001 →
      P (s.call fJustCheck b (ctx.next out)) v out.scriptPubKey
        (copyScript s.scriptbuf out.scriptPubKey)) ∧
      EachVout { ctx with j := ctx.j + 1 } outs here.1 here.2

/-- Every call for a block's transactions has a property. -/
def EachTx : Nat → List CTransaction → BlockScan → Prop
  | _, [], _ => True
  | i, tx :: txs, s =>
    if b.eraGap || (!fJustCheck && decide (1 < i) && b.notaryPay) then True
    else EachVout cfg fJustCheck b P (txContext cfg b i tx s) tx.vout {} (simulateStep cfg b tx s) ∧
      EachTx (i + 1) txs (txStep cfg fJustCheck b i tx s)

/-- Every call of `komodo_voutupdate` has a property. -/
def EachCall (scriptbuf : List UInt8) (n : KomodoNode) : Prop :=
  EachTx cfg fJustCheck b P 0 b.vtx (scanStart cfg fJustCheck b scriptbuf n)

variable {P}

instance EachVout.decidable [∀ c v script buf, Decidable (P c v script buf)] :
    ∀ (ctx : VoutContext) (outs : List CTxOut) (v : VoutVars) (s : BlockScan),
      Decidable (EachVout cfg fJustCheck b P ctx outs v s)
  | _, [], _, _ => .isTrue trivial
  | ctx, out :: outs, v, s =>
    let here := voutStep cfg fJustCheck b (ctx.next out) out.scriptPubKey v s
    have := EachVout.decidable { ctx with j := ctx.j + 1 } outs here.1 here.2
    inferInstanceAs (Decidable ((_ → _ → _) ∧ _))

instance EachTx.decidable [∀ c v script buf, Decidable (P c v script buf)] :
    ∀ (i : Nat) (txs : List CTransaction) (s : BlockScan),
      Decidable (EachTx cfg fJustCheck b P i txs s)
  | _, [], _ => .isTrue trivial
  | i, tx :: txs, s =>
    have := EachTx.decidable (i + 1) txs (txStep cfg fJustCheck b i tx s)
    if h : (b.eraGap || (!fJustCheck && decide (1 < i) && b.notaryPay)) = true then
      .isTrue (by rw [EachTx, if_pos h]; trivial)
    else
      decidable_of_iff
        (EachVout cfg fJustCheck b P (txContext cfg b i tx s) tx.vout {} (simulateStep cfg b tx s) ∧
          EachTx cfg fJustCheck b P (i + 1) txs (txStep cfg fJustCheck b i tx s))
        (by rw [EachTx, if_neg h])

instance [∀ c v script buf, Decidable (P c v script buf)] (scriptbuf : List UInt8)
    (n : KomodoNode) : Decidable (EachCall cfg fJustCheck b P scriptbuf n) :=
  EachTx.decidable cfg fJustCheck b 0 b.vtx (scanStart cfg fJustCheck b scriptbuf n)

end Scan

/-! ### What the buffer has to do with it -/

section Contents

variable {cfg : KomodoConfig} {fJustCheck : Bool} {b : ScannedBlock}

def BlockScan.SameBut (s s' : BlockScan) : Prop := ∃ buf, s' = { s with scriptbuf := buf }

theorem copyScript_eq {buf script : List UInt8} (h : 4 ≤ script.length ∧ script.length ≤ 10001) :
    copyScript buf script = script ++ buf.drop script.length :=
  if_pos h

/-- The script holds what it says, whatever the buffer. -/
def FitsCall (cfg : KomodoConfig) (c : VoutCall) (v : VoutVars) (script _buf : List UInt8) : Prop :=
  VoutFits cfg c v.isratification script

instance (cfg : KomodoConfig) (c : VoutCall) (v : VoutVars) (script buf : List UInt8) :
    Decidable (FitsCall cfg c v script buf) :=
  inferInstanceAs (Decidable (VoutFits cfg c v.isratification script))

variable {s s' : BlockScan}

theorem sameBut_voutStep {ctx : VoutContext} {script : List UInt8} {v : VoutVars}
    (hsame : s.SameBut s') (hfits : 4 ≤ script.length → script.length ≤ 10001 →
      VoutFits cfg (s.call fJustCheck b ctx) v.isratification script) :
    (voutStep cfg fJustCheck b ctx script v s).1 = (voutStep cfg fJustCheck b ctx script v s').1 ∧
      (voutStep cfg fJustCheck b ctx script v s).2.SameBut
        (voutStep cfg fJustCheck b ctx script v s').2 := by
  obtain ⟨buf, rfl⟩ := hsame
  unfold voutStep
  by_cases hlen : 4 ≤ script.length ∧ script.length ≤ 10001
  · have hreads := (readsIn_voutupdate cfg (s.call fJustCheck b ctx) v hlen.1 hlen.2).mpr
      (hfits hlen.1 hlen.2)
    have hrun : ∀ buf, (voutupdate cfg (s.call fJustCheck b ctx) script.length v).run
        (copyScript buf script) =
          (voutupdate cfg (s.call fJustCheck b ctx) script.length v).run script := by
      intro buf
      rw [copyScript_eq hlen, hreads.run_append]
    have hcall : BlockScan.call fJustCheck b { s with scriptbuf := buf } ctx =
        s.call fJustCheck b ctx := rfl
    simp only [if_pos hlen, hcall, hrun]
    exact ⟨trivial, _, rfl⟩
  · simp only [if_neg hlen]
    exact ⟨trivial, buf, rfl⟩

theorem sameBut_voutSteps {ctx : VoutContext} {outs : List CTxOut} {v : VoutVars}
    (hsame : s.SameBut s') (hfits : EachVout cfg fJustCheck b (FitsCall cfg) ctx outs v s) :
    (voutSteps cfg fJustCheck b ctx outs v s).1 = (voutSteps cfg fJustCheck b ctx outs v s').1 ∧
      (voutSteps cfg fJustCheck b ctx outs v s).2.SameBut
        (voutSteps cfg fJustCheck b ctx outs v s').2 := by
  induction outs generalizing ctx v s s' with
  | nil => exact ⟨rfl, hsame⟩
  | cons out outs ih =>
    obtain ⟨hv, hstep⟩ := sameBut_voutStep hsame hfits.1
    rw [voutSteps, voutSteps, ← hv]
    exact ih hstep hfits.2

theorem sameBut_txStep {i : Nat} {tx : CTransaction} (hsame : s.SameBut s')
    (hfits : EachVout cfg fJustCheck b (FitsCall cfg) (txContext cfg b i tx s) tx.vout {}
      (simulateStep cfg b tx s)) :
    (txStep cfg fJustCheck b i tx s).SameBut (txStep cfg fJustCheck b i tx s') := by
  have hsimulated : (simulateStep cfg b tx s).SameBut (simulateStep cfg b tx s') := by
    obtain ⟨buf, rfl⟩ := hsame
    unfold simulateStep
    split <;> exact ⟨buf, rfl⟩
  have hctx : txContext cfg b i tx s' = txContext cfg b i tx s := by
    obtain ⟨buf, rfl⟩ := hsame
    rfl
  obtain ⟨hv, buf, hscan⟩ := sameBut_voutSteps hsimulated hfits
  unfold txStep
  rw [hctx]
  dsimp only
  rw [← hv, hscan]
  unfold ratifyStep
  split
  · exact ⟨buf, rfl⟩
  · exact ⟨_, rfl⟩

theorem sameBut_txSteps {i : Nat} {txs : List CTransaction}
    (hsame : s.SameBut s') (hfits : EachTx cfg fJustCheck b (FitsCall cfg) i txs s) :
    (txSteps cfg fJustCheck b i txs s).SameBut (txSteps cfg fJustCheck b i txs s') := by
  induction txs generalizing i s s' with
  | nil => exact hsame
  | cons tx txs ih =>
    unfold EachTx at hfits
    unfold txSteps
    split
    · exact hsame
    · next hstop =>
        rw [if_neg hstop] at hfits
        exact ih (sameBut_txStep hsame hfits.1) hfits.2

end Contents

/-- **What a block does is independent of the buffer** while its scripts hold what they say, which
is exactly if no byte behind them is read. -/
theorem connectblock_of_contents (cfg : KomodoConfig) (fJustCheck : Bool) :
    (∀ (c : VoutCall) (v : VoutVars) (script : List UInt8), 4 ≤ script.length →
      script.length ≤ 10001 →
      ((∀ stale, ∀ k ∈ (voutupdate cfg c script.length v).positions (script ++ stale),
          k < script.length) ∧
        (∀ stale stale', (voutupdate cfg c script.length v).run (script ++ stale) =
          (voutupdate cfg c script.length v).run (script ++ stale')) ↔
        VoutFits cfg c v.isratification script)) ∧
    ∀ (b : ScannedBlock) (n : KomodoNode) (buf buf' : List UInt8),
      EachCall cfg fJustCheck b (FitsCall cfg) buf n →
      connectblock cfg fJustCheck b buf n = connectblock cfg fJustCheck b buf' n := by
  constructor
  · intro c v script hmin hmax
    rw [← readsIn_voutupdate cfg c v hmin hmax, ← readsIn_iff]
    constructor
    · exact And.left
    · intro hreads
      exact ⟨hreads, fun stale stale' => by rw [hreads.run_append, hreads.run_append]⟩
  · intro b n buf buf' hfits
    have hstart : (scanStart cfg fJustCheck b buf n).SameBut
        (scanStart cfg fJustCheck b buf' n) := ⟨buf', rfl⟩
    obtain ⟨buf₁, hscan⟩ := sameBut_txSteps hstart hfits
    unfold connectblock
    rw [hscan]

def scannedBlock (vtx : List CTransaction) : ScannedBlock where
  toKomodoBlock := { earlierBlock with vtx := vtx }

/-- A notarisation whose script holds what it says ignores the buffer. -/
theorem connectblock_of_contents_notarised :
    EachCall assetChain false (scannedBlock earlierBlock.vtx) (FitsCall assetChain) []
        { sp := {} } ∧
      connectblock assetChain false (scannedBlock earlierBlock.vtx) [] { sp := {} } =
        connectblock assetChain false (scannedBlock earlierBlock.vtx) (List.replicate 10001 7)
          { sp := {} } := by
  have hfits : EachCall assetChain false (scannedBlock earlierBlock.vtx) (FitsCall assetChain) []
      { sp := {} } := by
    decide +kernel
  exact ⟨hfits, (connectblock_of_contents assetChain false).2 _ _ _ _ hfits⟩

def shortKeyTx : CTransaction where
  hash := 3
  nVersion := 1
  vin := []
  vout := [⟨0, [0x6a, 5, 0x4b, 1]⟩]

/-- **What an earlier output left in the buffer is recorded**, in event and state file. -/
theorem stale_bytes_recorded :
    let left := connectblock assetChain false (scannedBlock [shortKeyTx]) [] { sp := {} }
    let right := connectblock assetChain false (scannedBlock [shortKeyTx]) (List.replicate 8 7)
      { sp := {} }
    left.2.sp.events.take 1 = [.opreturn ⟨20, 3, 0, 0, [0x4b, 1, 0, 0, 0]⟩] ∧
      right.2.sp.events.take 1 = [.opreturn ⟨20, 3, 0, 0, [0x4b, 1, 7, 7, 7]⟩] ∧
      left.2.file ≠ right.2.file := by
  decide +kernel

end Elosys
