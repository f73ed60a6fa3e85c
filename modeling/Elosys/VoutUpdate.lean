import Elosys.BufferRead
import Elosys.NotarisationScan

/-!
# What `komodo_voutupdate` Reads

`komodo_connectblock` copies a script over the front of a buffer of 10001 bytes and calls
`komodo_voutupdate`. An `OP_RETURN` is read where the script says its data stands, so behind a
script that says too much, or breaks off, bytes of earlier outputs are read.
-/

open ByteCodec BufferRead List

namespace Elosys

/-- What `komodo_voutupdate` is told and looks up. -/
structure VoutCall extends VoutContext where
  fJustCheck : Bool
  lastNotarizedHeight : Int32
  validateChain : UInt256 → Int32 → Bool
  chosennotary : List UInt8 → Option Nat
  NOTARY_PUBKEY33 : List UInt8

/-- The variables handed from output to output. -/
structure VoutVars extends TxScan where
  notaryid : Int := -1

/-- What comes of an output: variables, effects, and whether `KOMODO_LASTMINED` moves. -/
structure VoutResult where
  vars : VoutVars
  mined : Bool := false
  ops : List LiveOp := []

/-! ### `komodo_voutupdate` -/

/-- The notary the outputs pay; 64 for more than one. -/
def nextNotaryid (notaryid : Int) : Option Nat → Int
  | none => notaryid
  | some nid =>
    if notaryid < 64 then
      if notaryid < 0 then nid else if notaryid ≠ nid then 64 else notaryid
    else notaryid

variable (cfg : KomodoConfig) (c : VoutCall)

def readPubkey (scriptlen : Nat) (v : VoutVars) : BufProg (VoutVars × Bool) :=
  if scriptlen = 35 then do
    let first ← get 0
    let last ← get 34
    let key ← bytes 1 33
    if first = 33 ∧ last = 0xac then
      let mined := decide (c.i = 0 ∧ c.j = 0 ∧ c.NOTARY_PUBKEY33 = key) && cfg.isKomodoNotary
      if key = crypto777 then return ({ v with specialtx := true }, mined)
      else return ({ v with notaryid := nextNotaryid v.notaryid (c.chosennotary key) }, mined)
    else return (v, false)
  else return (v, false)

def readHead : BufProg (Nat × Nat) := do
  let pushed ← get 1
  if pushed = 0x4c then do
    let low ← get 2
    return (3, low.toNat)
  else if pushed = 0x4d then do
    let low ← get 2
    let high ← get 3
    return (4, low.toNat + 256 * high.toNat)
  else return (2, pushed.toNat)

/-- The data `komodo_stateupdate` copies, unless the height stops it. -/
def recordData (k n : Nat) : BufProg (List UInt8) :=
  if c.height ≤ 0 then pure [] else bytes k n

/-- Whether a MoMoM's pairs are all that is left; the numbers are `int32_t`. -/
def pairsFit (numpairs : Int32) (pos len opretlen : Nat) : Bool :=
  Int32.ofNat pos + numpairs * 8 - Int32.ofNat len == Int32.ofNat opretlen

/-- The MoMoM and its pairs, which are read and dropped. -/
def skipMoMoM (name : List UInt8) (len opretlen pos : Nat) : BufProg Unit :=
  if cfg.isKMD = false ∧ pos + 48 - len ≤ opretlen ∧ name = asciiBytes cfg.chainSymbol then do
    let _ ← bytes pos 44
    let numpairs ← bytes (pos + 44) 4
    if pairsFit (int32Of numpairs) (pos + 48) len opretlen then do
      let _ ← bytes (pos + 48) (8 * (int32Of numpairs).toNatClampNeg)
      return ()
    else return ()
  else return ()

def readMoM (name : List UInt8) (len opretlen pos : Nat) :
    BufProg (Option (UInt256 × Int32) × Nat) :=
  if pos + 36 - len ≤ opretlen then do
    let MoM ← bytes pos 32
    let MoMdepth ← bytes (pos + 32) 4
    if pos + 40 - len ≤ opretlen then do
      let _ ← bytes (pos + 36) 4
      skipMoMoM cfg name len opretlen (pos + 40)
      return (some (uint256Of MoM, int32Of MoMdepth), pos + 40)
    else return (some (uint256Of MoM, int32Of MoMdepth), pos + 36)
  else return (none, pos)

def Notarisation.ofFields (srchash : UInt256) (notarizedheight : Int32) (desttxid : UInt256)
    (mom : Option (UInt256 × Int32)) : Notarisation :=
  let MoM := (mom.map Prod.fst).getD .null
  let MoMdepth := (mom.map Prod.snd).getD 0
  let impossible := MoM = .null ∨ notarizedheight < MoMdepth &&& 0xffff ∨ MoMdepth &&& 0xffff < 0
  { notarizedheight := notarizedheight
    srchash := srchash
    desttxid := desttxid
    MoM := if impossible then .null else MoM
    MoMdepth := if impossible then 0 else MoMdepth }

/-- The extra data behind a notarisation of `KMD`. -/
def readExtra (opretlen pos : Nat) : BufProg (Option StateUpdate) :=
  if cfg.isKMD ∧ pos < opretlen then do
    let letter ← get pos
    if letter = 0x41 then do
      let pushed ← get 1
      let n := opretlen - pos + 4 + 3 + if pushed = 0x4d then 1 else 0
      let data ← recordData c pos n
      return some (opretUpdate c.toVoutContext data n)
    else return none
  else return none

def countsNotarized (matched : Bool) (name : List UInt8) : Bool :=
  c.notarized || (!matched && c.signedmask != 0 &&
    decide (minRatify c.height ≤ bitweight c.signedmask)) || countsUnsigned name

def nameOffset (matched : Bool) : Nat := if matched then 68 else 36

/-- Output 1, if long enough for a notarisation. -/
def readNotarisation (v : VoutVars) (len opretlen : Nat)
    (matched : Bool) (name : List UInt8) : BufProg VoutResult := do
  let srchash ← bytes len 32
  let height ← bytes (len + 32) 4
  let desttxid ← bytes (len + 36) (if matched then 32 else 0)
  let seen := { v with notarizedheight := int32Of height }
  let validated := !matched || c.validateChain (uint256Of srchash) (int32Of height)
  -- a matched notarisation that can be read is enough for the check
  if c.fJustCheck && matched then return { vars := { seen with notaryid := -2 } }
  else if countsNotarized c matched name && validated then do
    let mom ← readMoM cfg name len opretlen (len + nameOffset matched + (name.length + 1))
    if matched ∧ c.lastNotarizedHeight < int32Of height ∧ int32Of height < c.height then do
      let extra ← readExtra cfg c opretlen mom.2
      let n := Notarisation.ofFields (uint256Of srchash) (int32Of height) (uint256Of desttxid)
        mom.1
      return { vars := seen, ops := [.notarisation c.height n extra] }
    else return { vars := seen }
  else return { vars := seen }

/-- Another `OP_RETURN` with this chain's symbol. -/
def readOther (v : VoutVars) (len opretlen : Nat) : BufProg VoutResult := do
  let hash ← bytes len (if 68 ≤ opretlen then 32 else 0)
  let isratification := v.isratification ||
    (decide (68 ≤ opretlen) && hash == replicate 32 0)
  let letter ← get len
  let seen := { v with isratification := isratification }
  if !isratification && (c.signedmask != 0 || (letter != 0x58 && letter != 0x41)) then do
    let data ← recordData c len opretlen
    return { vars := seen, ops := [.update (opretUpdate c.toVoutContext data opretlen)] }
  else return { vars := seen }

section

variable (cfg : KomodoConfig) (c : VoutCall)

/-- Behind the symbol; `strlen` reads up to the zero, or past the end. -/
def readNamed (v : VoutVars) (len opretlen : Nat) (matched : Bool) : BufProg VoutResult := do
  let name ← string 10002 (len + nameOffset matched)
  if c.j = 1 ∧ nameOffset matched ≤ opretlen then
    readNotarisation cfg c v len opretlen matched name
  else if matched && !(c.i = 0 ∧ c.j = 1 ∧ opretlen = 149) then readOther c v len opretlen
  else return { vars := v }

def compareSymbol (v : VoutVars) (len opretlen : Nat) : BufProg VoutResult := do
  let matched ← matchesString (asciiBytes cfg.symbol) (len + 68)
  readNamed cfg c v len opretlen matched

/-- An `OP_RETURN`; a key-value one starts with a `K`. -/
def readOpret (v : VoutVars) : BufProg VoutResult := do
  let head ← readHead
  if cfg.isKMD then compareSymbol cfg c v head.1 head.2
  else do
    let letter ← get head.1
    if letter = 0x4b then do
      let data ← recordData c head.1 head.2
      return {
        vars := { v with notaryid := -1 }
        ops := [.update (opretUpdate c.toVoutContext data head.2)] }
    else compareSymbol cfg c v head.1 head.2

/-- `komodo_voutupdate`. -/
def voutupdate (scriptlen : Nat) (v : VoutVars) : BufProg VoutResult := do
  let paid ← readPubkey cfg c scriptlen v
  let first ← get 0
  if first = 0x6a then do
    let r ← readOpret cfg c paid.1
    return { r with mined := paid.2 }
  else return { vars := paid.1, mined := paid.2 }

end

/-! ### Scripts that are read to their end at most -/

/-- The recorded data from a position on are all there. -/
def RecordFits (c : VoutCall) (script : List UInt8) (k n : Nat) : Prop :=
  c.height ≤ 0 ∨ n = 0 ∨ k + n ≤ script.length

def fieldsEnd (script name : List UInt8) (len opretlen pos : Nat) : Nat :=
  if pos + 36 - len ≤ opretlen then
    if pos + 40 - len ≤ opretlen then
      if cfg.isKMD = false ∧ pos + 88 - len ≤ opretlen ∧ name = asciiBytes cfg.chainSymbol then
        let numpairs := int32Of (bytesAt script (pos + 84) 4)
        if pairsFit numpairs (pos + 88) len opretlen then pos + 88 + 8 * numpairs.toNatClampNeg
        else pos + 88
      else pos + 40
    else pos + 36
  else pos

/-- Where extra data start, behind MoM and `CCid`. -/
def momStop (len opretlen pos : Nat) : Nat :=
  if pos + 36 - len ≤ opretlen then if pos + 40 - len ≤ opretlen then pos + 40 else pos + 36
  else pos

def ExtraFits (script : List UInt8) (opretlen pos : Nat) : Prop :=
  cfg.isKMD → pos < opretlen → pos < script.length ∧ (script.getD pos 0 = 0x41 →
    RecordFits c script pos
      (opretlen - pos + 4 + 3 + if script.getD 1 0 = 0x4d then 1 else 0))

/-- A notarisation's fields are there as far as read. -/
def NotarisationFits (cfg : KomodoConfig) (c : VoutCall) (script name : List UInt8)
    (len opretlen : Nat) (matched : Bool) : Prop :=
  let pos := len + nameOffset matched + (name.length + 1)
  let notarizedheight := int32Of (bytesAt script (len + 32) 4)
  (c.fJustCheck && matched) = false → countsNotarized c matched name = true →
    (matched = true → c.validateChain (uint256Of (bytesAt script len 32)) notarizedheight) →
    fieldsEnd cfg script name len opretlen pos ≤ script.length ∧
      (matched = true → c.lastNotarizedHeight < notarizedheight → notarizedheight < c.height →
        ExtraFits cfg c script opretlen (momStop len opretlen pos))

/-- Another `OP_RETURN`'s data are there, if recorded. -/
def OtherFits (c : VoutCall) (ratified : Bool) (script : List UInt8) (len opretlen : Nat) :
    Prop :=
  let isratification := ratified ||
    (decide (68 ≤ opretlen) && bytesAt script len 32 == replicate 32 0)
  isratification = false →
    (c.signedmask != 0 || (script.getD len 0 != 0x58 && script.getD len 0 != 0x41)) = true →
    RecordFits c script len opretlen

/-- The symbol and what follows it ends within the script. -/
def NamedFits (cfg : KomodoConfig) (c : VoutCall) (ratified : Bool) (script : List UInt8)
    (len opretlen : Nat) : Prop :=
  let matched := decide (asciiBytes cfg.symbol ++ [0] <+: script.drop (len + 68))
  let name := cStringAt script (len + nameOffset matched)
  ¬script.drop (len + 68) <+: asciiBytes cfg.symbol ∧
    0 ∈ script.drop (len + nameOffset matched) ∧
    if c.j = 1 ∧ nameOffset matched ≤ opretlen then
      NotarisationFits cfg c script name len opretlen matched
    else (matched && !(c.i = 0 ∧ c.j = 1 ∧ opretlen = 149)) = true →
      OtherFits c ratified script len opretlen

/-- **The script holds what it says**: an `OP_RETURN` ends neither within its symbol nor before
the data read of it. `ratified` is `isratification` as it was. -/
def VoutFits (ratified : Bool) (script : List UInt8) : Prop :=
  let len := (opretHead script).1
  let opretlen := (opretHead script).2
  script.getD 0 0 = 0x6a →
    if cfg.isKMD then NamedFits cfg c ratified script len opretlen
    else len < script.length ∧
      if script.getD len 0 = 0x4b then RecordFits c script len opretlen
      else NamedFits cfg c ratified script len opretlen

instance (c : VoutCall) (script : List UInt8) (k n : Nat) : Decidable (RecordFits c script k n) :=
  inferInstanceAs (Decidable (_ ∨ _ ∨ _))

instance (cfg : KomodoConfig) (c : VoutCall) (script : List UInt8) (opretlen pos : Nat) :
    Decidable (ExtraFits cfg c script opretlen pos) :=
  inferInstanceAs (Decidable (_ → _ → _ ∧ (_ → _)))

instance (cfg : KomodoConfig) (c : VoutCall) (script name : List UInt8) (len opretlen : Nat)
    (matched : Bool) : Decidable (NotarisationFits cfg c script name len opretlen matched) :=
  inferInstanceAs (Decidable (_ → _ → (_ → _) → _ ∧ (_ → _ → _ → _)))

instance (c : VoutCall) (ratified : Bool) (script : List UInt8) (len opretlen : Nat) :
    Decidable (OtherFits c ratified script len opretlen) :=
  inferInstanceAs (Decidable (_ → _ → _))

instance (cfg : KomodoConfig) (c : VoutCall) (ratified : Bool) (script : List UInt8)
    (len opretlen : Nat) : Decidable (NamedFits cfg c ratified script len opretlen) := by
  delta NamedFits
  infer_instance

instance (cfg : KomodoConfig) (c : VoutCall) (ratified : Bool) (script : List UInt8) :
    Decidable (VoutFits cfg c ratified script) := by
  delta VoutFits
  infer_instance

/-! ### Part by part -/

section Parts

variable {cfg : KomodoConfig} {c : VoutCall} {v : VoutVars} {script : List UInt8}

@[simp] theorem run_bytes_eq (k n : Nat) : (bytes k n).run script = bytesAt script k n :=
  run_bytes k n

theorem run_string_eq {fuel k : Nat} (h : script.length < k + fuel) :
    (string fuel k).run script = cStringAt script k :=
  run_string h

@[simp] theorem run_readHead : readHead.run script = opretHead script := by
  simp only [readHead, run_bind, run_get, run_ite, run_pure, opretHead]

theorem readsIn_readHead (h : 4 ≤ script.length) : readHead.ReadsIn script := by
  simp only [readHead, readsIn_bind, readsIn_get, run_get]
  refine ⟨by omega, ?_⟩
  split
  · simp only [readsIn_bind, readsIn_get, readsIn_pure, and_true]
    omega
  · split
    · simp only [readsIn_bind, readsIn_get, readsIn_pure, and_true]
      omega
    · trivial

theorem readsIn_readPubkey : (readPubkey cfg c script.length v).ReadsIn script := by
  unfold readPubkey
  split
  · next hlen =>
      simp only [readsIn_bind, readsIn_get, readsIn_bytes, readsIn_ite, readsIn_pure, ite_self,
        and_true]
      omega
  · trivial

theorem isratification_readPubkey (scriptlen : Nat) :
    ((readPubkey cfg c scriptlen v).run script).1.isratification = v.isratification := by
  unfold readPubkey
  split
  · simp only [run_bind, run_ite, run_pure]
    split
    · split <;> rfl
    · rfl
  · rfl

theorem readsIn_recordData (k n : Nat) :
    (recordData c k n).ReadsIn script ↔ RecordFits c script k n := by
  unfold recordData RecordFits
  by_cases hheight : c.height ≤ 0
  · simp [hheight]
  · simp [hheight]

variable {name : List UInt8}

theorem readsIn_skipMoMoM {len opretlen pos : Nat} (hpos : pos ≤ script.length) :
    (skipMoMoM cfg name len opretlen pos).ReadsIn script ↔
      (if cfg.isKMD = false ∧ pos + 48 - len ≤ opretlen ∧ name = asciiBytes cfg.chainSymbol then
        let numpairs := int32Of (bytesAt script (pos + 44) 4)
        if pairsFit numpairs (pos + 48) len opretlen then pos + 48 + 8 * numpairs.toNatClampNeg
        else pos + 48
      else pos) ≤ script.length := by
  unfold skipMoMoM
  split
  · simp only [readsIn_bind, readsIn_bytes, run_bytes_eq]
    split
    · simp only [readsIn_bind, readsIn_bytes, readsIn_pure, and_true]
      omega
    · simp only [readsIn_pure, and_true]
      omega
  · simp [hpos]

theorem readsIn_readMoM {len opretlen pos : Nat} (hpos : pos ≤ script.length) :
    (readMoM cfg name len opretlen pos).ReadsIn script ↔
      fieldsEnd cfg script name len opretlen pos ≤ script.length := by
  unfold readMoM fieldsEnd
  split
  · simp only [readsIn_bind, readsIn_bytes, run_bytes_eq]
    split
    · simp only [readsIn_bind, readsIn_bytes, readsIn_pure, and_true]
      constructor
      · rintro ⟨-, -, hccid, hskip⟩
        exact (readsIn_skipMoMoM (by omega)).mp hskip
      · intro hend
        have hccid : pos + 40 ≤ script.length := by
          refine Nat.le_trans ?_ hend
          split
          · split <;> omega
          · omega
        exact ⟨by omega, by omega, by omega, (readsIn_skipMoMoM hccid).mpr hend⟩
    · simp only [readsIn_pure, and_true]
      omega
  · simp [hpos]

@[simp] theorem run_readMoM_snd (name : List UInt8) (len opretlen pos : Nat) :
    ((readMoM cfg name len opretlen pos).run script).2 = momStop len opretlen pos := by
  unfold readMoM momStop
  split
  · simp only [run_bind, run_ite, run_pure]
    split <;> rfl
  · rfl

theorem readsIn_readExtra (h : 2 ≤ script.length) (opretlen pos : Nat) :
    (readExtra cfg c opretlen pos).ReadsIn script ↔ ExtraFits cfg c script opretlen pos := by
  unfold readExtra ExtraFits
  by_cases hextra : cfg.isKMD ∧ pos < opretlen
  · rw [if_pos hextra]
    simp only [hextra.1, hextra.2, readsIn_bind, readsIn_get, run_get, true_imp_iff]
    refine and_congr_right fun _ => ?_
    by_cases hletter : script.getD pos 0 = 0x41
    · simp only [hletter, if_true, readsIn_bind, readsIn_get, run_get, readsIn_recordData,
        readsIn_pure, and_true, true_imp_iff]
      exact and_iff_right (by omega)
    · simp only [hletter, if_false, readsIn_pure, false_imp_iff]
  · rw [if_neg hextra]
    refine iff_of_true trivial fun hkmd hlt => absurd ⟨hkmd, hlt⟩ hextra

variable {len opretlen : Nat}

theorem readsIn_readNotarisation {matched : Bool} (hhead : 2 ≤ script.length)
    (hname : len + nameOffset matched + (name.length + 1) ≤ script.length) :
    (readNotarisation cfg c v len opretlen matched name).ReadsIn script ↔
      NotarisationFits cfg c script name len opretlen matched := by
  have hoffset : 36 ≤ nameOffset matched ∧ (matched = true → nameOffset matched = 68) := by
    cases matched <;> decide
  have hdest : (if matched = true then 32 else 0) = 0 ∨
      len + 36 + (if matched = true then 32 else 0) ≤ script.length := by
    cases matched with
    | false => exact .inl rfl
    | true =>
      have := hoffset.2 rfl
      refine .inr ?_
      rw [if_pos rfl]
      omega
  unfold readNotarisation NotarisationFits
  simp only [readsIn_bind, readsIn_bytes, run_bytes_eq]
  rw [and_iff_right (by omega), and_iff_right (by omega), and_iff_right hdest]
  generalize (c.fJustCheck && matched) = checked
  generalize hcounts : countsNotarized c matched name = counts
  generalize hvalid : c.validateChain (uint256Of (bytesAt script len 32))
    (int32Of (bytesAt script (len + 32) 4)) = valid
  have hvalidated : (matched = true → valid = true) ↔ (!matched || valid) = true := by
    cases matched <;> cases valid <;> decide
  rw [hvalidated]
  cases checked with
  | true => simp
  | false =>
    cases counts with
    | false => simp
    | true =>
      by_cases hval : (!matched || valid) = true
      · simp only [readsIn_bind, readsIn_readMoM hname, hval, true_imp_iff,
          run_readMoM_snd, readsIn_ite, readsIn_readExtra hhead, readsIn_pure, and_true]
        refine and_congr_right fun _ => ?_
        by_cases hnew : matched = true ∧
            c.lastNotarizedHeight < int32Of (bytesAt script (len + 32) 4) ∧
            int32Of (bytesAt script (len + 32) 4) < c.height
        · simp [hnew]
        · rw [if_neg hnew]
          exact iff_of_true trivial fun h₁ h₂ h₃ => absurd ⟨h₁, h₂, h₃⟩ hnew
      · simp [hval]

theorem zeroHash_eq (buf : List UInt8) (len opretlen : Nat) : (decide (68 ≤ opretlen) &&
      bytesAt buf len (if 68 ≤ opretlen then 32 else 0) == replicate 32 0) =
        (decide (68 ≤ opretlen) && bytesAt buf len 32 == replicate 32 0) := by
  by_cases hsize : 68 ≤ opretlen
  · rw [if_pos hsize]
  · simp [hsize]

theorem readsIn_readOther {len : Nat} (hlen : len + 32 ≤ script.length) (opretlen : Nat) :
    (readOther c v len opretlen).ReadsIn script ↔
      OtherFits c v.isratification script len opretlen := by
  have hhash : (if 68 ≤ opretlen then 32 else 0) = 0 ∨
      len + (if 68 ≤ opretlen then 32 else 0) ≤ script.length := by
    split <;> omega
  unfold readOther OtherFits
  simp only [readsIn_bind, readsIn_bytes, readsIn_get, run_bytes_eq, run_get, zeroHash_eq]
  rw [and_iff_right hhash, and_iff_right (by omega)]
  generalize (v.isratification || (decide (68 ≤ opretlen) &&
    bytesAt script len 32 == replicate 32 0)) = isratification
  generalize (c.signedmask != 0 || (script.getD len 0 != 0x58 && script.getD len 0 != 0x41)) =
    recorded
  cases isratification with
  | true => simp
  | false =>
    cases recorded with
    | false => simp
    | true => simp [readsIn_recordData]

theorem add_length_cStringAt {k : Nat} (h : 0 ∈ script.drop k) :
    k + ((cStringAt script k).length + 1) ≤ script.length := by
  have hprefix := takeWhile_prefix (fun b : UInt8 => decide (b ≠ 0)) (l := script.drop k)
  have hlt : (cStringAt script k).length < (script.drop k).length := by
    refine Nat.lt_of_le_of_ne hprefix.length_le fun hall => ?_
    have hmem : 0 ∈ cStringAt script k := by
      rwa [show cStringAt script k = script.drop k from hprefix.eq_of_length hall]
    simpa using mem_takeWhile_imp hmem
  rw [length_drop] at hlt
  omega

theorem readsIn_readNamed {matched : Bool}
    (hmax : script.length ≤ 10001) (hhead : 2 ≤ script.length) :
    (readNamed cfg c v len opretlen matched).ReadsIn script ↔
      0 ∈ script.drop (len + nameOffset matched) ∧ if c.j = 1 ∧ nameOffset matched ≤ opretlen then
          NotarisationFits cfg c script (cStringAt script (len + nameOffset matched)) len opretlen
            matched
        else (matched && !(c.i = 0 ∧ c.j = 1 ∧ opretlen = 149)) = true →
          OtherFits c v.isratification script len opretlen := by
  unfold readNamed
  rw [readsIn_bind, readsIn_string (by omega), run_string_eq (by omega)]
  refine and_congr_right fun hzero => ?_
  have hend := add_length_cStringAt hzero
  have hoffset : 36 ≤ nameOffset matched := by
    cases matched <;> decide
  rw [readsIn_ite, readsIn_ite, readsIn_pure]
  split
  · exact readsIn_readNotarisation hhead (by omega)
  · rw [readsIn_readOther (by omega)]
    split
    · next hother => exact (true_imp_iff.symm.trans (imp_congr_left (iff_of_true trivial hother)))
    · next hother => exact iff_of_true trivial fun h => absurd h hother

theorem readsIn_compareSymbol (hmax : script.length ≤ 10001) (hhead : 2 ≤ script.length) :
    (compareSymbol cfg c v len opretlen).ReadsIn script ↔
      NamedFits cfg c v.isratification script len opretlen := by
  unfold compareSymbol NamedFits
  rw [readsIn_bind, readsIn_matches]
  refine and_congr_right fun hsymbol => ?_
  rw [run_matches_of_readsIn hsymbol]
  exact readsIn_readNamed hmax hhead

theorem readsIn_readOpret (hmax : script.length ≤ 10001) (hhead : 4 ≤ script.length) :
    (readOpret cfg c v).ReadsIn script ↔ if cfg.isKMD then
        NamedFits cfg c v.isratification script (opretHead script).1 (opretHead script).2
      else (opretHead script).1 < script.length ∧ if script.getD (opretHead script).1 0 = 0x4b then
          RecordFits c script (opretHead script).1 (opretHead script).2
        else
          NamedFits cfg c v.isratification script (opretHead script).1 (opretHead script).2 := by
  unfold readOpret
  rw [readsIn_bind, run_readHead, and_iff_right (readsIn_readHead hhead), readsIn_ite,
    readsIn_compareSymbol hmax (by omega)]
  split
  · rfl
  · simp [readsIn_bind, readsIn_get, run_get, readsIn_ite, readsIn_recordData, readsIn_pure,
      readsIn_compareSymbol hmax (show 2 ≤ script.length by omega)]

end Parts

theorem readsIn_voutupdate (cfg : KomodoConfig) (c : VoutCall) (v : VoutVars)
    {script : List UInt8} (hmin : 4 ≤ script.length) (hmax : script.length ≤ 10001) :
    (voutupdate cfg c script.length v).ReadsIn script ↔ VoutFits cfg c v.isratification script := by
  unfold voutupdate VoutFits
  simp only [readsIn_bind, readsIn_get, run_get, readsIn_ite, readsIn_pure, and_true,
    readsIn_readOpret hmax hmin, isratification_readPubkey]
  rw [and_iff_right readsIn_readPubkey, and_iff_right (by omega)]
  split
  · next hopret => simp only [hopret, true_imp_iff]
  · next hopret => simp only [hopret, false_imp_iff]

end Elosys
