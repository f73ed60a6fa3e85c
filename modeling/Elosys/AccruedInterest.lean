import Elosys.ConnectBlock

/-!
# Accrued Interest

`komodo_accrued_interest` looks up the time of the block at a height, but `komodo_interest_args`
sets it to zero and takes that of the tip: the interest at any height is that at the tip.

Two chains that agree up to the height then still give the same interest where `komodo_interest`
takes the same from the times of their tips: nothing within the first hour of the lock time, and
later the minutes since, at most those of a year, and whether the tip is from before the 5th of
April 2017 (`tipShare`).
-/

namespace Elosys

variable (txheight : Int32) (nValue : UInt64) (nLockTime tiptime : UInt32)

/-- `_komodo_interestnew`, the rule from height 1000000 on. -/
def komodoInterestnew : UInt64 :=
  let minutes := ((tiptime - nLockTime) / 60).toNat
  if 500000000 ≤ nLockTime ∧ nLockTime < tiptime ∧ 60 ≤ minutes then
    let minutes := min minutes (365 * 24 * 60)
    let minutes := if 1000000 ≤ txheight then min minutes (31 * 24 * 60) else minutes
    let res := nValue / 10512000 * UInt64.ofNat (minutes - 59)
    -- `nS7HardforkHeight`
    if 3484958 ≤ txheight then res / 500 else res
  else 0

/-- The outputs above 25000 coins that had been paid before the rule for them. -/
def interestExceptions : List (Int32 × UInt64) :=
  [(116607, 2502721100000), (126891, 2879650000000), (129510, 3000000000000),
    (141549, 3500000000000), (154473, 3983399350000), (154736, 3983406748175),
    (155013, 3983414006565), (155492, 3983427592291), (155613, 9997409999999797),
    (157927, 9997410667451072), (155613, 2590000000000), (155949, 4000000000000)]

/-- `komodo_interest`: 5% a year on outputs of 10 coins or more, from an hour after the lock time.
-/
def komodoInterest (isKMD : Bool) : UInt64 :=
  let minutes := ((tiptime - nLockTime) / 60).toNat
  if isKMD ∧ txheight < 7777777 ∧ 500000000 ≤ nLockTime ∧ tiptime ≠ 0 ∧ nLockTime < tiptime ∧
      10 * 100000000 ≤ nValue ∧ 60 ≤ minutes then
    let minutes := min minutes (365 * 24 * 60)
    let minutes := UInt64.ofNat (if 250000 ≤ txheight then minutes - 59 else minutes)
    let denominator := max 1 (365 * 24 * 60 / minutes)
    let numerator := nValue * 5000000
    if 25000 * 100000000 < nValue then
      if txheight ≤ 155949 ∧ (txheight, nValue) ∈ interestExceptions then
        numerator / denominator / 100000000
      else if txheight < 250000 then nValue / 20 / denominator
      else if txheight < 1000000 then nValue / 20 * minutes / (365 * 24 * 60)
      else komodoInterestnew txheight nValue nLockTime tiptime
    else if txheight < 250000 ∨ tiptime < 1491350400 then
      if txheight < 250000 ∨ numerator * minutes < 365 * 24 * 60 then
        numerator / denominator / 100000000
      else numerator * minutes / (365 * 24 * 60) / 100000000
    else if txheight < 1000000 then nValue / 20 * minutes / (365 * 24 * 60)
    else komodoInterestnew txheight nValue nLockTime tiptime
  else 0

/-! ### The interest on an output -/

/-- What interest is looked up in: the chain's block times, the transactions with their blocks,
and block heights. -/
structure InterestWorld where
  isKMD : Bool
  chainActive : List UInt32
  getTransaction : UInt256 → Option (CTransaction × UInt256)
  blockIndex : UInt256 → Option (Int32 × UInt32)

/-- What `komodo_interest_args` gives back; a lock time of 0 says that there is no such output. -/
structure InterestArgs where
  locktime : UInt32 := 0
  txheight : Int32 := 0
  tiptime : UInt32 := 0
  value : UInt64 := 0

variable (w : InterestWorld) (hash : UInt256) (n : Nat)

/-- The time of `chainActive.Tip()`. -/
def InterestWorld.tipTime : UInt32 := w.chainActive.getLast?.getD 0

/-- `komodo_interest_args`; the given time is set to zero. -/
def komodoInterestArgs (_tiptime : UInt32) : InterestArgs :=
  let tiptime : UInt32 := 0
  match w.getTransaction hash with
  | none => {}
  | some (tx, hashBlock) =>
    match tx.vout[n]?, w.blockIndex hashBlock with
    | some o, some (nHeight, _) =>
      { locktime := UInt32.ofNat tx.nLockTime
        txheight := nHeight
        tiptime := if tiptime = 0 then w.tipTime else tiptime
        value := o.nValue.toUInt64 }
    | _, _ => {}

/-- The output is found, and it is the one that the caller expects. -/
def InterestArgs.Due (args : InterestArgs) (checkheight : Int32) (checkvalue : UInt64) : Prop :=
  args.locktime ≠ 0 ∧ (checkvalue = 0 ∨ args.value = checkvalue) ∧
    (checkheight = 0 ∨ args.txheight = checkheight)

instance (args : InterestArgs) (checkheight : Int32) (checkvalue : UInt64) :
    Decidable (args.Due checkheight checkvalue) := inferInstanceAs (Decidable (_ ∧ _))

/-- `komodo_accrued_interest`. -/
def komodoAccruedInterest (checkheight : Int32) (checkvalue : UInt64) (tipheight : Nat) : UInt64 :=
  let args := komodoInterestArgs w hash n (w.chainActive[tipheight]?.getD 0)
  if args.Due checkheight checkvalue then
    komodoInterest args.txheight args.value args.locktime args.tiptime w.isKMD
  else 0

/-- A chain's rules with this interest, at a height. -/
def ConsensusParams.withInterest (c : ConsensusParams) (height : Nat) : ConsensusParams :=
  { c with
    isKMD := w.isKMD
    chainTipHeight := height
    accruedInterest := fun o value height =>
      (komodoAccruedInterest w o.hash o.n 0 value.toUInt64 height).toInt64 }

/-! ### Two chains -/

/-- The transaction is in a block of at most that height. -/
def InterestWorld.Confirmed (height : Int32) : Prop :=
  ∃ tx hashBlock nHeight nTime, w.getTransaction hash = some (tx, hashBlock) ∧
    w.blockIndex hashBlock = some (nHeight, nTime) ∧ nHeight ≤ height

/-- Two chains with the same blocks up to a height. -/
structure AgreeTo (height : Nat) (w w' : InterestWorld) : Prop where
  isKMD : w.isKMD = w'.isKMD
  chainActive : ∀ i ≤ height, w.chainActive[i]? = w'.chainActive[i]?
  transactions : ∀ {hash tx hashBlock nHeight nTime}, w.getTransaction hash = some (tx, hashBlock) →
    w.blockIndex hashBlock = some (nHeight, nTime) → nHeight ≤ Int32.ofNat height →
    w'.getTransaction hash = some (tx, hashBlock) ∧ w'.blockIndex hashBlock = some (nHeight, nTime)

variable {w hash} {w' : InterestWorld} {height : Nat}

/-- What `komodo_interest` takes from the time of the tip. -/
def tipShare (nLockTime tiptime : UInt32) : Option (Nat × Bool) :=
  let minutes := ((tiptime - nLockTime) / 60).toNat
  if tiptime ≠ 0 ∧ nLockTime < tiptime ∧ 60 ≤ minutes then
    some (min minutes (365 * 24 * 60), decide (tiptime < 1491350400))
  else none

theorem komodoInterest_congr {nLockTime tiptime tiptime' : UInt32}
    (h : tipShare nLockTime tiptime = tipShare nLockTime tiptime') (txheight : Int32)
    (nValue : UInt64) (isKMD : Bool) :
    komodoInterest txheight nValue nLockTime tiptime isKMD =
      komodoInterest txheight nValue nLockTime tiptime' isKMD := by
  have hnone : ∀ {t : UInt32}, tipShare nLockTime t = none →
      komodoInterest txheight nValue nLockTime t isKMD = 0 := by
    intro t ht
    refine if_neg fun hdue => ?_
    have hsome : tipShare nLockTime t = _ :=
      if_pos ⟨hdue.2.2.2.1, hdue.2.2.2.2.1, hdue.2.2.2.2.2.2⟩
    rw [ht] at hsome
    cases hsome
  cases hshare : tipShare nLockTime tiptime with
  | none => rw [hnone hshare, hnone (h ▸ hshare)]
  | some share =>
    have hshare' := h ▸ hshare
    simp only [tipShare] at hshare hshare'
    split at hshare
    · next htip =>
      split at hshare'
      · next htip' =>
        obtain ⟨hminutes, hearly⟩ := Prod.mk.inj
          ((Option.some.inj hshare).trans (Option.some.inj hshare').symm)
        have hearly' := decide_eq_decide.mp hearly
        simp only [komodoInterest, komodoInterestnew, htip.1, htip.2.1, htip.2.2, htip'.1,
          htip'.2.1, htip'.2.2, hminutes, hearly', ne_eq, not_false_eq_true, true_and, and_true]
      · cases hshare'
    · cases hshare

theorem accrued_eq (h : AgreeTo height w w')
    (hconfirmed : w.Confirmed hash (Int32.ofNat height)) {n : Nat}
    (hshare : tipShare (komodoInterestArgs w hash n 0).locktime w.tipTime =
      tipShare (komodoInterestArgs w hash n 0).locktime w'.tipTime) (checkheight : Int32)
    (checkvalue : UInt64) :
    komodoAccruedInterest w hash n checkheight checkvalue height =
      komodoAccruedInterest w' hash n checkheight checkvalue height := by
  obtain ⟨tx, hashBlock, nHeight, nTime, htx, hindex, hle⟩ := hconfirmed
  obtain ⟨htx', hindex'⟩ := h.transactions htx hindex hle
  simp only [komodoInterestArgs, htx, hindex] at hshare
  simp only [komodoAccruedInterest, komodoInterestArgs, htx, htx', hindex, hindex', ← h.isKMD]
  cases hout : tx.vout[n]? with
  | none => rfl
  | some o =>
    rw [hout] at hshare
    simp only [if_true, InterestArgs.Due]
    split
    · exact komodoInterest_congr hshare _ _ _
    · rfl

theorem transparentValueIn_congr [NoteTrees] {c c' : ConsensusParams} (is : List CTxIn)
    (h : ∀ i ∈ is, ∀ value, inputInterest c c.chainTipHeight i value =
      inputInterest c' c'.chainTipHeight i value) (total : CAmount × CAmount) :
    transparentValueIn c total is = transparentValueIn c' total is := by
  induction is generalizing total with
  | nil => rfl
  | cons i is ih =>
    obtain ⟨hi, his⟩ := List.forall_mem_cons.mp h
    simp only [transparentValueIn, hi, ih his]

/-- A chain of four blocks with an output of 100 coins in the second, and the tip's time. -/
def interestChain (tip : UInt32) : InterestWorld where
  isKMD := true
  chainActive := [1600000000, 1600000060, 1600000120, tip]
  getTransaction := fun _ => some
    ({ hash := 7, nVersion := 1, vin := [], vout := [⟨10000000000, []⟩],
       nLockTime := 1600000000 }, 1)
  blockIndex := fun _ => some (1, 1600000060)

theorem agreeTo_interestChain (tip tip' : UInt32) :
    AgreeTo 2 (interestChain tip) (interestChain tip') where
  isKMD := rfl
  chainActive := fun i hi => by
    obtain rfl | rfl | rfl : i = 0 ∨ i = 1 ∨ i = 2 := by omega
    all_goals rfl
  transactions := fun htx hindex _ => ⟨htx, hindex⟩

end Elosys
