import Elosys.Amounts
import Elosys.Program

/-!
# Extra Outputs of a Coinbase

`komodo_check_deposit` of a chain other than `KMD`: a coinbase's further outputs may not exceed the
subsidy less the first. The difference is signed where computed and unsigned where compared, so a
first output above the subsidy leaves no bound.

The loop over the outputs reads `script[0]` of every output after the second. Of an empty script
this is the inline byte of `prevector`, which is 0 in an output that was just read; the check then
goes on, and the model keeps a flag for the read.
-/

open Program List Except

namespace Elosys

/-- What the check asks of the chain: its parameters, subsidy and `komodo_checkcommission`. -/
structure DepositRules where
  commission : Bool
  saplingActive : Int32 → Bool
  maxMoney : CAmount
  getBlockSubsidy : Int32 → CAmount
  checkcommission : Int32 → Int64

/-- The variables of the loop over the extra outputs, and whether a byte of an empty script was
read. -/
structure ExtraOutputs where
  total : UInt64 := 0
  prevtotal : Int64 := 0
  strangeout : Nat := 0
  overflow : Bool := false
  readEmpty : Bool := false

/-- Whether an output is dust. -/
def isStrange (i : Nat) (o : CTxOut) : Bool :=
  decide (1 < i) && o.scriptPubKey.headD 0 != 0x6a && decide (o.nValue < 5000)

/-- Whether `script[0]` is read of an empty script. -/
def readsEmpty (i : Nat) (o : CTxOut) : Bool := decide (1 < i) && o.scriptPubKey.isEmpty

/-- The loop over the extra outputs. -/
def scanExtra (maxMoney : CAmount) : Nat → List CTxOut → ExtraOutputs → ExtraOutputs
  | _, [], st => st
  | i, o :: os, st =>
    if o.nValue < 0 ∨ maxMoney ≤ o.nValue then { st with overflow := true }
    else
      let strangeout := st.strangeout + (isStrange i o).toNat
      let readEmpty := st.readEmpty || readsEmpty i o
      let total := st.total + o.nValue.toUInt64
      if total < st.prevtotal.toUInt64 ∨ (o.nValue ≠ 0 ∧ total = st.prevtotal.toUInt64) then
        ⟨total, st.prevtotal, strangeout, true, readEmpty⟩
      else scanExtra maxMoney (i + 1) os ⟨total, total.toInt64, strangeout, st.overflow, readEmpty⟩

variable (c : DepositRules) (height : Int32)

/-- The subsidy less the first output. -/
def checktoshis : List CTxOut → Int64
  | [] => 0
  | o :: _ => (((c.getBlockSubsidy height).toUInt64) - o.nValue.toUInt64).toInt64

/-- `komodo_check_deposit`, and whether it reads a byte of an empty script. -/
def komodoCheckDeposit (vout : List CTxOut) : Int32 × Bool :=
  let commission := c.commission && decide (1 < height)
  if commission || c.saplingActive height then
    let st := scanExtra c.maxMoney 1 vout.tail {}
    let paid := if commission then c.checkcommission height else 0
    if paid < 0 then (-1, st.readEmpty)
    else
      let bound := if 1 < height ∧ paid = 0 then checktoshis c height vout else paid
      if 2 ≤ height ∧ (st.overflow ∨ bound.toUInt64 < st.total ∨ st.strangeout ≠ 0) then
        (-1, st.readEmpty)
      else (0, st.readEmpty)
  else (0, false)

/-! ### The loop -/

/-- An op_return, or an output of at least 5000. -/
def CTxOut.NotDust (o : CTxOut) : Prop :=
  o.scriptPubKey.head? = some 0x6a ∨ 5000 ≤ o.nValue

/-- The outputs that the loop looks at, with the sum of those before: up to the first amount out of
range, and as long as the sum fits into 64 bits. -/
def reached (maxMoney : CAmount) : Int → List CTxOut → List CTxOut
  | _, [] => []
  | sum, o :: os =>
    if 0 ≤ o.nValue ∧ o.nValue < maxMoney ∧ sum < 2 ^ 64 then
      o :: reached maxMoney (sum + o.nValue.toInt) os
    else []

variable {maxMoney : CAmount} {i : Nat} {o : CTxOut} {os : List CTxOut} {st : ExtraOutputs}

theorem drop_cons_two_sub (o : CTxOut) (os : List CTxOut) (hi : 1 ≤ i) :
    (o :: os).drop (2 - i) = (if 1 < i then [o] else []) ++ os.drop (2 - (i + 1)) := by
  rcases Nat.lt_or_eq_of_le hi with h | rfl
  · rw [if_pos h, Nat.sub_eq_zero_of_le h, Nat.sub_eq_zero_of_le (Nat.le_succ_of_le h)]
    rfl
  · rfl

theorem notDust_of_isStrange (hi : 1 < i) (h : isStrange i o = false) : o.NotDust := by
  rw [isStrange, decide_eq_true hi, Bool.true_and, Bool.and_eq_false_iff, bne_eq_false_iff_eq,
    decide_eq_false_iff_not, Int64.not_lt] at h
  refine h.imp_left fun hbyte => ?_
  cases hscript : o.scriptPubKey with
  | nil =>
    rw [hscript] at hbyte
    cases hbyte
  | cons b bs =>
    rw [hscript] at hbyte
    exact congrArg some hbyte

theorem toNat_add_of_not_lt {total : UInt64} {v : CAmount} (hv : 0 ≤ v.toInt)
    (h : ¬(total + v.toUInt64 < total)) :
    ((total + v.toUInt64).toNat : Int) = total.toNat + v.toInt := by
  have hcond := toNat_toUInt64_cond v
  have hlt := v.toInt_lt
  have htotal := total.toNat_lt
  rw [if_neg (by omega)] at hcond
  rw [UInt64.not_lt, UInt64.le_iff_toNat_le, UInt64.toNat_add] at h
  rw [UInt64.toNat_add]
  omega

/-- An amount in range wraps the total exactly if the sum no longer fits. -/
theorem wraps_iff {total : UInt64} {v : CAmount} (hv : 0 ≤ v.toInt) :
    (total + v.toUInt64 < total ∨ (v ≠ 0 ∧ total + v.toUInt64 = total)) ↔
      (2 : Int) ^ 64 ≤ total.toNat + v.toInt := by
  have hcond := toNat_toUInt64_cond v
  have hlt := v.toInt_lt
  have htotal := total.toNat_lt
  rw [if_neg (by omega)] at hcond
  have hzero : v ≠ 0 ↔ v.toInt ≠ 0 := not_congr (by rw [← Int64.toInt_inj]; rfl)
  rw [UInt64.lt_iff_toNat_lt, ← UInt64.toNat_inj, UInt64.toNat_add, hzero]
  omega

theorem scanExtra_ok (hi : 1 ≤ i) (hinv : st.prevtotal.toUInt64 = st.total)
    (hoverflow : (scanExtra maxMoney i os st).overflow = false) :
    st.strangeout ≤ (scanExtra maxMoney i os st).strangeout ∧ (∀ o ∈ os, 0 ≤ o.nValue.toInt) ∧
      ((scanExtra maxMoney i os st).strangeout = st.strangeout →
        ∀ o ∈ os.drop (2 - i), o.NotDust) ∧
      ((scanExtra maxMoney i os st).total.toNat : Int) =
        st.total.toNat + amountSum (os.map CTxOut.nValue) := by
  induction os generalizing i st with
  | nil => simp [scanExtra]
  | cons o os ih =>
    rw [scanExtra] at hoverflow ⊢
    split at hoverflow
    · cases hoverflow
    · next hrange =>
      rw [if_neg hrange]
      rw [not_or, Int64.not_lt, Int64.le_iff_toInt_le] at hrange
      dsimp only at hoverflow ⊢
      split at hoverflow
      · cases hoverflow
      · next hwrap =>
        rw [if_neg hwrap]
        have hnext : 1 ≤ i + 1 := Nat.le_succ_of_le hi
        obtain ⟨hle, hpos, hdust, htotal⟩ := ih hnext (by simp) hoverflow
        dsimp only at hle hdust htotal
        rw [hinv, not_or] at hwrap
        have hadd := toNat_add_of_not_lt hrange.1 hwrap.1
        refine ⟨by omega, forall_mem_cons.mpr ⟨hrange.1, hpos⟩, fun hsame => ?_, ?_⟩
        · rw [drop_cons_two_sub o os hi, forall_mem_append]
          have hnone : (isStrange i o).toNat = 0 := by omega
          refine ⟨fun o' ho' => ?_, hdust (by omega)⟩
          split at ho'
          · next hi =>
            rw [mem_singleton.mp ho']
            exact notDust_of_isStrange hi (Bool.toNat_eq_zero.mp hnone)
          · cases ho'
        · rw [map_cons, amountSum_cons, htotal, hadd]
          omega

/-- **What the loop reads**: a byte of an empty script exactly if an output after the second is
reached that has one. -/
theorem readEmpty_scanExtra (hi : 1 ≤ i) (hinv : st.prevtotal.toUInt64 = st.total) :
    (scanExtra maxMoney i os st).readEmpty = true ↔ st.readEmpty = true ∨
      ∃ o ∈ (reached maxMoney st.total.toNat os).drop (2 - i), o.scriptPubKey = [] := by
  induction os generalizing i st with
  | nil => simp [scanExtra, reached]
  | cons o os ih =>
    have htotal : (st.total.toNat : Int) < 2 ^ 64 := by exact_mod_cast st.total.toNat_lt
    rw [scanExtra]
    by_cases hrange : o.nValue < 0 ∨ maxMoney ≤ o.nValue
    · have hnone : reached maxMoney st.total.toNat (o :: os) = [] := by
        refine if_neg ?_
        rintro ⟨hlow, hhigh, -⟩
        exact hrange.elim (fun h => Int64.not_lt.mpr hlow h) (fun h => Int64.not_lt.mpr h hhigh)
      rw [if_pos hrange, hnone]
      simp
    · obtain ⟨hlow, hhigh⟩ := not_or.mp hrange
      rw [Int64.not_lt] at hlow
      rw [Int64.not_le] at hhigh
      have hreached : reached maxMoney st.total.toNat (o :: os) =
          o :: reached maxMoney (st.total.toNat + o.nValue.toInt) os :=
        if_pos ⟨hlow, hhigh, htotal⟩
      rw [if_neg hrange, hreached, drop_cons_two_sub o _ hi]
      have hvalue := Int64.le_iff_toInt_le.mp hlow
      have hhere : (∃ o' ∈ if 1 < i then [o] else [], o'.scriptPubKey = []) ↔
          readsEmpty i o = true := by
        by_cases h : 1 < i <;> simp [h, readsEmpty]
      dsimp only
      rw [hinv]
      split
      · next hwrap =>
        rw [wraps_iff hvalue] at hwrap
        have hnone : reached maxMoney (st.total.toNat + o.nValue.toInt) os = [] := by
          cases os with
          | nil => rfl
          | cons o' os => exact if_neg fun h => absurd h.2.2 (by omega)
        rw [hnone, drop_nil, append_nil, hhere, Bool.or_eq_true]
      · next hwrap =>
        have hsum : ((st.total + o.nValue.toUInt64).toNat : Int) =
            st.total.toNat + o.nValue.toInt :=
          toNat_add_of_not_lt hvalue fun hlt => hwrap (.inl hlt)
        rw [ih (Nat.le_succ_of_le hi) (by simp)]
        dsimp only
        rw [hsum, Bool.or_eq_true, or_assoc, ← hhere]
        simp only [mem_append, or_and_right, exists_or]

/-! ### The bound -/

theorem toNat_checktoshis (first : CTxOut) (os : List CTxOut) :
    ((checktoshis c height (first :: os)).toUInt64.toNat : Int) =
      ((c.getBlockSubsidy height).toInt - first.nValue.toInt) % 2 ^ 64 := by
  have hto : ∀ x : UInt64, x.toInt64.toUInt64 = x := fun x => by simp
  have hsub := toNat_toUInt64_cond (c.getBlockSubsidy height)
  have hfirst := toNat_toUInt64_cond first.nValue
  rw [checktoshis, hto, UInt64.toNat_sub]
  have hlt := first.nValue.toUInt64.toNat_lt
  split at hsub <;> split at hfirst <;> omega

/-- **The extra outputs of a coinbase**: a byte of an empty script is read exactly if an output
after the second is reached that has one; and accepted extra outputs are within the subsidy less the
first output exactly if that is not negative or nothing is extra. -/
theorem deposit_bounded_iff (hcommission : c.commission = false)
    (hsapling : c.saplingActive height = true) (hheight : 2 ≤ height)
    (first : CTxOut) (extra : List CTxOut) :
    ((komodoCheckDeposit c height (first :: extra)).2 = true ↔
      ∃ o ∈ (reached c.maxMoney 0 extra).tail, o.scriptPubKey = []) ∧
    ((komodoCheckDeposit c height (first :: extra)).1 = 0 →
      (∀ o ∈ extra, 0 ≤ o.nValue) ∧ (∀ o ∈ extra.tail, o.NotDust) ∧
      (amountSum (extra.map CTxOut.nValue) ≤
          max 0 ((c.getBlockSubsidy height).toInt - first.nValue.toInt) ↔
        first.nValue ≤ c.getBlockSubsidy height ∨ amountSum (extra.map CTxOut.nValue) = 0)) := by
  have hone : 1 < height := Int32.lt_of_lt_of_le (by decide) hheight
  have hcheck : komodoCheckDeposit c height (first :: extra) =
      if (scanExtra c.maxMoney 1 extra {}).overflow ∨
        (checktoshis c height (first :: extra)).toUInt64 <
          (scanExtra c.maxMoney 1 extra {}).total ∨
        (scanExtra c.maxMoney 1 extra {}).strangeout ≠ 0 then
        (-1, (scanExtra c.maxMoney 1 extra {}).readEmpty)
      else (0, (scanExtra c.maxMoney 1 extra {}).readEmpty) := by
    simp [komodoCheckDeposit, hcommission, hsapling, hone, hheight]
  have hread : (scanExtra c.maxMoney 1 extra {}).readEmpty = true ↔
      ∃ o ∈ (reached c.maxMoney 0 extra).tail, o.scriptPubKey = [] := by
    rw [readEmpty_scanExtra le_rfl rfl]
    simp
  rw [hcheck]
  split
  · exact ⟨hread, fun h => absurd (show (-1 : Int32) = 0 from h) (by decide)⟩
  · next hfine =>
    refine ⟨hread, fun _ => ?_⟩
    simp only [not_or, Bool.not_eq_true, not_not, UInt64.not_lt] at hfine
    obtain ⟨hoverflow, hbound, hstrange⟩ := hfine
    obtain ⟨-, hpos, hdust, htotal⟩ := scanExtra_ok le_rfl rfl hoverflow
    have hmod := toNat_checktoshis c height first extra
    have hlow := (c.getBlockSubsidy height).toInt_lt
    have hhigh := first.nValue.le_toInt
    rw [UInt64.le_iff_toNat_le] at hbound
    refine ⟨fun o ho => Int64.le_iff_toInt_le.mpr (hpos o ho), ?_, ?_⟩
    · simpa using hdust hstrange
    · rw [Int64.le_iff_toInt_le]
      change _ = (0 : Int) + _ at htotal
      omega

/-- A chain with a subsidy of 300 and a small `MAX_MONEY`. -/
def depositRules : DepositRules where
  commission := false
  saplingActive := fun _ => true
  maxMoney := 1000000000
  getBlockSubsidy := fun _ => 300
  checkcommission := fun _ => 0

theorem deposit_bounded_smallExtra :
    amountSum ([⟨100, [0x51]⟩].map CTxOut.nValue) ≤ max 0 (300 - 200) :=
  ((deposit_bounded_iff depositRules 2 rfl rfl (by decide) ⟨200, [0x51]⟩ [⟨100, [0x51]⟩]).2
    (by decide)).2.2.mpr (by decide)

/-- **A first output above the subsidy leaves no bound**; and an empty script is read, in a block
that is refused for its dust and in one that is accepted. -/
theorem deposit_unbounded :
    komodoCheckDeposit depositRules 2 [⟨301, [0x51]⟩, ⟨999999999, [0x51]⟩] = (0, false) ∧
      komodoCheckDeposit depositRules 2 [⟨200, [0x51]⟩, ⟨0, [0x51]⟩, ⟨0, []⟩] = (-1, true) ∧
      komodoCheckDeposit depositRules 2 [⟨301, [0x51]⟩, ⟨0, [0x51]⟩, ⟨5000, []⟩] = (0, true) := by
  decide

end Elosys
