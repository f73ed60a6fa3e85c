import Elosys.Assets

/-!
# Filling Offers

What `AssetsValidate` makes sure of when an offer is filled. For an offer to buy, prices are
compared the wrong way round, and not at all if the filler takes back tokens in a fifth output; for
an offer to sell, after rounding, and what is left is divided by unseen.

A fill is the data of a transaction that names an offer (`AssetFill`). `FairBuyFill` and
`FairSellFill` say what a fill should keep to, `BuyFillMeets` and `SellFillMeets` what the filler
has to be kept besides because no check does; `fillbuy_fair` and `fillsell_fair_iff` connect the two
for every accepted fill, and say when the validation ends in a trap.
-/

open List Except

namespace Elosys

section

variable [CryptoHash] [CCLibrary] {cp : CCcontractInfo} {world : CCWorld} {tx : CTransaction}
  {t : Trap}

/-! ### Fills -/

omit [CryptoHash] [CCLibrary] in
/-- A transaction whose second input spends an offer's first output. -/
structure AssetFill (world : CCWorld) (tx : CTransaction) where
  opret : AssetOpret
  offerTx : CTransaction
  offer : AssetOpret
  locked : CTxOut
  vout0 : CTxOut
  vout1 : CTxOut
  vout2 : CTxOut
  opret_eq : assetOpretOf tx = some opret
  spends : ∃ i, tx.vin[1]? = some i ∧ i.prevout.n = 0 ∧
    world.getTx i.prevout.hash = some offerTx
  locked_eq : offerTx.vout[0]? = some locked
  offer_eq : assetOpretOf offerTx = some offer
  vout0_eq : tx.vout[0]? = some vout0
  vout1_eq : tx.vout[1]? = some vout1
  vout2_eq : tx.vout[2]? = some vout2

variable {h : AssetsHead}

namespace AssetFill

variable (f : AssetFill world tx)

include f
omit [CryptoHash] [CCLibrary]

theorem vin0 : ∃ i, tx.vin[0]? = some i := by
  obtain ⟨i, hi, -⟩ := f.spends
  obtain ⟨hlen, -⟩ := List.getElem?_eq_some_iff.mp hi
  exact ⟨_, List.getElem?_eq_getElem (by omega)⟩

variable [CCLibrary]

theorem ccvin_ok {vin : AssetVin} (h : assetValidateCCvin cp world tx 1 = .ok vin) :
    vin.vinTx = f.offerTx ∧ vin.nValue = f.locked.nValue ∧ f.locked.nValue ≠ 0 := by
  simp only [assetValidateCCvin, bind_eq_ok, invalidIf_eq_ok, vinAt_eq_ok, someOrInvalid_eq_ok,
    voutAt_eq_ok] at h
  obtain ⟨-, -, i, hi, -, -, vinTx, hvinTx, -, -, addrs, -, vout0, hvout0, -, hne, hret⟩ := h
  obtain ⟨j, hj, -, hoffer⟩ := f.spends
  obtain rfl := Option.some.inj (hi.symm.trans hj)
  obtain rfl := Option.some.inj (hvinTx.symm.trans hoffer)
  obtain rfl := Option.some.inj (hvout0.symm.trans f.locked_eq)
  obtain rfl := ok.inj hret
  exact ⟨rfl, rfl, by simpa using hne⟩

theorem ccvin_ne_trap : assetValidateCCvin cp world tx 1 ≠ .error (.trap t) := by
  intro h
  obtain ⟨i, hi, hn, hoffer⟩ := f.spends
  have hsource : ∀ funcid, checkAssetsSource cp funcid f.offerTx 0 ≠ .error (.trap t) := by
    intro funcid
    unfold checkAssetsSource
    split
    · simp [checkAssetsAddr, bind_eq_trap, f.locked_eq]
    · split
      · simp [checkAssetsAddr, bind_eq_trap, f.locked_eq]
      · simp
  simp only [assetValidateCCvin, bind_eq_trap, invalidIf_eq_trap, vinAt_eq_trap, vinAt_eq_ok,
    someOrInvalid_eq_trap, someOrInvalid_eq_ok, voutAt_eq_trap, pure_eq_trap, hi, reduceCtorEq,
    and_false, exists_false, or_false, false_or] at h
  obtain ⟨-, -, j, hj, -, -, vinTx, hvinTx, h⟩ := h
  obtain rfl := Option.some.inj hj
  obtain rfl := Option.some.inj (hvinTx.symm.trans hoffer)
  rw [hn] at h
  rcases h with h | ⟨-, -, -, -, -, hnone⟩
  · exact hsource _ h
  · exact absurd (hnone.symm.trans f.locked_eq) (by simp)

theorem buyvin_ok {refassetid : UInt256} {bid : AssetOffer}
    (h : assetValidateBuyvin cp world tx refassetid = .ok bid) :
    bid.vin.nValue = f.locked.nValue ∧ bid.offer = f.offer := by
  simp only [assetValidateBuyvin, bind_eq_ok, invalidIf_eq_ok, someOrInvalid_eq_ok,
    voutAt_eq_ok] at h
  obtain ⟨vin, hvin, -, -, -, -, -, -, offer, hoffer, -, -, hret⟩ := h
  obtain ⟨htx, hvalue, -⟩ := f.ccvin_ok hvin
  obtain rfl := ok.inj hret
  refine ⟨hvalue, ?_⟩
  rw [htx, f.offer_eq] at hoffer
  exact (Option.some.inj (Option.filter_eq_some_iff.mp hoffer).1).symm

omit [CCLibrary] in
theorem offer_vout1 (h : f.locked.scriptPubKey.isPayToCryptoCondition = true) :
    ∃ out, f.offerTx.vout[1]? = some out := by
  have hlocked := f.locked_eq
  have hoffer := f.offer_eq
  unfold assetOpretOf at hoffer
  rcases hvout : f.offerTx.vout with _ | ⟨out, _ | ⟨out', rest⟩⟩
  · rw [hvout] at hlocked
    exact absurd hlocked (by simp)
  · rw [hvout] at hlocked hoffer
    obtain rfl : out = f.locked := by simpa using hlocked
    simp [decodeAssetTokenOpRet_of_condition h] at hoffer
  · exact ⟨out', rfl⟩

theorem buyvin_ne_trap {refassetid : UInt256} :
    assetValidateBuyvin cp world tx refassetid ≠ .error (.trap t) := by
  intro h
  simp only [assetValidateBuyvin, bind_eq_trap, f.ccvin_ne_trap, invalidIf_eq_trap,
    invalidIf_eq_ok, someOrInvalid_eq_trap, voutAt_eq_trap, voutAt_eq_ok, pure_eq_trap,
    and_false, exists_false, or_false, false_or] at h
  obtain ⟨vin, hvin, h⟩ := h
  obtain ⟨htx, -⟩ := f.ccvin_ok hvin
  rw [htx] at h
  rcases h with ⟨-, hnone⟩ | ⟨out, hout, -, hcc, h⟩
  · exact absurd (hnone.symm.trans f.locked_eq) (by simp)
  · obtain rfl := Option.some.inj (hout.symm.trans f.locked_eq)
    obtain ⟨out', hout'⟩ := f.offer_vout1 (by simpa using hcc)
    unfold checkBuyMarker at h
    split at h
    · simp [bind_eq_trap, hout'] at h
    · exact absurd h (by simp)

theorem sellvin_ok {assetid : UInt256} {ask : AssetOffer}
    (h : assetValidateSellvin cp world tx assetid = .ok ask) :
    ask.vin.nValue = f.locked.nValue ∧ ask.offer = f.offer ∧ f.locked.nValue ≠ 0 := by
  simp only [assetValidateSellvin, bind_eq_ok, someOrInvalid_eq_ok] at h
  obtain ⟨vin, hvin, p, hp, hret⟩ := h
  obtain ⟨htx, -, hne⟩ := f.ccvin_ok hvin
  obtain rfl := ok.inj hret
  rw [htx] at hp
  obtain ⟨hp, -⟩ := Option.filter_eq_some_iff.mp hp
  unfold isAssetvout at hp
  split at hp
  · exact absurd hp (by simp)
  rw [f.locked_eq] at hp
  dsimp only at hp
  split at hp
  · obtain ⟨o, ho, rfl⟩ := Option.map_eq_some_iff.mp hp
    rw [validateAssetOpret, f.offer_eq] at ho
    exact ⟨rfl, (Option.some.inj (Option.filter_eq_some_iff.mp ho).1).symm, hne⟩
  · exact absurd hp (by simp)

theorem sellvin_ne_trap {assetid : UInt256} :
    assetValidateSellvin cp world tx assetid ≠ .error (.trap t) := by
  simp only [assetValidateSellvin, ne_eq, bind_eq_trap, f.ccvin_ne_trap, someOrInvalid_eq_trap,
    pure_eq_trap, and_false, exists_false, or_self, not_false_eq_true]

omit [CCLibrary] in
theorem fillOffer_ok {found : Except EvalFault AssetOffer} {r₁ r₂ r₃ : String}
    {o : AssetOffer} (hfound : ∀ o, found = .ok o →
      o.vin.nValue = f.locked.nValue ∧ o.offer = f.offer)
    (ho : fillOffer found r₁ r₂ r₃ tx h = .ok o) :
    4 ≤ tx.vout.length ∧ found = .ok o ∧ o.vin.nValue = f.locked.nValue ∧ o.offer = f.offer ∧
      f.locked.nValue = f.vout0.nValue + f.vout1.nValue := by
  simp only [fillOffer, bind_eq_ok, invalidIf_eq_ok, voutAt_eq_ok, f.vout0_eq,
    f.vout1_eq, decide_eq_false_iff_not] at ho
  obtain ⟨o', ho', -, hlen, -, -, v0, hv0, v1, hv1, -, hvalue, hret⟩ := ho
  obtain rfl := Option.some.inj hv0
  obtain rfl := Option.some.inj hv1
  obtain rfl := ok.inj hret
  obtain ⟨hlocked, hoffer⟩ := hfound o' ho'
  refine ⟨by omega, ho', hlocked, hoffer, ?_⟩
  rw [← hlocked]
  simpa using hvalue

omit [CCLibrary] in
theorem fillOffer_ne_trap {found : Except EvalFault AssetOffer} {r₁ r₂ r₃ : String}
    (hfound : found ≠ .error (.trap t)) : fillOffer found r₁ r₂ r₃ tx h ≠ .error (.trap t) := by
  simp only [fillOffer, ne_eq, bind_eq_trap, hfound, invalidIf_eq_trap,
    voutAt_eq_trap, f.vout0_eq, f.vout1_eq, pure_eq_trap, reduceCtorEq, and_false, exists_false,
    or_self, not_false_eq_true]

variable [CryptoHash]

theorem head_ok (hhead : assetsHead cp world tx = .ok h) :
    h.opret = f.opret ∧ h.cp = withNonfungible cp (getNonfungibleData world f.opret.assetid) := by
  simp only [assetsHead, bind_eq_ok, someOrInvalid_eq_ok] at hhead
  obtain ⟨last, hlast, o, ho, -, -, -, -, -, -, -, -, -, -, inputs, -, hret⟩ := hhead
  have hopret := f.opret_eq
  rw [assetOpretOf, hlast, Option.bind_some, ho] at hopret
  obtain rfl := Option.some.inj hopret
  obtain rfl := ok.inj hret
  exact ⟨rfl, rfl⟩

theorem head_ne_trap : assetsHead cp world tx ≠ .error (.trap t) := by
  intro h
  obtain ⟨i, hi⟩ := f.vin0
  have hinputs : ∀ o, assetInputs world tx o ≠ .error (.trap t) := by
    intro o
    unfold assetInputs
    split
    · simp
    · simp [bind_eq_trap]
  simp only [assetsHead, bind_eq_trap, someOrInvalid_eq_trap, invalidIf_eq_trap, vinAt_eq_trap,
    hi, hinputs, pure_eq_trap, reduceCtorEq, and_false, exists_false, or_self] at h

end AssetFill

/-! ### Offers to buy -/

section
omit [CryptoHash] [CCLibrary]

theorem validateBidRemainder_ok {remainingUnits remainingNValue origNValue receivedNValue paidunits
    totalunits : CAmount} (h : validateBidRemainder remainingUnits remainingNValue origNValue
      receivedNValue paidunits totalunits = .ok true) :
    totalunits = remainingUnits + paidunits ∧
      origNValue / totalunits ≤ receivedNValue / paidunits := by
  unfold validateBidRemainder at h
  split at h
  · simp at h
  split at h
  · simp at h
  next heq =>
  split at h
  · simp at h
  simp only [unitpricesOk, bind_eq_ok, divInt64_eq_ok] at h
  obtain ⟨unitprice, ⟨-, -, rfl⟩, recvunitprice, ⟨-, -, rfl⟩, -, -, hret⟩ := h
  have hnot : ¬ receivedNValue / paidunits < origNValue / totalunits := by
    simpa using ok.inj hret
  exact ⟨not_not.mp heq, Int64.not_lt.mp hnot⟩

theorem validateBidRemainder_ne_outOfRange {remainingUnits remainingNValue origNValue
    receivedNValue paidunits totalunits : CAmount} :
    validateBidRemainder remainingUnits remainingNValue origNValue receivedNValue paidunits
      totalunits ≠ .error (.trap .outOfRange) := by
  have hdiv : ∀ a b, divInt64 a b ≠ .error (.trap .outOfRange) := by
    simp [divInt64_eq_trap]
  have hdivIf : ∀ b a c, divIf b a c ≠ .error (.trap .outOfRange) := by
    intro b a c
    unfold divIf
    split
    · exact hdiv a c
    · simp
  unfold validateBidRemainder
  split
  · simp
  · split
    · simp
    · split
      · simp
      · simp only [unitpricesOk, ne_eq, bind_eq_trap, hdiv, hdivIf, pure_eq_trap, and_false,
          exists_false, or_self, not_false_eq_true]

/-- The fifth output pays a condition: tokens that the filler takes back. -/
def takesChange (tx : CTransaction) : Bool :=
  (tx.vout[4]?).any fun out => out.scriptPubKey.isPayToCryptoCondition

end

namespace AssetFill

variable (f : AssetFill world tx)

include f

omit [CryptoHash] in
theorem fillbuy_ok {n : Nat} (hopret : h.opret = f.opret) (hfill : fillbuy world tx h = .ok n) :
    f.locked.nValue = f.vout0.nValue + f.vout1.nValue ∧
      (takesChange tx = true ∨ (f.offer.price = f.opret.price + f.vout2.nValue ∧
        (f.opret.price ≠ 0 → constrainVout f.vout0 true
          (some (CCLibrary.unspendableCCaddr h.cp.evalcode)) 0 = true) ∧
        f.locked.nValue / f.offer.price ≤ f.vout1.nValue / f.vout2.nValue)) := by
  simp only [fillbuy, bind_eq_ok, voutAt_eq_ok] at hfill
  obtain ⟨bid, hbid, vout4, hvout4, hfill⟩ := hfill
  obtain ⟨-, -, hlocked, hoffer, hvalue⟩ := f.fillOffer_ok (fun _ => f.buyvin_ok) hbid
  refine ⟨hvalue, ?_⟩
  split at hfill
  · next hcc =>
      left
      rwa [takesChange, hvout4]
  · right
    simp only [fillbuyExact, bind_eq_ok, invalidIf_eq_ok, voutAt_eq_ok, f.vout0_eq, f.vout1_eq,
      f.vout2_eq] at hfill
    obtain ⟨v0, hv0, v1, hv1, v2, hv2, -, -, -, -, -, -, -, -, ok, hok, -, htrue, -, hstays, -⟩ :=
      hfill
    obtain rfl := Option.some.inj hv0
    obtain rfl := Option.some.inj hv1
    obtain rfl := Option.some.inj hv2
    obtain rfl : ok = true := by simpa using htrue
    rw [hopret, hlocked, hoffer] at hok
    rw [hopret] at hstays
    obtain ⟨hunits, hprice⟩ := validateBidRemainder_ok hok
    refine ⟨hunits, fun hne => ?_, hprice⟩
    simpa [hne] using hstays

omit [CryptoHash] in
theorem fillbuy_eq_outOfRange : fillbuy world tx h = .error (.trap .outOfRange) ↔
      tx.vout.length = 4 ∧ ∃ bid, fillbuyOffer world tx h = .ok bid := by
  constructor
  · intro hfill
    rw [fillbuy, bind_eq_trap] at hfill
    rcases hfill with hfill | ⟨bid, hbid, hfill⟩
    · exact absurd hfill (f.fillOffer_ne_trap f.buyvin_ne_trap)
    obtain ⟨hlen, -⟩ := f.fillOffer_ok (fun _ => f.buyvin_ok) hbid
    refine ⟨?_, bid, hbid⟩
    rw [bind_eq_trap, voutAt_eq_trap] at hfill
    rcases hfill with ⟨-, hnone⟩ | ⟨vout4, hvout4, hfill⟩
    · have hle := getElem?_eq_none_iff.mp hnone
      omega
    -- With five outputs every output that is read is there.
    · have hlen' : 4 < tx.vout.length := (List.getElem?_eq_some_iff.mp (voutAt_eq_ok.mp hvout4)).1
      have hvout3 : tx.vout[3]? ≠ none := by
        rw [ne_eq, List.getElem?_eq_none_iff]
        omega
      split at hfill
      · simp only [fillbuyChange, bind_eq_trap, voutAt_eq_trap, f.vout2_eq, invalidIf_eq_trap,
          pure_eq_trap, reduceCtorEq, and_false, exists_false, or_self] at hfill
      · simp only [fillbuyExact, bind_eq_trap, voutAt_eq_trap, f.vout0_eq, f.vout1_eq, f.vout2_eq,
          hvout3, invalidIf_eq_trap, validateBidRemainder_ne_outOfRange, pure_eq_trap,
          reduceCtorEq, and_false, exists_false, or_self] at hfill
  · rintro ⟨hlen, bid, hbid⟩
    have hnone : tx.vout[4]? = none := getElem?_eq_none_iff.mpr (by omega)
    rw [fillbuy, bind_eq_trap]
    exact .inr ⟨bid, hbid, bind_eq_trap.mpr (.inl (voutAt_eq_trap.mpr ⟨rfl, hnone⟩))⟩

end AssetFill

/-- **A fair fill of an offer to buy**: coins that leave it are paid for at its price, the rest
stays with the contract, and what was delivered is not asked for again. -/
structure FairBuyFill (cp : CCcontractInfo) (f : AssetFill world tx) : Prop where
  price : f.vout1.nValue.toInt * f.offer.price.toInt
    ≤ f.locked.nValue.toInt * f.vout2.nValue.toInt
  coins : f.vout0.nValue = f.locked.nValue - f.vout1.nValue
  remaining : f.opret.price = f.offer.price - f.vout2.nValue
  stays : f.vout0.nValue ≠ 0 →
    constrainVout f.vout0 true (some (CCLibrary.unspendableCCaddr cp.evalcode)) 0 = true

/-- Left to the filler of an offer to buy: to take at most the price of a token, rounded down, for
each one, and the rest where the validation does not look. -/
structure BuyFillMeets (cp : CCcontractInfo) (f : AssetFill world tx) : Prop where
  price : f.vout1.nValue.toInt
    ≤ f.vout2.nValue.toInt * f.locked.nValue.toInt.tdiv f.offer.price.toInt
  coins : assetsExempt world = true → f.locked.nValue = f.vout0.nValue + f.vout1.nValue
  remaining : assetsExempt world = true ∨ takesChange tx = true →
    f.offer.price = f.opret.price + f.vout2.nValue
  stays : assetsExempt world = true ∨ takesChange tx = true ∨ f.opret.price = 0 →
    f.vout0.nValue = 0 ∨
      constrainVout f.vout0 true (some (CCLibrary.unspendableCCaddr cp.evalcode)) 0 = true

section
omit [CryptoHash] [CCLibrary]

theorem toInt_div_of_nonneg {a b : CAmount} (hb : 0 ≤ b.toInt) :
    (a / b).toInt = a.toInt.tdiv b.toInt := by
  refine Int64.toInt_div_of_ne_right a b ?_
  rintro rfl
  exact absurd hb (by decide)

theorem price_of_unitprice {coins units moved paid : Int} (hcoins : 0 ≤ coins) (hmoved : 0 ≤ moved)
    (hpaid : 0 ≤ paid) (h : moved ≤ paid * coins.tdiv units) : moved * units ≤ coins * paid := by
  rcases le_or_gt 0 units with hunits | hunits
  · have hsplit := Int.mul_tdiv_add_tmod coins units
    have hmod := Int.tmod_nonneg units hcoins
    calc moved * units ≤ paid * coins.tdiv units * units :=
          Int.mul_le_mul_of_nonneg_right h hunits
      _ = paid * (units * coins.tdiv units) := by ring
      _ ≤ paid * coins := Int.mul_le_mul_of_nonneg_left (by omega) hpaid
      _ = coins * paid := mul_comm _ _
  · exact Int.le_trans (Int.mul_nonpos_of_nonneg_of_nonpos hmoved hunits.le)
      (Int.mul_nonneg hcoins hpaid)

theorem unitprice_of_price {coins units moved paid : Int} (hunits : 0 < units)
    (hdvd : units ∣ coins) (h : moved * units ≤ coins * paid) :
    moved ≤ paid * coins.tdiv units := by
  refine Int.le_of_mul_le_mul_right ?_ hunits
  rwa [mul_assoc, Int.tdiv_mul_cancel hdvd, mul_comm paid]

theorem unitprice_le_moved {price moved paid : Int} (hmoved : 0 ≤ moved) (hpaid : 0 ≤ paid)
    (h : price ≤ moved.tdiv paid) : paid * price ≤ moved :=
  calc paid * price ≤ paid * moved.tdiv paid := Int.mul_le_mul_of_nonneg_left h hpaid
    _ ≤ moved := by
      have hmod := Int.tmod_nonneg paid hmoved
      have hsplit := Int.mul_tdiv_add_tmod moved paid
      omega

theorem amount_eq_sub_iff {a b c : CAmount} : a = b - c ↔ b = a + c := by
  constructor
  · rintro rfl
    exact (Int64.sub_add_cancel b c).symm
  · rintro rfl
    exact (Int64.add_sub_cancel a c).symm

end

omit [CryptoHash] in
theorem assetsCases_fillbuy (hB : h.opret.funcid = funcCode 'B') : assetsCases world tx h = (do
      let preventCCvouts ← fillbuy world tx h
      return (none, some preventCCvouts)) := by
  simp only [assetsCases, hB]
  rfl

theorem AssetFill.buy_known (f : AssetFill world tx) (hB : f.opret.funcid = funcCode 'B')
    (hexempt : assetsExempt world = false) (hok : assetsValidate cp world tx = .ok ()) :
    f.locked.nValue = f.vout0.nValue + f.vout1.nValue ∧
      (takesChange tx = true ∨ (f.offer.price = f.opret.price + f.vout2.nValue ∧
        (f.opret.price ≠ 0 → constrainVout f.vout0 true
          (some (CCLibrary.unspendableCCaddr cp.evalcode)) 0 = true) ∧
        f.locked.nValue / f.offer.price ≤ f.vout1.nValue / f.vout2.nValue)) := by
  simp only [assetsValidate, hexempt, Bool.false_eq_true, if_false, bind_eq_ok] at hok
  obtain ⟨h, hhead, prevent, hcases, -⟩ := hok
  obtain ⟨hopret, hcp⟩ := f.head_ok hhead
  rw [assetsCases_fillbuy (hopret ▸ hB), bind_eq_ok] at hcases
  obtain ⟨n, hfill, -⟩ := hcases
  have hknown := f.fillbuy_ok hopret hfill
  rwa [hcp, withNonfungible_evalcode] at hknown

/-- **When an offer to buy is filled at its price**: if the filler keeps to the price rounded down;
and only then, where the offer's price is a whole number. Without change the validation bounds what
is taken from below. With exactly four outputs, and the checks before passed, a missing one is
read. -/
theorem fillbuy_fair (f : AssetFill world tx) (hB : f.opret.funcid = funcCode 'B')
    (hlocked : 0 ≤ f.locked.nValue.toInt) (hv1 : 0 ≤ f.vout1.nValue.toInt)
    (hv2 : 0 ≤ f.vout2.nValue.toInt) :
    (assetsValidate cp world tx = .ok () →
      (BuyFillMeets cp f → FairBuyFill cp f) ∧
      (0 < f.offer.price.toInt → f.offer.price.toInt ∣ f.locked.nValue.toInt →
        FairBuyFill cp f → BuyFillMeets cp f) ∧
      (assetsExempt world = false → takesChange tx = false → 0 < f.offer.price.toInt →
        f.vout2.nValue.toInt * f.locked.nValue.toInt.tdiv f.offer.price.toInt
          ≤ f.vout1.nValue.toInt)) ∧
      (assetsValidate cp world tx = .error (.trap .outOfRange) ↔
        assetsExempt world = false ∧ tx.vout.length = 4 ∧ ∃ h bid,
          assetsHead cp world tx = .ok h ∧ fillbuyOffer world tx h = .ok bid) := by
  refine ⟨fun hok => ⟨fun hmeets => ?_, fun hunits hdvd hfair => ?_,
    fun hexempt hchange hunits => ?_⟩, ?_⟩
  · refine ⟨price_of_unitprice hlocked hv1 hv2 hmeets.price, amount_eq_sub_iff.mpr ?_,
      amount_eq_sub_iff.mpr ?_, fun hne => ?_⟩
    · cases hexempt : assetsExempt world with
      | true => exact hmeets.coins hexempt
      | false => exact (f.buy_known hB hexempt hok).1
    · cases hexempt : assetsExempt world with
      | true => exact hmeets.remaining (.inl hexempt)
      | false =>
        rcases (f.buy_known hB hexempt hok).2 with hchange | ⟨hremaining, -⟩
        · exact hmeets.remaining (.inr hchange)
        · exact hremaining
    · by_cases hlook : assetsExempt world = true ∨ takesChange tx = true ∨ f.opret.price = 0
      · exact (hmeets.stays hlook).resolve_left hne
      · simp only [not_or, Bool.not_eq_true] at hlook
        obtain ⟨hexempt, hchange, hprice⟩ := hlook
        rcases (f.buy_known hB hexempt hok).2 with hchange' | ⟨-, hstays, -⟩
        · exact absurd (hchange'.symm.trans hchange) (by simp)
        · exact hstays hprice
  · refine ⟨unitprice_of_price hunits hdvd hfair.price, fun _ => amount_eq_sub_iff.mp hfair.coins,
      fun _ => amount_eq_sub_iff.mp hfair.remaining, fun _ => ?_⟩
    by_cases hzero : f.vout0.nValue = 0
    · exact .inl hzero
    · exact .inr (hfair.stays hzero)
  · rcases (f.buy_known hB hexempt hok).2 with hchange' | ⟨-, -, hprice⟩
    · exact absurd (hchange'.symm.trans hchange) (by simp)
    · have hle := Int64.le_iff_toInt_le.mp hprice
      rw [toInt_div_of_nonneg hunits.le, toInt_div_of_nonneg hv2] at hle
      exact unitprice_le_moved hv1 hv2 hle
  · cases hexempt : assetsExempt world with
    | true => simp [assetsValidate, hexempt]
    | false =>
      simp only [assetsValidate, hexempt, Bool.false_eq_true, if_false, bind_eq_trap,
        f.head_ne_trap, preventCC_eq_trap, and_false, exists_false, or_false, false_or, true_and]
      constructor
      · rintro ⟨h, hhead, htrap⟩
        rw [assetsCases_fillbuy ((f.head_ok hhead).1 ▸ hB), bind_eq_trap] at htrap
        rcases htrap with htrap | ⟨n, -, htrap⟩
        · obtain ⟨hlen, bid, hbid⟩ := f.fillbuy_eq_outOfRange.mp htrap
          exact ⟨hlen, h, bid, hhead, hbid⟩
        · exact absurd htrap (by simp)
      · rintro ⟨hlen, h, bid, hhead, hbid⟩
        refine ⟨h, hhead, ?_⟩
        rw [assetsCases_fillbuy ((f.head_ok hhead).1 ▸ hB), bind_eq_trap]
        exact .inl (f.fillbuy_eq_outOfRange.mpr ⟨hlen, bid, hbid⟩)

/-! ### Offers to sell -/

section

omit [CryptoHash] [CCLibrary]

theorem price_le_of_dvd {orig total r p : Int} (hdvd : orig ∣ total) (horig : 0 ≤ orig)
    (hr : 0 ≤ r) (hp : 0 ≤ p) (hle : total.tdiv orig ≤ p.tdiv r) : r * total ≤ p * orig := by
  have hq : r * total.tdiv orig ≤ p := unitprice_le_moved hp hr hle
  calc r * total = r * total.tdiv orig * orig := by
        rw [mul_assoc, Int.tdiv_mul_cancel hdvd]
    _ ≤ p * orig := Int.mul_le_mul_of_nonneg_right hq horig

theorem validateAskRemainder_ok {remainingNValue remainingAssetoshis origAssetoshis
    receivedAssetoshis paidNValue totalNValue : CAmount}
    (h : validateAskRemainder remainingNValue remainingAssetoshis origAssetoshis
      receivedAssetoshis paidNValue totalNValue = .ok true) :
    totalNValue = remainingNValue + paidNValue ∧
      totalNValue / origAssetoshis ≤ paidNValue / receivedAssetoshis := by
  unfold validateAskRemainder at h
  split at h
  · simp at h
  split at h
  · simp at h
  next heq =>
  split at h
  · simp at h
  simp only [unitpricesOk, bind_eq_ok, divInt64_eq_ok] at h
  obtain ⟨unitprice, ⟨-, -, rfl⟩, recvunitprice, ⟨-, -, rfl⟩, -, -, hret⟩ := h
  have hnot : ¬ paidNValue / receivedAssetoshis < totalNValue / origAssetoshis := by
    simpa using ok.inj hret
  exact ⟨not_not.mp heq, Int64.not_lt.mp hnot⟩

theorem divInt64_of_nonneg {a b : CAmount} (hb : 0 ≤ b.toInt) :
    divInt64 a b = if b = 0 then .error (.trap .divisionByZero) else .ok (a / b) := by
  have hne : b ≠ -1 := by
    rintro rfl
    exact absurd hb (by decide)
  simp [divInt64, hne]

theorem validateAskRemainder_eq_trap {remainingNValue remainingAssetoshis origAssetoshis
    receivedAssetoshis paidNValue totalNValue : CAmount} (horig : 0 ≤ origAssetoshis.toInt)
    (hreceived : 0 ≤ receivedAssetoshis.toInt) (hremaining : 0 ≤ remainingAssetoshis.toInt) :
    validateAskRemainder remainingNValue remainingAssetoshis origAssetoshis receivedAssetoshis
        paidNValue totalNValue = .error (.trap t) ↔
      ((origAssetoshis ≠ 0 ∧ receivedAssetoshis ≠ 0 ∧ paidNValue ≠ 0 ∧ totalNValue ≠ 0) ∧
        totalNValue = remainingNValue + paidNValue ∧
        origAssetoshis = remainingAssetoshis + receivedAssetoshis) ∧
      t = .divisionByZero ∧ remainingNValue ≠ 0 ∧ remainingAssetoshis = 0 := by
  unfold validateAskRemainder
  by_cases hzero : origAssetoshis = 0 ∨ receivedAssetoshis = 0 ∨ paidNValue = 0 ∨ totalNValue = 0
  · rw [if_pos hzero]
    simp only [reduceCtorEq, false_iff, not_and]
    rintro ⟨⟨h₁, h₂, h₃, h₄⟩, -⟩
    simp [h₁, h₂, h₃, h₄] at hzero
  rw [if_neg hzero]
  simp only [not_or] at hzero
  by_cases htotal : totalNValue = remainingNValue + paidNValue
  · rw [if_neg (not_not.mpr htotal)]
    by_cases hunits : origAssetoshis = remainingAssetoshis + receivedAssetoshis
    · rw [if_neg (not_not.mpr hunits), and_iff_right ⟨hzero, htotal, hunits⟩]
      simp only [unitpricesOk, divInt64_of_nonneg horig, divInt64_of_nonneg hreceived,
        if_neg hzero.1, if_neg hzero.2.1, bind_eq_trap, pure_eq_trap, reduceCtorEq,
        Except.ok.injEq, exists_eq_left', and_false, exists_false, or_false, false_or, divIf]
      by_cases hleft : remainingNValue = 0
      · simp [hleft]
      · rw [if_pos (by simpa using hleft), divInt64_of_nonneg hremaining]
        by_cases hnone : remainingAssetoshis = 0
        · simp [hnone, hleft, eq_comm]
        · simp [hnone]
    · rw [if_pos hunits]
      simp [hunits]
  · rw [if_pos htotal]
    simp [htotal]

end

def dualUnspendableAddr (cp : CCcontractInfo) (world : CCWorld) (assetid : UInt256) : Address :=
  let cp := withNonfungible cp (getNonfungibleData world assetid)
  getTokensCCaddress cp (CCLibrary.getUnspendable cp.evalcode)

/-- **A fair fill of an offer to sell**: tokens that leave it are paid for at its price, the rest
stays with the contract, and what was paid is not asked for again. -/
structure FairSellFill (cp : CCcontractInfo) (f : AssetFill world tx) : Prop where
  price : f.vout1.nValue.toInt * f.offer.price.toInt
    ≤ f.vout2.nValue.toInt * f.locked.nValue.toInt
  tokens : f.vout0.nValue = f.locked.nValue - f.vout1.nValue
  remaining : f.opret.price = f.offer.price - f.vout2.nValue
  stays : f.vout0.nValue ≠ 0 → constrainVout f.vout0 true
    (some (dualUnspendableAddr cp world f.opret.assetid)) 0 = true

/-- Left to the filler of an offer to sell: a price per token that is a whole number, which the
validation then holds, or else the price law itself, written with the dropped fraction; and the rest
where the validation does not look. -/
structure SellFillMeets (cp : CCcontractInfo) (f : AssetFill world tx) : Prop where
  price : (assetsExempt world = false ∧ f.locked.nValue.toInt ∣ f.offer.price.toInt) ∨
    f.vout1.nValue.toInt * f.offer.price.toInt.tmod f.locked.nValue.toInt
      ≤ (f.vout2.nValue.toInt
        - f.vout1.nValue.toInt * f.offer.price.toInt.tdiv f.locked.nValue.toInt)
          * f.locked.nValue.toInt
  tokens : assetsExempt world = true → f.locked.nValue = f.vout0.nValue + f.vout1.nValue
  remaining : assetsExempt world = true → f.offer.price = f.opret.price + f.vout2.nValue
  stays : assetsExempt world = true ∨ f.opret.price = 0 → f.vout0.nValue = 0 ∨
    constrainVout f.vout0 true (some (dualUnspendableAddr cp world f.opret.assetid)) 0 = true

omit [CryptoHash] [CCLibrary] in
theorem price_ge_iff (total orig moved paid : Int) :
    moved * total.tmod orig ≤ (paid - moved * total.tdiv orig) * orig ↔
      moved * total ≤ paid * orig := by
  have hsplit : moved * total = moved * total.tdiv orig * orig + moved * total.tmod orig := by
    conv_lhs => rw [← Int.mul_tdiv_add_tmod total orig]
    ring
  rw [hsplit, sub_mul]
  omega

omit [CryptoHash] in
theorem assetsCases_fillsell (hS : h.opret.funcid = funcCode 'S') : assetsCases world tx h = (do
      fillsell world tx h
      return (none, none)) := by
  simp only [assetsCases, hS]
  rfl

namespace AssetFill

variable (f : AssetFill world tx)

include f

omit [CryptoHash] in
theorem fillsell_ok (hopret : h.opret = f.opret) (hfill : fillsell world tx h = .ok ()) :
    f.locked.nValue = f.vout0.nValue + f.vout1.nValue ∧
      f.offer.price = f.opret.price + f.vout2.nValue ∧
      f.offer.price / f.locked.nValue ≤ f.vout2.nValue / f.vout1.nValue ∧
      (f.opret.price ≠ 0 → constrainVout f.vout0 true
        (some (getTokensCCaddress h.cp (CCLibrary.getUnspendable h.cp.evalcode))) 0 = true) := by
  simp only [fillsell, bind_eq_ok, invalidIf_eq_ok, voutAt_eq_ok, f.vout0_eq, f.vout1_eq,
    f.vout2_eq] at hfill
  obtain ⟨ask, hask, v0, hv0, v1, hv1, v2, hv2, -, -, ok, hok, -, htrue, -, -, -, -, -, -,
    hstays⟩ := hfill
  obtain rfl := Option.some.inj hv0
  obtain rfl := Option.some.inj hv1
  obtain rfl := Option.some.inj hv2
  obtain rfl : ok = true := by simpa using htrue
  obtain ⟨-, -, hlocked, hoffer, hvalue⟩ := f.fillOffer_ok
    (fun _ h => ⟨(f.sellvin_ok h).1, (f.sellvin_ok h).2.1⟩) hask
  obtain ⟨hremaining, hprice⟩ := validateAskRemainder_ok hok
  rw [hopret, hoffer] at hremaining
  rw [hoffer, hlocked] at hprice
  rw [hopret] at hstays
  exact ⟨hvalue, hremaining, hprice, fun hne => by simpa [hne] using hstays⟩

omit [CryptoHash] in
theorem fillsell_eq_trap (hopret : h.opret = f.opret)
    (hlocked : 0 ≤ f.locked.nValue.toInt) (hv0 : 0 ≤ f.vout0.nValue.toInt)
    (hv1 : 0 ≤ f.vout1.nValue.toInt) :
    (∃ t, fillsell world tx h = .error (.trap t)) ↔
      f.vout0.nValue = 0 ∧ f.opret.price ≠ 0 ∧ f.vout2.nValue ≠ 0 ∧ f.offer.price ≠ 0 ∧
        f.offer.price = f.opret.price + f.vout2.nValue ∧
        ∃ ask, fillsellOffer world tx h = .ok ask := by
  have hfound : ∀ o, assetValidateSellvin h.cp world tx h.opret.assetid = .ok o →
      o.vin.nValue = f.locked.nValue ∧ o.offer = f.offer :=
    fun _ h => ⟨(f.sellvin_ok h).1, (f.sellvin_ok h).2.1⟩
  constructor
  · rintro ⟨t, hfill⟩
    rw [fillsell, bind_eq_trap] at hfill
    rcases hfill with hfill | ⟨ask, hask, hfill⟩
    · exact absurd hfill (f.fillOffer_ne_trap f.sellvin_ne_trap)
    obtain ⟨hlen, hsellvin, hvin, hoffer, hvalue⟩ := f.fillOffer_ok hfound hask
    have hvout3 : tx.vout[3]? ≠ none := by
      rw [ne_eq, getElem?_eq_none_iff]
      omega
    simp only [bind_eq_trap, voutAt_eq_trap, voutAt_eq_ok, f.vout0_eq, f.vout1_eq, f.vout2_eq,
      hvout3, Option.some.injEq, exists_eq_left', invalidIf_eq_trap, hvin, hopret, hoffer,
      validateAskRemainder_eq_trap hlocked hv1 hv0, reduceCtorEq, and_false, exists_false,
      or_false, false_or, exists_and_right] at hfill
    obtain ⟨-, ⟨⟨-, -, hpaid, htotal⟩, hsum, -⟩, -, hprice, hzero⟩ := hfill
    exact ⟨hzero, hprice, hpaid, htotal, hsum, ask, hask⟩
  · rintro ⟨hzero, hprice, hpaid, htotal, hsum, ask, hask⟩
    obtain ⟨hlen, hsellvin, hvin, hoffer, hvalue⟩ := f.fillOffer_ok hfound hask
    have hne := (f.sellvin_ok hsellvin).2.2
    have hv1ne : f.vout1.nValue ≠ 0 := by
      rw [hzero, Int64.zero_add] at hvalue
      exact hvalue ▸ hne
    have hvout3 : ∃ vout3, tx.vout[3]? = some vout3 :=
      ⟨_, getElem?_eq_getElem (by omega)⟩
    refine ⟨.divisionByZero, ?_⟩
    rw [fillsell, bind_eq_trap]
    refine .inr ⟨ask, hask, ?_⟩
    simp only [bind_eq_trap, voutAt_eq_trap, voutAt_eq_ok, f.vout0_eq, f.vout1_eq, f.vout2_eq,
      Option.some.injEq, exists_eq_left', hvin, hopret, hoffer]
    obtain ⟨vout3, hvout3⟩ := hvout3
    refine .inr (.inr (.inr (.inr ⟨vout3, hvout3, .inl ?_⟩)))
    exact (validateAskRemainder_eq_trap hlocked hv1 hv0).mpr
      ⟨⟨⟨hne, hv1ne, hpaid, htotal⟩, hsum, hvalue⟩, rfl, hprice, hzero⟩

end AssetFill

theorem AssetFill.sell_known (f : AssetFill world tx) (hS : f.opret.funcid = funcCode 'S')
    (hexempt : assetsExempt world = false) (hok : assetsValidate cp world tx = .ok ()) :
    f.locked.nValue = f.vout0.nValue + f.vout1.nValue ∧
      f.offer.price = f.opret.price + f.vout2.nValue ∧
      f.offer.price / f.locked.nValue ≤ f.vout2.nValue / f.vout1.nValue ∧
      (f.opret.price ≠ 0 → constrainVout f.vout0 true
        (some (dualUnspendableAddr cp world f.opret.assetid)) 0 = true) := by
  simp only [assetsValidate, hexempt, Bool.false_eq_true, if_false, bind_eq_ok] at hok
  obtain ⟨h, hhead, prevent, hcases, -⟩ := hok
  obtain ⟨hopret, hcp⟩ := f.head_ok hhead
  rw [assetsCases_fillsell (hopret ▸ hS), bind_eq_ok] at hcases
  obtain ⟨u, hfill, -⟩ := hcases
  have hknown := f.fillsell_ok hopret hfill
  rwa [hcp] at hknown

/-- **When an offer to sell is filled at its price**, and when it traps: all tokens leave while
something is asked for. -/
theorem fillsell_fair_iff (f : AssetFill world tx) (hS : f.opret.funcid = funcCode 'S')
    (hlocked : 0 ≤ f.locked.nValue.toInt) (hv0 : 0 ≤ f.vout0.nValue.toInt)
    (hv1 : 0 ≤ f.vout1.nValue.toInt) (hv2 : 0 ≤ f.vout2.nValue.toInt) :
    (assetsValidate cp world tx = .ok () → (FairSellFill cp f ↔ SellFillMeets cp f)) ∧
      ((∃ t, assetsValidate cp world tx = .error (.trap t)) ↔
        assetsExempt world = false ∧ f.vout0.nValue = 0 ∧ f.opret.price ≠ 0 ∧
          f.vout2.nValue ≠ 0 ∧ f.offer.price ≠ 0 ∧
          f.offer.price = f.opret.price + f.vout2.nValue ∧ ∃ h ask,
            assetsHead cp world tx = .ok h ∧ fillsellOffer world tx h = .ok ask) := by
  refine ⟨fun hok => ⟨fun hfair => ?_, fun hmeets => ?_⟩, ?_⟩
  · refine ⟨.inr ((price_ge_iff _ _ _ _).mpr hfair.price),
      fun _ => amount_eq_sub_iff.mp hfair.tokens,
      fun _ => amount_eq_sub_iff.mp hfair.remaining, fun _ => ?_⟩
    by_cases hzero : f.vout0.nValue = 0
    · exact .inl hzero
    · exact .inr (hfair.stays hzero)
  · refine ⟨?_, amount_eq_sub_iff.mpr ?_, amount_eq_sub_iff.mpr ?_, fun hne => ?_⟩
    · rcases hmeets.price with ⟨hexempt, hdvd⟩ | hprice
      · have hle := Int64.le_iff_toInt_le.mp (f.sell_known hS hexempt hok).2.2.1
        rw [toInt_div_of_nonneg hlocked, toInt_div_of_nonneg hv1] at hle
        exact price_le_of_dvd hdvd hlocked hv1 hv2 hle
      · exact (price_ge_iff _ _ _ _).mp hprice
    · cases hexempt : assetsExempt world with
      | true => exact hmeets.tokens hexempt
      | false => exact (f.sell_known hS hexempt hok).1
    · cases hexempt : assetsExempt world with
      | true => exact hmeets.remaining hexempt
      | false => exact (f.sell_known hS hexempt hok).2.1
    · by_cases hlook : assetsExempt world = true ∨ f.opret.price = 0
      · exact (hmeets.stays hlook).resolve_left hne
      · simp only [not_or, Bool.not_eq_true] at hlook
        exact (f.sell_known hS hlook.1 hok).2.2.2 hlook.2
  · cases hexempt : assetsExempt world with
    | true => simp [assetsValidate, hexempt]
    | false =>
      simp only [assetsValidate, hexempt, Bool.false_eq_true, if_false, bind_eq_trap,
        f.head_ne_trap, preventCC_eq_trap, and_false, exists_false, or_false, false_or, true_and]
      constructor
      · rintro ⟨t, h, hhead, htrap⟩
        have hopret := (f.head_ok hhead).1
        rw [assetsCases_fillsell (hopret ▸ hS), bind_eq_trap] at htrap
        rcases htrap with htrap | ⟨u, -, htrap⟩
        · obtain ⟨hzero, hprice, hpaid, htotal, hsum, ask, hask⟩ :=
            (f.fillsell_eq_trap hopret hlocked hv0 hv1).mp ⟨t, htrap⟩
          exact ⟨hzero, hprice, hpaid, htotal, hsum, h, ask, hhead, hask⟩
        · exact absurd htrap (by simp)
      · rintro ⟨hzero, hprice, hpaid, htotal, hsum, h, ask, hhead, hask⟩
        have hopret := (f.head_ok hhead).1
        obtain ⟨t, htrap⟩ := (f.fillsell_eq_trap hopret hlocked hv0 hv1).mpr
          ⟨hzero, hprice, hpaid, htotal, hsum, ask, hask⟩
        refine ⟨t, h, hhead, ?_⟩
        rw [assetsCases_fillsell (hopret ▸ hS), bind_eq_trap]
        exact .inl htrap

end

/-! ### Fills of two offers -/

section

open CCLibrary

local instance assetsLibrary : CCLibrary where
  getscriptaddress := some
  solver _ := none
  ccPubKey c := pushInstruction (c.evals ++ c.pks.flatten) ++ [0xcc]
  isCCInput s := !s.isEmpty
  ismyvin e s := s.head? == some e
  vinPubkey s := some s.tail
  getUnspendable e := 0x02 :: List.replicate 32 e
  unspendableCCaddr e := pushInstruction (e :: 0x02 :: List.replicate 32 e) ++ [0xcc]

local instance assetsHash : CryptoHash := ⟨fun _ => 0, fun _ => 0⟩

def assetsCp : CCcontractInfo := { evalcode := evalAssets }

def ownerKey : CPubKey := 0x02 :: List.replicate 32 0x22

def fillerKey : CPubKey := 0x02 :: List.replicate 32 0x33

variable (nValue : CAmount)

def lockedCoins : CTxOut :=
  makeCC1vout evalAssets nValue (getUnspendable evalAssets)

def lockedTokens : CTxOut :=
  makeTokensCC1vout evalAssets 0 nValue (getUnspendable evalAssets)

def tokensOf (pk : CPubKey) (nValue : CAmount) : CTxOut := makeCC1vout evalTokens nValue pk

def coinsOfOwner : CTxOut := ⟨nValue, pushInstruction ownerKey ++ [opChecksig]⟩

def markerOfOwner : CTxOut := makeCC1vout evalAssets 10000 ownerKey

def plainCoins : CTxOut := ⟨nValue, []⟩

def offerOut (funcid : Char) (price : CAmount) : CTxOut :=
  ⟨0, encodeTokenOpRet 2 [] [(opretIdAssetsData,
    encodeAssetOpRet (funcCode funcid) price ownerKey)]⟩

def fillTx (hash : UInt256) (vin : List (UInt256 × CScript)) (vout : List CTxOut) :
    CTransaction where
  hash := hash
  nVersion := 1
  vin := vin.map fun i => { prevout := ⟨i.1, 0⟩, scriptSig := i.2 }
  vout := vout

def bidTx : CTransaction :=
  fillTx 3 [(1, [])] [lockedCoins 1000, markerOfOwner, offerOut 'b' 10]

def holdingTx (hash : UInt256) (nValue : CAmount) : CTransaction :=
  fillTx hash [(1, [])] [tokensOf fillerKey nValue, ⟨0, encodeTokenOpRet 2 [fillerKey] []⟩]

def askTx (hash : UInt256) (price : CAmount) : CTransaction :=
  fillTx hash [(1, [])] [lockedTokens 10, markerOfOwner, offerOut 's' price]

def assetsWorld : CCWorld where
  getTx h := [fillTx 2 [] [], bidTx, holdingTx 4 100, holdingTx 5 5, askTx 6 5,
    askTx 7 100].find? (·.hash == h)
  chainName := []
  height := 0

def ownerOpret (funcid : Char) (price : CAmount) : AssetOpret where
  funcid := funcCode funcid
  assetid := 2
  price := price
  origpubkey := ownerKey

def fillInputs (offer tokens : UInt256) : List (UInt256 × CScript) :=
  [(1, []), (offer, [evalAssets]), (tokens, evalTokens :: fillerKey)]

def halfBuyTx : CTransaction := fillTx 8 (fillInputs 3 5)
  [lockedCoins 500, plainCoins 500, tokensOf ownerKey 5, markerOfOwner, offerOut 'B' 5]

def halfBuy : AssetFill assetsWorld halfBuyTx where
  opret := ownerOpret 'B' 5
  offerTx := bidTx
  offer := ownerOpret 'b' 10
  locked := lockedCoins 1000
  vout0 := lockedCoins 500
  vout1 := plainCoins 500
  vout2 := tokensOf ownerKey 5
  opret_eq := by decide +kernel
  spends := ⟨_, rfl, rfl, by decide +kernel⟩
  locked_eq := rfl
  offer_eq := by decide +kernel
  vout0_eq := rfl
  vout1_eq := rfl
  vout2_eq := rfl

theorem fillbuy_fair_halfBuy :
    assetsValidate assetsCp assetsWorld halfBuyTx = .ok () ∧ FairBuyFill assetsCp halfBuy := by
  have hok : assetsValidate assetsCp assetsWorld halfBuyTx = .ok () := by decide +kernel
  refine ⟨hok, ((fillbuy_fair halfBuy rfl (by decide) (by decide) (by decide)).1 hok).1
    ⟨by decide +kernel, ?_, ?_, ?_⟩⟩
  · exact fun h => absurd h (by decide)
  · exact fun h => absurd h (by decide +kernel)
  · exact fun h => absurd h (by decide +kernel)

def unfairBuyTx : CTransaction := fillTx 9 (fillInputs 3 4)
  [lockedCoins 0, plainCoins 1000, tokensOf ownerKey 1, markerOfOwner, tokensOf fillerKey 99,
    offerOut 'B' 9]

def unfairBuy : AssetFill assetsWorld unfairBuyTx where
  opret := ownerOpret 'B' 9
  offerTx := bidTx
  offer := ownerOpret 'b' 10
  locked := lockedCoins 1000
  vout0 := lockedCoins 0
  vout1 := plainCoins 1000
  vout2 := tokensOf ownerKey 1
  opret_eq := by decide +kernel
  spends := ⟨_, rfl, rfl, by decide +kernel⟩
  locked_eq := rfl
  offer_eq := by decide +kernel
  vout0_eq := rfl
  vout1_eq := rfl
  vout2_eq := rfl

/-- **All coins of an offer for ten tokens are taken for one**, as the filler takes back others;
with four outputs a fifth is read. -/
theorem fillbuy_takes_all :
    assetsValidate assetsCp assetsWorld unfairBuyTx = .ok () ∧ ¬ FairBuyFill assetsCp unfairBuy ∧
      assetsValidate assetsCp assetsWorld (fillTx 10 (fillInputs 3 5)
        [lockedCoins 500, plainCoins 500, tokensOf ownerKey 5, offerOut 'B' 5])
        = .error (.trap .outOfRange) := by
  refine ⟨by decide +kernel, fun h => ?_, by decide +kernel⟩
  exact absurd h.price (by decide +kernel)

def partSellTx : CTransaction := fillTx 11 [(1, []), (7, [evalAssets])]
  [lockedTokens 6, tokensOf fillerKey 4, coinsOfOwner 40, markerOfOwner, offerOut 'S' 60]

def partSell : AssetFill assetsWorld partSellTx where
  opret := ownerOpret 'S' 60
  offerTx := askTx 7 100
  offer := ownerOpret 's' 100
  locked := lockedTokens 10
  vout0 := lockedTokens 6
  vout1 := tokensOf fillerKey 4
  vout2 := coinsOfOwner 40
  opret_eq := by decide +kernel
  spends := ⟨_, rfl, rfl, by decide +kernel⟩
  locked_eq := rfl
  offer_eq := by decide +kernel
  vout0_eq := rfl
  vout1_eq := rfl
  vout2_eq := rfl

theorem fillsell_fair_partSell :
    assetsValidate assetsCp assetsWorld partSellTx = .ok () ∧ FairSellFill assetsCp partSell := by
  have hok : assetsValidate assetsCp assetsWorld partSellTx = .ok () := by decide +kernel
  refine ⟨hok, ((fillsell_fair_iff partSell rfl (by decide) (by decide) (by decide)
    (by decide)).1 hok).mpr ⟨.inl ⟨by decide, by decide +kernel⟩, ?_, ?_, ?_⟩⟩
  · exact fun h => absurd h (by decide)
  · exact fun h => absurd h (by decide)
  · exact fun h => absurd h (by decide +kernel)

def unfairSellTx : CTransaction := fillTx 12 [(1, []), (6, [evalAssets])]
  [lockedTokens 1, tokensOf fillerKey 9, coinsOfOwner 1, markerOfOwner, offerOut 'S' 4]

def unfairSell : AssetFill assetsWorld unfairSellTx where
  opret := ownerOpret 'S' 4
  offerTx := askTx 6 5
  offer := ownerOpret 's' 5
  locked := lockedTokens 10
  vout0 := lockedTokens 1
  vout1 := tokensOf fillerKey 9
  vout2 := coinsOfOwner 1
  opret_eq := by decide +kernel
  spends := ⟨_, rfl, rfl, by decide +kernel⟩
  locked_eq := rfl
  offer_eq := by decide +kernel
  vout0_eq := rfl
  vout1_eq := rfl
  vout2_eq := rfl

/-- **Nine tokens worth more than four coins are sold for one**; taking all ten divides by 0. -/
theorem fillsell_divides_by_zero : assetsValidate assetsCp assetsWorld unfairSellTx = .ok () ∧
      ¬ FairSellFill assetsCp unfairSell ∧
      assetsValidate assetsCp assetsWorld (fillTx 13 [(1, []), (6, [evalAssets])]
        [lockedTokens 0, tokensOf fillerKey 10, coinsOfOwner 1, markerOfOwner, offerOut 'S' 4])
        = .error (.trap .divisionByZero) := by
  refine ⟨by decide +kernel, fun h => ?_, by decide +kernel⟩
  exact absurd h.price (by decide +kernel)

end

end Elosys
