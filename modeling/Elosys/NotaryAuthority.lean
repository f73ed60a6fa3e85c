import Elosys.CCEval

/-!
# Who Signs for a Chain

`CrossChain::CheckTxAuthority` accepts a transaction with enough inputs, each spending an output of
a notary not seen before. The index of the spent output is checked, but the one right behind the
last passes and is read. The callers ask about transactions in blocks, whose inputs exist
(`InputsExist`): there every read is inside.
-/

open List Option Except

namespace Elosys

/-! ### What it accepts -/

/-- The script that pays a key: its push and `OP_CHECKSIG`. -/
def payToPubkey (pk : List UInt8) : CScript := 33 :: pk ++ [opChecksig]

/-- The input spends an output that pays the notary at that place of the list. -/
def SpendsFrom (world : NotaryWorld) (notaries : List (List UInt8)) (i : Nat) (txIn : CTxIn) :
    Prop :=
  ∃ prev out pk, world.getTxUnconfirmed txIn.prevout.hash = some prev ∧
    prev.vout[txIn.prevout.n]? = some out ∧ notaries[i]? = some pk ∧
    out.scriptPubKey = payToPubkey pk

/-- Every input names an output that its transaction has, as `HaveInputs` demands of a transaction
in a block. -/
def InputsExist (world : NotaryWorld) (tx : CTransaction) : Prop :=
  ∀ txIn ∈ tx.vin, ∀ prev, world.getTxUnconfirmed txIn.prevout.hash = some prev →
    txIn.prevout.n < prev.vout.length

variable {world : NotaryWorld} {notaries : List (List UInt8)} {seen : List Nat} {txIn : CTxIn}

variable {pk : List UInt8}

theorem paidKey_eq_some {spk : CScript} (h : paidKey spk = some pk) : spk = payToPubkey pk := by
  unfold paidKey at h
  split at h
  · next hshape =>
      obtain ⟨hlen, hfirst, hlast⟩ := hshape
      obtain rfl := some.inj h
      match spk, hlen with
      | b :: spk, hlen =>
        have h34 : spk.length = 34 := by simpa using hlen
        have hb : b = 33 := by simpa using hfirst
        have hat : spk[33]? = some opChecksig := by
          have hget : spk.getD 33 0 = opChecksig := by simpa using hlast
          rw [getD_eq_getElem?_getD] at hget
          rw [← hget, getElem?_eq_getElem (by omega), getD_some]
        have hdrop : spk.drop 33 = [opChecksig] := by
          rw [drop_eq_getElem_cons (by omega), drop_eq_nil_of_le (by omega)]
          rw [getElem?_eq_getElem (by omega)] at hat
          rw [some.inj hat]
        rw [hb, payToPubkey, drop_one, tail_cons, cons_append, ← hdrop, take_append_drop]
  · exact absurd h (by simp)

theorem unseenNotary_eq_some {i : Nat} (h : unseenNotary notaries seen pk = some i) :
    i ∉ seen ∧ notaries[i]? = some pk := by
  have hmem := mem_of_find?_eq_some h
  have hprop := find?_some h
  rw [mem_range] at hmem
  simp only [Bool.and_eq_true, Bool.not_eq_true', contains_eq_mem, decide_eq_false_iff_not,
    beq_iff_eq, getD_eq_getElem?_getD, getElem?_eq_getElem hmem,
    getD_some] at hprop
  exact ⟨hprop.1, by rw [getElem?_eq_getElem hmem, hprop.2]⟩

theorem authorityKey_returns (h : ∀ prev, world.getTxUnconfirmed txIn.prevout.hash = some prev →
    txIn.prevout.n < prev.vout.length) : ∃ o, authorityKey world txIn = .ok o := by
  unfold authorityKey
  split
  · exact ⟨none, rfl⟩
  · next prev hprev =>
    have hlt := h prev hprev
    rw [if_neg (by omega), getElem?_eq_getElem hlt]
    exact ⟨_, rfl⟩

theorem authorityKey_eq_some (h : authorityKey world txIn = .ok (some pk)) :
    ∃ prev out, world.getTxUnconfirmed txIn.prevout.hash = some prev ∧
      prev.vout[txIn.prevout.n]? = some out ∧ out.scriptPubKey = payToPubkey pk := by
  unfold authorityKey at h
  split at h
  · exact absurd (ok.inj h) (by simp)
  next prev hprev =>
  split at h
  · exact absurd (ok.inj h) (by simp)
  split at h
  · exact absurd h (by simp)
  next out hout =>
  exact ⟨prev, out, hprev, hout, paidKey_eq_some (ok.inj h)⟩

variable {vin : List CTxIn}

theorem evalAuthorityInputs_returns (h : ∀ txIn ∈ vin, ∀ prev,
    world.getTxUnconfirmed txIn.prevout.hash = some prev → txIn.prevout.n < prev.vout.length) :
    ∃ accepted, evalAuthorityInputs world notaries vin seen = .ok accepted := by
  induction vin generalizing seen with
  | nil => exact ⟨true, rfl⟩
  | cons first vin ih =>
    obtain ⟨hfirst, hrest⟩ := forall_mem_cons.mp h
    obtain ⟨o, ho⟩ := authorityKey_returns hfirst
    rw [evalAuthorityInputs, ho]
    dsimp only
    split
    · exact ih hrest
    · exact ⟨false, rfl⟩

theorem evalAuthorityInputs_distinct (h : evalAuthorityInputs world notaries vin seen = .ok true) :
    ∃ idx : List Nat, idx.Nodup ∧ (∀ i ∈ idx, i ∉ seen) ∧
      Forall₂ (SpendsFrom world notaries) idx vin := by
  induction vin generalizing seen with
  | nil => exact ⟨[], by simp, by simp, .nil⟩
  | cons first vin ih =>
    rw [evalAuthorityInputs] at h
    split at h
    · exact absurd h (by simp)
    next o hkey =>
    split at h
    next i hi =>
      obtain ⟨pk, rfl, hunseen⟩ := bind_eq_some_iff.mp hi
      obtain ⟨hnew, hpk⟩ := unseenNotary_eq_some hunseen
      obtain ⟨prev, out, hprev, hout, hscript⟩ := authorityKey_eq_some hkey
      obtain ⟨idx, hnodup, hothers, hall⟩ := ih h
      refine ⟨i :: idx, nodup_cons.mpr ⟨fun hin => hothers i hin (by simp), hnodup⟩,
        fun j hj => ?_, .cons ⟨prev, out, pk, hprev, hout, hpk, hscript⟩ hall⟩
      rcases mem_cons.mp hj with rfl | hj
      · exact hnew
      · exact fun hin => hothers j hj (mem_cons_of_mem _ hin)
    · exact absurd (ok.inj h) (by simp)

/-! ### The authority of a transaction -/

/-- The transaction has at least the required inputs, from pairwise different notaries. -/
def SignedBy (world : NotaryWorld) (tx : CTransaction) (auth : CrosschainAuthority) : Prop :=
  auth.requiredSigs ≤ tx.vin.length ∧ ∃ idx : List Nat, idx.Nodup ∧
    Forall₂ (SpendsFrom world auth.notaries) idx tx.vin

variable {tx : CTransaction} {auth : CrosschainAuthority}

theorem signedBy_of_accepted (h : evalTxAuthority world tx auth = .ok true) :
    SignedBy world tx auth := by
  unfold evalTxAuthority at h
  split at h
  · cases h
  · next hmany =>
    obtain ⟨idx, hnodup, -, hall⟩ := evalAuthorityInputs_distinct h
    exact ⟨Nat.not_lt.mp hmany, idx, hnodup, hall⟩

theorem authority_returns (h : InputsExist world tx) :
    ∃ accepted, evalTxAuthority world tx auth = .ok accepted := by
  unfold evalTxAuthority
  split
  · exact ⟨false, rfl⟩
  · exact evalAuthorityInputs_returns h

theorem evalNotaryInputs_eq (tx : CTransaction) (height timestamp : Nat) :
    evalNotaryInputs world tx height timestamp
      = evalTxAuthority world tx ⟨11, world.getNotaries height timestamp⟩ := by
  unfold evalNotaryInputs evalTxAuthority
  split
  · rfl
  · rfl

/-- **Cross-chain authority**: what is accepted is signed by enough different notaries, and where
the inputs exist every read is inside and a verdict is returned. -/
theorem authority_sound (world : NotaryWorld) (tx : CTransaction) :
    (∀ auth, evalTxAuthority world tx auth = .ok true → SignedBy world tx auth) ∧
    (∀ height timestamp, evalNotaryInputs world tx height timestamp = .ok true →
      SignedBy world tx ⟨11, world.getNotaries height timestamp⟩) ∧
    (InputsExist world tx →
      (∀ auth, ∃ accepted, evalTxAuthority world tx auth = .ok accepted) ∧
      ∀ height timestamp, ∃ accepted, evalNotaryInputs world tx height timestamp =
        .ok accepted) := by
  simp only [evalNotaryInputs_eq]
  exact ⟨fun auth => signedBy_of_accepted, fun height timestamp => signedBy_of_accepted,
    fun h => ⟨fun auth => authority_returns h, fun height timestamp => authority_returns h⟩⟩

/-- A node that knows one transaction, with one output, and one notary. -/
def oneOutputWorld : NotaryWorld where
  getTxUnconfirmed h :=
    if h = 7 then some { hash := 7, nVersion := 1, vin := [], vout := [⟨5, []⟩] } else none
  getNotaries _ _ := [replicate 33 2]
  notariesStaked _ := []

/-- **A read behind the last output**: inputs name output 1, and only 0 is there. -/
theorem authority_reads_behind : evalNotaryInputs oneOutputWorld
      { hash := 8, nVersion := 1, vin := replicate 11 ⟨⟨7, 1⟩, [], 0⟩, vout := [] } 100 1000
      = .error .outOfRange := by
  decide +kernel

end Elosys
