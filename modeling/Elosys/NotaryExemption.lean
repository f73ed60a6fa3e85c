import Elosys.CheckTransaction
import Elosys.Program

/-!
# The Table of Notary Addresses

`komodo_isnotaryvout` compares an address with the row of `NOTARY_ADDRESSES` for a season, which
`komodo_notaries` fills when first asked. Past the last season it reads the row in front of the
table.
-/

open Program List

namespace Elosys

def kmdSeasonHeights : List Nat :=
  [814000, 1444000, 1670000, 1922000, 2437300, 2963330, 3484958, 8113400]

def getkmdseason (height : Nat) : Nat :=
  match kmdSeasonHeights.findIdx? (height ≤ ·) with
  | some i => i + 1
  | none => 0

/-- A chain: `staked` is `is_STAKED`, `blockTime` its block times, and `elected` a season's notary
addresses. -/
structure NotaryChain where
  isKMD : Bool
  staked : Bool
  assetchainsPrivate : Bool
  blockTime : Nat → Option Nat
  elected : Nat → List String

/-- `didinit_NOTARIES` and `NOTARY_ADDRESSES`. -/
structure NotaryTable where
  didinit : Nat → Bool := fun _ => false
  addresses : Nat → List String := fun _ => replicate 64 ""

variable (c : NotaryChain) (t : NotaryTable)

/-- `komodo_heightstamp`. -/
def NotaryChain.heightstamp (height : Nat) : Nat :=
  if 0 < height then (c.blockTime height).getD 0 else 0

/-- The season of `komodo_notaries`, zero for none. -/
def NotaryChain.season (height timestamp : Nat) : Nat :=
  if c.isKMD then if 180000 ≤ height then getkmdseason height else 0
  else getacseason (if timestamp = 0 then c.heightstamp height else timestamp)

/-- What `komodo_notaries` does with the tables. -/
def komodoNotaries (height timestamp : Nat) : NotaryTable :=
  let row := c.season height timestamp - 1
  if c.staked ∨ c.season height timestamp = 0 ∨ t.didinit row then t
  else
    { didinit := fun i => if i = row then true else t.didinit i
      addresses := fun i =>
        if c.assetchainsPrivate ∧ i = row then c.elected row else t.addresses i }

/-- `komodo_isnotaryvout`, with the tables it leaves. -/
def NotaryTable.isnotaryvout (coinaddr : String) (tiptime : Nat) :
    Except Fault (Bool × NotaryTable) :=
  match getacseason tiptime with
  | 0 => .error (.exception "read in front of the table")
  | row + 1 =>
    let t := if (t.addresses row).headD "" = "" then komodoNotaries c t 0 tiptime else t
    .ok (coinaddr == crypto777Kmdaddr || (t.addresses row).contains coinaddr, t)

inductive NotaryCall where
  | notaries (height timestamp : Nat)
  | isnotaryvout (coinaddr : String) (tiptime : Nat)

def notaryStep (t : NotaryTable) : NotaryCall → Except Fault NotaryTable
  | .notaries height timestamp => .ok (komodoNotaries c t height timestamp)
  | .isnotaryvout coinaddr tiptime => Prod.snd <$> t.isnotaryvout c coinaddr tiptime

/-! ### Rows -/

def NotaryTable.Filled : Prop :=
  ∀ row, t.addresses row = if t.didinit row then c.elected row else replicate 64 ""

variable {c t} {t' : NotaryTable}

theorem filled_komodoNotaries (hprivate : c.assetchainsPrivate = true) (h : t.Filled c)
    (height timestamp : Nat) : (komodoNotaries c t height timestamp).Filled c := by
  simp only [komodoNotaries]
  split
  · exact h
  · intro row
    by_cases hrow : row = c.season height timestamp - 1
    · simp [hrow, hprivate]
    · simp only [hrow, and_false, if_false]
      exact h row

theorem didinit_komodoNotaries (hstaked : c.staked = false) (hkmd : c.isKMD = false) {row : Nat}
    {tiptime : Nat} (hseason : getacseason tiptime = row + 1) :
    (komodoNotaries c t 0 tiptime).didinit row = true := by
  have hrow : c.season 0 tiptime = row + 1 := by
    rw [NotaryChain.season, hkmd, if_neg Bool.false_ne_true, NotaryChain.heightstamp,
      if_neg (Nat.lt_irrefl 0)]
    split
    · next hzero => rw [← hzero, hseason]
    · exact hseason
  simp only [komodoNotaries, hrow, hstaked, Nat.add_sub_cancel]
  split
  · next h => simpa using h
  · simp

theorem isnotaryvout_spec (hprivate : c.assetchainsPrivate = true) (hkmd : c.isKMD = false)
    (hstaked : c.staked = false) (h : t.Filled c) (coinaddr : String) {tiptime row : Nat}
    (hseason : getacseason tiptime = row + 1) :
    ∃ t', t.isnotaryvout c coinaddr tiptime = .ok (coinaddr == crypto777Kmdaddr ||
      (c.elected row).contains coinaddr, t') ∧ t'.Filled c := by
  have hfilled : ∀ {t : NotaryTable}, t.Filled c → t.didinit row = true →
      t.addresses row = c.elected row := fun h hinit => by rw [h row, if_pos hinit]
  simp only [NotaryTable.isnotaryvout, hseason]
  split
  · have hnew := filled_komodoNotaries hprivate h 0 tiptime
    exact ⟨_, by rw [hfilled hnew (didinit_komodoNotaries hstaked hkmd hseason)], hnew⟩
  · next hfirst =>
    have hinit : t.didinit row = true := by
      by_contra hblank
      exact hfirst (by rw [h row, if_neg hblank]; rfl)
    exact ⟨t, by rw [hfilled h hinit], h⟩

theorem filled_notaryStep (hprivate : c.assetchainsPrivate = true) (hkmd : c.isKMD = false)
    (hstaked : c.staked = false) (call : NotaryCall) (h : t.Filled c)
    (hstep : notaryStep c t call = .ok t') : t'.Filled c := by
  cases call with
  | notaries height timestamp =>
    obtain rfl := Except.ok.inj hstep
    exact filled_komodoNotaries hprivate h height timestamp
  | isnotaryvout coinaddr tiptime =>
    cases hseason : getacseason tiptime with
    | zero => simp [notaryStep, NotaryTable.isnotaryvout, hseason] at hstep
    | succ row =>
      obtain ⟨t₁, hanswer, hfilled⟩ := isnotaryvout_spec hprivate hkmd hstaked h coinaddr hseason
      rw [notaryStep, hanswer] at hstep
      obtain rfl := Except.ok.inj hstep
      exact hfilled

theorem getacseason_eq_zero {tiptime : Nat} : getacseason tiptime = 0 ↔ 1951328000 < tiptime := by
  unfold getacseason
  cases hfind : kmdSeasonTimestamps.findIdx? (tiptime ≤ ·) with
  | none =>
    have hlast := findIdx?_eq_none_iff.mp hfind 1951328000 (by decide)
    exact iff_of_true rfl (Nat.not_le.mp (of_decide_eq_false hlast))
  | some i =>
    obtain ⟨hi, hle, -⟩ := findIdx?_eq_some_iff_getElem.mp hfind
    have hmax : ∀ x ∈ kmdSeasonTimestamps, x ≤ 1951328000 := by decide
    have hearly := (of_decide_eq_true hle).trans (hmax _ (getElem_mem hi))
    exact iff_of_false (Nat.succ_ne_zero i) (Nat.not_lt.mpr hearly)

/-- **The notary exemption**: the address is `CRYPTO777` or elected for the season, after every
history of calls. -/
theorem notary_exemption_iff (hprivate : c.assetchainsPrivate = true) (hkmd : c.isKMD = false)
    (hstaked : c.staked = false) {calls : List NotaryCall}
    (hrun : calls.foldlM (notaryStep c) {} = .ok t) (coinaddr : String) (tiptime : Nat) :
    ((∃ r, t.isnotaryvout c coinaddr tiptime = .ok r) ↔ tiptime ≤ 1951328000) ∧
      ∀ r t', t.isnotaryvout c coinaddr tiptime = .ok (r, t') →
        (r = true ↔ coinaddr = crypto777Kmdaddr ∨
          coinaddr ∈ c.elected (getacseason tiptime - 1)) := by
  have hmeet : AllMeet (notaryStep c) (fun _ _ => True) calls {} :=
    allMeet_iff.mpr fun _ _ _ _ _ _ => trivial
  have hfilled : t.Filled c :=
    hmeet.invariant (fun call _ _ _ => filled_notaryStep hprivate hkmd hstaked call)
      (fun _ => rfl) hrun
  cases hseason : getacseason tiptime with
  | zero =>
    have hlate := Nat.not_le.mpr (getacseason_eq_zero.mp hseason)
    simp [NotaryTable.isnotaryvout, hseason, hlate]
  | succ row =>
    have hearly : tiptime ≤ 1951328000 := Nat.not_lt.mp fun hlate => by
      rw [getacseason_eq_zero.mpr hlate] at hseason
      cases hseason
    obtain ⟨t₁, hanswer, -⟩ :=
      isnotaryvout_spec hprivate hkmd hstaked hfilled coinaddr hseason
    rw [hanswer]
    refine ⟨iff_of_true ⟨_, rfl⟩ hearly, ?_⟩
    rintro r t' ⟨⟩
    rw [Bool.or_eq_true, beq_iff_eq, contains_iff_mem, Nat.add_sub_cancel]

def exemptChain : NotaryChain where
  isKMD := false
  staked := false
  assetchainsPrivate := true
  blockTime := fun _ => none
  elected := fun row => [toString row]

theorem notary_exemption_fifth :
    ∃ t, [.notaries 5 1500000000].foldlM (notaryStep exemptChain) {} = .ok t ∧
      (∃ r, t.isnotaryvout exemptChain "4" 1600000000 = .ok r) ∧
      ∀ r t', t.isnotaryvout exemptChain "4" 1600000000 = .ok (r, t') → r = true := by
  have hrun : [.notaries 5 1500000000].foldlM (notaryStep exemptChain) {} = .ok _ := rfl
  refine ⟨_, hrun, ?_⟩
  obtain ⟨hanswer, hvalue⟩ := notary_exemption_iff rfl rfl rfl hrun "4" 1600000000
  exact ⟨hanswer.mpr (by decide), fun r t' h => (hvalue r t' h).mpr (.inr (by decide))⟩

/-- **Past the last season the table is read outside.** -/
theorem notary_exemption_late : NotaryTable.isnotaryvout exemptChain {} crypto777Kmdaddr 1951328001
      = .error (.exception "read in front of the table") := rfl

end Elosys
