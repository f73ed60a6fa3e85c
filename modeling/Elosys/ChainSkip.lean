import Mathlib.Data.Nat.Bitwise
import Mathlib.Data.List.GetD

/-!
# The skip list and the active chain

`CBlockIndex` and `CChain` of `chain.cpp`. The blocks of a tree are numbered in the order in which
they were added, and a pointer is such a number. The ancestors of a block are what its `pprev` lead
to, and each of the four functions is stated in terms of them.

## Main results

* `WF.addBlock`: adding a block fails no assertion and keeps the tree well-formed.
* `WF.findFork_spec` and the results on `GetAncestor`, `SetTip` and `GetLocator` together describe
  every tree and chain that can be built.
-/

open List

namespace Elosys

structure CBlockNode where
  pprev : Option Nat := none
  pskip : Option Nat := none
  nHeight : Nat := 0

abbrev BlockTree := List CBlockNode

def invertLowestOne (n : Nat) : Nat := n &&& (n - 1)

def getSkipHeight (height : Nat) : Nat :=
  if height < 2 then 0
  else if height % 2 = 1 then invertLowestOne (invertLowestOne (height - 1)) + 1
  else invertLowestOne height

namespace BlockTree

variable (t : BlockTree)

def node (p : Nat) : CBlockNode := t.getD p {}

def height (p : Nat) : Nat := (t.node p).nHeight

/-- The loop of `GetAncestor`, `none` if its assertion fails; the first number is fuel. -/
def walk (height : Nat) : Nat → Nat → Nat → Option Nat
  | 0, pindexWalk, _ => some pindexWalk
  | fuel + 1, pindexWalk, heightWalk =>
    if heightWalk ≤ height then some pindexWalk
    else
      let heightSkip := getSkipHeight heightWalk
      let heightSkipPrev := getSkipHeight (heightWalk - 1)
      let follow := heightSkip = height ∨ (height < heightSkip ∧
        ¬(heightSkipPrev < heightSkip - 2 ∧ height ≤ heightSkipPrev))
      match (if follow then (t.node pindexWalk).pskip else none), (t.node pindexWalk).pprev with
      | some pskip, _ => walk height fuel pskip heightSkip
      | none, some pprev => walk height fuel pprev (heightWalk - 1)
      | none, none => none

def getAncestor (p : Nat) (height : Int) : Option (Option Nat) :=
  if t.height p < height ∨ height < 0 then some none
  else (t.walk height.toNat (t.height p) p (t.height p)).map some

/-- A block is added: its height, and `BuildSkip`. -/
def addBlock (pprev : Option Nat) : Option BlockTree :=
  match pprev with
  | none => some (t ++ [{}])
  | some p =>
    let nHeight := t.height p + 1
    (t.getAncestor p (getSkipHeight nHeight)).map fun pskip => t ++ [⟨some p, pskip, nHeight⟩]

variable (vChain : List (Option Nat))

/-- The loop of `SetTip`. -/
def fillTip : Nat → Option Nat → List (Option Nat) → List (Option Nat)
  | fuel + 1, some p, vChain =>
    if vChain.getD (t.height p) none = some p then vChain
    else fillTip fuel (t.node p).pprev (vChain.set (t.height p) (some p))
  | _, _, vChain => vChain

def setTip : Option Nat → List (Option Nat)
  | none => []
  | some p => t.fillTip (t.height p + 1) (some p)
      ((range (t.height p + 1)).map fun h => vChain.getD h none)

def contains (p : Nat) : Bool := vChain.getD (t.height p) none = some p

/-- The loop of `FindFork`. -/
def forkFrom : Nat → Option Nat → Option Nat
  | fuel + 1, some p => if t.contains vChain p then some p else forkFrom fuel (t.node p).pprev
  | _, _ => none

def findFork : Option Nat → Option (Option Nat)
  | none => some none
  | some p =>
    let height : Int := vChain.length - 1
    (if height < t.height p then t.getAncestor p height else some (some p)).map
      (t.forkFrom vChain (t.height p + 1))

/-- The loop of `GetLocator`, with the size of `vHave`: the blocks whose hashes are added. -/
def locatorFrom : Nat → Option Nat → Nat → Nat → Option (List Nat)
  | fuel + 1, some p, nStep, size =>
    if t.height p = 0 then some [p]
    else
      let nHeight := t.height p - nStep
      let next := if t.contains vChain p then some (vChain.getD nHeight none)
        else t.getAncestor p nHeight
      let nStep := if 10 < size + 1 then 2 * nStep else nStep
      next.bind fun q => (locatorFrom fuel q nStep (size + 1)).map (p :: ·)
  | _, _, _, _ => some []

def getLocator (pindex : Option Nat) : Option (List Nat) :=
  let p := pindex.or (vChain.getD (vChain.length - 1) none)
  t.locatorFrom vChain (p.elim 0 t.height + 1) p 1 0

/-! ### Ancestors -/

/-- The block `k` steps back. -/
def back : Nat → Nat → Option Nat
  | 0, p => some p
  | k + 1, p => (t.node p).pprev.bind (back k)

def ancestorAt (p h : Nat) : Option Nat := t.back (t.height p - h) p

/-- The highest block of the chain among the ancestors of a block, if there is one. -/
structure IsFork (p : Nat) (fork : Option Nat) : Prop where
  common : ∀ a, fork = some a → t.contains vChain a = true ∧ ∃ k, t.back k p = some a
  highest : ∀ b k, t.contains vChain b = true → t.back k p = some b →
    ∃ a, fork = some a ∧ t.height b ≤ t.height a

/-- Ancestors of a block, from itself down to a first block. -/
structure IsLocator (p : Nat) (vHave : List Nat) : Prop where
  head_eq : vHave.head? = some p
  ancestor : ∀ a ∈ vHave, ∃ k, t.back k p = some a
  decreasing : vHave.Pairwise fun a b => t.height b < t.height a
  last_eq : ∃ g, vHave.getLast? = some g ∧ t.height g = 0

structure WF : Prop where
  genesis : ∀ p, (t.node p).pprev = none → t.height p = 0
  child : ∀ p q, (t.node p).pprev = some q → q < t.length ∧ t.height p = t.height q + 1
  skip : ∀ p s, (t.node p).pskip = some s → t.ancestorAt p (getSkipHeight (t.height p)) = some s

variable {t vChain} {p a h k : Nat}

theorem back_add (i j p : Nat) : t.back (i + j) p = (t.back i p).bind (t.back j) := by
  induction i generalizing p with
  | zero => simp [back]
  | succ i ih =>
    rw [Nat.succ_add, back, back]
    cases (t.node p).pprev with
    | none => rfl
    | some q => exact ih q

theorem WF.height_back (hwf : t.WF) (hback : t.back k p = some a) :
    t.height a + k = t.height p := by
  induction k generalizing p with
  | zero =>
    cases hback
    rfl
  | succ k ih =>
    obtain ⟨q, hq, hback⟩ := Option.bind_eq_some_iff.mp hback
    have hchild := (hwf.child p q hq).2
    have hlow := ih hback
    omega

theorem WF.exists_back (hwf : t.WF) (hk : k ≤ t.height p) : ∃ a, t.back k p = some a := by
  induction k generalizing p with
  | zero => exact ⟨p, rfl⟩
  | succ k ih =>
    cases hq : (t.node p).pprev with
    | none =>
      have hzero := hwf.genesis p hq
      omega
    | some q =>
      have hchild := (hwf.child p q hq).2
      obtain ⟨a, ha⟩ := ih (p := q) (by omega)
      exact ⟨a, by rw [back, hq]; exact ha⟩

theorem WF.exists_ancestorAt (hwf : t.WF) (hh : h ≤ t.height p) :
    ∃ a, t.ancestorAt p h = some a ∧ t.height a = h := by
  obtain ⟨a, ha⟩ := hwf.exists_back (Nat.sub_le (t.height p) h)
  have hheight := hwf.height_back ha
  exact ⟨a, ha, by omega⟩

theorem ancestorAt_self (p : Nat) : t.ancestorAt p (t.height p) = some p := by
  rw [ancestorAt, Nat.sub_self, back]

theorem WF.ancestorAt_back (hwf : t.WF) (hback : t.back k p = some a) (hh : h ≤ t.height a) :
    t.ancestorAt a h = t.ancestorAt p h := by
  have hheight := hwf.height_back hback
  rw [ancestorAt, ancestorAt, show t.height p - h = k + (t.height a - h) by omega, back_add, hback]
  rfl

theorem getSkipHeight_lt {n : Nat} (hn : 0 < n) : getSkipHeight n < n := by
  have hle : ∀ n, invertLowestOne n ≤ n - 1 := fun n => Nat.and_le_right
  have h₁ := hle n
  have h₂ := hle (n - 1)
  have h₃ := hle (invertLowestOne (n - 1))
  unfold getSkipHeight
  split
  · exact hn
  split <;> omega

theorem WF.walk_eq (hwf : t.WF) {fuel : Nat} (hh : h ≤ t.height p) (hfuel : t.height p ≤ h + fuel) :
    t.walk h fuel p (t.height p) = t.ancestorAt p h := by
  induction fuel generalizing p with
  | zero =>
    obtain rfl : h = t.height p := by omega
    exact (ancestorAt_self p).symm
  | succ fuel ih =>
    rw [walk]
    split
    · next hle =>
        obtain rfl : h = t.height p := by omega
        exact (ancestorAt_self p).symm
    next hgt =>
    have hskip := getSkipHeight_lt (show 0 < t.height p by omega)
    simp only
    split
    · next q hq =>
        split at hq
        · next hfollow =>
            have hat := hwf.skip p q hq
            have hheight := hwf.height_back hat
            have hq' : t.height q = getSkipHeight (t.height p) := by omega
            rw [← hq', ih (by omega) (by omega), hwf.ancestorAt_back hat (by omega)]
        · cases hq
    · next q _ hq =>
        have hchild := (hwf.child p q hq).2
        have hback : t.back 1 p = some q := by rw [back, hq]; rfl
        rw [show t.height p - 1 = t.height q by omega, ih (by omega) (by omega),
          hwf.ancestorAt_back hback (by omega)]
    · next hq =>
        have hzero := hwf.genesis p hq
        omega

theorem WF.getAncestor_eq (hwf : t.WF) (hh : h ≤ t.height p) :
    t.getAncestor p h = some (t.ancestorAt p h) := by
  obtain ⟨a, ha, _⟩ := hwf.exists_ancestorAt hh
  rw [getAncestor, if_neg (by omega), Int.toNat_natCast, hwf.walk_eq hh (by omega), ha]
  rfl

/-! ### Adding blocks -/

variable {x : CBlockNode}

theorem node_append (hp : p < t.length) : node (t ++ [x]) p = t.node p := by
  rw [node, node, getD_append _ _ _ _ hp]

theorem WF.back_append (hwf : t.WF) (hp : p < t.length) : back (t ++ [x]) k p = t.back k p := by
  induction k generalizing p with
  | zero => rfl
  | succ k ih =>
    rw [back, back, node_append hp]
    cases hq : (t.node p).pprev with
    | none => rfl
    | some q => exact ih (hwf.child p q hq).1

theorem WF.ancestorAt_append (hwf : t.WF) (hp : p < t.length) :
    ancestorAt (t ++ [x]) p h = t.ancestorAt p h := by
  rw [ancestorAt, ancestorAt, height, node_append hp, hwf.back_append hp, height]

theorem height_append (hp : p < t.length) : height (t ++ [x]) p = t.height p := by
  rw [height, node_append hp, height]

theorem node_append_length : node (t ++ [x]) t.length = x := by
  simp [node]

theorem WF.append (hwf : t.WF) (hgenesis : x.pprev = none → x.nHeight = 0)
    (hchild : ∀ q, x.pprev = some q → q < t.length ∧ x.nHeight = t.height q + 1)
    (hskip : ∀ s, x.pskip = some s → ∃ q, x.pprev = some q ∧ getSkipHeight x.nHeight ≤ t.height q ∧
      t.ancestorAt q (getSkipHeight x.nHeight) = some s) : WF (t ++ [x]) := by
  have hnode : ∀ p, p < t.length ∧ node (t ++ [x]) p = t.node p ∨
      p = t.length ∧ node (t ++ [x]) p = x ∨ node (t ++ [x]) p = {} := by
    intro p
    obtain hlt | rfl | hgt := Nat.lt_trichotomy p t.length
    · exact .inl ⟨hlt, node_append hlt⟩
    · exact .inr (.inl ⟨rfl, node_append_length⟩)
    · exact .inr (.inr (getD_eq_default _ _ (by simp; omega)))
  refine ⟨fun p hp => ?_, fun p q hq => ?_, fun p s hs => ?_⟩
  · obtain ⟨_, h⟩ | ⟨_, h⟩ | h := hnode p <;> rw [h] at hp <;> rw [height, h]
    · exact hwf.genesis p hp
    · exact hgenesis hp
  · have hold : q < t.length ∧ (node (t ++ [x]) p).nHeight = t.height q + 1 := by
      obtain ⟨_, h⟩ | ⟨_, h⟩ | h := hnode p <;> rw [h] at hq ⊢
      · exact hwf.child p q hq
      · exact hchild q hq
      · cases hq
    refine ⟨by simp; omega, ?_⟩
    rw [height_append hold.1]
    exact hold.2
  · obtain ⟨hlt, h⟩ | ⟨rfl, h⟩ | h := hnode p <;> rw [h] at hs
    · rw [height_append hlt, hwf.ancestorAt_append hlt]
      exact hwf.skip p s hs
    · obtain ⟨q, hq, hle, hat⟩ := hskip s hs
      obtain ⟨hlt, hheight⟩ := hchild q hq
      rw [ancestorAt, height, h, show x.nHeight - getSkipHeight x.nHeight =
        t.height q - getSkipHeight x.nHeight + 1 by omega, back, h, hq, Option.bind_some,
        hwf.back_append hlt]
      exact hat
    · cases hs

/-- **A block is added without a failed assertion**, and the tree stays well-formed. -/
theorem WF.addBlock (hwf : t.WF) {pprev : Option Nat} (hp : ∀ p ∈ pprev, p < t.length) :
    ∃ x, t.addBlock pprev = some (t ++ [x]) ∧ WF (t ++ [x]) := by
  cases pprev with
  | none => exact ⟨{}, rfl, hwf.append (fun _ => rfl) nofun nofun⟩
  | some p =>
    have hle : getSkipHeight (t.height p + 1) ≤ t.height p :=
      Nat.le_of_lt_succ (getSkipHeight_lt (Nat.succ_pos _))
    refine ⟨_, by rw [BlockTree.addBlock, hwf.getAncestor_eq hle]; rfl, hwf.append
      (fun h => by cases h) ?_ ?_⟩
    · rintro q ⟨⟩
      exact ⟨hp p rfl, rfl⟩
    · intro s hs
      exact ⟨p, rfl, hle, hs⟩

/-- The blocks of the chain are the ancestors of a tip. -/
structure Active (t : BlockTree) (vChain : List (Option Nat)) (tip : Nat) : Prop where
  length_eq : vChain.length = t.height tip + 1
  at_eq : ∀ h ≤ t.height tip, vChain.getD h none = t.ancestorAt tip h

theorem Active.at_ancestor {tip : Nat} (h : Active t vChain tip) (hwf : t.WF) {j : Nat}
    (ha : vChain.getD j none = some a) (i : Nat) (hi : i ≤ j) :
    vChain.getD i none = t.ancestorAt a i := by
  have hj : j ≤ t.height tip := by
    by_contra hgt
    rw [getD_eq_default _ _ (by rw [h.length_eq]; omega)] at ha
    cases ha
  rw [h.at_eq j hj] at ha
  have hheight := hwf.height_back ha
  rw [h.at_eq i (by omega), hwf.ancestorAt_back ha (by omega)]

theorem WF.fillTip_spec (hwf : t.WF) {fuel : Nat} (hh : t.height p = h) (hfuel : h < fuel)
    (hlength : h < vChain.length)
    (hbelow : ∀ j ≤ h, ∀ a, vChain.getD j none = some a →
      ∀ i ≤ j, vChain.getD i none = t.ancestorAt a i) :
    (t.fillTip fuel (some p) vChain).length = vChain.length ∧
      ∀ j, (t.fillTip fuel (some p) vChain).getD j none =
        if j ≤ h then t.ancestorAt p j else vChain.getD j none := by
  induction fuel generalizing p h vChain with
  | zero => omega
  | succ fuel ih =>
    rw [fillTip, hh]
    split
    · next hhit =>
        refine ⟨rfl, fun j => ?_⟩
        split
        · next hj => exact hbelow h (Nat.le_refl h) p hhit j hj
        · rfl
    next hmiss =>
    have hset : ∀ j, (vChain.set h (some p)).getD j none =
        if j = h then some p else vChain.getD j none := by
      intro j
      rw [getD_eq_getElem?_getD, getElem?_set, if_pos hlength]
      split
      · next heq => simp [heq]
      · next hne => rw [if_neg (Ne.symm hne), getD_eq_getElem?_getD]
    cases hq : (t.node p).pprev with
    | none =>
      obtain rfl : h = 0 := hh ▸ hwf.genesis p hq
      have hdone : t.fillTip fuel none (vChain.set 0 (some p)) = vChain.set 0 (some p) := by
        cases fuel <;> rfl
      rw [hdone]
      refine ⟨length_set .., fun j => ?_⟩
      simp only [hset, Nat.le_zero_eq]
      split
      · next hj => rw [hj, ← hh, ancestorAt_self]
      · rfl
    | some q =>
      have hchild := (hwf.child p q hq).2
      have hback : t.back 1 p = some q := by rw [back, hq]; rfl
      obtain ⟨hlen, hat⟩ := ih (p := q) (h := t.height q) rfl (by omega)
        (show _ < (vChain.set h (some p)).length by rw [length_set]; omega) (by
          intro j hj a ha i hi
          rw [hset, if_neg (by omega)] at ha ⊢
          exact hbelow j (by omega) a ha i hi)
      refine ⟨hlen.trans (length_set ..), fun j => ?_⟩
      rw [hat, hset]
      obtain hlt | rfl | hgt := Nat.lt_trichotomy j h
      · rw [if_pos (by omega), if_pos (by omega), hwf.ancestorAt_back hback (by omega)]
      · rw [if_neg (by omega), if_pos rfl, if_pos (Nat.le_refl _), ← hh, ancestorAt_self]
      · rw [if_neg (by omega), if_neg (by omega), if_neg (by omega)]

theorem Active.setTip (hwf : t.WF) (hchain : vChain = [] ∨ ∃ tip, Active t vChain tip) (p : Nat) :
    Active t (t.setTip vChain (some p)) p := by
  have hresize : ∀ j, ((range (t.height p + 1)).map fun h => vChain.getD h none).getD j none =
      if j ≤ t.height p then vChain.getD j none else none := by
    intro j
    split
    · next hj => simp [getD_eq_getElem?_getD, Nat.lt_succ_of_le hj]
    · next hj => exact getD_eq_default _ _ (by simp; omega)
  obtain ⟨hlength, hat⟩ := hwf.fillTip_spec (p := p) rfl (Nat.lt_succ_self _)
    (show _ < ((range (t.height p + 1)).map fun h => vChain.getD h none).length by simp) (by
      intro j hj a ha i hi
      rw [hresize, if_pos hj] at ha
      rw [hresize, if_pos (by omega)]
      obtain rfl | ⟨tip, hactive⟩ := hchain
      · cases ha
      · exact hactive.at_ancestor hwf ha i hi)
  refine ⟨hlength.trans (by simp), fun h hh => ?_⟩
  rw [BlockTree.setTip, hat, if_pos hh]

theorem WF.forkFrom_spec (hwf : t.WF) (vChain : List (Option Nat)) {fuel : Nat}
    (hfuel : t.height p < fuel) : t.IsFork vChain p (t.forkFrom vChain fuel (some p)) := by
  induction fuel generalizing p with
  | zero => omega
  | succ fuel ih =>
    rw [forkFrom]
    split
    · next hcontains =>
        refine ⟨?_, fun b k _ hback => ⟨p, rfl, ?_⟩⟩
        · rintro a ⟨⟩
          exact ⟨hcontains, 0, rfl⟩
        · have hheight := hwf.height_back hback
          omega
    next hcontains =>
    -- a common block is further back
    have hback : ∀ b k, t.contains vChain b = true → t.back k p = some b →
        ∃ q k', (t.node p).pprev = some q ∧ t.back k' q = some b := by
      intro b k hb hback
      cases k with
      | zero =>
        cases hback
        exact absurd hb hcontains
      | succ k =>
        obtain ⟨q, hq, hback⟩ := Option.bind_eq_some_iff.mp hback
        exact ⟨q, k, hq, hback⟩
    cases hq : (t.node p).pprev with
    | none =>
      have hnone : t.forkFrom vChain fuel none = none := by cases fuel <;> rfl
      rw [hnone]
      refine ⟨nofun, fun b k hb hk => ?_⟩
      obtain ⟨q, _, hq', _⟩ := hback b k hb hk
      cases hq.symm.trans hq'
    | some q =>
      have hchild := (hwf.child p q hq).2
      have hfork := ih (p := q) (by omega)
      refine ⟨fun a ha => ?_, fun b k hb hk => ?_⟩
      · obtain ⟨hin, k, hk⟩ := hfork.common a ha
        exact ⟨hin, k + 1, by rw [back, hq]; exact hk⟩
      · obtain ⟨q', k', hq', hk'⟩ := hback b k hb hk
        cases hq.symm.trans hq'
        exact hfork.highest b k' hb hk'

/-- **`FindFork`** returns the highest block of the chain that is an ancestor of the argument. -/
theorem WF.findFork_spec (hwf : t.WF) (vChain : List (Option Nat)) (p : Nat) :
    ∃ fork, t.findFork vChain (some p) = some fork ∧ t.IsFork vChain p fork := by
  have hin : ∀ b, t.contains vChain b = true → t.height b < vChain.length := by
    intro b hb
    by_contra hge
    rw [contains, getD_eq_default _ _ (by omega)] at hb
    cases hb
  simp only [findFork]
  split
  · next hlt =>
      obtain hnil | hpos := Nat.eq_zero_or_pos vChain.length
      · refine ⟨none, ?_, nofun, fun b k hb _ => ?_⟩
        · rw [hnil, getAncestor, if_pos (by omega)]
          rfl
        · have hb' := hin b hb
          omega
      · generalize hn : vChain.length - 1 = n
        obtain ⟨q, hat, hq⟩ := hwf.exists_ancestorAt (p := p) (h := n) (by omega)
        have hfork := hwf.forkFrom_spec vChain (show t.height q < t.height p + 1 by omega)
        rw [show (vChain.length : Int) - 1 = (n : Int) by omega, hwf.getAncestor_eq (by omega), hat]
        refine ⟨_, rfl, fun a ha => ?_, fun b k hb hback => ?_⟩
        · obtain ⟨hcontains, k, hk⟩ := hfork.common a ha
          exact ⟨hcontains, t.height p - n + k, by rw [back_add, ← ancestorAt, hat]; exact hk⟩
        · have hb' := hin b hb
          have hheight := hwf.height_back hback
          refine hfork.highest b (k - (t.height p - n)) hb ?_
          rw [show k = t.height p - n + (k - (t.height p - n)) by omega, back_add, ← ancestorAt,
            hat] at hback
          exact hback
  · exact ⟨_, rfl, hwf.forkFrom_spec vChain (Nat.lt_succ_self _)⟩

theorem WF.next_eq (hwf : t.WF) (hchain : vChain = [] ∨ ∃ tip, Active t vChain tip)
    (hh : h ≤ t.height p) : (if t.contains vChain p then some (vChain.getD h none)
      else t.getAncestor p h) = some (t.ancestorAt p h) := by
  split
  · next hcontains =>
      obtain rfl | ⟨tip, hactive⟩ := hchain
      · cases hcontains
      · rw [hactive.at_ancestor hwf (of_decide_eq_true hcontains) h hh]
  · exact hwf.getAncestor_eq hh

theorem WF.locatorFrom_spec (hwf : t.WF) (hchain : vChain = [] ∨ ∃ tip, Active t vChain tip)
    {fuel : Nat} (nStep size : Nat) (hfuel : t.height p < fuel) (hstep : 0 < nStep)
    (hone : size < 10 → nStep = 1) :
    ∃ vHave, t.locatorFrom vChain fuel (some p) nStep size = some vHave ∧ t.IsLocator p vHave ∧
      ∀ k, t.height p + nStep ≤ 2 ^ k * nStep → vHave.length ≤ 10 - size + k + 1 := by
  induction fuel generalizing p nStep size with
  | zero => omega
  | succ fuel ih =>
    rw [locatorFrom]
    split
    · next hzero =>
        refine ⟨[p], rfl, ⟨rfl, ?_, pairwise_singleton .., ⟨p, rfl, hzero⟩⟩, fun k _ => by simp⟩
        simp only [mem_singleton]
        rintro a rfl
        exact ⟨0, rfl⟩
    next hpos =>
    obtain ⟨q, hat, hq⟩ := hwf.exists_ancestorAt (Nat.sub_le (t.height p) nStep)
    simp only [hwf.next_eq hchain (Nat.sub_le _ _), hat, Option.bind_some]
    obtain ⟨vHave, hrun, hlocator, hlength⟩ := ih (p := q)
      (if 10 < size + 1 then 2 * nStep else nStep) (size + 1) (by omega) (by split <;> omega)
      (fun hlt => by rw [if_neg (by omega)]; exact hone (by omega))
    refine ⟨p :: vHave, by rw [hrun]; rfl, ⟨rfl, fun a ha => ?_, ?_, ?_⟩, fun k hk => ?_⟩
    · obtain rfl | ha := mem_cons.mp ha
      · exact ⟨0, rfl⟩
      · obtain ⟨k, hk⟩ := hlocator.ancestor a ha
        exact ⟨t.height p - (t.height p - nStep) + k, by rw [back_add, ← ancestorAt, hat]; exact hk⟩
    · refine pairwise_cons.mpr ⟨fun b hb => ?_, hlocator.decreasing⟩
      obtain ⟨k, hk⟩ := hlocator.ancestor b hb
      have hheight := hwf.height_back hk
      omega
    · obtain ⟨g, hg, hzero⟩ := hlocator.last_eq
      exact ⟨g, by rw [getLast?_cons, hg]; rfl, hzero⟩
    · rw [length_cons]
      by_cases hsize : size < 10
      · have hle := hlength k (by rw [if_neg (by omega)]; omega)
        omega
      -- the step doubles, and the height and the step together do not grow
      · obtain ⟨k, rfl⟩ := Nat.exists_eq_succ_of_ne_zero (show k ≠ 0 by rintro rfl; omega)
        have hpow : 1 * nStep ≤ 2 ^ k * nStep := Nat.mul_le_mul_right _ Nat.one_le_two_pow
        rw [Nat.pow_succ, Nat.mul_assoc, Nat.mul_left_comm] at hk
        have hle := hlength k (by rw [if_pos (by omega), Nat.mul_left_comm]; omega)
        omega

/-! ### Runs -/

/-- Blocks are added to the tree, and the tip of the chain is set, in any order. -/
inductive ChainRun : BlockTree → List (Option Nat) → Prop
  | init : ChainRun [] []
  | addBlock {t t' : BlockTree} {vChain : List (Option Nat)} {pprev : Option Nat}
      (h : ChainRun t vChain) (hp : ∀ p ∈ pprev, p < t.length) (hadd : t.addBlock pprev = some t') :
      ChainRun t' vChain
  | setTip {t : BlockTree} {vChain : List (Option Nat)} {pindex : Option Nat}
      (h : ChainRun t vChain) (hp : ∀ p ∈ pindex, p < t.length) :
      ChainRun t (t.setTip vChain pindex)

theorem ChainRun.active (h : ChainRun t vChain) :
    t.WF ∧ (vChain = [] ∨ ∃ tip < t.length, Active t vChain tip) := by
  induction h with
  | init => exact ⟨⟨fun _ _ => rfl, fun p q hq => by simp [node] at hq,
      fun p s hs => by simp [node] at hs⟩, .inl rfl⟩
  | addBlock _ hp hadd ih =>
    obtain ⟨x, hx, hwf'⟩ := ih.1.addBlock hp
    obtain rfl := Option.some.inj (hx.symm.trans hadd)
    refine ⟨hwf', ih.2.imp_right ?_⟩
    rintro ⟨tip, htip, hactive⟩
    refine ⟨tip, by simp; omega, by rw [height_append htip]; exact hactive.length_eq, ?_⟩
    intro h hh
    rw [height_append htip] at hh
    rw [ih.1.ancestorAt_append htip, hactive.at_eq h hh]
  | @setTip _ _ pindex _ hp ih =>
    refine ⟨ih.1, ?_⟩
    cases pindex with
    | none => exact .inl rfl
    | some p =>
      refine .inr ⟨p, hp p rfl, Active.setTip ih.1 (ih.2.imp_right ?_) p⟩
      exact fun ⟨tip, _, hactive⟩ => ⟨tip, hactive⟩

/-- **The skip list and the active chain**: no assertion fails, `GetAncestor` returns the one
ancestor at a height, the chain holds the ancestors of its tip, which after `SetTip` is the block
it was given, `FindFork` returns the highest common block, and a locator goes down to a first block
in logarithmically many steps. -/
theorem chain_index_exact (hrun : ChainRun t vChain) :
    (∀ pprev, (∀ p ∈ pprev, p < t.length) → ∃ t', t.addBlock pprev = some t') ∧
    (∀ p h, h ≤ t.height p → ∃ a, t.getAncestor p h = some (some a) ∧ t.height a = h ∧
      (∃ k, t.back k p = some a) ∧ ∀ b k, t.back k p = some b → t.height b = h → b = a) ∧
    (vChain = [] ∨ ∃ tip, vChain.getD (vChain.length - 1) none = some tip ∧
      vChain.length = t.height tip + 1 ∧
      ∀ h ≤ t.height tip, vChain.getD h none = t.ancestorAt tip h) ∧
    (∀ p < t.length, Active t (t.setTip vChain (some p)) p) ∧
    (∀ p, ∃ fork, t.findFork vChain (some p) = some fork ∧ t.IsFork vChain p fork) ∧
    (∀ pindex p, pindex.or (vChain.getD (vChain.length - 1) none) = some p →
      ∃ vHave, t.getLocator vChain pindex = some vHave ∧ t.IsLocator p vHave ∧
        vHave.length ≤ 14 + Nat.log2 (t.height p + 1)) := by
  obtain ⟨hwf, hchain⟩ := hrun.active
  have hactive : vChain = [] ∨ ∃ tip, Active t vChain tip :=
    hchain.imp_right fun ⟨tip, _, h⟩ => ⟨tip, h⟩
  refine ⟨fun pprev hp => ?_, fun p h hh => ?_, hchain.imp_right ?_,
    fun p _ => Active.setTip hwf hactive p, hwf.findFork_spec vChain, fun pindex p hp => ?_⟩
  · obtain ⟨x, hx, _⟩ := hwf.addBlock hp
    exact ⟨_, hx⟩
  · obtain ⟨a, hat, ha⟩ := hwf.exists_ancestorAt hh
    refine ⟨a, by rw [hwf.getAncestor_eq hh, hat], ha, ⟨_, hat⟩, fun b k hback hb => ?_⟩
    have hheight := hwf.height_back hback
    obtain rfl : k = t.height p - h := by omega
    exact Option.some.inj (hback.symm.trans hat)
  · rintro ⟨tip, _, hactive⟩
    refine ⟨tip, ?_, hactive.length_eq, hactive.at_eq⟩
    rw [hactive.length_eq, Nat.add_sub_cancel, hactive.at_eq _ (Nat.le_refl _), ancestorAt_self]
  · obtain ⟨vHave, hrun, hlocator, hlength⟩ := hwf.locatorFrom_spec hactive 1 0
      (Nat.lt_succ_self (t.height p)) (by omega) (fun _ => rfl)
    refine ⟨vHave, by simp only [getLocator, hp]; exact hrun, hlocator, ?_⟩
    have hpow := Nat.lt_log2_self (n := t.height p + 1)
    have hle := hlength (Nat.log2 (t.height p + 1) + 1) (by omega)
    omega

def forkTree : BlockTree := [{}, ⟨some 0, some 0, 1⟩, ⟨some 0, some 0, 1⟩]

theorem chainRun_forkTree : ChainRun forkTree [some 0, some 2] := by
  have hgenesis : ChainRun [{}] [] := @ChainRun.addBlock _ _ _ none .init nofun rfl
  have hfirst : ChainRun (forkTree.take 2) [] :=
    @ChainRun.addBlock _ _ _ (some 0) hgenesis (by simp) rfl
  have hsecond : ChainRun forkTree [] :=
    @ChainRun.addBlock _ _ _ (some 0) hfirst (by simp [forkTree]) rfl
  have hone : ChainRun forkTree (forkTree.setTip [] (some 1)) := hsecond.setTip (by simp [forkTree])
  exact @ChainRun.setTip _ _ (some 2) hone (by simp [forkTree])

theorem chain_index_exact_forkTree : ∃ fork,
    forkTree.findFork [some 0, some 2] (some 1) = some fork ∧
    forkTree.IsFork [some 0, some 2] 1 fork :=
  (chain_index_exact chainRun_forkTree).2.2.2.2.1 1

end BlockTree

end Elosys
