import Elosys.IncrementalMerkle

/-!
# The Incremental Witness

`IncrementalWitness` of `zcash/IncrementalMerkleTree.hpp`: a tree frozen with the witnessed leaf
as its last, the complete subtrees to the right filled since, and a cursor tree for the next one,
whose depth `next_depth` gives.
-/

open CompleteTree MerkleHash List

namespace Elosys

structure IncrementalWitness (H : Type) where
  tree : IncrementalMerkleTree H
  filled : List H := []
  cursor : Option (IncrementalMerkleTree H) := none
  cursorDepth : Nat := 0
  deriving DecidableEq

section

variable {H : Type} [MerkleHash H]

def IncrementalMerkleTree.witness (t : IncrementalMerkleTree H) : IncrementalWitness H where
  tree := t

namespace IncrementalWitness

def partialPath (w : IncrementalWitness H) : List H :=
  match w.cursor with
  | some cursor => w.filled ++ [cursor.root w.cursorDepth []]
  | none => w.filled

def element (w : IncrementalWitness H) : Except Fault H := w.tree.last

def root (depth : Nat) (w : IncrementalWitness H) : H := w.tree.root depth w.partialPath

def append (depth : Nat) (w : IncrementalWitness H) (obj : H) :
    Except Fault (IncrementalWitness H) :=
  match w.cursor with
  | some cursor => do
    let cursor ← cursor.append depth obj
    if cursor.isComplete w.cursorDepth then
      return { w with filled := w.filled ++ [cursor.root w.cursorDepth []], cursor := none }
    else return { w with cursor := some cursor }
  | none =>
    let cursorDepth := w.tree.nextDepth w.filled.length
    if depth ≤ cursorDepth then .error (.exception "tree is full")
    else if cursorDepth = 0 then .ok { w with filled := w.filled ++ [obj], cursorDepth }
    else do
      let cursor ← IncrementalMerkleTree.append depth {} obj
      return { w with cursor := some cursor, cursorDepth }

end IncrementalWitness

end

def IncrementalWitness.path {H : Type} [NoteHash H] (depth : Nat) (w : IncrementalWitness H) :
    Except Fault MerklePath :=
  w.tree.path depth w.partialPath

section

variable {H : Type} [MerkleHash H] {f : Nat → H} {depth p N : Nat}

/-! ### The next right sibling -/

theorem length_uncles_zero (f : Nat → H) (r d : Nat) : (uncles f r d 0).length = r := by
  induction r generalizing d with
  | zero => rfl
  | succ r ih => simp [uncles, ih]

theorem nextDepthLoop_ommers_zero (f : Nat → H) (d j : Nat) :
    nextDepthLoop (ommers f d j) d 0 = nextUncle d j := by
  induction j using Nat.strongRecOn generalizing d with
  | ind j ih =>
    rw [nextUncle]
    by_cases hodd : j % 2 = 1
    · rw [ommers_odd hodd, nextDepthLoop, ih (j / 2) (by omega), if_pos hodd]
    · rw [if_neg hodd]
      by_cases hj : j = 0
      · simp [hj, nextDepthLoop]
      · rw [ommers_even hj hodd, nextDepthLoop]

theorem nextDepthLoop_ommers (f : Nat → H) (r d j : Nat) :
    nextDepthLoop (ommers f d j) d (uncles f r d j).length = nextUncle (d + r) (j / 2 ^ r) := by
  induction r generalizing d j with
  | zero => simpa [uncles] using nextDepthLoop_ommers_zero f d j
  | succ r ih =>
    have hlevel : d + (r + 1) = d + 1 + r := by omega
    have hindex : j / 2 ^ (r + 1) = j / 2 / 2 ^ r := by
      rw [Nat.div_div_eq_div_mul, ← Nat.pow_succ']
    by_cases hj : j = 0
    · subst hj
      rw [length_uncles_zero, ommers_zero, nextDepthLoop, Nat.zero_div, nextUncle,
        if_neg (by omega)]
    · rw [hlevel, hindex, ← ih, uncles]
      by_cases hodd : j % 2 = 1
      · rw [ommers_odd hodd, nextDepthLoop, if_pos hodd, nil_append]
      · rw [ommers_even hj hodd, if_neg hodd, singleton_append, length_cons, nextDepthLoop]

theorem nextDepth_treeOf (f : Nat → H) (p r : Nat) :
    (treeOf f (p + 1)).nextDepth (uncles f r 0 p).length = nextUncle r (p / 2 ^ r) := by
  cases r with
  | zero =>
    rw [nextUncle]
    by_cases hodd : p % 2 = 1
    · have hloop := nextDepthLoop_ommers_zero f 1 (p / 2)
      simpa [treeOf, IncrementalMerkleTree.nextDepth, hodd, uncles] using hloop
    · simp [treeOf, IncrementalMerkleTree.nextDepth, hodd, uncles]
  | succ r =>
    have hloop := nextDepthLoop_ommers f r 1 (p / 2)
    rw [Nat.add_comm 1 r, Nat.div_div_eq_div_mul, ← Nat.pow_succ'] at hloop
    rw [← hloop, uncles]
    by_cases hodd : p % 2 = 1
    · simp [treeOf, IncrementalMerkleTree.nextDepth, hodd]
    · simp [treeOf, IncrementalMerkleTree.nextDepth, hodd]

theorem nextUncle_spec (f : Nat → H) (p d : Nat) : ¬p / 2 ^ nextUncle d (p / 2 ^ d) % 2 = 1 ∧
      boundary p (nextUncle d (p / 2 ^ d)) = boundary p d ∧
      uncles f (nextUncle d (p / 2 ^ d)) 0 p = uncles f d 0 p := by
  generalize hj : p / 2 ^ d = j
  induction j using Nat.strongRecOn generalizing d with
  | ind j ih =>
    rw [nextUncle]
    by_cases hodd : j % 2 = 1
    · rw [if_pos hodd]
      have hnext := ih (j / 2) (by omega) (d + 1) (by rw [div_pow_succ, hj])
      rwa [boundary_succ, uncles_snoc, hj, if_pos hodd, if_pos hodd, append_nil] at hnext
    · rw [if_neg hodd]
      exact ⟨by rwa [hj], rfl, rfl⟩

/-! ### What a witness stands for -/

/-- The witness of leaf `p` among `N` leaves: the lower right siblings are filled, the remaining
leaves in the cursor. -/
def Witnesses (f : Nat → H) (depth p N : Nat) (w : IncrementalWitness H) : Prop :=
  w.tree = treeOf f (p + 1) ∧ ∃ d ≤ depth, w.filled = uncles f d 0 p ∧
    match w.cursor with
    | none => N = boundary p d
    | some cursor => w.cursorDepth = d ∧ d < depth ∧ ¬p / 2 ^ d % 2 = 1 ∧
        boundary p d < N ∧ N < boundary p (d + 1) ∧
        cursor = treeOf (fun i => f (boundary p d + i)) (N - boundary p d)

theorem witnesses_witness : Witnesses f depth p (p + 1) (treeOf f (p + 1)).witness :=
  ⟨rfl, 0, by omega, rfl, by simp [IncrementalMerkleTree.witness]⟩

theorem fills_full (f : Nat → H) (r d : Nat) (filler : List H) :
    Fills f r d (2 ^ r - 1) filler := by
  induction r generalizing d with
  | zero => trivial
  | succ r ih =>
    have hpos : 0 < 2 ^ r := Nat.pow_pos (by omega)
    unfold Fills
    rw [Nat.pow_succ, if_pos (by omega), show (2 ^ r * 2 - 1) / 2 = 2 ^ r - 1 by omega]
    exact ih (d + 1)

theorem root_cursor {d : Nat} (hd : 0 < d) :
    (treeOf (fun i => f (boundary p d + i)) (2 ^ d)).root d [] = node f d (p / 2 ^ d + 1) := by
  have hpos : 0 < 2 ^ d := Nat.pow_pos (by omega)
  have hroot := root_treeOf hd (by omega) (fills_full (fun i => f (boundary p d + i)) d 0 [])
  rw [Nat.sub_add_cancel hpos] at hroot
  rw [hroot]
  exact node_shift f d (p / 2 ^ d + 1) 0

theorem append_fresh {d cursorDepth : Nat} (hdepth : 0 < depth) (hp : p < 2 ^ depth)
    (hN : boundary p d < 2 ^ depth) :
    ∃ w', IncrementalWitness.append depth
        ⟨treeOf f (p + 1), uncles f d 0 p, none, cursorDepth⟩ (f (boundary p d)) = .ok w' ∧
      Witnesses f depth p (boundary p d + 1) w' := by
  obtain ⟨heven, hbound, huncles⟩ := nextUncle_spec f p d
  simp only [IncrementalWitness.append, nextDepth_treeOf]
  generalize nextUncle d (p / 2 ^ d) = e at heven hbound huncles ⊢
  have he : e < depth := by
    by_contra hge
    have hmono := boundary_mono p (Nat.le_of_not_lt hge)
    rw [boundary_of_lt hp] at hmono
    omega
  have hnext := boundary_succ p e
  rw [if_neg heven, hbound] at hnext
  rw [if_neg (by omega)]
  by_cases hzero : e = 0
  · subst hzero
    refine ⟨_, if_pos rfl, rfl, 1, by omega, ?_, hnext.symm⟩
    have hsnoc := uncles_snoc f 0 0 p
    rw [if_neg heven, huncles] at hsnoc
    rw [hsnoc, ← hbound]
    simp [node]
  · have hone : 1 < 2 ^ e := Nat.one_lt_two_pow hzero
    have hfirst : IncrementalMerkleTree.append depth {} (f (boundary p d))
        = .ok (treeOf (fun i => f (boundary p e + i)) 1) := by
      rw [hbound]
      exact append_treeOf (f := fun i => f (boundary p d + i)) (n := 0) hdepth
        (Nat.pow_pos (by omega))
    rw [if_neg hzero, hfirst]
    refine ⟨_, rfl, rfl, e, by omega, huncles.symm, rfl, he, heven, by omega, by omega, ?_⟩
    rw [hbound, Nat.add_sub_cancel_left]

theorem append_cursor {d : Nat} (hdepth : 0 < depth) (hd : d < depth)
    (heven : ¬p / 2 ^ d % 2 = 1) (hlo : boundary p d < N) (hhi : N < boundary p (d + 1)) :
    ∃ w', IncrementalWitness.append depth ⟨treeOf f (p + 1), uncles f d 0 p,
        some (treeOf (fun i => f (boundary p d + i)) (N - boundary p d)), d⟩ (f N) = .ok w' ∧
      Witnesses f depth p (N + 1) w' := by
  have hnext := boundary_succ p d
  rw [if_neg heven] at hnext
  have hd0 : 0 < d := by
    by_contra hzero
    obtain rfl : d = 0 := by omega
    omega
  have hpow : 2 ^ d < 2 ^ depth := Nat.pow_lt_pow_right (by omega) hd
  have hobj : f N = (fun i => f (boundary p d + i)) (N - boundary p d) := by
    simp only [Nat.add_sub_cancel' hlo.le]
  have happend : (treeOf (fun i => f (boundary p d + i)) (N - boundary p d)).append depth
      (f N) = .ok (treeOf (fun i => f (boundary p d + i)) (N + 1 - boundary p d)) := by
    rw [hobj, append_treeOf hdepth (by omega),
      show N - boundary p d + 1 = N + 1 - boundary p d by omega]
  simp only [IncrementalWitness.append, happend]
  by_cases hfull : N + 1 = boundary p (d + 1)
  · have hcount : N + 1 - boundary p d = 2 ^ d := by omega
    have hcomplete : (treeOf (fun i => f (boundary p d + i)) (2 ^ d)).isComplete d = true :=
      (isComplete_treeOf hd0).mpr rfl
    rw [hcount]
    refine ⟨_, if_pos hcomplete, rfl, d + 1, hd, ?_, hfull⟩
    have hsnoc := uncles_snoc f d 0 p
    rw [if_neg heven, Nat.zero_add] at hsnoc
    rw [hsnoc]
    exact congrArg (uncles f d 0 p ++ [·]) (root_cursor hd0)
  · have hcomplete : (treeOf (fun i => f (boundary p d + i))
        (N + 1 - boundary p d)).isComplete d ≠ true := by
      rw [ne_eq, isComplete_treeOf hd0]
      omega
    refine ⟨_, if_neg hcomplete, rfl, d, hd.le, rfl, rfl, hd, heven, by omega, by omega, rfl⟩

variable {w : IncrementalWitness H}

theorem Witnesses.append (hdepth : 0 < depth) (hp : p < 2 ^ depth)
    (hN : N < 2 ^ depth) (h : Witnesses f depth p N w) :
    ∃ w', w.append depth (f N) = .ok w' ∧ Witnesses f depth p (N + 1) w' := by
  obtain ⟨tree, filled, cursor, cursorDepth⟩ := w
  obtain ⟨rfl, d, hd, rfl, hcursor⟩ := h
  cases cursor with
  | none =>
    obtain rfl : N = boundary p d := hcursor
    exact append_fresh hdepth hp hN
  | some cursor =>
    obtain ⟨hsame, hlt, heven, hlo, hhi, hcursor⟩ := hcursor
    obtain rfl : cursor = _ := hcursor
    have hsame : d = cursorDepth := hsame.symm
    subst hsame
    exact append_cursor hdepth hlt heven hlo hhi

theorem Witnesses.full (hp : p < 2 ^ depth) (h : Witnesses f depth p (2 ^ depth) w) (x : H) :
    w.append depth x = .error (.exception "tree is full") := by
  obtain ⟨tree, filled, cursor, cursorDepth⟩ := w
  obtain ⟨rfl, d, hd, rfl, hcursor⟩ := h
  cases cursor with
  | none =>
    obtain ⟨heven, hbound, -⟩ := nextUncle_spec f p d
    simp only [IncrementalWitness.append, nextDepth_treeOf]
    generalize nextUncle d (p / 2 ^ d) = e at heven hbound ⊢
    refine if_pos ?_
    by_contra hlt
    have hnext := boundary_succ p e
    have hmono := boundary_mono p (show e + 1 ≤ depth by omega)
    have hpos : 0 < 2 ^ e := Nat.pow_pos (by omega)
    rw [if_neg heven] at hnext
    rw [boundary_of_lt hp] at hmono
    omega
  | some cursor =>
    have hmono := boundary_mono p (show d + 1 ≤ depth by omega)
    rw [boundary_of_lt hp] at hmono
    omega

theorem Witnesses.foldlM (hdepth : 0 < depth) (hp : p < 2 ^ depth)
    {e : List H} (hf : ∀ i (h : i < e.length), f (N + i) = e.get ⟨i, h⟩)
    (hN : N + e.length ≤ 2 ^ depth) (h : Witnesses f depth p N w) :
    ∃ w', e.foldlM (IncrementalWitness.append depth) w = .ok w' ∧
      Witnesses f depth p (N + e.length) w' := by
  induction e generalizing N w with
  | nil => exact ⟨w, rfl, h⟩
  | cons x e ih =>
    rw [length_cons] at hN
    have hx : f N = x := hf 0 (by simp)
    obtain ⟨w₁, happend, h₁⟩ := h.append hdepth hp (by omega)
    rw [hx] at happend
    have hrest : ∀ i (h : i < e.length), f (N + 1 + i) = e.get ⟨i, h⟩ := by
      intro i hi
      rw [show N + 1 + i = N + (i + 1) by omega]
      exact hf (i + 1) (by simpa using hi)
    obtain ⟨w', hrun, h'⟩ := ih hrest (by omega) h₁
    refine ⟨w', ?_, ?_⟩
    · rwa [foldlM_cons, happend]
    · rwa [length_cons, show N + (e.length + 1) = N + 1 + e.length by omega]

theorem fills_uncles {r k d j : Nat} {filler : List H} (h : Fills f r (d + k) (j / 2 ^ k) filler) :
    Fills f (k + r) d j (uncles f k d j ++ filler) := by
  induction k generalizing d j with
  | zero => simpa [uncles] using h
  | succ k ih =>
    rw [show d + (k + 1) = d + 1 + k by omega, Nat.pow_succ', ← Nat.div_div_eq_div_mul] at h
    have hrest := ih h
    rw [show k + 1 + r = k + r + 1 by omega, Fills, uncles]
    split
    · exact hrest
    · exact ⟨rfl, hrest⟩

theorem Witnesses.fills (hpad : ∀ i, N ≤ i → f i = uncommitted)
    (h : Witnesses f depth p N w) : Fills f depth 0 p w.partialPath := by
  obtain ⟨tree, filled, cursor, cursorDepth⟩ := w
  obtain ⟨rfl, d, hd, rfl, hcursor⟩ := h
  rw [show depth = d + (depth - d) by omega]
  cases cursor with
  | none =>
    obtain rfl : N = boundary p d := hcursor
    have hrest : Fills f (depth - d) (0 + d) (p / 2 ^ d) [] := by
      rw [Nat.zero_add]
      exact fills_nil hpad
    simpa [IncrementalWitness.partialPath] using fills_uncles hrest
  | some cursor =>
    obtain ⟨hsame, hlt, heven, hlo, hhi, hcursor⟩ := hcursor
    obtain rfl : cursor = _ := hcursor
    have hsame : d = cursorDepth := hsame.symm
    subst hsame
    have hnext := boundary_succ p d
    rw [if_neg heven] at hnext
    have hd0 : 0 < d := by
      by_contra hzero
      obtain rfl : d = 0 := by omega
      omega
    -- the cursor stands for the right sibling that it is filling
    obtain ⟨k, hk⟩ : ∃ k, N - boundary p d = k + 1 := ⟨N - boundary p d - 1, by omega⟩
    have hroot : (treeOf (fun i => f (boundary p d + i)) (N - boundary p d)).root d []
        = node f d (p / 2 ^ d + 1) := by
      rw [hk, root_treeOf hd0 (by omega) (fills_nil fun i hi => hpad _ (by omega))]
      exact node_shift f d (p / 2 ^ d + 1) 0
    have hrest : Fills f (depth - d) (0 + d) (p / 2 ^ d) [node f d (p / 2 ^ d + 1)] := by
      rw [Nat.zero_add, show depth - d = depth - d - 1 + 1 by omega, Fills, if_neg heven]
      refine ⟨rfl, fills_nil fun i hi => hpad i ?_⟩
      rw [← div_pow_succ] at hi
      exact hhi.le.trans hi
    rw [← hroot] at hrest
    exact fills_uncles hrest

end

section

variable {H : Type} [NoteHash H] {depth : Nat}

/-- **A witness authenticates its leaf**: its root is that of the tree of all leaves, and its path
hashes the leaf up to it, on the sides given by the digits of its position. -/
theorem witness_authenticates (hdepth : 0 < depth) (l e : List H) (hl : l ≠ [])
    (hroom : l.length + e.length ≤ 2 ^ depth) :
    ∃ t t' w, l.foldlM (IncrementalMerkleTree.append depth) {} = .ok t ∧
      (l ++ e).foldlM (IncrementalMerkleTree.append depth) {} = .ok t' ∧
      e.foldlM (IncrementalWitness.append depth) t.witness = .ok w ∧
      w.root depth = t'.root depth [] ∧ w.element = .ok (l.getLast hl) ∧
      (∃ siblings : List H, siblings.length = depth ∧ w.path depth = .ok ⟨(siblings.map
            (convertBytesVectorToVector ∘ NoteHash.bytes)).reverse,
          ((range depth).map (l.length - 1).testBit).reverse⟩ ∧
        pathRoot (((range depth).map (l.length - 1).testBit).zip siblings) 0
          (l.getLast hl) = w.root depth) ∧
      (l.length + e.length = 2 ^ depth →
        ∀ x, w.append depth x = .error (.exception "tree is full")) := by
  obtain ⟨p, hlen⟩ : ∃ p, l.length = p + 1 :=
    Nat.exists_eq_succ_of_ne_zero (mt length_eq_zero_iff.mp hl)
  have hp : p < 2 ^ depth := by omega
  have hall : (l ++ e).length ≤ 2 ^ depth := by simpa using hroom
  have hfirst : ∀ i (h : i < l.length), padded (l ++ e) (0 + i) = l.get ⟨i, h⟩ := by
    intro i h
    simp [padded, getElem?_append_left h, h]
  have hmore : ∀ i (h : i < e.length), padded (l ++ e) (p + 1 + i) = e.get ⟨i, h⟩ := by
    intro i h
    simp [padded, ← hlen, h]
  have hlast : padded (l ++ e) p = l.getLast hl := by
    have hget := hfirst p (by omega)
    rw [Nat.zero_add] at hget
    rw [hget, getLast_eq_getElem]
    simp [hlen]
  have htree := foldlM_append_treeOf (f := padded (l ++ e)) (n := 0) hdepth hfirst (by omega)
  rw [Nat.zero_add, hlen] at htree
  have hstart : Witnesses (padded (l ++ e)) depth p (p + 1)
      (treeOf (padded (l ++ e)) (p + 1)).witness := witnesses_witness
  obtain ⟨w, hrun, hw⟩ := hstart.foldlM hdepth hp hmore (by omega)
  have hfills := hw.fills fun i hi => padded_of_length_le (by simpa [hlen] using hi)
  have hsteps := pathSteps_treeOf hdepth hp hfills
  have hroot : w.root depth = node (padded (l ++ e)) depth 0 := by
    rw [IncrementalWitness.root, hw.1]
    exact root_treeOf hdepth hp hfills
  have hmarks := map_fst_siblings (padded (l ++ e)) depth 0 p
  rw [hlen, Nat.add_sub_cancel]
  refine ⟨_, _, w, htree, foldlM_append_empty hdepth hall, hrun, ?_, ?_,
    ⟨(siblings (padded (l ++ e)) depth 0 p).map Prod.snd, by simp, ?_, ?_⟩, fun hfull => ?_⟩
  · rw [hroot, root_treeOf_padded hdepth hall]
  · rw [IncrementalWitness.element, hw.1, last_treeOf, hlast]
  · rw [IncrementalWitness.path, hw.1, IncrementalMerkleTree.path, hsteps, ← hmarks, map_map]
    rfl
  · rw [← hmarks, hroot, ← hlast]
    have hpath := pathRoot_siblings (padded (l ++ e)) depth 0 p
    rw [Nat.zero_add, Nat.div_eq_of_lt hp] at hpath
    rw [← hpath]
    exact congrArg (pathRoot · 0 _) (zip_of_prod rfl rfl).symm
  · rw [hfull] at hw
    exact hw.full hp

end

section

local instance witnessHash : NoteHash UInt256 :=
  @uint256NoteHash ⟨fun a b d => 5 * a + 3 * b + BitVec.ofNat 256 d, 1⟩

theorem witness_authenticates_second :
    ∃ t t' w, [(10 : UInt256), 20].foldlM (IncrementalMerkleTree.append 3) {} = .ok t ∧
      [10, 20, 30, 40, 50].foldlM (IncrementalMerkleTree.append 3) {} = .ok t' ∧
      [30, 40, 50].foldlM (IncrementalWitness.append 3) t.witness = .ok w ∧
      w.root 3 = t'.root 3 [] ∧ w.element = .ok 20 := by
  obtain ⟨t, t', w, ht, ht', hw, hroot, helement, -⟩ :=
    witness_authenticates (show 0 < 3 by decide) [(10 : UInt256), 20] [30, 40, 50]
      (by decide) (by decide)
  exact ⟨t, t', w, ht, ht', hw, hroot, helement⟩

end

end Elosys
