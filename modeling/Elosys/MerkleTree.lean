import Elosys.Primitives
import Elosys.PairedLevels
import Mathlib.Data.Nat.Bitwise
import Mathlib.Data.Nat.Pairing

/-!
# The Merkle Tree of a Block

`BuildMerkleTree` and `GetMerkleBranch` of `primitives/block.cpp`, which keep all levels in
`vMerkleTree`, `SafeCheckMerkleBranch` of `cc/eval.cpp`, and the check of `hashMerkleRoot` in
`CheckBlock`. Hashes are of any type with the null hash as zero: no function on 256 bits tells all
pairs apart.
-/

open PairedLevels List Option Bool

namespace Elosys

section Model

variable {H : Type} [DecidableEq H] [Zero H] (hash : H → H → H)

/-! ### Building the tree -/

/-- What `BuildMerkleTree` fills in. -/
structure MerkleTree (H : Type) where
  vMerkleTree : List H
  mutated : Bool

/-- `vMerkleTree.empty() ? uint256() : vMerkleTree.back()`. -/
def MerkleTree.root (t : MerkleTree H) : H := t.vMerkleTree.getLast?.getD 0

/-- The loop body over a level of `nSize` hashes from `j` on. -/
def pushPair (j nSize : Nat) (t : MerkleTree H) (i : Nat) : MerkleTree H :=
  let i2 := min (i + 1) (nSize - 1)
  let left := t.vMerkleTree.getD (j + i) 0
  let right := t.vMerkleTree.getD (j + i2) 0
  { vMerkleTree := t.vMerkleTree ++ [hash left right]
    -- Two identical hashes at the end of the list at a particular level.
    mutated := t.mutated || (i2 == i + 1 && i2 + 1 == nSize && left == right) }

/-- So many rounds of the loop over a level, from `i` on. -/
def pushPairs (j nSize : Nat) : Nat → Nat → MerkleTree H → MerkleTree H
  | 0, _, t => t
  | rounds + 1, i, t => pushPairs j nSize rounds (i + 2) (pushPair hash j nSize t i)

def pushLevels : Nat → Nat → Nat → MerkleTree H → MerkleTree H
  | 0, _, _, t => t
  | fuel + 1, nSize, j, t =>
    if nSize ≤ 1 then t
    else
      pushLevels fuel ((nSize + 1) / 2) (j + nSize)
        (pushPairs hash j nSize ((nSize + 1) / 2) 0 t)

/-- `BuildMerkleTree`. There are fewer levels than leaves. -/
def buildMerkleTree (leaves : List H) : MerkleTree H :=
  pushLevels hash leaves.length leaves.length 0 ⟨leaves, false⟩

/-- The loop of `GetMerkleBranch`. -/
def merkleBranchFrom (vMerkleTree : List H) : Nat → Nat → Nat → Nat → List H
  | 0, _, _, _ => []
  | fuel + 1, nIndex, nSize, j =>
    if nSize ≤ 1 then []
    else
      vMerkleTree.getD (j + min (nIndex ^^^ 1) (nSize - 1)) 0 ::
        merkleBranchFrom vMerkleTree fuel (nIndex / 2) ((nSize + 1) / 2) (j + nSize)

def getMerkleBranch (nIndex nLeaves : Nat) (vMerkleTree : List H) : List H :=
  merkleBranchFrom vMerkleTree nLeaves nIndex nLeaves 0

/-- The loop of `SafeCheckMerkleBranch`. -/
def safeCheckFrom : H → List H → Int → H
  | h, [], _ => h
  | h, sibling :: branch, nIndex =>
    if nIndex % 2 = 1 then
      -- non canonical. hash may be equal to node but never on the right.
      if sibling = h then 0 else safeCheckFrom (hash sibling h) branch (nIndex / 2)
    else safeCheckFrom (hash h sibling) branch (nIndex / 2)

def safeCheckMerkleBranch (h : H) (vMerkleBranch : List H) (nIndex : Int) : H :=
  if nIndex = -1 then 0 else safeCheckFrom hash h vMerkleBranch nIndex

/-- What the root's check reads: the header's root and the transactions. -/
structure BlockBody (T H : Type) where
  hashMerkleRoot : H
  vtx : List T

/-- The check of the merkle root in `CheckBlock`. -/
def checkMerkleRoot {T : Type} (txHash : T → H) (fCheckMerkleRoot : Bool)
    (block : BlockBody T H) : Except Fault Unit :=
  if fCheckMerkleRoot then do
    let tree := buildMerkleTree hash (block.vtx.map txHash)
    rejectIf (block.hashMerkleRoot ≠ tree.root) 100 "bad-txnmrklroot"
    rejectIf tree.mutated 100 "bad-txns-duplicate"
  else .ok ()

/-- `CheckBlock` around its merkle root check: `checkHeader` is what is done before, `checkVtx`
the transactions after the size limits. -/
def checkBlockBody {T : Type} (txHash : T → H) (maxBlockSize : Nat)
    (serializeSize : BlockBody T H → Nat)
    (checkHeader checkVtx : BlockBody T H → Except Fault Unit) (fCheckMerkleRoot : Bool)
    (block : BlockBody T H) : Except Fault Unit := do
  checkHeader block
  checkMerkleRoot hash txHash fCheckMerkleRoot block
  rejectIf (block.vtx.isEmpty || maxBlockSize < block.vtx.length ||
    maxBlockSize < serializeSize block) 100 "bad-blk-length"
  checkVtx block

end Model

/-! ### The tree by its levels -/

section Levels

variable {H : Type} [DecidableEq H] [Zero H] {hash : H → H → H}

omit [DecidableEq H] in
theorem getD_middle (pre rest : List H) (a : H) {i : Nat} (hi : i = pre.length) :
    (pre ++ a :: rest).getD i 0 = a := by
  subst hi
  simp [List.getD]

variable (hash) in
theorem pushPairs_eq (pre done rest out : List H) (m : Bool) :
    pushPairs hash pre.length (done.length + rest.length) ((rest.length + 1) / 2) done.length
        ⟨pre ++ done ++ rest ++ out, m⟩ =
      ⟨pre ++ done ++ rest ++ out ++ up hash rest, m || endsTwice rest⟩ := by
  induction rest using up.induct generalizing done out m with
  | case1 => simp [pushPairs, up, endsTwice]
  | case2 a =>
    have hi2 : min (done.length + 1) (done.length + [a].length - 1) = done.length := by
      simp
    have ha : (pre ++ done ++ [a] ++ out).getD (pre.length + done.length) 0 = a := by
      rw [append_assoc (pre ++ done)]
      exact getD_middle _ _ _ (by simp)
    simp only [length_singleton, Nat.reduceAdd, Nat.reduceDiv, pushPairs, pushPair]
    rw [length_singleton] at hi2
    simp [up, endsTwice]
  | case3 a b l ih =>
    have hrounds : ((a :: b :: l).length + 1) / 2 = (l.length + 1) / 2 + 1 := by
      simp only [length_cons]
      omega
    have hi2 : min (done.length + 1) (done.length + (a :: b :: l).length - 1) =
        done.length + 1 := by
      simp only [length_cons]
      omega
    have ha : (pre ++ done ++ a :: b :: l ++ out).getD (pre.length + done.length) 0 = a := by
      rw [append_assoc (pre ++ done)]
      exact getD_middle _ _ _ (by simp)
    have hb : (pre ++ done ++ a :: b :: l ++ out).getD (pre.length + (done.length + 1)) 0 =
        b := by
      rw [show pre ++ done ++ a :: b :: l ++ out = (pre ++ done ++ [a]) ++ b :: (l ++ out) by
        simp]
      exact getD_middle _ _ _ (by simp)
    have hflag : (done.length + 1 + 1 == done.length + (a :: b :: l).length && a == b ||
        endsTwice l) = endsTwice (a :: b :: l) := by
      cases l with
      | nil => simp [endsTwice]
      | cons c l =>
        simp only [endsTwice, length_cons, or_eq_right_iff_imp, and_eq_true, beq_iff_eq]
        omega
    have hsize : done.length + (a :: b :: l).length = (done ++ [a, b]).length + l.length := by
      simp only [length_append, length_cons, length_nil]
      omega
    have hindex : (done ++ [a, b]).length = done.length + 2 := by simp
    have hmore := ih (done ++ [a, b]) (out ++ [hash a b])
      (m || (done.length + 1 + 1 == done.length + (a :: b :: l).length && a == b))
    rw [hrounds, pushPairs, pushPair, hi2, ha, hb, beq_self_eq_true, Bool.true_and]
    rw [← hsize, hindex, Bool.or_assoc, hflag] at hmore
    simpa [up] using hmore

variable (hash) in
theorem pushLevels_eq {fuel : Nat} (pre l : List H) (m : Bool) (hfuel : l.length ≤ fuel + 1) :
    pushLevels hash fuel l.length pre.length ⟨pre ++ l, m⟩ =
      ⟨pre ++ (range (Nat.clog 2 l.length + 1)).flatMap fun k => level hash k l,
        m || (range (Nat.clog 2 l.length)).any fun k => endsTwice (level hash k l)⟩ := by
  have hshort : ∀ n ≤ 1, Nat.clog 2 n = 0 := fun n hn => Nat.clog_of_right_le_one hn 2
  induction fuel generalizing pre l m with
  | zero =>
    rw [hshort _ (by omega)]
    simp [pushLevels, level]
  | succ fuel ih =>
    rw [pushLevels]
    split
    · next hle =>
        rw [hshort _ hle]
        simp [level]
    · next hlt =>
        have hpairs := pushPairs_eq hash pre [] l [] m
        have hmore := ih (pre ++ l) (up hash l) (m || endsTwice l) (by rw [length_up]; omega)
        simp only [length_nil, Nat.zero_add, append_nil] at hpairs
        rw [length_up, length_append] at hmore
        have hnodes : ∀ d, (range (d + 1 + 1)).flatMap (fun k => level hash k l) =
            l ++ (range (d + 1)).flatMap fun k => level hash k (up hash l) := by
          intro d
          rw [range_succ_eq_map, flatMap_cons, flatMap_map]
          rfl
        have hflags : ∀ d, (range (d + 1)).any (fun k => endsTwice (level hash k l)) =
            (endsTwice l || (range d).any fun k =>
              endsTwice (level hash k (up hash l))) := by
          intro d
          rw [List.range_succ_eq_map, List.any_cons, List.any_map]
          rfl
        rw [hpairs, hmore, clog_eq (n := l.length) (by omega), hnodes, hflags,
          Bool.or_assoc, List.append_assoc]

/-- **The tree is the levels of paired hashes**, the flag whether one ends twice. -/
theorem buildMerkleTree_eq (leaves : List H) : buildMerkleTree hash leaves =
      ⟨(range (Nat.clog 2 leaves.length + 1)).flatMap fun k => level hash k leaves,
        (range (Nat.clog 2 leaves.length)).any fun k => endsTwice (level hash k leaves)⟩ := by
  have h := pushLevels_eq hash [] leaves false (Nat.le_succ leaves.length)
  exact h

theorem level_root {leaves : List H} (hne : leaves ≠ []) :
    level hash (Nat.clog 2 leaves.length) leaves = [(buildMerkleTree hash leaves).root] := by
  obtain ⟨r, hr⟩ := level_clog hash hne
  rw [hr, buildMerkleTree_eq, MerkleTree.root, range_succ, flatMap_append,
    flatMap_cons, flatMap_nil, hr]
  simp

end Levels

/-! ### Binding -/

section Binding

variable {H : Type} [DecidableEq H] [Zero H] {hash : H → H → H}

theorem eq_level_of_root_eq (hinj : PairInjective hash) {l l' : List H} (hl : l ≠ [])
    (hl' : l' ≠ []) (hroot : (buildMerkleTree hash l).root = (buildMerkleTree hash l').root)
    (hm : (buildMerkleTree hash l).mutated = false)
    (hm' : (buildMerkleTree hash l').mutated = false)
    (hle : Nat.clog 2 l.length ≤ Nat.clog 2 l'.length) :
    l = level hash (Nat.clog 2 l'.length - Nat.clog 2 l.length) l' := by
  have htop : level hash (Nat.clog 2 l.length) l = level hash (Nat.clog 2 l.length)
      (level hash (Nat.clog 2 l'.length - Nat.clog 2 l.length) l') := by
    rw [← level_add, Nat.add_sub_cancel' hle, level_root hl, level_root hl', hroot]
  rw [buildMerkleTree_eq, List.any_eq_false] at hm hm'
  refine level_inj hinj htop (fun j hj => ?_) fun j hj => ?_
  · exact Bool.eq_false_iff.mpr (hm j (List.mem_range.mpr hj))
  · rw [← level_add]
    exact eq_false_iff.mpr (hm' _ (mem_range.mpr (by omega)))

omit [DecidableEq H] [Zero H] in
theorem clog_le_of_eq_level {l l' : List H} (hl : l ≠ []) (hleaf : ∀ x ∈ l, ∀ a b, x ≠ hash a b)
    (heq : l = level hash (Nat.clog 2 l'.length - Nat.clog 2 l.length) l') :
    Nat.clog 2 l'.length ≤ Nat.clog 2 l.length := by
  by_contra hlt
  obtain ⟨k, hk⟩ : ∃ k, Nat.clog 2 l'.length - Nat.clog 2 l.length = k + 1 :=
    ⟨Nat.clog 2 l'.length - Nat.clog 2 l.length - 1, by omega⟩
  obtain ⟨x, hx⟩ := exists_mem_of_ne_nil l hl
  have hlevel := hx
  rw [heq, hk] at hlevel
  obtain ⟨a, b, hab⟩ := mem_level_succ hlevel
  exact hleaf x hx a b hab

theorem leaves_eq_of_root_eq (hinj : PairInjective hash) {l l' : List H} (hl : l ≠ [])
    (hl' : l' ≠ []) (hleaf : ∀ x ∈ l, ∀ a b, x ≠ hash a b)
    (hleaf' : ∀ x ∈ l', ∀ a b, x ≠ hash a b)
    (hroot : (buildMerkleTree hash l).root = (buildMerkleTree hash l').root)
    (hm : (buildMerkleTree hash l).mutated = false)
    (hm' : (buildMerkleTree hash l').mutated = false) : l = l' := by
  rcases Nat.le_total (Nat.clog 2 l.length) (Nat.clog 2 l'.length) with hle | hle
  · have heq := eq_level_of_root_eq hinj hl hl' hroot hm hm' hle
    have hge := clog_le_of_eq_level hl hleaf heq
    rwa [Nat.sub_eq_zero_of_le hge, level] at heq
  · have heq := eq_level_of_root_eq hinj hl' hl hroot.symm hm' hm hle
    have hge := clog_le_of_eq_level hl' hleaf' heq
    rw [Nat.sub_eq_zero_of_le hge, level] at heq
    exact heq.symm

theorem checkBlockBody_ok {T : Type} {txHash : T → H} {maxBlockSize : Nat}
    {serializeSize : BlockBody T H → Nat}
    {checkHeader checkVtx : BlockBody T H → Except Fault Unit} {block : BlockBody T H}
    (h : checkBlockBody hash txHash maxBlockSize serializeSize checkHeader checkVtx true block =
      .ok ()) :
    block.vtx ≠ [] ∧ block.hashMerkleRoot = (buildMerkleTree hash (block.vtx.map txHash)).root ∧
      (buildMerkleTree hash (block.vtx.map txHash)).mutated = false := by
  simp only [checkBlockBody, checkMerkleRoot, if_true, bind_eq_ok, rejectIf_eq_ok] at h
  obtain ⟨-, -, -, ⟨-, hroot, hmutated⟩, -, hsize, -⟩ := h
  refine ⟨?_, by simpa using hroot, hmutated⟩
  intro hnil
  simp [hnil] at hsize

/-- **The root binds the leaves**: nonempty lists with one root, none marked as mutated, are equal.
-/
theorem merkleRoot_binding (hinj : PairInjective hash) :
    (∀ l l' : List H, l ≠ [] → l' ≠ [] → (∀ x ∈ l ++ l', ∀ a b, x ≠ hash a b) →
      (buildMerkleTree hash l).root = (buildMerkleTree hash l').root →
      (buildMerkleTree hash l).mutated = false →
      (buildMerkleTree hash l').mutated = false → l = l') ∧
    ∀ (T : Type) (txHash : T → H), Function.Injective txHash → (∀ tx a b, txHash tx ≠ hash a b) →
      ∀ (maxBlockSize : Nat) (serializeSize : BlockBody T H → Nat)
        (checkHeader checkVtx : BlockBody T H → Except Fault Unit) (b b' : BlockBody T H),
        checkBlockBody hash txHash maxBlockSize serializeSize checkHeader checkVtx true b = .ok () →
        checkBlockBody hash txHash maxBlockSize serializeSize checkHeader checkVtx true b' =
          .ok () →
        b.hashMerkleRoot = b'.hashMerkleRoot → b.vtx = b'.vtx := by
  refine ⟨?_, ?_⟩
  · intro l l' hl hl' hleaf hroot hm hm'
    exact leaves_eq_of_root_eq hinj hl hl' (fun x hx => hleaf x (mem_append_left _ hx))
      (fun x hx => hleaf x (mem_append_right _ hx)) hroot hm hm'
  · intro T txHash htx hleaf maxBlockSize serializeSize checkHeader checkVtx b b' hb hb' heq
    obtain ⟨hne, hroot, hm⟩ := checkBlockBody_ok hb
    obtain ⟨hne', hroot', hm'⟩ := checkBlockBody_ok hb'
    have hno : ∀ vtx : List T, ∀ x ∈ vtx.map txHash, ∀ a b, x ≠ hash a b := by
      intro vtx x hx
      obtain ⟨tx, -, rfl⟩ := mem_map.mp hx
      exact hleaf tx
    refine map_injective_iff.mpr htx (leaves_eq_of_root_eq hinj ?_ ?_ (hno _) (hno _) ?_ hm hm')
    · simpa using hne
    · simpa using hne'
    · rw [← hroot, ← hroot', heq]

end Binding

/-- Hashes that remember what was hashed. -/
inductive FreeHash where
  | null
  | leaf (n : Nat)
  | pair (left right : FreeHash)
  deriving DecidableEq

instance : Zero FreeHash := ⟨.null⟩

theorem FreeHash.pair_injective : PairInjective FreeHash.pair := by
  intro a b c d h
  exact ⟨(FreeHash.pair.inj h).1, (FreeHash.pair.inj h).2⟩

theorem merkleRoot_binding_three :
    (buildMerkleTree FreeHash.pair [.leaf 1, .leaf 2, .leaf 3]).root =
        .pair (.pair (.leaf 1) (.leaf 2)) (.pair (.leaf 3) (.leaf 3)) ∧
      [1, 2, 3].map FreeHash.leaf = [.leaf 1, .leaf 2, .leaf 3] :=
  ⟨by decide, (merkleRoot_binding FreeHash.pair_injective).1 _ _ (by decide) (by decide)
    (by simp) (by decide) (by decide) (by decide)⟩

/-- No leaves, or one null leaf, have the null root. -/
theorem null_root_ambiguous :
    PairInjective FreeHash.pair ∧ (∀ x ∈ [] ++ [FreeHash.null], ∀ a b, x ≠ .pair a b) ∧
      (buildMerkleTree FreeHash.pair []).root =
        (buildMerkleTree FreeHash.pair [FreeHash.null]).root ∧
      (buildMerkleTree FreeHash.pair []).mutated = false ∧
      (buildMerkleTree FreeHash.pair [FreeHash.null]).mutated = false ∧
      [] ≠ [FreeHash.null] :=
  ⟨FreeHash.pair_injective, by simp, by decide, by decide, by decide, by decide⟩

/-! ### Branches -/

section Branches

variable {H : Type} [DecidableEq H] [Zero H] {hash : H → H → H}

/-- The partners on the way up, for so many levels. -/
def branchOf (hash : H → H → H) : Nat → List H → Nat → List H
  | 0, _, _ => []
  | k + 1, l, i =>
    l.getD (min (i ^^^ 1) (l.length - 1)) 0 :: branchOf hash k (up hash l) (i / 2)

variable (hash) in
omit [DecidableEq H] in
theorem merkleBranchFrom_eq {fuel : Nat} (pre l : List H) (i : Nat) (hfuel : l.length ≤ fuel + 1) :
    merkleBranchFrom (pre ++ (range (Nat.clog 2 l.length + 1)).flatMap fun k => level hash k l)
        fuel i l.length pre.length =
      branchOf hash (Nat.clog 2 l.length) l i := by
  induction fuel generalizing pre l i with
  | zero =>
    rw [Nat.clog_of_right_le_one (by omega)]
    rfl
  | succ fuel ih =>
    rw [merkleBranchFrom]
    split
    · next hle =>
        rw [Nat.clog_of_right_le_one hle]
        rfl
    · next hlt =>
        have hnodes : (range (Nat.clog 2 l.length + 1)).flatMap
            (fun k => level hash k l) = l ++ (range
              (Nat.clog 2 (up hash l).length + 1)).flatMap fun k =>
                level hash k (up hash l) := by
          rw [length_up, clog_eq (n := l.length) (by omega), range_succ_eq_map,
            flatMap_cons, flatMap_map]
          rfl
        have hpartner : min (i ^^^ 1) (l.length - 1) < l.length :=
          Nat.lt_of_le_of_lt (Nat.min_le_right _ _) (by omega)
        have hhead : (pre ++ (range (Nat.clog 2 l.length + 1)).flatMap
            fun k => level hash k l).getD (pre.length + min (i ^^^ 1) (l.length - 1)) 0 =
              l.getD (min (i ^^^ 1) (l.length - 1)) 0 := by
          rw [hnodes, getD_eq_getElem?_getD, getElem?_append_right (by omega),
            Nat.add_sub_cancel_left, getElem?_append_left hpartner,
            getD_eq_getElem?_getD]
        have hmore := ih (pre ++ l) (up hash l) (i / 2) (by rw [length_up]; omega)
        rw [append_assoc, ← hnodes, length_up, length_append] at hmore
        rw [hhead, hmore, clog_eq (n := l.length) (by omega), branchOf]

variable (hash) in
omit [DecidableEq H] in
theorem getElem?_up_of_partner {l : List H} {i : Nat} {h : H} (hh : l[i]? = some h) :
    (up hash l)[i / 2]? = some (if i % 2 = 1 then hash (l.getD (min (i ^^^ 1) (l.length - 1)) 0) h
        else hash h (l.getD (min (i ^^^ 1) (l.length - 1)) 0)) := by
  have hi : i < l.length := (List.getElem?_eq_some_iff.mp hh).1
  have hmin : min (i ^^^ 1) (l.length - 1) < l.length :=
    Nat.lt_of_le_of_lt (Nat.min_le_right _ _) (by omega)
  rw [getElem?_up, List.getD_eq_getElem?_getD, List.getElem?_eq_getElem hmin]
  split
  · next hodd =>
      have hxor : i ^^^ 1 = i - 1 := Nat.xor_one_of_odd (Nat.odd_iff.mpr hodd)
      have hleft : 2 * (i / 2) = min (i ^^^ 1) (l.length - 1) := by omega
      have hright : min (2 * (i / 2) + 1) (l.length - 1) = i := by omega
      rw [hright, hh, hleft, getElem?_eq_getElem hmin]
      rfl
  · next heven =>
      have hxor : i ^^^ 1 = i + 1 := Nat.xor_one_of_even (Nat.even_iff.mpr (by omega))
      have hright : min (2 * (i / 2) + 1) (l.length - 1) = min (i ^^^ 1) (l.length - 1) := by
        omega
      rw [hright, show 2 * (i / 2) = i by omega, hh, getElem?_eq_getElem hmin]
      rfl

theorem safeCheckFrom_branchOf (hinj : PairInjective hash) {d : Nat} {l : List H} {i : Nat}
    {h r : H} (hl : l.Nodup) (hh : l[i]? = some h) (hr : level hash d l = [r]) :
    safeCheckFrom hash h (branchOf hash d l i) i = r := by
  induction d generalizing l i h with
  | zero =>
    obtain rfl : l = [r] := hr
    obtain rfl : i = 0 := by simpa using (List.getElem?_eq_some_iff.mp hh).1
    simpa [safeCheckFrom, branchOf] using hh.symm
  | succ d ih =>
    have habove := getElem?_up_of_partner hash hh
    have hmore := ih (up_nodup hinj hl) habove hr
    have hhalf : ((i / 2 : Nat) : Int) = (i : Int) / 2 := by omega
    rw [branchOf, safeCheckFrom]
    split
    · next hodd =>
        have hodd' : i % 2 = 1 := by omega
        have hi : i < l.length := (List.getElem?_eq_some_iff.mp hh).1
        have hxor : i ^^^ 1 = i - 1 := Nat.xor_one_of_odd (Nat.odd_iff.mpr hodd')
        have hne : l.getD (min (i ^^^ 1) (l.length - 1)) 0 ≠ h := by
          intro heq
          have hlt : i - 1 < l.length := by omega
          rw [hxor, show min (i - 1) (l.length - 1) = i - 1 by omega,
            List.getD_eq_getElem _ _ hlt] at heq
          have hsame := (List.getElem?_eq_some_iff.mp hh).2
          have hindex := (Nodup.getElem_inj_iff hl).mp (heq.trans hsame.symm)
          omega
        rw [if_neg hne]
        rwa [if_pos hodd'] at hmore
    · next heven =>
        rwa [if_neg (show ¬ i % 2 = 1 by omega)] at hmore

/-- **A branch that leads to the top is honest**: it starts at the position's hash. Behind the
last, an equal left partner would be needed. -/
theorem getElem?_of_safeCheckFrom (hinj : PairInjective hash) {branch : List H} {l : List H}
    {i : Nat} {h r : H} (hr : level hash branch.length l = [r]) (hnull : r ≠ 0)
    (hi : i < 2 ^ branch.length) (hcheck : safeCheckFrom hash h branch i = r) :
    l[i]? = some h := by
  induction branch generalizing l i h with
  | nil =>
    obtain rfl : l = [r] := hr
    obtain rfl : i = 0 := by simpa using hi
    rw [← hcheck]
    rfl
  | cons sibling branch ih =>
    have hhalf : ((i / 2 : Nat) : Int) = (i : Int) / 2 := by omega
    have hi2 : i / 2 < 2 ^ branch.length := by
      rw [length_cons, Nat.pow_succ] at hi
      omega
    rw [safeCheckFrom, ← hhalf] at hcheck
    split at hcheck
    · next hodd =>
        split at hcheck
        · exact absurd hcheck.symm hnull
        · next hne =>
            have habove := ih hr hi2 hcheck
            rw [getElem?_up] at habove
            obtain ⟨a, ha, hpair⟩ := bind_eq_some_iff.mp habove
            obtain ⟨b, hb, hab⟩ := map_eq_some_iff.mp hpair
            obtain ⟨rfl, rfl⟩ := hinj _ _ _ _ hab
            have hlt := (List.getElem?_eq_some_iff.mp ha).1
            by_cases hlast : 2 * (i / 2) + 1 < l.length
            · rwa [show min (2 * (i / 2) + 1) (l.length - 1) = i by omega] at hb
            · rw [show min (2 * (i / 2) + 1) (l.length - 1) = 2 * (i / 2) by omega, ha] at hb
              exact absurd (some.inj hb) hne
    · next heven =>
        have habove := ih hr hi2 hcheck
        rw [getElem?_up] at habove
        obtain ⟨a, ha, hpair⟩ := bind_eq_some_iff.mp habove
        obtain ⟨b, -, hab⟩ := map_eq_some_iff.mp hpair
        obtain ⟨rfl, -⟩ := hinj _ _ _ _ hab
        rwa [show 2 * (i / 2) = i by omega] at ha

/-- **Which branches lead to the root**: a leaf's does, and what leads to a root that is not null
starts with the leaf there. -/
theorem merkleBranch_complete_sound (hinj : PairInjective hash) {leaves : List H}
    (hne : leaves ≠ []) (hnodup : leaves.Nodup) :
    (∀ i h, leaves[i]? = some h → safeCheckMerkleBranch hash h (getMerkleBranch i leaves.length
        (buildMerkleTree hash leaves).vMerkleTree) i = (buildMerkleTree hash leaves).root) ∧
    ((buildMerkleTree hash leaves).root ≠ 0 →
      ∀ (h : H) (branch : List H) (i : Int), branch.length = Nat.clog 2 leaves.length →
        0 ≤ i → i < 2 ^ branch.length →
        safeCheckMerkleBranch hash h branch i = (buildMerkleTree hash leaves).root →
        i < leaves.length ∧ leaves[i.toNat]? = some h) := by
  refine ⟨?_, ?_⟩
  · intro i h hh
    have hbranch := merkleBranchFrom_eq hash [] leaves i (Nat.le_succ leaves.length)
    rw [nil_append, length_nil] at hbranch
    rw [safeCheckMerkleBranch, if_neg (by omega), getMerkleBranch, buildMerkleTree_eq, hbranch,
      safeCheckFrom_branchOf hinj hnodup hh (level_root hne), buildMerkleTree_eq]
  · intro hnull h branch i hlen hpos hlt hcheck
    obtain ⟨i, rfl⟩ := Int.eq_ofNat_of_zero_le hpos
    have hi : i < 2 ^ branch.length := by exact_mod_cast hlt
    have hleaf := getElem?_of_safeCheckFrom hinj (hlen ▸ level_root hne) hnull hi hcheck
    have hindex := (List.getElem?_eq_some_iff.mp hleaf).1
    exact ⟨by exact_mod_cast hindex, by simpa using hleaf⟩

end Branches

/-- The last of three leaves is its own partner; further there is none. -/
theorem merkleBranch_complete_sound_three : safeCheckMerkleBranch FreeHash.pair (.leaf 3)
        (getMerkleBranch 2 3 (buildMerkleTree FreeHash.pair
          [.leaf 1, .leaf 2, .leaf 3]).vMerkleTree) 2 =
        (buildMerkleTree FreeHash.pair [.leaf 1, .leaf 2, .leaf 3]).root ∧
      safeCheckMerkleBranch FreeHash.pair (.leaf 3) [.leaf 3, .pair (.leaf 1) (.leaf 2)] 3 ≠
        (buildMerkleTree FreeHash.pair [.leaf 1, .leaf 2, .leaf 3]).root := by
  obtain ⟨hcomplete, hsound⟩ := merkleBranch_complete_sound FreeHash.pair_injective
    (show [FreeHash.leaf 1, .leaf 2, .leaf 3] ≠ [] by decide) (by decide)
  refine ⟨hcomplete 2 (.leaf 3) rfl, fun hcheck => ?_⟩
  have hlt := (hsound (by decide) (.leaf 3) _ 3 (by decide) (by decide) (by decide) hcheck).1
  exact absurd hlt (by decide)

/-- A hash of pairs that is the null hash at one of them. -/
def hashWithNull (a b : Nat) : Nat := if a = 1 ∧ b = 2 then 0 else Nat.pair a b + 1

/-- With a pair that hashes to null, every hash has a branch to that root: rejection is taken for
the root. -/
theorem null_root_accepts_all : PairInjective hashWithNull ∧ [1, 2].Nodup ∧
      safeCheckMerkleBranch hashWithNull 7 [7] 1 = (buildMerkleTree hashWithNull [1, 2]).root ∧
      [1, 2][1]? ≠ some 7 := by
  refine ⟨?_, by decide, by decide, by decide⟩
  intro a b c d h
  simp only [hashWithNull] at h
  split at h
  · next hab =>
      split at h
      · next hcd => omega
      · cases h
  · split at h
    · cases h
    · exact Nat.pair_eq_pair.mp (Nat.succ.inj h)

end Elosys
