import Elosys.ByteCodec
import Elosys.CompleteTree
import Elosys.Primitives

/-!
# The Incremental Merkle Tree

`IncrementalMerkleTree` of `zcash/IncrementalMerkleTree.hpp`: the tree of note commitments, kept as
its last pair of leaves and the roots of the complete subtrees to their left. The depth is an
argument.

## Main results

* Appending leaves gives the root of the complete tree over the padded leaves, at any depth.
* The size of a tree of depth 32 is right while at most half of its leaves are there.
-/

open CompleteTree MerkleHash List Function Except Bool

namespace Elosys

/-- What trees need of hashes: combined on a level, 32 bytes long. -/
class NoteHash (H : Type) extends MerkleHash H where
  bytes : H → List UInt8
  ofBytes : List UInt8 → H
  length_bytes : ∀ h, (bytes h).length = 32
  ofBytes_bytes : ∀ h, ofBytes (bytes h) = h

/-- `SHA256Compress` and `PedersenHash` are `uint256` under the hood, which is its bytes. -/
@[reducible] def uint256NoteHash [MerkleHash UInt256] : NoteHash UInt256 where
  bytes h := ByteCodec.leBytes 32 h.toNat
  ofBytes bs := BitVec.ofNat 256 (ByteCodec.ofLeBytes bs)
  length_bytes h := ByteCodec.length_leBytes 32 h.toNat
  ofBytes_bytes h := by
    rw [ByteCodec.ofLeBytes_leBytes (show h.toNat < 256 ^ 32 from h.isLt), BitVec.ofNat_toNat,
      BitVec.setWidth_eq]

def throwIf (b : Bool) (what : String) : Except Fault Unit :=
  if b then .error (.exception what) else .ok ()

@[simp] theorem throwIf_eq_ok {b : Bool} {what : String} {u : Unit} :
    throwIf b what = .ok u ↔ b = false := by
  cases b with
  | true => simp [throwIf]
  | false => simp [throwIf]

/-! ### The tree -/

structure IncrementalMerkleTree (H : Type) where
  left : Option H := none
  right : Option H := none
  parents : List (Option H) := []
  deriving DecidableEq

structure MerklePath where
  authenticationPath : List (List Bool)
  index : List Bool
  deriving DecidableEq

section

variable {H : Type} [MerkleHash H]

/-- `PathFiller::next`: the queue's next hash, or an empty root. -/
def fillerNext : List H → Nat → H × List H
  | h :: queue, _ => (h, queue)
  | [], depth => (emptyRoot depth, [])

/-- The last loop of `root`. -/
def rootRest : Nat → Nat → H → List H → H
  | 0, _, root, _ => root
  | n + 1, d, root, filler =>
    rootRest n (d + 1) (combine root (fillerNext filler d).1 d) (fillerNext filler d).2

/-- The loops of `root`: the parents, then up to the depth. -/
def rootLoop (depth : Nat) : List (Option H) → Nat → H → List H → H
  | [], d, root, filler => rootRest (depth - d) d root filler
  | some parent :: parents, d, root, filler =>
    rootLoop depth parents (d + 1) (combine parent root d) filler
  | none :: parents, d, root, filler =>
    rootLoop depth parents (d + 1) (combine root (fillerNext filler d).1 d)
      (fillerNext filler d).2

/-- The last loop of `path`. -/
def pathRest : Nat → Nat → List H → List (Bool × H)
  | 0, _, _ => []
  | n + 1, d, filler => (false, (fillerNext filler d).1) ::
      pathRest n (d + 1) (fillerNext filler d).2

/-- The loops of `path`: what they push, in pairs. -/
def pathLoop (depth : Nat) : List (Option H) → Nat → List H → List (Bool × H)
  | [], d, filler => pathRest (depth - d) d filler
  | some parent :: parents, d, filler =>
    (true, parent) :: pathLoop depth parents (d + 1) filler
  | none :: parents, d, filler =>
    (false, (fillerNext filler d).1) ::
      pathLoop depth parents (d + 1) (fillerNext filler d).2

/-- The parents' part of `next_depth`. -/
def nextDepthLoop : List (Option H) → Nat → Nat → Nat
  | [], d, skip => d + skip
  | some _ :: parents, d, skip => nextDepthLoop parents (d + 1) skip
  | none :: _, d, 0 => d
  | none :: parents, d, skip + 1 => nextDepthLoop parents (d + 1) skip

/-- `1 << i`, an `int` that is added to a `size_t`. -/
def shiftedOne (i : Nat) : UInt64 := ((1 : Int32) <<< Int32.ofNat i).toInt64.toUInt64

/-- The loop of `size`: the parents as a binary number. -/
def sizeLoop : List (Option H) → Nat → UInt64
  | [], _ => 0
  | parent :: parents, i =>
    (if parent.isSome then shiftedOne (i + 1) else 0) + sizeLoop parents (i + 1)

/-- The loop of `complete_subtree_root`, with its assertions. -/
def subtreeLoop : Nat → List (Option H) → Nat → H → Except Fault H
  | 0, _, _, root => .ok root
  | n + 1, some parent :: parents, d, root => subtreeLoop n parents (d + 1) (combine parent root d)
  | _, _, _, _ => .error (.assertion "parents[i]")

def convertBytesVectorToVector (bytes : List UInt8) : List Bool :=
  bytes.flatMap fun c => (range 8).map fun j => (c >>> UInt8.ofNat (7 - j)) &&& 1 == 1

namespace IncrementalMerkleTree

variable (depth : Nat) (t : IncrementalMerkleTree H)

def wfcheck : Except Fault Unit := do
  throwIf (depth ≤ t.parents.length) "tree has too many parents"
  throwIf (t.parents.getLast?.any Option.isNone)
    "tree has non-canonical representation of parent"
  throwIf (t.left.isNone && t.right.isSome)
    "tree has non-canonical representation; right should not exist"
  throwIf (t.left.isNone && !t.parents.isEmpty)
    "tree has non-canonical representation; parents should not be unempty"

def last : Except Fault H :=
  match t.right, t.left with
  | some right, _ => .ok right
  | none, some left => .ok left
  | none, none => .error (.exception "tree has no cursor")

def isComplete (depth : Nat) : Bool :=
  t.left.isSome && t.right.isSome && t.parents.length + 1 == depth &&
    t.parents.all Option.isSome

/-- `IncrementalMerkleTree::append`; its loop is `carry`, place `i` on level `i + 1`. -/
def append (obj : H) : Except Fault (IncrementalMerkleTree H) :=
  if t.isComplete depth then .error (.exception "tree is full")
  else
    match t.left, t.right with
    | none, _ => .ok { t with left := some obj }
    | some _, none => .ok { t with right := some obj }
    | some left, some right =>
      .ok ⟨some obj, none, carry depth 1 (combine left right 0) t.parents⟩

def nextDepth (skip : Nat) : Nat :=
  match t.left, t.right, skip with
  | none, _, 0 => 0
  | none, none, 1 => 0
  | none, none, skip + 2 => nextDepthLoop t.parents 1 skip
  | none, some _, skip + 1 => nextDepthLoop t.parents 1 skip
  | some _, none, 0 => 0
  | some _, none, skip + 1 => nextDepthLoop t.parents 1 skip
  | some _, some _, skip => nextDepthLoop t.parents 1 skip

def size : UInt64 :=
  (if t.left.isSome then 1 else 0) + (if t.right.isSome then 1 else 0) + sizeLoop t.parents 0

def currentSubtreeIndex : UInt64 := t.size >>> 16

def completeSubtreeRoot : Except Fault H :=
  if t.size ≠ 0 ∧ t.size % shiftedOne 16 = 0 then
    match t.left, t.right with
    | none, _ => .error (.assertion "left")
    | some _, none => .error (.assertion "right")
    | some left, some right =>
      if t.parents.length < 15 then
        .error (.assertion "parents.size() >= (TRACKED_SUBTREE_HEIGHT - 1)")
      else subtreeLoop 15 t.parents 1 (combine left right 0)
  else .error (.exception "tree has no root")

/-- `IncrementalMerkleTree::root`, with a depth and filling hashes. -/
def root (depth : Nat) (filler : List H) : H :=
  match t.left, t.right with
  | some left, some right => rootLoop depth t.parents 1 (combine left right 0) filler
  | some left, none =>
    rootLoop depth t.parents 1 (combine left (fillerNext filler 0).1 0) (fillerNext filler 0).2
  | none, some right =>
    rootLoop depth t.parents 1 (combine (fillerNext filler 0).1 right 0) (fillerNext filler 0).2
  | none, none =>
    let (left, filler) := fillerNext filler 0
    let (right, filler) := fillerNext filler 0
    rootLoop depth t.parents 1 (combine left right 0) filler

def pathSteps (filler : List H) : Except Fault (List (Bool × H)) :=
  match t.left, t.right with
  | none, _ => .error (.exception
      "can't create an authentication path for the beginning of the tree")
  | some left, some _ => .ok ((true, left) :: pathLoop depth t.parents 1 filler)
  | some _, none => .ok ((false, (fillerNext filler 0).1) ::
      pathLoop depth t.parents 1 (fillerNext filler 0).2)

end IncrementalMerkleTree

end

/-- `IncrementalMerkleTree::path`: bits of hashes, root first. -/
def IncrementalMerkleTree.path {H : Type} [NoteHash H] (depth : Nat)
    (t : IncrementalMerkleTree H) (filler : List H) : Except Fault MerklePath := do
  let steps ← t.pathSteps depth filler
  return ⟨(steps.map fun s => convertBytesVectorToVector (NoteHash.bytes s.2)).reverse,
    (steps.map Prod.fst).reverse⟩

section

variable {H : Type} [MerkleHash H]

/-! ### The root along the path -/

theorem rootRest_eq_pathRoot (n d : Nat) (root : H) (filler : List H) :
    rootRest n d root filler = pathRoot (pathRest n d filler) d root := by
  induction n generalizing d root filler with
  | zero => rfl
  | succ n ih => rw [rootRest, pathRest, pathRoot, ih]

theorem rootLoop_eq_pathRoot (depth : Nat) (parents : List (Option H)) (d : Nat) (root : H)
    (filler : List H) :
    rootLoop depth parents d root filler = pathRoot (pathLoop depth parents d filler) d root := by
  induction parents generalizing d root filler with
  | nil => exact rootRest_eq_pathRoot _ d root filler
  | cons parent parents ih =>
    cases parent with
    | none => rw [rootLoop, pathLoop, pathRoot, ih]
    | some parent => rw [rootLoop, pathLoop, pathRoot, ih]

def Fills (f : Nat → H) : Nat → Nat → Nat → List H → Prop
  | 0, _, _, _ => True
  | r + 1, d, j, filler =>
    if j % 2 = 1 then Fills f r (d + 1) (j / 2) filler
    else (fillerNext filler d).1 = node f d (j + 1) ∧
      Fills f r (d + 1) (j / 2) (fillerNext filler d).2

variable {filler : List H}

theorem pathLoop_eq_siblings {f : Nat → H} {r d j : Nat} (hj : j < 2 ^ r)
    (h : Fills f r d j filler) : pathLoop (d + r) (ommers f d j) d filler = siblings f r d j := by
  induction r generalizing d j filler with
  | zero =>
    obtain rfl : j = 0 := by simpa using hj
    simp [pathLoop, pathRest, siblings]
  | succ r ih =>
    have hhalf : j / 2 < 2 ^ r := by
      omega
    have hlevel : d + (r + 1) = d + 1 + r := by omega
    unfold Fills at h
    by_cases hodd : j % 2 = 1
    · rw [if_pos hodd] at h
      rw [ommers_odd hodd, pathLoop, hlevel, ih hhalf h, siblings, if_pos hodd]
    · rw [if_neg hodd] at h
      rw [siblings, if_neg hodd, ← ih hhalf h.2, ← hlevel, ← h.1]
      by_cases hj0 : j = 0
      · subst hj0
        rw [ommers_zero, pathLoop, ommers_zero, pathLoop,
          show d + (r + 1) - d = r + 1 by omega, pathRest,
          show d + (r + 1) - (d + 1) = r by omega]
      · rw [ommers_even hj0 hodd, pathLoop]

theorem fills_nil {f : Nat → H} {r d j : Nat}
    (h : ∀ i, (j + 1) * 2 ^ d ≤ i → f i = uncommitted) : Fills f r d j [] := by
  induction r generalizing d j with
  | zero => trivial
  | succ r ih =>
    have hle : (j + 1) * 2 ^ d ≤ (j / 2 + 1) * 2 ^ (d + 1) := by
      rw [Nat.pow_succ, Nat.mul_comm (2 ^ d) 2, ← Nat.mul_assoc]
      exact Nat.mul_le_mul_right _ (by omega)
    have hrest := ih (d := d + 1) (j := j / 2) fun i hi => h i (hle.trans hi)
    unfold Fills
    split
    · exact hrest
    · exact ⟨(node_eq_emptyRoot h).symm, hrest⟩

/-! ### The tree of some leaves -/

/-- The tree of the first leaves: last pair, and left siblings. -/
def treeOf (f : Nat → H) : Nat → IncrementalMerkleTree H
  | 0 => {}
  | p + 1 => ⟨some (f (p - p % 2)), if p % 2 = 1 then some (f p) else none,
      ommers f 1 (p / 2)⟩

theorem treeOf_congr {f g : Nat → H} {n : Nat} (h : ∀ i < n, f i = g i) :
    treeOf f n = treeOf g n := by
  cases n with
  | zero => rfl
  | succ p =>
    have hommers : ommers f 1 (p / 2) = ommers g 1 (p / 2) :=
      ommers_congr fun i hi => h i (by omega)
    rw [treeOf, treeOf, h p (by omega), h (p - p % 2) (by omega), hommers]

variable {f : Nat → H} {depth n p : Nat}

theorem isComplete_treeOf (hdepth : 0 < depth) :
    (treeOf f n).isComplete depth = true ↔ n = 2 ^ depth := by
  obtain ⟨r, rfl⟩ := Nat.exists_eq_add_of_le' hdepth
  have hpos : 0 < 2 ^ r := Nat.pow_pos (by omega)
  cases n with
  | zero =>
    rw [Nat.pow_succ]
    constructor
    · exact fun h => absurd h (by simp [treeOf, IncrementalMerkleTree.isComplete])
    · exact fun h => absurd h (by omega)
  | succ p =>
    have hfull := ommers_full (f := f) (r := r) (d := 1) (j := p / 2)
    rw [Nat.pow_succ]
    by_cases hodd : p % 2 = 1
    · simp only [treeOf, IncrementalMerkleTree.isComplete, hodd, if_true, Option.isSome_some,
        Bool.true_and, Bool.and_eq_true, beq_iff_eq, Nat.add_right_cancel_iff,
        List.all_eq_true, hfull]
      omega
    · simp only [treeOf, IncrementalMerkleTree.isComplete, hodd, if_false,
        Option.isSome_none, Bool.and_false, Bool.false_and, Bool.false_eq_true, false_iff]
      omega

theorem append_treeOf (hdepth : 0 < depth) (hn : n < 2 ^ depth) :
    (treeOf f n).append depth (f n) = .ok (treeOf f (n + 1)) := by
  have hfull : (treeOf f n).isComplete depth = false := by
    rw [← not_eq_true, isComplete_treeOf hdepth]
    omega
  rw [IncrementalMerkleTree.append, hfull]
  cases n with
  | zero => simp [treeOf]
  | succ p =>
    by_cases hodd : p % 2 = 1
    · -- a full pair is carried into the left siblings
      have hpair : combine (f (p - 1)) (f p) 0 = node f 1 (p / 2) :=
        combine_left (f := f) (d := 0) hodd
      have hcarry : carry depth 1 (node f 1 (p / 2)) (ommers f 1 (p / 2))
          = ommers f 1 ((p + 1) / 2) := by
        rw [ommers_succ (by omega), show (p + 1) / 2 = p / 2 + 1 by omega]
      have heven : (p + 1) % 2 = 0 := by omega
      simp [treeOf, hodd, hpair, hcarry, heven]
    · have hodd' : (p + 1) % 2 = 1 := by omega
      have heven : p % 2 = 0 := by omega
      have hhalf : (p + 1) / 2 = p / 2 := by omega
      simp [treeOf, hodd', heven, hhalf]

theorem append_full (hdepth : 0 < depth) (x : H) :
    (treeOf f (2 ^ depth)).append depth x = .error (.exception "tree is full") := by
  rw [IncrementalMerkleTree.append, (isComplete_treeOf hdepth).mpr rfl]
  rfl

variable {l : List H}

theorem foldlM_append_treeOf (hdepth : 0 < depth)
    (hf : ∀ i (h : i < l.length), f (n + i) = l.get ⟨i, h⟩) (hn : n + l.length ≤ 2 ^ depth) :
    l.foldlM (IncrementalMerkleTree.append depth) (treeOf f n) = .ok (treeOf f (n + l.length)) := by
  induction l generalizing n with
  | nil => rfl
  | cons x l ih =>
    have hx : f n = x := hf 0 (by simp)
    rw [length_cons] at hn
    rw [foldlM_cons, ← hx, append_treeOf hdepth (by omega)]
    refine (ih (fun i h => ?_) (by omega)).trans ?_
    · rw [show n + 1 + i = n + (i + 1) by omega]
      exact hf (i + 1) (by simpa using h)
    · rw [length_cons, show n + 1 + l.length = n + (l.length + 1) by omega]

theorem wfcheck_treeOf (hdepth : 0 < depth) (hn : n ≤ 2 ^ depth) :
    (treeOf f n).wfcheck depth = .ok () := by
  obtain ⟨r, rfl⟩ := Nat.exists_eq_add_of_le' hdepth
  rw [Nat.pow_succ] at hn
  simp only [IncrementalMerkleTree.wfcheck, bind_eq_ok, throwIf_eq_ok, exists_const]
  cases n with
  | zero => simp [treeOf]
  | succ p =>
    have hlen : (ommers f 1 (p / 2)).length ≤ r := length_ommers_le (by omega)
    have hroom : decide (r + 1 ≤ (treeOf f (p + 1)).parents.length) = false := by
      rw [decide_eq_false_iff_not]
      exact fun hle => absurd hlen (Nat.not_le.mpr hle)
    refine ⟨hroom, ?_, rfl, rfl⟩
    by_cases hp : p / 2 = 0
    · simp [treeOf, hp]
    · obtain ⟨x, hx⟩ := getLast?_ommers (f := f) (d := 1) hp
      simp [treeOf, hx]

theorem last_treeOf : (treeOf f (p + 1)).last = .ok (f p) := by
  by_cases hodd : p % 2 = 1
  · simp [treeOf, IncrementalMerkleTree.last, hodd]
  · have heven : p % 2 = 0 := by omega
    simp [treeOf, IncrementalMerkleTree.last, heven]

theorem pathSteps_treeOf (hdepth : 0 < depth) (hp : p < 2 ^ depth) (h : Fills f depth 0 p filler) :
    (treeOf f (p + 1)).pathSteps depth filler = .ok (siblings f depth 0 p) := by
  obtain ⟨r, rfl⟩ := Nat.exists_eq_add_of_le' hdepth
  have hhalf : p / 2 < 2 ^ r := by
    rw [Nat.pow_succ] at hp
    omega
  unfold Fills at h
  by_cases hodd : p % 2 = 1
  · rw [if_pos hodd] at h
    have hrest := pathLoop_eq_siblings hhalf h
    rw [show 0 + 1 + r = r + 1 by omega] at hrest
    simp only [treeOf, IncrementalMerkleTree.pathSteps, hodd, if_true, siblings]
    rw [hrest]
    rfl
  · rw [if_neg hodd] at h
    have hrest := pathLoop_eq_siblings hhalf h.2
    rw [show 0 + 1 + r = r + 1 by omega] at hrest
    simp only [treeOf, IncrementalMerkleTree.pathSteps, hodd, if_false, siblings]
    rw [hrest, h.1]

theorem root_eq_pathRoot {t : IncrementalMerkleTree H}
    {steps : List (Bool × H)} {x : H} (hsteps : t.pathSteps depth filler = .ok steps)
    (hx : t.last = .ok x) : t.root depth filler = pathRoot steps 0 x := by
  obtain ⟨left, right, parents⟩ := t
  cases left with
  | none => exact absurd hsteps (by simp [IncrementalMerkleTree.pathSteps])
  | some left =>
    cases right with
    | none =>
      obtain rfl := ok.inj hsteps
      obtain rfl := ok.inj hx
      exact rootLoop_eq_pathRoot _ _ _ _ _
    | some right =>
      obtain rfl := ok.inj hsteps
      obtain rfl := ok.inj hx
      exact rootLoop_eq_pathRoot _ _ _ _ _

theorem root_treeOf (hdepth : 0 < depth) (hp : p < 2 ^ depth)
    (h : Fills f depth 0 p filler) : (treeOf f (p + 1)).root depth filler = node f depth 0 := by
  have hpath := pathRoot_siblings f depth 0 p
  rw [root_eq_pathRoot (pathSteps_treeOf hdepth hp h) last_treeOf]
  rwa [Nat.zero_add, Nat.div_eq_of_lt hp] at hpath

theorem root_empty (hdepth : 0 < depth) :
    ({} : IncrementalMerkleTree H).root depth [] = emptyRoot depth := by
  have hrest : ∀ n d, rootRest n d (emptyRoot d) [] = (emptyRoot (d + n) : H) := by
    intro n
    induction n with
    | zero => exact fun _ => rfl
    | succ n ih =>
      intro d
      rw [show d + (n + 1) = d + 1 + n by omega, ← ih (d + 1)]
      rfl
  have hroot := hrest (depth - 1) 1
  rwa [show 1 + (depth - 1) = depth by omega] at hroot

/-! ### Appending to an empty tree -/

/-- Leaves, padded with uncommitted ones. -/
def padded (l : List H) : Nat → H := fun i => l.getD i uncommitted

theorem padded_of_length_le {i : Nat} (h : l.length ≤ i) : padded l i = uncommitted := by
  simp [padded, getD_eq_getElem?_getD, getElem?_eq_none h]

theorem foldlM_append_empty (hdepth : 0 < depth) (hl : l.length ≤ 2 ^ depth) :
    l.foldlM (IncrementalMerkleTree.append depth) {} = .ok (treeOf (padded l) l.length) := by
  have hrun := foldlM_append_treeOf (f := padded l) (n := 0) (l := l) hdepth
    (fun i h => by simp [padded, h]) (by omega)
  rwa [Nat.zero_add] at hrun

theorem root_treeOf_padded (hdepth : 0 < depth) (hl : l.length ≤ 2 ^ depth) :
    (treeOf (padded l) l.length).root depth [] = node (padded l) depth 0 := by
  cases hlen : l.length with
  | zero =>
    rw [treeOf, root_empty hdepth]
    exact (node_eq_emptyRoot fun i _ => padded_of_length_le (by omega)).symm
  | succ p =>
    refine root_treeOf hdepth (by omega) (fills_nil fun i hi => padded_of_length_le ?_)
    simpa [hlen] using hi

/-- **The root of an incremental tree** is that of the complete tree over the padded leaves, at
every depth; a further leaf is refused exactly when the tree is full. -/
theorem appended_root (hdepth : 0 < depth) (l : List H) (hl : l.length ≤ 2 ^ depth) :
    ∃ t, l.foldlM (IncrementalMerkleTree.append depth) {} = .ok t ∧
      t.wfcheck depth = .ok () ∧ t.root depth [] = node (padded l) depth 0 ∧
      ∀ x, (∃ e, t.append depth x = .error e) ↔ l.length = 2 ^ depth := by
  refine ⟨_, foldlM_append_empty hdepth hl, wfcheck_treeOf hdepth hl,
    root_treeOf_padded hdepth hl, fun x => ?_⟩
  constructor
  · rintro ⟨e, he⟩
    by_contra hne
    -- with room left, the leaf is appended
    have hcongr : treeOf (padded l) l.length = treeOf (update (padded l) l.length x) l.length :=
      treeOf_congr fun i hi => by rw [update_of_ne (by omega)]
    have happend := append_treeOf (f := update (padded l) l.length x)
      (n := l.length) hdepth (by omega)
    rw [update_self, ← hcongr, he] at happend
    exact absurd happend (by simp)
  · intro hfull
    rw [hfull]
    exact ⟨_, append_full hdepth x⟩

/-! ### The number of leaves -/

variable {d i j r : Nat}

theorem shiftedOne_eq : ∀ i < 31, shiftedOne i = UInt64.ofNat (2 ^ i) := by decide

theorem sizeLoop_ommers (h : j * 2 ^ (i + 1) < 2 ^ 32) : sizeLoop (ommers f d j) i =
    UInt64.ofNat (j * 2 ^ (i + 1) + if 2 ^ 31 ≤ j * 2 ^ (i + 1) then 2 ^ 64 - 2 ^ 32 else 0) := by
  induction j using Nat.strongRecOn generalizing d i with
  | ind j ih =>
    by_cases hj : j = 0
    · subst hj
      simp [sizeLoop]
    have hi : i + 1 < 32 := by
      rw [← Nat.pow_lt_pow_iff_right (show 1 < 2 by decide)]
      exact Nat.lt_of_le_of_lt (Nat.le_mul_of_pos_left _ (by omega)) h
    have hrest := ih (j / 2) (by omega) (d := d + 1) (i := i + 1)
    rw [Nat.pow_succ _ (i + 1)] at hrest
    have hhead : sizeLoop (ommers f d j) i = (if j % 2 = 1 then shiftedOne (i + 1) else 0) +
        sizeLoop (ommers f (d + 1) (j / 2)) (i + 1) := by
      by_cases hodd : j % 2 = 1
      · rw [ommers_odd hodd, sizeLoop, if_pos hodd]
        rfl
      · rw [ommers_even hj hodd, sizeLoop, if_neg hodd]
        rfl
    rw [hhead]
    by_cases hlast : i = 30
    · subst hlast
      obtain rfl : j = 1 := by omega
      rw [show 1 / 2 = 0 from rfl, ommers_zero, sizeLoop]
      decide
    · obtain ⟨c, hc⟩ : ∃ c, 2 ^ 31 = 2 ^ (i + 1) * (2 * c) :=
        ⟨2 ^ (29 - i), by rw [← Nat.pow_succ', ← Nat.pow_add]; congr 1; omega⟩
      rw [shiftedOne_eq _ (by omega)]
      have hpos : 0 < 2 ^ (i + 1) := Nat.pow_pos (by omega)
      generalize 2 ^ (i + 1) = w at *
      have hsum : j * w = j % 2 * w + j / 2 * (w * 2) := by
        conv_lhs => rw [← Nat.mod_add_div j 2, Nat.add_mul]
        rw [Nat.mul_comm w, ← Nat.mul_assoc, Nat.mul_comm 2]
      have htop : 2 ^ 31 ≤ j * w ↔ 2 ^ 31 ≤ j / 2 * (w * 2) := by
        rw [hc, Nat.mul_comm j, Nat.mul_le_mul_left_iff hpos, Nat.mul_comm (j / 2), Nat.mul_assoc,
          Nat.mul_le_mul_left_iff hpos]
        omega
      rw [hrest (by omega)]
      rw [if_congr htop rfl rfl, hsum, Nat.add_assoc, UInt64.ofNat_add (j % 2 * w)]
      rcases Nat.mod_two_eq_zero_or_one j with h | h <;> simp [h]

theorem size_treeOf (h : n ≤ 2 ^ 32) : (treeOf f n).size =
    UInt64.ofNat (n + if 2 ^ 31 < n then 2 ^ 64 - 2 ^ 32 else 0) := by
  cases n with
  | zero => rfl
  | succ p =>
    have htop : 2 ^ 31 ≤ p / 2 * 2 ^ (0 + 1) ↔ 2 ^ 31 < p + 1 := by omega
    have hsum : p + 1 = 1 + p % 2 + p / 2 * 2 ^ (0 + 1) := by omega
    rw [treeOf, IncrementalMerkleTree.size, sizeLoop_ommers (by omega), if_congr htop rfl rfl]
    generalize (if 2 ^ 31 < p + 1 then 2 ^ 64 - 2 ^ 32 else 0) = wrapped
    rw [hsum, Nat.add_assoc, UInt64.ofNat_add (1 + p % 2)]
    rcases Nat.mod_two_eq_zero_or_one p with h | h <;> simp [h]

theorem subtreeLoop_ommers (h : j % 2 ^ r = 2 ^ r - 1) : r ≤ (ommers f d j).length ∧
    subtreeLoop r (ommers f d j) d (node f d j) = .ok (node f (d + r) (j / 2 ^ r)) := by
  induction r generalizing d j with
  | zero => simp [subtreeLoop]
  | succ r ih =>
    have hpos : 0 < 2 ^ r := Nat.pow_pos (by omega)
    rw [Nat.pow_succ'] at h
    have hodd : j % 2 = 1 := by
      rw [← Nat.mod_mul_right_mod j 2 (2 ^ r), h]
      omega
    have hrest := ih (d := d + 1) (j := j / 2) (by rw [← Nat.mod_mul_right_div_self, h]; omega)
    rw [ommers_odd hodd, subtreeLoop, combine_left hodd, length_cons, hrest.2,
      Nat.div_div_eq_div_mul, ← Nat.pow_succ', Nat.add_right_comm]
    exact ⟨by omega, rfl⟩

theorem toNat_size_treeOf (h : n ≤ 2 ^ 31) : (treeOf f n).size.toNat = n := by
  rw [size_treeOf (by omega), if_neg (by omega), UInt64.toNat_ofNat', Nat.mod_eq_of_lt (by omega)]
  rfl

theorem completeSubtreeRoot_treeOf (h : n ≤ 2 ^ 31) : (treeOf f n).completeSubtreeRoot =
    if 0 < n ∧ n % 2 ^ 16 = 0 then .ok (node (fun i => f (n - 2 ^ 16 + i)) 16 0)
    else .error (.exception "tree has no root") := by
  have hcond : (treeOf f n).size ≠ 0 ∧ (treeOf f n).size % shiftedOne 16 = 0 ↔
      0 < n ∧ n % 2 ^ 16 = 0 := by
    rw [ne_eq, ← UInt64.toNat_inj, ← UInt64.toNat_inj, UInt64.toNat_mod, toNat_size_treeOf h]
    exact and_congr Nat.pos_iff_ne_zero.symm Iff.rfl
  rw [IncrementalMerkleTree.completeSubtreeRoot, if_congr hcond rfl rfl]
  split
  · next hn =>
    obtain ⟨p, rfl⟩ : ∃ p, n = p + 1 := ⟨n - 1, by omega⟩
    have hodd : p % 2 = 1 := by omega
    obtain ⟨hlen, hloop⟩ := subtreeLoop_ommers (f := f) (d := 1) (r := 15) (j := p / 2) (by omega)
    have hpair : combine (f (p - 1)) (f p) 0 = node f 1 (p / 2) := combine_left (d := 0) hodd
    have hnode := node_shift f 16 (p / 2 / 2 ^ 15) 0
    rw [show p / 2 / 2 ^ 15 * 2 ^ 16 = p + 1 - 2 ^ 16 by omega] at hnode
    simp only [treeOf, hodd, if_true, hpair, if_neg (Nat.not_lt.mpr hlen), hloop, hnode]
    rfl
  · rfl

/-- What a tree says of its number of leaves and last subtree. -/
def CountsLeaves (l : List H) (t : IncrementalMerkleTree H) : Prop :=
  t.size.toNat = l.length ∧ t.currentSubtreeIndex.toNat = l.length / 2 ^ 16 ∧
    t.completeSubtreeRoot = if 0 < l.length ∧ l.length % 2 ^ 16 = 0 then
        .ok (node (fun i => padded l (l.length - 2 ^ 16 + i)) 16 0)
      else .error (.exception "tree has no root")

/-- **A tree counts its leaves while at most half are there**: the last parent's bit is the sign
of an `int`. -/
theorem leaves_counted_iff (l : List H) (hl : l.length ≤ 2 ^ 32) :
    ∃ t, l.foldlM (IncrementalMerkleTree.append 32) {} = .ok t ∧
      (CountsLeaves l t ↔ l.length ≤ 2 ^ 31) := by
  refine ⟨_, foldlM_append_empty (by decide) hl, fun ⟨hsize, _⟩ => ?_, fun h => ?_⟩
  · by_contra hlarge
    rw [size_treeOf hl, if_pos (by omega), UInt64.toNat_ofNat'] at hsize
    omega
  · refine ⟨toNat_size_treeOf h, ?_, completeSubtreeRoot_treeOf h⟩
    rw [IncrementalMerkleTree.currentSubtreeIndex, UInt64.toNat_shiftRight, toNat_size_treeOf h]
    exact Nat.shiftRight_eq_div_pow _ 16

end

section

local instance decimalHash : MerkleHash Nat := ⟨fun a b d => 100 * a + 10 * b + d, 9⟩

theorem appended_root_three : ∃ t, [1, 2, 3].foldlM (IncrementalMerkleTree.append 2) {} = .ok t ∧
      t.wfcheck 2 = .ok () ∧
      t.root 2 [] = combine (combine 1 2 0) (combine 3 uncommitted 0) 1 := by
  obtain ⟨t, hrun, hwf, hroot, -⟩ := appended_root (show 0 < 2 by decide) [1, 2, 3] (by decide)
  exact ⟨t, hrun, hwf, hroot⟩

/-- Three leaves are counted, and with one more than half of the tree they are not. -/
theorem leaves_counted_three :
    (∃ t, [1, 2, 3].foldlM (IncrementalMerkleTree.append 32) {} = .ok t ∧
      CountsLeaves [1, 2, 3] t) ∧
    ∃ t, (replicate (2 ^ 31 + 1) 1).foldlM (IncrementalMerkleTree.append 32) {} = .ok t ∧
      ¬CountsLeaves (replicate (2 ^ 31 + 1) 1) t := by
  refine ⟨?_, ?_⟩
  · obtain ⟨t, hrun, hcounts⟩ := leaves_counted_iff [1, 2, 3] (by decide)
    exact ⟨t, hrun, hcounts.mpr (by decide)⟩
  · have hlen : (replicate (2 ^ 31 + 1) 1).length = 2 ^ 31 + 1 := length_replicate
    obtain ⟨t, hrun, hcounts⟩ := leaves_counted_iff (replicate (2 ^ 31 + 1) 1)
      (hlen.le.trans (by decide))
    refine ⟨t, hrun, fun h => ?_⟩
    have hle := hcounts.mp h
    omega

/-- **A full tree has no leaves**, and no complete subtree. -/
theorem full_tree_uncounted : ∃ t,
    (replicate (2 ^ 32) 1).foldlM (IncrementalMerkleTree.append 32) {} = .ok t ∧ t.size = 0 ∧
      t.completeSubtreeRoot = .error (.exception "tree has no root") := by
  have hlen : (replicate (2 ^ 32) 1).length = 2 ^ 32 := length_replicate
  have hrun := foldlM_append_empty (show 0 < 32 by decide) hlen.le
  rw [hlen] at hrun
  have hsize := size_treeOf (f := padded (replicate (2 ^ 32) 1)) (Nat.le_refl (2 ^ 32))
  have hzero : (treeOf (padded (replicate (2 ^ 32) 1)) (2 ^ 32)).size = 0 := by
    rw [hsize, if_pos (by omega)]
    rfl
  refine ⟨_, hrun, hzero, ?_⟩
  rw [IncrementalMerkleTree.completeSubtreeRoot, hzero]
  rfl

end

end Elosys
