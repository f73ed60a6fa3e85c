import Elosys.IncrementalWitness
import Elosys.UndoCodec

/-!
# The Format of Trees and Witnesses

The serialisation of `IncrementalMerkleTree` and `IncrementalWitness`. Both directions check the
form of a tree, and set the cursor's depth, which is not in the format, anew by `next_depth`: its
value while there is a cursor.
-/

open ByteCodec CompleteTree MerkleHash List

namespace Elosys

def checkRead : Except Fault Unit → Reader Unit
  | .ok () => pure ()
  | .error (.exception what) => throw (.invalid what)
  | .error (.assertion what) => throw (.invalid what)
  | .error (.reject _ reason) => throw (.invalid reason)
  | .error (.trap _) => throw (.invalid "trap")

variable {H : Type} [NoteHash H]

/-! ### The formats -/

def readHash : Reader H := do
  let bs ← bytes 32
  return NoteHash.ofBytes bs

namespace IncrementalMerkleTree

def code (t : IncrementalMerkleTree H) : List UInt8 :=
  optional NoteHash.bytes t.left ++ (optional NoteHash.bytes t.right ++
    vector (optional NoteHash.bytes) t.parents)

/-- `IncrementalMerkleTree::SerializationOp`, writing. -/
def serialize (depth : Nat) (t : IncrementalMerkleTree H) : Except Fault (List UInt8) := do
  t.wfcheck depth
  return t.code

/-- `IncrementalMerkleTree::SerializationOp`, reading. -/
def unserialize (depth : Nat) : Reader (IncrementalMerkleTree H) := do
  let left ← readOptional readHash
  let right ← readOptional readHash
  let parents ← readVector maxSize (readOptional readHash)
  checkRead (wfcheck depth ⟨left, right, parents⟩)
  return ⟨left, right, parents⟩

end IncrementalMerkleTree

namespace IncrementalWitness

def serializeCursor (depth : Nat) :
    Option (IncrementalMerkleTree H) → Except Fault (List UInt8)
  | some cursor => do
    let bs ← cursor.serialize depth
    return leBytes 1 1 ++ bs
  | none => return leBytes 1 0

/-- The last line of `SerializationOp`, both ways. -/
def renewDepth (w : IncrementalWitness H) : IncrementalWitness H :=
  { w with cursorDepth := w.tree.nextDepth w.filled.length }

/-- `IncrementalWitness::SerializationOp`, writing: bytes, and the witness left. -/
def serialize (depth : Nat) (w : IncrementalWitness H) :
    Except Fault (List UInt8 × IncrementalWitness H) := do
  let tree ← w.tree.serialize depth
  let cursor ← serializeCursor depth w.cursor
  return (tree ++ (vector NoteHash.bytes w.filled ++ cursor), w.renewDepth)

/-- `IncrementalWitness::SerializationOp`, reading. -/
def unserialize (depth : Nat) : Reader (IncrementalWitness H) := do
  let tree ← IncrementalMerkleTree.unserialize depth
  let filled ← readVector maxSize readHash
  let cursor ← readOptional (IncrementalMerkleTree.unserialize depth)
  return renewDepth ⟨tree, filled, cursor, 0⟩

def behaviour (depth : Nat) (w : IncrementalWitness H) :
    H × Except Fault MerklePath × Except Fault H :=
  (w.root depth, w.path depth, w.element)

end IncrementalWitness

/-! ### Reachable trees -/

variable {depth : Nat}

/-- The tree comes from appending to the empty one. -/
def Reachable (depth : Nat) (t : IncrementalMerkleTree H) : Prop :=
  ∃ l : List H, l.foldlM (IncrementalMerkleTree.append depth) {} = .ok t

theorem Reachable.append {t t' : IncrementalMerkleTree H} {x : H} (ht : Reachable depth t)
    (h : t.append depth x = .ok t') : Reachable depth t' := by
  obtain ⟨l, hl⟩ := ht
  refine ⟨l ++ [x], ?_⟩
  rw [foldlM_append]
  exact bind_eq_ok.mpr ⟨t, hl, bind_eq_ok.mpr ⟨t', h, rfl⟩⟩

variable {t : IncrementalMerkleTree H}

theorem Reachable.treeOf (hdepth : 0 < depth)
    (ht : Reachable depth t) : ∃ f n, n ≤ 2 ^ depth ∧ t = treeOf f n := by
  obtain ⟨l, hl⟩ := ht
  by_cases hlen : l.length ≤ 2 ^ depth
  · rw [foldlM_append_empty hdepth hlen] at hl
    exact ⟨_, _, hlen, (Except.ok.inj hl).symm⟩
  · -- the leaf after those that fit is refused
    have hfirst : (l.take (2 ^ depth)).length = 2 ^ depth := by
      rw [length_take]
      omega
    rw [← take_append_drop (2 ^ depth) l, foldlM_append,
      foldlM_append_empty hdepth hfirst.le, hfirst, drop_eq_getElem_cons (by omega)] at hl
    obtain ⟨t', ht', hl⟩ := bind_eq_ok.mp hl
    obtain ⟨t'', happend, -⟩ := bind_eq_ok.mp hl
    cases ht'
    rw [append_full hdepth] at happend
    cases happend

theorem Reachable.wfcheck (hdepth : 0 < depth)
    (ht : Reachable depth t) : t.wfcheck depth = .ok () := by
  obtain ⟨f, n, hn, rfl⟩ := ht.treeOf hdepth
  exact wfcheck_treeOf hdepth hn

omit [NoteHash H] in
theorem length_parents_lt (h : t.wfcheck depth = .ok ()) : t.parents.length < depth := by
  obtain ⟨_, hlen, -⟩ := bind_eq_ok.mp h
  simpa using hlen

/-! ### Reachable witnesses -/

omit [NoteHash H] in
theorem le_nextDepthLoop (parents : List (Option H)) (d skip : Nat) :
    d + skip ≤ nextDepthLoop parents d skip := by
  induction parents generalizing d skip with
  | nil => rfl
  | cons parent parents ih =>
    cases parent with
    | some _ => exact le_trans (by omega) (ih (d + 1) skip)
    | none =>
      cases skip with
      | zero => rfl
      | succ skip => exact le_trans (by omega) (ih (d + 1) skip)

omit [NoteHash H] in
theorem le_nextDepth (t : IncrementalMerkleTree H) (skip : Nat) : skip ≤ t.nextDepth skip + 1 := by
  have hloop := le_nextDepthLoop t.parents 1
  unfold IncrementalMerkleTree.nextDepth
  split
  all_goals grind

/-- What holds of a witness whatever it is fed: its trees are reachable, and the cursor has the
depth not serialised. -/
structure Follows (depth : Nat) (w : IncrementalWitness H) : Prop where
  tree : Reachable depth w.tree
  filled : w.filled.length ≤ depth + 1
  cursor : ∀ c ∈ w.cursor, Reachable depth c ∧
    w.cursorDepth = w.tree.nextDepth w.filled.length ∧ w.cursorDepth < depth

theorem Follows.append {w w' : IncrementalWitness H} {x : H} (hw : Follows depth w)
    (h : w.append depth x = .ok w') : Follows depth w' := by
  obtain ⟨htree, hfilled, hcursor⟩ := hw
  obtain ⟨tree, filled, cursor, cursorDepth⟩ := w
  have hroom := le_nextDepth tree filled.length
  cases cursor with
  | some c =>
    obtain ⟨hc, hnext, hlt⟩ := hcursor c rfl
    obtain ⟨c', hc', h⟩ := bind_eq_ok.mp h
    split at h
    · cases h
      refine ⟨htree, ?_, by simp⟩
      simp only [length_append, length_singleton]
      simp only at hnext hlt
      omega
    · cases h
      refine ⟨htree, hfilled, fun c hmem => ?_⟩
      obtain rfl := Option.some.inj hmem
      exact ⟨hc.append hc', hnext, hlt⟩
  | none =>
    simp only [IncrementalWitness.append] at h
    split at h
    · cases h
    · next hlt =>
      split at h
      · cases h
        refine ⟨htree, ?_, by simp⟩
        simp only [length_append, length_singleton]
        omega
      · obtain ⟨c, hc, h⟩ := bind_eq_ok.mp h
        cases h
        refine ⟨htree, hfilled, fun c' hmem => ?_⟩
        obtain rfl := Option.some.inj hmem
        exact ⟨Reachable.append ⟨[], rfl⟩ hc, rfl, by simpa using hlt⟩

variable {w : IncrementalWitness H}

theorem follows_foldlM {e : List H}
    (ht : Reachable depth t) (h : e.foldlM (IncrementalWitness.append depth) t.witness = .ok w) :
    Follows depth w := by
  have hrun : ∀ (e : List H) (w₀ : IncrementalWitness H), Follows depth w₀ →
      e.foldlM (IncrementalWitness.append depth) w₀ = .ok w → Follows depth w := by
    intro e
    induction e with
    | nil =>
      intro w₀ hw₀ h
      cases h
      exact hw₀
    | cons x e ih =>
      intro w₀ hw₀ h
      obtain ⟨w₁, hw₁, h⟩ := bind_eq_ok.mp h
      exact ih w₁ (hw₀.append hw₁) h
  exact hrun e _ ⟨ht, Nat.zero_le _, fun c hmem => by cases hmem⟩ h

/-! ### Reading back -/

theorem reads_hash (h : H) : Reads readHash (NoteHash.bytes h) h := by
  have hread := reads_bytes (NoteHash.bytes h)
  rw [NoteHash.length_bytes] at hread
  exact hread.bind_pure (by rw [NoteHash.ofBytes_bytes])

theorem reads_code (hmax : depth ≤ maxSize) (hwf : t.wfcheck depth = .ok ()) :
    Reads (IncrementalMerkleTree.unserialize depth) t.code t := by
  have hopt : ∀ o : Option H, Reads (readOptional readHash) (optional NoteHash.bytes o) o :=
    fun o => reads_optional fun a _ => reads_hash a
  have hparents :=
    reads_vector ((length_parents_lt hwf).le.trans hmax) (by decide) fun o _ => hopt o
  refine (hopt t.left).bind ((hopt t.right).bind (hparents.bind_pure ?_))
  rw [hwf]
  rfl

theorem reads_tree (hdepth : 0 < depth) (hmax : depth ≤ maxSize) (ht : Reachable depth t) :
    ∃ bs, t.serialize depth = .ok bs ∧ Reads (IncrementalMerkleTree.unserialize depth) bs t :=
  ⟨t.code, bind_eq_ok.mpr ⟨(), ht.wfcheck hdepth, rfl⟩, reads_code hmax (ht.wfcheck hdepth)⟩

theorem reads_cursor (hdepth : 0 < depth) (hmax : depth ≤ maxSize)
    {o : Option (IncrementalMerkleTree H)} (ho : ∀ c ∈ o, Reachable depth c) :
    ∃ bs, IncrementalWitness.serializeCursor depth o = .ok bs ∧
      Reads (readOptional (IncrementalMerkleTree.unserialize depth)) bs o := by
  have hread := reads_optional fun c hc => reads_code hmax ((ho c hc).wfcheck hdepth)
  cases o with
  | none => exact ⟨_, rfl, hread⟩
  | some c =>
    refine ⟨_, bind_eq_ok.mpr ⟨c.code, ?_, rfl⟩, hread⟩
    exact bind_eq_ok.mpr ⟨(), (ho c rfl).wfcheck hdepth, rfl⟩

theorem reads_witness (hdepth : 0 < depth) (hmax : depth < maxSize) (hw : Follows depth w) :
    ∃ bs, w.serialize depth = .ok (bs, w.renewDepth) ∧
      Reads (IncrementalWitness.unserialize depth) bs w.renewDepth := by
  obtain ⟨tree, htree, hreadTree⟩ := reads_tree hdepth hmax.le hw.tree
  obtain ⟨cursor, hcursor, hreadCursor⟩ :=
    reads_cursor hdepth hmax.le fun c hc => (hw.cursor c hc).1
  have hfilled :=
    reads_vector (hw.filled.trans hmax) (by decide) fun h _ => reads_hash h
  refine ⟨_, bind_eq_ok.mpr ⟨tree, htree, bind_eq_ok.mpr ⟨cursor, hcursor, rfl⟩⟩, ?_⟩
  exact hreadTree.bind (hfilled.bind (hreadCursor.bind_pure rfl))

/-! ### The depth of the cursor -/

theorem renewDepth_eq (hw : Follows depth w) {c} (hc : w.cursor = some c) : w.renewDepth = w := by
  rw [IncrementalWitness.renewDepth, ← (hw.cursor c hc).2.1]

theorem append_renewDepth (hw : Follows depth w) (x : H) :
    w.renewDepth.append depth x = w.append depth x := by
  cases hc : w.cursor with
  | some c => rw [renewDepth_eq hw hc]
  | none => simp only [IncrementalWitness.append, IncrementalWitness.renewDepth, hc]

theorem behaviour_renewDepth (hw : Follows depth w) :
    w.renewDepth.behaviour depth = w.behaviour depth := by
  cases hc : w.cursor with
  | some c => rw [renewDepth_eq hw hc]
  | none =>
    have hpath : w.renewDepth.partialPath = w.partialPath := by
      simp only [IncrementalWitness.partialPath, IncrementalWitness.renewDepth, hc]
    simp only [IncrementalWitness.behaviour, IncrementalWitness.root, IncrementalWitness.path,
      hpath]
    rfl

/-- **What is read back behaves like the original**: whatever follows, it throws what the original
throws, or has the same root, path and element. -/
theorem read_back_behaves_alike (hdepth : 0 < depth) (hmax : depth < maxSize) {l e : List H}
    {t : IncrementalMerkleTree H} {w : IncrementalWitness H}
    (ht : l.foldlM (IncrementalMerkleTree.append depth) {} = .ok t)
    (hw : e.foldlM (IncrementalWitness.append depth) t.witness = .ok w) :
    (∃ bs, t.serialize depth = .ok bs ∧ Reads (IncrementalMerkleTree.unserialize depth) bs t) ∧
      ∃ bs w', w.serialize depth = .ok (bs, w') ∧
        Reads (IncrementalWitness.unserialize depth) bs w' ∧
        ∀ es : List H, (es.foldlM (IncrementalWitness.append depth) w').map
              (IncrementalWitness.behaviour depth)
            = (es.foldlM (IncrementalWitness.append depth) w).map
              (IncrementalWitness.behaviour depth) := by
  have hreach : Reachable depth t := ⟨l, ht⟩
  have hfollows := follows_foldlM hreach hw
  obtain ⟨bs, hwrite, hread⟩ := reads_witness hdepth hmax hfollows
  refine ⟨reads_tree hdepth hmax.le hreach, bs, w.renewDepth, hwrite, hread, fun es => ?_⟩
  cases es with
  | nil => exact congrArg Except.ok (behaviour_renewDepth hfollows)
  | cons x es => rw [foldlM_cons, foldlM_cons, append_renewDepth hfollows]

section

local instance codecHash : NoteHash UInt256 :=
  @uint256NoteHash ⟨fun a b d => 5 * a + 3 * b + BitVec.ofNat 256 d, 1⟩

theorem read_back_behaves_alike_cursor :
    ∃ (t : IncrementalMerkleTree UInt256) (w : IncrementalWitness UInt256),
      [10, 20].foldlM (IncrementalMerkleTree.append 3) {} = .ok t ∧
      [30].foldlM (IncrementalWitness.append 3) t.witness = .ok w ∧ w.cursor.isSome ∧
      ∃ bs w', w.serialize 3 = .ok (bs, w') ∧ Reads (IncrementalWitness.unserialize 3) bs w' ∧
        ∀ es : List UInt256,
          (es.foldlM (IncrementalWitness.append 3) w').map (IncrementalWitness.behaviour 3)
            = (es.foldlM (IncrementalWitness.append 3) w).map (IncrementalWitness.behaviour 3) :=
  ⟨_, _, rfl, rfl, rfl, (read_back_behaves_alike (l := [10, 20]) (e := [30])
    (by decide) (by decide) rfl rfl).2⟩

end

end Elosys
