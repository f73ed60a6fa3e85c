import Elosys.Primitives
import Elosys.Program

/-!
# The Notarisation State

`komodo_state` of `komodo_structs.cpp`: the notarised checkpoints in the order they were added, the
last one, and the queries. `NotarizedData` searches forward from an index of the search before,
which should not change the answer.
-/

open Program List Except

namespace Elosys

structure NotarizedCheckpoint where
  notarizedHash : UInt256 := .null
  notarizedDesttxid : UInt256 := .null
  MoM : UInt256 := .null
  nHeight : Int32 := 0
  notarizedHeight : Int32 := 0
  MoMdepth : Int32 := 0
  deriving DecidableEq

/-- A `komodo_state`'s `NPOINTS`, `NPOINTS_last_index` and `last`. -/
structure Checkpoints where
  NPOINTS : List NotarizedCheckpoint := []
  lastIndex : Nat := 0
  last : NotarizedCheckpoint := {}
  deriving DecidableEq

namespace Checkpoints

def addCheckpoint (s : Checkpoints) (cp : NotarizedCheckpoint) : Checkpoints :=
  { s with
    NPOINTS := s.NPOINTS ++ [cp]
    last := cp }

/-! ### The search of `NotarizedData` -/

/-- Where a search loop stands: whether it met a checkpoint high enough, the one before, and the
index left. -/
structure Search where
  found : Bool
  np : Option NotarizedCheckpoint
  lastIndex : Nat

/-- One of the search loops, from checkpoint `i` on. -/
def scanFrom (nHeight : Int32) : List NotarizedCheckpoint → Nat → Search → Search
  | [], _, st => st
  | cp :: rest, i, st =>
    if cp.nHeight ≥ nHeight then { st with found := true }
    else scanFrom nHeight rest (i + 1) ⟨st.found, some cp, i⟩

variable (s : Checkpoints) (nHeight : Int32)

def scanCached : Search :=
  if s.lastIndex < s.NPOINTS.length ∧ 0 < s.lastIndex then
    -- grab the previous
    let np := s.NPOINTS[s.lastIndex - 1]?
    if np.any (·.nHeight < nHeight) then
      scanFrom nHeight (s.NPOINTS.drop s.lastIndex) s.lastIndex ⟨false, np, s.lastIndex⟩
    else ⟨false, np, s.lastIndex⟩
  else ⟨false, none, s.lastIndex⟩

def search : Search :=
  let cached := s.scanCached nHeight
  if cached.found then cached else scanFrom nHeight s.NPOINTS 0 ⟨false, none, cached.lastIndex⟩

/-- A checkpoint's height, hash and `desttxid` in `NotarizedData`, zero for none. -/
def answer : Option NotarizedCheckpoint → Int32 × UInt256 × UInt256
  | some np => (np.notarizedHeight, np.notarizedHash, np.notarizedDesttxid)
  | none => (0, .null, .null)

def notarizedData (s : Checkpoints) (nHeight : Int32) :
    (Int32 × UInt256 × UInt256) × Checkpoints :=
  if s.NPOINTS.length > 0 then
    let st := s.search nHeight
    (answer st.np, { s with lastIndex := st.lastIndex })
  else (answer none, s)

def prevMoMHeight : Int32 :=
  if s.last.MoM ≠ .null then s.last.notarizedHeight
  else ((s.NPOINTS.reverse.find? (·.MoM ≠ .null)).map (·.notarizedHeight)).getD 0

/-- `NotarizedHeight`, with `*prevMoMheightp`, `*hashp` and `*txidp`; `blockHeight` is
`komodo_blockindex`. An unknown notarised block is forgotten. -/
def notarizedHeight (blockHeight : UInt256 → Option Int32) (s : Checkpoints) :
    Int32 × Option (Int32 × UInt256 × UInt256) × Checkpoints :=
  match blockHeight s.last.notarizedHash with
  | some nHeight =>
    if nHeight < 0 then (0, none, forget s)
    else (s.last.notarizedHeight,
      some (s.prevMoMHeight, s.last.notarizedHash, s.last.notarizedDesttxid), s)
  | none => (0, none, forget s)
where
  forget (s : Checkpoints) : Checkpoints :=
    { s with last := { s.last with
        notarizedHash := .null
        notarizedDesttxid := .null
        notarizedHeight := 0 } }

def checkpointAtHeight (height : Int32) : Option NotarizedCheckpoint :=
  s.NPOINTS.reverse.find? fun cp =>
    cp.MoMdepth ≠ 0 && cp.notarizedHeight - (cp.MoMdepth &&& 0xffff) < height &&
      height ≤ cp.notarizedHeight

inductive Call where
  | addCheckpoint (cp : NotarizedCheckpoint)
  | notarizedData (nHeight : Int32)
  | notarizedHeight (blockHeight : UInt256 → Option Int32)
  | prevMoMHeight
  | checkpointAtHeight (height : Int32)

def call (s : Checkpoints) : Call → Except Fault Checkpoints
  | .addCheckpoint cp => .ok (s.addCheckpoint cp)
  | .notarizedData nHeight => .ok (s.notarizedData nHeight).2
  | .notarizedHeight blockHeight => .ok (s.notarizedHeight blockHeight).2.2
  | .prevMoMHeight => .ok s
  | .checkpointAtHeight _ => .ok s

/-- The checkpoint before the first at a height or above. -/
def scan (nHeight : Int32) (NPOINTS : List NotarizedCheckpoint) : Option NotarizedCheckpoint :=
  (NPOINTS.takeWhile (·.nHeight < nHeight)).getLast?

theorem scanFrom_eq (l : List NotarizedCheckpoint) (i : Nat) (st : Search) :
    (scanFrom nHeight l i st).np = (scan nHeight l).or st.np ∧
      (scanFrom nHeight l i st).found = (st.found || l.any (·.nHeight ≥ nHeight)) := by
  induction l generalizing i st with
  | nil => simp [scanFrom, scan]
  | cons cp rest ih =>
    by_cases hcp : cp.nHeight ≥ nHeight
    · have hnot : ¬cp.nHeight < nHeight := Int32.not_lt.mpr hcp
      simp [scanFrom, scan, hcp, hnot]
    · have hlt : cp.nHeight < nHeight := Int32.not_le.mp hcp
      obtain ⟨hnp, hfound⟩ := ih (i + 1) ⟨st.found, some cp, i⟩
      rw [scanFrom, if_neg hcp, hnp, hfound]
      refine ⟨?_, by simp [hcp]⟩
      simp only [scan, takeWhile_cons, hlt, decide_true, if_true, getLast?_cons]
      cases (rest.takeWhile (·.nHeight < nHeight)).getLast? <;> rfl

variable {s : Checkpoints} {nHeight : Int32}

theorem scanCached_eq (hskip : ∀ np, s.NPOINTS[s.lastIndex - 1]? = some np → np.nHeight < nHeight →
      ∀ cp ∈ s.NPOINTS.take s.lastIndex, cp.nHeight < nHeight)
    (hfound : (s.scanCached nHeight).found = true) :
    (s.scanCached nHeight).np = scan nHeight s.NPOINTS := by
  unfold scanCached at hfound ⊢
  by_cases hrange : s.lastIndex < s.NPOINTS.length ∧ 0 < s.lastIndex
  · have hprev : s.lastIndex - 1 < s.NPOINTS.length := by omega
    obtain ⟨np, hnp⟩ : ∃ np, s.NPOINTS[s.lastIndex - 1]? = some np :=
      ⟨_, getElem?_eq_getElem hprev⟩
    by_cases hbelow : np.nHeight < nHeight
    · simp only [if_pos hrange, hnp, Option.any_some, hbelow, decide_true, if_true,
        (scanFrom_eq nHeight _ _ _).1]
      have htake : ∀ cp ∈ s.NPOINTS.take s.lastIndex, decide (cp.nHeight < nHeight) = true :=
        fun cp hcp => decide_eq_true (hskip np hnp hbelow cp hcp)
      have hlast : (s.NPOINTS.take s.lastIndex).getLast? = some np := by
        rw [getLast?_take, if_neg (by omega), hnp]
        rfl
      conv_rhs => rw [← take_append_drop s.lastIndex s.NPOINTS, scan,
        takeWhile_append_of_pos htake, getLast?_append, hlast]
      rfl
    · simp [if_pos hrange, hnp, hbelow] at hfound
  · simp [if_neg hrange] at hfound

/-- **The answer is that of a search from the start**, if the index skips no checkpoint at the
height or above. -/
theorem notarizedData_eq
    (hskip : ∀ np, s.NPOINTS[s.lastIndex - 1]? = some np → np.nHeight < nHeight →
      ∀ cp ∈ s.NPOINTS.take s.lastIndex, cp.nHeight < nHeight) :
    (s.notarizedData nHeight).1 = answer (scan nHeight s.NPOINTS) := by
  unfold notarizedData
  split
  · unfold search
    simp only
    split
    · next hfound => rw [scanCached_eq hskip hfound]
    · rw [(scanFrom_eq nHeight _ _ _).1, Option.or_none]
  · next hnone =>
      have hnil : s.NPOINTS = [] := length_eq_zero_iff.mp (by omega)
      rw [hnil]
      rfl

/-! ### Runs -/

/-- A checkpoint is added at the last one's height or above. -/
def inOrder (s : Checkpoints) : Call → Prop
  | .addCheckpoint cp => ∀ before ∈ s.NPOINTS, before.nHeight ≤ cp.nHeight
  | _ => True

def Ordered (s : Checkpoints) : Prop :=
  s.NPOINTS.Pairwise fun before cp => before.nHeight ≤ cp.nHeight

theorem notarizedData_NPOINTS : (s.notarizedData nHeight).2.NPOINTS = s.NPOINTS := by
  unfold notarizedData
  split <;> rfl

theorem notarizedHeight_NPOINTS (blockHeight : UInt256 → Option Int32) :
    (s.notarizedHeight blockHeight).2.2.NPOINTS = s.NPOINTS := by
  unfold notarizedHeight
  split
  · split <;> rfl
  · rfl

theorem Ordered.call {c : Call} {s s' : Checkpoints} (hcond : s.inOrder c) (h : s.Ordered)
    (hcall : s.call c = .ok s') : s'.Ordered := by
  cases c with
  | addCheckpoint cp =>
    obtain rfl := ok.inj hcall
    refine pairwise_append.mpr ⟨h, pairwise_singleton _ cp, ?_⟩
    intro before hbefore cp' hcp'
    rw [mem_singleton.mp hcp']
    exact hcond before hbefore
  | notarizedData nHeight =>
    obtain rfl := ok.inj hcall
    rwa [Ordered, notarizedData_NPOINTS]
  | notarizedHeight blockHeight =>
    obtain rfl := ok.inj hcall
    rwa [Ordered, notarizedHeight_NPOINTS]
  | prevMoMHeight =>
    obtain rfl := ok.inj hcall
    exact h
  | checkpointAtHeight height =>
    obtain rfl := ok.inj hcall
    exact h

theorem Ordered.take_below (h : s.Ordered)
    {np : NotarizedCheckpoint} (hnp : s.NPOINTS[s.lastIndex - 1]? = some np)
    (hbelow : np.nHeight < nHeight) :
    ∀ cp ∈ s.NPOINTS.take s.lastIndex, cp.nHeight < nHeight := by
  intro cp hcp
  obtain ⟨i, hi, hcp⟩ := List.mem_take_iff_getElem.mp hcp
  obtain ⟨hlast, hnp⟩ := List.getElem?_eq_some_iff.mp hnp
  have hle : cp.nHeight ≤ np.nHeight := by
    rcases Nat.lt_or_ge i (s.lastIndex - 1) with hlt | hge
    · rw [← hcp, ← hnp]
      exact pairwise_iff_getElem.mp h i (s.lastIndex - 1) (by omega) hlast hlt
    · obtain rfl : i = s.lastIndex - 1 := by omega
      rw [← hcp, hnp]
      exact Int32.le_refl _
  exact Int32.lt_of_le_of_lt hle hbelow

/-- **The remembered index never changes an answer**, in runs from a fresh state with checkpoints
in order of height. -/
theorem notarizedData_eq_scan {calls : List Call} {s : Checkpoints}
    (hmeet : AllMeet call inOrder calls {}) (hrun : calls.foldlM call {} = .ok s)
    (nHeight : Int32) : (s.notarizedData nHeight).1 = answer (scan nHeight s.NPOINTS) := by
  have hordered : s.Ordered :=
    hmeet.invariant (fun _ _ _ => Ordered.call) Pairwise.nil hrun
  exact notarizedData_eq fun _ hnp hbelow => hordered.take_below hnp hbelow

def checkpointAt (nHeight : Int32) : NotarizedCheckpoint :=
  { notarizedHash := 1
    notarizedDesttxid := 2
    nHeight := nHeight
    notarizedHeight := nHeight - 10 }

def orderedCalls : List Call :=
  [.addCheckpoint (checkpointAt 20), .addCheckpoint (checkpointAt 30),
    .addCheckpoint (checkpointAt 40), .notarizedData 35]

theorem notarizedData_eq_scan_ordered : ∃ s, orderedCalls.foldlM call {} = .ok s ∧ s.lastIndex = 1 ∧
      (s.notarizedData 33).1 = (20, 1, 2) := by
  have hmeet : AllMeet call inOrder orderedCalls {} := by
    simp [orderedCalls, AllMeet, inOrder, call, addCheckpoint, checkpointAt]
  exact ⟨_, rfl, by decide, (notarizedData_eq_scan hmeet rfl 33).trans (by decide)⟩

/-- **After a reorganisation the index skips a checkpoint.** -/
theorem notarizedData_stale_index :
    ∃ s, [Call.addCheckpoint (checkpointAt 30), .addCheckpoint (checkpointAt 25),
        .addCheckpoint (checkpointAt 26), .addCheckpoint (checkpointAt 40),
        .notarizedData 35].foldlM call {} = .ok s ∧
      (s.notarizedData 28).1 = (16, 1, 2) ∧ answer (scan 28 s.NPOINTS) = (0, .null, .null) :=
  ⟨_, rfl, by decide, by decide⟩

end Checkpoints

end Elosys
