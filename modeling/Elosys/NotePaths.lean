import Elosys.Primitives

/-!
# Merkle Paths of the Notes to Spend

`CWallet::GetSaplingNoteMerklePaths` looks up the paths of notes, which `z_sendmany` and the Sapling
sweep hand to the builder. A note that its transaction does not record is passed over, so the paths
behind it move up; when one is not found, the callers log that they stop, and go on.
-/

open List Option

namespace Elosys

/-- What is read of a `CWalletTx`: `mapSaplingNoteData` and the commitments. -/
structure NoteTx where
  mapSaplingNoteData : COutPoint → Bool
  cmus : List UInt256

/-- `GetWalletTx`, and `GetMerklePathOfNote` and `GetPathRootWithCMU` of `saplingWallet`. -/
structure NoteWallet (Path : Type) where
  getWalletTx : UInt256 → Option NoteTx
  getMerklePathOfNote : COutPoint → Option Path
  getPathRootWithCMU : Path → UInt256 → Option UInt256

/-- What a call leaves: answer, entries of `saplingMerklePaths`, and `final_anchor`. -/
structure PathResult (Path : Type) where
  ok : Bool
  paths : List Path
  anchor : Option UInt256
  deriving DecidableEq

/-- An entry of the notes of a wallet. -/
structure NoteInput (Note : Type) where
  op : COutPoint
  note : Note
  value : CAmount

namespace NoteWallet

variable {Path Note : Type} (w : NoteWallet Path)

/-- The loop of `GetSaplingNoteMerklePaths`. It does not return if an output is missing or
`assert(*rt == anchor)` fails. -/
def scan : List COutPoint → List Path → Option UInt256 → Option (PathResult Path)
  | [], paths, rt => some ⟨true, paths, rt⟩
  | op :: ops, paths, rt =>
    match w.getWalletTx op.hash with
    | none => some ⟨false, paths, none⟩
    | some wtx =>
      if wtx.mapSaplingNoteData op then
        match w.getMerklePathOfNote op, wtx.cmus[op.n]? with
        | none, _ => some ⟨false, paths, none⟩
        | some _, none => none
        | some path, some cmu =>
          match w.getPathRootWithCMU path cmu with
          | none => some ⟨false, paths ++ [path], none⟩
          | some anchor =>
            if rt.all (· == anchor) then scan ops (paths ++ [path]) (some anchor) else none
      else scan ops paths rt

def getSaplingNoteMerklePaths (notes : List COutPoint) : Option (PathResult Path) :=
  w.scan notes [] none

/-- What both callers do: whatever the answer, `AddSaplingSpend` gets the entry at each note's
position, empty if not written. -/
def addSpends (inputs : List (NoteInput Note)) :
    Option (PathResult Path × List (Note × Option UInt256 × Option Path)) :=
  (w.getSaplingNoteMerklePaths (inputs.map (·.op))).map fun res =>
    (res, inputs.zipIdx.map fun (x, i) => (x.note, res.anchor, res.paths[i]?))

/-- The notes `AsyncRPCOperation_sendmany::main_impl` selects. -/
def selectNotes (targetAmount : CAmount) :
    CAmount → List (NoteInput Note) → List (NoteInput Note)
  | _, [] => []
  | sum, t :: ts =>
    if targetAmount ≤ sum + t.value then [t] else t :: selectNotes targetAmount (sum + t.value) ts

/-- The spends of `AsyncRPCOperation_sendmany::main_impl`. -/
def sendmanySpends (targetAmount : CAmount) (inputs : List (NoteInput Note)) :=
  w.addSpends (selectNotes targetAmount 0 inputs)

/-- The spends of `AsyncRPCOperation_sweeptoaddress::main_impl`. -/
def sweepSpends (fromNotes : List (NoteInput Note)) := w.addSpends fromNotes

def cmu (op : COutPoint) : Option UInt256 := (w.getWalletTx op.hash).bind (·.cmus[op.n]?)

def Authentic (anchor : Option UInt256) (op : COutPoint) (path : Path) : Prop :=
  ∃ c a, w.cmu op = some c ∧ w.getPathRootWithCMU path c = some a ∧ anchor = some a

/-- **A sound spend**: after a positive answer every note has a path, all authentic to one anchor;
after a negative one nothing is spent. -/
def Sound (ops : List COutPoint)
    (r : PathResult Path × List (Note × Option UInt256 × Option Path)) : Prop :=
  if r.1.ok then Forall₂ (w.Authentic r.1.anchor) ops r.1.paths else r.2 = []

def Found (op : COutPoint) : Prop :=
  ∃ wtx path c a, w.getWalletTx op.hash = some wtx ∧ wtx.mapSaplingNoteData op = true ∧
    w.getMerklePathOfNote op = some path ∧ wtx.cmus[op.n]? = some c ∧
    w.getPathRootWithCMU path c = some a

variable {w} {ops : List COutPoint} {paths : List Path} {rt : Option UInt256}
  {res : PathResult Path}

theorem scan_cons {op : COutPoint} (h : w.scan (op :: ops) paths rt = some res) :
    (¬ w.Found op ∧ (res.ok = false ∨ w.scan ops paths rt = some res)) ∨
      (w.Found op ∧ ∃ path a, w.Authentic (some a) op path ∧ (rt ≠ none → rt = some a) ∧
        w.scan ops (paths ++ [path]) (some a) = some res) := by
  have hends : ∀ {ps}, some (⟨false, ps, none⟩ : PathResult Path) = some res → res.ok = false :=
    fun h => congrArg PathResult.ok (some.inj h).symm
  rw [scan] at h
  split at h
  · next hwtx => exact .inl ⟨fun ⟨_, _, _, _, h', _⟩ => by simp [hwtx] at h', .inl (hends h)⟩
  next wtx hwtx =>
  split at h
  · next hmap =>
    split at h
    · next hpath =>
      exact .inl ⟨fun ⟨_, _, _, _, _, _, h', _⟩ => by simp [hpath] at h', .inl (hends h)⟩
    · cases h
    · next path c hpath hc =>
      split at h
      · next hroot =>
        refine .inl ⟨fun ⟨wtx', path', c', _, hwtx', _, hpath', hc', hroot'⟩ => ?_, .inl (hends h)⟩
        simp_all
      · next a hroot =>
        split at h
        · next hsame =>
          refine .inr ⟨⟨wtx, path, c, a, hwtx, hmap, hpath, hc, hroot⟩, path, a,
            ⟨c, a, ?_, hroot, rfl⟩, fun hne => ?_, h⟩
          · rwa [cmu, hwtx]
          · cases rt with
            | none => exact absurd rfl hne
            | some a' => exact congrArg some (by simpa using hsame)
        · cases h
  · next hmap =>
    refine .inl ⟨fun ⟨wtx', _, _, _, hwtx', hmap', _⟩ => ?_, .inr h⟩
    rw [some.inj (hwtx'.symm.trans hwtx)] at hmap'
    exact hmap hmap'

theorem scan_ok (h : w.scan ops paths rt = some res) (hok : res.ok = true) :
    (rt ≠ none → res.anchor = rt) ∧ ∃ new, res.paths = paths ++ new ∧
      ((∀ op ∈ ops, w.Found op) ∧ Forall₂ (w.Authentic res.anchor) ops new ∨
        (∃ op ∈ ops, ¬ w.Found op) ∧ new.length < ops.length) := by
  induction ops generalizing paths rt with
  | nil =>
    obtain rfl := some.inj h
    exact ⟨fun _ => rfl, [], (append_nil _).symm, .inl ⟨by simp, .nil⟩⟩
  | cons op ops ih =>
    rcases scan_cons h with ⟨hmissing, hfalse | hrest⟩ | ⟨hfound, path, a, hauth, hrt, hrest⟩
    · exact absurd (hok.symm.trans hfalse) (by decide)
    · obtain ⟨hanchor, new, hpaths, hnew⟩ := ih hrest
      refine ⟨hanchor, new, hpaths, .inr ⟨⟨op, mem_cons_self, hmissing⟩, ?_⟩⟩
      rcases hnew with ⟨-, hnew⟩ | ⟨-, hnew⟩
      · exact Nat.lt_succ_of_le hnew.length_eq.ge
      · exact Nat.lt_succ_of_lt hnew
    · obtain ⟨hanchor, new, hpaths, hnew⟩ := ih hrest
      have hanchor : res.anchor = some a := hanchor (by simp)
      refine ⟨fun hne => hanchor.trans (hrt hne).symm, path :: new,
        by rw [hpaths, append_assoc]; rfl, ?_⟩
      rcases hnew with ⟨hall, hnew⟩ | ⟨⟨x, hx, hmissing⟩, hnew⟩
      · exact .inl ⟨forall_mem_cons.mpr ⟨hfound, hall⟩, .cons (hanchor ▸ hauth) hnew⟩
      · exact .inr ⟨⟨x, mem_cons_of_mem _ hx, hmissing⟩, Nat.succ_lt_succ hnew⟩

theorem scan_failed (h : w.scan ops paths rt = some res) (hok : res.ok = false) :
    ∃ op ∈ ops, ¬ w.Found op := by
  induction ops generalizing paths rt with
  | nil =>
    obtain rfl := some.inj h
    cases hok
  | cons op ops ih =>
    rcases scan_cons h with ⟨hmissing, -⟩ | ⟨-, path, a, -, -, hrest⟩
    · exact ⟨op, mem_cons_self, hmissing⟩
    · obtain ⟨x, hx, hmissing⟩ := ih hrest
      exact ⟨x, mem_cons_of_mem _ hx, hmissing⟩

theorem addSpends_sound_iff {inputs : List (NoteInput Note)}
    {r : PathResult Path × List (Note × Option UInt256 × Option Path)}
    (h : w.addSpends inputs = some r) :
    w.Sound (inputs.map (·.op)) r ↔ ∀ x ∈ inputs, w.Found x.op := by
  obtain ⟨res, hscan, rfl⟩ := map_eq_some_iff.mp h
  rw [← forall_mem_map (f := NoteInput.op) (P := w.Found)]
  unfold Sound
  cases hok : res.ok with
  | true =>
    obtain ⟨-, new, hpaths, hnew⟩ := scan_ok hscan hok
    rw [nil_append] at hpaths
    rcases hnew with ⟨hall, hnew⟩ | ⟨⟨x, hx, hmissing⟩, hnew⟩
    · exact iff_of_true (by simpa [hok, hpaths] using hnew) hall
    · refine iff_of_false (fun hsound => ?_) fun hall => hmissing (hall x hx)
      have hlength := hsound.length_eq
      rw [hpaths] at hlength
      omega
  | false =>
    obtain ⟨x, hx, hmissing⟩ := scan_failed hscan hok
    refine iff_of_false (fun hsound => ?_) fun hall => hmissing (hall x hx)
    obtain rfl : inputs = [] := by simpa [hok] using hsound
    cases hx

end NoteWallet

open NoteWallet in
/-- **When no spend is built without authentic paths**: every note is recorded by its transaction
and has a path with a root. -/
theorem note_paths_sound_iff {Path Note : Type} (w : NoteWallet Path) (targetAmount : CAmount)
    (inputs : List (NoteInput Note))
    (r : PathResult Path × List (Note × Option UInt256 × Option Path)) :
    (w.sweepSpends inputs = some r → (w.Sound (inputs.map (·.op)) r ↔ ∀ x ∈ inputs, w.Found x.op)) ∧
    (w.sendmanySpends targetAmount inputs = some r →
      (w.Sound ((selectNotes targetAmount 0 inputs).map (·.op)) r ↔
        ∀ x ∈ selectNotes targetAmount 0 inputs, w.Found x.op)) :=
  ⟨addSpends_sound_iff, addSpends_sound_iff⟩

def twoNoteWallet (recorded : COutPoint → Bool) : NoteWallet Nat where
  getWalletTx hash := if hash = 1 then some ⟨recorded, [10, 11]⟩ else none
  getMerklePathOfNote op := if op.hash = 1 then some op.n else none
  getPathRootWithCMU path cmu := if cmu.toNat = path + 10 then some 7 else none

def noteOf (hash : UInt256) (n : Nat) : NoteInput Nat := ⟨⟨hash, n⟩, n, 5⟩

theorem note_paths_sound_twoNotes :
    ∃ r, (twoNoteWallet fun _ => true).sweepSpends [noteOf 1 0, noteOf 1 1] = some r ∧
      (twoNoteWallet fun _ => true).Sound ([noteOf 1 0, noteOf 1 1].map (·.op)) r ∧
      r.2 = [(0, some 7, some 0), (1, some 7, some 1)] := by
  refine ⟨_, rfl, ((note_paths_sound_iff (twoNoteWallet fun _ => true) 0
    [noteOf 1 0, noteOf 1 1] _).1 rfl).mpr ?_, rfl⟩
  simp only [forall_mem_cons]
  exact ⟨⟨_, _, _, _, rfl, rfl, rfl, rfl, rfl⟩, ⟨_, _, _, _, rfl, rfl, rfl, rfl, rfl⟩, by simp⟩

/-- **An unrecorded note is spent with the next one's path**, and one of an unknown transaction
without a path. -/
theorem note_paths_moved :
    ((twoNoteWallet fun op => op.n == 1).sweepSpends [noteOf 1 0, noteOf 1 1] =
      some (⟨true, [1], some 7⟩, [(0, some 7, some 1), (1, some 7, none)])) ∧
    ((twoNoteWallet fun _ => true).sendmanySpends 5 [noteOf 2 0] =
      some (⟨false, [], none⟩, [(0, none, none)])) :=
  ⟨rfl, rfl⟩

end Elosys
