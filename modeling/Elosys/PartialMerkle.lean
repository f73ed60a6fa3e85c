import Elosys.MerkleTree

/-!
# Partial Merkle Trees

`CPartialMerkleTree` of `merkleblock.cpp`: a depth-first walk that stores a bit for every node it
visits, and a hash where it does not descend. The reading walk takes arbitrary bits and hashes
from two cursors, and sets `fBad` when it runs out or meets two equal children.

## Main results

* `traverseAndExtract_build`: the reading walk retraces the writing one.
* `traverseAndExtract_sublist`: whatever is read, a walk that ends at a node's hash has matched only
  leaves below it, in their order.
-/

open PairedLevels List Bool

namespace Elosys

section Model

variable {H : Type} [DecidableEq H] [Zero H] (hash : H → H → H)

structure CPartialMerkleTree (H : Type) where
  nTransactions : Nat := 0
  vBits : List Bool := []
  vHash : List H := []
  fBad : Bool := true
  deriving DecidableEq

/-- `CalcTreeWidth`: the number of nodes at a height. -/
def calcTreeWidth (nTransactions height : Nat) : Nat :=
  (nTransactions + 2 ^ height - 1) / 2 ^ height

def treeHeightFrom (nTransactions : Nat) : Nat → Nat → Nat
  | 0, nHeight => nHeight
  | fuel + 1, nHeight =>
    if 1 < calcTreeWidth nTransactions nHeight then treeHeightFrom nTransactions fuel (nHeight + 1)
    else nHeight

def treeHeight (nTransactions : Nat) : Nat := treeHeightFrom nTransactions nTransactions 0

def calcHash (vTxid : List H) : Nat → Nat → H
  | 0, pos => vTxid.getD pos 0
  | height + 1, pos =>
    let left := calcHash vTxid height (pos * 2)
    let right :=
      if pos * 2 + 1 < calcTreeWidth vTxid.length height then
        calcHash vTxid height (pos * 2 + 1)
      else left
    hash left right

def below {α : Type} (l : List α) (height pos : Nat) : List α :=
  (l.drop (pos * 2 ^ height)).take (2 ^ height)

/-- `TraverseAndBuild`: the bits and the hashes it pushes. -/
def traverseAndBuild (vTxid : List H) (vMatch : List Bool) : Nat → Nat → List Bool × List H
  | 0, pos => ([(below vMatch 0 pos).any id], [calcHash hash vTxid 0 pos])
  | height + 1, pos =>
    -- whether this node is the parent of at least one matched txid
    if (below vMatch (height + 1) pos).any id then
      let left := traverseAndBuild vTxid vMatch height (pos * 2)
      if pos * 2 + 1 < calcTreeWidth vTxid.length height then
        let right := traverseAndBuild vTxid vMatch height (pos * 2 + 1)
        (true :: (left.1 ++ right.1), left.2 ++ right.2)
      else (true :: left.1, left.2)
    else ([false], [calcHash hash vTxid (height + 1) pos])

/-- The constructor from ids and a mask that selects some. -/
def CPartialMerkleTree.ofMatch (vTxid : List H) (vMatch : List Bool) : CPartialMerkleTree H :=
  let pushed := traverseAndBuild hash vTxid vMatch (treeHeight vTxid.length) 0
  { nTransactions := vTxid.length
    vBits := pushed.1
    vHash := pushed.2
    fBad := false }

/-! ### Reading -/

/-- The reading walk's cursors, matches, and `fBad`. -/
structure Extraction (H : Type) where
  nBitsUsed : Nat := 0
  nHashUsed : Nat := 0
  vMatch : List H := []
  fBad : Bool

def takeHash (t : CPartialMerkleTree H) (matched : Bool) (st : Extraction H) : H × Extraction H :=
  match t.vHash[st.nHashUsed]? with
  | none => (0, { st with fBad := true })
  | some h =>
    (h, { st with
      nHashUsed := st.nHashUsed + 1
      vMatch := if matched then st.vMatch ++ [h] else st.vMatch })

def traverseAndExtract (t : CPartialMerkleTree H) : Nat → Nat → Extraction H → H × Extraction H
  | 0, _, st =>
    match t.vBits[st.nBitsUsed]? with
    | none => (0, { st with fBad := true })
    | some fParentOfMatch => takeHash t fParentOfMatch { st with nBitsUsed := st.nBitsUsed + 1 }
  | height + 1, pos, st =>
    match t.vBits[st.nBitsUsed]? with
    | none => (0, { st with fBad := true })
    | some false => takeHash t false { st with nBitsUsed := st.nBitsUsed + 1 }
    | some true =>
      let left := traverseAndExtract t height (pos * 2) { st with nBitsUsed := st.nBitsUsed + 1 }
      if pos * 2 + 1 < calcTreeWidth t.nTransactions height then
        let right := traverseAndExtract t height (pos * 2 + 1) left.2
        -- The left and right branches should never be identical.
        (hash left.1 right.1, { right.2 with fBad := right.2.fBad || right.1 == left.1 })
      else (hash left.1 left.1, left.2)

/-- What `ExtractMatches` returns and leaves. -/
structure Extracted (H : Type) where
  root : H
  vMatch : List H
  fBad : Bool

/-- `ExtractMatches`; `maxBlockSize` is `MAX_BLOCK_SIZE(10000000)`. -/
def CPartialMerkleTree.extractMatches (maxBlockSize : Nat) (t : CPartialMerkleTree H) :
    Extracted H :=
  if t.nTransactions = 0 then ⟨0, [], t.fBad⟩
  -- 60 is the lower bound for the size of a serialized CTransaction
  else if maxBlockSize / 60 < t.nTransactions then ⟨0, [], t.fBad⟩
  else if t.nTransactions < t.vHash.length then ⟨0, [], t.fBad⟩
  else if t.vBits.length < t.vHash.length then ⟨0, [], t.fBad⟩
  else
    let walk := traverseAndExtract hash t (treeHeight t.nTransactions) 0 { fBad := t.fBad }
    if walk.2.fBad then ⟨0, walk.2.vMatch, true⟩
    -- all bits are consumed, except for the padding
    else if (walk.2.nBitsUsed + 7) / 8 ≠ (t.vBits.length + 7) / 8 then
      ⟨0, walk.2.vMatch, false⟩
    else if walk.2.nHashUsed ≠ t.vHash.length then ⟨0, walk.2.vMatch, false⟩
    else ⟨walk.1, walk.2.vMatch, false⟩

end Model

theorem one_lt_calcTreeWidth {n height : Nat} : 1 < calcTreeWidth n height ↔ 2 ^ height < n := by
  have hpos : 0 < 2 ^ height := Nat.two_pow_pos height
  rw [calcTreeWidth, Nat.lt_iff_add_one_le, Nat.le_div_iff_mul_le hpos]
  omega

theorem treeHeightFrom_eq {n fuel height : Nat} (hlow : height ≤ Nat.clog 2 n)
    (hfuel : Nat.clog 2 n ≤ height + fuel) : treeHeightFrom n fuel height = Nat.clog 2 n := by
  induction fuel generalizing height with
  | zero => exact Nat.le_antisymm hlow hfuel
  | succ fuel ih =>
    rw [treeHeightFrom]
    split
    · next hwide =>
        have hlt := (Nat.lt_clog_iff_pow_lt (b := 2) (by omega)).mpr (one_lt_calcTreeWidth.mp hwide)
        exact ih hlt (by omega)
    · next hnarrow =>
        have hle := (Nat.clog_le_iff_le_pow (b := 2) (by omega)).mpr
          (Nat.le_of_not_lt fun h => hnarrow (one_lt_calcTreeWidth.mpr h))
        exact Nat.le_antisymm hlow hle

theorem treeHeight_eq (n : Nat) : treeHeight n = Nat.clog 2 n := by
  refine treeHeightFrom_eq (Nat.zero_le _) ?_
  rw [Nat.zero_add, Nat.clog_le_iff_le_pow (by omega)]
  exact Nat.lt_two_pow_self.le

/-! ### Nodes and what is below them -/

theorem lt_calcTreeWidth {n height pos : Nat} :
    pos < calcTreeWidth n height ↔ pos * 2 ^ height < n := by
  have hpos : 0 < 2 ^ height := Nat.two_pow_pos height
  rw [calcTreeWidth, Nat.lt_iff_add_one_le, Nat.le_div_iff_mul_le hpos, Nat.add_mul]
  omega

theorem calcTreeWidth_succ (n height : Nat) :
    calcTreeWidth n (height + 1) = (calcTreeWidth n height + 1) / 2 :=
  width_succ n height

variable {α : Type}

theorem below_succ (l : List α) (height pos : Nat) :
    below l (height + 1) pos = below l height (pos * 2) ++ below l height (pos * 2 + 1) := by
  have hstart : pos * 2 ^ (height + 1) = pos * 2 * 2 ^ height := by ring
  have hright : (pos * 2 + 1) * 2 ^ height = pos * 2 * 2 ^ height + 2 ^ height := by ring
  rw [below, below, below, hstart, hright, ← drop_drop, Nat.pow_succ, Nat.mul_two, take_add]

theorem below_zero (l : List α) (pos : Nat) : below l 0 pos = l[pos]?.toList := by
  rw [below, Nat.pow_zero, Nat.mul_one, take_one, head?_drop]

variable {height pos : Nat}

theorem below_eq_nil {l : List α}
    (h : ¬pos < calcTreeWidth l.length height) : below l height pos = [] := by
  rw [lt_calcTreeWidth] at h
  rw [below, drop_eq_nil_of_le (Nat.le_of_not_lt h), take_nil]

theorem below_top (l : List α) : below l (Nat.clog 2 l.length) 0 = l := by
  rw [below, Nat.zero_mul, drop_zero]
  exact take_of_length_le (Nat.le_pow_clog (by omega) _)

section Nodes

variable {H : Type} [Zero H] {hash : H → H → H}

variable {vTxid : List H}

theorem calcHash_eq (hpos : pos < calcTreeWidth vTxid.length height) :
    (level hash height vTxid)[pos]? = some (calcHash hash vTxid height pos) := by
  induction height generalizing pos with
  | zero =>
    have hlt : pos < vTxid.length := by simpa [calcTreeWidth] using hpos
    rw [level, calcHash, getD_eq_getElem _ _ hlt, getElem?_eq_getElem hlt]
  | succ height ih =>
    rw [calcTreeWidth_succ] at hpos
    have hwidth : (level hash height vTxid).length = calcTreeWidth vTxid.length height :=
      length_level height vTxid
    rw [level_succ, getElem?_up, hwidth, Nat.mul_comm 2 pos, ih (by omega), calcHash]
    by_cases hright : pos * 2 + 1 < calcTreeWidth vTxid.length height
    · rw [show min (pos * 2 + 1) (calcTreeWidth vTxid.length height - 1) = pos * 2 + 1 by omega,
        ih hright, if_pos hright]
      rfl
    · rw [show min (pos * 2 + 1) (calcTreeWidth vTxid.length height - 1) = pos * 2 by omega,
        ih (by omega), if_neg hright]
      rfl

theorem calcHash_ne (hinj : PairInjective hash) (hnodup : vTxid.Nodup)
    (hright : pos + 1 < calcTreeWidth vTxid.length height) :
    calcHash hash vTxid height (pos + 1) ≠ calcHash hash vTxid height pos := by
  intro heq
  have hlength : pos + 1 < (level hash height vTxid).length := by
    rwa [length_level]
  refine nodup_iff_getElem?_ne_getElem?.mp (level_nodup hinj height hnodup) pos (pos + 1)
    (Nat.lt_succ_self pos) hlength ?_
  rw [calcHash_eq hright, calcHash_eq (Nat.lt_of_succ_lt hright), heq]

/-! ### The reading walk follows the writing one -/

def selected (l : List H) (mask : List Bool) : List H := ((l.zip mask).filter (·.2)).map (·.1)

section
omit [Zero H]

theorem selected_append_of_length_eq {l l' : List H} {mask mask' : List Bool}
    (h : l.length = mask.length) :
    selected (l ++ l') (mask ++ mask') = selected l mask ++ selected l' mask' := by
  rw [selected, zip_append h, filter_append, map_append]
  rfl

theorem selected_of_not_any {l : List H} {mask : List Bool} (h : mask.any id = false) :
    selected l mask = [] := by
  rw [selected, map_eq_nil_iff, filter_eq_nil_iff]
  intro entry hentry hset
  have hmem : entry.2 ∈ mask := (of_mem_zip (a := entry.1) (b := entry.2) hentry).2
  exact any_eq_false.mp h entry.2 hmem hset

theorem length_below_pos
    (hpos : pos < calcTreeWidth vTxid.length height) : 0 < (below vTxid height pos).length := by
  rw [lt_calcTreeWidth] at hpos
  have hpow := Nat.two_pow_pos height
  simp only [below, length_take, length_drop]
  omega

end

theorem length_traverseAndBuild (vMatch : List Bool)
    (hpos : pos < calcTreeWidth vTxid.length height) :
    (traverseAndBuild hash vTxid vMatch height pos).2.length ≤
        (traverseAndBuild hash vTxid vMatch height pos).1.length ∧
      (traverseAndBuild hash vTxid vMatch height pos).2.length ≤
        (below vTxid height pos).length := by
  induction height generalizing pos with
  | zero => exact ⟨Nat.le_refl 1, length_below_pos hpos⟩
  | succ height ih =>
    have hleaf := length_below_pos hpos
    rw [calcTreeWidth_succ] at hpos
    have hleft : pos * 2 < calcTreeWidth vTxid.length height := by omega
    obtain ⟨hbits, hbelow⟩ := ih hleft
    rw [below_succ, length_append] at hleaf ⊢
    by_cases hany : (below vMatch (height + 1) pos).any id = true
    · by_cases hright : pos * 2 + 1 < calcTreeWidth vTxid.length height
      · obtain ⟨hbits', hbelow'⟩ := ih hright
        simp only [traverseAndBuild, if_pos hany, if_pos hright, length_append, length_cons]
        omega
      · simp only [traverseAndBuild, if_pos hany, if_neg hright, length_cons]
        omega
    · simp only [traverseAndBuild, if_neg hany, length_singleton]
      omega

variable [DecidableEq H]

variable {t : CPartialMerkleTree H}

/-- **The reading walk follows the writing one**: it takes what was pushed, and finds the node's
hash and selected leaves. -/
theorem traverseAndExtract_build (hinj : PairInjective hash)
    {vMatch : List Bool} (hnodup : vTxid.Nodup) (hlength : vMatch.length = vTxid.length)
    (ht : t.nTransactions = vTxid.length)
    (hpos : pos < calcTreeWidth vTxid.length height) {preBits postBits : List Bool}
    {preHash postHash : List H} (matched : List H) (hbits : t.vBits =
      preBits ++ (traverseAndBuild hash vTxid vMatch height pos).1 ++ postBits) (hhash : t.vHash =
      preHash ++ (traverseAndBuild hash vTxid vMatch height pos).2 ++ postHash) :
    traverseAndExtract hash t height pos ⟨preBits.length, preHash.length, matched, false⟩ =
      (calcHash hash vTxid height pos,
        ⟨preBits.length + (traverseAndBuild hash vTxid vMatch height pos).1.length,
          preHash.length + (traverseAndBuild hash vTxid vMatch height pos).2.length,
          matched ++ selected (below vTxid height pos) (below vMatch height pos), false⟩) := by
  induction height generalizing pos preBits postBits preHash postHash matched with
  | zero =>
    have hlt : pos < vTxid.length := by simpa [calcTreeWidth] using hpos
    have hlt' : pos < vMatch.length := by omega
    simp only [traverseAndBuild, append_assoc, singleton_append] at hbits hhash
    have hbit : t.vBits[preBits.length]? = some ((below vMatch 0 pos).any id) := by
      simp [hbits]
    have hnode : t.vHash[preHash.length]? = some (calcHash hash vTxid 0 pos) := by
      simp [hhash]
    simp only [traverseAndExtract, hbit, takeHash, hnode, traverseAndBuild, below_zero,
      getElem?_eq_getElem hlt, getElem?_eq_getElem hlt', calcHash,
      getD_eq_getElem _ _ hlt, selected]
    cases vMatch[pos] <;> simp
  | succ height ih =>
    have hwidth := hpos
    rw [calcTreeWidth_succ] at hwidth
    have hleft : pos * 2 < calcTreeWidth vTxid.length height := by omega
    by_cases hany : (below vMatch (height + 1) pos).any id = true
    · have hsplit : selected (below vTxid (height + 1) pos) (below vMatch (height + 1) pos) =
          selected (below vTxid height (pos * 2)) (below vMatch height (pos * 2)) ++
            selected (below vTxid height (pos * 2 + 1)) (below vMatch height (pos * 2 + 1)) := by
        rw [below_succ, below_succ, selected_append_of_length_eq]
        simp [below, hlength]
      by_cases hright : pos * 2 + 1 < calcTreeWidth vTxid.length height
      · simp only [traverseAndBuild, if_pos hany, if_pos hright] at hbits hhash ⊢
        have hbit : t.vBits[preBits.length]? = some true := by simp [hbits]
        have hbitsLeft : t.vBits = preBits ++ [true] ++
            (traverseAndBuild hash vTxid vMatch height (pos * 2)).1 ++
            ((traverseAndBuild hash vTxid vMatch height (pos * 2 + 1)).1 ++ postBits) := by
          simp [hbits]
        have hhashLeft : t.vHash = preHash ++
            (traverseAndBuild hash vTxid vMatch height (pos * 2)).2 ++
            ((traverseAndBuild hash vTxid vMatch height (pos * 2 + 1)).2 ++ postHash) := by
          simp [hhash]
        have hwalkLeft := ih hleft matched hbitsLeft hhashLeft
        rw [← append_assoc] at hbitsLeft hhashLeft
        have hwalkRight := ih hright
          (matched ++ selected (below vTxid height (pos * 2)) (below vMatch height (pos * 2)))
          hbitsLeft hhashLeft
        simp only [length_append, length_singleton] at hwalkLeft hwalkRight
        have hne :=
          beq_false_of_ne (calcHash_ne hinj hnodup hright)
        simp only [traverseAndExtract, hbit, ht, if_pos hright, hwalkLeft, hwalkRight, hne,
          calcHash, hsplit, length_cons, length_append, append_assoc]
        congr 2
        · omega
        · omega
      · simp only [traverseAndBuild, if_pos hany, if_neg hright] at hbits hhash ⊢
        have hbit : t.vBits[preBits.length]? = some true := by simp [hbits]
        have hbitsLeft : t.vBits = preBits ++ [true] ++
            (traverseAndBuild hash vTxid vMatch height (pos * 2)).1 ++ postBits := by
          simp [hbits]
        have hwalkLeft := ih hleft matched hbitsLeft hhash
        have hnone : selected (below vTxid height (pos * 2 + 1))
            (below vMatch height (pos * 2 + 1)) = [] := by
          rw [below_eq_nil hright]
          rfl
        simp only [length_append, length_singleton] at hwalkLeft
        simp only [traverseAndExtract, hbit, ht, if_neg hright, hwalkLeft, calcHash, hsplit,
          hnone, length_cons, append_nil]
        congr 2
        omega
    · simp only [traverseAndBuild, if_neg hany] at hbits hhash ⊢
      have hbit : t.vBits[preBits.length]? = some false := by simp [hbits]
      have hnode : t.vHash[preHash.length]? = some (calcHash hash vTxid (height + 1) pos) := by
        simp [hhash]
      have hnone := selected_of_not_any (l := below vTxid (height + 1) pos) (eq_false_iff.mpr hany)
      simp [traverseAndExtract, hbit, takeHash, hnode, hnone]

variable {st : Extraction H}

omit [DecidableEq H] in
theorem takeHash_fBad {matched : Bool} (h : (takeHash t matched st).2.fBad = false) :
    st.fBad = false ∧ (takeHash t matched st).2.vMatch =
      st.vMatch ++ if matched then [(takeHash t matched st).1] else [] := by
  unfold takeHash at h ⊢
  cases hnode : t.vHash[st.nHashUsed]? with
  | none => simp [hnode] at h
  | some node =>
    simp only [hnode] at h ⊢
    refine ⟨h, ?_⟩
    cases matched <;> simp

theorem fBad_of_traverseAndExtract
    (h : (traverseAndExtract hash t height pos st).2.fBad = false) : st.fBad = false := by
  induction height generalizing pos st with
  | zero =>
    cases hbit : t.vBits[st.nBitsUsed]? with
    | none => simp [traverseAndExtract, hbit] at h
    | some bit =>
      simp only [traverseAndExtract, hbit] at h
      exact (takeHash_fBad h).1
  | succ height ih =>
    cases hbit : t.vBits[st.nBitsUsed]? with
    | none => simp [traverseAndExtract, hbit] at h
    | some bit =>
      cases bit with
      | false =>
        simp only [traverseAndExtract, hbit] at h
        exact (takeHash_fBad h).1
      | true =>
        simp only [traverseAndExtract, hbit] at h
        split at h
        · have hleft := ih (or_eq_false_iff.mp h).1
          have hstart := ih hleft
          exact hstart
        · have hstart := ih h
          exact hstart

/-- **A walk to a node's hash matched only leaves below it, in order**, on any input. -/
theorem traverseAndExtract_sublist (hinj : PairInjective hash)
    (ht : t.nTransactions = vTxid.length) (hpos : pos < calcTreeWidth vTxid.length height)
    (hgood : (traverseAndExtract hash t height pos st).2.fBad = false)
    (hnode : (traverseAndExtract hash t height pos st).1 = calcHash hash vTxid height pos) :
    ∃ found, (traverseAndExtract hash t height pos st).2.vMatch = st.vMatch ++ found ∧
      found.Sublist (below vTxid height pos) := by
  induction height generalizing pos st with
  | zero =>
    have hlt : pos < vTxid.length := by simpa [calcTreeWidth] using hpos
    cases hbit : t.vBits[st.nBitsUsed]? with
    | none => simp [traverseAndExtract, hbit] at hgood
    | some bit =>
      simp only [traverseAndExtract, hbit] at hgood hnode ⊢
      refine ⟨_, (takeHash_fBad hgood).2, ?_⟩
      rw [hnode, calcHash, getD_eq_getElem _ _ hlt, below_zero,
        getElem?_eq_getElem hlt]
      cases bit <;> simp
  | succ height ih =>
    have hwidth := hpos
    rw [calcTreeWidth_succ] at hwidth
    cases hbit : t.vBits[st.nBitsUsed]? with
    | none => simp [traverseAndExtract, hbit] at hgood
    | some bit =>
      cases bit with
      | false =>
        simp only [traverseAndExtract, hbit] at hgood ⊢
        exact ⟨[], (takeHash_fBad hgood).2, nil_sublist _⟩
      | true =>
        simp only [traverseAndExtract, hbit, calcHash, ht] at hgood hnode ⊢
        rw [below_succ]
        by_cases hright : pos * 2 + 1 < calcTreeWidth vTxid.length height
        · simp only [if_pos hright] at hgood hnode ⊢
          obtain ⟨hleftNode, hrightNode⟩ := hinj _ _ _ _ hnode
          have hrightGood := (or_eq_false_iff.mp hgood).1
          have hleftGood := fBad_of_traverseAndExtract hrightGood
          obtain ⟨found, hfound, hsub⟩ := ih (by omega) hleftGood hleftNode
          obtain ⟨found', hfound', hsub'⟩ := ih hright hrightGood hrightNode
          refine ⟨found ++ found', ?_, hsub.append hsub'⟩
          rw [hfound', hfound, append_assoc]
        · simp only [if_neg hright] at hgood hnode ⊢
          obtain ⟨found, hfound, hsub⟩ :=
            ih (by omega) hgood (hinj _ _ _ _ hnode).1
          exact ⟨found, hfound, hsub.trans (sublist_append_left _ _)⟩

/-! ### Extracting twice -/

omit [DecidableEq H] in
theorem takeHash_spoiled (t : CPartialMerkleTree H) (matched : Bool) (st : Extraction H) :
    takeHash { t with fBad := true } matched { st with fBad := true } =
      ((takeHash t matched st).1, { (takeHash t matched st).2 with fBad := true }) := by
  unfold takeHash
  cases t.vHash[st.nHashUsed]? with
  | none => rfl
  | some h => rfl

theorem traverseAndExtract_spoiled (t : CPartialMerkleTree H) (height pos : Nat)
    (st : Extraction H) :
    traverseAndExtract hash { t with fBad := true } height pos { st with fBad := true } =
      ((traverseAndExtract hash t height pos st).1,
        { (traverseAndExtract hash t height pos st).2 with fBad := true }) := by
  induction height generalizing pos st with
  | zero =>
    simp only [traverseAndExtract]
    cases t.vBits[st.nBitsUsed]? with
    | none => rfl
    | some bit => exact takeHash_spoiled t bit { st with nBitsUsed := st.nBitsUsed + 1 }
  | succ height ih =>
    simp only [traverseAndExtract]
    cases t.vBits[st.nBitsUsed]? with
    | none => rfl
    | some bit =>
      cases bit with
      | false => exact takeHash_spoiled t false { st with nBitsUsed := st.nBitsUsed + 1 }
      | true =>
        have hleft := ih (pos * 2) { st with nBitsUsed := st.nBitsUsed + 1 }
        simp only at hleft ⊢
        rw [hleft]
        split
        · rw [ih (pos * 2 + 1)]
          rfl
        · rfl

theorem extractMatches_spoiled (maxBlockSize : Nat) (t : CPartialMerkleTree H) :
    CPartialMerkleTree.extractMatches hash maxBlockSize { t with fBad := true } =
      ⟨0, (t.extractMatches hash maxBlockSize).vMatch, true⟩ := by
  have hwalk : traverseAndExtract hash { t with fBad := true } (treeHeight t.nTransactions) 0
      { fBad := true } = _ := traverseAndExtract_spoiled t _ 0 { fBad := t.fBad }
  unfold CPartialMerkleTree.extractMatches
  dsimp only
  rw [hwalk]
  split
  · rfl
  split
  · rfl
  split
  · rfl
  split
  · rfl
  rw [if_pos rfl]
  split
  · rfl
  split
  · rfl
  split <;> rfl

variable {maxBlockSize : Nat}

theorem root_of_fBad (h : (t.extractMatches hash maxBlockSize).fBad = true) :
    (t.extractMatches hash maxBlockSize).root = 0 := by
  unfold CPartialMerkleTree.extractMatches at h ⊢
  dsimp only at h ⊢
  split
  · rfl
  split
  · rfl
  split
  · rfl
  split
  · rfl
  split
  · rfl
  split
  · rfl
  split
  · rfl
  simp_all

theorem extractMatches_again (maxBlockSize : Nat) (t : CPartialMerkleTree H) :
    let first := t.extractMatches hash maxBlockSize
    let second := CPartialMerkleTree.extractMatches hash maxBlockSize { t with fBad := first.fBad }
    second.root = first.root ∧ second.vMatch = first.vMatch := by
  dsimp only
  cases hbad : (t.extractMatches hash maxBlockSize).fBad with
  | true =>
    rw [extractMatches_spoiled]
    exact ⟨(root_of_fBad hbad).symm, rfl⟩
  | false =>
    have hgood : t.fBad = false := by
      rw [← not_eq_true]
      intro htrue
      have hself : t = { t with fBad := true } := by rw [← htrue]
      rw [hself, extractMatches_spoiled] at hbad
      cases hbad
    rw [← hgood]
    exact ⟨rfl, rfl⟩

/-! ### Whole trees -/

theorem extractMatches_root_ne (h : (t.extractMatches hash maxBlockSize).root ≠ 0) :
    let walk := traverseAndExtract hash t (treeHeight t.nTransactions) 0 { fBad := t.fBad }
    walk.2.fBad = false ∧ t.extractMatches hash maxBlockSize = ⟨walk.1, walk.2.vMatch, false⟩ := by
  unfold CPartialMerkleTree.extractMatches at h ⊢
  by_cases hnone : t.nTransactions = 0
  · simp [hnone] at h
  by_cases hmany : maxBlockSize / 60 < t.nTransactions
  · simp [hnone, hmany] at h
  by_cases hhashes : t.nTransactions < t.vHash.length
  · simp [hnone, hmany, hhashes] at h
  by_cases hbits : t.vBits.length < t.vHash.length
  · simp [hnone, hmany, hhashes, hbits] at h
  simp only [if_neg hnone, if_neg hmany, if_neg hhashes, if_neg hbits] at h ⊢
  split at h
  · exact absurd rfl h
  · next hgood =>
      split at h
      · exact absurd rfl h
      · next hused =>
          split at h
          · exact absurd rfl h
          · next hall =>
              rw [if_neg hgood, if_neg hused, if_neg hall]
              exact ⟨eq_false_iff.mpr hgood, rfl⟩

theorem extractMatches_of_walk {root : H}
    {vMatch : List H} (hsome : t.nTransactions ≠ 0) (hmax : t.nTransactions ≤ maxBlockSize / 60)
    (hhashes : t.vHash.length ≤ t.nTransactions) (hbits : t.vHash.length ≤ t.vBits.length)
    (hwalk : traverseAndExtract hash t (treeHeight t.nTransactions) 0 { fBad := t.fBad } =
      (root, ⟨t.vBits.length, t.vHash.length, vMatch, false⟩)) :
    t.extractMatches hash maxBlockSize = ⟨root, vMatch, false⟩ := by
  rw [CPartialMerkleTree.extractMatches, hwalk, if_neg hsome, if_neg (Nat.not_lt.mpr hmax),
    if_neg (Nat.not_lt.mpr hhashes), if_neg (Nat.not_lt.mpr hbits)]
  simp

theorem calcHash_top (hne : vTxid ≠ []) :
    0 < calcTreeWidth vTxid.length (treeHeight vTxid.length) ∧
      calcHash hash vTxid (treeHeight vTxid.length) 0 = (buildMerkleTree hash vTxid).root := by
  have hpos : 0 < calcTreeWidth vTxid.length (treeHeight vTxid.length) := by
    rw [lt_calcTreeWidth, Nat.zero_mul]
    exact length_pos_iff.mpr hne
  have hnode : (level hash (treeHeight vTxid.length) vTxid)[0]? = some _ := calcHash_eq hpos
  rw [treeHeight_eq, level_root hne, ← treeHeight_eq] at hnode
  exact ⟨hpos, (Option.some.inj hnode).symm⟩

theorem traverseAndExtract_ofMatch (hinj : PairInjective hash)
    {vMatch : List Bool} (hne : vTxid ≠ []) (hnodup : vTxid.Nodup)
    (hlength : vMatch.length = vTxid.length)
    (ht : t = CPartialMerkleTree.ofMatch hash vTxid vMatch) :
    traverseAndExtract hash t (treeHeight t.nTransactions) 0 { fBad := t.fBad } =
      ((buildMerkleTree hash vTxid).root,
        ⟨t.vBits.length, t.vHash.length, selected vTxid vMatch, false⟩) := by
  obtain ⟨hpos, hroot⟩ := calcHash_top hne
  have hbits : t.vBits = [] ++
      (traverseAndBuild hash vTxid vMatch (treeHeight vTxid.length) 0).1 ++ [] := by
    simp [ht, CPartialMerkleTree.ofMatch]
  have hhash : t.vHash = [] ++
      (traverseAndBuild hash vTxid vMatch (treeHeight vTxid.length) 0).2 ++ [] := by
    simp [ht, CPartialMerkleTree.ofMatch]
  have hcount : t.nTransactions = vTxid.length := by rw [ht]; rfl
  have hgood : t.fBad = false := by rw [ht]; rfl
  have hwalk := traverseAndExtract_build hinj hnodup hlength hcount hpos [] hbits hhash
  have hmatch : below vMatch (Nat.clog 2 vTxid.length) 0 = vMatch := by
    rw [← hlength, below_top]
  rw [hroot, treeHeight_eq, below_top, hmatch, ← treeHeight_eq] at hwalk
  rw [hcount, hgood]
  simpa [hbits, hhash] using hwalk

/-- **A built tree gives back root and matches; and a root that is not null comes with a
subsequence of its leaves.** -/
theorem partialMerkleTree_complete_sound (hinj : PairInjective hash) {vTxid : List H}
    (hne : vTxid ≠ []) (hnodup : vTxid.Nodup) :
    (∀ maxBlockSize vMatch, vTxid.length ≤ maxBlockSize / 60 → vMatch.length = vTxid.length →
      ((CPartialMerkleTree.ofMatch hash vTxid vMatch).extractMatches hash maxBlockSize).root =
          (buildMerkleTree hash vTxid).root ∧
        ((CPartialMerkleTree.ofMatch hash vTxid vMatch).extractMatches hash
          maxBlockSize).vMatch = selected vTxid vMatch) ∧
    ((buildMerkleTree hash vTxid).root ≠ 0 →
      ∀ maxBlockSize (t : CPartialMerkleTree H), t.nTransactions = vTxid.length →
        (t.extractMatches hash maxBlockSize).root = (buildMerkleTree hash vTxid).root →
        (t.extractMatches hash maxBlockSize).vMatch.Sublist vTxid) := by
  refine ⟨?_, ?_⟩
  · intro maxBlockSize vMatch hmax hlength
    obtain ⟨hpos, -⟩ : _ ∧ _ = (buildMerkleTree hash vTxid).root := calcHash_top hne
    obtain ⟨hbits, hleaves⟩ : _ ∧ (traverseAndBuild hash vTxid vMatch _ 0).2.length ≤ _ :=
      length_traverseAndBuild vMatch hpos
    rw [treeHeight_eq, below_top, ← treeHeight_eq] at hleaves
    have hresult := extractMatches_of_walk
      (fun hzero => hne (length_eq_zero_iff.mp hzero)) hmax hleaves hbits
      (traverseAndExtract_ofMatch hinj hne hnodup hlength rfl)
    rw [hresult]
    exact ⟨rfl, rfl⟩
  · intro hnull maxBlockSize t ht heq
    obtain ⟨hpos, hroot⟩ : _ ∧ _ = (buildMerkleTree hash vTxid).root := calcHash_top hne
    obtain ⟨hgood, hresult⟩ := extractMatches_root_ne (heq ▸ hnull)
    rw [hresult] at heq ⊢
    rw [ht] at hgood heq ⊢
    obtain ⟨found, hfound, hsub⟩ := traverseAndExtract_sublist hinj ht hpos hgood
      (heq.trans hroot.symm)
    rw [treeHeight_eq, below_top] at hsub
    rwa [hfound]

end Nodes

/-- A tree that matches two of three leaves; and another with the same root, whose match is one of
them. -/
theorem partialMerkleTree_complete_sound_three :
    ((CPartialMerkleTree.ofMatch FreeHash.pair [.leaf 1, .leaf 2, .leaf 3]
        [true, false, true]).extractMatches FreeHash.pair 4000000).vMatch =
      [.leaf 1, .leaf 3] ∧
    ((CPartialMerkleTree.extractMatches FreeHash.pair 4000000
      ⟨3, [true, false, true, true], [.pair (.leaf 1) (.leaf 2), .leaf 3], false⟩).vMatch).Sublist
        [.leaf 1, .leaf 2, .leaf 3] := by
  obtain ⟨hcomplete, hsound⟩ := partialMerkleTree_complete_sound FreeHash.pair_injective
    (show [FreeHash.leaf 1, .leaf 2, .leaf 3] ≠ [] by decide) (by decide)
  refine ⟨(hcomplete 4000000 [true, false, true] (by decide) rfl).2, ?_⟩
  exact hsound (by decide) 4000000 _ rfl (by decide)

/-- A tree with bits left over fails, but its matches stay, and the failure looks like the root of
one null hash. -/
theorem failure_matches_null_root : (CPartialMerkleTree.extractMatches FreeHash.pair 4000000
        ⟨1, true :: replicate 8 false, [.leaf 7], false⟩).root =
        (buildMerkleTree FreeHash.pair [FreeHash.null]).root ∧
      (CPartialMerkleTree.extractMatches FreeHash.pair 4000000
        ⟨1, true :: replicate 8 false, [.leaf 7], false⟩).vMatch = [.leaf 7] ∧
      ¬[FreeHash.leaf 7].Sublist [.null] ∧ PairInjective FreeHash.pair :=
  ⟨by decide, by decide, by decide, FreeHash.pair_injective⟩

end Elosys
