import Mathlib.Tactic.Common
import Mathlib.Data.UInt

/-!
# Reading Back What Was Written

Byte formats as a writer and a reader that takes a value off the front of a byte string. `Reads r
bs a`: the reader `r` takes exactly `bs` and gives `a`, whatever follows. It composes along the
steps of a reader.
-/

open List Except Prod

namespace ByteCodec

/-- Why a reader gives up: the bytes end, a count is longer than needed or too large, or a value
fails a check. -/
inductive ReadError where
  | endOfInput
  | endOfSkip
  | nonCanonical
  | tooLarge
  | invalid (what : String)
  deriving DecidableEq, Repr

/-- A reader takes a value off the front of a byte string. -/
abbrev Reader (α : Type) := StateT (List UInt8) (Except ReadError) α

/-- The reader takes exactly these bytes and gives this value. -/
def Reads {α : Type} (r : Reader α) (bs : List UInt8) (a : α) : Prop :=
  ∀ rest, r.run (bs ++ rest) = .ok (a, rest)

variable {α β : Type} {r : Reader α} {bs bs' : List UInt8} {a : α} {b : β}

/-! ### The steps of a reader -/

theorem Reads.pure (a : α) : Reads (Pure.pure a) [] a := fun _ => rfl

variable {f : α → Reader β}

theorem Reads.bind (hr : Reads r bs a) (hf : Reads (f a) bs' b) :
    Reads (r >>= f) (bs ++ bs') b := by
  intro rest
  rw [StateT.run_bind, append_assoc, hr]
  exact hf rest

theorem Reads.bind_pure (hr : Reads r bs a) (hf : f a = Pure.pure b) : Reads (r >>= f) bs b := by
  have h := hr.bind (hf ▸ Reads.pure b)
  rwa [append_nil] at h

theorem Reads.ite {p : Prop} [Decidable p] {r' : Reader α} (ht : p → Reads r bs a)
    (he : ¬p → Reads r' bs' a) : Reads (if p then r else r') (if p then bs else bs') a := by
  by_cases hp : p
  · simpa [hp] using ht hp
  · simpa [hp] using he hp

theorem run_bind_eq_ok {s rest : List UInt8} : (r >>= f).run s = .ok (b, rest) ↔
      ∃ a mid, r.run s = .ok (a, mid) ∧ (f a).run mid = .ok (b, rest) := by
  rw [StateT.run_bind]
  cases hr : r.run s with
  | error e => exact ⟨nofun, fun ⟨a, mid, h, _⟩ => nomatch h⟩
  | ok p =>
    constructor
    · intro h
      exact ⟨p.1, p.2, rfl, h⟩
    · rintro ⟨a, mid, h, hf⟩
      obtain rfl := ok.inj h
      exact hf

/-- The reader takes nothing but the bytes written for a value. -/
def Exact (r : Reader α) (write : α → List UInt8) : Prop :=
  ∀ {s a rest}, r.run s = .ok (a, rest) ↔ s = write a ++ rest

variable {write : α → List UInt8}

theorem Exact.reads (h : Exact r write) (a : α) : Reads r (write a) a :=
  fun _ => h.mpr rfl

/-! ### Raw bytes -/

def bytes (n : Nat) : Reader (List UInt8) := fun bs =>
  if n ≤ bs.length then .ok (bs.take n, bs.drop n) else .error .endOfInput

def skip (n : Nat) : Reader Unit := fun bs =>
  if n ≤ bs.length then .ok ((), bs.drop n) else .error .endOfSkip

theorem reads_bytes (bs : List UInt8) : Reads (bytes bs.length) bs bs := by
  intro rest
  simp [bytes, StateT.run]

theorem reads_skip (bs : List UInt8) : Reads (skip bs.length) bs () := by
  intro rest
  simp [skip, StateT.run]

theorem run_bytes {n : Nat} {s rest : List UInt8} :
    (bytes n).run s = .ok (bs, rest) ↔ bs.length = n ∧ s = bs ++ rest := by
  constructor
  · intro h
    by_cases hn : n ≤ s.length
    · have hrun : (bytes n).run s = .ok (s.take n, s.drop n) := if_pos hn
      obtain ⟨rfl, rfl⟩ := mk.inj (ok.inj (hrun.symm.trans h))
      exact ⟨by simpa using hn, (take_append_drop n s).symm⟩
    · have hrun : (bytes n).run s = .error .endOfInput := if_neg hn
      rw [hrun] at h
      cases h
  · rintro ⟨rfl, rfl⟩
    exact reads_bytes bs rest

/-! ### Little-endian integers -/

def leBytes : Nat → Nat → List UInt8
  | 0, _ => []
  | k + 1, n => UInt8.ofNat n :: leBytes k (n / 256)

/-- The number with the given bytes, the lowest first. -/
def ofLeBytes : List UInt8 → Nat
  | [] => 0
  | b :: bs => b.toNat + 256 * ofLeBytes bs

def leInt (k : Nat) : Reader Nat := do
  let bs ← bytes k
  return ofLeBytes bs

@[simp] theorem length_leBytes (k n : Nat) : (leBytes k n).length = k := by
  induction k generalizing n with
  | zero => rfl
  | succ k ih => simp [leBytes, ih]

theorem ofLeBytes_leBytes {k n : Nat} (h : n < 256 ^ k) : ofLeBytes (leBytes k n) = n := by
  induction k generalizing n with
  | zero =>
    simp only [Nat.pow_zero, Nat.lt_one_iff] at h
    exact h.symm
  | succ k ih =>
    have hdiv : n / 256 < 256 ^ k := by
      omega
    rw [leBytes, ofLeBytes, ih hdiv, UInt8.toNat_ofNat']
    omega

theorem ofLeBytes_lt (bs : List UInt8) : ofLeBytes bs < 256 ^ bs.length := by
  induction bs with
  | nil => exact Nat.one_pos
  | cons b bs ih =>
    have hb := b.toNat_lt
    rw [ofLeBytes, length_cons, Nat.pow_succ]
    omega

theorem leBytes_ofLeBytes (bs : List UInt8) : leBytes bs.length (ofLeBytes bs) = bs := by
  induction bs with
  | nil => rfl
  | cons b bs ih =>
    have hlt := b.toNat_lt
    have hlow : UInt8.ofNat (b.toNat + 256 * ofLeBytes bs) = b := by
      rw [← UInt8.toNat_inj, UInt8.toNat_ofNat']
      omega
    have hhigh : (b.toNat + 256 * ofLeBytes bs) / 256 = ofLeBytes bs := by omega
    rw [length_cons, leBytes, ofLeBytes, hlow, hhigh, ih]

theorem reads_leInt {k n : Nat} (h : n < 256 ^ k) : Reads (leInt k) (leBytes k n) n := by
  have hread := reads_bytes (leBytes k n)
  rw [length_leBytes] at hread
  exact hread.bind_pure (by rw [ofLeBytes_leBytes h])

theorem exact_leInt {k : Nat} {toNat : α → Nat} {ofNat : Nat → α}
    (hlt : ∀ a, toNat a < 256 ^ k) (hof : ∀ a, ofNat (toNat a) = a)
    (hto : ∀ n < 256 ^ k, toNat (ofNat n) = n) :
    Exact (do return ofNat (← leInt k)) fun a => leBytes k (toNat a) := by
  intro s a rest
  constructor
  · intro h
    obtain ⟨n, mid, hn, ha⟩ := run_bind_eq_ok.mp h
    obtain ⟨bs, mid', hbs, hn⟩ := run_bind_eq_ok.mp hn
    obtain ⟨rfl, rfl⟩ := mk.inj (ok.inj ha)
    obtain ⟨rfl, rfl⟩ := mk.inj (ok.inj hn)
    obtain ⟨rfl, hs⟩ := run_bytes.mp hbs
    change s = leBytes bs.length (toNat (ofNat (ofLeBytes bs))) ++ mid'
    rw [hto _ (ofLeBytes_lt bs), leBytes_ofLeBytes, hs]
  · rintro rfl
    exact (reads_leInt (hlt a)).bind_pure (by rw [hof]) rest

/-! ### Base-128 integers -/

/-- Base-128 digits, most significant first; all but the last marked and less one. -/
def varInt (last : Bool) (n : Nat) : List UInt8 :=
  (if n ≤ 127 then [] else varInt false (n / 128 - 1)) ++
    [UInt8.ofNat (n % 128 + if last then 0 else 128)]
termination_by n
decreasing_by omega

/-- Read on base-128 digits into a word of some bits. -/
def readVarIntFrom (w : Nat) : Nat → List UInt8 → Except ReadError (Nat × List UInt8)
  | _, [] => .error .endOfInput
  | n, b :: bs =>
    let n := (n * 128 + b.toNat % 128) % 2 ^ w
    if 128 ≤ b.toNat then readVarIntFrom w ((n + 1) % 2 ^ w) bs else .ok (n, bs)

/-- Take a base-128 integer into a word of some bits. -/
def readVarInt (w : Nat) : Reader Nat := readVarIntFrom w 0

theorem readVarIntFrom_digit {w n : Nat} (last : Bool) (rest : List UInt8) (h : n < 2 ^ w) :
    readVarIntFrom w (n / 128) (UInt8.ofNat (n % 128 + if last then 0 else 128) :: rest)
      = if last then .ok (n, rest) else readVarIntFrom w ((n + 1) % 2 ^ w) rest := by
  have hdigit : n / 128 * 128 + n % 128 = n := by omega
  cases last with
  | true =>
    have hb : (UInt8.ofNat (n % 128 + 0)).toNat = n % 128 := by
      rw [UInt8.toNat_ofNat']
      omega
    simp only [if_true, readVarIntFrom, hb, Nat.mod_mod, hdigit, Nat.mod_eq_of_lt h]
    rw [if_neg (by omega)]
  | false =>
    have hb : (UInt8.ofNat (n % 128 + 128)).toNat = n % 128 + 128 := by
      rw [UInt8.toNat_ofNat']
      omega
    have hmod : (n % 128 + 128) % 128 = n % 128 := by omega
    simp only [Bool.false_eq_true, if_false, readVarIntFrom, hb, hmod, hdigit, Nat.mod_eq_of_lt h]
    rw [if_pos (by omega)]

theorem readVarIntFrom_varInt {w : Nat} (last : Bool) (n : Nat) (rest : List UInt8)
    (h : n < 2 ^ w) :
    readVarIntFrom w 0 (varInt last n ++ rest)
      = if last then .ok (n, rest) else readVarIntFrom w ((n + 1) % 2 ^ w) rest := by
  induction n using Nat.strongRecOn generalizing last rest with
  | ind n ih =>
    rw [varInt, append_assoc, singleton_append]
    by_cases hn : n ≤ 127
    · have hzero : n / 128 = 0 := by omega
      rw [if_pos hn, nil_append, ← readVarIntFrom_digit last rest h, hzero]
    · have hhigh : n / 128 < 2 ^ w := by omega
      have hsucc : n / 128 - 1 + 1 = n / 128 := by omega
      rw [if_neg hn, ih (n / 128 - 1) (by omega) false _ (by omega), hsucc,
        Nat.mod_eq_of_lt hhigh, ← readVarIntFrom_digit last rest h]
      rfl

theorem reads_varInt {w n : Nat} (h : n < 2 ^ w) : Reads (readVarInt w) (varInt true n) n :=
  fun rest => readVarIntFrom_varInt true n rest h

/-! ### Counts -/

/-- A count, in one byte or behind a width marker. -/
def compactSize (n : Nat) : List UInt8 :=
  if n < 253 then leBytes 1 n
  else if n ≤ 0xFFFF then leBytes 1 253 ++ leBytes 2 n
  else if n ≤ 0xFFFFFFFF then leBytes 1 254 ++ leBytes 4 n
  else leBytes 1 255 ++ leBytes 8 n

/-- Take an integer that needs the width it was given. -/
def canonicalInt (k least : Nat) : Reader Nat := do
  let n ← leInt k
  if n < least then throw .nonCanonical else return n

def compactSizeTail (marker : Nat) : Reader Nat :=
  if marker < 253 then pure marker
  else if marker = 253 then canonicalInt 2 253
  else if marker = 254 then canonicalInt 4 0x10000
  else canonicalInt 8 0x100000000

def readCompactSize (maxSize : Nat) : Reader Nat := do
  let marker ← leInt 1
  let n ← compactSizeTail marker
  if maxSize < n then throw .tooLarge else return n

theorem reads_canonicalInt {k least n : Nat} (hlo : least ≤ n) (hhi : n < 256 ^ k) :
    Reads (canonicalInt k least) (leBytes k n) n :=
  (reads_leInt hhi).bind_pure (if_neg (by omega))

theorem reads_compactSize {maxSize n : Nat} (hn : n ≤ maxSize) (h64 : n < 2 ^ 64) :
    Reads (readCompactSize maxSize) (compactSize n) n := by
  have hmarked : ∀ {marker : Nat} {tail : List UInt8}, marker < 256 →
      Reads (compactSizeTail marker) tail n →
      Reads (readCompactSize maxSize) (leBytes 1 marker ++ tail) n := by
    intro marker tail hm htail
    exact (reads_leInt (by omega)).bind (htail.bind_pure (if_neg (by omega)))
  unfold compactSize
  split
  · next h =>
      have htail : Reads (compactSizeTail n) [] n := by
        rw [compactSizeTail, if_pos h]
        exact Reads.pure n
      simpa using hmarked (by omega) htail
  · split
    · exact hmarked (by omega) (reads_canonicalInt (k := 2) (by omega) (by omega))
    · split
      · exact hmarked (by omega) (reads_canonicalInt (k := 4) (by omega) (by omega))
      · exact hmarked (by omega) (reads_canonicalInt (k := 8) (by omega) (by omega))

/-! ### Vectors -/

def vector (write : α → List UInt8) (xs : List α) : List UInt8 :=
  compactSize xs.length ++ xs.flatMap write

def readTimes (r : Reader α) : Nat → Reader (List α)
  | 0 => pure []
  | n + 1 => do
    let a ← r
    let rest ← readTimes r n
    return a :: rest

def readVector (maxSize : Nat) (r : Reader α) : Reader (List α) := do
  let n ← readCompactSize maxSize
  readTimes r n

theorem reads_times {xs : List α} (h : ∀ x ∈ xs, Reads r (write x) x) :
    Reads (readTimes r xs.length) (xs.flatMap write) xs := by
  induction xs with
  | nil => exact Reads.pure []
  | cons x xs ih =>
    obtain ⟨hx, hxs⟩ := forall_mem_cons.mp h
    exact hx.bind ((ih hxs).bind_pure rfl)

theorem reads_vector {maxSize : Nat} {xs : List α}
    (hlen : xs.length ≤ maxSize) (hmax : maxSize < 2 ^ 64) (h : ∀ x ∈ xs, Reads r (write x) x) :
    Reads (readVector maxSize r) (vector write xs) xs :=
  (reads_compactSize hlen (by omega)).bind (reads_times h)

/-- A byte for presence, and then the value. -/
def optional (write : α → List UInt8) : Option α → List UInt8
  | some a => leBytes 1 1 ++ write a
  | none => leBytes 1 0

/-- What the first byte of an optional value announces. -/
def optionalTail (r : Reader α) (discriminant : Nat) : Reader (Option α) :=
  if discriminant = 0 then pure none
  else if discriminant = 1 then do
    let a ← r
    return some a
  else throw (.invalid "non-canonical optional discriminant")

def readOptional (r : Reader α) : Reader (Option α) := do
  let discriminant ← leInt 1
  optionalTail r discriminant

theorem reads_optional {o : Option α}
    (h : ∀ a ∈ o, Reads r (write a) a) : Reads (readOptional r) (optional write o) o := by
  cases o with
  | none => exact (reads_leInt (by omega)).bind_pure rfl
  | some a =>
    have htail : Reads (optionalTail r 1) (write a) (some a) := (h a rfl).bind_pure rfl
    exact (reads_leInt (by omega)).bind htail

/-! ### Bit masks -/

def maskByte (f : Nat → Bool) : UInt8 :=
  (range 8).foldl (fun ch i => if f i then ch ||| (1 <<< UInt8.ofNat i) else ch) 0

def bits (ch : UInt8) : List Bool :=
  (range 8).map fun p => (ch &&& (1 <<< UInt8.ofNat p)) != 0

theorem bits_maskByte (f : Nat → Bool) : bits (maskByte f) = (range 8).map f := by
  have hall : ∀ b₀ b₁ b₂ b₃ b₄ b₅ b₆ b₇ : Bool,
      bits (maskByte fun i => [b₀, b₁, b₂, b₃, b₄, b₅, b₆, b₇].getD i false)
        = [b₀, b₁, b₂, b₃, b₄, b₅, b₆, b₇] := by
    decide +kernel
  exact hall (f 0) (f 1) (f 2) (f 3) (f 4) (f 5) (f 6) (f 7)

theorem maskByte_eq_zero {f : Nat → Bool} : maskByte f = 0 ↔ ∀ i < 8, f i = false := by
  constructor
  · intro h i hi
    have hzero : bits 0 = replicate 8 false := by decide
    have hmem : f i ∈ (range 8).map f := mem_map_of_mem (mem_range.mpr hi)
    rw [← bits_maskByte, h, hzero] at hmem
    exact eq_of_mem_replicate hmem
  · intro h
    have hkeep : ∀ (l : List Nat) (ch : UInt8), (∀ i ∈ l, i < 8) →
        l.foldl (fun ch i => if f i then ch ||| (1 <<< UInt8.ofNat i) else ch) ch = ch := by
      intro l ch hl
      induction l with
      | nil => rfl
      | cons i l ih =>
        obtain ⟨hi, hl⟩ := forall_mem_cons.mp hl
        simp [h i hi, ih hl]
    exact hkeep _ _ fun i hi => mem_range.mp hi

/-- Read mask bytes until so many are nonzero. -/
def readMaskFrom : Nat → List UInt8 → Except ReadError (List Bool × List UInt8)
  | 0, bs => .ok ([], bs)
  | _ + 1, [] => .error .endOfInput
  | n + 1, ch :: bs =>
    (readMaskFrom (if ch ≠ 0 then n else n + 1) bs).map fun p => (bits ch ++ p.1, p.2)

def readMask (n : Nat) : Reader (List Bool) := readMaskFrom n

theorem reads_mask {ms : List UInt8} (hlast : ms.getLast? ≠ some 0) :
    Reads (readMask (ms.countP (· ≠ 0))) ms (ms.flatMap bits) := by
  intro rest
  change readMaskFrom _ (ms ++ rest) = _
  induction ms with
  | nil => simp [readMaskFrom]
  | cons ch ms ih =>
    have hrest : ms.getLast? ≠ some 0 := by
      intro h
      refine hlast ?_
      rw [getLast?_cons, h]
      rfl
    by_cases hch : ch = 0
    · -- a zero byte is not the last one, so a nonzero one is still to come
      subst hch
      obtain ⟨k, hk⟩ : ∃ k, ms.countP (· ≠ 0) = k + 1 := by
        refine Nat.exists_eq_succ_of_ne_zero fun hzero => ?_
        cases hms : ms.getLast? with
        | none => exact hlast (by rw [getLast?_cons, hms]; rfl)
        | some x =>
          have hx : x = 0 := by
            simpa using countP_eq_zero.mp hzero x (mem_of_getLast? hms)
          exact hrest (hx ▸ hms)
      have hcount : List.countP (· ≠ 0) ((0 : UInt8) :: ms) = k + 1 := by
        rw [countP_cons_of_neg (by simp), hk]
      have hread := ih hrest
      rw [hk] at hread
      rw [hcount, cons_append, readMaskFrom, if_neg (by simp), hread]
      rfl
    · rw [countP_cons_of_pos (by simpa using hch), cons_append, readMaskFrom, if_pos hch, ih hrest]
      rfl

/-- Of the first `n` indices, one past the last used, and how many are. -/
def usedIndices (used : Nat → Bool) (n : Nat) : Nat × Nat :=
  (range n).foldl (fun p b => if used b then (b + 1, p.2 + 1) else p) (0, 0)

theorem usedIndices_spec (used : Nat → Bool) (n : Nat) :
    (∀ b < n, used b = true → b < (usedIndices used n).1) ∧
      ((usedIndices used n).1 = 0 ∨ used ((usedIndices used n).1 - 1) = true) ∧
      (usedIndices used n).2 = (range n).countP used ∧
      (usedIndices used n).2 = (range (usedIndices used n).1).countP used := by
  induction n with
  | zero => simp [usedIndices]
  | succ n ih =>
    obtain ⟨hlast, hend, hcount, hprefix⟩ := ih
    have hstep : usedIndices used (n + 1) = if used n then (n + 1, (usedIndices used n).2 + 1)
        else usedIndices used n := by
      rw [usedIndices, range_succ, foldl_append]
      rfl
    cases hn : used n with
    | true =>
      rw [hstep, hn]
      refine ⟨fun b hb _ => hb, .inr (by simpa using hn), ?_, ?_⟩
      · simp [range_succ, hcount, hn]
      · simp [range_succ, hcount, hn]
    | false =>
      rw [hstep, hn]
      refine ⟨fun b hb hused => hlast b ?_ hused, hend, ?_, hprefix⟩
      · have hne : b ≠ n := by
          rintro rfl
          rw [hn] at hused
          exact absurd hused (by simp)
        omega
      · simp [range_succ, hcount, hn]

end ByteCodec
