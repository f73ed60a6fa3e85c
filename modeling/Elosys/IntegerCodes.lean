import Elosys.UndoCodec

/-!
# Integer Codes

`WriteVarInt`, `ReadVarInt`, `WriteCompactSize` and `ReadCompactSize` of `serialize.h`. The writer
of a variable-length integer collects the digits, the last first, in a buffer whose size is
computed from that of the type; the reader computes in the type, and wraps around.
-/

open List Except Prod

namespace Elosys

open ByteCodec

/-- The loop of `WriteVarInt`. `tmp` has room for `room` more bytes, and none is written behind
it. -/
def fillTmp : Nat → List UInt8 → Nat → Option (List UInt8)
  | 0, _, _ => none
  | room + 1, tmp, n =>
    let tmp := UInt8.ofNat (n % 128 + if tmp.isEmpty then 0 else 128) :: tmp
    if n ≤ 0x7F then some tmp else fillTmp room tmp (n / 128 - 1)

/-- `WriteVarInt` for a type of `bytes` bytes. -/
def writeVarInt (bytes n : Nat) : Option (List UInt8) := fillTmp ((bytes * 8 + 6) / 7) [] n

/-- Reading into a word of `w` bits does not exceed its range, from a value on. -/
def InRange (w : Nat) : Nat → List UInt8 → Prop
  | _, [] => True
  | n, b :: bs =>
    n * 128 + b.toNat % 128 < 2 ^ w ∧
      (128 ≤ b.toNat → n * 128 + b.toNat % 128 + 1 < 2 ^ w ∧
        InRange w (n * 128 + b.toNat % 128 + 1) bs)

theorem fillTmp_eq (room : Nat) (tmp : List UInt8) {n : Nat} (h : n < 128 ^ (room + 1)) :
    fillTmp (room + 1) tmp n = some (varInt tmp.isEmpty n ++ tmp) := by
  induction room generalizing tmp n with
  | zero =>
    have hn : n ≤ 127 := by omega
    rw [fillTmp, varInt, if_pos hn, if_pos hn]
    rfl
  | succ room ih =>
    rw [fillTmp, varInt]
    split
    · rfl
    · rw [Nat.pow_succ] at h
      rw [ih _ (by omega), append_assoc]
      rfl

theorem writeVarInt_eq (k : Nat) {n : Nat} (h : n < 2 ^ ((k + 1) * 8)) :
    writeVarInt (k + 1) n = some (varInt true n) := by
  obtain ⟨room, hroom⟩ : ∃ room, ((k + 1) * 8 + 6) / 7 = room + 1 :=
    ⟨((k + 1) * 8 + 6) / 7 - 1, by omega⟩
  have hlt : n < 128 ^ (room + 1) := calc
    n < 2 ^ ((k + 1) * 8) := h
    _ ≤ 2 ^ (7 * (room + 1)) := Nat.pow_le_pow_right (by decide) (by omega)
    _ = 128 ^ (room + 1) := Nat.pow_mul 2 7 _
  rw [writeVarInt, hroom, fillTmp_eq room [] hlt, append_nil]
  rfl

/-! ### Reading -/

/-- The digits that have led to a value. -/
def digitsTo (n : Nat) : List UInt8 := if n = 0 then [] else varInt false (n - 1)

theorem varInt_digit (n : Nat) (b : UInt8) :
    varInt (decide (b.toNat < 128)) (n * 128 + b.toNat % 128) = digitsTo n ++ [b] := by
  have hb := b.toNat_lt
  have hdiv : (n * 128 + b.toNat % 128) / 128 = n := by omega
  have hdigit : UInt8.ofNat ((n * 128 + b.toNat % 128) % 128 +
      if decide (b.toNat < 128) = true then 0 else 128) = b := by
    rw [← UInt8.toNat_inj, UInt8.toNat_ofNat']
    split <;> simp_all <;> omega
  rw [varInt, hdigit, hdiv, digitsTo]
  congr 1
  by_cases hn : n = 0
  · rw [if_pos hn, if_pos (by omega)]
  · rw [if_neg hn, if_neg (by omega)]

theorem readVarIntFrom_inRange {w acc n : Nat} {s rest : List UInt8} (hin : InRange w acc s)
    (h : readVarIntFrom w acc s = .ok (n, rest)) :
    n < 2 ^ w ∧ ∃ bs, s = bs ++ rest ∧ varInt true n = digitsTo acc ++ bs := by
  induction s generalizing acc with
  | nil => cases h
  | cons b s ih =>
    obtain ⟨hlt, hmore⟩ := hin
    rw [readVarIntFrom, Nat.mod_eq_of_lt hlt] at h
    have hdigit := varInt_digit acc b
    split at h
    · next hb =>
      obtain ⟨hlt', hin⟩ := hmore hb
      rw [Nat.mod_eq_of_lt hlt'] at h
      obtain ⟨hn, bs, rfl, hcode⟩ := ih hin h
      refine ⟨hn, b :: bs, rfl, ?_⟩
      rw [decide_eq_false (by omega)] at hdigit
      rw [hcode, digitsTo, if_neg (Nat.succ_ne_zero _), Nat.add_sub_cancel, hdigit, append_assoc]
      rfl
    · next hb =>
      obtain ⟨rfl, rfl⟩ := mk.inj (ok.inj h)
      rw [decide_eq_true (by omega)] at hdigit
      exact ⟨hlt, [b], rfl, hdigit⟩

theorem run_leInt {k n : Nat} {s rest : List UInt8} :
    (leInt k).run s = .ok (n, rest) ↔ n < 256 ^ k ∧ s = leBytes k n ++ rest := by
  constructor
  · intro h
    obtain ⟨bs, mid, hbs, hn⟩ := run_bind_eq_ok.mp h
    obtain ⟨rfl, rfl⟩ := mk.inj (ok.inj hn)
    obtain ⟨rfl, rfl⟩ := run_bytes.mp hbs
    rw [leBytes_ofLeBytes]
    exact ⟨ofLeBytes_lt bs, rfl⟩
  · rintro ⟨hn, rfl⟩
    exact reads_leInt hn rest

theorem run_canonicalInt {k least n : Nat} {s rest : List UInt8}
    (h : (canonicalInt k least).run s = .ok (n, rest)) :
    least ≤ n ∧ n < 256 ^ k ∧ s = leBytes k n ++ rest := by
  obtain ⟨m, mid, hm, h⟩ := run_bind_eq_ok.mp h
  split at h
  · cases h
  · next hleast =>
    obtain ⟨rfl, rfl⟩ := mk.inj (ok.inj h)
    exact ⟨Nat.not_lt.mp hleast, run_leInt.mp hm⟩

theorem readCompactSize_eq_ok {n : Nat} {s rest : List UInt8} :
    (readCompactSize maxSize).run s = .ok (n, rest) ↔ n ≤ maxSize ∧ s = compactSize n ++ rest := by
  constructor
  · intro h
    obtain ⟨marker, mid, hmarker, h⟩ := run_bind_eq_ok.mp h
    obtain ⟨m, mid', htail, h⟩ := run_bind_eq_ok.mp h
    split at h
    · cases h
    · next hmax =>
      obtain ⟨rfl, rfl⟩ := mk.inj (ok.inj h)
      refine ⟨Nat.not_lt.mp hmax, ?_⟩
      obtain ⟨hlt, rfl⟩ := run_leInt.mp hmarker
      unfold compactSizeTail at htail
      split at htail
      · next hsmall =>
        obtain ⟨rfl, rfl⟩ := mk.inj (ok.inj htail)
        rw [compactSize, if_pos hsmall]
      · split at htail
        · next hword =>
          obtain ⟨hleast, hfits, rfl⟩ := run_canonicalInt htail
          rw [compactSize, if_neg (by omega), if_pos (by omega), hword, append_assoc]
        · split at htail
          · next hword =>
            obtain ⟨hleast, hfits, rfl⟩ := run_canonicalInt htail
            rw [compactSize, if_neg (by omega), if_neg (by omega), if_pos (by omega), hword,
              append_assoc]
          · obtain ⟨hleast, -, -⟩ := run_canonicalInt htail
            -- eight bytes are only for counts above the limit
            refine absurd hleast (Nat.not_le.mpr ?_)
            exact Nat.lt_of_le_of_lt (Nat.not_lt.mp hmax) (by decide)
  · rintro ⟨hmax, rfl⟩
    exact reads_compactSize hmax (Nat.lt_of_le_of_lt hmax (by decide)) rest

/-- **Integer codes**, for a type of any size: what is written is read back and fits the buffer,
what is read in range is the only code of its value, and counts are accepted in their canonical
encodings. -/
theorem integer_codes_exact (k : Nat) :
    (∀ n < 2 ^ ((k + 1) * 8), ∃ bs, writeVarInt (k + 1) n = some bs ∧
      Reads (readVarInt ((k + 1) * 8)) bs n) ∧
    (∀ s n rest, InRange ((k + 1) * 8) 0 s → (readVarInt ((k + 1) * 8)).run s = .ok (n, rest) →
      n < 2 ^ ((k + 1) * 8) ∧ ∃ bs, s = bs ++ rest ∧ writeVarInt (k + 1) n = some bs) ∧
    ∀ s n rest, (readCompactSize maxSize).run s = .ok (n, rest) ↔
      n ≤ maxSize ∧ s = compactSize n ++ rest := by
  refine ⟨fun n hn => ⟨_, writeVarInt_eq k hn, reads_varInt hn⟩, ?_, fun s n rest =>
    readCompactSize_eq_ok⟩
  intro s n rest hin h
  obtain ⟨hlt, bs, hs, hcode⟩ := readVarIntFrom_inRange hin h
  refine ⟨hlt, bs, hs, ?_⟩
  rw [writeVarInt_eq k hlt, hcode]
  rfl

end Elosys
