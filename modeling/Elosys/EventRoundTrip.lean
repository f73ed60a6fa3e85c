import Elosys.StateReplay

/-!
# Events Written and Parsed from Memory

Records as `komodo_parsestatefiledata` reads them: the letter decides which constructor is called,
and each has to stop where the record ends. A record does not hold all of its event.
-/

open ByteCodec ByteScan List Option

namespace Elosys

/-! ### What is read back -/

/-- The event a record is read as from memory: prices only if 35. -/
def Event.rereadData (dest : String) : Event → Option Event
  | .pricefeed e => some (.pricefeed { e with prices := if e.num = 35 then e.prices else [] })
  | e => e.reread dest

def Event.Writable : Event → Prop
  | .pubkeys e => e.num ≤ 64 ∧ e.pubkeys.length = pubkeysSize
  | .u e => e.mask.length = 8 ∧ e.hash.length = 32
  | .opreturn e => e.opret.length < 256 ^ 2
  | .pricefeed e => e.prices.length = e.num.toNat ∧ e.num.toNat ≤ 35
  | _ => True

/-- A record holds all of its event: rows behind the keys are zero, MoM and depth come together,
prices are 35 or none, and it is no rewind. -/
def Event.Stored (dest : String) : Event → Prop
  | .pubkeys e => e.pubkeys.drop (33 * e.num.toNat) =
      replicate (pubkeysSize - 33 * e.num.toNat) 0
  | .notarized e => e.dest = dest ∧ (e.MoMdepth ≠ 0 ↔ e.MoM ≠ .null)
  | .pricefeed e => e.num = 35 ∨ e.prices = []
  | .rewind _ => False
  | _ => True

variable {e : EventPubkeys}

theorem keys_fit (h : (Event.pubkeys e).Writable) : 33 * e.num.toNat ≤ e.pubkeys.length := by
  have hnum : e.num.toNat ≤ 64 := UInt8.le_iff_toNat_le.mp h.1
  rw [h.2, pubkeysSize]
  omega

theorem keysOf_take_eq_iff (h : (Event.pubkeys e).Writable) :
    keysOf (e.pubkeys.take (33 * e.num.toNat)) = e.pubkeys ↔
      e.pubkeys.drop (33 * e.num.toNat) = replicate (pubkeysSize - 33 * e.num.toNat) 0 := by
  rw [keysOf, length_take_pubkeys (keys_fit h), drop_replicate]
  constructor
  · intro heq
    exact (append_cancel_left (heq.trans (take_append_drop _ _).symm)).symm
  · intro heq
    rw [← heq, take_append_drop]

theorem rereadData_eq_some_iff {dest : String} {e : Event} (h : e.Writable) :
    e.rereadData dest = some e ↔ e.Stored dest := by
  cases e with
  | pubkeys e =>
    rw [Event.Stored, ← keysOf_take_eq_iff h]
    simp only [Event.rereadData, Event.reread, some_inj, Event.pubkeys.injEq]
    constructor
    · intro heq
      exact congrArg EventPubkeys.pubkeys heq
    · intro heq
      rw [heq]
  | notarized e =>
    obtain ⟨height, dest', blockhash, desttxid, MoM, notarizedheight, MoMdepth⟩ := e
    simp only [Event.rereadData, Event.reread, Event.Stored, some_inj,
      Event.notarized.injEq, EventNotarized.mk.injEq, true_and]
    by_cases hdepth : MoMdepth = 0 <;> by_cases hmom : MoM = .null <;>
      simp [hdepth, hmom, eq_comm]
  | pricefeed e =>
    obtain ⟨height, num, prices⟩ := e
    simp only [Event.rereadData, Event.Stored, some_inj, Event.pricefeed.injEq,
      EventPricefeed.mk.injEq, true_and]
    by_cases hnum : num = 35 <;> simp [hnum, eq_comm]
  | rewind height => exact iff_of_false (by rintro ⟨⟩) not_false
  | u e => exact iff_of_true rfl trivial
  | kmdheight e => exact iff_of_true rfl trivial
  | opreturn e => exact iff_of_true rfl trivial

/-! ### The constructors from memory -/

theorem takes_memRead : Takes fun n _ => memRead n := by
  intro what n bs h data pos rest hpos hdata
  subst h
  change memRead bs.length data pos = _
  rw [memRead, if_pos (add_length_le hpos hdata), hdata, take_left]

theorem gives_memByte (c : UInt8) : Gives memByte [c] c := by
  intro data pos rest _ hdata
  refine memByte_some ?_
  rw [← head?_drop, hdata]
  rfl

theorem gives_memSkip {n : Nat} {bs : List UInt8} (h : bs.length = n) :
    Gives (memSkip n) bs () := by
  intro data pos rest _ _
  rw [h]
  rfl

theorem gives_memTake {n : Nat} {bs : List UInt8} (h : bs.length = n) :
    Gives (memTake n) bs bs := by
  intro data pos rest hpos hdata
  subst h
  have hend := add_length_le hpos hdata
  rw [memTake, if_pos (by omega), hdata, take_left]

theorem gives_opreturnData {e : EventOpreturn} (hfits : e.opret.length < 256 ^ 2) :
    Gives (eventOpreturnData e.height) (Event.opreturn e).body e := by
  have hall : Gives (eventOpreturnData e.height) (_ ++ e.opret) e :=
    (takes_memRead.opreturnHead hfits).bind ((gives_memTake rfl).bind_pure rfl)
  simpa only [Event.body, append_assoc] using hall

theorem gives_pubkeysData (h : (Event.pubkeys e).Writable) :
    Gives (eventPubkeysData e.height) (Event.pubkeys e).body
      { e with pubkeys := keysOf (e.pubkeys.take (33 * e.num.toNat)) } := by
  refine (gives_memByte e.num).bind ?_
  rw [if_neg (UInt8.not_lt.mpr h.1)]
  exact (takes_memRead "" (length_take_pubkeys (keys_fit h))).bind_pure rfl

theorem gives_pricefeedData {e : EventPricefeed} (hlength : e.prices.length = e.num.toNat) :
    Gives (eventPricefeedData e.height) (Event.pricefeed e).body
      { e with prices := if e.num = 35 then e.prices else [] } := by
  have hbytes := length_uint32sBytes e.prices
  rw [hlength] at hbytes
  have hone : Gives (memRead 1) [e.num] [e.num] := takes_memRead "" rfl
  refine hone.bind ?_
  rw [headD_cons]
  by_cases hnum : e.num = 35
  · simp only [if_pos hnum]
    refine (takes_memRead "" hbytes).bind_pure ?_
    rw [← hlength, uint32sOf_uint32sBytes]
  · simp only [if_neg hnum]
    exact (gives_memSkip (hbytes.trans (Nat.mul_comm 4 _))).bind_pure rfl

theorem gives_parseFields_data (dest : String) {e : Event} (h : e.Writable) :
    Gives (parseFields dataReaders dest e.func.byte) (int32Bytes e.height ++ e.body)
      (e.height, e.rereadData dest) := by
  refine gives_parseFields_of_body (fun what => takes_memRead what) ?_
  cases e with
  | pubkeys e => exact (gives_pubkeysData h).bind_pure rfl
  | notarized e => exact gives_body_notarized takes_memRead dest e
  | u e => exact (takes_memRead.u h.1 h.2).bind_pure rfl
  | kmdheight e => exact gives_body_kmdheight takes_memRead dest e
  | opreturn e => exact (gives_opreturnData h).bind_pure rfl
  | pricefeed e => exact (gives_pricefeedData h.1).bind_pure rfl
  | rewind height => exact Gives.pure none

/-! ### Lists of events -/

theorem readsEmptyOpret_rereadData (cfg : KomodoConfig) (dest : String) (e : Event) :
    readsEmptyOpret cfg (e.rereadData dest) = readsEmptyOpret cfg (some e) := by
  cases e <;> rfl

def Event.record (dest : String) (e : Event) : FileRecord where
  func := e.func.byte
  ht := e.height
  event := e.rereadData dest
  bytes := (writeEvent e).length

def someEvents : List Event :=
  [.kmdheight ⟨7, 6, 0⟩, .kmdheight ⟨8, 7, 1500000000⟩,
    .notarized ⟨9, "KMD", 5, 6, 3, 4, 2⟩, .opreturn ⟨10, 11, 1, 100, [0x4b, 1, 2]⟩]

end Elosys
