import Elosys.ByteScan
import Elosys.KomodoEvents

/-!
# The State File

The file of `komodo_stateupdate`, read by `komodo_parsestatefile` from a `FILE` and by
`komodo_parsestatefiledata` from memory, both scanners of a buffer: what `fread` had taken is gone,
while the parser over memory goes back to the start of the record.

A parser is a `Scan`: it takes bytes from the front of what is left, and an error says where it
stopped. A record is usable (`usableRecord`) if it is complete and the node can apply it.

## Main results

* Every usable record is parsed by both, with the same event and size.
* The parsers agree on a buffer if and only if it consists of usable records; at the first other one
  they differ in the event, in the bytes taken or in where they stop.
-/

open ByteCodec ByteScan List Option Prod

namespace Elosys

/-! ### Fields -/

/-- The bytes of an `int32_t`. -/
def int32Bytes (x : Int32) : List UInt8 := leBytes 4 x.toUInt32.toNat

/-- The `int32_t` in four bytes. -/
def int32Of (bs : List UInt8) : Int32 := (UInt32.ofNat (ofLeBytes bs)).toInt32

def uint256Bytes (x : UInt256) : List UInt8 := leBytes 32 x.toNat

/-- The `uint256` in 32 bytes. -/
def uint256Of (bs : List UInt8) : UInt256 := BitVec.ofNat 256 (ofLeBytes bs)

/-- The bytes of a list of `uint32_t`. -/
def uint32sBytes (xs : List UInt32) : List UInt8 := xs.flatMap fun x => leBytes 4 x.toNat

def uint32sOf : Nat → List UInt8 → List UInt32
  | 0, _ => []
  | n + 1, bs => UInt32.ofNat (ofLeBytes (bs.take 4)) :: uint32sOf n (bs.drop 4)

/-! ### Writing -/

/-- The letters that records start with. -/
inductive Func where
  | P | N | M | U | K | T | R | D | V | B
  deriving DecidableEq

def Func.byte : Func → UInt8
  | .P => 0x50
  | .N => 0x4e
  | .M => 0x4d
  | .U => 0x55
  | .K => 0x4b
  | .T => 0x54
  | .R => 0x52
  | .D => 0x44
  | .V => 0x56
  | .B => 0x42

def Func.ofByte (b : UInt8) : Option Func :=
  [Func.P, .N, .M, .U, .K, .T, .R, .D, .V, .B].find? (·.byte == b)

def Event.func : Event → Func
  | .pubkeys _ => .P
  | .notarized e => if e.MoMdepth ≠ 0 ∧ e.MoM ≠ .null then .M else .N
  | .u _ => .U
  | .kmdheight e => if e.timestamp = 0 then .K else .T
  | .opreturn _ => .R
  | .pricefeed _ => .V
  | .rewind _ => .B

/-- What `operator<<` writes after the header. -/
def Event.body : Event → List UInt8
  | .pubkeys e => e.num :: e.pubkeys.take (33 * e.num.toNat)
  | .notarized e =>
    int32Bytes e.notarizedheight ++ (uint256Bytes e.blockhash ++ (uint256Bytes e.desttxid ++
      if e.MoMdepth ≠ 0 ∧ e.MoM ≠ .null then uint256Bytes e.MoM ++ int32Bytes e.MoMdepth
      else []))
  | .u e => e.n :: e.nid :: (e.mask ++ e.hash)
  | .kmdheight e =>
    int32Bytes e.kheight ++ if 0 < e.timestamp then leBytes 4 e.timestamp.toNat else []
  | .opreturn e =>
    uint256Bytes e.txid ++ (leBytes 2 e.vout.toNat ++ (leBytes 8 e.value.toNat ++
      (leBytes 2 e.opret.length ++ e.opret)))
  | .pricefeed e => e.num :: uint32sBytes e.prices
  | .rewind _ => []

/-- `write_event`: the letter, the height and the fields. -/
def writeEvent (e : Event) : List UInt8 := e.func.byte :: (int32Bytes e.height ++ e.body)

/-! ### Reading from a `FILE` and from memory -/

/-- `fgetc`; `none` is `EOF`. -/
def fgetc : Scan (Option UInt8) := fun data pos =>
  match data[pos]? with
  | some c => (.ok (some c), pos + 1)
  | none => (.ok none, pos)

/-- `fread` of so many bytes, with the caller's error. -/
def fread (n : Nat) (what : String) : Scan (List UInt8) := fun data pos =>
  if pos + n ≤ data.length then (.ok ((data.drop pos).take n), pos + n)
  else (.error what, data.length)

/-- `mem_read` and `mem_nread` of so many bytes. -/
def memRead (n : Nat) : Scan (List UInt8) := fun data pos =>
  if pos + n ≤ data.length then (.ok ((data.drop pos).take n), pos + n)
  else (.error ("Invalid size: " ++ toString n), pos)

/-- `data[pos++]`; behind the data stands a zero. -/
def memByte : Scan UInt8 := fun data pos => (.ok (data.getD pos 0), pos + 1)

/-- `pos += n`. -/
def memSkip (n : Nat) : Scan Unit := fun _ pos => (.ok (), pos + n)

/-- Take so many bytes if there, else none. -/
def memTake (n : Nat) : Scan (List UInt8) := fun data pos =>
  if n ≤ data.length - pos then (.ok ((data.drop pos).take n), pos + n) else (.ok [], pos)

/-! ### The constructors from data -/

section Constructors

variable (rd : Nat → String → Scan (List UInt8)) (height : Int32)

def momFrom : Bool → Scan (UInt256 × Int32)
  | true => do
    let MoM ← rd 32 "Invalid MoM"
    let MoMdepth ← rd 4 "Invalid MoMdepth"
    return (uint256Of MoM, int32Of MoMdepth)
  | false => return (.null, 0)

/-- `event_notarized` from data. -/
def eventNotarizedFrom (dest : String) (includeMoM : Bool) : Scan EventNotarized := do
  let notarizedheight ← rd 4 "Invalid notarization height"
  let blockhash ← rd 32 "Invalid block hash"
  let desttxid ← rd 32 "Invalid Destination TXID"
  let mom ← momFrom rd includeMoM
  return {
    height := height
    dest := dest
    notarizedheight := int32Of notarizedheight
    blockhash := uint256Of blockhash
    desttxid := uint256Of desttxid
    MoM := mom.1
    MoMdepth := mom.2 }

/-- `event_u` from data. -/
def eventUFrom : Scan EventU := do
  let n ← rd 1 "Unable to read n of event U from file"
  let nid ← rd 1 "Unable to read nid of event U from file"
  let mask ← rd 8 "Unable to read mask of event U from file"
  let hash ← rd 32 "Unable to read hash of event U from file"
  return ⟨height, n.headD 0, nid.headD 0, mask, hash⟩

def timestampFrom : Bool → Scan UInt32
  | true => do
    let timestamp ← rd 4 "Unable to parse timestamp of KMD height"
    return UInt32.ofNat (ofLeBytes timestamp)
  | false => return 0

/-- `event_kmdheight` from data. -/
def eventKmdheightFrom (includeTimestamp : Bool) : Scan EventKmdheight := do
  let kheight ← rd 4 "Unable to parse KMD height"
  let timestamp ← timestampFrom rd includeTimestamp
  return ⟨height, int32Of kheight, timestamp⟩

/-- `event_opreturn` before the script, with its length. -/
def opreturnHeadFrom : Scan (EventOpreturn × Nat) := do
  let txid ← rd 32 "Unable to parse txid of opreturn record"
  let vout ← rd 2 "Unable to parse vout of opreturn record"
  let value ← rd 8 "Unable to parse value of opreturn record"
  let oplen ← rd 2 "Unable to parse length of opreturn record"
  return ({
    height := height
    txid := uint256Of txid
    vout := UInt16.ofNat (ofLeBytes vout)
    value := UInt64.ofNat (ofLeBytes value) }, ofLeBytes oplen)

end Constructors

/-- The keys read, in an array of 64 set to zero. -/
def keysOf (keys : List UInt8) : List UInt8 :=
  keys ++ (replicate pubkeysSize 0).drop keys.length

/-- `event_pubkeys(FILE*)`; at the end `num` becomes `(uint8_t) EOF`. -/
def eventPubkeysFile (height : Int32) : Scan EventPubkeys := do
  let c ← fgetc
  let num := c.getD 255
  let keys ← fread (33 * num.toNat) ("Illegal number of keys: " ++ toString num)
  return ⟨height, num, keysOf keys⟩

/-- `event_pubkeys(uint8_t*)`. -/
def eventPubkeysData (height : Int32) : Scan EventPubkeys := do
  let num ← memByte
  if 64 < num then Scan.fail ("Illegal number of keys: " ++ toString num)
  else do
    let keys ← memRead (33 * num.toNat)
    return ⟨height, num, keysOf keys⟩

def eventOpreturnFile (height : Int32) : Scan EventOpreturn := do
  let head ← opreturnHeadFrom fread height
  let opret ← fread head.2 "Unable to parse binary data of opreturn"
  return { head.1 with opret := opret }

/-- `event_opreturn(uint8_t*)`: an incomplete script is left empty. -/
def eventOpreturnData (height : Int32) : Scan EventOpreturn := do
  let head ← opreturnHeadFrom (fun n _ => memRead n) height
  let opret ← memTake head.2
  return { head.1 with opret := opret }

/-- `event_pricefeed(FILE*)`: prices beyond the room stay in the file. -/
def eventPricefeedFile (height : Int32) : Scan EventPricefeed := do
  let c ← fgetc
  let num := c.getD 255
  if num.toNat * 4 ≤ 35 * 4 then do
    let prices ← fread (4 * num.toNat) "Unable to parse price feed"
    return ⟨height, num, uint32sOf num.toNat prices⟩
  else return ⟨height, num, []⟩

/-- `event_pricefeed(uint8_t*)`: prices other than 35 are passed over. -/
def eventPricefeedData (height : Int32) : Scan EventPricefeed := do
  let c ← memRead 1
  let num := c.headD 0
  if num = 35 then do
    let prices ← memRead (4 * num.toNat)
    return ⟨height, num, uint32sOf num.toNat prices⟩
  else do
    memSkip (num.toNat * 4)
    return ⟨height, num, []⟩

/-! ### The parsers -/

/-- The constructors one of the parsers uses. -/
structure EventReaders where
  rd : Nat → String → Scan (List UInt8)
  pubkeys : Int32 → Scan EventPubkeys
  opreturn : Int32 → Scan EventOpreturn
  pricefeed : Int32 → Scan EventPricefeed
  heightError : String
  unknownError : String
  opretFits : EventOpreturn → Bool

def fileReaders : EventReaders where
  rd := fread
  pubkeys := eventPubkeysFile
  opreturn := eventOpreturnFile
  pricefeed := eventPricefeedFile
  heightError := "Unable to read height from file"
  unknownError := "Unable to parse state file: unknown event"
  opretFits e := e.opret.length < 16384 * 4

def dataReaders : EventReaders where
  rd n _ := memRead n
  pubkeys := eventPubkeysData
  opreturn := eventOpreturnData
  pricefeed := eventPricefeedData
  heightError := "Unable to parse height from file data"
  unknownError := "Unable to parse file data: unknown event"
  opretFits _ := true

/-- The event of a record whose letter and height were read. -/
def parseBody (R : EventReaders) (dest : String) (func : UInt8) (ht : Int32) :
    Scan (Option Event) :=
  match Func.ofByte func with
  | some .P => do return some (.pubkeys (← R.pubkeys ht))
  | some .N => do return some (.notarized (← eventNotarizedFrom R.rd ht dest false))
  | some .M => do return some (.notarized (← eventNotarizedFrom R.rd ht dest true))
  | some .U => do return some (.u (← eventUFrom R.rd ht))
  | some .K => do return some (.kmdheight (← eventKmdheightFrom R.rd ht false))
  | some .T => do return some (.kmdheight (← eventKmdheightFrom R.rd ht true))
  | some .R => do return some (.opreturn (← R.opreturn ht))
  | some .D => return none
  | some .V => do return some (.pricefeed (← R.pricefeed ht))
  -- can be written but not processed on read
  | some .B => return none
  | none => Scan.fail R.unknownError

/-- Height and event of a record whose letter was read. -/
def parseFields (R : EventReaders) (dest : String) (func : UInt8) :
    Scan (Int32 × Option Event) := do
  let ht ← R.rd 4 R.heightError
  let event ← parseBody R dest func (int32Of ht)
  return (int32Of ht, event)

variable (cfg : KomodoConfig)

def usesPubkeys (symbol : String) : Bool :=
  let matched := if cfg.isKMD && symbol == "KMD" then true else cfg.chainSymbol == symbol
  (cfg.externalNotaries && matched) || (symbol == "KMD" && !cfg.externalNotaries)

def addParsed (R : EventReaders) (cfg : KomodoConfig) (symbol : String) (sp : KomodoState)
    (ht : Int32) : Option Event → KomodoState
  | some (.pubkeys e) =>
    if usesPubkeys cfg symbol then komodoEventaddPubkeys cfg sp ht e else sp
  | some (.notarized e) => komodoEventaddNotarized cfg sp symbol ht e
  | some (.kmdheight e) => komodoEventaddKmdheight cfg sp ht e
  | some (.opreturn e) => if R.opretFits e then komodoEventaddOpreturn cfg sp e else sp
  | some (.pricefeed e) => komodoEventaddPricefeed cfg sp e
  | some (.u _) => sp
  | some (.rewind _) => sp
  | none => sp

/-- `komodo_eventadd_opreturn` reads `opret.data()[0]` on an asset chain: an empty script has no
such byte, and the process ends there. -/
def readsEmptyOpret : Option Event → Bool
  | some (.opreturn e) => !cfg.isKMD && e.opret.isEmpty
  | _ => false

def readsEmptyOpretError : String := "opret.data()[0] of an empty op_return"

/-- A recognised record, and its size. -/
structure FileRecord where
  func : UInt8
  ht : Int32
  event : Option Event
  bytes : Int
  deriving DecidableEq

/-- What a parser's call comes to: a record, or the end with its error. -/
inductive Parsed where
  | record (r : FileRecord) (sp : KomodoState) (pos : Nat)
  | stop (error : Option String) (pos : Nat)

variable (symbol dest : String) (data : List UInt8) (sp : KomodoState)

/-- `komodo_parsestatefile`, at a position of the file. -/
def komodoParsestatefile (pos : Nat) : Parsed :=
  match data[pos]? with
  | none => .stop none pos
  | some func =>
    match parseFields fileReaders dest func data (pos + 1) with
    | (.ok (ht, event), pos') =>
      if readsEmptyOpret cfg event then .stop (some readsEmptyOpretError) pos'
      else
        .record ⟨func, ht, event, pos' - pos⟩ (addParsed fileReaders cfg symbol sp ht event) pos'
    | (.error e, pos') => .stop (some e) pos'

/-- `komodo_parsestatefiledata`: an error, or the end of the process, leaves `*fposp` alone. -/
def komodoParsestatefiledata (fpos : Nat) : Parsed :=
  match data[fpos]? with
  | none => .stop none fpos
  | some func =>
    match parseFields dataReaders dest func data (fpos + 1) with
    | (.ok (ht, event), pos') =>
      if readsEmptyOpret cfg event then .stop (some readsEmptyOpretError) fpos
      else
        .record ⟨func, ht, event, pos' - fpos⟩ (addParsed dataReaders cfg symbol sp ht event) pos'
    | (.error e, _) => .stop (some e) fpos

/-- What comes of a whole file. -/
structure Replay where
  records : List FileRecord
  sp : KomodoState
  error : Option String
  offset : Nat

def replayFrom (parse : KomodoState → Nat → Parsed) : Nat → KomodoState → Nat → Replay
  | 0, sp, pos => ⟨[], sp, none, pos⟩
  | fuel + 1, sp, pos =>
    match parse sp pos with
    | .stop error pos' => ⟨[], sp, error, pos'⟩
    | .record r sp' pos' =>
      let rest := replayFrom parse fuel sp' pos'
      { rest with records := r :: rest.records }

def replayFile : Replay :=
  replayFrom (komodoParsestatefile cfg symbol dest data) (data.length + 1) sp 0

/-- The loop of `komodo_faststateinit`. -/
def replayData : Replay :=
  replayFrom (komodoParsestatefiledata cfg symbol dest data) (data.length + 1) sp 0

/-- The front record's size by letter and counts: up to 64 keys, 35 prices or none. -/
def recordSize (rest : List UInt8) : Option Nat :=
  match rest.head?.bind Func.ofByte with
  | some .P => rest[5]?.bind fun num => if num ≤ 64 then some (6 + 33 * num.toNat) else none
  | some .N => some 73
  | some .M => some 109
  | some .U => some 47
  | some .K => some 9
  | some .T => some 13
  | some .R => some (49 + ofLeBytes ((rest.drop 47).take 2))
  | some .D => some 5
  | some .V =>
    rest[5]?.bind fun num => if num = 0 ∨ num = 35 then some (6 + 4 * num.toNat) else none
  | some .B => some 5
  | none => none

/-- The size of the front record, if all is there. -/
def completeRecord (rest : List UInt8) : Option Nat :=
  (recordSize rest).filter (· ≤ rest.length)

/-- The size of a complete front record that a node can apply: on an asset chain an op_return holds
a byte, so that its record is longer than 49 bytes. -/
def usableRecord (rest : List UInt8) : Option Nat :=
  (completeRecord rest).filter fun n =>
    cfg.isKMD || rest.head?.bind Func.ofByte != some .R || n != 49

def completeRecordsFrom : Nat → List UInt8 → Bool
  | _, [] => true
  | 0, _ => false
  | fuel + 1, rest =>
    match usableRecord cfg rest with
    | some n => completeRecordsFrom fuel (rest.drop n)
    | none => false

def completeRecords : Bool := completeRecordsFrom cfg data.length data

/-! ### The constructors side by side -/

theorem twins_read (n : Nat) (what : String) : Twins (fread n what) (memRead n) n := by
  intro data pos _
  refine ⟨fun hn => ⟨(data.drop pos).take n, ?_, ?_⟩, fun hn => ⟨⟨what, data.length, ?_⟩, ?_⟩⟩
  · rw [fread, if_pos hn]
  · rw [memRead, if_pos hn]
  · rw [fread, if_neg (by omega)]
  · exact ⟨_, pos, by rw [memRead, if_neg (by omega)]⟩

theorem eventNotarized_twins (height : Int32) (dest : String) (includeMoM : Bool) :
    Twins (eventNotarizedFrom fread height dest includeMoM)
      (eventNotarizedFrom (fun n _ => memRead n) height dest includeMoM)
      (4 + (32 + (32 + ((if includeMoM then 36 else 0) + 0)))) := by
  refine (twins_read 4 _).bind fun nh => (twins_read 32 _).bind fun bh =>
    (twins_read 32 _).bind fun dt => Twins.bind ?_ fun mom => Twins.pure _
  cases includeMoM with
  | true => exact (twins_read 32 _).bind fun MoM => (twins_read 4 _).bind fun d => Twins.pure _
  | false => exact Twins.pure _

theorem eventU_twins (height : Int32) :
    Twins (eventUFrom fread height) (eventUFrom (fun n _ => memRead n) height)
      (1 + (1 + (8 + (32 + 0)))) :=
  (twins_read 1 _).bind fun _ => (twins_read 1 _).bind fun _ => (twins_read 8 _).bind fun _ =>
    (twins_read 32 _).bind fun _ => Twins.pure _

theorem eventKmdheight_twins (height : Int32) (includeTimestamp : Bool) :
    Twins (eventKmdheightFrom fread height includeTimestamp)
      (eventKmdheightFrom (fun n _ => memRead n) height includeTimestamp)
      (4 + ((if includeTimestamp then 4 else 0) + 0)) := by
  refine (twins_read 4 _).bind fun kheight => Twins.bind ?_ fun timestamp => Twins.pure _
  cases includeTimestamp with
  | true => exact (twins_read 4 _).bind fun t => Twins.pure _
  | false => exact Twins.pure _

theorem opreturnHead_twins (height : Int32) :
    Twins (opreturnHeadFrom fread height) (opreturnHeadFrom (fun n _ => memRead n) height)
      (32 + (2 + (8 + (2 + 0)))) :=
  (twins_read 32 _).bind fun _ => (twins_read 2 _).bind fun _ => (twins_read 8 _).bind fun _ =>
    (twins_read 2 _).bind fun _ => Twins.pure _

variable {data : List UInt8} {pos : Nat} {c : UInt8}

theorem fgetc_some (h : data[pos]? = some c) : fgetc data pos = (.ok (some c), pos + 1) := by
  rw [fgetc, h]

theorem fgetc_none (h : data[pos]? = none) : fgetc data pos = (.ok none, pos) := by
  rw [fgetc, h]

theorem memByte_some (h : data[pos]? = some c) : memByte data pos = (.ok c, pos + 1) := by
  rw [memByte, getD_eq_getElem?_getD, h]
  rfl

theorem memRead_one (h : data[pos]? = some c) : memRead 1 data pos = (.ok [c], pos + 1) := by
  obtain ⟨hlt, hc⟩ := List.getElem?_eq_some_iff.mp h
  have hfits : pos + 1 ≤ data.length := hlt
  rw [memRead, if_pos hfits, List.take_one, List.head?_drop, h]
  rfl

variable {what : String}

theorem fread_short {pos n : Nat}
    (h : data.length < pos + n) : fread n what data pos = (.error what, data.length) :=
  if_neg (by omega)

variable {height : Int32} {pos pos' : Nat}

theorem both_pubkeys (hpos : pos ≤ data.length) :
    Both (eventPubkeysFile height) (eventPubkeysData height) data pos pos' ↔
      ∃ num, data[pos]? = some num ∧ num ≤ 64 ∧ pos + (1 + 33 * num.toNat) ≤ data.length ∧
        pos' = pos + (1 + 33 * num.toNat) := by
  cases hnum : data[pos]? with
  | none =>
    -- the file parser takes the end of the file for 255 keys
    have hfails : Fails (eventPubkeysFile height) data pos := by
      have hend : data.length < pos + 33 * ((none : Option UInt8).getD 255).toNat := by
        have h255 : ((none : Option UInt8).getD 255).toNat = 255 := rfl
        rw [getElem?_eq_none_iff] at hnum
        omega
      exact ⟨_, _, (Scan.bind_ok (fgetc_none hnum)).trans (Scan.bind_error (fread_short hend))⟩
    constructor
    · rintro ⟨e, hfile, -⟩
      exact absurd hfile hfails.ne_ok
    · rintro ⟨num, hsome, -⟩
      cases hsome
  | some num =>
    have hlt := (List.getElem?_eq_some_iff.mp hnum).1
    have hfile : eventPubkeysFile height data pos = _ := Scan.bind_ok (fgetc_some hnum)
    have hdata : eventPubkeysData height data pos = _ := Scan.bind_ok (memByte_some hnum)
    by_cases hmany : 64 < num
    · have hfails : Fails (eventPubkeysData height) data pos := by
        rw [Fails, hdata, if_pos hmany]
        exact ⟨_, _, rfl⟩
      constructor
      · rintro ⟨e, -, hd⟩
        exact absurd hd hfails.ne_ok
      · rintro ⟨num', hsome, hle, -⟩
        obtain rfl := some.inj hsome
        exact absurd hmany (UInt8.not_lt.mpr hle)
    · have hnext : pos + 1 ≤ data.length := hlt
      have htwins : Both _ _ data (pos + 1) pos' ↔ _ :=
        ((twins_read (33 * num.toNat) ("Illegal number of keys: " ++ toString num)).bind
          fun keys => Twins.pure (EventPubkeys.mk height num (keysOf keys))).both_iff hnext
      rw [Both, hfile, hdata, if_neg hmany]
      refine htwins.trans ⟨?_, ?_⟩
      · rintro ⟨hle, hpos'⟩
        exact ⟨num, rfl, UInt8.not_lt.mp hmany, by omega, by omega⟩
      · rintro ⟨num', hsome, -, hle, rfl⟩
        obtain rfl := some.inj hsome
        omega

theorem fread_fits {pos n : Nat} (h : pos + n ≤ data.length) :
    fread n what data pos = (.ok ((data.drop pos).take n), pos + n) :=
  if_pos h

@[simp] theorem length_uint32sOf (n : Nat) (bs : List UInt8) : (uint32sOf n bs).length = n := by
  induction n generalizing bs with
  | zero => rfl
  | succ n ih => simp [uint32sOf, ih]

theorem both_pricefeed :
    Both (eventPricefeedFile height) (eventPricefeedData height) data pos pos' ↔
      ∃ num, data[pos]? = some num ∧ (num = 0 ∨ num = 35) ∧
        pos + (1 + 4 * num.toNat) ≤ data.length ∧ pos' = pos + (1 + 4 * num.toNat) := by
  cases hnum : data[pos]? with
  | none =>
    have hfails : Fails (eventPricefeedData height) data pos := by
      rw [getElem?_eq_none_iff] at hnum
      exact ⟨_, _, Scan.bind_error (if_neg (by omega))⟩
    refine ⟨fun ⟨e, _, hdata⟩ => absurd hdata hfails.ne_ok, ?_⟩
    rintro ⟨num, hsome, -⟩
    cases hsome
  | some num =>
    have hlt := (List.getElem?_eq_some_iff.mp hnum).1
    have hnext : pos + 1 ≤ data.length := hlt
    have hfile : eventPricefeedFile height data pos = _ := Scan.bind_ok (fgetc_some hnum)
    have hdata : eventPricefeedData height data pos = _ := Scan.bind_ok (memRead_one hnum)
    have hhead : [num].headD 0 = num := rfl
    have hgetD : (some num).getD 255 = num := rfl
    simp only [hgetD] at hfile
    simp only [hhead] at hdata
    rw [Both, hfile, hdata]
    by_cases h35 : num = 35
    · subst h35
      have hfits : (35 : UInt8).toNat * 4 ≤ 35 * 4 := by decide
      have htwins : Both _ _ data (pos + 1) pos' ↔ _ :=
        ((twins_read (4 * (35 : UInt8).toNat) "Unable to parse price feed").bind fun prices =>
          Twins.pure (EventPricefeed.mk height 35
            (uint32sOf (35 : UInt8).toNat prices))).both_iff hnext
      refine htwins.trans ⟨fun ⟨hle, hpos'⟩ => ⟨35, rfl, .inr rfl, by omega, by omega⟩, ?_⟩
      rintro ⟨num', hsome, -, hle, rfl⟩
      obtain rfl := some.inj hsome
      omega
    · rw [if_neg h35]
      -- the parser over memory stores no price, and passes over all of them
      have hskip : (memSkip (num.toNat * 4) >>= fun _ =>
          (Pure.pure (EventPricefeed.mk height num []) : Scan EventPricefeed)) data (pos + 1) =
            (.ok ⟨height, num, []⟩, pos + 1 + num.toNat * 4) := Scan.bind_ok rfl
      constructor
      · rintro ⟨e, hf, hd⟩
        obtain ⟨he, rfl⟩ := mk.inj hd
        obtain rfl := Except.ok.inj he
        by_cases hroom : num.toNat * 4 ≤ 35 * 4
        · rw [if_pos hroom] at hf
          by_cases hfits : pos + 1 + 4 * num.toNat ≤ data.length
          · rw [Scan.bind_ok (fread_fits hfits)] at hf
            have hprices := congrArg (fun e => e.prices.length)
              (Except.ok.inj (mk.inj hf).1)
            simp only [length_uint32sOf, length_nil] at hprices
            obtain rfl : num = 0 := UInt8.toNat_inj.mp hprices
            exact ⟨0, rfl, .inl rfl, by omega, by omega⟩
          · rw [Scan.bind_error (fread_short (by omega))] at hf
            cases hf
        · rw [if_neg hroom] at hf
          have hpos := (mk.inj hf).2
          omega
      · rintro ⟨num', hsome, hcount, hle, rfl⟩
        obtain rfl := some.inj hsome
        obtain rfl := hcount.resolve_right h35
        refine ⟨⟨height, 0, []⟩, ?_, rfl⟩
        have hfits : pos + 1 + 4 * (0 : UInt8).toNat ≤ data.length := by omega
        rw [if_pos (by decide), Scan.bind_ok (fread_fits hfits)]
        rfl

theorem opreturnHead_fits (h : pos + 44 ≤ data.length) :
    ∃ e, opreturnHeadFrom fread height data pos =
      (.ok (e, ofLeBytes ((data.drop (pos + 42)).take 2)), pos + 44) :=
  ⟨_, ((Scan.bind_ok (fread_fits (by omega))).trans ((Scan.bind_ok (fread_fits (by omega))).trans
    ((Scan.bind_ok (fread_fits (by omega))).trans (Scan.bind_ok (fread_fits (by omega))))))⟩

theorem both_opreturn (hpos : pos ≤ data.length) :
    Both (eventOpreturnFile height) (eventOpreturnData height) data pos pos' ↔
      pos + (44 + ofLeBytes ((data.drop (pos + 42)).take 2)) ≤ data.length ∧
        pos' = pos + (44 + ofLeBytes ((data.drop (pos + 42)).take 2)) := by
  have htwins := opreturnHead_twins height data pos hpos
  by_cases hhead : pos + 44 ≤ data.length
  · obtain ⟨e, hfile⟩ := opreturnHead_fits hhead
    obtain ⟨e', hfile', hdata⟩ := htwins.1 hhead
    obtain rfl := Except.ok.inj (mk.inj (hfile.symm.trans hfile')).1
    have hopreturnFile : eventOpreturnFile height data pos = _ := Scan.bind_ok hfile
    have hopreturnData : eventOpreturnData height data pos = _ := Scan.bind_ok hdata
    rw [Both, hopreturnFile, hopreturnData]
    by_cases hfits : pos + 44 + ofLeBytes ((data.drop (pos + 42)).take 2) ≤ data.length
    · have htake : fread _ "Unable to parse binary data of opreturn" data (pos + 44) = _ :=
        fread_fits hfits
      have htake' : memTake (ofLeBytes ((data.drop (pos + 42)).take 2)) data (pos + 44) = _ :=
        if_pos (by omega)
      rw [Scan.bind_ok htake, Scan.bind_ok htake']
      constructor
      · rintro ⟨event, hevent, -⟩
        have hpos' := (mk.inj hevent).2
        omega
      · rintro ⟨-, rfl⟩
        exact ⟨_, by rw [Nat.add_assoc]; rfl, by rw [Nat.add_assoc]; rfl⟩
    · rw [Scan.bind_error (fread_short (by omega))]
      constructor
      · rintro ⟨event, hevent, -⟩
        cases hevent
      · rintro ⟨hle, -⟩
        omega
  · obtain ⟨⟨e, pos₁, hfile⟩, -⟩ := htwins.2 (by omega)
    have hfails : Fails (eventOpreturnFile height) data pos := ⟨e, pos₁, Scan.bind_error hfile⟩
    refine ⟨fun ⟨event, hevent, _⟩ => absurd hevent hfails.ne_ok, fun ⟨hle, _⟩ => ?_⟩
    omega

/-! ### One record -/

variable {n : Nat}

theorem completeRecord_eq_some {rest : List UInt8} :
    completeRecord rest = some n ↔ recordSize rest = some n ∧ n ≤ rest.length := by
  simp [completeRecord, filter_eq_some_iff]

theorem some_injective {α : Type} {wrap : α → Event} (hwrap : Function.Injective wrap) :
    Function.Injective fun a => some (wrap a) :=
  fun _ _ h => hwrap (some.inj h)

variable {func : UInt8}

theorem both_parseBody {dest : String} {ht : Int32}
    {p pos' : Nat} (hfunc : data[p]? = some func) (hp : p + 5 ≤ data.length) :
    Both (parseBody fileReaders dest func ht) (parseBody dataReaders dest func ht) data (p + 5)
        pos' ↔
      ∃ n, completeRecord (data.drop p) = some n ∧ pos' = p + n := by
  have hhead : (data.drop p).head? = some func := by rw [head?_drop, hfunc]
  have hfive : (data.drop p)[5]? = data[p + 5]? := getElem?_drop
  have hlength : (data.drop p).length = data.length - p := length_drop
  have hkindOf : (data.drop p).head?.bind Func.ofByte = Func.ofByte func := by rw [hhead]; rfl
  -- a record whose fields need `n` bytes
  have hfixed : ∀ {n : Nat}, recordSize (data.drop p) = some (5 + n) →
      ((p + 5 + n ≤ data.length ∧ pos' = p + 5 + n) ↔
        ∃ m, completeRecord (data.drop p) = some m ∧ pos' = p + m) := by
    intro n hsize
    simp only [completeRecord_eq_some, hsize, some.injEq, hlength]
    constructor
    · rintro ⟨hle, rfl⟩
      exact ⟨5 + n, ⟨rfl, by omega⟩, by omega⟩
    · rintro ⟨m, ⟨rfl, hle⟩, rfl⟩
      exact ⟨by omega, by omega⟩
  -- a record whose fields start with a count
  have hcounted : ∀ {ok : UInt8 → Prop} [DecidablePred ok] {k : Nat},
      recordSize (data.drop p) = (data[p + 5]?.bind fun num =>
        if ok num then some (6 + k * num.toNat) else none) →
      ((∃ num, data[p + 5]? = some num ∧ ok num ∧ p + 5 + (1 + k * num.toNat) ≤ data.length ∧
          pos' = p + 5 + (1 + k * num.toNat)) ↔
        ∃ m, completeRecord (data.drop p) = some m ∧ pos' = p + m) := by
    intro ok _ k hsize
    cases hnum : data[p + 5]? with
    | none => simp [completeRecord_eq_some, hsize, hnum]
    | some num =>
      by_cases hok : ok num
      · have hsize' : recordSize (data.drop p) = some (5 + (1 + k * num.toNat)) := by
          rw [hsize, hnum, bind_some, if_pos hok, ← Nat.add_assoc]
        rw [← hfixed hsize']
        simp [hok]
      · have hsize' : recordSize (data.drop p) = none := by
          rw [hsize, hnum, bind_some, if_neg hok]
        simp [completeRecord_eq_some, hsize', hok]
  simp only [parseBody]
  cases hkind : Func.ofByte func with
  | none =>
    have hsize : recordSize (data.drop p) = none := by simp only [recordSize, hkindOf, hkind]
    constructor
    · rintro ⟨event, hevent, -⟩
      cases hevent
    · rintro ⟨n, hn, -⟩
      rw [completeRecord_eq_some, hsize] at hn
      cases hn.1
  | some f =>
    cases f with
    | P =>
      refine ((both_wrap (some_injective fun _ _ => Event.pubkeys.inj)).trans
        (both_pubkeys hp)).trans (hcounted ?_)
      simp only [recordSize, hkindOf, hkind, hfive]
    | N =>
      refine ((both_wrap (some_injective fun _ _ => Event.notarized.inj)).trans
        ((eventNotarized_twins ht dest false).both_iff hp)).trans (hfixed ?_)
      simp only [recordSize, hkindOf, hkind]
      rfl
    | M =>
      refine ((both_wrap (some_injective fun _ _ => Event.notarized.inj)).trans
        ((eventNotarized_twins ht dest true).both_iff hp)).trans (hfixed ?_)
      simp only [recordSize, hkindOf, hkind]
      rfl
    | U =>
      refine ((both_wrap (some_injective fun _ _ => Event.u.inj)).trans
        ((eventU_twins ht).both_iff hp)).trans (hfixed ?_)
      simp only [recordSize, hkindOf, hkind]
    | K =>
      refine ((both_wrap (some_injective fun _ _ => Event.kmdheight.inj)).trans
        ((eventKmdheight_twins ht false).both_iff hp)).trans (hfixed ?_)
      simp only [recordSize, hkindOf, hkind]
      rfl
    | T =>
      refine ((both_wrap (some_injective fun _ _ => Event.kmdheight.inj)).trans
        ((eventKmdheight_twins ht true).both_iff hp)).trans (hfixed ?_)
      simp only [recordSize, hkindOf, hkind]
      rfl
    | R =>
      refine ((both_wrap (some_injective fun _ _ => Event.opreturn.inj)).trans
        (both_opreturn hp)).trans (hfixed ?_)
      simp only [recordSize, hkindOf, hkind, drop_drop]
      rw [Nat.add_assoc p 5 42, ← Nat.add_assoc 5 44]
    | D =>
      refine ((Twins.pure none).both_iff hp).trans (hfixed ?_)
      simp only [recordSize, hkindOf, hkind]
    | V =>
      refine ((both_wrap (some_injective fun _ _ => Event.pricefeed.inj)).trans
        both_pricefeed).trans (hcounted ?_)
      simp only [recordSize, hkindOf, hkind, hfive]
    | B =>
      refine ((Twins.pure none).both_iff hp).trans (hfixed ?_)
      simp only [recordSize, hkindOf, hkind]

theorem five_le_recordSize {rest : List UInt8} (h : recordSize rest = some n) : 5 ≤ n := by
  have hcount : ∀ {ok : UInt8 → Prop} [DecidablePred ok] {k : Nat},
      (rest[5]?.bind fun num => if ok num then some (6 + k * num.toNat) else none) = some n →
      5 ≤ n := by
    intro ok _ k hn
    obtain ⟨num, -, hnum⟩ := bind_eq_some_iff.mp hn
    split at hnum
    · have := some.inj hnum
      omega
    · cases hnum
  unfold recordSize at h
  split at h
  · exact hcount h
  · exact Nat.le_of_ble_eq_true (some.inj h ▸ rfl)
  · exact Nat.le_of_ble_eq_true (some.inj h ▸ rfl)
  · exact Nat.le_of_ble_eq_true (some.inj h ▸ rfl)
  · exact Nat.le_of_ble_eq_true (some.inj h ▸ rfl)
  · exact Nat.le_of_ble_eq_true (some.inj h ▸ rfl)
  · have := some.inj h
    omega
  · exact Nat.le_of_ble_eq_true (some.inj h ▸ rfl)
  · exact hcount h
  · exact Nat.le_of_ble_eq_true (some.inj h ▸ rfl)
  · cases h

theorem both_parseFields {dest : String} {p pos' : Nat} (hfunc : data[p]? = some func) :
    Both (parseFields fileReaders dest func) (parseFields dataReaders dest func) data (p + 1) pos' ↔
      ∃ n, completeRecord (data.drop p) = some n ∧ pos' = p + n := by
  have hlt := (List.getElem?_eq_some_iff.mp hfunc).1
  have hheight := twins_read 4 fileReaders.heightError data (p + 1) hlt
  by_cases hp : p + 5 ≤ data.length
  · obtain ⟨ht, hfile, hdata⟩ := hheight.1 (by omega)
    have hfile' : parseFields fileReaders dest func data (p + 1) = _ := Scan.bind_ok hfile
    have hdata' : parseFields dataReaders dest func data (p + 1) = _ := Scan.bind_ok hdata
    rw [Both, hfile', hdata']
    exact (both_wrap fun _ _ h => (mk.inj h).2).trans (both_parseBody hfunc hp)
  · obtain ⟨⟨e, pos₁, hfile⟩, -⟩ := hheight.2 (by omega)
    have hfails : Fails (parseFields fileReaders dest func) data (p + 1) :=
      ⟨e, pos₁, Scan.bind_error hfile⟩
    refine ⟨fun ⟨a, ha, _⟩ => absurd ha hfails.ne_ok, ?_⟩
    rintro ⟨n, hn, -⟩
    obtain ⟨hsize, hle⟩ := completeRecord_eq_some.mp hn
    have hfive := five_le_recordSize hsize
    rw [length_drop] at hle
    omega

/-! ### Where the file parser stops -/

theorem fread_advances (n : Nat) (what : String) : Advances (fread n what) := by
  intro data pos hpos
  by_cases hn : pos + n ≤ data.length
  · rw [fread_fits hn]
    exact ⟨Nat.le_add_right pos n, hn⟩
  · rw [fread_short (by omega)]
    exact ⟨hpos, Nat.le_refl _⟩

theorem fgetc_advances : Advances fgetc := by
  intro data pos hpos
  cases hc : data[pos]? with
  | none =>
    rw [fgetc_none hc]
    exact ⟨Nat.le_refl pos, hpos⟩
  | some c =>
    rw [fgetc_some hc]
    exact ⟨Nat.le_succ pos, (List.getElem?_eq_some_iff.mp hc).1⟩

theorem eventNotarized_advances (height : Int32) (dest : String) (includeMoM : Bool) :
    Advances (eventNotarizedFrom fread height dest includeMoM) := by
  refine (fread_advances 4 _).bind fun _ => (fread_advances 32 _).bind fun _ =>
    (fread_advances 32 _).bind fun _ => Advances.bind ?_ fun _ => Advances.pure _
  cases includeMoM with
  | true =>
    exact (fread_advances 32 _).bind fun _ => (fread_advances 4 _).bind fun _ =>
      Advances.pure _
  | false => exact Advances.pure _

theorem eventKmdheight_advances (height : Int32) (includeTimestamp : Bool) :
    Advances (eventKmdheightFrom fread height includeTimestamp) := by
  refine (fread_advances 4 _).bind fun _ => Advances.bind ?_ fun _ => Advances.pure _
  cases includeTimestamp with
  | true => exact (fread_advances 4 _).bind fun _ => Advances.pure _
  | false => exact Advances.pure _

theorem eventPricefeed_advances (height : Int32) : Advances (eventPricefeedFile height) := by
  refine fgetc_advances.bind fun c => ?_
  dsimp only
  split
  · exact (fread_advances _ _).bind fun _ => Advances.pure _
  · exact Advances.pure _

theorem parseFields_advances (dest : String) (func : UInt8) :
    Advances (parseFields fileReaders dest func) := by
  refine (fread_advances 4 _).bind fun ht => Advances.bind ?_ fun _ => Advances.pure _
  unfold parseBody
  split
  · exact (fgetc_advances.bind fun _ => (fread_advances _ _).bind fun _ => Advances.pure _).bind
      fun _ => Advances.pure _
  · exact (eventNotarized_advances _ _ _).bind fun _ => Advances.pure _
  · exact (eventNotarized_advances _ _ _).bind fun _ => Advances.pure _
  · exact ((fread_advances 1 _).bind fun _ => (fread_advances 1 _).bind fun _ =>
      (fread_advances 8 _).bind fun _ => (fread_advances 32 _).bind fun _ =>
        Advances.pure _).bind fun _ => Advances.pure _
  · exact (eventKmdheight_advances _ _).bind fun _ => Advances.pure _
  · exact (eventKmdheight_advances _ _).bind fun _ => Advances.pure _
  · exact (((fread_advances 32 _).bind fun _ => (fread_advances 2 _).bind fun _ =>
      (fread_advances 8 _).bind fun _ => (fread_advances 2 _).bind fun _ =>
        Advances.pure _).bind fun _ => (fread_advances _ _).bind fun _ =>
          Advances.pure _).bind fun _ => Advances.pure _
  · exact Advances.pure _
  · exact (eventPricefeed_advances _).bind fun _ => Advances.pure _
  · exact Advances.pure _
  · exact fun _ pos hpos => ⟨Nat.le_refl pos, hpos⟩

/-! ### Whole buffers -/

theorem length_of_fread {data bs : List UInt8}
    (h : fread n what data pos = (.ok bs, pos')) : bs.length = n ∧ pos' = pos + n := by
  by_cases hn : pos + n ≤ data.length
  · rw [fread_fits hn] at h
    obtain ⟨hbs, hpos⟩ := mk.inj h
    obtain rfl := Except.ok.inj hbs
    refine ⟨?_, hpos.symm⟩
    rw [length_take, length_drop]
    omega
  · rw [fread_short (by omega)] at h
    cases h

theorem length_opret
    {e : EventOpreturn} (h : eventOpreturnFile height data pos = (.ok e, pos')) :
    e.opret.length < 16384 * 4 ∧ pos' = pos + 44 + e.opret.length := by
  obtain ⟨head, pos₁, hhead, htail⟩ := Scan.bind_eq_ok.mp h
  obtain ⟨opret, pos₂, hopret, he⟩ := Scan.bind_eq_ok.mp htail
  obtain ⟨txid, pos₃, htxid, hhead⟩ := Scan.bind_eq_ok.mp hhead
  obtain ⟨vout, pos₄, hvout, hhead⟩ := Scan.bind_eq_ok.mp hhead
  obtain ⟨value, pos₅, hvalue, hhead⟩ := Scan.bind_eq_ok.mp hhead
  obtain ⟨oplen, pos₆, hoplen, hhead⟩ := Scan.bind_eq_ok.mp hhead
  obtain ⟨hhead, hpos₁⟩ := mk.inj hhead
  obtain ⟨he, hpos⟩ := mk.inj he
  obtain rfl := Except.ok.inj hhead
  obtain rfl := Except.ok.inj he
  have hsize := ofLeBytes_lt oplen
  rw [(length_of_fread hoplen).1] at hsize
  have hlength := length_of_fread hopret
  have h₃ := (length_of_fread htxid).2
  have h₄ := (length_of_fread hvout).2
  have h₅ := (length_of_fread hvalue).2
  have h₆ := (length_of_fread hoplen).2
  dsimp only at hlength ⊢
  omega

/-- An event that is an op_return comes from a record with that letter, whose size tells the
script's. -/
theorem parseBody_opreturn {dest : String} {ht : Int32} {event : Option Event}
    (h : parseBody fileReaders dest func ht data pos = (.ok event, pos')) :
    if Func.ofByte func = some .R then ∃ e, event = some (.opreturn e) ∧
      e.opret.length < 16384 * 4 ∧ pos' = pos + 44 + e.opret.length
    else ∀ e, event ≠ some (.opreturn e) := by
  cases hkind : Func.ofByte func with
  | none =>
    simp only [parseBody, hkind] at h
    cases h
  | some f =>
    cases f <;> simp only [parseBody, hkind] at h
    case R =>
      obtain ⟨e, pos₁, hread, he⟩ := Scan.bind_eq_ok.mp h
      obtain ⟨hread', hpos⟩ := mk.inj he
      obtain rfl := hpos
      exact ⟨e, (Except.ok.inj hread').symm, length_opret hread⟩
    case D => cases h; exact nofun
    case B => cases h; exact nofun
    all_goals
      obtain ⟨a, pos₁, -, ha⟩ := Scan.bind_eq_ok.mp h
      cases ha
      exact nofun

theorem readsEmptyOpret_eq {cfg : KomodoConfig} {dest : String} {ht : Int32}
    {event : Option Event} {p n : Nat}
    (h : parseBody fileReaders dest func ht data (p + 5) = (.ok event, p + n)) :
    readsEmptyOpret cfg event =
      !(cfg.isKMD || Func.ofByte func != some .R || n != 49) := by
  have hopret := parseBody_opreturn h
  split at hopret
  · next hR =>
    obtain ⟨e, rfl, -, hn⟩ := hopret
    have hempty : e.opret.isEmpty = !(n != 49) := by
      rw [bne, Bool.not_not, Bool.eq_iff_iff, List.isEmpty_iff, ← List.length_eq_zero_iff,
        beq_iff_eq]
      omega
    simp [readsEmptyOpret, hR, hempty]
  · next hR =>
    have hother : (Func.ofByte func != some .R) = true := bne_iff_ne.mpr hR
    rw [hother, Bool.or_true, Bool.true_or, Bool.not_true]
    unfold readsEmptyOpret
    split
    · next e => exact absurd rfl (hopret e)
    · rfl

theorem parseFields_body {dest : String} {ht : Int32} {event : Option Event} {p pos' : Nat}
    (h : parseFields fileReaders dest func data (p + 1) = (.ok (ht, event), pos')) :
    parseBody fileReaders dest func ht data (p + 5) = (.ok event, pos') := by
  obtain ⟨bs, pos₁, hheight, hfields⟩ := Scan.bind_eq_ok.mp h
  obtain ⟨event', pos₂, hbody, hevent⟩ := Scan.bind_eq_ok.mp hfields
  obtain rfl : pos₁ = p + 5 := (length_of_fread hheight).2
  cases hevent
  exact hbody

theorem addParsed_eq {cfg : KomodoConfig} {symbol dest : String} {sp : KomodoState}
    {ht : Int32} {event : Option Event}
    (h : parseBody fileReaders dest func ht data pos = (.ok event, pos')) :
    addParsed fileReaders cfg symbol sp ht event =
      addParsed dataReaders cfg symbol sp ht event := by
  have hread : ∀ e, event = some (.opreturn e) → fileReaders.opretFits e = true := by
    intro e he
    have hopret := parseBody_opreturn h
    split at hopret
    · obtain ⟨e', he', hlt, -⟩ := hopret
      rw [he] at he'
      cases he'
      exact decide_eq_true hlt
    · exact absurd he (hopret e)
  cases event with
  | none => rfl
  | some event =>
    cases event with
    | opreturn e =>
      simp only [addParsed, hread e rfl]
      rfl
    | pubkeys e => rfl
    | notarized e => rfl
    | u e => rfl
    | kmdheight e => rfl
    | pricefeed e => rfl
    | rewind height => rfl

theorem usableRecord_eq_some {cfg : KomodoConfig} {p n : Nat} (hfunc : data[p]? = some func) :
    usableRecord cfg (data.drop p) = some n ↔ completeRecord (data.drop p) = some n ∧
      (cfg.isKMD || Func.ofByte func != some .R || n != 49) = true := by
  rw [usableRecord, filter_eq_some_iff, head?_drop, hfunc]
  rfl

theorem parse_complete (cfg : KomodoConfig) (symbol dest : String)
    (sp : KomodoState) {p n : Nat} (hfunc : data[p]? = some func)
    (hn : usableRecord cfg (data.drop p) = some n) :
    ∃ r sp', komodoParsestatefile cfg symbol dest data sp p = .record r sp' (p + n) ∧
      komodoParsestatefiledata cfg symbol dest data sp p = .record r sp' (p + n) := by
  obtain ⟨hcomplete, husable⟩ := (usableRecord_eq_some hfunc).mp hn
  obtain ⟨⟨ht, event⟩, hfile, hdata⟩ :
      Both (parseFields fileReaders dest func) _ data (p + 1) (p + n) :=
    (both_parseFields hfunc).mpr ⟨n, hcomplete, rfl⟩
  have hbody := parseFields_body hfile
  have hempty : readsEmptyOpret cfg event = false := by
    rw [readsEmptyOpret_eq hbody, husable, Bool.not_true]
  refine ⟨⟨func, ht, event, (p + n : Nat) - (p : Nat)⟩,
    addParsed dataReaders cfg symbol sp ht event, ?_, ?_⟩
  · rw [komodoParsestatefile, hfunc]
    simp [hfile, hempty, addParsed_eq hbody]
  · rw [komodoParsestatefiledata, hfunc]
    simp [hdata, hempty]

theorem replay_incomplete (cfg : KomodoConfig) (symbol dest : String)
    (sp : KomodoState) {p : Nat} (hfunc : data[p]? = some func)
    (hn : usableRecord cfg (data.drop p) = none) (fuel : Nat) :
    ¬((replayFrom (komodoParsestatefile cfg symbol dest data) (fuel + 1) sp p).records =
        (replayFrom (komodoParsestatefiledata cfg symbol dest data) (fuel + 1) sp p).records ∧
      (replayFrom (komodoParsestatefile cfg symbol dest data) (fuel + 1) sp p).offset =
        (replayFrom (komodoParsestatefiledata cfg symbol dest data) (fuel + 1) sp p).offset) := by
  rintro ⟨hrecords, hoffset⟩
  have hlt := (List.getElem?_eq_some_iff.mp hfunc).1
  have hbehind := (parseFields_advances dest func data (p + 1) hlt).1
  cases hfile : parseFields fileReaders dest func data (p + 1) with
  | mk result pos₁ =>
    cases hdata : parseFields dataReaders dest func data (p + 1) with
    | mk result' pos₂ =>
      rw [hfile] at hbehind
      dsimp only at hbehind
      simp only [replayFrom, komodoParsestatefile, komodoParsestatefiledata, hfunc, hfile,
        hdata] at hrecords hoffset
      -- the file parser stands behind the letter wherever it stops, the other one at the letter
      cases result with
      | error e =>
        cases result' with
        | error e' =>
          simp only at hoffset
          omega
        | ok a' =>
          by_cases hempty : readsEmptyOpret cfg a'.2 = true
          · simp only [hempty, if_true] at hoffset
            omega
          · simp only [hempty] at hrecords
            cases hrecords
      | ok a =>
        cases result' with
        | error e' =>
          by_cases hempty : readsEmptyOpret cfg a.2 = true
          · simp only [hempty, if_true] at hoffset
            omega
          · simp only [hempty] at hrecords
            cases hrecords
        | ok a' =>
          by_cases hempty : readsEmptyOpret cfg a.2 = true <;>
            by_cases hempty' : readsEmptyOpret cfg a'.2 = true <;>
            simp only [hempty, hempty', if_true] at hrecords hoffset
          · omega
          · cases hrecords
          · cases hrecords
          · obtain ⟨hrecord, -⟩ := List.cons.inj hrecords
            obtain ⟨-, hht, hevent, hbytes⟩ := FileRecord.mk.inj hrecord
            obtain rfl : a = a' := Prod.ext hht hevent
            obtain rfl : pos₁ = pos₂ := by omega
            obtain ⟨n, hsome, rfl⟩ := (both_parseFields hfunc).mp ⟨a, hfile, hdata⟩
            have hbody : parseBody fileReaders dest func a.1 data (p + 5) = (.ok a.2, p + n) :=
              parseFields_body hfile
            rw [readsEmptyOpret_eq hbody, Bool.not_eq_true, Bool.not_eq_false'] at hempty
            rw [(usableRecord_eq_some hfunc).mpr ⟨hsome, hempty⟩] at hn
            cases hn

def Replay.Agree (F D : Replay) : Prop :=
  F.records = D.records ∧ F.sp = D.sp ∧ F.offset = D.offset

theorem replayFrom_agree_iff (cfg : KomodoConfig) (symbol dest : String)
    {fuel n : Nat} (sp : KomodoState) {p : Nat} (hfuel : data.length - p < fuel)
    (hn : data.length - p ≤ n) :
    (replayFrom (komodoParsestatefile cfg symbol dest data) fuel sp p).Agree
        (replayFrom (komodoParsestatefiledata cfg symbol dest data) fuel sp p) ↔
      completeRecordsFrom cfg n (data.drop p) = true := by
  induction fuel generalizing n sp p with
  | zero => omega
  | succ fuel ih =>
    cases hfunc : data[p]? with
    | none =>
      rw [drop_eq_nil_of_le (getElem?_eq_none_iff.mp hfunc)]
      simp [replayFrom, komodoParsestatefile, komodoParsestatefiledata, hfunc,
        completeRecordsFrom, Replay.Agree]
    | some func =>
      have hlt := (List.getElem?_eq_some_iff.mp hfunc).1
      obtain ⟨n, rfl⟩ : ∃ m, n = m + 1 := ⟨n - 1, by omega⟩
      have hunfold : completeRecordsFrom cfg (n + 1) (data.drop p) =
          match usableRecord cfg (data.drop p) with
          | some k => completeRecordsFrom cfg n ((data.drop p).drop k)
          | none => false := by
        rw [drop_eq_getElem_cons hlt]
        rfl
      cases hc : usableRecord cfg (data.drop p) with
      | none =>
        rw [hunfold, hc]
        have hpart := replay_incomplete cfg symbol dest sp hfunc hc fuel
        exact ⟨fun h => absurd ⟨h.1, h.2.2⟩ hpart, fun h => by cases h⟩
      | some k =>
        obtain ⟨r, sp', hfile, hdata⟩ := parse_complete cfg symbol dest sp hfunc hc
        have hpos := five_le_recordSize
          (completeRecord_eq_some.mp ((usableRecord_eq_some hfunc).mp hc).1).1
        rw [hunfold, hc]
        simp only [drop_drop, replayFrom, hfile, hdata, Replay.Agree,
          cons.injEq, true_and]
        exact ih sp' (by omega) (by omega)

end Elosys
