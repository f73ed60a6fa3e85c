import Elosys.KomodoState

/-!
# Notarisation Events

The events of `komodo_structs.h` and what `komodo_events.cpp` does with them. A height that is not
positive is a rewind, which only drops events from the list, since `komodo_event_undo` does nothing
at the base class. `komodo_kvupdate` is left out, and `KOMODO_LASTMINED` is a field of the node that
connects blocks.
-/

open List

namespace Elosys

/-! ### Events -/

structure EventNotarized where
  height : Int32
  dest : String
  blockhash : UInt256 := .null
  desttxid : UInt256 := .null
  MoM : UInt256 := .null
  notarizedheight : Int32 := 0
  MoMdepth : Int32 := 0
  deriving DecidableEq

def pubkeysSize : Nat := 64 * 33

/-- `event_pubkeys`; the keys stand one after the other. -/
structure EventPubkeys where
  height : Int32
  num : UInt8 := 0
  pubkeys : List UInt8 := replicate pubkeysSize 0
  deriving DecidableEq

structure EventU where
  height : Int32
  n : UInt8 := 0
  nid : UInt8 := 0
  mask : List UInt8 := replicate 8 0
  hash : List UInt8 := replicate 32 0
  deriving DecidableEq

structure EventKmdheight where
  height : Int32
  kheight : Int32 := 0
  timestamp : UInt32 := 0
  deriving DecidableEq

structure EventOpreturn where
  height : Int32
  txid : UInt256 := .null
  vout : UInt16 := 0
  value : UInt64 := 0
  opret : List UInt8 := []
  deriving DecidableEq

/-- `event_pricefeed`, with the prices stored. -/
structure EventPricefeed where
  height : Int32
  num : UInt8 := 0
  prices : List UInt32 := []
  deriving DecidableEq

/-- An event of any kind. -/
inductive Event where
  | pubkeys (e : EventPubkeys)
  | notarized (e : EventNotarized)
  | u (e : EventU)
  | kmdheight (e : EventKmdheight)
  | opreturn (e : EventOpreturn)
  | pricefeed (e : EventPricefeed)
  | rewind (height : Int32)
  deriving DecidableEq

def Event.height : Event → Int32
  | .pubkeys e => e.height
  | .notarized e => e.height
  | .u e => e.height
  | .kmdheight e => e.height
  | .opreturn e => e.height
  | .pricefeed e => e.height
  | .rewind height => height

/-! ### The state -/

/-- A node's configuration. `verifynotarization` is `komodo_verifynotarization`, which asks the
other chain's daemon. -/
structure KomodoConfig where
  chainSymbol : String
  externalNotaries : Bool := false
  isKomodoNotary : Bool := false
  verifynotarization (symbol dest : String) (height notarizedHeight : Int32)
    (notarizedHash notarizedDesttxid : UInt256) : Int32 := 0

variable (cfg : KomodoConfig)

def KomodoConfig.isKMD : Bool := cfg.chainSymbol == ""

def KomodoConfig.symbol : String :=
  if cfg.isKMD then "KMD" else cfg.chainSymbol

def KomodoConfig.dest : String := if cfg.isKMD then "BTC" else "KMD"

/-- `knotaries_entry`: the notaries' keys by `notaryid`. -/
structure KnotariesEntry where
  height : Nat := 0
  numnotaries : Nat := 0
  notaries : List (List UInt8) := []
  deriving DecidableEq

/-- `komodo_state`, with `Pubkeys` and `hwmheight` of `komodo_notary.cpp`. -/
structure KomodoState extends Checkpoints where
  SAVEDHEIGHT : Int32 := 0
  CURRENT_HEIGHT : Int32 := 0
  SAVEDTIMESTAMP : UInt32 := 0
  events : List Event := []
  Pubkeys : List KnotariesEntry := []
  hwmheight : Int32 := 0

variable (sp : KomodoState)

def KomodoState.addEvent (e : Event) : KomodoState :=
  if cfg.isKMD then sp else { sp with events := sp.events ++ [e] }

def komodoNotarizedUpdate (nHeight notarizedHeight : Int32)
    (notarizedHash notarizedDesttxid MoM : UInt256) (MoMdepth : Int32) : KomodoState :=
  if notarizedHeight ≥ nHeight then sp
  else { sp with
    toCheckpoints := sp.toCheckpoints.addCheckpoint
      { nHeight := nHeight
        notarizedHeight := notarizedHeight
        notarizedHash := notarizedHash
        notarizedDesttxid := notarizedDesttxid
        MoM := MoM
        MoMdepth := MoMdepth } }

def komodoEventaddNotarized (symbol : String)
    (height : Int32) (ntz : EventNotarized) : KomodoState :=
  if cfg.isKomodoNotary && decide (cfg.verifynotarization symbol ntz.dest height
      ntz.notarizedheight ntz.blockhash ntz.desttxid < 0) then sp
  else if cfg.chainSymbol == symbol || (cfg.isKMD && symbol == "KMD") then
    komodoNotarizedUpdate (sp.addEvent cfg (.notarized ntz)) height ntz.notarizedheight
      ntz.blockhash ntz.desttxid ntz.MoM ntz.MoMdepth
  else sp

/-! ### Notaries -/

def komodoElectionGap : Nat := 2000

/-- `KOMODO_MAXBLOCKS / KOMODO_ELECTION_GAP`, the used rows of `Pubkeys`. -/
def numElections : Nat := 250000 / komodoElectionGap

def htIndexFromHeight (height : Nat) : Nat :=
  if numElections ≤ height / komodoElectionGap then numElections - 1
  else height / komodoElectionGap

def firstElection (origheight : Int32) : Nat :=
  if 0 < origheight then
    htIndexFromHeight
      (((origheight.toNatClampNeg + komodoElectionGap / 2) / komodoElectionGap + 1) *
        komodoElectionGap)
  else 0

/-- The loop of `komodo_notarysinit` from row `i` on, to one of a later election. -/
def notarysinitRows (N : KnotariesEntry) (earlier : Bool) :
    Nat → List KnotariesEntry → List KnotariesEntry
  | _, [] => []
  | i, row :: rows =>
    if row.height != 0 && earlier then row :: rows
    else { N with height := i * komodoElectionGap } :: notarysinitRows N earlier (i + 1) rows

def komodoNotarysinit (origheight : Int32) (pubkeys : List UInt8) (num : UInt8) : KomodoState :=
  let N : KnotariesEntry :=
    { numnotaries := num.toNat
      notaries := (range num.toNat).map fun k => (pubkeys.drop (33 * k)).take 33 }
  let htind := firstElection origheight
  { sp with
    Pubkeys := sp.Pubkeys.take htind ++
      notarysinitRows N (decide (origheight < sp.hwmheight)) htind (sp.Pubkeys.drop htind)
    hwmheight := if sp.hwmheight < origheight then origheight else sp.hwmheight }

def komodoEventaddPubkeys (height : Int32) (pk : EventPubkeys) : KomodoState :=
  komodoNotarysinit (sp.addEvent cfg (.pubkeys pk)) height pk.pubkeys pk.num

/-! ### The other events -/

def komodoEventaddPricefeed (pf : EventPricefeed) : KomodoState :=
  sp.addEvent cfg (.pricefeed pf)

/-- `komodo_eventadd_opreturn` for a script that is not empty: on an asset chain it reads the first
byte, see `readsEmptyOpret`. -/
def komodoEventaddOpreturn (opret : EventOpreturn) : KomodoState :=
  if cfg.isKMD then sp else sp.addEvent cfg (.opreturn opret)

/-- `komodo_event_rewind`: events at a height and above go, from the back. -/
def komodoEventRewind (height : Int32) : KomodoState :=
  { sp with
    events := (sp.events.reverse.dropWhile fun ev => decide (height ≤ ev.height)).reverse }

def komodoSetkmdheight (kmdheight : Int32) (timestamp : UInt32) : KomodoState :=
  let saved : KomodoState :=
    if sp.SAVEDHEIGHT < kmdheight then
      { sp with
        SAVEDHEIGHT := kmdheight
        SAVEDTIMESTAMP := timestamp }
    else sp
  if sp.CURRENT_HEIGHT < kmdheight then { saved with CURRENT_HEIGHT := kmdheight } else saved

def komodoEventaddKmdheight (height : Int32) (kmdht : EventKmdheight) : KomodoState :=
  if 0 < kmdht.kheight then
    komodoSetkmdheight (sp.addEvent cfg (.kmdheight kmdht)) kmdht.kheight kmdht.timestamp
  else komodoEventRewind (sp.addEvent cfg (.rewind height)) height

end Elosys
