import Elosys.NotarisationScan

/-!
# The Key-Value Store

An `OP_RETURN` that starts with a `K` sets a key, protected by a signature until it expires. But
`komodo_kvupdate` asks whether it has at the height that the update names, and `komodo_kvsearch`
overwrites the flags of the update: every entry lasts a day, and none is protected.
-/

open ByteCodec Program Except

namespace Elosys

/-! ### Entries and updates -/

/-- `komodo_kv`, but for the key. -/
structure KvEntry where
  pubkey : UInt256
  value : List UInt8
  height : Int32
  flags : UInt32
  deriving DecidableEq

/-- The hash table `KOMODO_KV`. -/
def KvStore := List UInt8 → Option KvEntry

def KvStore.set (kv : KvStore) (key : List UInt8) (e : KvEntry) : KvStore :=
  fun key' => if key' = key then some e else kv key'

def KvStore.erase (kv : KvStore) (key : List UInt8) : KvStore :=
  fun key' => if key' = key then none else kv key'

@[simp] theorem KvStore.set_same (kv : KvStore) (key : List UInt8) (e : KvEntry) :
    kv.set key e key = some e :=
  if_pos rfl

theorem KvStore.set_other (kv : KvStore) {key key' : List UInt8} (e : KvEntry) (h : key' ≠ key) :
    kv.set key e key' = kv key' :=
  if_neg h

@[simp] theorem KvStore.set_erase (kv : KvStore) (key : List UInt8) (e : KvEntry) :
    (kv.erase key).set key e = kv.set key e := by
  funext key'
  simp only [set, erase]
  split <;> rfl

/-- The arguments of `komodo_kvupdate`; the length is the buffer's. -/
structure KvCall where
  opretbuf : List UInt8
  value : UInt64

namespace KvCall

variable (u : KvCall)

def keylen : Nat := ofLeBytes (bytesAt u.opretbuf 1 2)

def valuesize : Nat := ofLeBytes (bytesAt u.opretbuf 3 2)

def height : Int32 := int32Of (bytesAt u.opretbuf 5 4)

def flags : UInt32 := UInt32.ofNat (ofLeBytes (bytesAt u.opretbuf 9 4))

def key : List UInt8 := bytesAt u.opretbuf 13 u.keylen

def valueptr : List UInt8 := u.opretbuf.drop (13 + u.keylen)

def newValue : List UInt8 := bytesAt u.opretbuf (13 + u.keylen) u.valuesize

def coresize : Nat := 13 + u.keylen + u.valuesize

def pubkey : UInt256 :=
  if u.coresize + 32 ≤ u.opretbuf.length then uint256Of (bytesAt u.opretbuf u.coresize 32)
  else .null

def sig : UInt256 :=
  if u.opretbuf.length = u.coresize + 64 then
    uint256Of (bytesAt u.opretbuf (u.coresize + 32) 32)
  else .null

end KvCall

/-! ### Flags and fees -/

variable (flags : UInt32)

def komodoKvnumdays : Nat := min (((flags >>> 2) &&& 0x3ff).toNat + 1) 365

/-- `komodo_kvduration`, in blocks. -/
def komodoKvduration : Int32 := Int32.ofNat (komodoKvnumdays flags * 1440)

/-- `komodo_kvfee`; a key of length zero divides by zero. -/
def komodoKvfee (opretlen keylen : Nat) : Except Fault UInt64 :=
  if keylen = 0 then .error (.exception "division by zero")
  else
    let size := Int32.ofNat opretlen * Int32.ofNat opretlen / Int32.ofNat (min keylen 32)
    let fee := (Int32.ofNat (komodoKvnumdays flags) * size).toInt64.toUInt64
    .ok (if fee < 100000 then 100000 else fee)

def KvEntry.Expired (e : KvEntry) (currentHeight : Int32) : Prop :=
  e.height + komodoKvduration e.flags < currentHeight

instance (e : KvEntry) (currentHeight : Int32) : Decidable (e.Expired currentHeight) :=
  inferInstanceAs (Decidable (_ < _))

/-- `komodo_kvsearch`: a key's entry, removed if expired. -/
def komodoKvsearch (kv : KvStore) (currentHeight : Int32) (key : List UInt8) :
    KvStore × Option KvEntry :=
  match kv key with
  | none => (kv, none)
  | some e => if e.Expired currentHeight then (kv.erase key, none) else (kv, some e)

def unhex (c : UInt8) : Option Nat :=
  if 0x30 ≤ c ∧ c ≤ 0x39 then some (c.toNat - 0x30)
  else if 0x61 ≤ c ∧ c ≤ 0x66 then some (c.toNat - 0x61 + 10)
  else if 0x41 ≤ c ∧ c ≤ 0x46 then some (c.toNat - 0x41 + 10)
  else none

/-- `_decode_hex` of two characters. -/
def decodeHexByte (high low : UInt8) : UInt8 :=
  UInt8.ofNat ((unhex high).getD 0 * 16 + (unhex low).getD 0)

/-- The public key of an update: a value that reads as a transfer says whose. -/
def KvCall.transferPubkey (u : KvCall) : UInt256 :=
  let str := u.valueptr.drop 9
  if u.valueptr.take 9 = asciiBytes "transfer:" ∧
      (str.takeWhile fun c => (unhex c).isSome).length = 64 then
    uint256Of ((List.range 32).map fun i =>
      decodeHexByte (str.getD (2 * i) 0) (str.getD (2 * i + 1) 0)).reverse
  else u.pubkey

/-! ### `komodo_kvupdate` -/

def KvCall.newEntry (u : KvCall) : KvEntry where
  pubkey := u.pubkey
  value := u.newValue
  height := u.height
  flags := 0

/-- The entry that was found is changed; its flags stay. -/
def KvCall.changed (u : KvCall) (e : KvEntry) : KvEntry where
  pubkey := u.transferPubkey
  value := if e.flags &&& 1 = 0 then u.newValue else e.value
  height := u.height
  flags := e.flags

def KvCall.SizeFits (u : KvCall) : Prop :=
  u.opretbuf.length = u.coresize ∨ u.opretbuf.length = u.coresize + 32 ∨
    u.opretbuf.length = u.coresize + 64

instance (u : KvCall) : Decidable u.SizeFits := inferInstanceAs (Decidable (_ ∨ _ ∨ _))

section Update

variable (cfg : KomodoConfig) (sigverify : List UInt8 → UInt256 → UInt256 → Bool)

/-- `komodo_kvupdate` for a well-formed update that pays its fee. -/
def kvApply (kv : KvStore) (u : KvCall) : KvStore :=
  match komodoKvsearch kv u.height u.key with
  | (kv, none) => kv.set u.key u.newEntry
  | (kv, some e) =>
    if e.pubkey ≠ .null ∧ sigverify (u.key ++ e.value) e.pubkey u.sig = false then kv
    else kv.set u.key (u.changed e)

/-- `komodo_kvupdate`; `sigverify` is `komodo_kvsigverify`. -/
def komodoKvupdate (kv : KvStore) (u : KvCall) : Except Fault KvStore :=
  if cfg.isKMD then .ok kv
  else if u.opretbuf.length < u.keylen + 13 then .ok kv
  else do
    let fee ← komodoKvfee u.flags u.opretbuf.length u.keylen
    if fee ≤ u.value then
      if u.SizeFits then .ok (kvApply sigverify kv u) else .ok kv
    else .ok kv

def Accepted (u : KvCall) : Prop :=
  cfg.isKMD = false ∧ u.keylen + 13 ≤ u.opretbuf.length ∧
    (∃ fee, komodoKvfee u.flags u.opretbuf.length u.keylen = .ok fee ∧ fee ≤ u.value) ∧
    u.SizeFits

end Update

/-! ### What an update does -/

variable {e : KvEntry}

section Step

variable {cfg : KomodoConfig} {sigverify : List UInt8 → UInt256 → UInt256 → Bool}
  {kv kv' : KvStore} {u : KvCall}

theorem komodoKvupdate_of_accepted (h : Accepted cfg u) :
    komodoKvupdate cfg sigverify kv u = .ok (kvApply sigverify kv u) := by
  obtain ⟨hkmd, hlen, ⟨fee, hfee, hpaid⟩, hsize⟩ := h
  rw [komodoKvupdate, hkmd, if_neg (by decide), if_neg (Nat.not_lt.mpr hlen), hfee]
  change (if fee ≤ u.value then _ else _) = _
  rw [if_pos hpaid, if_pos hsize]

theorem eq_of_not_accepted (h : ¬Accepted cfg u)
    (hok : komodoKvupdate cfg sigverify kv u = .ok kv') : kv' = kv := by
  unfold komodoKvupdate at hok
  split at hok
  · exact (ok.inj hok).symm
  · next hkmd =>
      split at hok
      · exact (ok.inj hok).symm
      · next hlen =>
          obtain ⟨fee, hfee, hok⟩ := bind_eq_ok.mp hok
          split at hok
          · next hpaid =>
              split at hok
              · next hsize =>
                  exact absurd ⟨Bool.of_not_eq_true hkmd, Nat.not_lt.mp hlen, ⟨fee, hfee, hpaid⟩,
                    hsize⟩ h
              · exact (ok.inj hok).symm
          · exact (ok.inj hok).symm

theorem kvApply_of_expired (hkey : kv u.key = some e)
    (hexpired : e.Expired u.height) : kvApply sigverify kv u = kv.set u.key u.newEntry := by
  simp only [kvApply, komodoKvsearch, hkey, if_pos hexpired, KvStore.set_erase]

theorem kvApply_of_unsigned (hkey : kv u.key = some e)
    (hexpired : ¬e.Expired u.height) (hpubkey : e.pubkey ≠ .null)
    (hsig : sigverify (u.key ++ e.value) e.pubkey u.sig = false) :
    kvApply sigverify kv u = kv := by
  simp only [kvApply, komodoKvsearch, hkey, if_neg hexpired]
  rw [if_pos ⟨hpubkey, hsig⟩]

theorem kvApply_other {key : List UInt8} (hkey : key ≠ u.key) :
    kvApply sigverify kv u key = kv key := by
  unfold kvApply komodoKvsearch
  cases hfound : kv u.key with
  | none => exact KvStore.set_other kv _ hkey
  | some e =>
    by_cases hexpired : e.Expired u.height
    · simp only [if_pos hexpired, KvStore.set_erase]
      exact KvStore.set_other kv _ hkey
    · simp only [if_neg hexpired]
      split
      · rfl
      · exact KvStore.set_other kv _ hkey

end Step

/-! ### Ownership -/

section Ownership

variable (cfg : KomodoConfig) (sigverify : List UInt8 → UInt256 → UInt256 → Bool)

def Signed (u : KvCall) (key : List UInt8) (e : KvEntry) : Prop :=
  u.key = key ∧ sigverify (key ++ e.value) e.pubkey u.sig = true

def Keeps (currentHeight : Int32) (kv : KvStore) (u : KvCall) (kv' : KvStore) : Prop :=
  ∀ key e, kv key = some e → ¬e.Expired currentHeight → e.pubkey ≠ .null →
    ¬Signed sigverify u key e → kv' key = some e

/-- **The update names no height at which an entry has expired early**: an owned entry under its
key, not expired at the chain's height and not signed for, has not expired at the named height. -/
def HeightHonest (currentHeight : Int32) (kv : KvStore) (u : KvCall) : Prop :=
  Accepted cfg u → ∀ e, kv u.key = some e → ¬e.Expired currentHeight → e.pubkey ≠ .null →
    sigverify (u.key ++ e.value) e.pubkey u.sig = false → ¬e.Expired u.height

theorem komodoKvnumdays_le : 1 ≤ komodoKvnumdays flags ∧ komodoKvnumdays flags ≤ 365 := by
  unfold komodoKvnumdays
  omega

theorem not_expired_self {currentHeight : Int32} (hpos : 0 ≤ currentHeight)
    (h : ¬e.Expired currentHeight) : ¬e.Expired e.height := by
  obtain ⟨hlow, hhigh⟩ := komodoKvnumdays_le e.flags
  have hduration : (komodoKvduration e.flags).toInt = komodoKvnumdays e.flags * 1440 := by
    rw [komodoKvduration, Int32.toInt_ofNat_of_lt (by omega)]
    omega
  have hmin := e.height.le_toInt
  have hmax := e.height.toInt_lt
  unfold KvEntry.Expired at h ⊢
  rw [Int32.lt_iff_toInt_lt, Int32.toInt_add, hduration] at h ⊢
  have hpos' : (0 : Int) ≤ currentHeight.toInt := Int32.le_iff_toInt_le.mp hpos
  -- a sum that wraps is negative, and the entry would have expired
  by_cases hwrap : e.height.toInt + komodoKvnumdays e.flags * 1440 < 2 ^ 31
  · rw [Int.bmod_eq_of_le (by omega) (by omega)] at h ⊢
    omega
  · have hsum : Int.bmod (e.height.toInt + komodoKvnumdays e.flags * 1440) (2 ^ 32) =
        e.height.toInt + komodoKvnumdays e.flags * 1440 - 2 ^ 32 := by
      rw [Int.bmod_def, Int.emod_eq_of_lt (by omega) (by omega), if_neg (by omega)]
      rfl
    omega

theorem keeps_of_honest {currentHeight : Int32} {kv kv' : KvStore} {u : KvCall}
    (hhonest : HeightHonest cfg sigverify currentHeight kv u)
    (hok : komodoKvupdate cfg sigverify kv u = .ok kv') :
    Keeps sigverify currentHeight kv u kv' := by
  intro key e hkey hlive hpubkey hunsigned
  by_cases haccepted : Accepted cfg u
  · rw [komodoKvupdate_of_accepted haccepted] at hok
    obtain rfl := ok.inj hok
    by_cases hsame : key = u.key
    · subst hsame
      have hsig :=
        Bool.of_not_eq_true fun hsig => hunsigned ⟨rfl, hsig⟩
      rwa [kvApply_of_unsigned hkey (hhonest haccepted e hkey hlive hpubkey hsig) hpubkey hsig]
    · rwa [kvApply_other hsame]
  · rwa [eq_of_not_accepted haccepted hok]

def kvStep (kv : KvStore) (c : Int32 × KvCall) : Except Fault KvStore :=
  komodoKvupdate cfg sigverify kv c.2

/-- **Ownership of keys.** An update keeps every owned entry, not expired and not signed for,
exactly if it is honest about its height. -/
theorem kv_ownership : (∀ (kv : KvStore) (currentHeight : Int32) (u : KvCall), 0 ≤ currentHeight →
      ((∀ kv', komodoKvupdate cfg sigverify kv u = .ok kv' →
          Keeps sigverify currentHeight kv u kv') ↔
        HeightHonest cfg sigverify currentHeight kv u)) ∧
    ∀ (kv kv' : KvStore) (calls : List (Int32 × KvCall)) (key : List UInt8) (e : KvEntry),
      kv key = some e → e.pubkey ≠ .null →
      AllMeet (kvStep cfg sigverify) (fun kv c => ¬e.Expired c.1 ∧ ¬Signed sigverify c.2 key e ∧
        HeightHonest cfg sigverify c.1 kv c.2) calls kv →
      calls.foldlM (kvStep cfg sigverify) kv = .ok kv' → kv' key = some e := by
  constructor
  · intro kv currentHeight u hpos
    constructor
    · intro hkeeps haccepted e hkey hlive hpubkey hsig hexpired
      have hkept := hkeeps _ (komodoKvupdate_of_accepted haccepted) u.key e hkey hlive hpubkey
        fun hsigned => by
          rw [hsigned.2] at hsig
          cases hsig
      rw [kvApply_of_expired hkey hexpired, KvStore.set_same] at hkept
      -- the entry would have been replaced by itself
      have hheight : u.height = e.height := congrArg KvEntry.height (Option.some.inj hkept)
      rw [hheight] at hexpired
      exact not_expired_self hpos hlive hexpired
    · intro hhonest kv' hok
      exact keeps_of_honest cfg sigverify hhonest hok
  · intro kv kv' calls key e hkey hpubkey hmeet hrun
    refine hmeet.invariant (P := fun kv => kv key = some e) ?_ hkey hrun
    rintro c kv kv' ⟨hlive, hunsigned, hhonest⟩ hkey hstep
    exact keeps_of_honest cfg sigverify hhonest hstep key e hkey hlive hpubkey hunsigned

end Ownership

/-! ### An entry that is taken over -/

def kvUpdateBytes (height : Int32) (key value rest : List UInt8) : List UInt8 :=
  0x4b :: (leBytes 2 key.length ++ (leBytes 2 value.length ++ (int32Bytes height ++
    (leBytes 4 0 ++ (key ++ (value ++ rest))))))

def ownedStore : KvStore :=
  KvStore.set (fun _ => none) [1] { pubkey := 5, value := [7], height := 100, flags := 0 }

def updateAt (height : Int32) : KvCall where
  opretbuf := kvUpdateBytes height [1] [9] []
  value := 100000

/-- A store that two updates before its entry expires do not change. -/
theorem kv_ownership_kept : ∃ kv', [(120, updateAt 120), (130, updateAt 125)].foldlM
        (kvStep assetChain fun _ _ _ => false) ownedStore = .ok kv' ∧
      kv' [1] = some { pubkey := 5, value := [7], height := 100, flags := 0 } := by
  have hrun : ∃ kv', [(120, updateAt 120), (130, updateAt 125)].foldlM
      (kvStep assetChain fun _ _ _ => false) ownedStore = .ok kv' := ⟨_, rfl⟩
  obtain ⟨kv', hrun⟩ := hrun
  refine ⟨kv', hrun, (kv_ownership assetChain fun _ _ _ => false).2 _ _ _ _ _ rfl (by decide) ?_
    hrun⟩
  have hhonest : ∀ (currentHeight : Int32) (kv : KvStore) (height : Int32),
      kv [1] = some { pubkey := 5, value := [7], height := 100, flags := 0 } →
      height ≤ 1540 → (updateAt height).height = height → (updateAt height).key = [1] →
      HeightHonest assetChain (fun _ _ _ => false) currentHeight kv (updateAt height) := by
    intro currentHeight kv height hkv hle hheight hkey _ e he _ _ _
    rw [hkey, hkv] at he
    obtain rfl := Option.some.inj he
    rw [hheight]
    exact Int32.not_lt.mpr hle
  refine ⟨⟨by decide +kernel, fun h => absurd h.2 (by decide), hhonest 120 _ 120 rfl (by decide)
    (by decide +kernel) (by decide +kernel)⟩, fun kv₁ hfirst => ?_⟩
  have hkv₁ : ((kvStep assetChain (fun _ _ _ => false) ownedStore (120, updateAt 120)).toOption.bind
      fun kv => kv [1]) = some { pubkey := 5, value := [7], height := 100, flags := 0 } := by
    decide +kernel
  rw [hfirst] at hkv₁
  exact ⟨⟨by decide +kernel, fun h => absurd h.2 (by decide), hhonest 130 _ 125 hkv₁ (by decide)
    (by decide +kernel) (by decide +kernel)⟩, fun _ _ => trivial⟩

/-- **An entry is taken over**: it has not expired, and an unsigned update that names a late
height replaces its value. -/
theorem kv_taken_over :
    ¬(KvEntry.Expired { pubkey := 5, value := [7], height := 100, flags := 0 } 120) ∧
      ((kvStep assetChain (fun _ _ _ => false) ownedStore (120, updateAt 100000)).toOption.bind
        fun kv => kv [1]) = some { pubkey := 0, value := [9], height := 100000, flags := 0 } := by
  decide +kernel

end Elosys
