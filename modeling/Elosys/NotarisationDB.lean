import Elosys.NotarisationCodec

/-!
# The Notarisation Database

`ConnectNotarisations` and `DisconnectNotarisations` keep the notarisations of a block under its
hash, and each once more under the transaction hash in its data, all in one key space. Values are
bytes, whose meaning depends on the reader.
-/

open ByteCodec Program AssocBatch List Option

namespace Elosys

/-! ### The database -/

abbrev NotarisationDB := Assoc UInt256 (List UInt8)

/-- A `Notarisation`, writing. -/
def writeEntry (n : NotarisationEntry) : List UInt8 := writeUint256 n.1 ++ n.2.serialize

def readEntry (isKMD : Bool) : Reader NotarisationEntry := do
  let txid ← readUint256
  let data ← NotarisationData.unserialize isKMD
  return (txid, data)

/-- `CDBWrapper::Read`: what follows the value is ignored. -/
def NotarisationDB.read {α : Type} (db : NotarisationDB) (r : Reader α) (key : UInt256) :
    Option α :=
  (db.lookup key).bind fun value =>
    match r.run value with
    | .ok (a, _) => some a
    | .error _ => none

def getBlockNotarisations (isKMD : Bool) (db : NotarisationDB) (blockHash : UInt256) :
    Option (List NotarisationEntry) :=
  db.read (readVector maxSize (readEntry isKMD)) blockHash

def getBackNotarisation (isKMD : Bool) (db : NotarisationDB) (notarisationHash : UInt256) :
    Option NotarisationEntry :=
  db.read (readEntry isKMD) notarisationHash

/-- `WriteBackNotarisations`, as entries. -/
def writeBackNotarisations (notarisations : List NotarisationEntry) :
    List (UInt256 × List UInt8) :=
  (notarisations.filter fun n => n.2.txHash ≠ .null).map fun n => (n.2.txHash, writeEntry n)

/-- `EraseBackNotarisations`, as the keys that it erases. -/
def eraseBackNotarisations (notarisations : List NotarisationEntry) : List UInt256 :=
  (notarisations.filter fun n => n.2.txHash ≠ .null).map fun n => n.2.txHash

def connectNotarisations (isKMD : Bool) (world : NotaryWorld) (block : CBlock) (height : Nat)
    (db : NotarisationDB) : NotarisationDB :=
  let notarisations := scanBlockNotarisations isKMD world block height
  if 0 < notarisations.length then
    writeAll ((block.hash, vector writeEntry notarisations) ::
      writeBackNotarisations notarisations) db
  else db

def disconnectNotarisations (isKMD : Bool) (block : CBlock) (db : NotarisationDB) :
    NotarisationDB :=
  match getBlockNotarisations isKMD db block.hash with
  | some nibs => eraseAll (block.hash :: eraseBackNotarisations nibs) db
  | none => db

/-! ### Runs -/

/-- A connected block, with what the node then knew. -/
structure ConnectedBlock where
  block : CBlock
  nHeight : Nat
  world : NotaryWorld

def ConnectedBlock.notarisations (isKMD : Bool) (b : ConnectedBlock) : List NotarisationEntry :=
  scanBlockNotarisations isKMD b.world b.block b.nHeight

def ConnectedBlock.txHashes (isKMD : Bool) (b : ConnectedBlock) : List UInt256 :=
  eraseBackNotarisations (b.notarisations isKMD)

/-- The active chain, from the tip down, and the database. -/
structure NotarisedChain where
  db : NotarisationDB := ∅
  chain : List ConnectedBlock := []

/-- The active chain gains a block or loses its tip. -/
inductive NotarisationOp where
  | connect (b : ConnectedBlock)
  | disconnect

def NotarisedChain.step (isKMD : Bool) (s : NotarisedChain) :
    NotarisationOp → Except Fault NotarisedChain
  | .connect b => .ok ⟨connectNotarisations isKMD b.world b.block b.nHeight s.db, b :: s.chain⟩
  | .disconnect =>
    match s.chain with
    | [] => .error (.assertion "pindexDelete")
    | b :: chain => .ok ⟨disconnectNotarisations isKMD b.block s.db, chain⟩

/-- **What keeps the keys of the blocks apart.** A connected block is new, its notarisations name
no block of the chain nor itself, none of the chain names it, and a back notarisation has a
transaction hash. A disconnected block shares no transaction hash with one below. -/
def ownKeys (isKMD : Bool) (s : NotarisedChain) : NotarisationOp → Prop
  | .connect b =>
    (∀ c ∈ s.chain, c.block.hash ≠ b.block.hash) ∧
      (∀ c ∈ s.chain, c.block.hash ∉ b.txHashes isKMD) ∧
      b.block.hash ∉ b.txHashes isKMD ∧
      (∀ c ∈ s.chain, b.block.hash ∉ c.txHashes isKMD) ∧
      (∀ tx ∈ b.block.vtx, ∀ n ∈ scanNotarisation isKMD b.world b.nHeight b.block.nTime tx,
        tx.notarisationOpReturn.any (detectBackNotarisation isKMD) = true → n.2.txHash ≠ .null) ∧
      b.block.vtx.length ≤ maxSize
  | .disconnect =>
    ∀ b ∈ s.chain.head?, ∀ c ∈ s.chain.tail, ∀ n ∈ b.notarisations isKMD,
      n.2.txHash ∉ c.txHashes isKMD

instance (isKMD : Bool) (s : NotarisedChain) : ∀ op, Decidable (ownKeys isKMD s op)
  | .connect _ => inferInstanceAs (Decidable (_ ∧ _))
  | .disconnect => inferInstanceAs (Decidable (∀ b ∈ s.chain.head?, _))

variable {isKMD : Bool}

variable {b : ConnectedBlock}

theorem mem_txHashes {t : UInt256} :
    t ∈ b.txHashes isKMD ↔ t ≠ .null ∧ ∃ n ∈ b.notarisations isKMD, n.2.txHash = t := by
  simp only [ConnectedBlock.txHashes, eraseBackNotarisations, List.mem_map, List.mem_filter,
    decide_eq_true_eq]
  constructor
  · rintro ⟨n, ⟨hmem, hne⟩, rfl⟩
    exact ⟨hne, n, hmem, rfl⟩
  · rintro ⟨hne, n, hmem, rfl⟩
    exact ⟨n, ⟨hmem, hne⟩, rfl⟩

theorem read_of_reads {α : Type} {db : NotarisationDB} {r : Reader α} {key : UInt256}
    {value : List UInt8} {a : α} (hlookup : db.lookup key = some value) (h : Reads r value a) :
    db.read r key = some a := by
  have hrun := h []
  rw [append_nil] at hrun
  rw [NotarisationDB.read, hlookup, bind_some, hrun]

theorem read_of_none {α : Type} {db : NotarisationDB} {r : Reader α} {key : UInt256}
    (hlookup : db.lookup key = none) : db.read r key = none := by
  rw [NotarisationDB.read, hlookup, bind_none]

theorem reads_entry {world : NotaryWorld} {nHeight nTime : Nat} {tx : CTransaction}
    {n : NotarisationEntry} (hscan : scanNotarisation isKMD world nHeight nTime tx = some n)
    (hback : tx.notarisationOpReturn.any (detectBackNotarisation isKMD) = true →
      n.2.txHash ≠ .null) : Reads (readEntry isKMD) (writeEntry n) n := by
  obtain ⟨data, hparse, hscan⟩ := bind_eq_some_iff.mp hscan
  split at hscan
  · obtain rfl := some.inj hscan
    obtain ⟨vdata, hopret, hrun⟩ := bind_eq_some_iff.mp hparse
    rw [hopret] at hback
    have hdata := reads_notarisationData (unmarshal_eq_some.mp hrun) hback
    exact (exact_uint256.reads _).bind (hdata.bind_pure rfl)
  · cases hscan

/-! ### One step -/

/-- **The database is in line with the chain.** -/
structure Indexed (isKMD : Bool) (s : NotarisedChain) : Prop where
  hashes : s.chain.Pairwise fun b c => b.block.hash ≠ c.block.hash
  apart : ∀ b ∈ s.chain, ∀ c ∈ s.chain, b.block.hash ∉ c.txHashes isKMD
  readable : ∀ b ∈ s.chain, (b.notarisations isKMD).length ≤ maxSize ∧
    ∀ n ∈ b.notarisations isKMD, Reads (readEntry isKMD) (writeEntry n) n
  blocks : ∀ b ∈ s.chain, s.db.lookup b.block.hash =
    if b.notarisations isKMD = [] then none else some (vector writeEntry (b.notarisations isKMD))
  backs : ∀ b ∈ s.chain, ∀ t ∈ b.txHashes isKMD, s.db.lookup t ≠ none
  origin : ∀ t v, (∀ b ∈ s.chain, b.block.hash ≠ t) → s.db.lookup t = some v →
    ∃ b ∈ s.chain, t ∈ b.txHashes isKMD ∧
      ∃ n ∈ b.notarisations isKMD, n.2.txHash = t ∧ v = writeEntry n

section Connect

variable {db : NotarisationDB} {b : ConnectedBlock} {k : UInt256}

theorem connectNotarisations_eq (isKMD : Bool) (b : ConnectedBlock) (db : NotarisationDB) :
    connectNotarisations isKMD b.world b.block b.nHeight db = if b.notarisations isKMD = [] then db
      else writeAll ((b.block.hash, vector writeEntry (b.notarisations isKMD)) ::
        writeBackNotarisations (b.notarisations isKMD)) db := by
  unfold connectNotarisations ConnectedBlock.notarisations
  by_cases hnil : scanBlockNotarisations isKMD b.world b.block b.nHeight = []
  · rw [hnil]
    rfl
  · rw [if_neg hnil]
    exact if_pos (length_pos_iff.mpr hnil)

theorem lookup_connect_other (hblock : k ≠ b.block.hash) (hback : k ∉ b.txHashes isKMD) :
    (connectNotarisations isKMD b.world b.block b.nHeight db).lookup k = db.lookup k := by
  rw [connectNotarisations_eq]
  split
  · rfl
  · refine lookup_writeAll_of_notMem fun e he hk => ?_
    rcases mem_cons.mp he with rfl | he
    · exact hblock hk.symm
    · obtain ⟨n, hn, rfl⟩ := mem_map.mp he
      exact hback (hk ▸ mem_map_of_mem hn)

theorem lookup_connect_block (hown : b.block.hash ∉ b.txHashes isKMD)
    (hnew : db.lookup b.block.hash = none) :
    (connectNotarisations isKMD b.world b.block b.nHeight db).lookup b.block.hash =
      if b.notarisations isKMD = [] then none
      else some (vector writeEntry (b.notarisations isKMD)) := by
  rw [connectNotarisations_eq]
  split
  · exact hnew
  · change (writeAll (writeBackNotarisations (b.notarisations isKMD)) (db.insert _ _)).lookup _ = _
    rw [lookup_writeAll_of_notMem, AList.lookup_insert]
    intro e he hk
    obtain ⟨n, hn, rfl⟩ := mem_map.mp he
    exact hown (hk ▸ mem_map_of_mem hn)

theorem lookup_connect_back (hown : b.block.hash ∉ b.txHashes isKMD)
    (hback : k ∈ b.txHashes isKMD) :
    ∃ n ∈ b.notarisations isKMD, n.2.txHash = k ∧
      (connectNotarisations isKMD b.world b.block b.nHeight db).lookup k = some (writeEntry n) := by
  obtain ⟨n₀, hn₀, htx⟩ := mem_map.mp hback
  have hne : b.notarisations isKMD ≠ [] := ne_nil_of_mem (mem_of_mem_filter hn₀)
  have hwritten : ∃ e ∈ (b.block.hash, vector writeEntry (b.notarisations isKMD)) ::
      writeBackNotarisations (b.notarisations isKMD), e.1 = k :=
    ⟨(n₀.2.txHash, writeEntry n₀), mem_cons_of_mem _ (mem_map_of_mem hn₀), htx⟩
  obtain ⟨e, he, hkey, hlookup⟩ := exists_lookup_writeAll (m := db) hwritten
  rw [connectNotarisations_eq, if_neg hne, hlookup]
  rcases mem_cons.mp he with rfl | he
  · obtain rfl : b.block.hash = k := hkey
    exact absurd hback hown
  · obtain ⟨n, hn, rfl⟩ := mem_map.mp he
    exact ⟨n, mem_of_mem_filter hn, hkey, rfl⟩

end Connect

variable {s : NotarisedChain}

theorem Indexed.connect (h : Indexed isKMD s) (hcond : ownKeys isKMD s (.connect b)) :
    Indexed isKMD ⟨connectNotarisations isKMD b.world b.block b.nHeight s.db, b :: s.chain⟩ := by
  obtain ⟨hnew, hnames, hown, hnamed, hback, hsize⟩ := hcond
  have hnone : s.db.lookup b.block.hash = none := by
    rw [eq_none_iff_forall_ne_some]
    intro v hv
    obtain ⟨c, hc, hmem, -⟩ := h.origin b.block.hash v hnew hv
    exact hnamed c hc hmem
  have hother : ∀ c ∈ s.chain,
      (connectNotarisations isKMD b.world b.block b.nHeight s.db).lookup c.block.hash =
        s.db.lookup c.block.hash :=
    fun c hc => lookup_connect_other (hnew c hc) (hnames c hc)
  constructor
  · exact pairwise_cons.mpr ⟨fun c hc => (hnew c hc).symm, h.hashes⟩
  · intro c hc d hd
    rcases mem_cons.mp hc with rfl | hc'
    · rcases mem_cons.mp hd with rfl | hd'
      · exact hown
      · exact hnamed d hd'
    · rcases mem_cons.mp hd with rfl | hd'
      · exact hnames c hc'
      · exact h.apart c hc' d hd'
  · intro c hc
    rcases mem_cons.mp hc with rfl | hc
    · refine ⟨(length_filterMap_le _ _).trans hsize, fun n hn => ?_⟩
      obtain ⟨tx, htx, hscan⟩ := mem_filterMap.mp hn
      exact reads_entry hscan (hback tx htx n hscan)
    · exact h.readable c hc
  · intro c hc
    rcases mem_cons.mp hc with rfl | hc
    · exact lookup_connect_block hown hnone
    · exact (hother c hc).trans (h.blocks c hc)
  · intro c hc t ht
    by_cases hmine : t ∈ b.txHashes isKMD
    · obtain ⟨n, -, -, hlookup⟩ := lookup_connect_back hown hmine
      rw [hlookup]
      exact some_ne_none _
    · rcases mem_cons.mp hc with rfl | hc
      · exact absurd ht hmine
      · rw [lookup_connect_other (fun heq => hnamed c hc (heq ▸ ht)) hmine]
        exact h.backs c hc t ht
  · intro t v ht hv
    obtain ⟨hblock, ht⟩ := forall_mem_cons.mp ht
    by_cases hmine : t ∈ b.txHashes isKMD
    · obtain ⟨n, hn, htx, hlookup⟩ := lookup_connect_back hown hmine
      exact ⟨b, mem_cons_self, hmine, n, hn, htx, some.inj (hv.symm.trans hlookup)⟩
    · rw [lookup_connect_other (Ne.symm hblock) hmine] at hv
      obtain ⟨c, hc, horigin⟩ := h.origin t v ht hv
      exact ⟨c, mem_cons_of_mem b hc, horigin⟩

theorem Indexed.getBlockNotarisations (h : Indexed isKMD s) (hb : b ∈ s.chain) :
    getBlockNotarisations isKMD s.db b.block.hash =
      if b.notarisations isKMD = [] then none else some (b.notarisations isKMD) := by
  have hlookup := h.blocks b hb
  obtain ⟨hsize, hread⟩ := h.readable b hb
  split at hlookup
  · next hnil =>
      rw [if_pos hnil]
      exact read_of_none hlookup
  · next hne =>
      rw [if_neg hne]
      exact read_of_reads hlookup (reads_vector hsize (by decide) hread)

theorem Indexed.getBackNotarisation (h : Indexed isKMD s) {t : UInt256}
    (hnull : t ≠ .null) (ht : ∀ b ∈ s.chain, b.block.hash ≠ t) :
    (getBackNotarisation isKMD s.db t = none ∧
        ∀ b ∈ s.chain, ∀ n ∈ b.notarisations isKMD, n.2.txHash ≠ t) ∨
      ∃ b ∈ s.chain, ∃ n ∈ b.notarisations isKMD, n.2.txHash = t ∧
        getBackNotarisation isKMD s.db t = some n := by
  cases hlookup : s.db.lookup t with
  | none =>
    refine .inl ⟨read_of_none hlookup, fun b hb n hn htx => ?_⟩
    exact h.backs b hb t (mem_txHashes.mpr ⟨hnull, n, hn, htx⟩) hlookup
  | some v =>
    obtain ⟨b, hb, -, n, hn, htx, rfl⟩ := h.origin t v ht hlookup
    exact .inr ⟨b, hb, n, hn, htx, read_of_reads hlookup ((h.readable b hb).2 n hn)⟩

theorem Indexed.lookup_disconnect (h : Indexed isKMD s) (hb : b ∈ s.chain) (k : UInt256) :
    (disconnectNotarisations isKMD b.block s.db).lookup k =
      if k ∈ b.block.hash :: b.txHashes isKMD then none else s.db.lookup k := by
  unfold disconnectNotarisations
  rw [h.getBlockNotarisations hb]
  by_cases hnil : b.notarisations isKMD = []
  · have hlookup := h.blocks b hb
    have hkeys : b.txHashes isKMD = [] := by
      rw [ConnectedBlock.txHashes, hnil]
      rfl
    rw [if_pos hnil] at hlookup ⊢
    rw [hkeys]
    by_cases hk : k = b.block.hash
    · rwa [if_pos (mem_singleton.mpr hk), hk]
    · rw [if_neg (mem_singleton.not.mpr hk)]
  · rw [if_neg hnil]
    exact lookup_eraseAll _ _ _

theorem Indexed.disconnect {chain : List ConnectedBlock}
    (h : Indexed isKMD s) (hchain : s.chain = b :: chain)
    (hcond : ∀ c ∈ chain, ∀ n ∈ b.notarisations isKMD, n.2.txHash ∉ c.txHashes isKMD) :
    Indexed isKMD ⟨disconnectNotarisations isKMD b.block s.db, chain⟩ := by
  have hb : b ∈ s.chain := hchain ▸ mem_cons_self
  have hmem : ∀ c ∈ chain, c ∈ s.chain := fun c hc => hchain ▸ mem_cons_of_mem b hc
  have hpairwise := h.hashes
  rw [hchain] at hpairwise
  obtain ⟨hdistinct, hrest⟩ := pairwise_cons.mp hpairwise
  have hlookup := h.lookup_disconnect hb
  constructor
  · exact hrest
  · exact fun c hc d hd => h.apart c (hmem c hc) d (hmem d hd)
  · exact fun c hc => h.readable c (hmem c hc)
  · intro c hc
    rw [hlookup, if_neg, h.blocks c (hmem c hc)]
    intro hkey
    rcases mem_cons.mp hkey with heq | hback
    · exact hdistinct c hc heq.symm
    · exact h.apart c (hmem c hc) b hb hback
  · intro c hc t ht
    rw [hlookup, if_neg]
    · exact h.backs c (hmem c hc) t ht
    · intro hkey
      rcases mem_cons.mp hkey with rfl | hback
      · exact h.apart b hb c (hmem c hc) ht
      · obtain ⟨-, n, hn, rfl⟩ := mem_txHashes.mp hback
        exact hcond c hc n hn ht
  · intro t v ht hv
    rw [hlookup] at hv
    split at hv
    · cases hv
    · next hkey =>
        obtain ⟨hne, hback⟩ := not_or.mp (mem_cons.not.mp hkey)
        have hall : ∀ c ∈ s.chain, c.block.hash ≠ t := by
          rw [hchain]
          exact forall_mem_cons.mpr ⟨Ne.symm hne, ht⟩
        obtain ⟨c, hc, htx, horigin⟩ := h.origin t v hall hv
        rw [hchain] at hc
        rcases mem_cons.mp hc with rfl | hc
        · exact absurd htx hback
        · exact ⟨c, hc, htx, horigin⟩

theorem step_disconnect {s s' : NotarisedChain} (hstep : s.step isKMD .disconnect = .ok s') :
    ∃ b chain, s.chain = b :: chain ∧ s' = ⟨disconnectNotarisations isKMD b.block s.db, chain⟩ := by
  unfold NotarisedChain.step at hstep
  cases hchain : s.chain with
  | nil =>
    rw [hchain] at hstep
    cases hstep
  | cons b chain =>
    rw [hchain] at hstep
    exact ⟨b, chain, rfl, (Except.ok.inj hstep).symm⟩

theorem Indexed.step {op : NotarisationOp} {s s' : NotarisedChain} (hcond : ownKeys isKMD s op)
    (h : Indexed isKMD s) (hstep : s.step isKMD op = .ok s') : Indexed isKMD s' := by
  cases op with
  | connect b =>
    obtain rfl := Except.ok.inj hstep
    exact h.connect hcond
  | disconnect =>
    obtain ⟨b, chain, hchain, rfl⟩ := step_disconnect hstep
    refine h.disconnect hchain ?_
    have hcond : ∀ b ∈ s.chain.head?, ∀ c ∈ s.chain.tail, _ := hcond
    rw [hchain] at hcond
    exact hcond b rfl

theorem indexed_empty : Indexed isKMD {} where
  hashes := Pairwise.nil
  apart := nofun
  readable := nofun
  blocks := nofun
  backs := nofun
  origin := by
    intro t v _ hv
    cases hv

/-! ### Whole runs -/

def ConnectedBlock.keys (isKMD : Bool) (b : ConnectedBlock) : List UInt256 :=
  if b.notarisations isKMD = [] then [] else b.block.hash :: b.txHashes isKMD

theorem mem_keys {k : UInt256} (h : k ∈ b.keys isKMD) :
    k = b.block.hash ∨ k ∈ b.txHashes isKMD := by
  unfold ConnectedBlock.keys at h
  split at h
  · cases h
  · exact mem_cons.mp h

/-- **The database follows the chain** in every run whose steps meet the condition, and
disconnecting the tip keeps the entries of the blocks below. -/
theorem notarisationDB_follows_chain {ops : List NotarisationOp} {s : NotarisedChain}
    (hmeet : AllMeet (NotarisedChain.step isKMD) (ownKeys isKMD) ops {})
    (hrun : ops.foldlM (NotarisedChain.step isKMD) {} = .ok s) :
    (∀ b ∈ s.chain, getBlockNotarisations isKMD s.db b.block.hash =
      if b.notarisations isKMD = [] then none else some (b.notarisations isKMD)) ∧
    (∀ t ≠ .null, (∀ b ∈ s.chain, b.block.hash ≠ t) → ((getBackNotarisation isKMD s.db t).isSome ↔
        ∃ b ∈ s.chain, ∃ n ∈ b.notarisations isKMD, n.2.txHash = t) ∧
      ∀ n, getBackNotarisation isKMD s.db t = some n →
        ∃ b ∈ s.chain, n ∈ b.notarisations isKMD ∧ n.2.txHash = t) ∧
    ∀ s', ownKeys isKMD s .disconnect → s.step isKMD .disconnect = .ok s' →
      ∀ b ∈ s'.chain, ∀ k ∈ b.keys isKMD, s'.db.lookup k = s.db.lookup k := by
  have h : Indexed isKMD s := hmeet.invariant (fun _ _ _ => Indexed.step) indexed_empty hrun
  refine ⟨fun b hb => h.getBlockNotarisations hb, fun t hnull ht => ?_, fun s' hcond hstep => ?_⟩
  · rcases h.getBackNotarisation hnull ht with ⟨hnone, hall⟩ | ⟨b, hb, n, hn, htx, hsome⟩
    · rw [hnone]
      refine ⟨⟨nofun, ?_⟩, nofun⟩
      rintro ⟨b, hb, n, hn, htx⟩
      exact absurd htx (hall b hb n hn)
    · rw [hsome]
      refine ⟨⟨fun _ => ⟨b, hb, n, hn, htx⟩, fun _ => rfl⟩, ?_⟩
      rintro n' hn'
      obtain rfl := some.inj hn'
      exact ⟨b, hb, hn, htx⟩
  · obtain ⟨b, chain, hchain, rfl⟩ := step_disconnect hstep
    intro c hc k hk
    have hc' : c ∈ s.chain := hchain ▸ mem_cons_of_mem b hc
    have hb : b ∈ s.chain := hchain ▸ mem_cons_self
    have hpairwise := h.hashes
    rw [hchain] at hpairwise
    have hshared : ∀ n ∈ b.notarisations isKMD, n.2.txHash ∉ c.txHashes isKMD := by
      have hcond : ∀ b ∈ s.chain.head?, ∀ c ∈ s.chain.tail, _ := hcond
      rw [hchain] at hcond
      exact hcond b rfl c hc
    rw [h.lookup_disconnect hb, if_neg]
    intro hkey
    rcases mem_keys hk with rfl | hk
    · rcases mem_cons.mp hkey with heq | hback
      · exact (pairwise_cons.mp hpairwise).1 c hc heq.symm
      · exact h.apart c hc' b hb hback
    · rcases mem_cons.mp hkey with rfl | hback
      · exact h.apart b hb c hc' hk
      · obtain ⟨-, n, hn, rfl⟩ := mem_txHashes.mp hback
        exact hshared n hn hk

def blockNaming (hash txHash : UInt256) : ConnectedBlock where
  block :=
    { hash := hash
      nTime := 1600000000
      hashFinalSaplingRoot := .null
      vtx :=
        [{ hash := 10 + hash
           nVersion := 1
           vin := []
           vout := [⟨5, []⟩, ⟨0, opretScript (writeUint256 hash ++ writeUint32 7 ++
             writeUint256 txHash ++ asciiBytes "TXSCL" ++ [0])⟩] }] }
  nHeight := 7
  world := ⟨fun _ => none, fun _ _ => [], fun _ => []⟩

theorem notarisationDB_follows_chain_reorganised :
    ∃ s, [.connect (blockNaming 101 5), .connect (blockNaming 102 6), .disconnect].foldlM
        (NotarisedChain.step false) {} = .ok s ∧
      (getBackNotarisation false s.db 5).isSome = true ∧
      ((getBackNotarisation false s.db 5).isSome = true ↔
        ∃ b ∈ s.chain, ∃ n ∈ b.notarisations false, n.2.txHash = 5) := by
  have hmeet : AllMeet (NotarisedChain.step false) (ownKeys false)
      [.connect (blockNaming 101 5), .connect (blockNaming 102 6), .disconnect] {} := by
    decide +kernel
  refine ⟨_, rfl, by decide +kernel, ?_⟩
  refine ((notarisationDB_follows_chain hmeet rfl).2.1 5 (by decide) ?_).1
  intro b hb
  rw [mem_singleton.mp hb]
  decide

/-- **A transaction hash that two blocks share is lost with one of them.** -/
theorem shared_txHash_lost :
    ∃ s, [.connect (blockNaming 101 5), .connect (blockNaming 102 5), .disconnect].foldlM
        (NotarisedChain.step false) {} = .ok s ∧
      s.chain = [blockNaming 101 5] ∧
      (∃ b ∈ s.chain, ∃ n ∈ b.notarisations false, n.2.txHash = 5) ∧
      getBackNotarisation false s.db 5 = none := by
  refine ⟨_, rfl, rfl, ⟨blockNaming 101 5, mem_singleton_self _, ?_⟩, by decide +kernel⟩
  decide +kernel

end Elosys
