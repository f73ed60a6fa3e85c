import Elosys.MemPoolIndex
import Mathlib.Logic.Relation

/-!
# Removing a Transaction with Its Descendants

A recursive `CTxMemPool::remove` works through a queue of hashes while it clears the maps. A hash
may be queued more than once, and the transaction need not be in the pool. What goes is the
transaction and everything in the pool that descends from it.
-/

open AssocBatch List Option

namespace Elosys

section

variable [CryptoHash]

/-! ### Descendants -/

/-- A transaction spends an output of another. A coin import's input names the burn transaction,
and no output. -/
def CTransaction.SpendsOutputOf (tx parent : CTransaction) : Prop :=
  tx.isCoinImport = false ∧
    ∃ i ∈ tx.vin, i.prevout.hash = parent.hash ∧ i.prevout.n < parent.vout.length

variable (pool : CTxMemPool)

/-- A transaction of the pool spends another's output. -/
def CTxMemPool.Child (parent tx : CTransaction) : Prop :=
  (∃ e ∈ pool.mapTx, e.tx = tx) ∧ tx.SpendsOutputOf parent

/-- A transaction, or what spends its outputs through the pool. -/
def CTxMemPool.Descendant : CTransaction → CTransaction → Prop :=
  Relation.ReflTransGen pool.Child

/-- The transaction `remove` is about: the pool's, or the one given. -/
def CTxMemPool.origin (origTx : CTransaction) : CTransaction :=
  ((pool.find? origTx.hash).map CTxMemPoolEntry.tx).getD origTx

omit [CryptoHash] in
theorem CTxMemPool.origin_hash (origTx : CTransaction) :
    (pool.origin origTx).hash = origTx.hash := by
  unfold origin
  cases hfind : pool.find? origTx.hash with
  | none => rfl
  | some e => exact (mem_of_find? hfind).2

omit [CryptoHash] in
theorem CTxMemPool.ne_of_find?_none {pool : CTxMemPool} {hash : UInt256} {e : CTxMemPoolEntry}
    (h : pool.find? hash = none) (he : e ∈ pool.mapTx) : e.tx.hash ≠ hash := by
  simpa using find?_eq_none.mp h e he

variable {pool start : CTxMemPool} {e : CTxMemPoolEntry} {origin : CTransaction}

theorem mem_spendersOf (h : pool.MapsAgree) {parent : CTransaction} {hash : UInt256} :
    hash ∈ pool.spendersOf parent ↔
      ∃ e ∈ pool.mapTx, e.tx.hash = hash ∧ e.tx.SpendsOutputOf parent := by
  simp only [CTxMemPool.spendersOf, mem_filterMap, mem_range, map_eq_some_iff]
  constructor
  · rintro ⟨i, hi, x, hx, rfl⟩
    obtain ⟨e, he, ho⟩ := (h.nextTx _ x).mp hx
    obtain ⟨himport, hptx, hat⟩ := mem_nextTxEntries.mp ho
    obtain ⟨input, hinput, hprev⟩ := map_eq_some_iff.mp hat
    exact ⟨e, he, by rw [hptx], himport, input, mem_of_getElem? hinput, by rw [hprev],
      by rw [hprev]; exact hi⟩
  · rintro ⟨e, he, rfl, himport, input, hinput, hhash, hn⟩
    obtain ⟨n, hat⟩ := getElem?_of_mem hinput
    refine ⟨input.prevout.n, hn, ⟨e.tx, n⟩, (h.nextTx _ _).mpr ⟨e, he, ?_⟩, rfl⟩
    exact mem_nextTxEntries.mpr ⟨himport, rfl, by rw [hat, map_some, ← hhash]⟩

/-! ### The loop -/

/-- The invariant of `remove`: what is gone descends from the origin, the rest is queued. -/
structure RemovesDescendants (start : CTxMemPool) (origin : CTransaction) (queue : List UInt256)
    (gone : List CTransaction) (pool : CTxMemPool) : Prop where
  agrees : pool.MapsAgree
  remains : ∀ e, e ∈ pool.mapTx ↔ e ∈ start.mapTx ∧ e.tx ∉ gone
  distinct : (gone.map CTransaction.hash).Nodup
  sound : ∀ tx ∈ gone, (∃ e ∈ start.mapTx, e.tx = tx) ∧ start.Descendant origin tx
  queued : ∀ e ∈ pool.mapTx, e.tx.hash ∈ queue → start.Descendant origin e.tx
  rooted : ∀ e ∈ pool.mapTx, e.tx = origin → e.tx.hash ∈ queue
  closed : ∀ d, d ∈ gone ∨ d = origin → (∀ e ∈ pool.mapTx, e.tx ≠ d) →
    ∀ e ∈ pool.mapTx, e.tx.SpendsOutputOf d → e.tx.hash ∈ queue

namespace RemovesDescendants

variable {queue : List UInt256} {hash : UInt256} {gone : List CTransaction}

theorem skip (h : RemovesDescendants start origin (hash :: queue) gone pool)
    (hfind : pool.find? hash = none) : RemovesDescendants start origin queue gone pool := by
  have hlater : ∀ e ∈ pool.mapTx, e.tx.hash ∈ hash :: queue → e.tx.hash ∈ queue := by
    intro e he hmem
    exact (mem_cons.mp hmem).resolve_left (CTxMemPool.ne_of_find?_none hfind he)
  exact ⟨h.agrees, h.remains, h.distinct, h.sound,
    fun e he hmem => h.queued e he (mem_cons_of_mem _ hmem),
    fun e he heq => hlater e he (h.rooted e he heq),
    fun d hd hout e he hspends => hlater e he (h.closed d hd hout e he hspends)⟩

theorem take (hs : (start.mapTx.map fun e => e.tx.hash).Nodup)
    (h : RemovesDescendants start origin (hash :: queue) gone pool)
    (hfind : pool.find? hash = some e) :
    RemovesDescendants start origin (queue ++ pool.queuedBy true e.tx) (gone ++ [e.tx])
      (pool.removeEntry e) := by
  obtain ⟨he, rfl⟩ := CTxMemPool.mem_of_find? hfind
  have hmem := mem_removeEntry h.agrees.distinct he
  have hdesc := h.queued e he (by simp)
  obtain ⟨hstart, hnot⟩ := (h.remains e).mp he
  have hspenders : ∀ x, x ∈ pool.queuedBy true e.tx ↔
      ∃ e' ∈ pool.mapTx, e'.tx.hash = x ∧ e'.tx.SpendsOutputOf e.tx := fun x =>
    mem_spendersOf h.agrees
  -- an entry that stays is not the one at the front of the queue
  have hlater : ∀ e' ∈ (pool.removeEntry e).mapTx, e'.tx.hash ∈ e.tx.hash :: queue →
      e'.tx.hash ∈ queue := by
    intro e' he' hin
    obtain ⟨he', hne⟩ := (hmem e').mp he'
    exact (mem_cons.mp hin).resolve_left fun heq =>
      hne (eq_of_hash_eq h.agrees.distinct he he' heq)
  refine ⟨h.agrees.removeEntry he, fun x => ?_, ?_, fun tx htx => ?_, fun e' he' hin => ?_,
    fun e' he' heq => ?_, fun d hd hout e' he' hspends => ?_⟩
  · rw [hmem, h.remains, mem_append, mem_singleton, not_or, and_assoc]
    refine and_congr_right fun hx => and_congr_right fun hgone => not_congr ⟨?_, fun heq => ?_⟩
    · rintro rfl
      rfl
    · exact eq_of_hash_eq h.agrees.distinct he ((h.remains x).mpr ⟨hx, hgone⟩) (by rw [heq])
  · rw [map_append, map_singleton]
    refine h.distinct.append (nodup_singleton _) ?_
    rw [disjoint_singleton]
    intro hin
    obtain ⟨tx, htx, heq⟩ := mem_map.mp hin
    obtain ⟨⟨x, hx, rfl⟩, -⟩ := h.sound tx htx
    obtain rfl := inj_on_of_nodup_map hs hx hstart heq
    exact hnot htx
  · rcases mem_append.mp htx with htx | htx
    · exact h.sound tx htx
    · obtain rfl := mem_singleton.mp htx
      exact ⟨⟨e, hstart, rfl⟩, hdesc⟩
  · rcases mem_append.mp hin with hin | hin
    · exact h.queued e' ((hmem e').mp he').1 (mem_cons_of_mem _ hin)
    · obtain ⟨x, hx, heq, hspends⟩ := (hspenders _).mp hin
      obtain rfl := eq_of_hash_eq h.agrees.distinct hx ((hmem e').mp he').1 heq.symm
      exact hdesc.tail ⟨⟨e', ((h.remains e').mp hx).1, rfl⟩, hspends⟩
  · exact mem_append_left _ (hlater e' he' (h.rooted e' ((hmem e').mp he').1 heq))
  · have he₀ := ((hmem e').mp he').1
    by_cases hd' : d = e.tx
    · subst hd'
      exact mem_append_right _ ((hspenders _).mpr ⟨e', he₀, rfl, hspends⟩)
    · have hd : d ∈ gone ∨ d = origin := by
        rcases hd with hd | hd
        · exact .inl ((mem_append.mp hd).resolve_right (by simpa using hd'))
        · exact .inr hd
      have hout' : ∀ x ∈ pool.mapTx, x.tx ≠ d := by
        intro x hx heq
        refine hout x ((hmem x).mpr ⟨hx, ?_⟩) heq
        rintro rfl
        exact hd' heq.symm
      exact mem_append_left _ (hlater e' he' (h.closed d hd hout' e' he₀ hspends))

theorem mem_gone (h : RemovesDescendants start origin [] gone pool) {tx : CTransaction}
    (htx : ∃ e ∈ start.mapTx, e.tx = tx) : tx ∈ gone ↔ start.Descendant origin tx := by
  refine ⟨fun hgone => (h.sound tx hgone).2, fun hdesc => ?_⟩
  -- whatever of the pool is reached from the origin has left it
  have hleft : ∀ {tx}, start.Descendant origin tx → (∀ e ∈ pool.mapTx, e.tx ≠ tx) ∧
      (tx ∈ gone ∨ tx = origin) := by
    intro tx hdesc
    induction hdesc with
    | refl => exact ⟨fun e he heq => absurd (h.rooted e he heq) (by simp), .inr rfl⟩
    | @tail d c _ hchild ih =>
      obtain ⟨⟨e, he, rfl⟩, hspends⟩ := hchild
      have hgone : e.tx ∈ gone := by
        by_contra hnot
        have hpool := (h.remains e).mpr ⟨he, hnot⟩
        exact absurd (h.closed d ih.2 ih.1 e hpool hspends) (by simp)
      refine ⟨fun x hx heq => ((h.remains x).mp hx).2 (heq ▸ hgone), .inl hgone⟩
  obtain ⟨e, he, rfl⟩ := htx
  by_contra hnot
  exact (hleft hdesc).1 e ((h.remains e).mpr ⟨he, hnot⟩) rfl

theorem removeLoop (hs : (start.mapTx.map fun e => e.tx.hash).Nodup) (removed : List CTransaction)
    (h : RemovesDescendants start origin queue gone pool) :
    ∃ gone', (pool.removeLoop true queue (removed ++ gone)).1 = removed ++ gone' ∧
      RemovesDescendants start origin [] gone'
        (pool.removeLoop true queue (removed ++ gone)).2 := by
  generalize hfrom : removed ++ gone = listed
  fun_induction CTxMemPool.removeLoop true queue listed pool generalizing gone with
  | case1 listed pool => exact ⟨gone, hfrom.symm, h⟩
  | case2 listed pool hash queue hfind ih => exact ih (h.skip hfind) hfrom
  | case3 listed pool hash queue e hfind ih =>
    exact ih (h.take hs hfind) (by rw [← hfrom, append_assoc])

end RemovesDescendants

theorem removeLoop_of_absent {fRecursive : Bool} {queue : List UInt256}
    {removed : List CTransaction} (h : ∀ hash ∈ queue, pool.find? hash = none) :
    pool.removeLoop fRecursive queue removed = (removed, pool) := by
  fun_induction CTxMemPool.removeLoop fRecursive queue removed pool with
  | case1 removed pool => rfl
  | case2 removed pool hash queue hfind ih =>
    exact ih fun x hx => h x (mem_cons_of_mem _ hx)
  | case3 removed pool hash queue e hfind ih =>
    exact absurd ((h hash mem_cons_self).symm.trans hfind) (by simp)

theorem removesDescendants_start (h : pool.MapsAgree) (origTx : CTransaction) :
    RemovesDescendants pool (pool.origin origTx)
      (origTx.hash :: if true && !pool.exists origTx.hash then pool.spendersOf origTx else [])
      [] pool := by
  have hhash := pool.origin_hash origTx
  have hrooted : ∀ e ∈ pool.mapTx, e.tx = pool.origin origTx → e.tx.hash = origTx.hash := by
    intro e _ heq
    rw [heq, hhash]
  cases hfind : pool.find? origTx.hash with
  | none =>
    have horigin : pool.origin origTx = origTx := by simp [CTxMemPool.origin, hfind]
    have hqueue : (true && !pool.exists origTx.hash) = true := by
      simp [CTxMemPool.exists, hfind]
    rw [if_pos hqueue]
    refine ⟨h, fun e => by simp, by simp, by simp, fun e he hin => ?_,
      fun e he heq => hrooted e he heq ▸ mem_cons_self, fun d hd _ e he hspends => ?_⟩
    · obtain ⟨x, hx, heq, hspends⟩ := (mem_spendersOf h).mp
        ((mem_cons.mp hin).resolve_left (CTxMemPool.ne_of_find?_none hfind he))
      obtain rfl := eq_of_hash_eq h.distinct hx he heq.symm
      rw [horigin]
      exact .single ⟨⟨e, he, rfl⟩, hspends⟩
    · obtain rfl := hd.resolve_left (by simp)
      rw [horigin] at hspends
      exact mem_cons_of_mem _ ((mem_spendersOf h).mpr ⟨e, he, rfl, hspends⟩)
  | some x =>
    obtain ⟨hx, hxhash⟩ := CTxMemPool.mem_of_find? hfind
    have horigin : pool.origin origTx = x.tx := by simp [CTxMemPool.origin, hfind]
    have hqueue : (true && !pool.exists origTx.hash) = false := by
      simp [CTxMemPool.exists, hfind]
    rw [hqueue, if_neg (by simp)]
    refine ⟨h, fun e => by simp, by simp, by simp, fun e he hin => ?_,
      fun e he heq => hrooted e he heq ▸ mem_cons_self, fun d hd hout => ?_⟩
    · obtain rfl := eq_of_hash_eq h.distinct hx he ((mem_singleton.mp hin).trans hxhash.symm)
      rw [horigin]
      exact .refl
    · -- the origin is still in the pool
      obtain rfl := hd.resolve_left (by simp)
      exact absurd horigin.symm (hout x hx)

/-- **Removing recursively removes the descendants**, each listed once; the maps are left to the
rest. -/
theorem remove_recursive_exact (h : pool.MapsAgree) (origTx : CTransaction)
    (removed : List CTransaction) :
    (∀ e, e ∈ (pool.remove origTx true removed).2.mapTx ↔
      e ∈ pool.mapTx ∧ ¬ pool.Descendant (pool.origin origTx) e.tx) ∧
    (∃ gone, (pool.remove origTx true removed).1 = removed ++ gone ∧
      (gone.map CTransaction.hash).Nodup ∧
      ∀ tx, tx ∈ gone ↔ (∃ e ∈ pool.mapTx, e.tx = tx) ∧ pool.Descendant (pool.origin origTx) tx) ∧
    (pool.remove origTx true removed).2.MapsAgree := by
  obtain ⟨gone, hlist, hend⟩ :=
    (removesDescendants_start h origTx).removeLoop h.distinct removed
  rw [append_nil] at hlist hend
  refine ⟨fun e => ?_, ⟨gone, hlist, hend.distinct, fun tx => ?_⟩, hend.agrees⟩
  · refine (hend.remains e).trans (and_congr_right fun he => not_congr ?_)
    exact hend.mem_gone ⟨e, he, rfl⟩
  · exact ⟨hend.sound tx, fun htx => (hend.mem_gone htx.1).mpr htx.2⟩

end

section

local instance removeHash : CryptoHash := ⟨fun _ => 7, fun _ => 0⟩

local instance removeAddresses : ScriptAddresses where
  CTxDestination := Unit
  solver _ := (false, .nonstandard, [])
  extractDestination _ := none
  getIndexKey _ _ := none
  getKeyID _ := none
  isPayToCryptoCondition _ := false

/-- A transaction outside the pool; `shieldEntry` spends its output. -/
def lostTx : CTransaction := { hash := 41, nVersion := 4, vin := [], vout := [⟨3, [0x51]⟩] }

/-- The pool of `shieldEntry` and `childEntry`, spending its change. -/
def familyPool : CTxMemPool := (({} : CTxMemPool).addUnchecked shieldEntry).addUnchecked childEntry

theorem remove_recursive_exact_familyPool :
    familyPool.MapsAgree ∧ shieldEntry ∈ familyPool.mapTx ∧ childEntry ∈ familyPool.mapTx ∧
      shieldEntry ∉ (familyPool.remove lostTx true []).2.mapTx ∧
      childEntry ∉ (familyPool.remove lostTx true []).2.mapTx := by
  have hkept : familyPool.Kept := by
    refine (CTxMemPool.kept_empty.addUnchecked ?_).addUnchecked ?_
    · exact ⟨by decide, by decide, fun _ => by decide, fun _ e he => absurd he (by simp)⟩
    · exact ⟨by decide, by decide, fun _ => by decide, fun _ => by decide⟩
  have hmem : familyPool.mapTx = [shieldEntry, childEntry] := rfl
  have hexact := (remove_recursive_exact hkept.mapsAgree lostTx []).1
  have hshield : familyPool.Descendant lostTx shieldEntry.tx :=
    .single ⟨⟨shieldEntry, by simp [hmem], rfl⟩, by decide, ⟨⟨41, 0⟩, [], 0⟩, by decide⟩
  have hchild :=
    hshield.tail ⟨⟨childEntry, by simp [hmem], rfl⟩, by decide, ⟨⟨51, 0⟩, [], 0⟩, by decide⟩
  refine ⟨hkept.mapsAgree, by simp [hmem], by simp [hmem], fun hin => ?_, fun hin => ?_⟩
  · exact ((hexact _).mp hin).2 hshield
  · exact ((hexact _).mp hin).2 hchild

/-- **Entries of no transaction stay** after a pool was cleared. -/
theorem remove_keeps_stale_entry :
    ∃ pool, CTxMemPool.run [.addUnchecked shieldEntry, .clear] = .ok pool ∧
      Induced (fun e => e.tx.nextTxEntries) pool.mapTx pool.mapNextTx ∧
      (pool.remove lostTx true []).2.mapTx = [] ∧
      (pool.remove lostTx true []).2.mapZkOutputProofHash.lookup 7 = some shieldEntry.tx := by
  refine ⟨_, rfl, induced_empty, ?_⟩
  have hsame : ∀ pool : CTxMemPool, pool.mapTx = [] → (pool.remove lostTx true []).2 = pool := by
    intro pool htx
    refine congrArg Prod.snd (removeLoop_of_absent fun hash _ => ?_)
    rw [CTxMemPool.find?, htx, find?_nil]
  rw [hsame _ rfl]
  exact ⟨rfl, by decide⟩

end

end Elosys
