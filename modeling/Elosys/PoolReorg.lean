import Elosys.MemPoolRemove

/-!
# The Pool after a Reorganisation

`removeForReorg` removes transactions that are not final any more or spend coinbase outputs too
early, with their descendants. The consensus rule rejects a coinbase input that is immature *or*
time-locked; the pool lets one go that is immature *and* time-locked.
-/

open List Relation Except

namespace Elosys

variable {pool : CTxMemPool} {c : ReorgParams} {pcoins : UInt256 → Option CCoins}
  {nMemPoolHeight : Int}

/-! ### What leaves the pool -/

/-- The rules of `CheckTxInputs` for coinbase coins. It takes the unlock time as a `uint64_t`, and
compares the height with it as such; the pool below compares signed numbers. -/
def ReorgParams.Mature (c : ReorgParams) (nSpendHeight : Int) (coins : CCoins) : Prop :=
  c.coinbaseMaturity ≤ nSpendHeight - coins.nHeight ∧
    (c.timelockGte ≤ coins.totalTxValue.toUInt64 →
      c.blockUnlocktime coins.nHeight % 2 ^ 64 ≤ nSpendHeight % 2 ^ 64)

/-- Coinbase coins, immature, and time-locked by their first output. -/
def ReorgParams.Locked (c : ReorgParams) (nMemPoolHeight : Int) (coins : CCoins) : Prop :=
  coins.fCoinBase = true ∧ nMemPoolHeight - coins.nHeight < c.coinbaseMaturity ∧
    nMemPoolHeight < c.blockUnlocktime coins.nHeight ∧ coins.isAvailable 0 = true ∧
      c.timelockGte ≤ (coins.outputAt 0).nValue.toUInt64

/-- An entry that is not final, or spends a coinbase from outside the pool whose coins are missing
or locked. -/
def CTxMemPool.Evicted (c : ReorgParams) (pcoins : UInt256 → Option CCoins)
    (nMemPoolHeight : Int) (pool : CTxMemPool) (e : CTxMemPoolEntry) : Prop :=
  c.checkFinalTx e.tx = false ∨ e.spendsCoinbase = true ∧
    ∃ txin ∈ e.tx.vin, pool.exists txin.prevout.hash = false ∧
      ∀ coins, pcoins txin.prevout.hash = some coins → c.Locked nMemPoolHeight coins

theorem spendsImmature_eq_ok {txin : CTxIn} {b : Bool}
    (h : pool.spendsImmature c pcoins nMemPoolHeight txin = .ok b) :
    b = true ↔ pool.exists txin.prevout.hash = false ∧
      ∀ coins, pcoins txin.prevout.hash = some coins → c.Locked nMemPoolHeight coins := by
  unfold CTxMemPool.spendsImmature at h
  split at h
  · rename_i hexists
    obtain rfl := ok.inj h
    simp [hexists]
  · rename_i hexists
    split at h
    · rename_i hcoins
      obtain ⟨-, -, h⟩ := bind_eq_ok.mp h
      obtain rfl := ok.inj h
      simp [hexists, hcoins]
    · rename_i coins hcoins
      obtain rfl := ok.inj h
      simp [hexists, hcoins, ReorgParams.Locked, and_assoc]

theorem anyImmature_eq_ok {vin : List CTxIn} {b : Bool}
    (h : pool.anyImmature c pcoins nMemPoolHeight vin = .ok b) :
    b = true ↔ ∃ txin ∈ vin, pool.exists txin.prevout.hash = false ∧
      ∀ coins, pcoins txin.prevout.hash = some coins → c.Locked nMemPoolHeight coins := by
  induction vin with
  | nil =>
    obtain rfl := ok.inj h
    simp
  | cons txin vin ih =>
    obtain ⟨first, hfirst, h⟩ := bind_eq_ok.mp h
    simp only [mem_cons, exists_eq_or_imp, ← spendsImmature_eq_ok hfirst]
    cases first with
    | true =>
      obtain rfl := ok.inj h
      simp
    | false => simpa using ih h

theorem leavesOnReorg_eq_ok {e : CTxMemPoolEntry} {b : Bool}
    (h : pool.leavesOnReorg c pcoins nMemPoolHeight e = .ok b) :
    b = true ↔ pool.Evicted c pcoins nMemPoolHeight e := by
  unfold CTxMemPool.leavesOnReorg at h
  unfold CTxMemPool.Evicted
  split at h
  · rename_i hfinal
    obtain rfl := ok.inj h
    simpa using .inl (by simpa using hfinal)
  · rename_i hfinal
    split at h
    · rename_i hmarked
      rw [anyImmature_eq_ok h]
      simp_all
    · rename_i hmarked
      simp_all

theorem mem_filterM {ε α : Type} {f : α → Except ε Bool} {l l' : List α}
    (h : l.filterM f = .ok l') {P : α → Prop} (hP : ∀ a b, f a = .ok b → (b = true ↔ P a))
    (a : α) : a ∈ l' ↔ a ∈ l ∧ P a := by
  have haux : ∀ {l acc out : List α}, filterAuxM f l acc = .ok out →
      (a ∈ out ↔ a ∈ acc ∨ a ∈ l ∧ P a) := by
    intro l
    induction l with
    | nil =>
      intro acc out h
      obtain rfl := ok.inj h
      simp
    | cons x l ih =>
      intro acc out h
      obtain ⟨b, hb, h⟩ := bind_eq_ok.mp h
      cases b <;> grind
  obtain ⟨out, hout, h⟩ := bind_eq_ok.mp h
  obtain rfl := ok.inj h
  simp [haux hout]

section

variable [CryptoHash]

/-! ### Removing several transactions -/

theorem remove_recursive (h : pool.MapsAgree) {tx : CTransaction}
    (htx : ∀ e ∈ pool.mapTx, e.tx.hash = tx.hash → e.tx = tx) :
    (pool.remove tx true []).2.MapsAgree ∧
      ∀ e, e ∈ (pool.remove tx true []).2.mapTx ↔ e ∈ pool.mapTx ∧ ¬pool.Descendant tx e.tx := by
  have horigin : pool.origin tx = tx := by
    unfold CTxMemPool.origin
    cases hfind : pool.find? tx.hash with
    | none => rfl
    | some e =>
      obtain ⟨he, hhash⟩ := CTxMemPool.mem_of_find? hfind
      exact htx e he hhash
  obtain ⟨gone, -, hend⟩ := (removesDescendants_start h tx).removeLoop h.distinct []
  rw [horigin] at hend
  refine ⟨hend.agrees, fun e => (hend.remains e).trans (and_congr_right fun he => not_congr ?_)⟩
  exact hend.mem_gone ⟨e, he, rfl⟩

theorem mem_removeAll {txs : List CTransaction} (h : pool.MapsAgree)
    (htxs : ∀ tx ∈ txs, ∀ e ∈ pool.mapTx, e.tx.hash = tx.hash → e.tx = tx) (e : CTxMemPoolEntry) :
    e ∈ (pool.removeAll txs).mapTx ↔ e ∈ pool.mapTx ∧ ∀ tx ∈ txs, ¬pool.Descendant tx e.tx := by
  induction txs generalizing pool with
  | nil => simp [CTxMemPool.removeAll]
  | cons tx txs ih =>
    obtain ⟨htx, htxs⟩ := forall_mem_cons.mp htxs
    obtain ⟨hagrees, hmem⟩ := remove_recursive h htx
    -- what is left of a line of descendants has lost nothing in between
    have hline : ∀ {t d}, pool.Descendant t d →
        pool.Descendant tx d ∨ (pool.remove tx true []).2.Descendant t d := by
      intro t d hdesc
      induction hdesc with
      | refl => exact .inr .refl
      | @tail d c _ hchild ih =>
        by_cases hgone : pool.Descendant tx c
        · exact .inl hgone
        obtain ⟨⟨x, hx, rfl⟩, hspends⟩ := hchild
        refine .inr ((ih.resolve_left fun hd => hgone ?_).tail ⟨⟨x, ?_, rfl⟩, hspends⟩)
        · exact hd.tail ⟨⟨x, hx, rfl⟩, hspends⟩
        · exact (hmem x).mpr ⟨hx, hgone⟩
    have hsub : ∀ {t d}, (pool.remove tx true []).2.Descendant t d → pool.Descendant t d := by
      refine fun hdesc => ReflTransGen.mono ?_ _ _ hdesc
      rintro d c ⟨⟨x, hx, rfl⟩, hspends⟩
      exact ⟨⟨x, ((hmem x).mp hx).1, rfl⟩, hspends⟩
    have hrest := ih hagrees fun t ht x hx => htxs t ht x ((hmem x).mp hx).1
    refine hrest.trans ?_
    rw [hmem, forall_mem_cons, and_assoc]
    refine and_congr_right fun _ => and_congr_right fun hkept => ?_
    exact forall₂_congr fun t _ => not_congr ⟨hsub, fun hd => (hline hd).resolve_left hkept⟩

/-- All are final, with mature coinbase inputs, none descending from a removed one. -/
structure SpendableAfter (c : ReorgParams) (pcoins : UInt256 → Option CCoins)
    (nMemPoolHeight : Int) (before after : CTxMemPool) : Prop where
  final : ∀ e ∈ after.mapTx, c.checkFinalTx e.tx = true
  mature : ∀ e ∈ after.mapTx, ∀ txin ∈ e.tx.vin, ∀ coins, pcoins txin.prevout.hash = some coins →
    coins.fCoinBase = true → c.Mature nMemPoolHeight coins
  undescended : ∀ e ∈ after.mapTx, ∀ e' ∈ before.mapTx, e' ∉ after.mapTx →
    ¬before.Descendant e'.tx e.tx

/-- **After a reorganisation** inputs are spendable exactly if each entry with an immature or
time-locked coinbase input descends from an evicted one. -/
theorem removeForReorg_spendable_iff {pool' : CTxMemPool} (c : ReorgParams)
    (pcoins : UInt256 → Option CCoins) (nMemPoolHeight : Int) (hpool : pool.MapsAgree)
    (hrun : pool.removeForReorg c pcoins nMemPoolHeight = .ok pool') :
    SpendableAfter c pcoins nMemPoolHeight pool pool' ↔
      ∀ e ∈ pool.mapTx, ∀ txin ∈ e.tx.vin, ∀ coins, pcoins txin.prevout.hash = some coins →
        coins.fCoinBase = true → ¬c.Mature nMemPoolHeight coins →
          ∃ e' ∈ pool.mapTx, pool.Evicted c pcoins nMemPoolHeight e' ∧
            pool.Descendant e'.tx e.tx := by
  obtain ⟨leaving, hleaving, hrun⟩ := bind_eq_ok.mp hrun
  obtain rfl := ok.inj hrun
  have hleft := mem_filterM hleaving fun _ _ => leavesOnReorg_eq_ok
  have hmem : ∀ e, e ∈ (pool.removeAll (leaving.map CTxMemPoolEntry.tx)).mapTx ↔
      e ∈ pool.mapTx ∧ ∀ e' ∈ pool.mapTx, pool.Evicted c pcoins nMemPoolHeight e' →
        ¬pool.Descendant e'.tx e.tx := by
    intro e
    rw [mem_removeAll hpool, forall_mem_map]
    · simp [hleft]
    · intro tx htx x hx hhash
      obtain ⟨e', he', rfl⟩ := mem_map.mp htx
      rw [eq_of_hash_eq hpool.distinct hx ((hleft e').mp he').1 hhash.symm]
  constructor
  · intro h e he txin htxin coins hcoins hcb hbreaks
    by_contra hnone
    refine hbreaks (h.mature e ((hmem e).mpr ⟨he, ?_⟩) txin htxin coins hcoins hcb)
    exact fun e' he' hev hdesc => hnone ⟨e', he', hev, hdesc⟩
  · intro h
    refine ⟨?_, ?_, ?_⟩
    · intro e he
      by_contra hfinal
      obtain ⟨he, hkept⟩ := (hmem e).mp he
      exact hkept e he (.inl (by simpa using hfinal)) .refl
    · intro e he txin htxin coins hcoins hcb
      obtain ⟨he, hkept⟩ := (hmem e).mp he
      by_contra hbreaks
      obtain ⟨e', he', hev, hdesc⟩ := h e he txin htxin coins hcoins hcb hbreaks
      exact hkept e' he' hev hdesc
    · intro e he e' he' hgone hdesc
      rw [hmem, not_and] at hgone
      push Not at hgone
      obtain ⟨x, hx, hev, hxe'⟩ := hgone he'
      exact ((hmem e).mp he).2 x hx hev (hxe'.trans hdesc)

end

section

local instance reorgHash : CryptoHash := ⟨fun _ => 7, fun _ => 0⟩

def coinbaseSpend : CTxMemPoolEntry := { shieldEntry with spendsCoinbase := true }

def coinbasePool : CTxMemPool := ({} : CTxMemPool).addUnchecked coinbaseSpend

def hundredBlocks : ReorgParams := ⟨fun _ => true, 100, fun h => h, 1000, 0⟩

def coinbaseAt (nHeight : Nat) : CCoins := ⟨true, [⟨3, [0x51]⟩], nHeight, 1⟩

/-- Values of 3 and more are locked for ten blocks. -/
def tenLocked : ReorgParams := ⟨fun _ => true, 100, fun h => h + 10, 3, 0⟩

/-- The spend of a mature coinbase stays, and that of an immature and locked one goes. -/
theorem removeForReorg_coinbasePool :
    (∃ pool', coinbasePool.removeForReorg hundredBlocks (fun _ => some (coinbaseAt 0)) 100 =
        .ok pool' ∧ coinbaseSpend ∈ pool'.mapTx ∧
      SpendableAfter hundredBlocks (fun _ => some (coinbaseAt 0)) 100 coinbasePool pool') ∧
    ∃ pool', coinbasePool.removeForReorg tenLocked (fun _ => some (coinbaseAt 95)) 100 =
        .ok pool' ∧ coinbaseSpend ∉ pool'.mapTx ∧
      SpendableAfter tenLocked (fun _ => some (coinbaseAt 95)) 100 coinbasePool pool' := by
  have hkept : coinbasePool.Kept := CTxMemPool.kept_empty.addUnchecked
    ⟨by decide, by decide, fun _ => by decide, fun _ e he => absurd he (by simp)⟩
  refine ⟨⟨_, rfl, mem_cons_self,
    (removeForReorg_spendable_iff hundredBlocks _ 100 hkept.mapsAgree rfl).mpr ?_⟩, _, rfl, ?_⟩
  · intro e he txin htxin coins hcoins hcb hbreaks
    obtain rfl := Option.some.inj hcoins
    exact absurd ⟨by decide, by decide⟩ hbreaks
  · have hspendable := (removeForReorg_spendable_iff tenLocked (fun _ => some (coinbaseAt 95)) 100
      hkept.mapsAgree rfl).mpr fun e he txin htxin coins hcoins hcb hbreaks => by
        obtain rfl := mem_singleton.mp he
        refine ⟨_, he, .inr ⟨rfl, ⟨⟨41, 0⟩, [], 0⟩, mem_cons_self, rfl, fun c hc => ?_⟩, .refl⟩
        obtain rfl := Option.some.inj hc
        exact ⟨rfl, by decide, by decide, rfl, by decide⟩
    refine ⟨fun hmem => ?_, hspendable⟩
    have hmature := hspendable.mature coinbaseSpend hmem ⟨⟨41, 0⟩, [], 0⟩ mem_cons_self _ rfl rfl
    exact absurd hmature.1 (by decide)

/-- With five confirmations the coinbase's spend stays. -/
theorem removeForReorg_keeps_immature :
    ∃ pool', coinbasePool.removeForReorg hundredBlocks (fun _ => some (coinbaseAt 95)) 100 =
        .ok pool' ∧
      ¬SpendableAfter hundredBlocks (fun _ => some (coinbaseAt 95)) 100 coinbasePool pool' := by
  refine ⟨coinbasePool, rfl, fun h => ?_⟩
  have hmature := h.mature coinbaseSpend mem_cons_self ⟨⟨41, 0⟩, [], 0⟩ mem_cons_self _ rfl rfl
  exact absurd hmature.1 (by decide)

end

end Elosys
