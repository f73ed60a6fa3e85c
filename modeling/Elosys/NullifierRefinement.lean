import Elosys.CoinsRefinement

/-!
# Nullifiers: The Cache Stack Keeps the Surviving History

A nullifier set over a stack of caches answers as if every cache kept the list of `SetNullifiers`
calls that led to it: a new cache copies the list, a dropped one takes it along, and a flush hands
it down. The last call that touched a nullifier counts, or else the database.
-/

open AssocBatch LayerStack

namespace Elosys

variable [NoteTrees]

open View CacheView

/-! ### Columns that a flush merges entry by entry -/

/-- A keyed map a flush merges: the map below then answers as the flushed one did. -/
structure MergedColumn (E R V : Type) where
  kind : CacheKind E R V
  read : CCoinsViewDB → UInt256 → R
  cache : CCoinsViewCache → Assoc UInt256 E
  cache_new : cache {} = ∅
  cache_cleared : ∀ l : CCoinsViewCache, cache l.cleared = ∅
  merge : ∀ {l p : CCoinsViewCache} {b : Column UInt256 E R},
    kind.Coherent (.layer (cache l) (.layer (cache p) b)) →
    kind.Coherent (.layer (cache (l.merged p)) b) ∧
      kind.view (.layer (cache (l.merged p)) b)
        = kind.view (.layer (cache l) (.layer (cache p) b))
  merge_base : ∀ {l : CCoinsViewCache} {d : CCoinsViewDB},
    kind.Coherent (.layer (cache l) (.base (read d))) →
    kind.view (.base (read (d.batchWrite l)))
      = kind.view (.layer (cache l) (.base (read d)))

variable {v : CacheView} {l : CCoinsViewCache}

namespace MergedColumn

variable {E R V : Type} (q : MergedColumn E R V)

def column (v : View) : Column UInt256 E R := v.map q.read q.cache

/-- The plain map the column of a view stands for. -/
def plain (v : View) : UInt256 → V := q.kind.view (q.column v)

/-- The invariant of the column between two operations. -/
def Sound (v : CacheView) : Prop := q.kind.Coherent (q.column v.stack)

theorem levels_plain (v : View) : levels q.plain v = q.kind.plain (q.column v) :=
  levels_map q.kind.view q.read q.cache v

theorem generations_congr {v v' : CacheView}
    (h : q.kind.plain (q.column v'.stack) = q.kind.plain (q.column v.stack)) :
    v'.generations q.plain = v.generations q.plain := by
  refine Tip.generations_congr ?_
  rw [levels_plain, levels_plain, h]

theorem ask_spec {Q : Query CCoinsViewDB CCoinsViewCache R} {k : UInt256}
    (hfetch : q.column (Q.fetch v.stack).2 = ((q.kind.query k).fetch (q.column v.stack)).2)
    (h : q.Sound v) :
    q.Sound (Q.ask v).2 ∧ (Q.ask v).2.generations q.plain = v.generations q.plain := by
  obtain ⟨hc, hp⟩ := q.kind.fetch_spec k h
  rw [← hfetch, ← Query.stack_ask] at hc hp
  exact ⟨hc, q.generations_congr hp⟩

theorem ask_frame {R' : Type} {Q : Query CCoinsViewDB CCoinsViewCache R'}
    (hframe : ∀ r l, q.cache (Q.fill r l) = q.cache l) :
    q.column (Q.ask v).2.stack = q.column v.stack := by
  rw [Query.stack_ask]
  exact map_fetch_of_frame _ _ _ hframe _

theorem merged_spec (h : q.Sound v) : q.kind.Coherent (q.column (View.merged v.top v.base)) ∧
      q.plain (View.merged v.top v.base) = q.plain v.stack := by
  obtain ⟨l, b⟩ := v
  cases b with
  | base d => exact ⟨trivial, q.merge_base h⟩
  | layer p b => exact q.merge h

theorem plain_layer_of_empty (hl : q.cache l = ∅) (b : View) :
    q.plain (.layer l b) = q.plain b := by
  rw [plain, column, map_layer, hl]
  exact q.kind.view_empty _

theorem coherent_layer_of_empty {b : View} (hl : q.cache l = ∅)
    (hb : q.kind.Coherent (q.column b)) : q.Sound ⟨l, b⟩ := by
  rw [Sound, Tip.stack_mk, column, map_layer, hl]
  exact q.kind.coherent_empty hb

theorem flush_spec (h : q.Sound v) : q.Sound ⟨v.top.cleared, View.merged v.top v.base⟩ ∧
      Tip.generations q.plain ⟨v.top.cleared, View.merged v.top v.base⟩
        = (v.generations q.plain).flush := by
  obtain ⟨hc, hp⟩ := q.merged_spec h
  have hempty := q.cache_cleared v.top
  refine ⟨q.coherent_layer_of_empty hempty hc, Tip.generations_flush ?_ hp ?_⟩
  · rw [q.plain_layer_of_empty hempty, hp]
    rfl
  · obtain ⟨l, b⟩ := v
    cases b with
    | base d => rfl
    | layer p b => rfl

theorem push_spec (h : q.Sound v) :
    q.Sound v.push ∧ v.push.generations q.plain = (v.generations q.plain).push := by
  refine ⟨q.coherent_layer_of_empty q.cache_new h, ?_⟩
  have htop : q.plain v.push.stack = q.plain v.stack :=
    q.plain_layer_of_empty q.cache_new v.stack
  rw [Tip.generations, htop]
  rfl

theorem drop_spec (h : q.Sound v) :
    q.Sound v.drop ∧ v.drop.generations q.plain = (v.generations q.plain).drop := by
  obtain ⟨l, b⟩ := v
  cases b with
  | base d => exact ⟨h, rfl⟩
  | layer l' b => exact ⟨h.2, Tip.generations_drop q.plain l l' b⟩

end MergedColumn

def View.plainNullifiers (s : NullifierSet) (v : View) : UInt256 → Bool :=
  nullifierKind.view (v.nullifierColumn s)

def CacheView.nullifierGenerations (s : NullifierSet) (v : CacheView) :
    Generations (UInt256 → Bool) :=
  v.generations (plainNullifiers s)

/-- A nullifier column's invariant between operations. -/
def CacheView.NullifiersSound (v : CacheView) : Prop :=
  ∀ s, nullifierKind.Coherent (nullifierColumn s v.stack)

theorem View.levels_plainNullifiers (s : NullifierSet) (v : View) :
    levels (plainNullifiers s) v = nullifierKind.plain (v.nullifierColumn s) :=
  levels_map nullifierKind.view (fun d : CCoinsViewDB => d.getNullifier s)
    (fun l : CCoinsViewCache => l.cacheNullifiers s) v

omit [NoteTrees] in
theorem lookup_foldl_setNullifier (spent : Bool) (nfs : List UInt256)
    (m : Assoc UInt256 CNullifiersCacheEntry) (nf : UInt256) :
    (nfs.foldl (setNullifier spent) m).lookup nf
      = if nf ∈ nfs then some ⟨spent, true⟩ else m.lookup nf := by
  induction nfs generalizing m with
  | nil => rfl
  | cons n nfs ih =>
    rw [List.foldl_cons, ih, setNullifier, lookup_insert_eq]
    by_cases hmem : nf ∈ nfs
    · simp [hmem]
    · by_cases hn : nf = n
      · simp [hn]
      · simp [hmem, hn]

def setAll (nfs : List UInt256) (spent : Bool) (m : UInt256 → Bool) (nf : UInt256) : Bool :=
  if nf ∈ nfs then spent else m nf

theorem nullifierColumn_setNullifiers (tx : CTransaction) (spent : Bool) (s : NullifierSet)
    (h : nullifierKind.Coherent (nullifierColumn s v.stack)) :
    nullifierKind.Coherent (nullifierColumn s (setNullifiers tx spent v).stack) ∧
      plainNullifiers s (setNullifiers tx spent v).stack
        = setAll (nullifiersOf tx s) spent (plainNullifiers s v.stack) := by
  have hl := lookup_foldl_setNullifier spent (nullifiersOf tx s) (v.top.cacheNullifiers s)
  refine ⟨⟨fun nf e he hd => ?_, h.2⟩, ?_⟩
  · change ((nullifiersOf tx s).foldl (setNullifier spent) _).lookup nf = some e at he
    rw [hl] at he
    split at he
    · rw [← Option.some.inj he] at hd
      exact absurd hd (by simp [nullifierKind])
    · exact h.1 nf e he hd
  · funext nf
    rw [setAll]
    split
    · next hmem =>
        exact nullifierKind.view_of_lookup ((hl nf).trans (if_pos hmem))
    · next hmem =>
        exact nullifierKind.view_layer_congr ((hl nf).trans (if_neg hmem)) rfl

/-! ### Reading, flushing, and the shape of the stack -/

omit [NoteTrees] in
theorem merge_nullifiers {m p : Assoc UInt256 CNullifiersCacheEntry}
    {b : Column UInt256 CNullifiersCacheEntry Bool}
    (hc : nullifierKind.Coherent (.layer m (.layer p b))) :
    nullifierKind.Coherent (.layer (batch CCoinsViewCache.batchWriteNullifiers m p) b) ∧
      nullifierKind.view (.layer (batch CCoinsViewCache.batchWriteNullifiers m p) b)
        = nullifierKind.view (.layer m (.layer p b)) := by
  refine nullifierKind.merge_batch_spec (·.entered) (fun _ => rfl) (fun _ _ => rfl)
    (fun _ _ _ => rfl) (fun _ => ?_) (fun _ _ => ?_) hc
  · exact ⟨rfl, rfl⟩
  · exact ⟨rfl, rfl⟩

variable {d : CCoinsViewDB}

theorem merge_nullifiers_base (s : NullifierSet)
    (hc : nullifierKind.Coherent (.layer (l.cacheNullifiers s) (.base (d.getNullifier s)))) :
    nullifierKind.view (.base ((d.batchWrite l).getNullifier s))
      = nullifierKind.view (.layer (l.cacheNullifiers s) (.base (d.getNullifier s))) := by
  have hlookup : ∀ nf, (d.batchWrite l).getNullifier s nf
      = (batchAt CCoinsViewDB.batchWriteNullifiers nf ((l.cacheNullifiers s).lookup nf)
          ((d.nullifiers s).lookup nf)).isSome := by
    intro nf
    rw [CCoinsViewDB.getNullifier, CCoinsViewDB.batchWrite, lookup_batch]
  refine nullifierKind.merge_base_spec (fun nf hk => ?_) (fun nf e he hd => ?_) hc
  · rw [hlookup]
    cases hm : (l.cacheNullifiers s).lookup nf with
    | none => rfl
    | some e =>
      have hd : e.dirty = false := hk e hm
      rw [batchAt_some, CCoinsViewDB.batchWriteNullifiers, hd]
      rfl
  · have hd' : e.dirty = true := hd
    rw [hlookup, he, batchAt_some, CCoinsViewDB.batchWriteNullifiers, if_pos hd']
    change Option.isSome _ = e.entered
    cases e.entered <;> rfl

def nullifierMerged (s : NullifierSet) : MergedColumn CNullifiersCacheEntry Bool Bool where
  kind := nullifierKind
  read d := d.getNullifier s
  cache l := l.cacheNullifiers s
  cache_new := rfl
  cache_cleared _ := rfl
  merge := merge_nullifiers
  merge_base := merge_nullifiers_base s

theorem nullifierQuery_spec (s : NullifierSet) (nf : UInt256) (h : v.NullifiersSound) :
    NullifiersSound ((nullifierQuery s nf).ask v).2 ∧
      ∀ s', nullifierGenerations s' ((nullifierQuery s nf).ask v).2
        = nullifierGenerations s' v := by
  have hcol : ∀ s', (nullifierMerged s').Sound ((nullifierQuery s nf).ask v).2 ∧
      nullifierGenerations s' ((nullifierQuery s nf).ask v).2 = nullifierGenerations s' v := by
    intro s'
    by_cases hs : s' = s
    · subst hs
      exact (nullifierMerged s').ask_spec (nullifierColumn_fetch s' nf v.stack).1 (h s')
    · have hframe := (nullifierMerged s').ask_frame (Q := nullifierQuery s nf) (v := v)
        fun r l => Function.update_of_ne hs _ _
      refine ⟨?_, (nullifierMerged s').generations_congr (congrArg _ hframe)⟩
      rw [MergedColumn.Sound, hframe]
      exact h s'
  exact ⟨fun s' => (hcol s').1, fun s' => (hcol s').2⟩

theorem nullifier_flush_spec (h : v.NullifiersSound) :
    NullifiersSound ⟨v.top.cleared, View.merged v.top v.base⟩ ∧
      ∀ s, nullifierGenerations s ⟨v.top.cleared, View.merged v.top v.base⟩
        = (nullifierGenerations s v).flush :=
  ⟨fun s => ((nullifierMerged s).flush_spec (h s)).1,
    fun s => ((nullifierMerged s).flush_spec (h s)).2⟩

theorem nullifier_push_spec (h : v.NullifiersSound) : v.push.NullifiersSound ∧
      ∀ s, nullifierGenerations s v.push = (nullifierGenerations s v).push :=
  ⟨fun s => ((nullifierMerged s).push_spec (h s)).1,
    fun s => ((nullifierMerged s).push_spec (h s)).2⟩

theorem nullifier_drop_spec (h : v.NullifiersSound) : v.drop.NullifiersSound ∧
      ∀ s, nullifierGenerations s v.drop = (nullifierGenerations s v).drop :=
  ⟨fun s => ((nullifierMerged s).drop_spec (h s)).1,
    fun s => ((nullifierMerged s).drop_spec (h s)).2⟩

/-! ### Histories -/

/-- The `SetNullifiers` calls behind a cache, newest first. -/
abbrev NullifierHistory := List (CTransaction × Bool)

/-- What the last call that touched a nullifier set. -/
def lastSet (s : NullifierSet) (nf : UInt256) : NullifierHistory → Option Bool
  | [] => none
  | (tx, spent) :: h => if nf ∈ nullifiersOf tx s then some spent else lastSet s nf h

/-- The set a history leaves, from a database. -/
def replay (d : CCoinsViewDB) (s : NullifierSet) (h : NullifierHistory) (nf : UInt256) : Bool :=
  (lastSet s nf h).getD (d.getNullifier s nf)

theorem replay_cons (d : CCoinsViewDB) (s : NullifierSet) (tx : CTransaction)
    (spent : Bool) (h : NullifierHistory) :
    replay d s ((tx, spent) :: h) = setAll (nullifiersOf tx s) spent (replay d s h) := by
  funext nf
  rw [replay, setAll, lastSet]
  split <;> rfl

def NullifierSet.shieldedType : NullifierSet → ShieldedType
  | sprout => .sprout
  | sapling => .sapling

theorem getNullifier_eq (nf : UInt256) (s : NullifierSet) (v : CacheView) :
    getNullifier nf s.shieldedType v = .ok ((nullifierQuery s nf).ask v) := by
  cases s <;> rfl

/-- An operation on the nullifiers of a stack of caches. -/
inductive NullifierOp where
  | push
  | drop
  | flush
  | setNullifiers (tx : CTransaction) (spent : Bool)
  | getNullifier (nf : UInt256) (s : NullifierSet)

namespace NullifierOp

def step : NullifierOp → CacheView → Except Fault CacheView
  | push, v => .ok v.push
  | drop, v => .ok v.drop
  | flush, v => v.flush
  | setNullifiers tx spent, v => .ok (v.setNullifiers tx spent)
  | getNullifier nf s, v => (v.getNullifier nf s.shieldedType).map Prod.snd

def record : NullifierOp → Generations NullifierHistory → Generations NullifierHistory
  | push, g => g.push
  | drop, g => g.drop
  | flush, g => g.flush
  | setNullifiers tx spent, g => g.modify ((tx, spent) :: ·)
  | getNullifier _ _, g => g

/-- The top cache's history after operations on a new stack. -/
def surviving (ops : List NullifierOp) : NullifierHistory :=
  (ops.foldl (fun g op => op.record g) (⟨[], [[]]⟩ : Generations NullifierHistory)).top

/-- The caches stand for the histories over a database. -/
structure Recorded (d : CCoinsViewDB) (g : Generations NullifierHistory) (v : CacheView) :
    Prop where
  sound : v.Sound
  coherent : v.NullifiersSound
  sets : ∀ s, nullifierGenerations s v = g.map (replay d s)

theorem step_recorded (op : NullifierOp) {g : Generations NullifierHistory} (h : Recorded d g v) :
    ∃ v', op.step v = .ok v' ∧ Recorded d (op.record g) v' := by
  cases op with
  | push =>
    obtain ⟨hc, hg⟩ := nullifier_push_spec h.coherent
    refine ⟨_, rfl, (push_spec h.sound).1, hc, fun s => ?_⟩
    rw [hg s, h.sets s]
    rfl
  | drop =>
    obtain ⟨hc, hg⟩ := nullifier_drop_spec h.coherent
    refine ⟨_, rfl, (drop_spec h.sound).1, hc, fun s => ?_⟩
    rw [hg s, h.sets s, record, Generations.map_drop]
  | flush =>
    obtain ⟨hc, hg⟩ := nullifier_flush_spec h.coherent
    refine ⟨_, flush_eq h.sound, h.sound.flush, hc, fun s => ?_⟩
    rw [hg s, h.sets s, record, Generations.map_flush]
  | setNullifiers tx spent =>
    refine ⟨_, rfl, ⟨h.sound.idle, h.sound.flagged⟩, fun s => ?_, fun s => ?_⟩
    · exact (nullifierColumn_setNullifiers tx spent s (h.coherent s)).1
    · have hset := (nullifierColumn_setNullifiers tx spent s (h.coherent s)).2
      rw [record, Generations.map_modify (replay_cons d s tx spent g.top), ← h.sets s,
        nullifierGenerations, Tip.generations, hset]
      rfl
  | getNullifier nf s =>
    obtain ⟨hc, hg⟩ := nullifierQuery_spec s nf h.coherent
    refine ⟨((nullifierQuery s nf).ask v).2, ?_, ?_, hc, fun s' => ?_⟩
    · rw [step, getNullifier_eq]
      rfl
    · exact h.sound.ask_of_frame _ (fun r l => rfl) (fun r l => rfl)
    · rw [hg s', h.sets s', record]

theorem run_recorded (ops : List NullifierOp)
    {g : Generations NullifierHistory} (h : Recorded d g v) :
    ∃ v', ops.foldlM (fun v op => op.step v) v = .ok v' ∧
      Recorded d (ops.foldl (fun g op => op.record g) g) v' := by
  induction ops generalizing g v with
  | nil => exact ⟨v, rfl, h⟩
  | cons op ops ih =>
    obtain ⟨v₁, hstep, h₁⟩ := step_recorded op h
    obtain ⟨v', hrun, h'⟩ := ih h₁
    refine ⟨v', ?_, h'⟩
    rwa [List.foldlM_cons, hstep]

theorem recorded_new (d : CCoinsViewDB) : Recorded d ⟨[], [[]]⟩ ⟨{}, .base d⟩ where
  sound := CoinsOp.sound_new d
  coherent _ := nullifierKind.coherent_empty trivial
  sets _ := rfl

/-- **The stack of caches keeps the surviving history**: `GetNullifier` answers what the last
surviving call set, or what the database held. -/
theorem nullifier_stack_refines (d : CCoinsViewDB) (ops : List NullifierOp) :
    ∃ v, ops.foldlM (fun v op => op.step v) ⟨{}, .base d⟩ = .ok v ∧
      ∀ (s : NullifierSet) (nf : UInt256), (v.getNullifier nf s.shieldedType).map Prod.fst
          = .ok ((lastSet s nf (surviving ops)).getD (d.getNullifier s nf)) := by
  obtain ⟨v, hrun, h⟩ := run_recorded ops (recorded_new d)
  refine ⟨v, hrun, fun s nf => ?_⟩
  have htop : plainNullifiers s v.stack nf = _ :=
    congrFun (congrArg Generations.top (h.sets s)) nf
  rw [getNullifier_eq, Except.map, Query.ask_fst, ← (nullifierColumn_fetch s nf v.stack).2]
  exact congrArg Except.ok htop

end NullifierOp

end Elosys
