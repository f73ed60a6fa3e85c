import Mathlib.Logic.Function.Basic

/-!
# Stacks of Read-Through Layers

A database with caches stacked over it. A query is answered by the outermost layer that knows; the
layers above learn the answer. A projection of the stack sees a query (`Query.fetch`,
`Query.peek`) as the same query on the projected data (`map_fetch`), or not at all
(`map_fetch_of_frame`).
-/

/-- A database `D` under layers `L`, the newest outermost. -/
inductive LayerStack (D L : Type) where
  | base (db : D)
  | layer (top : L) (below : LayerStack D L)
  deriving DecidableEq

open Option List

namespace LayerStack

variable {D L D' L' R : Type}

def map (f : D → D') (g : L → L') : LayerStack D L → LayerStack D' L'
  | base d => base (f d)
  | layer l b => layer (g l) (map f g b)

@[simp] theorem map_base (f : D → D') (g : L → L') (d : D) : map f g (base d) = base (f d) := rfl

@[simp] theorem map_layer (f : D → D') (g : L → L') (l : L) (b : LayerStack D L) :
    map f g (layer l b) = layer (g l) (map f g b) := rfl

/-- A stack with a layer: the one in use and what lies under it. -/
structure Tip (D L : Type) where
  top : L
  base : LayerStack D L
  deriving DecidableEq

/-- The whole stack under a tip, the tip included. -/
def Tip.stack (t : Tip D L) : LayerStack D L := layer t.top t.base

@[simp] theorem Tip.stack_mk (l : L) (b : LayerStack D L) : (Tip.mk l b).stack = layer l b := rfl

/-- A function at the stack and everything below, top first. -/
def levels {α : Type} (f : LayerStack D L → α) : LayerStack D L → List α
  | base d => [f (base d)]
  | layer l b => f (layer l b) :: levels f b

@[simp] theorem levels_base {α : Type} (f : LayerStack D L → α) (d : D) :
    levels f (base d) = [f (base d)] := rfl

@[simp] theorem levels_layer {α : Type} (f : LayerStack D L → α) (l : L)
    (b : LayerStack D L) : levels f (layer l b) = f (layer l b) :: levels f b := rfl

theorem levels_top {α : Type} {f : LayerStack D L → α} {v v' : LayerStack D L}
    (h : levels f v' = levels f v) : f v' = f v := by
  have hh : (levels f v').head? = (levels f v).head? := by rw [h]
  cases v with
  | base d =>
    cases v' with
    | base d' => exact some.inj hh
    | layer l' b' => exact some.inj hh
  | layer l b =>
    cases v' with
    | base d' => exact some.inj hh
    | layer l' b' => exact some.inj hh

theorem levels_eq_cons {α : Type} {f : LayerStack D L → α} {v : LayerStack D L} {a : α}
    {rest : List α} (h : levels f v = a :: rest) : f v = a := by
  cases v with
  | base d => exact (cons.inj h).1
  | layer l b => exact (cons.inj h).1

theorem levels_map {α : Type} (h : LayerStack D' L' → α) (f : D → D') (g : L → L')
    (v : LayerStack D L) : levels (fun s => h (map f g s)) v = levels h (map f g v) := by
  induction v with
  | base d => rfl
  | layer l b ih => rw [levels_layer, map_layer, levels_layer, ih]

/-- One kind of read: the database's answer, what a layer knows and remembers. -/
structure Query (D L R : Type) where
  read : D → R
  find : L → Option R
  fill : R → L → L

namespace Query

/-- Answer a query, remembered by every layer that had to ask. -/
def fetch (q : Query D L R) : LayerStack D L → R × LayerStack D L
  | base d => (q.read d, base d)
  | layer l b =>
    match q.find l with
    | some r => (r, layer l b)
    | none =>
      let (r, b') := q.fetch b
      (r, layer (q.fill r l) b')

/-- The answer to a query, without the side effect. -/
def peek (q : Query D L R) : LayerStack D L → R
  | base d => q.read d
  | layer l b => (q.find l).getD (q.peek b)

variable (q : Query D L R)

@[simp] theorem peek_base (d : D) : q.peek (base d) = q.read d := rfl

theorem peek_layer (q : Query D L R) (l : L) (b : LayerStack D L) :
    q.peek (layer l b) = (q.find l).getD (q.peek b) := rfl

theorem fetch_of_find (q : Query D L R) {l : L} {r : R} (h : q.find l = some r)
    (b : LayerStack D L) : q.fetch (layer l b) = (r, layer l b) := by
  rw [fetch, h]

theorem fetch_of_find_none (q : Query D L R) {l : L} (h : q.find l = none) (b : LayerStack D L) :
    q.fetch (layer l b) = ((q.fetch b).1, layer (q.fill (q.fetch b).1 l) (q.fetch b).2) := by
  rw [fetch, h]

@[simp] theorem fetch_fst (v : LayerStack D L) : (q.fetch v).1 = q.peek v := by
  induction v with
  | base d => rfl
  | layer l b ih =>
    cases h : q.find l with
    | some r => rw [q.fetch_of_find h, peek_layer, h, getD_some]
    | none => rw [q.fetch_of_find_none h, peek_layer, h, getD_none, ih]

theorem levels_peek_fetch_of_frame {R' : Type} (q : Query D L R) (q' : Query D L R')
    (h : ∀ r l, q'.find (q.fill r l) = q'.find l) (v : LayerStack D L) :
    levels q'.peek (q.fetch v).2 = levels q'.peek v := by
  induction v with
  | base d => rfl
  | layer l b ih =>
    cases hf : q.find l with
    | some r => rw [q.fetch_of_find hf]
    | none =>
      rw [q.fetch_of_find_none hf, levels_layer, levels_layer, ih, peek_layer,
        peek_layer, h, levels_top ih]

theorem levels_peek_fetch
    (h : ∀ r l, q.find l = none → q.find (q.fill r l) = none ∨ q.find (q.fill r l) = some r)
    (v : LayerStack D L) : levels q.peek (q.fetch v).2 = levels q.peek v := by
  induction v with
  | base d => rfl
  | layer l b ih =>
    cases hf : q.find l with
    | some r => rw [q.fetch_of_find hf]
    | none =>
      rw [q.fetch_of_find_none hf, levels_layer, levels_layer, ih, peek_layer,
        peek_layer, hf, getD_none]
      rcases h (q.fetch b).1 l hf with hn | hs
      · rw [hn, getD_none, levels_top ih]
      · rw [hs, getD_some, fetch_fst]

def ask (q : Query D L R) (t : Tip D L) : R × Tip D L :=
  match q.find t.top with
  | some r => (r, t)
  | none => ((q.fetch t.base).1, ⟨q.fill (q.fetch t.base).1 t.top, (q.fetch t.base).2⟩)

theorem stack_ask (t : Tip D L) : (q.ask t).2.stack = (q.fetch t.stack).2 := by
  cases h : q.find t.top with
  | some r => rw [ask, h, Tip.stack, q.fetch_of_find h]
  | none => rw [ask, h, Tip.stack, Tip.stack, q.fetch_of_find_none h]

@[simp] theorem ask_fst (t : Tip D L) : (q.ask t).1 = q.peek t.stack := by
  cases h : q.find t.top with
  | some r => rw [ask, h, Tip.stack, peek_layer, h, getD_some]
  | none => rw [ask, h, Tip.stack, peek_layer, h, getD_none, fetch_fst]

end Query

/-- **A projection that respects a query commutes with its fetch.** -/
theorem map_fetch (f : D → D') (g : L → L') (q : Query D L R) (q' : Query D' L' R)
    (hread : ∀ d, q'.read (f d) = q.read d) (hfind : ∀ l, q'.find (g l) = q.find l)
    (hfill : ∀ r l, q.find l = none → g (q.fill r l) = q'.fill r (g l)) (v : LayerStack D L) :
    map f g (q.fetch v).2 = (q'.fetch (map f g v)).2 ∧ q'.peek (map f g v) = q.peek v := by
  induction v with
  | base d => exact ⟨rfl, hread d⟩
  | layer l b ih =>
    cases h : q.find l with
    | some r =>
      have h' : q'.find (g l) = some r := by rw [hfind, h]
      refine ⟨?_, ?_⟩
      · rw [q.fetch_of_find h, map_layer, q'.fetch_of_find h']
      · rw [map_layer, Query.peek_layer, Query.peek_layer, h', h, getD_some, getD_some]
    | none =>
      have h' : q'.find (g l) = none := by rw [hfind, h]
      refine ⟨?_, ?_⟩
      · rw [q.fetch_of_find_none h, map_layer, map_layer, q'.fetch_of_find_none h',
          hfill _ l h, ih.1, Query.fetch_fst, Query.fetch_fst, ih.2]
      · rw [map_layer, Query.peek_layer, Query.peek_layer, h', h, getD_none, getD_none, ih.2]

theorem map_fetch_of_frame (f : D → D') (g : L → L') (q : Query D L R)
    (h : ∀ r l, g (q.fill r l) = g l) (v : LayerStack D L) :
    map f g (q.fetch v).2 = map f g v := by
  induction v with
  | base d => rfl
  | layer l b ih =>
    cases hf : q.find l with
    | some r => rw [q.fetch_of_find hf]
    | none => rw [q.fetch_of_find_none hf, map_layer, map_layer, h, ih]

end LayerStack

/-- What a stack of caches stands for: a value per level, newest first. -/
structure Generations (α : Type) where
  top : α
  below : List α

namespace Generations

variable {α : Type}

/-- A new cache is a copy of the one below. -/
def push (g : Generations α) : Generations α := ⟨g.top, g.top :: g.below⟩

/-- A dropped cache is forgotten; the last one stays. -/
def drop (g : Generations α) : Generations α :=
  match g.below with
  | a :: b :: rest => ⟨a, b :: rest⟩
  | _ => g

/-- A flushed cache becomes what lies below. -/
def flush (g : Generations α) : Generations α :=
  match g.below with
  | _ :: rest => ⟨g.top, g.top :: rest⟩
  | [] => g

theorem drop_cons {t a : α} {below : List α} (h : below ≠ []) :
    drop ⟨t, a :: below⟩ = ⟨a, below⟩ := by
  obtain ⟨b, rest, rfl⟩ := List.exists_cons_of_ne_nil h
  rfl

def modify (f : α → α) (g : Generations α) : Generations α := ⟨f g.top, g.below⟩

variable {β : Type}

def map (f : α → β) (g : Generations α) : Generations β := ⟨f g.top, g.below.map f⟩

theorem map_push (f : α → β) (g : Generations α) : g.push.map f = (g.map f).push := rfl

theorem map_drop (f : α → β) (g : Generations α) : g.drop.map f = (g.map f).drop := by
  obtain ⟨top, below⟩ := g
  match below with
  | [] => rfl
  | [_] => rfl
  | _ :: _ :: _ => rfl

theorem map_flush (f : α → β) (g : Generations α) : g.flush.map f = (g.map f).flush := by
  obtain ⟨top, below⟩ := g
  cases below with
  | nil => rfl
  | cons a rest => rfl

theorem map_modify {f : α → β} {u : α → α} {u' : β → β} {g : Generations α}
    (h : f (u g.top) = u' (f g.top)) : (g.modify u).map f = (g.map f).modify u' := by
  simp only [modify, map, h]

theorem map_modify_of_eq {f : α → β} {u : α → α} {g : Generations α}
    (h : f (u g.top) = f g.top) : (g.modify u).map f = g.map f := by
  simp only [modify, map, h]

end Generations

namespace LayerStack

variable {D L α : Type}

/-- What a stack stands for, level by level. -/
def Tip.generations (f : LayerStack D L → α) (t : Tip D L) : Generations α :=
  ⟨f t.stack, levels f t.base⟩

theorem Tip.generations_congr {f : LayerStack D L → α} {t t' : Tip D L}
    (h : levels f t'.stack = levels f t.stack) : t'.generations f = t.generations f := by
  simp only [Tip.stack, levels_layer, cons.injEq] at h
  simp only [Tip.generations, Tip.stack, h.1, h.2]

theorem Tip.generations_drop (f : LayerStack D L → α) (l l' : L) (b : LayerStack D L) :
    (Tip.mk l' b).generations f = ((Tip.mk l (layer l' b)).generations f).drop := by
  cases b with
  | base d => rfl
  | layer l'' b' => rfl

theorem Tip.generations_flush {f : LayerStack D L → α} {l l' : L} {b b' : LayerStack D L}
    (htop : f (layer l' b') = f (layer l b)) (hbase : f b' = f (layer l b))
    (hrest : (levels f b').tail = (levels f b).tail) :
    (Tip.mk l' b').generations f = ((Tip.mk l b).generations f).flush := by
  have hb' : levels f b' = f b' :: (levels f b').tail := by cases b' <;> rfl
  have hb : levels f b = f b :: (levels f b).tail := by cases b <;> rfl
  simp only [generations, Generations.flush, Tip.stack_mk]
  rw [htop, hb', hb, hbase, hrest]

end LayerStack
