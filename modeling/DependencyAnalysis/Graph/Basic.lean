import Mathlib.Data.List.Sort
import Mathlib.Data.List.Dedup
import Mathlib.Data.List.Chain
import Mathlib.Data.List.Lex
import Mathlib.Data.Char
import Mathlib.Algebra.BigOperators.Group.List
import Mathlib.Algebra.Order.Ring.Nat

/-!
# Dependency graphs as the two scripts hold them

`check_circular_deps.py` keeps its include graph as a `dict` from a header to the list of
headers it includes; `dependency_analyzer.py` keeps `all_deps` as a `dict` from a system to
the set of systems it depends on. Both are a `Graph` here: the entries of the `dict` in
insertion order, with distinct keys. A Python `set` is kept as the list its iteration
yields, so the order in which a script walks it is part of the input.

`IsCycle` is the shape both scripts report, `[n₀, …, nₖ, n₀]`. `Closed` and `Acyclic` are
the two facts about the finished part of a depth-first search from which both cycle searches
get their completeness.
-/

namespace DependencyAnalysis

/-! ## Python's `str` -/

/-- Python's `\s` on `str`: the characters `str.isspace()` accepts. -/
def isPySpace (c : Char) : Bool :=
  let n := c.toNat
  (9 ≤ n && n ≤ 13) || (28 ≤ n && n ≤ 32) || n == 133 || n == 160 || n == 5760 ||
    (8192 ≤ n && n ≤ 8202) || n == 8232 || n == 8233 || n == 8239 || n == 8287 || n == 12288

/-- Python's comparison of `str` values: lexicographic on code points. -/
def strLe (a b : String) : Prop := a.data ≤ b.data

instance : DecidableRel strLe := fun a b => inferInstanceAs (Decidable (a.data ≤ b.data))

theorem strLe_total (a b : String) : strLe a b ∨ strLe b a := le_total a.data b.data

theorem strLe_antisymm {a b : String} (hab : strLe a b) (hba : strLe b a) : a = b :=
  String.ext (le_antisymm hab hba)

/-- `sorted(xs)` on a list of `str`. -/
def pySorted (xs : List String) : List String := xs.insertionSort strLe

theorem pySorted_perm (xs : List String) : (pySorted xs).Perm xs :=
  List.perm_insertionSort _ _

@[simp] theorem mem_pySorted {a : String} {xs : List String} : a ∈ pySorted xs ↔ a ∈ xs :=
  (pySorted_perm xs).mem_iff

instance : IsTotal String strLe := ⟨strLe_total⟩

instance : IsTrans String strLe := ⟨fun _ _ _ => le_trans⟩

instance : IsAntisymm String strLe := ⟨fun _ _ => strLe_antisymm⟩

/-- `sorted` forgets the order it is given: lists with the same members, as often, sort alike. -/
theorem pySorted_eq_of_perm {xs ys : List String} (h : xs.Perm ys) : pySorted xs = pySorted ys :=
  List.eq_of_perm_of_sorted ((pySorted_perm xs).trans (h.trans (pySorted_perm ys).symm))
    (List.sorted_insertionSort _ _) (List.sorted_insertionSort _ _)

/-- A least member of a list comes first after `sorted`. -/
theorem pySorted_eq_cons {xs : List String} {x : String} (hx : x ∈ xs)
    (hmin : ∀ y ∈ xs, strLe x y) : ∃ rest, pySorted xs = x :: rest := by
  have hsorted : (pySorted xs).Sorted strLe := List.sorted_insertionSort strLe xs
  rcases hs : pySorted xs with _ | ⟨y, rest⟩
  · exact absurd (mem_pySorted.mpr hx) (by simp [hs])
  · rw [hs] at hsorted
    have hyx : strLe y x := by
      rcases List.mem_cons.mp (hs ▸ mem_pySorted.mpr hx) with rfl | h
      · exact le_refl _
      · exact List.rel_of_sorted_cons hsorted x h
    exact ⟨rest, by rw [strLe_antisymm hyx (hmin y (mem_pySorted.mp (hs ▸ .head rest)))]⟩

/-! ## Graphs -/

/-- A Python `dict` from a node to the nodes it depends on, entries in insertion order. -/
structure Graph (α : Type) where
  entries : List (α × List α)
  keys_nodup : (entries.map Prod.fst).Nodup

namespace Graph

variable {α : Type} [DecidableEq α] (g : Graph α)

/-- `graph.keys()`. -/
def keys : List α := g.entries.map Prod.fst

/-- `graph.get(node, [])`: the dependencies of `a`, empty when `a` is no key. -/
def get (a : α) : List α := (g.entries.lookup a).getD []

/-- `b` is a dependency of `a`. -/
def Edge (a b : α) : Prop := b ∈ g.get a

instance (a b : α) : Decidable (g.Edge a b) := inferInstanceAs (Decidable (b ∈ g.get a))

/-- Some node depends on itself through one or more edges. -/
def HasCycle : Prop := ∃ a, Relation.TransGen g.Edge a a

/-- The keys and every node they list: the `all_nodes` of `find_transitive_cycles`. -/
def nodes : List α := g.keys ++ (g.entries.map Prod.snd).flatten

/-- Every edge, in the order of the loops `for src, deps in graph.items(): for dst in deps`. -/
def edgeList : List (α × α) := g.entries.flatMap fun e => e.2.map (e.1, ·)

/-- `sum(len(deps) for deps in graph.values())`. -/
def totalDeps : Nat := (g.entries.map fun e => e.2.length).sum

/-- `graph[key].append(value)` on a `defaultdict(list)`: a missing key is added last. -/
def push (key value : α) : Graph α :=
  if h : key ∈ g.keys then
    ⟨g.entries.map fun e => if e.1 = key then (e.1, e.2 ++ [value]) else e, by
      simpa [List.map_map, Function.comp_def, apply_ite] using g.keys_nodup⟩
  else ⟨g.entries ++ [(key, [value])], by
    rw [List.map_append]
    exact List.nodup_append.mpr ⟨g.keys_nodup, List.nodup_singleton _, List.disjoint_singleton.mpr h⟩⟩

/-- `h` is `g` with each list in another order: the same keys in the same order, each with the
same members as often. For a `dict` of sets, two iteration orders of it. -/
def SameSets (h : Graph α) : Prop :=
  List.Forall₂ (fun e f => e.1 = f.1 ∧ e.2.Perm f.2) g.entries h.entries

instance (h : Graph α) : Decidable (g.SameSets h) :=
  inferInstanceAs (Decidable (List.Forall₂ _ _ _))

/-- The `dict` `{k: f(k) for k in keys}`. -/
def ofFun (keys : List α) (hk : keys.Nodup) (f : α → List α) : Graph α :=
  ⟨keys.map fun k => (k, f k), by simpa [List.map_map, Function.comp_def] using hk⟩

variable {g}

theorem mem_entries_of_mem_get {a b : α} (h : b ∈ g.get a) :
    ∃ deps, (a, deps) ∈ g.entries ∧ b ∈ deps := by
  unfold get at h
  cases hl : g.entries.lookup a with
  | none => simp [hl] at h
  | some deps =>
    obtain ⟨l₁, l₂, he, -⟩ := List.lookup_eq_some_iff.mp hl
    exact ⟨deps, by simp [he], by simpa [hl] using h⟩

/-- Keys are distinct, so `graph[a]` is the list of the entry of `a`. -/
theorem get_eq_of_mem_entries {a : α} {deps : List α} (h : (a, deps) ∈ g.entries) :
    g.get a = deps := by
  obtain ⟨entries, hnd⟩ := g
  simp only [get]
  induction entries with
  | nil => cases h
  | cons e entries ih =>
    obtain ⟨k, v⟩ := e
    obtain ⟨hk, hnd⟩ := List.nodup_cons.mp hnd
    rcases List.mem_cons.mp h with hkv | hmem
    · obtain ⟨rfl, rfl⟩ := Prod.mk.inj hkv
      simp [List.lookup_cons]
    · have hne : a ≠ k := fun hak => hk (List.mem_map.mpr ⟨(a, deps), hmem, hak⟩)
      simpa [List.lookup_cons, beq_false_of_ne hne] using ih hnd hmem

omit [DecidableEq α] in
/-- A graph is its entries. -/
theorem ext_entries {g h : Graph α} (he : g.entries = h.entries) : g = h := by
  cases g
  cases h
  cases he
  rfl

/-- A graph's entries are its keys, each with its list. -/
theorem entries_eq_map_get (g : Graph α) : g.entries = g.keys.map fun k => (k, g.get k) := by
  rw [keys, List.map_map]
  conv_lhs => rw [← List.map_id g.entries]
  exact List.map_congr_left fun ⟨a, deps⟩ he => by simp [get_eq_of_mem_entries he]

theorem mem_edgeList {a b : α} : (a, b) ∈ g.edgeList ↔ g.Edge a b := by
  simp only [edgeList, List.mem_flatMap, List.mem_map, Prod.mk.injEq]
  constructor
  · rintro ⟨⟨a, deps⟩, he, b, hb, rfl, rfl⟩
    exact (get_eq_of_mem_entries he).symm ▸ hb
  · intro h
    obtain ⟨deps, he, hb⟩ := mem_entries_of_mem_get h
    exact ⟨(a, deps), he, b, hb, rfl, rfl⟩

omit [DecidableEq α] in
/-- The walk `for src, deps in graph.items(): for dst in deps` takes `total_deps` steps. -/
theorem length_edgeList (g : Graph α) : g.edgeList.length = g.totalDeps := by
  simp only [edgeList, totalDeps, List.flatMap_def, List.length_flatten, List.map_map,
    Function.comp_def, List.length_map]

/-- The edges out of `a`, in the order of the walk, are the list of `a`. -/
theorem filter_edgeList (g : Graph α) (a : α) :
    g.edgeList.filter (fun p => p.1 = a) = (g.get a).map (a, ·) := by
  obtain ⟨entries, hnd⟩ := g
  simp only [edgeList, get]
  induction entries with
  | nil => rfl
  | cons e entries ih =>
    obtain ⟨k, v⟩ := e
    obtain ⟨hk, hnd⟩ := List.nodup_cons.mp hnd
    rw [List.flatMap_cons, List.filter_append, ih hnd, List.filter_map, List.lookup_cons]
    by_cases hka : k = a
    · subst hka
      have hnone : entries.lookup k = none := List.lookup_eq_none_iff.mpr fun p hp =>
        bne_iff_ne.mpr fun h => hk (List.mem_map.mpr ⟨p, hp, h.symm⟩)
      simp [hnone, Function.comp_def]
    · simp [hka, beq_false_of_ne (Ne.symm hka), Function.comp_def]

theorem lookup_ne_none_of_mem_keys {a : α} (h : a ∈ g.keys) : g.entries.lookup a ≠ none := by
  rw [Ne, List.lookup_eq_none_iff]
  intro hnone
  obtain ⟨e, he, rfl⟩ := List.mem_map.mp h
  simpa using hnone e he

theorem lookup_eq_none_of_not_mem_keys {a : α} (h : a ∉ g.keys) : g.entries.lookup a = none := by
  rw [List.lookup_eq_none_iff]
  intro e he
  have : a ≠ e.1 := fun hae => h (List.mem_map.mpr ⟨e, he, hae.symm⟩)
  simpa using this

theorem lookup_map_append (key value x : α) (l : List (α × List α)) :
    (l.map fun e => if e.1 = key then (e.1, e.2 ++ [value]) else e).lookup x =
      if x = key then (l.lookup x).map (· ++ [value]) else l.lookup x := by
  induction l with
  | nil => split_ifs <;> rfl
  | cons e l ih =>
    obtain ⟨k, v⟩ := e
    by_cases hk : k = key
    · subst hk
      rw [List.map_cons, if_pos rfl]
      by_cases hx : x = k
      · subst hx
        simp [List.lookup_cons]
      · simp only [List.lookup_cons, beq_false_of_ne hx, ih, if_neg hx]
    · simp only [List.map_cons, if_neg hk, List.lookup_cons, ih]
      by_cases hx : x = k
      · subst hx
        simp [hk]
      · simp [beq_false_of_ne hx]

/-- The entry of `key` grows by `value`; every other entry is unchanged. -/
theorem get_push (key value x : α) :
    (g.push key value).get x = if x = key then g.get x ++ [value] else g.get x := by
  unfold push get
  split_ifs with hkey hx hx
  · subst hx
    obtain ⟨v, hv⟩ := Option.ne_none_iff_exists'.mp (lookup_ne_none_of_mem_keys hkey)
    simp [lookup_map_append, hv]
  · simp [lookup_map_append, hx]
  · subst hx
    simp [List.lookup_append, lookup_eq_none_of_not_mem_keys hkey, List.lookup_cons]
  · simp [List.lookup_append, List.lookup_cons, beq_false_of_ne hx]

/-- Pushing adds one to `total_deps`. -/
theorem totalDeps_push (key value : α) : (g.push key value).totalDeps = g.totalDeps + 1 := by
  unfold push totalDeps
  split_ifs with hkey
  · have hsum : ∀ l : List (α × List α), ((l.map fun e => if e.1 = key then (e.1, e.2 ++ [value])
        else e).map fun e => e.2.length).sum =
          (l.map fun e => e.2.length).sum + (l.map Prod.fst).count key := by
      intro l
      induction l with
      | nil => rfl
      | cons e l ih =>
        simp only [List.map_cons, List.sum_cons, ih, List.count_cons]
        by_cases he : e.1 = key <;> simp [he] <;> omega
    rw [hsum, List.count_eq_one_of_mem g.keys_nodup hkey]
  · simp [List.sum_append]

/-- Appending `values` to the entry of `key` one by one. -/
theorem get_foldl_push (key : α) (values : List α) (x : α) :
    ∀ g : Graph α, (values.foldl (fun g v => g.push key v) g).get x =
      if x = key then g.get x ++ values else g.get x := by
  induction values with
  | nil => intro g; simp
  | cons v values ih =>
    intro g
    rw [List.foldl_cons, ih, get_push]
    split_ifs <;> simp

theorem totalDeps_foldl_push (key : α) (values : List α) :
    ∀ g : Graph α, (values.foldl (fun g v => g.push key v) g).totalDeps = g.totalDeps + values.length := by
  induction values with
  | nil => intro g; rfl
  | cons v values ih =>
    intro g
    rw [List.foldl_cons, ih, totalDeps_push, List.length_cons]
    omega

theorem mem_keys_of_mem_get {a b : α} (h : b ∈ g.get a) : a ∈ g.keys := by
  obtain ⟨deps, hm, -⟩ := mem_entries_of_mem_get h
  exact List.mem_map.mpr ⟨_, hm, rfl⟩

/-- Both ends of an edge are among `nodes`. -/
theorem mem_nodes_of_edge {a b : α} (h : g.Edge a b) : a ∈ g.nodes ∧ b ∈ g.nodes := by
  obtain ⟨deps, hm, hb⟩ := mem_entries_of_mem_get h
  refine ⟨List.mem_append_left _ (mem_keys_of_mem_get h), List.mem_append_right _ ?_⟩
  exact List.mem_flatten.mpr ⟨deps, List.mem_map.mpr ⟨_, hm, rfl⟩, hb⟩

/-- Whether a graph has a cycle depends only on its lists. -/
theorem hasCycle_congr {h : Graph α} (hget : ∀ a, g.get a = h.get a) : g.HasCycle ↔ h.HasCycle := by
  have hE : g.Edge = h.Edge := funext₂ fun a b => by rw [Edge, Edge, hget]
  rw [HasCycle, HasCycle, hE]

/-- A node is among `nodes` when it is a key or a dependency of one. -/
theorem mem_nodes {a : α} : a ∈ g.nodes ↔ a ∈ g.keys ∨ ∃ b, g.Edge b a := by
  simp only [nodes, List.mem_append, List.mem_flatten, List.mem_map]
  refine or_congr_right ⟨?_, ?_⟩
  · rintro ⟨_, ⟨⟨b, deps⟩, he, rfl⟩, ha⟩
    exact ⟨b, by rw [Edge, get_eq_of_mem_entries he]; exact ha⟩
  · rintro ⟨b, hb⟩
    obtain ⟨deps, he, ha⟩ := mem_entries_of_mem_get hb
    exact ⟨deps, ⟨_, he, rfl⟩, ha⟩

theorem get_eq_nil_of_not_mem_keys {a : α} (h : a ∉ g.keys) : g.get a = [] := by
  simp [get, lookup_eq_none_of_not_mem_keys h]

/-- The same entries inserted in another order give the same lists. -/
theorem get_eq_of_entries_perm {h : Graph α} (hp : g.entries.Perm h.entries) (a : α) :
    g.get a = h.get a := by
  by_cases ha : a ∈ g.keys
  · obtain ⟨⟨a, deps⟩, he, rfl⟩ := List.mem_map.mp ha
    rw [get_eq_of_mem_entries he, get_eq_of_mem_entries (hp.subset he)]
  · have hb : a ∉ h.keys := fun hb => ha ((hp.map Prod.fst).mem_iff.mpr hb)
    rw [get_eq_nil_of_not_mem_keys ha, get_eq_nil_of_not_mem_keys hb]

omit [DecidableEq α] in
@[simp] theorem keys_ofFun (keys : List α) (hk : keys.Nodup) (f : α → List α) :
    (ofFun keys hk f).keys = keys := by
  simp [Graph.keys, ofFun, List.map_map, Function.comp_def]

theorem get_ofFun {keys : List α} {hk : keys.Nodup} {f : α → List α} {a : α} (ha : a ∈ keys) :
    (ofFun keys hk f).get a = f a :=
  get_eq_of_mem_entries (List.mem_map.mpr ⟨a, ha, rfl⟩)

variable (g) in
/-- Every key lists at least one node, as in a `defaultdict(list)` filled by `append` alone. -/
def NoEmptyEntry : Prop := ∀ e ∈ g.entries, e.2 ≠ []

/-- Where no list is empty, the keys are the nodes with a dependency. -/
theorem NoEmptyEntry.mem_keys_iff (hg : g.NoEmptyEntry) {a : α} : a ∈ g.keys ↔ g.get a ≠ [] := by
  constructor
  · intro ha
    obtain ⟨⟨a, deps⟩, he, rfl⟩ := List.mem_map.mp ha
    rw [get_eq_of_mem_entries he]
    exact hg _ he
  · intro ha
    obtain ⟨b, hb⟩ := List.exists_mem_of_ne_nil _ ha
    exact mem_keys_of_mem_get hb

theorem NoEmptyEntry.push (hg : g.NoEmptyEntry) (key value : α) : (g.push key value).NoEmptyEntry := by
  unfold Graph.push NoEmptyEntry
  split
  · intro _ hmem
    obtain ⟨e, he, rfl⟩ := List.mem_map.mp hmem
    split_ifs
    · simp
    · exact hg e he
  · rintro e he
    rcases List.mem_append.mp he with he | he
    · exact hg e he
    · simp [List.mem_singleton.mp he]

theorem NoEmptyEntry.foldl_push (key : α) :
    ∀ (values : List α) (g : Graph α), g.NoEmptyEntry →
      (values.foldl (fun g v => g.push key v) g).NoEmptyEntry
  | [], _, hg => hg
  | v :: values, _, hg => NoEmptyEntry.foldl_push key values _ (hg.push key v)

/-- Reordering the lists reorders what `graph[a]` gives. -/
theorem SameSets.get_perm {h : Graph α} (hs : g.SameSets h) (a : α) : (g.get a).Perm (h.get a) := by
  unfold SameSets at hs
  unfold get
  generalize g.entries = l₁, h.entries = l₂ at hs ⊢
  induction hs with
  | nil => exact .refl _
  | @cons e f l₁ l₂ hef _ ih =>
    obtain ⟨k, v⟩ := e
    obtain ⟨k', v'⟩ := f
    obtain ⟨rfl, hv⟩ := hef
    simp only [List.lookup_cons]
    cases a == k
    · exact ih
    · exact hv

omit [DecidableEq α] in
theorem SameSets.keys_eq {h : Graph α} (hs : g.SameSets h) : g.keys = h.keys := by
  unfold SameSets at hs
  unfold keys
  generalize g.entries = l₁, h.entries = l₂ at hs ⊢
  induction hs with
  | nil => rfl
  | cons hef _ ih => simp only [List.map_cons, hef.1, ih]

/-- Two graphs with the same keys in the same order are reorderings of each other when each
key gets the same members as often in both. -/
theorem SameSets.of_get_perm {h : Graph α} (hk : g.keys = h.keys)
    (hp : ∀ a ∈ g.keys, (g.get a).Perm (h.get a)) : g.SameSets h := by
  suffices key : ∀ l₁ l₂ : List (α × List α), l₁ ⊆ g.entries → l₂ ⊆ h.entries →
      l₁.map Prod.fst = l₂.map Prod.fst →
        List.Forall₂ (fun e f => e.1 = f.1 ∧ e.2.Perm f.2) l₁ l₂ from
    key _ _ (List.Subset.refl _) (List.Subset.refl _) hk
  intro l₁
  induction l₁ with
  | nil => intro l₂ _ _ hkeys; cases l₂ <;> simp_all
  | cons e l₁ ih =>
    intro l₂ h₁ h₂ hkeys
    cases l₂ with
    | nil => simp at hkeys
    | cons f l₂ =>
      simp only [List.map_cons, List.cons.injEq] at hkeys
      have he := h₁ (List.mem_cons_self _ _)
      have hf := h₂ (List.mem_cons_self _ _)
      refine .cons ⟨hkeys.1, ?_⟩ (ih l₂ (fun x hx => h₁ (List.mem_cons_of_mem _ hx))
        (fun x hx => h₂ (List.mem_cons_of_mem _ hx)) hkeys.2)
      rw [← get_eq_of_mem_entries he, ← get_eq_of_mem_entries hf, ← hkeys.1]
      exact hp e.1 (List.mem_map.mpr ⟨e, he, rfl⟩)

omit [DecidableEq α] in
/-- Reordering the lists keeps `total_deps`. -/
theorem SameSets.totalDeps_eq {h : Graph α} (hs : g.SameSets h) : g.totalDeps = h.totalDeps := by
  unfold SameSets at hs
  unfold totalDeps
  generalize g.entries = l₁, h.entries = l₂ at hs ⊢
  induction hs with
  | nil => rfl
  | cons hef _ ih => simp only [List.map_cons, List.sum_cons, hef.2.length_eq, ih]

end Graph

/-! ## Cycles -/

variable {α : Type} {E : α → α → Prop}

/-- `c = [n₀, …, nₖ, n₀]` with `n₀, …, nₖ` distinct, each `nᵢ` related to `nᵢ₊₁` and `nₖ` to
`n₀`. -/
def IsCycle (E : α → α → Prop) (c : List α) : Prop :=
  ∃ n ns, c = n :: ns ++ [n] ∧ (n :: ns).Nodup ∧ List.Chain E n (ns ++ [n])

/-- A reported cycle is a witness that some node reaches itself. -/
theorem IsCycle.transGen {c : List α} (h : IsCycle E c) : ∃ a, Relation.TransGen E a a := by
  obtain ⟨n, ns, -, -, hc⟩ := h
  cases ns with
  | nil => exact ⟨n, .single (List.chain_singleton.mp hc)⟩
  | cons m ms =>
    obtain ⟨hnm, hrest⟩ := List.chain_cons.mp hc
    exact ⟨n, .head' hnm (List.relationReflTransGen_of_exists_chain _ hrest (by simp))⟩

/-- `xs[xs.index(x):] + [x]`: the slice both scripts report when an edge closes on `x`. -/
def sliceFrom [DecidableEq α] (xs : List α) (x : α) : List α := xs.drop (xs.indexOf x) ++ [x]

/-- Slicing a duplicate-free chain at a node `x` on which its last node depends gives a
cycle. -/
theorem isCycle_sliceFrom [DecidableEq α] {xs : List α} {x : α} (hnd : xs.Nodup)
    (hc : xs.Chain' E) (hx : x ∈ xs) (hlast : ∀ y ∈ xs.getLast?, E y x) :
    IsCycle E (sliceFrom xs x) := by
  have hi : xs.indexOf x < xs.length := List.indexOf_lt_length.mpr hx
  have hdrop : xs.drop (xs.indexOf x) = x :: xs.drop (xs.indexOf x + 1) := by
    rw [List.drop_eq_getElem_cons hi, List.getElem_indexOf]
  refine ⟨x, xs.drop (xs.indexOf x + 1), by rw [sliceFrom, hdrop], ?_, ?_⟩
  · exact hdrop ▸ hnd.sublist (List.drop_sublist _ _)
  · have hlast' : ∀ y ∈ (xs.drop (xs.indexOf x)).getLast?, E y x := by
      rw [List.getLast?_drop, if_neg (by omega)]
      exact hlast
    have := List.chain'_append.mpr ⟨hc.drop _, List.chain'_singleton x,
      fun y hy z hz => by simp only [List.head?_cons, Option.mem_def, Option.some.injEq] at hz
                          exact hz ▸ hlast' y hy⟩
    rw [hdrop] at this
    exact this

/-- Along a chain every node reaches the last one. -/
theorem reflTransGen_getLast {l : List α} (hc : l.Chain' E) {x y : α} (hx : x ∈ l)
    (hy : y ∈ l.getLast?) : Relation.ReflTransGen E x y := by
  obtain ⟨l₁, l₂, rfl⟩ := List.append_of_mem hx
  have hc' : List.Chain E x l₂ := List.Chain'.right_of_append hc
  refine List.relationReflTransGen_of_exists_chain l₂ hc' ?_
  rw [List.getLast?_append_cons] at hy
  obtain ⟨hne, rfl⟩ := List.mem_getLast?_eq_getLast hy
  rfl

/-- The slice from any node of a list keeps the list's last node. -/
theorem getLast_mem_sliceFrom [DecidableEq α] {xs : List α} {x y : α} (hx : x ∈ xs)
    (hy : y ∈ xs.getLast?) : y ∈ sliceFrom xs x := by
  have hi : xs.indexOf x < xs.length := List.indexOf_lt_length.mpr hx
  have : y ∈ (xs.drop (xs.indexOf x)).getLast? := by
    rw [List.getLast?_drop, if_neg (by omega)]
    exact hy
  exact List.mem_append_left _ (List.mem_of_mem_getLast? this)

/-- The slice from a node of a list holds only nodes of the list. -/
theorem sliceFrom_subset [DecidableEq α] {xs : List α} {x : α} (hx : x ∈ xs) :
    sliceFrom xs x ⊆ xs :=
  List.append_subset.mpr ⟨List.drop_subset _ _, List.cons_subset.mpr ⟨hx, List.nil_subset _⟩⟩

/-! ## The finished part of a depth-first search

A search that stops at its first cycle leaves some nodes visited but unfinished. `ClosedUpTo`
says that the finished nodes `F` depend only on finished nodes or on such left-over nodes `S`;
`AcyclicOn` says that no cycle runs through `F` alone. Together they force every cycle through
a finished node to pass through `S` (`ClosedUpTo.reaches`). With `S` empty they say that the
finished part is acyclic.
-/

/-- Visited and no longer on the recursion stack: the node's search ran to the end. -/
def Finished (visited onStack : List α) (u : α) : Prop := u ∈ visited ∧ u ∉ onStack

section Finished

variable [DecidableEq α] {visited onStack onStack' : List α} {a : α}

/-- Entering a fresh node finishes nothing. -/
theorem finished_enter (hstack : ∀ u, u ∈ onStack' ↔ u = a ∨ u ∈ onStack) (ha : a ∉ visited) :
    Finished (visited.insert a) onStack' = Finished visited onStack := by
  funext u
  by_cases hu : u = a
  · subst hu
    simp [Finished, hstack, ha]
  · simp [Finished, hstack, hu, List.mem_insert_iff]

/-- Taking a visited node off the recursion stack finishes it. -/
theorem finished_leave_iff (hstack : ∀ u, u ∈ onStack ↔ u = a ∨ u ∈ onStack')
    (ha : a ∈ visited) (ha' : a ∉ onStack') (u : α) :
    Finished visited onStack' u ↔ Finished visited onStack u ∨ u = a := by
  by_cases hu : u = a
  · subst hu
    simp [Finished, ha, ha']
  · simp [Finished, hstack, hu]

end Finished

/-- The neighbour loop consumes `nb`: if every dependency was still to come, finished or left
over, and `nb` is now finished or left over, then so is every dependency but those still to
come, as long as finished nodes stay finished. -/
theorem pending_tail {deps nbs : List α} {nb : α} {F F' S : α → Prop}
    (h : ∀ b ∈ deps, b ∈ nb :: nbs ∨ F b ∨ S b) (hF : ∀ u, F u → F' u) (hnb : F' nb ∨ S nb) :
    ∀ b ∈ deps, b ∈ nbs ∨ F' b ∨ S b := by
  intro b hb
  rcases h b hb with hb | hb | hb
  · rcases List.mem_cons.mp hb with rfl | hb
    · exact .inr hnb
    · exact .inl hb
  · exact .inr (.inl (hF b hb))
  · exact .inr (.inr hb)

/-- Every dependency of a node of `F` is in `F` or in `S`. -/
def ClosedUpTo (E : α → α → Prop) (F S : α → Prop) : Prop := ∀ u v, F u → E u v → F v ∨ S v

/-- No cycle runs through the nodes of `F` alone. -/
def AcyclicOn (E : α → α → Prop) (F : α → Prop) : Prop :=
  ∀ u, F u → ¬ Relation.TransGen (fun a b => E a b ∧ F b) u u

variable {F F' S S' : α → Prop} {a : α}

/-- A path through `F` alone ends in `F`. -/
theorem right_of_transGen_within {u v : α}
    (h : Relation.TransGen (fun a b => E a b ∧ F b) u v) : F v := by
  cases h with
  | single h => exact h.2
  | tail _ h => exact h.2

theorem ClosedUpTo.mono (hF : ClosedUpTo E F S) (hS : ∀ x, S x → S' x) : ClosedUpTo E F S' :=
  fun u v hu huv => (hF u v hu huv).imp_right (hS v)

/-- A path from a node of `F` that never reaches `S` runs through `F` alone. -/
theorem ClosedUpTo.transGen_within (hF : ClosedUpTo E F S) {u v : α} (hu : F u)
    (h : Relation.TransGen E u v) (hS : ∀ w, S w → ¬ Relation.ReflTransGen E u w) :
    Relation.TransGen (fun a b => E a b ∧ F b) u v := by
  induction h with
  | single huv =>
    exact .single ⟨huv, (hF _ _ hu huv).resolve_right fun hv => hS _ hv (.single huv)⟩
  | @tail w v huw hwv ih =>
    exact .tail ih ⟨hwv, (hF _ _ (right_of_transGen_within ih) hwv).resolve_right
      fun hv => hS _ hv (.tail huw.to_reflTransGen hwv)⟩

/-- A cycle through a finished node reaches a left-over node. -/
theorem ClosedUpTo.reaches (hF : ClosedUpTo E F S) (hA : AcyclicOn E F) {u : α} (hu : F u)
    (h : Relation.TransGen E u u) : ∃ w, S w ∧ Relation.ReflTransGen E u w := by
  by_contra hno
  push_neg at hno
  exact hA u hu (hF.transGen_within hu h hno)

section Insert

variable (hF' : ∀ u, F' u ↔ F u ∨ u = a) (hdeps : ∀ v, E a v → F v ∨ S v)
include hF' hdeps

/-- Finishing a node whose dependencies are finished or left over keeps `ClosedUpTo`. -/
theorem ClosedUpTo.insert (hF : ClosedUpTo E F S) : ClosedUpTo E F' S := by
  intro u v hu huv
  rcases (hF' u).mp hu with hu | rfl
  · exact (hF u v hu huv).imp_left fun hv => (hF' v).mpr (.inl hv)
  · exact (hdeps v huv).imp_left fun hv => (hF' v).mpr (.inl hv)

/-- Finishing a node outside `F` and `S` whose dependencies are finished or left over keeps
`AcyclicOn`: a cycle through the new node would have to come back to it from `F`, and `F`
depends on nothing outside `F` and `S`. -/
theorem AcyclicOn.insert (hF : ClosedUpTo E F S) (hA : AcyclicOn E F) (haF : ¬ F a)
    (haS : ¬ S a) : AcyclicOn E F' := by
  -- a node of `F'` that is finished or left over is in `F`
  have hin : ∀ v, F' v → F v ∨ S v → F v := fun v hv h =>
    h.elim id fun hS => ((hF' v).mp hv).elim id fun h => absurd (h ▸ hS) haS
  have hstay : ∀ u v, F u → Relation.TransGen (fun a b => E a b ∧ F' b) u v →
      Relation.TransGen (fun a b => E a b ∧ F b) u v := by
    intro u v hu h
    induction h with
    | single h => exact .single ⟨h.1, hin _ h.2 (hF _ _ hu h.1)⟩
    | tail _ h ih => exact .tail ih ⟨h.1, hin _ h.2 (hF _ _ (right_of_transGen_within ih) h.1)⟩
  intro u hu hcyc
  rcases (hF' u).mp hu with hu | rfl
  · exact hA u hu (hstay u u hu hcyc)
  · obtain ⟨v, ⟨hav, hv⟩, hva⟩ := Relation.TransGen.head'_iff.mp hcyc
    have hvF : F v := hin v hv (hdeps v hav)
    rcases hva.cases_head with rfl | ⟨w, hvw, hwa⟩
    · exact haF hvF
    · exact haF (right_of_transGen_within (hstay v _ hvF (.head' hvw hwa)))

end Insert

end DependencyAnalysis
