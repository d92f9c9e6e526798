import DependencyAnalysis.Graph.Basic
import DependencyAnalysis.Graph.Search

/-!
# `find_transitive_cycles`: the model and its frame

`find_transitive_cycles` in `scripts/check_circular_deps.py` runs a recursive `dfs` from every
node of the graph, in sorted order, that no earlier search visited. `visited` and `rec_stack`
are sets shared by all searches; `path` is a list local to one top-level search. `dfs` returns
the first cycle it meets straight up the recursion, without popping `path` or `rec_stack`, so
after a search that found a cycle `rec_stack` keeps stale nodes; `path.index` then raises
`ValueError` for them and the `try` skips the edge.

`dfs` is the shared recursion `Search.dfs`, here as `transitiveSearch`. Python stops it with
`RecursionError` at the 998th nested call (`dfsDepthLimit`); nothing catches the error, so
`find_transitive_cycles` then returns nothing (`none`). A graph with at most `dfsDepthLimit`
nodes never goes that deep (`findTransitiveCycles_isSome`).

On top of the shared frame facts, `scan_inv` splits a visited neighbour into the edge that
closes a cycle and the one skipped, and `dfs_restores` says that a search that returns no cycle
gives back `path` and `rec_stack` as it found them.
-/

namespace DependencyAnalysis.CircularDeps

/-- The state `dfs` works on: the sets `visited` and `rec_stack` shared by all searches, and
the `path` of the current top-level search. -/
structure DfsState (α : Type) where
  visited : List α
  recStack : List α
  path : List α

variable {α : Type} [DecidableEq α]

/-- Entering `node`: `visited.add(node)`, `rec_stack.add(node)`, `path.append(node)`. -/
def DfsState.enter (s : DfsState α) (node : α) : DfsState α :=
  ⟨s.visited.insert node, s.recStack.insert node, s.path ++ [node]⟩

/-- Leaving `node` without a cycle: `path.pop()`, `rec_stack.remove(node)`. -/
def DfsState.leave (s : DfsState α) (node : α) : DfsState α :=
  ⟨s.visited, s.recStack.erase node, s.path.dropLast⟩

@[simp] theorem DfsState.enter_visited (s : DfsState α) (a : α) :
    (s.enter a).visited = s.visited.insert a := rfl

@[simp] theorem DfsState.enter_recStack (s : DfsState α) (a : α) :
    (s.enter a).recStack = s.recStack.insert a := rfl

@[simp] theorem DfsState.enter_path (s : DfsState α) (a : α) :
    (s.enter a).path = s.path ++ [a] := rfl

@[simp] theorem DfsState.leave_visited (s : DfsState α) (a : α) :
    (s.leave a).visited = s.visited := rfl

@[simp] theorem DfsState.leave_recStack (s : DfsState α) (a : α) :
    (s.leave a).recStack = s.recStack.erase a := rfl

@[simp] theorem DfsState.leave_path (s : DfsState α) (a : α) :
    (s.leave a).path = s.path.dropLast := rfl

/-- The `try` block for a neighbour on `rec_stack`: `path[path.index(neighbor):] + [neighbor]`,
or `none` where `path.index` raises `ValueError`. -/
def closeCycle (path : List α) (nb : α) : Option (List α) :=
  if nb ∈ path then some (sliceFrom path nb) else none

/-- What one call of `dfs` gives back: the cycle it returns, if any, and the state after it. -/
abbrev DfsResult (α : Type) := Option (List α) × DfsState α

/-- The search of `find_transitive_cycles`: a visited neighbour on `rec_stack` returns the cycle
the `try` block closes, unless `path.index` raises; a call that found nothing returns `None`. A
returned cycle is never empty, so `if cycle:` is the test `some c`. -/
def transitiveSearch : Search α (DfsState α) (Option (List α)) where
  visited := DfsState.visited
  enter := DfsState.enter
  leave := DfsState.leave
  revisit s nb := if nb ∈ s.recStack then (closeCycle s.path nb).map fun c => (some c, s) else none
  quiet := none
  enter_visited _ _ := rfl
  leave_visited _ _ := rfl
  revisit_visited s nb r h := by
    dsimp only at h
    split_ifs at h
    obtain ⟨c, -, rfl⟩ := Option.map_eq_some'.mp h
    rfl

/-- `dfs(node, path)` of `find_transitive_cycles`, with at most `fuel` nested calls. -/
def dfs (g : Graph α) : Nat → α → DfsState α → Option (DfsResult α) := transitiveSearch.dfs g.get

theorem dfs_succ (g : Graph α) (fuel : Nat) (node : α) (s : DfsState α) :
    dfs g (fuel + 1) node s = transitiveSearch.scan (dfs g fuel) node (g.get node) (s.enter node) :=
  rfl

/-- The loop `for node in sorted(all_nodes)`: a search from each node not yet visited, with a
fresh `path`, appending the cycle it returns. -/
def searchAll (g : Graph α) (fuel : Nat) :
    List α → List (List α) → List α → List α → Option (List (List α))
  | [], cycles, _, _ => some cycles
  | node :: rest, cycles, visited, recStack =>
    if node ∈ visited then searchAll g fuel rest cycles visited recStack
    else match dfs g fuel node ⟨visited, recStack, []⟩ with
      | none => none
      | some (c, s) => searchAll g fuel rest (cycles ++ c.toList) s.visited s.recStack

/-- The nested calls of `dfs` Python allows under its default recursion limit of 1000 frames:
the module, `main()` and `find_transitive_cycles` hold three. -/
def dfsDepthLimit : Nat := 997

/-- `sorted(all_nodes)`: every key and every listed target, each once, in `str` order. -/
def allNodes (g : Graph String) : List String := pySorted g.nodes.dedup

/-- `find_transitive_cycles(graph)`; `none` is the `RecursionError` of a search nested deeper
than `dfsDepthLimit`. -/
def findTransitiveCycles (g : Graph String) : Option (List (List String)) :=
  searchAll g dfsDepthLimit (allNodes g) [] [] []

/-! ## The neighbour loop -/

theorem transitiveSearch_revisit_eq_some {s : DfsState α} {nb : α} {r : DfsResult α} :
    transitiveSearch.revisit s nb = some r ↔
      nb ∈ s.recStack ∧ ∃ c, closeCycle s.path nb = some c ∧ r = (some c, s) := by
  simp only [transitiveSearch]
  split_ifs with h
  · simp only [Option.map_eq_some', h, true_and]
    exact exists_congr fun c => and_congr_right fun _ => eq_comm
  · simp [h]

theorem transitiveSearch_revisit_eq_none {s : DfsState α} {nb : α} :
    transitiveSearch.revisit s nb = none ↔ (nb ∈ s.recStack → closeCycle s.path nb = none) := by
  simp only [transitiveSearch]
  split_ifs with h <;> simp [h]

/-- `Search.scan_inv` for `find_transitive_cycles`, with a visited neighbour split into the edge
that closes a cycle and the one that is skipped. -/
theorem scan_inv {visit : α → DfsState α → Option (DfsResult α)} {node : α}
    (P : List α → DfsState α → Prop) (Q : DfsResult α → Prop)
    (hvisit : ∀ nb nbs t r, P (nb :: nbs) t → nb ∉ t.visited → visit nb t = some r →
      (r.1 = none → P nbs r.2) ∧ (r.1 ≠ none → Q r))
    (hclose : ∀ nb nbs t c, P (nb :: nbs) t → nb ∈ t.recStack →
      closeCycle t.path nb = some c → Q (some c, t))
    (hskip : ∀ nb nbs t, P (nb :: nbs) t → nb ∈ t.visited →
      (nb ∈ t.recStack → closeCycle t.path nb = none) → P nbs t)
    (hdone : ∀ t, P [] t → Q (none, t.leave node)) :
    ∀ nbs s r, P nbs s → transitiveSearch.scan visit node nbs s = some r → Q r :=
  Search.scan_inv P Q hvisit
    (fun nb nbs t r ht _ h => by
      obtain ⟨hr, c, hc, rfl⟩ := transitiveSearch_revisit_eq_some.mp h
      exact hclose nb nbs t c ht hr hc)
    (fun nb nbs t ht hv h => hskip nb nbs t ht hv (transitiveSearch_revisit_eq_none.mp h)) hdone

/-! ## Frame facts of `dfs` -/

section Frame

variable (g : Graph α)

/-- `Search.dfs_inv` for `find_transitive_cycles`, where looking at a visited neighbour keeps
the state. -/
theorem dfs_inv (C : α → Prop) (hC : ∀ a, C a → ∀ b ∈ g.get a, C b)
    (Inv : DfsState α → Prop) (henter : ∀ t a, Inv t → C a → a ∉ t.visited → Inv (t.enter a))
    (hleave : ∀ t a, Inv t → Inv (t.leave a)) :
    ∀ fuel node s r, C node → Inv (s.enter node) → dfs g fuel node s = some r → Inv r.2 :=
  transitiveSearch.dfs_inv g.get C hC Inv henter hleave fun _ _ _ ht h => by
    obtain ⟨-, c, -, rfl⟩ := transitiveSearch_revisit_eq_some.mp h
    exact ht

/-- `dfs` only adds to `visited`, and adds its own node. -/
theorem dfs_visited {fuel : Nat} {node : α} {s : DfsState α} {r : DfsResult α}
    (h : dfs g fuel node s = some r) : s.visited.insert node ⊆ r.2.visited :=
  transitiveSearch.dfs_visited g.get h

/-- A search that returns no cycle gives back `path` and `rec_stack` as it found them. -/
theorem dfs_restores : ∀ fuel node (s : DfsState α) s',
    s.recStack ⊆ s.visited → node ∉ s.visited → dfs g fuel node s = some (none, s') →
      s'.path = s.path ∧ s'.recStack = s.recStack := by
  intro fuel
  induction fuel with
  | zero => intro _ _ _ _ _ h; cases h
  | succ fuel ih =>
    intro node s s' hrv hnv h
    have hnr : node ∉ s.recStack := fun h' => hnv (hrv h')
    refine scan_inv (fun _ t => t.path = s.path ++ [node] ∧
        t.recStack = node :: s.recStack ∧ node :: s.recStack ⊆ t.visited)
      (fun r => r.1 = none → r.2.path = s.path ∧ r.2.recStack = s.recStack) ?_
      (fun _ _ _ _ _ _ _ h => by cases h) (fun _ _ _ ht _ _ => ht) ?_ _ _ _
      ⟨rfl, List.insert_of_not_mem hnr, ?_⟩ h rfl
    · rintro nb nbs t ⟨c, t'⟩ ⟨hp, hr, hsub⟩ hv hres
      refine ⟨fun hc => ?_, fun hc h' => absurd h' hc⟩
      obtain rfl : c = none := hc
      obtain ⟨hp', hr'⟩ := ih nb t t' (hr ▸ hsub) hv hres
      exact ⟨hp'.trans hp, hr'.trans hr,
        hsub.trans fun _ hx => dfs_visited g hres (List.mem_insert_of_mem hx)⟩
    · rintro t ⟨hp, hr, -⟩ -
      simp [hp, hr]
    · exact List.cons_subset.mpr ⟨List.mem_insert_self _ _,
        fun _ hx => List.mem_insert_of_mem (hrv hx)⟩

/-- `rec_stack` holds only visited nodes. -/
theorem dfs_recStack_subset {fuel : Nat} {node : α} {s : DfsState α} {r : DfsResult α}
    (hs : s.recStack ⊆ s.visited) (h : dfs g fuel node s = some r) :
    r.2.recStack ⊆ r.2.visited := by
  have henter : ∀ t : DfsState α, ∀ a, t.recStack ⊆ t.visited →
      (t.enter a).recStack ⊆ (t.enter a).visited := fun t a ht x hx =>
    (List.mem_insert_iff.mp hx).elim (fun h => h ▸ List.mem_insert_self _ _)
      (fun h => List.mem_insert_of_mem (ht h))
  exact dfs_inv g (fun _ => True) (fun _ _ _ _ => trivial) (fun t => t.recStack ⊆ t.visited)
    (fun t a ht _ _ => henter t a ht) (fun _ _ ht => (List.erase_subset _ _).trans ht) fuel node
    s r trivial (henter s node hs) h

end Frame

/-! ## When the search returns

`Search.dfs_isSome` bounds the nesting by the number of nodes, so a graph with at most
`dfsDepthLimit` nodes never raises `RecursionError`.
-/

section Total

variable (g : Graph α) {U : List α} (hclosed : ∀ a ∈ U, ∀ b ∈ g.get a, b ∈ U)
include hclosed

/-- The top-level loop returns when its roots are nodes of `U` and the fuel is at least `|U|`. -/
theorem searchAll_isSome {fuel : Nat} (hfuel : U.length ≤ fuel) :
    ∀ roots cycles (visited recStack : List α), (∀ a ∈ roots, a ∈ U) → visited ⊆ U →
      visited.Nodup → ∃ cs, searchAll g fuel roots cycles visited recStack = some cs := by
  intro roots
  induction roots with
  | nil => exact fun _ _ _ _ _ _ => ⟨_, rfl⟩
  | cons node rest ih =>
    intro cycles visited recStack hroots hs hnd
    have hrest : ∀ a ∈ rest, a ∈ U := fun a ha => hroots a (.tail _ ha)
    unfold searchAll
    split_ifs with hv
    · exact ih _ _ _ hrest hs hnd
    · obtain ⟨⟨c, s⟩, hr⟩ := transitiveSearch.dfs_isSome g.get hclosed fuel node
        ⟨visited, recStack, []⟩ (hroots node (.head _)) hv hs hnd (Nat.le_add_right_of_le hfuel)
      obtain ⟨hs', hnd'⟩ :=
        transitiveSearch.dfs_bounded g.get hclosed (s := ⟨visited, recStack, []⟩)
          (hroots node (.head _)) hs hnd hr
      rw [dfs, hr]
      exact ih _ _ _ hrest hs' hnd'

end Total

theorem mem_allNodes {g : Graph String} {a : String} : a ∈ allNodes g ↔ a ∈ g.nodes := by
  simp [allNodes]

theorem get_subset_allNodes (g : Graph String) :
    ∀ a ∈ allNodes g, ∀ b ∈ g.get a, b ∈ allNodes g :=
  fun _ _ _ hb => mem_allNodes.mpr (Graph.mem_nodes_of_edge hb).2

/-- `find_transitive_cycles` returns on every graph with at most `dfsDepthLimit` nodes. -/
theorem findTransitiveCycles_isSome {g : Graph String} (h : (allNodes g).length ≤ dfsDepthLimit) :
    ∃ cs, findTransitiveCycles g = some cs :=
  searchAll_isSome g (get_subset_allNodes g) h _ [] [] [] (fun _ h => h)
    (List.nil_subset _) List.nodup_nil

end DependencyAnalysis.CircularDeps
