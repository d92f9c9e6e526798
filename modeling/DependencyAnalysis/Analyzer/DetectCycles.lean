import DependencyAnalysis.Analyzer.State
import DependencyAnalysis.Graph.Search

/-!
# `detect_cycles`: the model and its frame

`DependencyAnalyzer.detect_cycles` runs a recursive `dfs` from every system, in the order of
`systems`, that no earlier search visited. `visited`, the list `rec_stack` and the result
`cycles` are shared by all searches. When an edge reaches a node on `rec_stack`, the slice
`rec_stack[rec_stack.index(neighbor):] + [neighbor]` is recorded (unless already recorded) and
`True` is returned straight up the recursion, so the nodes of that search stay on `rec_stack`.
The `path` argument of `dfs` is appended to and never read; it is left out.

The recursion is the one `find_transitive_cycles` runs (`Search.dfs`), here as `cycleSearch`.
`fuel` bounds the nesting of `dfs`; the model gives it the number of nodes a search can reach,
which `Search.dfs_isSome` shows is enough (`detectCycles_isSome`). On a state
`analyze_all_systems` leaves that is at most the seven systems, far inside Python's recursion
limit. `scan_inv` is `Search.scan_inv` with the neighbour on `rec_stack` made explicit.
-/

namespace DependencyAnalysis.Analyzer

/-- The state shared by the searches of `detect_cycles`. -/
structure SearchState (α : Type) where
  visited : List α
  recStack : List α
  cycles : List (List α)

variable {α : Type}

/-- Leaving a node without a cycle: `rec_stack.pop()`. -/
def SearchState.leave (s : SearchState α) : SearchState α :=
  ⟨s.visited, s.recStack.dropLast, s.cycles⟩

@[simp] theorem SearchState.leave_visited (s : SearchState α) : s.leave.visited = s.visited := rfl

@[simp] theorem SearchState.leave_recStack (s : SearchState α) :
    s.leave.recStack = s.recStack.dropLast := rfl

@[simp] theorem SearchState.leave_cycles (s : SearchState α) : s.leave.cycles = s.cycles := rfl

variable [DecidableEq α]

/-- Entering `node`: `visited.add(node)`, `rec_stack.append(node)`. -/
def SearchState.enter (s : SearchState α) (node : α) : SearchState α :=
  ⟨s.visited.insert node, s.recStack ++ [node], s.cycles⟩

/-- An edge to `neighbor` on `rec_stack`: record the slice of `rec_stack` from it, closed by
`neighbor`, if it is not in `cycles` yet. -/
def SearchState.record (s : SearchState α) (nb : α) : SearchState α :=
  ⟨s.visited, s.recStack,
    if sliceFrom s.recStack nb ∈ s.cycles then s.cycles else s.cycles ++ [sliceFrom s.recStack nb]⟩

@[simp] theorem SearchState.enter_visited (s : SearchState α) (a : α) :
    (s.enter a).visited = s.visited.insert a := rfl

@[simp] theorem SearchState.enter_recStack (s : SearchState α) (a : α) :
    (s.enter a).recStack = s.recStack ++ [a] := rfl

@[simp] theorem SearchState.enter_cycles (s : SearchState α) (a : α) :
    (s.enter a).cycles = s.cycles := rfl

@[simp] theorem SearchState.record_visited (s : SearchState α) (a : α) :
    (s.record a).visited = s.visited := rfl

@[simp] theorem SearchState.record_recStack (s : SearchState α) (a : α) :
    (s.record a).recStack = s.recStack := rfl

/-- Recording only ever appends, and the recorded slice is then in `cycles`. -/
theorem SearchState.record_cycles (s : SearchState α) (a : α) :
    ∃ l, (s.record a).cycles = s.cycles ++ l ∧ sliceFrom s.recStack a ∈ (s.record a).cycles := by
  by_cases h : sliceFrom s.recStack a ∈ s.cycles
  · exact ⟨[], by simp [SearchState.record, h], by simp [SearchState.record, h]⟩
  · exact ⟨[sliceFrom s.recStack a], by simp [SearchState.record, h], by simp [SearchState.record, h]⟩

/-- The search of `detect_cycles`: a visited neighbour on `rec_stack` is recorded and `True`
returned at once; a call that found nothing returns `False`. -/
def cycleSearch : Search α (SearchState α) Bool where
  visited := SearchState.visited
  enter := SearchState.enter
  leave s _ := s.leave
  revisit s nb := if nb ∈ s.recStack then some (true, s.record nb) else none
  quiet := false
  enter_visited _ _ := rfl
  leave_visited _ _ := rfl
  revisit_visited s nb r h := by
    dsimp only at h
    split_ifs at h
    cases h
    rfl

/-- `dfs(node, path)` of `detect_cycles`, with at most `fuel` nested calls. -/
def dfs (deps : Graph α) : Nat → α → SearchState α → Option (Bool × SearchState α) :=
  cycleSearch.dfs deps.get

/-- The loop `for system in self.systems`: a search from each system not yet visited. -/
def searchSystems (deps : Graph α) (fuel : Nat) :
    List α → SearchState α → Option (SearchState α)
  | [], s => some s
  | system :: rest, s =>
    if system ∈ s.visited then searchSystems deps fuel rest s
    else match dfs deps fuel system s with
      | none => none
      | some (_, s') => searchSystems deps fuel rest s'

/-- The nodes a search can reach: the systems and every node of `all_deps`. -/
def DependencyAnalyzer.searchNodes (a : DependencyAnalyzer) : List String :=
  a.systems ++ a.allDeps.nodes

/-- `detect_cycles()`, with as much fuel as there are nodes to reach. -/
def DependencyAnalyzer.detectCycles (a : DependencyAnalyzer) : Option (List (List String)) :=
  (searchSystems a.allDeps a.searchNodes.length a.systems ⟨[], [], []⟩).map SearchState.cycles

/-! ## The neighbour loop -/

theorem cycleSearch_revisit_eq_some {s : SearchState α} {nb : α} {r : Bool × SearchState α} :
    cycleSearch.revisit s nb = some r ↔ nb ∈ s.recStack ∧ r = (true, s.record nb) := by
  simp only [cycleSearch]
  split_ifs with h <;> simp [h, eq_comm]

/-- `Search.scan_inv` for `detect_cycles`, with a visited neighbour split into the one on
`rec_stack`, which is recorded, and the one that is skipped. -/
theorem scan_inv {visit : α → SearchState α → Option (Bool × SearchState α)} {node : α}
    (P : List α → SearchState α → Prop) (Q : Bool × SearchState α → Prop)
    (hvisit : ∀ nb nbs t r, P (nb :: nbs) t → nb ∉ t.visited → visit nb t = some r →
      (r.1 = false → P nbs r.2) ∧ (r.1 = true → Q r))
    (hrecord : ∀ nb nbs t, P (nb :: nbs) t → nb ∈ t.visited → nb ∈ t.recStack →
      Q (true, t.record nb))
    (hskip : ∀ nb nbs t, P (nb :: nbs) t → nb ∈ t.visited → nb ∉ t.recStack → P nbs t)
    (hdone : ∀ t, P [] t → Q (false, t.leave)) :
    ∀ nbs s r, P nbs s → cycleSearch.scan visit node nbs s = some r → Q r :=
  Search.scan_inv P Q
    (fun nb nbs t r ht hv h => (hvisit nb nbs t r ht hv h).imp_right fun hq hr => hq (by
      simpa [cycleSearch] using hr))
    (fun nb nbs t r ht hv h => by
      obtain ⟨hr, rfl⟩ := cycleSearch_revisit_eq_some.mp h
      exact hrecord nb nbs t ht hv hr)
    (fun nb nbs t ht hv h => hskip nb nbs t ht hv fun hr => by simp [cycleSearch, hr] at h) hdone

/-! ## Frame facts of `dfs` -/

section Frame

variable (deps : Graph α)

/-- `dfs` only adds to `visited`, and adds its own node. -/
theorem dfs_visited {fuel : Nat} {node : α} {s : SearchState α} {r : Bool × SearchState α}
    (h : dfs deps fuel node s = some r) : s.visited.insert node ⊆ r.2.visited :=
  cycleSearch.dfs_visited deps.get h

/-- A search that returns `False` gives back `rec_stack` and `cycles` as it found them. -/
theorem dfs_restores : ∀ fuel node (s : SearchState α) s',
    dfs deps fuel node s = some (false, s') → s'.recStack = s.recStack ∧ s'.cycles = s.cycles := by
  intro fuel
  induction fuel with
  | zero => intro _ _ _ h; cases h
  | succ fuel ih =>
    intro node s s' h
    refine scan_inv (fun _ t => t.recStack = s.recStack ++ [node] ∧ t.cycles = s.cycles)
      (fun r => r.1 = false → r.2.recStack = s.recStack ∧ r.2.cycles = s.cycles) ?_
      (fun _ _ _ _ _ _ h => by cases h) (fun _ _ _ ht _ _ => ht) ?_ _ (s.enter node) _ ⟨rfl, rfl⟩
      h rfl
    · rintro nb nbs t ⟨b, t'⟩ ht hv hr
      refine ⟨fun hb => ?_, fun hb h' => absurd (hb.symm.trans h') (by simp)⟩
      obtain rfl : b = false := hb
      obtain ⟨hr', hc'⟩ := ih nb t t' hr
      exact ⟨hr'.trans ht.1, hc'.trans ht.2⟩
    · rintro t ⟨hr, hc⟩ -
      simp [hr, hc]

end Frame

/-! ## The fuel is enough -/

section Total

variable (deps : Graph α) {U : List α} (hclosed : ∀ a ∈ U, ∀ b ∈ deps.get a, b ∈ U)
include hclosed

/-- The loop over the systems returns when they are nodes of `U` and the fuel is `|U|`. -/
theorem searchSystems_isSome : ∀ systems (s : SearchState α), (∀ a ∈ systems, a ∈ U) →
    s.visited ⊆ U → s.visited.Nodup → ∃ s', searchSystems deps U.length systems s = some s' := by
  intro systems
  induction systems with
  | nil => exact fun _ _ _ _ => ⟨_, rfl⟩
  | cons system rest ih =>
    intro s hsys hs hnd
    have hrest : ∀ a ∈ rest, a ∈ U := fun a ha => hsys a (.tail _ ha)
    unfold searchSystems
    split_ifs with hv
    · exact ih s hrest hs hnd
    · obtain ⟨⟨b, s'⟩, hr⟩ := cycleSearch.dfs_isSome deps.get hclosed U.length system s
        (hsys system (.head _)) hv hs hnd (Nat.le_add_right _ _)
      obtain ⟨hs', hnd'⟩ :=
        cycleSearch.dfs_bounded deps.get hclosed (hsys system (.head _)) hs hnd hr
      rw [dfs, hr]
      exact ih s' hrest hs' hnd'

end Total

/-- `detect_cycles` returns on every analyzer state: the fuel never runs out. -/
theorem DependencyAnalyzer.detectCycles_isSome (a : DependencyAnalyzer) :
    ∃ cs, a.detectCycles = some cs := by
  have hclosed : ∀ x ∈ a.searchNodes, ∀ y ∈ a.allDeps.get x, y ∈ a.searchNodes :=
    fun _ _ _ hy => List.mem_append_right _ (Graph.mem_nodes_of_edge hy).2
  obtain ⟨s', h⟩ := searchSystems_isSome a.allDeps hclosed a.systems ⟨[], [], []⟩
    (fun _ h => List.mem_append_left _ h) (List.nil_subset _) List.nodup_nil
  exact ⟨_, by rw [DependencyAnalyzer.detectCycles, h]; rfl⟩

end DependencyAnalysis.Analyzer
