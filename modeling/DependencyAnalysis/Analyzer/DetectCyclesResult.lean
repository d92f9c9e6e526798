import DependencyAnalysis.Analyzer.DetectCycles

/-!
# What `detect_cycles` reports

A search that meets an edge into `rec_stack` records a slice of `rec_stack` and returns `True`
at once, leaving its nodes on `rec_stack`. Unlike `find_transitive_cycles`, the slice is taken
from `rec_stack` itself, so in a later search it can start at a node left over from an earlier
one and is then no cycle (`detectCycles_stale_slice`). What holds on every run:

* the finished nodes depend only on finished nodes or on left-over ones and carry no cycle
  (`Explored`), and every left-over node reaches a node of a recorded list, so every node on a
  cycle reaches a node of a recorded list (`detectCycles_reaches_cycle`);
* until the first list is recorded nothing is left over, so the first list is a cycle, and the
  result is empty exactly when the graph has no cycle (`detectCycles_ne_nil_iff`).

Reaching is all that holds: a node on a cycle need not be in any list
(`detectCycles_skips_common`).
-/

namespace DependencyAnalysis.Analyzer

variable {α : Type} [DecidableEq α] (deps : Graph α)

/-- The invariant of a search, relative to the nodes `S` left on `rec_stack` by earlier
searches and the path `p` of the current one: `rec_stack` is `S` followed by `p`, a
duplicate-free chain of dependencies through visited nodes, and the finished nodes depend only
on finished nodes or on `S`, with no cycle among themselves. -/
structure Explored (S p : List α) (s : SearchState α) : Prop where
  recStack_eq : s.recStack = S ++ p
  nodup : p.Nodup
  chain : p.Chain' deps.Edge
  path_visited : p ⊆ s.visited
  stale_visited : S ⊆ s.visited
  closed : ClosedUpTo deps.Edge (Finished s.visited s.recStack) (· ∈ S)
  acyclic : AcyclicOn deps.Edge (Finished s.visited s.recStack)

variable {deps} {S : List α}

theorem Explored.recStack_visited {p : List α} {s : SearchState α} (h : Explored deps S p s) :
    s.recStack ⊆ s.visited := by
  rw [h.recStack_eq]
  exact List.append_subset.mpr ⟨h.stale_visited, h.path_visited⟩

/-- Entering an unvisited node that the end of the path depends on extends the path by it. -/
theorem Explored.enter {p : List α} {s : SearchState α} {node : α} (hs : Explored deps S p s)
    (hnv : node ∉ s.visited) (hlast : ∀ y ∈ p.getLast?, deps.Edge y node) :
    Explored deps S (p ++ [node]) (s.enter node) := by
  have hfe : Finished (s.enter node).visited (s.enter node).recStack =
      Finished s.visited s.recStack :=
    finished_enter (fun u => by simp [or_comm]) hnv
  refine ⟨by simp [hs.recStack_eq], ?_, hs.chain.append (List.chain'_singleton _)
      (fun y hy z hz => by simp at hz; exact hz ▸ hlast y hy), ?_,
      fun _ hx => List.mem_insert_of_mem (hs.stale_visited hx), hfe ▸ hs.closed, hfe ▸ hs.acyclic⟩
  · exact List.nodup_append.mpr ⟨hs.nodup, List.nodup_singleton _,
      by simpa using fun h => hnv (hs.path_visited h)⟩
  · intro x hx
    rcases List.mem_append.mp hx with hx | hx
    · exact List.mem_insert_of_mem (hs.path_visited hx)
    · exact List.mem_singleton.mp hx ▸ List.mem_insert_self _ _

/-- Leaving the end of the path once each of its dependencies is finished or left over: the
node is finished, and the path is one shorter. -/
theorem Explored.leave {p : List α} {t : SearchState α} {node : α}
    (ht : Explored deps S (p ++ [node]) t) (hnode : node ∈ t.visited) (hnS : node ∉ S)
    (hdeps : ∀ v, deps.Edge node v → Finished t.visited t.recStack v ∨ v ∈ S) :
    Explored deps S p t.leave := by
  have hnp : node ∉ p := fun h => (List.nodup_append.mp ht.nodup).2.2 h (List.mem_singleton_self _)
  have hrest : node ∉ S ++ p := by simp [hnS, hnp]
  have hF : ∀ u, Finished t.leave.visited t.leave.recStack u ↔
      Finished t.visited t.recStack u ∨ u = node :=
    finished_leave_iff (fun u => by simp [ht.recStack_eq, or_comm, or_left_comm]) hnode
      (by simpa [ht.recStack_eq] using hrest)
  exact ⟨by simp [ht.recStack_eq], (List.nodup_append.mp ht.nodup).1, ht.chain.left_of_append,
    fun x hx => ht.path_visited (List.mem_append_left _ hx), ht.stale_visited,
    ht.closed.insert hF hdeps,
    ht.acyclic.insert hF hdeps ht.closed (fun h => h.2 (by simp [ht.recStack_eq])) hnS⟩

/-- What a search started on `node` does, from an `Explored` state with path `p` whose end
depends on `node`: if it returns `False` the state is `Explored` with the same path and `node`
is visited; if it returns `True` it has recorded, in an `Explored` state with a longer path `q`
and the `cycles` it started with, an edge from the end of `q` to a node on `rec_stack`. -/
theorem dfs_explored : ∀ fuel node (s : SearchState α) p r, Explored deps S p s →
    node ∉ s.visited → (∀ y ∈ p.getLast?, deps.Edge y node) → dfs deps fuel node s = some r →
      (r.1 = false → Explored deps S p r.2 ∧ node ∈ r.2.visited) ∧
      (r.1 = true → ∃ t q nb, Explored deps S q t ∧ t.cycles = s.cycles ∧ q ≠ [] ∧
        nb ∈ t.recStack ∧ (∀ y ∈ q.getLast?, deps.Edge y nb) ∧ r.2 = t.record nb) := by
  intro fuel
  induction fuel with
  | zero => intro _ _ _ _ _ _ _ h; cases h
  | succ fuel ih =>
    intro node s p r hs hnv hlast h
    have hnS : node ∉ S := fun h' => hnv (hs.stale_visited h')
    refine scan_inv (fun nbs t => Explored deps S (p ++ [node]) t ∧ t.cycles = s.cycles ∧
        node ∈ t.visited ∧ (∀ b ∈ deps.get node, b ∈ nbs ∨ Finished t.visited t.recStack b ∨
          b ∈ S) ∧ ∀ b ∈ nbs, deps.Edge node b)
      (fun r => (r.1 = false → Explored deps S p r.2 ∧ node ∈ r.2.visited) ∧
        (r.1 = true → ∃ t q nb, Explored deps S q t ∧ t.cycles = s.cycles ∧ q ≠ [] ∧
          nb ∈ t.recStack ∧ (∀ y ∈ q.getLast?, deps.Edge y nb) ∧ r.2 = t.record nb))
      ?_ ?_ ?_ ?_ _ (s.enter node) _ ?_ h
    · -- a nested search on a dependency of `node`
      rintro nb nbs t ⟨b, t'⟩ ⟨ht, hc, hnode, hb, hedge⟩ hv hr
      obtain ⟨hfalse, htrue⟩ := ih nb t (p ++ [node]) _ ht hv
        (by simpa using hedge nb (.head _)) hr
      refine ⟨fun hb' => ?_, fun hb' => ⟨fun h => absurd (hb'.symm.trans h) (by simp), fun _ => ?_⟩⟩
      · obtain rfl : b = false := hb'
        obtain ⟨ht', hnb⟩ := hfalse rfl
        obtain ⟨hr', hc'⟩ := dfs_restores deps fuel nb t t' hr
        have hsub : t.visited ⊆ t'.visited :=
          fun _ hx => dfs_visited deps hr (List.mem_insert_of_mem hx)
        exact ⟨ht', hc'.trans hc, hsub hnode, pending_tail hb
          (fun u hu => ⟨hsub hu.1, by simpa [hr'] using hu.2⟩)
          (.inl ⟨hnb, by simpa [hr'] using fun h => hv (ht.recStack_visited h)⟩),
          fun b hb' => hedge b (.tail _ hb')⟩
      · obtain ⟨t'', q, nb', h1, h2, h3⟩ := htrue hb'
        exact ⟨t'', q, nb', h1, h2.trans hc, h3⟩
    · -- an edge from `node` to a node on `rec_stack`: record and return `True`
      rintro nb nbs t ⟨ht, hc, -, -, hedge⟩ - hr
      exact ⟨fun h => absurd h (by simp), fun _ => ⟨t, p ++ [node], nb, ht, hc, by simp, hr,
        by simpa using hedge nb (.head _), rfl⟩⟩
    · -- an edge to a finished node
      rintro nb nbs t ⟨ht, hc, hnode, hb, hedge⟩ hv hr
      exact ⟨ht, hc, hnode, pending_tail hb (fun _ h => h) (.inl ⟨hv, hr⟩),
        fun b hb' => hedge b (.tail _ hb')⟩
    · -- all dependencies done: `node` is finished
      rintro t ⟨ht, -, hnode, hb, -⟩
      exact ⟨fun _ => ⟨ht.leave hnode hnS fun v hv => (hb v hv).resolve_left (List.not_mem_nil v),
        hnode⟩, fun h => absurd h (by simp)⟩
    · -- entering `node`
      exact ⟨hs.enter hnv hlast, rfl, List.mem_insert_self _ _, fun b hb => .inl hb, fun b hb => hb⟩

variable (deps) in
/-- What holds between two searches: everything on `rec_stack` is left over, every left-over
node reaches a node of a recorded list, nothing is left over before the first list is recorded,
and the first recorded list is a cycle. -/
structure Searched (s : SearchState α) : Prop where
  explored : Explored deps s.recStack [] s
  stale_reaches : ∀ x ∈ s.recStack, ∃ c ∈ s.cycles, ∃ y ∈ c, Relation.ReflTransGen deps.Edge x y
  clean : s.cycles = [] → s.recStack = []
  first_isCycle : ∀ c ∈ s.cycles.head?, IsCycle deps.Edge c

/-- A search that returns `True` leaves a `Searched` state. -/
theorem Searched.record {s t : SearchState α} {q : List α} {nb : α} (hs : Searched deps s)
    (ht : Explored deps s.recStack q t) (hc : t.cycles = s.cycles) (hq : q ≠ [])
    (hnb : nb ∈ t.recStack) (hlast : ∀ y ∈ q.getLast?, deps.Edge y nb) :
    Searched deps (t.record nb) := by
  obtain ⟨l, hl, hmem⟩ := t.record_cycles nb
  have hS : s.recStack ⊆ t.recStack := by rw [ht.recStack_eq]; exact List.subset_append_left _ _
  refine ⟨⟨by simp, List.nodup_nil, List.chain'_nil, List.nil_subset _, ht.recStack_visited,
    ht.closed.mono fun x hx => hS hx, ht.acyclic⟩, ?_, fun h => by simp [h] at hmem, ?_⟩
  · intro x hx
    rw [SearchState.record_recStack, ht.recStack_eq] at hx
    rcases List.mem_append.mp hx with hx | hx
    · obtain ⟨c, hc', y, hy, hxy⟩ := hs.stale_reaches x hx
      exact ⟨c, by rw [hl, hc]; exact List.mem_append_left _ hc', y, hy, hxy⟩
    · obtain ⟨z, hz⟩ := Option.ne_none_iff_exists'.mp (List.getLast?_eq_none_iff.not.mpr hq)
      refine ⟨_, hmem, z, getLast_mem_sliceFrom hnb ?_, reflTransGen_getLast ht.chain hx hz⟩
      rw [ht.recStack_eq, List.getLast?_append, hz]
      rfl
  · intro c hc'
    cases hcs : s.cycles with
    | nil =>
      have hr : t.recStack = q := by simp [ht.recStack_eq, hs.clean hcs]
      have hrec : (t.record nb).cycles = [sliceFrom t.recStack nb] := by
        simp [SearchState.record, hc, hcs]
      rw [hrec] at hc'
      obtain rfl : c = sliceFrom t.recStack nb := by simpa using hc'.symm
      rw [hr] at hnb ⊢
      exact isCycle_sliceFrom ht.nodup ht.chain hnb hlast
    | cons c₀ cs =>
      rw [hl, hc, hcs] at hc'
      exact hs.first_isCycle c (by simpa [hcs] using hc')

/-- One top-level search keeps `Searched`: one returning `False` restores `rec_stack` and
`cycles`, one returning `True` has recorded. -/
theorem dfs_searched {fuel : Nat} {system : α} {s s₁ : SearchState α} {b : Bool}
    (hs : Searched deps s) (hv : system ∉ s.visited) (hr : dfs deps fuel system s = some (b, s₁)) :
    Searched deps s₁ := by
  obtain ⟨hfalse, htrue⟩ := dfs_explored fuel system s [] _ hs.explored hv (by simp) hr
  cases b with
  | false =>
    obtain ⟨hr', hc'⟩ := dfs_restores deps fuel system s s₁ hr
    obtain ⟨he, -⟩ := hfalse rfl
    refine ⟨by rw [hr']; exact he, ?_, ?_, ?_⟩
    · rw [hr', hc']; exact hs.stale_reaches
    · rw [hr', hc']; exact hs.clean
    · rw [hc']; exact hs.first_isCycle
  | true =>
    obtain ⟨t, q, nb, ht, hc, hq, hnb, hlast, rfl⟩ := htrue rfl
    exact hs.record ht hc hq hnb hlast

/-- The loop over the systems keeps `Searched` and visits every system. -/
theorem searchSystems_searched (fuel : Nat) : ∀ systems (s s' : SearchState α), Searched deps s →
    searchSystems deps fuel systems s = some s' →
      Searched deps s' ∧ s.visited ⊆ s'.visited ∧ ∀ x ∈ systems, x ∈ s'.visited := by
  intro systems
  induction systems with
  | nil =>
    intro s s' hs h
    cases h
    exact ⟨hs, List.Subset.refl _, fun _ h => absurd h (List.not_mem_nil _)⟩
  | cons system rest ih =>
    intro s s' hs h
    unfold searchSystems at h
    split_ifs at h with hv
    · obtain ⟨hs', hsub, hrest⟩ := ih s s' hs h
      exact ⟨hs', hsub, fun x hx => (List.mem_cons.mp hx).elim (fun h => hsub (h ▸ hv)) (hrest x)⟩
    · split at h
      · cases h
      · rename_i b s₁ hr
        have hsub₁ := dfs_visited deps hr
        obtain ⟨hs', hsub, hrest⟩ := ih s₁ s' (dfs_searched hs hv hr) h
        refine ⟨hs', fun _ hx => hsub (hsub₁ (List.mem_insert_of_mem hx)), fun x hx => ?_⟩
        rcases List.mem_cons.mp hx with rfl | hx
        · exact hsub (hsub₁ (List.mem_insert_self _ _))
        · exact hrest x hx

/-- The run of `detect_cycles`: it returns the `cycles` of a `Searched` state that has visited
every system. -/
theorem DependencyAnalyzer.detectCycles_searched (a : DependencyAnalyzer) :
    ∃ s, a.detectCycles = some s.cycles ∧ Searched a.allDeps s ∧ ∀ x ∈ a.systems, x ∈ s.visited := by
  have hclosed : ∀ x ∈ a.searchNodes, ∀ y ∈ a.allDeps.get x, y ∈ a.searchNodes :=
    fun _ _ _ hy => List.mem_append_right _ (Graph.mem_nodes_of_edge hy).2
  obtain ⟨s, h⟩ := searchSystems_isSome a.allDeps hclosed a.systems ⟨[], [], []⟩
    (fun _ h => List.mem_append_left _ h) (List.nil_subset _) List.nodup_nil
  have hinit : Searched a.allDeps ⟨[], [], []⟩ :=
    ⟨⟨rfl, List.nodup_nil, List.chain'_nil, List.nil_subset _, List.nil_subset _,
      fun _ _ hu => absurd hu.1 (List.not_mem_nil _), fun _ hu => absurd hu.1 (List.not_mem_nil _)⟩,
      fun _ h => absurd h (List.not_mem_nil _), fun _ => rfl, fun _ h => by simp at h⟩
  obtain ⟨hs, -, hsys⟩ := searchSystems_searched _ _ _ _ hinit h
  exact ⟨s, by rw [DependencyAnalyzer.detectCycles, h]; rfl, hs, hsys⟩

/-- A visited node that lies on a cycle reaches a node of a recorded list: it is still on
`rec_stack`, or it is finished and reaches a node left there. -/
theorem Searched.reaches_of_visited {a : DependencyAnalyzer} {s : SearchState String}
    (hs : Searched a.allDeps s)
    {v : String} (hvis : v ∈ s.visited) (hv : Relation.TransGen a.allDeps.Edge v v) :
    ∃ c ∈ s.cycles, ∃ y ∈ c, Relation.ReflTransGen a.allDeps.Edge v y := by
  by_cases hvr : v ∈ s.recStack
  · exact hs.stale_reaches v hvr
  · obtain ⟨x, hx, hvx⟩ := hs.explored.closed.reaches hs.explored.acyclic ⟨hvis, hvr⟩ hv
    obtain ⟨c, hc, y, hy, hxy⟩ := hs.stale_reaches x hx
    exact ⟨c, hc, y, hy, hvx.trans hxy⟩

/-- Every node that lies on a cycle of `all_deps` reaches a node of a list `detect_cycles`
returns, when only systems have dependencies. -/
theorem DependencyAnalyzer.detectCycles_reaches_cycle (a : DependencyAnalyzer)
    (hsrc : ∀ s d, a.allDeps.Edge s d → s ∈ a.systems) :
    ∃ cs, a.detectCycles = some cs ∧ ∀ v, Relation.TransGen a.allDeps.Edge v v →
      ∃ c ∈ cs, ∃ y ∈ c, Relation.ReflTransGen a.allDeps.Edge v y := by
  obtain ⟨s, h, hs, hsys⟩ := a.detectCycles_searched
  refine ⟨s.cycles, h, fun v hv => hs.reaches_of_visited (hsys v ?_) hv⟩
  obtain ⟨w, hvw, -⟩ := Relation.TransGen.head'_iff.mp hv
  exact hsrc v w hvw

/-- `detect_cycles` returns a non-empty list exactly when `all_deps` has a cycle, when only
systems have dependencies. -/
theorem DependencyAnalyzer.detectCycles_ne_nil_iff (a : DependencyAnalyzer)
    (hsrc : ∀ s d, a.allDeps.Edge s d → s ∈ a.systems) :
    ∃ cs, a.detectCycles = some cs ∧ (cs ≠ [] ↔ a.allDeps.HasCycle) := by
  obtain ⟨s, h, hs, hsys⟩ := a.detectCycles_searched
  refine ⟨s.cycles, h, fun hne => ?_, fun ⟨v, hv⟩ => ?_⟩
  · obtain ⟨c, cs, hcs⟩ := List.exists_cons_of_ne_nil hne
    exact (hs.first_isCycle c (by simp [hcs])).transGen
  · obtain ⟨w, hvw, -⟩ := Relation.TransGen.head'_iff.mp hv
    obtain ⟨c, hc, -⟩ := hs.reaches_of_visited (hsys v (hsrc v w hvw)) hv
    exact List.ne_nil_of_mem hc

/-- For every state and every iteration order of the sets, the first list `detect_cycles`
returns is a cycle of `all_deps`: its search starts with `rec_stack` empty, so it slices its own
path. Only the lists after it can be stale slices (`detectCycles_stale_slice`). -/
theorem DependencyAnalyzer.detectCycles_first_isCycle (a : DependencyAnalyzer) :
    ∃ cs, a.detectCycles = some cs ∧ ∀ c ∈ cs.head?, IsCycle a.allDeps.Edge c :=
  let ⟨s, h, hs, _⟩ := a.detectCycles_searched
  ⟨s.cycles, h, hs.first_isCycle⟩

/-- `common_system ⇄ thread_system`, and `logger_system → thread_system`. -/
def staleSlice : DependencyAnalyzer :=
  .ofDeps ⟨[("common_system", ["thread_system"]), ("thread_system", ["common_system"]),
    ("logger_system", ["thread_system"])], by decide⟩

/-- The search from `common_system` records `common → thread → common` and leaves both on
`rec_stack`; the search from `logger_system` then meets `thread_system` on `rec_stack` and
records the slice `thread → logger → thread`, though `thread_system` does not depend on
`logger_system`. -/
theorem detectCycles_stale_slice :
    staleSlice.detectCycles = some [["common_system", "thread_system", "common_system"],
      ["thread_system", "logger_system", "thread_system"]] ∧
    ¬ staleSlice.allDeps.Edge "thread_system" "logger_system" :=
  ⟨by decide, by decide⟩

/-- `common → thread → logger → monitoring → common`, where the set of `monitoring_system`
yields `logger_system` first. -/
def crossedSystems : DependencyAnalyzer :=
  .ofDeps ⟨[("common_system", ["thread_system"]), ("thread_system", ["logger_system"]),
    ("logger_system", ["monitoring_system"]),
    ("monitoring_system", ["logger_system", "common_system"])], by decide⟩

/-- On `crossedSystems` the only search records `logger → monitoring → logger` and stops;
`common_system` lies on a cycle and is in no returned list. -/
theorem detectCycles_skips_common :
    crossedSystems.detectCycles = some [["logger_system", "monitoring_system", "logger_system"]] ∧
      Relation.TransGen crossedSystems.allDeps.Edge "common_system" "common_system" :=
  ⟨by decide, .head (show crossedSystems.allDeps.Edge "common_system" "thread_system" by decide)
    (.head (show crossedSystems.allDeps.Edge "thread_system" "logger_system" by decide)
      (.head (show crossedSystems.allDeps.Edge "logger_system" "monitoring_system" by decide)
        (.single (by decide))))⟩

/-- `detectCycles_reaches_cycle` on `crossedSystems`, whose keys are all systems. -/
theorem detectCycles_reaches_cycle_crossed :
    (∀ s d, crossedSystems.allDeps.Edge s d → s ∈ crossedSystems.systems) ∧
      ∃ cs, crossedSystems.detectCycles = some cs ∧
        ∀ v, Relation.TransGen crossedSystems.allDeps.Edge v v →
          ∃ c ∈ cs, ∃ y ∈ c, Relation.ReflTransGen crossedSystems.allDeps.Edge v y :=
  have hsrc : ∀ s d, crossedSystems.allDeps.Edge s d → s ∈ crossedSystems.systems :=
    fun s _ h => (by decide : ∀ k ∈ crossedSystems.allDeps.keys, k ∈ crossedSystems.systems) s
      (Graph.mem_keys_of_mem_get h)
  ⟨hsrc, crossedSystems.detectCycles_reaches_cycle hsrc⟩

end DependencyAnalysis.Analyzer
