import DependencyAnalysis.CircularDeps.TransitiveSound

/-!
# What `find_transitive_cycles` finds

A search that returns a cycle leaves its whole `path` on `rec_stack` and marks its nodes
visited, so no later search looks at them again. The nodes that a search finished, on the other
hand, depend only on finished nodes or on nodes left on `rec_stack`, and no cycle runs through
finished nodes alone (`Explored`). Every node left on `rec_stack` reaches the cycle its search
returned (`ClosesOn.reaches`). Hence every node on a cycle of the graph reaches a node of a
returned cycle (`findTransitiveCycles_reaches_cycle`), and the result is empty exactly when the
graph has no cycle (`findTransitiveCycles_ne_nil_iff`), whenever it returns.

The stronger statement, that every node on a cycle appears in a returned cycle, fails
(`findTransitiveCycles_skips_a`): a search that meets one cycle stops before it comes back to
the nodes of another.
-/

namespace DependencyAnalysis.CircularDeps

variable {α : Type} [DecidableEq α] (g : Graph α)

/-- The invariant behind completeness, relative to the nodes `S` that earlier searches left on
`rec_stack`: `rec_stack` is the current `path` on top of `S`, and the finished nodes depend only
on finished nodes or on `S`, with no cycle among themselves. -/
structure Explored (S : List α) (s : DfsState α) : Prop where
  recStack_eq : s.recStack = s.path.reverse ++ S
  path_visited : s.path ⊆ s.visited
  stale_visited : S ⊆ s.visited
  closed : ClosedUpTo g.Edge (Finished s.visited s.recStack) (· ∈ S)
  acyclic : AcyclicOn g.Edge (Finished s.visited s.recStack)

variable {g} {S : List α}

theorem Explored.recStack_visited {s : DfsState α} (h : Explored g S s) :
    s.recStack ⊆ s.visited := by
  rw [h.recStack_eq]
  exact List.append_subset.mpr ⟨fun _ hx => h.path_visited (List.mem_reverse.mp hx),
    h.stale_visited⟩

/-- Entering an unvisited node keeps the invariant, with the node on top of `path`. -/
theorem Explored.enter {s : DfsState α} {node : α} (hs : Explored g S s) (hnv : node ∉ s.visited) :
    Explored g S (s.enter node) := by
  have hnS : node ∉ S := fun h' => hnv (hs.stale_visited h')
  have hnp : node ∉ s.path := fun h' => hnv (hs.path_visited h')
  have hfe : Finished (s.enter node).visited (s.enter node).recStack =
      Finished s.visited s.recStack :=
    finished_enter (fun u => by simp [List.mem_insert_iff]) hnv
  refine ⟨by rw [DfsState.enter_recStack, hs.recStack_eq,
    List.insert_of_not_mem (by simp [hnp, hnS])]; simp, ?_,
    fun _ hx => List.mem_insert_of_mem (hs.stale_visited hx), hfe ▸ hs.closed, hfe ▸ hs.acyclic⟩
  intro x hx
  rcases List.mem_append.mp hx with hx | hx
  · exact List.mem_insert_of_mem (hs.path_visited hx)
  · exact List.mem_singleton.mp hx ▸ List.mem_insert_self _ _

/-- Leaving the top of `path` once each of its dependencies is finished or left over: the node
is finished. -/
theorem Explored.leave {t : DfsState α} {p : List α} {node : α} (ht : Explored g S t)
    (hp : t.path = p ++ [node]) (hnp : node ∉ p) (hnode : node ∈ t.visited) (hnS : node ∉ S)
    (hdeps : ∀ v, g.Edge node v → Finished t.visited t.recStack v ∨ v ∈ S) :
    Explored g S (t.leave node) := by
  have hr : t.recStack = node :: (p.reverse ++ S) := by simp [ht.recStack_eq, hp]
  have hrest : node ∉ p.reverse ++ S := by simp [hnp, hnS]
  have hF : ∀ u, Finished (t.leave node).visited (t.leave node).recStack u ↔
      Finished t.visited t.recStack u ∨ u = node :=
    finished_leave_iff (by simp [hr]) hnode (by simpa [hr] using hrest)
  refine ⟨by simp [hr, hp], ?_, ht.stale_visited, ht.closed.insert hF hdeps,
    ht.acyclic.insert hF hdeps ht.closed (fun h => h.2 (hr ▸ List.mem_cons_self _ _)) hnS⟩
  intro x hx
  simp only [DfsState.leave_path, hp, List.dropLast_concat] at hx
  exact ht.path_visited (hp ▸ List.mem_append_left _ hx)

/-- A search started from an `Explored` state on a fresh node leaves an `Explored` state, and
visits its node when it returns no cycle. -/
theorem dfs_explored : ∀ fuel node (s : DfsState α) r, Explored g S s → node ∉ s.visited →
    dfs g fuel node s = some r → Explored g S r.2 ∧ (r.1 = none → node ∈ r.2.visited) := by
  intro fuel
  induction fuel with
  | zero => intro _ _ _ _ _ h; cases h
  | succ fuel ih =>
    intro node s r hs hnv h
    have hnS : node ∉ S := fun h' => hnv (hs.stale_visited h')
    have hnp : node ∉ s.path := fun h' => hnv (hs.path_visited h')
    refine scan_inv (fun nbs t => Explored g S t ∧ t.path = s.path ++ [node] ∧
        node ∈ t.visited ∧ ∀ b ∈ g.get node, b ∈ nbs ∨ Finished t.visited t.recStack b ∨ b ∈ S)
      (fun r => Explored g S r.2 ∧ (r.1 = none → node ∈ r.2.visited)) ?_ ?_ ?_ ?_ _ _ _ ?_ h
    · -- a nested search
      rintro nb nbs t ⟨c, t'⟩ ⟨ht, hp, hnode, hb⟩ hv hr
      obtain ⟨ht', hnb⟩ := ih nb t _ ht hv hr
      refine ⟨fun hc => ?_, fun _ => ⟨ht', fun hc => absurd hc ‹_›⟩⟩
      obtain rfl : c = none := hc
      obtain ⟨hp', hr'⟩ := dfs_restores g fuel nb t t' ht.recStack_visited hv hr
      have hsub : t.visited ⊆ t'.visited := fun _ hx => dfs_visited g hr (List.mem_insert_of_mem hx)
      exact ⟨ht', hp'.trans hp, hsub hnode, pending_tail hb
        (fun u hu => ⟨hsub hu.1, by simpa [hr'] using hu.2⟩)
        (.inl ⟨hnb rfl, by simpa [hr'] using fun h => hv (ht.recStack_visited h)⟩)⟩
    · -- an edge closing on `path` returns at once
      rintro nb nbs t c ⟨ht, -⟩ - -
      exact ⟨ht, fun h => by cases h⟩
    · -- an edge to a finished node, or to a node left over by an earlier search
      rintro nb nbs t ⟨ht, hp, hnode, hb⟩ hv hclose
      refine ⟨ht, hp, hnode, pending_tail hb (fun _ h => h) ?_⟩
      by_cases hr : nb ∈ t.recStack
      · rw [ht.recStack_eq] at hr
        rcases List.mem_append.mp hr with hr | hr
        · have := hclose (ht.recStack_eq ▸ List.mem_append_left _ hr)
          simp [closeCycle, List.mem_reverse.mp hr] at this
        · exact .inr hr
      · exact .inl ⟨hv, hr⟩
    · -- all dependencies done: `node` is finished
      rintro t ⟨ht, hp, hnode, hb⟩
      exact ⟨ht.leave hp hnp hnode hnS fun v hv => (hb v hv).resolve_left (List.not_mem_nil v),
        fun _ => hnode⟩
    · -- entering `node`
      exact ⟨hs.enter hnv, rfl, List.mem_insert_self _ _, fun b hb => .inl hb⟩

/-- After a search that returned a cycle, what it left on `rec_stack` is the new left-over set. -/
theorem Explored.stale {s : DfsState α} (hs : Explored g S s) :
    Explored g s.recStack ⟨s.visited, s.recStack, []⟩ :=
  ⟨by simp, List.nil_subset _, hs.recStack_visited,
    hs.closed.mono fun x hx => by rw [hs.recStack_eq]; exact List.mem_append_right _ hx, hs.acyclic⟩

/-- Between searches, a visited node on a cycle reaches a node of a recorded cycle when every
left-over node does: it is left over, or finished and reaches a left-over node. -/
theorem Explored.reaches_of_visited {visited : List α} {cycles : List (List α)}
    (hs : Explored g S ⟨visited, S, []⟩)
    (hS : ∀ x ∈ S, ∃ c ∈ cycles, ∃ y ∈ c, Relation.ReflTransGen g.Edge x y) {v : α}
    (hv : v ∈ visited) (hcyc : Relation.TransGen g.Edge v v) :
    ∃ c ∈ cycles, ∃ y ∈ c, Relation.ReflTransGen g.Edge v y := by
  by_cases hvS : v ∈ S
  · exact hS v hvS
  · obtain ⟨w, hw, hvw⟩ := hs.closed.reaches hs.acyclic ⟨hv, hvS⟩ hcyc
    obtain ⟨c, hc, y, hy, hwy⟩ := hS w hw
    exact ⟨c, hc, y, hy, hvw.trans hwy⟩

/-- Every node on a cycle among the roots and the visited nodes reaches a node of a cycle the
top-level loop returns, provided every node left on `rec_stack` already does. -/
theorem searchAll_reaches (fuel : Nat) : ∀ roots cycles (visited S : List α) cs,
    Explored g S ⟨visited, S, []⟩ →
    (∀ x ∈ S, ∃ c ∈ cycles, ∃ y ∈ c, Relation.ReflTransGen g.Edge x y) →
    searchAll g fuel roots cycles visited S = some cs →
      ∀ v, v ∈ roots ∨ v ∈ visited → Relation.TransGen g.Edge v v →
        ∃ c ∈ cs, ∃ y ∈ c, Relation.ReflTransGen g.Edge v y := by
  intro roots
  induction roots with
  | nil =>
    rintro cycles visited S cs hs hS h v (hv | hv) hcyc
    · cases hv
    · cases h
      exact hs.reaches_of_visited hS hv hcyc
  | cons node rest ih =>
    intro cycles visited S cs hs hS h v hv hcyc
    unfold searchAll at h
    split_ifs at h with hnode
    · refine ih cycles visited S cs hs hS h v ?_ hcyc
      rcases hv with hv | hv
      · exact (List.mem_cons.mp hv).elim (fun h => .inr (h ▸ hnode)) .inl
      · exact .inr hv
    · split at h
      · cases h
      · rename_i c s hr
        obtain ⟨hs', hnv⟩ := dfs_explored fuel node _ _ hs hnode hr
        have hv' : v ∈ rest ∨ v ∈ s.visited := by
          have hsub := dfs_visited g hr
          rcases hv with hv | hv
          · exact (List.mem_cons.mp hv).elim
              (fun h => .inr (hsub (h ▸ List.mem_insert_self _ _))) .inl
          · exact .inr (hsub (List.mem_insert_of_mem hv))
        cases c with
        | none =>
          obtain ⟨hp, hrs⟩ := dfs_restores g fuel node _ _ (hs.recStack_visited) hnode hr
          obtain ⟨sv, sr, sp⟩ := s
          obtain rfl : sp = [] := hp
          obtain rfl : sr = S := hrs
          exact ih _ _ _ _ hs' (by simpa using hS) h v hv' hcyc
        | some c =>
          have hcl := dfs_closesOn fuel node _ c s ⟨List.nodup_nil, List.chain'_nil,
            List.nil_subset _, hs.recStack_visited⟩ hnode (by simp) hr
          refine ih _ _ _ _ hs'.stale (fun x hx => ?_) h v hv' hcyc
          rw [hs'.recStack_eq] at hx
          rcases List.mem_append.mp hx with hx | hx
          · obtain ⟨y, hy, hxy⟩ := hcl.reaches (List.mem_reverse.mp hx)
            exact ⟨c, by simp, y, hy, hxy⟩
          · obtain ⟨c', hc', y, hy, hxy⟩ := hS x hx
            exact ⟨c', List.mem_append_left _ hc', y, hy, hxy⟩

/-- Every node that lies on a cycle of the graph reaches a node of a cycle in what
`find_transitive_cycles` returns. -/
theorem reaches_of_findTransitiveCycles {g : Graph String} {cs : List (List String)}
    (h : findTransitiveCycles g = some cs) (v : String) (hv : Relation.TransGen g.Edge v v) :
    ∃ c ∈ cs, ∃ y ∈ c, Relation.ReflTransGen g.Edge v y := by
  refine searchAll_reaches _ _ [] [] [] cs ⟨rfl, List.nil_subset _, List.nil_subset _,
    fun _ _ hu => absurd hu.1 (List.not_mem_nil _), fun _ hu => absurd hu.1 (List.not_mem_nil _)⟩
    (by simp) h v (.inl ?_) hv
  obtain ⟨w, hvw, -⟩ := Relation.TransGen.head'_iff.mp hv
  exact mem_allNodes.mpr (Graph.mem_nodes_of_edge hvw).1

/-- What `find_transitive_cycles` returns is non-empty exactly when the graph has a cycle. -/
theorem findTransitiveCycles_ne_nil_iff {g : Graph String} {cs : List (List String)}
    (h : findTransitiveCycles g = some cs) : cs ≠ [] ↔ g.HasCycle := by
  refine ⟨fun hne => ?_, fun ⟨v, hv⟩ => ?_⟩
  · obtain ⟨c, hc⟩ := List.exists_mem_of_ne_nil cs hne
    exact (searchAll_sound _ _ _ _ _ _ (List.nil_subset _) (by simp) h c hc).transGen
  · obtain ⟨c, hc, -⟩ := reaches_of_findTransitiveCycles h v hv
    exact List.ne_nil_of_mem hc

/-- The graph `a → b → c → d → a` in which `d` lists `c` before `a`. -/
def crossedCycle : Graph String :=
  ⟨[("a", ["b"]), ("b", ["c"]), ("c", ["d"]), ("d", ["c", "a"])], by decide⟩

end DependencyAnalysis.CircularDeps
