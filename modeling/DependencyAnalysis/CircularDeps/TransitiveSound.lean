import DependencyAnalysis.CircularDeps.TransitiveCycles

/-!
# Every cycle `find_transitive_cycles` reports is a simple cycle

Within one top-level search, `path` is the chain of nested `dfs` calls: each of its nodes
depends on the next, and no node occurs twice, since a node joins `path` only when it is
first visited. When an edge reaches a node on `rec_stack`, that node is either on `path`, and
the slice from it is a cycle (`isCycle_sliceFrom`), or it is a stale node left on `rec_stack`
by an earlier search that returned early; then `path.index` raises `ValueError` and the edge is
skipped. The `try` around `path.index` is what keeps the report sound after an early return.

A cycle is sliced from the `path` of its own top-level search, and a search enters only nodes
no earlier search visited, so no node lies on two reported cycles
(`findTransitiveCycles_disjoint`).
-/

namespace DependencyAnalysis.CircularDeps

variable {α : Type} [DecidableEq α] (g : Graph α)

/-- The invariant of `dfs` states behind soundness: `path` is a duplicate-free chain of
dependencies through visited nodes, and `rec_stack` holds only visited nodes. -/
structure PathChain (s : DfsState α) : Prop where
  nodup : s.path.Nodup
  chain : s.path.Chain' g.Edge
  path_visited : s.path ⊆ s.visited
  recStack_visited : s.recStack ⊆ s.visited

variable {g}

/-- Entering a fresh node on which the end of `path` depends keeps `PathChain`. -/
theorem PathChain.enter {s : DfsState α} {node : α} (h : PathChain g s) (hnv : node ∉ s.visited)
    (hlast : ∀ y ∈ s.path.getLast?, g.Edge y node) : PathChain g (s.enter node) where
  nodup := by simpa [List.nodup_append, h.nodup] using fun hx => hnv (h.path_visited hx)
  chain := List.chain'_append.mpr ⟨h.chain, List.chain'_singleton _,
    fun y hy z hz => by obtain rfl : z = node := by simpa using hz.symm
                        exact hlast y hy⟩
  path_visited := fun _ hx => (List.mem_append.mp hx).elim
    (fun hx => List.mem_insert_of_mem (h.path_visited hx))
    (fun hx => List.mem_singleton.mp hx ▸ List.mem_insert_self _ _)
  recStack_visited := fun x hx => (List.mem_insert_iff.mp hx).elim
    (fun h => h ▸ List.mem_insert_self _ _) (fun hx => List.mem_insert_of_mem (h.recStack_visited hx))

variable (g) in
/-- What a search that returns the cycle `c` leaves behind: `path` still satisfies
`PathChain`, and `c` is `path` sliced at a node `nb` on it on which the end of `path`
depends. -/
def ClosesOn (s : DfsState α) (c : List α) : Prop :=
  PathChain g s ∧ ∃ nb ∈ s.path, (∀ y ∈ s.path.getLast?, g.Edge y nb) ∧ c = sliceFrom s.path nb

theorem ClosesOn.isCycle {s : DfsState α} {c : List α} (h : ClosesOn g s c) :
    IsCycle g.Edge c := by
  obtain ⟨hs, nb, hnb, hlast, rfl⟩ := h
  exact isCycle_sliceFrom hs.nodup hs.chain hnb hlast

/-- Every node left on `path` by a search that returned `c` reaches a node of `c`: along
`path` to its end, then back to the node `c` starts from. -/
theorem ClosesOn.reaches {s : DfsState α} {c : List α} (h : ClosesOn g s c) {x : α}
    (hx : x ∈ s.path) : ∃ y ∈ c, Relation.ReflTransGen g.Edge x y := by
  obtain ⟨hs, nb, -, hlast, rfl⟩ := h
  obtain ⟨z, hz⟩ := Option.ne_none_iff_exists'.mp (List.getLast?_eq_none_iff.not.mpr
    (List.ne_nil_of_mem hx))
  exact ⟨nb, by simp [sliceFrom], (reflTransGen_getLast hs.chain hx hz).tail (hlast z hz)⟩

/-- A search started from a `PathChain` state, on a fresh node on which the end of `path`
depends, that returns a cycle closes it on its `path`. -/
theorem dfs_closesOn : ∀ fuel node (s : DfsState α) c s', PathChain g s → node ∉ s.visited →
    (∀ y ∈ s.path.getLast?, g.Edge y node) → dfs g fuel node s = some (some c, s') →
      ClosesOn g s' c := by
  intro fuel
  induction fuel with
  | zero => intro _ _ _ _ _ _ _ h; cases h
  | succ fuel ih =>
    intro node s c s' hs hnv hlast h
    refine scan_inv (fun nbs t => PathChain g t ∧ t.path = s.path ++ [node] ∧
        ∀ b ∈ nbs, g.Edge node b) (fun r => ∀ c, r.1 = some c → ClosesOn g r.2 c)
      ?_ ?_ ?_ (fun _ _ _ h => by cases h) _ _ _ ⟨hs.enter hnv hlast, rfl, fun _ hb => hb⟩ h c rfl
    · -- a nested search, started on a dependency of `node`
      rintro nb nbs t ⟨c', t'⟩ ⟨ht, hp, hb⟩ hv hr
      have hlast' : ∀ y ∈ t.path.getLast?, g.Edge y nb := by
        simpa [hp] using hb nb (.head _)
      refine ⟨fun hc => ?_, fun _ c'' hc' => ih nb t c'' t' ht hv hlast' (by simpa [← hc'] using hr)⟩
      obtain rfl : c' = none := hc
      obtain ⟨hp', hr'⟩ := dfs_restores g fuel nb t t' ht.recStack_visited hv hr
      have hsub : t.visited ⊆ t'.visited := fun _ hx => dfs_visited g hr (List.mem_insert_of_mem hx)
      exact ⟨⟨hp' ▸ ht.nodup, hp' ▸ ht.chain, hp' ▸ ht.path_visited.trans hsub,
        hr' ▸ ht.recStack_visited.trans hsub⟩, hp'.trans hp, fun b hb' => hb b (.tail _ hb')⟩
    · -- an edge from `node` back to a node on `path`
      rintro nb nbs t c' ⟨ht, hp, hb⟩ - hc c'' hc''
      obtain rfl : c' = c'' := Option.some.inj hc''
      unfold closeCycle at hc
      split_ifs at hc with hnb
      cases hc
      exact ⟨ht, nb, hnb, by simpa [hp] using hb nb (.head _), rfl⟩
    · rintro nb nbs t ⟨ht, hp, hb⟩ - -
      exact ⟨ht, hp, fun b hb' => hb b (.tail _ hb')⟩

/-- Every cycle the top-level loop appends is a simple cycle, starting from any state in which
`rec_stack` holds only visited nodes, stale ones included. -/
theorem searchAll_sound (fuel : Nat) : ∀ roots cycles (visited recStack : List α) cs,
    recStack ⊆ visited → (∀ c ∈ cycles, IsCycle g.Edge c) →
      searchAll g fuel roots cycles visited recStack = some cs → ∀ c ∈ cs, IsCycle g.Edge c := by
  intro roots
  induction roots with
  | nil => intro cycles _ _ cs _ hc h; cases h; exact hc
  | cons node rest ih =>
    intro cycles visited recStack cs hrv hc h
    unfold searchAll at h
    split_ifs at h with hv
    · exact ih _ _ _ _ hrv hc h
    · split at h
      · cases h
      · rename_i c s hr
        refine ih _ _ _ _ (dfs_recStack_subset g (s := ⟨visited, recStack, []⟩) hrv hr) ?_ h
        intro c' hc'
        rcases List.mem_append.mp hc' with hc' | hc'
        · exact hc c' hc'
        · cases c with
          | none => cases hc'
          | some c =>
            obtain rfl : c' = c := by simpa using hc'
            exact (dfs_closesOn fuel node _ c' s ⟨List.nodup_nil, List.chain'_nil,
              List.nil_subset _, hrv⟩ hv (by simp) hr).isCycle

/-- Every list `find_transitive_cycles` returns is a simple cycle `[n₀, …, nₖ, n₀]` of the
graph, also those found after an earlier search returned early and left its nodes on
`rec_stack`; within the recursion limit it returns. -/
theorem findTransitiveCycles_isCycle (g : Graph String) :
    (∀ cs, findTransitiveCycles g = some cs → ∀ c ∈ cs, IsCycle g.Edge c) ∧
      ((allNodes g).length ≤ dfsDepthLimit → ∃ cs, findTransitiveCycles g = some cs) :=
  ⟨fun _ h => searchAll_sound _ _ _ _ _ _ (List.nil_subset _) (by simp) h,
    findTransitiveCycles_isSome⟩

/-! ## No node lies on two reported cycles

A top-level search starts with an empty `path` and enters only nodes no search visited before
it, so its `path`, and the cycle it slices from `path`, hold none of the nodes earlier searches
visited; those hold every earlier cycle.
-/

/-- The cycle a search returns is made of nodes of the `path` it leaves. -/
theorem ClosesOn.subset_path {s : DfsState α} {c : List α} (h : ClosesOn g s c) : c ⊆ s.path := by
  obtain ⟨-, nb, hnb, -, rfl⟩ := h
  exact sliceFrom_subset hnb

/-- Every node a search puts on `path` is new: none of the nodes `V` visited when it began. -/
theorem dfs_path_fresh {V : List α} {fuel : Nat} {node : α} {s : DfsState α} {r : DfsResult α}
    (hV : V ⊆ s.visited) (hnv : node ∉ s.visited) (hp : ∀ x ∈ s.path, x ∉ V)
    (h : dfs g fuel node s = some r) : ∀ x ∈ r.2.path, x ∉ V := by
  have henter : ∀ (t : DfsState α) a, (V ⊆ t.visited ∧ ∀ x ∈ t.path, x ∉ V) → a ∉ t.visited →
      V ⊆ (t.enter a).visited ∧ ∀ x ∈ (t.enter a).path, x ∉ V := fun t a ⟨htV, htp⟩ ha =>
    ⟨fun _ hx => List.mem_insert_of_mem (htV hx), fun x hx => by
      rcases List.mem_append.mp hx with hx | hx
      · exact htp x hx
      · exact List.mem_singleton.mp hx ▸ fun hxV => ha (htV hxV)⟩
  exact (dfs_inv g (fun _ => True) (fun _ _ _ _ => trivial) _
    (fun t a ht _ ha => henter t a ht ha)
    (fun _ _ ht => ⟨ht.1, fun x hx => ht.2 x (List.dropLast_subset _ hx)⟩) fuel node s r trivial
    (henter s node ⟨hV, hp⟩ hnv) h).2

/-- The top-level loop keeps every cycle inside `visited`, and no two of them meet. -/
theorem searchAll_disjoint (fuel : Nat) : ∀ roots cycles (visited recStack : List α) cs,
    recStack ⊆ visited → (∀ c ∈ cycles, c ⊆ visited) → cycles.Pairwise List.Disjoint →
      searchAll g fuel roots cycles visited recStack = some cs → cs.Pairwise List.Disjoint := by
  intro roots
  induction roots with
  | nil => intro cycles _ _ cs _ _ hd h; cases h; exact hd
  | cons node rest ih =>
    intro cycles visited recStack cs hrv hsub hd h
    unfold searchAll at h
    split_ifs at h with hv
    · exact ih _ _ _ _ hrv hsub hd h
    · split at h
      · cases h
      · rename_i c s hr
        have hvs : visited ⊆ s.visited := fun _ hx => dfs_visited g hr (List.mem_insert_of_mem hx)
        have hnew : ∀ c' ∈ c.toList, c' ⊆ s.path ∧ s.path ⊆ s.visited := fun c' hc' => by
          obtain rfl : c = some c' := Option.mem_def.mp (Option.mem_toList.mp hc')
          have hcl := dfs_closesOn fuel node _ c' s ⟨List.nodup_nil, List.chain'_nil,
            List.nil_subset _, hrv⟩ hv (by simp) hr
          exact ⟨hcl.subset_path, hcl.1.path_visited⟩
        have hfresh := dfs_path_fresh (List.Subset.refl _) hv (by simp) hr
        refine ih _ _ _ _ (dfs_recStack_subset g (s := ⟨visited, recStack, []⟩) hrv hr)
          (fun c' hc' => ?_) (List.pairwise_append.mpr ⟨hd, ?_, ?_⟩) h
        · rcases List.mem_append.mp hc' with hc' | hc'
          · exact (hsub c' hc').trans hvs
          · exact (hnew c' hc').1.trans (hnew c' hc').2
        · cases c <;> simp
        · exact fun a ha b hb => List.disjoint_left.mpr fun x hxa hxb =>
            hfresh x ((hnew b hb).1 hxb) (hsub a ha hxa)

end DependencyAnalysis.CircularDeps
