import DependencyAnalysis.CircularDeps.TransitiveCycles

/-!
# Past the recursion limit

`dfs` nests one call per header along an include chain, so a chain deeper than Python's
recursion limit raises `RecursionError` in `find_transitive_cycles` although it has no cycle.
`includeChain n` is the chain `a → aa → … ` of `n + 1` headers, each including the next. It has
no cycle (`includeChain_acyclic`), its smallest header `a` is searched first, and from there the
search runs out once `n` reaches `dfsDepthLimit` (`findTransitiveCycles_includeChain`). At
`n = dfsDepthLimit` the chain has one header more than the limit (`length_allNodes_includeChain`),
so the bound of `findTransitiveCycles_isSome` cannot be raised.
-/

namespace DependencyAnalysis.CircularDeps

/-- The header named by `k + 1` letters `a`. -/
def chainHeader (k : Nat) : String := ⟨List.replicate (k + 1) 'a'⟩

theorem chainHeader_injective : Function.Injective chainHeader := fun i j h => by
  simpa [chainHeader] using congrArg (fun s : String => s.data.length) h

/-- `a` is the smallest of the headers. -/
theorem chainHeader_zero_le (j : Nat) : strLe (chainHeader 0) (chainHeader j) := by
  cases j with
  | zero => exact le_refl _
  | succ j => exact le_of_lt (List.Lex.cons List.Lex.nil)

/-- The chain `chainHeader 0 → chainHeader 1 → … → chainHeader n`: each of the first `n` headers
includes the one with a letter more. -/
def includeChain (n : Nat) : Graph String :=
  Graph.ofFun ((List.range n).map chainHeader) ((List.nodup_range n).map chainHeader_injective)
    fun h => [⟨'a' :: h.data⟩]

theorem get_includeChain {n k : Nat} (hk : k < n) :
    (includeChain n).get (chainHeader k) = [chainHeader (k + 1)] :=
  Graph.get_ofFun (List.mem_map_of_mem _ (List.mem_range.mpr hk))

/-- An include adds one letter. -/
theorem edge_includeChain {n : Nat} {a b : String} (h : (includeChain n).Edge a b) :
    ∃ k < n, a = chainHeader k ∧ b = chainHeader (k + 1) := by
  have ha := Graph.mem_keys_of_mem_get h
  rw [includeChain, Graph.keys_ofFun] at ha
  obtain ⟨k, hk, rfl⟩ := List.mem_map.mp ha
  have hk := List.mem_range.mp hk
  exact ⟨k, hk, rfl, List.mem_singleton.mp (get_includeChain hk ▸ h)⟩

/-- Along the chain the names only grow. -/
theorem length_lt_of_transGen {n : Nat} {a b : String}
    (h : Relation.TransGen (includeChain n).Edge a b) : a.data.length < b.data.length := by
  induction h with
  | single hab =>
    obtain ⟨k, -, rfl, rfl⟩ := edge_includeChain hab
    simp [chainHeader]
  | tail _ hbc ih =>
    obtain ⟨k, -, rfl, rfl⟩ := edge_includeChain hbc
    simp only [chainHeader, List.length_replicate] at ih ⊢
    omega

theorem includeChain_acyclic (n : Nat) : ¬ (includeChain n).HasCycle :=
  fun ⟨_, h⟩ => lt_irrefl _ (length_lt_of_transGen h)

/-- The nodes of the chain are its `n + 1` headers. -/
theorem mem_nodes_includeChain {n : Nat} {a : String} (hn : 0 < n) :
    a ∈ (includeChain n).nodes ↔ ∃ j ≤ n, a = chainHeader j := by
  rw [Graph.mem_nodes, includeChain, Graph.keys_ofFun, ← includeChain]
  constructor
  · rintro (ha | ⟨b, hb⟩)
    · obtain ⟨j, hj, rfl⟩ := List.mem_map.mp ha
      exact ⟨j, (List.mem_range.mp hj).le, rfl⟩
    · obtain ⟨k, hk, -, rfl⟩ := edge_includeChain hb
      exact ⟨k + 1, hk, rfl⟩
  · rintro ⟨j, hj, rfl⟩
    rcases Nat.lt_or_ge j n with hj' | hj'
    · exact .inl (List.mem_map_of_mem _ (List.mem_range.mpr hj'))
    · obtain rfl : j = n := le_antisymm hj hj'
      obtain ⟨k, rfl⟩ := Nat.exists_eq_succ_of_ne_zero hn.ne'
      exact .inr ⟨chainHeader k, by
        rw [Graph.Edge, get_includeChain (Nat.lt_succ_self k)]
        exact List.mem_singleton_self _⟩

theorem length_allNodes_includeChain {n : Nat} (hn : 0 < n) :
    (allNodes (includeChain n)).length = n + 1 := by
  have hperm : (includeChain n).nodes.dedup.Perm ((List.range (n + 1)).map chainHeader) :=
    (List.perm_ext_iff_of_nodup (List.nodup_dedup _)
      ((List.nodup_range _).map chainHeader_injective)).mpr fun a => by
      simp only [List.mem_dedup, mem_nodes_includeChain hn, List.mem_map, List.mem_range,
        Nat.lt_succ_iff, eq_comm (a := a)]
  rw [allNodes, (pySorted_perm _).length_eq, hperm.length_eq, List.length_map, List.length_range]

/-- `sorted(all_nodes)` starts with `a`. -/
theorem allNodes_includeChain {n : Nat} (hn : 0 < n) :
    ∃ rest, allNodes (includeChain n) = chainHeader 0 :: rest :=
  pySorted_eq_cons (List.mem_dedup.mpr ((mem_nodes_includeChain hn).mpr ⟨0, hn.le, rfl⟩))
    fun _ hy => by
      obtain ⟨j, -, rfl⟩ := (mem_nodes_includeChain hn).mp (List.mem_dedup.mp hy)
      exact chainHeader_zero_le j

/-- From `chainHeader k`, a search with no more fuel than headers below it runs out: each call
enters a fresh header and nests one call on the next. -/
theorem dfs_includeChain {n : Nat} : ∀ fuel k (s : DfsState String), k + fuel ≤ n →
    (∀ j, k ≤ j → chainHeader j ∉ s.visited) → dfs (includeChain n) fuel (chainHeader k) s = none
  | 0, _, _, _, _ => rfl
  | fuel + 1, k, s, hk, hs => by
    have hnext : ∀ j, k + 1 ≤ j → chainHeader j ∉ (s.enter (chainHeader k)).visited := by
      intro j hj hmem
      rcases List.mem_insert_iff.mp hmem with h | h
      · exact absurd (chainHeader_injective h) (by omega)
      · exact hs j (by omega) h
    rw [dfs_succ, get_includeChain (by omega)]
    exact transitiveSearch.scan_eq_none (hnext _ le_rfl)
      (dfs_includeChain fuel (k + 1) _ (by omega) hnext) []

/-- On a chain of more than `dfsDepthLimit` headers, `find_transitive_cycles` raises
`RecursionError`. -/
theorem findTransitiveCycles_includeChain {n : Nat} (hn : dfsDepthLimit ≤ n) :
    findTransitiveCycles (includeChain n) = none := by
  have hpos : 0 < n := lt_of_lt_of_le (by decide) hn
  obtain ⟨rest, hrest⟩ := allNodes_includeChain hpos
  rw [findTransitiveCycles, hrest, searchAll, if_neg (List.not_mem_nil _),
    dfs_includeChain dfsDepthLimit 0 _ (by omega) fun _ _ => List.not_mem_nil _]

end DependencyAnalysis.CircularDeps
