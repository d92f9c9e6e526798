import DependencyAnalysis.CircularDeps.Main

/-!
# The order of the keys of the include graph

`build_dependency_graph` inserts the key of a header when the first include it resolves is
appended, so the keys come in the order in which `rglob` lists the headers, and that order is
the file system's. `find_transitive_cycles` reads the graph in two places only: `graph.get(node,
[])` in `dfs`, and the set `all_nodes` of the keys and the listed nodes, which it sorts before the
top-level loop. Two graphs that give every node the same list, with their keys inserted in
different orders, therefore give the same cycles in the same order
(`findTransitiveCycles_keyOrder`).

`find_direct_cycles` is not covered: it walks `graph.items()` in key order and reports each
mutual pair as the edge it meets first.

For the scan itself, a tree whose headers `rglob` lists in another order gives every header the
same list, and the same keys in another order (`buildDependencyGraph_reorder`). So the
transitive cycles and the exit status of `main()` do not depend on that order
(`findTransitiveCycles_reorder`, `main_reorder`).

## Shape of the proof

`dfs` and the top-level loop read the graph only through `graph.get` (`dfs_congr`,
`searchAll_congr`), and `sorted(all_nodes)` depends only on which nodes the set holds
(`allNodes_congr`). For the scan, the list of a header comes from that header alone, and a
header is a key exactly when its list is not empty (`buildDependencyGraph_noEmptyEntry`).
-/

namespace DependencyAnalysis.CircularDeps

/-! ## What the search reads of the graph -/

section Congr

variable {α : Type} [DecidableEq α] {g₁ g₂ : Graph α}

/-- `dfs` reads the graph only through `graph.get`. -/
theorem dfs_congr (hget : ∀ a, g₁.get a = g₂.get a) (fuel : Nat) : dfs g₁ fuel = dfs g₂ fuel := by
  rw [dfs, dfs, show g₁.get = g₂.get from funext hget]

/-- So does the loop `for node in sorted(all_nodes)`. -/
theorem searchAll_congr (hget : ∀ a, g₁.get a = g₂.get a) (fuel : Nat) :
    ∀ roots cycles visited recStack, searchAll g₁ fuel roots cycles visited recStack =
      searchAll g₂ fuel roots cycles visited recStack
  | [], _, _, _ => rfl
  | node :: rest, cycles, visited, recStack => by
    simp only [searchAll, dfs_congr hget fuel, searchAll_congr hget fuel rest]

end Congr

section Sorted

variable {g₁ g₂ : Graph String}

/-- `sorted(all_nodes)` depends only on which nodes the set holds. -/
theorem allNodes_congr (hkeys : ∀ a, a ∈ g₁.keys ↔ a ∈ g₂.keys)
    (hget : ∀ a, g₁.get a = g₂.get a) : allNodes g₁ = allNodes g₂ :=
  pySorted_eq_of_perm <|
    (List.perm_ext_iff_of_nodup (List.nodup_dedup _) (List.nodup_dedup _)).mpr fun a => by
      simp only [List.mem_dedup, Graph.mem_nodes, Graph.Edge, hkeys, hget]

/-- `find_transitive_cycles` depends only on which nodes are keys and on what each lists. -/
theorem findTransitiveCycles_congr (hkeys : ∀ a, a ∈ g₁.keys ↔ a ∈ g₂.keys)
    (hget : ∀ a, g₁.get a = g₂.get a) : findTransitiveCycles g₁ = findTransitiveCycles g₂ := by
  rw [findTransitiveCycles, findTransitiveCycles, allNodes_congr hkeys hget, searchAll_congr hget]

/-- Two graphs that map every node to the same list, with their keys inserted in different
orders, have the same transitive cycles. -/
theorem findTransitiveCycles_keyOrder (hkeys : g₁.keys.Perm g₂.keys)
    (hget : ∀ a, g₁.get a = g₂.get a) : findTransitiveCycles g₁ = findTransitiveCycles g₂ :=
  findTransitiveCycles_congr (fun _ => hkeys.mem_iff) hget

end Sorted

/-- `a.h` and `b.h` include each other; the key `a.h` was inserted first. -/
def mutualAB : Graph String := ⟨[("a.h", ["b.h"]), ("b.h", ["a.h"])], by decide⟩

/-- The same lists, the key `b.h` inserted first. -/
def mutualBA : Graph String := ⟨[("b.h", ["a.h"]), ("a.h", ["b.h"])], by decide⟩

theorem findTransitiveCycles_mutualAB_BA :
    mutualAB.keys.Perm mutualBA.keys ∧ (∀ a, mutualAB.get a = mutualBA.get a) ∧
      findTransitiveCycles mutualAB = findTransitiveCycles mutualBA :=
  have hget := Graph.get_eq_of_entries_perm (by decide : mutualAB.entries.Perm mutualBA.entries)
  ⟨by decide, hget, findTransitiveCycles_keyOrder (by decide) hget⟩

/-! ## The order in which `rglob` lists the headers -/

/-- `tree` with `rglob` listing its files in the order `files`. -/
def SourceTree.reorder (tree : SourceTree) (files : List PyPath) (h : files.Perm tree.files) :
    SourceTree :=
  { tree with
    files := files
    files_nodup := h.nodup_iff.mpr tree.files_nodup
    files_rel := fun f hf => tree.files_rel f (h.mem_iff.mp hf) }

/-- Two orders of a list whose members are all equal are the same list. -/
theorem eq_of_perm_of_forall_eq {α : Type} {l₁ l₂ : List α} (h : l₁.Perm l₂)
    (heq : ∀ a ∈ l₁, ∀ b ∈ l₁, a = b) : l₁ = l₂ := by
  cases l₁ with
  | nil => exact h.nil_eq
  | cons a l =>
    rw [List.eq_replicate_of_mem fun b hb => heq b hb a (.head _)] at h ⊢
    exact (List.perm_replicate.mp h.symm).symm

section Reorder

variable (tree : SourceTree) {files : List PyPath} (h : files.Perm tree.files)

@[simp] theorem SourceTree.reorder_files : (tree.reorder files h).files = files := rfl

/-- Whether a path exists does not depend on the order of the listing. -/
theorem SourceTree.pathExists_reorder : (tree.reorder files h).pathExists = tree.pathExists := by
  funext p
  have hmem : ∀ e, e ∈ files ++ tree.dirs ↔ e ∈ tree.files ++ tree.dirs :=
    fun _ => (h.append_right _).mem_iff
  rw [Bool.eq_iff_iff]
  simp only [SourceTree.pathExists, SourceTree.reorder, Bool.and_eq_true, Bool.or_eq_true,
    List.any_eq_true, hmem]

/-- Nor what `extract_includes` gives for a header. -/
theorem SourceTree.includesOf_reorder : (tree.reorder files h).includesOf = tree.includesOf := by
  have hline : lineTarget (tree.reorder files h) = lineTarget tree := by
    funext filePath includeDir line
    simp only [lineTarget, resolveInclude, pathExists_reorder]
    rfl
  funext rel
  simp only [SourceTree.includesOf, extractIncludes, hline]
  rfl

/-- The list of a header comes from that header alone, whatever the order of the listing. -/
theorem get_buildDependencyGraph_reorder (x : String) :
    (buildDependencyGraph (tree.reorder files h)).get x = (buildDependencyGraph tree).get x := by
  have hfilter : ∀ suffix, ((files.filter (hasSuffix suffix)).filter fun rel => rel.str = x) =
      (tree.files.filter (hasSuffix suffix)).filter fun rel => rel.str = x := fun _ =>
    eq_of_perm_of_forall_eq ((h.filter _).filter _) fun a ha b hb => by
      simp only [List.mem_filter, decide_eq_true_eq] at ha hb
      exact str_injective tree (h.subset ha.1.1) (h.subset hb.1.1) (ha.2.trans hb.2.symm)
  simp only [buildDependencyGraph, get_scanFiles, SourceTree.reorder_files,
    SourceTree.includesOf_reorder, hfilter]

/-- A reordered tree gives every header the same list, and the same keys in another order. -/
theorem buildDependencyGraph_reorder :
    (buildDependencyGraph (tree.reorder files h)).keys.Perm (buildDependencyGraph tree).keys ∧
      ∀ x, (buildDependencyGraph (tree.reorder files h)).get x =
        (buildDependencyGraph tree).get x := by
  refine ⟨(List.perm_ext_iff_of_nodup (buildDependencyGraph _).keys_nodup
    (buildDependencyGraph _).keys_nodup).mpr fun x => ?_, get_buildDependencyGraph_reorder tree h⟩
  change x ∈ Graph.keys _ ↔ x ∈ Graph.keys _
  rw [(buildDependencyGraph_noEmptyEntry _).mem_keys_iff,
    (buildDependencyGraph_noEmptyEntry _).mem_keys_iff, get_buildDependencyGraph_reorder tree h]

/-- `find_transitive_cycles` gives the same cycles whatever order `rglob` lists the headers in. -/
theorem findTransitiveCycles_reorder :
    findTransitiveCycles (buildDependencyGraph (tree.reorder files h)) =
      findTransitiveCycles (buildDependencyGraph tree) :=
  have hb := buildDependencyGraph_reorder tree h
  findTransitiveCycles_congr (fun _ => hb.1.mem_iff) hb.2

theorem findTransitiveCycles_reorder_twiceIncluded :
    [bHeader, aHeader].Perm twiceIncluded.files ∧
      findTransitiveCycles (buildDependencyGraph
          (twiceIncluded.reorder [bHeader, aHeader] (by decide))) =
        findTransitiveCycles (buildDependencyGraph twiceIncluded) :=
  ⟨by decide, findTransitiveCycles_reorder twiceIncluded (by decide)⟩

/-- The exit status of `main()` does not depend on that order either. -/
theorem main_reorder : main (tree.reorder files h) = main tree := by
  cases hex : tree.includeDirExists
  · simp only [main, SourceTree.reorder, hex, Bool.false_eq_true, if_false]
  · have hb := buildDependencyGraph_reorder tree h
    obtain ⟨h0, h1⟩ := main_exit (tree.reorder files h) hex
    obtain ⟨h0', h1'⟩ := main_exit tree hex
    rw [Graph.hasCycle_congr hb.2, findTransitiveCycles_congr (fun _ => hb.1.mem_iff) hb.2] at h0 h1
    by_cases hc : ¬ (buildDependencyGraph tree).HasCycle ∧
        (findTransitiveCycles (buildDependencyGraph tree)).isSome
    · rw [h0.mpr hc, h0'.mpr hc]
    · rw [not_and_or, not_not, Option.not_isSome_iff_eq_none] at hc
      rw [h1.mpr hc, h1'.mpr hc]

theorem main_reorder_twiceIncluded :
    [bHeader, aHeader].Perm twiceIncluded.files ∧
      main (twiceIncluded.reorder [bHeader, aHeader] (by decide)) = main twiceIncluded :=
  ⟨by decide, main_reorder twiceIncluded (by decide)⟩

end Reorder

end DependencyAnalysis.CircularDeps
