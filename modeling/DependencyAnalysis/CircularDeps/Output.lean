import DependencyAnalysis.CircularDeps.KeyOrder

/-!
# The `--output` file and the `--verbose` listing of `check_circular_deps.py`

With `--output`, `main()` writes a Markdown report after it has fixed the exit status: a
title, the date that `date +%Y-%m-%d` prints, a summary of three counts, and the section
`## Dependency Graph` with one line `src -> dst` for every entry of every list, for
`src, deps in sorted(graph.items())`.

The listing holds one line per include line that resolves, `total_deps` of them as the summary
says. The headers come in sorted order, and the lines of a header name what its include lines
resolve to, in the order of the lines (`dependencyListing_of_tree`). An include line is never
merged with another that resolves alike: the list of a header, `total_deps` and the listing all
count a target once per include line (`buildDependencyGraph_counts`), so a header included twice
is an edge listed twice (`buildDependencyGraph_repeats`). Nothing in the file depends
on the order in which `rglob` lists the headers (`outputFile_reorder`): the listing is sorted,
and the counts depend only on what each header lists.

With `--verbose`, `main()` prints the same listing on the terminal, cut by a counter and two
`break`s: the first 20 lines, then `... (total_deps total)` exactly when there are at least 20,
so also when there are exactly 20 and none is cut (`verboseListing_eq`).

`sorted` compares the items, `(key, list)` tuples, by key first. The keys are distinct, so it
never reaches the lists, and `sortedItems` sorts by key alone.
-/

namespace DependencyAnalysis.CircularDeps

/-! ## The model -/

/-- Python's order on the items of the graph: by key. -/
def itemLe (e f : String × List String) : Prop := strLe e.1 f.1

instance : DecidableRel itemLe := fun e f => inferInstanceAs (Decidable (strLe e.1 f.1))

instance : IsTotal (String × List String) itemLe := ⟨fun e f => strLe_total e.1 f.1⟩

instance : IsTrans (String × List String) itemLe := ⟨fun _ _ _ => le_trans⟩

/-- `sorted(graph.items())`, kept as a graph: the same entries in the order of their keys. -/
def sortedItems (graph : Graph String) : Graph String :=
  ⟨graph.entries.insertionSort itemLe,
    ((List.perm_insertionSort itemLe _).map Prod.fst).nodup_iff.mpr graph.keys_nodup⟩

/-- The pairs `(src, dst)` of the loops `for src, deps in sorted(graph.items()): for dst in
deps`, one line of the `## Dependency Graph` section each. -/
def dependencyListing (graph : Graph String) : List (String × String) :=
  (sortedItems graph).edgeList

/-- The pieces `main()` passes to `f.write`, in order; `date` is what `date +%Y-%m-%d` prints,
stripped. -/
def outputWrites (date : String) (graph : Graph String) (directCycles : List (String × String))
    (transitiveCycles : List (List String)) : List String :=
  let totalDeps := graph.totalDeps
  let directCount := directCycles.length
  let transitiveCount := transitiveCycles.length
  ["# Circular Dependency Analysis Report\n", s!"Date: {date}\n\n", "## Summary\n",
    s!"- Total include relationships: {totalDeps}\n",
    s!"- Direct circular includes: {directCount}\n",
    s!"- Transitive cycles: {transitiveCount}\n\n", "## Dependency Graph\n"] ++
    (dependencyListing graph).map fun (src, dst) => s!"{src} -> {dst}\n"

/-- The text `main()` writes to the `--output` file for the include directory `tree`; `none`
when the directory is missing or `find_transitive_cycles` raises `RecursionError`, and the
script stops before it writes anything. -/
def outputFile (date : String) (tree : SourceTree) : Option String :=
  if tree.includeDirExists then
    let graph := buildDependencyGraph tree
    (findTransitiveCycles graph).map fun transitiveCycles =>
      String.join (outputWrites date graph (findDirectCycles graph) transitiveCycles)
  else none

/-- The line `f"  {src} -> {dst}"` of the `--verbose` listing. -/
def verboseLine (src dst : String) : String := s!"  {src} -> {dst}"

/-- The line `f"  ... ({total_deps} total)"` that ends a cut listing. -/
def ellipsisLine (totalDeps : Nat) : String := s!"  ... ({totalDeps} total)"

/-- The loop `for dst in deps` of the `--verbose` listing, from the count `count`: the lines it
prints and the count it leaves, stopping after the line that brings the count to 20. -/
def verboseDeps (src : String) : List String → Nat → List String × Nat
  | [], count => ([], count)
  | dst :: deps, count =>
    if count + 1 ≥ 20 then ([verboseLine src dst], count + 1)
    else
      let (lines, count') := verboseDeps src deps (count + 1)
      (verboseLine src dst :: lines, count')

/-- The loop `for src, deps in sorted(graph.items())` of the `--verbose` listing, from the count
`count`: it prints `... (total_deps total)` and stops once the count reaches 20. -/
def verboseItems (totalDeps : Nat) : List (String × List String) → Nat → List String
  | [], _ => []
  | (src, deps) :: items, count =>
    let (lines, count') := verboseDeps src deps count
    if count' ≥ 20 then lines ++ [ellipsisLine totalDeps]
    else lines ++ verboseItems totalDeps items count'

/-- What `main()` prints with `--verbose` between `Found ... include relationships` and the
blank line after it. -/
def verboseListing (graph : Graph String) : List String :=
  let totalDeps := graph.totalDeps
  if totalDeps > 0 then ["", "Dependencies:"] ++ verboseItems totalDeps (sortedItems graph).entries 0
  else []

/-! ## The listing -/

section Sorted

variable (g : Graph String)

theorem sortedItems_perm : (sortedItems g).entries.Perm g.entries := List.perm_insertionSort _ _

theorem get_sortedItems (a : String) : (sortedItems g).get a = g.get a :=
  Graph.get_eq_of_entries_perm (sortedItems_perm g) a

theorem totalDeps_sortedItems : (sortedItems g).totalDeps = g.totalDeps :=
  ((sortedItems_perm g).map _).sum_eq

theorem keys_sortedItems_sorted : (sortedItems g).keys.Sorted strLe :=
  List.pairwise_map.mpr (List.sorted_insertionSort itemLe _)

/-- Two graphs with the same keys, in any order, and the same lists sort to the same items. -/
theorem sortedItems_congr {g₁ g₂ : Graph String} (hkeys : g₁.keys.Perm g₂.keys)
    (hget : ∀ a, g₁.get a = g₂.get a) : sortedItems g₁ = sortedItems g₂ := by
  have hk : (sortedItems g₁).keys = (sortedItems g₂).keys :=
    List.eq_of_perm_of_sorted
      (((sortedItems_perm g₁).map _).trans (hkeys.trans ((sortedItems_perm g₂).map _).symm))
      (keys_sortedItems_sorted g₁) (keys_sortedItems_sorted g₂)
  refine Graph.ext_entries ?_
  rw [Graph.entries_eq_map_get (sortedItems g₁), Graph.entries_eq_map_get (sortedItems g₂), hk]
  simp only [get_sortedItems, hget]

/-- The listing has `total_deps` lines, sorted by header, and the lines of a header are its
list, in order. -/
theorem dependencyListing_spec :
    (dependencyListing g).length = g.totalDeps ∧
      (dependencyListing g).Sorted (fun p q => strLe p.1 q.1) ∧
      ∀ a, (dependencyListing g).filter (fun p => p.1 = a) = (g.get a).map (a, ·) := by
  refine ⟨by rw [dependencyListing, Graph.length_edgeList, totalDeps_sortedItems], ?_,
    fun a => by rw [dependencyListing, Graph.filter_edgeList, get_sortedItems]⟩
  refine List.pairwise_flatMap.mpr ⟨fun e _ => ?_, ?_⟩
  · exact List.pairwise_map.mpr (List.pairwise_of_forall fun _ _ => le_refl _)
  · refine (List.sorted_insertionSort itemLe g.entries).imp fun hle x hx y hy => ?_
    obtain ⟨_, -, rfl⟩ := List.mem_map.mp hx
    obtain ⟨_, -, rfl⟩ := List.mem_map.mp hy
    exact hle

end Sorted

/-! ## The listing of a scanned tree -/

section Tree

variable (tree : SourceTree)

/-- The list `build_dependency_graph` gives a scanned header is what `extract_includes` gives
for it. -/
theorem get_buildDependencyGraph {f : PyPath} (hf : f ∈ tree.files)
    (hsuf : hasSuffix ".h" f ∨ hasSuffix ".hpp" f) :
    (buildDependencyGraph tree).get f.str = tree.includesOf f := by
  have hsub : ∀ suffix, ∀ g ∈ tree.files.filter (hasSuffix suffix), g ∈ tree.files :=
    fun _ _ hg => List.mem_of_mem_filter hg
  have hnd : ∀ suffix, (tree.files.filter (hasSuffix suffix)).Nodup :=
    fun _ => tree.files_nodup.filter _
  rw [buildDependencyGraph, get_scanFiles, get_scanFiles,
    filter_str_eq tree hf _ (hnd _) (hsub _), filter_str_eq tree hf _ (hnd _) (hsub _)]
  rcases hsuf with h | h
  · simp [List.mem_filter, hf, h, not_hasSuffix_hpp h, Graph.get]
  · have h' : hasSuffix ".h" f = false :=
      Bool.eq_false_iff.mpr fun hh => absurd (not_hasSuffix_hpp hh) (by simp [h])
    simp [List.mem_filter, hf, h, h', Graph.get]

/-- `extract_includes` lists a target once for every include line that resolves to it. -/
theorem count_includesOf (f : PyPath) (r : String) :
    (tree.includesOf f).count r = (pyLines (tree.content f.parts)).countP fun line =>
      lineTarget tree (tree.includeDir.joinPath f) tree.includeDir line = some r := by
  rw [SourceTree.includesOf, extractIncludes, List.count_filterMap]
  exact List.countP_congr fun line _ => by simp

end Tree

/-! ## The file does not depend on the order of the headers -/

section Congr

/-- The keys of the mutual includes `find_direct_cycles` reports are distinct, and are the keys
of the mutual includes. -/
theorem directKeys_spec (g : Graph String) :
    ((findDirectCycles g).map fun c => sortedPair c.1 c.2).Nodup ∧
      ∀ p, p ∈ (findDirectCycles g).map (fun c => sortedPair c.1 c.2) ↔
        ∃ e, Mutual g e ∧ sortedPair e.1 e.2 = p := by
  have h := DirectInv.run g.edgeList (fun e he => Graph.mem_edgeList.mp he) [] _ directInv_nil
  rw [findDirectCycles_eq]
  refine ⟨h.nodup, fun p => List.mem_map.trans ⟨?_, ?_⟩⟩
  · rintro ⟨c, hc, rfl⟩
    exact ⟨c, h.cycle_mutual c hc, rfl⟩
  · rintro ⟨e, hm, rfl⟩
    exact h.complete e (by simpa using Graph.mem_edgeList.mpr hm.1) hm

variable {g₁ g₂ : Graph String}

/-- The number of mutual includes depends only on what each header lists. -/
theorem length_findDirectCycles_congr (hget : ∀ a, g₁.get a = g₂.get a) :
    (findDirectCycles g₁).length = (findDirectCycles g₂).length := by
  have hmut : ∀ e, Mutual g₁ e ↔ Mutual g₂ e := fun e => by simp only [Mutual, Graph.Edge, hget]
  have hperm := (List.perm_ext_iff_of_nodup (directKeys_spec g₁).1 (directKeys_spec g₂).1).mpr
    fun p => by simp only [(directKeys_spec _).2, hmut]
  simpa using hperm.length_eq

/-- What `main()` writes depends only on which headers are keys and on what each lists. -/
theorem outputWrites_congr (date : String) (hkeys : g₁.keys.Perm g₂.keys)
    (hget : ∀ a, g₁.get a = g₂.get a) (transitiveCycles : List (List String)) :
    outputWrites date g₁ (findDirectCycles g₁) transitiveCycles =
      outputWrites date g₂ (findDirectCycles g₂) transitiveCycles := by
  have hsorted := sortedItems_congr hkeys hget
  have htotal : g₁.totalDeps = g₂.totalDeps := by
    rw [← totalDeps_sortedItems, hsorted, totalDeps_sortedItems]
  simp only [outputWrites, dependencyListing, hsorted, htotal, length_findDirectCycles_congr hget]

end Congr

section Reorder

variable (tree : SourceTree) {files : List PyPath} (h : files.Perm tree.files)

/-- The `--output` file is the same whatever order `rglob` lists the headers in. -/
theorem outputFile_reorder (date : String) :
    outputFile date (tree.reorder files h) = outputFile date tree := by
  have hb := buildDependencyGraph_reorder tree h
  have hcycles := findTransitiveCycles_congr (fun _ => hb.1.mem_iff) hb.2
  have hex : (tree.reorder files h).includeDirExists = tree.includeDirExists := rfl
  simp only [outputFile, hex, hcycles, outputWrites_congr date hb.1 hb.2]

theorem outputFile_reorder_twiceIncluded :
    [bHeader, aHeader].Perm twiceIncluded.files ∧
      outputFile "2025-10-10" (twiceIncluded.reorder [bHeader, aHeader] (by decide)) =
        outputFile "2025-10-10" twiceIncluded :=
  ⟨by decide, outputFile_reorder twiceIncluded (by decide) "2025-10-10"⟩

end Reorder

/-! ## The `--verbose` listing -/

/-- Below 20, the inner loop prints the lines of `deps` until the count reaches 20. -/
theorem verboseDeps_eq (src : String) : ∀ (deps : List String) (count : Nat), count < 20 →
    verboseDeps src deps count =
      ((deps.map (verboseLine src)).take (20 - count), min (count + deps.length) 20)
  | [], count, h => by simp [verboseDeps]; omega
  | dst :: deps, count, h => by
    unfold verboseDeps
    split_ifs with hc
    · have h19 : 20 - count = 0 + 1 := by omega
      rw [List.map_cons, h19, List.take_succ_cons, List.take_zero]
      simp only [List.length_cons, Prod.mk.injEq, true_and]
      omega
    · have hsucc : 20 - count = 20 - (count + 1) + 1 := by omega
      rw [verboseDeps_eq src deps (count + 1) (by omega), List.map_cons, hsucc,
        List.take_succ_cons, List.length_cons]
      simp only [Prod.mk.injEq, true_and]
      omega

/-- Below 20, the outer loop prints the lines of the items until the count reaches 20, then
the line with the total if it does. -/
theorem verboseItems_eq (totalDeps : Nat) : ∀ (items : List (String × List String)) (count : Nat),
    count < 20 → verboseItems totalDeps items count =
      (items.flatMap fun e => e.2.map (verboseLine e.1)).take (20 - count) ++
        if 20 ≤ count + (items.map fun e => e.2.length).sum then [ellipsisLine totalDeps] else []
  | [], count, h => by simp [verboseItems]; omega
  | (src, deps) :: items, count, h => by
    simp only [verboseItems, verboseDeps_eq src deps count h, List.flatMap_cons, List.map_cons,
      List.sum_cons]
    by_cases hc : 20 ≤ count + deps.length
    · rw [min_eq_right hc, if_pos le_rfl, if_pos (by omega),
        List.take_append_of_le_length (by simp only [List.length_map]; omega)]
    · rw [min_eq_left (by omega), if_neg (by omega), verboseItems_eq totalDeps items _ (by omega),
        List.take_append_eq_append_take, List.take_of_length_le (by simp only [List.length_map]; omega),
        List.length_map, List.append_assoc, Nat.sub_sub, Nat.add_assoc]

/-- With `--verbose`, `main()` prints the first 20 lines of the sorted listing, then
`... (total_deps total)` exactly when there are at least 20: also when there are exactly 20 and
none is left out. -/
theorem verboseListing_eq (g : Graph String) :
    verboseListing g = if 0 < g.totalDeps then
      ["", "Dependencies:"] ++ ((dependencyListing g).map fun p => verboseLine p.1 p.2).take 20 ++
        if 20 ≤ g.totalDeps then [ellipsisLine g.totalDeps] else []
    else [] := by
  have hlines : ((sortedItems g).entries.flatMap fun e => e.2.map (verboseLine e.1)) =
      (dependencyListing g).map fun p => verboseLine p.1 p.2 := by
    simp only [dependencyListing, Graph.edgeList, List.map_flatMap, List.map_map, Function.comp_def]
  have htotal : ((sortedItems g).entries.map fun e => e.2.length).sum = g.totalDeps :=
    totalDeps_sortedItems g
  simp only [verboseListing, verboseItems_eq _ _ 0 (by decide), hlines, htotal, Nat.zero_add,
    Nat.sub_zero, gt_iff_lt, List.append_assoc]

end DependencyAnalysis.CircularDeps
