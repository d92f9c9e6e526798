import DependencyAnalysis.CircularDeps.IncludeScan
import DependencyAnalysis.CircularDeps.DirectCycles
import DependencyAnalysis.CircularDeps.TransitiveComplete

/-!
# The exit status of `check_circular_deps.py`

`main()` exits with 1 when the include directory is missing. Otherwise it builds the include
graph, runs `find_direct_cycles` and then `find_transitive_cycles`, and exits with 1 when either
reports something, else 0. A `RecursionError` in `find_transitive_cycles` is caught by nothing,
and the interpreter then exits with 1 too. The status is the CI gate. What `main()` prints does
not change it and is left out here; the `--verbose` listing and the `--output` file are modelled
in `CircularDeps.Output`.

A mutual include is a cycle of length two, so the direct search reports nothing the transitive
one would miss: the status is 0 exactly when the include graph has no cycle and the transitive
search returns (`main_exit`), which it does on every graph within the recursion limit.

The include graph itself depends on how the include directory is given. Given as a relative
path, every `./` or `../` include resolves to nothing, and two headers that include each other
that way pass the gate (`main_relative_includeDir`).
-/

namespace DependencyAnalysis.CircularDeps

/-- The status the script exits with: the one `main()` passes to `sys.exit`, or 1 for the
`RecursionError` of `find_transitive_cycles`; `tree` is the include directory `main()` is
given. -/
def main (tree : SourceTree) : Nat :=
  if tree.includeDirExists then
    let graph := buildDependencyGraph tree
    let exitCode := if findDirectCycles graph ≠ [] then 1 else 0
    match findTransitiveCycles graph with
    | some transitiveCycles => if transitiveCycles ≠ [] then 1 else exitCode
    | none => 1
  else 1

/-- A reported mutual include is a cycle of length two. -/
theorem hasCycle_of_findDirectCycles {g : Graph String} (h : findDirectCycles g ≠ []) :
    g.HasCycle := by
  obtain ⟨c, hc⟩ := List.exists_mem_of_ne_nil _ h
  obtain ⟨h₁, h₂⟩ := findDirectCycles_mutual g hc
  exact ⟨c.1, .tail (.single h₁) h₂⟩

/-- With the include directory present, `main()` exits with 0 exactly when the include graph has
no cycle and `find_transitive_cycles` returns, and with 1 otherwise. -/
theorem main_exit (tree : SourceTree) (hex : tree.includeDirExists = true) :
    (main tree = 0 ↔ ¬ (buildDependencyGraph tree).HasCycle ∧
      (findTransitiveCycles (buildDependencyGraph tree)).isSome) ∧
    (main tree = 1 ↔ (buildDependencyGraph tree).HasCycle ∨
      findTransitiveCycles (buildDependencyGraph tree) = none) := by
  cases hcs : findTransitiveCycles (buildDependencyGraph tree) with
  | none => simp [main, hex, hcs]
  | some cs =>
    have hiff := findTransitiveCycles_ne_nil_iff hcs
    by_cases hc : (buildDependencyGraph tree).HasCycle
    · simp [main, hex, hcs, hiff.mpr hc, hc]
    · have hd : ¬ findDirectCycles (buildDependencyGraph tree) ≠ [] :=
        mt hasCycle_of_findDirectCycles hc
      simp [main, hex, hcs, mt hiff.mp hc, hd, hc]

/-- `a.h` and `b.h` include each other, as `./b.h` and as `a.h`, below the include directory given
as the relative path `include`, from the working directory `/repo`. -/
def relativeMutual : SourceTree where
  cwd := ⟨.slash, ["repo"], by decide⟩
  includeDir := ⟨.relative, ["include"], by decide⟩
  includeDirExists := true
  files := [aHeader, bHeader]
  dirs := []
  content := fun parts =>
    if parts = ["a.h"] then "#include <./b.h>\n"
    else if parts = ["b.h"] then "#include <a.h>\n" else ""
  files_nodup := by decide
  files_rel := by decide
  dirs_rel := by decide

/-- The same tree with the include directory given as `/repo/include`. -/
def absoluteMutual : SourceTree :=
  { relativeMutual with includeDir := ⟨.slash, ["repo", "include"], by decide⟩ }

/-- With the include directory given as `include`, `./b.h` resolves to nothing although
`include/b.h` is there, while the bare `a.h` of `b.h` resolves: the include graph is `b.h → a.h`
alone, and `main()` exits with 0 on two headers that include each other. Given as
`/repo/include`, the same tree exits with 1. -/
theorem main_relative_includeDir :
    resolveInclude relativeMutual "./b.h" (relativeMutual.includeDir.joinPath aHeader)
        relativeMutual.includeDir = none ∧
      resolveInclude relativeMutual "a.h" (relativeMutual.includeDir.joinPath bHeader)
        relativeMutual.includeDir = some "a.h" ∧
      (buildDependencyGraph relativeMutual).entries = [("b.h", ["a.h"])] ∧
      main relativeMutual = 0 ∧ main absoluteMutual = 1 := by
  decide

end DependencyAnalysis.CircularDeps
