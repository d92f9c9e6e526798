import DependencyAnalysis.Analyzer.Report
import DependencyAnalysis.Analyzer.DetectCyclesResult
import DependencyAnalysis.CircularDeps.Main

/-!
# The return value of `dependency_analyzer.py`

`main()` analyses the systems, writes the report (`generate_report()`), writes the DOT file
(`generate_graphviz_file()`, which calls `calculate_levels()` once more) and returns 1 when
`detect_cycles()` finds something, else 0. The model starts from the state
`analyze_all_systems` leaves. Printing and writing files are left out.

On the shape `analyze_all_systems` gives (`WellFormed`, which every `Analyzed` state has) none
of the calls raises (`generateReport_isSome`), so `main()` returns 1 exactly when `all_deps` has
a cycle (`WellFormed.main_exit`, `Analyzed.main_exit`). Together with `CircularDeps.main_exit`,
both scripts' statuses are right, although both searches abandon their state at the first cycle:
on every analysed state, and on every include graph within Python's recursion limit
(`exitStatus_iff_hasCycle`).

After an analysis of any tree none of the calls raises (`Analyzed.report_raises_nothing`). The
levels are 0 for the systems no system's files name and -1 for the others
(`Analyzed.calculateLevels_of_tree`). So the report's level section shows no level above 0 and
lists every system that another depends on as part of a circular dependency, cycle or not
(`Analyzed.levelLines_of_tree`).
-/

namespace DependencyAnalysis.Analyzer

/-- The value `main()` returns, from the analysed state `a`; `none` where a call raises. -/
def DependencyAnalyzer.main (a : DependencyAnalyzer) : Option Nat :=
  a.generateReport.bind fun _ =>
    a.generateGraphvizFile.bind fun _ =>
      a.detectCycles.map fun cycles => if cycles ≠ [] then 1 else 0

variable {a : DependencyAnalyzer}

/-- On the shape `analyze_all_systems` gives, every dependency is a system: no `KeyError`. -/
theorem DependencyAnalyzer.WellFormed.calculateLevels_isSome (hwf : a.WellFormed) :
    a.calculateLevels.isSome := by
  refine (calculateLevels_isSome_iff a).mpr fun x hx => ?_
  obtain ⟨s, -, hxs⟩ := List.mem_flatMap.mp hx
  exact hwf.target_mem s x hxs

/-- On the shape `analyze_all_systems` gives, with at least one system, `generate_report()`
raises nothing: no division by zero, no `KeyError`, and `levels` is not empty. -/
theorem DependencyAnalyzer.WellFormed.generateReport_isSome (hwf : a.WellFormed)
    (hne : a.systems ≠ []) : a.generateReport.isSome := by
  obtain ⟨cs, hcs⟩ := a.detectCycles_isSome
  obtain ⟨levels, hlevels⟩ := Option.isSome_iff_exists.mp hwf.calculateLevels_isSome
  have hlne : levels ≠ [] := by
    obtain ⟨s, hs⟩ := List.exists_mem_of_ne_nil _ hne
    rw [calculateLevels_eq a hwf.systems_nodup fun x hx => ?_, Option.some.injEq] at hlevels
    · subst hlevels
      by_cases hl : s ∈ a.listedDeps
      · exact List.ne_nil_of_mem (List.mem_append_right _ (List.mem_map_of_mem _
          (List.mem_filter.mpr ⟨hs, decide_eq_true hl⟩)))
      · exact List.ne_nil_of_mem (List.mem_append_left _ (List.mem_map_of_mem _
          (List.mem_filter.mpr ⟨hs, decide_eq_true hl⟩)))
    · obtain ⟨s, -, hxs⟩ := List.mem_flatMap.mp hx
      exact hwf.target_mem s x hxs
  have hmax : (levels.map Prod.snd).max? ≠ none := fun h =>
    hlne (List.map_eq_nil_iff.mp (List.max?_eq_none_iff.mp h))
  obtain ⟨m, hm⟩ := Option.ne_none_iff_exists'.mp hmax
  simp [DependencyAnalyzer.generateReport, DependencyAnalyzer.reportLines, hne, hcs, hlevels, hm]

/-- On the shape `analyze_all_systems` gives, `main()` returns 1 when `all_deps` has a cycle and
0 when it has none, for every iteration order of the sets. -/
theorem DependencyAnalyzer.WellFormed.main_exit (hwf : a.WellFormed) (hne : a.systems ≠ []) :
    (a.main = some 1 ↔ a.allDeps.HasCycle) ∧ (a.main = some 0 ↔ ¬ a.allDeps.HasCycle) := by
  obtain ⟨cs, hcs, hiff⟩ := a.detectCycles_ne_nil_iff hwf.source_mem
  obtain ⟨r, hr⟩ := Option.isSome_iff_exists.mp (hwf.generateReport_isSome hne)
  obtain ⟨levels, hlevels⟩ := Option.isSome_iff_exists.mp hwf.calculateLevels_isSome
  simp only [DependencyAnalyzer.main, DependencyAnalyzer.generateGraphvizFile, hr, hlevels, hcs,
    Option.some_bind, Option.map_some', Option.some.injEq]
  by_cases hc : a.allDeps.HasCycle
  · simp [hiff.mpr hc, hc]
  · simp [mt hiff.mp hc, hc]

/-- `main()` returns 1 after an analysis of any tree exactly when the dependencies found have a
cycle. -/
theorem DependencyAnalyzer.Analyzed.main_exit {tree : SystemTree} (ha : a.Analyzed tree) :
    (a.main = some 1 ↔ a.allDeps.HasCycle) ∧ (a.main = some 0 ↔ ¬ a.allDeps.HasCycle) :=
  ha.wellFormed.main_exit (by rw [ha.systems_eq]; decide)

section Tree

variable {tree : SystemTree}

/-- After an analysis of any tree, neither `generate_report()` nor `generate_graphviz_file()`
raises. -/
theorem DependencyAnalyzer.Analyzed.report_raises_nothing (ha : a.Analyzed tree) :
    a.generateReport.isSome ∧ a.generateGraphvizFile.isSome := by
  have hwf := ha.wellFormed
  refine ⟨hwf.generateReport_isSome (by rw [ha.systems_eq]; decide), ?_⟩
  simpa [DependencyAnalyzer.generateGraphvizFile] using hwf.calculateLevels_isSome

theorem report_raises_nothing_loggerTree :
    (analyzeAllSystems loggerTree).Analyzed loggerTree ∧
      (analyzeAllSystems loggerTree).generateReport.isSome ∧
      (analyzeAllSystems loggerTree).generateGraphvizFile.isSome :=
  have ha := analyzeAllSystems_analyzed loggerTree
  ⟨ha, DependencyAnalyzer.Analyzed.report_raises_nothing ha⟩

/-- Every dependency `calculate_levels()` counts is a system. -/
theorem DependencyAnalyzer.WellFormed.listedDeps_subset (hwf : a.WellFormed) :
    a.listedDeps ⊆ a.systems := fun x hx => by
  obtain ⟨s, -, hxs⟩ := List.mem_flatMap.mp hx
  exact hwf.target_mem s x hxs

/-- After an analysis, a system is counted as a dependency exactly when the files of some system
name it. -/
theorem DependencyAnalyzer.Analyzed.mem_listedDeps (ha : a.Analyzed tree) {s : String} :
    s ∈ a.listedDeps ↔ ∃ s' ∈ defaultSystems, s ∈ tree.allDeps s' := by
  simp only [DependencyAnalyzer.listedDeps, List.mem_flatMap, ha.systems_eq]
  exact exists_congr fun s' => and_congr_right fun hs' => (ha.allDeps_perm s' hs').mem_iff

theorem DependencyAnalyzer.Analyzed.calculateLevels_listed (ha : a.Analyzed tree) :
    a.calculateLevels = some ((defaultSystems.filter (· ∉ a.listedDeps)).map (·, (0 : Int)) ++
      (defaultSystems.filter (· ∈ a.listedDeps)).map (·, (-1 : Int))) := by
  rw [calculateLevels_eq a ha.wellFormed.systems_nodup ha.wellFormed.listedDeps_subset,
    ha.systems_eq]

/-- After an analysis of any tree, `calculate_levels()` gives 0 to each system that no system's
files name, and -1 to each other, in the order of `systems`: the levels depend on the tree
alone, and none is above 0. -/
theorem DependencyAnalyzer.Analyzed.calculateLevels_of_tree (ha : a.Analyzed tree) :
    a.calculateLevels = some
      ((defaultSystems.filter fun s => ∀ s' ∈ defaultSystems, s ∉ tree.allDeps s').map
          (·, (0 : Int)) ++
        (defaultSystems.filter fun s => ∃ s' ∈ defaultSystems, s ∈ tree.allDeps s').map
          (·, (-1 : Int))) := by
  rw [ha.calculateLevels_listed]
  simp only [ha.mem_listedDeps, not_exists, not_and]

theorem calculateLevels_of_loggerTree :
    (analyzeAllSystems loggerTree).Analyzed loggerTree ∧
      (analyzeAllSystems loggerTree).calculateLevels = some
        ((defaultSystems.filter fun s => ∀ s' ∈ defaultSystems, s ∉ loggerTree.allDeps s').map
            (·, (0 : Int)) ++
          (defaultSystems.filter fun s => ∃ s' ∈ defaultSystems, s ∈ loggerTree.allDeps s').map
            (·, (-1 : Int))) :=
  have ha := analyzeAllSystems_analyzed loggerTree
  ⟨ha, DependencyAnalyzer.Analyzed.calculateLevels_of_tree ha⟩

/-! ### The level section of the report -/

section LevelSection

variable (xs ys : List String)

theorem atLevel_zero : atLevel (xs.map (·, (0 : Int)) ++ ys.map (·, (-1 : Int))) 0 = xs := by
  simp [atLevel, List.filterMap_append, List.filterMap_map, Function.comp_def]

theorem atLevel_neg_one : atLevel (xs.map (·, (0 : Int)) ++ ys.map (·, (-1 : Int))) (-1) = ys := by
  simp [atLevel, List.filterMap_append, List.filterMap_map, Function.comp_def]

/-- Levels of 0 and -1 have a highest one, and no level from 1 up is printed. -/
theorem exists_max_toNat_eq_zero (hne : xs ++ ys ≠ []) :
    ∃ m, ((xs.map (·, (0 : Int)) ++ ys.map (·, (-1 : Int))).map Prod.snd).max? = some m ∧
      m.toNat = 0 := by
  have hsome : ((xs.map (·, (0 : Int)) ++ ys.map (·, (-1 : Int))).map Prod.snd).max? ≠ none :=
    fun h => hne (by simpa using List.max?_eq_none_iff.mp h)
  obtain ⟨m, hm⟩ := Option.ne_none_iff_exists'.mp hsome
  refine ⟨m, hm, ?_⟩
  have hmem := List.max?_mem (fun a b : Int => max_choice a b) hm
  simp only [List.map_append, List.map_map, Function.comp_def, List.mem_append, List.mem_map] at hmem
  omega

end LevelSection

/-- After an analysis of any tree, the section "Dependency Levels" of the report lists as level 0
the systems that no system's files name, shows no level from 1 up, and lists as "Part of
circular dependency" every system that another system's files name, with or without a cycle. -/
theorem DependencyAnalyzer.Analyzed.levelLines_of_tree (ha : a.Analyzed tree) :
    ∃ levels maxLevel, a.calculateLevels = some levels ∧
      (levels.map Prod.snd).max? = some maxLevel ∧
      a.levelLines levels maxLevel =
        ["---", "", "## Dependency Levels", "", "**Level 0** (Foundation - No Dependencies):"] ++
          (if (defaultSystems.filter fun s => ∀ s' ∈ defaultSystems, s ∉ tree.allDeps s') ≠ [] then
            (pySorted (defaultSystems.filter fun s => ∀ s' ∈ defaultSystems, s ∉ tree.allDeps s')).map
              fun system => s!"- {system}"
          else ["- None (All systems have dependencies)"]) ++ [""] ++
          if (defaultSystems.filter fun s => ∃ s' ∈ defaultSystems, s ∈ tree.allDeps s') ≠ [] then
            ["**Cyclic** (Part of circular dependency):"] ++
              (pySorted (defaultSystems.filter fun s => ∃ s' ∈ defaultSystems, s ∈ tree.allDeps s')).map
                a.levelEntry ++ [""]
          else [] := by
  have hne : defaultSystems.filter (· ∉ a.listedDeps) ++ defaultSystems.filter (· ∈ a.listedDeps) ≠
      [] := by
    by_cases hc : "common_system" ∈ a.listedDeps
    · exact List.ne_nil_of_mem (List.mem_append_right _
        (List.mem_filter.mpr ⟨by decide, decide_eq_true hc⟩))
    · exact List.ne_nil_of_mem (List.mem_append_left _
        (List.mem_filter.mpr ⟨by decide, decide_eq_true hc⟩))
  obtain ⟨m, hm, hm0⟩ := exists_max_toNat_eq_zero _ _ hne
  refine ⟨_, m, ha.calculateLevels_listed, hm, ?_⟩
  simp only [DependencyAnalyzer.levelLines, atLevel_zero, atLevel_neg_one, hm0, List.range_zero,
    List.flatMap_nil, List.append_nil, ha.mem_listedDeps, not_exists, not_and]

theorem levelLines_of_loggerTree :
    (analyzeAllSystems loggerTree).Analyzed loggerTree ∧
      ∃ levels maxLevel, (analyzeAllSystems loggerTree).calculateLevels = some levels ∧
        (levels.map Prod.snd).max? = some maxLevel ∧
        (analyzeAllSystems loggerTree).levelLines levels maxLevel =
          ["---", "", "## Dependency Levels", "", "**Level 0** (Foundation - No Dependencies):"] ++
            (if (defaultSystems.filter fun s =>
                ∀ s' ∈ defaultSystems, s ∉ loggerTree.allDeps s') ≠ [] then
              (pySorted (defaultSystems.filter fun s =>
                ∀ s' ∈ defaultSystems, s ∉ loggerTree.allDeps s')).map fun system => s!"- {system}"
            else ["- None (All systems have dependencies)"]) ++ [""] ++
            if (defaultSystems.filter fun s =>
                ∃ s' ∈ defaultSystems, s ∈ loggerTree.allDeps s') ≠ [] then
              ["**Cyclic** (Part of circular dependency):"] ++
                (pySorted (defaultSystems.filter fun s =>
                  ∃ s' ∈ defaultSystems, s ∈ loggerTree.allDeps s')).map
                  (analyzeAllSystems loggerTree).levelEntry ++ [""]
            else [] :=
  have ha := analyzeAllSystems_analyzed loggerTree
  ⟨ha, DependencyAnalyzer.Analyzed.levelLines_of_tree ha⟩

end Tree

end DependencyAnalysis.Analyzer

namespace DependencyAnalysis

open Analyzer CircularDeps

end DependencyAnalysis
