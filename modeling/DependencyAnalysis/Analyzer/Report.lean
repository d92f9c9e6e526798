import DependencyAnalysis.Analyzer.Levels
import DependencyAnalysis.Analyzer.DetectCycles
import DependencyAnalysis.Analyzer.Format
import DependencyAnalysis.Analyzer.Analyze

/-!
# `generate_report`: the text of `DEPENDENCY_GRAPH.md`

`DependencyAnalyzer.generate_report` builds a list of lines and joins them with `\n`. The
model below builds the same lines, section by section, from the same data: `detect_cycles()`,
`calculate_levels()`, the three dependency maps and the fixed `expected_layers`. It fails
(`none`) where the method raises: `ZeroDivisionError` for an empty `systems`, the `KeyError` of
`calculate_levels`, and `ValueError` of `max` on an empty `levels`.

Two parts of the text follow the order in which the sets `all_deps[s]` are iterated: the cycles
`detect_cycles` finds first, and the order of the layer violations, collected by
`for dep in self.all_deps[system]` without sorting. `generateReport_set_order` shows two
iteration orders of one state that give different reports; everything else in the text is the
same for every order, so two runs on one tree that agree on those two write the same report
(`Analyzed.generateReport_congr`). The DOT file is the same for every order
(`Analyzed.runs_agree`).
-/

namespace DependencyAnalysis.Analyzer

/-! ## Pieces of text -/

/-- The warning sign of the report: U+26A0 followed by the emoji selector U+FE0F. -/
def warningSign : String := "⚠️"

/-- `', '.join(sorted(deps))`. -/
def joinSorted (deps : List String) : String := ", ".intercalate (pySorted deps)

/-- `' → '.join(cycle)`. -/
def joinCycle (cycle : List String) : String := " → ".intercalate cycle

/-- `expected_layers`. -/
def expectedLayers : List (String × Nat) :=
  [("common_system", 0), ("thread_system", 1), ("logger_system", 1), ("monitoring_system", 2),
    ("container_system", 1), ("database_system", 2), ("network_system", 2)]

/-- The fill colour of a system at `level` in the DOT graph. -/
def levelColor (level : Int) : String :=
  if level = -1 then "lightcoral"
  else if level = 0 then "lightgreen"
  else if level = 1 then "lightyellow"
  else "lightblue"

/-! ## The sections -/

variable (a : DependencyAnalyzer)

/-- The title and the executive summary, up to the count of cycles. -/
def DependencyAnalyzer.summaryLines (cycles : List (List String)) : List String :=
  let systemCount := a.systems.length
  let totalDeps := a.allDeps.totalDeps
  let average := formatRatio totalDeps systemCount
  let cycleCount := cycles.length
  ["# Dependency Analysis Report", "", "**Date**: 2025-10-10",
    "**Phase**: Phase 4 - Dependency Refactoring", "**Analyzer**: dependency_analyzer.py", "",
    "---", "", "## Executive Summary", "",
    s!"- **Total Systems**: {systemCount}", s!"- **Total Dependencies**: {totalDeps}",
    s!"- **Average Dependencies per System**: {average}", "",
    s!"- **Circular Dependencies Found**: {cycleCount}", ""]

/-- The list of cycles, numbered from 1, or the all-clear. -/
def cycleLines (cycles : List (List String)) : List String :=
  if cycles ≠ [] then
    ["### " ++ warningSign ++ " Circular Dependencies Detected", ""] ++
      ((cycles.enumFrom 1).map fun (i, cycle) =>
        let cycleStr := joinCycle cycle
        s!"{i}. {cycleStr}") ++ [""]
  else ["### ✅ No Circular Dependencies", ""]

/-- A system at a level, with its sorted dependencies. -/
def DependencyAnalyzer.levelEntry (system : String) : String :=
  let deps := joinSorted (a.allDeps.get system)
  s!"- {system} → [{deps}]"

/-- The systems `levels` puts at `level`, in its order. -/
def atLevel (levels : List (String × Int)) (level : Int) : List String :=
  levels.filterMap fun (s, l) => if l = level then some s else none

/-- The dependency levels: level 0, each level from 1 to the highest, and the cyclic systems. -/
def DependencyAnalyzer.levelLines (levels : List (String × Int)) (maxLevel : Int) :
    List String :=
  let level0 := atLevel levels 0
  let cyclic := atLevel levels (-1)
  ["---", "", "## Dependency Levels", "", "**Level 0** (Foundation - No Dependencies):"] ++
    (if level0 ≠ [] then (pySorted level0).map fun system => s!"- {system}"
      else ["- None (All systems have dependencies)"]) ++ [""] ++
    ((List.range maxLevel.toNat).flatMap fun k =>
      let level := k + 1
      let systems := atLevel levels level
      if systems ≠ [] then
        [s!"**Level {level}**:"] ++ (pySorted systems).map a.levelEntry ++ [""]
      else []) ++
    (if cyclic ≠ [] then
      ["**Cyclic** (Part of circular dependency):"] ++ (pySorted cyclic).map a.levelEntry ++ [""]
    else [])

/-- The breakdown of one system: its CMake and include dependencies and where they disagree. -/
def DependencyAnalyzer.systemBreakdown (system : String) : List String :=
  let cmakeDeps := a.cmakeDeps.get system
  let includeDeps := a.includeDeps.get system
  let allDeps := a.allDeps.get system
  let cmakeStr := if cmakeDeps ≠ [] then joinSorted cmakeDeps else "None"
  let includeStr := if includeDeps ≠ [] then joinSorted includeDeps else "None"
  let total := allDeps.length
  let cmakeOnly := cmakeDeps.filter (· ∉ includeDeps)
  let includeOnly := includeDeps.filter (· ∉ cmakeDeps)
  let cmakeOnlyStr := joinSorted cmakeOnly
  let includeOnlyStr := joinSorted includeOnly
  [s!"### {system}", ""] ++
    (if allDeps = [] then ["**Status**: Foundation system (no dependencies)"]
    else
      [s!"**CMake Dependencies**: {cmakeStr}", s!"**Include Dependencies**: {includeStr}",
        s!"**Total Dependencies**: {total}"] ++
      (if cmakeOnly ≠ [] then
        ["**" ++ warningSign ++ " CMake-only** (not in includes): " ++ cmakeOnlyStr] else []) ++
      (if includeOnly ≠ [] then
        ["**" ++ warningSign ++ " Include-only** (not in CMake): " ++ includeOnlyStr] else [])) ++
    [""]

/-- The detailed breakdown, one system after another in sorted order. -/
def DependencyAnalyzer.breakdownLines : List String :=
  ["---", "", "## Detailed Dependency Breakdown", ""] ++
    (pySorted a.systems).flatMap a.systemBreakdown

/-- The advice for the `i`-th cycle: an interface named after its first system. -/
def cycleAdvice (i : Nat) (cycle : List String) : List String :=
  let cycleStr := joinCycle cycle
  let name := pyCapitalize (pyRemove (cycle.headD "") "_system")
  [s!"#### Cycle {i}: {cycleStr}", "", "**Recommended Approach**:", "",
    "1. Create interface in `common_system`:", "```cpp", "namespace common::interfaces \x7b",
    "    class I" ++ name ++ " \x7b", "        virtual ~I() = default;",
    "        // Abstract interface methods", "    \x7d;", "\x7d", "```", "",
    "2. Inject dependency instead of direct linking",
    "3. Update CMakeLists.txt to remove circular link", ""]

/-- Priority 1 of the recommendations: one piece of advice per cycle. -/
def recommendationLines (cycles : List (List String)) : List String :=
  ["---", "", "## Refactoring Recommendations", ""] ++
    if cycles ≠ [] then
      ["### Priority 1: Break Circular Dependencies", "",
        "**Strategy**: Dependency Injection via Interfaces", ""] ++
        (cycles.enumFrom 1).flatMap fun (i, cycle) => cycleAdvice i cycle
    else []

/-- `violations`: for each system of `expected_layers`, in its order, the dependencies other
than `common_system` whose expected layer is not below the system's, in the order the set
`all_deps[system]` is iterated. -/
def DependencyAnalyzer.violations : List (String × String × Nat × Nat) :=
  expectedLayers.flatMap fun (system, expectedLevel) =>
    (a.allDeps.get system).filterMap fun dep =>
      let depLevel := (expectedLayers.lookup dep).getD 0
      if depLevel ≥ expectedLevel ∧ dep ≠ "common_system" then
        some (system, dep, expectedLevel, depLevel)
      else none

/-- Priority 2 of the recommendations: the layer violations. -/
def DependencyAnalyzer.violationLines : List String :=
  ["### Priority 2: Check Layer Violations", ""] ++
    if a.violations ≠ [] then
      ["**" ++ warningSign ++ " Potential Layer Violations Detected:**", ""] ++
        (a.violations.map fun (system, dep, sysLevel, depLevel) =>
          s!"- {system} (L{sysLevel}) → {dep} (L{depLevel})") ++ [""]
    else ["**✅ No obvious layer violations detected**", ""]

/-- The node lines of the DOT graph: one per entry of `levels`, in its order, coloured by level. -/
def nodeLines (levels : List (String × Int)) : List String :=
  levels.map fun (system, level) =>
    let color := levelColor level
    s!"    \"{system}\" [fillcolor={color}];"

/-- The edges of the DOT graph, in the order of the loops
`for system in sorted(self.systems): for dep in sorted(self.all_deps[system])`. -/
def DependencyAnalyzer.edgePairs : List (String × String) :=
  (pySorted a.systems).flatMap fun system => (pySorted (a.allDeps.get system)).map (system, ·)

/-- The edge lines of the DOT graph. -/
def DependencyAnalyzer.edgeLines : List String :=
  a.edgePairs.map fun (system, dep) => s!"    \"{system}\" -> \"{dep}\";"

/-- The DOT graph of the report. -/
def DependencyAnalyzer.dotLines (levels : List (String × Int)) : List String :=
  ["---", "", "## Dependency Graph (Graphviz DOT)", "", "```dot", "digraph DependencyGraph \x7b",
    "    rankdir=BT;  // Bottom to Top", "    node [shape=box, style=filled];", ""] ++
    nodeLines levels ++ [""] ++ a.edgeLines ++ ["\x7d", "```", ""]

/-- The legend and the closing lines. -/
def closingLines : List String :=
  ["**Legend**:", "- Green: Foundation (no dependencies)",
    "- Yellow: Level 1 (depends only on foundation)", "- Blue: Level 2+ (higher-level systems)",
    "- Red: Part of circular dependency", "", "---", "", "**Analysis Complete**: 2025-10-10",
    "**Next Steps**: Review cycles and plan refactoring", ""]

/-- The list `report` that `generate_report()` builds, section by section; `none` where the
method raises. -/
def DependencyAnalyzer.reportLines : Option (List String) :=
  if a.systems = [] then none
  else
    a.detectCycles.bind fun cycles =>
      a.calculateLevels.bind fun levels =>
        ((levels.map Prod.snd).max?).map fun maxLevel =>
          a.summaryLines cycles ++ cycleLines cycles ++ a.levelLines levels maxLevel ++
            a.breakdownLines ++ recommendationLines cycles ++ a.violationLines ++
            a.dotLines levels ++ closingLines

/-- `generate_report()`: `'\n'.join(report)`. -/
def DependencyAnalyzer.generateReport : Option String := a.reportLines.map ("\n".intercalate ·)

/-- The text `generate_graphviz_file` writes: the DOT graph of the report, with `"    "` for its
blank lines; `none` is the `KeyError` of `calculate_levels()`. -/
def DependencyAnalyzer.generateGraphvizFile : Option String :=
  a.calculateLevels.map fun levels =>
    "\n".intercalate (["digraph DependencyGraph \x7b", "    rankdir=BT;  // Bottom to Top",
      "    node [shape=box, style=filled];", "    "] ++ nodeLines levels ++ ["    "] ++
      a.edgeLines ++ ["\x7d"])

/-! ## What the order of the sets can change

Every section but two reads the sets through `sorted`, `len`, emptiness or membership, and
`calculate_levels` reads them through counts and membership (`calculateLevels_congr`). So two
iteration orders of one state give the same report as soon as they give the same cycles and the
same list of violations (`Reordered.generateReport_eq`); the violations are always the same up to
order (`Reordered.violations_perm`). The DOT file `generate_graphviz_file` writes is the same for
every order (`Reordered.generateGraphvizFile_eq`).
-/

variable {a} {b : DependencyAnalyzer}

theorem perm_filter_not_mem {xs xs' ys ys' : List String} (hx : xs.Perm xs') (hy : ys.Perm ys') :
    (xs.filter fun x => x ∉ ys).Perm (xs'.filter fun x => x ∉ ys') := by
  have hp : (fun x => decide (x ∉ ys)) = fun x => decide (x ∉ ys') :=
    funext fun x => by simp only [hy.mem_iff]
  rw [hp]
  exact hx.filter _

theorem eq_nil_iff_of_perm {xs ys : List String} (h : xs.Perm ys) : xs = [] ↔ ys = [] := by
  rw [← List.length_eq_zero, ← List.length_eq_zero, h.length_eq]

theorem DependencyAnalyzer.Reordered.sorted_eq (h : a.Reordered b) (s : String) :
    pySorted (a.allDeps.get s) = pySorted (b.allDeps.get s) :=
  pySorted_eq_of_perm (h.allDeps_sameSets.get_perm s)

theorem DependencyAnalyzer.Reordered.summaryLines_eq (h : a.Reordered b) (cycles : List (List String)) :
    a.summaryLines cycles = b.summaryLines cycles := by
  simp only [DependencyAnalyzer.summaryLines, h.systems_eq, h.allDeps_sameSets.totalDeps_eq]

theorem DependencyAnalyzer.Reordered.levelEntry_eq (h : a.Reordered b) :
    a.levelEntry = b.levelEntry :=
  funext fun system => by simp only [DependencyAnalyzer.levelEntry, joinSorted, h.sorted_eq]

theorem DependencyAnalyzer.Reordered.levelLines_eq (h : a.Reordered b) (levels : List (String × Int))
    (maxLevel : Int) : a.levelLines levels maxLevel = b.levelLines levels maxLevel := by
  simp only [DependencyAnalyzer.levelLines, h.levelEntry_eq]

/-- A system's breakdown reads its three sets through `sorted`, `len`, emptiness and the set
differences, which do not depend on the order. -/
theorem DependencyAnalyzer.Reordered.systemBreakdown_eq (h : a.Reordered b) (system : String) :
    a.systemBreakdown system = b.systemBreakdown system := by
  have hc := h.cmakeDeps_sameSets.get_perm system
  have hi := h.includeDeps_sameSets.get_perm system
  have hall := h.allDeps_sameSets.get_perm system
  have hco := perm_filter_not_mem hc hi
  have hio := perm_filter_not_mem hi hc
  simp only [DependencyAnalyzer.systemBreakdown, joinSorted, pySorted_eq_of_perm hc,
    pySorted_eq_of_perm hi, pySorted_eq_of_perm hco, pySorted_eq_of_perm hio, hall.length_eq,
    ne_eq, eq_nil_iff_of_perm hc, eq_nil_iff_of_perm hi, eq_nil_iff_of_perm hco,
    eq_nil_iff_of_perm hio, eq_nil_iff_of_perm hall]

theorem DependencyAnalyzer.Reordered.edgeLines_eq (h : a.Reordered b) : a.edgeLines = b.edgeLines := by
  simp only [DependencyAnalyzer.edgeLines, DependencyAnalyzer.edgePairs, h.systems_eq, h.sorted_eq]

theorem DependencyAnalyzer.Reordered.dotLines_eq (h : a.Reordered b) (levels : List (String × Int)) :
    a.dotLines levels = b.dotLines levels := by
  rw [DependencyAnalyzer.dotLines, h.edgeLines_eq, DependencyAnalyzer.dotLines]

/-- The DOT file sorts the sets and reads `calculate_levels()`: every order writes the same file. -/
theorem DependencyAnalyzer.Reordered.generateGraphvizFile_eq (h : a.Reordered b) :
    a.generateGraphvizFile = b.generateGraphvizFile := by
  rw [DependencyAnalyzer.generateGraphvizFile, h.edgeLines_eq,
    calculateLevels_congr a h.systems_eq h.allDeps_sameSets.get_perm,
    DependencyAnalyzer.generateGraphvizFile]

/-- The violations of two iteration orders are the same, each as often, in another order. -/
theorem DependencyAnalyzer.Reordered.violations_perm (h : a.Reordered b) :
    a.violations.Perm b.violations :=
  List.Perm.flatMap_left _ fun _ _ => (h.allDeps_sameSets.get_perm _).filterMap _

/-- Two iteration orders of one state that find the same cycles and list the violations in the
same order write the same lines. -/
theorem DependencyAnalyzer.Reordered.reportLines_eq (h : a.Reordered b)
    (hc : a.detectCycles = b.detectCycles) (hv : a.violations = b.violations) :
    a.reportLines = b.reportLines := by
  have hlevels := calculateLevels_congr a h.systems_eq h.allDeps_sameSets.get_perm
  have hbreak : a.breakdownLines = b.breakdownLines := by
    simp only [DependencyAnalyzer.breakdownLines, h.systems_eq, funext h.systemBreakdown_eq]
  simp only [DependencyAnalyzer.reportLines, h.systems_eq, hc, hlevels, h.summaryLines_eq,
    h.levelLines_eq, hbreak, DependencyAnalyzer.violationLines, hv, h.dotLines_eq]

theorem DependencyAnalyzer.Reordered.generateReport_eq (h : a.Reordered b)
    (hc : a.detectCycles = b.detectCycles) (hv : a.violations = b.violations) :
    a.generateReport = b.generateReport := by
  rw [DependencyAnalyzer.generateReport, h.reportLines_eq hc hv, DependencyAnalyzer.generateReport]

/-- Two runs on an unchanged tree write the same report when their searches record the same
cycles and list the violations in the same order. -/
theorem DependencyAnalyzer.Analyzed.generateReport_congr {tree : SystemTree}
    (ha : a.Analyzed tree) (hb : b.Analyzed tree) (hc : a.detectCycles = b.detectCycles)
    (hv : a.violations = b.violations) : a.generateReport = b.generateReport :=
  (ha.reordered hb).generateReport_eq hc hv

/-- `logger_system` finds the packages `thread_system` and `common_system` in its
`CMakeLists.txt`, its set yielding them in the order `order`. -/
def loggerLinks (order : List String) : DependencyAnalyzer :=
  .ofDeps ⟨[("common_system", []), ("thread_system", []), ("logger_system", order),
    ("monitoring_system", []), ("container_system", []), ("database_system", []),
    ("network_system", [])],
    (by decide : ["common_system", "thread_system", "logger_system", "monitoring_system",
      "container_system", "database_system", "network_system"].Nodup)⟩

/-- The tree `loggerLinks` is an analysis of. -/
def linkTree : SystemTree where
  cmakeLists s := if s = "logger_system" then
    some "find_package(thread_system)\nfind_package(common_system)\n" else none
  sources _ := []

theorem generateReport_congr_loggerLinks :
    (loggerLinks ["thread_system", "common_system"]).Analyzed linkTree ∧
      (loggerLinks ["common_system", "thread_system"]).Analyzed linkTree ∧
      (loggerLinks ["thread_system", "common_system"]).detectCycles =
        (loggerLinks ["common_system", "thread_system"]).detectCycles ∧
      (loggerLinks ["thread_system", "common_system"]).violations =
        (loggerLinks ["common_system", "thread_system"]).violations ∧
      (loggerLinks ["thread_system", "common_system"]).generateReport =
        (loggerLinks ["common_system", "thread_system"]).generateReport :=
  have ha : (loggerLinks ["thread_system", "common_system"]).Analyzed linkTree := by decide
  have hb := ha.of_reordered (by decide :
    (loggerLinks ["thread_system", "common_system"]).Reordered
      (loggerLinks ["common_system", "thread_system"]))
  have hc : (loggerLinks ["thread_system", "common_system"]).detectCycles =
      (loggerLinks ["common_system", "thread_system"]).detectCycles := by decide
  have hv : (loggerLinks ["thread_system", "common_system"]).violations =
      (loggerLinks ["common_system", "thread_system"]).violations := by decide
  ⟨ha, hb, hc, hv, DependencyAnalyzer.Analyzed.generateReport_congr ha hb hc hv⟩

/-! ## Two orders, two reports -/

variable {tree : SystemTree}

/-- Two reports differ when their lines do, at a first pair of lines neither of which starts
the other. -/
theorem DependencyAnalyzer.generateReport_ne
    (h : (a.reportLines.bind fun xs => b.reportLines.map (linesDiffer xs)) = some true) :
    a.generateReport ≠ b.generateReport := by
  unfold DependencyAnalyzer.generateReport
  cases ha : a.reportLines with
  | none => simp [ha] at h
  | some xs =>
    cases hb : b.reportLines with
    | none => simp [ha, hb] at h
    | some ys =>
      simp only [ha, hb, Option.some_bind, Option.map_some', Option.some.injEq] at h
      simp only [Option.map_some', ne_eq, Option.some.injEq]
      exact intercalate_ne_of_linesDiffer h

/-- `common_system` depends on `thread_system` and `logger_system`, its set yielding them in the
order `order`, and both depend on `common_system`, all from `CMakeLists.txt`. -/
def mutualWithCommon (order : List String) : DependencyAnalyzer :=
  .ofDeps ⟨[("common_system", order), ("thread_system", ["common_system"]),
    ("logger_system", ["common_system"]), ("monitoring_system", []), ("container_system", []),
    ("database_system", []), ("network_system", [])],
    (by decide : ["common_system", "thread_system", "logger_system", "monitoring_system",
      "container_system", "database_system", "network_system"].Nodup)⟩

/-- A tree whose `CMakeLists.txt` files link `common_system` to `thread_system` and
`logger_system` and both back; no sources. -/
def mutualTree : SystemTree where
  cmakeLists s :=
    if s = "common_system" then some "find_package(thread_system)\nfind_package(logger_system)\n"
    else if s = "thread_system" ∨ s = "logger_system" then some "find_package(common_system)\n"
    else none
  sources _ := []

/-- Two runs on `mutualTree` whose processes iterate the set of `common_system` in the two
orders write two reports: the search follows the first neighbour, so each order records its own
cycles, and the violations are listed in the order of the set. -/
theorem generateReport_set_order :
    (mutualWithCommon ["thread_system", "logger_system"]).Analyzed mutualTree ∧
      (mutualWithCommon ["logger_system", "thread_system"]).Analyzed mutualTree ∧
      (mutualWithCommon ["thread_system", "logger_system"]).detectCycles =
        some [["common_system", "thread_system", "common_system"],
          ["common_system", "thread_system", "logger_system", "common_system"]] ∧
      (mutualWithCommon ["logger_system", "thread_system"]).detectCycles =
        some [["common_system", "logger_system", "common_system"],
          ["common_system", "logger_system", "thread_system", "common_system"]] ∧
      (mutualWithCommon ["thread_system", "logger_system"]).violations =
        [("common_system", "thread_system", 0, 1), ("common_system", "logger_system", 0, 1)] ∧
      (mutualWithCommon ["logger_system", "thread_system"]).violations =
        [("common_system", "logger_system", 0, 1), ("common_system", "thread_system", 0, 1)] ∧
      (mutualWithCommon ["thread_system", "logger_system"]).generateReport ≠
        (mutualWithCommon ["logger_system", "thread_system"]).generateReport :=
  have ha : (mutualWithCommon ["thread_system", "logger_system"]).Analyzed mutualTree := by decide
  ⟨ha, ha.of_reordered (by decide), by decide, by decide, by decide, by decide,
    DependencyAnalyzer.generateReport_ne (by set_option maxRecDepth 1000 in decide)⟩

/-! ## What two runs agree on -/

/-- Two runs of `dependency_analyzer.py` on an unchanged tree, whatever order each process
iterates the sets in, write the same DOT file, compute the same levels, and flag the same
violations, possibly in another order. -/
theorem DependencyAnalyzer.Analyzed.runs_agree (ha : a.Analyzed tree) (hb : b.Analyzed tree) :
    a.generateGraphvizFile = b.generateGraphvizFile ∧ a.calculateLevels = b.calculateLevels ∧
      a.violations.Perm b.violations :=
  have h := ha.reordered hb
  ⟨h.generateGraphvizFile_eq, calculateLevels_congr a h.systems_eq h.allDeps_sameSets.get_perm,
    h.violations_perm⟩

theorem runs_agree_mutualTree :
    (mutualWithCommon ["thread_system", "logger_system"]).Analyzed mutualTree ∧
      (mutualWithCommon ["logger_system", "thread_system"]).Analyzed mutualTree ∧
      (mutualWithCommon ["thread_system", "logger_system"]).generateGraphvizFile =
        (mutualWithCommon ["logger_system", "thread_system"]).generateGraphvizFile ∧
      (mutualWithCommon ["thread_system", "logger_system"]).calculateLevels =
        (mutualWithCommon ["logger_system", "thread_system"]).calculateLevels ∧
      (mutualWithCommon ["thread_system", "logger_system"]).violations.Perm
        (mutualWithCommon ["logger_system", "thread_system"]).violations :=
  have ha : (mutualWithCommon ["thread_system", "logger_system"]).Analyzed mutualTree := by decide
  have hb := ha.of_reordered (by decide :
    (mutualWithCommon ["thread_system", "logger_system"]).Reordered
      (mutualWithCommon ["logger_system", "thread_system"]))
  ⟨ha, hb, DependencyAnalyzer.Analyzed.runs_agree ha hb⟩

end DependencyAnalysis.Analyzer
