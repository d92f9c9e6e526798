import DependencyAnalysis.Analyzer.State
import Mathlib.Data.List.Infix

/-!
# `analyze_all_systems`: the state every report is made from

For each system `analyze_all_systems` stores three sets: `parse_cmake_dependencies(system)`,
from the `target_link_libraries(...)` statements and the `find_package(` and
`add_subdirectory(` calls of `CMakeLists.txt`; `parse_include_dependencies(system)`, from the
`#include <kcenon/<name>/...` lines of the sources; and their union. The model computes the
members of each set from a `SystemTree`. The order in which Python iterates a set is fixed by the
per-process string hash, not by the program. So the state after `analyze_all_systems` is given as
a relation, `Analyzed`: any order of each set.

* `Analyzed.wellFormed`: every analysed state has the shape the other methods rely on, so the
  hypotheses of `detectCycles_reaches_cycle` and `WellFormed.main_exit` hold for it.
* `Analyzed.reordered`, `Analyzed.of_reordered`: the analyses of one tree are one state in
  every order of its sets.
* `analyzeAllSystems_analyzed`: every tree has an analysed state.
* `Analyzed.edge_iff`, `SystemTree.mem_allDeps_iff`: a system depends on exactly the other
  systems its own files name.

`re.finditer` is `findIter` over a matcher for each pattern. Python's `\w` also matches
non-ASCII letters and digits; `isPyWord` takes only ASCII ones. A group holding a non-ASCII
character names no system, and a match of the include pattern holds no `#` after its first
character, so the sets come out the same.
-/

namespace DependencyAnalysis.Analyzer

/-! ## `re.finditer` -/

/-- `re.finditer(pattern, text)` for a pattern that matches no empty string, given by
`matchAt`: what a match at the start of the text yields and the text after it. A failed start
moves on one character, a match moves past its end. `fuel` bounds the steps; every step consumes
a character, so the length of the text, which the callers give, is enough. -/
def findIter {β : Type} (matchAt : List Char → Option (β × List Char)) :
    Nat → List Char → List β
  | 0, _ => []
  | _ + 1, [] => []
  | fuel + 1, c :: cs =>
    match matchAt (c :: cs) with
    | some (x, rest) => x :: findIter matchAt fuel rest
    | none => findIter matchAt fuel cs

/-- A character `\w` matches, ASCII only: a letter, a digit or `_`. -/
def isPyWord (c : Char) : Bool := c.isAlphanum || c == '_'

/-- A match of `target_link_libraries\s*\([^)]+\)` at the start of the text: the statement and
the text after it. `\s*` and `[^)]+` take as much as they can, and no shorter choice could be
followed by `(` or `)`. -/
def matchLink (s : List Char) : Option (String × List Char) :=
  if "target_link_libraries".data.isPrefixOf s then
    match (s.drop 21).dropWhile isPySpace with
    | '(' :: body =>
      match body.dropWhile (· != ')') with
      | ')' :: rest =>
        if body.takeWhile (· != ')') ≠ [] then some (⟨s.take (s.length - rest.length)⟩, rest)
        else none
      | _ => none
    | _ => none
  else none

/-- A match of `#include\s+[<"]kcenon/(\w+)/` at the start of the text: group 1 and the text
after the match. -/
def matchKcenon (s : List Char) : Option (String × List Char) :=
  if "#include".data.isPrefixOf s then
    match (s.drop 8).dropWhile isPySpace with
    | c :: rest =>
      if (s.drop 8).takeWhile isPySpace ≠ [] ∧ (c = '<' ∨ c = '"') ∧
          "kcenon/".data.isPrefixOf rest then
        match (rest.drop 7).dropWhile isPyWord with
        | '/' :: rest' =>
          if (rest.drop 7).takeWhile isPyWord ≠ [] then some (⟨(rest.drop 7).takeWhile isPyWord⟩, rest')
          else none
        | _ => none
      else none
    | [] => none
  else none

/-- The statements `re.finditer(link_pattern, content, re.MULTILINE | re.DOTALL)` yields; the
flags change nothing, since the pattern has no `^`, `$` or `.`. -/
def linkStatements (content : String) : List String :=
  findIter matchLink content.length content.data

/-- The groups `match.group(1)` of `re.finditer(include_pattern, content)`. -/
def includedSystems (content : String) : List String :=
  findIter matchKcenon content.length content.data

/-! ## The parsers and the analysis -/

/-- What `analyze_all_systems` reads below `base_path`, for each system: the text of
`<system>/CMakeLists.txt`, `none` when it is missing or does not read as UTF-8; and the texts of
the `*.h`, `*.hpp`, `*.cpp` and `*.cc` files below `<system>/include` and `<system>/src` that
read as UTF-8, in the order the loops visit them. -/
structure SystemTree where
  cmakeLists : String → Option String
  sources : String → List String

/-- `parse_cmake_dependencies(system)`: the systems it adds to its set, in the order of the
`add` calls, with repetitions. A missing or unreadable file adds nothing. -/
def parseCmakeDependencies (systems : List String) (system : String) :
    Option String → List String
  | none => []
  | some content =>
    ((linkStatements content).flatMap fun linkStmt =>
        systems.filter fun other => other ≠ system ∧ other.data <:+: linkStmt.data) ++
      systems.flatMap fun other =>
        if other ≠ system then
          (if ("find_package(" ++ other).data <:+: content.data then [other] else []) ++
            (if ("add_subdirectory(" ++ other).data <:+: content.data then [other] else [])
        else []

/-- `parse_include_dependencies(system)`: the systems it adds to its set, in order, with
repetitions. -/
def parseIncludeDependencies (systems : List String) (system : String) (sources : List String) :
    List String :=
  sources.flatMap fun content => (includedSystems content).flatMap fun includedSystem =>
    let fullSystemName := includedSystem ++ "_system"
    (if fullSystemName ∈ systems ∧ fullSystemName ≠ system then [fullSystemName] else []) ++
      (if includedSystem = "common" ∧ system ≠ "common_system" then ["common_system"] else [])

/-- The members of `cmake_deps[system]`, each once. -/
def SystemTree.cmakeDeps (tree : SystemTree) (system : String) : List String :=
  (parseCmakeDependencies defaultSystems system (tree.cmakeLists system)).dedup

/-- The members of `include_deps[system]`, each once. -/
def SystemTree.includeDeps (tree : SystemTree) (system : String) : List String :=
  (parseIncludeDependencies defaultSystems system (tree.sources system)).dedup

/-- The members of `all_deps[system] = cmake_deps | include_deps`, each once. -/
def SystemTree.allDeps (tree : SystemTree) (system : String) : List String :=
  (tree.cmakeDeps system ++ tree.includeDeps system).dedup

/-- `a` is a state `analyze_all_systems` can leave on `tree`: each of the three maps has the
systems as keys, in order, and holds for each the members of its set in some order. -/
structure DependencyAnalyzer.Analyzed (tree : SystemTree) (a : DependencyAnalyzer) : Prop where
  systems_eq : a.systems = defaultSystems
  cmakeDeps_keys : a.cmakeDeps.keys = defaultSystems
  includeDeps_keys : a.includeDeps.keys = defaultSystems
  allDeps_keys : a.allDeps.keys = defaultSystems
  cmakeDeps_perm : ∀ s ∈ defaultSystems, (a.cmakeDeps.get s).Perm (tree.cmakeDeps s)
  includeDeps_perm : ∀ s ∈ defaultSystems, (a.includeDeps.get s).Perm (tree.includeDeps s)
  allDeps_perm : ∀ s ∈ defaultSystems, (a.allDeps.get s).Perm (tree.allDeps s)

instance (tree : SystemTree) (a : DependencyAnalyzer) : Decidable (a.Analyzed tree) :=
  decidable_of_iff (a.systems = defaultSystems ∧ a.cmakeDeps.keys = defaultSystems ∧
      a.includeDeps.keys = defaultSystems ∧ a.allDeps.keys = defaultSystems ∧
      (∀ s ∈ defaultSystems, (a.cmakeDeps.get s).Perm (tree.cmakeDeps s)) ∧
      (∀ s ∈ defaultSystems, (a.includeDeps.get s).Perm (tree.includeDeps s)) ∧
      ∀ s ∈ defaultSystems, (a.allDeps.get s).Perm (tree.allDeps s))
    ⟨fun ⟨h₁, h₂, h₃, h₄, h₅, h₆, h₇⟩ => ⟨h₁, h₂, h₃, h₄, h₅, h₆, h₇⟩,
      fun ⟨h₁, h₂, h₃, h₄, h₅, h₆, h₇⟩ => ⟨h₁, h₂, h₃, h₄, h₅, h₆, h₇⟩⟩

theorem defaultSystems_nodup : defaultSystems.Nodup := by decide

/-- `analyze_all_systems()` with each set iterated in the order of `dedup`. -/
def analyzeAllSystems (tree : SystemTree) : DependencyAnalyzer where
  systems := defaultSystems
  cmakeDeps := .ofFun defaultSystems defaultSystems_nodup tree.cmakeDeps
  includeDeps := .ofFun defaultSystems defaultSystems_nodup tree.includeDeps
  allDeps := .ofFun defaultSystems defaultSystems_nodup tree.allDeps

/-- Every tree has an analysed state. -/
theorem analyzeAllSystems_analyzed (tree : SystemTree) : (analyzeAllSystems tree).Analyzed tree :=
  ⟨rfl, Graph.keys_ofFun _ defaultSystems_nodup _, Graph.keys_ofFun _ defaultSystems_nodup _,
    Graph.keys_ofFun _ defaultSystems_nodup _,
    fun _ hs => by rw [analyzeAllSystems, Graph.get_ofFun hs],
    fun _ hs => by rw [analyzeAllSystems, Graph.get_ofFun hs],
    fun _ hs => by rw [analyzeAllSystems, Graph.get_ofFun hs]⟩

/-! ## What the parsers add -/

/-- `parse_cmake_dependencies` adds exactly the other systems named inside a
`target_link_libraries` statement, or after `find_package(` or `add_subdirectory(`; a missing
file adds nothing. -/
theorem mem_parseCmakeDependencies_iff {systems : List String} {system x : String}
    {file : Option String} :
    x ∈ parseCmakeDependencies systems system file ↔ x ∈ systems ∧ x ≠ system ∧
      ∃ content, file = some content ∧
        ((∃ stmt ∈ linkStatements content, x.data <:+: stmt.data) ∨
          ("find_package(" ++ x).data <:+: content.data ∨
          ("add_subdirectory(" ++ x).data <:+: content.data) := by
  cases file with
  | none => simp [parseCmakeDependencies]
  | some content =>
    simp only [parseCmakeDependencies, List.mem_append, List.mem_flatMap, List.mem_filter,
      decide_eq_true_eq, List.mem_ite_nil_right, List.mem_singleton, Option.some.injEq,
      exists_eq_left']
    constructor
    · rintro (⟨stmt, hstmt, hx, hne, hin⟩ | ⟨other, hother, hne, (⟨h, rfl⟩ | ⟨h, rfl⟩)⟩)
      · exact ⟨hx, hne, .inl ⟨stmt, hstmt, hin⟩⟩
      · exact ⟨hother, hne, .inr (.inl h)⟩
      · exact ⟨hother, hne, .inr (.inr h)⟩
    · rintro ⟨hx, hne, ⟨stmt, hstmt, hin⟩ | hcall⟩
      · exact .inl ⟨stmt, hstmt, hx, hne, hin⟩
      · exact .inr ⟨x, hx, hne, hcall.imp (⟨·, rfl⟩) (⟨·, rfl⟩)⟩

/-- `parse_include_dependencies` adds exactly the other systems `<x>_system` for a group `x` of
an `#include <kcenon/x/` of a source. With `common_system` among the systems, the second `if`,
for `kcenon/common/`, adds nothing the first does not. -/
theorem mem_parseIncludeDependencies_iff {systems sources : List String} {system x : String}
    (hcommon : "common_system" ∈ systems) :
    x ∈ parseIncludeDependencies systems system sources ↔ x ∈ systems ∧ x ≠ system ∧
      ∃ content ∈ sources, ∃ included ∈ includedSystems content, x = included ++ "_system" := by
  simp only [parseIncludeDependencies, List.mem_flatMap, List.mem_append, List.mem_ite_nil_right,
    List.mem_singleton]
  constructor
  · rintro ⟨content, hc, included, hi, ⟨⟨hs, hne⟩, rfl⟩ | ⟨⟨rfl, hne⟩, rfl⟩⟩
    · exact ⟨hs, hne, content, hc, included, hi, rfl⟩
    · exact ⟨hcommon, Ne.symm hne, content, hc, "common", hi, rfl⟩
  · rintro ⟨hs, hne, content, hc, included, hi, rfl⟩
    exact ⟨content, hc, included, hi, .inl ⟨⟨hs, hne⟩, rfl⟩⟩

/-- `dep` is named as a dependency in the files of `system`, as the two parsers read them:
inside a `target_link_libraries` statement or after `find_package(` or `add_subdirectory(` in
`CMakeLists.txt`; or as `<x>_system` for a group `x` of an `#include <kcenon/x/` of a source. -/
def SystemTree.Names (tree : SystemTree) (system dep : String) : Prop :=
  (∃ content, tree.cmakeLists system = some content ∧
      ((∃ stmt ∈ linkStatements content, dep.data <:+: stmt.data) ∨
        ("find_package(" ++ dep).data <:+: content.data ∨
        ("add_subdirectory(" ++ dep).data <:+: content.data)) ∨
    ∃ content ∈ tree.sources system, ∃ included ∈ includedSystems content,
      dep = included ++ "_system"

/-- The union `cmake_deps | include_deps` holds exactly the other systems the system's files
name. -/
theorem SystemTree.mem_allDeps_iff {tree : SystemTree} {system x : String} :
    x ∈ tree.allDeps system ↔ x ∈ defaultSystems ∧ x ≠ system ∧ tree.Names system x := by
  rw [SystemTree.allDeps, List.mem_dedup, List.mem_append, SystemTree.cmakeDeps, List.mem_dedup,
    mem_parseCmakeDependencies_iff, SystemTree.includeDeps, List.mem_dedup,
    mem_parseIncludeDependencies_iff (by decide), SystemTree.Names, ← and_or_left, ← and_or_left]

/-- The union adds only other systems. -/
theorem SystemTree.mem_allDeps {tree : SystemTree} {system x : String}
    (h : x ∈ tree.allDeps system) : x ∈ defaultSystems ∧ x ≠ system :=
  have h := SystemTree.mem_allDeps_iff.mp h
  ⟨h.1, h.2.1⟩

/-! ## Analysed states -/

variable {tree : SystemTree} {a b : DependencyAnalyzer}

/-- The dependencies of an analysed state are those the tree gives its systems. -/
theorem DependencyAnalyzer.Analyzed.edge_iff (h : a.Analyzed tree) {s d : String} :
    a.allDeps.Edge s d ↔ s ∈ defaultSystems ∧ d ∈ tree.allDeps s := by
  constructor
  · intro hsd
    have hs : s ∈ defaultSystems := h.allDeps_keys ▸ Graph.mem_keys_of_mem_get hsd
    exact ⟨hs, (h.allDeps_perm s hs).subset hsd⟩
  · exact fun ⟨hs, hd⟩ => (h.allDeps_perm s hs).symm.subset hd

/-- An analysed state has the shape `detect_cycles`, `calculate_levels` and `main()` rely on. -/
theorem DependencyAnalyzer.Analyzed.wellFormed (h : a.Analyzed tree) : a.WellFormed := by
  have htgt : ∀ s d, a.allDeps.Edge s d → d ∈ defaultSystems ∧ d ≠ s := fun _ _ hsd =>
    SystemTree.mem_allDeps (h.edge_iff.mp hsd).2
  refine ⟨h.systems_eq ▸ defaultSystems_nodup, fun s d hsd => h.systems_eq ▸ (h.edge_iff.mp hsd).1,
    fun s d hsd => h.systems_eq ▸ (htgt s d hsd).1, fun s d hsd => (htgt s d hsd).2, fun s => ?_⟩
  by_cases hs : s ∈ defaultSystems
  · exact (h.allDeps_perm s hs).nodup_iff.mpr (List.nodup_dedup _)
  · rw [Graph.get_eq_nil_of_not_mem_keys (h.allDeps_keys ▸ hs)]
    exact List.nodup_nil

/-- Two analyses of one tree hold the same state up to the order of the sets. -/
theorem DependencyAnalyzer.Analyzed.reordered (ha : a.Analyzed tree) (hb : b.Analyzed tree) :
    a.Reordered b :=
  ⟨ha.systems_eq.trans hb.systems_eq.symm,
    .of_get_perm (ha.cmakeDeps_keys.trans hb.cmakeDeps_keys.symm) fun s hs =>
      (ha.cmakeDeps_perm s (ha.cmakeDeps_keys ▸ hs)).trans
        (hb.cmakeDeps_perm s (ha.cmakeDeps_keys ▸ hs)).symm,
    .of_get_perm (ha.includeDeps_keys.trans hb.includeDeps_keys.symm) fun s hs =>
      (ha.includeDeps_perm s (ha.includeDeps_keys ▸ hs)).trans
        (hb.includeDeps_perm s (ha.includeDeps_keys ▸ hs)).symm,
    .of_get_perm (ha.allDeps_keys.trans hb.allDeps_keys.symm) fun s hs =>
      (ha.allDeps_perm s (ha.allDeps_keys ▸ hs)).trans
        (hb.allDeps_perm s (ha.allDeps_keys ▸ hs)).symm⟩

/-- Any reordering of an analysed state is an analysed state of the same tree. -/
theorem DependencyAnalyzer.Analyzed.of_reordered (ha : a.Analyzed tree) (h : a.Reordered b) :
    b.Analyzed tree :=
  ⟨h.systems_eq.symm.trans ha.systems_eq,
    h.cmakeDeps_sameSets.keys_eq.symm.trans ha.cmakeDeps_keys,
    h.includeDeps_sameSets.keys_eq.symm.trans ha.includeDeps_keys,
    h.allDeps_sameSets.keys_eq.symm.trans ha.allDeps_keys,
    fun s hs => (h.cmakeDeps_sameSets.get_perm s).symm.trans (ha.cmakeDeps_perm s hs),
    fun s hs => (h.includeDeps_sameSets.get_perm s).symm.trans (ha.includeDeps_perm s hs),
    fun s hs => (h.allDeps_sameSets.get_perm s).symm.trans (ha.allDeps_perm s hs)⟩

/-- `logger_system` links `thread_system` in its `CMakeLists.txt`, and one of its sources
includes a header of `common_system`. -/
def loggerTree : SystemTree where
  cmakeLists s :=
    if s = "logger_system" then some "target_link_libraries(logger PUBLIC thread_system)\n" else none
  sources s := if s = "logger_system" then ["#include <kcenon/common/patterns/result.h>\n"] else []

end DependencyAnalysis.Analyzer
