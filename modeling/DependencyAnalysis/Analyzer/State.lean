import DependencyAnalysis.Graph.Basic

/-!
# The state of a `DependencyAnalyzer`

`tools/dependency_analyzer.py` analyses a fixed list of systems. `analyze_all_systems` fills
three maps from a system to a set of systems: `cmake_deps` from `CMakeLists.txt`,
`include_deps` from `#include` lines, and `all_deps`, their union. Every other method reads
only these and `systems`, so the model takes them as given. Each set is kept as the list its
iteration yields; the order Python's string hashing picks is therefore part of the state.
-/

namespace DependencyAnalysis.Analyzer

/-- A `DependencyAnalyzer` after `analyze_all_systems`. -/
structure DependencyAnalyzer where
  systems : List String
  cmakeDeps : Graph String
  includeDeps : Graph String
  allDeps : Graph String

/-- The systems `__init__` lists, in its order. -/
def defaultSystems : List String :=
  ["common_system", "thread_system", "logger_system", "monitoring_system", "container_system",
    "database_system", "network_system"]

/-- The shape `analyze_all_systems` gives `all_deps`: distinct systems, a key only for a system,
and each system depending only on other systems, each listed once (a set's iteration). -/
structure DependencyAnalyzer.WellFormed (a : DependencyAnalyzer) : Prop where
  systems_nodup : a.systems.Nodup
  source_mem : ∀ s d, a.allDeps.Edge s d → s ∈ a.systems
  target_mem : ∀ s d, a.allDeps.Edge s d → d ∈ a.systems
  target_ne : ∀ s d, a.allDeps.Edge s d → d ≠ s
  deps_nodup : ∀ s, (a.allDeps.get s).Nodup

/-- `b` is the state `a` as another process holds it: the same systems and the same three maps,
with every set iterated in another order (`str` hashing is seeded per process). -/
structure DependencyAnalyzer.Reordered (a b : DependencyAnalyzer) : Prop where
  systems_eq : a.systems = b.systems
  cmakeDeps_sameSets : a.cmakeDeps.SameSets b.cmakeDeps
  includeDeps_sameSets : a.includeDeps.SameSets b.includeDeps
  allDeps_sameSets : a.allDeps.SameSets b.allDeps

instance (a b : DependencyAnalyzer) : Decidable (a.Reordered b) :=
  decidable_of_iff (a.systems = b.systems ∧ a.cmakeDeps.SameSets b.cmakeDeps ∧
      a.includeDeps.SameSets b.includeDeps ∧ a.allDeps.SameSets b.allDeps)
    ⟨fun ⟨h₁, h₂, h₃, h₄⟩ => ⟨h₁, h₂, h₃, h₄⟩, fun ⟨h₁, h₂, h₃, h₄⟩ => ⟨h₁, h₂, h₃, h₄⟩⟩

/-- An analyzer over the seven systems of `__init__` whose `all_deps`, all from `CMakeLists.txt`,
is `deps`. -/
def DependencyAnalyzer.ofDeps (deps : Graph String) : DependencyAnalyzer :=
  ⟨defaultSystems, deps, ⟨defaultSystems.map fun s => (s, []), by decide⟩, deps⟩

end DependencyAnalysis.Analyzer
