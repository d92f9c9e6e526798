import DependencyAnalysis.Analyzer.State
import Mathlib.Logic.Function.Basic

/-!
# `calculate_levels`: the model and what it computes

`DependencyAnalyzer.calculate_levels` is written as Kahn's algorithm run in rounds. It counts,
for every system, how often it occurs in the sets `all_deps[system]` (`in_degree`), queues the
systems whose count is 0, and then pops the queue one round (`level_size` pops) at a time: a
popped system gets the round's number as its level, and every system whose set contains it has
its count decremented, joining the queue when the count reaches 0. Systems never popped get
`-1`.

The count is the number of systems that depend on a system, while the decrement is applied to
the systems a popped system is depended on by. A seed has count 0, so no set contains it and
popping it decrements nothing: the first round is always the last (`visitSystem_of_not_listed`).
Hence every system gets `0` if nothing depends on it and `-1` otherwise
(`calculateLevels_eq`), whatever the graph; in particular the loop needs two rounds of fuel at
most (`calculateLevels_isSome_iff`).
-/

namespace DependencyAnalysis.Analyzer

/-! ## The model -/

/-- `levels[system] = level` on a `dict` kept as its entries in insertion order: a present key
keeps its place, a new one is appended. -/
def setLevel (levels : List (String × Int)) (system : String) (level : Int) :
    List (String × Int) :=
  if system ∈ levels.map Prod.fst then
    levels.map fun e => if e.1 = system then (system, level) else e
  else levels ++ [(system, level)]

/-- `in_degree[dep] += 1`, or the `KeyError` (`none`) of a dependency outside `systems`, the
keys of `in_degree`. -/
def DependencyAnalyzer.countDep (a : DependencyAnalyzer) (inDegree : String → Int)
    (dep : String) : Option (String → Int) :=
  if dep ∈ a.systems then some (Function.update inDegree dep (inDegree dep + 1)) else none

/-- `in_degree` after the loops `for system in self.systems: for dep in self.all_deps[system]`,
from `{s: 0 for s in self.systems}`. -/
def DependencyAnalyzer.inDegree (a : DependencyAnalyzer) : Option (String → Int) :=
  a.systems.foldlM (fun inDegree system => (a.allDeps.get system).foldlM a.countDep inDegree)
    fun _ => 0

/-- The state of the `while queue` loop: `levels`, `in_degree`, and the systems appended to
`queue` during the current round. -/
structure LevelState where
  levels : List (String × Int)
  inDegree : String → Int
  queue : List String

/-- `in_degree[other] -= 1`, and `queue.append(other)` if the count reaches 0. -/
def LevelState.release (st : LevelState) (other : String) : LevelState :=
  ⟨st.levels, Function.update st.inDegree other (st.inDegree other - 1),
    if st.inDegree other - 1 = 0 then st.queue ++ [other] else st.queue⟩

/-- One `system = queue.popleft()`: `levels[system] = level`, then the loop
`for other in self.systems: if system in self.all_deps[other]` releasing `other`. -/
def DependencyAnalyzer.visitSystem (a : DependencyAnalyzer) (level : Int) (st : LevelState)
    (system : String) : LevelState :=
  a.systems.foldl (fun st other => if system ∈ a.allDeps.get other then st.release other else st)
    { st with levels := setLevel st.levels system level }

/-- The `while queue` loop from a queue and a level, one round per step, with at most `fuel`
rounds. A round pops the `level_size` systems queued when it starts; what it appends is the
queue of the next round. -/
def DependencyAnalyzer.levelRounds (a : DependencyAnalyzer) :
    Nat → List String → (String → Int) → List (String × Int) → Int → Option (List (String × Int))
  | 0, _, _, _, _ => none
  | _ + 1, [], _, levels, _ => some levels
  | fuel + 1, system :: rest, inDegree, levels, level =>
    let st := (system :: rest).foldl (a.visitSystem level) ⟨levels, inDegree, []⟩
    a.levelRounds fuel st.queue st.inDegree st.levels (level + 1)

/-- The final loop: `levels[system] = -1` for every system not leveled. -/
def fillUnleveled (systems : List String) (levels : List (String × Int)) : List (String × Int) :=
  systems.foldl (fun levels system =>
    if system ∈ levels.map Prod.fst then levels else setLevel levels system (-1)) levels

/-- `calculate_levels()`, as the entries of the returned `dict` in insertion order; `none` is the
`KeyError` of a dependency outside `systems`. Every round but the last pops a system, so one
round more than there are systems is enough fuel. -/
def DependencyAnalyzer.calculateLevels (a : DependencyAnalyzer) : Option (List (String × Int)) :=
  a.inDegree.bind fun inDegree =>
    (a.levelRounds (a.systems.length + 2) (a.systems.filter fun s => inDegree s = 0) inDegree [] 0)
      |>.map (fillUnleveled a.systems)

/-! ## `in_degree` counts the dependents -/

variable (a : DependencyAnalyzer)

/-- Every dependency the loops of `in_degree` meet, with repetition. -/
def DependencyAnalyzer.listedDeps : List String := a.systems.flatMap a.allDeps.get

/-- The inner loop adds the occurrences of each counted dependency, or raises `KeyError`. -/
theorem foldlM_countDep (deps : List String) (f : String → Int) :
    deps.foldlM a.countDep f =
      if deps ⊆ a.systems then some fun x => f x + deps.count x else none := by
  induction deps generalizing f with
  | nil => simp
  | cons d deps ih =>
    by_cases hd : d ∈ a.systems
    · rw [List.foldlM_cons, DependencyAnalyzer.countDep, if_pos hd]
      simp only [Option.bind_eq_bind, Option.some_bind, ih, List.cons_subset, hd, true_and]
      congr 2
      funext x
      by_cases hx : x = d
      · subst hx; simp [List.count_cons]; omega
      · simp [List.count_cons, Function.update_noteq hx, Ne.symm hx]
    · simp [DependencyAnalyzer.countDep, hd]

/-- `in_degree[x]` is the number of systems whose set contains `x`, unless some set holds a
dependency outside `systems`. -/
theorem inDegree_eq :
    a.inDegree = if a.listedDeps ⊆ a.systems then some fun x => (a.listedDeps.count x : Int)
      else none := by
  suffices h : ∀ (l : List String) (f : String → Int),
      l.foldlM (fun inDegree system => (a.allDeps.get system).foldlM a.countDep inDegree) f =
        if l.flatMap a.allDeps.get ⊆ a.systems then
          some fun x => f x + (l.flatMap a.allDeps.get).count x else none by
    simpa using h a.systems fun _ => 0
  intro l
  induction l with
  | nil => simp
  | cons s l ih =>
    intro f
    by_cases hs : a.allDeps.get s ⊆ a.systems
    · rw [List.foldlM_cons, foldlM_countDep, if_pos hs]
      simp only [Option.bind_eq_bind, Option.some_bind, ih, List.flatMap_cons, List.append_subset,
        hs, true_and, List.count_append]
      congr 2
      funext x
      omega
    · simp [foldlM_countDep, hs]

/-! ## A seed releases nothing -/

/-- Popping a system that no set contains only levels it: the release loop never fires. -/
theorem visitSystem_of_not_listed {system : String} (h : system ∉ a.listedDeps) (level : Int)
    (st : LevelState) :
    a.visitSystem level st system = { st with levels := setLevel st.levels system level } := by
  have hskip : ∀ (others : List String) (st : LevelState),
      (∀ other ∈ others, system ∉ a.allDeps.get other) →
        others.foldl (fun st other =>
          if system ∈ a.allDeps.get other then st.release other else st) st = st := by
    intro others
    induction others with
    | nil => intro _ _; rfl
    | cons other others ih =>
      intro st hnone
      rw [List.foldl_cons, if_neg (hnone other (.head _))]
      exact ih st fun o ho => hnone o (.tail _ ho)
  exact hskip a.systems _ fun other ho hs => h (List.mem_flatMap.mpr ⟨other, ho, hs⟩)

/-- A round over systems no set contains levels them in queue order and queues nothing. -/
theorem foldl_visitSystem_of_not_listed (level : Int) (inDegree : String → Int) :
    ∀ (q : List String) levels, (∀ s ∈ q, s ∉ a.listedDeps) →
      q.foldl (a.visitSystem level) ⟨levels, inDegree, []⟩ =
        ⟨q.foldl (fun levels s => setLevel levels s level) levels, inDegree, []⟩ := by
  intro q
  induction q with
  | nil => intro _ _; rfl
  | cons s q ih =>
    intro levels hq
    rw [List.foldl_cons, visitSystem_of_not_listed a (hq s (.head _))]
    exact ih _ fun t ht => hq t (.tail _ ht)

/-- From a queue of systems no set contains, the `while` loop stops after one round. -/
theorem levelRounds_of_not_listed (fuel : Nat) (q : List String) (inDegree : String → Int)
    (levels : List (String × Int)) (level : Int) (hq : ∀ s ∈ q, s ∉ a.listedDeps) :
    a.levelRounds (fuel + 2) q inDegree levels level =
      some (q.foldl (fun levels s => setLevel levels s level) levels) := by
  cases q with
  | nil => rfl
  | cons s q =>
    simp only [DependencyAnalyzer.levelRounds, foldl_visitSystem_of_not_listed a level inDegree _ _ hq]

/-- The queue `calculate_levels` starts from holds the systems no set contains. -/
theorem seeds_eq : (a.systems.filter fun s => (a.listedDeps.count s : Int) = 0) =
    a.systems.filter fun s => s ∉ a.listedDeps :=
  List.filter_congr fun s _ => by simp [Int.ofNat_eq_zero, List.count_eq_zero]

theorem not_listed_of_mem_seeds {s : String}
    (hs : s ∈ a.systems.filter fun s => s ∉ a.listedDeps) : s ∉ a.listedDeps := by
  simpa using (List.mem_filter.mp hs).2

/-- `calculate_levels()` returns a result exactly when it raises no `KeyError`: two rounds of
the `while` loop always suffice. -/
theorem calculateLevels_isSome_iff : a.calculateLevels.isSome ↔ a.listedDeps ⊆ a.systems := by
  unfold DependencyAnalyzer.calculateLevels
  rw [inDegree_eq]
  split_ifs with h
  · rw [Option.some_bind, seeds_eq,
      levelRounds_of_not_listed a _ _ _ _ _ fun _ => not_listed_of_mem_seeds a]
    simp [h]
  · simp [h]

/-! ## The levels `calculate_levels` assigns -/

/-- Setting fresh keys one by one appends them in order. -/
theorem foldl_setLevel_fresh (level : Int) :
    ∀ (q : List String) (levels : List (String × Int)), q.Nodup →
      (∀ s ∈ q, s ∉ levels.map Prod.fst) →
        q.foldl (fun levels s => setLevel levels s level) levels =
          levels ++ q.map fun s => (s, level) := by
  intro q
  induction q with
  | nil => intro levels _ _; exact (List.append_nil _).symm
  | cons s q ih =>
    intro levels hnd hfresh
    have hs : s ∉ levels.map Prod.fst := hfresh s (.head _)
    rw [List.foldl_cons, setLevel, if_neg hs, ih]
    · rw [List.map_cons, List.append_assoc, List.singleton_append]
    · exact (List.nodup_cons.mp hnd).2
    · intro t ht
      have hts : t ≠ s := by rintro rfl; exact (List.nodup_cons.mp hnd).1 ht
      simp only [List.map_append, List.map_singleton, List.mem_append, List.mem_singleton, hts,
        or_false]
      exact hfresh t (.tail _ ht)

/-- The final loop appends `-1` for the systems not yet leveled, in the order of `systems`. -/
theorem fillUnleveled_eq :
    ∀ (systems : List String) (levels : List (String × Int)), systems.Nodup →
      fillUnleveled systems levels =
        levels ++ (systems.filter fun s => s ∉ levels.map Prod.fst).map fun s => (s, -1) := by
  intro systems
  induction systems with
  | nil => intro levels _; exact (List.append_nil _).symm
  | cons s rest ih =>
    intro levels hnd
    obtain ⟨hs, hnd⟩ := List.nodup_cons.mp hnd
    unfold fillUnleveled at ih ⊢
    rw [List.foldl_cons]
    by_cases hl : s ∈ levels.map Prod.fst
    · rw [if_pos hl, ih _ hnd, List.filter_cons_of_neg (by simpa using hl)]
    · rw [if_neg hl, setLevel, if_neg hl, ih _ hnd, List.filter_cons_of_pos (by simpa using hl)]
      have hrest : (rest.filter fun t => t ∉ (levels ++ [(s, -1)]).map Prod.fst) =
          rest.filter fun t => t ∉ levels.map Prod.fst :=
        List.filter_congr fun t ht => by
          have hts : t ≠ s := by rintro rfl; exact hs ht
          simp only [List.map_append, List.map_singleton, List.mem_append, List.mem_singleton,
            hts, or_false]
      rw [hrest, List.map_cons, List.append_assoc, List.singleton_append]

/-- Over distinct systems, `calculate_levels()` gives `0` to the systems no other system
depends on and `-1` to all the others, the first group before the second and each in the order
of `systems`: no round after the first ever pops a system, whatever the graph. -/
theorem calculateLevels_eq (hnd : a.systems.Nodup) (hdeps : a.listedDeps ⊆ a.systems) :
    a.calculateLevels = some ((a.systems.filter fun s => s ∉ a.listedDeps).map (fun s => (s, 0)) ++
      (a.systems.filter fun s => s ∈ a.listedDeps).map fun s => (s, -1)) := by
  unfold DependencyAnalyzer.calculateLevels
  rw [inDegree_eq, if_pos hdeps, Option.some_bind, seeds_eq,
    levelRounds_of_not_listed a _ _ _ _ _ fun _ => not_listed_of_mem_seeds a,
    foldl_setLevel_fresh _ _ _ (hnd.filter _) (by simp), Option.map_some', fillUnleveled_eq _ _ hnd]
  simp only [List.nil_append, List.map_map, Function.comp_def, List.map_id']
  congr 3
  exact List.filter_congr fun s hs => by simp [hs]

/-- Only `thread_system → common_system`: an acyclic graph. -/
def threadOnCommon : DependencyAnalyzer :=
  .ofDeps ⟨[("thread_system", ["common_system"])], by decide⟩

/-- On `threadOnCommon`, `common_system` depends on nothing and reaches no cycle, yet gets `-1`;
`thread_system`, whose longest dependency chain has length 1, gets `0`. -/
theorem calculateLevels_thread_on_common :
    threadOnCommon.calculateLevels = some [("thread_system", 0), ("logger_system", 0),
      ("monitoring_system", 0), ("container_system", 0), ("database_system", 0),
      ("network_system", 0), ("common_system", -1)] ∧
    threadOnCommon.allDeps.get "common_system" = [] ∧ ¬ threadOnCommon.allDeps.HasCycle := by
  refine ⟨by decide, by decide, fun ⟨v, hv⟩ => ?_⟩
  have hedge : ∀ x y, threadOnCommon.allDeps.Edge x y → x = "thread_system" ∧ y = "common_system" :=
    fun x y h => by
      obtain ⟨deps, hx, hy⟩ := Graph.mem_entries_of_mem_get h
      simp only [threadOnCommon, DependencyAnalyzer.ofDeps, List.mem_singleton, Prod.mk.injEq] at hx
      obtain ⟨rfl, rfl⟩ := hx
      exact ⟨rfl, List.mem_singleton.mp hy⟩
  obtain ⟨b, hab, -⟩ := Relation.TransGen.head'_iff.mp hv
  obtain ⟨c, -, hcv⟩ := Relation.TransGen.tail'_iff.mp hv
  exact absurd ((hedge _ _ hab).1.symm.trans (hedge _ _ hcv).2) (by decide)

/-! ## The order of the sets -/

/-- `calculate_levels()` reads the sets only through counts and membership, so every iteration
order of them gives the same levels. -/
theorem calculateLevels_congr {b : DependencyAnalyzer} (hsys : a.systems = b.systems)
    (hperm : ∀ s, (a.allDeps.get s).Perm (b.allDeps.get s)) :
    a.calculateLevels = b.calculateLevels := by
  have hlisted : a.listedDeps.Perm b.listedDeps := by
    rw [DependencyAnalyzer.listedDeps, DependencyAnalyzer.listedDeps, ← hsys]
    exact List.Perm.flatMap_left _ fun s _ => hperm s
  have hsub : a.listedDeps ⊆ a.systems ↔ b.listedDeps ⊆ a.systems :=
    ⟨hlisted.symm.subset.trans, hlisted.subset.trans⟩
  have hin : a.inDegree = b.inDegree := by
    rw [inDegree_eq, inDegree_eq, ← hsys]
    simp only [hsub, hlisted.count_eq]
  have hmem : ∀ s x, x ∈ a.allDeps.get s ↔ x ∈ b.allDeps.get s := fun s _ => (hperm s).mem_iff
  have hvisit : a.visitSystem = b.visitSystem := by
    funext level st system
    simp only [DependencyAnalyzer.visitSystem, hsys, hmem]
  have hrounds : a.levelRounds = b.levelRounds := by
    funext fuel
    induction fuel with
    | zero => rfl
    | succ fuel ih =>
      funext q inDegree levels level
      cases q with
      | nil => rfl
      | cons system rest => simp only [DependencyAnalyzer.levelRounds, hvisit, ih]
  unfold DependencyAnalyzer.calculateLevels
  rw [hin, hrounds, hsys]

end DependencyAnalysis.Analyzer
