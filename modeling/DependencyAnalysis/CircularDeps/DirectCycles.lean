import DependencyAnalysis.Graph.Basic
import Mathlib.Data.Sym.Sym2

/-!
# `find_direct_cycles`: every mutual include, once

`check_circular_deps.find_direct_cycles` walks every edge `src → dst` of the include graph and
keys it by `tuple(sorted([src, dst]))`, the code's stand-in for the unordered pair `{src, dst}`.
The first edge of a pair adds the key to `checked` and reports `(src, dst)` if `src` is also in
`graph[dst]`; later edges of the pair are skipped. The invariant `DirectInv` relates `checked`
and `cycles` to the edges walked so far; at the end it says that the unordered pairs of the
result are distinct and are exactly the mutual includes (`findDirectCycles_pairs`).
-/

namespace DependencyAnalysis.CircularDeps

/-! ## The model -/

/-- `tuple(sorted([src, dst]))`. -/
def sortedPair (src dst : String) : List String := pySorted [src, dst]

/-- The state of `find_direct_cycles`: the result `cycles` and the set `checked`, kept as a
list. -/
structure DirectState where
  cycles : List (String × String)
  checked : List (List String)

/-- One pass of the loop `for dst in deps` for the edge `src → dst`. -/
def directStep (g : Graph String) (src : String) (st : DirectState) (dst : String) :
    DirectState :=
  let pair := sortedPair src dst
  if pair ∉ st.checked then
    if dst ∈ g.keys ∧ src ∈ g.get dst then ⟨st.cycles ++ [(src, dst)], st.checked ++ [pair]⟩
    else ⟨st.cycles, st.checked ++ [pair]⟩
  else st

/-- `find_direct_cycles(graph)`: the loops `for src, deps in graph.items(): for dst in deps`. -/
def findDirectCycles (g : Graph String) : List (String × String) :=
  (g.entries.foldl (fun st (e : String × List String) => e.2.foldl (directStep g e.1) st)
    ⟨[], []⟩).cycles

/-! ## Sorted pairs are unordered pairs -/

theorem sortedPair_eq (a b : String) :
    sortedPair a b = if strLe a b then [a, b] else [b, a] := by
  simp [sortedPair, pySorted, List.insertionSort, List.orderedInsert]

theorem sortedPair_comm (a b : String) : sortedPair a b = sortedPair b a := by
  rw [sortedPair_eq, sortedPair_eq]
  by_cases hab : strLe a b <;> by_cases hba : strLe b a
  · simp [hab, hba, strLe_antisymm hab hba]
  · simp [hab, hba]
  · simp [hab, hba]
  · exact ((strLe_total a b).resolve_left hab |> hba).elim

/-- Two edges get the same key exactly when they join the same two headers. -/
theorem sortedPair_eq_iff {a b c d : String} :
    sortedPair a b = sortedPair c d ↔ s(a, b) = s(c, d) := by
  constructor
  · intro h
    rw [sortedPair_eq, sortedPair_eq] at h
    split_ifs at h <;> simp_all [Sym2.eq_iff]
  · rw [Sym2.eq_iff]
    rintro (⟨rfl, rfl⟩ | ⟨rfl, rfl⟩)
    · rfl
    · exact sortedPair_comm _ _

/-! ## The loop invariant -/

variable {g : Graph String}

variable (g) in
/-- Each of the two headers of `e` includes the other. -/
def Mutual (e : String × String) : Prop := g.Edge e.1 e.2 ∧ g.Edge e.2 e.1

/-- Being mutual is a property of the unordered pair. -/
theorem Mutual.of_sortedPair_eq {e e' : String × String} (h : Mutual g e)
    (he : sortedPair e.1 e.2 = sortedPair e'.1 e'.2) : Mutual g e' := by
  obtain ⟨a, b⟩ := e
  obtain ⟨c, d⟩ := e'
  rcases Sym2.eq_iff.mp (sortedPair_eq_iff.mp he) with ⟨rfl, rfl⟩ | ⟨rfl, rfl⟩
  · exact h
  · exact ⟨h.2, h.1⟩

variable (g) in
/-- The three things one pass of `for dst in deps` can do: skip a checked key, report a new key
whose reverse edge exists, or only record a new key. -/
theorem directStep_cases (src dst : String) (st : DirectState) :
    (sortedPair src dst ∈ st.checked ∧ directStep g src st dst = st) ∨
    (sortedPair src dst ∉ st.checked ∧ g.Edge dst src ∧
      directStep g src st dst = ⟨st.cycles ++ [(src, dst)], st.checked ++ [sortedPair src dst]⟩) ∨
    (sortedPair src dst ∉ st.checked ∧ ¬ g.Edge dst src ∧
      directStep g src st dst = ⟨st.cycles, st.checked ++ [sortedPair src dst]⟩) := by
  unfold directStep Graph.Edge
  by_cases hnew : sortedPair src dst ∈ st.checked
  · simp [hnew]
  · by_cases hmut : src ∈ g.get dst
    · simp [hnew, hmut, Graph.mem_keys_of_mem_get hmut]
    · simp [hnew, hmut]

variable (g) in
/-- What `find_direct_cycles` knows after walking the edges `done`: `checked` holds their keys,
the reported edges are mutual edges of `done` with distinct keys, and every mutual edge of
`done` shares its key with a reported one. -/
structure DirectInv (done : List (String × String)) (st : DirectState) : Prop where
  checked_iff : ∀ p, p ∈ st.checked ↔ ∃ e ∈ done, sortedPair e.1 e.2 = p
  nodup : (st.cycles.map fun c => sortedPair c.1 c.2).Nodup
  cycle_done : ∀ c ∈ st.cycles, c ∈ done
  cycle_mutual : ∀ c ∈ st.cycles, Mutual g c
  complete : ∀ e ∈ done, Mutual g e → ∃ c ∈ st.cycles, sortedPair c.1 c.2 = sortedPair e.1 e.2

theorem directInv_nil : DirectInv g [] ⟨[], []⟩ :=
  ⟨by simp, List.nodup_nil, by simp, by simp, by simp⟩

/-- Adding the key of a walked edge to `checked` keeps `checked` the set of walked keys. -/
theorem checked_append_iff {done : List (String × String)} {checked : List (List String)}
    (hc : ∀ p, p ∈ checked ↔ ∃ e ∈ done, sortedPair e.1 e.2 = p) (e₀ : String × String)
    (p : List String) :
    p ∈ checked ++ [sortedPair e₀.1 e₀.2] ↔ ∃ e ∈ done ++ [e₀], sortedPair e.1 e.2 = p := by
  simp only [List.mem_append, hc, List.mem_singleton, or_and_right, exists_or, exists_eq_left',
    eq_comm]

/-- One edge `src → dst` keeps the invariant. -/
theorem DirectInv.step {done : List (String × String)} {st : DirectState} (h : DirectInv g done st)
    {src dst : String} (hedge : g.Edge src dst) :
    DirectInv g (done ++ [(src, dst)]) (directStep g src st dst) := by
  have hdone : ∀ e ∈ done ++ [(src, dst)], e ∈ done ∨ e = (src, dst) := by simp
  rcases directStep_cases g src dst st with ⟨hold, hst⟩ | ⟨hnew, hmut, hst⟩ | ⟨hnew, hmut, hst⟩
    <;> rw [hst]
  · -- a key already checked: an edge of the same pair was walked before
    obtain ⟨e', he', hkey⟩ := (h.checked_iff _).mp hold
    refine ⟨fun p => ?_, h.nodup, fun c hc => List.mem_append_left _ (h.cycle_done c hc),
      h.cycle_mutual, fun e he hm => ?_⟩
    · rw [← checked_append_iff h.checked_iff (src, dst), List.mem_append, List.mem_singleton]
      exact ⟨.inl, fun hp => hp.elim id fun hp => hp ▸ hold⟩
    · rcases hdone e he with he | rfl
      · exact h.complete e he hm
      · obtain ⟨c, hc, hce⟩ := h.complete e' he' (hm.of_sortedPair_eq hkey.symm)
        exact ⟨c, hc, hce.trans hkey⟩
  · -- a new key whose reverse edge exists: report `(src, dst)`
    refine ⟨checked_append_iff h.checked_iff (src, dst), ?_, fun c hc => ?_, fun c hc => ?_,
      fun e he hm => ?_⟩
    · rw [List.map_append, List.map_singleton]
      refine List.nodup_append.mpr ⟨h.nodup, List.nodup_singleton _, ?_⟩
      rw [List.disjoint_singleton]
      intro hmem
      obtain ⟨c, hc, hcp⟩ := List.mem_map.mp hmem
      exact hnew (hcp ▸ (h.checked_iff _).mpr ⟨c, h.cycle_done c hc, rfl⟩)
    · rcases List.mem_append.mp hc with hc | hc
      · exact List.mem_append_left _ (h.cycle_done c hc)
      · exact List.mem_append_right _ hc
    · rcases List.mem_append.mp hc with hc | hc
      · exact h.cycle_mutual c hc
      · obtain rfl := List.mem_singleton.mp hc
        exact ⟨hedge, hmut⟩
    · rcases hdone e he with he | rfl
      · obtain ⟨c, hc, hce⟩ := h.complete e he hm
        exact ⟨c, List.mem_append_left _ hc, hce⟩
      · exact ⟨(src, dst), by simp, rfl⟩
  · -- a new key without the reverse edge: only record the key
    refine ⟨checked_append_iff h.checked_iff (src, dst), h.nodup,
      fun c hc => List.mem_append_left _ (h.cycle_done c hc), h.cycle_mutual, fun e he hm => ?_⟩
    rcases hdone e he with he | rfl
    · exact h.complete e he hm
    · exact (hmut hm.2).elim

/-- The invariant after a run over more edges. -/
theorem DirectInv.run (es : List (String × String)) (hes : ∀ e ∈ es, g.Edge e.1 e.2) :
    ∀ done st, DirectInv g done st →
      DirectInv g (done ++ es) (es.foldl (fun st e => directStep g e.1 st e.2) st) := by
  induction es with
  | nil => intro done st h; simpa using h
  | cons e es ih =>
    intro done st h
    simpa using ih (fun e he => hes e (.tail _ he)) _ _ (h.step (hes e (.head _)))

/-- The nested loops walk `edgeList` in order. -/
theorem findDirectCycles_eq (g : Graph String) :
    findDirectCycles g =
      (g.edgeList.foldl (fun st e => directStep g e.1 st e.2) ⟨[], []⟩).cycles := by
  unfold findDirectCycles Graph.edgeList
  generalize (⟨[], []⟩ : DirectState) = st
  induction g.entries generalizing st with
  | nil => rfl
  | cons e entries ih => simp [List.foldl_append, List.foldl_map, ih]

/-- Every pair `find_direct_cycles` reports is a mutual include. -/
theorem findDirectCycles_mutual (g : Graph String) {c : String × String}
    (hc : c ∈ findDirectCycles g) : Mutual g c := by
  rw [findDirectCycles_eq] at hc
  exact (DirectInv.run g.edgeList (fun e he => Graph.mem_edgeList.mp he) [] _ directInv_nil).cycle_mutual
    c hc

/-- `find_direct_cycles(graph)` reports each unordered pair of headers at most once, and the
pairs it reports are exactly those whose headers include each other, a header that includes
itself giving `(a, a)`. The result's set of pairs depends on the edges only, not on the order
of the keys or of the include lists. -/
theorem findDirectCycles_pairs (g : Graph String) :
    ((findDirectCycles g).map fun c => s(c.1, c.2)).Nodup ∧
      ∀ a b, s(a, b) ∈ (findDirectCycles g).map (fun c => s(c.1, c.2)) ↔
        g.Edge a b ∧ g.Edge b a := by
  have h := DirectInv.run g.edgeList (fun e he => Graph.mem_edgeList.mp he) [] _ directInv_nil
  rw [List.nil_append] at h
  rw [findDirectCycles_eq]
  refine ⟨?_, fun a b => ⟨fun hab => ?_, fun hab => ?_⟩⟩
  · refine List.Nodup.of_map (Sym2.lift ⟨sortedPair, sortedPair_comm⟩) ?_
    simpa [List.map_map, Function.comp_def] using h.nodup
  · obtain ⟨c, hc, hcab⟩ := List.mem_map.mp hab
    have hkey : sortedPair c.1 c.2 = sortedPair (a, b).1 (a, b).2 := sortedPair_eq_iff.mpr hcab
    exact (h.cycle_mutual c hc).of_sortedPair_eq hkey
  · obtain ⟨c, hc, hce⟩ := h.complete (a, b) (Graph.mem_edgeList.mpr hab.1) hab
    exact List.mem_map.mpr ⟨c, hc, sortedPair_eq_iff.mp hce⟩

end DependencyAnalysis.CircularDeps
