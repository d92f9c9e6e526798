import Mathlib.Data.List.Nodup
import Mathlib.Data.List.Perm.Subperm

/-!
# The recursive search both scripts run

`find_transitive_cycles` in `scripts/check_circular_deps.py` and `detect_cycles` in
`tools/dependency_analyzer.py` each define a recursive `dfs` of one shape: mark the node visited
and push it; for each dependency in order, recurse into it when it is not visited and return at
once whatever the recursion found, or look at it when it is visited, which may return at once;
after the last dependency pop the node and report nothing. The two differ only in the state they
keep and in what a visited dependency does. A `Search` is that difference, and `Search.dfs` is
the recursion they share.

Python's recursion is modelled with `fuel`, the number of nested calls still allowed; `none` is
the call that runs out, Python's `RecursionError`. What the neighbour loop can do is said once
(`scan_inv`, `scan_isSome`). From it: a property every step keeps holds after a whole call
(`dfs_inv`), `visited` only grows (`dfs_visited`), and a call returns when the fuel is at least
the number of nodes it can still visit (`dfs_isSome`).
-/

namespace DependencyAnalysis

/-- What a recursive depth-first search keeps and does apart from the recursion: `σ` is its
state and `β` what a call returns. The laws say that only entering a node changes `visited`. -/
structure Search (α σ β : Type) [DecidableEq α] where
  /-- The nodes visited so far. -/
  visited : σ → List α
  /-- Entering a node, before its dependencies. -/
  enter : σ → α → σ
  /-- Leaving a node after its last dependency, having found nothing. -/
  leave : σ → α → σ
  /-- A dependency already visited: a result to return at once, or `none` to go on. -/
  revisit : σ → α → Option (β × σ)
  /-- What a call that found nothing returns (`None`, `False`). -/
  quiet : β
  enter_visited : ∀ s a, visited (enter s a) = (visited s).insert a
  leave_visited : ∀ s a, visited (leave s a) = visited s
  revisit_visited : ∀ s a r, revisit s a = some r → visited r.2 = visited s

/-- A fresh node and the nodes visited before it are more than those. -/
theorem length_lt_of_cons_subset {α : Type} {a : α} {l V : List α} (hnd : (a :: l).Nodup)
    (h : a :: l ⊆ V) : l.length < V.length :=
  (hnd.subperm h).length_le

namespace Search

variable {α σ β : Type} [DecidableEq α] [DecidableEq β] (S : Search α σ β)

/-- The loop `for neighbor in deps` of a call on `node`, given the recursive call `visit`. A
result other than `quiet` is returned straight up (`if cycle: return cycle`). -/
def scan (visit : α → σ → Option (β × σ)) (node : α) : List α → σ → Option (β × σ)
  | [], s => some (S.quiet, S.leave s node)
  | nb :: nbs, s =>
    if nb ∉ S.visited s then
      match visit nb s with
      | some (b, s') => if b = S.quiet then scan visit node nbs s' else some (b, s')
      | none => none
    else match S.revisit s nb with
      | some r => some r
      | none => scan visit node nbs s

/-- `dfs(node)` with at most `fuel` nested calls; `next node` lists the dependencies of `node`. -/
def dfs (next : α → List α) : Nat → α → σ → Option (β × σ)
  | 0, _, _ => none
  | fuel + 1, node, s => S.scan (dfs next fuel) node (next node) (S.enter s node)

/-- A nested call that runs out of fuel makes the loop run out too. -/
theorem scan_eq_none {visit : α → σ → Option (β × σ)} {node nb : α} {s : σ}
    (hv : nb ∉ S.visited s) (h : visit nb s = none) (nbs : List α) :
    S.scan visit node (nb :: nbs) s = none := by
  simp [scan, hv, h]

/-! ## The neighbour loop -/

section Loop

variable {S} {visit : α → σ → Option (β × σ)} {node : α}

/-- Partial correctness of the neighbour loop: a property `P` of the remaining dependencies and
the state, kept by each of the loop's cases, gives `Q` of what the loop returns. -/
theorem scan_inv (P : List α → σ → Prop) (Q : β × σ → Prop)
    (hvisit : ∀ nb nbs t r, P (nb :: nbs) t → nb ∉ S.visited t → visit nb t = some r →
      (r.1 = S.quiet → P nbs r.2) ∧ (r.1 ≠ S.quiet → Q r))
    (hrevisit : ∀ nb nbs t r, P (nb :: nbs) t → nb ∈ S.visited t → S.revisit t nb = some r → Q r)
    (hskip : ∀ nb nbs t, P (nb :: nbs) t → nb ∈ S.visited t → S.revisit t nb = none → P nbs t)
    (hdone : ∀ t, P [] t → Q (S.quiet, S.leave t node)) :
    ∀ nbs s r, P nbs s → S.scan visit node nbs s = some r → Q r := by
  intro nbs
  induction nbs with
  | nil =>
    rintro s r hs ⟨⟩
    exact hdone s hs
  | cons nb nbs ih =>
    intro s r hs h
    by_cases hv : nb ∈ S.visited s
    · cases hr : S.revisit s nb with
      | none => exact ih s r (hskip _ _ _ hs hv hr) (by simpa [scan, hv, hr] using h)
      | some r' =>
        obtain rfl : r' = r := by simpa [scan, hv, hr] using h
        exact hrevisit _ _ _ _ hs hv hr
    · cases hr : visit nb s with
      | none => simp [scan, hv, hr] at h
      | some r' =>
        obtain ⟨hq, hnq⟩ := hvisit _ _ _ _ hs hv hr
        by_cases hb : r'.1 = S.quiet
        · exact ih r'.2 r (hq hb) (by simpa [scan, hv, hr, hb] using h)
        · obtain rfl : r' = r := by simpa [scan, hv, hr, hb] using h
          exact hnq hb

/-- Total correctness of the neighbour loop: if every nested call returns, and `P` survives the
calls that found nothing, the loop returns. -/
theorem scan_isSome (P : List α → σ → Prop)
    (hvisit : ∀ nb nbs t, P (nb :: nbs) t → nb ∉ S.visited t →
      ∃ r, visit nb t = some r ∧ (r.1 = S.quiet → P nbs r.2))
    (hskip : ∀ nb nbs t, P (nb :: nbs) t → P nbs t) :
    ∀ nbs s, P nbs s → ∃ r, S.scan visit node nbs s = some r := by
  intro nbs
  induction nbs with
  | nil => exact fun s _ => ⟨_, rfl⟩
  | cons nb nbs ih =>
    intro s hs
    by_cases hv : nb ∈ S.visited s
    · cases hr : S.revisit s nb with
      | none => simpa [scan, hv, hr] using ih s (hskip _ _ _ hs)
      | some r => exact ⟨r, by simp [scan, hv, hr]⟩
    · obtain ⟨⟨b, t⟩, hr, hP⟩ := hvisit _ _ _ hs hv
      by_cases hb : b = S.quiet
      · simpa [scan, hv, hr, hb] using ih t (hP hb)
      · exact ⟨(b, t), by simp [scan, hv, hr, hb]⟩

end Loop

/-! ## Frame facts of `dfs` -/

section Frame

variable (next : α → List α)

/-- A property of the state that entering a fresh node, leaving a node and looking at a visited
one keep holds after every call of `dfs`, on nodes drawn from a set `C` closed under
dependencies. -/
theorem dfs_inv (C : α → Prop) (hC : ∀ a, C a → ∀ b ∈ next a, C b) (Inv : σ → Prop)
    (henter : ∀ t a, Inv t → C a → a ∉ S.visited t → Inv (S.enter t a))
    (hleave : ∀ t a, Inv t → Inv (S.leave t a))
    (hrevisit : ∀ t a r, Inv t → S.revisit t a = some r → Inv r.2) :
    ∀ fuel node s r, C node → Inv (S.enter s node) → S.dfs next fuel node s = some r →
      Inv r.2 := by
  intro fuel
  induction fuel with
  | zero => intro node s r _ _ h; cases h
  | succ fuel ih =>
    intro node s r hn hs h
    refine scan_inv (fun nbs t => Inv t ∧ ∀ b ∈ nbs, C b) (fun r => Inv r.2) ?_
      (fun _ _ _ _ ht _ hr => hrevisit _ _ _ ht.1 hr)
      (fun _ _ _ ht _ _ => ⟨ht.1, fun b hb => ht.2 b (.tail _ hb)⟩)
      (fun t ht => hleave _ _ ht.1) _ _ r ⟨hs, hC _ hn⟩ h
    intro nb nbs t r ⟨ht, hb⟩ hv hr
    have := ih nb t r (hb nb (.head _)) (henter _ _ ht (hb nb (.head _)) hv) hr
    exact ⟨fun _ => ⟨this, fun b hb' => hb b (.tail _ hb')⟩, fun _ => this⟩

/-- A property of `visited` alone holds after every call when inserting a fresh node of `C` keeps
it: leaving a node and looking at a visited one leave `visited` as it is. -/
theorem dfs_inv_visited (C : α → Prop) (hC : ∀ a, C a → ∀ b ∈ next a, C b) (P : List α → Prop)
    (hins : ∀ l a, P l → C a → a ∉ l → P (l.insert a)) {fuel : Nat} {node : α} {s : σ}
    {r : β × σ} (hn : C node) (hs : P ((S.visited s).insert node))
    (h : S.dfs next fuel node s = some r) : P (S.visited r.2) :=
  S.dfs_inv next C hC (fun t => P (S.visited t))
    (fun t a ht ha hv => by dsimp only; rw [S.enter_visited]; exact hins _ _ ht ha hv)
    (fun _ _ ht => by dsimp only; rwa [S.leave_visited])
    (fun _ _ _ ht hr => by dsimp only; rwa [S.revisit_visited _ _ _ hr])
    fuel node s r hn (by dsimp only; rwa [S.enter_visited]) h

/-- `dfs` only adds to `visited`, and adds its own node. -/
theorem dfs_visited {fuel : Nat} {node : α} {s : σ} {r : β × σ}
    (h : S.dfs next fuel node s = some r) : (S.visited s).insert node ⊆ S.visited r.2 :=
  S.dfs_inv_visited next (fun _ => True) (fun _ _ _ _ => trivial) ((S.visited s).insert node ⊆ ·)
    (fun _ _ hl _ _ => hl.trans fun _ => List.mem_insert_of_mem) trivial (List.Subset.refl _) h

end Frame

/-! ## The fuel is enough

Every nested call of `dfs` visits a node no enclosing call visited, so the nesting is at most the
number of nodes. `dfs_isSome` counts this against a list `U` of nodes closed under dependencies.
-/

section Total

variable (next : α → List α) {U : List α} (hclosed : ∀ a ∈ U, ∀ b ∈ next a, b ∈ U)
include hclosed

/-- `visited` stays a duplicate-free list of nodes of `U`. -/
theorem dfs_bounded {fuel : Nat} {node : α} {s : σ} {r : β × σ} (hn : node ∈ U)
    (hs : S.visited s ⊆ U) (hnd : (S.visited s).Nodup) (h : S.dfs next fuel node s = some r) :
    S.visited r.2 ⊆ U ∧ (S.visited r.2).Nodup := by
  have hins : ∀ {l : List α} {a : α}, l ⊆ U → a ∈ U → l.insert a ⊆ U := fun hl ha _ hx =>
    (List.mem_insert_iff.mp hx).elim (fun h => h ▸ ha) (fun h => hl h)
  exact S.dfs_inv_visited next (· ∈ U) hclosed (fun l => l ⊆ U ∧ l.Nodup)
    (fun _ _ hl ha _ => ⟨hins hl.1 ha, hl.2.insert⟩) hn ⟨hins hs hn, hnd.insert⟩ h

/-- `dfs` returns when the fuel is at least the number of nodes of `U` not yet visited. -/
theorem dfs_isSome : ∀ fuel node s, node ∈ U → node ∉ S.visited s → S.visited s ⊆ U →
    (S.visited s).Nodup → U.length ≤ fuel + (S.visited s).length →
      ∃ r, S.dfs next fuel node s = some r := by
  intro fuel
  induction fuel with
  | zero =>
    intro node s hn hnv hs hnd hlen
    have :=
      length_lt_of_cons_subset (List.nodup_cons.mpr ⟨hnv, hnd⟩) (List.cons_subset.mpr ⟨hn, hs⟩)
    omega
  | succ fuel ih =>
    intro node s hn hnv hs hnd hlen
    have hsnd : (node :: S.visited s).Nodup := List.nodup_cons.mpr ⟨hnv, hnd⟩
    refine scan_isSome (fun nbs t => (∀ b ∈ nbs, b ∈ U) ∧ S.visited t ⊆ U ∧
        (S.visited t).Nodup ∧ node :: S.visited s ⊆ S.visited t) ?_
      (fun _ _ _ ht => ⟨fun b hb => ht.1 b (.tail _ hb), ht.2⟩) _ _ ⟨hclosed node hn, ?_⟩
    · rintro nb nbs t ⟨hb, ht, htnd, hsub⟩ hv
      have hlen' : U.length ≤ fuel + (S.visited t).length := by
        have := length_lt_of_cons_subset hsnd hsub
        omega
      obtain ⟨r, hr⟩ := ih nb t (hb nb (.head _)) hv ht htnd hlen'
      obtain ⟨hrU, hrnd⟩ := S.dfs_bounded next hclosed (hb nb (.head _)) ht htnd hr
      exact ⟨r, hr, fun _ => ⟨fun b hb' => hb b (.tail _ hb'), hrU, hrnd,
        List.Subset.trans hsub fun _ hx => S.dfs_visited next hr (List.mem_insert_of_mem hx)⟩⟩
    · rw [S.enter_visited, List.insert_of_not_mem hnv]
      exact ⟨List.cons_subset.mpr ⟨hn, hs⟩, hsnd, List.Subset.refl _⟩

end Total

end Search

end DependencyAnalysis
