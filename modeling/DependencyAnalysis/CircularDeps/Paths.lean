import Mathlib.Data.List.Infix

/-!
# The part of `pathlib` that `check_circular_deps.py` uses

`resolve_include` and `build_dependency_graph` build paths with `/`, take `.parent`, call
`.resolve()`, `.relative_to(include_dir)` and `str(...)` on them. A `PyPath` is what
`PurePosixPath` keeps of a path: its root (none, `/`, or `//`, which POSIX leaves to the system
and `pathlib` keeps apart from `/`) and its parts, none of them empty, `.` or containing `/`, the
invariant the structure carries. `..` parts are kept, as `pathlib` keeps them; only `resolve()`
collapses them, which on a file system without symbolic links is the lexical `collapse`, and it
always gives the root `/`.

The results here are the facts the include scan needs: `collapse` leaves no `..`
(`dotdot_not_mem_collapse`) and leaves a path without `..` alone (`collapse_of_canonical`); a
relative part joined on is resolved after what it is joined to (`resolve_joinPath`); a path is its
own `resolve()` exactly when its root is `/` and it has no `..` (`resolve_eq_self_iff`); and
`str` and `PurePosixPath(...)` are inverse on relative paths (`ofStr_str`).
-/

namespace DependencyAnalysis.CircularDeps

/-! ## `PurePosixPath` -/

/-- The root of a `PurePosixPath`. -/
inductive PyRoot where
  /-- No root: a relative path. -/
  | relative
  /-- `/`, from one leading slash or more than two. -/
  | slash
  /-- `//`, from exactly two leading slashes. -/
  | doubleSlash
  deriving DecidableEq

/-- The root `posixpath.splitroot` finds at the start of a string. -/
def PyRoot.ofChars : List Char → PyRoot
  | '/' :: '/' :: '/' :: _ => .slash
  | '/' :: '/' :: _ => .doubleSlash
  | '/' :: _ => .slash
  | _ => .relative

/-- The root as `str` writes it. -/
def PyRoot.chars : PyRoot → List Char
  | .relative => []
  | .slash => ['/']
  | .doubleSlash => ['/', '/']

/-- A part `pathlib` keeps: not empty, not `.`, and without `/`. -/
def ValidPart (p : String) : Prop := p ≠ "" ∧ p ≠ "." ∧ '/' ∉ p.data

instance : DecidablePred ValidPart := fun p =>
  inferInstanceAs (Decidable (p ≠ "" ∧ p ≠ "." ∧ '/' ∉ p.data))

/-- A `PurePosixPath`: its root and its parts after the root. -/
@[ext] structure PyPath where
  root : PyRoot
  parts : List String
  parts_valid : ∀ p ∈ parts, ValidPart p

instance : DecidableEq PyPath := fun p q =>
  decidable_of_iff (p.root = q.root ∧ p.parts = q.parts) PyPath.ext_iff.symm

theorem not_mem_of_mem_splitOn {sep : Char} :
    ∀ {cs p : List Char}, p ∈ cs.splitOn sep → sep ∉ p
  | [], p, hp => by simp_all
  | c :: cs, p, hp => by
    have ih : ∀ {q}, q ∈ cs.splitOn sep → sep ∉ q := not_mem_of_mem_splitOn
    simp only [List.splitOn, List.splitOnP_cons, beq_iff_eq] at hp ih
    split_ifs at hp with hc
    · exact (List.mem_cons.mp hp).elim (fun h => h ▸ List.not_mem_nil _) ih
    · obtain ⟨q, qs, hq⟩ := List.exists_cons_of_ne_nil (List.splitOnP_ne_nil (· == sep) cs)
      rw [hq, List.modifyHead_cons, List.mem_cons] at hp
      rcases hp with rfl | hp
      · exact List.not_mem_cons_of_ne_of_not_mem (Ne.symm hc) (ih (hq ▸ List.mem_cons_self q qs))
      · exact ih (hq ▸ List.mem_cons_of_mem q hp)

/-- `PurePosixPath(s)`: the root `splitroot` finds, and the pieces of `s` between slashes
without the empty and `.` ones. -/
def PyPath.ofStr (s : String) : PyPath where
  root := PyRoot.ofChars s.data
  parts := ((s.data.splitOn '/').map String.mk).filter fun p => p ≠ "" ∧ p ≠ "."
  parts_valid p hp := by
    obtain ⟨hp, hne⟩ := List.mem_filter.mp hp
    obtain ⟨q, hq, rfl⟩ := List.mem_map.mp hp
    exact ⟨(of_decide_eq_true hne).1, (of_decide_eq_true hne).2, not_mem_of_mem_splitOn hq⟩

/-- `p / q`: a `q` with a root replaces `p`. -/
def PyPath.joinPath (p q : PyPath) : PyPath :=
  if q.root = .relative then ⟨p.root, p.parts ++ q.parts, fun x hx => (List.mem_append.mp hx).elim
    (p.parts_valid x) (q.parts_valid x)⟩
  else q

/-- `p / s` for a string `s`. -/
def PyPath.join (p : PyPath) (s : String) : PyPath := p.joinPath (PyPath.ofStr s)

/-- `p.parent`: the last part dropped. -/
def PyPath.parent (p : PyPath) : PyPath :=
  ⟨p.root, p.parts.dropLast, fun x hx => p.parts_valid x (List.mem_of_mem_dropLast hx)⟩

/-- `'/'.join(parts)` for parts. -/
def joinParts (parts : List String) : String := ⟨['/'].intercalate (parts.map String.data)⟩

/-- `str(p)`: the root, then the parts; `.` for the empty relative path. -/
def PyPath.str (p : PyPath) : String :=
  if p.root = .relative ∧ p.parts = [] then "." else ⟨p.root.chars ++ (joinParts p.parts).data⟩

/-- `p.relative_to(base)`, `none` for its `ValueError`: `base` must be `p` or one of its
parents, compared root and part by part. -/
def PyPath.relativeTo (p base : PyPath) : Option PyPath :=
  if p.root = base.root ∧ base.parts <+: p.parts then
    some ⟨.relative, p.parts.drop base.parts.length, fun x hx =>
      p.parts_valid x (List.mem_of_mem_drop hx)⟩
  else none

theorem joinPath_of_relative (p : PyPath) {q : PyPath} (hq : q.root = .relative) :
    (p.joinPath q).root = p.root ∧ (p.joinPath q).parts = p.parts ++ q.parts := by
  simp [PyPath.joinPath, hq]

theorem ofStr_root {s : String} (h : s.data.head? ≠ some '/') :
    (PyPath.ofStr s).root = .relative := by
  simp only [PyPath.ofStr, PyRoot.ofChars]
  split <;> simp_all

/-- A string without `/` has at most itself as a part. -/
theorem eq_of_mem_ofStr_parts {s p : String} (hs : '/' ∉ s.data) (hp : p ∈ (PyPath.ofStr s).parts) :
    p = s := by
  have hsplit : s.data.splitOn '/' = [s.data] :=
    List.splitOnP_eq_single _ _ fun x hx hsep => hs (eq_of_beq hsep ▸ hx)
  simp only [PyPath.ofStr, hsplit, List.map_singleton] at hp
  exact List.mem_singleton.mp (List.mem_of_mem_filter hp)

/-- `relative_to` succeeds only on a path with the same root that extends `base`, and returns the
rest. -/
theorem relativeTo_eq_some {p base r : PyPath} (h : p.relativeTo base = some r) :
    r.root = .relative ∧ p.root = base.root ∧ p.parts = base.parts ++ r.parts := by
  unfold PyPath.relativeTo at h
  split_ifs at h with hp
  cases h
  exact ⟨rfl, hp.1, (List.prefix_iff_eq_append.mp hp.2).symm⟩

theorem relativeTo_of_append {p base : PyPath} {q : List String} (hroot : p.root = base.root)
    (hp : p.parts = base.parts ++ q) :
    ∃ r, p.relativeTo base = some r ∧ r.root = .relative ∧ r.parts = q := by
  refine ⟨_, if_pos ⟨hroot, hp ▸ List.prefix_append _ _⟩, rfl, ?_⟩
  simp [hp]

/-! ## `resolve()` -/

/-- One part of `os.path.realpath` on a file system without symbolic links: `..` drops the last
part (and stays at the root), any other part is appended. -/
def collapseStep (acc : List String) (p : String) : List String :=
  if p = ".." then acc.dropLast else acc ++ [p]

/-- The parts of an absolute path with every `..` collapsed. -/
def collapse (parts : List String) : List String := parts.foldl collapseStep []

theorem mem_foldl_collapseStep {x : String} :
    ∀ (parts acc : List String), x ∈ parts.foldl collapseStep acc → x ∈ acc ∨ x ∈ parts
  | [], _, hx => .inl hx
  | p :: parts, acc, hx => by
    rcases mem_foldl_collapseStep parts (collapseStep acc p) hx with hx | hx
    · unfold collapseStep at hx
      split_ifs at hx
      · exact .inl (List.mem_of_mem_dropLast hx)
      · rcases List.mem_append.mp hx with hx | hx
        · exact .inl hx
        · exact .inr (List.mem_singleton.mp hx ▸ .head _)
    · exact .inr (.tail _ hx)

theorem mem_of_mem_collapse {x : String} {parts : List String} (hx : x ∈ collapse parts) :
    x ∈ parts :=
  (mem_foldl_collapseStep parts [] hx).resolve_left (List.not_mem_nil x)

/-- `resolve()` leaves no `..`. -/
theorem dotdot_not_mem_foldl_collapseStep :
    ∀ (parts acc : List String), ".." ∉ acc → ".." ∉ parts.foldl collapseStep acc
  | [], _, h => h
  | p :: parts, acc, h => dotdot_not_mem_foldl_collapseStep parts (collapseStep acc p) (by
    unfold collapseStep
    split_ifs with hp
    · exact fun hx => h (List.mem_of_mem_dropLast hx)
    · simpa [Ne.symm hp] using h)

theorem dotdot_not_mem_collapse (parts : List String) : ".." ∉ collapse parts :=
  dotdot_not_mem_foldl_collapseStep parts [] (List.not_mem_nil _)

/-- Parts without `..` are appended as they are. -/
theorem foldl_collapseStep_of_canonical :
    ∀ {parts : List String}, ".." ∉ parts → ∀ acc, parts.foldl collapseStep acc = acc ++ parts
  | [], _, acc => by simp
  | p :: parts, h, acc => by
    rw [List.mem_cons, not_or] at h
    simp [collapseStep, Ne.symm h.1, foldl_collapseStep_of_canonical h.2]

theorem collapse_of_canonical {parts : List String} (h : ".." ∉ parts) : collapse parts = parts :=
  foldl_collapseStep_of_canonical h []

/-- Collapsing a path collapses its beginning first. -/
theorem collapse_append (xs ys : List String) :
    collapse (xs ++ ys) = collapse (collapse xs ++ ys) := by
  have h := collapse_of_canonical (dotdot_not_mem_collapse xs)
  simp only [collapse] at h ⊢
  rw [List.foldl_append, List.foldl_append, h]

/-- `p.resolve()` with working directory `cwd`, on a file system without symbolic links:
`os.path.realpath`, which gives the root `/` also to a path with the root `//`. -/
def PyPath.resolve (p cwd : PyPath) : PyPath :=
  ⟨.slash, collapse (if p.root = .relative then cwd.parts ++ p.parts else p.parts), fun x hx => by
    have hx := mem_of_mem_collapse hx
    split_ifs at hx
    · exact (List.mem_append.mp hx).elim (cwd.parts_valid x) (p.parts_valid x)
    · exact p.parts_valid x hx⟩

/-- `(p / q).resolve()` is `q` joined on `p.resolve()`, then resolved. -/
theorem resolve_joinPath (p cwd : PyPath) {q : PyPath} (hq : q.root = .relative) :
    ((p.joinPath q).resolve cwd).parts = collapse ((p.resolve cwd).parts ++ q.parts) := by
  obtain ⟨hroot, hparts⟩ := joinPath_of_relative p hq
  simp only [PyPath.resolve, hroot, hparts]
  split_ifs <;> simp only [← collapse_append, List.append_assoc]

/-- A path is its own `resolve()` exactly when its root is `/` and it has no `..`. -/
theorem resolve_eq_self_iff (p cwd : PyPath) :
    p.resolve cwd = p ↔ p.root = .slash ∧ ".." ∉ p.parts := by
  constructor
  · intro h
    exact ⟨h ▸ rfl, fun hp => dotdot_not_mem_collapse _ (congrArg PyPath.parts h ▸ hp)⟩
  · rintro ⟨hroot, hp⟩
    ext1
    · exact hroot.symm
    · simp [PyPath.resolve, hroot, collapse_of_canonical hp]

/-! ## Strings of relative paths -/

theorem splitOn_str {p : PyPath} (hrel : p.root = .relative) (hne : p.parts ≠ []) :
    p.str.data.splitOn '/' = p.parts.map String.data := by
  rw [PyPath.str, if_neg (by simp [hrel, hne]), hrel]
  exact List.splitOn_intercalate _ '/' (fun q hq => by
    obtain ⟨x, hx, rfl⟩ := List.mem_map.mp hq
    exact (p.parts_valid x hx).2.2) (by simpa using hne)

/-- `PurePosixPath(str(p)) == p` for a relative `p`. -/
theorem ofStr_str {p : PyPath} (hrel : p.root = .relative) :
    (PyPath.ofStr p.str).root = .relative ∧ (PyPath.ofStr p.str).parts = p.parts := by
  by_cases hne : p.parts = []
  · have : p.str = "." := by simp [PyPath.str, hrel, hne]
    rw [this, hne]
    decide
  · obtain ⟨x, xs, hx⟩ := List.exists_cons_of_ne_nil hne
    have hvx := p.parts_valid x (hx ▸ .head _)
    obtain ⟨c, cs, hxd⟩ := List.exists_cons_of_ne_nil fun h => hvx.1 (String.ext h)
    have hc : c ≠ '/' := fun hc => hvx.2.2 (by simp [hxd, hc])
    have hhead : p.str.data.head? = some c := by
      rw [PyPath.str, if_neg (by simp [hrel, hne]), hrel, joinParts, hx]
      cases xs <;> simp [PyRoot.chars, List.intercalate, hxd]
    refine ⟨ofStr_root (by rw [hhead]; simpa using hc), ?_⟩
    have hmap : (p.parts.map String.data).map String.mk = p.parts := by
      simp [List.map_map, Function.comp_def]
    simp only [PyPath.ofStr, splitOn_str hrel hne, hmap]
    exact List.filter_eq_self.mpr fun q hq =>
      decide_eq_true ⟨(p.parts_valid q hq).1, (p.parts_valid q hq).2.1⟩

end DependencyAnalysis.CircularDeps
