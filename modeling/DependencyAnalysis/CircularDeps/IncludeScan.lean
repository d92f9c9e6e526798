import DependencyAnalysis.Graph.Basic
import DependencyAnalysis.CircularDeps.Paths

/-!
# The include graph `build_dependency_graph` builds

`build_dependency_graph(include_dir)` walks the `*.h` files and then the `*.hpp` files below
the include directory; for each it reads the lines, matches `#include` directives, drops
standard headers (`is_system_header`), resolves the rest (`resolve_include`) and appends each
resolved target to the list of the file's identifier `str(file_path.relative_to(include_dir))`.

The file system is a `SourceTree`: the working directory, the include directory as given, the
files and directories below it as relative paths, the order `rglob` lists the files in, and the
text of each file.

`resolve_include` treats its two kinds of token differently (`resolveInclude_identifier`). A
bare file name is joined on the including header's directory and taken `relative_to` the
include directory as given; it gives the identifier of the header it names, whatever the
include directory. A `./` or `../` token is joined the same way, but then `resolve()`d before
`relative_to`, while the include directory is not: it gives nothing at all unless the include
directory is its own `resolve()`, that is, absolute with the root `/` and without `..`
(`resolveInclude_dot_resolved`).
-/

namespace DependencyAnalysis.CircularDeps

/-! ## `is_system_header` -/

/-- `SYSTEM_HEADERS`. -/
def systemHeaders : List String :=
  ["algorithm", "any", "array", "atomic", "bitset", "cassert", "cctype", "cerrno", "cfloat",
    "chrono", "climits", "cmath", "compare", "complex", "concepts", "condition_variable",
    "coroutine", "csetjmp", "csignal", "cstdarg", "cstddef", "cstdint", "cstdio", "cstdlib",
    "cstring", "ctime", "cwchar", "cwctype", "deque", "exception", "execution", "expected",
    "filesystem", "format", "forward_list", "fstream", "functional", "future",
    "initializer_list", "iomanip", "ios", "iosfwd", "iostream", "istream", "iterator", "latch",
    "limits", "list", "locale", "map", "memory", "memory_resource", "mutex", "new", "numbers",
    "numeric", "optional", "ostream", "queue", "random", "ranges", "ratio", "regex",
    "scoped_allocator", "semaphore", "set", "shared_mutex", "source_location", "span",
    "spanstream", "sstream", "stack", "stdexcept", "stop_token", "streambuf", "string",
    "string_view", "syncstream", "system_error", "thread", "tuple", "type_traits", "typeindex",
    "typeinfo", "unordered_map", "unordered_set", "utility", "valarray", "variant", "vector",
    "version"]

/-- The names `header[1:]` is looked up in for a header starting with `c`. -/
def cLibraryNames : List String :=
  ["assert", "ctype", "errno", "float", "limits", "locale", "math", "setjmp", "signal",
    "stdarg", "stddef", "stdio", "stdlib", "string", "time", "wchar", "wctype"]

/-- `is_system_header(header)`. -/
def isSystemHeader (header : String) : Bool :=
  decide (header ∈ systemHeaders) ||
    (header.data.head? == some 'c' && decide (String.mk (header.data.drop 1) ∈ cLibraryNames)) ||
    "std".data.isPrefixOf header.data

/-! ## Reading include lines -/

/-- A character that closes the header name: `>` or `"`. -/
def isCloser (c : Char) : Bool := c == '>' || c == '"'

/-- `include_pattern.match(line)` for `^\s*#include\s*[<"]([^>"]+)[>"]`: group 1, if the line
matches. Each `\s*` and `[^>"]+` takes as much as it can, and no shorter choice could match. -/
def matchInclude (line : List Char) : Option String :=
  let rest := line.dropWhile isPySpace
  if "#include".data.isPrefixOf rest then
    match (rest.drop 8).dropWhile isPySpace with
    | c :: rest =>
      if c == '<' || c == '"' then
        let name := rest.takeWhile fun c => !isCloser c
        if name ≠ [] ∧ name.length < rest.length then some ⟨name⟩ else none
      else none
    | [] => none
  else none

/-- Universal newlines: `\r\n` and a lone `\r` are read as `\n`. -/
def translateNewlines : List Char → List Char
  | '\r' :: '\n' :: cs => '\n' :: translateNewlines cs
  | '\r' :: cs => '\n' :: translateNewlines cs
  | c :: cs => c :: translateNewlines cs
  | [] => []

/-- The lines `for line in f` yields from a file opened in text mode, without their ends,
which the pattern never matches. -/
def pyLines (text : String) : List (List Char) := (translateNewlines text.data).splitOn '\n'

/-! ## The file system -/

/-- What `check_circular_deps.py` reads of the file system: the working directory, the include
directory as given and whether it exists, the files and directories below it as relative paths
(the files in the order `rglob` lists them), and the text each file reads as. -/
structure SourceTree where
  cwd : PyPath
  includeDir : PyPath
  includeDirExists : Bool
  files : List PyPath
  dirs : List PyPath
  content : List String → String
  files_nodup : files.Nodup
  files_rel : ∀ f ∈ files, f.root = .relative ∧ f.parts ≠ [] ∧ ".." ∉ f.parts
  dirs_rel : ∀ d ∈ dirs, d.root = .relative ∧ d.parts ≠ [] ∧ ".." ∉ d.parts

/-- `p.exists()`: resolved, `p` is the include directory or one of its parents, or lies on the
way to a file or directory below it. -/
def SourceTree.pathExists (tree : SourceTree) (p : PyPath) : Bool :=
  let q := (p.resolve tree.cwd).parts
  let d := (tree.includeDir.resolve tree.cwd).parts
  tree.includeDirExists &&
    (q.isPrefixOf d || (tree.files ++ tree.dirs).any fun e => q.isPrefixOf (d ++ e.parts))

/-! ## `resolve_include`, `extract_includes` and `build_dependency_graph` -/

/-- `resolve_include(include, from_file, include_dir)`, with `incl` for `include`. -/
def resolveInclude (tree : SourceTree) (incl : String) (fromFile includeDir : PyPath) :
    Option String :=
  let fromDir := fromFile.parent
  if "../".data.isPrefixOf incl.data || "./".data.isPrefixOf incl.data then
    (((fromDir.join incl).resolve tree.cwd).relativeTo includeDir).map PyPath.str
  else if "kcenon/".data.isPrefixOf incl.data then some incl
  else if '/' ∉ incl.data then
    let sameDirFile := fromDir.join incl
    if tree.pathExists sameDirFile then (sameDirFile.relativeTo includeDir).map PyPath.str
    else none
  else none

/-- What one line adds to the list `extract_includes` returns: the resolved header of an
`#include` of a header that is not a system header, if it resolves. -/
def lineTarget (tree : SourceTree) (filePath includeDir : PyPath) (line : List Char) :
    Option String :=
  (matchInclude line).bind fun incl =>
    if isSystemHeader incl then none else resolveInclude tree incl filePath includeDir

/-- `extract_includes(file_path, include_dir)` on the text of the file. -/
def extractIncludes (tree : SourceTree) (filePath includeDir : PyPath) (text : String) :
    List String :=
  (pyLines text).filterMap (lineTarget tree filePath includeDir)

/-- `extract_includes(file_path, include_dir)` for the file `file_path = include_dir / rel`. -/
def SourceTree.includesOf (tree : SourceTree) (rel : PyPath) : List String :=
  extractIncludes tree (tree.includeDir.joinPath rel) tree.includeDir (tree.content rel.parts)

/-- The name of a file matches the pattern `*suffix`. -/
def hasSuffix (suffix : String) (f : PyPath) : Bool :=
  suffix.data.isSuffixOf (f.parts.getLast?.getD "").data

/-- One loop `for file_path in include_dir.rglob(pattern)` of `build_dependency_graph`, over the
files whose name ends with `suffix`. `rel` is `file_path.relative_to(include_dir)`, so
`str(rel)` is the identifier `rel_path`. -/
def scanFiles (tree : SourceTree) (suffix : String) (graph : Graph String) : Graph String :=
  (tree.files.filter (hasSuffix suffix)).foldl (fun graph rel =>
    (tree.includesOf rel).foldl (fun graph inc => graph.push rel.str inc) graph) graph

/-- `build_dependency_graph(include_dir)`: the `*.h` files, then the `*.hpp` files. -/
def buildDependencyGraph (tree : SourceTree) : Graph String :=
  scanFiles tree ".hpp" (scanFiles tree ".h" ⟨[], List.nodup_nil⟩)

/-! ## Where `resolve_include` lands -/

/-- The directory of a scanned file: the include directory, then the file's parts but the
last. -/
theorem parent_joinPath (D : PyPath) {f : PyPath} (hfa : f.root = .relative) (hfne : f.parts ≠ []) :
    (D.joinPath f).parent.root = D.root ∧
      (D.joinPath f).parent.parts = D.parts ++ f.parts.dropLast := by
  obtain ⟨hroot, hparts⟩ := joinPath_of_relative D hfa
  exact ⟨hroot, by simp [PyPath.parent, hparts, List.dropLast_append_of_ne_nil _ hfne]⟩

theorem head_ne_slash_of_dot {t : String} (h : "../".data <+: t.data ∨ "./".data <+: t.data) :
    t.data.head? ≠ some '/' := by
  rcases h with ⟨l, hl⟩ | ⟨l, hl⟩ <;> rw [← hl] <;>
    exact fun hh => absurd (Option.some.inj hh) (by decide)

theorem head_ne_slash_of_not_mem {t : String} (h : '/' ∉ t.data) : t.data.head? ≠ some '/' :=
  fun hh => h (List.mem_of_mem_head? hh)

theorem dot_of_prefix {t : String} (h : "../".data <+: t.data ∨ "./".data <+: t.data) :
    ("../".data.isPrefixOf t.data || "./".data.isPrefixOf t.data) = true := by
  rcases h with h | h <;> simp [List.isPrefixOf_iff_prefix.mpr h]

/-- A prefix with a `/` in it is not a prefix of a token without one. -/
theorem isPrefixOf_eq_false {t : String} (h : '/' ∉ t.data) {p : List Char} (hp : '/' ∈ p) :
    p.isPrefixOf t.data = false :=
  Bool.eq_false_iff.mpr fun hpre => h ((List.isPrefixOf_iff_prefix.mp hpre).subset hp)

theorem not_dot_of_not_mem {t : String} (h : '/' ∉ t.data) :
    ("../".data.isPrefixOf t.data || "./".data.isPrefixOf t.data) = false :=
  Bool.or_eq_false_iff.mpr ⟨isPrefixOf_eq_false h (by decide), isPrefixOf_eq_false h (by decide)⟩

/-- `from_dir / include` for a scanned file and a token that does not start with `/`. -/
theorem join_parent (D : PyPath) {f : PyPath} (hfa : f.root = .relative) (hfne : f.parts ≠ [])
    {t : String} (ht : t.data.head? ≠ some '/') :
    ((D.joinPath f).parent.join t).root = D.root ∧
      ((D.joinPath f).parent.join t).parts =
        D.parts ++ f.parts.dropLast ++ (PyPath.ofStr t).parts := by
  obtain ⟨hpr, hpp⟩ := parent_joinPath D hfa hfne
  obtain ⟨hjr, hjp⟩ := joinPath_of_relative (D.joinPath f).parent (ofStr_root ht)
  exact ⟨hjr.trans hpr, by rw [PyPath.join, hjp, hpp]⟩

/-- `(from_dir / include).resolve()`: the header's directory and the token, resolved from the
resolved include directory. -/
theorem resolve_join_parent (D cwd : PyPath) {f : PyPath} (hfa : f.root = .relative)
    (hfne : f.parts ≠ []) {t : String} (ht : t.data.head? ≠ some '/') :
    (((D.joinPath f).parent.join t).resolve cwd).parts =
      collapse ((D.resolve cwd).parts ++ f.parts.dropLast ++ (PyPath.ofStr t).parts) := by
  obtain ⟨hjr, hjp⟩ := join_parent D hfa hfne ht
  simp only [PyPath.resolve, hjr, hjp, List.append_assoc]
  split_ifs <;> simp only [← collapse_append, List.append_assoc]

variable (tree : SourceTree)

/-- A `./` or `../` token resolves only against an include directory that is its own
`resolve()`: `relative_to` compares the resolved path with the include directory as given. -/
theorem resolveInclude_dot_resolved {t r : String}
    (hdot : "../".data <+: t.data ∨ "./".data <+: t.data) {fromFile : PyPath}
    (h : resolveInclude tree t fromFile tree.includeDir = some r) :
    tree.includeDir.resolve tree.cwd = tree.includeDir := by
  simp only [resolveInclude, dot_of_prefix hdot, if_true] at h
  obtain ⟨q, hq, -⟩ := Option.map_eq_some'.mp h
  obtain ⟨-, hroot, hparts⟩ := relativeTo_eq_some hq
  refine (resolve_eq_self_iff _ _).mpr ⟨hroot.symm, fun hD => ?_⟩
  exact dotdot_not_mem_collapse _ (hparts ▸ List.mem_append_left _ hD)

/-- A `./` or `../` token that lands on a scanned header `g`, from an include directory that is
its own `resolve()`, resolves to `str(g)`. -/
theorem resolveInclude_of_dot_lands (hD : tree.includeDir.resolve tree.cwd = tree.includeDir)
    {f : PyPath} (hf : f ∈ tree.files) {t : String}
    (hdot : "../".data <+: t.data ∨ "./".data <+: t.data) {g : PyPath} (hg : g ∈ tree.files)
    (hland : collapse (tree.includeDir.parts ++ f.parts.dropLast ++ (PyPath.ofStr t).parts) =
      tree.includeDir.parts ++ g.parts) :
    resolveInclude tree t (tree.includeDir.joinPath f) tree.includeDir = some g.str := by
  obtain ⟨hfa, hfne, -⟩ := tree.files_rel f hf
  have hparts := resolve_join_parent tree.includeDir tree.cwd hfa hfne (head_ne_slash_of_dot hdot)
  rw [hD, hland] at hparts
  have hroot := ((resolve_eq_self_iff _ _).mp hD).1
  obtain ⟨r, hr, hrr, hrp⟩ := relativeTo_of_append (by rw [hroot]; rfl) hparts
  simp only [resolveInclude, dot_of_prefix hdot, if_true, hr, Option.map_some',
    PyPath.ext (hrr.trans (tree.files_rel g hg).1.symm) hrp]

/-- A bare file name that names a scanned header `g` from the including header's directory
resolves to `str(g)`: `g` exists, and `relative_to` applies without `resolve()`. -/
theorem resolveInclude_of_bare_lands (hex : tree.includeDirExists = true) {f : PyPath}
    (hf : f ∈ tree.files) {t : String} (hslash : '/' ∉ t.data) {g : PyPath} (hg : g ∈ tree.files)
    (hland : f.parts.dropLast ++ (PyPath.ofStr t).parts = g.parts) :
    resolveInclude tree t (tree.includeDir.joinPath f) tree.includeDir = some g.str := by
  obtain ⟨hfa, hfne, -⟩ := tree.files_rel f hf
  obtain ⟨hga, -, hgc⟩ := tree.files_rel g hg
  have hhead := head_ne_slash_of_not_mem hslash
  obtain ⟨hjr, hjp⟩ := join_parent tree.includeDir hfa hfne hhead
  have hexists : tree.pathExists ((tree.includeDir.joinPath f).parent.join t) = true := by
    have hres := resolve_join_parent tree.includeDir tree.cwd hfa hfne hhead
    have hcanon : ".." ∉ (tree.includeDir.resolve tree.cwd).parts ++ g.parts := fun h =>
      (List.mem_append.mp h).elim (dotdot_not_mem_collapse _) hgc
    rw [List.append_assoc, hland, collapse_of_canonical hcanon] at hres
    simp only [SourceTree.pathExists, hex, hres, Bool.true_and, Bool.or_eq_true, List.any_eq_true]
    exact .inr ⟨g, List.mem_append_left _ hg, List.isPrefixOf_iff_prefix.mpr (List.prefix_refl _)⟩
  obtain ⟨r, hr, hrr, hrp⟩ := relativeTo_of_append hjr (by rw [hjp, List.append_assoc, hland])
  simp [resolveInclude, not_dot_of_not_mem hslash, isPrefixOf_eq_false hslash
    (show '/' ∈ "kcenon/".data by decide), hslash, hexists, hr, PyPath.ext (hrr.trans hga.symm) hrp]

/-- When `resolve_include` gives a scanned header's identifier. A bare file name that names a
scanned header `g` from the including header's directory gives `str(g)`, whatever the include
directory. A `./` or `../` token gives nothing unless the include directory is its own
`resolve()`; when it is, a token that lands on `g` gives `str(g)`. -/
theorem resolveInclude_identifier :
    (∀ f ∈ tree.files, ∀ g ∈ tree.files, ∀ t : String, tree.includeDirExists = true →
      '/' ∉ t.data → f.parts.dropLast ++ (PyPath.ofStr t).parts = g.parts →
        resolveInclude tree t (tree.includeDir.joinPath f) tree.includeDir = some g.str) ∧
    (∀ fromFile : PyPath, ∀ t : String, ("../".data <+: t.data ∨ "./".data <+: t.data) →
      tree.includeDir.resolve tree.cwd ≠ tree.includeDir →
        resolveInclude tree t fromFile tree.includeDir = none) ∧
    (∀ f ∈ tree.files, ∀ g ∈ tree.files, ∀ t : String,
      ("../".data <+: t.data ∨ "./".data <+: t.data) →
      tree.includeDir.resolve tree.cwd = tree.includeDir →
      collapse (tree.includeDir.parts ++ f.parts.dropLast ++ (PyPath.ofStr t).parts) =
        tree.includeDir.parts ++ g.parts →
        resolveInclude tree t (tree.includeDir.joinPath f) tree.includeDir = some g.str) :=
  ⟨fun _ hf _ hg _ hex hslash hland => resolveInclude_of_bare_lands tree hex hf hslash hg hland,
    fun _ _ hdot hD => Option.eq_none_iff_forall_not_mem.mpr fun _ h =>
      hD (resolveInclude_dot_resolved tree hdot h),
    fun _ hf _ hg _ hdot hD hland => resolveInclude_of_dot_lands tree hD hf hdot hg hland⟩

/-- The include directory `/inc`. -/
def incDir : PyPath := ⟨.slash, ["inc"], by decide⟩

/-- The root `/`. -/
def rootDir : PyPath := ⟨.slash, [], by decide⟩

/-- The header `a.h`. -/
def aHeader : PyPath := ⟨.relative, ["a.h"], by decide⟩

/-- The header `b.h`. -/
def bHeader : PyPath := ⟨.relative, ["b.h"], by decide⟩

/-- `/inc/a.h` includes `/inc/b.h` twice, once as `./b.h` and once as `b.h`. -/
def twiceIncluded : SourceTree where
  cwd := rootDir
  includeDir := incDir
  includeDirExists := true
  files := [aHeader, bHeader]
  dirs := []
  content := fun parts => if parts = ["a.h"] then "#include <./b.h>\n#include <b.h>\n" else ""
  files_nodup := by decide
  files_rel := by decide
  dirs_rel := by decide

/-! ## The lists of `build_dependency_graph` -/

/-- Two scanned files have different identifiers. -/
theorem str_injective {f g : PyPath} (hf : f ∈ tree.files) (hg : g ∈ tree.files)
    (h : f.str = g.str) : f = g := by
  have hfa := (tree.files_rel f hf).1
  have hga := (tree.files_rel g hg).1
  exact PyPath.ext (hfa.trans hga.symm) ((ofStr_str hfa).2.symm.trans (h ▸ (ofStr_str hga).2))

/-- The scanned files with identifier `str(f)` are `f`, if `f` is among them. -/
theorem filter_str_eq {f : PyPath} (hf : f ∈ tree.files) :
    ∀ L : List PyPath, L.Nodup → (∀ g ∈ L, g ∈ tree.files) →
      L.filter (fun g => g.str = f.str) = if f ∈ L then [f] else [] := by
  intro L
  induction L with
  | nil => intro _ _; rfl
  | cons g L ih =>
    intro hnd hL
    obtain ⟨hgL, hnd⟩ := List.nodup_cons.mp hnd
    rw [List.filter_cons, ih hnd fun x hx => hL x (.tail _ hx)]
    by_cases hgf : g.str = f.str
    · obtain rfl := str_injective tree (hL g (.head _)) hf hgf
      simp [hgL]
    · have hne : g ≠ f := fun h => hgf (h ▸ rfl)
      simp [hgf, Ne.symm hne]

/-- What one pass leaves in the list of an identifier: the includes of the files of the pass
with that identifier, appended. -/
theorem get_scanFiles (suffix : String) (x : String) :
    ∀ graph : Graph String, (scanFiles tree suffix graph).get x = graph.get x ++
      ((tree.files.filter (hasSuffix suffix)).filter fun rel => rel.str = x).flatMap
        tree.includesOf := by
  unfold scanFiles
  induction tree.files.filter (hasSuffix suffix) with
  | nil => intro graph; simp
  | cons rel rest ih =>
    intro graph
    rw [List.foldl_cons, ih, Graph.get_foldl_push, List.filter_cons]
    by_cases hx : x = rel.str
    · simp [hx]
    · simp [hx, Ne.symm hx]

theorem totalDeps_scanFiles (suffix : String) :
    ∀ graph : Graph String, (scanFiles tree suffix graph).totalDeps = graph.totalDeps +
      ((tree.files.filter (hasSuffix suffix)).map fun rel => (tree.includesOf rel).length).sum := by
  unfold scanFiles
  induction tree.files.filter (hasSuffix suffix) with
  | nil => intro graph; rfl
  | cons rel rest ih =>
    intro graph
    rw [List.foldl_cons, ih, Graph.totalDeps_foldl_push, List.map_cons, List.sum_cons]
    omega

/-- `graph[rel_path].append(inc)` creates a key only with a node to list. -/
theorem scanFiles_noEmptyEntry (suffix : String) :
    ∀ graph : Graph String, graph.NoEmptyEntry → (scanFiles tree suffix graph).NoEmptyEntry := by
  unfold scanFiles
  induction tree.files.filter (hasSuffix suffix) with
  | nil => exact fun _ h => h
  | cons rel rest ih => exact fun graph h => ih _ (Graph.NoEmptyEntry.foldl_push _ _ _ h)

/-- The keys of the include graph are the headers with a resolved include. -/
theorem buildDependencyGraph_noEmptyEntry : (buildDependencyGraph tree).NoEmptyEntry :=
  scanFiles_noEmptyEntry tree _ _
    (scanFiles_noEmptyEntry tree _ _ fun _ h => absurd h (List.not_mem_nil _))

/-- No file name ends with both `.h` and `.hpp`. -/
theorem not_hasSuffix_hpp {f : PyPath} (h : hasSuffix ".h" f = true) :
    hasSuffix ".hpp" f = false := by
  rw [hasSuffix, List.isSuffixOf_iff_suffix, ← List.reverse_prefix] at h
  rw [hasSuffix, Bool.eq_false_iff, ne_eq, List.isSuffixOf_iff_suffix, ← List.reverse_prefix]
  exact fun h' => absurd (List.prefix_of_prefix_length_le h h' (by decide)) (by decide)

end DependencyAnalysis.CircularDeps
