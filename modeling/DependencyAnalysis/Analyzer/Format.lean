import Mathlib.Data.Nat.Defs
import Mathlib.Data.List.Basic
import Mathlib.Tactic.Ring

/-!
# The Python text operations `generate_report` uses

`generate_report` prints one float, `f"{total_deps / len(self.systems):.1f}"`, builds the
name of a suggested interface with `cycle[0].replace('_system', '').capitalize()`, and returns
`'\n'.join(report)`. This module gives the first two as computable functions and shows when two
joins differ (`intercalate_ne_of_linesDiffer`).

`int / int` is correctly rounded to the nearest double, ties to even, and `:.1f` prints that
double correctly rounded to one decimal, ties to even. `nearestDouble` scales `a / b` by powers of
two into `[2^52, 2^53)` and rounds there; the scaling loops run on fuel, and
`scaleUp_normal` and `scaleDown_normal` show the fuel they are given is enough.
-/

namespace DependencyAnalysis.Analyzer

/-! ## `f"{a / b:.1f}"` -/

/-- `n / d` rounded to the nearest integer, ties to even. -/
def roundHalfEven (n d : Nat) : Nat :=
  if 2 * (n % d) < d then n / d
  else if d < 2 * (n % d) then n / d + 1
  else if n / d % 2 = 0 then n / d else n / d + 1

/-- Double `num` (and lower the exponent `e`) until `num / den ≥ 2^52`, at most `fuel` times. -/
def scaleUp : Nat → Nat → Nat → Int → Nat × Int
  | 0, num, _, e => (num, e)
  | fuel + 1, num, den, e =>
    if num < 2 ^ 52 * den then scaleUp fuel (2 * num) den (e - 1) else (num, e)

/-- Double `den` (and raise the exponent `e`) until `num / den < 2^53`, at most `fuel` times. -/
def scaleDown : Nat → Nat → Nat → Int → Nat × Int
  | 0, _, den, e => (den, e)
  | fuel + 1, num, den, e =>
    if 2 ^ 53 * den ≤ num then scaleDown fuel num (2 * den) (e + 1) else (den, e)

/-- The double nearest to `a / b` as `(m, e)`, its value `m * 2^e`: `a / b` scaled into
`[2^52, 2^53)` and rounded to an integer, ties to even. -/
def nearestDouble (a b : Nat) : Nat × Int :=
  let (num, e) := scaleUp (b + 52) a b 0
  let (den, e) := scaleDown num num b e
  (roundHalfEven num den, e)

/-- `f"{a / b:.1f}"` for `0 < b`: the double nearest to `a / b`, printed with one decimal,
rounded to nearest, ties to even. -/
def formatRatio (a b : Nat) : String :=
  let (m, e) := nearestDouble a b
  let tenths := if 0 ≤ e then 10 * m * 2 ^ e.toNat else roundHalfEven (10 * m) (2 ^ (-e).toNat)
  s!"{tenths / 10}.{tenths % 10}"

/-- While the budget covers the missing doublings, `scaleUp` ends above `2^52 * den`. -/
theorem scaleUp_normal (den : Nat) :
    ∀ fuel num e, 2 ^ 52 * den ≤ num * 2 ^ fuel → 2 ^ 52 * den ≤ (scaleUp fuel num den e).1 := by
  intro fuel
  induction fuel with
  | zero => intro num e h; simpa [scaleUp] using h
  | succ fuel ih =>
    intro num e h
    unfold scaleUp
    split_ifs with hlt
    · exact ih _ _ (h.trans_eq (by ring))
    · exact Nat.le_of_not_lt hlt

/-- `scaleDown` ends below `2^53 * den` once it may double `den` as often as `num` is large. -/
theorem scaleDown_normal (num : Nat) :
    ∀ fuel den e, num < 2 ^ 53 * den * 2 ^ fuel → num < 2 ^ 53 * (scaleDown fuel num den e).1 := by
  intro fuel
  induction fuel with
  | zero => intro den e h; simpa [scaleDown] using h
  | succ fuel ih =>
    intro den e h
    unfold scaleDown
    split_ifs with hle
    · exact ih _ _ (h.trans_eq (by ring))
    · exact Nat.lt_of_not_le hle

/-- The fuel `nearestDouble` gives is enough: for `0 < a` and `0 < b`, `scaleUp` lifts `a / b` to
at least `2^52`, and `scaleDown` brings any quotient below `2^53`. -/
theorem nearestDouble_normal {a b : Nat} (ha : 0 < a) (hb : 0 < b) (e : Int) :
    2 ^ 52 * b ≤ (scaleUp (b + 52) a b e).1 ∧
      ∀ num e', num < 2 ^ 53 * (scaleDown num num b e').1 := by
  refine ⟨scaleUp_normal b _ a e ?_, fun num e' => scaleDown_normal num num b e' ?_⟩
  · calc 2 ^ 52 * b ≤ 2 ^ 52 * 2 ^ b := Nat.mul_le_mul_left _ (Nat.lt_two_pow b).le
      _ = 1 * 2 ^ (b + 52) := by ring
      _ ≤ a * 2 ^ (b + 52) := Nat.mul_le_mul_right _ ha
  · calc num < 2 ^ num := Nat.lt_two_pow num
      _ = 1 * 1 * 2 ^ num := by ring
      _ ≤ 2 ^ 53 * b * 2 ^ num :=
        Nat.mul_le_mul_right _ (Nat.mul_le_mul (Nat.one_le_two_pow) hb)

/-! ## `s.replace(old, '')` and `s.capitalize()` -/

/-- `s.replace(old, '')` on characters: the occurrences of `old`, from left to right, removed;
`fuel` bounds the characters looked at. -/
def removeAll (old : List Char) : Nat → List Char → List Char
  | 0, s => s
  | _ + 1, [] => []
  | fuel + 1, c :: cs =>
    if old ≠ [] ∧ old <+: c :: cs then removeAll old fuel ((c :: cs).drop old.length)
    else c :: removeAll old fuel cs

/-- As much fuel as there are characters is enough: more changes nothing. -/
theorem removeAll_succ (old : List Char) :
    ∀ fuel s, s.length ≤ fuel → removeAll old (fuel + 1) s = removeAll old fuel s := by
  intro fuel
  induction fuel with
  | zero => intro s hs; rw [List.length_eq_zero.mp (Nat.le_zero.mp hs)]; rfl
  | succ fuel ih =>
    intro s hs
    cases s with
    | nil => rfl
    | cons c cs =>
      have hcs : cs.length ≤ fuel := Nat.le_of_succ_le_succ hs
      unfold removeAll
      split_ifs with hm
      · refine ih _ ?_
        have : 0 < old.length := List.length_pos.mpr hm.1
        simp only [List.length_drop, List.length_cons]
        omega
      · rw [ih cs hcs]

/-- `s.replace(old, '')`. -/
def pyRemove (s old : String) : String := ⟨removeAll old.data s.data.length s.data⟩

/-- `s.capitalize()` on ASCII text: the first character upper case, the others lower case. -/
def pyCapitalize (s : String) : String :=
  match s.data with
  | [] => ""
  | c :: cs => ⟨c.toUpper :: cs.map Char.toLower⟩

/-! ## `'\n'.join(lines)` -/

theorem data_intercalate_go (sep : String) : ∀ (xs : List String) (acc : String),
    (String.intercalate.go acc sep xs).data = sep.data.intercalate ((acc :: xs).map String.data)
  | [], acc => by simp [String.intercalate.go, List.intercalate]
  | x :: xs, acc => by
    rw [String.intercalate.go.eq_1, data_intercalate_go sep xs]
    cases xs <;> simp [List.intercalate, List.append_assoc]

/-- `sep.join(xs)` is the characters of `xs` with those of `sep` between them. -/
theorem data_intercalate (sep : String) (xs : List String) :
    (sep.intercalate xs).data = sep.data.intercalate (xs.map String.data) := by
  cases xs with
  | nil => rfl
  | cons x xs => exact data_intercalate_go sep xs x

theorem data_intercalate_cons_cons (sep x y : String) (l : List String) :
    (sep.intercalate (x :: y :: l)).data = x.data ++ sep.data ++ (sep.intercalate (y :: l)).data := by
  simp [data_intercalate, List.intercalate, List.append_assoc]

theorem data_prefix_intercalate (sep x : String) (l : List String) :
    x.data <+: (sep.intercalate (x :: l)).data := by
  cases l with
  | nil => simp [data_intercalate, List.intercalate]
  | cons y l => rw [data_intercalate_cons_cons, List.append_assoc]; exact List.prefix_append _ _

/-- The first pair of lines at which two lists of lines differ. -/
def firstDiff : List String → List String → Option (String × String)
  | x :: xs, y :: ys => if x = y then firstDiff xs ys else some (x, y)
  | _, _ => none

/-- The first lines at which two lists differ exist, and neither starts the other. -/
def linesDiffer (xs ys : List String) : Bool :=
  match firstDiff xs ys with
  | some (x, y) => !x.data.isPrefixOf y.data && !y.data.isPrefixOf x.data
  | none => false

theorem intercalate_ne_of_firstDiff (sep : String) : ∀ (xs ys : List String) (x y : String),
    firstDiff xs ys = some (x, y) → ¬ x.data <+: y.data → ¬ y.data <+: x.data →
      (sep.intercalate xs).data ≠ (sep.intercalate ys).data
  | x' :: xs, y' :: ys, x, y, h, hxy, hyx => by
    unfold firstDiff at h
    split_ifs at h with heq
    · subst heq
      have ih := intercalate_ne_of_firstDiff sep xs ys x y h hxy hyx
      cases xs with
      | nil => simp [firstDiff] at h
      | cons a as =>
        cases ys with
        | nil => simp [firstDiff] at h
        | cons b bs =>
          rw [data_intercalate_cons_cons, data_intercalate_cons_cons]
          exact fun he => ih (List.append_cancel_left he)
    · obtain ⟨rfl, rfl⟩ := Prod.mk.inj (Option.some.inj h)
      intro he
      have hx := data_prefix_intercalate sep x' xs
      rw [he] at hx
      rcases List.prefix_or_prefix_of_prefix hx (data_prefix_intercalate sep y' ys) with h | h
      · exact hxy h
      · exact hyx h
  | [], _, _, _, h, _, _ => by simp [firstDiff] at h
  | _ :: _, [], _, _, h, _, _ => by simp [firstDiff] at h

/-- Two lists of lines joined by one separator give different texts when, at the first lines
where they differ, neither line starts the other. -/
theorem intercalate_ne_of_linesDiffer {sep : String} {xs ys : List String}
    (h : linesDiffer xs ys = true) : sep.intercalate xs ≠ sep.intercalate ys := by
  unfold linesDiffer at h
  split at h
  · next x y hd =>
    simp only [Bool.and_eq_true, Bool.not_eq_true', List.isPrefixOf_iff_prefix,
      Bool.eq_false_iff, ne_eq, Bool.not_eq_true, decide_eq_true_eq] at h
    exact fun he => intercalate_ne_of_firstDiff sep xs ys x y hd h.1 h.2 (congrArg String.data he)
  · cases h

end DependencyAnalysis.Analyzer
