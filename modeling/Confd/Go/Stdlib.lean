import Mathlib.Data.List.Basic
import Mathlib.Algebra.Group.Nat.Basic
import Mathlib.Data.String.Basic

/-! # Paths and strings, as Go's standard library computes them

The pipeline names every file through Go's `path` and `path/filepath` packages, which agree
on a POSIX host: `filepath.Join(TemplateDir, src)` builds the template path,
`filepath.Dir` and `filepath.Base` place the staged file next to `Dest`, and `setVars`
re-roots each backend key with `path.Join("/", strings.TrimPrefix(k, Prefix))`.
The functions here follow the rules Go documents for them, over the characters of a string.

What the pipeline's safety needs from them is `base_join_plain`: joining a directory with a
plain element (no slash, not `.` or `..`) gives a path whose last element is that element.
-/

namespace Confd.Go.Path

/-! ## Elements -/

/-- The elements of a path between its slashes: `"/a//b"` has `["", "a", "", "b"]`. -/
def elements : List Char → List (List Char)
  | [] => [[]]
  | c :: cs =>
    if c = '/' then [] :: elements cs
    else
      match elements cs with
      | [] => [[c]]
      | e :: es => (c :: e) :: es

/-- A path element `Clean` keeps as it is: non-empty, no slash, neither `.` nor `..`. -/
def Plain (e : List Char) : Prop :=
  e ≠ [] ∧ '/' ∉ e ∧ e ≠ ['.'] ∧ e ≠ ['.', '.']

instance : DecidablePred Plain := fun e =>
  inferInstanceAs (Decidable (e ≠ [] ∧ '/' ∉ e ∧ e ≠ ['.'] ∧ e ≠ ['.', '.']))

theorem elements_ne_nil : ∀ p, elements p ≠ []
  | [] => by simp [elements]
  | c :: cs => by
    unfold elements
    split
    · simp
    · split <;> simp

theorem elements_of_not_mem : ∀ {e : List Char}, '/' ∉ e → elements e = [e]
  | [], _ => rfl
  | c :: cs, noSlash => by
    have headNe : c ≠ '/' := fun h => noSlash (h ▸ List.mem_cons_self c cs)
    have rest := elements_of_not_mem (fun h => noSlash (List.mem_cons_of_mem c h))
    simp [elements, headNe, rest]

theorem elements_append_slash {e : List Char} (noSlash : '/' ∉ e) :
    ∀ x, elements (x ++ '/' :: e) = elements x ++ [e]
  | [] => by simp [elements, elements_of_not_mem noSlash]
  | c :: x => by
    have inductionHypothesis := elements_append_slash noSlash x
    by_cases slash : c = '/'
    · simp [elements, slash, inductionHypothesis]
    · obtain ⟨e', es, split⟩ := List.exists_cons_of_ne_nil (elements_ne_nil x)
      simp [elements, slash, inductionHypothesis, split]

/-! ## `Clean` -/

/-- One element of `path.Clean`'s scan; `kept` holds the surviving elements, last one first.
Empty and `.` elements go, `..` removes the element before it, or is dropped at the root of
a rooted path, or is kept when nothing is left to remove. -/
def cleanStep (rooted : Bool) (kept : List (List Char)) (e : List Char) : List (List Char) :=
  if e = [] ∨ e = ['.'] then kept
  else if e = ['.', '.'] then
    match kept with
    | [] => if rooted then [] else [e]
    | d :: rest => if d = ['.', '.'] then e :: kept else rest
  else e :: kept

/-- The elements written out with a slash between each two. -/
def joinElements : List (List Char) → List Char
  | [] => []
  | [e] => e
  | e :: es => e ++ '/' :: joinElements es

/-- `path.Clean`: the shortest path naming the same file by purely lexical processing;
the empty result is `"."`. -/
def cleanChars (p : List Char) : List Char :=
  if p = [] then ['.']
  else
    let rooted := p.head? == some '/'
    let body := joinElements ((elements p).foldl (cleanStep rooted) []).reverse
    if rooted then '/' :: body else if body = [] then ['.'] else body

/-- `path.Base`: the last element after trailing slashes are removed; `"."` for the empty
path and `"/"` for a path of slashes only. -/
def baseChars (p : List Char) : List Char :=
  if p = [] then ['.']
  else
    let trimmed := p.reverse.dropWhile (· == '/')
    if trimmed = [] then ['/'] else (trimmed.takeWhile (· != '/')).reverse

/-- `path.Dir`: everything up to the last slash, cleaned. -/
def dirChars (p : List Char) : List Char :=
  cleanChars (p.reverse.dropWhile (· != '/')).reverse

/-- `path.Join` of two elements: empty elements are ignored and the result is cleaned. -/
def joinChars (a b : List Char) : List Char :=
  if a = [] then (if b = [] then [] else cleanChars b) else cleanChars (a ++ '/' :: b)

def clean (p : String) : String := ⟨cleanChars p.data⟩

def base (p : String) : String := ⟨baseChars p.data⟩

def dir (p : String) : String := ⟨dirChars p.data⟩

def join (a b : String) : String := ⟨joinChars a.data b.data⟩

/-- `filepath.Split`: the path up to and including its last slash, and the rest. -/
def split (p : String) : String × String :=
  (⟨(p.data.reverse.dropWhile (· != '/')).reverse⟩, ⟨(p.data.reverse.takeWhile (· != '/')).reverse⟩)

/-- `io/fs.ValidPath`: `"."`, or an unrooted path none of whose elements is empty, `.` or
`..`. (Lean strings are valid UTF-8, the other half of Go's check.) -/
def validPath (p : String) : Bool :=
  p.data = ['.'] || (elements p.data).all fun e => e ≠ [] && e ≠ ['.'] && e ≠ ['.', '.']

/-! ## Patterns

`path.Match` reads a pattern as a sequence of terms: `*` (any run of non-slash characters),
`?` (one non-slash character), a class `[...]`, `[^...]` of characters and ranges `lo-hi`,
and literal characters, `\\` escaping the next one. A malformed pattern is `ErrBadPattern`.
-/

/-- One term of a `path.Match` pattern. -/
inductive GlobTerm where
  | star
  | any
  | lit (c : Char)
  | cls (negated : Bool) (ranges : List (Char × Char))
  deriving DecidableEq, Repr

/-- `getEsc`: one character of a class, possibly escaped; something must follow it. -/
def getEsc : List Char → Option (Char × List Char)
  | [] | '-' :: _ | ']' :: _ | ['\\'] => none
  | '\\' :: c :: rest => if rest = [] then none else some (c, rest)
  | c :: rest => if rest = [] then none else some (c, rest)

/-- The ranges of a class up to its closing `]`, which may not come first. -/
def classRanges : Nat → List Char → List (Char × Char) → Option (List (Char × Char) × List Char)
  | 0, _, _ => none
  | fuel + 1, cs, acc =>
    match cs with
    | ']' :: rest => if acc = [] then none else some (acc.reverse, rest)
    | _ =>
      match getEsc cs with
      | none => none
      | some (lo, '-' :: cs') =>
        match getEsc cs' with
        | none => none
        | some (hi, rest) => classRanges fuel rest ((lo, hi) :: acc)
      | some (lo, rest) => classRanges fuel rest ((lo, lo) :: acc)

/-- The terms of a pattern, or `none` for a malformed one. -/
def globTerms : Nat → List Char → Option (List GlobTerm)
  | _, [] => some []
  | 0, _ :: _ => none
  | fuel + 1, c :: cs =>
    match c, cs with
    | '*', _ => (globTerms fuel cs).map (.star :: ·)
    | '?', _ => (globTerms fuel cs).map (.any :: ·)
    | '\\', [] => none
    | '\\', d :: rest => (globTerms fuel rest).map (.lit d :: ·)
    | '[', '^' :: rest =>
      (classRanges rest.length rest []).bind fun (ranges, rest) =>
        (globTerms fuel rest).map (.cls true ranges :: ·)
    | '[', rest =>
      (classRanges rest.length rest []).bind fun (ranges, rest) =>
        (globTerms fuel rest).map (.cls false ranges :: ·)
    | d, _ => (globTerms fuel cs).map (.lit d :: ·)

/-- Whether a name matches the terms. -/
def matchTerms : List GlobTerm → List Char → Bool
  | [], name => name.isEmpty
  | .star :: ts, name =>
    (List.range ((name.takeWhile (· != '/')).length + 1)).any fun i => matchTerms ts (name.drop i)
  | .any :: ts, c :: name => c != '/' && matchTerms ts name
  | .lit d :: ts, c :: name => c == d && matchTerms ts name
  | .cls negated ranges :: ts, c :: name =>
    (ranges.any (fun r => r.1 ≤ c && c ≤ r.2) != negated) && matchTerms ts name
  | _ :: _, [] => false

/-- `path.ErrBadPattern`. -/
def errBadPattern : String := "syntax error in pattern"

/-- `path.Match` (and `filepath.Match` on a POSIX host). -/
def «match» (pattern name : String) : Except String Bool :=
  match globTerms pattern.length pattern.data with
  | none => .error errBadPattern
  | some terms => .ok (matchTerms terms name.data)

example : «match» "t[1].tmpl" "t1.tmpl" = .ok true ∧ «match» "t[1].tmpl" "t[1].tmpl" = .ok false :=
  ⟨rfl, rfl⟩
example : «match» "*.tmpl" "a.tmpl" = .ok true ∧ «match» "a[" "a" = .error errBadPattern := ⟨rfl, rfl⟩

example : clean "/app//" = "/app" := by decide
example : join "/" "../x" = "/x" := by decide
example : base "/etc/confd/" = "confd" ∧ dir "/etc/confd/app.toml" = "/etc/confd" := by decide

/-! ## The last element of a join -/

theorem cleanChars_ne_nil (p : List Char) : cleanChars p ≠ [] := by
  unfold cleanChars
  split
  · simp
  · dsimp only
    split
    · simp
    · split <;> simp_all

theorem joinElements_append_singleton (e : List Char) :
    ∀ l : List (List Char), l ≠ [] → joinElements (l ++ [e]) = joinElements l ++ '/' :: e
  | [_], _ => rfl
  | a :: b :: l, _ => by
    have inductionHypothesis := joinElements_append_singleton e (b :: l) (List.cons_ne_nil b l)
    simp only [List.cons_append] at inductionHypothesis ⊢
    simp [joinElements, inductionHypothesis]

theorem baseChars_of_plain {e : List Char} (nonEmpty : e ≠ []) (noSlash : '/' ∉ e) :
    ∀ q, baseChars (q ++ '/' :: e) = e ∧ baseChars e = e := by
  have kept : ∀ x ∈ e.reverse, (x != '/') = true := fun x mem => by
    simpa using fun h : x = '/' => noSlash (h ▸ List.mem_reverse.mp mem)
  obtain ⟨c, rest, reversed⟩ := List.exists_cons_of_ne_nil (List.reverse_ne_nil_iff.mpr nonEmpty)
  have headNe : c ≠ '/' := by simpa using kept c (reversed ▸ List.mem_cons_self c rest)
  have trimmedKeeps : ∀ l, (e.reverse ++ l).dropWhile (· == '/') = e.reverse ++ l := by
    intro l; rw [reversed]; simp [List.dropWhile_cons, headNe]
  intro q
  constructor
  · have flipped : (q ++ '/' :: e).reverse = e.reverse ++ '/' :: q.reverse := by simp
    simp only [baseChars, flipped, trimmedKeeps, List.append_eq_nil, List.reverse_eq_nil_iff,
      nonEmpty, false_and, if_false, List.cons_ne_nil, and_false]
    rw [List.takeWhile_append_of_pos kept]
    simp
  · have whole := trimmedKeeps []
    rw [List.append_nil] at whole
    simp only [baseChars, nonEmpty, if_false, whole, List.reverse_eq_nil_iff]
    rw [(List.takeWhile_eq_self_iff).mpr kept, List.reverse_reverse]

/-- A path whose last element is `e`: `e` itself, or `e` after a slash. -/
def EndsIn (e p : List Char) : Prop := p = e ∨ ∃ x, p = x ++ '/' :: e

theorem baseChars_of_endsIn {e p : List Char} (nonEmpty : e ≠ []) (noSlash : '/' ∉ e) (ends : EndsIn e p) :
    baseChars p = e := by
  rcases ends with rfl | ⟨x, rfl⟩
  · exact (baseChars_of_plain nonEmpty noSlash []).2
  · exact (baseChars_of_plain nonEmpty noSlash x).1

/-- Cleaning a path that ends in a plain element keeps that element last. -/
theorem endsIn_cleanChars_slash {e : List Char} (plain : Plain e) (x : List Char) :
    EndsIn e (cleanChars (x ++ '/' :: e)) := by
  obtain ⟨nonEmpty, noSlash, notDot, notDotDot⟩ := plain
  have stepKeeps : ∀ rooted kept, cleanStep rooted kept e = e :: kept := by
    intro rooted kept
    simp [cleanStep, nonEmpty, notDot, notDotDot]
  simp only [cleanChars, List.append_eq_nil, List.cons_ne_nil, and_false, if_false,
    elements_append_slash noSlash, List.foldl_append, List.foldl_cons, List.foldl_nil,
    stepKeeps, List.reverse_cons]
  generalize List.foldl _ [] (elements x) = kept
  by_cases empty : kept = []
  · subst empty
    simp only [List.reverse_nil, List.nil_append, joinElements]
    split
    · exact .inr ⟨[], rfl⟩
    · simp [nonEmpty, EndsIn]
  · rw [joinElements_append_singleton e _ (by simpa using empty)]
    split
    · exact .inr ⟨_, (List.cons_append _ _ _).symm⟩
    · simp only [List.append_eq_nil, List.cons_ne_nil, and_false, if_false]; exact .inr ⟨_, rfl⟩

theorem baseChars_cleanChars_slash {e : List Char} (plain : Plain e) (x : List Char) :
    baseChars (cleanChars (x ++ '/' :: e)) = e :=
  baseChars_of_endsIn plain.1 plain.2.1 (endsIn_cleanChars_slash plain x)

/-- A path with no trailing slash ends in its base, which has no slash. -/
theorem endsIn_baseChars {p : List Char} (nonEmpty : p ≠ []) (noTrail : p.getLast? ≠ some '/') :
    '/' ∉ baseChars p ∧ EndsIn (baseChars p) p := by
  obtain ⟨c, rest, reversed⟩ := List.exists_cons_of_ne_nil (List.reverse_ne_nil_iff.mpr nonEmpty)
  have headNe : c ≠ '/' := fun same => noTrail (by rw [← List.head?_reverse, reversed, same]; rfl)
  have trimmed : p.reverse.dropWhile (· == '/') = p.reverse := by
    rw [reversed]; simp [List.dropWhile_cons, headNe]
  simp only [baseChars, nonEmpty, if_false, trimmed, List.reverse_eq_nil_iff, List.mem_reverse]
  refine ⟨fun mem => by simpa using List.mem_takeWhile_imp mem, ?_⟩
  have whole := List.takeWhile_append_dropWhile (· != '/') p.reverse
  generalize dropped : p.reverse.dropWhile (· != '/') = rest' at whole
  generalize p.reverse.takeWhile (· != '/') = taken at whole ⊢
  have flipped := congrArg List.reverse whole
  rw [List.reverse_reverse, List.reverse_append] at flipped
  cases rest' with
  | nil => exact .inl (by simpa using flipped.symm)
  | cons d rest' =>
    have slash : d = '/' := by
      have := List.head_dropWhile_not (· != '/') p.reverse (by simp [dropped])
      simp only [dropped, List.head_cons] at this
      simpa using this
    subst slash
    exact .inr ⟨rest'.reverse, by simpa using flipped.symm⟩

/-- `path.Join(d, e)` of a non-empty `d` and a plain `e` has `e` as its base. -/
theorem base_join_plain {d : List Char} {e : List Char} (nonEmpty : d ≠ []) (plain : Plain e) :
    baseChars (joinChars d e) = e := by
  simp only [joinChars, nonEmpty, if_false]
  exact baseChars_cleanChars_slash plain d

theorem base_join {d e : String} (nonEmpty : d.data ≠ []) (plain : Plain e.data) : base (join d e) = e :=
  String.ext (base_join_plain nonEmpty plain)

end Confd.Go.Path

namespace Confd.Go.Strings

/-- `strings.HasPrefix`. -/
def hasPrefix (s pre : String) : Bool := pre.data.isPrefixOf s.data

/-- `strings.TrimPrefix`: `s` without the leading `pre`, or `s` itself when it does not start
with `pre`. -/
def trimPrefix (s pre : String) : String :=
  if hasPrefix s pre then ⟨s.data.drop pre.length⟩ else s

/-- Whether `sub` occurs in the characters `s`. -/
def containsChars (sub : List Char) : List Char → Bool
  | [] => sub.isEmpty
  | c :: cs => sub.isPrefixOf (c :: cs) || containsChars sub cs

/-- `strings.Contains`. -/
def contains (s sub : String) : Bool := containsChars sub.data s.data

/-- `strings.ContainsAny`. -/
def containsAny (s chars : String) : Bool := s.data.any (chars.data.contains ·)

example : trimPrefix "/app/db" "/app/" = "db" ∧ trimPrefix "/app" "/app/" = "/app" := by decide
example : contains "rename a b: device or resource busy" "resource busy" := by decide

end Confd.Go.Strings

namespace Confd.Go.Strconv

/-- `lower(c)` of `strconv`: ASCII letters to lower case. -/
def lower (c : Char) : Char := if 'A' ≤ c ∧ c ≤ 'Z' then Char.ofNat (c.toNat + 32) else c

/-- The value of a digit or letter in bases up to 36, if it is one. -/
def digitValue (c : Char) : Option Nat :=
  if '0' ≤ c ∧ c ≤ '9' then some (c.toNat - '0'.toNat)
  else if 'a' ≤ lower c ∧ lower c ≤ 'z' then some ((lower c).toNat - 'a'.toNat + 10)
  else none

/-- `underscoreOK`: underscores only between digits, or right after a base prefix. `saw` is
`0` after a digit or prefix, `1` after an underscore, `2` after anything else, `3` at the
start. -/
def underscoreOK (s : List Char) : Bool :=
  let (rest, saw, hex) :=
    match s with
    | '0' :: b :: rest => if lower b = 'b' ∨ lower b = 'o' ∨ lower b = 'x' then (rest, 0, lower b == 'x') else (s, 3, false)
    | _ => (s, 3, false)
  let saw := rest.foldl (fun saw c =>
    if saw = 4 then 4
    else if ('0' ≤ c ∧ c ≤ '9') ∨ (hex ∧ 'a' ≤ lower c ∧ lower c ≤ 'f') then 0
    else if c = '_' then (if saw = 0 then 1 else 4)
    else if saw = 1 then 4 else 2) saw
  saw ≠ 1 ∧ saw ≠ 4

/-- `strconv.ParseUint(s, 0, bitSize)`: base from the prefix (`0b`, `0o`, `0x`, a leading `0`
for octal, decimal otherwise), underscores allowed as Go literals allow them, and values that
do not fit in `bitSize` bits rejected. -/
def parseUint (s : String) (bitSize : Nat) : Except String Nat :=
  let syntaxError : Except String Nat := .error ("strconv.ParseUint: parsing " ++ s.quote ++ ": invalid syntax")
  if s.isEmpty then syntaxError
  else
    let (base, digits) :=
      match s.data with
      | '0' :: b :: rest =>
        if rest ≠ [] ∧ lower b = 'b' then (2, rest)
        else if rest ≠ [] ∧ lower b = 'o' then (8, rest)
        else if rest ≠ [] ∧ lower b = 'x' then (16, rest)
        else (8, b :: rest)
      | ['0'] => (8, [])
      | cs => (10, cs)
    let rangeError : Except String Nat := .error ("strconv.ParseUint: parsing " ++ s.quote ++ ": value out of range")
    let value := digits.foldl (fun (acc : Except String Nat) c =>
      acc.bind fun n =>
        if c = '_' then .ok n
        else
          match digitValue c with
          | some d => if d < base then (if n * base + d < 2 ^ bitSize then .ok (n * base + d) else rangeError)
            else syntaxError
          | none => syntaxError) (.ok 0)
    value.bind fun n => if '_' ∈ s.data ∧ !underscoreOK s.data then syntaxError else .ok n

example : parseUint "0644" 32 = .ok 420 ∧ parseUint "0x1A4" 32 = .ok 420 ∧ parseUint "644" 32 = .ok 644 :=
  ⟨rfl, rfl, rfl⟩

end Confd.Go.Strconv
