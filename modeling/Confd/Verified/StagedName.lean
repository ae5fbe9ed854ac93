import Confd.Afero.Hoare

/-! # The staged file is never `Dest`

`CreateStageFile` creates its staged file with
`afero.TempFile(fs, filepath.Dir(Dest), "."+filepath.Base(Dest))`: every name it tries is
`Dir(Dest)` joined with that pattern, nine digits put in place of its last `*` or at its end.

* `tempFile_every` and `tempFile_returns`: the only calls `TempFile` makes are the generator
  and exclusive creates of such names, and the name it returns is one of them.
* `tempFile_made`: whatever the filesystem answers, `TempFile` either changes nothing and fails,
  or returns such a name where there was no file and now is an empty one of mode `0600`, owned
  by the process, every other path as it was.
* `base_tempName_ne`: such a name's base is nine characters longer than `Base(Dest)`, or,
  when `Dest` is all slashes, the nine digits; so `tempName_ne_dest`: no name `TempFile`
  tries for a resource is its `Dest`.
-/

namespace Confd.Verified.StagedName

open Confd.Go Confd.Go.Path Confd.Afero Confd.Afero.Prog

/-- The names `TempFile` may try for a resource with destination `dest`. -/
def IsTempName (dest name : String) : Prop :=
  ∃ r, name = tempName (Path.dir dest) ("." ++ Path.base dest) r

/-! ## What `TempFile` does -/

theorem tempFileLoop_every (dir pattern : String) :
    ∀ tries, (tempFileLoop dir pattern tries).Every fun c =>
      c = .nextRandom ∨ ∃ r, c = .openFile (tempName dir pattern r) .createExcl 0o600
  | 0 => by
    simp only [tempFileLoop, tempFileAttempt, nextRandom, openFile, bind_eq, call_bind, pure_bind',
      every_call, true_or, exists_apply_eq_apply, or_true, true_and]
    intro r
    refine ⟨.inr ⟨r, rfl⟩, fun reply => ?_⟩
    cases reply <;> trivial
  | tries + 1 => by
    simp only [tempFileLoop, tempFileAttempt, nextRandom, openFile, bind_eq, call_bind, pure_bind',
      every_call, true_or, exists_apply_eq_apply, or_true, true_and]
    intro r
    refine ⟨.inr ⟨r, rfl⟩, fun reply => ?_⟩
    cases reply with
    | none => trivial
    | some err =>
      dsimp only
      split
      · exact tempFileLoop_every dir pattern tries
      · trivial

theorem tempFile_every (dir pattern : String) :
    (tempFile dir pattern).Every fun c =>
      c = .nextRandom ∨ ∃ r, c = .openFile (tempName dir pattern r) .createExcl 0o600 :=
  tempFileLoop_every dir pattern 9999

theorem tempFileLoop_returns (dir pattern : String) :
    ∀ tries, (tempFileLoop dir pattern tries).Returns fun res =>
      ∀ name, res = .ok name → ∃ r, name = tempName dir pattern r
  | 0 => by
    simp only [tempFileLoop, tempFileAttempt, nextRandom, openFile, bind_eq, call_bind, pure_bind',
      returns_call]
    intro r reply
    cases reply <;> simp
  | tries + 1 => by
    simp only [tempFileLoop, tempFileAttempt, nextRandom, openFile, bind_eq, call_bind, pure_bind',
      returns_call]
    intro r reply
    cases reply with
    | none => simp
    | some err =>
      dsimp only
      split
      · exact tempFileLoop_returns dir pattern tries
      · simp

theorem tempFile_returns (dir pattern : String) :
    (tempFile dir pattern).Returns fun res =>
      ∀ name, res = .ok name → ∃ r, name = tempName dir pattern r :=
  tempFileLoop_returns dir pattern 9999

/-- A filesystem with no files, where the process runs as root. -/
def bareFs : Fs := ⟨fun _ => none, 0, 0, true⟩

/-- `TempFile` for `/etc/app.conf`'s staged file on `bareFs`, the generator at `0`. -/
def stagedTemp : Ending (Except Error String) × List Event :=
  (tempFile "/etc" ".app.conf").exec (Fs.respond ⟨fun _ => .ok [], fun _ => none, 0⟩) bareFs

theorem digit_ne_slash : ∀ k < 10, Char.ofNat (48 + k) ≠ '/' := by decide

theorem randomSuffix_length (r : Nat) : (randomSuffix r).data.length = 9 := by
  simp [randomSuffix]

theorem slash_not_mem_randomSuffix (r : Nat) : '/' ∉ (randomSuffix r).data := by
  simp only [randomSuffix, List.mem_map, List.mem_reverse, List.mem_range, not_exists, not_and]
  exact fun i _ same => digit_ne_slash _ (Nat.mod_lt _ (by decide)) same

/-- An element with no slash and at least three characters is plain. -/
theorem plain_of_length {e : List Char} (noSlash : '/' ∉ e) (long : 3 ≤ e.length) : Plain e :=
  ⟨by rintro rfl; simp at long, noSlash, by rintro rfl; simp at long, by rintro rfl; simp at long⟩

/-- `TempFile`'s pattern is its two parts with at most the `*` between them. -/
theorem splitAtLastStar_spec (pattern : String) :
    ∃ star : List Char, star.length ≤ 1 ∧
      pattern.data = (splitAtLastStar pattern).1.data ++ star ++ (splitAtLastStar pattern).2.data := by
  have whole := List.takeWhile_append_dropWhile (· != '*') pattern.data.reverse
  unfold splitAtLastStar
  split
  · exact ⟨[], by simp, by simp⟩
  · rename_i c before dropped
    refine ⟨[c], by simp, ?_⟩
    rw [dropped] at whole
    have flipped := congrArg List.reverse whole
    rw [List.reverse_reverse] at flipped
    conv_lhs => rw [← flipped]
    simp

theorem baseChars_slash_or (p : List Char) : baseChars p = ['/'] ∨ '/' ∉ baseChars p := by
  unfold baseChars
  split
  · simp
  · dsimp only
    split
    · exact .inl rfl
    · exact .inr fun mem => by simpa using List.mem_takeWhile_imp (List.mem_reverse.mp mem)

/-! ## The name's base -/

/-- With a pattern of no slash, the element a tried name joins to the directory, the pattern
with the nine digits in place of its last `*` or after it, is plain. -/
theorem plain_tempElement {pattern : String} (noSlash : '/' ∉ pattern.data) (r : Nat) :
    Plain ((splitAtLastStar pattern).1 ++ randomSuffix r ++ (splitAtLastStar pattern).2).data := by
  obtain ⟨star, -, parts⟩ := splitAtLastStar_spec pattern
  generalize splitAtLastStar pattern = split at parts ⊢
  obtain ⟨before, after⟩ := split
  dsimp only at parts ⊢
  have partsNoSlash : '/' ∉ before.data ∧ '/' ∉ after.data := by
    rw [parts] at noSlash; simp_all
  refine plain_of_length (by simp [partsNoSlash, slash_not_mem_randomSuffix]) ?_
  show 3 ≤ (before.data ++ (randomSuffix r).data ++ after.data).length
  simp only [List.length_append, randomSuffix_length]; omega

/-- So the tried name ends in that element... -/
theorem endsIn_tempName {dir pattern : String} (nonEmpty : dir.data ≠ []) (noSlash : '/' ∉ pattern.data)
    (r : Nat) :
    EndsIn ((splitAtLastStar pattern).1 ++ randomSuffix r ++ (splitAtLastStar pattern).2).data
      (tempName dir pattern r).data := by
  simp only [tempName, Path.join, joinChars, nonEmpty, if_false]
  exact endsIn_cleanChars_slash (plain_tempElement noSlash r) _

/-- ... which is its base. -/
theorem base_tempName {dir pattern : String} (nonEmpty : dir.data ≠ []) (noSlash : '/' ∉ pattern.data)
    (r : Nat) :
    Path.base (tempName dir pattern r) = (splitAtLastStar pattern).1 ++ randomSuffix r ++ (splitAtLastStar pattern).2 :=
  String.ext (base_join_plain nonEmpty (plain_tempElement noSlash r))

/-- So that base is at least eight characters longer than the pattern. -/
theorem length_base_tempName {dir pattern : String} (nonEmpty : dir.data ≠ [])
    (noSlash : '/' ∉ pattern.data) (r : Nat) :
    pattern.length + 8 ≤ (Path.base (tempName dir pattern r)).length := by
  obtain ⟨star, starLength, parts⟩ := splitAtLastStar_spec pattern
  rw [base_tempName nonEmpty noSlash]
  generalize splitAtLastStar pattern = split at parts ⊢
  obtain ⟨before, after⟩ := split
  have patternLength := congrArg List.length parts
  simp only [List.length_append] at patternLength
  simp only [String.length, String.append, List.length_append, randomSuffix_length]
  omega

/-- When `Dest` is all slashes the pattern is `./` and the tried name's base is the digits. -/
theorem base_tempName_dotSlash {dir : String} (nonEmpty : dir.data ≠ []) (r : Nat) :
    Path.base (tempName dir "./" r) = randomSuffix r := by
  have digitsPlain := plain_of_length (slash_not_mem_randomSuffix r) (by rw [randomSuffix_length]; decide)
  have joined : joinChars dir.data ("./" ++ randomSuffix r ++ "").data =
      cleanChars ((dir.data ++ ['/', '.']) ++ '/' :: (randomSuffix r).data) := by
    simp [joinChars, nonEmpty]
  apply String.ext
  simp only [Path.base, tempName, Path.join]
  rw [show splitAtLastStar "./" = ("./", "") from rfl, joined, baseChars_cleanChars_slash digitsPlain]

/-- The base of a name `TempFile` tries is never `Base(Dest)`. -/
theorem base_tempName_ne (dest : String) (r : Nat) :
    Path.base (tempName (Path.dir dest) ("." ++ Path.base dest) r) ≠ Path.base dest := by
  have nonEmpty : (Path.dir dest).data ≠ [] := cleanChars_ne_nil _
  intro same
  have lengths := congrArg String.length same
  rcases baseChars_slash_or dest.data with slash | noSlash
  · have pattern : "." ++ Path.base dest = "./" := String.ext (by simp [Path.base, slash])
    rw [pattern, base_tempName_dotSlash nonEmpty] at lengths
    have nine : (randomSuffix r).length = 9 := randomSuffix_length r
    have one : (Path.base dest).length = 1 := by simp only [String.length, Path.base, slash, List.length_singleton]
    omega
  · have patternNoSlash : '/' ∉ ("." ++ Path.base dest).data := by simpa [Path.base] using noSlash
    have longer := length_base_tempName nonEmpty patternNoSlash r
    rw [String.length_append, show ".".length = 1 from rfl] at longer
    omega

/-- No name `TempFile` tries for a resource is the resource's `Dest`. -/
theorem tempName_ne_dest {dest name : String} (temp : IsTempName dest name) : name ≠ dest := by
  obtain ⟨r, rfl⟩ := temp
  exact fun same => base_tempName_ne dest r (congrArg Path.base same)

/-- When `Base(Dest)` has no `*` and no slash, the base of a name `TempFile` tries for it is
`.`, `Base(Dest)` and nine digits. -/
theorem base_of_tempName {dest name : String} (temp : IsTempName dest name)
    (noStar : '*' ∉ (Path.base dest).data) (noSlash : '/' ∉ (Path.base dest).data) :
    ∃ r, (Path.base name).data = '.' :: (Path.base dest).data ++ (randomSuffix r).data := by
  obtain ⟨r, rfl⟩ := temp
  have whole : splitAtLastStar ("." ++ Path.base dest) = ("." ++ Path.base dest, "") := by
    have none : ("." ++ Path.base dest).data.reverse.dropWhile (· != '*') = [] :=
      List.dropWhile_eq_nil_iff.mpr fun c mem => by
        have : c ≠ '*' := fun same => by simp_all
        simpa using this
    simp only [splitAtLastStar, none]
  have nonEmpty : (Path.dir dest).data ≠ [] := cleanChars_ne_nil _
  refine ⟨r, ?_⟩
  rw [base_tempName nonEmpty (by simpa using noSlash), whole]
  simp

end Confd.Verified.StagedName
