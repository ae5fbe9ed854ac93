import Confd.Verified.Idempotence

/-! # The mode `setFileMode` settles on

`setFileMode` reads a configured `Mode` with `strconv.ParseUint(Mode, 0, 32)`: the base comes
from the spelling, as for a Go integer literal. A mode written with a leading `0` and octal
digits, as modes usually are, is its octal value; one written with decimal digits and no
leading `0` is its decimal value, so `644` is not `0644`. Past 32 bits the parse fails with a
range error, which `setFileMode` returns (`setFileMode_mode`).

With no `Mode` configured the mode is inherited: whatever the filesystem answers, a run of
`setFileMode` that returns a resource gives it the mode of the file at `Dest`, or `0644` when
there is none (`setFileMode_resolves`).

The digit loop is stated once from what one step does (`foldl_digits`): it appends the digit's
value or fails for good once the value passes `2 ^ bitSize`, and values only grow
(`le_digitsValue`), so the first overflow is an overflow of the whole number.
-/

namespace Confd.Go.Strconv

/-- The number digits `0`-`9` spell in base `base`, after the value `n` read before them. -/
def digitsValue (base : Nat) (n : Nat) (ds : List Char) : Nat :=
  ds.foldl (fun n c => n * base + (c.toNat - 48)) n

theorem le_digitsValue {base : Nat} (positive : 0 < base) :
    ∀ (ds : List Char) (n : Nat), n ≤ digitsValue base n ds
  | [], _ => le_refl _
  | c :: ds, n => by
    have := le_digitsValue positive ds (n * base + (c.toNat - 48))
    have : n ≤ n * base := Nat.le_mul_of_pos_right n positive
    simp only [digitsValue, List.foldl_cons] at *
    omega

/-- A character from `0` to `9`: its digit value, and it is neither a letter nor `_`. -/
theorem digit_of_le {c : Char} {hi : Nat} (lo : '0' ≤ c) (le : c.toNat ≤ 48 + hi) (small : hi ≤ 9) :
    digitValue c = some (c.toNat - 48) ∧ lower c = c ∧ c ≠ '_' := by
  have lo' : 48 ≤ c.toNat := lo
  have nine : c ≤ '9' := show c.toNat ≤ 57 by omega
  refine ⟨by simp [digitValue, lo, nine], ?_, ?_⟩
  · have notUpper : ¬('A' ≤ c ∧ c ≤ 'Z') := fun ⟨upper, _⟩ => by
      have : 65 ≤ c.toNat := upper
      omega
    simp [lower, notUpper]
  · rintro rfl
    have : '_'.toNat = 95 := rfl
    omega

/-- The digit loop, from what one step does: on a digit it appends the digit's value, or fails
with the range error once the value passes `2 ^ bitSize`; a failure stays. -/
theorem foldl_digits {f : Except String Nat → Char → Except String Nat} (base bitSize : Nat) (range : String)
    (positive : 0 < base) (failed : ∀ msg c, f (.error msg) c = .error msg) (ds : List Char)
    (step : ∀ c ∈ ds, ∀ n, f (.ok n) c =
      if n * base + (c.toNat - 48) < 2 ^ bitSize then .ok (n * base + (c.toNat - 48)) else .error range) :
    ∀ n, n < 2 ^ bitSize →
      ds.foldl f (.ok n) = if digitsValue base n ds < 2 ^ bitSize then .ok (digitsValue base n ds) else .error range := by
  induction ds with
  | nil => intro n fits; simp [digitsValue, fits]
  | cons c ds ih =>
    intro n fits
    have rest := ih fun d mem => step d (List.mem_cons_of_mem _ mem)
    have after : digitsValue base n (c :: ds) = digitsValue base (n * base + (c.toNat - 48)) ds := rfl
    rw [List.foldl_cons, step c (List.mem_cons_self _ _), after]
    split
    · exact rest _ ‹_›
    · have stays : ∀ ds : List Char, ds.foldl f (.error range) = .error range := fun ds => by
        induction ds with
        | nil => rfl
        | cons c ds ih => rw [List.foldl_cons, failed, ih]
      have := le_digitsValue positive ds (n * base + (c.toNat - 48))
      rw [stays, if_neg (by omega)]

theorem isEmpty_cons (c : Char) (cs : List Char) : String.isEmpty ⟨c :: cs⟩ = false := by
  have := c.utf8Size_pos
  simp only [String.isEmpty, String.endPos, String.utf8ByteSize, String.utf8ByteSize.go, beq_eq_false_iff_ne]
  intro h
  injection h with h
  omega

/-- The message of `ParseUint`'s range error. -/
def rangeMessage (s : String) : String := "strconv.ParseUint: parsing " ++ s.quote ++ ": value out of range"

/-- A `0` then octal digits is read in base 8: its value when it fits in `bitSize` bits, else a
range error. -/
theorem parseUint_octal {ds : List Char} (octal : ∀ c ∈ ds, '0' ≤ c ∧ c ≤ '7') (bitSize : Nat) :
    parseUint ⟨'0' :: ds⟩ bitSize =
      if digitsValue 8 0 ds < 2 ^ bitSize then .ok (digitsValue 8 0 ds) else .error (rangeMessage ⟨'0' :: ds⟩) := by
  have digits : ∀ c ∈ ds, digitValue c = some (c.toNat - 48) ∧ c.toNat - 48 < 8 ∧ c ≠ '_' := fun c mem => by
    obtain ⟨lo, hi⟩ := octal c mem
    have : 48 ≤ c.toNat := lo
    have : c.toNat ≤ 55 := hi
    obtain ⟨value, -, notUnderscore⟩ := digit_of_le lo (show c.toNat ≤ 48 + 7 from hi) (by omega)
    exact ⟨value, by omega, notUnderscore⟩
  cases ds with
  | nil => simp [parseUint, digitsValue, Nat.two_pow_pos, Except.bind, show "0".isEmpty = false from rfl]
  | cons d rest =>
    obtain ⟨lo, hi⟩ := octal d (List.mem_cons_self _ _)
    obtain ⟨-, lowered, -⟩ := digit_of_le lo (show d.toNat ≤ 48 + 7 from hi) (by omega)
    have notPrefix : d ≠ 'b' ∧ d ≠ 'o' ∧ d ≠ 'x' := by
      have : d.toNat ≤ 55 := hi
      refine ⟨?_, ?_, ?_⟩ <;> rintro rfl <;> exact absurd this (by decide)
    have noUnderscore : '_' ∉ '0' :: d :: rest := fun mem =>
      (List.mem_cons.mp mem).elim (fun h => absurd h (by decide)) fun mem => (digits _ mem).2.2 rfl
    simp only [parseUint, isEmpty_cons, lowered, notPrefix, and_false, if_false, Bool.false_eq_true]
    rw [foldl_digits 8 bitSize (rangeMessage ⟨'0' :: d :: rest⟩) (by omega) (fun _ _ => rfl) _ ?_ 0
      (Nat.two_pow_pos _)]
    · split <;> simp [Except.bind, noUnderscore]
    · intro c mem n
      obtain ⟨value, below, notUnderscore⟩ := digits c mem
      simp only [Except.bind.eq_2, notUnderscore, if_false, value, below, if_true, rangeMessage]

/-- Decimal digits with no leading `0` are read in base 10. -/
theorem parseUint_decimal {c : Char} {ds : List Char} (lead : '1' ≤ c ∧ c ≤ '9')
    (decimal : ∀ d ∈ ds, '0' ≤ d ∧ d ≤ '9') (bitSize : Nat) :
    parseUint ⟨c :: ds⟩ bitSize =
      if digitsValue 10 0 (c :: ds) < 2 ^ bitSize then .ok (digitsValue 10 0 (c :: ds))
      else .error (rangeMessage ⟨c :: ds⟩) := by
  have digits : ∀ d ∈ c :: ds, digitValue d = some (d.toNat - 48) ∧ d.toNat - 48 < 10 ∧ d ≠ '_' := by
    refine fun d mem => ?_
    have bounds : '0' ≤ d ∧ d ≤ '9' := (List.mem_cons.mp mem).elim
      (fun same => same ▸ ⟨le_trans (by decide) lead.1, lead.2⟩) (decimal d)
    have : 48 ≤ d.toNat := bounds.1
    have : d.toNat ≤ 57 := bounds.2
    obtain ⟨value, -, notUnderscore⟩ := digit_of_le bounds.1 (show d.toNat ≤ 48 + 9 from bounds.2) le_rfl
    exact ⟨value, by omega, notUnderscore⟩
  have notZero : c ≠ '0' := by
    rintro rfl
    exact absurd lead.1 (by decide)
  have noUnderscore : '_' ∉ c :: ds := fun mem => (digits _ mem).2.2 rfl
  simp only [parseUint, isEmpty_cons, if_false, Bool.false_eq_true]
  split
  · rename_i same
    exact absurd (List.cons.inj same).1 notZero
  · rename_i same
    exact absurd (List.cons.inj same).1 notZero
  dsimp only
  rw [foldl_digits 10 bitSize (rangeMessage ⟨c :: ds⟩) (by omega) (fun _ _ => rfl) _ ?_ 0 (Nat.two_pow_pos _)]
  · split <;> simp [Except.bind, noUnderscore]
  · intro d mem n
    obtain ⟨value, below, notUnderscore⟩ := digits d mem
    simp only [Except.bind.eq_2, notUnderscore, if_false, value, below, if_true, rangeMessage]

example : parseUint "644" 32 = .ok 644 ∧ parseUint "0644" 32 = .ok 420 := ⟨rfl, rfl⟩

end Confd.Go.Strconv

namespace Confd.Verified.ModeString

open Confd.Go Confd.Go.Strconv Confd.Afero Confd.Util Confd.Template
  Confd.Verified.Idempotence

/-- How a mode is spelled: a `0` and octal digits, read in base 8, or decimal digits with no
leading `0`, read in base 10. -/
def Spelled (mode : String) (base : Nat) (ds : List Char) : Prop :=
  (mode.data = '0' :: ds ∧ base = 8 ∧ ∀ c ∈ ds, '0' ≤ c ∧ c ≤ '7') ∨
    (base = 10 ∧ ∃ c rest, mode.data = ds ∧ ds = c :: rest ∧ ('1' ≤ c ∧ c ≤ '9') ∧
      ∀ d ∈ rest, '0' ≤ d ∧ d ≤ '9')

/-- A configured mode spelled as a number is read in the base its spelling gives: `setFileMode`
makes no call and sets that value, or returns `ParseUint`'s range error past 32 bits. -/
theorem setFileMode_mode {t : TemplateResource} {base : Nat} {ds : List Char} (spelled : Spelled t.mode base ds) :
    setFileMode t = pure (if digitsValue base 0 ds < 2 ^ 32 then .ok { t with fileMode := digitsValue base 0 ds }
      else .error (.new (rangeMessage t.mode))) := by
  have parsed : parseUint t.mode 32 =
      if digitsValue base 0 ds < 2 ^ 32 then .ok (digitsValue base 0 ds) else .error (rangeMessage t.mode) := by
    rcases spelled with ⟨written, rfl, octal⟩ | ⟨rfl, c, rest, written, rfl, lead, decimal⟩
    · rw [show t.mode = ⟨'0' :: ds⟩ from String.ext written]
      exact parseUint_octal octal 32
    · rw [show t.mode = ⟨c :: rest⟩ from String.ext written]
      exact parseUint_decimal lead decimal 32
  have configured : t.mode ≠ "" := by
    rcases spelled with ⟨written, -⟩ | ⟨-, _, _, written, rfl, -⟩ <;> intro empty <;> rw [empty] at written <;>
      cases written
  by_cases fits : digitsValue base 0 ds < 2 ^ 32 <;>
    simp only [setFileMode, configured, if_false, parsed, fits, if_true]

theorem setFileMode_mode_0644 :
    Spelled "0644" 8 ['6', '4', '4'] ∧
      setFileMode { TemplateResource.zero with mode := "0644" } =
        pure (.ok { TemplateResource.zero with mode := "0644", fileMode := 0o644 }) :=
  have spelled : Spelled "0644" 8 ['6', '4', '4'] := .inl ⟨rfl, rfl, by decide⟩
  ⟨spelled, setFileMode_mode (t := { TemplateResource.zero with mode := "0644" }) spelled⟩

/-- The mode a resource settles on: the configured `Mode` as `ParseUint` reads it, else the mode
of the file at `Dest`, else `0644`. -/
def resolvedMode (mode : String) (dest : Option FileEntry) : Except String Nat :=
  if mode = "" then .ok ((dest.map FileEntry.mode).getD 0o644) else parseUint mode 32

theorem setFileMode_ensures {P : Event → Prop} (t : TemplateResource) (fs : Fs) :
    (setFileMode t).Ensures P (fun _ res => ∀ t', res = .ok t' →
      ∃ m, resolvedMode t.mode (fs.files t.dest) = .ok m ∧ t' = { t with fileMode := m }) fs := by
  unfold setFileMode
  by_cases configured : t.mode = ""
  · rw [if_pos configured]
    refine Prog.ensures_bind ((isFileExist_ensures t.dest fs).mono fun fs' found ⟨same, present⟩ => ?_)
    subst same
    cases found with
    | false =>
      have absent : fs'.files t.dest = none := by simpa using present
      simp [resolvedMode, configured, absent]
    | true =>
      refine Prog.ensures_bind (Prog.ensures_call_of_written_nil rfl fun r allowed _ => ?_)
      cases r with
      | error => simp
      | ok info =>
        obtain ⟨f, found, rfl⟩ := allowed
        simp [resolvedMode, configured, found, FileEntry.info]
  · rw [if_neg configured]
    split <;> simp [resolvedMode, configured, *]

/-- Whatever the filesystem answers, a resource `setFileMode` returns has the mode
`resolvedMode` gives for the file at `Dest` when it ran. -/
theorem setFileMode_resolves {t t' : TemplateResource} {tr : List Event} {fs : Fs}
    (run : (setFileMode t).Yields tr (.returned (.ok t'))) (admissible : Admissible fs tr) :
    ∃ m, resolvedMode t.mode (fs.files t.dest) = .ok m ∧ t' = { t with fileMode := m } :=
  (setFileMode_ensures (P := fun _ => True) t fs).yields run admissible (fun _ _ => trivial) t' rfl

/-- The resource of `app.tmpl` with no `Mode` configured. -/
def inheritingApp : TemplateResource := { Totality.appResource with mode := "" }

/-- `memFs` with `/etc/app.conf` readable by its owner's group only. -/
def groupFs : Fs :=
  { Totality.memFs with
    files := fun p => if p = "/etc/app.conf" then some ⟨[0], 0o640, 0, 0⟩ else Totality.memFs.files p }

/-- The run of `setFileMode` on `groupFs`, every call answered as the files are. -/
def inheritedRun : Ending (Except Error TemplateResource) × List Event :=
  (setFileMode inheritingApp).exec (Fs.respond Totality.quietEnv) groupFs

theorem setFileMode_resolves_inherited :
    (setFileMode inheritingApp).Yields inheritedRun.2 (.returned (.ok { inheritingApp with fileMode := 0o640 })) ∧
      Admissible groupFs inheritedRun.2 ∧
      ∃ m, resolvedMode inheritingApp.mode (groupFs.files inheritingApp.dest) = .ok m ∧
        { inheritingApp with fileMode := 0o640 } = { inheritingApp with fileMode := m } :=
  have run : (setFileMode inheritingApp).Yields inheritedRun.2 (.returned (.ok { inheritingApp with fileMode := 0o640 })) :=
    exec_yields_of rfl
  have admissible := exec_admissible (respond_allowed Totality.quietEnv) (setFileMode inheritingApp) groupFs
  ⟨run, admissible, setFileMode_resolves run admissible⟩

end Confd.Verified.ModeString
