import Confd.Afero.Helpers

/-! # `Glob`'s fast path for patterns without metacharacters

afero's `Glob` does not match a pattern in which `hasMeta` finds none of `*?[`: it looks the
pattern up as a file name. `path.Match` reads a pattern with a backslash differently: `\\`
escapes the character after it. So the lookup and the matcher agree on which names such a
pattern names exactly when it has no backslash (`match_literal_iff`): without one, every term
of the pattern is a literal character (`globTerms_literal`, `matchTerms_lits`); with one, the
terms are fewer than the pattern's characters (`globTerms_lits`), so the pattern does not match
itself.
-/

namespace Confd.Afero

open Confd.Go Confd.Go.Path

theorem chars_of_hasMeta_false {p : String} (noMeta : hasMeta p = false) :
    ∀ c ∈ p.data, c ≠ '*' ∧ c ≠ '?' ∧ c ≠ '[' := by
  intro c mem
  have absent := List.any_eq_false.mp noMeta c mem
  refine ⟨?_, ?_, ?_⟩ <;> rintro rfl <;> exact absent (by decide)

/-- A pattern of ordinary characters is a literal for each of them. -/
theorem globTerms_literal :
    ∀ (fuel : Nat) (cs : List Char), cs.length ≤ fuel → (∀ c ∈ cs, c ≠ '*' ∧ c ≠ '?' ∧ c ≠ '[') →
      '\\' ∉ cs → globTerms fuel cs = some (cs.map .lit)
  | _, [], _, _, _ => by simp [globTerms]
  | 0, _ :: _, short, _, _ => absurd short (by simp)
  | fuel + 1, c :: cs, short, plain, noEscape => by
    obtain ⟨notStar, notAny, notClass⟩ := plain c (List.mem_cons_self _ _)
    have notEscape : c ≠ '\\' := fun h => noEscape (h ▸ List.mem_cons_self _ _)
    have rest := globTerms_literal fuel cs (by simpa using short)
      (fun d mem => plain d (List.mem_cons_of_mem _ mem)) (fun mem => noEscape (List.mem_cons_of_mem _ mem))
    simp [globTerms, notStar, notAny, notClass, notEscape, rest]

/-- The terms of a pattern with no `*?[` are literals, fewer than its characters when it has a
backslash. -/
theorem globTerms_lits :
    ∀ (fuel : Nat) (cs : List Char) (ts : List GlobTerm), (∀ c ∈ cs, c ≠ '*' ∧ c ≠ '?' ∧ c ≠ '[') →
      globTerms fuel cs = some ts → ∃ u : List Char, ts = u.map .lit ∧ u.length ≤ cs.length ∧
        ('\\' ∈ cs → u.length < cs.length)
  | _, [], _, _, parsed => ⟨[], by simpa [globTerms] using parsed.symm, by simp, by simp⟩
  | 0, _ :: _, _, _, parsed => by simp [globTerms] at parsed
  | fuel + 1, c :: cs, ts, plain, parsed => by
    obtain ⟨notStar, notAny, notClass⟩ := plain c (List.mem_cons_self _ _)
    have plainRest := fun d mem => plain d (List.mem_cons_of_mem c mem)
    by_cases escape : c = '\\'
    · rw [escape] at parsed
      match cs, parsed, plainRest with
      | [], parsed, _ => simp [globTerms] at parsed
      | d :: rest, parsed, plainRest =>
        simp only [globTerms, Option.map_eq_some'] at parsed
        obtain ⟨ts', parsedRest, rfl⟩ := parsed
        obtain ⟨u, rfl, shorter, -⟩ := globTerms_lits fuel rest ts'
          (fun e mem => plainRest e (List.mem_cons_of_mem d mem)) parsedRest
        exact ⟨d :: u, rfl, by simp; omega, fun _ => by simp; omega⟩
    · simp [globTerms, notStar, notAny, notClass, escape] at parsed
      obtain ⟨ts', parsedRest, rfl⟩ := parsed
      obtain ⟨u, rfl, shorter, escaped⟩ := globTerms_lits fuel cs ts' plainRest parsedRest
      refine ⟨c :: u, rfl, by simp; omega, fun mem => ?_⟩
      have := escaped ((List.mem_cons.mp mem).resolve_left (Ne.symm escape))
      simp; omega

/-- Literal terms match exactly the name they spell. -/
theorem matchTerms_lits : ∀ (cs name : List Char), matchTerms (cs.map .lit) name = decide (name = cs)
  | [], [] => rfl
  | [], _ :: _ => rfl
  | _ :: _, [] => rfl
  | d :: cs, c :: name => by simp [matchTerms, matchTerms_lits cs name, Bool.beq_eq_decide_eq]

/-- For a pattern `Glob` takes as a file name, the name lookup and `path.Match` agree on every
name exactly when the pattern has no backslash. -/
theorem match_literal_iff {p : String} (noMeta : hasMeta p = false) :
    (∀ name, Path.«match» p name = .ok (decide (name = p))) ↔ '\\' ∉ p.data := by
  have plain := chars_of_hasMeta_false noMeta
  constructor
  · intro literal escaped
    have self := literal p
    simp only [Path.«match», decide_True] at self
    split at self
    · cases self
    · rename_i ts parsed
      obtain ⟨u, rfl, -, shorter⟩ := globTerms_lits _ _ _ plain parsed
      rw [matchTerms_lits] at self
      have same : p.data = u := by simpa using self
      exact absurd (same ▸ shorter escaped) (lt_irrefl _)
  · intro noEscape name
    rw [Path.«match», show p.length = p.data.length from rfl,
      globTerms_literal _ _ (le_refl _) plain noEscape]
    simp [matchTerms_lits, String.ext_iff]

theorem match_literal_iff_tmpl :
    hasMeta "app.tmpl" = false ∧ ∀ name, Path.«match» "app.tmpl" name = .ok (decide (name = "app.tmpl")) :=
  have noMeta : hasMeta "app.tmpl" = false := rfl
  ⟨noMeta, (match_literal_iff noMeta).mpr (by decide)⟩

example : Path.«match» "a\\b" "ab" = .ok true ∧ hasMeta "a\\b" = false := ⟨rfl, rfl⟩

end Confd.Afero
