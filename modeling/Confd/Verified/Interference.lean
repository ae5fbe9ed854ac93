import Confd.Verified.Footprint
import Confd.Afero.Interleave
import Confd.Verified.Totality

/-! # Two resources on one filesystem

Cycles of two resources run on one filesystem, their calls interleaved one at a time: a run of
the pair is a run of each cycle, merged (`Merge`) into one sequence the contract allows. A
cycle touches only its `Region` (the template, `Dest` and the names `TempFile` may try for
`Dest`) and writes only `Dest` and those names (`process_within`).

The model's filesystem is keyed by names as the code spells them, while the OS resolves a
relative name from the working directory and reads `./a.tmpl` and `a.tmpl` as one file. So the
resources are apart (`Apart`) when no name of one's region and no name the other writes
`resolve` to one name. Then every event of one is independent of every event of the other, so
every interleaving is allowed exactly when either cycle followed by the other is, and leaves the
same files; and each cycle ends its region as it would alone (`process_interleaving_serial`).
Resources whose names are ordinary, whose destinations have different bases and whose templates
do not resolve to the other's destination are apart (`apart_of_ordinary`): the resolved name of
each name of a region has that name's base (`base_resolve`). Resolution is lexical: symbolic
links and hard links, which could make two names with different resolved names one file, are
not modelled.

Distinct destinations are not enough: the name `TempFile` tries first for one `Dest` can be the
other `Dest`. If the second cycle then runs between the first's staging and its commit, it
renames its own candidate over the first's staged file, and the first commits that candidate to
its own `Dest` (`process_interleaved_takes_other_content`).
-/

namespace Confd.Verified.Interference

open Confd.Go Confd.Go.Path Confd.Afero Confd.Afero.Prog Confd.Util Confd.Template Confd.Verified.StagedName
  Confd.Verified.Footprint Confd.Verified.Totality

/-- The name the OS resolves `p` to from the working directory `cwd`, lexically: a rooted name
is cleaned, another is joined to `cwd`. Symbolic links are not followed. -/
def resolve (cwd p : String) : String := if p.data.head? = some '/' then Path.clean p else Path.join cwd p

example : resolve "/srv" "./a.tmpl" = resolve "/srv" "a.tmpl" ∧ resolve "/srv" "a.tmpl" = "/srv/a.tmpl" := by
  decide

/-- Neither resource's cycle writes a file of the other's region: no name of the one's region and
name the other writes resolve, from the working directory `cwd`, to one name. -/
def Apart (cwd : String) (t₁ t₂ : TemplateResource) : Prop :=
  (∀ p q, Region t₁ p → Writes t₂ q → resolve cwd p ≠ resolve cwd q) ∧
    ∀ p q, Region t₂ p → Writes t₁ q → resolve cwd p ≠ resolve cwd q

theorem process_interleaving_serial {rtA rtB : Runtime} {cwd : String} {tA tB : TemplateResource}
    {trA trB tr : List Event} {eA eB : Ending (Option Error × TemplateResource)} {fs : Fs}
    (apart : Apart cwd tA tB) (runA : (process rtA tA).Yields trA eA) (runB : (process rtB tB).Yields trB eB)
    (merge : Merge trA trB tr) (admissible : Admissible fs tr) :
    (∀ a ∈ trA, ∀ b ∈ trB, Independent a b) ∧
      (Admissible fs (trA ++ trB) ∧ fs.replay tr = fs.replay (trA ++ trB)) ∧
      (Admissible fs (trB ++ trA) ∧ fs.replay tr = fs.replay (trB ++ trA)) ∧
      (Admissible fs trA ∧ (fs.replay tr).AgreeOn (Region tA) (fs.replay trA)) ∧
      Admissible fs trB ∧ (fs.replay tr).AgreeOn (Region tB) (fs.replay trB) := by
  have withinA := (process_within rtA tA).yields runA
  have withinB := (process_within rtB tB).yields runB
  have ind : ∀ a ∈ trA, ∀ b ∈ trB, Independent a b := fun a memA b memB =>
    ⟨fun p touched written => apart.1 p p ((withinA a memA).1 p touched) ((withinB b memB).2 p written) rfl,
      fun p touched written => apart.2 p p ((withinB b memB).1 p touched) ((withinA a memA).2 p written) rfl⟩
  have serialA := merge_serial ind merge fs
  have serialB := merge_serial (fun b memB a memA => (ind a memA b memB).symm) merge.symm fs
  exact ⟨ind, ⟨serialA.1.mp admissible, serialA.2⟩, ⟨serialB.1.mp admissible, serialB.2⟩,
    merge_alone ind merge (fun p ⟨a, mem, touched⟩ => (withinA a mem).1 p touched)
      (fun p ⟨b, mem, touched⟩ => (withinB b mem).1 p touched)
      (fun b mem p region written => apart.1 p p region ((withinB b mem).2 p written) rfl)
      (fun a mem p region written => apart.2 p p region ((withinA a mem).2 p written) rfl) admissible⟩

/-! ## Resources that are apart -/

/-- A name ending in a plain element resolves to a name ending in it. -/
theorem endsIn_resolve {cwd p : String} {e : List Char} (nonEmpty : cwd.data ≠ []) (plain : Plain e)
    (ends : EndsIn e p.data) : EndsIn e (resolve cwd p).data := by
  obtain ⟨y, slashed⟩ : ∃ y, (resolve cwd p).data = cleanChars (y ++ '/' :: e) := by
    unfold resolve
    split
    · rename_i rooted
      rcases ends with same | ⟨x, same⟩
      · exact absurd (List.mem_of_mem_head? (same ▸ rooted)) plain.2.1
      · exact ⟨x, by simp [Path.clean, same]⟩
    · rcases ends with same | ⟨x, same⟩
      · exact ⟨cwd.data, by simp [Path.join, joinChars, nonEmpty, same]⟩
      · exact ⟨cwd.data ++ '/' :: x, by simp [Path.join, joinChars, nonEmpty, same]⟩
  rw [slashed]
  exact endsIn_cleanChars_slash plain y

/-- A name that ends in its base, a plain element, resolves to a name with the same base. -/
theorem base_resolve {cwd p : String} (nonEmpty : cwd.data ≠ []) (plain : Plain (Path.base p).data)
    (ends : EndsIn (Path.base p).data p.data) : Path.base (resolve cwd p) = Path.base p :=
  String.ext (baseChars_of_endsIn plain.1 plain.2.1 (endsIn_resolve nonEmpty plain ends))

/-- A name with no trailing slash whose base does not start with a dot ends in its base, a
plain element. -/
theorem named_endsIn {p : String} (noTrail : p.data.getLast? ≠ some '/')
    (undotted : (Path.base p).data.head? ≠ some '.') :
    Plain (Path.base p).data ∧ EndsIn (Path.base p).data p.data := by
  have nonEmpty : p.data ≠ [] := fun empty => undotted (by simp [Path.base, baseChars, empty])
  obtain ⟨noSlash, ends⟩ := endsIn_baseChars nonEmpty noTrail
  change (baseChars p.data).head? ≠ some '.' at undotted
  refine ⟨⟨fun empty => ?_, noSlash, fun dot => undotted (congrArg List.head? dot),
    fun dots => undotted (congrArg List.head? dots)⟩, ends⟩
  change baseChars p.data = [] at empty
  rw [empty] at ends
  rcases ends with same | ⟨x, same⟩
  · exact nonEmpty same
  · exact noTrail (by simp [same])

/-- A resource whose template path is no pattern, whose template and `Dest` paths have no
trailing slash, whose `Dest` base has no `*`, and none of whose template and `Dest` bases starts
with a dot, as staged names do. -/
def Ordinary (t : TemplateResource) : Prop :=
  hasMeta t.src = false ∧ t.src.data.getLast? ≠ some '/' ∧ t.dest.data.getLast? ≠ some '/' ∧
    '*' ∉ (Path.base t.dest).data ∧ (Path.base t.src).data.head? ≠ some '.' ∧
    (Path.base t.dest).data.head? ≠ some '.'

instance (t : TemplateResource) : Decidable (Ordinary t) := inferInstanceAs (Decidable (_ ∧ _ ∧ _ ∧ _ ∧ _ ∧ _))

/-- The base of an ordinary resource's `Dest` has no slash. -/
theorem Ordinary.slash_not_mem_base {t : TemplateResource} (ordinary : Ordinary t) :
    '/' ∉ (Path.base t.dest).data :=
  (named_endsIn ordinary.2.2.1 ordinary.2.2.2.2.2).1.2.1

/-- Every name of an ordinary resource's region ends in its base, a plain element. -/
theorem region_endsIn {t : TemplateResource} (ordinary : Ordinary t) {p : String} (region : Region t p) :
    Plain (Path.base p).data ∧ EndsIn (Path.base p).data p.data := by
  have noSlash : '/' ∉ ("." ++ Path.base t.dest).data := by simpa using ordinary.slash_not_mem_base
  obtain ⟨plain, srcTrail, destTrail, -, srcDot, destDot⟩ := ordinary
  rcases region with meta | rfl | rfl | ⟨r, rfl⟩
  · simp [plain] at meta
  · exact named_endsIn srcTrail srcDot
  · exact named_endsIn destTrail destDot
  · have dirNonEmpty : (Path.dir t.dest).data ≠ [] := cleanChars_ne_nil _
    rw [base_tempName dirNonEmpty noSlash]
    exact ⟨plain_tempElement noSlash r, endsIn_tempName dirNonEmpty noSlash r⟩

theorem region_not_writes {cwd : String} {t₁ t₂ : TemplateResource} (nonEmpty : cwd.data ≠ [])
    (ordinary₁ : Ordinary t₁) (ordinary₂ : Ordinary t₂) (bases : Path.base t₁.dest ≠ Path.base t₂.dest)
    (src : resolve cwd t₁.src ≠ resolve cwd t₂.dest) :
    ∀ p q, Region t₁ p → Writes t₂ q → resolve cwd p ≠ resolve cwd q := by
  intro p q region writes same
  have baseEq : Path.base p = Path.base q := by
    obtain ⟨plainP, endsP⟩ := region_endsIn ordinary₁ region
    obtain ⟨plainQ, endsQ⟩ := region_endsIn ordinary₂ (writes.elim (.inr ∘ .inr ∘ .inl) (.inr ∘ .inr ∘ .inr))
    rw [← base_resolve nonEmpty plainP endsP, ← base_resolve nonEmpty plainQ endsQ, same]
  have slash₁ := ordinary₁.slash_not_mem_base
  have slash₂ := ordinary₂.slash_not_mem_base
  obtain ⟨plain, -, -, star₁, srcDot, destDot₁⟩ := ordinary₁
  obtain ⟨-, -, -, star₂, -, destDot₂⟩ := ordinary₂
  have dotted : ∀ {d p}, '*' ∉ (Path.base d).data → '/' ∉ (Path.base d).data → IsTempName d p →
      (Path.base p).data.head? = some '.' := fun star slash temp => by
    obtain ⟨r, named⟩ := base_of_tempName temp star slash
    simp [named]
  rcases region with meta | rfl | rfl | temp₁ <;> rcases writes with rfl | temp₂
  · simp [plain] at meta
  · simp [plain] at meta
  · exact src same
  · exact srcDot (by rw [baseEq]; exact dotted star₂ slash₂ temp₂)
  · exact bases baseEq
  · exact destDot₁ (by rw [baseEq]; exact dotted star₂ slash₂ temp₂)
  · exact destDot₂ (by rw [← baseEq]; exact dotted star₁ slash₁ temp₁)
  · obtain ⟨r₁, named₁⟩ := base_of_tempName temp₁ star₁ slash₁
    obtain ⟨r₂, named₂⟩ := base_of_tempName temp₂ star₂ slash₂
    rw [baseEq, named₂] at named₁
    have same := List.append_inj_left' (List.cons.inj named₁).2
      ((randomSuffix_length r₂).trans (randomSuffix_length r₁).symm)
    exact bases (String.ext same.symm)

/-- Two ordinary resources whose `Dest` bases differ and neither of whose templates resolves to
the other's `Dest` are apart. -/
theorem apart_of_ordinary {cwd : String} {t₁ t₂ : TemplateResource} (nonEmpty : cwd.data ≠ [])
    (ordinary₁ : Ordinary t₁) (ordinary₂ : Ordinary t₂) (bases : Path.base t₁.dest ≠ Path.base t₂.dest)
    (src₁ : resolve cwd t₁.src ≠ resolve cwd t₂.dest) (src₂ : resolve cwd t₂.src ≠ resolve cwd t₁.dest) :
    Apart cwd t₁ t₂ :=
  ⟨region_not_writes nonEmpty ordinary₁ ordinary₂ bases src₁,
    region_not_writes nonEmpty ordinary₂ ordinary₁ bases.symm src₂⟩

/-! ## Runs on particular filesystems -/

/-- A runtime whose template renders its own text. -/
def copyRuntime : Runtime where
  parse _ _ := none
  execute templates root _ := ([(templates.lookup root).getD []], none)
  expandCheck cmd _ := .ok cmd
  md5 data := toString data

/-- The OS filesystem holding `/etc/app.conf` and the templates `a.tmpl` and `b.tmpl`, which
hold the bytes `1` and `2`. -/
def sharedFs : Fs where
  files p :=
    if p = "/etc/app.conf" then some ⟨[0], 0o644, 0, 0⟩
    else if p = "a.tmpl" then some ⟨[1], 0o644, 0, 0⟩
    else if p = "b.tmpl" then some ⟨[2], 0o644, 0, 0⟩
    else none
  euid := 0
  egid := 0
  statT := true

/-- Two resources rendering `a.tmpl` into `/etc/a.conf` and `b.tmpl` into `/etc/b.conf`. -/
def apartA : TemplateResource := { appResource with src := "a.tmpl", dest := "/etc/a.conf" }

def apartB : TemplateResource := { appResource with src := "b.tmpl", dest := "/etc/b.conf" }

/-- Their cycles, every call succeeding, taking turns call by call. -/
def alternatingRun :=
  execBoth (Fs.respond quietEnv) (List.replicate 40 [true, false]).flatten
    (process copyRuntime apartA) (process copyRuntime apartB) sharedFs

theorem process_interleaving_serial_alternating :
    Apart "/srv" apartA apartB ∧
      (process copyRuntime apartA).Yields alternatingRun.1.2 alternatingRun.1.1 ∧
      (process copyRuntime apartB).Yields alternatingRun.2.1.2 alternatingRun.2.1.1 ∧
      Merge alternatingRun.1.2 alternatingRun.2.1.2 alternatingRun.2.2 ∧
      Admissible sharedFs alternatingRun.2.2 ∧
      (∀ a ∈ alternatingRun.1.2, ∀ b ∈ alternatingRun.2.1.2, Independent a b) ∧
      (Admissible sharedFs (alternatingRun.1.2 ++ alternatingRun.2.1.2) ∧
        sharedFs.replay alternatingRun.2.2 = sharedFs.replay (alternatingRun.1.2 ++ alternatingRun.2.1.2)) ∧
      (Admissible sharedFs (alternatingRun.2.1.2 ++ alternatingRun.1.2) ∧
        sharedFs.replay alternatingRun.2.2 = sharedFs.replay (alternatingRun.2.1.2 ++ alternatingRun.1.2)) ∧
      (Admissible sharedFs alternatingRun.1.2 ∧
        (sharedFs.replay alternatingRun.2.2).AgreeOn (Region apartA) (sharedFs.replay alternatingRun.1.2)) ∧
      Admissible sharedFs alternatingRun.2.1.2 ∧
        (sharedFs.replay alternatingRun.2.2).AgreeOn (Region apartB) (sharedFs.replay alternatingRun.2.1.2) :=
  have apart : Apart "/srv" apartA apartB :=
    apart_of_ordinary (by decide) (by decide) (by decide) (by decide) (by decide) (by decide)
  have ⟨runA, runB, merge⟩ := execBoth_runs (Fs.respond quietEnv) _ (process copyRuntime apartA)
    (process copyRuntime apartB) sharedFs
  have admissible := execBoth_admissible (respond_allowed quietEnv) _ (process copyRuntime apartA)
    (process copyRuntime apartB) sharedFs
  ⟨apart, runA, runB, merge, admissible, process_interleaving_serial apart runA runB merge admissible⟩

/-- Two resources with distinct destinations: the second's `Dest` is the first name `TempFile`
tries for the first's. -/
def resourceA : TemplateResource := { appResource with src := "a.tmpl" }

def resourceB : TemplateResource := { appResource with src := "b.tmpl", dest := "/etc/.app.conf000000000" }

/-- Every call succeeding, the first resource's cycle stages its candidate (twelve calls), then
the second's runs whole, then the first's goes on. -/
def sharedRun :=
  execBoth (Fs.respond quietEnv) (List.replicate 12 true ++ List.replicate 40 false)
    (process copyRuntime resourceA) (process copyRuntime resourceB) sharedFs

/-- Both cycles return nil, and the first `Dest` ends with the second template's bytes while the
second `Dest` is gone. -/
theorem process_interleaved_takes_other_content :
    resourceA.dest ≠ resourceB.dest ∧
      (process copyRuntime resourceA).Yields sharedRun.1.2 sharedRun.1.1 ∧
      (process copyRuntime resourceB).Yields sharedRun.2.1.2 sharedRun.2.1.1 ∧
      Merge sharedRun.1.2 sharedRun.2.1.2 sharedRun.2.2 ∧ Admissible sharedFs sharedRun.2.2 ∧
      (∃ tA, sharedRun.1.1 = .returned (none, tA)) ∧ (∃ tB, sharedRun.2.1.1 = .returned (none, tB)) ∧
      sharedFs.files resourceA.src = some ⟨[1], 0o644, 0, 0⟩ ∧
      sharedFs.files resourceB.src = some ⟨[2], 0o644, 0, 0⟩ ∧
      (sharedFs.replay sharedRun.2.2).files resourceA.dest = some ⟨[2], 0o644, 0, 0⟩ ∧
      (sharedFs.replay sharedRun.2.2).files resourceB.dest = none :=
  have ⟨runA, runB, merge⟩ := execBoth_runs (Fs.respond quietEnv) _ (process copyRuntime resourceA)
    (process copyRuntime resourceB) sharedFs
  ⟨by decide, runA, runB, merge, execBoth_admissible (respond_allowed quietEnv) _ _ _ _, ⟨_, rfl⟩, ⟨_, rfl⟩,
    rfl, rfl, rfl, rfl⟩

end Confd.Verified.Interference
