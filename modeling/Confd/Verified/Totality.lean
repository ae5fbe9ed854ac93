import Confd.Afero.Contract
import Confd.Verified.Footprint

/-! # When the cycle panics

`util.FileStat` drops the error of `f.Stat()` and asserts `stats.Sys().(*syscall.Stat_t)`: a
failed `Stat` on the open file panics on the nil result, and a filesystem whose `Sys()` is
something else, such as `afero.MemMapFs`, panics on the assertion. These are the only panics a
cycle can reach.

* `process_returns_of_statT`: every run of `process` in which each `Stat` of an open file
  succeeds with a `*syscall.Stat_t` returns, whatever else the calls answer. It comes from one
  `Safe` fact per function, assembled like the footprints.
* `process_panics_in_memory`: on an in-memory filesystem that holds `Dest`, a run in which every
  call succeeds panics in the diff.
-/

namespace Confd.Verified.Totality

open Confd.Go Confd.Afero Confd.Afero.Prog Confd.Util Confd.Template Confd.Verified.StagedName
  Confd.Verified.Footprint

/-- An event the diff can go on from: not a `Stat` of an open file, or one that succeeded and
reported a `*syscall.Stat_t`. -/
def StatT : Event → Bool
  | ⟨.fstat _, .ok info⟩ => info.sys.isSome
  | ⟨.fstat _, .error _⟩ => false
  | _ => true

section NoPanic

variable {P : Event → Prop}

theorem safe_foldlM {α β : Type} {f : β → α → Prog β} (step : ∀ acc a, (f acc a).Safe P) :
    ∀ (l : List α) (init : β), (l.foldlM f init).Safe P
  | [], _ => trivial
  | a :: l, init => safe_bind (step init a) fun acc => safe_foldlM step l acc

theorem isFileExist_safe (name : String) : (isFileExist name).Safe P := fun r _ => by
  cases r <;> trivial

theorem readFile_safe (name : String) : (readFile name).Safe P := fun opened _ => by
  cases opened with
  | some _ => trivial
  | none =>
    refine safe_withDefer (fun read _ => ?_) fun _ _ => trivial
    obtain ⟨_, err⟩ := read
    cases err <;> trivial

theorem globDir_safe (dir pattern : String) (found : List String) : (globDir dir pattern found).Safe P :=
  fun info _ => by
    cases info with
    | error _ => trivial
    | ok info =>
      dsimp only [pure_bind']
      split
      · trivial
      · exact fun opened _ => by
          cases opened with
          | some _ => trivial
          | none => exact safe_withDefer (fun _ _ => trivial) fun _ _ => trivial

theorem glob_safe (fuel : Nat) (pattern : String) : (glob fuel pattern).Safe P := by
  induction fuel generalizing pattern with
  | zero =>
    rw [glob]
    dsimp only
    split
    · exact fun r _ => by cases r <;> trivial
    · split
      · exact globDir_safe _ _ _
      · trivial
  | succ fuel inductionHypothesis =>
    rw [glob]
    dsimp only
    split
    · exact fun r _ => by cases r <;> trivial
    · split
      · exact globDir_safe _ _ _
      · refine safe_bind (inductionHypothesis _) fun dirs => ?_
        cases dirs with
        | error _ => trivial
        | ok dirs =>
          refine safe_foldlM (fun acc d => ?_) dirs _
          cases acc with
          | error _ => trivial
          | ok m => exact globDir_safe _ _ _

theorem parseFS_safe (rt : Runtime) (pattern : String) : (parseFS rt pattern).Safe P := by
  have parseFiles_safe : ∀ filenames, (parseFiles rt filenames).Safe P := by
    intro filenames
    induction filenames with
    | nil => trivial
    | cons filename rest inductionHypothesis =>
      refine safe_bind ?_ fun read => ?_
      · unfold ioReadFile
        split
        · trivial
        · exact safe_bind (readFile_safe _) fun r => by cases r <;> trivial
      · cases read with
        | error _ => trivial
        | ok data =>
          dsimp only
          split
          · trivial
          · exact safe_bind inductionHypothesis fun r => by cases r <;> trivial
  refine safe_bind ?_ fun found => ?_
  · unfold ioGlob
    split
    · trivial
    · exact safe_bind (glob_safe _ _) fun r => by cases r <;> trivial
  · rcases found with _ | _ | ⟨filename, rest⟩
    · trivial
    · trivial
    · exact parseFiles_safe _

theorem tempFileLoop_safe (dir pattern : String) : ∀ tries, (tempFileLoop dir pattern tries).Safe P
  | 0 => fun _ _ opened _ => by cases opened <;> trivial
  | tries + 1 => fun _ _ opened _ => by
    cases opened with
    | none => trivial
    | some err =>
      dsimp only [pure_bind']
      split
      · exact tempFileLoop_safe dir pattern tries
      · trivial

theorem executeInto_safe (name : String) : ∀ pieces err, (executeInto name pieces err).Safe P
  | [], _ => trivial
  | _ :: rest, err => fun written _ => by
    obtain ⟨_, werr⟩ := written
    cases werr with
    | some _ => trivial
    | none => exact executeInto_safe name rest err

theorem createStageFile_safe (rt : Runtime) (t : TemplateResource) : (createStageFile rt t).Safe P := by
  refine safe_bind (isFileExist_safe t.src) fun found => ?_
  cases found
  · trivial
  · refine safe_bind (parseFS_safe rt t.src) fun parsed => ?_
    cases parsed with
    | error _ => trivial
    | ok templates =>
      refine safe_bind (tempFileLoop_safe _ _ _) fun created => ?_
      cases created with
      | error _ => trivial
      | ok temp =>
        refine safe_bind (executeInto_safe temp _ _) fun err => ?_
        cases err with
        | some _ => exact fun _ _ _ _ => trivial
        | none => exact safe_withDefer (fun _ _ _ _ => trivial) fun _ _ => trivial

theorem setFileMode_safe (t : TemplateResource) : (setFileMode t).Safe P := by
  unfold setFileMode
  split
  · refine safe_bind (isFileExist_safe t.dest) fun found => ?_
    cases found
    · trivial
    · exact fun r _ => by cases r <;> trivial
  · split <;> trivial

theorem setVars_safe (t : TemplateResource) : (setVars t).Safe P := fun r _ => by
  cases r <;> trivial

theorem commit_safe (t : TemplateResource) (staged : String) : (commit t staged).Safe P :=
  fun renamed _ => by
    cases renamed with
    | none => trivial
    | some err =>
      dsimp only [pure_bind']
      split
      · refine safe_bind (readFile_safe staged) fun contents => ?_
        cases contents with
        | error _ => trivial
        | ok contents =>
          refine safe_bind (fun opened _ => ?_) fun _ _ _ => trivial
          cases opened with
          | some _ => trivial
          | none => exact fun _ _ _ _ => trivial
      · trivial

theorem checkStep_safe {rt : Runtime} {t : TemplateResource} {staged : String}
    (stage : t.stageFile = some staged) : (checkStep rt t).Safe P := by
  unfold checkStep
  split
  · simp only [check, stage]
    refine safe_bind ?_ fun r => by cases r <;> trivial
    split
    · trivial
    · exact fun _ _ => trivial
  · trivial

theorem reloadStep_safe (t : TemplateResource) : (reloadStep t).Safe P := by
  unfold reloadStep
  split
  · exact fun _ _ => trivial
  · trivial

end NoPanic

/-! ## The diff -/

/-- `FileStat` cannot panic when the `Stat` of the open file succeeds with a `*syscall.Stat_t`. -/
theorem fileStat_safe (md5 : Bytes → String) (name : String) : (fileStat md5 name).Safe (StatT · = true) := by
  refine safe_bind (isFileExist_safe name) fun found => ?_
  cases found
  · trivial
  · refine fun opened _ => ?_
    cases opened with
    | some _ => trivial
    | none =>
      refine safe_withDefer (fun stats posix => ?_) fun _ _ => trivial
      cases stats with
      | error _ => simp [StatT] at posix
      | ok stats =>
        dsimp only [pure_bind']
        split
        · rename_i none_; simp [StatT, none_] at posix
        · exact fun _ _ => trivial

theorem isConfigChanged_safe (md5 : Bytes → String) (src dest : String) :
    (isConfigChanged md5 src dest).Safe (StatT · = true) := by
  refine safe_bind (isFileExist_safe dest) fun found => ?_
  cases found
  · trivial
  · refine safe_bind (fileStat_safe md5 dest) fun d => ?_
    cases d with
    | error _ => trivial
    | ok _ => exact safe_bind (fileStat_safe md5 src) fun s => by cases s <;> trivial

theorem syncBody_safe {rt : Runtime} {t : TemplateResource} {staged : String}
    (stage : t.stageFile = some staged) : (syncBody rt t staged).Safe (StatT · = true) := by
  refine safe_bind (isConfigChanged_safe _ _ _) fun ⟨changed, _⟩ => ?_
  dsimp only
  split
  · trivial
  · split
    · trivial
    · refine safe_bind (checkStep_safe stage) fun checked => ?_
      cases checked with
      | some _ => trivial
      | none =>
        exact safe_bind (commit_safe t staged) fun committed => by
          cases committed
          · exact reloadStep_safe t
          · trivial

theorem sync_safe {rt : Runtime} {t : TemplateResource} {staged : String}
    (stage : t.stageFile = some staged) : (sync rt t).Safe (StatT · = true) := by
  simp only [sync, stage]
  split
  · exact syncBody_safe stage
  · exact safe_withDefer (syncBody_safe stage) fun _ _ => trivial

theorem process_safe (rt : Runtime) (t : TemplateResource) : (process rt t).Safe (StatT · = true) := by
  refine safe_bind (setFileMode_safe t) fun r₁ => ?_
  cases r₁ with
  | error _ => trivial
  | ok t₁ =>
    refine safe_bind (setVars_safe t₁) fun r₂ => ?_
    cases r₂ with
    | error _ => trivial
    | ok t₂ =>
      refine safe_bind_of_returns (createStageFile_safe rt t₂) (createStageFile_returns rt t₂)
        fun r₃ staged => ?_
      cases r₃ with
      | error _ => trivial
      | ok t' =>
        obtain ⟨temp, -, rfl⟩ := staged _ rfl
        exact safe_bind (sync_safe rfl) fun _ => trivial

/-- A run of `process` in which every `Stat` of an open file succeeds with a
`*syscall.Stat_t` returns. -/
theorem process_returns_of_statT {rt : Runtime} {t : TemplateResource} {tr : List Event}
    {e : Ending (Option Error × TemplateResource)} (run : (process rt t).Yields tr e)
    (posix : ∀ ev ∈ tr, StatT ev) : ∃ result, e = .returned result :=
  (process_safe rt t).yields run posix

/-! ## Runs on particular filesystems -/

/-- A runtime whose templates parse and render the single byte `1`, whose check command is the
configured one, and whose digest is the bytes written out. -/
def byteRuntime : Runtime where
  parse _ _ := none
  execute _ _ _ := ([[1]], none)
  expandCheck cmd _ := .ok cmd
  md5 data := toString data

/-- The resource rendering `app.tmpl` into `/etc/app.conf` with mode `0644`. -/
def appResource : TemplateResource :=
  { TemplateResource.zero with src := "app.tmpl", dest := "/etc/app.conf", mode := "0644" }

/-- A backend with no values, commands that succeed, and the generator at `0`. -/
def quietEnv : Env := ⟨fun _ => .ok [], fun _ => none, 0⟩

/-- An `afero.MemMapFs` holding `Dest` `/etc/app.conf` and the template `app.tmpl`; its
`Sys()` is not a `*syscall.Stat_t`. -/
def memFs : Fs where
  files p :=
    if p = "/etc/app.conf" then some ⟨[0], 0o644, 0, 0⟩
    else if p = "app.tmpl" then some ⟨[2], 0o644, 0, 0⟩
    else none
  euid := 0
  egid := 0
  statT := false

/-- On `memFs`, a cycle in which every call succeeds panics in the diff. -/
theorem process_panics_in_memory :
    ∃ tr, Admissible memFs tr ∧ (process byteRuntime appResource).Yields tr (.panicked notStatT) :=
  ⟨_, exec_admissible (respond_allowed quietEnv) _ memFs, exec_yields_of rfl⟩

/-- On the same files with a `*syscall.Stat_t`, the cycle in which every call succeeds returns. -/
theorem process_returns_on_os :
    (process byteRuntime appResource).Yields
        ((process byteRuntime appResource).exec (Fs.respond quietEnv) { memFs with statT := true }).2
        ((process byteRuntime appResource).exec (Fs.respond quietEnv) { memFs with statT := true }).1 ∧
      (∀ ev ∈ ((process byteRuntime appResource).exec (Fs.respond quietEnv)
        { memFs with statT := true }).2, StatT ev = true) ∧
      ∃ result, ((process byteRuntime appResource).exec (Fs.respond quietEnv)
        { memFs with statT := true }).1 = .returned result :=
  have posix : ∀ ev ∈ ((process byteRuntime appResource).exec (Fs.respond quietEnv)
      { memFs with statT := true }).2, StatT ev = true := by decide
  ⟨exec_yields _ _ _, posix, process_returns_of_statT (exec_yields _ _ _) posix⟩

end Confd.Verified.Totality
