import Confd.Template.Resource
import Confd.Verified.StagedName

/-! # What each step of the cycle may touch

One `Every` fact per function of the pipeline, proved once by walking the function and cited by
name afterwards:

* the diff (`isConfigChanged`, through `fileStat`), `setFileMode` and template loading
  (`parseFS`) only read: `ReadOnly`;
* `createStageFile` writes only names `TempFile` may try for `Dest` (`createStageFile_every`),
  and the resource it returns stages one of them (`createStageFile_returns`);
* `commit` touches only the staged file and `Dest` (`commit_names`).

Commands are run only by `check` and `reload`.

The paths each step touches (`Names`), one lemma per function as for the writes above, add up
to the footprint of a whole cycle (`process_within`): the template, `Dest` and the names
`TempFile` may try for it (`Region`), of which it writes only the last two (`Writes`).
-/

namespace Confd.Verified.Footprint

open Confd.Go Confd.Afero Confd.Afero.Prog Confd.Util Confd.Template Confd.Verified.StagedName

/-- A call that changes no file and runs no command. -/
def ReadOnly (c : Call) : Prop := c.written = [] ∧ c.isCommand = false

/-- Every path the call touches is one `S` holds of. -/
def Names (S : String → Prop) (c : Call) : Prop := ∀ p, c.Touches p → S p

theorem Names.mono {S T : String → Prop} {c : Call} (weaker : ∀ p, S p → T p) (names : Names S c) :
    Names T c :=
  fun p touched => weaker p (names p touched)

/-- A read-only call that touches only paths `S` holds of. -/
def ReadsOnly (S : String → Prop) (c : Call) : Prop := ReadOnly c ∧ Names S c

/-- A call of the staging step for a resource with destination `dest`: no command, and only
names `TempFile` may try are written. -/
def Staging (dest : String) (c : Call) : Prop := c.isCommand = false ∧ ∀ p ∈ c.written, IsTempName dest p

theorem every_foldlM {α β : Type} {P : Call → Prop} {f : β → α → Prog β}
    (step : ∀ acc a, (f acc a).Every P) : ∀ (l : List α) (init : β), (l.foldlM f init).Every P
  | [], _ => trivial
  | a :: l, init => every_bind (step init a) fun acc => every_foldlM step l acc

/-! ## Reading -/

theorem isFileExist_reads (name : String) : (isFileExist name).Every (ReadsOnly (· = name)) :=
  ⟨⟨⟨rfl, rfl⟩, fun _ touched => touched⟩, fun r => by cases r <;> trivial⟩

theorem isFileExist_every (name : String) : (isFileExist name).Every ReadOnly :=
  (isFileExist_reads name).mono fun _ => And.left

theorem readFile_reads (name : String) : (readFile name).Every (ReadsOnly (· = name)) := by
  refine ⟨⟨⟨rfl, rfl⟩, fun _ touched => touched⟩, fun opened => ?_⟩
  cases opened with
  | some _ => trivial
  | none =>
    refine every_withDefer ⟨⟨⟨rfl, rfl⟩, fun _ touched => touched⟩, fun read => ?_⟩
      ⟨⟨⟨rfl, rfl⟩, fun _ touched => touched⟩, fun _ => trivial⟩
    obtain ⟨_, err⟩ := read
    cases err <;> trivial

theorem readFile_every (name : String) : (readFile name).Every ReadOnly :=
  (readFile_reads name).mono fun _ => And.left

theorem globDir_every (dir pattern : String) (found : List String) :
    (globDir dir pattern found).Every ReadOnly := by
  simp only [globDir, stat, openFile, readDirNames, close, ignore, bind_eq, call_bind, pure_bind',
    every_call]
  refine ⟨⟨rfl, rfl⟩, fun info => ?_⟩
  cases info with
  | error _ => trivial
  | ok info =>
    dsimp only
    split
    · trivial
    · refine ⟨⟨rfl, rfl⟩, fun opened => ?_⟩
      cases opened with
      | some _ => trivial
      | none => exact every_withDefer ⟨⟨rfl, rfl⟩, fun _ => trivial⟩ ⟨⟨rfl, rfl⟩, fun _ => trivial⟩

theorem stat_every (name : String) {α : Type} (k : Except Error Afero.FileInfo → Prog α)
    (rest : ∀ r, (k r).Every ReadOnly) : ((stat name).bind k).Every ReadOnly :=
  ⟨⟨rfl, rfl⟩, rest⟩

theorem glob_every (fuel : Nat) (pattern : String) : (glob fuel pattern).Every ReadOnly := by
  induction fuel generalizing pattern with
  | zero =>
    rw [glob]
    dsimp only
    split
    · exact stat_every _ _ fun r => by cases r <;> trivial
    · split
      · exact globDir_every _ _ _
      · trivial
  | succ fuel inductionHypothesis =>
    rw [glob]
    dsimp only
    split
    · exact stat_every _ _ fun r => by cases r <;> trivial
    · split
      · exact globDir_every _ _ _
      · refine every_bind (inductionHypothesis _) fun dirs => ?_
        cases dirs with
        | error _ => trivial
        | ok dirs =>
          refine every_foldlM (fun acc d => ?_) dirs _
          cases acc with
          | error _ => trivial
          | ok m => exact globDir_every _ _ _

theorem ioGlob_every (pattern : String) : (ioGlob pattern).Every ReadOnly := by
  unfold ioGlob
  split
  · trivial
  · exact every_bind (glob_every _ _) fun r => by cases r <;> trivial

theorem ioReadFile_every (name : String) : (ioReadFile name).Every ReadOnly := by
  unfold ioReadFile
  split
  · trivial
  · exact every_bind (readFile_every _) fun r => by cases r <;> trivial

theorem parseFiles_every (rt : Runtime) : ∀ filenames, (parseFiles rt filenames).Every ReadOnly
  | [] => trivial
  | filename :: rest => by
    refine every_bind (ioReadFile_every filename) fun read => ?_
    cases read with
    | error _ => trivial
    | ok data =>
      dsimp only
      split
      · trivial
      · exact every_bind (parseFiles_every rt rest) fun r => by cases r <;> trivial

theorem parseFS_every (rt : Runtime) (pattern : String) : (parseFS rt pattern).Every ReadOnly := by
  refine every_bind (ioGlob_every pattern) fun found => ?_
  rcases found with _ | _ | ⟨filename, rest⟩
  · trivial
  · trivial
  · exact parseFiles_every rt _

theorem fileStat_reads (md5 : Bytes → String) (name : String) :
    (fileStat md5 name).Every (ReadsOnly (· = name)) := by
  refine every_bind (isFileExist_reads name) fun exists_ => ?_
  cases exists_
  · trivial
  · refine ⟨⟨⟨rfl, rfl⟩, fun _ touched => touched⟩, fun opened => ?_⟩
    cases opened with
    | some _ => trivial
    | none =>
      refine every_withDefer ⟨⟨⟨rfl, rfl⟩, fun _ touched => touched⟩, fun stats => ?_⟩
        ⟨⟨⟨rfl, rfl⟩, fun _ touched => touched⟩, fun _ => trivial⟩
      cases stats with
      | error _ => trivial
      | ok stats =>
        dsimp only [pure_bind']
        split
        · trivial
        · exact ⟨⟨⟨rfl, rfl⟩, fun _ touched => touched⟩, fun _ => trivial⟩

/-- A read-only call on one of `S`'s paths is one on any larger set of paths. -/
theorem ReadsOnly.mono {S T : String → Prop} {c : Call} (weaker : ∀ p, S p → T p) (reads : ReadsOnly S c) :
    ReadsOnly T c :=
  ⟨reads.1, reads.2.mono weaker⟩

theorem isConfigChanged_reads (md5 : Bytes → String) (src dest : String) :
    (isConfigChanged md5 src dest).Every (ReadsOnly fun p => p = src ∨ p = dest) := by
  refine every_bind ((isFileExist_reads dest).mono fun _ => ReadsOnly.mono fun _ => .inr) fun exists_ => ?_
  cases exists_
  · trivial
  · refine every_bind ((fileStat_reads md5 dest).mono fun _ => ReadsOnly.mono fun _ => .inr) fun d => ?_
    cases d with
    | error _ => trivial
    | ok _ =>
      exact every_bind ((fileStat_reads md5 src).mono fun _ => ReadsOnly.mono fun _ => .inl)
        fun s => by cases s <;> trivial

theorem isConfigChanged_every (md5 : Bytes → String) (src dest : String) :
    (isConfigChanged md5 src dest).Every ReadOnly :=
  (isConfigChanged_reads md5 src dest).mono fun _ => And.left

/-! ## The steps of the cycle -/

theorem setFileMode_reads (t : TemplateResource) : (setFileMode t).Every (ReadsOnly (· = t.dest)) := by
  unfold setFileMode
  split
  · refine every_bind (isFileExist_reads t.dest) fun exists_ => ?_
    cases exists_
    · trivial
    · exact ⟨⟨⟨rfl, rfl⟩, fun _ touched => touched⟩, fun r => by cases r <;> trivial⟩
  · split <;> trivial

theorem setFileMode_every (t : TemplateResource) : (setFileMode t).Every ReadOnly :=
  (setFileMode_reads t).mono fun _ => And.left

theorem setFileMode_returns (t : TemplateResource) :
    (setFileMode t).Returns fun res => ∀ t', res = .ok t' → ∃ mode, t' = { t with fileMode := mode } := by
  unfold setFileMode
  split
  · refine returns_bind fun exists_ => ?_
    cases exists_
    · simp
    · exact fun r => by cases r <;> simp
  · split <;> simp

theorem setVars_every (t : TemplateResource) : (setVars t).Every ReadOnly :=
  ⟨⟨rfl, rfl⟩, fun r => by cases r <;> trivial⟩

theorem setVars_returns (t : TemplateResource) :
    (setVars t).Returns fun res => ∀ t', res = .ok t' → ∃ store, t' = { t with store := store } :=
  fun r => by cases r <;> simp

theorem executeInto_every (name : String) :
    ∀ pieces err, (executeInto name pieces err).Every fun c => ∃ piece, c = .write name piece
  | [], _ => trivial
  | piece :: rest, err => ⟨⟨piece, rfl⟩, fun written => by
      obtain ⟨_, werr⟩ := written
      cases werr with
      | some _ => trivial
      | none => exact executeInto_every name rest err⟩

theorem readOnly_staging {dest : String} {c : Call} (read : ReadOnly c) : Staging dest c :=
  ⟨read.2, by simp [read.1]⟩

/-- `createStageFile` runs no command and writes only names `TempFile` may try for `Dest`. -/
theorem createStageFile_every (rt : Runtime) (t : TemplateResource) :
    (createStageFile rt t).Every (Staging t.dest) := by
  refine every_bind ((isFileExist_every t.src).mono fun _ => readOnly_staging) fun found => ?_
  cases found
  · trivial
  · refine every_bind ((parseFS_every rt t.src).mono fun _ => readOnly_staging) fun parsed => ?_
    cases parsed with
    | error _ => trivial
    | ok templates =>
      refine every_bind_of_returns ((tempFile_every _ _).mono fun c tried => ?_) (tempFile_returns _ _)
        fun created named => ?_
      · rcases tried with rfl | ⟨r, rfl⟩
        · exact ⟨rfl, by simp [Call.written]⟩
        · exact ⟨rfl, by simp [Call.written]; exact ⟨r, rfl⟩⟩
      · cases created with
        | error _ => trivial
        | ok temp =>
          have onTemp : ∀ c : Call, (∀ p ∈ c.written, p = temp) → c.isCommand = false →
              Staging t.dest c := fun c only quiet =>
            ⟨quiet, fun p mem => only p mem ▸ named temp rfl⟩
          refine every_bind ((executeInto_every temp _ _).mono fun c write => ?_) fun err => ?_
          · obtain ⟨piece, rfl⟩ := write
            exact onTemp _ (by simp [Call.written]) rfl
          · cases err with
            | some _ =>
              exact ⟨onTemp _ (by simp [Call.written]) rfl, fun _ =>
                ⟨onTemp _ (by simp [Call.written]) rfl, fun _ => trivial⟩⟩
            | none =>
              refine every_withDefer ⟨onTemp _ (by simp [Call.written]) rfl, fun _ =>
                ⟨onTemp _ (by simp [Call.written]) rfl, fun _ => trivial⟩⟩
                ⟨onTemp _ (by simp [Call.written]) rfl, fun _ => trivial⟩

/-- The resource `createStageFile` returns is the one it was given, staging a name `TempFile`
may try for `Dest`. -/
theorem createStageFile_returns (rt : Runtime) (t : TemplateResource) :
    (createStageFile rt t).Returns fun res =>
      ∀ t', res = .ok t' → ∃ temp, IsTempName t.dest temp ∧ t' = { t with stageFile := some temp } := by
  refine returns_bind fun found => ?_
  cases found
  · simp
  · refine returns_bind fun parsed => ?_
    cases parsed with
    | error _ => simp
    | ok templates =>
      refine returns_bind_of_returns (tempFile_returns _ _) fun created named => ?_
      cases created with
      | error _ => simp
      | ok temp =>
        refine returns_bind fun err => ?_
        cases err with
        | some _ => exact returns_bind fun _ => returns_bind fun _ => by simp
        | none =>
          refine returns_withDefer (returns_bind fun _ => returns_bind fun _ => ?_)
          simpa using named temp rfl

/-! ## Sync -/

/-- Whether `sync` runs the check command: not sync-only, and a check command set. -/
def checkEnabled (t : TemplateResource) : Bool := !t.syncOnly && t.checkCmd != ""

/-- Whether `sync` runs the reload command: not sync-only, and a reload command set. -/
def reloadEnabled (t : TemplateResource) : Bool := !t.syncOnly && t.reloadCmd != ""

/-- Every run of `checkStep`: nothing when the check is off; when it is on, either the check
command does not expand and nothing runs, or the expanded command runs on the staged file and
its failure is the step's error. -/
theorem checkStep_yields {rt : Runtime} {t : TemplateResource} {staged : String}
    (stage : t.stageFile = some staged) {tr : List Event} {e : Ending (Option Error)}
    (run : (checkStep rt t).Yields tr e) :
    checkEnabled t = false ∧ tr = [] ∧ e = .returned none ∨
      checkEnabled t = true ∧ (∃ msg, rt.expandCheck t.checkCmd staged = .error msg ∧
        tr = [] ∧ e = .returned (some (.new ("Config check failed: " ++ msg)))) ∨
      checkEnabled t = true ∧ ∃ cmd r, rt.expandCheck t.checkCmd staged = .ok cmd ∧
        tr = [⟨.runCommand cmd, r⟩] ∧
        e = .returned (r.map fun err => .new ("Config check failed: " ++ err.msg)) := by
  unfold checkStep at run
  split at run
  · rename_i enabled
    simp only [check, stage, bind_eq] at run
    split at run
    · rename_i msg expanded
      simp at run
      exact .inr (.inl ⟨enabled, msg, expanded, run.1, run.2⟩)
    · rename_i cmd expanded
      simp only [runCommand, call_bind, pure_bind', yields_call] at run
      obtain ⟨r, tr', rfl, rest⟩ := run
      refine .inr (.inr ⟨enabled, cmd, r, expanded, ?_⟩)
      cases r <;> simp at rest <;> simp [rest]
  · rename_i disabled
    simp at run
    exact .inl ⟨Bool.eq_false_iff.mpr disabled, run.1, run.2⟩

/-- Every run of `reloadStep`: nothing when reloading is off, else the reload command. -/
theorem reloadStep_yields {t : TemplateResource} {tr : List Event} {e : Ending (Option Error)}
    (run : (reloadStep t).Yields tr e) :
    reloadEnabled t = false ∧ tr = [] ∧ e = .returned none ∨
      reloadEnabled t = true ∧ ∃ r, tr = [⟨.runCommand t.reloadCmd, r⟩] ∧ e = .returned r := by
  unfold reloadStep at run
  split at run
  · simp only [reload, runCommand, yields_call, yields_pure] at run
    obtain ⟨r, _, rfl, rfl, rfl⟩ := run
    exact .inr ⟨by assumption, r, rfl, rfl⟩
  · rename_i disabled
    simp at run
    exact .inl ⟨Bool.eq_false_iff.mpr disabled, run.1, run.2⟩

/-! ## The paths each step touches -/

/-- The names `Glob` finds for a pattern with no metacharacter: the pattern, or none. -/
def FoundOnly (pattern : String) (res : Except Error (List String)) : Prop :=
  ∀ found, res = .ok found → ∀ n ∈ found, n = pattern

theorem glob_plain {pattern : String} (plain : hasMeta pattern = false) (fuel : Nat) :
    (glob fuel pattern).Every (Names (· = pattern)) ∧ (glob fuel pattern).Returns (FoundOnly pattern) := by
  rw [glob]
  simp only [plain, Bool.not_false, if_true]
  exact ⟨⟨fun _ touched => touched, fun r => by cases r <;> trivial⟩,
    fun r => by cases r <;> simp [FoundOnly]⟩

theorem ioGlob_plain {pattern : String} (plain : hasMeta pattern = false) :
    (ioGlob pattern).Every (Names (· = pattern)) ∧ (ioGlob pattern).Returns (FoundOnly pattern) := by
  unfold ioGlob
  split
  · exact ⟨trivial, by simp [FoundOnly]⟩
  · obtain ⟨names, found⟩ := glob_plain plain pattern.length
    refine ⟨every_bind names fun r => by cases r <;> trivial, returns_bind_of_returns found fun r only => ?_⟩
    cases r with
    | error _ => simp [FoundOnly]
    | ok items => simpa [FoundOnly] using only

theorem parseFiles_names (rt : Runtime) (S : String → Prop) :
    ∀ filenames : List String, (∀ n ∈ filenames, S n) → (parseFiles rt filenames).Every (Names S)
  | [], _ => trivial
  | filename :: rest, named => by
    have onFile := named filename (List.mem_cons_self filename rest)
    refine every_bind ?_ fun read => ?_
    · unfold ioReadFile
      split
      · trivial
      · refine every_bind ((readFile_reads filename).mono fun _ reads p touched => ?_) fun r => by
          cases r <;> trivial
        rw [reads.2 p touched]
        exact onFile
    · cases read with
      | error _ => trivial
      | ok data =>
        dsimp only
        split
        · trivial
        · exact every_bind (parseFiles_names rt S rest fun n mem => named n (List.mem_cons_of_mem _ mem))
            fun r => by cases r <;> trivial

theorem parseFS_names (rt : Runtime) {pattern : String} (plain : hasMeta pattern = false) :
    (parseFS rt pattern).Every (Names (· = pattern)) := by
  obtain ⟨names, found⟩ := ioGlob_plain plain
  refine every_bind_of_returns names found fun res only => ?_
  rcases res with _ | _ | ⟨filename, rest⟩
  · trivial
  · trivial
  · exact parseFiles_names rt _ _ (only _ rfl)

/-- With a template path that is no pattern, `createStageFile` touches the template and names
`TempFile` may try for `Dest`, and nothing else. -/
theorem createStageFile_names (rt : Runtime) (t : TemplateResource) (plain : hasMeta t.src = false) :
    (createStageFile rt t).Every (Names fun p => p = t.src ∨ IsTempName t.dest p) := by
  refine every_bind ((isFileExist_reads t.src).mono fun _ reads => reads.2.mono fun _ => .inl) fun found => ?_
  cases found
  · trivial
  · refine every_bind ((parseFS_names rt plain).mono fun _ => Names.mono fun _ => .inl) fun parsed => ?_
    cases parsed with
    | error _ => trivial
    | ok templates =>
      refine every_bind_of_returns ((tempFile_every _ _).mono fun c tried => ?_) (tempFile_returns _ _)
        fun created named => ?_
      · rcases tried with rfl | ⟨r, rfl⟩
        · exact fun _ touched => touched.elim
        · exact fun p touched => .inr ⟨r, touched⟩
      · cases created with
        | error _ => trivial
        | ok temp =>
          have onTemp : ∀ c : Call, (∀ p, c.Touches p → p = temp) → Names (fun p => p = t.src ∨ IsTempName t.dest p) c :=
            fun c only p touched => .inr (only p touched ▸ named temp rfl)
          refine every_bind ((executeInto_every temp _ _).mono fun c write => ?_) fun err => ?_
          · obtain ⟨piece, rfl⟩ := write
            exact onTemp _ fun _ touched => touched
          · cases err with
            | some _ =>
              exact ⟨onTemp _ fun _ touched => touched, fun _ =>
                ⟨onTemp _ fun _ touched => touched, fun _ => trivial⟩⟩
            | none =>
              exact every_withDefer ⟨onTemp _ fun _ touched => touched, fun _ =>
                ⟨onTemp _ fun _ touched => touched, fun _ => trivial⟩⟩
                ⟨onTemp _ fun _ touched => touched, fun _ => trivial⟩

theorem writeFile_names (name : String) (data : Bytes) (perm : Nat) :
    (writeFile name data perm).Every (Names (· = name)) := by
  refine ⟨fun _ touched => touched, fun opened => ?_⟩
  cases opened with
  | some _ => trivial
  | none =>
    refine ⟨fun _ touched => touched, fun written => ?_⟩
    obtain ⟨_, _⟩ := written
    exact ⟨fun _ touched => touched, fun _ => trivial⟩

theorem commit_names (t : TemplateResource) (staged : String) :
    (commit t staged).Every (Names fun p => p = staged ∨ p = t.dest) := by
  refine ⟨fun _ touched => touched, fun renamed => ?_⟩
  cases renamed with
  | none => trivial
  | some err =>
    dsimp only [pure_bind']
    split
    · refine every_bind ((readFile_reads staged).mono fun _ reads => reads.2.mono fun _ => .inl) fun contents => ?_
      cases contents with
      | error _ => trivial
      | ok contents =>
        refine every_bind ((writeFile_names t.dest contents t.fileMode).mono fun _ => Names.mono fun _ => .inr)
          fun _ => ⟨fun _ touched => .inr touched, fun _ => trivial⟩
    · trivial

/-- The check and the reload only run commands, which touch no path. -/
theorem checkStep_names (rt : Runtime) (t : TemplateResource) (S : String → Prop) :
    (checkStep rt t).Every (Names S) := by
  unfold checkStep
  split
  · refine every_bind ?_ fun r => by cases r <;> trivial
    unfold check
    split
    · trivial
    · split
      · trivial
      · exact ⟨fun _ touched => touched.elim, fun _ => trivial⟩
  · trivial

theorem reloadStep_names (t : TemplateResource) (S : String → Prop) : (reloadStep t).Every (Names S) := by
  unfold reloadStep
  split
  · exact ⟨fun _ touched => touched.elim, fun _ => trivial⟩
  · trivial

theorem syncBody_names (rt : Runtime) (t : TemplateResource) (staged : String) :
    (syncBody rt t staged).Every (Names fun p => p = staged ∨ p = t.dest) := by
  refine every_bind ((isConfigChanged_reads _ _ _).mono fun _ => And.right) fun ⟨changed, _⟩ => ?_
  dsimp only
  split
  · trivial
  · split
    · trivial
    · refine every_bind (checkStep_names _ _ _) fun checked => ?_
      cases checked with
      | some _ => trivial
      | none =>
        exact every_bind (commit_names t staged) fun committed => by
          cases committed
          · exact reloadStep_names t _
          · trivial

theorem sync_names (rt : Runtime) {t : TemplateResource} {staged : String} (stage : t.stageFile = some staged) :
    (sync rt t).Every (Names fun p => p = staged ∨ p = t.dest) := by
  simp only [sync, stage]
  split
  · exact syncBody_names rt t staged
  · exact every_withDefer (syncBody_names rt t staged) ⟨fun _ touched => .inl touched, fun _ => trivial⟩

/-! ## The paths of a cycle -/

/-- The paths a cycle of `t` may touch: the template, `Dest` and the names `TempFile` may try
for it; every path, when the template path is a pattern. -/
def Region (t : TemplateResource) (p : String) : Prop :=
  hasMeta t.src = true ∨ p = t.src ∨ p = t.dest ∨ IsTempName t.dest p

/-- The paths a cycle of `t` may write: `Dest` and the names `TempFile` may try for it. -/
def Writes (t : TemplateResource) (p : String) : Prop := p = t.dest ∨ IsTempName t.dest p

/-- A call a cycle of `t` may make: it touches only the cycle's footprint and writes only what
the cycle may write. -/
def Within (t : TemplateResource) (c : Call) : Prop :=
  Names (Region t) c ∧ ∀ p ∈ c.written, Writes t p

theorem within_of_writes {t : TemplateResource} {c : Call} (names : Names (Writes t) c) : Within t c :=
  ⟨fun p touched => .inr (.inr (names p touched)), fun _ mem => names _ (Call.touches_of_mem_written mem)⟩

theorem createStageFile_within (rt : Runtime) (t : TemplateResource) :
    (createStageFile rt t).Every (Within t) := by
  cases meta : hasMeta t.src
  · exact ((createStageFile_names rt t meta).and (createStageFile_every rt t)).mono fun c ⟨names, staging⟩ =>
      ⟨fun p touched => (names p touched).elim (.inr ∘ .inl) (.inr ∘ .inr ∘ .inr), fun p mem => .inr (staging.2 p mem)⟩
  · exact (createStageFile_every rt t).mono fun c staging => ⟨fun _ _ => .inl meta, fun p mem => .inr (staging.2 p mem)⟩

/-- Every call of a cycle of `t`, on every branch, stays within its footprint. -/
theorem process_within (rt : Runtime) (t : TemplateResource) : (process rt t).Every (Within t) := by
  refine every_bind_of_returns ((setFileMode_reads t).mono fun _ reads => within_of_writes (reads.2.mono fun _ => .inl))
    (setFileMode_returns t) fun r₁ moded => ?_
  cases r₁ with
  | error _ => trivial
  | ok t₁ =>
    obtain ⟨mode, rfl⟩ := moded _ rfl
    refine every_bind_of_returns ⟨within_of_writes fun _ touched => touched.elim, fun r => by cases r <;> trivial⟩
      (setVars_returns _) fun r₂ stored => ?_
    cases r₂ with
    | error _ => trivial
    | ok t₂ =>
      obtain ⟨store, same⟩ := stored _ rfl
      refine every_bind_of_returns ((createStageFile_within rt t₂).mono fun _ => by subst same; exact id)
        (createStageFile_returns rt t₂) fun r₃ staged => ?_
      cases r₃ with
      | error _ => trivial
      | ok t' =>
        obtain ⟨temp, named, staged'⟩ := staged _ rfl
        subst same
        have stage : t'.stageFile = some temp := by rw [staged']
        refine every_bind ((sync_names rt stage).mono fun c names => within_of_writes fun p touched => ?_)
          fun _ => trivial
        rcases names p touched with rfl | rfl
        · exact .inr named
        · exact .inl (by rw [staged'])

end Confd.Verified.Footprint
