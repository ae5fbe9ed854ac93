import Confd.Verified.Totality
import Confd.Afero.Hoare

/-! # The staged file does not outlive its cycle

`CreateStageFile` creates the staged file with an exclusive open, so its name was free. It
removes the file again when rendering fails, and `sync` defers its removal on every later exit
unless the file is to be kept. So a cycle that returns leaves every path but `Dest` as it found
it, on a filesystem whose `Remove` deletes a file that exists (`RemovesExisting`; the afero
contract alone lets a `Remove` fail). A shell command is modelled by its exit status only, so
what a check or reload command does to the files is outside the statement.

* `createStageFile_cleans`: the staging step changes nothing when it fails, and when it returns,
  only the staged file, which was missing before;
* `sync_cleans`: `sync` writes only the staged file and `Dest`, and leaves no staged file;
* `process_changes_only_dest`: a whole cycle, on each of its exit paths.
-/

namespace Confd.Verified.Cleanup

open Confd.Go Confd.Afero Confd.Afero.Prog Confd.Util Confd.Template Confd.Verified.StagedName
  Confd.Verified.Footprint Confd.Verified.Totality

/-! ## The staging step -/

/-- `executeInto` writes only into the file at `name`, which stays there. -/
theorem executeInto_frame {P : Event → Prop} (name : String) :
    ∀ (pieces : List Bytes) (err : Option String) (fs : Fs), fs.files name ≠ none →
      (executeInto name pieces err).Ensures P
        (fun fs' _ => fs'.files name ≠ none ∧ ∀ p, p ≠ name → fs'.files p = fs.files p) fs
  | [], _, _, present => ⟨present, fun _ _ => rfl⟩
  | piece :: rest, err, fs, present => ensures_bind fun written _ _ => by
    obtain ⟨n, werr⟩ := written
    have kept : (fs.apply ⟨.write name piece, (n, werr)⟩).files name ≠ none := by
      simpa [Fs.apply_write] using present
    have same : ∀ p, p ≠ name → (fs.apply ⟨.write name piece, (n, werr)⟩).files p = fs.files p :=
      fun p away => by simp [Fs.apply_write, away]
    cases werr with
    | some _ => exact ⟨kept, same⟩
    | none =>
      exact (executeInto_frame name rest err _ kept).mono fun _ _ ⟨kept', same'⟩ =>
        ⟨kept', fun p away => (same' p away).trans (same p away)⟩

/-- What the staging step leaves, from `fs`: the files as they were, when it fails; when it
returns, the files as they were but for the staged file, which was missing. -/
def StagedOnly (fs fs' : Fs) : Except Error TemplateResource → Prop
  | .error _ => ∀ p, fs'.files p = fs.files p
  | .ok t' => ∃ staged, t'.stageFile = some staged ∧ fs.files staged = none ∧
      ∀ p, p ≠ staged → fs'.files p = fs.files p

/-- The staging step leaves the files as they were when it fails, removing a staged file that
rendering failed to fill, and otherwise adds only the staged file. -/
theorem createStageFile_cleans (rt : Runtime) (t : TemplateResource) (fs : Fs) :
    (createStageFile rt t).EnsuresAlong RemovesExisting (StagedOnly fs) fs := by
  refine ensuresAlong_bind_unchanged ((isFileExist_every t.src).mono fun _ read => read.1) fun found => ?_
  cases found
  · exact fun _ => rfl
  refine ensuresAlong_bind_unchanged ((parseFS_every rt t.src).mono fun _ read => read.1) fun parsed => ?_
  cases parsed with
  | error _ => exact fun _ => rfl
  | ok templates =>
    refine ensuresAlong_bind (((tempFileLoop_fresh _ _ _ fs).along fun _ _ _ => trivial).mono
      fun fs₁ created fresh => ?_)
    cases created with
    | error _ => exact fresh
    | ok temp =>
      obtain ⟨missing, present, others⟩ := fresh
      refine ensuresAlong_bind (((executeInto_frame temp _ _ fs₁ present).along fun _ _ _ => trivial).mono
        fun fs₂ rendered ⟨_, same⟩ => ?_)
      have away : ∀ p, p ≠ temp → fs₂.files p = fs.files p := fun p ne => (same p ne).trans (others p ne)
      cases rendered with
      | some _ =>
        -- rendering failed: the file is closed and removed
        refine fun _ _ _ _ _ removes p => ?_
        rw [removes.apply_files]
        split
        · rw [‹p = temp›, missing]
        · exact away p ‹_›
      | none =>
        -- the mode and owner are set and the handle closed: only the staged file changes
        refine ensuresAlong_withDefer fun _ _ _ _ _ _ _ _ _ => ⟨temp, rfl, missing, fun p ne => ?_⟩
        refine ((Fs.apply_files_of_not_written _ ?_ _).trans ((Fs.apply_files_of_not_written _ ?_ _).trans
          (Fs.apply_files_of_not_written _ ?_ _))).trans (away p ne) <;> simp [Call.written, ne]

/-! ## `sync` -/

/-- `sync`, when it does not keep the staged file, leaves no file at its name and changes
nothing but it and `Dest`. -/
theorem sync_cleans (rt : Runtime) {t : TemplateResource} {staged : String} (stage : t.stageFile = some staged)
    (keep : t.keepStageFile = false) (fs : Fs) :
    (sync rt t).EnsuresAlong RemovesExisting
      (fun fs' _ => fs'.files staged = none ∧ ∀ p, p ≠ staged → p ≠ t.dest → fs'.files p = fs.files p) fs := by
  have body := (ensures_frame (P := fun _ => True) ((syncBody_names rt t staged).mono
    fun _ names q mem => names q (Call.touches_of_mem_written mem)) fs).along (B := RemovesExisting)
    fun _ _ _ => trivial
  simp only [sync, stage, keep, Bool.false_eq_true, if_false]
  refine ensuresAlong_withDefer (body.mono fun fs₁ _ same _ _ removes => ⟨?_, fun p ne ne' => ?_⟩)
  · rw [removes.apply_files, if_pos rfl]
  · rw [removes.apply_files, if_neg ne]
    exact same p (not_or.mpr ⟨ne, ne'⟩)

/-! ## A cycle -/

/-- A cycle that does not keep its staged file changes nothing but `Dest`. -/
theorem process_cleans (rt : Runtime) (t : TemplateResource) (keep : t.keepStageFile = false) (fs : Fs) :
    (process rt t).EnsuresAlong RemovesExisting (fun fs' _ => ∀ p, p ≠ t.dest → fs'.files p = fs.files p) fs := by
  refine ensuresAlong_bind_of_returns ((ensures_unchanged (P := fun _ => True)
    ((setFileMode_every t).mono fun _ read => read.1) fs).along fun _ _ _ => trivial) (setFileMode_returns t)
    fun fs₁ r₁ same moded => ?_
  subst same
  cases r₁ with
  | error _ => exact fun _ _ => rfl
  | ok t₁ =>
    obtain ⟨mode, rfl⟩ := moded _ rfl
    refine ensuresAlong_bind_of_returns ((ensures_unchanged (P := fun _ => True)
      ((setVars_every _).mono fun _ read => read.1) fs₁).along fun _ _ _ => trivial) (setVars_returns _)
      fun fs₂ r₂ same stored => ?_
    subst same
    cases r₂ with
    | error _ => exact fun _ _ => rfl
    | ok t₂ =>
      obtain ⟨store, rfl⟩ := stored _ rfl
      refine ensuresAlong_bind_of_returns (createStageFile_cleans rt _ fs₂) (createStageFile_returns rt _)
        fun fs₃ r₃ staged named => ?_
      cases r₃ with
      | error _ => exact fun p _ => staged p
      | ok t' =>
        obtain ⟨temp, stage, missing, others⟩ := staged
        obtain ⟨_, -, rfl⟩ := named _ rfl
        refine ensuresAlong_bind ((sync_cleans rt stage keep fs₃).mono fun fs₄ _ ⟨gone, same⟩ p ne => ?_)
        by_cases isTemp : p = temp
        · rw [isTemp, gone, missing]
        · exact (same p isTemp ne).trans (others p isTemp)

/-- A cycle that does not keep its staged file, run against a filesystem whose `Remove` deletes
a file that exists, leaves every path but `Dest` with the entry it had, on every exit path; so
no name `TempFile` tries for `Dest` that was free before is taken after. -/
theorem process_changes_only_dest {rt : Runtime} {t t' : TemplateResource} {tr : List Event}
    {r : Option Error} {fs : Fs} (keep : t.keepStageFile = false)
    (run : (process rt t).Yields tr (.returned (r, t'))) (admissible : Admissible fs tr)
    (removes : Along RemovesExisting fs tr) :
    (∀ p, p ≠ t.dest → (fs.replay tr).files p = fs.files p) ∧
      ∀ p, IsTempName t.dest p → fs.files p = none → (fs.replay tr).files p = none := by
  have frame := (process_cleans rt t keep fs).yields run admissible removes
  exact ⟨frame, fun p named free => (frame p (tempName_ne_dest named)).trans free⟩

/-- `Fs.respond`, except that a `Remove` of a missing file fails with "file does not exist", as
on the OS filesystem. -/
def osRespond (env : Env) (fs : Fs) : (c : Call) → c.Reply
  | .remove name => if fs.files name = none then some errNotExist else none
  | c => fs.respond env c

theorem osRespond_allowed (env : Env) (fs : Fs) (c : Call) : Allowed fs ⟨c, osRespond env fs c⟩ := by
  cases c <;> first | trivial | exact respond_allowed env fs _

theorem osRespond_removes (env : Env) (fs : Fs) (c : Call) : RemovesExisting fs ⟨c, osRespond env fs c⟩ := by
  cases c with
  | remove name => exact fun present => if_neg present
  | _ => trivial

/-- A cycle of `appResource` on the filesystem of `memFs` with `*syscall.Stat_t` stats: the
rename moves the staged file over `Dest`, so the deferred `Remove` fails. -/
def osCycle : Ending (Option Error × TemplateResource) × List Event :=
  (process byteRuntime appResource).exec (osRespond quietEnv) { memFs with statT := true }

theorem process_changes_only_dest_os_cycle :
    (∀ p, p ≠ appResource.dest →
        ({ memFs with statT := true }.replay osCycle.2).files p = { memFs with statT := true }.files p) ∧
      ∀ p, IsTempName appResource.dest p → { memFs with statT := true }.files p = none →
        ({ memFs with statT := true }.replay osCycle.2).files p = none :=
  process_changes_only_dest rfl (exec_yields_of rfl)
    (exec_admissible (osRespond_allowed quietEnv) _ _) (exec_along (osRespond_removes quietEnv) _ _)

end Confd.Verified.Cleanup
