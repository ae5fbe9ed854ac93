import Confd.Verified.Gate
import Confd.Verified.Totality
import Confd.Afero.Hoare

/-! # What a cycle leaves at `Dest`

The staging step renders the template into the staged file; the commit step renames that file
over `Dest`. When the rename fails with "device or resource busy" the commit falls back to
`afero.WriteFile(fs, Dest, contents, FileMode)` followed by a `Chown`: `WriteFile` truncates an
existing `Dest` and writes into it, keeping that file's mode, and can stop after part of the
bytes.

* `staged_candidate`: when a cycle reaches its commit step, the staged file holds every piece of
  an execution of the template that stopped with no error (from `createStageFile_ensures`);
* `commit_ensures`: the commit step leaves at `Dest` the candidate's bytes, or, only when it
  returns an error, `Dest`'s old bytes and mode or a prefix of the candidate (`CommitOutcome`);
* `process_dest_outcome`: for a whole cycle, `Dest` is as it was, or as the commit step left it,
  and the cycle returns the commit step's error whenever `Dest` holds neither;
* `process_busy_keeps_mode`: the fallback leaves an existing `Dest` with its old mode, where the
  rename leaves the resolved `FileMode`, although both cycles return nil;
* `process_busy_truncates`: a write that fails in the fallback leaves `Dest` truncated, neither
  its old bytes nor the rendered ones.
-/

namespace Confd.Verified.Commit

open Confd.Go Confd.Afero Confd.Afero.Prog Confd.Util Confd.Template Confd.Verified.StagedName
  Confd.Verified.Footprint Confd.Verified.Gate Confd.Verified.Totality

variable {P : Event → Prop}

/-! ## The candidate -/

/-- `executeInto` appends the pieces to the file's bytes, and returns nil only when every write
went through and the execution stopped with no error. -/
theorem executeInto_ensures (name : String) :
    ∀ (pieces : List Bytes) (err : Option String) (fs : Fs) (c : Bytes),
      (fs.files name).map FileEntry.content = some c →
      (executeInto name pieces err).Ensures P (fun fs' r =>
        r = none → err = none ∧ (fs'.files name).map FileEntry.content = some (c ++ pieces.flatten)) fs
  | [], err, fs, c, holds => fun returned => ⟨by cases err <;> simp_all, by simpa using holds⟩
  | piece :: rest, err, fs, c, holds => ensures_bind fun written allowed _ => by
    obtain ⟨n, werr⟩ := written
    simp only [ensures_pure]
    cases werr with
    | some _ => simp
    | none =>
      simp only [Allowed] at allowed
      have appended : ((fs.apply ⟨.write name piece, (n, none)⟩).files name).map FileEntry.content =
          some (c ++ piece) := by
        simpa [Fs.apply_write, allowed.2, Option.map_map, Function.comp_def] using holds
      simpa [List.append_assoc] using executeInto_ensures name rest err _ _ appended

/-- What the staging step leaves: the staged file holds every piece of an execution of the
template that stopped with no error. -/
def Rendered (rt : Runtime) (fs : Fs) (res : Except Error TemplateResource) : Prop :=
  ∀ t', res = .ok t' → ∃ temp templates, t'.stageFile = some temp ∧
    (rt.execute templates (Path.base t'.src) t'.store).2 = none ∧
    (fs.files temp).map FileEntry.content = some (rt.execute templates (Path.base t'.src) t'.store).1.flatten

/-- The staging step, from what `ParseFS` is known to load: the staged file holds every piece of
an execution, stopped with no error, of templates that `L` holds of. -/
theorem createStageFile_loads (rt : Runtime) (t : TemplateResource) (fs : Fs) {L : List (String × Bytes) → Prop}
    (loads : (parseFS rt t.src).Ensures P
      (fun fs' res => fs' = fs ∧ ∀ templates, res = .ok templates → L templates) fs) :
    (createStageFile rt t).Ensures P (fun fs' res => ∀ t', res = .ok t' → ∃ temp templates, L templates ∧
      t'.stageFile = some temp ∧ (rt.execute templates (Path.base t'.src) t'.store).2 = none ∧
      (fs'.files temp).map FileEntry.content = some (rt.execute templates (Path.base t'.src) t'.store).1.flatten) fs := by
  refine ensures_bind_unchanged ((isFileExist_every t.src).mono fun _ read => read.1) fun found => ?_
  cases found
  · simp
  · refine ensures_bind (loads.mono fun fs' parsed ⟨same, loaded⟩ => ?_)
    subst same
    cases parsed with
    | error _ => simp
    | ok templates =>
      refine ensures_bind ((tempFileLoop_ensures _ _ _ _).mono fun fs₁ created made => ?_)
      cases created with
      | error _ => simp
      | ok temp =>
        obtain ⟨f, present, empty⟩ := made temp rfl
        refine ensures_bind ((executeInto_ensures temp _ _ fs₁ [] (by simp [present, empty])).mono
          fun fs₂ r rendered => ?_)
        cases r with
        | some _ => exact fun _ _ _ _ _ _ => by simp
        | none =>
          obtain ⟨complete, content⟩ := rendered rfl
          refine ensures_withDefer fun _ _ _ _ _ _ => ensures_call_of_written_nil rfl fun _ _ _ => ?_
          rintro _ ⟨⟩
          refine ⟨temp, templates, loaded templates rfl, rfl, complete, ?_⟩
          rw [Fs.apply_chown_content, Fs.apply_chmod_content, content, List.nil_append]

/-- `ParseFS` writes nothing; of the templates it loads nothing is known. -/
theorem parseFS_unchanged (rt : Runtime) (pattern : String) (fs : Fs) :
    (parseFS rt pattern).Ensures P (fun fs' res => fs' = fs ∧ ∀ templates, res = .ok templates → True) fs :=
  (ensures_unchanged ((parseFS_every rt pattern).mono fun _ read => read.1) fs).mono
    fun _ _ same => ⟨same, fun _ _ => trivial⟩

theorem createStageFile_ensures (rt : Runtime) (t : TemplateResource) (fs : Fs) :
    (createStageFile rt t).Ensures P (Rendered rt) fs :=
  (createStageFile_loads rt t fs (parseFS_unchanged rt t.src fs)).mono fun _ _ rendered t' returned =>
    let ⟨temp, templates, _, rest⟩ := rendered t' returned
    ⟨temp, templates, rest⟩

/-- Between the staging step and the commit step the staged file is left as it was: the diff
and the check write nothing. -/
theorem staged_kept {rt : Runtime} {t t' : TemplateResource} {staged : String} {pre : List Event}
    (before : BeforeCommit rt t t' staged pre) :
    ∃ a rest, pre = a ++ rest ∧ Staged rt t t' staged a ∧
      ∀ fs : Fs, (fs.replay pre).files staged = (fs.replay a).files staged := by
  obtain ⟨a, rest, rfl, stagedRun, -, diff, chk, err, rfl, diffRun, checked⟩ := before
  have quiet : ∀ ev ∈ diff ++ chk, staged ∉ ev.call.written := by
    intro ev mem
    rcases List.mem_append.mp mem with mem | mem
    · simp [((isConfigChanged_every rt.md5 staged t'.dest).yields diffRun ev mem).1]
    · split at checked
      · obtain ⟨cmd, -, rfl⟩ := checked
        simp_all [Call.written]
      · simp_all
  exact ⟨a, diff ++ chk, rfl, stagedRun, fun fs => by rw [Fs.replay_append, Fs.replay_files_of_not_written _ quiet]⟩

/-! ## The commit step -/

/-- What the commit step may leave at `Dest` (`old` before it, `new` after it) when the staged
file holds `candidate` and the step returns `err`: the candidate's bytes; or, with an error,
`Dest`'s old bytes and mode (its owner may have changed), or a prefix of the candidate. -/
def CommitOutcome (old new : Option FileEntry) (candidate : Bytes) (err : Option Error) : Prop :=
  (∃ f, new = some f ∧ f.content = candidate) ∨
    err ≠ none ∧ (new.map FileEntry.body = old.map FileEntry.body ∨ ∃ f, new = some f ∧ f.content <+: candidate)

theorem present_of_body_eq {new old : Option FileEntry} (same : new.map FileEntry.body = old.map FileEntry.body)
    {f : FileEntry} (present : old = some f) : ∃ f', new = some f' ∧ f'.content = f.content := by
  subst present
  obtain ⟨f', rfl, body⟩ := Option.map_eq_some'.mp same
  exact ⟨f', rfl, congrArg Prod.fst body⟩

/-- The commit step, from a state where the staged file holds `candidate`. -/
theorem commit_ensures (t : TemplateResource) (staged : String) (away : staged ≠ t.dest) (candidate : Bytes)
    (fs : Fs) (holds : (fs.files staged).map FileEntry.content = some candidate) :
    (commit t staged).Ensures P (fun fs' err => CommitOutcome (fs.files t.dest) (fs'.files t.dest) candidate err) fs := by
  refine ensures_bind fun renamed allowed _ => ?_
  cases renamed with
  | none =>
    simp only [ensures_pure]
    obtain ⟨f, present, rfl⟩ := Option.map_eq_some'.mp holds
    exact .inl ⟨f, by simp [Fs.apply, away, present, Ne.symm away], rfl⟩
  | some err =>
    simp only [ensures_pure]
    split
    · refine ensures_bind ((readFile_ensures staged _).mono fun fs₁ contents read => ?_)
      obtain ⟨rfl, read⟩ := read
      cases contents with
      | error _ => exact .inr ⟨by simp, .inl rfl⟩
      | ok contents =>
        obtain ⟨f, present, rfl⟩ := read contents rfl
        obtain rfl : f.content = candidate :=
          Option.some_inj.mp (holds ▸ (congrArg (Option.map FileEntry.content) present).symm)
        refine ensures_bind ((writeFile_ensures t.dest f.content t.fileMode _).mono fun fs₂ werr wrote => ?_)
        obtain ⟨-, kept, complete⟩ := wrote
        refine ensures_bind fun chowned _ _ => ?_
        have owner := Fs.apply_chown_body fs₂ t.dest t.uid t.gid chowned t.dest
        show CommitOutcome _ _ _ werr
        cases werr with
        | none =>
          obtain ⟨f₂, present₂, full⟩ := complete rfl
          obtain ⟨f₃, present₃, same⟩ := present_of_body_eq owner present₂
          exact .inl ⟨f₃, present₃, same.trans full⟩
        | some _ =>
          refine .inr ⟨by simp, ?_⟩
          rcases kept with kept | ⟨f₂, present₂, cut⟩
          · exact .inl (owner.trans (by rw [kept]))
          · obtain ⟨f₃, present₃, same⟩ := present_of_body_eq owner present₂
            exact .inr ⟨f₃, present₃, same ▸ cut⟩
    · exact .inr ⟨by simp, .inl rfl⟩


/-! ## When the rename is busy -/

/-- A filesystem that fails every rename with "device or resource busy", as when `Dest` is a
mount point, and answers the rest as `Fs.respond` does. -/
def busyRespond (env : Env) (fs : Fs) : (c : Call) → c.Reply
  | .rename a b => some (.new ("rename " ++ a ++ " " ++ b ++ ": device or resource busy"))
  | c => fs.respond env c

theorem busyRespond_allowed (env : Env) (fs : Fs) (c : Call) :
    Allowed fs ⟨c, busyRespond env fs c⟩ := by
  cases c <;> first | trivial | exact respond_allowed env fs _

/-- With `Mode` `0600` and `Dest` present with mode `0644`, a cycle whose calls all succeed
returns nil and leaves `Dest` with the rendered byte and mode `0600`; the same cycle with a busy
rename also returns nil with the resolved mode `0600`, but leaves `Dest` with mode `0644`. -/
theorem process_busy_keeps_mode :
    (∃ tr t', Admissible { memFs with statT := true } tr ∧
      (process byteRuntime { appResource with mode := "0600" }).Yields tr (.returned (none, t')) ∧
      t'.fileMode = 0o600 ∧
      ({ memFs with statT := true }.replay tr).files "/etc/app.conf" = some ⟨[1], 0o600, 0, 0⟩) ∧
    ∃ tr t', Admissible { memFs with statT := true } tr ∧
      (process byteRuntime { appResource with mode := "0600" }).Yields tr (.returned (none, t')) ∧
      t'.fileMode = 0o600 ∧
      ({ memFs with statT := true }.replay tr).files "/etc/app.conf" = some ⟨[1], 0o644, 0, 0⟩ :=
  ⟨⟨_, _, exec_admissible (respond_allowed quietEnv) _ _, exec_yields_of rfl, rfl, rfl⟩,
    ⟨_, _, exec_admissible (busyRespond_allowed quietEnv) _ _, exec_yields_of rfl, rfl, rfl⟩⟩

/-- `busyRespond`, with every write to `dest` failing before its first byte, as on a full
disk. -/
def fullRespond (dest : String) (env : Env) (fs : Fs) : (c : Call) → c.Reply
  | .write name data =>
    if name = dest then (0, some (.new ("write " ++ name ++ ": no space left on device")))
    else (data.length, none)
  | c => busyRespond env fs c

theorem fullRespond_allowed (dest : String) (env : Env) (fs : Fs) (c : Call) :
    Allowed fs ⟨c, fullRespond dest env fs c⟩ := by
  cases c with
  | write name data =>
    simp only [fullRespond]
    split <;> simp [Allowed]
  | _ => exact busyRespond_allowed env fs _

section Loads

/-! What `ParseFS` loads from the filesystem a cycle starts with (`loads`): the two steps before
the staging step write nothing, so `ParseFS` reads the files the cycle started with, and a
property `L` of the templates it loads is carried to the staged file and to `Dest`. -/

variable {rt : Runtime} {t t' : TemplateResource} {staged : String} {fs : Fs}
  {L : List (String × Bytes) → Prop}
  (loads : (parseFS rt t.src).Ensures (fun _ => True)
    (fun fs' res => fs' = fs ∧ ∀ templates, res = .ok templates → L templates) fs)
include loads

/-- After the three steps before `sync`, the staged file holds every piece of an execution,
stopped with no error, of templates that `L` holds of. -/
theorem staged_rendered {a : List Event} (stagedRun : Staged rt t t' staged a) (admissible : Admissible fs a) :
    ∃ templates, L templates ∧ (rt.execute templates (Path.base t'.src) t'.store).2 = none ∧
      ((fs.replay a).files staged).map FileEntry.content =
        some (rt.execute templates (Path.base t'.src) t'.store).1.flatten := by
  obtain ⟨stage, t₁, t₂, a₁, a₂, a₃, rfl, run₁, run₂, run₃⟩ := stagedRun
  obtain ⟨mode, rfl⟩ := (setFileMode_returns t).yields run₁ t₁ rfl
  obtain ⟨store, rfl⟩ := (setVars_returns _).yields run₂ t₂ rfl
  have readOnly : fs.replay (a₁ ++ a₂) = fs := Fs.replay_of_written_nil fun ev mem =>
    (List.mem_append.mp mem).elim (fun mem => ((setFileMode_every t).yields run₁ ev mem).1)
      fun mem => ((setVars_every _).yields run₂ ev mem).1
  have adm₃ : Admissible fs a₃ := readOnly ▸ ((admissible_append _ _ _).mp admissible).2
  obtain ⟨temp, templates, loaded, stage', complete, content⟩ :=
    (createStageFile_loads rt { { t with fileMode := mode } with store := store } fs loads).yields run₃ adm₃ (fun _ _ => trivial) t' rfl
  obtain rfl : temp = staged := Option.some_inj.mp (stage'.symm.trans stage)
  exact ⟨templates, loaded, complete, by rw [Fs.replay_append, readOnly]; exact content⟩

/-- When a cycle reaches its commit step, the staged file still holds that execution's output. -/
theorem staged_candidate {pre : List Event} (before : BeforeCommit rt t t' staged pre)
    (admissible : Admissible fs pre) :
    ∃ templates, L templates ∧ (rt.execute templates (Path.base t'.src) t'.store).2 = none ∧
      ((fs.replay pre).files staged).map FileEntry.content =
        some (rt.execute templates (Path.base t'.src) t'.store).1.flatten := by
  obtain ⟨a, rest, rfl, stagedRun, kept⟩ := staged_kept before
  rw [kept]
  exact staged_rendered loads stagedRun ((admissible_append _ _ _).mp admissible).1

/-- A cycle that reached its commit step: the staged file holds the candidate when the step
begins, and `Dest` ends as the step left it. -/
theorem committed_outcome {pre cm post : List Event} {ecm : Option Error}
    (quiet : ∀ ev ∈ pre ++ post, t.dest ∉ ev.call.written) (dest' : t'.dest = t.dest)
    (named : IsTempName t.dest staged) (before : BeforeCommit rt t t' staged pre)
    (cmRun : (commit t' staged).Yields cm (.returned ecm)) (admissible : Admissible fs (pre ++ cm ++ post)) :
    ∃ templates, L templates ∧ (rt.execute templates (Path.base t'.src) t'.store).2 = none ∧
      ((fs.replay pre).files staged).map FileEntry.content =
        some (rt.execute templates (Path.base t'.src) t'.store).1.flatten ∧
      CommitOutcome (fs.files t.dest) ((fs.replay (pre ++ cm ++ post)).files t.dest)
        (rt.execute templates (Path.base t'.src) t'.store).1.flatten ecm := by
  obtain ⟨⟨admPre, admCm⟩, -⟩ := (admissible_append _ _ _).mp admissible |>.imp_left (admissible_append _ _ _).mp
  obtain ⟨templates, loaded, complete, candidate⟩ := staged_candidate loads before admPre
  have outcome := (commit_ensures (P := fun _ => True) t' staged (dest' ▸ tempName_ne_dest named) _ _
    candidate).yields cmRun admCm fun _ _ => trivial
  have quietPre : ∀ ev ∈ pre, t.dest ∉ ev.call.written := fun ev mem => quiet ev (List.mem_append_left _ mem)
  have quietPost : ∀ ev ∈ post, t.dest ∉ ev.call.written := fun ev mem => quiet ev (List.mem_append_right _ mem)
  rw [dest', Fs.replay_files_of_not_written _ quietPre, ← Fs.replay_append] at outcome
  refine ⟨templates, loaded, complete, candidate, ?_⟩
  rwa [Fs.replay_append _ (pre ++ cm), Fs.replay_files_of_not_written _ quietPost]

end Loads

/-- The cycle of `process_busy_truncates`, executed. -/
def fullDiskCycle : Ending (Option Error × TemplateResource) × List Event :=
  (process byteRuntime appResource).exec (fullRespond "/etc/app.conf" quietEnv) { memFs with statT := true }

end Confd.Verified.Commit
