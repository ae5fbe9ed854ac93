import Confd.Verified.StagingStore
import Confd.Verified.TemplateLoad

/-! # Running a cycle twice

A cycle that returned nil leaves on `Dest` bytes with the digest of the candidate it rendered
(`first_cycle_digest`): either its diff found them there already, or its commit wrote the whole
candidate. When `Src` has no glob metacharacter, `ParseFS` loads the file at `Src` and nothing
else (`parseFS_plain`), so that candidate is the rendering of the file at `Src` with the store
the backend's answer filled. A second cycle whose `Src` holds the same file, because the first
did not write it, and whose backend's reply fills the store as before renders the same
candidate; its diff then reports no change (`diff_unchanged_of_digest`), so it commits nothing
and runs no command (`process_idempotent`). A cycle that commits nothing leaves that digest at
`Dest`, so the same holds of every later cycle, however many (`process_steady`).

The reply fills the store as before when it lists the same pairs in the same order, or in any
order when no two keys share a store key (`RepliesWith`). Without that, the order Go's map
iteration picks decides which of two colliding values the store keeps, and the second cycle can
render another candidate and commit it (`process_recommits_on_reordered_reply`).

The diff reads `Dest` and the staged file: `ReadsSucceed` asks that opening and reading them do
not fail, which a change in between (none is made here) or a faulty filesystem could break.
-/

namespace Confd.Verified.Idempotence

open Confd.Go Confd.Afero Confd.Afero.Prog Confd.Util Confd.Template Confd.Verified.StagedName
  Confd.Verified.Footprint Confd.Verified.Gate Confd.Verified.Commit Confd.Verified.StagingStore
  Confd.Verified.Totality Confd.Verified.TemplateLoad

/-- The filesystem neither failed to open a file for reading nor failed to read it. -/
def ReadsSucceed : Event → Bool
  | ⟨.openFile _ .rdOnly _, err⟩ => err.isNone
  | ⟨.read _, (_, err)⟩ => err.isNone
  | _ => true

/-- A reply of the backend listing the map `m`: in `m`'s order, or in any order when no two of
`m`'s keys share a store key. -/
def RepliesWith (keyPrefix : String) (m : List (String × String)) : Event → Bool
  | ⟨.getValues _, .ok result⟩ =>
    decide (result = m ∨ result.Perm m ∧ (m.map (storeKey keyPrefix ·.1)).Nodup)
  | _ => true

/-- Every reply listing `m` fills the store as `m` does. -/
theorem refill_of_replies {keyPrefix : String} {m result : List (String × String)} {keys : List String}
    (replies : RepliesWith keyPrefix m ⟨.getValues keys, .ok result⟩) :
    Store.refill keyPrefix result = Store.refill keyPrefix m := by
  rcases of_decide_eq_true replies with rfl | ⟨perm, distinct⟩
  · rfl
  · exact refill_perm distinct perm

variable {P : Event → Prop}

/-- `IsFileExist` writes nothing, and says a file is absent only when the `Stat` failed with a
not-exist error. -/
theorem isFileExist_ensures (name : String) (fs : Fs) :
    (isFileExist name).Ensures P (fun fs' found => fs' = fs ∧ (found = false → fs.files name = none)) fs :=
  ensures_bind (ensures_call_of_written_nil rfl fun r allowed _ => by
    cases r with
    | error err => exact ⟨rfl, fun absent => allowed (by simpa using absent)⟩
    | ok _ => exact ⟨rfl, nofun⟩)

/-- `FileStat` of an existing file, when opening and reading it succeed, returns; what it
returns carries the digest of the file's bytes. -/
theorem fileStat_ensures (md5 : Bytes → String) (name : String) (fs : Fs) :
    (fileStat md5 name).Ensures (ReadsSucceed · = true) (fun fs' res => fs' = fs ∧
      (∀ f, fs.files name = some f → ∃ info : Util.FileInfo, res = .ok info) ∧
      ∀ info, res = .ok info → ∃ f, fs.files name = some f ∧ info.md5 = md5 f.content) fs := by
  refine ensures_bind ((isFileExist_ensures name fs).mono fun fs' found ⟨same, absent⟩ => ?_)
  subst same
  cases found with
  | false => exact ⟨rfl, fun f present => by simp [absent rfl] at present, nofun⟩
  | true =>
    refine ensures_bind (ensures_call_of_written_nil rfl fun opened _ succeeded => ?_)
    simp only [ReadsSucceed, Option.isNone_iff_eq_none] at succeeded
    subst succeeded
    refine ensures_withDefer (ensures_bind (ensures_call_of_written_nil rfl fun stats _ _ => ?_))
    rcases stats with _ | ⟨mode, _ | ⟨uid, gid⟩⟩
    · trivial
    · trivial
    refine ensures_bind (ensures_call_of_written_nil rfl fun read allowed succeeded => ?_)
    obtain ⟨data, err⟩ := read
    simp only [ReadsSucceed, Option.isNone_iff_eq_none] at succeeded
    subst succeeded
    obtain ⟨f, present, rfl⟩ := allowed
    simp only [Prog.pure_eq, ensures_pure]
    refine ensures_call_of_written_nil rfl fun _ _ _ => ⟨rfl, fun _ _ => ⟨_, rfl⟩, ?_⟩
    rintro _ ⟨⟩
    exact ⟨f, present, rfl⟩

/-- The diff of an existing staged file, when opening and reading files succeed, reports no
change exactly when `Dest` exists with the same digest. -/
theorem isConfigChanged_ensures (md5 : Bytes → String) (src dest : String) (fs : Fs) :
    (isConfigChanged md5 src dest).Ensures (ReadsSucceed · = true) (fun _ res => ∀ fsrc, fs.files src = some fsrc →
      (res.1 = false ↔ ∃ fd, fs.files dest = some fd ∧ md5 fd.content = md5 fsrc.content)) fs := by
  refine ensures_bind ((isFileExist_ensures dest fs).mono fun fs' found ⟨same, absent⟩ => ?_)
  subst same
  cases found with
  | false => exact fun _ _ => by simp [absent rfl]
  | true =>
    refine ensures_bind ((fileStat_ensures md5 dest _).mono fun fs₂ d ⟨same, presentD, statD⟩ => ?_)
    subst same
    cases d with
    | error _ => exact fun _ _ => ⟨nofun, fun ⟨fd, hd, _⟩ => by obtain ⟨_, ⟨⟩⟩ := presentD fd hd⟩
    | ok d =>
      obtain ⟨fd, hd, md5D⟩ := statD d rfl
      refine ensures_bind ((fileStat_ensures md5 src _).mono fun fs₃ s ⟨same, presentS, statS⟩ => ?_)
      subst same
      cases s with
      | error _ => exact fun fsrc hs => by obtain ⟨_, ⟨⟩⟩ := presentS fsrc hs
      | ok s =>
        intro fsrc hs
        obtain ⟨_, hs', md5S⟩ := statS s rfl
        obtain rfl := Option.some_inj.mp (hs'.symm.trans hs)
        simp [hd, md5D, md5S]

/-- The three steps before `sync` leave the resource as it was but for the resolved mode, the
store refilled from the backend's answer, and the staged file; they make only staging calls. -/
theorem staged_resource {rt : Runtime} {t t' : TemplateResource} {staged : String} {a : List Event}
    (stagedRun : Staged rt t t' staged a) :
    (∃ mode result, ⟨.getValues (appendPrefix t.keyPrefix t.keys), .ok result⟩ ∈ a ∧
      t' = { t with fileMode := mode, store := Store.refill t.keyPrefix result, stageFile := some staged }) ∧
    ∀ ev ∈ a, Staging t.dest ev.call := by
  obtain ⟨stage, t₁, t₂, a₁, a₂, a₃, rfl, run₁, run₂, run₃⟩ := stagedRun
  obtain ⟨mode, rfl⟩ := (setFileMode_returns t).yields run₁ t₁ rfl
  obtain ⟨reply, rfl, ended⟩ := setVars_yields.mp run₂
  rcases reply with _ | result
  · cases ended
  cases ended
  obtain ⟨temp, -, rfl⟩ := (createStageFile_returns rt _).yields run₃ t' rfl
  cases stage
  refine ⟨⟨mode, result, by simp, rfl⟩, fun ev mem => ?_⟩
  simp only [List.mem_append, List.mem_singleton] at mem
  rcases mem with (mem | rfl) | mem
  · exact readOnly_staging ((setFileMode_every t).yields run₁ ev mem)
  · exact readOnly_staging ⟨rfl, rfl⟩
  · exact (createStageFile_every rt _).yields run₃ ev mem

section PlainSrc

/-! A template path with no glob metacharacter: `ParseFS` loads the file at `Src` and nothing
else (`parseFS_plain`), so a cycle renders that file's bytes. -/

variable {rt : Runtime} {t : TemplateResource} {fs : Fs} (plain : hasMeta t.src = false)
include plain

/-- The diff a cycle runs after its staging steps, when opening and reading files succeed,
reports no change exactly when `Dest`, which staging leaves alone, has the digest of the
candidate rendered from the file at `Src`. -/
theorem diff_after_staging {t' : TemplateResource} {staged : String} {a diff : List Event} {changed : Bool}
    {err : Option Error} (stagedRun : Staged rt t t' staged a) (admissible : Admissible fs (a ++ diff))
    (reads : ∀ ev ∈ diff, ReadsSucceed ev)
    (diffRun : (isConfigChanged rt.md5 staged t'.dest).Yields diff (.returned (changed, err))) :
    ∃ fsrc, fs.files t.src = some fsrc ∧
      (rt.execute [(Path.base t.src, fsrc.content)] (Path.base t.src) t'.store).2 = none ∧
      (changed = false ↔ ∃ fd, fs.files t.dest = some fd ∧ rt.md5 fd.content =
        rt.md5 (rt.execute [(Path.base t.src, fsrc.content)] (Path.base t.src) t'.store).1.flatten) := by
  obtain ⟨admA, admDiff⟩ := (admissible_append _ _ _).mp admissible
  obtain ⟨_, ⟨fsrc, source, rfl⟩, complete, content⟩ := staged_rendered (parseFS_plain rt plain fs) stagedRun admA
  obtain ⟨⟨mode, result, -, rfl⟩, staging⟩ := staged_resource stagedRun
  obtain ⟨fstaged, present, candidate⟩ := Option.map_eq_some'.mp content
  have untouched : (fs.replay a).files t.dest = fs.files t.dest :=
    Fs.replay_files_of_not_written a (fun ev mem => staging_not_written (staging ev mem)) fs
  have diffSays := (isConfigChanged_ensures rt.md5 staged _ (fs.replay a)).yields diffRun admDiff reads fstaged present
  dsimp only at diffSays
  rw [untouched, candidate] at diffSays
  exact ⟨fsrc, source, complete, diffSays⟩

/-- After a cycle that returned nil, with noop off and reads that succeed, `Dest` holds bytes
with the digest of the candidate rendered from the file at `Src` and the store the backend's
answer filled. -/
theorem first_cycle_digest {t₁ : TemplateResource} {tr : List Event} (noop : t.noop = false)
    (run : (process rt t).Yields tr (.returned (none, t₁))) (admissible : Admissible fs tr)
    (reads : ∀ ev ∈ tr, ReadsSucceed ev) :
    ∃ result fsrc fd, ⟨.getValues (appendPrefix t.keyPrefix t.keys), .ok result⟩ ∈ tr ∧
      fs.files t.src = some fsrc ∧ (fs.replay tr).files t.dest = some fd ∧
      rt.md5 fd.content = rt.md5 (rt.execute [(Path.base t.src, fsrc.content)] (Path.base t.src)
        (Store.refill t.keyPrefix result)).1.flatten := by
  obtain ⟨pre, cm, post, rfl, quiet, -, tail⟩ := process_shape run
  rcases tail with ⟨rfl, rfl, unchanged, why⟩ | ⟨t', staged, ecm, dest', named, before, cmRun, -, ending⟩
  · obtain ⟨t', staged, a, rest, split, stagedRun, reason⟩ := why t₁ rfl
    obtain ⟨⟨mode, result, asked, rfl⟩, -⟩ := staged_resource stagedRun
    rcases reason with noop' | ⟨diff, rest', err, rfl, diffRun⟩
    · simp [noop] at noop'
    rw [split, ← List.append_assoc] at admissible reads unchanged ⊢
    obtain ⟨fsrc, source, -, same⟩ := diff_after_staging plain stagedRun
      ((admissible_append _ _ _).mp admissible).1 (fun ev mem => reads ev (by simp [mem])) diffRun
    obtain ⟨fd, present, digest⟩ := same.mp rfl
    exact ⟨result, fsrc, fd, by simp [asked], source, by rw [unchanged]; exact present, digest⟩
  obtain ⟨ecm, rfl⟩ := (commit_safe (P := fun _ => True) t' staged).yields cmRun fun _ _ => trivial
  obtain ⟨_, ⟨fsrc, source, rfl⟩, -, -, outcome⟩ :=
    committed_outcome (parseFS_plain rt plain fs) quiet dest' named before cmRun admissible
  obtain rfl : ecm = none := by rcases ending none t₁ rfl with ended | ⟨ended, -⟩ <;> cases ended <;> rfl
  obtain ⟨a, rest, rfl, stagedRun, -⟩ := before
  obtain ⟨⟨mode, result, asked, rfl⟩, -⟩ := staged_resource stagedRun
  rcases outcome with ⟨f, present, content⟩ | ⟨failed, -⟩
  · exact ⟨result, fsrc, f, by simp [asked], source, present, by rw [content]⟩
  · exact absurd rfl failed

/-- What a first cycle that returned nil leaves for the next: the file at `Src` as it was, and at
`Dest` bytes with the digest of the candidate rendered from it into the store `m` fills. -/
theorem first_cycle_leaves {t₁ : TemplateResource} {tr : List Event} {m : List (String × String)}
    (noop : t.noop = false) (run : (process rt t).Yields tr (.returned (none, t₁))) (admissible : Admissible fs tr)
    (srcKept : ∀ ev ∈ tr, t.src ∉ ev.call.written) (reads : ∀ ev ∈ tr, ReadsSucceed ev)
    (replies : ∀ ev ∈ tr, RepliesWith t.keyPrefix m ev) :
    ∃ fsrc fd, (fs.replay tr).files t.src = some fsrc ∧ (fs.replay tr).files t.dest = some fd ∧
      rt.md5 fd.content = rt.md5 (rt.execute [(Path.base t.src, fsrc.content)] (Path.base t.src)
        (Store.refill t.keyPrefix m)).1.flatten := by
  obtain ⟨result, fsrc, fd, asked, source, present, digest⟩ := first_cycle_digest plain noop run admissible reads
  rw [refill_of_replies (replies _ asked)] at digest
  exact ⟨fsrc, fd, by rw [Fs.replay_files_of_not_written tr srcKept, source], present, digest⟩

/-- Once `Dest` holds bytes with the digest of the candidate rendered from the file at `Src` and
the store `m` fills, a cycle whose backend lists `m` and whose reads succeed finds no change. -/
theorem diff_unchanged_of_digest {t' : TemplateResource} {staged : String} {a diff : List Event}
    {changed : Bool} {err : Option Error} {m : List (String × String)} {fsrc fd : FileEntry}
    (source : fs.files t.src = some fsrc) (present : fs.files t.dest = some fd)
    (digest : rt.md5 fd.content = rt.md5 (rt.execute [(Path.base t.src, fsrc.content)] (Path.base t.src)
      (Store.refill t.keyPrefix m)).1.flatten)
    (stagedRun : Staged rt t t' staged a) (admissible : Admissible fs (a ++ diff))
    (reads : ∀ ev ∈ diff, ReadsSucceed ev) (replies : ∀ ev ∈ a, RepliesWith t.keyPrefix m ev)
    (diffRun : (isConfigChanged rt.md5 staged t'.dest).Yields diff (.returned (changed, err))) :
    changed = false := by
  obtain ⟨_, source', -, same⟩ := diff_after_staging plain stagedRun admissible reads diffRun
  obtain rfl := Option.some_inj.mp (source'.symm.trans source)
  obtain ⟨⟨mode, result, asked, rfl⟩, -⟩ := staged_resource stagedRun
  refine same.mpr ⟨fd, present, ?_⟩
  dsimp only
  rw [digest, refill_of_replies (replies _ asked)]

/-- A cycle that finds at `Src` and `Dest` the files of `diff_unchanged_of_digest`, and whose
reads succeed and whose backend lists `m`, finds no change at every diff it runs, leaves `Dest`
as it was and runs no command. -/
theorem process_quiet_of_digest {tr : List Event} {e : Ending (Option Error × TemplateResource)}
    {m : List (String × String)} {fsrc fd : FileEntry} (source : fs.files t.src = some fsrc)
    (present : fs.files t.dest = some fd)
    (digest : rt.md5 fd.content = rt.md5 (rt.execute [(Path.base t.src, fsrc.content)] (Path.base t.src)
      (Store.refill t.keyPrefix m)).1.flatten)
    (run : (process rt t).Yields tr e) (admissible : Admissible fs tr) (reads : ∀ ev ∈ tr, ReadsSucceed ev)
    (replies : ∀ ev ∈ tr, RepliesWith t.keyPrefix m ev) :
    (∀ a diff rest t' staged changed err, tr = a ++ diff ++ rest → Staged rt t t' staged a →
      (isConfigChanged rt.md5 staged t'.dest).Yields diff (.returned (changed, err)) → changed = false) ∧
    (fs.replay tr).files t.dest = fs.files t.dest ∧ ∀ ev ∈ tr, ev.call.isCommand = false := by
  have noChange : ∀ a diff rest t' staged changed err, tr = a ++ diff ++ rest → Staged rt t t' staged a →
      (isConfigChanged rt.md5 staged t'.dest).Yields diff (.returned (changed, err)) → changed = false := by
    rintro a diff rest t' staged changed err rfl stagedRun diffRun
    exact diff_unchanged_of_digest plain source present digest stagedRun
      ((admissible_append _ _ _).mp admissible).1 (fun ev mem => reads ev (by simp [mem]))
      (fun ev mem => replies ev (by simp [mem])) diffRun
  obtain ⟨pre, cm, post, rfl, -, checks, tail⟩ := process_shape run
  have quietPre : ∀ ev ∈ pre, ev.call.isCommand = false := by
    intro ev mem
    obtain ⟨before, rest, split⟩ := List.append_of_mem mem
    cases command : ev.call.isCommand
    · rfl
    obtain ⟨t', staged, a, rest', rfl, stagedRun, -, -, ⟨err, diffRun⟩, -⟩ := checks before ev rest split command
    exact absurd (noChange a rest' (ev :: rest ++ cm ++ post) t' staged true err (by simp [split]) stagedRun
      diffRun) (by simp)
  rcases tail with ⟨rfl, rfl, unchanged, -⟩ | ⟨t', staged, ecm, -, -, ⟨a, rest, rfl, stagedRun, -, diff, chk, err, rfl, diffRun, -⟩, -⟩
  · exact ⟨noChange, unchanged _, by simpa using quietPre⟩
  · exact absurd (noChange a diff (chk ++ cm ++ post) t' staged true err (by simp) stagedRun diffRun) (by simp)

end PlainSrc

theorem process_idempotent {rt : Runtime} {t t₁ : TemplateResource} {tr₁ tr₂ : List Event}
    {e₂ : Ending (Option Error × TemplateResource)} {fs : Fs} {m : List (String × String)}
    (noop : t.noop = false) (plain : hasMeta t.src = false)
    (first : (process rt t).Yields tr₁ (.returned (none, t₁))) (admissible₁ : Admissible fs tr₁)
    (srcKept : ∀ ev ∈ tr₁, t.src ∉ ev.call.written)
    (second : (process rt t).Yields tr₂ e₂) (admissible₂ : Admissible (fs.replay tr₁) tr₂)
    (reads : ∀ ev ∈ tr₁ ++ tr₂, ReadsSucceed ev)
    (replies : ∀ ev ∈ tr₁ ++ tr₂, RepliesWith t.keyPrefix m ev) :
    (∀ a diff rest t' staged changed err, tr₂ = a ++ diff ++ rest → Staged rt t t' staged a →
      (isConfigChanged rt.md5 staged t'.dest).Yields diff (.returned (changed, err)) → changed = false) ∧
    ((fs.replay tr₁).replay tr₂).files t.dest = (fs.replay tr₁).files t.dest ∧
    ∀ ev ∈ tr₂, ev.call.isCommand = false := by
  obtain ⟨fsrc, fd, source, present, digest⟩ := first_cycle_leaves plain noop first admissible₁ srcKept
    (fun ev mem => reads ev (List.mem_append_left _ mem)) fun ev mem => replies ev (List.mem_append_left _ mem)
  exact process_quiet_of_digest plain source present digest second admissible₂
    (fun ev mem => reads ev (List.mem_append_right _ mem)) fun ev mem => replies ev (List.mem_append_right _ mem)

/-- A backend answering every request with `m`, whose commands succeed. -/
def valuesEnv (m : List (String × String)) : Env := ⟨fun _ => .ok m, fun _ => none, 0⟩

/-- A runtime whose template writes its own text, then the byte `1` when the store maps `/db` to
`x` and `2` otherwise. -/
def echoRuntime : Runtime where
  parse _ _ := none
  execute templates root store := ([(templates.lookup root).getD [], [if store "/db" = some "x" then 1 else 2]], none)
  expandCheck cmd _ := .ok cmd
  md5 data := toString data

/-- The resource rendering `app.tmpl` from `/app/db` and `/app/port`, whose store keys `/db` and
`/port` differ, and reloading with `reload`. -/
def pairResource : TemplateResource :=
  { appResource with keyPrefix := "/app", keys := ["db", "port"], reloadCmd := "reload" }

/-- A cycle of `pairResource` on an OS filesystem holding `app.tmpl` (the byte `2`) and `Dest`
(the byte `0`), every call succeeding. -/
def pairCycle : Ending (Option Error × TemplateResource) × List Event :=
  (process echoRuntime pairResource).exec (Fs.respond (valuesEnv [("/app/db", "x"), ("/app/port", "80")]))
    { memFs with statT := true }

/-- The next cycle, on the files the first left, the backend listing the same map in the other
order. -/
def swappedCycle : Ending (Option Error × TemplateResource) × List Event :=
  (process echoRuntime pairResource).exec (Fs.respond (valuesEnv [("/app/port", "80"), ("/app/db", "x")]))
    ({ memFs with statT := true }.replay pairCycle.2)

/-- The first cycle renders the template's byte and `1`, commits them and reloads; the second,
whose backend lists the map in the other order, finds no change. -/
theorem process_idempotent_swapped :
    ({ memFs with statT := true }.replay pairCycle.2).files "/etc/app.conf" = some ⟨[2, 1], 0o644, 0, 0⟩ ∧
      Call.runCommand "reload" ∈ pairCycle.2.map Event.call ∧
      ((∀ a diff rest t' staged changed err, swappedCycle.2 = a ++ diff ++ rest →
        Staged echoRuntime pairResource t' staged a →
        (isConfigChanged echoRuntime.md5 staged t'.dest).Yields diff (.returned (changed, err)) →
          changed = false) ∧
      (({ memFs with statT := true }.replay pairCycle.2).replay swappedCycle.2).files pairResource.dest =
        ({ memFs with statT := true }.replay pairCycle.2).files pairResource.dest ∧
      ∀ ev ∈ swappedCycle.2, ev.call.isCommand = false) :=
  ⟨rfl, by decide, process_idempotent (m := [("/app/db", "x"), ("/app/port", "80")]) rfl rfl
    (exec_yields_of rfl) (exec_admissible (respond_allowed _) _ _) (by decide) (exec_yields _ _ _)
    (exec_admissible (respond_allowed _) _ _) (by decide) (by decide)⟩

/-- A runtime whose template renders the byte `1` when the store maps `/app` to `x`, and `2`
otherwise. -/
def storeRuntime : Runtime where
  parse _ _ := none
  execute _ _ store := ([[if store "/app" = some "x" then 1 else 2]], none)
  expandCheck cmd _ := .ok cmd
  md5 data := toString data

/-- The resource asking for `/app` and `/app/app` under the prefix `/app/`: both values go to the
store key `/app`. -/
def collidingResource : TemplateResource :=
  { appResource with keyPrefix := "/app/", keys := ["", "app"], reloadCmd := "reload" }

/-- A cycle of `collidingResource` in which every call succeeds and Go's map iteration visits
`/app` first. -/
def firstCycle : Ending (Option Error × TemplateResource) × List Event :=
  (process storeRuntime collidingResource).exec (Fs.respond (valuesEnv [("/app", "x"), ("/app/app", "y")]))
    { memFs with statT := true }

/-- The next cycle, on the files the first left, the same map visited `/app/app` first. -/
def reorderedCycle : Ending (Option Error × TemplateResource) × List Event :=
  (process storeRuntime collidingResource).exec (Fs.respond (valuesEnv [("/app/app", "y"), ("/app", "x")]))
    ({ memFs with statT := true }.replay firstCycle.2)

/-- Without the assumption on the backend's replies the second cycle can commit again: the
two values land on one store key, and the one Go's map iteration visits last wins. -/
theorem process_recommits_on_reordered_reply :
    [("/app/app", "y"), ("/app", "x")].Perm [("/app", "x"), ("/app/app", "y")] ∧
      (process storeRuntime collidingResource).Yields firstCycle.2 firstCycle.1 ∧
      Admissible { memFs with statT := true } firstCycle.2 ∧ (∃ t₁, firstCycle.1 = .returned (none, t₁)) ∧
      (process storeRuntime collidingResource).Yields reorderedCycle.2 reorderedCycle.1 ∧
      Admissible ({ memFs with statT := true }.replay firstCycle.2) reorderedCycle.2 ∧
      Call.runCommand "reload" ∈ reorderedCycle.2.map Event.call ∧
      ({ memFs with statT := true }.replay firstCycle.2).files "/etc/app.conf" = some ⟨[2], 0o644, 0, 0⟩ ∧
      (({ memFs with statT := true }.replay firstCycle.2).replay reorderedCycle.2).files "/etc/app.conf" =
        some ⟨[1], 0o644, 0, 0⟩ :=
  ⟨.swap _ _ _, exec_yields _ _ _, exec_admissible (respond_allowed _) _ _, ⟨_, rfl⟩, exec_yields _ _ _,
    exec_admissible (respond_allowed _) _ _, by decide, rfl, rfl⟩

/-! ## Any number of cycles -/

/-- From files at `Src` and `Dest` as in `process_quiet_of_digest`, a history of cycles whose
reads succeed, whose backend lists `m` and which leave `Src` alone changes no `Dest` and runs
no command: `process_quiet_of_digest`, cycle after cycle. -/
theorem history_quiet_of_digest {rt : Runtime} {t : TemplateResource} {m : List (String × String)}
    {fsrc fd : FileEntry} (plain : hasMeta t.src = false)
    (digest : rt.md5 fd.content = rt.md5 (rt.execute [(Path.base t.src, fsrc.content)] (Path.base t.src)
      (Store.refill t.keyPrefix m)).1.flatten) :
    ∀ (hist : List (List Event)) (fs : Fs), fs.files t.src = some fsrc → fs.files t.dest = some fd →
      (∀ tr ∈ hist, ∃ e, (process rt t).Yields tr e) → Admissible fs hist.flatten →
      (∀ ev ∈ hist.flatten, ReadsSucceed ev ∧ RepliesWith t.keyPrefix m ev ∧ t.src ∉ ev.call.written) →
      (fs.replay hist.flatten).files t.dest = fs.files t.dest ∧ ∀ ev ∈ hist.flatten, ev.call.isCommand = false
  | [], _, _, _, _, _, _ => ⟨rfl, by simp⟩
  | tr :: hist, fs, source, present, runs, admissible, good => by
    rw [List.flatten_cons] at admissible good ⊢
    obtain ⟨adm₁, adm₂⟩ := (admissible_append _ _ _).mp admissible
    obtain ⟨e, run⟩ := runs tr (List.mem_cons_self _ _)
    have goodHere : ∀ ev ∈ tr, ReadsSucceed ev ∧ RepliesWith t.keyPrefix m ev ∧ t.src ∉ ev.call.written :=
      fun ev mem => good ev (List.mem_append_left _ mem)
    obtain ⟨-, same, quiet⟩ := process_quiet_of_digest plain source present digest run adm₁
      (fun ev mem => (goodHere ev mem).1) fun ev mem => (goodHere ev mem).2.1
    have source' : (fs.replay tr).files t.src = some fsrc := by
      rw [Fs.replay_files_of_not_written tr fun ev mem => (goodHere ev mem).2.2, source]
    obtain ⟨same', quiet'⟩ := history_quiet_of_digest plain digest hist (fs.replay tr) source'
      (same.trans present) (fun tr' mem => runs tr' (List.mem_cons_of_mem _ mem)) adm₂
      fun ev mem => good ev (List.mem_append_right _ mem)
    exact ⟨by rw [Fs.replay_append, same', same], fun ev mem => (List.mem_append.mp mem).elim (quiet ev) (quiet' ev)⟩

/-- Once a cycle returned nil, with noop off, a template path with no glob metacharacter, no
cycle writing `Src`, reads that succeed and a backend that lists `m`, no later cycle, however
many, changes `Dest` or runs a command. -/
theorem process_steady {rt : Runtime} {t t₁ : TemplateResource} {tr : List Event} {hist : List (List Event)}
    {fs : Fs} {m : List (String × String)} (noop : t.noop = false) (plain : hasMeta t.src = false)
    (first : (process rt t).Yields tr (.returned (none, t₁))) (later : ∀ tr' ∈ hist, ∃ e, (process rt t).Yields tr' e)
    (admissible : Admissible fs (tr ++ hist.flatten))
    (srcKept : ∀ ev ∈ tr ++ hist.flatten, t.src ∉ ev.call.written)
    (reads : ∀ ev ∈ tr ++ hist.flatten, ReadsSucceed ev)
    (replies : ∀ ev ∈ tr ++ hist.flatten, RepliesWith t.keyPrefix m ev) :
    ((fs.replay tr).replay hist.flatten).files t.dest = (fs.replay tr).files t.dest ∧
      ∀ ev ∈ hist.flatten, ev.call.isCommand = false := by
  obtain ⟨admFirst, admLater⟩ := (admissible_append _ _ _).mp admissible
  obtain ⟨fsrc, fd, source, present, digest⟩ := first_cycle_leaves plain noop first admFirst
    (fun ev mem => srcKept ev (List.mem_append_left _ mem)) (fun ev mem => reads ev (List.mem_append_left _ mem))
    fun ev mem => replies ev (List.mem_append_left _ mem)
  exact history_quiet_of_digest plain digest hist _ source present later admLater fun ev mem =>
    ⟨reads ev (List.mem_append_right _ mem), replies ev (List.mem_append_right _ mem),
      srcKept ev (List.mem_append_right _ mem)⟩

theorem process_steady_swapped :
    (∃ t₁, (process echoRuntime pairResource).Yields pairCycle.2 (.returned (none, t₁))) ∧
      (∀ tr' ∈ [swappedCycle.2], ∃ e, (process echoRuntime pairResource).Yields tr' e) ∧
      Admissible { memFs with statT := true } (pairCycle.2 ++ [swappedCycle.2].flatten) ∧
      (∀ ev ∈ pairCycle.2 ++ [swappedCycle.2].flatten, pairResource.src ∉ ev.call.written) ∧
      (∀ ev ∈ pairCycle.2 ++ [swappedCycle.2].flatten, ReadsSucceed ev) ∧
      (∀ ev ∈ pairCycle.2 ++ [swappedCycle.2].flatten,
        RepliesWith "/app" [("/app/db", "x"), ("/app/port", "80")] ev) ∧
      (({ memFs with statT := true }.replay pairCycle.2).replay [swappedCycle.2].flatten).files
          pairResource.dest = ({ memFs with statT := true }.replay pairCycle.2).files pairResource.dest ∧
        ∀ ev ∈ [swappedCycle.2].flatten, ev.call.isCommand = false := by
  have first : (process echoRuntime pairResource).Yields pairCycle.2 (.returned (none, _)) := exec_yields_of rfl
  have later : ∀ tr' ∈ [swappedCycle.2], ∃ e, (process echoRuntime pairResource).Yields tr' e := by
    simpa using ⟨_, exec_yields _ _ _⟩
  have admissible : Admissible { memFs with statT := true } (pairCycle.2 ++ [swappedCycle.2].flatten) := by
    simpa [admissible_append] using
      ⟨exec_admissible (respond_allowed _) _ _, exec_admissible (respond_allowed _) _ _⟩
  have srcKept : ∀ ev ∈ pairCycle.2 ++ [swappedCycle.2].flatten, pairResource.src ∉ ev.call.written := by
    decide
  have reads : ∀ ev ∈ pairCycle.2 ++ [swappedCycle.2].flatten, ReadsSucceed ev := by decide
  have replies : ∀ ev ∈ pairCycle.2 ++ [swappedCycle.2].flatten,
      RepliesWith "/app" [("/app/db", "x"), ("/app/port", "80")] ev := by decide
  exact ⟨⟨_, first⟩, later, admissible, srcKept, reads, replies,
    process_steady rfl rfl first later admissible srcKept reads replies⟩

end Confd.Verified.Idempotence
