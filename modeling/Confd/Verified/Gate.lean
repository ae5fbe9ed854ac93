import Confd.Verified.Footprint

/-! # The gate in front of `Dest`

A cycle changes `Dest` only in its commit step, and reaches the commit step only through the
gate `sync` puts in front of it: noop off, a change reported by the diff, and the check command,
when configured, run on the staged file with success. The check command runs only behind the
first two conditions, and the reload command only after a commit that returned no error.

`process_gate` states this for every run of `process`: every configuration, every initial
filesystem, every backend response and every outcome of every call, since a run is any sequence
of replies. It is read off `process_shape`, which also says how such a cycle ends
(`CycleEnd`), and is assembled from three shapes:

* `syncBody_shape`: the shape of a run of `sync`'s body (`SyncShape`), with what follows its
  commit step (`AfterCommit`);
* `sync_yields`: `sync` is its body followed by the removal of the staged file;
* `process_yields_split`: before `sync`, `process` runs only the steps of `Footprint`, which
  never write `Dest` (`staging_not_written`, from `tempName_ne_dest`) and run no command.
-/

namespace Confd.Verified.Gate

open Confd.Go Confd.Afero Confd.Afero.Prog Confd.Util Confd.Template Confd.Verified.StagedName
  Confd.Verified.Footprint

/-! ## Where an event sits in a run -/

/-- An event of `l₁ ++ l₂` is in `l₁`, or sits in `l₂` after all of `l₁`. -/
theorem split_of_append_eq {α : Type} {l₁ l₂ before rest : List α} {a : α}
    (split : l₁ ++ l₂ = before ++ a :: rest) :
    a ∈ l₁ ∨ ∃ before₂, before = l₁ ++ before₂ ∧ l₂ = before₂ ++ a :: rest := by
  rcases List.append_eq_append_iff.mp split with ⟨a', rfl, rfl⟩ | ⟨c', rfl, tail⟩
  · exact .inr ⟨a', rfl, rfl⟩
  · cases c' with
    | nil => exact .inr ⟨[], by simp, by simpa using tail.symm⟩
    | cons x c'' =>
      obtain ⟨rfl, -⟩ := List.cons_eq_cons.mp (by simpa using tail)
      exact .inl (by simp)

/-- An event of `l₁ ++ l₂` sits in `l₁`, with `before` a prefix of `l₁`, or is in `l₂`. -/
theorem split_of_append_eq_left {α : Type} {l₁ l₂ before rest : List α} {a : α}
    (split : l₁ ++ l₂ = before ++ a :: rest) :
    (∃ rest₁, l₁ = before ++ a :: rest₁) ∨ a ∈ l₂ := by
  rcases List.append_eq_append_iff.mp split with ⟨a', rfl, tail⟩ | ⟨c', rfl, tail⟩
  · exact .inr (by simp [tail])
  · cases c' with
    | nil => exact .inr (by simp [show l₂ = a :: rest by simpa using tail.symm])
    | cons x c'' =>
      obtain ⟨rfl, -⟩ := List.cons_eq_cons.mp (by simpa using tail)
      exact .inl ⟨c'', rfl⟩

/-- The commands of `l₁ ++ l₂ ++ l₃`, when `l₁` and `l₃` run none, are those of `l₂`, after
all of `l₁`. -/
theorem commands_middle {P : List Event → Call → Prop} {l₁ l₂ l₃ : List Event}
    (outer : ∀ ev ∈ l₁ ++ l₃, ev.call.isCommand = false)
    (inner : ∀ before ev rest, l₂ = before ++ ev :: rest → ev.call.isCommand → P before ev.call) :
    ∀ before ev rest, l₁ ++ l₂ ++ l₃ = before ++ ev :: rest → ev.call.isCommand →
      ∃ before₂, before = l₁ ++ before₂ ∧ P before₂ ev.call := by
  intro before ev rest split command
  have notOuter : ev ∉ l₁ ++ l₃ := fun mem => by simp [outer ev mem] at command
  rcases split_of_append_eq_left split with ⟨rest₁, split₁⟩ | mem
  · rcases split_of_append_eq split₁ with mem | ⟨before₂, rfl, split₂⟩
    · exact absurd (List.mem_append_left _ mem) notOuter
    · exact ⟨before₂, rfl, inner before₂ ev rest₁ split₂ command⟩
  · exact absurd (List.mem_append_right _ mem) notOuter

theorem readOnly_not_written {dest : String} {c : Call} (read : ReadOnly c) : dest ∉ c.written := by
  simp [read.1]

/-- A call of the staging step never writes `Dest`. -/
theorem staging_not_written {dest : String} {c : Call} (staging : Staging dest c) :
    dest ∉ c.written := fun mem => tempName_ne_dest (staging.2 dest mem) rfl

/-! ## The gates -/

/-- The events of `sync`'s body before it runs `c` as the check command: noop is off, the
check is on, the diff reported a change, and `c` is the check command expanded for the staged
file. -/
def CheckGate (rt : Runtime) (t : TemplateResource) (staged : String) (before : List Event)
    (c : Call) : Prop :=
  t.noop = false ∧ checkEnabled t = true ∧
    (∃ err, (isConfigChanged rt.md5 staged t.dest).Yields before (.returned (true, err))) ∧
    ∃ cmd, rt.expandCheck t.checkCmd staged = .ok cmd ∧ c = .runCommand cmd

/-- The events of `sync`'s body before its commit step: noop is off, the diff reported a
change, and the check, when on, ran the command expanded for the staged file, which
succeeded. -/
def CommitGate (rt : Runtime) (t : TemplateResource) (staged : String) (pre : List Event) : Prop :=
  t.noop = false ∧ ∃ diff chk err, pre = diff ++ chk ∧
    (isConfigChanged rt.md5 staged t.dest).Yields diff (.returned (true, err)) ∧
    if checkEnabled t then
      ∃ cmd, rt.expandCheck t.checkCmd staged = .ok cmd ∧ chk = [⟨.runCommand cmd, none⟩]
    else chk = []

/-- What follows a run of the commit step that ended with `ecm`, in a run of `sync`'s body that
ended with `eb`: nothing, the body ending as the commit did; or, after a commit that returned
nil, the reload command, whose result the body returns. -/
def AfterCommit (t : TemplateResource) (ecm : Ending (Option Error)) (post : List Event)
    (eb : Ending (Option Error)) : Prop :=
  (post = [] ∧ eb = ecm) ∨
    (ecm = .returned none ∧ reloadEnabled t ∧ ∃ r, post = [⟨.runCommand t.reloadCmd, r⟩] ∧ eb = .returned r)

/-- Why a run of `sync`'s body that ended with `eb` stopped before the commit step: it did not
return nil, or noop is on, or the diff, with which the run `pre` starts, reported no change. -/
def Stopped (rt : Runtime) (t : TemplateResource) (staged : String) (pre : List Event)
    (eb : Ending (Option Error)) : Prop :=
  eb ≠ .returned none ∨ t.noop = true ∨
    ∃ diff rest err, pre = diff ++ rest ∧ (isConfigChanged rt.md5 staged t.dest).Yields diff (.returned (false, err))

/-- The shape of a run `b` of `sync`'s body that ended with `eb`: it is `pre ++ cm ++ post`,
where only `cm` may write `Dest`, every command in `pre` is the check behind its gate, and `cm`
is empty (with nothing after it, for a reason `Stopped` names) or a run of the commit step behind
its gate, after which only the reload runs, and only when the commit returned no error. -/
def SyncShape (rt : Runtime) (t : TemplateResource) (staged : String) (b : List Event)
    (eb : Ending (Option Error)) : Prop :=
  ∃ pre cm post, b = pre ++ cm ++ post ∧ (∀ ev ∈ pre ++ post, t.dest ∉ ev.call.written) ∧
    (∀ before ev rest, pre = before ++ ev :: rest → ev.call.isCommand →
      CheckGate rt t staged before ev.call) ∧
    ((cm = [] ∧ post = [] ∧ Stopped rt t staged pre eb) ∨
      ∃ ecm, CommitGate rt t staged pre ∧ (commit t staged).Yields cm ecm ∧ AfterCommit t ecm post eb)

/-- `a` is a run of the three steps before `sync` in which each returned without error,
leaving the resource `t'`, which stages the file `staged`. -/
def Staged (rt : Runtime) (t t' : TemplateResource) (staged : String) (a : List Event) : Prop :=
  t'.stageFile = some staged ∧ ∃ t₁ t₂ a₁ a₂ a₃, a = a₁ ++ a₂ ++ a₃ ∧
    (setFileMode t).Yields a₁ (.returned (.ok t₁)) ∧ (setVars t₁).Yields a₂ (.returned (.ok t₂)) ∧
    (createStageFile rt t₂).Yields a₃ (.returned (.ok t'))

/-- The events of a run of `process` before it runs `c` as the check command: the three steps
before `sync` returned, and `sync`'s body passed the check's gate. -/
def BeforeCheck (rt : Runtime) (t : TemplateResource) (before : List Event) (c : Call) : Prop :=
  ∃ t' staged a rest, before = a ++ rest ∧ Staged rt t t' staged a ∧ CheckGate rt t' staged rest c

/-- The events of a run of `process` before its commit step: the three steps before `sync`
returned, and `sync`'s body passed the commit's gate. -/
def BeforeCommit (rt : Runtime) (t t' : TemplateResource) (staged : String) (pre : List Event) :
    Prop :=
  ∃ a rest, pre = a ++ rest ∧ Staged rt t t' staged a ∧ CommitGate rt t' staged rest

/-! ## The shape of `sync`'s body -/

section SyncBody

variable {rt : Runtime} {t : TemplateResource} {staged : String}

/-- A run that stops before the commit step has the shape when it writes no `Dest` and its
commands are checks behind their gate. -/
theorem SyncShape.stop {b : List Event} {eb : Ending (Option Error)}
    (quiet : ∀ ev ∈ b, t.dest ∉ ev.call.written)
    (commands : ∀ before ev rest, b = before ++ ev :: rest → ev.call.isCommand →
      CheckGate rt t staged before ev.call) (stopped : Stopped rt t staged b eb) :
    SyncShape rt t staged b eb :=
  ⟨b, [], [], by simp, by simpa using quiet, commands, .inl ⟨rfl, rfl, stopped⟩⟩

/-- A read-only prefix runs no command. -/
theorem commands_readOnly {P : List Event → Call → Prop} {l : List Event}
    (quiet : ∀ ev ∈ l, ReadOnly ev.call) :
    ∀ before ev rest, l = before ++ ev :: rest → ev.call.isCommand → P before ev.call := by
  rintro before ev rest rfl command
  have := (quiet ev (by simp)).2
  simp_all

/-- A read-only prefix followed by one command: that command is the only one. -/
theorem commands_readOnly_then {P : List Event → Call → Prop} {l : List Event} {ev₀ : Event}
    (quiet : ∀ ev ∈ l, ReadOnly ev.call) (last : P l ev₀.call) :
    ∀ before ev rest, l ++ [ev₀] = before ++ ev :: rest → ev.call.isCommand → P before ev.call := by
  intro before ev rest split command
  rcases split_of_append_eq split with mem | ⟨before₂, rfl, tail⟩
  · have := (quiet ev mem).2
    simp_all
  · rcases before₂ with _ | ⟨x, before₂⟩
    · obtain ⟨rfl, -⟩ := List.cons_eq_cons.mp tail.symm
      simpa using last
    · simp at tail

/-- Every run of `sync`'s body has the shape. -/
theorem syncBody_shape (stage : t.stageFile = some staged) {b : List Event}
    {eb : Ending (Option Error)} (run : (syncBody rt t staged).Yields b eb) :
    SyncShape rt t staged b eb := by
  unfold syncBody at run
  rcases yields_bind.mp run with ⟨⟨changed, err⟩, diff, rest, rfl, diffRun, restRun⟩ | ⟨msg, rfl, diffRun⟩
  swap
  · have diffQuiet := (isConfigChanged_every rt.md5 staged t.dest).yields diffRun
    exact .stop (fun ev mem => readOnly_not_written (diffQuiet ev mem)) (commands_readOnly diffQuiet)
      (.inl (by simp))
  have diffQuiet := (isConfigChanged_every rt.md5 staged t.dest).yields diffRun
  dsimp only at restRun
  split at restRun
  · obtain ⟨rfl, -⟩ := yields_pure'.mp restRun
    rw [List.append_nil]
    exact .stop (fun ev mem => readOnly_not_written (diffQuiet ev mem)) (commands_readOnly diffQuiet)
      (.inr (.inl ‹_›))
  rename_i noop
  split at restRun
  · obtain ⟨rfl, -⟩ := yields_pure'.mp restRun
    rw [List.append_nil]
    rename_i unchanged
    obtain rfl : changed = false := by simpa using unchanged
    exact .stop (fun ev mem => readOnly_not_written (diffQuiet ev mem)) (commands_readOnly diffQuiet)
      (.inr (.inr ⟨diff, [], err, by simp, diffRun⟩))
  rename_i unchanged
  have noop : t.noop = false := Bool.eq_false_iff.mpr noop
  obtain rfl : changed = true := by simpa using unchanged
  rcases yields_bind.mp restRun with ⟨ech, chk, rest', rfl, chkRun, afterCheck⟩ | ⟨msg, rfl, chkRun⟩
  swap
  · rcases checkStep_yields stage chkRun with ended | ended | ended <;> simp at ended
  have checked := checkStep_yields stage chkRun
  have chkQuiet : ∀ ev ∈ chk, t.dest ∉ ev.call.written := by
    rcases checked with ⟨-, rfl, -⟩ | ⟨-, -, -, rfl, -⟩ | ⟨-, -, -, -, rfl, -⟩
    · exact fun _ mem => absurd mem (List.not_mem_nil _)
    · exact fun _ mem => absurd mem (List.not_mem_nil _)
    · exact fun _ mem => List.mem_singleton.mp mem ▸ List.not_mem_nil _
  have prefixQuiet : ∀ ev ∈ diff ++ chk, t.dest ∉ ev.call.written := fun ev mem =>
    (List.mem_append.mp mem).elim (fun mem => readOnly_not_written (diffQuiet ev mem)) (chkQuiet ev)
  have prefixCommands : ∀ before ev rest, diff ++ chk = before ++ ev :: rest → ev.call.isCommand →
      CheckGate rt t staged before ev.call := by
    rcases checked with ⟨-, rfl, -⟩ | ⟨-, -, -, rfl, -⟩ | ⟨enabled, cmd, -, expanded, rfl, -⟩
    · simpa using commands_readOnly diffQuiet
    · simpa using commands_readOnly diffQuiet
    · exact commands_readOnly_then diffQuiet ⟨noop, enabled, ⟨err, diffRun⟩, cmd, expanded, rfl⟩
  rw [← List.append_assoc]
  cases ech with
  | some _ =>
    obtain ⟨rfl, rfl⟩ := yields_pure'.mp afterCheck
    rw [List.append_nil]
    exact .stop prefixQuiet prefixCommands (.inl (by simp))
  | none =>
    have gate : CommitGate rt t staged (diff ++ chk) := by
      refine ⟨noop, diff, chk, err, rfl, diffRun, ?_⟩
      rcases checked with ⟨off, rfl, -⟩ | ⟨-, failed⟩ | ⟨enabled, cmd, r, expanded, rfl, ended⟩
      · simp [off]
      · simp at failed
      · cases r with
        | none => simp only [enabled, if_true]; exact ⟨cmd, expanded, rfl⟩
        | some _ => simp at ended
    rcases yields_bind.mp afterCheck with ⟨r, cm, post, rfl, cmRun, postRun⟩ | ⟨msg, rfl, cmRun⟩
    · cases r with
      | some _ =>
        obtain ⟨rfl, rfl⟩ := yields_pure'.mp postRun
        exact ⟨diff ++ chk, cm, [], by simp, by simpa using prefixQuiet, prefixCommands,
          .inr ⟨_, gate, cmRun, .inl ⟨rfl, rfl⟩⟩⟩
      | none =>
        have after : AfterCommit t (.returned none) post eb := by
          rcases reloadStep_yields postRun with ⟨-, rfl, rfl⟩ | ⟨enabled, r, rfl, rfl⟩
          · exact .inl ⟨rfl, rfl⟩
          · exact .inr ⟨rfl, enabled, r, rfl, rfl⟩
        refine ⟨diff ++ chk, cm, post, by simp, fun ev mem => ?_, prefixCommands, .inr ⟨_, gate, cmRun, after⟩⟩
        rcases List.mem_append.mp mem with mem | mem
        · exact prefixQuiet ev mem
        · rcases after with ⟨rfl, -⟩ | ⟨-, -, r, rfl, -⟩
          · cases mem
          · obtain rfl := List.mem_singleton.mp mem
            exact List.not_mem_nil _
    · exact ⟨diff ++ chk, rest', [], by simp, by simpa using prefixQuiet, prefixCommands,
        .inr ⟨_, gate, cmRun, .inl ⟨rfl, rfl⟩⟩⟩

end SyncBody

/-! ## `sync` and `process` -/

/-- A run of `sync` is a run of its body, ending the same way, then the removal of the staged
file unless it is kept. -/
theorem sync_yields {rt : Runtime} {t : TemplateResource} {staged : String}
    (stage : t.stageFile = some staged) {d : List Event} {e : Ending (Option Error)}
    (run : (sync rt t).Yields d e) :
    ∃ b rm, d = b ++ rm ∧ (syncBody rt t staged).Yields b e ∧ ∀ ev ∈ rm, ev.call = .remove staged := by
  simp only [sync, stage] at run
  split at run
  · exact ⟨d, [], by simp, run, by simp⟩
  · obtain ⟨eb, b, rm, rfl, body, removal⟩ := yields_withDefer.mp run
    simp only [ignore, remove, bind_eq, call_bind, pure_bind', yields_call] at removal
    obtain ⟨r, rest, rfl, ended⟩ := removal
    obtain ⟨rfl, rfl⟩ : rest = [] ∧ e = eb := by cases eb <;> simpa [Ending.toProg, eq_comm] using ended
    exact ⟨b, _, rfl, body, by simp⟩

/-- A run of one of `process`'s steps followed by the rest: it stopped in the step, which
failed or panicked, so `process` returned an error, or the step returned `t'` and the rest ran
after it. -/
theorem yields_step {p : Prog (Except Error TemplateResource)}
    {f : Except Error TemplateResource → Prog (Option Error × TemplateResource)} {t : TemplateResource}
    {tr : List Event} {e : Ending (Option Error × TemplateResource)}
    (stop : ∀ err, f (.error err) = pure (some err, t)) (run : (p >>= f).Yields tr e) :
    ((∃ e', p.Yields tr e') ∧ ∀ r t'', e = .returned (r, t'') → r ≠ none) ∨
      ∃ t' a rest, tr = a ++ rest ∧ p.Yields a (.returned (.ok t')) ∧ (f (.ok t')).Yields rest e := by
  rcases yields_bind.mp run with ⟨_ | t', a, b, rfl, first, rest⟩ | ⟨_, rfl, first⟩
  · obtain ⟨rfl, rfl⟩ := yields_pure'.mp (stop _ ▸ rest)
    exact .inl ⟨⟨_, by simpa using first⟩, by simp⟩
  · exact .inr ⟨t', a, b, rfl, first, rest⟩
  · exact .inl ⟨⟨_, first⟩, by simp⟩

/-- A run of `process` stops before `sync`, having made only calls of the staging steps, or
runs `sync` on the resource the three steps returned, which stages a name `TempFile` tried
for `Dest`; what `process` returns is then what `sync` returned, with that resource. -/
theorem process_yields_split {rt : Runtime} {t : TemplateResource} {tr : List Event}
    {e : Ending (Option Error × TemplateResource)} (run : (process rt t).Yields tr e) :
    ((∀ ev ∈ tr, Staging t.dest ev.call) ∧ ∀ r t'', e = .returned (r, t'') → r ≠ none) ∨
      ∃ t' staged a d e', tr = a ++ d ∧ Staged rt t t' staged a ∧ (∀ ev ∈ a, Staging t.dest ev.call) ∧
        IsTempName t.dest staged ∧ t'.dest = t.dest ∧ (sync rt t').Yields d e' ∧
        ∀ r t'', e = .returned (r, t'') → e' = .returned r ∧ t'' = t' := by
  have readOnly {α : Type} {p : Prog α} (every : p.Every ReadOnly) {a e'} (run : p.Yields a e') :
      ∀ ev ∈ a, Staging t.dest ev.call := fun ev mem => readOnly_staging (every.yields run ev mem)
  unfold process at run
  rcases yields_step (fun _ => rfl) run with ⟨⟨_, run₁⟩, failed⟩ | ⟨t₁, a₁, _, rfl, run₁, run⟩
  · exact .inl ⟨readOnly (setFileMode_every t) run₁, failed⟩
  have quiet₁ := readOnly (setFileMode_every t) run₁
  have dest₁ : t₁.dest = t.dest := by
    obtain ⟨_, same⟩ := (setFileMode_returns t).yields run₁ t₁ rfl
    rw [same]
  rcases yields_step (fun _ => rfl) run with ⟨⟨_, run₂⟩, failed⟩ | ⟨t₂, a₂, _, rfl, run₂, run⟩
  · exact .inl ⟨List.forall_mem_append.mpr ⟨quiet₁, readOnly (setVars_every t₁) run₂⟩, failed⟩
  have quiet₂ := readOnly (setVars_every t₁) run₂
  have dest₂ : t₂.dest = t.dest := by
    obtain ⟨_, same⟩ := (setVars_returns t₁).yields run₂ t₂ rfl
    rw [same, dest₁]
  have staging₃ {a₃ r₃} (run₃ : (createStageFile rt t₂).Yields a₃ r₃) : ∀ ev ∈ a₃, Staging t.dest ev.call :=
    fun ev mem => dest₂ ▸ (createStageFile_every rt t₂).yields run₃ ev mem
  rcases yields_step (fun _ => rfl) run with ⟨⟨_, run₃⟩, failed⟩ | ⟨t', a₃, d, rfl, run₃, run⟩
  · refine .inl ⟨?_, failed⟩
    simp only [List.forall_mem_append]
    exact ⟨quiet₁, quiet₂, staging₃ run₃⟩
  obtain ⟨staged, named, same⟩ := (createStageFile_returns rt t₂).yields run₃ t' rfl
  have syncRun : ∃ e', (sync rt t').Yields d e' ∧
      ∀ r t'', e = .returned (r, t'') → e' = .returned r ∧ t'' = t' := by
    rcases yields_bind.mp run with ⟨_, d, rest, rfl, syncRun, restRun⟩ | ⟨msg, rfl, syncRun⟩
    · obtain ⟨rfl, rfl⟩ := yields_pure'.mp restRun
      exact ⟨_, by simpa using syncRun, by simp⟩
    · exact ⟨_, syncRun, by simp⟩
  obtain ⟨e', syncRun, ending⟩ := syncRun
  refine .inr ⟨t', staged, a₁ ++ a₂ ++ a₃, d, e', by simp,
    ⟨by rw [same], t₁, t₂, a₁, a₂, a₃, rfl, run₁, run₂, run₃⟩, ?_, dest₂ ▸ named, by rw [same, dest₂],
    syncRun, ending⟩
  simp only [List.forall_mem_append]
  exact ⟨⟨quiet₁, quiet₂⟩, staging₃ run₃⟩

/-! ## The gate -/

/-- Why a run `tr` of `process` that returned nil did not commit: the three steps before `sync`
returned `t'`, staging `staged`, in the run's first part `a`, and noop is on or the diff that
follows reported no change. -/
def NoCommit (rt : Runtime) (t : TemplateResource) (tr : List Event) : Prop :=
  ∃ t' staged a rest, tr = a ++ rest ∧ Staged rt t t' staged a ∧
    (t'.noop = true ∨ ∃ diff rest' err, rest = diff ++ rest' ∧
      (isConfigChanged rt.md5 staged t'.dest).Yields diff (.returned (false, err)))

/-- How a run of `process` that reached the commit step, which ended with `ecm` and was
followed by `post`, ends: with the commit's result, or, after a commit that returned nil, with
the result of the reload command that comes next. -/
def CycleEnd (t' : TemplateResource) (ecm : Ending (Option Error)) (post : List Event)
    (e : Ending (Option Error × TemplateResource)) : Prop :=
  ∀ r t'', e = .returned (r, t'') →
    ecm = .returned r ∨ ecm = .returned none ∧ ∃ rm, post = ⟨.runCommand t'.reloadCmd, r⟩ :: rm

theorem AfterCommit.commands {t : TemplateResource} {ecm eb : Ending (Option Error)} {post : List Event}
    (after : AfterCommit t ecm post eb) :
    ∀ ev ∈ post, ev.call.isCommand → ecm = .returned none ∧ reloadEnabled t ∧ ev.call = .runCommand t.reloadCmd := by
  rcases after with ⟨rfl, -⟩ | ⟨ran, enabled, r, rfl, -⟩
  · simp
  · simp_all

/-- Every run of `process` is `pre ++ cm ++ post`, where only the commit step `cm` may write
`Dest` and every command in `pre` is the check command behind its gate. Either no commit step
ran, and `Dest` is exactly as it was whatever the filesystem (and, when the cycle returned nil,
`NoCommit` says why), or `cm` is a run of the commit step for the resource the steps before
`sync` returned, which stages a name `TempFile` tried for `Dest`, behind the commit's gate; the
only command after it is the reload command, after a commit that returned no error, and the
cycle returns the commit's result or the reload's. -/
theorem process_shape {rt : Runtime} {t : TemplateResource} {tr : List Event}
    {e : Ending (Option Error × TemplateResource)} (run : (process rt t).Yields tr e) :
    ∃ pre cm post, tr = pre ++ cm ++ post ∧ (∀ ev ∈ pre ++ post, t.dest ∉ ev.call.written) ∧
      (∀ before ev rest, pre = before ++ ev :: rest → ev.call.isCommand →
        BeforeCheck rt t before ev.call) ∧
      ((cm = [] ∧ post = [] ∧ (∀ fs : Fs, (fs.replay tr).files t.dest = fs.files t.dest) ∧
          ∀ t'', e = .returned (none, t'') → NoCommit rt t tr) ∨
        ∃ t' staged ecm, t'.dest = t.dest ∧ IsTempName t.dest staged ∧ BeforeCommit rt t t' staged pre ∧
          (commit t' staged).Yields cm ecm ∧
          (∀ ev ∈ post, ev.call.isCommand →
            ecm = .returned none ∧ reloadEnabled t' ∧ ev.call = .runCommand t'.reloadCmd) ∧
          CycleEnd t' ecm post e) := by
  rcases process_yields_split run with
    quiet | ⟨t', staged, a, d, e', rfl, stagedRun, aQuiet, named, dest', syncRun, ending⟩
  · have notWritten : ∀ ev ∈ tr, t.dest ∉ ev.call.written := fun ev mem =>
      staging_not_written (quiet.1 ev mem)
    refine ⟨tr, [], [], by simp, by simpa using notWritten, ?_,
      .inl ⟨rfl, rfl, Fs.replay_files_of_not_written tr notWritten,
        fun t'' ended => absurd rfl (quiet.2 none t'' ended)⟩⟩
    rintro before ev rest rfl command
    have := (quiet.1 ev (by simp)).1
    simp_all
  obtain ⟨b, rm, rfl, bodyRun, removal⟩ := sync_yields stagedRun.1 syncRun
  obtain ⟨pre, cm, post, rfl, bodyQuiet, bodyCommands, tail⟩ := syncBody_shape stagedRun.1 bodyRun
  rw [dest'] at bodyQuiet
  have rmQuiet : ∀ ev ∈ rm, t.dest ∉ ev.call.written ∧ ev.call.isCommand = false := fun ev mem => by
    rw [removal ev mem]
    exact ⟨by simpa [Call.written] using (tempName_ne_dest named).symm, rfl⟩
  have checks : ∀ l₃ : List Event, (∀ ev ∈ l₃, ev.call.isCommand = false) →
      ∀ before ev rest, a ++ pre ++ l₃ = before ++ ev :: rest → ev.call.isCommand →
        BeforeCheck rt t before ev.call := by
    intro l₃ quiet₃ before ev rest split command
    have outer : ∀ ev ∈ a ++ l₃, ev.call.isCommand = false := fun ev mem =>
      (List.mem_append.mp mem).elim (fun mem => (aQuiet ev mem).1) (quiet₃ ev)
    obtain ⟨before₂, rfl, gate⟩ := commands_middle outer bodyCommands before ev rest split command
    exact ⟨t', staged, a, before₂, rfl, stagedRun, gate⟩
  have quietOf : ∀ ev ∈ a ++ (pre ++ post) ++ rm, t.dest ∉ ev.call.written := by
    intro ev mem
    simp only [List.mem_append] at mem
    rcases mem with (mem | mem) | mem
    · exact staging_not_written (aQuiet ev mem)
    · exact bodyQuiet ev (List.mem_append.mpr mem)
    · exact (rmQuiet ev mem).1
  rcases tail with ⟨rfl, rfl, stopped⟩ | ⟨ecm, gate, cmRun, afterCommit⟩
  · have notWritten : ∀ ev ∈ a ++ pre ++ rm, t.dest ∉ ev.call.written := fun ev mem =>
      quietOf ev (by simpa using mem)
    refine ⟨a ++ pre ++ rm, [], [], by simp, by simpa using notWritten,
      checks rm fun ev mem => (rmQuiet ev mem).2, .inl ⟨rfl, rfl, by simpa using Fs.replay_files_of_not_written _ notWritten,
        fun t'' ended => ?_⟩⟩
    obtain ⟨rfl, -⟩ := ending none t'' ended
    rcases stopped with failed | noop | ⟨diff, rest, err, rfl, unchanged⟩
    · exact absurd rfl failed
    · exact ⟨t', staged, a, pre ++ rm, by simp, stagedRun, .inl noop⟩
    · exact ⟨t', staged, a, diff ++ rest ++ rm, by simp, stagedRun, .inr ⟨diff, rest ++ rm, err, by simp, unchanged⟩⟩
  refine ⟨a ++ pre, cm, post ++ rm, by simp, fun ev mem => quietOf ev (by simpa only [List.mem_append, or_assoc] using mem),
    by simpa using checks [] (by simp), .inr ⟨t', staged, ecm, dest', named, ⟨a, pre, rfl, stagedRun, gate⟩,
      cmRun, fun ev mem command => ?_, fun r t'' ended => ?_⟩⟩
  · rcases List.mem_append.mp mem with mem | mem
    · exact afterCommit.commands ev mem command
    · simp [(rmQuiet ev mem).2] at command
  · obtain ⟨rfl, -⟩ := ending r t'' ended
    rcases afterCommit with ⟨rfl, same⟩ | ⟨ran, -, r', rfl, reloaded⟩
    · exact .inl same.symm
    · cases reloaded
      exact .inr ⟨ran, rm, rfl⟩

/-- Every run of `process` is `pre ++ cm ++ post`, where only the commit step `cm` may write
`Dest` and every command in `pre` is the check command behind its gate. Either no commit step
ran, and `Dest` is exactly as it was whatever the filesystem, or `cm` is a run of the commit
step for the resource the steps before `sync` returned, behind the commit's gate, and the only
command after it is the reload command, after a commit that returned no error. -/
theorem process_gate {rt : Runtime} {t : TemplateResource} {tr : List Event}
    {e : Ending (Option Error × TemplateResource)} (run : (process rt t).Yields tr e) :
    ∃ pre cm post, tr = pre ++ cm ++ post ∧ (∀ ev ∈ pre ++ post, t.dest ∉ ev.call.written) ∧
      (∀ before ev rest, pre = before ++ ev :: rest → ev.call.isCommand →
        BeforeCheck rt t before ev.call) ∧
      ((cm = [] ∧ post = [] ∧ ∀ fs : Fs, (fs.replay tr).files t.dest = fs.files t.dest) ∨
        ∃ t' staged ecm, t'.dest = t.dest ∧ BeforeCommit rt t t' staged pre ∧
          (commit t' staged).Yields cm ecm ∧
          ∀ ev ∈ post, ev.call.isCommand →
            ecm = .returned none ∧ reloadEnabled t' ∧ ev.call = .runCommand t'.reloadCmd) := by
  obtain ⟨pre, cm, post, split, quiet, checks, tail⟩ := process_shape run
  exact ⟨pre, cm, post, split, quiet, checks, tail.imp (fun ⟨empty, after, unchanged, _⟩ => ⟨empty, after, unchanged⟩)
    fun ⟨t', staged, ecm, dest', _, before, cmRun, commands, _⟩ => ⟨t', staged, ecm, dest', before, cmRun, commands⟩⟩

/-- A runtime whose template renders the byte `1`, and whose check command template puts the
staged file's name after the command. -/
def checkingRuntime : Runtime where
  parse _ _ := none
  execute _ _ _ := ([[1]], none)
  expandCheck cmd staged := .ok (cmd ++ " " ++ staged)
  md5 data := toString data

/-- The resource rendering `app.tmpl` into `/etc/app.conf`, checked with `check` and reloaded
with `reload`. -/
def checkedResource : TemplateResource :=
  { TemplateResource.zero with
    src := "app.tmpl", dest := "/etc/app.conf", mode := "0644", checkCmd := "check", reloadCmd := "reload" }

/-- An OS filesystem holding `Dest`, the byte `0`, and the template. -/
def checkedFs : Fs where
  files p :=
    if p = "/etc/app.conf" then some ⟨[0], 0o644, 0, 0⟩
    else if p = "app.tmpl" then some ⟨[2], 0o644, 0, 0⟩
    else none
  euid := 0
  egid := 0
  statT := true

/-- A cycle of `checkedResource` on `checkedFs`, every call succeeding. -/
def checkedCycle : Ending (Option Error × TemplateResource) × List Event :=
  (process checkingRuntime checkedResource).exec (Fs.respond ⟨fun _ => .ok [], fun _ => none, 0⟩) checkedFs

/-- The cycle runs the check on its staged file, commits the rendered byte and reloads. -/
theorem process_gate_checked_cycle :
    Call.runCommand "check /etc/.app.conf000000000" ∈ checkedCycle.2.map Event.call ∧
      Call.runCommand "reload" ∈ checkedCycle.2.map Event.call ∧
      (checkedFs.replay checkedCycle.2).files "/etc/app.conf" = some ⟨[1], 0o644, 0, 0⟩ ∧
      ∃ pre cm post, checkedCycle.2 = pre ++ cm ++ post ∧
        (∀ ev ∈ pre ++ post, checkedResource.dest ∉ ev.call.written) ∧
        (∀ before ev rest, pre = before ++ ev :: rest → ev.call.isCommand →
          BeforeCheck checkingRuntime checkedResource before ev.call) ∧
        ((cm = [] ∧ post = [] ∧
            ∀ fs : Fs, (fs.replay checkedCycle.2).files checkedResource.dest = fs.files checkedResource.dest) ∨
          ∃ t' staged ecm, t'.dest = checkedResource.dest ∧
            BeforeCommit checkingRuntime checkedResource t' staged pre ∧ (commit t' staged).Yields cm ecm ∧
            ∀ ev ∈ post, ev.call.isCommand →
              ecm = .returned none ∧ reloadEnabled t' ∧ ev.call = .runCommand t'.reloadCmd) :=
  ⟨by decide, by decide, rfl, process_gate (exec_yields _ _ _)⟩

end Confd.Verified.Gate
