import Confd.Verified.Footprint
import Confd.Verified.StagingStore
import Confd.Verified.NoHiddenState
import Confd.Afero.Contract
import Confd.Verified.Cleanup

/-! # A resource reused across cycles

A caller may keep one resource and run `process` on it again and again. Each cycle keeps the
configuration, refills the store when its fetch succeeds, and leaves the staged file's name, if
it stages one, among the names `TempFile` tries for `Dest` (`process_cycle`). Over any history
(`Cycles`), then, the configuration is the one the resource started with, the store holds the
reply of the last fetch that succeeded, however many cycles failed since, and the staged file is
the one the resource started with or a name `TempFile` tried (`cycles_state`). When the resource
does not keep its staged files, a whole history changes no path but `Dest`
(`cycles_change_only_dest`), on a filesystem whose `Remove` deletes a file that exists.

A cycle's fetch is the first `GetValues` of its trace: `setFileMode`, before it, only stats
`Dest` (`setFileMode_stats`).
-/

namespace Confd.Verified.History

open Confd.Go Confd.Afero Confd.Afero.Prog Confd.Util Confd.Template Confd.Verified.StagedName
  Confd.Verified.Footprint Confd.Verified.StagingStore Confd.Verified.NoHiddenState Confd.Verified.Cleanup
  Confd.Verified.Totality

/-! ## The fetch of a cycle -/

/-- The reply of the first `GetValues` of a trace, when it succeeded. -/
def fetched : List Event → Option (List (String × String))
  | [] => none
  | ⟨.getValues _, .ok result⟩ :: _ => some result
  | ⟨.getValues _, .error _⟩ :: _ => none
  | _ :: tr => fetched tr

/-- A trace of calls that are not `GetValues` leaves the first fetch to what follows it. -/
theorem fetched_append {a : List Event} (noFetch : ∀ ev ∈ a, ∀ keys, ev.call ≠ .getValues keys)
    (b : List Event) : fetched (a ++ b) = fetched b := by
  induction a with
  | nil => rfl
  | cons ev a inductionHypothesis =>
    obtain ⟨c, reply⟩ := ev
    have rest := inductionHypothesis fun ev mem => noFetch ev (List.mem_cons_of_mem _ mem)
    cases c with
    | getValues keys => exact absurd rfl (noFetch _ (List.mem_cons_self _ _) keys)
    | _ => exact rest

theorem setFileMode_stats (t : TemplateResource) : (setFileMode t).Every (· = .stat t.dest) := by
  unfold setFileMode
  split
  · refine every_bind ⟨rfl, fun r => by cases r <;> trivial⟩ fun exists_ => ?_
    cases exists_
    · trivial
    · exact ⟨rfl, fun r => by cases r <;> trivial⟩
  · split <;> trivial

/-! ## One cycle -/

/-- A step of `process` run to its end: it failed, and `process` returned its error with the
resource it was given, or it returned a resource on which the rest of the cycle ran. -/
theorem yields_stage {p : Prog (Except Error TemplateResource)}
    {f : Except Error TemplateResource → Prog (Option Error × TemplateResource)} {t t' : TemplateResource}
    {tr : List Event} {r : Option Error}
    (stop : ∀ err, f (.error err) = pure (some err, t)) (run : (p >>= f).Yields tr (.returned (r, t'))) :
    (∃ err, p.Yields tr (.returned (.error err)) ∧ t' = t) ∨
      ∃ t₁ a rest, tr = a ++ rest ∧ p.Yields a (.returned (.ok t₁)) ∧
        (f (.ok t₁)).Yields rest (.returned (r, t')) := by
  rcases yields_bind.mp run with ⟨_ | t₁, a, b, rfl, first, rest⟩ | ⟨_, ended, _⟩
  · rw [stop, yields_pure] at rest
    obtain ⟨rfl, ended⟩ := rest
    cases ended
    exact .inl ⟨_, by simpa using first, rfl⟩
  · exact .inr ⟨t₁, a, b, rfl, first, rest⟩
  · cases ended

/-- What a cycle leaves of the resource, from the resource `t` it ran on and its trace. -/
def Settled (t : TemplateResource) (fetch : Option (List (String × String))) (t' : TemplateResource) :
    Prop :=
  configuration t' = configuration t ∧
    t'.store = (match fetch with
      | some result => Store.refill t.keyPrefix result
      | none => t.store) ∧
    (t'.stageFile = t.stageFile ∨ ∃ staged, t'.stageFile = some staged ∧ IsTempName t.dest staged)

/-- One cycle keeps the configuration, refills the store from its fetch if that succeeded, and
stages, if anything, a name `TempFile` tried for `Dest`. -/
theorem process_cycle {rt : Runtime} {t t' : TemplateResource} {tr : List Event} {r : Option Error}
    (run : (process rt t).Yields tr (.returned (r, t'))) : Settled t (fetched tr) t' := by
  have noFetch {a : List Event} {e} (run : (setFileMode t).Yields a e) :
      ∀ ev ∈ a, ∀ keys, ev.call ≠ .getValues keys := fun ev mem keys stat => by
    cases stat.symm.trans ((setFileMode_stats t).yields run ev mem)
  unfold process at run
  rcases yields_stage (fun _ => rfl) run with ⟨_, run₁, rfl⟩ | ⟨t₁, a₁, _, rfl, run₁, run⟩
  · rw [← List.append_nil tr, fetched_append (noFetch run₁)]
    exact ⟨rfl, rfl, .inl rfl⟩
  obtain ⟨mode, rfl⟩ := (setFileMode_returns t).yields run₁ _ rfl
  rw [fetched_append (noFetch run₁)]
  rcases yields_stage (fun _ => rfl) run with ⟨_, run₂, rfl⟩ | ⟨t₂, a₂, _, rfl, run₂, run⟩
  · obtain ⟨reply, rfl, ended⟩ := setVars_yields.mp run₂
    cases reply with
    | error => exact ⟨rfl, rfl, .inl rfl⟩
    | ok => cases ended
  obtain ⟨reply, rfl, ended⟩ := setVars_yields.mp run₂
  cases reply with
  | error => cases ended
  | ok result =>
    cases ended
    rcases yields_stage (fun _ => rfl) run with ⟨_, -, rfl⟩ | ⟨t₃, _, _, -, run₃, run⟩
    · exact ⟨rfl, rfl, .inl rfl⟩
    obtain ⟨temp, named, rfl⟩ := (createStageFile_returns rt _).yields run₃ _ rfl
    rcases yields_bind.mp run with ⟨_, _, _, -, -, ended⟩ | ⟨_, ended, -⟩
    · obtain ⟨-, ended⟩ := yields_pure'.mp ended
      cases ended
      exact ⟨rfl, rfl, .inr ⟨temp, rfl, named⟩⟩
    · cases ended

/-! ## Any number of cycles -/

/-- A resource reused across cycles: `Cycles rt t hist t'` when running `process` on `t`, then on
the resource each run returned, goes through the traces `hist`, one per cycle, and ends with
`t'`. -/
inductive Cycles (rt : Runtime) (t : TemplateResource) : List (List Event) → TemplateResource → Prop
  | start : Cycles rt t [] t
  | cycle {hist : List (List Event)} {t₁ t₂ : TemplateResource} {tr : List Event} {r : Option Error} :
      Cycles rt t hist t₁ → (process rt t₁).Yields tr (.returned (r, t₂)) → Cycles rt t (hist ++ [tr]) t₂

/-- The reply of the last cycle of a history whose fetch succeeded. -/
def lastFetched (hist : List (List Event)) : Option (List (String × String)) :=
  hist.foldl (fun last tr => (fetched tr).or last) none

@[simp] theorem lastFetched_append_singleton (hist : List (List Event)) (tr : List Event) :
    lastFetched (hist ++ [tr]) = (fetched tr).or (lastFetched hist) := by
  simp [lastFetched]

/-- A history keeps the configuration. -/
theorem cycles_configuration {rt : Runtime} {t t' : TemplateResource} {hist : List (List Event)}
    (run : Cycles rt t hist t') : configuration t' = configuration t := by
  induction run with
  | start => rfl
  | cycle _ cycle ih => exact (process_cycle cycle).1.trans ih

/-- After any history, the resource has the configuration it started with, the store filled
from the last fetch that succeeded (the store it started with, if none did), and the staged
file it started with or a name `TempFile` tried for `Dest`. -/
theorem cycles_state {rt : Runtime} {t t' : TemplateResource} {hist : List (List Event)}
    (run : Cycles rt t hist t') : Settled t (lastFetched hist) t' := by
  induction run with
  | start => exact ⟨rfl, rfl, .inl rfl⟩
  | cycle _ run ih =>
    obtain ⟨same, store, staged⟩ := ih
    obtain ⟨same', store', staged'⟩ := process_cycle run
    have keyPrefix := congrArg TemplateResource.keyPrefix same
    have dest := congrArg TemplateResource.dest same
    simp only [configuration] at keyPrefix dest
    refine ⟨same'.trans same, ?_, ?_⟩
    · rw [store', lastFetched_append_singleton, keyPrefix]
      cases fetched _
      · simpa using store
      · rfl
    · rw [dest] at staged'
      rcases staged' with unchanged | named
      · exact unchanged ▸ staged
      · exact .inr named

/-- A resource that fetches `/app/db` and renders `app.tmpl` into `/etc/app.conf`. -/
def keyResource : TemplateResource :=
  { TemplateResource.zero with
    src := "app.tmpl", dest := "/etc/app.conf", mode := "0644", keyPrefix := "/app", keys := ["db"] }

/-- The libraries of a template that parses and renders nothing. -/
def silentRuntime : Runtime := ⟨fun _ _ => none, fun _ _ _ => ([], none), fun cmd _ => .ok cmd, fun _ => ""⟩

/-- A filesystem with no files. -/
def emptyFs : Fs := ⟨fun _ => none, 0, 0, true⟩

/-- A backend answering with `x` for `/app/db`, whose commands succeed. -/
def fetchEnv : Env := ⟨fun _ => .ok [("/app/db", "x")], fun _ => none, 0⟩

/-- A first cycle whose fetch succeeds, and which stops at the missing template. -/
def fetchCycle : Ending (Option Error × TemplateResource) × List Event :=
  (process silentRuntime keyResource).exec (Fs.respond fetchEnv) emptyFs

/-- The resource after it: the mode resolved and the store filled. -/
def fetchedResource : TemplateResource :=
  { keyResource with fileMode := 0o644, store := Store.refill "/app" [("/app/db", "x")] }

/-- A second cycle, whose fetch fails. -/
def outageCycle : Ending (Option Error × TemplateResource) × List Event :=
  (process silentRuntime fetchedResource).exec
    (Fs.respond ⟨fun _ => .error (.new "backend unavailable"), fun _ => none, 0⟩) (emptyFs.replay fetchCycle.2)

/-- The two cycles are a history of `keyResource`. -/
theorem outage_history : Cycles silentRuntime keyResource [fetchCycle.2, outageCycle.2] fetchedResource :=
  have first : (process silentRuntime keyResource).Yields fetchCycle.2 (.returned (_, fetchedResource)) :=
    exec_yields_of rfl
  have second : (process silentRuntime fetchedResource).Yields outageCycle.2 (.returned (_, fetchedResource)) :=
    exec_yields_of rfl
  .cycle (.cycle .start first) second

/-- After a fetch and an outage, the store still holds what the fetch brought. -/
theorem cycles_state_after_outage :
    Cycles silentRuntime keyResource [fetchCycle.2, outageCycle.2] fetchedResource ∧
      Settled keyResource (lastFetched [fetchCycle.2, outageCycle.2]) fetchedResource :=
  ⟨outage_history, cycles_state outage_history⟩

/-- Over any history on a filesystem whose `Remove` deletes a file that exists, with answers the
contract allows, a resource that does not keep its staged files changes no path but `Dest`: no
staged file piles up, however many cycles failed. -/
theorem cycles_change_only_dest {rt : Runtime} {t t' : TemplateResource} {hist : List (List Event)}
    (keep : t.keepStageFile = false) (run : Cycles rt t hist t') :
    ∀ {fs : Fs}, Admissible fs hist.flatten → Along RemovesExisting fs hist.flatten →
      ∀ p, p ≠ t.dest → (fs.replay hist.flatten).files p = fs.files p := by
  induction run with
  | start => exact fun _ _ _ _ => rfl
  | @cycle _ t₁ _ _ _ before cycle ih =>
    intro fs admissible removes p away
    rw [List.flatten_concat] at admissible removes ⊢
    obtain ⟨admissible₁, admissible₂⟩ := (admissible_append _ _ _).mp admissible
    obtain ⟨removes₁, removes₂⟩ := (along_append _ _ _).mp removes
    have same := cycles_configuration before
    have frame := (process_cleans rt t₁ ((congrArg TemplateResource.keepStageFile same).trans keep) _).yields
      cycle admissible₂ removes₂
    have dest₁ : t₁.dest = t.dest := (congrArg TemplateResource.dest same : (configuration t₁).dest = _)
    rw [Fs.replay_append, frame p fun h => away (h.trans dest₁), ih admissible₁ removes₁ p away]

theorem respond_removes (env : Env) (fs : Fs) (c : Call) : RemovesExisting fs ⟨c, fs.respond env c⟩ := by
  cases c with
  | remove _ => exact fun _ => rfl
  | _ => trivial

/-- A cycle of `keyResource` on an OS filesystem holding `Dest`, the byte `0`, and the template:
it stages the rendered byte `1` and renames the staged file over `Dest`. -/
def commitCycle : Ending (Option Error × TemplateResource) × List Event :=
  (process byteRuntime keyResource).exec (Fs.respond fetchEnv) { memFs with statT := true }

/-- The resource after it: the mode resolved, the store filled and the staged file named. -/
def committedResource : TemplateResource := { fetchedResource with stageFile := some "/etc/.app.conf000000000" }

/-- The next cycle, which stages the same byte, finds no change and removes its staged file. -/
def unchangedCycle : Ending (Option Error × TemplateResource) × List Event :=
  (process byteRuntime committedResource).exec (Fs.respond fetchEnv) ({ memFs with statT := true }.replay commitCycle.2)

/-- Both cycles create a staged file; the first renames it over `Dest`, the second removes it, and
the two leave every path but `Dest` as it was. -/
theorem cycles_change_only_dest_staged :
    (∀ tr ∈ [commitCycle.2, unchangedCycle.2],
      Call.openFile "/etc/.app.conf000000000" .createExcl 0o600 ∈ tr.map Event.call) ∧
      Call.remove "/etc/.app.conf000000000" ∈ unchangedCycle.2.map Event.call ∧
      ({ memFs with statT := true }.replay [commitCycle.2, unchangedCycle.2].flatten).files "/etc/app.conf" =
        some ⟨[1], 0o644, 0, 0⟩ ∧
      keyResource.keepStageFile = false ∧
      Cycles byteRuntime keyResource [commitCycle.2, unchangedCycle.2] committedResource ∧
      Admissible { memFs with statT := true } [commitCycle.2, unchangedCycle.2].flatten ∧
      Along RemovesExisting { memFs with statT := true } [commitCycle.2, unchangedCycle.2].flatten ∧
      ∀ p, p ≠ keyResource.dest → ({ memFs with statT := true }.replay [commitCycle.2, unchangedCycle.2].flatten).files p =
        { memFs with statT := true }.files p :=
  have first : (process byteRuntime keyResource).Yields commitCycle.2 (.returned (_, committedResource)) :=
    exec_yields_of rfl
  have second : (process byteRuntime committedResource).Yields unchangedCycle.2 (.returned (_, committedResource)) :=
    exec_yields_of rfl
  have run : Cycles byteRuntime keyResource [commitCycle.2, unchangedCycle.2] committedResource :=
    .cycle (.cycle .start first) second
  have flat : [commitCycle.2, unchangedCycle.2].flatten = commitCycle.2 ++ unchangedCycle.2 := by simp
  have admissible : Admissible { memFs with statT := true } [commitCycle.2, unchangedCycle.2].flatten := flat ▸
    (admissible_append _ _ _).mpr ⟨exec_admissible (respond_allowed _) _ _, exec_admissible (respond_allowed _) _ _⟩
  have removes : Along RemovesExisting { memFs with statT := true } [commitCycle.2, unchangedCycle.2].flatten :=
    flat ▸ (along_append _ _ _).mpr ⟨exec_along (respond_removes _) _ _, exec_along (respond_removes _) _ _⟩
  ⟨by decide, by decide, rfl, rfl, run, admissible, removes, cycles_change_only_dest rfl run admissible removes⟩

end Confd.Verified.History
