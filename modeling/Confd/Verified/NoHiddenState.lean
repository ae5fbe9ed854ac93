import Confd.Verified.Gate

/-! # No state carries over between cycles

A resource keeps three fields from one cycle to the next: the resolved `FileMode`, the staging
store and the staged file. `process` overwrites each before it reads it: `setFileMode` sets the
mode, `setVars` refills the store, `CreateStageFile` names the staged file, and each step reads
only the configuration and what the steps before it set. So two resources with the same
configuration (`configuration`) make the same calls whatever the replies, and return the same
error: `process_no_hidden_state`, from one simulation (`Prog.Sim`) per step:

* `setFileMode_sim`, `setVars_sim`: the step's result differs only in the fields later steps
  overwrite;
* `createStageFile_eq`: `CreateStageFile` does not read the staged file it replaces.
-/

namespace Confd.Verified.NoHiddenState

open Confd.Go Confd.Afero Confd.Afero.Prog Confd.Util Confd.Template Confd.Verified.Gate

/-- The configuration of a resource: the resource with the state a cycle recomputes (the
resolved mode, the store and the staged file) cleared. -/
def configuration (t : TemplateResource) : TemplateResource :=
  { t with fileMode := 0, store := Store.empty, stageFile := none }

/-- A resource is its configuration with its per-cycle state put back. -/
theorem eq_of_configuration_eq {t₁ t₂ : TemplateResource} (same : configuration t₁ = configuration t₂) :
    t₂ = { t₁ with fileMode := t₂.fileMode, store := t₂.store, stageFile := t₂.stageFile } := by
  cases t₁
  cases t₂
  cases same
  rfl

/-- Both failed with the same error, or both succeeded with related values. -/
def ExceptRel {α β : Type} (R : α → β → Prop) : Except Error α → Except Error β → Prop
  | .error e₁, .error e₂ => e₁ = e₂
  | .ok a, .ok b => R a b
  | _, _ => False

theorem setFileMode_sim (t : TemplateResource) (mode : Nat) (store : Store) (staged : Option String) :
    Sim (ExceptRel fun t₁ t₂ => t₂ = { t₁ with store := store, stageFile := staged })
      (setFileMode t) (setFileMode { t with fileMode := mode, store := store, stageFile := staged }) := by
  unfold setFileMode
  dsimp only
  split
  · refine sim_bind (sim_refl (fun _ => rfl) _) fun found _ same => ?_
    subst same
    cases found
    · exact sim_pure rfl
    · exact ⟨_, rfl, fun r => by cases r <;> exact sim_pure rfl⟩
  · split <;> exact sim_pure rfl

theorem setVars_sim (t : TemplateResource) (store : Store) (staged : Option String) :
    Sim (ExceptRel fun t₁ t₂ => t₂ = { t₁ with stageFile := staged })
      (setVars t) (setVars { t with store := store, stageFile := staged }) :=
  ⟨_, rfl, fun r => by cases r <;> exact sim_pure rfl⟩

theorem createStageFile_eq (rt : Runtime) (t : TemplateResource) (staged : Option String) :
    createStageFile rt { t with stageFile := staged } = createStageFile rt t := rfl

/-- A cycle on a resource whose per-cycle state was replaced makes the same calls and returns the
same error. -/
theorem process_sim (rt : Runtime) (t : TemplateResource) (mode : Nat) (store : Store)
    (staged : Option String) :
    Sim (fun r₁ r₂ => r₁.1 = r₂.1) (process rt t)
      (process rt { t with fileMode := mode, store := store, stageFile := staged }) := by
  refine sim_bind (setFileMode_sim t mode store staged) ?_
  rintro (err₁ | t₁) (err₂ | t₂) related
  · exact sim_pure (congrArg some related)
  · exact related.elim
  · exact related.elim
  subst related
  refine sim_bind (setVars_sim t₁ store staged) ?_
  rintro (err₁ | t₂) (err₂ | t₃) related
  · exact sim_pure (congrArg some related)
  · exact related.elim
  · exact related.elim
  subst related
  dsimp only
  rw [createStageFile_eq]
  refine sim_bind (sim_refl (fun _ => rfl) _) fun staging _ same => ?_
  subst same
  cases staging with
  | error _ => exact sim_pure rfl
  | ok _ => exact sim_refl (fun (r : Option Error × TemplateResource) => (rfl : r.1 = r.1)) _

/-- Two resources with the same configuration, whatever their resolved mode, store and staged
file: every run of a cycle on the first, with its replies, is a run of a cycle on the second,
which makes the same calls, runs the same commands, leaves the same files and returns the same
error. -/
theorem process_no_hidden_state {rt : Runtime} {t₁ t₂ : TemplateResource} {tr : List Event}
    {e₁ : Ending (Option Error × TemplateResource)} (same : configuration t₁ = configuration t₂)
    (run : (process rt t₁).Yields tr e₁) :
    ∃ e₂, (process rt t₂).Yields tr e₂ ∧ e₁.Rel (fun r₁ r₂ => r₁.1 = r₂.1) e₂ := by
  rw [eq_of_configuration_eq same]
  exact (process_sim rt t₁ _ _ _).yields run

/-- `checkedResource` as an earlier cycle may have left it: a resolved mode, a store, and a staged
file named as the next cycle's will be. -/
def reusedResource : TemplateResource :=
  { checkedResource with
    fileMode := 0o600, store := fun _ => some "old", stageFile := some "/etc/.app.conf000000000" }

/-- The checked cycle of `checkedResource`, which commits and reloads, is a run of the reused
resource too, returning the same error. -/
theorem process_no_hidden_state_checked :
    configuration checkedResource = configuration reusedResource ∧
      (process checkingRuntime checkedResource).Yields checkedCycle.2 checkedCycle.1 ∧
      (∃ t', checkedCycle.1 = .returned (none, t')) ∧ Call.runCommand "reload" ∈ checkedCycle.2.map Event.call ∧
      ∃ e₂, (process checkingRuntime reusedResource).Yields checkedCycle.2 e₂ ∧
        checkedCycle.1.Rel (fun r₁ r₂ => r₁.1 = r₂.1) e₂ :=
  have same : configuration checkedResource = configuration reusedResource := rfl
  have run : (process checkingRuntime checkedResource).Yields checkedCycle.2 checkedCycle.1 := exec_yields _ _ _
  ⟨same, run, ⟨_, rfl⟩, by decide, process_no_hidden_state same run⟩

end Confd.Verified.NoHiddenState
