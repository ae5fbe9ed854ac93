import Confd.Afero.Contract

/-! # Two programs on one filesystem

Two programs sharing a filesystem, each call an atomic step: a run of the pair is a run of each
program whose events are merged into one sequence (`Merge`) that the contract allows, each
event in the state the events before it left. `execBoth` runs two programs one call at a time
by a schedule; `execBoth_runs` and `execBoth_admissible` make each such execution a run of the
pair.

An event's answer and effect depend only on the paths it touches (`allowed_congr`,
`Fs.apply_agreeOn`), and a run's only on the paths its events touch (`admissible_congr`). So
when neither of two events writes a path the other touches (`Independent`) they commute
(`Independent.admissible_swap`, `Independent.apply_comm`), and an interleaving of two runs whose
events are pairwise independent is allowed exactly when the first run followed by the second
is, and leaves the same files (`merge_serial`); each side is then allowed alone and ends the
interleaving as it would alone (`merge_alone`).
-/

namespace Confd.Afero

/-- The paths some event of `tr` touches. -/
def Touched (tr : List Event) (p : String) : Prop := ∃ e ∈ tr, e.call.Touches p

/-- A run is allowed from two filesystems that agree on the paths it touches alike, and leaves
them agreeing there. -/
theorem admissible_congr {S : String → Prop} :
    ∀ {tr : List Event} {fs₁ fs₂ : Fs}, (∀ p, Touched tr p → S p) → fs₁.AgreeOn S fs₂ →
      (Admissible fs₁ tr ↔ Admissible fs₂ tr) ∧ (fs₁.replay tr).AgreeOn S (fs₂.replay tr)
  | [], _, _, _, agree => ⟨Iff.rfl, agree⟩
  | e :: tr, fs₁, fs₂, inS, agree => by
    have first : fs₁.AgreeOn e.call.Touches fs₂ :=
      agree.mono fun p touched => inS p ⟨e, List.mem_cons_self e tr, touched⟩
    have after : (fs₁.apply e).AgreeOn S (fs₂.apply e) :=
      ⟨by simpa using agree.1, by simpa using agree.2.1, by simpa using agree.2.2.1,
        fun p inS' => Fs.apply_files_congr first (agree.2.2.2 p inS')⟩
    have rest := admissible_congr (fun p ⟨e', mem, touched⟩ => inS p ⟨e', List.mem_cons_of_mem e mem, touched⟩) after
    exact ⟨and_congr (allowed_congr first) rest.1, rest.2⟩

/-! ## Two events that commute -/

/-- Neither event writes a path the other touches. -/
def Independent (a b : Event) : Prop :=
  (∀ p, a.call.Touches p → p ∉ b.call.written) ∧ ∀ p, b.call.Touches p → p ∉ a.call.written

theorem Independent.symm {a b : Event} (ind : Independent a b) : Independent b a := ⟨ind.2, ind.1⟩

/-- After `a`, the filesystem is as it was at every path `b` touches. -/
theorem Independent.agreeOn {a b : Event} (ind : Independent a b) (fs : Fs) :
    (fs.apply a).AgreeOn b.call.Touches fs :=
  ⟨by simp, by simp, by simp, fun p touched => Fs.apply_files_of_not_written a (ind.2 p touched) fs⟩

theorem Independent.allowed_apply {a b : Event} (ind : Independent a b) (fs : Fs) :
    Allowed (fs.apply a) b ↔ Allowed fs b :=
  allowed_congr (ind.agreeOn fs)

theorem Independent.apply_comm {a b : Event} (ind : Independent a b) (fs : Fs) :
    (fs.apply a).apply b = (fs.apply b).apply a := by
  refine Fs.ext (funext fun p => ?_) (by simp) (by simp) (by simp)
  by_cases touched : b.call.Touches p
  · have away := ind.2 p touched
    rw [Fs.apply_files_congr (ind.agreeOn fs) (Fs.apply_files_of_not_written a away fs),
      Fs.apply_files_of_not_written a away]
  · have away : p ∉ b.call.written := fun mem => touched (Call.touches_of_mem_written mem)
    rw [Fs.apply_files_of_not_written b away]
    exact (Fs.apply_files_congr (ind.symm.agreeOn fs) (Fs.apply_files_of_not_written b away fs)).symm

theorem Independent.admissible_swap {a b : Event} (ind : Independent a b) (fs : Fs) (rest : List Event) :
    Admissible fs (a :: b :: rest) ↔ Admissible fs (b :: a :: rest) := by
  simp only [admissible_cons, ind.allowed_apply, ind.symm.allowed_apply, ind.apply_comm]
  exact and_left_comm

/-! ## Interleavings -/

/-- `tr` interleaves `as` and `bs`, keeping the order of each. -/
inductive Merge {α : Type} : List α → List α → List α → Prop
  | nil : Merge [] [] []
  | left {a : α} {as bs tr : List α} : Merge as bs tr → Merge (a :: as) bs (a :: tr)
  | right {b : α} {as bs tr : List α} : Merge as bs tr → Merge as (b :: bs) (b :: tr)

theorem Merge.symm {α : Type} {as bs tr : List α} (merge : Merge as bs tr) : Merge bs as tr := by
  induction merge with
  | nil => exact .nil
  | left _ inductionHypothesis => exact .right inductionHypothesis
  | right _ inductionHypothesis => exact .left inductionHypothesis

/-- One run after the other is an interleaving. -/
theorem merge_append {α : Type} : ∀ as bs : List α, Merge as bs (as ++ bs)
  | a :: as, bs => .left (merge_append as bs)
  | [], [] => .nil
  | [], b :: bs => .right (merge_append [] bs)

/-- An event that commutes with every event of `as` can move from before them to after them. -/
theorem admissible_move {b : Event} :
    ∀ {as : List Event} (rest : List Event) (fs : Fs), (∀ a ∈ as, Independent a b) →
      (Admissible fs (b :: (as ++ rest)) ↔ Admissible fs (as ++ b :: rest)) ∧
        fs.replay (b :: (as ++ rest)) = fs.replay (as ++ b :: rest)
  | [], _, _, _ => ⟨Iff.rfl, rfl⟩
  | a :: as, rest, fs, ind => by
    have first := ind a (List.mem_cons_self a as)
    have later := admissible_move rest (fs.apply a) fun a' mem => ind a' (List.mem_cons_of_mem a mem)
    refine ⟨(first.admissible_swap fs _).symm.trans ?_, ?_⟩
    · exact and_congr_right' later.1
    · simp only [List.cons_append, Fs.replay_cons, ← first.apply_comm, ← later.2]

/-- When no event of one run writes a path an event of the other touches, every interleaving
of the two is allowed exactly when the first followed by the second is, and leaves the same
files. -/
theorem merge_serial {as bs tr : List Event} (ind : ∀ a ∈ as, ∀ b ∈ bs, Independent a b)
    (merge : Merge as bs tr) (fs : Fs) :
    (Admissible fs tr ↔ Admissible fs (as ++ bs)) ∧ fs.replay tr = fs.replay (as ++ bs) := by
  induction merge generalizing fs with
  | nil => exact ⟨Iff.rfl, rfl⟩
  | @left a as bs tr _ inductionHypothesis =>
    have rest := inductionHypothesis (fun a' mem => ind a' (List.mem_cons_of_mem a mem)) (fs.apply a)
    simp only [List.cons_append, admissible_cons, Fs.replay_cons, rest.1, rest.2, and_self]
  | @right b as bs tr _ inductionHypothesis =>
    have rest := inductionHypothesis (fun a mem b' mem' => ind a mem b' (List.mem_cons_of_mem b mem'))
      (fs.apply b)
    have moved := admissible_move bs fs fun a mem => ind a mem b (List.mem_cons_self b bs)
    exact ⟨(and_congr_right' rest.1).trans moved.1, rest.2.trans moved.2⟩

/-- The side of an interleaving that goes second is allowed alone, from where the interleaving
started, and the interleaving ends as that side alone would on any paths `S` that cover what
it touches and that the other side does not write. -/
theorem merge_second_alone {S : String → Prop} {as bs tr : List Event}
    (ind : ∀ a ∈ as, ∀ b ∈ bs, Independent a b) (merge : Merge as bs tr)
    (covers : ∀ p, Touched bs p → S p) (untouched : ∀ a ∈ as, ∀ p, S p → p ∉ a.call.written)
    {fs : Fs} (admissible : Admissible fs tr) :
    Admissible fs bs ∧ (fs.replay tr).AgreeOn S (fs.replay bs) := by
  obtain ⟨serial, replayed⟩ := merge_serial ind merge fs
  obtain ⟨-, second⟩ := (admissible_append _ _ _).mp (serial.mp admissible)
  have alone := admissible_congr covers (Fs.replay_agreeOn_of_not_written untouched fs)
  rw [replayed, Fs.replay_append]
  exact ⟨alone.1.mp second, alone.2⟩

/-- Each side of an interleaving of independent runs is allowed alone, and the interleaving
leaves the paths of each side as that side alone would. -/
theorem merge_alone {S T : String → Prop} {as bs tr : List Event}
    (ind : ∀ a ∈ as, ∀ b ∈ bs, Independent a b) (merge : Merge as bs tr)
    (coversS : ∀ p, Touched as p → S p) (coversT : ∀ p, Touched bs p → T p)
    (apartS : ∀ b ∈ bs, ∀ p, S p → p ∉ b.call.written) (apartT : ∀ a ∈ as, ∀ p, T p → p ∉ a.call.written)
    {fs : Fs} (admissible : Admissible fs tr) :
    (Admissible fs as ∧ (fs.replay tr).AgreeOn S (fs.replay as)) ∧
      Admissible fs bs ∧ (fs.replay tr).AgreeOn T (fs.replay bs) :=
  ⟨merge_second_alone (fun b mem a mem' => (ind a mem' b mem).symm) merge.symm coversS apartS admissible,
    merge_second_alone ind merge coversT apartT admissible⟩

/-! ## Running two programs by a schedule -/

/-- Runs `p` and `q` on one filesystem answering as `answer` says, one call at a time: `true`
in the schedule gives the next call to `p`, `false` to `q`, and a side that is not at a call
lets the turn pass. When the schedule runs out, `p` runs to its end, then `q`. Returns how each
ended with its events, and all events in order. -/
def execBoth {α β : Type} (answer : Fs → (c : Call) → c.Reply) :
    List Bool → Prog α → Prog β → Fs → (Ending α × List Event) × (Ending β × List Event) × List Event
  | [], p, q, fs =>
    let first := p.exec answer fs
    let second := q.exec answer (fs.replay first.2)
    (first, second, first.2 ++ second.2)
  | true :: schedule, .call c k, q, fs =>
    let rest := execBoth answer schedule (k (answer fs c)) q (fs.apply ⟨c, answer fs c⟩)
    ((rest.1.1, ⟨c, answer fs c⟩ :: rest.1.2), rest.2.1, ⟨c, answer fs c⟩ :: rest.2.2)
  | false :: schedule, p, .call c k, fs =>
    let rest := execBoth answer schedule p (k (answer fs c)) (fs.apply ⟨c, answer fs c⟩)
    (rest.1, (rest.2.1.1, ⟨c, answer fs c⟩ :: rest.2.1.2), ⟨c, answer fs c⟩ :: rest.2.2)
  | _ :: schedule, p, q, fs => execBoth answer schedule p q fs

/-- A scheduled execution is a run of each program, interleaved. -/
theorem execBoth_runs {α β : Type} (answer : Fs → (c : Call) → c.Reply) :
    ∀ (schedule : List Bool) (p : Prog α) (q : Prog β) (fs : Fs),
      p.Yields (execBoth answer schedule p q fs).1.2 (execBoth answer schedule p q fs).1.1 ∧
        q.Yields (execBoth answer schedule p q fs).2.1.2 (execBoth answer schedule p q fs).2.1.1 ∧
        Merge (execBoth answer schedule p q fs).1.2 (execBoth answer schedule p q fs).2.1.2
          (execBoth answer schedule p q fs).2.2
  | [], _, _, _ => ⟨exec_yields _ _ _, exec_yields _ _ _, merge_append _ _⟩
  | true :: schedule, .call c k, q, fs =>
    have ⟨first, second, merge⟩ := execBoth_runs answer schedule (k (answer fs c)) q (fs.apply ⟨c, answer fs c⟩)
    ⟨.call _ first, second, .left merge⟩
  | true :: schedule, .pure a, q, fs => execBoth_runs answer schedule (.pure a) q fs
  | true :: schedule, .panic msg, q, fs => execBoth_runs answer schedule (.panic msg) q fs
  | false :: schedule, p, .call c k, fs =>
    have ⟨first, second, merge⟩ := execBoth_runs answer schedule p (k (answer fs c)) (fs.apply ⟨c, answer fs c⟩)
    ⟨first, .call _ second, .right merge⟩
  | false :: schedule, p, .pure b, fs => execBoth_runs answer schedule p (.pure b) fs
  | false :: schedule, p, .panic msg, fs => execBoth_runs answer schedule p (.panic msg) fs

/-- A scheduled execution against answers the contract allows is allowed. -/
theorem execBoth_admissible {α β : Type} {answer : Fs → (c : Call) → c.Reply}
    (allowed : ∀ fs c, Allowed fs ⟨c, answer fs c⟩) :
    ∀ (schedule : List Bool) (p : Prog α) (q : Prog β) (fs : Fs),
      Admissible fs (execBoth answer schedule p q fs).2.2
  | [], p, q, fs => (admissible_append _ _ _).mpr ⟨exec_admissible allowed p fs, exec_admissible allowed q _⟩
  | true :: schedule, .call c _, q, fs => ⟨allowed fs c, execBoth_admissible allowed schedule _ q _⟩
  | true :: schedule, .pure a, q, fs => execBoth_admissible allowed schedule (.pure a) q fs
  | true :: schedule, .panic msg, q, fs => execBoth_admissible allowed schedule (.panic msg) q fs
  | false :: schedule, p, .call c _, fs => ⟨allowed fs c, execBoth_admissible allowed schedule p _ _⟩
  | false :: schedule, p, .pure b, fs => execBoth_admissible allowed schedule p (.pure b) fs
  | false :: schedule, p, .panic msg, fs => execBoth_admissible allowed schedule p (.panic msg) fs

end Confd.Afero
