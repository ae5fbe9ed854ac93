import Confd.Afero.Helpers

/-! # Reasoning about every run of a program

Two tools, both used over and over:

* `Prog.Every P p`: every call `p` can make, on every branch, satisfies `P`. It is proved by
  walking the program once (`every_bind`, `every_withDefer`) and says something about every
  run (`Every.yields`); the frame of each step of the pipeline is stated this way. Where a
  later call names a value an earlier one returned (the staged file's name), `Returns` says
  what every returned value satisfies and `every_bind_of_returns` carries it over.
* `Prog.Safe P p`: `p` cannot panic on a run whose events all satisfy `P`, proved the same
  way (`safe_bind`, `safe_withDefer`) and read off every run by `Safe.yields`.
* `Prog.Sim R p q`: `p` and `q` make the same calls on every branch and return related values,
  built up by `sim_bind`; a run of one is then a run of the other with a related ending
  (`Sim.yields`).
* the `Yields` equations (`yields_bind`, `yields_call`, ...): they take a run of a composite
  program apart into runs of its pieces.
-/

namespace Confd.Afero.Prog

variable {α β : Type}

/-! ## Calls on every branch -/

/-- Every call `p` can make satisfies `P`, whatever the replies. -/
def Every (P : Call → Prop) : Prog α → Prop
  | .pure _ => True
  | .call c k => P c ∧ ∀ r, (k r).Every P
  | .panic _ => True

@[simp] theorem every_pure {P : Call → Prop} (a : α) : (Prog.pure a).Every P := trivial

@[simp] theorem every_pure' {P : Call → Prop} (a : α) : (Pure.pure a : Prog α).Every P := trivial

@[simp] theorem every_panic {P : Call → Prop} (msg : String) : (Prog.panic msg : Prog α).Every P :=
  trivial

@[simp] theorem every_call {P : Call → Prop} {c : Call} {k : c.Reply → Prog α} :
    (Prog.call c k).Every P ↔ P c ∧ ∀ r, (k r).Every P := Iff.rfl

theorem every_bind {P : Call → Prop} {p : Prog α} {f : α → Prog β}
    (first : p.Every P) (rest : ∀ a, (f a).Every P) : (p >>= f).Every P := by
  induction p with
  | pure a => exact rest a
  | call c k inductionHypothesis => exact ⟨first.1, fun r => inductionHypothesis r (first.2 r)⟩
  | panic _ => trivial

theorem every_withDefer {P : Call → Prop} {p : Prog α} {d : Prog Unit}
    (body : p.Every P) (deferred : d.Every P) : (p.withDefer d).Every P := by
  induction p with
  | pure a => exact every_bind deferred fun _ => trivial
  | call c k inductionHypothesis => exact ⟨body.1, fun r => inductionHypothesis r (body.2 r)⟩
  | panic _ => exact every_bind deferred fun _ => trivial

theorem Every.mono {P Q : Call → Prop} (weaker : ∀ c, P c → Q c) :
    ∀ {p : Prog α}, p.Every P → p.Every Q
  | .pure _, _ => trivial
  | .call _ _, ⟨now, later⟩ => ⟨weaker _ now, fun r => Every.mono weaker (later r)⟩
  | .panic _, _ => trivial

theorem Every.and {P Q : Call → Prop} : ∀ {p : Prog α}, p.Every P → p.Every Q → p.Every fun c => P c ∧ Q c
  | .pure _, _, _ => trivial
  | .call _ _, ⟨now, later⟩, ⟨now', later'⟩ => ⟨⟨now, now'⟩, fun r => (later r).and (later' r)⟩
  | .panic _, _, _ => trivial

/-- What holds of every call holds of every event of every run. -/
theorem Every.yields {P : Call → Prop} {p : Prog α} {tr : List Event} {e : Ending α}
    (every : p.Every P) (run : p.Yields tr e) : ∀ ev ∈ tr, P ev.call := by
  induction run with
  | pure a => simp
  | panic msg => simp
  | call r _ inductionHypothesis =>
    intro ev mem
    rcases List.mem_cons.mp mem with rfl | mem
    · exact every.1
    · exact inductionHypothesis (every.2 r) ev mem

/-! ## Values returned on every branch -/

/-- Every value `p` can return satisfies `Q`, whatever the replies. -/
def Returns (Q : α → Prop) : Prog α → Prop
  | .pure a => Q a
  | .call _ k => ∀ r, (k r).Returns Q
  | .panic _ => True

@[simp] theorem returns_pure {Q : α → Prop} {a : α} : (Prog.pure a).Returns Q ↔ Q a := Iff.rfl

@[simp] theorem returns_pure' {Q : α → Prop} {a : α} : (Pure.pure a : Prog α).Returns Q ↔ Q a :=
  Iff.rfl

@[simp] theorem returns_call {Q : α → Prop} {c : Call} {k : c.Reply → Prog α} :
    (Prog.call c k).Returns Q ↔ ∀ r, (k r).Returns Q := Iff.rfl

theorem every_bind_of_returns {P : Call → Prop} {Q : α → Prop} {p : Prog α} {f : α → Prog β}
    (first : p.Every P) (post : p.Returns Q) (rest : ∀ a, Q a → (f a).Every P) :
    (p >>= f).Every P := by
  induction p with
  | pure a => exact rest a post
  | call c k inductionHypothesis =>
    exact ⟨first.1, fun r => inductionHypothesis r (first.2 r) (post r)⟩
  | panic _ => trivial

theorem returns_bind_of_returns {Q : α → Prop} {R : β → Prop} {p : Prog α} {f : α → Prog β}
    (first : p.Returns Q) (rest : ∀ a, Q a → (f a).Returns R) : (p >>= f).Returns R := by
  induction p with
  | pure a => exact rest a first
  | call c k inductionHypothesis => exact fun r => inductionHypothesis r (first r)
  | panic _ => trivial

/-- A sequence returns only what its second part returns. -/
theorem returns_bind {R : β → Prop} {p : Prog α} {f : α → Prog β} (rest : ∀ a, (f a).Returns R) :
    (p >>= f).Returns R := by
  induction p with
  | pure a => exact rest a
  | call c k inductionHypothesis => exact fun r => inductionHypothesis r
  | panic _ => trivial

/-- A deferred call does not change what a function returns. -/
theorem returns_withDefer {Q : α → Prop} {p : Prog α} {d : Prog Unit} (body : p.Returns Q) :
    (p.withDefer d).Returns Q := by
  induction p with
  | pure a => exact returns_bind fun _ => body
  | call c k inductionHypothesis => exact fun r => inductionHypothesis r (body r)
  | panic _ => exact returns_bind fun _ => trivial

/-- What every returned value satisfies holds of the value of every run that returns. -/
theorem Returns.yields {Q : α → Prop} {p : Prog α} {tr : List Event} {a : α}
    (post : p.Returns Q) (run : p.Yields tr (.returned a)) : Q a := by
  generalize returned : Ending.returned a = ending at run
  induction run with
  | pure b => cases returned; exact post
  | panic _ => cases returned
  | call r _ inductionHypothesis => exact inductionHypothesis (post r) returned

/-! ## Runs that cannot panic -/

/-- `p` cannot panic on a run all of whose events satisfy `P`. -/
def Safe (P : Event → Prop) : Prog α → Prop
  | .pure _ => True
  | .call c k => ∀ r, P ⟨c, r⟩ → (k r).Safe P
  | .panic _ => False

theorem safe_bind_of_returns {P : Event → Prop} {Q : α → Prop} {p : Prog α} {f : α → Prog β}
    (first : p.Safe P) (post : p.Returns Q) (rest : ∀ a, Q a → (f a).Safe P) :
    (p >>= f).Safe P := by
  induction p with
  | pure a => exact rest a post
  | call c k inductionHypothesis => exact fun r good => inductionHypothesis r (first r good) (post r)
  | panic _ => exact first

theorem safe_bind {P : Event → Prop} {p : Prog α} {f : α → Prog β} (first : p.Safe P)
    (rest : ∀ a, (f a).Safe P) : (p >>= f).Safe P := by
  induction p with
  | pure a => exact rest a
  | call c k inductionHypothesis => exact fun r good => inductionHypothesis r (first r good)
  | panic _ => exact first

theorem safe_withDefer {P : Event → Prop} {p : Prog α} {d : Prog Unit} (body : p.Safe P)
    (deferred : d.Safe P) : (p.withDefer d).Safe P := by
  induction p with
  | pure a => exact safe_bind deferred fun _ => trivial
  | call c k inductionHypothesis => exact fun r good => inductionHypothesis r (body r good)
  | panic _ => exact body.elim

/-- A run of a program that cannot panic on it returns. -/
theorem Safe.yields {P : Event → Prop} {p : Prog α} {tr : List Event} {e : Ending α}
    (safe : p.Safe P) (run : p.Yields tr e) (good : ∀ ev ∈ tr, P ev) : ∃ a, e = .returned a := by
  induction run with
  | pure a => exact ⟨a, rfl⟩
  | panic _ => exact safe.elim
  | call r _ inductionHypothesis =>
    exact inductionHypothesis (safe r (good _ (List.mem_cons_self _ _)))
      fun ev mem => good ev (List.mem_cons_of_mem _ mem)

/-! ## Programs that make the same calls -/

/-- `p` and `q` make the same calls, whatever the replies, and end alike: where `p` returns
`a`, `q` returns some `b` with `R a b`, and they panic together. -/
def Sim (R : α → β → Prop) : Prog α → Prog β → Prop
  | .pure a, q => ∃ b, q = .pure b ∧ R a b
  | .call c k, q => ∃ k', q = .call c k' ∧ ∀ r, Sim R (k r) (k' r)
  | .panic msg, q => q = .panic msg

theorem sim_pure {R : α → β → Prop} {a : α} {b : β} (related : R a b) :
    Sim R (Prog.pure a) (Prog.pure b) := ⟨b, rfl, related⟩

theorem sim_refl {R : α → α → Prop} (refl : ∀ a, R a a) : ∀ p : Prog α, Sim R p p
  | .pure a => sim_pure (refl a)
  | .call _ k => ⟨k, rfl, fun r => sim_refl refl (k r)⟩
  | .panic _ => rfl

/-- Related programs followed by continuations related on related values are related. -/
theorem sim_bind {γ δ : Type} {R : α → β → Prop} {S : γ → δ → Prop} {p : Prog α} {q : Prog β}
    {f : α → Prog γ} {g : β → Prog δ} (first : Sim R p q) (rest : ∀ a b, R a b → Sim S (f a) (g b)) :
    Sim S (p >>= f) (q >>= g) := by
  induction p generalizing q with
  | pure a =>
    obtain ⟨b, rfl, related⟩ := first
    exact rest a b related
  | call c k inductionHypothesis =>
    obtain ⟨k', rfl, later⟩ := first
    exact ⟨_, rfl, fun r => inductionHypothesis r (later r)⟩
  | panic msg =>
    cases first
    rfl

/-- Every run of `p` is a run of a program `q` related to it, ending alike. -/
theorem Sim.yields {R : α → β → Prop} {p : Prog α} {q : Prog β} {tr : List Event} {e : Ending α}
    (sim : Sim R p q) (run : p.Yields tr e) : ∃ e', q.Yields tr e' ∧ e.Rel R e' := by
  induction run generalizing q with
  | pure a =>
    obtain ⟨b, rfl, related⟩ := sim
    exact ⟨_, .pure b, related⟩
  | panic msg =>
    cases sim
    exact ⟨_, .panic msg, rfl⟩
  | call r _ inductionHypothesis =>
    obtain ⟨k', rfl, later⟩ := sim
    obtain ⟨e', run', related⟩ := inductionHypothesis (later r)
    exact ⟨e', .call r run', related⟩

/-! ## Taking runs apart -/

@[simp] theorem yields_pure {a : α} {tr : List Event} {e : Ending α} :
    (Prog.pure a).Yields tr e ↔ tr = [] ∧ e = .returned a :=
  ⟨Yields.pure_inv, fun ⟨h, h'⟩ => h ▸ h' ▸ .pure a⟩

@[simp] theorem yields_pure' {a : α} {tr : List Event} {e : Ending α} :
    (Pure.pure a : Prog α).Yields tr e ↔ tr = [] ∧ e = .returned a := yields_pure

@[simp] theorem yields_panic {msg : String} {tr : List Event} {e : Ending α} :
    (Prog.panic msg : Prog α).Yields tr e ↔ tr = [] ∧ e = .panicked msg :=
  ⟨Yields.panic_inv, fun ⟨h, h'⟩ => h ▸ h' ▸ .panic msg⟩

@[simp] theorem yields_call {c : Call} {k : c.Reply → Prog α} {tr : List Event} {e : Ending α} :
    (Prog.call c k).Yields tr e ↔ ∃ r tr', tr = ⟨c, r⟩ :: tr' ∧ (k r).Yields tr' e :=
  ⟨Yields.call_inv, fun ⟨r, _, h, h'⟩ => h ▸ .call r h'⟩

theorem yields_bind {p : Prog α} {f : α → Prog β} {tr : List Event} {e : Ending β} :
    (p >>= f).Yields tr e ↔
      (∃ a tr₁ tr₂, tr = tr₁ ++ tr₂ ∧ p.Yields tr₁ (.returned a) ∧ (f a).Yields tr₂ e) ∨
      (∃ msg, e = .panicked msg ∧ p.Yields tr (.panicked msg)) := by
  constructor
  · exact Yields.bind_inv
  · rintro (⟨a, tr₁, tr₂, rfl, first, second⟩ | ⟨msg, rfl, first⟩)
    · exact Yields.bind first second
    · exact Yields.bind_panic first

/-- A run of a body with a deferred call: the body's run, then the deferred program's, after
which the body's ending stands. -/
theorem yields_withDefer {p : Prog α} {d : Prog Unit} {tr : List Event} {e : Ending α} :
    (p.withDefer d).Yields tr e ↔
      ∃ e₁ tr₁ tr₂, tr = tr₁ ++ tr₂ ∧ p.Yields tr₁ e₁ ∧ (d >>= fun _ => e₁.toProg).Yields tr₂ e := by
  induction p generalizing tr with
  | pure a =>
    constructor
    · intro run; exact ⟨.returned a, [], tr, rfl, .pure a, run⟩
    · rintro ⟨_, _, _, rfl, first, second⟩
      obtain ⟨rfl, rfl⟩ := Yields.pure_inv first
      exact second
  | call c k inductionHypothesis =>
    simp only [withDefer, yields_call, inductionHypothesis]
    constructor
    · rintro ⟨r, _, rfl, e₁, tr₁, tr₂, rfl, first, second⟩
      exact ⟨e₁, _ :: tr₁, tr₂, rfl, ⟨r, tr₁, rfl, first⟩, second⟩
    · rintro ⟨e₁, _, tr₂, rfl, ⟨r, tr₁, rfl, first⟩, second⟩
      exact ⟨r, _, rfl, e₁, tr₁, tr₂, rfl, first, second⟩
  | panic msg =>
    constructor
    · intro run; exact ⟨.panicked msg, [], tr, rfl, .panic msg, run⟩
    · rintro ⟨_, _, _, rfl, first, second⟩
      obtain ⟨rfl, rfl⟩ := Yields.panic_inv first
      exact second

end Confd.Afero.Prog
