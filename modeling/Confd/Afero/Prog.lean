import Confd.Afero.Fs

/-! # Programs over the filesystem contract

A Go function of the pipeline becomes a `Prog`: a tree whose nodes are the calls it makes,
each continued by what the function does with every possible reply, and whose leaves are
its returns and its panics. A run (`Yields`) answers each call with one of its replies and
records the events; the replies, and so the events, are all the run depends on. Quantifying
over runs is quantifying over every outcome of every call.

`withDefer` is Go's `defer`: the deferred program runs on return and on panic alike.
-/

namespace Confd.Afero

/-- A program that makes calls to the filesystem, the backend and the shell. -/
inductive Prog (α : Type) where
  | pure (a : α)
  | call (c : Call) (k : c.Reply → Prog α)
  | panic (msg : String)

namespace Prog

/-- Sequencing: run `p`, then `f` on what it returned; a panic stops the program. -/
def bind {α β : Type} : Prog α → (α → Prog β) → Prog β
  | .pure a, f => f a
  | .call c k, f => .call c fun r => (k r).bind f
  | .panic msg, _ => .panic msg

instance : Monad Prog where
  pure := .pure
  bind := bind

/-- `defer d` in a function whose body is `p`: `d` runs after `p` returns and while a panic
of `p` unwinds. -/
def withDefer {α : Type} : Prog α → Prog Unit → Prog α
  | .pure a, d => d.bind fun _ => .pure a
  | .call c k, d => .call c fun r => (k r).withDefer d
  | .panic msg, d => d.bind fun _ => .panic msg

@[simp] theorem pure_bind' {α β : Type} (a : α) (f : α → Prog β) : (Prog.pure a).bind f = f a :=
  rfl

@[simp] theorem call_bind {α β : Type} (c : Call) (k : c.Reply → Prog α) (f : α → Prog β) :
    (Prog.call c k).bind f = .call c fun r => (k r).bind f := rfl

@[simp] theorem panic_bind {α β : Type} (msg : String) (f : α → Prog β) :
    (Prog.panic msg).bind f = .panic msg := rfl

@[simp] theorem bind_eq {α β : Type} (p : Prog α) (f : α → Prog β) : p >>= f = p.bind f := rfl

@[simp] theorem pure_eq {α : Type} (a : α) : (Pure.pure a : Prog α) = Prog.pure a := rfl

theorem bind_assoc' {α β γ : Type} (p : Prog α) (f : α → Prog β) (g : β → Prog γ) :
    (p.bind f).bind g = p.bind fun a => (f a).bind g := by
  induction p with
  | pure a => rfl
  | call c k inductionHypothesis => simp only [bind, inductionHypothesis]
  | panic msg => rfl

theorem bind_pure' {α : Type} (p : Prog α) : p.bind Prog.pure = p := by
  induction p with
  | pure a => rfl
  | call c k inductionHypothesis => simp only [bind, inductionHypothesis]
  | panic msg => rfl

instance : LawfulMonad Prog :=
  LawfulMonad.mk' Prog (fun p => bind_pure' p) (fun _ _ => rfl) bind_assoc'

end Prog

/-! ## Runs -/

/-- How a run of a program ends: it returns a value, or it panics. -/
inductive Ending (α : Type) where
  | returned (a : α)
  | panicked (msg : String)
  deriving DecidableEq, Repr

/-- How two runs end alike: both return, with related values, or both panic with the same
message. -/
def Ending.Rel {α β : Type} (R : α → β → Prop) : Ending α → Ending β → Prop
  | .returned a, .returned b => R a b
  | .panicked msg, .panicked msg' => msg = msg'
  | _, _ => False

/-- The ending of a run as a program that ends the same way. -/
def Ending.toProg {α : Type} : Ending α → Prog α
  | .returned a => .pure a
  | .panicked msg => .panic msg

namespace Prog

/-! ## Every run -/

/-- `p`, answered with the replies recorded in `tr`, ends with `e`: the runs of `p`, one for
each way the environment can answer its calls. -/
inductive Yields {α : Type} : Prog α → List Event → Ending α → Prop
  | pure (a : α) : Yields (.pure a) [] (.returned a)
  | panic (msg : String) : Yields (.panic msg) [] (.panicked msg)
  | call {c : Call} {k : c.Reply → Prog α} {tr : List Event} {e : Ending α} (r : c.Reply) :
      Yields (k r) tr e → Yields (.call c k) (⟨c, r⟩ :: tr) e

theorem Yields.call_inv {α : Type} {c : Call} {k : c.Reply → Prog α} {tr : List Event}
    {e : Ending α} (h : (Prog.call c k).Yields tr e) :
    ∃ r tr', tr = ⟨c, r⟩ :: tr' ∧ (k r).Yields tr' e := by
  cases h with
  | call r h => exact ⟨r, _, rfl, h⟩

theorem Yields.pure_inv {α : Type} {a : α} {tr : List Event} {e : Ending α}
    (h : (Prog.pure a).Yields tr e) : tr = [] ∧ e = .returned a := by
  cases h; exact ⟨rfl, rfl⟩

theorem Yields.panic_inv {α : Type} {msg : String} {tr : List Event} {e : Ending α}
    (h : (Prog.panic msg : Prog α).Yields tr e) : tr = [] ∧ e = .panicked msg := by
  cases h; exact ⟨rfl, rfl⟩

/-- A run of `p` that returned, followed by a run of `f` on its value, is a run of `p.bind f`. -/
theorem Yields.bind {α β : Type} {p : Prog α} {f : α → Prog β} {tr₁ tr₂ : List Event} {a : α}
    {e : Ending β} (first : p.Yields tr₁ (.returned a)) (second : (f a).Yields tr₂ e) :
    (p.bind f).Yields (tr₁ ++ tr₂) e := by
  generalize returned : Ending.returned a = ending at first
  induction first with
  | pure b => cases returned; exact second
  | panic msg => cases returned
  | call r _ inductionHypothesis => exact .call r (inductionHypothesis returned)

/-- A run of `p` that panicked is a run of `p.bind f`. -/
theorem Yields.bind_panic {α β : Type} {p : Prog α} {f : α → Prog β} {tr : List Event}
    {msg : String} (first : p.Yields tr (.panicked msg)) : (p.bind f).Yields tr (.panicked msg) := by
  generalize panicked : Ending.panicked msg = ending at first
  induction first with
  | pure b => cases panicked
  | panic _ => cases panicked; exact .panic _
  | call r _ inductionHypothesis => exact .call r (inductionHypothesis panicked)

/-- Every run of `p.bind f` is a run of `p` that returned followed by a run of `f`, or a run
of `p` that panicked. -/
theorem Yields.bind_inv {α β : Type} {p : Prog α} {f : α → Prog β} {tr : List Event}
    {e : Ending β} (h : (p.bind f).Yields tr e) :
    (∃ a tr₁ tr₂, tr = tr₁ ++ tr₂ ∧ p.Yields tr₁ (.returned a) ∧ (f a).Yields tr₂ e) ∨
    (∃ msg, e = .panicked msg ∧ p.Yields tr (.panicked msg)) := by
  induction p generalizing tr with
  | pure a => exact .inl ⟨a, [], tr, rfl, .pure a, h⟩
  | call c k inductionHypothesis =>
    obtain ⟨r, tr', rfl, rest⟩ := Yields.call_inv h
    rcases inductionHypothesis r rest with ⟨a, tr₁, tr₂, rfl, first, second⟩ | ⟨msg, rfl, first⟩
    · exact .inl ⟨a, _ :: tr₁, tr₂, rfl, .call r first, second⟩
    · exact .inr ⟨msg, rfl, .call r first⟩
  | panic msg =>
    obtain ⟨rfl, rfl⟩ := Yields.panic_inv h
    exact .inr ⟨msg, rfl, .panic msg⟩

end Prog

end Confd.Afero
