import Confd.Afero.Logic

/-! # What a filesystem may answer

The `afero.Fs` contract leaves a filesystem free to fail any call, but a successful answer
tells the truth about the files, and "does not exist" is said of missing files only.
`Allowed fs ev` is that for one event in state `fs`; `Admissible fs tr` for a run, each event
in the state the ones before it left. It constrains only what the pipeline relies on: what
`Stat`, `Open` and reads report, that a successful `Write` wrote everything (the `io.Writer`
contract), that an exclusive create succeeds only on a fresh name, and that a rename succeeds
only on a file that exists.

`Fs.respond` is a filesystem that never fails, and `Prog.exec` runs a program against one:
`exec_yields` and `exec_admissible` make each such execution a run of the program that the
contract allows, which is how particular runs are exhibited.
-/

namespace Confd.Afero

open Confd.Go

/-- `os.ErrNotExist` as a path error reports it. -/
def errNotExist : Error := ⟨.notExist, "file does not exist"⟩

/-- `os.ErrExist`. -/
def errExist : Error := ⟨.exist, "file already exists"⟩

/-- What `Stat` reports of a file, on a filesystem whose `Sys()` is a `*syscall.Stat_t` or
not. -/
def FileEntry.info (f : FileEntry) (statT : Bool) : FileInfo :=
  ⟨f.mode, if statT then some (f.uid, f.gid) else none⟩

/-- `names` lists the directory `dir`: each plain name with an entry under `dir`, once. -/
def Listed (fs : Fs) (dir : String) (names : List String) : Prop :=
  names.Nodup ∧ ∀ n, n ∈ names ↔ Path.Plain n.data ∧ fs.files (Path.join dir n) ≠ none

/-- What the contract lets a filesystem in state `fs` answer to a call. -/
def Allowed (fs : Fs) : Event → Prop
  | ⟨.stat name, .ok info⟩ => ∃ f, fs.files name = some f ∧ info = f.info fs.statT
  | ⟨.stat name, .error err⟩ => err.kind = .notExist → fs.files name = none
  | ⟨.fstat name, .ok info⟩ => ∃ f, fs.files name = some f ∧ info = f.info fs.statT
  | ⟨.openFile name .rdOnly _, none⟩ => fs.files name ≠ none
  | ⟨.openFile name .createExcl _, none⟩ => fs.files name = none
  | ⟨.write _ data, (n, err)⟩ => n ≤ data.length ∧ (err = none → n = data.length)
  | ⟨.read name, (data, none)⟩ => ∃ f, fs.files name = some f ∧ data = f.content
  | ⟨.readDirNames dir, (names, none)⟩ => Listed fs dir names
  | ⟨.rename a _, none⟩ => fs.files a ≠ none
  | _ => True

/-- Every event of `tr` is allowed in the state the events before it left. -/
def Admissible : Fs → List Event → Prop
  | _, [] => True
  | fs, ev :: tr => Allowed fs ev ∧ Admissible (fs.apply ev) tr

@[simp] theorem admissible_nil (fs : Fs) : Admissible fs [] := trivial

@[simp] theorem admissible_cons (fs : Fs) (ev : Event) (tr : List Event) :
    Admissible fs (ev :: tr) ↔ Allowed fs ev ∧ Admissible (fs.apply ev) tr := Iff.rfl

theorem admissible_append (fs : Fs) :
    ∀ tr tr' : List Event, Admissible fs (tr ++ tr') ↔ Admissible fs tr ∧ Admissible (fs.replay tr) tr'
  | [], _ => by simp
  | ev :: tr, tr' => by simp [admissible_append _ tr tr', and_assoc]

/-- Every event of `tr` meets `B` in the state the events before it left: a promise a run keeps
beyond the contract. -/
def Along (B : Fs → Event → Prop) : Fs → List Event → Prop
  | _, [] => True
  | fs, ev :: tr => B fs ev ∧ Along B (fs.apply ev) tr

theorem along_append {B : Fs → Event → Prop} (fs : Fs) :
    ∀ tr tr' : List Event, Along B fs (tr ++ tr') ↔ Along B fs tr ∧ Along B (fs.replay tr) tr'
  | [], _ => by simp [Along]
  | ev :: tr, tr' => by simp [Along, along_append _ tr tr', and_assoc]

/-- A promise the contract does not make, since a `Remove` may fail: a `Remove` of a file that
exists deletes it. -/
def RemovesExisting (fs : Fs) : Event → Prop
  | ⟨.remove name, r⟩ => fs.files name ≠ none → r = none
  | _ => True

/-- A `Remove` that keeps the promise leaves no file at its path, whatever it answered. -/
theorem RemovesExisting.apply_files {fs : Fs} {name : String} {r : Option Error}
    (removes : RemovesExisting fs ⟨.remove name, r⟩) (p : String) :
    (fs.apply ⟨.remove name, r⟩).files p = if p = name then none else fs.files p := by
  cases r with
  | none => rfl
  | some _ =>
    have missing : fs.files name = none := by
      by_contra present
      exact absurd (removes present) (Option.some_ne_none _)
    show fs.files p = _
    split <;> simp_all

/-- What the contract allows a call to answer depends only on the paths it touches. -/
theorem allowed_congr {fs₁ fs₂ : Fs} {e : Event} (agree : fs₁.AgreeOn e.call.Touches fs₂) :
    Allowed fs₁ e ↔ Allowed fs₂ e := by
  obtain ⟨-, -, statT, files⟩ := agree
  rcases e with ⟨c, r⟩
  cases c with
  | stat name => cases r <;> simp [Allowed, files name rfl, statT]
  | fstat name => cases r <;> simp [Allowed, files name rfl, statT]
  | openFile name flag perm => cases flag <;> cases r <;> simp [Allowed, files name rfl]
  | read name =>
    obtain ⟨data, err⟩ := r
    cases err <;> simp [Allowed, files name rfl]
  | readDirNames dir =>
    obtain ⟨names, err⟩ := r
    cases err with
    | some _ => exact Iff.rfl
    | none =>
      refine and_congr_right' (forall_congr' fun n => iff_congr Iff.rfl (and_congr_right fun plain => ?_))
      rw [files _ ⟨n, plain, rfl⟩]
  | rename a b => cases r <;> simp [Allowed, files a (.inl rfl)]
  | _ => exact Iff.rfl

/-! ## A filesystem that never fails -/

/-- What the rest of the world answers in a run: the backend's values for each request, the
exit of each command, and the random generator's state. -/
structure Env where
  values : List String → Except Error (List (String × String))
  command : String → Option Error
  random : Nat

/-- The answers of a filesystem that never fails (it does not list directories), the rest of
the world answering as `env` says. -/
def Fs.respond (env : Env) (fs : Fs) : (c : Call) → c.Reply
  | .stat name | .fstat name =>
    match fs.files name with
    | some f => .ok (f.info fs.statT)
    | none => .error errNotExist
  | .openFile name .rdOnly _ => if fs.files name = none then some errNotExist else none
  | .openFile _ .createTrunc _ => none
  | .openFile name .createExcl _ => if fs.files name = none then none else some errExist
  | .write _ data => (data.length, none)
  | .read name =>
    match fs.files name with
    | some f => (f.content, none)
    | none => ([], some errNotExist)
  | .readDirNames _ => ([], some (.new "readdirnames: not supported"))
  | .rename a _ => if fs.files a = none then some errNotExist else none
  | .nextRandom => env.random
  | .getValues keys => env.values keys
  | .runCommand cmd => env.command cmd
  | .close _ | .chmod .. | .chown .. | .remove _ => none

theorem respond_allowed (env : Env) (fs : Fs) (c : Call) : Allowed fs ⟨c, fs.respond env c⟩ := by
  cases c with
  | stat name | fstat name =>
    simp only [Fs.respond]
    split <;> simp_all [Allowed, errNotExist]
  | openFile name flag perm =>
    cases flag
    · simp only [Fs.respond]; split <;> simp_all [Allowed]
    · trivial
    · simp only [Fs.respond]; split <;> simp_all [Allowed]
  | read name =>
    simp only [Fs.respond]
    split <;> simp_all [Allowed]
  | rename a b =>
    simp only [Fs.respond]
    split <;> simp_all [Allowed]
  | write name data => simp [Allowed, Fs.respond]
  | _ => trivial

/-- Runs `p` against a filesystem answering as `answer` says, from state `fs`: how it ended and
the events it went through. -/
def Prog.exec {α : Type} (answer : Fs → (c : Call) → c.Reply) : Prog α → Fs → Ending α × List Event
  | .pure a, _ => (.returned a, [])
  | .panic msg, _ => (.panicked msg, [])
  | .call c k, fs =>
    let rest := (k (answer fs c)).exec answer (fs.apply ⟨c, answer fs c⟩)
    (rest.1, ⟨c, answer fs c⟩ :: rest.2)

/-- An execution is a run of the program. -/
theorem exec_yields {α : Type} (answer : Fs → (c : Call) → c.Reply) (p : Prog α) (fs : Fs) :
    p.Yields (p.exec answer fs).2 (p.exec answer fs).1 := by
  induction p generalizing fs with
  | pure a => exact .pure a
  | call c k inductionHypothesis => exact .call _ (inductionHypothesis _ _)
  | panic msg => exact .panic msg

/-- An execution that ends with `e` is a run ending with `e`. -/
theorem exec_yields_of {α : Type} {answer : Fs → (c : Call) → c.Reply} {p : Prog α} {fs : Fs}
    {e : Ending α} (ends : (p.exec answer fs).1 = e) : p.Yields (p.exec answer fs).2 e :=
  ends ▸ exec_yields answer p fs

/-- An execution against answers the contract allows is admissible. -/
theorem exec_admissible {α : Type} {answer : Fs → (c : Call) → c.Reply}
    (allowed : ∀ fs c, Allowed fs ⟨c, answer fs c⟩) (p : Prog α) (fs : Fs) :
    Admissible fs (p.exec answer fs).2 := by
  induction p generalizing fs with
  | pure a => trivial
  | call c k inductionHypothesis => exact ⟨allowed fs c, inductionHypothesis _ _⟩
  | panic msg => trivial

/-- An execution against answers that keep `B` keeps it. -/
theorem exec_along {α : Type} {B : Fs → Event → Prop} {answer : Fs → (c : Call) → c.Reply}
    (keeps : ∀ fs c, B fs ⟨c, answer fs c⟩) (p : Prog α) (fs : Fs) : Along B fs (p.exec answer fs).2 := by
  induction p generalizing fs with
  | pure a => trivial
  | call c k inductionHypothesis => exact ⟨keeps fs c, inductionHypothesis _ _⟩
  | panic msg => trivial

end Confd.Afero
