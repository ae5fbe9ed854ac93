import Confd.Afero.Contract

/-! # What a program leaves in the files

`Prog.Ensures P Q p fs`: every run of `p` from `fs` that the contract allows, whose events
satisfy `P`, and that returns `a` leaves a filesystem `fs'` with `Q fs' a`. It is the weakest-precondition reading of a
program over the contract: proved by walking the program once (`ensures_bind`,
`ensures_withDefer`, and `ensures_bind_unchanged` past a part that writes nothing), weakened by
`Ensures.mono`, and read off a run by `Ensures.yields`; `ensures_frame` is its frame rule. Runs
that panic are not constrained; `Safe` rules them out where it matters. `EnsuresAlong` is the
same reading over filesystems that keep a promise beyond the contract.

The specifications of the afero helpers the pipeline writes through:

* `readFile_ensures`: `ReadFile` changes nothing and returns the file's whole content;
* `writeFile_ensures`: `WriteFile` changes only its file, which it leaves as it was or holding a
  prefix of the data, and all of the data when it returns nil;
* `tempFileLoop_ensures`: the name `TempFile` returns names an empty file;
* `tempFileLoop_made`: `TempFile` creates that file, which was missing, empty, of mode `0600` and
  owned by the process, and changes nothing else; `tempFileLoop_fresh` is the part of it the
  pipeline's proofs use.
-/

namespace Confd.Afero.Prog

variable {α β : Type}

/-- Every run of `p` from `fs` that the contract allows, whose events satisfy `P`, and that
returns `a` ends in a state `fs'` with `Q fs' a`. -/
def Ensures (P : Event → Prop) (Q : Fs → α → Prop) : Prog α → Fs → Prop
  | .pure a, fs => Q fs a
  | .call c k, fs => ∀ r, Allowed fs ⟨c, r⟩ → P ⟨c, r⟩ → (k r).Ensures P Q (fs.apply ⟨c, r⟩)
  | .panic _, _ => True

variable {P : Event → Prop}

@[simp] theorem ensures_pure {Q : Fs → α → Prop} {a : α} {fs : Fs} : (Prog.pure a).Ensures P Q fs ↔ Q fs a :=
  Iff.rfl

theorem ensures_of_forall {Q : Fs → α → Prop} (always : ∀ fs a, Q fs a) :
    ∀ (p : Prog α) (fs : Fs), p.Ensures P Q fs
  | .pure a, fs => always fs a
  | .call _ k, _ => fun r _ _ => ensures_of_forall always (k r) _
  | .panic _, _ => trivial

theorem Ensures.mono {Q R : Fs → α → Prop} (weaker : ∀ fs a, Q fs a → R fs a) :
    ∀ {p : Prog α} {fs : Fs}, p.Ensures P Q fs → p.Ensures P R fs
  | .pure _, _, holds => weaker _ _ holds
  | .call _ _, _, later => fun r allowed good => Ensures.mono weaker (later r allowed good)
  | .panic _, _, _ => trivial

/-- Two postconditions of one program hold together. -/
theorem Ensures.and {Q R : Fs → α → Prop} :
    ∀ {p : Prog α} {fs : Fs}, p.Ensures P Q fs → p.Ensures P R fs → p.Ensures P (fun fs a => Q fs a ∧ R fs a) fs
  | .pure _, _, q, r => ⟨q, r⟩
  | .call _ _, _, q, r => fun x allowed good => Ensures.and (q x allowed good) (r x allowed good)
  | .panic _, _, _, _ => trivial

theorem ensures_bind {Q : Fs → β → Prop} {p : Prog α} {f : α → Prog β} {fs : Fs}
    (first : p.Ensures P (fun fs' a => (f a).Ensures P Q fs') fs) : (p >>= f).Ensures P Q fs := by
  induction p generalizing fs with
  | pure a => exact first
  | call c k inductionHypothesis =>
    exact fun r allowed good => inductionHypothesis r (first r allowed good)
  | panic _ => trivial

theorem ensures_withDefer {Q : Fs → α → Prop} {p : Prog α} {d : Prog Unit} {fs : Fs}
    (body : p.Ensures P (fun fs' a => d.Ensures P (fun fs'' _ => Q fs'' a) fs') fs) :
    (p.withDefer d).Ensures P Q fs := by
  induction p generalizing fs with
  | pure a => exact ensures_bind body
  | call c k inductionHypothesis =>
    exact fun r allowed good => inductionHypothesis r (body r allowed good)
  | panic _ => exact ensures_bind (ensures_of_forall (fun _ _ => trivial) d fs)

/-- A call that writes nothing leaves the state to what follows it. -/
theorem ensures_call_of_written_nil {Q : Fs → α → Prop} {c : Call} {k : c.Reply → Prog α} {fs : Fs}
    (quiet : c.written = []) (rest : ∀ r, Allowed fs ⟨c, r⟩ → P ⟨c, r⟩ → (k r).Ensures P Q fs) :
    (Prog.call c k).Ensures P Q fs := fun r allowed good => by
  rw [Fs.apply_of_written_nil fs quiet]
  exact rest r allowed good

/-- A program that writes nothing leaves the files as they were. -/
theorem ensures_unchanged {p : Prog α} (quiet : p.Every fun c => c.written = []) (fs : Fs) :
    p.Ensures P (fun fs' _ => fs' = fs) fs := by
  induction p with
  | pure a => rfl
  | call c k inductionHypothesis =>
    exact ensures_call_of_written_nil quiet.1 fun r _ _ => inductionHypothesis r (quiet.2 r)
  | panic _ => trivial

theorem ensures_bind_unchanged {Q : Fs → β → Prop} {p : Prog α} {f : α → Prog β} {fs : Fs}
    (quiet : p.Every fun c => c.written = []) (rest : ∀ a, (f a).Ensures P Q fs) :
    (p >>= f).Ensures P Q fs :=
  ensures_bind ((ensures_unchanged quiet fs).mono fun _ a same => same ▸ rest a)

/-- A program whose calls write only paths `S` holds of leaves every other path as it was. -/
theorem ensures_frame {S : String → Prop} {p : Prog α} (writes : p.Every fun c => ∀ q ∈ c.written, S q)
    (fs : Fs) : p.Ensures P (fun fs' _ => ∀ q, ¬S q → fs'.files q = fs.files q) fs := by
  induction p generalizing fs with
  | pure a => exact fun _ _ => rfl
  | call c k inductionHypothesis =>
    exact fun r _ _ => (inductionHypothesis r (writes.2 r) _).mono fun _ _ same q away =>
      (same q away).trans (Fs.apply_files_of_not_written _ (fun mem => away (writes.1 q mem)) fs)
  | panic _ => trivial

/-- What a program ensures holds at the end of each of its runs that returns. -/
theorem Ensures.yields {Q : Fs → α → Prop} {p : Prog α} {fs : Fs} {tr : List Event} {a : α}
    (ensures : p.Ensures P Q fs) (run : p.Yields tr (.returned a)) (admissible : Admissible fs tr)
    (good : ∀ ev ∈ tr, P ev) : Q (fs.replay tr) a := by
  generalize returned : Ending.returned a = e at run
  induction run generalizing fs with
  | pure b => cases returned; exact ensures
  | panic _ => cases returned
  | call r _ inductionHypothesis =>
    exact inductionHypothesis (ensures r admissible.1 (good _ (List.mem_cons_self _ _))) admissible.2
      (fun ev mem => good ev (List.mem_cons_of_mem _ mem)) returned

/-! ## Under a promise beyond the contract

Some properties hold only of filesystems that promise more than `Allowed`, such as one whose
`Remove` deletes a file that exists. `p.EnsuresAlong B Q fs` is `Ensures` over the runs along
which each event also meets `B` in its state; `Ensures.along` carries every `Ensures` lemma
over to it, so only the steps that need the promise are walked again. -/

/-- Every run of `p` from `fs` that the contract allows, along which `B` holds, and that
returns `a` ends in a state `fs'` with `Q fs' a`. -/
def EnsuresAlong (B : Fs → Event → Prop) (Q : Fs → α → Prop) : Prog α → Fs → Prop
  | .pure a, fs => Q fs a
  | .call c k, fs => ∀ r, Allowed fs ⟨c, r⟩ → B fs ⟨c, r⟩ → (k r).EnsuresAlong B Q (fs.apply ⟨c, r⟩)
  | .panic _, _ => True

variable {B : Fs → Event → Prop}

theorem Ensures.along {Q : Fs → α → Prop} (kept : ∀ fs ev, B fs ev → P ev) :
    ∀ {p : Prog α} {fs : Fs}, p.Ensures P Q fs → p.EnsuresAlong B Q fs
  | .pure _, _, holds => holds
  | .call _ _, _, later => fun r allowed promised => Ensures.along kept (later r allowed (kept _ _ promised))
  | .panic _, _, _ => trivial

theorem EnsuresAlong.mono {Q R : Fs → α → Prop} (weaker : ∀ fs a, Q fs a → R fs a) :
    ∀ {p : Prog α} {fs : Fs}, p.EnsuresAlong B Q fs → p.EnsuresAlong B R fs
  | .pure _, _, holds => weaker _ _ holds
  | .call _ _, _, later => fun r allowed promised => EnsuresAlong.mono weaker (later r allowed promised)
  | .panic _, _, _ => trivial

theorem ensuresAlong_bind {Q : Fs → β → Prop} {p : Prog α} {f : α → Prog β} {fs : Fs}
    (first : p.EnsuresAlong B (fun fs' a => (f a).EnsuresAlong B Q fs') fs) :
    (p >>= f).EnsuresAlong B Q fs := by
  induction p generalizing fs with
  | pure a => exact first
  | call c k inductionHypothesis =>
    exact fun r allowed promised => inductionHypothesis r (first r allowed promised)
  | panic _ => trivial

/-- On into what follows `p`, knowing what it returns. -/
theorem ensuresAlong_bind_of_returns {R : α → Prop} {Q : Fs → α → Prop} {S : Fs → β → Prop} {p : Prog α}
    {f : α → Prog β} {fs : Fs} (first : p.EnsuresAlong B Q fs) (post : p.Returns R)
    (rest : ∀ fs' a, Q fs' a → R a → (f a).EnsuresAlong B S fs') : (p >>= f).EnsuresAlong B S fs := by
  induction p generalizing fs with
  | pure a => exact rest fs a first post
  | call c k inductionHypothesis =>
    exact fun r allowed promised => inductionHypothesis r (first r allowed promised) (post r)
  | panic _ => trivial

theorem ensuresAlong_bind_unchanged {Q : Fs → β → Prop} {p : Prog α} {f : α → Prog β} {fs : Fs}
    (quiet : p.Every fun c => c.written = []) (rest : ∀ a, (f a).EnsuresAlong B Q fs) :
    (p >>= f).EnsuresAlong B Q fs :=
  ensuresAlong_bind (((ensures_unchanged (P := fun _ => True) quiet fs).along fun _ _ _ => trivial).mono
    fun _ a same => same ▸ rest a)

theorem ensuresAlong_withDefer {Q : Fs → α → Prop} {p : Prog α} {d : Prog Unit} {fs : Fs}
    (body : p.EnsuresAlong B (fun fs' a => d.EnsuresAlong B (fun fs'' _ => Q fs'' a) fs') fs) :
    (p.withDefer d).EnsuresAlong B Q fs := by
  induction p generalizing fs with
  | pure a => exact ensuresAlong_bind body
  | call c k inductionHypothesis =>
    exact fun r allowed promised => inductionHypothesis r (body r allowed promised)
  | panic _ =>
    exact ensuresAlong_bind ((ensures_of_forall (P := fun _ => True) (fun _ _ => trivial) d fs).along
      fun _ _ _ => trivial)

/-- What a program ensures along `B` holds at the end of each of its runs that returns, that the
contract allows, and along which `B` holds. -/
theorem EnsuresAlong.yields {Q : Fs → α → Prop} {p : Prog α} {fs : Fs} {tr : List Event} {a : α}
    (ensures : p.EnsuresAlong B Q fs) (run : p.Yields tr (.returned a)) (admissible : Admissible fs tr)
    (promised : Along B fs tr) : Q (fs.replay tr) a := by
  generalize returned : Ending.returned a = e at run
  induction run generalizing fs with
  | pure b => cases returned; exact ensures
  | panic _ => cases returned
  | call r _ inductionHypothesis =>
    exact inductionHypothesis (ensures r admissible.1 promised.1) admissible.2 promised.2 returned

end Confd.Afero.Prog

namespace Confd.Afero

open Prog

variable {P : Event → Prop}

theorem readFile_ensures (name : String) (fs : Fs) :
    (readFile name).Ensures P (fun fs' res =>
      fs' = fs ∧ ∀ data, res = .ok data → ∃ f, fs.files name = some f ∧ data = f.content) fs := by
  refine ensures_bind (ensures_call_of_written_nil rfl fun opened _ _ => ?_)
  cases opened with
  | some _ => exact ⟨rfl, by simp⟩
  | none =>
    refine ensures_withDefer (ensures_bind (ensures_call_of_written_nil rfl fun read allowed _ => ?_))
    obtain ⟨data, err⟩ := read
    cases err with
    | some _ => exact ensures_call_of_written_nil rfl fun _ _ _ => ⟨rfl, by simp⟩
    | none => exact ensures_call_of_written_nil rfl fun _ _ _ => ⟨rfl, by simpa [Allowed] using allowed⟩

theorem writeFile_ensures (name : String) (data : Bytes) (perm : Nat) (fs : Fs) :
    (writeFile name data perm).Ensures P (fun fs' err =>
      (∀ p, p ≠ name → fs'.files p = fs.files p) ∧
      (fs'.files name = fs.files name ∨ ∃ f, fs'.files name = some f ∧ f.content <+: data) ∧
      (err = none → ∃ f, fs'.files name = some f ∧ f.content = data)) fs := by
  refine ensures_bind fun opened _ _ => ?_
  cases opened with
  | some _ => exact ⟨fun _ _ => rfl, .inl rfl, by simp⟩
  | none =>
    obtain ⟨f, truncated, empty⟩ := Fs.apply_createTrunc_files fs name perm
    refine ensures_bind fun written allowed _ => ?_
    obtain ⟨n, werr⟩ := written
    have wrote : ((fs.apply ⟨.openFile name .createTrunc perm, none⟩).apply
        ⟨.write name data, (n, werr)⟩).files name = some { f with content := data.take n } := by
      simp [Fs.apply_write, truncated, empty]
    refine ensures_bind (ensures_call_of_written_nil rfl fun _ _ _ =>
      ⟨fun p away => by simp [Fs.apply_write, away, Fs.apply], .inr ⟨_, wrote, List.take_prefix n data⟩,
        fun returned => ⟨_, wrote, ?_⟩⟩)
    simp only [Allowed] at allowed
    cases werr with
    | some _ => simp at returned
    | none => simp [allowed.2 rfl]

/-- What `TempFile` promises of the name it returns: an empty file is there. -/
def Created (fs : Fs) (res : Except Error String) : Prop :=
  ∀ name, res = .ok name → ∃ f, fs.files name = some f ∧ f.content = []

theorem tempFileLoop_ensures (dir pattern : String) :
    ∀ (tries : Nat) (fs : Fs), (tempFileLoop dir pattern tries).Ensures P Created fs := by
  have attempt : ∀ (onError : Error → Prog (Except Error String)) (fs : Fs),
      (∀ err fs, (onError err).Ensures P Created fs) →
        (tempFileAttempt dir pattern onError).Ensures P Created fs :=
    fun onError fs failed => ensures_bind (ensures_call_of_written_nil rfl fun _ _ _ =>
      ensures_bind fun opened _ _ => by
        cases opened with
        | none => rintro _ ⟨⟩; exact ⟨⟨[], 0o600, fs.euid, fs.egid⟩, by simp [Fs.apply], rfl⟩
        | some err => exact failed err _)
  intro tries
  induction tries with
  | zero => exact fun fs => attempt _ fs fun _ _ => by simp [Created]
  | succ tries inductionHypothesis =>
    refine fun fs => attempt _ fs fun err fs => ?_
    split
    · exact inductionHypothesis fs
    · simp [Created]

/-- What `TempFile` leaves: when it returns a name, a file there that was missing and is now
empty, of mode `0600` and owned by the process, and every other path as it was; when it fails,
every path as it was. -/
def Made (fs fs' : Fs) : Except Error String → Prop
  | .ok name => fs.files name = none ∧ fs'.files name = some ⟨[], 0o600, fs.euid, fs.egid⟩ ∧
      ∀ p, p ≠ name → fs'.files p = fs.files p
  | .error _ => ∀ p, fs'.files p = fs.files p

theorem tempFileLoop_made (dir pattern : String) :
    ∀ (tries : Nat) (fs : Fs), (tempFileLoop dir pattern tries).Ensures P (Made fs) fs := by
  have attempt : ∀ (onError : Error → Prog (Except Error String)) (fs : Fs),
      (∀ err, (onError err).Ensures P (Made fs) fs) →
        (tempFileAttempt dir pattern onError).Ensures P (Made fs) fs :=
    fun onError fs failed => ensures_bind (ensures_call_of_written_nil rfl fun _ _ _ =>
      ensures_bind fun opened allowed _ => by
        cases opened with
        | none => exact ⟨allowed, by simp [Fs.apply, Fs.set], fun p away => by simp [Fs.apply, Fs.set, away]⟩
        | some err => exact failed err)
  intro tries
  induction tries with
  | zero => exact fun fs => attempt _ fs fun _ _ => rfl
  | succ tries inductionHypothesis =>
    refine fun fs => attempt _ fs fun err => ?_
    split
    · exact inductionHypothesis fs
    · exact fun _ => rfl

/-- What `TempFile` changes: nothing, when it fails; when it returns a name, only the file
there, which was missing and now exists. -/
def CreatedOnly (fs fs' : Fs) : Except Error String → Prop
  | .ok name => fs.files name = none ∧ fs'.files name ≠ none ∧ ∀ p, p ≠ name → fs'.files p = fs.files p
  | .error _ => ∀ p, fs'.files p = fs.files p

theorem tempFileLoop_fresh (dir pattern : String) (tries : Nat) (fs : Fs) :
    (tempFileLoop dir pattern tries).Ensures P (CreatedOnly fs) fs :=
  (tempFileLoop_made dir pattern tries fs).mono fun _ res made => match res, made with
    | .ok _, ⟨absent, created, rest⟩ => ⟨absent, by simp [created], rest⟩
    | .error _, same => same

end Confd.Afero
