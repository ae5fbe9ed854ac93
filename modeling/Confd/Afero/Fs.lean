import Confd.Go.Stdlib

/-! # The filesystem contract the pipeline runs against

The template package reaches the filesystem only through `afero.Fs` and the `afero.File`
handles it returns, and the outside world through the backend's `GetValues` and the shell
(`runCommand`). Each such call is a `Call`; the environment answers it with a `Call.Reply`
of the call's own type, and the pair is an `Event`. What a run did to the files is the
events' effects replayed in order (`Fs.replay`).

A handle is named by the path it was opened at: the pipeline never renames or removes a
file while it holds a handle on it, except for the staged file, whose handle is only
closed afterwards.
-/

namespace Confd.Afero

/-- A byte slice. -/
abbrev Bytes := List UInt8

/-- How a caller classifies an error: `os.IsNotExist`, `os.IsExist`, or neither. -/
inductive ErrorKind where
  | notExist
  | exist
  | other
  deriving DecidableEq, Repr

/-- A Go `error`: how `os.IsNotExist`/`os.IsExist` classify it, and what `err.Error()` says. -/
structure Error where
  kind : ErrorKind
  msg : String
  deriving DecidableEq, Repr

/-- `errors.New(msg)`. -/
def Error.new (msg : String) : Error := ⟨.other, msg⟩

/-- What `Stat` reports: the `os.FileMode`, and the owner when `FileInfo.Sys()` is a
`*syscall.Stat_t`. -/
structure FileInfo where
  mode : Nat
  sys : Option (Int × Int)
  deriving DecidableEq, Repr

/-- `os.ModeDir`. -/
def modeDir : Nat := 2 ^ 31

/-- `FileInfo.IsDir()`. -/
def FileInfo.isDir (info : FileInfo) : Bool := info.mode / modeDir % 2 = 1

/-- A file (or, with `modeDir` set, a directory) as the filesystem holds it. -/
structure FileEntry where
  content : Bytes
  mode : Nat
  uid : Int
  gid : Int
  deriving DecidableEq, Repr

/-- Go's `chmodBits`, `os.ModePerm | os.ModeSetuid | os.ModeSetgid | os.ModeSticky`: the bits
`Chmod` and a creating `OpenFile` take from the mode they are given. `os.ModeSetuid` is bit 23,
`os.ModeSetgid` bit 22 and `os.ModeSticky` bit 20, so of `os.FileMode(0o4755)` they keep `0o755`. -/
def chmodBits : Nat := 0o777 + 2 ^ 23 + 2 ^ 22 + 2 ^ 20

/-- The mode `Chmod(name, mode)` leaves on a file of mode `old`: the bits of `old` outside
`chmodBits` (a directory's `os.ModeDir`), and those of `mode` inside it. -/
def chmodMode (old mode : Nat) : Nat := (old ^^^ (old &&& chmodBits)) ||| (mode &&& chmodBits)

/-- `TempFile`'s `0600` is all inside `chmodBits`. -/
@[simp] theorem perm_600_chmodBits : 0o600 &&& chmodBits = 0o600 := by decide

/-- `Chmod` of a file with no bits outside `chmodBits` leaves exactly the `chmodBits` of the
mode it is given. -/
theorem chmodMode_of_within {old : Nat} (within : old &&& chmodBits = old) (mode : Nat) :
    chmodMode old mode = mode &&& chmodBits := by
  rw [chmodMode, within, Nat.xor_self, Nat.zero_or]

/-- A file's bytes and mode: all of it but its owner. -/
def FileEntry.body (f : FileEntry) : Bytes × Nat := (f.content, f.mode)

/-- An `afero.Fs` at one moment: the entry at each path, the owner it gives the files this
process creates, and whether its `FileInfo.Sys()` is a `*syscall.Stat_t` (the OS filesystem)
or something else (`afero.MemMapFs`). -/
@[ext] structure Fs where
  files : String → Option FileEntry
  euid : Int
  egid : Int
  statT : Bool

/-- The three ways the pipeline opens a file: `Open` (`O_RDONLY`), `afero.WriteFile`
(`O_WRONLY|O_CREATE|O_TRUNC`) and `afero.TempFile` (`O_RDWR|O_CREATE|O_EXCL`). -/
inductive OpenFlag where
  | rdOnly
  | createTrunc
  | createExcl
  deriving DecidableEq, Repr

/-- A call the pipeline makes to its environment. -/
inductive Call where
  | stat (name : String)
  | openFile (name : String) (flag : OpenFlag) (perm : Nat)
  | write (name : String) (data : Bytes)
  | read (name : String)
  | fstat (name : String)
  | readDirNames (name : String)
  | close (name : String)
  | chmod (name : String) (mode : Nat)
  | chown (name : String) (uid gid : Int)
  | rename (oldname newname : String)
  | remove (name : String)
  | nextRandom
  | getValues (keys : List String)
  | runCommand (cmd : String)
  deriving DecidableEq, Repr

/-- What each call returns. `Option Error` is a Go `error` (`none` is `nil`); a write
returns how many bytes it wrote, a read to the end of file what it read, and both their
error; `nextRandom` returns the generator's next state; `GetValues` returns the map in the
order Go's `range` visits it. -/
def Call.Reply : Call → Type
  | .stat _ => Except Error FileInfo
  | .openFile .. => Option Error
  | .write .. => Nat × Option Error
  | .read _ => Bytes × Option Error
  | .fstat _ => Except Error FileInfo
  | .readDirNames _ => List String × Option Error
  | .close _ => Option Error
  | .chmod .. => Option Error
  | .chown .. => Option Error
  | .rename .. => Option Error
  | .remove _ => Option Error
  | .nextRandom => Nat
  | .getValues _ => Except Error (List (String × String))
  | .runCommand _ => Option Error

/-- A call and the reply it got. -/
structure Event where
  call : Call
  reply : call.Reply

/-! ## Effects -/

namespace Fs

/-- The filesystem with the entry at `name` replaced. -/
def set (fs : Fs) (name : String) (entry : Option FileEntry) : Fs :=
  { fs with files := fun p => if p = name then entry else fs.files p }

/-- The filesystem with the entry at `name`, if any, changed by `f`. -/
def modify (fs : Fs) (name : String) (f : FileEntry → FileEntry) : Fs :=
  fs.set name ((fs.files name).map f)

/-- What a call that got `reply` did to the files. Only successful opens that create,
writes (as many bytes as they report), successful `Chmod`, `Chown`, `Rename` and `Remove`
change anything; a rename onto itself changes nothing. -/
def apply (fs : Fs) : Event → Fs
  | ⟨.openFile name .createTrunc perm, none⟩ =>
    fs.set name (some ((fs.files name).elim ⟨[], perm &&& chmodBits, fs.euid, fs.egid⟩ ({ · with content := [] })))
  | ⟨.openFile name .createExcl perm, none⟩ => fs.set name (some ⟨[], perm &&& chmodBits, fs.euid, fs.egid⟩)
  | ⟨.write name data, (n, _)⟩ => fs.modify name fun f => { f with content := f.content ++ data.take n }
  | ⟨.chmod name mode, none⟩ => fs.modify name fun f => { f with mode := chmodMode f.mode mode }
  | ⟨.chown name uid gid, none⟩ => fs.modify name fun f => { f with uid := uid, gid := gid }
  | ⟨.rename a b, none⟩ =>
    if a = b then fs else
      match fs.files a with
      | some f => (fs.set b (some f)).set a none
      | none => fs
  | ⟨.remove name, none⟩ => fs.set name none
  | _ => fs

/-- The filesystem after the events `tr`, in order. -/
def replay (fs : Fs) (tr : List Event) : Fs := tr.foldl apply fs

@[simp] theorem set_files (fs : Fs) (name p : String) (entry : Option FileEntry) :
    (fs.set name entry).files p = if p = name then entry else fs.files p := rfl

@[simp] theorem replay_nil (fs : Fs) : fs.replay [] = fs := rfl

@[simp] theorem replay_cons (fs : Fs) (e : Event) (tr : List Event) :
    fs.replay (e :: tr) = (fs.apply e).replay tr := rfl

theorem replay_append (fs : Fs) (tr tr' : List Event) :
    fs.replay (tr ++ tr') = (fs.replay tr).replay tr' := List.foldl_append _ _ _ _

end Fs

/-! ## The frame of an event -/

/-- The paths a call may change. -/
def Call.written : Call → List String
  | .openFile name flag _ => if flag = .rdOnly then [] else [name]
  | .write name _ | .chmod name _ | .chown name _ _ | .remove name => [name]
  | .rename a b => [a, b]
  | _ => []

/-- Whether a call runs a shell command. -/
def Call.isCommand : Call → Bool
  | .runCommand _ => true
  | _ => false

/-- The paths whose entries a call's answer may depend on or its effect change: the path it
names (both, for a rename), and for a directory listing every entry directly under it. -/
def Call.Touches : Call → String → Prop
  | .stat name, p | .openFile name .., p | .write name _, p | .read name, p | .fstat name, p
  | .close name, p | .chmod name _, p | .chown name .., p | .remove name, p => p = name
  | .rename a b, p => p = a ∨ p = b
  | .readDirNames dir, p => ∃ n, Go.Path.Plain n.data ∧ p = Go.Path.join dir n
  | .nextRandom, _ | .getValues _, _ | .runCommand _, _ => False

theorem Call.touches_of_mem_written {c : Call} {p : String} (written : p ∈ c.written) : c.Touches p := by
  cases c with
  | openFile name flag perm => cases flag <;> simp_all [Call.written, Call.Touches]
  | _ => simp_all [Call.written, Call.Touches]

namespace Fs

@[simp] theorem apply_euid (fs : Fs) (e : Event) : (fs.apply e).euid = fs.euid := by
  unfold apply; split <;> (try split) <;> (try split) <;> rfl

@[simp] theorem apply_egid (fs : Fs) (e : Event) : (fs.apply e).egid = fs.egid := by
  unfold apply; split <;> (try split) <;> (try split) <;> rfl

@[simp] theorem apply_statT (fs : Fs) (e : Event) : (fs.apply e).statT = fs.statT := by
  unfold apply; split <;> (try split) <;> (try split) <;> rfl

@[simp] theorem modify_files (fs : Fs) (name p : String) (f : FileEntry → FileEntry) :
    (fs.modify name f).files p = if p = name then (fs.files p).map f else fs.files p := by
  simp only [modify, set_files]; split <;> simp_all

theorem apply_write (fs : Fs) (name : String) (data : Bytes) (n : Nat) (err : Option Error) :
    fs.apply ⟨.write name data, (n, err)⟩ =
      fs.modify name fun f => { f with content := f.content ++ data.take n } := rfl

/-- A `Write` changes no file's mode. -/
theorem apply_write_mode (fs : Fs) (name : String) (data : Bytes) (n : Nat) (err : Option Error) (p : String) :
    ((fs.apply ⟨.write name data, (n, err)⟩).files p).map FileEntry.mode = (fs.files p).map FileEntry.mode := by
  simp only [apply_write, modify_files]; split <;> cases fs.files p <;> rfl

/-- `Chown` changes no file's bytes or mode. -/
theorem apply_chown_body (fs : Fs) (name : String) (uid gid : Int) (r : Option Error) (p : String) :
    ((fs.apply ⟨.chown name uid gid, r⟩).files p).map FileEntry.body = (fs.files p).map FileEntry.body := by
  cases r with
  | some _ => rfl
  | none => simp only [apply, modify_files]; split <;> cases fs.files p <;> rfl

/-- `Chmod` changes no file's bytes. -/
theorem apply_chmod_content (fs : Fs) (name : String) (mode : Nat) (r : Option Error) (p : String) :
    ((fs.apply ⟨.chmod name mode, r⟩).files p).map FileEntry.content = (fs.files p).map FileEntry.content := by
  cases r with
  | some _ => rfl
  | none => simp only [apply, modify_files]; split <;> cases fs.files p <;> rfl

theorem apply_chown_content (fs : Fs) (name : String) (uid gid : Int) (r : Option Error) (p : String) :
    ((fs.apply ⟨.chown name uid gid, r⟩).files p).map FileEntry.content = (fs.files p).map FileEntry.content := by
  cases r with
  | some _ => rfl
  | none => simp only [apply, modify_files]; split <;> cases fs.files p <;> rfl

/-- A successful `O_TRUNC` open leaves an empty file at its path. -/
theorem apply_createTrunc_files (fs : Fs) (name : String) (perm : Nat) :
    ∃ f, (fs.apply ⟨.openFile name .createTrunc perm, none⟩).files name = some f ∧ f.content = [] := by
  cases h : fs.files name <;> simp [apply, h]

/-- An event that writes no path changes nothing. -/
theorem apply_of_written_nil (fs : Fs) {e : Event} (quiet : e.call.written = []) : fs.apply e = fs := by
  rcases e with ⟨c, r⟩
  cases c with
  | openFile name flag perm =>
    cases flag
    · cases r <;> rfl
    all_goals simp [Call.written] at quiet
  | write | chmod | chown | rename | remove => simp [Call.written] at quiet
  | _ => rfl

/-- An event leaves every path it does not write as it was. -/
theorem apply_files_of_not_written {p : String} (e : Event) (away : p ∉ e.call.written)
    (fs : Fs) : (fs.apply e).files p = fs.files p := by
  rcases e with ⟨c, r⟩
  cases c with
  | openFile name flag perm => cases flag <;> cases r <;> simp_all [Call.written, apply, modify]
  | write name data => obtain ⟨n, err⟩ := r; simp_all [Call.written, apply, modify]
  | chmod name mode => cases r <;> simp_all [Call.written, apply, modify]
  | chown name uid gid => cases r <;> simp_all [Call.written, apply, modify]
  | rename a b =>
    cases r with
    | some _ => rfl
    | none =>
      simp only [Call.written, List.mem_cons, List.not_mem_nil, or_false, not_or] at away
      simp only [apply]
      split
      · rfl
      · split <;> simp_all
  | remove name => cases r <;> simp_all [Call.written, apply, modify]
  | _ => rfl

/-- The frame law of a run: a path that no event writes keeps its entry. -/
theorem replay_files_of_not_written {p : String} :
    ∀ (tr : List Event), (∀ e ∈ tr, p ∉ e.call.written) → ∀ fs : Fs, (fs.replay tr).files p = fs.files p
  | [], _, _ => rfl
  | e :: tr, away, fs => by
    rw [replay_cons, replay_files_of_not_written tr (fun e' mem => away e' (List.mem_cons_of_mem e mem)),
      apply_files_of_not_written e (away e (List.mem_cons_self e tr))]

/-- A run that writes nothing leaves the filesystem as it was. -/
theorem replay_of_written_nil {fs : Fs} {tr : List Event} (quiet : ∀ e ∈ tr, e.call.written = []) :
    fs.replay tr = fs := by
  induction tr generalizing fs with
  | nil => rfl
  | cons e tr ih =>
    rw [replay_cons, apply_of_written_nil fs (quiet e (List.mem_cons_self e tr)),
      ih fun e' mem => quiet e' (List.mem_cons_of_mem e mem)]

/-! ## Two filesystems that agree on some paths -/

/-- `fs₁` and `fs₂` agree on the entries at the paths `S` holds of, and on what is not a file. -/
def AgreeOn (S : String → Prop) (fs₁ fs₂ : Fs) : Prop :=
  fs₁.euid = fs₂.euid ∧ fs₁.egid = fs₂.egid ∧ fs₁.statT = fs₂.statT ∧ ∀ p, S p → fs₁.files p = fs₂.files p

theorem AgreeOn.mono {S T : String → Prop} {fs₁ fs₂ : Fs} (smaller : ∀ p, S p → T p)
    (agree : fs₁.AgreeOn T fs₂) : fs₁.AgreeOn S fs₂ :=
  ⟨agree.1, agree.2.1, agree.2.2.1, fun p inS => agree.2.2.2 p (smaller p inS)⟩

/-- What an event leaves at the paths it touches depends only on what was there. -/
theorem apply_agreeOn {fs₁ fs₂ : Fs} {e : Event} (agree : fs₁.AgreeOn e.call.Touches fs₂) :
    (fs₁.apply e).AgreeOn e.call.Touches (fs₂.apply e) := by
  obtain ⟨euid, egid, statT, files⟩ := agree
  refine ⟨by simpa using euid, by simpa using egid, by simpa using statT, fun p touched => ?_⟩
  rcases e with ⟨c, r⟩
  cases c with
  | openFile name flag perm =>
    obtain rfl : p = name := touched
    cases flag <;> cases r <;> simp [apply, files p rfl, euid, egid]
  | write name data =>
    obtain rfl : p = name := touched
    obtain ⟨n, err⟩ := r
    simp [apply_write, files p rfl]
  | chmod name mode =>
    obtain rfl : p = name := touched
    cases r <;> simp [apply, files p rfl]
  | chown name uid gid =>
    obtain rfl : p = name := touched
    cases r <;> simp [apply, files p rfl]
  | remove name =>
    obtain rfl : p = name := touched
    cases r <;> simp [apply, files p rfl]
  | rename a b =>
    cases r with
    | some _ => exact files p touched
    | none =>
      simp only [apply]
      split
      · exact files p touched
      · rw [files a (.inl rfl)]
        split <;> simp [files p touched]
  | _ => exact files p touched

/-- An event leaves a path with the same entry in two filesystems that agree on what it touches
and at that path. -/
theorem apply_files_congr {fs₁ fs₂ : Fs} {e : Event} {p : String} (agree : fs₁.AgreeOn e.call.Touches fs₂)
    (same : fs₁.files p = fs₂.files p) : (fs₁.apply e).files p = (fs₂.apply e).files p := by
  by_cases touched : e.call.Touches p
  · exact (apply_agreeOn agree).2.2.2 p touched
  · have away : p ∉ e.call.written := fun mem => touched (Call.touches_of_mem_written mem)
    rw [apply_files_of_not_written e away, apply_files_of_not_written e away, same]

@[simp] theorem replay_euid : ∀ (fs : Fs) (tr : List Event), (fs.replay tr).euid = fs.euid
  | _, [] => rfl
  | fs, e :: tr => (replay_euid (fs.apply e) tr).trans (apply_euid fs e)

@[simp] theorem replay_egid : ∀ (fs : Fs) (tr : List Event), (fs.replay tr).egid = fs.egid
  | _, [] => rfl
  | fs, e :: tr => (replay_egid (fs.apply e) tr).trans (apply_egid fs e)

@[simp] theorem replay_statT : ∀ (fs : Fs) (tr : List Event), (fs.replay tr).statT = fs.statT
  | _, [] => rfl
  | fs, e :: tr => (replay_statT (fs.apply e) tr).trans (apply_statT fs e)

/-- A run leaves as they were the paths `S` holds of when none of its events writes one. -/
theorem replay_agreeOn_of_not_written {S : String → Prop} {tr : List Event}
    (away : ∀ e ∈ tr, ∀ p, S p → p ∉ e.call.written) (fs : Fs) : (fs.replay tr).AgreeOn S fs :=
  ⟨by simp, by simp, by simp, fun p inS => replay_files_of_not_written tr (fun e mem => away e mem p inS) fs⟩

end Fs

end Confd.Afero
