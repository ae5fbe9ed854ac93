import Confd.Afero.Prog
import Mathlib.Data.List.Sort

/-! # The afero calls and helpers the pipeline uses

One program per `afero.Fs` and `afero.File` method, then the package functions built on
them: `ReadFile`, `WriteFile`, `TempFile`, `Glob`, and the `io/fs` view `NewIOFS` through
which `text/template.ParseFS` reads templates.
-/

namespace Confd.Afero

open Confd.Go

/-- `fs.Stat(name)`. -/
def stat (name : String) : Prog (Except Error FileInfo) := .call (.stat name) .pure

/-- `fs.OpenFile(name, flag, perm)`; `fs.Open(name)` is the `rdOnly` case. -/
def openFile (name : String) (flag : OpenFlag) (perm : Nat) : Prog (Option Error) :=
  .call (.openFile name flag perm) .pure

/-- `f.Write(data)` on the handle opened at `name`. -/
def write (name : String) (data : Bytes) : Prog (Nat × Option Error) := .call (.write name data) .pure

/-- Reading the handle opened at `name` to the end of the file. -/
def readAll (name : String) : Prog (Bytes × Option Error) := .call (.read name) .pure

/-- `f.Stat()` on the handle opened at `name`. -/
def fstat (name : String) : Prog (Except Error FileInfo) := .call (.fstat name) .pure

/-- `f.Readdirnames(-1)` on the directory opened at `name`. -/
def readDirNames (name : String) : Prog (List String × Option Error) :=
  .call (.readDirNames name) .pure

/-- `f.Close()` on the handle opened at `name`. -/
def close (name : String) : Prog (Option Error) := .call (.close name) .pure

/-- `fs.Chmod(name, mode)`. -/
def chmod (name : String) (mode : Nat) : Prog (Option Error) := .call (.chmod name mode) .pure

/-- `fs.Chown(name, uid, gid)`. -/
def chown (name : String) (uid gid : Int) : Prog (Option Error) := .call (.chown name uid gid) .pure

/-- `fs.Rename(oldname, newname)`. -/
def rename (oldname newname : String) : Prog (Option Error) := .call (.rename oldname newname) .pure

/-- `fs.Remove(name)`. -/
def remove (name : String) : Prog (Option Error) := .call (.remove name) .pure

/-- The next state of afero's random-name generator. -/
def nextRandom : Prog Nat := .call .nextRandom .pure

/-- A call whose result the caller drops, as in `defer f.Close()` or `t.fs.Remove(name)`. -/
def ignore {α : Type} (p : Prog α) : Prog Unit := p.bind fun _ => .pure ()

/-! ## `ReadFile` and `WriteFile` -/

/-- `io.ErrShortWrite`. -/
def errShortWrite : Error := .new "short write"

/-- `afero.ReadFile`: open the file, read it to the end, close it. -/
def readFile (name : String) : Prog (Except Error Bytes) := do
  match ← openFile name .rdOnly 0 with
  | some err => return .error err
  | none =>
    Prog.withDefer
      (do
        let (data, err) ← readAll name
        match err with
        | some err => return .error err
        | none => return .ok data)
      (ignore (close name))

/-- `afero.WriteFile`: open with `O_WRONLY|O_CREATE|O_TRUNC` (`perm` applies only when the
file is created), write everything, close; the first error wins. -/
def writeFile (name : String) (data : Bytes) (perm : Nat) : Prog (Option Error) := do
  match ← openFile name .createTrunc perm with
  | some err => return some err
  | none =>
    let (n, err) ← write name data
    let err := if err.isNone && n < data.length then some errShortWrite else err
    let err1 ← close name
    return if err.isNone then err1 else err

/-! ## `TempFile` -/

/-- `strconv.Itoa(int(1e9 + r%1e9))[1:]`: the nine decimal digits of `r % 10^9`. -/
def randomSuffix (r : Nat) : String :=
  ⟨(List.range 9).reverse.map fun i => Char.ofNat (48 + r / 10 ^ i % 10)⟩

/-- `TempFile`'s pattern cut at its last `*` (the random part goes there), or the whole
pattern before the random part when there is no `*`. -/
def splitAtLastStar (pattern : String) : String × String :=
  match pattern.data.reverse.dropWhile (· != '*') with
  | [] => (pattern, "")
  | _ :: before => (⟨before.reverse⟩, ⟨(pattern.data.reverse.takeWhile (· != '*')).reverse⟩)

/-- The name `TempFile` tries for generator state `r`. -/
def tempName (dir pattern : String) (r : Nat) : String :=
  Path.join dir ((splitAtLastStar pattern).1 ++ randomSuffix r ++ (splitAtLastStar pattern).2)

/-- One attempt of `TempFile`: a fresh random name, opened with `O_EXCL`; `onError` decides
what a failure leads to. -/
def tempFileAttempt (dir pattern : String) (onError : Error → Prog (Except Error String)) :
    Prog (Except Error String) := do
  let name := tempName dir pattern (← nextRandom)
  match ← openFile name .createExcl 0o600 with
  | none => return .ok name
  | some err => onError err

/-- `TempFile`'s loop: retry while the name exists, at most `tries + 1` attempts in all. -/
def tempFileLoop (dir pattern : String) : Nat → Prog (Except Error String)
  | 0 => tempFileAttempt dir pattern fun err => return .error err
  | remaining + 1 => tempFileAttempt dir pattern fun err =>
    if err.kind = .exist then tempFileLoop dir pattern remaining else return .error err

/-- `afero.TempFile(fs, dir, pattern)`: a new file, mode `0600`, in `dir` (which the pipeline
never leaves empty), named after `pattern`; 10000 attempts. -/
def tempFile (dir pattern : String) : Prog (Except Error String) := tempFileLoop dir pattern 9999

/-! ## `Glob` and the `io/fs` view -/

/-- afero's `hasMeta`: the pattern characters `Glob` looks for. -/
def hasMeta (p : String) : Bool := Strings.containsAny p "*?["

/-- afero's `glob`: the names in `dir` matching `pattern`, appended to `found`; an
unreadable `dir` adds nothing. -/
def globDir (dir pattern : String) (found : List String) : Prog (Except Error (List String)) := do
  match ← stat dir with
  | .error _ => return .ok found
  | .ok info =>
    if !info.isDir then return .ok found
    match ← openFile dir .rdOnly 0 with
    | some _ => return .ok found
    | none =>
      Prog.withDefer
        (do
          let (names, _) ← readDirNames dir
          return (names.insertionSort (· ≤ ·)).foldl
            (fun acc n => acc.bind fun m =>
              match Path.«match» pattern n with
              | .error msg => .error (.new msg)
              | .ok true => .ok (m ++ [Path.join dir n])
              | .ok false => .ok m)
            (.ok found))
        (ignore (close dir))

/-- The directory part of a pattern as `Glob` searches it. -/
def globParent (dir : String) : String :=
  if dir = "" then "." else if dir = "/" then dir else ⟨dir.data.dropLast⟩

/-- `afero.Glob`: a pattern without metacharacters names itself if it exists; otherwise the
matches in each directory the pattern's directory part matches. -/
def glob : Nat → String → Prog (Except Error (List String))
  | fuel, pattern =>
    if !hasMeta pattern then do
      match ← stat pattern with
      | .error _ => return .ok []
      | .ok _ => return .ok [pattern]
    else
      let dir := globParent (Path.split pattern).1
      let file := (Path.split pattern).2
      if !hasMeta dir then globDir dir file []
      else
        match fuel with
        | 0 => return .ok []
        | fuel + 1 => do
          match ← glob fuel dir with
          | .error err => return .error err
          | .ok dirs =>
            dirs.foldlM (fun acc d =>
              match acc with
              | .error err => return .error err
              | .ok m => globDir d file m) (.ok [])

/-- An `fs.PathError` as `IOFS` wraps its errors: `op path: err`. -/
def pathError (op path : String) (err : String) : Error := .new (op ++ " " ++ path ++ ": " ++ err)

/-- `IOFS.Glob`: the pattern is checked with `path.Match(pattern, "")` first. -/
def ioGlob (pattern : String) : Prog (Except Error (List String)) :=
  match Path.«match» pattern "" with
  | .error msg => return .error (pathError "glob" pattern msg)
  | .ok _ => do
    match ← glob pattern.length pattern with
    | .error err => return .error (pathError "glob" pattern err.msg)
    | .ok items => return .ok items

/-- `IOFS.ReadFile`: only valid `io/fs` paths (unrooted, no `.` or `..` elements) are read. -/
def ioReadFile (name : String) : Prog (Except Error Bytes) :=
  if !Path.validPath name then return .error (pathError "readfile" name "invalid argument")
  else do
    match ← readFile name with
    | .error err => return .error (pathError "readfile" name err.msg)
    | .ok data => return .ok data

end Confd.Afero
