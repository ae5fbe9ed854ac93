import Confd.Afero.Helpers

/-! # The `util` package: file statistics and the diff

`FileStat` is `filestat_posix.go`. The package's `util.go`, which holds `IsFileExist`,
`IsConfigChanged` and `AppendPrefix`, is not part of the sources; those three follow the
specification.
-/

namespace Confd.Util

open Confd.Go Confd.Afero

/-- What `FileStat` gathers about a file. -/
structure FileInfo where
  uid : Int
  gid : Int
  mode : Nat
  md5 : String
  deriving DecidableEq, Repr

/-- Modelled from the spec: `util.IsFileExist` (util.go is not under src/). A `Stat`, and
only a not-exist error says the file is absent. -/
def isFileExist (name : String) : Prog Bool := do
  match ← stat name with
  | .error err => return err.kind != .notExist
  | .ok _ => return true

/-- The message of the panic `stats.Sys().(*syscall.Stat_t)` raises on a nil `stats`. -/
def nilDereference : String := "runtime error: invalid memory address or nil pointer dereference"

/-- The message of the panic the same assertion raises when `Sys()` is nil, as it is for every
file of `afero.MemMapFs`: Go's text for a failed assertion on a nil interface. -/
def notStatT : String := "interface conversion: interface \x7b\x7d is nil, not *syscall.Stat_t"

/-- `util.FileStat`: owner, mode and md5 sum of the file at `name`. The error of `f.Stat()` is
dropped, so a failed `f.Stat()` panics on the nil result, and so does a `Sys()` that is not a
`*syscall.Stat_t`; the md5 sum is of what `io.Copy` read before any error, which is dropped
too. -/
def fileStat (md5 : Bytes → String) (name : String) : Prog (Except Error FileInfo) := do
  if ← isFileExist name then
    match ← openFile name .rdOnly 0 with
    | some err => return .error err
    | none =>
      Prog.withDefer
        (do
          match ← fstat name with
          | .error _ => Prog.panic nilDereference
          | .ok stats =>
            match stats.sys with
            | none => Prog.panic notStatT
            | some (uid, gid) =>
              let (data, _) ← readAll name
              return .ok ⟨uid, gid, stats.mode, md5 data⟩)
        (ignore (close name))
  else return .error (.new "File not found")

/-- Modelled from the spec: `util.IsConfigChanged` (util.go is not under src/). Section 4.4,
Diff: a destination that does not exist always differs; otherwise the two files are compared
by the digest of their bytes and nothing else, ownership and mode left out; the files count
as equal only when the digests are, so one that cannot be computed is a change, reported
with its error. -/
def isConfigChanged (md5 : Bytes → String) (src dest : String) : Prog (Bool × Option Error) := do
  if !(← isFileExist dest) then return (true, none)
  else
    match ← fileStat md5 dest with
    | .error err => return (true, some err)
    | .ok d =>
      match ← fileStat md5 src with
      | .error err => return (true, some err)
      | .ok s => return (d.md5 != s.md5, none)

/-- Modelled from the spec: `util.AppendPrefix` (util.go is not under src/). Every key
qualified by the prefix, `path.Join(prefix, key)`, the form `setVars` asks the backend for. -/
def appendPrefix (keyPrefix : String) (keys : List String) : List String :=
  keys.map (Path.join keyPrefix ·)

end Confd.Util
