import Confd.Util

/-! # `resource.go`: one cycle of a template resource

`process` runs the cycle: `setFileMode` resolves the staged file's mode, `setVars` fetches
the keys into the staging store, `createStageFile` renders the template into a temporary
file next to `Dest`, and `sync` compares it with `Dest`, checks it, commits it and reloads.
Each method with a pointer receiver takes the resource and, where Go assigns its fields,
returns the updated resource with its error; a method that fails leaves the resource as it
was, as the Go code does.

The libraries the package calls without going through the filesystem (`text/template` with
the store's functions, `crypto/md5`) are a `Runtime`.
-/

namespace Confd.Template

open Confd.Go Confd.Afero Confd.Util

/-- The staging store, a `memkv.Store`: what each key holds. -/
def Store : Type := String → Option String

/-- A store with nothing in it, what `Purge` leaves. -/
def Store.empty : Store := fun _ => none

/-- `Store.Set(key, value)`. -/
def Store.set (store : Store) (key value : String) : Store :=
  fun k => if k = key then some value else store k

/-- The libraries the template package calls besides the filesystem. -/
structure Runtime where
  /-- `Template.Parse` of a template file's text under its name: the syntax error, if any. -/
  parse : (name : String) → (text : Bytes) → Option String
  /-- `Template.Execute` of the template named `root` among the parsed ones, its functions
  reading the store: the pieces it writes, in order, and the error that stops it, if any. -/
  execute : (templates : List (String × Bytes)) → (root : String) → Store → List Bytes × Option String
  /-- The check command template executed with `.src` set to the staged file's path. -/
  expandCheck : (cmd staged : String) → Except String String
  /-- `fmt.Sprintf("%x", md5.Sum(data))`. -/
  md5 : Bytes → String

/-- A template resource. `Owner` and `Group` are only read by `NewTemplateResource`, which
resolves them into `Uid` and `Gid`; the staged file is named by its path. -/
structure TemplateResource where
  checkCmd : String
  dest : String
  fileMode : Nat
  gid : Int
  keys : List String
  mode : String
  keyPrefix : String
  reloadCmd : String
  src : String
  stageFile : Option String
  uid : Int
  keepStageFile : Bool
  noop : Bool
  store : Store
  syncOnly : Bool

/-- Go's zero value `TemplateResource{}`: every field empty, no staged file, an empty store. -/
def TemplateResource.zero : TemplateResource where
  checkCmd := ""
  dest := ""
  fileMode := 0
  gid := 0
  keys := []
  mode := ""
  keyPrefix := ""
  reloadCmd := ""
  src := ""
  stageFile := none
  uid := 0
  keepStageFile := false
  noop := false
  store := Store.empty
  syncOnly := false

/-! ## Loading -/

/-- The processing configuration `NewTemplateResource` reads. -/
structure Config where
  keepStageFile : Bool
  noop : Bool
  keyPrefix : String
  syncOnly : Bool
  templateDir : String

/-- The `[template]` table of a resource file as `toml.DecodeFS` leaves it: `uid` and `gid`
are `-1` when the file does not set them. -/
structure Descriptor where
  checkCmd : String
  dest : String
  gid : Int
  group : String
  keys : List String
  mode : String
  owner : String
  keyPrefix : String
  reloadCmd : String
  src : String
  uid : Int

/-- `strconv.Atoi`. -/
def atoi (s : String) : Except Error Int :=
  match s.toInt? with
  | some n => .ok n
  | none => .error (.new ("strconv.Atoi: parsing " ++ s.quote ++ ": invalid syntax"))

/-- `NewTemplateResource` after decoding: the prefix from the configuration when it sets one,
led by a slash; a template source required; `uid`/`gid` from the owner and group names when
unset and named (`user.Lookup` and `user.LookupGroup` give their ids as strings), else the
process's effective ids; the source joined under the template directory. -/
def newTemplateResource (config : Config) (d : Descriptor)
    (lookupOwner lookupGroup : String → Except Error String) (euid egid : Int) :
    Except Error TemplateResource := do
  let keyPrefix := if config.keyPrefix ≠ "" then config.keyPrefix else d.keyPrefix
  let keyPrefix := if Strings.hasPrefix keyPrefix "/" then keyPrefix else "/" ++ keyPrefix
  if d.src = "" then throw (.new "empty src template")
  let uid ←
    if d.uid = -1 then
      if d.owner ≠ "" then
        match lookupOwner d.owner with
        | .error err => throw (.new ("Cannot find owner's UID - " ++ err.msg))
        | .ok u =>
          match atoi u with
          | .error err => throw (.new ("Cannot convert string to int - " ++ err.msg))
          | .ok n => pure n
      else pure euid
    else pure d.uid
  let gid ←
    if d.gid = -1 then
      if d.group ≠ "" then
        match lookupGroup d.group with
        | .error err => throw (.new ("Cannot find group's GID - " ++ err.msg))
        | .ok g =>
          match atoi g with
          | .error err => throw (.new ("Cannot convert string to int - " ++ err.msg))
          | .ok n => pure n
      else pure egid
    else pure d.gid
  return {
    checkCmd := d.checkCmd, dest := d.dest, fileMode := 0, gid := gid, keys := d.keys,
    mode := d.mode, keyPrefix := keyPrefix, reloadCmd := d.reloadCmd,
    src := Path.join config.templateDir d.src, stageFile := none, uid := uid,
    keepStageFile := config.keepStageFile, noop := config.noop, store := Store.empty,
    syncOnly := config.syncOnly }

/-! ## The cycle -/

/-- `setFileMode`: the configured mode parsed (base from its prefix, 32 bits), else the mode of
an existing `Dest`, else `0644`. -/
def setFileMode (t : TemplateResource) : Prog (Except Error TemplateResource) := do
  if t.mode = "" then
    if !(← isFileExist t.dest) then
      return .ok { t with fileMode := 0o644 }
    else
      match ← stat t.dest with
      | .error err => return .error err
      | .ok fi => return .ok { t with fileMode := fi.mode }
  else
    match Strconv.parseUint t.mode 32 with
    | .error msg => return .error (.new msg)
    | .ok mode => return .ok { t with fileMode := mode }

/-- The store key `setVars` files a backend key under: the prefix stripped, re-rooted at `/`. -/
def storeKey (keyPrefix k : String) : String := Path.join "/" (Strings.trimPrefix k keyPrefix)

/-- The store after `Purge` and one `Set(storeKey k, v)` per returned pair, in the order the
map is ranged over. -/
def Store.refill (keyPrefix : String) (result : List (String × String)) : Store :=
  result.foldl (fun s kv => s.set (storeKey keyPrefix kv.1) kv.2) Store.empty

/-- `storeClient.GetValues(keys)`. -/
def getValues (keys : List String) : Prog (Except Error (List (String × String))) :=
  .call (.getValues keys) .pure

/-- `setVars`: fetch the prefixed keys; on success purge the store and set every returned
pair. A failed fetch leaves the store as it was. -/
def setVars (t : TemplateResource) : Prog (Except Error TemplateResource) := do
  match ← getValues (appendPrefix t.keyPrefix t.keys) with
  | .error err => return .error err
  | .ok result => return .ok { t with store := Store.refill t.keyPrefix result }

/-- `readFileFS` and the loop of `parseFiles`: each file read through `IOFS` and parsed under
its base name. -/
def parseFiles (rt : Runtime) : List String → Prog (Except Error (List (String × Bytes)))
  | [] => return .ok []
  | filename :: rest => do
    match ← ioReadFile filename with
    | .error err => return .error err
    | .ok data =>
      match rt.parse (Path.base filename) data with
      | some msg => return .error (.new msg)
      | none => do
        match ← parseFiles rt rest with
        | .error err => return .error err
        | .ok templates => return .ok ((Path.base filename, data) :: templates)

/-- `ParseFS(afero.NewIOFS(fs), pattern)`: the files `IOFS.Glob` finds for the pattern, none
being an error, parsed. -/
def parseFS (rt : Runtime) (pattern : String) : Prog (Except Error (List (String × Bytes))) := do
  match ← ioGlob pattern with
  | .error err => return .error err
  | .ok [] => return .error (.new ("template: pattern matches no files: `" ++ pattern ++ "`"))
  | .ok filenames => parseFiles rt filenames

/-- `Template.Execute` into the file opened at `name`: each piece is one `Write`, whose count
is not looked at; a failed write stops execution with its error, and an execution error
stops it after the pieces before it. -/
def executeInto (name : String) : List Bytes → Option String → Prog (Option Error)
  | [], err => return err.map Error.new
  | piece :: rest, err => do
    match (← write name piece).2 with
    | some werr => return some werr
    | none => executeInto name rest err

/-- `CreateStageFile`: check the template exists, compile it, create the staged file in
`Dest`'s directory, render into it (removing it if rendering fails), then give it the
resolved mode and owner, whose errors are dropped. -/
def createStageFile (rt : Runtime) (t : TemplateResource) : Prog (Except Error TemplateResource) := do
  if !(← isFileExist t.src) then return .error (.new ("Missing template: " ++ t.src))
  else
    match ← parseFS rt t.src with
    | .error err => return .error (.new ("Unable to process template " ++ t.src ++ ", " ++ err.msg))
    | .ok templates =>
      match ← tempFile (Path.dir t.dest) ("." ++ Path.base t.dest) with
      | .error err => return .error err
      | .ok temp =>
        let (pieces, execErr) := rt.execute templates (Path.base t.src) t.store
        match ← executeInto temp pieces execErr with
        | some err =>
          ignore (close temp)
          ignore (remove temp)
          return .error err
        | none =>
          Prog.withDefer
            (do
              ignore (chmod temp t.fileMode)
              ignore (chown temp t.uid t.gid)
              return .ok { t with stageFile := some temp })
            (ignore (close temp))

/-- The shell command the pipeline runs (`/bin/sh -c cmd`), its failure as an error. -/
def runCommand (cmd : String) : Prog (Option Error) := .call (.runCommand cmd) .pure

/-- `check`: the check command with `.src` the staged file, run. -/
def check (rt : Runtime) (t : TemplateResource) : Prog (Option Error) :=
  match t.stageFile with
  | none => Prog.panic nilDereference
  | some staged =>
    match rt.expandCheck t.checkCmd staged with
    | .error msg => return some (.new msg)
    | .ok cmd => runCommand cmd

/-- `reload`: the reload command, run as configured. -/
def reload (t : TemplateResource) : Prog (Option Error) := runCommand t.reloadCmd

/-- The check step of `sync`: `check` unless sync-only or no check command is set, its error
wrapped as a failed check. -/
def checkStep (rt : Runtime) (t : TemplateResource) : Prog (Option Error) :=
  if !t.syncOnly && t.checkCmd != "" then do
    match ← check rt t with
    | some err => return some (.new ("Config check failed: " ++ err.msg))
    | none => return none
  else return none

/-- The reload step of `sync`: `reload` unless sync-only or no reload command is set. -/
def reloadStep (t : TemplateResource) : Prog (Option Error) :=
  if !t.syncOnly && t.reloadCmd != "" then reload t else return none

/-- The commit step of `sync`: rename the staged file over `Dest`; when the rename fails with
"device or resource busy" (`Dest` is a mount point), read the staged file, write it over
`Dest` and then give `Dest` the resource's owner, whatever the write did. -/
def commit (t : TemplateResource) (staged : String) : Prog (Option Error) := do
  match ← rename staged t.dest with
  | none => return none
  | some err =>
    if Strings.contains err.msg "device or resource busy" then
      match ← readFile staged with
      | .error rerr => return some rerr
      | .ok contents =>
        let werr ← writeFile t.dest contents t.fileMode
        ignore (chown t.dest t.uid t.gid)
        return werr
    else return some err

/-- The body of `sync` after the staged file's name is read: diff, then nothing under noop or
when unchanged, else check, commit and reload, stopping at the first error. The diff's error
is only logged. -/
def syncBody (rt : Runtime) (t : TemplateResource) (staged : String) : Prog (Option Error) := do
  let (ok, _) ← isConfigChanged rt.md5 staged t.dest
  if t.noop then return none
  else if !ok then return none
  else
    match ← checkStep rt t with
    | some err => return some err
    | none =>
      match ← commit t staged with
      | some err => return some err
      | none => reloadStep t

/-- `sync`: the body, with the staged file's removal deferred unless it is to be kept. -/
def sync (rt : Runtime) (t : TemplateResource) : Prog (Option Error) :=
  match t.stageFile with
  | none => Prog.panic nilDereference
  | some staged =>
    if t.keepStageFile then syncBody rt t staged
    else (syncBody rt t staged).withDefer (ignore (remove staged))

/-- `process`: the four steps, stopping at the first error. -/
def process (rt : Runtime) (t : TemplateResource) : Prog (Option Error × TemplateResource) := do
  match ← setFileMode t with
  | .error err => return (some err, t)
  | .ok t =>
    match ← setVars t with
    | .error err => return (some err, t)
    | .ok t =>
      match ← createStageFile rt t with
      | .error err => return (some err, t)
      | .ok t => return (← sync rt t, t)

end Confd.Template
