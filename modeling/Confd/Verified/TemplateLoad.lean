import Confd.Verified.Totality
import Confd.Verified.Commit

/-! # Which file the template is loaded from

`CreateStageFile` checks that the file at `Src` exists with `util.IsFileExist`, which looks the
path up literally, and then loads the template with
`template.ParseFS(afero.NewIOFS(fs), Src)`, which reads `Src` as a glob pattern and reads each
match through `io/fs`, where only unrooted paths are valid. The two disagree. With the template
directory `/etc/confd/templates`, `NewTemplateResource` makes `Src` absolute, and loading fails with an invalid-path error; a template named `templates/t[1].tmpl`
is, as a pattern, a name for `templates/t1.tmpl`, and loading fails with "pattern matches no
files" (`createStageFile_src_not_loaded`).

They agree on a path with no glob metacharacter that `io/fs` accepts: `Glob` then looks the
pattern up as a name, and `ParseFS` reads that one file (`parseFS_literal`), so the staged file
holds the rendering of exactly the file the existence check saw (`createStageFile_renders_src`).
On a path with no metacharacter that `io/fs` refuses, it loads nothing; so on any such path it
loads the file at the path or nothing (`parseFS_plain`).
-/

namespace Confd.Verified.TemplateLoad

open Confd.Go Confd.Afero Confd.Afero.Prog Confd.Util Confd.Template Confd.Verified.Totality
  Confd.Verified.Footprint Confd.Verified.Commit

/-- An OS filesystem holding the template `/etc/confd/templates/app.tmpl`. -/
def absoluteFs : Fs where
  files p := if p = "/etc/confd/templates/app.tmpl" then some ⟨[2], 0o644, 0, 0⟩ else none
  euid := 0
  egid := 0
  statT := true

/-- An OS filesystem holding the directory `templates` and, in it, the template
`t[1].tmpl`. -/
def globFs : Fs where
  files p :=
    if p = "templates/t[1].tmpl" then some ⟨[2], 0o644, 0, 0⟩
    else if p = "templates" then some ⟨[], modeDir + 0o755, 0, 0⟩
    else none
  euid := 0
  egid := 0
  statT := true

/-- `templates` lists exactly `t[1].tmpl`. -/
theorem listed_templates : Listed globFs "templates" ["t[1].tmpl"] := by
  refine ⟨by decide, fun n => ⟨fun mem => ?_, fun ⟨plain, present⟩ => ?_⟩⟩
  · obtain rfl := List.mem_singleton.mp mem
    exact ⟨by decide, by decide⟩
  · have base : Path.base (Path.join "templates" n) = n := Path.base_join (by decide) plain
    simp only [globFs] at present
    split at present
    · rename_i file
      rw [file] at base
      exact List.mem_singleton.mpr (by rw [← base]; decide)
    · split at present
      · rename_i directory
        rw [directory] at base
        subst base
        exact absurd directory (by decide)
      · exact absurd rfl present

/-- `CreateStageFile` fails to load a template whose existence it has just checked: on
`absoluteFs` the template directory `/etc/confd/templates` makes `Src` absolute, which `io/fs`
refuses; on `globFs` the name `templates/t[1].tmpl` is read as a pattern that matches no file.
In both runs every call succeeds and the template parses. -/
theorem createStageFile_src_not_loaded :
    ((newTemplateResource ⟨false, false, "", false, "/etc/confd/templates"⟩
        ⟨"", "/etc/app.conf", -1, "", [], "", "", "", "", "app.tmpl", -1⟩
        (fun _ => .ok "0") (fun _ => .ok "0") 0 0).map (·.src) = .ok "/etc/confd/templates/app.tmpl" ∧
      ∃ tr, Admissible absoluteFs tr ∧
        (createStageFile byteRuntime { appResource with src := "/etc/confd/templates/app.tmpl" }).Yields tr
          (.returned (.error (.new ("Unable to process template /etc/confd/templates/app.tmpl, " ++
            "readfile /etc/confd/templates/app.tmpl: invalid argument"))))) ∧
    ∃ tr, Admissible globFs tr ∧
      (createStageFile byteRuntime { appResource with src := "templates/t[1].tmpl" }).Yields tr
        (.returned (.error (.new ("Unable to process template templates/t[1].tmpl, " ++
          "template: pattern matches no files: `templates/t[1].tmpl`")))) := by
  refine ⟨⟨rfl, _, exec_admissible (respond_allowed quietEnv) _ absoluteFs, exec_yields_of rfl⟩, ?_⟩
  refine ⟨[⟨.stat "templates/t[1].tmpl", .ok ⟨0o644, some (0, 0)⟩⟩,
    ⟨.stat "templates", .ok ⟨modeDir + 0o755, some (0, 0)⟩⟩, ⟨.openFile "templates" .rdOnly 0, none⟩,
    ⟨.readDirNames "templates", (["t[1].tmpl"], none)⟩, ⟨.close "templates", none⟩],
    ⟨⟨_, rfl, rfl⟩, ⟨_, rfl, rfl⟩, (by decide : globFs.files "templates" ≠ none), listed_templates,
      trivial, trivial⟩, ?_⟩
  exact @exec_yields_of _
    (fun fs c => match c with
      | .readDirNames _ => ((["t[1].tmpl"], none) : List String × Option Error)
      | c => fs.respond quietEnv c)
    (createStageFile byteRuntime { appResource with src := "templates/t[1].tmpl" }) globFs _ rfl

/-! ## Paths the loader reads literally -/

/-- For a path with no glob metacharacter that `io/fs` accepts, `ParseFS` changes nothing and
loads the file at the path, under its base name, or nothing. -/
theorem parseFS_literal {P : Event → Prop} (rt : Runtime) {src : String} (plain : hasMeta src = false)
    (valid : Path.validPath src = true) (fs : Fs) :
    (parseFS rt src).Ensures P (fun fs' res => fs' = fs ∧ ∀ templates, res = .ok templates →
      ∃ f, fs.files src = some f ∧ templates = [(Path.base src, f.content)]) fs := by
  unfold parseFS ioGlob
  split
  · simp
  · -- `Glob`'s fast path: a `Stat` of the pattern
    rw [glob, if_pos (by simp [plain])]
    refine ensures_bind (ensures_bind (ensures_call_of_written_nil rfl fun r _ _ => ?_))
    cases r with
    | error _ => simp
    | ok _ =>
      simp only [pure_eq, pure_bind', ensures_pure]
      unfold parseFiles ioReadFile
      rw [if_neg (by simp [valid])]
      refine ensures_bind (ensures_bind ((readFile_ensures src fs).mono fun fs' res ⟨same, data⟩ => ?_))
      subst same
      cases res with
      | error _ => simp
      | ok d =>
        obtain ⟨f, present, rfl⟩ := data _ rfl
        simp only [pure_eq, ensures_pure]
        split
        · simp
        · simp [parseFiles, present]

/-- What `ParseFS` of a path with no glob metacharacter loads: the file at the path, under its
base name. -/
def LoadsSrc (src : String) (fs : Fs) (templates : List (String × Bytes)) : Prop :=
  ∃ f, fs.files src = some f ∧ templates = [(Path.base src, f.content)]

/-- For a path with no glob metacharacter, `ParseFS` changes nothing and loads the file at the
path or nothing: a path `io/fs` refuses is matched by `Glob` but not read. -/
theorem parseFS_plain {P : Event → Prop} (rt : Runtime) {src : String} (plain : hasMeta src = false) (fs : Fs) :
    (parseFS rt src).Ensures P
      (fun fs' res => fs' = fs ∧ ∀ templates, res = .ok templates → LoadsSrc src fs templates) fs := by
  by_cases valid : Path.validPath src = true
  · exact parseFS_literal rt plain valid fs
  · unfold parseFS ioGlob
    split
    · simp
    · rw [glob, if_pos (by simp [plain])]
      refine ensures_bind (ensures_bind (ensures_call_of_written_nil rfl fun r _ _ => ?_))
      cases r <;> simp [parseFiles, ioReadFile, valid]

/-- For a template path with no glob metacharacter that `io/fs` accepts, the staged file a
successful `CreateStageFile` leaves holds the complete rendering of the file at `Src`, as the
filesystem held it. -/
theorem createStageFile_renders_src {rt : Runtime} {t t' : TemplateResource} {fs : Fs} {tr : List Event}
    (plain : hasMeta t.src = false) (valid : Path.validPath t.src = true)
    (run : (createStageFile rt t).Yields tr (.returned (.ok t'))) (admissible : Admissible fs tr) :
    ∃ f temp, fs.files t.src = some f ∧ t'.stageFile = some temp ∧
      (rt.execute [(Path.base t.src, f.content)] (Path.base t.src) t.store).2 = none ∧
      ((fs.replay tr).files temp).map FileEntry.content =
        some (rt.execute [(Path.base t.src, f.content)] (Path.base t.src) t.store).1.flatten := by
  obtain ⟨temp, _, ⟨f, present, rfl⟩, stage, complete, content⟩ :=
    (createStageFile_loads (P := fun _ => True) rt t fs (parseFS_literal rt plain valid fs)).yields run admissible
      (fun _ _ => trivial) t' rfl
  obtain ⟨_, -, rfl⟩ := (createStageFile_returns rt t).yields run t' rfl
  exact ⟨f, temp, present, stage, complete, content⟩

/-- `CreateStageFile` of `app.tmpl` for `/etc/app.conf` on `memFs`, every call succeeding. -/
def stagedApp : Ending (Except Error TemplateResource) × List Event :=
  (createStageFile byteRuntime appResource).exec (Fs.respond quietEnv) memFs

theorem createStageFile_renders_src_app :
    hasMeta appResource.src = false ∧ Path.validPath appResource.src = true ∧
      (createStageFile byteRuntime appResource).Yields stagedApp.2 (.returned (.ok { appResource with
        stageFile := some (tempName (Path.dir appResource.dest) ("." ++ Path.base appResource.dest) 0) })) ∧
      Admissible memFs stagedApp.2 ∧
      ∃ f temp, memFs.files appResource.src = some f ∧
        some (tempName (Path.dir appResource.dest) ("." ++ Path.base appResource.dest) 0) = some temp ∧
        (byteRuntime.execute [(Path.base appResource.src, f.content)] (Path.base appResource.src)
          appResource.store).2 = none ∧
        ((memFs.replay stagedApp.2).files temp).map FileEntry.content =
          some (byteRuntime.execute [(Path.base appResource.src, f.content)] (Path.base appResource.src)
            appResource.store).1.flatten :=
  have plain : hasMeta appResource.src = false := rfl
  have valid : Path.validPath appResource.src = true := rfl
  have run : (createStageFile byteRuntime appResource).Yields stagedApp.2 (.returned (.ok { appResource with
      stageFile := some (tempName (Path.dir appResource.dest) ("." ++ Path.base appResource.dest) 0) })) :=
    exec_yields_of rfl
  have admissible := exec_admissible (respond_allowed quietEnv) (createStageFile byteRuntime appResource) memFs
  ⟨plain, valid, run, admissible, createStageFile_renders_src plain valid run admissible⟩

end Confd.Verified.TemplateLoad
