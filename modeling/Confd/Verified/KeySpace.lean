import Confd.Go.Clean
import Confd.Verified.StagingStore

/-! # The store's key space

`setVars` asks the backend for `path.Join(Prefix, r)` for each configured key `r`
(`AppendPrefix`) and files each returned key `k` under `path.Join("/", strings.TrimPrefix(k,
Prefix))` (`storeKey`).

* `storeKey_canonical`: every store key is rooted and clean, whatever the prefix and the key:
  the `path.Join` that builds it cleans it, and `Clean` is idempotent.
* `storeKey_join`: under a clean rooted prefix, stripping the prefix undoes the join that made
  the key, for every `r` with no `..`: the key comes back as `path.Join("/", r)`.
* `setVars_relative_exact`: so under such a prefix a reply for keys below it fills the store
  with exactly their relative names, and nothing else. Under an unclean prefix the two sides
  disagree, as the staging-store module shows.
* `newTemplateResource_keyPrefix`: `NewTemplateResource` leads the configured prefix with a
  slash but does not clean it; the prefix is clean when it was configured clean.
-/

namespace Confd.Verified.KeySpace

open Confd.Go Confd.Afero Confd.Util Confd.Template Confd.Verified.StagingStore

theorem trimPrefix_of_data {s pre : String} {rest : List Char} (split : s.data = pre.data ++ rest) :
    Strings.trimPrefix s pre = ⟨rest⟩ := by
  have isPrefix : Strings.hasPrefix s pre = true := by
    rw [Strings.hasPrefix, split, List.isPrefixOf_iff_prefix]
    exact List.prefix_append _ _
  rw [Strings.trimPrefix, if_pos isPrefix, split]
  exact congrArg String.mk (List.drop_left' rfl)

/-- Every store key is a rooted path that `path.Clean` leaves as it is. -/
theorem storeKey_canonical (keyPrefix k : String) :
    Path.clean (storeKey keyPrefix k) = storeKey keyPrefix k ∧ (storeKey keyPrefix k).data.head? = some '/' := by
  have built : (storeKey keyPrefix k).data = Path.cleanChars ('/' :: '/' :: (Strings.trimPrefix k keyPrefix).data) :=
    Path.joinChars_root_eq _
  refine ⟨String.ext ?_, ?_⟩
  · show Path.cleanChars (storeKey keyPrefix k).data = _
    rw [built, Path.cleanChars_cleanChars]
  · rw [built]
    exact Path.head_cleanChars_slash _

/-- Under a clean rooted prefix, a key asked for as `path.Join(Prefix, r)`, `r` with no `..`
element, is filed under `path.Join("/", r)`. -/
theorem storeKey_join {keyPrefix r : String} (clean : Path.clean keyPrefix = keyPrefix)
    (rooted : keyPrefix.data.head? = some '/') (noDotDot : ∀ e ∈ Path.elements r.data, e ≠ ['.', '.']) :
    storeKey keyPrefix (Path.join keyPrefix r) = Path.join "/" r := by
  obtain ⟨ps, plain, written⟩ := Path.plain_of_clean_rooted (congrArg String.data clean) rooted
  have plainRest : ∀ e ∈ Path.plainElements r.data, Path.Plain e := fun e mem =>
    of_decide_eq_true (List.mem_filter.mp mem).2
  obtain ⟨rest, split, underRoot⟩ := Path.joinElements_append_plain plain plainRest
  have joined : (Path.join keyPrefix r).data = keyPrefix.data ++ rest := by
    show Path.joinChars keyPrefix.data r.data = _
    rw [written, Path.joinChars_rooted plain noDotDot, split]
    rfl
  rw [storeKey, trimPrefix_of_data joined]
  show String.mk (Path.joinChars ['/'] rest) = String.mk (Path.joinChars ['/'] r.data)
  rw [underRoot, Path.joinChars_root noDotDot]

/-- Under a clean rooted prefix, a successful `setVars` whose reply holds keys
`path.Join(Prefix, r)`, each `r` with no `..` and no two with the same `path.Join("/", r)`, maps
each `path.Join("/", r)` to its value and holds no other key. -/
theorem setVars_relative_exact {t t' : TemplateResource} {rs : List (String × String)}
    (clean : Path.clean t.keyPrefix = t.keyPrefix) (rooted : t.keyPrefix.data.head? = some '/')
    (relative : ∀ rv ∈ rs, ∀ e ∈ Path.elements rv.1.data, e ≠ ['.', '.'])
    (distinct : (rs.map (Path.join "/" ·.1)).Nodup)
    (run : (setVars t).Yields [⟨.getValues (appendPrefix t.keyPrefix t.keys),
      .ok (rs.map fun rv => (Path.join t.keyPrefix rv.1, rv.2))⟩] (.returned (.ok t'))) :
    (∀ rv ∈ rs, t'.store (Path.join "/" rv.1) = some rv.2) ∧
      ∀ key, t'.store key ≠ none → ∃ rv ∈ rs, Path.join "/" rv.1 = key := by
  obtain ⟨_, same, ended⟩ := setVars_yields.mp run
  cases List.cons.inj same |>.1
  cases ended
  have relativised : ∀ rv ∈ rs, storeKey t.keyPrefix (Path.join t.keyPrefix rv.1) = Path.join "/" rv.1 :=
    fun rv mem => storeKey_join clean rooted (relative rv mem)
  have keys : (rs.map fun rv => (Path.join t.keyPrefix rv.1, rv.2)).map (storeKey t.keyPrefix ·.1) =
      rs.map (Path.join "/" ·.1) := by
    simp only [List.map_map]
    exact List.map_congr_left fun rv mem => relativised rv mem
  have distinct' : ((rs.map fun rv => (Path.join t.keyPrefix rv.1, rv.2)).map (storeKey t.keyPrefix ·.1)).Nodup :=
    keys ▸ distinct
  obtain ⟨filled, only⟩ := refill_of_injective distinct'
  refine ⟨fun rv mem => ?_, fun key present => ?_⟩
  · have landed := filled (Path.join t.keyPrefix rv.1, rv.2) (List.mem_map_of_mem _ mem)
    rwa [relativised rv mem] at landed
  · obtain ⟨_, returned, rfl⟩ := only key present
    obtain ⟨rv, mem, rfl⟩ := List.mem_map.mp returned
    exact ⟨rv, mem, (relativised rv mem).symm⟩

/-! ## The prefix a resource is loaded with -/

/-- The resource `NewTemplateResource` builds: the descriptor's fields, the prefix led by a slash,
the source under the template directory, no resolved mode, an empty store and no staged file. -/
theorem newTemplateResource_ok {config : Config} {d : Descriptor}
    {lookupOwner lookupGroup : String → Except Error String} {euid egid : Int} {t : TemplateResource}
    (built : newTemplateResource config d lookupOwner lookupGroup euid egid = .ok t) :
    d.src ≠ "" ∧ ∃ uid gid, t =
      { checkCmd := d.checkCmd, dest := d.dest, fileMode := 0, gid := gid, keys := d.keys, mode := d.mode,
        keyPrefix := if Strings.hasPrefix (if config.keyPrefix ≠ "" then config.keyPrefix else d.keyPrefix) "/" then
            if config.keyPrefix ≠ "" then config.keyPrefix else d.keyPrefix
          else "/" ++ if config.keyPrefix ≠ "" then config.keyPrefix else d.keyPrefix,
        reloadCmd := d.reloadCmd, src := Path.join config.templateDir d.src, stageFile := none, uid := uid,
        keepStageFile := config.keepStageFile, noop := config.noop, store := Store.empty, syncOnly := config.syncOnly } := by
  unfold newTemplateResource at built
  simp only [bind, Except.bind, pure, Except.pure] at built
  by_cases named : d.src = ""
  · rw [if_pos named] at built
    cases built
  refine ⟨named, ?_⟩
  rw [if_neg named] at built
  generalize (if Strings.hasPrefix (if config.keyPrefix ≠ "" then config.keyPrefix else d.keyPrefix) "/" then
      if config.keyPrefix ≠ "" then config.keyPrefix else d.keyPrefix
    else "/" ++ if config.keyPrefix ≠ "" then config.keyPrefix else d.keyPrefix) = keyPrefix at built ⊢
  -- the owner and the group: looked up, converted or defaulted; every failure is an error
  repeat' split at built
  all_goals first | exact ⟨_, _, (Except.ok.inj built).symm⟩ | cases built

theorem data_of_hasPrefix_slash {p : String} (rooted : Strings.hasPrefix p "/" = true) :
    ∃ rest, p.data = '/' :: rest := by
  obtain ⟨_ | ⟨c, rest⟩⟩ := p
  · cases rooted
  · simp only [Strings.hasPrefix, List.isPrefixOf, beq_iff_eq, Bool.and_true] at rooted
    exact ⟨rest, by rw [← rooted]⟩

/-- `NewTemplateResource` leads the prefix with a slash but does not clean it; the prefix is
clean when the one configured is written clean: empty, relative with plain elements only, or
rooted and clean. -/
theorem newTemplateResource_keyPrefix {config : Config} {d : Descriptor}
    {lookupOwner lookupGroup : String → Except Error String} {euid egid : Int} {t : TemplateResource} {p : String}
    (built : newTemplateResource config d lookupOwner lookupGroup euid egid = .ok t)
    (chosen : (if config.keyPrefix ≠ "" then config.keyPrefix else d.keyPrefix) = p)
    (written : p = "" ∨ (∀ e ∈ Path.elements p.data, Path.Plain e) ∨ (Path.clean p = p ∧ p.data.head? = some '/')) :
    Path.clean t.keyPrefix = t.keyPrefix ∧ t.keyPrefix.data.head? = some '/' := by
  obtain ⟨-, _, _, rfl⟩ := newTemplateResource_ok built
  simp only [chosen]
  by_cases rootedP : Strings.hasPrefix p "/" = true
  · obtain ⟨rest, slash⟩ := data_of_hasPrefix_slash rootedP
    simp only [rootedP, if_true]
    rcases written with rfl | plain | canonical
    · cases rootedP
    · have first := plain [] (by simp [slash, Path.elements])
      exact absurd rfl first.1
    · exact canonical
  · simp only [rootedP, if_false, Bool.false_eq_true]
    have data : ("/" ++ p).data = '/' :: p.data := rfl
    refine ⟨String.ext ?_, by rw [data]; rfl⟩
    show Path.cleanChars ("/" ++ p).data = _
    rw [data]
    rcases written with rfl | plain | ⟨-, rooted⟩
    · rfl
    · have noDotDot : ∀ e ∈ Path.elements p.data, e ≠ ['.', '.'] := fun e mem => (plain e mem).2.2.2
      rw [Path.cleanChars_slash noDotDot, Path.plainElements,
        List.filter_eq_self.mpr fun e mem => decide_eq_true (plain e mem), Path.joinElements_elements]
    · obtain ⟨_ | ⟨c, rest⟩⟩ := p
      · cases rooted
      · cases rooted
        exact absurd (by simp [Strings.hasPrefix, List.isPrefixOf]) rootedP

/-- A configuration with the prefix `app/db` and its resource file. -/
def appDbConfig : Config := ⟨false, false, "app/db", false, "/etc/confd/templates"⟩

def appDbDescriptor : Descriptor := ⟨"", "/etc/app.conf", 0, "", ["host"], "", "", "", "", "app.tmpl", 0⟩

/-- What `NewTemplateResource` loads from them. -/
def appDbResource : TemplateResource :=
  { TemplateResource.zero with
    dest := "/etc/app.conf", keys := ["host"], keyPrefix := "/app/db", src := Path.join "/etc/confd/templates" "app.tmpl" }

theorem newTemplateResource_keyPrefix_app_db :
    newTemplateResource appDbConfig appDbDescriptor (fun _ => .ok "0") (fun _ => .ok "0") 0 0 = .ok appDbResource ∧
      (if appDbConfig.keyPrefix ≠ "" then appDbConfig.keyPrefix else appDbDescriptor.keyPrefix) = "app/db" ∧
      (∀ e ∈ Path.elements "app/db".data, Path.Plain e) ∧
      Path.clean appDbResource.keyPrefix = appDbResource.keyPrefix ∧ appDbResource.keyPrefix.data.head? = some '/' :=
  have built : newTemplateResource appDbConfig appDbDescriptor (fun _ => .ok "0") (fun _ => .ok "0") 0 0 =
      .ok appDbResource := rfl
  have chosen : (if appDbConfig.keyPrefix ≠ "" then appDbConfig.keyPrefix else appDbDescriptor.keyPrefix) = "app/db" :=
    rfl
  have plain : ∀ e ∈ Path.elements "app/db".data, Path.Plain e := by decide
  ⟨built, chosen, plain, newTemplateResource_keyPrefix built chosen (.inr (.inl plain))⟩

/-- A resource under the prefix `/app`, asking for `db`. -/
def appKeys : TemplateResource := { TemplateResource.zero with keyPrefix := "/app", keys := ["db"] }

/-- The backend's reply below `/app/db`, by relative name. -/
def appReply : List (String × String) := [("db/host", "x"), ("db/port", "y")]

/-- Under `/app`, the reply for `db/host` and `db/port` fills `/db/host` and `/db/port`. -/
theorem setVars_relative_exact_app :
    Path.clean appKeys.keyPrefix = appKeys.keyPrefix ∧ appKeys.keyPrefix.data.head? = some '/' ∧
      (∀ rv ∈ appReply, ∀ e ∈ Path.elements rv.1.data, e ≠ ['.', '.']) ∧
      (appReply.map (Path.join "/" ·.1)).Nodup ∧
      (setVars appKeys).Yields [⟨.getValues (appendPrefix appKeys.keyPrefix appKeys.keys),
          .ok (appReply.map fun rv => (Path.join appKeys.keyPrefix rv.1, rv.2))⟩]
        (.returned (.ok { appKeys with
          store := Store.refill appKeys.keyPrefix (appReply.map fun rv => (Path.join appKeys.keyPrefix rv.1, rv.2)) })) ∧
      ((∀ rv ∈ appReply, Store.refill appKeys.keyPrefix
          (appReply.map fun rv => (Path.join appKeys.keyPrefix rv.1, rv.2)) (Path.join "/" rv.1) = some rv.2) ∧
        ∀ key, Store.refill appKeys.keyPrefix
            (appReply.map fun rv => (Path.join appKeys.keyPrefix rv.1, rv.2)) key ≠ none →
          ∃ rv ∈ appReply, Path.join "/" rv.1 = key) :=
  have clean : Path.clean appKeys.keyPrefix = appKeys.keyPrefix := by decide
  have relative : ∀ rv ∈ appReply, ∀ e ∈ Path.elements rv.1.data, e ≠ ['.', '.'] := by decide
  have distinct : (appReply.map (Path.join "/" ·.1)).Nodup := by decide
  have run := setVars_yields.mpr ⟨_, rfl, rfl⟩
  ⟨clean, rfl, relative, distinct, run, setVars_relative_exact clean rfl relative distinct run⟩

end Confd.Verified.KeySpace
