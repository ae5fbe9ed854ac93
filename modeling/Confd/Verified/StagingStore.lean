import Confd.Template.Resource
import Confd.Afero.Logic

/-! # The staging store after `setVars`

`setVars` purges the store and sets `path.Join("/", strings.TrimPrefix(k, Prefix))` to the
value of each returned key `k`, in the order Go's `range` visits the map.

* `setVars_yields` says what every run of `setVars` is: one fetch, then the refilled store.
* `refill_of_injective`: when no two returned keys land on the same store key, each lands
  with its own value, the store holds no other key, and any order of the same pairs gives
  the same store (`refill_perm`). `setVars_store_exact` is that, for every run.
* `setVars_colliding_keys`: under the prefix `/app` the keys `/app/db` and `/app/db/` both land
  on `/db`, since `path.Join` cleans the trailing slash, and the one the map yields last wins.
* `setVars_unclean_prefix`: the prefix is used as written for stripping, while the keys are
  asked for in their cleaned form; with `/app//` nothing is stripped.
-/

namespace Confd.Verified.StagingStore

open Confd.Go Confd.Afero Confd.Afero.Prog Confd.Util Confd.Template

/-- Every run of `setVars`: one fetch of the prefixed keys, whose error is returned, or whose
result refills the store. -/
theorem setVars_yields {t : TemplateResource} {tr : List Event}
    {e : Ending (Except Error TemplateResource)} :
    (setVars t).Yields tr e ↔ ∃ reply : Except Error (List (String × String)),
      tr = [⟨.getValues (appendPrefix t.keyPrefix t.keys), reply⟩] ∧
      e = .returned (match reply with
        | .error err => .error err
        | .ok result => .ok { t with store := Store.refill t.keyPrefix result }) := by
  simp only [setVars, getValues, bind_eq, call_bind, yields_call]
  constructor
  · rintro ⟨reply, tr', rfl, run⟩
    cases reply <;> simp_all
  · rintro ⟨reply, rfl, rfl⟩
    exact ⟨reply, [], rfl, by cases reply <;> exact .pure _⟩

/-- Setting pairs none of which lands on `key` leaves `key` alone. -/
theorem foldl_set_of_forall_ne (keyPrefix key : String) :
    ∀ (l : List (String × String)) (s : Store), (∀ kv ∈ l, storeKey keyPrefix kv.1 ≠ key) →
      l.foldl (fun s kv => s.set (storeKey keyPrefix kv.1) kv.2) s key = s key
  | [], _, _ => rfl
  | kv :: l, s, away => by
    rw [List.foldl_cons, foldl_set_of_forall_ne keyPrefix key l _ fun kv' mem => away kv' (by simp [mem])]
    simp [Store.set, Ne.symm (away kv (by simp))]

/-- Setting pairs with distinct store keys: each key holds its own value. -/
theorem foldl_set_of_nodup (keyPrefix : String) :
    ∀ (l : List (String × String)) (s : Store), (l.map (storeKey keyPrefix ·.1)).Nodup →
      ∀ kv ∈ l, l.foldl (fun s kv => s.set (storeKey keyPrefix kv.1) kv.2) s (storeKey keyPrefix kv.1) =
        some kv.2
  | [], _, _, _, mem => absurd mem (List.not_mem_nil _)
  | kv :: l, s, distinct, kv', mem => by
    rw [List.map_cons, List.nodup_cons] at distinct
    rw [List.foldl_cons]
    rcases List.mem_cons.mp mem with rfl | mem
    · rw [foldl_set_of_forall_ne keyPrefix _ l _ fun kv'' mem'' same =>
        distinct.1 (List.mem_map.mpr ⟨kv'', mem'', same⟩)]
      simp [Store.set]
    · exact foldl_set_of_nodup keyPrefix l _ distinct.2 kv' mem

/-- A key the pairs fill came from one of them. -/
theorem foldl_set_some (keyPrefix key : String) :
    ∀ (l : List (String × String)) (s : Store),
      l.foldl (fun s kv => s.set (storeKey keyPrefix kv.1) kv.2) s key ≠ none →
        s key ≠ none ∨ ∃ kv ∈ l, storeKey keyPrefix kv.1 = key
  | [], _, filled => .inl filled
  | kv :: l, s, filled => by
    rw [List.foldl_cons] at filled
    rcases foldl_set_some keyPrefix key l _ filled with before | ⟨kv', mem, lands⟩
    · by_cases lands : storeKey keyPrefix kv.1 = key
      · exact .inr ⟨kv, List.mem_cons_self _ _, lands⟩
      · exact .inl (by simpa [Store.set, Ne.symm lands] using before)
    · exact .inr ⟨kv', List.mem_cons_of_mem _ mem, lands⟩

/-- With distinct store keys, the refilled store maps each pair's store key to its value and
holds nothing else. -/
theorem refill_of_injective {keyPrefix : String} {result : List (String × String)}
    (distinct : (result.map (storeKey keyPrefix ·.1)).Nodup) :
    (∀ kv ∈ result, Store.refill keyPrefix result (storeKey keyPrefix kv.1) = some kv.2) ∧
      ∀ key, Store.refill keyPrefix result key ≠ none → ∃ kv ∈ result, storeKey keyPrefix kv.1 = key :=
  ⟨foldl_set_of_nodup keyPrefix result _ distinct, fun key filled =>
    (foldl_set_some keyPrefix key result _ filled).resolve_left fun empty => empty rfl⟩

/-- With distinct store keys, the order the pairs come in does not matter. -/
theorem refill_perm {keyPrefix : String} {result other : List (String × String)}
    (distinct : (result.map (storeKey keyPrefix ·.1)).Nodup) (perm : other.Perm result) :
    Store.refill keyPrefix other = Store.refill keyPrefix result := by
  have distinct' : (other.map (storeKey keyPrefix ·.1)).Nodup := (perm.map _).nodup_iff.mpr distinct
  obtain ⟨filled, only⟩ := refill_of_injective distinct
  obtain ⟨filled', only'⟩ := refill_of_injective distinct'
  funext key
  by_cases lands : ∃ kv ∈ result, storeKey keyPrefix kv.1 = key
  · obtain ⟨kv, mem, rfl⟩ := lands
    rw [filled kv mem, filled' kv (perm.mem_iff.mpr mem)]
  · have absent : Store.refill keyPrefix result key = none := by
      by_contra present; exact lands (only key present)
    have absent' : Store.refill keyPrefix other key = none := by
      by_contra present
      obtain ⟨kv, mem, same⟩ := only' key present
      exact lands ⟨kv, perm.mem_iff.mp mem, same⟩
    rw [absent, absent']

/-- Under the prefix `/app`, the returned keys `/app/db` and `/app/db/` differ, but `path.Join`
cleans both to the store key `/db`: the value the map yields last wins, and the other order
keeps the other value, so the store depends on the map's order. -/
theorem setVars_colliding_keys :
    appendPrefix "/app" ["db"] = ["/app/db"] ∧ storeKey "/app" "/app/db" = "/db" ∧ storeKey "/app" "/app/db/" = "/db" ∧
      (setVars { TemplateResource.zero with keyPrefix := "/app", keys := ["db"] }).Yields
        [⟨.getValues ["/app/db"], .ok [("/app/db", "x"), ("/app/db/", "y")]⟩]
        (.returned (.ok { TemplateResource.zero with
          keyPrefix := "/app", keys := ["db"], store := Store.refill "/app" [("/app/db", "x"), ("/app/db/", "y")] })) ∧
      Store.refill "/app" [("/app/db", "x"), ("/app/db/", "y")] "/db" = some "y" ∧
      Store.refill "/app" [("/app/db/", "y"), ("/app/db", "x")] "/db" = some "x" :=
  ⟨by decide, by decide, by decide, setVars_yields.mpr ⟨_, rfl, rfl⟩, by decide, by decide⟩

/-- A successful `setVars` whose returned keys land on distinct store keys: each lands with its
own value, the store holds nothing else, and the same pairs in any other order give the same
resource. -/
theorem setVars_store_exact {t t' : TemplateResource} {result : List (String × String)}
    (run : (setVars t).Yields [⟨.getValues (appendPrefix t.keyPrefix t.keys), .ok result⟩]
      (.returned (.ok t')))
    (distinct : (result.map (storeKey t.keyPrefix ·.1)).Nodup) :
    (∀ kv ∈ result, t'.store (storeKey t.keyPrefix kv.1) = some kv.2) ∧
      (∀ key, t'.store key ≠ none → ∃ kv ∈ result, storeKey t.keyPrefix kv.1 = key) ∧
      ∀ other : List (String × String), other.Perm result →
        (setVars t).Yields [⟨.getValues (appendPrefix t.keyPrefix t.keys), .ok other⟩]
          (.returned (.ok t')) := by
  obtain ⟨_, traced, ended⟩ := setVars_yields.mp run
  cases traced
  cases ended
  refine ⟨(refill_of_injective distinct).1, (refill_of_injective distinct).2, fun other perm => ?_⟩
  rw [← refill_perm distinct perm]
  exact setVars_yields.mpr ⟨_, rfl, rfl⟩

/-- The resource asking for `db` and `port` under `/app`. -/
def pairKeys : TemplateResource := { TemplateResource.zero with keyPrefix := "/app", keys := ["db", "port"] }

/-- The two values land on `/db` and `/port`, and the backend listing them the other way round
fills the same store. -/
theorem setVars_store_exact_pair :
    appendPrefix pairKeys.keyPrefix pairKeys.keys = ["/app/db", "/app/port"] ∧
      (setVars pairKeys).Yields
        [⟨.getValues (appendPrefix pairKeys.keyPrefix pairKeys.keys), .ok [("/app/db", "x"), ("/app/port", "80")]⟩]
        (.returned (.ok { pairKeys with store := Store.refill "/app" [("/app/db", "x"), ("/app/port", "80")] })) ∧
      ([("/app/db", "x"), ("/app/port", "80")].map (storeKey pairKeys.keyPrefix ·.1)).Nodup ∧
      ((∀ kv ∈ [("/app/db", "x"), ("/app/port", "80")], Store.refill "/app" [("/app/db", "x"), ("/app/port", "80")]
          (storeKey pairKeys.keyPrefix kv.1) = some kv.2) ∧
        (∀ key, Store.refill "/app" [("/app/db", "x"), ("/app/port", "80")] key ≠ none →
          ∃ kv ∈ [("/app/db", "x"), ("/app/port", "80")], storeKey pairKeys.keyPrefix kv.1 = key) ∧
        ∀ other : List (String × String), other.Perm [("/app/db", "x"), ("/app/port", "80")] →
          (setVars pairKeys).Yields [⟨.getValues (appendPrefix pairKeys.keyPrefix pairKeys.keys), .ok other⟩]
            (.returned (.ok { pairKeys with store := Store.refill "/app" [("/app/db", "x"), ("/app/port", "80")] }))) ∧
      (setVars pairKeys).Yields
        [⟨.getValues (appendPrefix pairKeys.keyPrefix pairKeys.keys), .ok [("/app/port", "80"), ("/app/db", "x")]⟩]
        (.returned (.ok { pairKeys with store := Store.refill "/app" [("/app/db", "x"), ("/app/port", "80")] })) :=
  have run : (setVars pairKeys).Yields
      [⟨.getValues (appendPrefix pairKeys.keyPrefix pairKeys.keys), .ok [("/app/db", "x"), ("/app/port", "80")]⟩]
      (.returned (.ok { pairKeys with store := Store.refill "/app" [("/app/db", "x"), ("/app/port", "80")] })) :=
    setVars_yields.mpr ⟨_, rfl, rfl⟩
  have distinct : ([("/app/db", "x"), ("/app/port", "80")].map (storeKey pairKeys.keyPrefix ·.1)).Nodup := by decide
  have exact := setVars_store_exact run distinct
  ⟨by decide, run, distinct, exact, exact.2.2 _ (.swap _ _ _)⟩

/-- The prefix `/app//`, set in the configuration, is kept as written by
`newTemplateResource`; the key asked for `db/host` under it is the cleaned `/app/db/host`, from
which `strings.TrimPrefix` strips nothing, so its value is filed under `/app/db/host` and
nothing is at `/db/host`. Likewise the key asked for `""` under `/app/` is `/app`, which stays
`/app` instead of becoming `/`. -/
theorem setVars_unclean_prefix :
    (newTemplateResource ⟨false, false, "/app//", false, "/etc/confd/templates"⟩
        ⟨"", "/etc/app.conf", -1, "", ["db/host"], "", "", "", "", "app.conf.tmpl", -1⟩
        (fun _ => .ok "0") (fun _ => .ok "0") 0 0).map (·.keyPrefix) = .ok "/app//" ∧
      appendPrefix "/app//" ["db/host"] = ["/app/db/host"] ∧
      Store.refill "/app//" [("/app/db/host", "x")] "/app/db/host" = some "x" ∧
      Store.refill "/app//" [("/app/db/host", "x")] (Path.join "/" "db/host") = none ∧
      storeKey "/app/" (Path.join "/app/" "") = "/app" ∧ Path.join "/" "" = "/" :=
  ⟨rfl, by decide, rfl, by decide, by decide, by decide⟩

end Confd.Verified.StagingStore
