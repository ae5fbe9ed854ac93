import Confd.Go.Stdlib

/-! # `path.Clean` computes a canonical form

`Clean` scans a path's elements once and keeps a stack of the elements that survive
(`cleanStep`). What that stack can hold is `Kept`: plain elements, and `..` only beneath other
`..`s of a path that is not rooted. Folding `cleanStep` over elements already in that form
pushes each of them (`foldl_cleanStep_of_kept`), and splitting slash-free elements joined with
slashes gives them back (`elements_joinElements`). So `Clean` leaves its own output as it is
(`cleanChars_cleanChars`).

The canonical paths the pipeline builds follow: a clean rooted path is `/` and plain elements
(`plain_of_clean_rooted`), and joining plain elements under a rooted path appends them
(`joinChars_rooted`).
-/

namespace Confd.Go.Path

/-! ## Splitting and joining elements -/

/-- A slash splits a path's elements in two. -/
theorem elements_append_cons_slash (y : List Char) :
    ∀ x, elements (x ++ '/' :: y) = elements x ++ elements y
  | [] => by simp [elements]
  | c :: x => by
    have split := elements_append_cons_slash y x
    by_cases slash : c = '/'
    · simp [elements, slash, split]
    · obtain ⟨e, es, rest⟩ := List.exists_cons_of_ne_nil (elements_ne_nil x)
      simp [elements, slash, split, rest]

theorem elements_noSlash : ∀ p, ∀ e ∈ elements p, '/' ∉ e
  | [] => by simp [elements]
  | c :: cs => by
    have rest := elements_noSlash cs
    obtain ⟨e, es, split⟩ := List.exists_cons_of_ne_nil (elements_ne_nil cs)
    by_cases slash : c = '/'
    · simpa [elements, slash] using rest
    · rw [split] at rest
      simp only [List.mem_cons, forall_eq_or_imp] at rest
      simpa [elements, slash, split, Ne.symm slash] using rest

theorem joinElements_cons {e : List Char} {es : List (List Char)} (nonEmpty : es ≠ []) :
    joinElements (e :: es) = e ++ '/' :: joinElements es := by
  obtain ⟨e', es', rfl⟩ := List.exists_cons_of_ne_nil nonEmpty
  rfl

theorem joinElements_append {ps rs : List (List Char)} (left : ps ≠ []) (right : rs ≠ []) :
    joinElements (ps ++ rs) = joinElements ps ++ '/' :: joinElements rs := by
  induction ps with
  | nil => exact absurd rfl left
  | cons p ps inductionHypothesis =>
    by_cases empty : ps = []
    · subst empty
      exact joinElements_cons right
    · rw [List.cons_append, joinElements_cons (by simp [empty]), inductionHypothesis empty,
        joinElements_cons empty, List.append_assoc, List.cons_append]

/-- Splitting slash-free elements joined with slashes gives them back. -/
theorem elements_joinElements :
    ∀ {es : List (List Char)}, es ≠ [] → (∀ e ∈ es, '/' ∉ e) → elements (joinElements es) = es
  | [e], _, noSlash => elements_of_not_mem (noSlash e (List.mem_singleton_self e))
  | e :: e' :: es, _, noSlash => by
    rw [joinElements_cons (List.cons_ne_nil _ _), elements_append_cons_slash,
      elements_of_not_mem (noSlash e (List.mem_cons_self _ _)),
      elements_joinElements (List.cons_ne_nil _ _) fun d mem => noSlash d (List.mem_cons_of_mem _ mem)]
    rfl

/-- Joining a path's elements with slashes gives the path back. -/
theorem joinElements_elements : ∀ p : List Char, joinElements (elements p) = p
  | [] => rfl
  | c :: cs => by
    have rest := joinElements_elements cs
    obtain ⟨e, es, split⟩ := List.exists_cons_of_ne_nil (elements_ne_nil cs)
    by_cases slash : c = '/'
    · subst slash
      simp only [elements, if_true]
      rw [joinElements_cons (elements_ne_nil cs), rest, List.nil_append]
    · simp only [elements, slash, if_false, split]
      rw [split] at rest
      cases es with
      | nil => exact congrArg (c :: ·) rest
      | cons e' es =>
        rw [joinElements_cons (List.cons_ne_nil _ _)] at rest ⊢
        exact congrArg (c :: ·) rest

/-! ## The stack `Clean` keeps -/

/-- What `Clean`'s stack of kept elements (last element first) can hold: plain elements, and
`..` only in a path that is not rooted, beneath nothing but other `..`s. -/
def Kept (rooted : Bool) : List (List Char) → Prop
  | [] => True
  | e :: rest => (Plain e ∨ e = ['.', '.'] ∧ rooted = false ∧ ∀ d ∈ rest, d = ['.', '.']) ∧ Kept rooted rest

theorem Kept.of_append {rooted : Bool} : ∀ {l t : List (List Char)}, Kept rooted (l ++ t) → Kept rooted t
  | [], _, kept => kept
  | _ :: _, _, kept => Kept.of_append kept.2

theorem Kept.noSlash {rooted : Bool} : ∀ {ks : List (List Char)}, Kept rooted ks → ∀ e ∈ ks, e ≠ [] ∧ '/' ∉ e
  | [], _ => fun _ mem => absurd mem (List.not_mem_nil _)
  | e :: _, ⟨now, later⟩ => by
    have head : e ≠ [] ∧ '/' ∉ e := by
      rcases now with plain | ⟨rfl, -⟩
      · exact ⟨plain.1, plain.2.1⟩
      · simp
    simpa only [List.mem_cons, forall_eq_or_imp] using ⟨head, Kept.noSlash later⟩

/-- In a rooted path every kept element is plain. -/
theorem Kept.plain : ∀ {ks : List (List Char)}, Kept true ks → ∀ e ∈ ks, Plain e
  | [], _ => fun _ mem => absurd mem (List.not_mem_nil _)
  | e :: _, ⟨now, later⟩ => by
    have head : Plain e := now.resolve_right fun ⟨_, rooted, _⟩ => Bool.noConfusion rooted
    simpa only [List.mem_cons, forall_eq_or_imp] using ⟨head, Kept.plain later⟩

theorem kept_of_plain {rooted : Bool} : ∀ {ks : List (List Char)}, (∀ e ∈ ks, Plain e) → Kept rooted ks
  | [], _ => trivial
  | _ :: _, plain => ⟨.inl (plain _ (List.mem_cons_self _ _)),
      kept_of_plain fun e mem => plain e (List.mem_cons_of_mem _ mem)⟩

/-- One step of the scan keeps the stack in its form. -/
theorem cleanStep_kept {rooted : Bool} {ks : List (List Char)} {e : List Char} (noSlash : '/' ∉ e)
    (kept : Kept rooted ks) : Kept rooted (cleanStep rooted ks e) := by
  unfold cleanStep
  split
  · exact kept
  split
  · rename_i dotDot
    subst dotDot
    split
    · split
      · trivial
      · exact ⟨.inr ⟨rfl, by simp_all, fun _ mem => absurd mem (List.not_mem_nil _)⟩, trivial⟩
    · rename_i d rest
      split
      · rename_i below
        subst below
        have all := kept.1.resolve_left fun plain => plain.2.2.2 rfl
        exact ⟨.inr ⟨rfl, all.2.1, fun d mem => (List.mem_cons.mp mem).elim id (all.2.2 d)⟩, kept⟩
      · exact kept.2
  · rename_i notEmpty notDotDot
    exact ⟨.inl ⟨fun h => notEmpty (.inl h), noSlash, fun h => notEmpty (.inr h), notDotDot⟩, kept⟩

theorem foldl_cleanStep_kept {rooted : Bool} :
    ∀ (es : List (List Char)) {ks : List (List Char)}, (∀ e ∈ es, '/' ∉ e) → Kept rooted ks →
      Kept rooted (es.foldl (cleanStep rooted) ks)
  | [], _, _, kept => kept
  | e :: es, _, noSlash, kept =>
    foldl_cleanStep_kept es (fun d mem => noSlash d (List.mem_cons_of_mem _ mem))
      (cleanStep_kept (noSlash e (List.mem_cons_self _ _)) kept)

/-- The scan pushes an element the stack can hold on top of what is there. -/
theorem cleanStep_of_kept {rooted : Bool} {ks : List (List Char)} {e : List Char}
    (kept : Kept rooted (e :: ks)) : cleanStep rooted ks e = e :: ks := by
  rcases kept.1 with ⟨nonEmpty, -, notDot, notDotDot⟩ | ⟨rfl, flat, below⟩
  · simp [cleanStep, nonEmpty, notDot, notDotDot]
  · cases ks with
    | nil => simp [cleanStep, flat]
    | cons d rest => simp [cleanStep, below d (List.mem_cons_self _ _)]

/-- Folding the scan over elements the stack can hold pushes every one of them. -/
theorem foldl_cleanStep_of_kept {rooted : Bool} :
    ∀ (es : List (List Char)) (ks : List (List Char)), Kept rooted (es.reverse ++ ks) →
      es.foldl (cleanStep rooted) ks = es.reverse ++ ks
  | [], _, _ => rfl
  | e :: es, ks, kept => by
    have kept' : Kept rooted (es.reverse ++ e :: ks) := by simpa using kept
    rw [List.foldl_cons, cleanStep_of_kept (Kept.of_append kept'), foldl_cleanStep_of_kept es _ kept']
    simp

/-- The scan skips an empty element. -/
@[simp] theorem cleanStep_nil (rooted : Bool) (ks : List (List Char)) : cleanStep rooted ks [] = ks := by
  simp [cleanStep]

/-! ## Idempotence -/

/-- A rooted path of elements the stack can hold is clean. -/
theorem cleanChars_rooted {ks : List (List Char)} (kept : Kept true ks.reverse) :
    cleanChars ('/' :: joinElements ks) = '/' :: joinElements ks := by
  have split : elements ('/' :: joinElements ks) = [] :: elements (joinElements ks) := by simp [elements]
  by_cases empty : ks = []
  · subst empty
    rfl
  · have scanned : (elements (joinElements ks)).foldl (cleanStep true) [] = ks.reverse := by
      rw [elements_joinElements empty fun e mem => (kept.noSlash e (List.mem_reverse.mpr mem)).2,
        foldl_cleanStep_of_kept ks [] (by simpa using kept), List.append_nil]
    simp [cleanChars, split, scanned]

theorem joinElements_cons_eq (e : List Char) (es : List (List Char)) :
    ∃ rest, joinElements (e :: es) = e ++ rest := by
  cases es with
  | nil => exact ⟨[], by simp [joinElements]⟩
  | cons _ _ => exact ⟨_, joinElements_cons (List.cons_ne_nil _ _)⟩

/-- An unrooted path of elements the stack can hold is clean. -/
theorem cleanChars_joinElements {ks : List (List Char)} (nonEmpty : ks ≠ [])
    (kept : Kept false ks.reverse) : cleanChars (joinElements ks) = joinElements ks := by
  have noSlash : ∀ e ∈ ks, e ≠ [] ∧ '/' ∉ e := fun e mem => kept.noSlash e (List.mem_reverse.mpr mem)
  obtain ⟨e, es, rfl⟩ := List.exists_cons_of_ne_nil nonEmpty
  obtain ⟨headNonEmpty, headNoSlash⟩ := noSlash e (List.mem_cons_self _ _)
  obtain ⟨c, cs, rfl⟩ := List.exists_cons_of_ne_nil headNonEmpty
  obtain ⟨rest, joined⟩ := joinElements_cons_eq (c :: cs) es
  have notRooted : ((joinElements ((c :: cs) :: es)).head? == some '/') = false := by
    rw [joined]
    simpa using fun h : c = '/' => headNoSlash (h ▸ List.mem_cons_self _ _)
  have scanned : (elements (joinElements ((c :: cs) :: es))).foldl (cleanStep false) [] =
      ((c :: cs) :: es).reverse := by
    rw [elements_joinElements nonEmpty fun d mem => (noSlash d mem).2,
      foldl_cleanStep_of_kept _ [] (by simpa using kept), List.append_nil]
  have notEmpty : joinElements ((c :: cs) :: es) ≠ [] := by rw [joined]; exact List.cons_ne_nil _ _
  simp only [cleanChars, notEmpty, notRooted, scanned, List.reverse_reverse, if_false,
    Bool.false_eq_true]

/-- `Clean` leaves its own output as it is. -/
theorem cleanChars_cleanChars (p : List Char) : cleanChars (cleanChars p) = cleanChars p := by
  have kept : ∀ rooted, Kept rooted ((elements p).foldl (cleanStep rooted) []) := fun rooted =>
    foldl_cleanStep_kept _ (elements_noSlash p) trivial
  by_cases empty : p = []
  · subst empty
    rfl
  cases rooted : (p.head? == some '/')
  · have cleaned : cleanChars p = if joinElements ((elements p).foldl (cleanStep false) []).reverse = [] then ['.']
        else joinElements ((elements p).foldl (cleanStep false) []).reverse := by
      simp only [cleanChars, empty, rooted, if_false, Bool.false_eq_true]
    rw [cleaned]
    split
    · rfl
    · rename_i nonEmpty
      exact cleanChars_joinElements (fun h => nonEmpty (by rw [h]; rfl)) (by simpa using kept false)
  · have cleaned : cleanChars p = '/' :: joinElements ((elements p).foldl (cleanStep true) []).reverse := by
      simp only [cleanChars, empty, rooted, if_false, if_true]
    rw [cleaned]
    exact cleanChars_rooted (by simpa using kept true)

/-! ## Rooted paths with no `..` -/

/-- The elements of a path `Clean` keeps when none is `..`: the plain ones. -/
def plainElements (x : List Char) : List (List Char) := (elements x).filter fun e => decide (Plain e)

/-- Over elements with no `..`, the scan pushes the plain ones and drops the others. -/
theorem foldl_cleanStep_of_no_dotDot (rooted : Bool) :
    ∀ (es ks : List (List Char)), (∀ e ∈ es, '/' ∉ e ∧ e ≠ ['.', '.']) →
      es.foldl (cleanStep rooted) ks = (es.filter fun e => decide (Plain e)).reverse ++ ks
  | [], _, _ => rfl
  | e :: es, ks, fine => by
    obtain ⟨noSlash, notDotDot⟩ := fine e (List.mem_cons_self _ _)
    have rest := fun ks => foldl_cleanStep_of_no_dotDot rooted es ks fun d mem =>
      fine d (List.mem_cons_of_mem _ mem)
    by_cases skipped : e = [] ∨ e = ['.']
    · have dropped : ¬Plain e := fun plain => skipped.elim plain.1 plain.2.2.1
      simp [cleanStep, skipped, dropped, rest]
    · have plain : Plain e := ⟨fun h => skipped (.inl h), noSlash, fun h => skipped (.inr h), notDotDot⟩
      simp [cleanStep, skipped, notDotDot, plain, rest]

@[simp] theorem plainElements_slash (x : List Char) : plainElements ('/' :: x) = plainElements x := by
  simp [plainElements, elements, Plain]

theorem plainElements_joinElements {ps : List (List Char)} (plain : ∀ e ∈ ps, Plain e) :
    plainElements (joinElements ps) = ps := by
  by_cases empty : ps = []
  · subst empty
    rfl
  · rw [plainElements, elements_joinElements empty fun e mem => (plain e mem).2.1]
    exact List.filter_eq_self.mpr fun e mem => decide_eq_true (plain e mem)

/-- A path with no `..` element, cleaned under the root: the root and its plain elements. -/
theorem cleanChars_slash {x : List Char} (noDotDot : ∀ e ∈ elements x, e ≠ ['.', '.']) :
    cleanChars ('/' :: x) = '/' :: joinElements (plainElements x) := by
  have scanned := foldl_cleanStep_of_no_dotDot true (elements x) []
    fun e mem => ⟨elements_noSlash x e mem, noDotDot e mem⟩
  simp [cleanChars, elements, scanned, plainElements]

/-- A clean rooted path is the root followed by plain elements. -/
theorem plain_of_clean_rooted {p : List Char} (clean : cleanChars p = p) (rooted : p.head? = some '/') :
    ∃ ps, (∀ e ∈ ps, Plain e) ∧ p = '/' :: joinElements ps := by
  have nonEmpty : p ≠ [] := by rintro rfl; cases rooted
  have kept : Kept true ((elements p).foldl (cleanStep true) []) :=
    foldl_cleanStep_kept _ (elements_noSlash p) trivial
  refine ⟨((elements p).foldl (cleanStep true) []).reverse,
    fun e mem => kept.plain e (List.mem_reverse.mp mem), ?_⟩
  exact clean.symm.trans (by simp [cleanChars, nonEmpty, rooted])

/-- Joining a path with no `..` element under a clean rooted path appends its plain elements. -/
theorem joinChars_rooted {ps : List (List Char)} (plain : ∀ e ∈ ps, Plain e) {r : List Char}
    (noDotDot : ∀ e ∈ elements r, e ≠ ['.', '.']) :
    joinChars ('/' :: joinElements ps) r = '/' :: joinElements (ps ++ plainElements r) := by
  have joined : ∀ e ∈ elements (joinElements ps ++ '/' :: r), e ≠ ['.', '.'] := by
    rw [elements_append_cons_slash]
    refine fun e mem => (List.mem_append.mp mem).elim (fun mem => ?_) (noDotDot e)
    by_cases empty : ps = []
    · subst empty
      simp_all [elements, joinElements]
    · rw [elements_joinElements empty fun d mem => (plain d mem).2.1] at mem
      exact (plain e mem).2.2.2
  have filtered : plainElements (joinElements ps ++ '/' :: r) = ps ++ plainElements r := by
    rw [plainElements, elements_append_cons_slash, List.filter_append, ← plainElements,
      plainElements_joinElements plain, ← plainElements]
  rw [joinChars, if_neg (List.cons_ne_nil _ _), List.cons_append, cleanChars_slash joined, filtered]

/-- Joining under the root keeps a path's plain elements, when it has no `..`. -/
theorem joinChars_root {x : List Char} (noDotDot : ∀ e ∈ elements x, e ≠ ['.', '.']) :
    joinChars ['/'] x = '/' :: joinElements (plainElements x) :=
  @joinChars_rooted [] (fun _ mem => absurd mem (List.not_mem_nil _)) x noDotDot

/-- A second slash after the root changes nothing. -/
theorem cleanChars_slash_slash (x : List Char) : cleanChars ('/' :: '/' :: x) = cleanChars ('/' :: x) := by
  simp [cleanChars, elements]

theorem head_cleanChars_slash (x : List Char) : (cleanChars ('/' :: x)).head? = some '/' := by
  simp [cleanChars]

theorem joinChars_root_eq (x : List Char) : joinChars ['/'] x = cleanChars ('/' :: '/' :: x) := by
  simp [joinChars]

theorem noDotDot_joinElements {ps : List (List Char)} (plain : ∀ e ∈ ps, Plain e) :
    ∀ e ∈ elements (joinElements ps), e ≠ ['.', '.'] := by
  by_cases empty : ps = []
  · subst empty
    simp [elements, joinElements]
  · rw [elements_joinElements empty fun e mem => (plain e mem).2.1]
    exact fun e mem => (plain e mem).2.2.2

/-- Plain elements after plain elements: what follows the first ones once joined, which,
joined under the root, gives the second ones. -/
theorem joinElements_append_plain {ps qs : List (List Char)} (left : ∀ e ∈ ps, Plain e)
    (right : ∀ e ∈ qs, Plain e) :
    ∃ rest, joinElements (ps ++ qs) = joinElements ps ++ rest ∧ joinChars ['/'] rest = '/' :: joinElements qs := by
  have rooted : joinChars ['/'] (joinElements qs) = '/' :: joinElements qs := by
    rw [joinChars_root (noDotDot_joinElements right), plainElements_joinElements right]
  by_cases emptyLeft : ps = []
  · subst emptyLeft
    exact ⟨joinElements qs, rfl, rooted⟩
  by_cases emptyRight : qs = []
  · subst emptyRight
    exact ⟨[], by simp, rfl⟩
  refine ⟨'/' :: joinElements qs, joinElements_append emptyLeft emptyRight, ?_⟩
  rw [joinChars_root_eq, cleanChars_slash_slash, ← joinChars_root_eq, rooted]

end Confd.Go.Path
