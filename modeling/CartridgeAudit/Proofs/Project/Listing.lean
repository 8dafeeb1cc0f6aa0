/-
CartridgeAudit/Proofs/Project/Listing.lean

What a walk comes to, and in which order.

A walk goes through a tree depth first and does not enter what is to be skipped.
`at?` looks one entry up, name by name, without any walk.  A walk comes to what
`at?` finds under a list of names of which none is to be skipped (`mem_walk_iff`):
leaving an entry out drops what is below it and nothing else.  The names come in
strictly increasing order (`pairwise_walk`), a directory before its entries.

Both hold of the trees that file systems have: the names in a directory differ,
and each of them is a name (`WellNamed`).
-/
import CartridgeAudit.Project.Tree
import CartridgeAudit.Proofs.Project.PathParts
import Mathlib.Data.List.Nodup
import Mathlib.Data.String.Basic

namespace CartridgeAudit

namespace Tree

/-- In each directory of a tree the entries have names, and these differ. -/
inductive WellNamed : Tree → Prop
  | file (content : FileContent) : WellNamed (.file content)
  | directory {es : List (String × Tree)} (names : ∀ e ∈ es, IsName e.1)
      (distinct : (es.map (·.1)).Nodup) (below : ∀ e ∈ es, WellNamed e.2) :
      WellNamed (.directory es)
  | locked : WellNamed .locked
  | link (target : Path) : WellNamed (.link target)
  | special (content : FileContent) : WellNamed (.special content)

/-- What a list of names leads to, where no link is followed. -/
def at? : Tree → List String → Option Tree
  | t, [] => some t
  | .directory es, name :: path => (es.lookup name).bind (at? · path)
  | .file _, _ :: _ | .locked, _ :: _ | .link _, _ :: _ | .special _, _ :: _ => none

@[simp] theorem at?_nil (t : Tree) : t.at? [] = some t := by cases t <;> rfl

/-- Names lead on from directories that can be entered only. -/
theorem at?_cons_eq_some_iff {t u : Tree} {name : String} {path : List String} :
    t.at? (name :: path) = some u ↔
      ∃ es v, t = .directory es ∧ es.lookup name = some v ∧ v.at? path = some u := by
  cases t with
  | directory es => simp [at?, Option.bind_eq_some_iff]
  | _ => simp [at?]

/-! ### Entries -/

theorem walkEntries_eq (skip : String → Bool) (es : List (String × Tree)) :
    walkEntries skip es = (es.filter fun e => !skip e.1).map fun e => (e.1, e.2.walk skip) := by
  induction es with
  | nil => rfl
  | cons e es ih =>
    obtain ⟨name, t⟩ := e
    rw [walkEntries, ih]
    cases hskip : skip name <;> simp [hskip]

/-- Below a directory a walk comes to what the walks of its entries come to, those
apart that are to be skipped. -/
theorem mem_walk_directory_cons {skip : String → Bool} {es : List (String × Tree)} {name : String}
    {path : List String} {u : Tree} :
    (name :: path, u) ∈ walk skip (.directory es) ↔
      ∃ t, (name, t) ∈ es ∧ skip name = false ∧ (path, u) ∈ t.walk skip := by
  rw [walk, walkEntries_eq]
  simp only [sortNames, List.mem_cons, Prod.mk.injEq, List.cons_ne_nil, false_and, false_or,
    List.mem_flatMap, List.mem_mergeSort, List.mem_map, List.mem_filter, Prod.exists,
    Bool.not_eq_true']
  constructor
  · rintro ⟨_, _, ⟨n, t, ⟨he, hskip⟩, rfl, rfl⟩, rest, _, hrest, hpath, rfl⟩
    obtain ⟨rfl, rfl⟩ := List.cons.inj hpath
    exact ⟨t, he, hskip, hrest⟩
  · rintro ⟨t, he, hskip, hrest⟩
    exact ⟨name, _, ⟨name, t, ⟨he, hskip⟩, rfl, rfl⟩, path, u, hrest, rfl, rfl⟩

/-- A walk begins with the tree itself. -/
theorem mem_walk_nil {skip : String → Bool} {t u : Tree} : ([], u) ∈ t.walk skip ↔ t = u := by
  cases t with
  | directory es =>
    rw [walk, List.mem_cons, Prod.mk.injEq]
    simp [eq_comm]
  | _ => simp [walk, eq_comm]

theorem lookup_eq_some_iff {es : List (String × Tree)} (h : (es.map (·.1)).Nodup)
    {name : String} {t : Tree} : es.lookup name = some t ↔ (name, t) ∈ es := by
  induction es with
  | nil => simp
  | cons e es ih =>
    obtain ⟨first, u⟩ := e
    obtain ⟨hfirst, hrest⟩ := List.nodup_cons.1 h
    rw [List.lookup_cons, List.mem_cons, Prod.mk.injEq]
    by_cases heq : name = first
    · subst heq
      have hno : (name, t) ∉ es := fun hmem => hfirst (List.mem_map.2 ⟨_, hmem, rfl⟩)
      simp [hno, eq_comm]
    · have hbeq : (name == first) = false := beq_false_of_ne heq
      simp [hbeq, heq, ih hrest]

/-- Nothing lies below a file. -/
theorem eq_nil_of_at?_file {content content' : FileContent} {path : List String}
    (h : (Tree.file content).at? path = some (.file content')) : path = [] := by
  cases path with
  | nil => rfl
  | cons name path => cases h

/-- A file in a directory lies below one of the entries. -/
theorem exists_entry_of_at? {es : List (String × Tree)} (distinct : (es.map (·.1)).Nodup)
    {path : List String} {content : FileContent}
    (h : (Tree.directory es).at? path = some (.file content)) :
    ∃ name t rest, path = name :: rest ∧ (name, t) ∈ es ∧ t.at? rest = some (.file content) := by
  cases path with
  | nil => cases h
  | cons name rest =>
    obtain ⟨_, t, hes, ht, hrest⟩ := at?_cons_eq_some_iff.1 h
    obtain rfl := Tree.directory.inj hes
    exact ⟨name, t, rest, rfl, (lookup_eq_some_iff distinct).1 ht, hrest⟩

/-! ### What a walk comes to -/

/-- **A walk comes to what has no name to be skipped on its way.** -/
theorem mem_walk_iff {skip : String → Bool} {t : Tree} (h : t.WellNamed) {path : List String}
    {u : Tree} :
    (path, u) ∈ t.walk skip ↔ t.at? path = some u ∧ ∀ name ∈ path, skip name = false := by
  induction h generalizing path with
  | @directory es names distinct below ih =>
    cases path with
    | nil => simp [mem_walk_nil]
    | cons name path =>
      rw [mem_walk_directory_cons, at?_cons_eq_some_iff, List.forall_mem_cons]
      constructor
      · rintro ⟨t, he, hskip, hrest⟩
        obtain ⟨hfound, hnames⟩ := (ih _ he).1 hrest
        exact ⟨⟨es, t, rfl, (lookup_eq_some_iff distinct).2 he, hfound⟩, hskip, hnames⟩
      · rintro ⟨⟨_, t, ⟨⟩, hlookup, hfound⟩, hskip, hnames⟩
        have he := (lookup_eq_some_iff distinct).1 hlookup
        exact ⟨t, he, hskip, (ih _ he).2 ⟨hfound, hnames⟩⟩
  | _ =>
    cases path with
    | nil => simp [mem_walk_nil]
    | cons name path => simp [walk, at?]

theorem WellNamed.at? {t u : Tree} (h : t.WellNamed) {path : List String}
    (hfound : t.at? path = some u) : u.WellNamed ∧ ∀ name ∈ path, IsName name := by
  induction path generalizing t with
  | nil =>
    obtain rfl := Option.some.inj ((at?_nil t).symm.trans hfound)
    exact ⟨h, List.forall_mem_nil _⟩
  | cons name path ih =>
    obtain ⟨es, v, rfl, hv, hrest⟩ := at?_cons_eq_some_iff.1 hfound
    cases h with
    | directory names distinct below =>
      have he : (name, v) ∈ es := (lookup_eq_some_iff distinct).1 hv
      obtain ⟨hwell, hnames⟩ := ih (below _ he) hrest
      exact ⟨hwell, List.forall_mem_cons.2 ⟨names _ he, hnames⟩⟩

/-! ### In which order -/

/-- Sorting entries with different names puts the names into strictly
increasing order. -/
theorem pairwise_sortNames {α : Type} {xs : List (String × α)} (h : (xs.map (·.1)).Nodup) :
    (sortNames xs).Pairwise fun a b => a.1 < b.1 := by
  have hsorted : (sortNames xs).Pairwise fun a b => (!decide (b.1 < a.1)) = true := by
    apply List.pairwise_mergeSort
    · intro a b c hab hbc
      simp only [Bool.not_eq_true', decide_eq_false_iff_not, not_lt] at hab hbc ⊢
      exact hab.trans hbc
    · intro a b
      simp only [Bool.or_eq_true, Bool.not_eq_true', decide_eq_false_iff_not, not_lt]
      exact le_total a.1 b.1
  have hdistinct : (sortNames xs).Pairwise fun a b => a.1 ≠ b.1 :=
    List.pairwise_map.1 (((List.mergeSort_perm xs _).map _).nodup_iff.2 h)
  refine (hsorted.and hdistinct).imp ?_
  rintro a b ⟨hle, hne⟩
  simp only [Bool.not_eq_true', decide_eq_false_iff_not, not_lt] at hle
  exact lt_of_le_of_ne hle hne

/-- **A walk goes in strictly increasing order, name by name.** -/
theorem pairwise_walk (skip : String → Bool) {t : Tree} (h : t.WellNamed) :
    (t.walk skip).Pairwise fun a b => a.1 < b.1 := by
  induction h with
  | @directory es names distinct below ih =>
    rw [walk, walkEntries_eq, List.pairwise_cons, List.pairwise_flatMap]
    refine ⟨?_, ?_, ?_⟩
    · -- the directory comes before everything below it
      intro x hx
      obtain ⟨⟨name, found⟩, -, hx⟩ := List.mem_flatMap.1 hx
      obtain ⟨y, -, rfl⟩ := List.mem_map.1 hx
      exact List.nil_lt_cons _ _
    · -- what is below one entry: all names begin with its own
      rintro ⟨name, found⟩ hentry
      obtain ⟨e, he, heq⟩ := List.mem_map.1 (List.mem_mergeSort.1 hentry)
      obtain ⟨rfl, rfl⟩ := Prod.mk.inj heq
      rw [List.pairwise_map]
      refine (ih e (List.mem_of_mem_filter he)).imp ?_
      intro a b hab
      exact List.cons_lt_cons_iff.2 (.inr ⟨rfl, hab⟩)
    · -- what is below two entries: their first names differ
      refine (pairwise_sortNames ?_).imp ?_
      · rw [List.map_map]
        exact distinct.sublist (List.filter_sublist.map _)
      · rintro ⟨a, as⟩ ⟨b, bs⟩ hab x hx y hy
        obtain ⟨p, -, rfl⟩ := List.mem_map.1 hx
        obtain ⟨q, -, rfl⟩ := List.mem_map.1 hy
        exact List.cons_lt_cons_iff.2 (.inl hab)
  | _ => exact List.pairwise_singleton _ _

end Tree

end CartridgeAudit
