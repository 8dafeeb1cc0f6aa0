/-
CartridgeAudit/Proofs/Project/Reading.lean

What a walk reads.

A walk visits what it comes to, one after the other.  Files are found, links and
devices are passed over, and a directory has to be read; `Tree.Unreadable` says of which
directories that is impossible.  So a walk finds all files on its way (`Tree.filesOf`),
in the order of their paths, or it fails with the first directory that it cannot read
(`Corpus.filesBelow_cases`).

Whether all directories of a given tree can be read is computed by `Tree.opens`.
-/
import CartridgeAudit.Proofs.Project.Listing
import CartridgeAudit.Proofs.Project.Steps

namespace CartridgeAudit

/-! ### Directories that can be read -/

/-- A directory that cannot be read at a path: the path cannot be asked for, or the
directory is closed. -/
def Tree.Unreadable (t : Tree) (p : Path) (cause : FileError) : Prop :=
  t.isDirectory = true ∧
    (p.askable = .error cause ∨ p.askable = .ok () ∧ t = .locked ∧ cause = .denied)

namespace Tree

theorem entriesAt_eq_error_iff {t : Tree} (h : t.isDirectory = true) {p : Path}
    {cause : FileError} : t.entriesAt p = .error cause ↔ t.Unreadable p cause := by
  rw [Unreadable, and_iff_right h]
  cases t with
  | directory es => cases hask : p.askable <;> simp [entriesAt, hask, Except.map]
  | locked =>
    cases hask : p.askable <;> simp [entriesAt, hask, bind, Except.bind, eq_comm (b := cause)]
  | _ => cases h

mutual

/-- Whether all directories of a tree at a path can be read, up to those whose names are to
be skipped. -/
def opens (skip : String → Bool) (p : Path) : Tree → Bool
  | .directory es => p.askable.isOk && entriesOpen skip p es
  | .locked => false
  | .file _ | .link _ | .special _ => true

/-- Whether all entries of a directory can be read that are not to be skipped. -/
def entriesOpen (skip : String → Bool) (p : Path) : List (String × Tree) → Bool
  | [] => true
  | (name, t) :: rest => (skip name || opens skip (p.join ⟨name⟩) t) && entriesOpen skip p rest

end

variable {skip : String → Bool}

theorem opens_of_lookup {p : Path} {es : List (String × Tree)} (h : entriesOpen skip p es = true)
    {name : String} {t : Tree} (hlookup : es.lookup name = some t) (hskip : skip name = false) :
    t.opens skip (p.join ⟨name⟩) = true := by
  induction es with
  | nil => cases hlookup
  | cons e es ih =>
    obtain ⟨first, u⟩ := e
    simp only [entriesOpen, Bool.and_eq_true, Bool.or_eq_true] at h
    rw [List.lookup_cons] at hlookup
    split at hlookup
    · next heq =>
      obtain rfl := eq_of_beq heq
      obtain rfl := Option.some.inj hlookup
      exact h.1.resolve_left (Bool.eq_false_iff.1 hskip)
    · exact ih h.2 hlookup

/-- What `opens` looks through, a walk can read. -/
theorem not_unreadable_of_opens {t u : Tree} {p : Path} (h : t.opens skip p = true)
    {below : List String} (hu : t.at? below = some u) (hskip : ∀ name ∈ below, skip name = false)
    (cause : FileError) : ¬ u.Unreadable (p.descend below) cause := by
  induction below generalizing t p with
  | nil =>
    obtain rfl := Option.some.inj ((at?_nil t).symm.trans hu)
    rintro ⟨hdirectory, hask | ⟨-, rfl, -⟩⟩
    · cases t with
      | directory es =>
        have hopen : p.askable.isOk = true := (Bool.and_eq_true_iff.1 h).1
        rw [show p.askable = .error cause from hask] at hopen
        cases hopen
      | locked => cases h
      | _ => cases hdirectory
    · cases h
  | cons name below ih =>
    obtain ⟨es, v, rfl, hv, hrest⟩ := at?_cons_eq_some_iff.1 hu
    obtain ⟨hname, hbelow⟩ := List.forall_mem_cons.1 hskip
    exact ih (opens_of_lookup (Bool.and_eq_true_iff.1 h).2 hv hname) hrest hbelow

end Tree

/-! ### Files on a walk -/

namespace Tree

/-- The files on a walk, with the names that lead there. -/
def filesOf (skip : String → Bool) (t : Tree) : List (List String × FileContent) :=
  (t.walk skip).filterMap fun x => x.2.content?.map fun content => (x.1, content)

theorem content?_eq_some_iff {t : Tree} {content : FileContent} :
    t.content? = some content ↔ t = .file content := by
  cases t <;> simp [content?]

theorem mem_filesOf_iff {skip : String → Bool} {t : Tree} (h : t.WellNamed) {path : List String}
    {content : FileContent} :
    (path, content) ∈ t.filesOf skip ↔
      t.at? path = some (.file content) ∧ ∀ name ∈ path, skip name = false := by
  rw [filesOf, List.mem_filterMap, ← mem_walk_iff h]
  simp only [Prod.exists, Option.map_eq_some_iff, content?_eq_some_iff, Prod.mk.injEq]
  constructor
  · rintro ⟨_, _, hmem, _, rfl, rfl, rfl⟩
    exact hmem
  · exact fun hmem => ⟨path, _, hmem, content, rfl, rfl, rfl⟩

theorem pairwise_filesOf (skip : String → Bool) {t : Tree} (h : t.WellNamed) :
    (t.filesOf skip).Pairwise fun a b => a.1 < b.1 := by
  rw [filesOf, List.pairwise_filterMap]
  refine (pairwise_walk skip h).imp ?_
  intro a b hab x hx y hy
  obtain ⟨_, -, rfl⟩ := Option.map_eq_some_iff.1 hx
  obtain ⟨_, -, rfl⟩ := Option.map_eq_some_iff.1 hy
  exact hab

end Tree

namespace Corpus

/-- Whether a walk skips a name: one of the patterns matches it. -/
abbrev skips (tss : List (List Glob.Token)) (name : String) : Bool :=
  tss.any (Glob.isMatch · name.toList)

theorem visit_of_isDirectory {t : Tree} (h : t.isDirectory = true) (p : Path) :
    visit p t = ((t.entriesAt p).mapError (.walk p.text)).map fun _ => none := by
  cases t with
  | directory _ | locked => rfl
  | _ => cases h

theorem visit_of_not_isDirectory {t : Tree} (h : t.isDirectory = false) (p : Path) :
    visit p t = .ok (t.content?.map fun content => (p, content)) := by
  cases t with
  | directory _ | locked => cases h
  | _ => rfl

/-- A walk needs to read directories. -/
theorem visit_eq_error_iff {p : Path} {t : Tree} {e : AuditError} :
    visit p t = .error e ↔ ∃ cause, t.Unreadable p cause ∧ e = .walk p.text cause := by
  cases hdirectory : t.isDirectory with
  | true =>
    rw [visit_of_isDirectory hdirectory]
    simp only [← Tree.entriesAt_eq_error_iff hdirectory]
    cases t.entriesAt p <;> simp [Except.map, Except.mapError, eq_comm]
  | false => simp [visit_of_not_isDirectory hdirectory, Tree.Unreadable, hdirectory]

/-- A walk finds files. -/
theorem eq_of_visit_eq_ok {p : Path} {t : Tree} {r : Option (Path × FileContent)}
    (h : visit p t = .ok r) : r = t.content?.map fun content => (p, content) := by
  cases hdirectory : t.isDirectory with
  | true =>
    have hnone : t.content? = none := by
      cases t with
      | directory _ | locked => rfl
      | _ => cases hdirectory
    rw [visit_of_isDirectory hdirectory] at h
    rw [hnone]
    cases hentries : t.entriesAt p with
    | error cause =>
      rw [hentries] at h
      cases h
    | ok es =>
      rw [hentries] at h
      exact (Except.ok.inj h).symm
  | false => exact (Except.ok.inj ((visit_of_not_isDirectory hdirectory p).symm.trans h)).symm

/-- What the visits of a walk find are the files on it. -/
theorem reduceOption_visits {skip : String → Bool} {dir : Path} {t : Tree}
    {found : List (Option (Path × FileContent))}
    (h : (t.walk skip).mapM (fun x => visit (dir.descend x.1) x.2) = .ok found) :
    found.reduceOption = (t.filesOf skip).map fun f => (dir.descend f.1, f.2) := by
  have hmap := eq_map_of_mapM_eq_ok h fun x r => eq_of_visit_eq_ok
  have hreduce : found.reduceOption = found.filterMap id := rfl
  rw [hreduce, hmap, List.filterMap_map, Tree.filesOf, List.map_filterMap]
  simp only [Option.map_map]
  rfl

/-- A walk reads the directories that it enters, and finds the files, or it fails with
the first directory that it cannot read. -/
theorem filesBelow_cases (tss : List (List Glob.Token)) (dir : Path) {t : Tree}
    (h : t.WellNamed) :
    ((∀ x ∈ t.walk (skips tss), ∀ cause, ¬ x.2.Unreadable (dir.descend x.1) cause) ∧
      filesBelow tss dir t =
        .ok ((t.filesOf (skips tss)).map fun f => (dir.descend f.1, f.2))) ∨
    ∃ x ∈ t.walk (skips tss), ∃ cause, x.2.Unreadable (dir.descend x.1) cause ∧
      (∀ y ∈ t.walk (skips tss), ∀ cause', y.2.Unreadable (dir.descend y.1) cause' →
        ¬ y.1 < x.1) ∧
      filesBelow tss dir t = .error (.walk (dir.descend x.1).text cause) := by
  have hsteps : filesBelow tss dir t =
      ((t.walk (skips tss)).mapM fun x => visit (dir.descend x.1) x.2) >>= fun found =>
        .ok found.reduceOption := rfl
  cases hfound : (t.walk (skips tss)).mapM fun x => visit (dir.descend x.1) x.2 with
  | ok found =>
    refine .inl ⟨?_, ?_⟩
    · intro x hx cause hunreadable
      obtain ⟨r, -, hr⟩ := exists_of_mem_of_mapM_eq_ok hfound hx
      cases hr.symm.trans (visit_eq_error_iff.2 ⟨cause, hunreadable, rfl⟩)
    · rw [hsteps, hfound, ← reduceOption_visits hfound]
      rfl
  | error e =>
    obtain ⟨earlier, x, later, hwalk, hearlier, hx⟩ := mapM_eq_error_iff.1 hfound
    obtain ⟨cause, hunreadable, rfl⟩ := visit_eq_error_iff.1 hx
    have hordered := Tree.pairwise_walk (skips tss) h
    rw [hwalk] at hordered ⊢
    refine .inr ⟨x, by simp, cause, hunreadable, ?_, by rw [hsteps, hfound]; rfl⟩
    intro y hy cause' hy' hlt
    rcases List.mem_append.1 hy with hy | hy
    · -- what comes before could be read
      obtain ⟨r, hr⟩ := hearlier y hy
      cases hr.symm.trans (visit_eq_error_iff.2 ⟨cause', hy', rfl⟩)
    · rcases List.mem_cons.1 hy with rfl | hy
      · exact List.lt_irrefl _ hlt
      · have hlater := (List.pairwise_cons.1 (List.pairwise_append.1 hordered).2.1).1
        exact List.lt_asymm hlt (hlater y hy)

end Corpus

end CartridgeAudit
