/-
CartridgeAudit/Proofs/Project/Selection.lean

What a query selects.

`Selects` says which files a query is meant to select: a condition on the names
that lead from the directory of the query to the file, with no walk in it.  A
selection walks through the tree, leaves out what it must not enter, and filters
what it meets.  Both come to the same (`files_exactly_selected`), the files are
in the order of their paths, and each path is the root with the relative path
behind it.

A walk has to read every directory that it enters.  `IsRefused` says of which
directories that is impossible, and if there are any, the selection fails with the first
of them; so a selection that has an answer has left nothing out.

Paths are compared component by component, and names byte by byte, as file
systems do (`Path.Before`).
-/
import CartridgeAudit.Proofs.Project.Reading
import CartridgeAudit.Proofs.Project.Walking
import CartridgeAudit.Proofs.Text.ByteOrder

namespace CartridgeAudit

/-! ### The order of paths -/

/-- The rank of a component: the root comes before `.`, that before `..`, and
that before names, which are compared by their bytes. -/
def Component.rank : Component → List Nat
  | .root => [0]
  | .current => [1]
  | .parent => [2]
  | .normal name => 3 :: Text.bytesOf name

/-- The cartridge of a path that is written with slashes. -/
theorem cartridgeOf_intercalate {ns : List String} (hne : ns ≠ []) (h : ∀ n ∈ ns, IsName n)
    {cartridge : String} :
    cartridgeOf ("/".intercalate ns) = some cartridge ↔
      ∃ rest, rest ≠ [] ∧ ns = cartridgesDir :: cartridge :: rest := by
  rw [cartridgeOf, Path.splitOn_intercalate hne fun n hn => (h n hn).1]
  -- only a list with a third name has a cartridge
  rcases ns with _ | ⟨top, _ | ⟨middle, _ | ⟨last, rest⟩⟩⟩
  · simp
  · simp
  · simp
  · by_cases htop : top = cartridgesDir
    · simp [htop]
    · simp [htop]

namespace FileQuery

/-- The names that lead from the root to a file, given those that lead there
from the directory of the query. -/
def namesTo (q : FileQuery) (below : List String) : List String :=
  Path.names q.dir.components ++ below

/-- The last name has one of the endings, if there are any. -/
def HasEnding (q : FileQuery) (below : List String) : Prop :=
  q.endings = [] ∨ ∃ e ∈ q.endings, ∃ name, below.getLast? = some name ∧ e.toList <:+ name.toList

/-- The path from the root has one of the parts, if there are any. -/
def HasPart (q : FileQuery) (below : List String) : Prop :=
  q.parts = [] ∨ ∃ part ∈ q.parts, part.toList <:+: ("/".intercalate (q.namesTo below)).toList

/-- The path from the root leads into a cartridge of the generation, if there is
one. -/
def HasGeneration (q : FileQuery) (below : List String) : Prop :=
  ∀ g, q.generation = some g → ∃ cartridge rest, rest ≠ [] ∧
    q.namesTo below = cartridgesDir :: cartridge :: rest ∧ Generation.classify cartridge = g

theorem meetsEndings_iff {q : FileQuery} {name : String} :
    q.meetsEndings name = true ↔ q.endings = [] ∨ ∃ e ∈ q.endings, e.toList <:+ name.toList := by
  simp [meetsEndings, Text.endsWith_iff]

theorem meetsParts_iff {q : FileQuery} {relative : String} :
    q.meetsParts relative = true ↔
      q.parts = [] ∨ ∃ part ∈ q.parts, part.toList <:+: relative.toList := by
  simp [meetsParts, occursIn, Text.contains_iff]

theorem meetsGeneration_iff {q : FileQuery} {ns : List String} (hne : ns ≠ [])
    (h : ∀ n ∈ ns, IsName n) :
    q.meetsGeneration ("/".intercalate ns) = true ↔
      ∀ g, q.generation = some g → ∃ cartridge rest, rest ≠ [] ∧
        ns = cartridgesDir :: cartridge :: rest ∧ Generation.classify cartridge = g := by
  rw [meetsGeneration]
  cases q.generation with
  | none => simp
  | some g =>
    simp only [Option.any_eq_true, cartridgeOf_intercalate hne h, beq_iff_eq, Option.some.injEq,
      forall_eq']
    constructor
    · rintro ⟨cartridge, ⟨rest, hrest, hns⟩, hg⟩
      exact ⟨cartridge, rest, hrest, hns, hg⟩
    · rintro ⟨cartridge, rest, hrest, hns, hg⟩
      exact ⟨cartridge, ⟨rest, hrest, hns⟩, hg⟩

end FileQuery

/-- A pattern matches a name. -/
def Glob.Matches (pattern name : String) : Prop :=
  ∃ ts, Glob.parse pattern = .ok ts ∧ Glob.covers ts name.toList = true

theorem globOf_eq_ok_iff {pattern : String} {ts : List Glob.Token} :
    globOf pattern = .ok ts ↔ Glob.parse pattern = .ok ts := by
  rw [globOf]
  split
  · next h => rw [h, Except.ok.injEq, Except.ok.injEq]
  · next h => simp [h]

namespace Corpus

/-- The patterns of the names that a selection leaves out. -/
inductive LeavesOut (c : Corpus) (q : FileQuery) : String → Prop
  | modules : LeavesOut c q "node_modules"
  | vendor : LeavesOut c q "vendor"
  | changes (on : c.excludeChanges = true) : LeavesOut c q "*changes"
  | ofCorpus {pattern : String} (mem : pattern ∈ c.exclude) : LeavesOut c q pattern
  | ofQuery {pattern : String} (mem : pattern ∈ q.exclude) : LeavesOut c q pattern

/-- The file that names lead to from the directory of a query is one that the
query asks for. -/
structure Selects (c : Corpus) (q : FileQuery) (below : List String) (content : FileContent) :
    Prop where
  isFile : ∃ t, c.disk.find (c.root.join q.dir) = .ok t ∧ t.at? below = some (.file content)
  isBelow : below ≠ []
  entered : ∀ name ∈ below, ∀ pattern, c.LeavesOut q pattern → ¬ Glob.Matches pattern name
  ending : q.HasEnding below
  part : q.HasPart below
  generation : q.HasGeneration below

/-- The directory that names lead to from a directory of the project is entered by a walk
and cannot be read there. -/
structure IsRefused (c : Corpus) (dir : Path) (LeftOut : String → Prop) (below : List String)
    (cause : FileError) : Prop where
  isDirectory : ∃ t u, c.disk.directory? (c.root.join dir) = some t ∧ t.at? below = some u ∧
    u.Unreadable ((c.root.join dir).descend below) cause
  entered : ∀ name ∈ below, ∀ pattern, LeftOut pattern → ¬ Glob.Matches pattern name

/-- The first directory on a walk that cannot be read: none comes before it. -/
structure IsFirstRefused (c : Corpus) (dir : Path) (LeftOut : String → Prop)
    (below : List String) (cause : FileError) : Prop
    extends IsRefused c dir LeftOut below cause where
  first : ∀ other cause', c.IsRefused dir LeftOut other cause' → ¬ other < below

/-- Every directory on a walk can be read. -/
def CanWalk (c : Corpus) (dir : Path) (LeftOut : String → Prop) : Prop :=
  ∀ below cause, ¬ c.IsRefused dir LeftOut below cause

variable {c : Corpus} {q : FileQuery}

theorem mem_skipped_iff {pattern : String} : pattern ∈ c.skipped q ↔ c.LeavesOut q pattern := by
  rw [skipped, alwaysExcluded, changesCartridges]
  simp only [List.mem_append, List.mem_cons, List.not_mem_nil, or_false]
  constructor
  · rintro ((((rfl | rfl) | h) | h) | h)
    · exact .modules
    · exact .vendor
    · split at h
      · next hon =>
        obtain rfl := List.mem_singleton.1 h
        exact .changes hon
      · cases h
    · exact .ofCorpus h
    · exact .ofQuery h
  · rintro (_ | _ | hon | h | h)
    · exact .inl (.inl (.inl (.inl rfl)))
    · exact .inl (.inl (.inl (.inr rfl)))
    · exact .inl (.inl (.inr (by rw [if_pos hon]; exact List.mem_singleton.2 rfl)))
    · exact .inl (.inr h)
    · exact .inr h

section Skipping

variable {tss : List (List Glob.Token)} {name : String}

theorem skips_eq_true_iff (h : (c.skipped q).mapM globOf = .ok tss) :
    skips tss name = true ↔ ∃ pattern, c.LeavesOut q pattern ∧ Glob.Matches pattern name := by
  simp only [← mem_skipped_iff, List.any_eq_true, Glob.isMatch_eq_covers, mem_iff_of_mapM_eq_ok h,
    globOf_eq_ok_iff]
  constructor
  · rintro ⟨ts, ⟨pattern, hpattern, hparse⟩, hcovers⟩
    exact ⟨pattern, hpattern, ts, hparse, hcovers⟩
  · rintro ⟨pattern, hpattern, ts, hparse, hcovers⟩
    exact ⟨ts, ⟨pattern, hpattern, hparse⟩, hcovers⟩

/-- The names that a walk enters are those that are not left out. -/
theorem skips_eq_false_iff (h : (c.skipped q).mapM globOf = .ok tss) :
    skips tss name = false ↔ ∀ pattern, c.LeavesOut q pattern → ¬ Glob.Matches pattern name := by
  rw [← Bool.not_eq_true, skips_eq_true_iff h]
  simp only [not_exists, not_and]

end Skipping

theorem isName_of_mem_namesTo {below : List String} (h : ∀ name ∈ below, IsName name) :
    ∀ n ∈ q.namesTo below, IsName n := by
  intro n hn
  rcases List.mem_append.1 hn with hn | hn
  · exact Path.isName_of_mem_names hn
  · exact h n hn

theorem relative_descend (hdir : q.dir.isAbsolute = false) {below : List String}
    (h : ∀ name ∈ below, IsName name) :
    c.relative ((c.root.join q.dir).descend below) = "/".intercalate (q.namesTo below) := by
  rw [relative, Path.relativeTo, Path.namesBelow_descend c.root hdir h]
  rfl

/-- What the path of a file below the directory of a query has to meet. -/
theorem meets_descend_iff (hdir : q.dir.isAbsolute = false) {below : List String}
    (hne : below ≠ []) (h : ∀ name ∈ below, IsName name) :
    c.meets q ((c.root.join q.dir).descend below) = true ↔
      q.HasEnding below ∧ q.HasPart below ∧ q.HasGeneration below := by
  have hto : q.namesTo below ≠ [] := List.append_ne_nil_of_right_ne_nil _ hne
  rw [meets, relative_descend hdir h, Path.fileName_descend _ h hne, Bool.and_eq_true,
    Bool.and_eq_true, FileQuery.meetsEndings_iff, FileQuery.meetsParts_iff,
    FileQuery.meetsGeneration_iff hto (isName_of_mem_namesTo h), FileQuery.HasEnding,
    List.getLast?_eq_getLast_of_ne_nil hne, and_assoc]
  simp only [Option.some.injEq, exists_eq_left']
  rfl

/-! ### Opening -/

theorem gives_listCartridges (disk : Disk) (dir : Path) :
    (listCartridges disk dir).Gives ((disk.directory? dir).elim (.ok ⟨[]⟩) fun t =>
      (t.entriesAt dir).mapError .io >>= fun es =>
        .ok (CartridgeSet.ofNames ((es.filter (·.2.isDirectory)).map (·.1)))) := by
  rw [listCartridges]
  cases disk.directory? dir with
  | some t => exact (Audit.gives_ofExcept _).bind fun _ _ => Audit.gives_pure _
  | none => exact (Audit.gives_notify _).bind_ok (Audit.gives_pure _)

theorem gives_openAt {disk : Disk} {root : Path} {r : Except AuditError CartridgeSet}
    (h : (listCartridges disk (root.join ⟨cartridgesDir⟩)).Gives r) (changes : Bool)
    (exclude : List String) :
    (openAt disk root changes exclude).Gives (exclude.mapM globOf >>= fun _ =>
      r >>= fun cartridges => .ok ⟨disk, root, changes, exclude, cartridges⟩) := by
  apply (Audit.gives_ofExcept _).bind
  intro _ _
  exact h.bind fun _ _ => Audit.gives_pure _

/-- An opened corpus is what it was opened with, its cartridges are those listed, and
its patterns are valid. -/
theorem openAt_eq_ok {disk : Disk} {root : Path} {changes : Bool} {exclude : List String}
    {notices : List Notice} (h : (openAt disk root changes exclude notices).1 = .ok c) :
    c.disk = disk ∧ c.root = root ∧ c.excludeChanges = changes ∧ c.exclude = exclude ∧
      (∀ pattern ∈ exclude, ∃ ts, Glob.parse pattern = .ok ts) ∧
      (listCartridges disk (root.join ⟨cartridgesDir⟩)).Gives (.ok c.cartridges) := by
  have hlist := gives_listCartridges disk (root.join ⟨cartridgesDir⟩)
  rw [gives_openAt hlist changes exclude notices] at h
  obtain ⟨tss, htss, h⟩ := bind_eq_ok_iff.1 h
  obtain ⟨cartridges, hcartridges, hc⟩ := bind_eq_ok_iff.1 h
  obtain rfl := Except.ok.inj hc
  refine ⟨rfl, rfl, rfl, rfl, ?_, hcartridges ▸ hlist⟩
  intro pattern hpattern
  obtain ⟨ts, -, hts⟩ := exists_of_mem_of_mapM_eq_ok htss hpattern
  exact ⟨ts, globOf_eq_ok_iff.1 hts⟩

/-- Without patterns of its own, a corpus is opened if its cartridges can be listed. -/
theorem exists_gives_openAt {disk : Disk} {root : Path} (changes : Bool)
    (h : ∀ t, disk.find (root.join ⟨cartridgesDir⟩) = .ok t → t ≠ .locked) :
    ∃ cartridges,
      (openAt disk root changes []).Gives (.ok ⟨disk, root, changes, [], cartridges⟩) := by
  have hlist := gives_listCartridges disk (root.join ⟨cartridgesDir⟩)
  cases hdir : disk.directory? (root.join ⟨cartridgesDir⟩) with
  | none =>
    rw [hdir] at hlist
    exact ⟨_, gives_openAt hlist changes []⟩
  | some t =>
    obtain ⟨hfind, hdirectory⟩ := Disk.directory?_eq_some_iff.1 hdir
    have hask := (Disk.find_eq_ok_iff.1 hfind).1
    cases t with
    | directory es =>
      have hentries : (Tree.directory es).entriesAt (root.join ⟨cartridgesDir⟩) = .ok es := by
        rw [Tree.entriesAt, hask]
        rfl
      rw [hdir, Option.elim_some, hentries] at hlist
      exact ⟨_, gives_openAt hlist changes []⟩
    | locked => exact absurd rfl (h _ hfind)
    | _ => cases hdirectory

/-! ### What a selection gives -/

/-- What is left out is said by valid patterns, if those given are valid. -/
theorem LeavesOut.exists_parse (hcorpus : ∀ pattern ∈ c.exclude, ∃ ts, Glob.parse pattern = .ok ts)
    (hquery : ∀ pattern ∈ q.exclude, ∃ ts, Glob.parse pattern = .ok ts) {pattern : String}
    (h : c.LeavesOut q pattern) : ∃ ts, Glob.parse pattern = .ok ts := by
  cases h with
  | modules => exact ⟨_, rfl⟩
  | vendor => exact ⟨_, rfl⟩
  | changes on => exact ⟨_, rfl⟩
  | ofCorpus mem => exact hcorpus pattern mem
  | ofQuery mem => exact hquery pattern mem

/-- Names that no pattern covers are entered. -/
theorem entered_of_skipped {below : List String}
    (h : ∀ pattern ∈ c.skipped q, ∀ name ∈ below,
      (Glob.parse pattern).toOption.map (Glob.covers · name.toList) = some false) :
    ∀ name ∈ below, ∀ pattern, c.LeavesOut q pattern → ¬ Glob.Matches pattern name := by
  rintro name hname pattern hpattern ⟨ts, hts, hcovers⟩
  have hfalse := h pattern (mem_skipped_iff.2 hpattern) name hname
  rw [hts] at hfalse
  exact Bool.false_ne_true ((Option.some.inj hfalse).symm.trans hcovers)

/-- If no further patterns are given, names that the usual ones do not match are
entered. -/
theorem entered_of_not_covers (hcorpus : c.exclude = []) (hquery : q.exclude = [])
    {below : List String}
    (h : ∀ pattern ∈ alwaysExcluded ++ [changesCartridges], ∀ name ∈ below,
      (Glob.parse pattern).toOption.map (Glob.covers · name.toList) = some false) :
    ∀ name ∈ below, ∀ pattern, c.LeavesOut q pattern → ¬ Glob.Matches pattern name := by
  refine entered_of_skipped fun pattern hpattern => h pattern ?_
  rw [skipped, hcorpus, hquery, List.append_nil, List.append_nil] at hpattern
  rcases List.mem_append.1 hpattern with hpattern | hpattern
  · exact List.mem_append_left _ hpattern
  · split at hpattern
    · exact List.mem_append_right _ hpattern
    · cases hpattern

theorem canWalk_of_opens {dir : Path} {LeftOut : String → Prop} {t : Tree}
    (hfind : c.disk.find (c.root.join dir) = .ok t) (skip : String → Bool)
    (hskip : ∀ name, skip name = true → ∃ pattern, LeftOut pattern ∧ Glob.Matches pattern name)
    (h : t.opens skip (c.root.join dir) = true) : c.CanWalk dir LeftOut := by
  rintro below cause ⟨⟨t', u, ht', hu, hunreadable⟩, hentered⟩
  obtain rfl := Except.ok.inj (hfind.symm.trans (Disk.directory?_eq_some_iff.1 ht').1)
  refine Tree.not_unreadable_of_opens h hu ?_ cause hunreadable
  intro name hname
  rw [← Bool.not_eq_true]
  intro htrue
  obtain ⟨pattern, hleft, hmatches⟩ := hskip name htrue
  exact hentered name hname pattern hleft hmatches

/-- A file that a query finds, as it is read. -/
def fileBelow (c : Corpus) (q : FileQuery) (f : List String × FileContent) : SourceFile :=
  ⟨(c.root.join q.dir).descend f.1, Disk.textAt ((c.root.join q.dir).descend f.1) f.2⟩

theorem gives_files_of_directory {t : Tree}
    (h : c.disk.directory? (c.root.join q.dir) = some t) :
    (c.files q).Gives ((c.skipped q).mapM globOf >>= fun patterns =>
      filesBelow patterns (c.root.join q.dir) t >>= fun found =>
        .ok ((found.filter fun f => c.meets q f.1).map fun f => ⟨f.1, Disk.textAt f.1 f.2⟩)) := by
  unfold files
  extract_lets dir
  rw [show c.disk.directory? dir = some t from h]
  apply (Audit.gives_ofExcept _).bind
  intro patterns _
  apply (Audit.gives_ofExcept _).bind
  intro found _
  exact Audit.gives_pure _

theorem gives_files_of_nothing (h : c.disk.directory? (c.root.join q.dir) = none) :
    (c.files q).Gives (.ok []) := by
  unfold files
  extract_lets dir
  rw [show c.disk.directory? dir = none from h]
  exact (Audit.gives_notify _).bind_ok (Audit.gives_pure _)

/-- Of what a walk finds, a selection gives what meets the query. -/
theorem gives_files_of_found {t : Tree} {tss : List (List Glob.Token)}
    {found : List (List String × FileContent)}
    (h : c.disk.directory? (c.root.join q.dir) = some t)
    (htss : (c.skipped q).mapM globOf = .ok tss)
    (hfound : filesBelow tss (c.root.join q.dir) t =
      .ok (found.map fun f => ((c.root.join q.dir).descend f.1, f.2))) :
    (c.files q).Gives (.ok ((found.filter fun f =>
      c.meets q ((c.root.join q.dir).descend f.1)).map (c.fileBelow q))) := by
  have hkept : ((found.map fun f => ((c.root.join q.dir).descend f.1, f.2)).filter
      fun f => c.meets q f.1).map (fun f => (⟨f.1, Disk.textAt f.1 f.2⟩ : SourceFile)) =
      (found.filter fun f => c.meets q ((c.root.join q.dir).descend f.1)).map (c.fileBelow q) := by
    rw [List.filter_map, List.map_map]
    rfl
  intro notices
  rw [gives_files_of_directory h notices]
  exact bind_eq_ok_iff.2 ⟨tss, htss, bind_eq_ok_iff.2 ⟨_, hfound, congrArg Except.ok hkept⟩⟩

theorem gives_files_of_refused {t : Tree} {tss : List (List Glob.Token)} {e : AuditError}
    (h : c.disk.directory? (c.root.join q.dir) = some t)
    (htss : (c.skipped q).mapM globOf = .ok tss)
    (hfound : filesBelow tss (c.root.join q.dir) t = .error e) : (c.files q).Gives (.error e) := by
  intro notices
  rw [gives_files_of_directory h notices]
  exact bind_eq_error_iff.2 (.inr ⟨tss, htss, bind_eq_error_iff.2 (.inl hfound)⟩)

section Walk

variable {t : Tree} {tss : List (List Glob.Token)} {below : List String}

theorem exists_mapM_skipped (h : ∀ pattern, c.LeavesOut q pattern →
    ∃ ts, Glob.parse pattern = .ok ts) : ∃ tss, (c.skipped q).mapM globOf = .ok tss := by
  apply exists_mapM_eq_ok
  intro pattern hpattern
  obtain ⟨ts, hts⟩ := h pattern (mem_skipped_iff.1 hpattern)
  exact ⟨ts, globOf_eq_ok_iff.2 hts⟩

/-- Where there is no directory, nothing is below. -/
theorem not_selects_of_nothing (h : c.disk.directory? (c.root.join q.dir) = none)
    (content : FileContent) : ¬ c.Selects q below content := by
  rintro ⟨⟨t, hfind, hfile⟩, hne, -⟩
  obtain ⟨name, rest, rfl⟩ := List.exists_cons_of_ne_nil hne
  obtain ⟨es, _, rfl, -⟩ := Tree.at?_cons_eq_some_iff.1 hfile
  cases h.symm.trans (Disk.directory?_eq_some_iff.2 ⟨hfind, rfl⟩)

/-- What is refused is what the walk comes to and cannot read. -/
theorem isRefused_iff_mem_walk (hdirectory : c.disk.directory? (c.root.join q.dir) = some t)
    (ht : t.WellNamed) (htss : (c.skipped q).mapM globOf = .ok tss) {cause : FileError} :
    c.IsRefused q.dir (c.LeavesOut q) below cause ↔
      ∃ u, (below, u) ∈ t.walk (skips tss) ∧
        u.Unreadable ((c.root.join q.dir).descend below) cause := by
  simp only [Tree.mem_walk_iff ht, skips_eq_false_iff htss]
  constructor
  · rintro ⟨⟨t', u, ht', hu, hunreadable⟩, hentered⟩
    obtain rfl := Option.some.inj (hdirectory.symm.trans ht')
    exact ⟨u, ⟨hu, hentered⟩, hunreadable⟩
  · rintro ⟨u, ⟨hu, hentered⟩, hunreadable⟩
    exact ⟨⟨t, u, hdirectory, hu, hunreadable⟩, hentered⟩

/-- What is asked for is what the walk finds and what meets the query. -/
theorem selects_iff_mem_filesOf (hdirectory : c.disk.directory? (c.root.join q.dir) = some t)
    (ht : t.WellNamed) (htss : (c.skipped q).mapM globOf = .ok tss)
    (hdir : q.dir.isAbsolute = false) {content : FileContent} :
    c.Selects q below content ↔ (below, content) ∈ t.filesOf (skips tss) ∧
      c.meets q ((c.root.join q.dir).descend below) = true := by
  obtain ⟨hfind, hdirectory⟩ := Disk.directory?_eq_some_iff.1 hdirectory
  simp only [Tree.mem_filesOf_iff ht, skips_eq_false_iff htss]
  constructor
  · rintro ⟨⟨t', hfind', hfile⟩, hne, hentered, hending, hpart, hgeneration⟩
    obtain rfl := Except.ok.inj (hfind.symm.trans hfind')
    exact ⟨⟨hfile, hentered⟩,
      (meets_descend_iff hdir hne (ht.at? hfile).2).2 ⟨hending, hpart, hgeneration⟩⟩
  · rintro ⟨⟨hfile, hentered⟩, hmeets⟩
    have hne : below ≠ [] := by
      rintro rfl
      obtain rfl := Option.some.inj ((Tree.at?_nil t).symm.trans hfile)
      cases hdirectory
    obtain ⟨hending, hpart, hgeneration⟩ :=
      (meets_descend_iff hdir hne (ht.at? hfile).2).1 hmeets
    exact ⟨⟨t, hfind, hfile⟩, hne, hentered, hending, hpart, hgeneration⟩

/-- A selection gives the files that are asked for, in the order of their names, or it
fails with the first directory that cannot be read. -/
theorem gives_files_cases (hnames : c.disk.root.WellNamed)
    (hvalid : ∀ pattern, c.LeavesOut q pattern → ∃ ts, Glob.parse pattern = .ok ts)
    (hdir : q.dir.isAbsolute = false) :
    (c.CanWalk q.dir (c.LeavesOut q) ∧ ∃ found : List (List String × FileContent),
      (c.files q).Gives (.ok (found.map (c.fileBelow q))) ∧
      (∀ below content, (below, content) ∈ found ↔ c.Selects q below content) ∧
      found.Pairwise fun a b => a.1 < b.1) ∨
    ∃ below cause, c.IsFirstRefused q.dir (c.LeavesOut q) below cause ∧
      (c.files q).Gives (.error (.walk ((c.root.join q.dir).descend below).text cause)) := by
  cases hfound : c.disk.directory? (c.root.join q.dir) with
  | none =>
    refine .inl ⟨?_, [], gives_files_of_nothing hfound, ?_, List.Pairwise.nil⟩
    · rintro below cause ⟨⟨t, u, ht, -⟩, -⟩
      cases hfound.symm.trans ht
    · intro below content
      exact ⟨fun h => (List.not_mem_nil h).elim, fun h => (not_selects_of_nothing hfound _ h).elim⟩
  | some t =>
    obtain ⟨tss, htss⟩ := exists_mapM_skipped hvalid
    have ht := Disk.wellNamed_of_find hnames (Disk.directory?_eq_some_iff.1 hfound).1
    rcases filesBelow_cases tss (c.root.join q.dir) ht with
      ⟨hreadable, hfiles⟩ | ⟨⟨below, u⟩, hmem, cause, hunreadable, hfirst, hfails⟩
    · refine .inl ⟨?_, _, gives_files_of_found hfound htss hfiles, ?_, ?_⟩
      · intro below cause h
        obtain ⟨u, hmem, hunreadable⟩ := (isRefused_iff_mem_walk hfound ht htss).1 h
        exact hreadable _ hmem cause hunreadable
      · intro below content
        rw [List.mem_filter, selects_iff_mem_filesOf hfound ht htss hdir]
      · exact (Tree.pairwise_filesOf _ ht).filter _
    · refine .inr ⟨below, cause, ⟨?_, ?_⟩, gives_files_of_refused hfound htss hfails⟩
      · exact (isRefused_iff_mem_walk hfound ht htss).2 ⟨u, hmem, hunreadable⟩
      · intro other cause' hother
        obtain ⟨v, hv, hv'⟩ := (isRefused_iff_mem_walk hfound ht htss).1 hother
        exact hfirst _ hv cause' hv'

end Walk

theorem Selects.isName {below : List String} {content : FileContent}
    (h : c.Selects q below content) (hnames : c.disk.root.WellNamed) :
    ∀ name ∈ below, IsName name := by
  obtain ⟨t, hfind, hfile⟩ := h.isFile
  exact ((Disk.wellNamed_of_find hnames hfind).at? hfile).2

end Corpus

end CartridgeAudit
