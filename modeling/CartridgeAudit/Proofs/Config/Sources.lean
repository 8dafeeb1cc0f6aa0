/-
CartridgeAudit/Proofs/Config/Sources.lean

Which configuration counts for an audited path.

The search for a project's configuration asks at every directory whether one above
it holds cartridges, and goes on only if one does.  What it visits is nevertheless
simple to say: the directories from the audited path up to the nearest one that
holds cartridges, or the audited path alone if none does (`Searched`).  The equation
is `Searched.configAbove_eq`, an induction over the directories below the root; in
each of them the root is still among those above, so the search goes on.

`IsSource` says where a configuration has to come from without the search, and
`ConfigSource.resolve_nearest` that this is what the search answers.
-/
import CartridgeAudit.Config.Lookup
import CartridgeAudit.Proofs.Project.Ancestors

namespace CartridgeAudit

open CartridgeAudit.Path

variable {d : Disk} {audited root dir p : Path} {below above dirs : List Path}

/-! ### The configuration of a directory -/

/-- The configuration file of a directory: the plain name counts before the hidden one. -/
inductive ConfigOf (d : Disk) (dir : Path) : Path → Prop
  | plain : d.isFile (dir.join ⟨"cartridge-lint.toml"⟩) = true →
      ConfigOf d dir (dir.join ⟨"cartridge-lint.toml"⟩)
  | hidden : d.isFile (dir.join ⟨"cartridge-lint.toml"⟩) = false →
      d.isFile (dir.join ⟨".cartridge-lint.toml"⟩) = true →
      ConfigOf d dir (dir.join ⟨".cartridge-lint.toml"⟩)

theorem configIn_eq_some_iff : configIn d dir = some p ↔ ConfigOf d dir p := by
  rw [configIn, configNames, List.map_cons, List.map_cons, List.map_nil]
  constructor
  · intro h
    cases hplain : d.isFile (dir.join ⟨"cartridge-lint.toml"⟩) with
    | true =>
      rw [List.find?_cons_of_pos hplain] at h
      obtain rfl := Option.some.inj h
      exact .plain hplain
    | false =>
      rw [List.find?_cons_of_neg (by simp [hplain])] at h
      cases hhidden : d.isFile (dir.join ⟨".cartridge-lint.toml"⟩) with
      | true =>
        rw [List.find?_cons_of_pos hhidden] at h
        obtain rfl := Option.some.inj h
        exact .hidden hplain hhidden
      | false =>
        rw [List.find?_cons_of_neg (by simp [hhidden])] at h
        cases h
  · intro h
    cases h with
    | plain hplain => rw [List.find?_cons_of_pos hplain]
    | hidden hplain hhidden =>
      rw [List.find?_cons_of_neg (by simp [hplain]), List.find?_cons_of_pos hhidden]

theorem configIn_eq_none_iff : configIn d dir = none ↔ ∀ p, ¬ ConfigOf d dir p := by
  rw [Option.eq_none_iff_forall_ne_some]
  exact forall_congr' fun p => not_congr configIn_eq_some_iff

/-- `p` is the configuration of the first of the directories that has one. -/
def FirstConfig (d : Disk) (dirs : List Path) (p : Path) : Prop :=
  ∃ nearer dir farther, dirs = nearer ++ dir :: farther ∧
    (∀ other ∈ nearer, ∀ q, ¬ ConfigOf d other q) ∧ ConfigOf d dir p

theorem findSome?_configIn_eq_some_iff :
    dirs.findSome? (configIn d) = some p ↔ FirstConfig d dirs p := by
  rw [List.findSome?_eq_some_iff]
  constructor
  · rintro ⟨nearer, dir, farther, rfl, hdir, hnearer⟩
    exact ⟨nearer, dir, farther, rfl,
      fun other hother => configIn_eq_none_iff.1 (hnearer other hother),
      configIn_eq_some_iff.1 hdir⟩
  · rintro ⟨nearer, dir, farther, rfl, hnearer, hdir⟩
    exact ⟨nearer, dir, farther, rfl, configIn_eq_some_iff.2 hdir,
      fun other hother => configIn_eq_none_iff.2 (hnearer other hother)⟩

/-! ### The directories of a project -/

/-- `root` is the nearest directory at or above the audited path that holds cartridges;
`below` are those passed on the way. -/
structure IsRoot (d : Disk) (audited : Path) (below : List Path) (root : Path) : Prop where
  climbs : Climbs audited below root
  holds : holdsCartridges d root = true
  nearest : ∀ b ∈ below, holdsCartridges d b = false

/-- The directories whose configuration counts for an audited path, the nearest first. -/
inductive Searched (d : Disk) (audited : Path) : List Path → Prop
  | upTo {below : List Path} {root : Path} : IsRoot d audited below root →
      Searched d audited (below ++ [root])
  | alone : (∀ below root, ¬ IsRoot d audited below root) → Searched d audited [audited]

theorem exists_searched (d : Disk) (audited : Path) : ∃ dirs, Searched d audited dirs := by
  by_cases hroot : ∃ below root, IsRoot d audited below root
  · obtain ⟨below, root, hroot⟩ := hroot
    exact ⟨_, .upTo hroot⟩
  · exact ⟨_, .alone fun below root h => hroot ⟨below, root, h⟩⟩

/-- Without a root no directory at or above the path holds cartridges. -/
theorem holdsCartridges_eq_false_of_mem_ancestors (h : ∀ below root, ¬ IsRoot d audited below root)
    (hdir : dir ∈ audited.ancestors) : holdsCartridges d dir = false := by
  cases hfind : audited.ancestors.find? (holdsCartridges d) with
  | none => simpa using List.find?_eq_none.1 hfind dir hdir
  | some root =>
    obtain ⟨hholds, below, above, hancestors, hbelow⟩ := List.find?_eq_some_iff_append.1 hfind
    exact absurd ⟨climbs_of_ancestors hancestors, hholds, fun b hb => by simpa using hbelow b hb⟩
      (h below root)

/-! ### The search -/

/-- Up to the root the search goes on, since the root is above. -/
theorem configAbove_root (hroot : holdsCartridges d root = true)
    (hbelow : ∀ b ∈ below, holdsCartridges d b = false) :
    configAbove d (below ++ root :: above) = (below ++ [root]).findSome? (configIn d) := by
  induction below with
  | nil =>
    rw [List.nil_append, List.nil_append, configAbove, List.findSome?_cons, List.findSome?_nil]
    cases configIn d root with
    | some p => rfl
    | none => simp [hroot]
  | cons b below ih =>
    obtain ⟨hb, hrest⟩ := List.forall_mem_cons.1 hbelow
    have hinside : (below ++ root :: above).any (holdsCartridges d) = true :=
      List.any_eq_true.2 ⟨root, by simp, hroot⟩
    rw [List.cons_append, List.cons_append, configAbove, List.findSome?_cons]
    cases configIn d b with
    | some p => rfl
    | none => simpa [hb, hinside] using ih hrest

/-- Where nothing above holds cartridges, the search ends at once. -/
theorem configAbove_alone (h : above.any (holdsCartridges d) = false) :
    configAbove d (dir :: above) = configIn d dir := by
  rw [configAbove]
  cases configIn d dir with
  | some p => rfl
  | none => simp [h]

/-- **The search visits the directories of the project**, and no others. -/
theorem Searched.configAbove_eq (h : Searched d audited dirs) :
    configAbove d audited.ancestors = dirs.findSome? (configIn d) := by
  cases h with
  | @upTo below root hroot =>
    obtain ⟨above, habove⟩ := hroot.climbs.exists_ancestors
    rw [habove, configAbove_root hroot.holds hroot.nearest]
  | alone hnone =>
    have hholds : ∀ dir ∈ audited.ancestors, holdsCartridges d dir = false := fun dir hdir =>
      holdsCartridges_eq_false_of_mem_ancestors hnone hdir
    rw [ancestors_eq] at hholds ⊢
    rw [configAbove_alone, List.findSome?_singleton]
    rw [List.any_eq_false]
    intro dir hdir
    simp [hholds dir (List.mem_cons_of_mem _ hdir)]

theorem Searched.configAbove_eq_some_iff (h : Searched d audited dirs) :
    configAbove d audited.ancestors = some p ↔ FirstConfig d dirs p := by
  rw [h.configAbove_eq, findSome?_configIn_eq_some_iff]

theorem Searched.configAbove_eq_none_iff (h : Searched d audited dirs) :
    configAbove d audited.ancestors = none ↔ ∀ p, ¬ FirstConfig d dirs p := by
  rw [Option.eq_none_iff_forall_ne_some]
  exact forall_congr' fun p => not_congr h.configAbove_eq_some_iff

/-- A configuration that is found lies in the root or below it. -/
theorem IsRoot.exists_mem_of_configAbove (h : IsRoot d audited below root)
    (hp : configAbove d audited.ancestors = some p) :
    ∃ dir ∈ below ++ [root], ConfigOf d dir p := by
  obtain ⟨nearer, dir, farther, hdirs, -, hdir⟩ := (Searched.upTo h).configAbove_eq_some_iff.1 hp
  exact ⟨dir, hdirs ▸ List.mem_append_right _ List.mem_cons_self, hdir⟩

/-! ### Above the root -/

theorem isName_of_mem_configNames : ∀ name ∈ configNames, IsName name := by decide +kernel

theorem ConfigOf.length_components (h : ConfigOf d dir p) :
    p.components.length = dir.components.length + 1 := by
  cases h <;> rw [components_join_name dir (by decide +kernel), List.length_append] <;> rfl

/-- **Nothing above the root counts**: a file there is not what is found. -/
theorem IsRoot.configAbove_ne (h : IsRoot d audited below root) {passed : List Path}
    (hdir : Climbs root passed dir) (hpassed : passed ≠ []) {name : String} (hname : IsName name) :
    configAbove d audited.ancestors ≠ some (dir.join ⟨name⟩) := by
  intro hfound
  obtain ⟨other, hother, hconfig⟩ := h.exists_mem_of_configAbove hfound
  -- the directory of what is found has more components
  have hlength := hconfig.length_components
  rw [components_join_name dir hname, List.length_append, List.length_singleton] at hlength
  have habove := hdir.length_components_lt hpassed
  rcases List.mem_append.1 hother with hother | hother
  · have := h.climbs.length_components_lt_of_mem hother
    omega
  · obtain rfl := List.mem_singleton.1 hother
    omega

/-! ### Sources -/

/-- Where the configuration for an audited path has to come from, given the file that the
user names and the directory for all projects. -/
inductive IsSource (d : Disk) (audited : Path) : Option Path → Option Path → ConfigSource → Prop
  | named {sharedDir : Option Path} (p : Path) : IsSource d audited (some p) sharedDir (.explicit p)
  | project {sharedDir : Option Path} {dirs : List Path} {p : Path} : Searched d audited dirs →
      FirstConfig d dirs p → IsSource d audited none sharedDir (.project p)
  | shared {dir : Path} {dirs : List Path} : Searched d audited dirs →
      (∀ p, ¬ FirstConfig d dirs p) → d.isFile (dir.join ⟨"config.toml"⟩) = true →
      IsSource d audited none (some dir) (.shared (dir.join ⟨"config.toml"⟩))
  | standard {sharedDir : Option Path} {dirs : List Path} : Searched d audited dirs →
      (∀ p, ¬ FirstConfig d dirs p) →
      (∀ dir, sharedDir = some dir → d.isFile (dir.join ⟨"config.toml"⟩) = false) →
      IsSource d audited none sharedDir .standard

namespace ConfigSource

variable {named sharedDir : Option Path} {s : ConfigSource}

theorem isSource_resolve (d : Disk) (audited : Path) (named sharedDir : Option Path) :
    IsSource d audited named sharedDir (resolve d audited named sharedDir) := by
  cases named with
  | some p => exact .named p
  | none =>
    obtain ⟨dirs, hdirs⟩ := exists_searched d audited
    simp only [resolve]
    cases hfound : configAbove d audited.ancestors with
    | some p => exact .project hdirs (hdirs.configAbove_eq_some_iff.1 hfound)
    | none =>
      have hnone := hdirs.configAbove_eq_none_iff.1 hfound
      cases sharedDir with
      | none => exact .standard hdirs hnone fun dir h => by cases h
      | some dir =>
        cases hfile : d.isFile (dir.join ⟨sharedConfigName⟩) with
        | true =>
          simp only [Option.map_some, Option.filter_some, hfile]
          exact .shared hdirs hnone hfile
        | false =>
          simp only [Option.map_some, Option.filter_some, hfile]
          refine .standard hdirs hnone fun other h => ?_
          obtain rfl := Option.some.inj h
          exact hfile

theorem resolve_eq_of_isSource (h : IsSource d audited named sharedDir s) :
    resolve d audited named sharedDir = s := by
  cases h with
  | named p => rfl
  | project hdirs hp => simp only [resolve, hdirs.configAbove_eq_some_iff.2 hp]
  | shared hdirs hnone hfile =>
    simp only [resolve, hdirs.configAbove_eq_none_iff.2 hnone, Option.map_some, Option.filter_some,
      sharedConfigName, hfile, if_true]
  | standard hdirs hnone hfile =>
    simp only [resolve, hdirs.configAbove_eq_none_iff.2 hnone]
    cases hdir : sharedDir with
    | none => rfl
    | some dir =>
      simp only [sharedConfigName, Option.map_some, Option.filter_some, hfile dir hdir]
      rfl

/-- **The configuration is the nearest one of the project**: the file that the user names
counts first; else the nearest one between the audited path and the directory with the
cartridges, with the plain name before the hidden one, or, where no directory holds
cartridges, the one of the audited path itself; else the one for all projects, if it is a file;
else the standard one.  A file above the directory with the cartridges is never used. -/
theorem resolve_nearest (d : Disk) (audited : Path) (named sharedDir : Option Path) :
    (∀ s, resolve d audited named sharedDir = s ↔ IsSource d audited named sharedDir s) ∧
      ∀ below root passed dir, IsRoot d audited below root → Climbs root passed dir → passed ≠ [] →
        ∀ name ∈ configNames, resolve d audited named sharedDir ≠ .project (dir.join ⟨name⟩) := by
  refine ⟨fun s => ⟨?_, resolve_eq_of_isSource⟩, ?_⟩
  · rintro rfl
    exact isSource_resolve d audited named sharedDir
  · intro below root passed dir hroot hdir hpassed name hname hresolve
    have hsource := isSource_resolve d audited named sharedDir
    rw [hresolve] at hsource
    cases hsource with
    | project hdirs hp =>
      exact hroot.configAbove_ne hdir hpassed (isName_of_mem_configNames name hname)
        (hdirs.configAbove_eq_some_iff.2 hp)

/-- A repository with a hidden configuration, below a directory with a plain one. -/
def repositoryBelowConfig : Disk where
  root := .directory [("outer", .directory
    [("cartridge-lint.toml", .file (.ok .empty)),
      ("repo", .directory
        [(".cartridge-lint.toml", .file (.ok .empty)),
          ("cartridges", .directory [("app", .directory [])])])])]
  current := ⟨"/"⟩

/-- For a cartridge the configuration of its repository counts, and not the one above. -/
theorem resolve_repositoryBelowConfig :
    resolve repositoryBelowConfig ⟨"/outer/repo/cartridges/app"⟩ none none =
        .project ⟨"/outer/repo/.cartridge-lint.toml"⟩ ∧
      resolve repositoryBelowConfig ⟨"/outer/repo/cartridges/app"⟩ none none ≠
        .project ((Path.mk "/outer").join ⟨"cartridge-lint.toml"⟩) := by
  have hroot : IsRoot repositoryBelowConfig ⟨"/outer/repo/cartridges/app"⟩
      [⟨"/outer/repo/cartridges/app"⟩, ⟨"/outer/repo/cartridges"⟩] ⟨"/outer/repo"⟩ := by
    refine ⟨.up ?_ (.up ?_ (.here _)), ?_, ?_⟩ <;> decide +kernel
  have hconfig : ConfigOf repositoryBelowConfig ⟨"/outer/repo"⟩
      ⟨"/outer/repo/.cartridge-lint.toml"⟩ :=
    configIn_eq_some_iff.1 (by decide +kernel)
  have hnone : ∀ other ∈ [Path.mk "/outer/repo/cartridges/app", ⟨"/outer/repo/cartridges"⟩],
      configIn repositoryBelowConfig other = none := by decide +kernel
  obtain ⟨hsource, habove⟩ :=
    resolve_nearest repositoryBelowConfig ⟨"/outer/repo/cartridges/app"⟩ none none
  constructor
  · refine (hsource _).2 (.project (.upTo hroot) ⟨_, _, [], rfl, ?_, hconfig⟩)
    exact fun other hother => configIn_eq_none_iff.1 (hnone other hother)
  · refine habove _ _ [⟨"/outer/repo"⟩] ⟨"/outer"⟩ hroot (.up ?_ (.here _)) (by simp) _ ?_
    · decide +kernel
    · decide +kernel

end ConfigSource

end CartridgeAudit
