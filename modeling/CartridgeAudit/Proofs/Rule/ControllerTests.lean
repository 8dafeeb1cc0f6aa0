/-
CartridgeAudit/Proofs/Rule/ControllerTests.lean

Integration tests of controllers.

A controller is judged by one test file: of the files whose names end with the
controller's name, the first one in the order of their names.  That need not be
the file that is named like the controller.  If the first one has enough cases,
nothing is reported (`controllerJsonTests_passes_iff`); a file in front of the
right one, with fewer cases, hides it (`controllerJsonTests_reports_tested`).
-/
import CartridgeAudit.Proofs.Project.Selection
import CartridgeAudit.Rule.Controllers

namespace CartridgeAudit.Rule

/-! ### Test files -/

/-- The endpoints of a controller that have to be tested. -/
def jsonEndpoints (endpoints : List Script.Endpoint) : List Script.Endpoint :=
  endpoints.filter answersJson

/-- The text of a file can be read and has so many test cases. -/
def HasCases (f : SourceFile) (n : Nat) : Prop := ∃ t, f.content = .ok t ∧ n ≤ testCases t

/-- An integration test, as it is read. -/
def testFile (c : Corpus) (f : List String × FileContent) : SourceFile :=
  c.fileBelow Selection.integrationTests f

/-- The directories with integration tests can be read. -/
def CanList (c : Corpus) : Prop :=
  c.CanWalk Selection.integrationTests.dir (c.LeavesOut Selection.integrationTests)

/-- An integration test is taken for one of a controller: its name ends with that
of the controller. -/
structure IsTestOf (c : Corpus) (name : String) (below : List String) (content : FileContent) :
    Prop where
  selects : c.Selects Selection.integrationTests below content
  endsWith : ∃ last, below.getLast? = some last ∧ name.toList <:+ last.toList

/-- The integration test by which a controller is judged: none comes before it. -/
structure IsFirstTestOf (c : Corpus) (name : String) (below : List String)
    (content : FileContent) : Prop extends IsTestOf c name below content where
  first : ∀ below' content', IsTestOf c name below' content' → ¬ below' < below

/-- The first of an ordered list comes before all others. -/
theorem eq_or_of_find?_eq_some {α : Type} {R : α → α → Prop} {l : List α} {p : α → Bool} {a : α}
    (hl : l.Pairwise R) (h : l.find? p = some a) : ∀ b ∈ l, p b = true → b = a ∨ R a b := by
  obtain ⟨-, before, after, rfl, hbefore⟩ := List.find?_eq_some_iff_append.1 h
  intro b hb hp
  rcases List.mem_append.1 hb with hb | hb
  · have hnot := hbefore b hb
    rw [hp] at hnot
    cases hnot
  · rcases List.mem_cons.1 hb with rfl | hb
    · exact .inl rfl
    · exact .inr ((List.pairwise_cons.1 (List.pairwise_append.1 hl).2.1).1 b hb)

section

variable {v : FileView} {endpoints : List Script.Endpoint} {tests : List SourceFile}

/-- Nothing is wrong if the first test has enough cases. -/
theorem jsonTestIssue_eq_none_iff {name : String} :
    jsonTestIssue name endpoints tests = .ok none ↔
      ∃ test t, tests.find? (testsFile name) = some test ∧ test.content = .ok t ∧
        endpoints.length ≤ testCases t := by
  rw [jsonTestIssue]
  cases tests.find? (testsFile name) with
  | none => simp
  | some test =>
    cases hcontent : test.content with
    | error e => simp [hcontent]
    | ok t =>
      by_cases hfew : testCases t < endpoints.length
      · simp [hcontent, hfew]
      · simp [hcontent, hfew, Nat.not_lt.1 hfew]

/-- The steps of the check, once the endpoints are found. -/
theorem gives_check (hok : Script.endpoints v.content = .ok endpoints)
    {r : Except AuditError (List SourceFile)}
    (hfiles : (v.corpus.files Selection.integrationTests).Gives r) :
    (controllerJsonTests.check v).Gives
      ((jsonEndpoints endpoints).head?.elim (.ok []) fun first => r >>= fun tests =>
        jsonTestIssue v.file.path.fileName (jsonEndpoints endpoints) tests >>= fun issue =>
          issue.elim (.ok []) fun issue =>
            Violation.new issue.toList first.start >>= fun w => .ok [w]) := by
  show Audit.Gives (Audit.ofExcept (Script.endpoints v.content) >>= fun es => _) _
  rw [hok]
  refine (Audit.gives_ofExcept _).bind_ok ?_
  rw [jsonEndpoints]
  generalize endpoints.filter answersJson = json
  cases json with
  | nil => exact Audit.gives_pure []
  | cons first rest =>
    refine hfiles.bind fun tests _ => (Audit.gives_ofExcept _).bind fun issue _ => ?_
    cases issue with
    | none => exact Audit.gives_pure []
    | some issue =>
      refine (Audit.gives_ofExcept _).bind (g := fun w => .ok [w]) fun w _ => ?_
      exact Audit.gives_pure [w]

theorem check_eq_nil_iff (hok : Script.endpoints v.content = .ok endpoints)
    {r : Except AuditError (List SourceFile)}
    (hfiles : (v.corpus.files Selection.integrationTests).Gives r) (notices : List Notice) :
    (controllerJsonTests.check v notices).1 = .ok [] ↔ jsonEndpoints endpoints = [] ∨
      ∃ tests, r = .ok tests ∧
        jsonTestIssue v.file.path.fileName (jsonEndpoints endpoints) tests = .ok none := by
  rw [gives_check hok hfiles notices]
  cases jsonEndpoints endpoints with
  | nil => simp
  | cons first rest =>
    show (r >>= fun tests => jsonTestIssue _ (first :: rest) tests >>= _) = _ ↔ _
    rw [bind_eq_ok_iff]
    constructor
    · rintro ⟨tests, hr, hcheck⟩
      obtain ⟨_ | issue, hissue, hnil⟩ := bind_eq_ok_iff.1 hcheck
      · exact .inr ⟨tests, hr, hissue⟩
      · obtain ⟨w, -, hw⟩ := bind_eq_ok_iff.1 hnil
        cases hw
    · rintro (hnil | ⟨tests, hr, hnone⟩)
      · cases hnil
      · exact ⟨tests, hr, bind_eq_ok_iff.2 ⟨none, hnone, rfl⟩⟩

end

/-! ### The first test file -/

section

variable {c : Corpus} {name : String}

variable {found : List (List String × FileContent)} {below : List String} {content : FileContent}
variable (hnames : c.disk.root.WellNamed)
variable (hfound : ∀ below content, (below, content) ∈ found ↔
  c.Selects Selection.integrationTests below content)

include hnames hfound

/-- A test of a controller is known by the name at the end of its path. -/
theorem testsFile_testFile_iff {f : List String × FileContent} (hf : f ∈ found) :
    testsFile name (testFile c f) = true ↔ IsTestOf c name f.1 f.2 := by
  have hselects := (hfound f.1 f.2).1 hf
  have hlast := List.getLast?_eq_getLast_of_ne_nil hselects.isBelow
  rw [testsFile, testFile, Corpus.fileBelow,
    Path.fileName_descend _ (hselects.isName hnames) hselects.isBelow, Text.endsWith_iff]
  constructor
  · exact fun hends => ⟨hselects, _, hlast, hends⟩
  · rintro ⟨-, last, hsome, hends⟩
    rw [hlast] at hsome
    rwa [Option.some.inj hsome]

theorem isTestOf_of_find?_eq_some {f : List String × FileContent}
    (h : found.find? (fun f => testsFile name (testFile c f)) = some f) :
    IsTestOf c name f.1 f.2 := by
  have htest : testsFile name (testFile c f) = true :=
    List.find?_some (p := fun f => testsFile name (testFile c f)) h
  exact (testsFile_testFile_iff hnames hfound (List.mem_of_find?_eq_some h)).1 htest

/-- Where there is a test, there is a first one, which is this one or comes
before it. -/
theorem exists_find?_of_isTestOf (hordered : found.Pairwise fun f g => f.1 < g.1)
    (h : IsTestOf c name below content) :
    ∃ f, found.find? (fun f => testsFile name (testFile c f)) = some f ∧
      ((below, content) = f ∨ f.1 < below) := by
  have hmem := (hfound below content).2 h.selects
  have htest := (testsFile_testFile_iff hnames hfound hmem).2 h
  cases hfind : found.find? fun f => testsFile name (testFile c f) with
  | none => exact absurd htest (List.find?_eq_none.1 hfind _ hmem)
  | some f => exact ⟨f, rfl, eq_or_of_find?_eq_some hordered hfind _ hmem htest⟩

/-- The first test that is found is the one by which the controller is judged. -/
theorem find?_eq_some_iff_isFirstTestOf (hordered : found.Pairwise fun f g => f.1 < g.1) :
    found.find? (fun f => testsFile name (testFile c f)) = some (below, content) ↔
      IsFirstTestOf c name below content := by
  constructor
  · intro hfind
    refine ⟨isTestOf_of_find?_eq_some hnames hfound hfind, fun below' content' htest' hlt => ?_⟩
    obtain ⟨f, hf, heq | hlt'⟩ := exists_find?_of_isTestOf hnames hfound hordered htest'
    · rw [hfind, ← heq] at hf
      obtain rfl := (Prod.mk.inj (Option.some.inj hf)).1
      exact List.lt_irrefl _ hlt
    · obtain rfl := Option.some.inj (hfind.symm.trans hf)
      exact List.lt_asymm hlt hlt'
  · intro h
    obtain ⟨f, hf, heq | hlt⟩ := exists_find?_of_isTestOf hnames hfound hordered
      h.toIsTestOf
    · rw [hf, heq]
    · exact absurd hlt (h.first _ _ (isTestOf_of_find?_eq_some hnames hfound hf))

end

section

variable {disk : Disk} {root : Path} {changes : Bool} {exclude : List String}
  {opening : List Notice}

/-- The integration tests of a corpus, in the order of their names, unless a directory
cannot be read. -/
theorem exists_tests {c : Corpus}
    (hopen : (Corpus.openAt disk root changes exclude opening).1 = .ok c)
    (hnames : disk.root.WellNamed) :
    c.disk.root.WellNamed ∧ ((CanList c ∧ ∃ found : List (List String × FileContent),
      (c.files Selection.integrationTests).Gives (.ok (found.map (testFile c))) ∧
      (∀ below content, (below, content) ∈ found ↔
        c.Selects Selection.integrationTests below content) ∧
      found.Pairwise fun f g => f.1 < g.1) ∨
    ¬ CanList c ∧ ∃ e, (c.files Selection.integrationTests).Gives (.error e)) := by
  obtain ⟨rfl, -, -, rfl, hparse, -⟩ := Corpus.openAt_eq_ok hopen
  refine ⟨hnames, ?_⟩
  rcases Corpus.gives_files_cases hnames
    (fun _ => Corpus.LeavesOut.exists_parse hparse fun _ h => absurd h List.not_mem_nil)
    (q := Selection.integrationTests) (by decide +kernel) with
      hgives | ⟨below, cause, hrefused, hfails⟩
  · exact .inl hgives
  · exact .inr ⟨fun hcan => hcan below cause hrefused.toIsRefused, _, hfails⟩

/-- Where there is a test, there is a first one. -/
theorem exists_isFirstTestOf {c : Corpus}
    (hopen : (Corpus.openAt disk root changes exclude opening).1 = .ok c)
    (hnames : disk.root.WellNamed) (hcan : CanList c) {name : String} {below : List String}
    {content : FileContent} (h : IsTestOf c name below content) :
    ∃ below' content', IsFirstTestOf c name below' content' ∧
      ((below, content) = (below', content') ∨ below' < below) := by
  obtain ⟨hnames, ⟨-, found, -, hfound, hordered⟩ | ⟨hno, -⟩⟩ := exists_tests hopen hnames
  · obtain ⟨f, hfind, hf⟩ := exists_find?_of_isTestOf hnames hfound hordered h
    exact ⟨f.1, f.2, (find?_eq_some_iff_isFirstTestOf hnames hfound hordered).1 hfind, hf⟩
  · exact absurd hcan hno

variable {v : FileView} {endpoints : List Script.Endpoint}

/-- Nothing is reported if the first test has enough cases. -/
theorem check_eq_nil_iff_isFirstTestOf
    (hopen : (Corpus.openAt disk root changes exclude opening).1 = .ok v.corpus)
    (hnames : disk.root.WellNamed) (hok : Script.endpoints v.content = .ok endpoints)
    (notices : List Notice) :
    (controllerJsonTests.check v notices).1 = .ok [] ↔ jsonEndpoints endpoints = [] ∨
      CanList v.corpus ∧
      ∃ below content, IsFirstTestOf v.corpus v.file.path.fileName below content ∧
        HasCases (testFile v.corpus (below, content)) (jsonEndpoints endpoints).length := by
  obtain ⟨hnames, ⟨hcan, found, hgives, hfound, hordered⟩ | ⟨hno, e, hfails⟩⟩ :=
    exists_tests hopen hnames
  swap
  · rw [check_eq_nil_iff hok hfails]
    refine or_congr_right ⟨?_, fun h => absurd h.1 hno⟩
    rintro ⟨tests, htests, -⟩
    cases htests
  rw [check_eq_nil_iff hok hgives]
  refine or_congr_right ⟨?_, ?_⟩
  · rintro ⟨tests, htests, hnone⟩
    obtain rfl := Except.ok.inj htests
    obtain ⟨test, t, hfind, hcontent, hcases⟩ := jsonTestIssue_eq_none_iff.1 hnone
    rw [List.find?_map] at hfind
    obtain ⟨f, hf, rfl⟩ := Option.map_eq_some_iff.1 hfind
    exact ⟨hcan, f.1, f.2, (find?_eq_some_iff_isFirstTestOf hnames hfound hordered).1 hf, t,
      hcontent, hcases⟩
  · rintro ⟨-, below, content, hfirst, t, hcontent, hcases⟩
    have hfind := (find?_eq_some_iff_isFirstTestOf hnames hfound hordered).2 hfirst
    refine ⟨_, rfl, jsonTestIssue_eq_none_iff.2 ⟨_, t, ?_, hcontent, hcases⟩⟩
    rw [List.find?_map]
    exact Option.map_eq_some_iff.2 ⟨_, hfind, rfl⟩

/-- **A controller is judged by its first test file.**  Nothing is reported if and
only if no endpoint has to be tested, or the first of the integration tests whose
names end with that of the controller has enough cases.  So nothing is reported
if a file of the same name has enough, and every test in front of it.  (If a directory
with integration tests cannot be read, there is an error in place of a report.) -/
theorem controllerJsonTests_passes_iff
    (hopen : (Corpus.openAt disk root changes exclude opening).1 = .ok v.corpus)
    (hnames : disk.root.WellNamed) (hok : Script.endpoints v.content = .ok endpoints)
    (notices : List Notice) :
    ((controllerJsonTests.check v notices).1 = .ok [] ↔ jsonEndpoints endpoints = [] ∨
      CanList v.corpus ∧
      ∃ below content, IsFirstTestOf v.corpus v.file.path.fileName below content ∧
        HasCases (testFile v.corpus (below, content)) (jsonEndpoints endpoints).length) ∧
    (CanList v.corpus → ∀ below content,
      v.corpus.Selects Selection.integrationTests below content →
      below.getLast? = some v.file.path.fileName →
      HasCases (testFile v.corpus (below, content)) (jsonEndpoints endpoints).length →
      (∀ below' content', IsTestOf v.corpus v.file.path.fileName below' content' →
        below' < below →
        HasCases (testFile v.corpus (below', content')) (jsonEndpoints endpoints).length) →
      (controllerJsonTests.check v notices).1 = .ok []) := by
  have hiff := check_eq_nil_iff_isFirstTestOf hopen hnames hok notices
  refine ⟨hiff, fun hcan below content hselects hlast hcases hearlier => hiff.2 (.inr ⟨hcan, ?_⟩)⟩
  obtain ⟨below', content', hfirst, heq | hlt⟩ :=
    exists_isFirstTestOf hopen hnames hcan ⟨hselects, _, hlast, List.suffix_refl _⟩
  · obtain ⟨rfl, rfl⟩ := Prod.mk.inj heq
    exact ⟨below, content, hfirst, hcases⟩
  · exact ⟨below', content', hfirst, hearlier _ _ hfirst.toIsTestOf hlt⟩

end

/-! ### A test in front of the right one -/

/-- The integration tests of a project: one for the controller of the cart, and
one that is listed before it, with a text of its own. -/
def cartTests (other : String) : Tree := .directory
  [("AddToCart.js", .file (.ok other.toUTF8)),
    ("Cart.js", .file (.ok "it('shows the cart')".toUTF8))]

/-- A disk with these tests. -/
def cartDisk (other : String) : Disk :=
  ⟨.directory [("test", .directory [("integration", cartTests other)])], ⟨"/"⟩⟩

/-- The project on that disk. -/
abbrev cartCorpus (other : String) (cartridges : CartridgeSet) : Corpus :=
  ⟨cartDisk other, ⟨"/"⟩, false, [], cartridges⟩

/-- The controller of the cart, which has one endpoint. -/
def cartController (c : Corpus) : FileView where
  file := ⟨⟨"/cartridges/app_custom_sfra/cartridge/controllers/Cart.js"⟩, .ok []⟩
  content := "server.get('Show', function () \x7b res.json(); \x7d);".toList
  corpus := c

theorem endpoints_cartController (c : Corpus) :
    ∃ endpoints, Script.endpoints (cartController c).content = .ok endpoints ∧
      (jsonEndpoints endpoints).length = 1 := by
  have hone : (Script.endpoints (cartController c).content).toOption.map
      (fun es => (jsonEndpoints es).length) = some 1 := by
    show (Script.endpoints
      "server.get('Show', function () \x7b res.json(); \x7d);".toList).toOption.map
        (fun es => (jsonEndpoints es).length) = some 1
    decide +kernel
  cases hok : Script.endpoints (cartController c).content with
  | error e =>
    rw [hok] at hone
    cases hone
  | ok endpoints =>
    rw [hok] at hone
    exact ⟨endpoints, rfl, Option.some.inj hone⟩

theorem find_cartDisk (other : String) :
    (cartDisk other).find (Path.join ⟨"/"⟩ Selection.integrationTests.dir) =
      .ok (cartTests other) := by
  have hsteps : (cartDisk other).find (Path.join ⟨"/"⟩ Selection.integrationTests.dir) =
      ((Place.top (cartDisk other).root).follow (cartDisk other).root Disk.maxLinks
        [.normal "test", .normal "integration"]).map (·.here) :=
    Disk.find_eq_follow (by decide +kernel)
  have hentry : ∀ (name : String) (t : Tree), name.utf8ByteSize ≤ maxNameSize →
      Place.entry [(name, t)] name = .ok t := fun name t hsize =>
    Place.entry_eq_ok_iff.2 ⟨hsize, List.lookup_cons_self⟩
  rw [hsteps, cartDisk, Place.top, Place.follow_normal (hentry _ _ (by decide +kernel)),
    Place.follow_normal (hentry _ _ (by decide +kernel)),
    Place.follow_nil (show Place.Settled ⟨_, cartTests other⟩ from rfl)]
  rfl

theorem exists_gives_openAt_cartDisk (other : String) :
    ∃ cartridges, (Corpus.openAt (cartDisk other) ⟨"/"⟩ false []).Gives
      (.ok (cartCorpus other cartridges)) := by
  apply Corpus.exists_gives_openAt
  intro t hfind
  have hsteps : (cartDisk other).find (Path.join ⟨"/"⟩ ⟨cartridgesDir⟩) =
      ((Place.top (cartDisk other).root).follow (cartDisk other).root Disk.maxLinks
        [.normal cartridgesDir]).map (·.here) := Disk.find_eq_follow (by decide +kernel)
  rw [hsteps, Place.follow_of_error (e := .notFound) rfl] at hfind
  cases hfind

theorem canList_cart (other : String) (cartridges : CartridgeSet) :
    CanList (cartCorpus other cartridges) := by
  have hopens : (cartTests other).opens (fun _ => false)
      (Path.join ⟨"/"⟩ Selection.integrationTests.dir) = true := by
    rfl
  exact Corpus.canWalk_of_opens (find_cartDisk other) _ (fun _ hname => Bool.noConfusion hname)
    hopens

theorem wellNamed_cartDisk (other : String) : (cartDisk other).root.WellNamed := by
  have hname : ∀ name ∈ ["test", "integration", "AddToCart.js", "Cart.js"], IsName name := by
    simp only [IsName]
    decide
  have htests : (cartTests other).WellNamed :=
    .directory (by simp [hname]) (by simp) (by simp [Tree.WellNamed.file])
  have hinner : (Tree.directory [("integration", cartTests other)]).WellNamed :=
    .directory (by simp [hname]) (by simp) (by simp [htests])
  exact .directory (by simp [hname]) (by simp) (by simp [hinner])

/-- Both tests are selected. -/
theorem selects_cartTests (other : String) (cartridges : CartridgeSet) {name : String}
    {content : FileContent} (h : (cartTests other).at? [name] = some (.file content))
    (hname : name ∈ ["AddToCart.js", "Cart.js"]) :
    (cartCorpus other cartridges).Selects Selection.integrationTests [name] content where
  isFile := ⟨cartTests other, find_cartDisk other, h⟩
  isBelow := List.cons_ne_nil name []
  entered := Corpus.entered_of_not_covers rfl rfl fun pattern hpattern n hn => by
    obtain rfl := List.mem_singleton.1 hn
    have hnone : ∀ pattern ∈ alwaysExcluded ++ [changesCartridges],
        ∀ name ∈ ["AddToCart.js", "Cart.js"],
          (Glob.parse pattern).toOption.map (Glob.covers · name.toList) = some false := by
      decide
    exact hnone pattern hpattern n hname
  ending := by
    have hending : ∀ name ∈ ["AddToCart.js", "Cart.js"], ".js".toList <:+ name.toList := by decide
    exact .inr ⟨".js", by decide, name, rfl, hending name hname⟩
  part := .inl rfl
  generation := fun g hg => by cases hg

/-- The tests are read as they stand. -/
theorem content_testFile_cart (other : String) (cartridges : CartridgeSet) {name : String}
    (hname : name ∈ ["AddToCart.js", "Cart.js"]) (text : String) :
    (testFile (cartCorpus other cartridges) ([name], .ok text.toUTF8)).content =
      .ok text.toList := by
  have hask : ∀ name ∈ ["AddToCart.js", "Cart.js"],
      ((Path.join ⟨"/"⟩ Selection.integrationTests.dir).descend [name]).askable = .ok () := by
    simp only [Path.askable_eq_ok_iff]
    decide +kernel
  rw [testFile, Corpus.fileBelow, Disk.textAt, hask name hname]
  exact Disk.decode_toUTF8 text

theorem hasCases_cart (other : String) (cartridges : CartridgeSet) :
    HasCases (testFile (cartCorpus other cartridges)
      (["Cart.js"], .ok "it('shows the cart')".toUTF8)) 1 :=
  ⟨_, content_testFile_cart other cartridges (by decide) _, by decide⟩

theorem fileName_cartController (c : Corpus) :
    (cartController c).file.path.fileName = "Cart.js" := by
  show Path.fileName ⟨"/cartridges/app_custom_sfra/cartridge/controllers/Cart.js"⟩ = _
  decide

/-- No other tests are there. -/
theorem eq_of_at?_cartTests {other : String} {below : List String} {content : FileContent}
    (h : (cartTests other).at? below = some (.file content)) :
    (below = ["AddToCart.js"] ∧ content = .ok other.toUTF8) ∨ below = ["Cart.js"] := by
  obtain ⟨name, t, rest, rfl, hmem, h⟩ := Tree.exists_entry_of_at? (by simp) h
  simp only [List.mem_cons, Prod.mk.injEq, List.not_mem_nil, or_false] at hmem
  rcases hmem with ⟨rfl, rfl⟩ | ⟨rfl, rfl⟩
  · obtain rfl := Tree.eq_nil_of_at?_file h
    exact .inl ⟨rfl, (Tree.file.inj (Option.some.inj h)).symm⟩
  · obtain rfl := Tree.eq_nil_of_at?_file h
    exact .inr rfl

/-- A test that is listed before the right one, and has enough cases, does no
harm. -/
theorem controllerJsonTests_passes_cart :
    (cartDisk "it('adds')").root.WellNamed ∧ ∃ c endpoints,
      (Corpus.openAt (cartDisk "it('adds')") ⟨"/"⟩ false [] []).1 = .ok c ∧
      Script.endpoints (cartController c).content = .ok endpoints ∧
      (controllerJsonTests.check (cartController c) []).1 = .ok [] := by
  obtain ⟨cartridges, hgives⟩ := exists_gives_openAt_cartDisk "it('adds')"
  obtain ⟨endpoints, hok, hone⟩ := endpoints_cartController (cartCorpus "it('adds')" cartridges)
  have hpasses := (controllerJsonTests_passes_iff (hgives []) (wellNamed_cartDisk "it('adds')") hok
    []).2 (canList_cart "it('adds')" cartridges) ["Cart.js"] _
      (selects_cartTests "it('adds')" cartridges rfl (by decide))
  rw [fileName_cartController, hone] at hpasses
  refine ⟨wellNamed_cartDisk "it('adds')", _, endpoints, hgives [], hok,
    hpasses rfl (hasCases_cart "it('adds')" cartridges) ?_⟩
  intro below content htest hlt
  obtain ⟨t, hfind, hfile⟩ := htest.selects.isFile
  obtain rfl := Except.ok.inj ((find_cartDisk "it('adds')").symm.trans hfind)
  rcases eq_of_at?_cartTests hfile with ⟨rfl, rfl⟩ | rfl
  · exact ⟨_, content_testFile_cart "it('adds')" cartridges (by decide) _, by decide⟩
  · exact absurd hlt (List.lt_irrefl _)

/-- A test that is listed before the right one, and has no cases, is the one by
which the controller is judged. -/
theorem controllerJsonTests_reports_tested :
    (cartDisk "").root.WellNamed ∧ ∃ c endpoints content,
      (Corpus.openAt (cartDisk "") ⟨"/"⟩ false [] []).1 = .ok c ∧
      Script.endpoints (cartController c).content = .ok endpoints ∧ CanList c ∧
      c.Selects Selection.integrationTests ["Cart.js"] content ∧
      (cartController c).file.path.fileName = "Cart.js" ∧
      HasCases (testFile c (["Cart.js"], content)) (jsonEndpoints endpoints).length ∧
      (controllerJsonTests.check (cartController c) []).1 ≠ .ok [] := by
  obtain ⟨cartridges, hgives⟩ := exists_gives_openAt_cartDisk ""
  obtain ⟨endpoints, hok, hone⟩ := endpoints_cartController (cartCorpus "" cartridges)
  refine ⟨wellNamed_cartDisk "", _, endpoints, _, hgives [], hok,
    canList_cart "" cartridges, selects_cartTests "" cartridges rfl (by decide),
    fileName_cartController _, hone ▸ hasCases_cart "" cartridges, ?_⟩
  rw [Ne, check_eq_nil_iff_isFirstTestOf (hgives []) (wellNamed_cartDisk "") hok,
    fileName_cartController, hone]
  rintro (hnil | ⟨-, below, content, hfirst, t, htext, hcases⟩)
  · rw [hnil] at hone
    cases hone
  obtain ⟨t', hfind, hfile⟩ := hfirst.selects.isFile
  obtain rfl := Except.ok.inj ((find_cartDisk "").symm.trans hfind)
  rcases eq_of_at?_cartTests hfile with ⟨rfl, rfl⟩ | rfl
  · -- the empty file has no case
    obtain rfl := Except.ok.inj
      ((content_testFile_cart "" cartridges (by decide) "").symm.trans htext)
    exact absurd hcases (by decide)
  · -- the right file is not the first one
    refine hfirst.first ["AddToCart.js"] _
      ⟨selects_cartTests "" cartridges rfl (by decide), _, rfl, by decide⟩ (by decide)

end CartridgeAudit.Rule
