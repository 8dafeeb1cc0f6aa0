/-
CartridgeAudit/Proofs/Project/PathParts.lean

The components of paths that are put together.

The pieces of a path that stand for a step are its inner components; only the
root, or a `.` at the front, is read off the beginning of the text.  Joining
appends the inner components (`inner_join`) and keeps the beginning
(`lead_join`), however many slashes the text has.  Walking down along names
appends the names (`components_descend`), so a path below the root, written with
slashes, says the names of the directory and those below it
(`namesBelow_descend`).
-/
import CartridgeAudit.Project.Path
import CartridgeAudit.Proofs.Text.Searching

namespace CartridgeAudit

/-- Whether a text can be the name of a file or a directory. -/
def IsName (name : String) : Prop := '/' ∉ name.toList ∧ name ≠ "" ∧ name ≠ "." ∧ name ≠ ".."

instance : DecidablePred IsName := fun name =>
  inferInstanceAs (Decidable ('/' ∉ name.toList ∧ name ≠ "" ∧ name ≠ "." ∧ name ≠ ".."))

namespace Path

/-- The components that stand for steps. -/
def inner (p : Path) : List Component := p.pieces.filterMap componentOf

/-- The component at the front that stands for no step. -/
def lead (p : Path) : List Component :=
  if p.isAbsolute then [.root] else if p.pieces.head? = some "." then [.current] else []

theorem components_eq (p : Path) : p.components = p.lead ++ p.inner := by
  rw [components, lead, inner]
  split
  · rfl
  · split <;> rfl

/-! ### Pieces -/

theorem pieces_eq (p : Path) :
    p.pieces = (p.text.toList.splitOnP (· == '/')).map String.ofList := by
  rw [pieces, Text.splitOn_eq_splitOnP]

theorem pieces_slash (s t : String) :
    pieces ⟨s ++ "/" ++ t⟩ = pieces ⟨s⟩ ++ pieces ⟨t⟩ := by
  have htext : (s ++ "/" ++ t).toList = s.toList ++ '/' :: t.toList := by simp
  rw [pieces_eq, pieces_eq, pieces_eq, htext, List.splitOnP_append_cons _ _ (by rfl),
    List.map_append]

theorem pieces_ne_nil (p : Path) : p.pieces ≠ [] := by
  rw [pieces_eq]
  exact mt List.map_eq_nil_iff.1 (List.splitOnP_ne_nil _ _)

theorem slash_not_mem_of_mem_pieces {p : Path} {piece : String} (h : piece ∈ p.pieces) :
    '/' ∉ piece.toList := by
  rw [pieces_eq] at h
  obtain ⟨chars, hchars, rfl⟩ := List.mem_map.1 h
  rw [String.toList_ofList]
  intro hmem
  have hfalse := Text.eq_false_of_mem_splitOnP hchars '/' hmem
  simp at hfalse

/-- Names with slashes between them are split into these names. -/
theorem splitOn_intercalate {ns : List String} (hne : ns ≠ []) (h : ∀ n ∈ ns, '/' ∉ n.toList) :
    Text.splitOn (· == '/') ("/".intercalate ns).toList = ns.map String.toList := by
  have hsplit : (['/'].intercalate (ns.map String.toList)).splitOn '/' = ns.map String.toList := by
    apply List.splitOn_intercalate
    · intro piece hpiece
      obtain ⟨n, hn, rfl⟩ := List.mem_map.1 hpiece
      exact h n hn
    · exact mt List.map_eq_nil_iff.1 hne
  have htext : ("/".intercalate ns).toList = ['/'].intercalate (ns.map String.toList) :=
    String.toList_intercalate
  rw [Text.splitOn_eq_splitOnP, htext, ← List.splitOn_eq_splitOnP, hsplit]

/-- Names with slashes between them are read as these names. -/
theorem pieces_intercalate {ns : List String} (hne : ns ≠ []) (h : ∀ n ∈ ns, '/' ∉ n.toList) :
    pieces ⟨"/".intercalate ns⟩ = ns := by
  rw [pieces, splitOn_intercalate hne h, List.map_map]
  simp

theorem pieces_of_not_mem {name : String} (h : '/' ∉ name.toList) : pieces ⟨name⟩ = [name] := by
  have hone : pieces ⟨"/".intercalate [name]⟩ = [name] :=
    pieces_intercalate (by simp) (by simpa using h)
  rwa [String.intercalate_singleton] at hone

/-- A path whose first piece is not empty does not start at the root. -/
theorem isAbsolute_of_head_ne {p : Path} (h : p.pieces.head? ≠ some "") : p.isAbsolute = false := by
  rw [isAbsolute]
  apply beq_false_of_ne
  intro hslash
  apply h
  obtain ⟨rest, hrest⟩ := List.head?_eq_some_iff.1 hslash
  rw [pieces_eq, hrest, List.splitOnP_cons_eq_if_modifyHead, if_pos (by rfl)]
  rfl

/-! ### Inner components -/

theorem componentOf_of_isName {name : String} (h : IsName name) :
    componentOf name = some (.normal name) := by
  obtain ⟨-, hempty, hdot, hdots⟩ := h
  simp [componentOf, hempty, hdot, hdots]

theorem inner_slash (s t : String) : inner ⟨s ++ "/" ++ t⟩ = inner ⟨s⟩ ++ inner ⟨t⟩ := by
  rw [inner, pieces_slash, List.filterMap_append]
  rfl

theorem inner_name {name : String} (h : IsName name) : inner ⟨name⟩ = [.normal name] := by
  rw [inner, pieces_of_not_mem h.1, List.filterMap_cons_some (componentOf_of_isName h)]
  rfl

/-- An inner component is a step up or a name. -/
theorem eq_parent_or_normal_of_mem_inner {p : Path} {c : Component} (h : c ∈ p.inner) :
    c = .parent ∨ ∃ name, IsName name ∧ c = .normal name := by
  obtain ⟨piece, hpiece, hc⟩ := List.mem_filterMap.1 h
  have hslash := slash_not_mem_of_mem_pieces hpiece
  rw [componentOf] at hc
  split at hc
  · cases hc
  · next hvoid =>
    simp only [Bool.or_eq_true, decide_eq_true_eq, not_or] at hvoid
    split at hc
    · exact .inl (Option.some.inj hc).symm
    · next hdots =>
      exact .inr ⟨_, ⟨hslash, hvoid.1, hvoid.2, hdots⟩, (Option.some.inj hc).symm⟩

theorem names_map_normal (ns : List String) : names (ns.map .normal) = ns := by
  induction ns with
  | nil => rfl
  | cons n ns ih => exact congrArg (n :: ·) ih

theorem names_append (cs ds : List Component) : names (cs ++ ds) = names cs ++ names ds :=
  List.filterMap_append

theorem names_lead (p : Path) : names p.lead = [] := by
  rw [lead]
  split
  · rfl
  · split <;> rfl

theorem names_components (p : Path) : names p.components = names p.inner := by
  rw [components_eq, names_append, names_lead, List.nil_append]

theorem isName_of_mem_names {p : Path} {name : String} (h : name ∈ names p.components) :
    IsName name := by
  rw [names_components] at h
  obtain ⟨c, hc, hname⟩ := List.mem_filterMap.1 h
  rcases eq_parent_or_normal_of_mem_inner hc with rfl | ⟨n, hn, rfl⟩
  · cases hname
  · obtain rfl := Option.some.inj hname
    exact hn

/-! ### Joining -/

/-- The text of a joined path is that of the second one alone, or both with one
slash between them. -/
theorem join_cases (p : Path) {q : Path} (hq : q.isAbsolute = false) :
    (p.text = "" ∧ p.join q = q) ∨
      ∃ s, (p.text = s ∨ p.text = s ++ "/") ∧ p.text ≠ "" ∧ p.join q = ⟨s ++ "/" ++ q.text⟩ := by
  rw [join, if_neg (by simp [hq])]
  by_cases hempty : p.text = ""
  · refine .inl ⟨hempty, ?_⟩
    simp [hempty]
  · right
    split
    · next h =>
      -- the first path ends in a slash, which is the one between them
      have hlast : p.text.toList.getLast? = some '/' := by simpa [hempty] using h
      obtain ⟨init, hinit⟩ := List.getLast?_eq_some_iff.1 hlast
      have htext : p.text = String.ofList init ++ "/" := by
        rw [← String.toList_inj, hinit]
        simp
      exact ⟨_, .inr htext, hempty, by rw [htext]⟩
    · exact ⟨p.text, .inl rfl, hempty, rfl⟩

theorem inner_join (p : Path) {q : Path} (hq : q.isAbsolute = false) :
    (p.join q).inner = p.inner ++ q.inner := by
  have hnone : inner ⟨""⟩ = [] := by decide +kernel
  obtain ⟨text⟩ := p
  rcases join_cases ⟨text⟩ hq with ⟨rfl, hjoin⟩ | ⟨s, rfl | rfl, -, hjoin⟩
  · rw [hjoin, hnone, List.nil_append]
  · rw [hjoin, inner_slash]
  · have hslash : inner ⟨s ++ "/"⟩ = inner ⟨s⟩ ++ inner ⟨""⟩ := by
      rw [← inner_slash, String.append_empty]
    rw [hjoin, inner_slash, hslash, hnone, List.append_nil]

theorem lead_slash {s : String} (hs : s ≠ "") (t : String) :
    lead ⟨s ++ "/" ++ t⟩ = lead ⟨s⟩ := by
  have hchars : s.toList ≠ [] := fun h => hs (String.toList_eq_nil_iff.1 h)
  have habsolute : isAbsolute ⟨s ++ "/" ++ t⟩ = isAbsolute ⟨s⟩ := by
    rw [isAbsolute, isAbsolute, String.toList_append, String.toList_append, List.append_assoc,
      List.head?_append_of_ne_nil _ hchars]
  have hhead : (pieces ⟨s ++ "/" ++ t⟩).head? = (pieces ⟨s⟩).head? := by
    rw [pieces_slash, List.head?_append_of_ne_nil _ (pieces_ne_nil _)]
  rw [lead, lead, habsolute, hhead]

theorem lead_root (t : String) : lead ⟨"" ++ "/" ++ t⟩ = [.root] := by
  rw [lead, if_pos]
  simp [isAbsolute]

theorem lead_join {p q : Path} (hp : p.text ≠ "") (hq : q.isAbsolute = false) :
    (p.join q).lead = p.lead := by
  obtain ⟨text⟩ := p
  rcases join_cases ⟨text⟩ hq with ⟨hempty, -⟩ | ⟨s, rfl | rfl, -, hjoin⟩
  · exact absurd hempty hp
  · rw [hjoin, lead_slash hp]
  · by_cases hs : s = ""
    · subst hs
      rw [hjoin, lead_root]
      exact (lead_root "").symm
    · rw [hjoin, lead_slash hs, ← lead_slash hs "", String.append_empty]

theorem components_join {p q : Path} (hp : p.text ≠ "") (hq : q.isAbsolute = false) :
    (p.join q).components = p.components ++ q.inner := by
  rw [components_eq, components_eq, lead_join hp hq, inner_join p hq, List.append_assoc]

theorem join_of_text_eq_empty {p q : Path} (hp : p.text = "") (hq : q.isAbsolute = false) :
    p.join q = q := by
  rw [join, if_neg (by simp [hq]), if_pos (by simp [hp]), hp, String.empty_append]

theorem components_of_text_eq_empty {p : Path} (hp : p.text = "") : p.components = [] := by
  obtain ⟨text⟩ := p
  obtain rfl : text = "" := hp
  decide +kernel

/-! ### Up to a `.` at the front -/

theorem components_name {name : String} (h : IsName name) :
    components ⟨name⟩ = [.normal name] ∧ isAbsolute ⟨name⟩ = false := by
  have hpieces : pieces ⟨name⟩ = [name] := pieces_of_not_mem h.1
  have hrelative : isAbsolute ⟨name⟩ = false := by
    apply isAbsolute_of_head_ne
    rw [hpieces]
    exact fun hempty => h.2.1 (Option.some.inj hempty)
  refine ⟨?_, hrelative⟩
  have hlead : lead ⟨name⟩ = [] := by
    rw [lead, if_neg (by simp [hrelative]), hpieces, if_neg]
    exact fun hdot => h.2.2.1 (Option.some.inj hdot)
  rw [components_eq, hlead, inner_name h]
  rfl

theorem components_join_name (p : Path) {name : String} (h : IsName name) :
    (p.join ⟨name⟩).components = p.components ++ [.normal name] := by
  obtain ⟨hcomponents, hrelative⟩ := components_name h
  by_cases hp : p.text = ""
  · rw [join_of_text_eq_empty hp hrelative, hcomponents, components_of_text_eq_empty hp]
    rfl
  · rw [components_join hp hrelative, inner_name h]

/-- Walking down appends the names. -/
theorem components_descend (dir : Path) {below : List String} (h : ∀ name ∈ below, IsName name) :
    (dir.descend below).components = dir.components ++ below.map .normal := by
  induction below generalizing dir with
  | nil => simp [descend]
  | cons name below ih =>
    obtain ⟨hname, hbelow⟩ := List.forall_mem_cons.1 h
    have hstep : dir.descend (name :: below) = (dir.join ⟨name⟩).descend below := rfl
    rw [hstep, ih _ hbelow, components_join_name dir hname, List.append_assoc]
    rfl

theorem fileName_descend (dir : Path) {below : List String} (h : ∀ name ∈ below, IsName name)
    (hne : below ≠ []) : (dir.descend below).fileName = below.getLast hne := by
  have hlast : (dir.descend below).components.getLast? = some (.normal (below.getLast hne)) := by
    have hmap : below.map Component.normal ≠ [] := mt List.map_eq_nil_iff.1 hne
    rw [components_descend dir h, List.getLast?_append_of_ne_nil _ hmap, List.getLast?_map,
      List.getLast?_eq_getLast_of_ne_nil hne]
    rfl
  rw [fileName, fileName?, hlast]
  rfl

theorem dropComponents_append (bs cs : List Component) :
    dropComponents bs (bs ++ cs) = some cs := by
  induction bs with
  | nil => cases cs <;> rfl
  | cons b bs ih => rw [List.cons_append, dropComponents, if_pos rfl, ih]

/-- The names of a path below the root: those of the directory, and those that
lead on from there. -/
theorem namesBelow_descend (root : Path) {dir : Path} (hdir : dir.isAbsolute = false)
    {below : List String} (h : ∀ name ∈ below, IsName name) :
    namesBelow root ((root.join dir).descend below) = names dir.components ++ below := by
  obtain ⟨rest, hrest, hnames⟩ : ∃ rest, (root.join dir).components = root.components ++ rest ∧
      names rest = names dir.components := by
    by_cases hroot : root.text = ""
    · refine ⟨dir.components, ?_, rfl⟩
      rw [join_of_text_eq_empty hroot hdir, components_of_text_eq_empty hroot]
      rfl
    · exact ⟨dir.inner, components_join hroot hdir, (names_components dir).symm⟩
  rw [namesBelow, components_descend _ h, hrest, List.append_assoc, dropComponents_append,
    Option.getD_some, names_append, hnames, names_map_normal]

end Path

end CartridgeAudit
