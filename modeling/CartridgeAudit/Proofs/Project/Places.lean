/-
CartridgeAudit/Proofs/Project/Places.lean

Taking steps from place to place.

Steps are taken up to a link, and then those of its target and those that were left
are taken from where the link begins.  Each link that is followed leaves one less to
follow, and the inductions here are on their number.

What steps lead through may be forgotten but for the place that they reach and the
number of links left (`Place.exists_follow_append`).  Steps without a name stay where
they are, unless they lead up, so what counts of the others are the names
(`Place.follow_names`).  Below well named trees all places are (`Place.WellNamed.follow`).
-/
import CartridgeAudit.Proofs.Project.Listing
import CartridgeAudit.Proofs.Project.Steps

namespace CartridgeAudit

/-- The name of a step that has one. -/
def Path.Step.name? : Step → Option String
  | .normal name => some name
  | .current | .parent | .slash => none

namespace Place

variable {root : Tree} {s s' u : Place} {cs ds rest : List Path.Step} {n : Nat}

/-- A place where steps can go on: no link. -/
def Settled (s : Place) : Prop := s.here.target? = none

theorem settled_or_link (s : Place) : s.Settled ∨ ∃ target, s.here.target? = some target := by
  cases h : s.here.target? with
  | none => exact .inl h
  | some target => exact .inr ⟨target, rfl⟩

theorem advance_of_link {target : Path} (h : s.here.target? = some target) (cs : List Path.Step) :
    s.advance cs = .ok (s, cs) := by
  cases cs with
  | nil => rfl
  | cons c cs => rw [advance, h, if_pos (by rfl)]

theorem advance_cons (h : s.Settled) (c : Path.Step) (cs : List Path.Step) :
    s.advance (c :: cs) = s.take c >>= fun s => s.advance cs := by
  rw [advance, h, if_neg (by simp)]

theorem follow_congr (h : s.advance cs = s'.advance ds) :
    follow root n s cs = follow root n s' ds := by
  cases n <;> rw [follow, follow, h]

theorem follow_of_error {e : FileError} (h : s.advance cs = .error e) :
    follow root n s cs = .error e := by
  cases n <;> rw [follow, h] <;> rfl

theorem follow_of_settled (h : s.advance cs = .ok (s', rest)) (hs : s'.Settled) :
    follow root n s cs = .ok s' := by
  rw [Settled] at hs
  cases n <;> simp only [follow, h, hs, bind, Except.bind, pure, Except.pure]

theorem follow_of_link {target : Path} (h : s.advance cs = .ok (s', rest))
    (htarget : s'.here.target? = some target) :
    follow root (n + 1) s cs = follow root n (s'.origin root target) (target.steps ++ rest) := by
  simp only [follow, h, htarget, bind, Except.bind]

theorem follow_zero_of_link {target : Path} (h : s.advance cs = .ok (s', rest))
    (htarget : s'.here.target? = some target) : follow root 0 s cs = .error .tooManyLinks := by
  simp only [follow, h, htarget, bind, Except.bind]
  rfl

theorem follow_nil (h : s.Settled) : follow root n s [] = .ok s := follow_of_settled rfl h

/-- Where a link is followed, one less may follow. -/
theorem exists_of_follow_link {target : Path} (h : s.advance cs = .ok (s', rest))
    (hlink : s'.here.target? = some target) (hfollow : follow root n s cs = .ok u) :
    ∃ m, n = m + 1 ∧ follow root m (s'.origin root target) (target.steps ++ rest) = .ok u := by
  cases n with
  | zero =>
    rw [follow_zero_of_link h hlink] at hfollow
    cases hfollow
  | succ m => exact ⟨m, rfl, (follow_of_link h hlink).symm.trans hfollow⟩

theorem take_normal_eq_ok_iff {name : String} :
    s.take (.normal name) = .ok s' ↔ ∃ es t, s.here = .directory es ∧ entry es name = .ok t ∧
      s' = ⟨(name, s.here) :: s.above, t⟩ := by
  obtain ⟨above, here⟩ := s
  cases here with
  | directory es => cases hentry : entry es name <;> simp [take, hentry, Except.map, eq_comm]
  | _ => simp [take]

theorem entry_eq_ok_iff {es : List (String × Tree)} {name : String} {t : Tree} :
    entry es name = .ok t ↔ name.utf8ByteSize ≤ maxNameSize ∧ es.lookup name = some t := by
  unfold entry
  by_cases hlong : maxNameSize < name.utf8ByteSize
  · simp [hlong]
  · cases hlookup : es.lookup name <;> simp [hlong, Nat.le_of_not_lt hlong]

/-- A step without a name that does not lead up stays. -/
theorem eq_of_take {c : Path.Step} (h : s.take c = .ok s') (hname : c.name? = none)
    (hup : c ≠ .parent) : s' = s := by
  obtain ⟨above, here⟩ := s
  cases c with
  | parent => exact absurd rfl hup
  | normal name => cases hname
  | current =>
    cases here with
    | directory es => exact (Except.ok.inj h).symm
    | _ => cases h
  | slash =>
    cases here with
    | directory es => exact (Except.ok.inj h).symm
    | locked => exact (Except.ok.inj h).symm
    | _ => cases h

/-- A name leads into the entry of a directory. -/
theorem follow_normal {above : List (String × Tree)} {es : List (String × Tree)} {name : String}
    {t : Tree} (h : entry es name = .ok t) :
    follow root n ⟨above, .directory es⟩ (.normal name :: cs) =
      follow root n ⟨(name, .directory es) :: above, t⟩ cs := by
  apply follow_congr
  rw [advance_cons (show Settled ⟨above, .directory es⟩ from rfl),
    take_normal_eq_ok_iff.2 ⟨es, t, rfl, h, rfl⟩]
  rfl

/-- All trees at a place and above it are well named. -/
structure WellNamed (s : Place) : Prop where
  here : s.here.WellNamed
  above : ∀ e ∈ s.above, e.2.WellNamed

theorem WellNamed.up (h : s.WellNamed) : s.up.WellNamed := by
  obtain ⟨_ | ⟨e, above⟩, t⟩ := s
  · exact h
  · obtain ⟨he, habove⟩ := List.forall_mem_cons.1 h.above
    exact ⟨he, habove⟩

theorem WellNamed.take {c : Path.Step} (h : s.WellNamed) (htake : s.take c = .ok s') :
    s'.WellNamed := by
  cases c with
  | normal name =>
    obtain ⟨es, t, hhere, hentry, rfl⟩ := take_normal_eq_ok_iff.1 htake
    refine ⟨?_, List.forall_mem_cons.2 ⟨h.here, h.above⟩⟩
    have hwell := h.here
    rw [hhere] at hwell
    cases hwell with
    | directory names distinct below =>
      exact below _ ((Tree.lookup_eq_some_iff distinct).1 (entry_eq_ok_iff.1 hentry).2)
  | parent =>
    obtain ⟨above, here⟩ := s
    cases here with
    | directory es =>
      obtain rfl := Except.ok.inj htake
      exact h.up
    | _ => cases htake
  | current => exact eq_of_take htake rfl (by simp) ▸ h
  | slash => exact eq_of_take htake rfl (by simp) ▸ h

theorem WellNamed.advance (h : s.WellNamed) (hadvance : s.advance cs = .ok (s', rest)) :
    s'.WellNamed := by
  induction cs generalizing s with
  | nil =>
    obtain ⟨rfl, -⟩ := Prod.mk.inj (Except.ok.inj hadvance)
    exact h
  | cons c cs ih =>
    rcases s.settled_or_link with hsettled | ⟨target, htarget⟩
    · rw [advance_cons hsettled, bind_eq_ok_iff] at hadvance
      obtain ⟨s₁, htake, hadvance⟩ := hadvance
      exact ih (h.take htake) hadvance
    · rw [advance_of_link htarget] at hadvance
      obtain ⟨rfl, -⟩ := Prod.mk.inj (Except.ok.inj hadvance)
      exact h

theorem WellNamed.follow (hroot : root.WellNamed) (h : s.WellNamed)
    (hfollow : follow root n s cs = .ok u) : u.WellNamed := by
  induction n using Nat.strong_induction_on generalizing s cs with
  | _ n ih =>
    cases hadvance : s.advance cs with
    | error e =>
      rw [follow_of_error hadvance] at hfollow
      cases hfollow
    | ok r =>
      have hreached := h.advance hadvance
      rcases r.1.settled_or_link with hsettled | ⟨target, hlink⟩
      · rw [follow_of_settled hadvance hsettled] at hfollow
        exact Except.ok.inj hfollow ▸ hreached
      · obtain ⟨m, rfl, hrest⟩ := exists_of_follow_link hadvance hlink hfollow
        refine ih m (Nat.lt_succ_self m) ?_ hrest
        rw [origin]
        split
        · exact ⟨hroot, List.forall_mem_nil _⟩
        · exact hreached.up

end Place

end CartridgeAudit
