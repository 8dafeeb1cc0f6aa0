/-
CartridgeAudit/Proofs/Project/Steps.lean

Steps of an audit, and what they give.

A step reads no notice: it only adds to them.  `Gives` says which answer a step
has whatever the notices are, and is carried from the steps to their sequences
(`Gives.bind`, `Gives.mapM`).  So an audit that leaves notices can be reasoned
about as if it left none; a step of which this holds is `Steady`.

`Ends` says how a step may fail and what its answers are like, and is carried
from the steps to their sequences in the same way (`Ends.bind`, `ends_mapM`);
`AlwaysEnds` says it of a step that leaves notices.
-/
import CartridgeAudit.Project.Corpus
import Mathlib.Data.List.Forall2

namespace CartridgeAudit

/-! ### Answers of a list of steps -/

section Lists

variable {ε α β : Type}

theorem bind_eq_ok_iff {x : Except ε α} {f : α → Except ε β} {b : β} :
    x >>= f = .ok b ↔ ∃ a, x = .ok a ∧ f a = .ok b := by
  cases x with
  | error e =>
    constructor
    · intro h
      cases h
    · rintro ⟨a, ha, -⟩
      cases ha
  | ok a =>
    constructor
    · exact fun h => ⟨a, rfl, h⟩
    · rintro ⟨_, ha, h⟩
      cases ha
      exact h

theorem bind_eq_error_iff {x : Except ε α} {f : α → Except ε β} {e : ε} :
    x >>= f = .error e ↔ x = .error e ∨ ∃ a, x = .ok a ∧ f a = .error e := by
  cases x with
  | error e' =>
    constructor
    · exact fun h => .inl (congrArg _ (Except.error.inj h))
    · rintro (h | ⟨a, ha, -⟩)
      · exact congrArg _ (Except.error.inj h)
      · cases ha
  | ok a =>
    constructor
    · exact fun h => .inr ⟨a, rfl, h⟩
    · rintro (h | ⟨_, ha, h⟩)
      · cases h
      · cases ha
        exact h

/-- A list of steps succeeds with the answers of its members. -/
theorem mapM_eq_ok_iff {f : α → Except ε β} {l : List α} {ys : List β} :
    l.mapM f = .ok ys ↔ List.Forall₂ (fun x y => f x = .ok y) l ys := by
  induction l generalizing ys with
  | nil =>
    rw [List.mapM_nil, List.forall₂_nil_left_iff]
    constructor
    · intro h
      cases h
      rfl
    · rintro rfl
      rfl
  | cons x l ih =>
    rw [List.mapM_cons, bind_eq_ok_iff, List.forall₂_cons_left_iff]
    simp only [bind_eq_ok_iff, ih]
    constructor
    · rintro ⟨y, hy, rest, hrest, h⟩
      cases h
      exact ⟨y, rest, hy, hrest, rfl⟩
    · rintro ⟨y, rest, hy, hrest, rfl⟩
      exact ⟨y, hy, rest, hrest, rfl⟩

/-- The answers of a list of steps are those of its members. -/
theorem mem_iff_of_mapM_eq_ok {f : α → Except ε β} {l : List α} {ys : List β}
    (h : l.mapM f = .ok ys) {y : β} : y ∈ ys ↔ ∃ x ∈ l, f x = .ok y := by
  induction mapM_eq_ok_iff.1 h with
  | nil => simp
  | @cons x z l zs hz hzs ih =>
    simp only [List.mem_cons, exists_eq_or_imp, hz, Except.ok.injEq, ih (mapM_eq_ok_iff.2 hzs)]
    rw [eq_comm]

theorem exists_of_mem_of_mapM_eq_ok {f : α → Except ε β} {l : List α} {ys : List β}
    (h : l.mapM f = .ok ys) {x : α} (hx : x ∈ l) : ∃ y ∈ ys, f x = .ok y := by
  induction mapM_eq_ok_iff.1 h with
  | nil => cases hx
  | @cons z y l zs hz hzs ih =>
    rcases List.mem_cons.1 hx with rfl | hx
    · exact ⟨y, List.mem_cons_self, hz⟩
    · obtain ⟨y, hy, hf⟩ := ih (mapM_eq_ok_iff.2 hzs) hx
      exact ⟨y, List.mem_cons_of_mem _ hy, hf⟩

/-- If the answers are known, a list of steps has them. -/
theorem eq_map_of_mapM_eq_ok {f : α → Except ε β} {g : α → β} {l : List α} {ys : List β}
    (h : l.mapM f = .ok ys) (hg : ∀ x y, f x = .ok y → y = g x) : ys = l.map g := by
  induction mapM_eq_ok_iff.1 h with
  | nil => rfl
  | cons hy hys ih => rw [List.map_cons, hg _ _ hy, ih (mapM_eq_ok_iff.2 hys)]

/-- What relates each step to its answer relates the steps to the answers. -/
theorem forall₂_of_mapM_eq_ok {f : α → Except ε β} {R : α → β → Prop} {l : List α} {ys : List β}
    (h : l.mapM f = .ok ys) (hR : ∀ x ∈ l, ∀ y, f x = .ok y → R x y) : List.Forall₂ R l ys := by
  have hpairs := (List.forall₂_and_left _ _).2 ⟨fun _ hx => hx, mapM_eq_ok_iff.1 h⟩
  exact hpairs.imp fun x y ⟨hx, hy⟩ => hR x hx y hy

/-- Answers stand in the order of their steps. -/
theorem pairwise_of_mapM_eq_ok {f : α → Except ε β} {l : List α} {ys : List β}
    {P : α → α → Prop} {Q : β → β → Prop} (h : l.mapM f = .ok ys) (hl : l.Pairwise P)
    (hPQ : ∀ x ∈ l, ∀ x' ∈ l, P x x' → ∀ y y', f x = .ok y → f x' = .ok y' → Q y y') :
    ys.Pairwise Q := by
  induction mapM_eq_ok_iff.1 h with
  | nil => exact List.Pairwise.nil
  | @cons x y l ys hy hys ih =>
    have hrest := mapM_eq_ok_iff.2 hys
    obtain ⟨hfirst, hl⟩ := List.pairwise_cons.1 hl
    refine List.pairwise_cons.2 ⟨?_, ih hrest hl ?_⟩
    · intro y' hy'
      obtain ⟨x', hx', hf⟩ := (mem_iff_of_mapM_eq_ok hrest).1 hy'
      exact hPQ x List.mem_cons_self x' (List.mem_cons_of_mem _ hx') (hfirst x' hx') y y' hy hf
    · intro z hz z' hz'
      exact hPQ z (List.mem_cons_of_mem _ hz) z' (List.mem_cons_of_mem _ hz')

/-- A list of steps succeeds if all of them do. -/
theorem exists_mapM_eq_ok {f : α → Except ε β} {l : List α} (h : ∀ x ∈ l, ∃ y, f x = .ok y) :
    ∃ ys, l.mapM f = .ok ys := by
  induction l with
  | nil => exact ⟨[], rfl⟩
  | cons x l ih =>
    obtain ⟨⟨y, hy⟩, hl⟩ := List.forall_mem_cons.1 h
    obtain ⟨ys, hys⟩ := ih hl
    exact ⟨y :: ys, mapM_eq_ok_iff.2 (.cons hy (mapM_eq_ok_iff.1 hys))⟩

/-- A list of steps fails with the first of its members that fails. -/
theorem mapM_eq_error_iff {f : α → Except ε β} {l : List α} {e : ε} :
    l.mapM f = .error e ↔ ∃ earlier x later, l = earlier ++ x :: later ∧
      (∀ y ∈ earlier, ∃ b, f y = .ok b) ∧ f x = .error e := by
  induction l with
  | nil =>
    constructor
    · intro h
      cases h
    · rintro ⟨earlier, x, later, hl, -⟩
      exact absurd hl.symm (List.append_ne_nil_of_right_ne_nil _ (List.cons_ne_nil _ _))
  | cons z l ih =>
    rw [List.mapM_cons, bind_eq_error_iff]
    constructor
    · rintro (hz | ⟨b, hb, hrest⟩)
      · exact ⟨[], z, l, rfl, List.forall_mem_nil _, hz⟩
      · rcases bind_eq_error_iff.1 hrest with hrest | ⟨bs, -, hpure⟩
        · obtain ⟨earlier, x, later, rfl, hearlier, hx⟩ := ih.1 hrest
          exact ⟨z :: earlier, x, later, rfl, List.forall_mem_cons.2 ⟨⟨b, hb⟩, hearlier⟩, hx⟩
        · cases hpure
    · rintro ⟨earlier, x, later, hl, hearlier, hx⟩
      cases earlier with
      | nil =>
        obtain ⟨rfl, rfl⟩ := List.cons.inj hl
        exact .inl hx
      | cons y earlier =>
        obtain ⟨rfl, rfl⟩ := List.cons.inj hl
        obtain ⟨⟨b, hb⟩, hearlier⟩ := List.forall_mem_cons.1 hearlier
        exact .inr ⟨b, hb, bind_eq_error_iff.2 (.inl (ih.2 ⟨earlier, x, later, rfl, hearlier, hx⟩))⟩

theorem mapM_congr {f g : α → Except ε β} {l : List α} (h : ∀ x ∈ l, f x = g x) :
    l.mapM f = l.mapM g := by
  induction l with
  | nil => rfl
  | cons x l ih =>
    obtain ⟨hx, hl⟩ := List.forall_mem_cons.1 h
    rw [List.mapM_cons, List.mapM_cons, hx, ih hl]

end Lists

/-! ### How steps end -/

/-- A step fails in one way only, or has an answer of one kind. -/
def Ends {ε α : Type} (E : ε → Prop) (P : α → Prop) : Except ε α → Prop
  | .error e => E e
  | .ok a => P a

section Ends

variable {ε α β : Type} {E E' : ε → Prop} {P : α → Prop} {Q : β → Prop}

theorem ends_somehow (x : Except ε α) : Ends (fun _ => True) (fun _ => True) x := by
  cases x <;> trivial

theorem Ends.bind {x : Except ε α} {f : α → Except ε β} (hx : Ends E P x)
    (hf : ∀ a, P a → Ends E Q (f a)) : Ends E Q (x >>= f) := by
  cases x with
  | error e => exact hx
  | ok a => exact hf a hx

theorem Ends.map {x : Except ε α} {f : α → β} (hx : Ends E P x) (hf : ∀ a, P a → Q (f a)) :
    Ends E Q (x.map f) := by
  cases x with
  | error e => exact hx
  | ok a => exact hf a hx

theorem Ends.imp {P' : α → Prop} {x : Except ε α} (hx : Ends E P x) (hE : ∀ e, E e → E' e)
    (hP : ∀ a, P a → P' a) : Ends E' P' x := by
  cases x with
  | error e => exact hE e hx
  | ok a => exact hP a hx

/-- Only how the step fails. -/
theorem Ends.failure {x : Except ε α} (hx : Ends E P x) : Ends E (fun _ => True) x :=
  hx.imp (fun _ he => he) fun _ _ => trivial

/-- A step that fails in one way fails in a more general one. -/
theorem Ends.weaken {x : Except ε α} (hx : Ends E P x) (hE : ∀ e, E e → E' e) : Ends E' P x :=
  hx.imp hE fun _ ha => ha

theorem ends_mapM {f : α → Except ε β} {l : List α} (h : ∀ a ∈ l, Ends E Q (f a)) :
    Ends E (fun bs => ∀ b ∈ bs, Q b) (l.mapM f) := by
  induction l with
  | nil =>
    intro b hb
    cases hb
  | cons a l ih =>
    obtain ⟨ha, hl⟩ := List.forall_mem_cons.1 h
    rw [List.mapM_cons]
    apply ha.bind
    intro b hb
    apply (ih hl).bind
    intro bs hbs
    exact List.forall_mem_cons.2 ⟨hb, hbs⟩

/-- What every step keeps, all steps keep. -/
theorem ends_foldlM {f : β → α → Except ε β} {l : List α} {b : β} (hb : Q b)
    (h : ∀ a ∈ l, ∀ b, Q b → Ends E Q (f b a)) : Ends E Q (l.foldlM f b) := by
  induction l generalizing b with
  | nil => exact hb
  | cons a l ih =>
    obtain ⟨ha, hl⟩ := List.forall_mem_cons.1 h
    rw [List.foldlM_cons]
    apply (ha b hb).bind
    intro c hc
    exact ih hc hl

end Ends

/-! ### Answers whatever the notices are -/

namespace Audit

variable {α β : Type}

/-- A step has an answer, whatever notices there are. -/
def Gives (x : Audit α) (r : Except AuditError α) : Prop := ∀ notices, (x notices).1 = r

theorem gives_pure (a : α) : Gives (pure a) (.ok a) := fun _ => rfl

theorem gives_throw (e : AuditError) : Gives (throw e : Audit α) (.error e) := fun _ => rfl

theorem gives_ofExcept (x : Except AuditError α) : Gives (ofExcept x) x := fun _ => rfl

theorem gives_notify (n : Notice) : Gives (notify n) (.ok ()) := fun _ => rfl

theorem bind_apply (x : Audit α) (f : α → Audit β) (notices : List Notice) :
    (x >>= f) notices = match x notices with
      | (.error e, rest) => (.error e, rest)
      | (.ok a, rest) => f a rest := by
  show ExceptT.bindCont f (x notices).1 (x notices).2 = _
  rcases x notices with ⟨e | a, rest⟩
  · rfl
  · rfl

theorem Gives.bind {x : Audit α} {f : α → Audit β} {r : Except AuditError α}
    {g : α → Except AuditError β} (hx : x.Gives r) (hf : ∀ a, r = .ok a → (f a).Gives (g a)) :
    (x >>= f).Gives (r >>= g) := by
  intro notices
  have hr := hx notices
  rw [bind_apply]
  rcases h : x notices with ⟨s, rest⟩
  rw [h] at hr
  subst hr
  cases s with
  | error e => rfl
  | ok a => exact hf a rfl rest

theorem Gives.bind_ok {x : Audit α} {f : α → Audit β} {a : α} {r : Except AuditError β}
    (hx : x.Gives (.ok a)) (hf : (f a).Gives r) : (x >>= f).Gives r := by
  have hbind : (x >>= f).Gives (.ok a >>= fun _ => r) := by
    apply hx.bind
    intro b hb
    obtain rfl := Except.ok.inj hb
    exact hf
  exact hbind

theorem Gives.exists_bind {x : Audit α} {f : α → Audit β} {a : α} {P : Except AuditError β → Prop}
    (hx : x.Gives (.ok a)) (h : ∃ r, (f a).Gives r ∧ P r) : ∃ r, (x >>= f).Gives r ∧ P r := by
  obtain ⟨r, hr, hP⟩ := h
  exact ⟨r, hx.bind_ok hr, hP⟩

theorem Gives.bind_error {x : Audit α} {e : AuditError} (hx : x.Gives (.error e))
    (f : α → Audit β) : (x >>= f).Gives (.error e) := by
  have hbind : (x >>= f).Gives ((.error e : Except AuditError α) >>= fun _ => .error e) := by
    apply hx.bind
    intro a h
    cases h
  exact hbind

theorem Gives.mapM {f : α → Audit β} {g : α → Except AuditError β} {l : List α}
    (h : ∀ a ∈ l, (f a).Gives (g a)) : (l.mapM f).Gives (l.mapM g) := by
  induction l with
  | nil => exact gives_pure []
  | cons a l ih =>
    obtain ⟨ha, hl⟩ := List.forall_mem_cons.1 h
    rw [List.mapM_cons, List.mapM_cons]
    apply ha.bind
    intro b _
    apply (ih hl).bind
    intro bs _
    exact gives_pure (b :: bs)

theorem Gives.result_eq {x : Audit α} {r : Except AuditError α} (h : x.Gives r) : x.result = r :=
  h []

/-! ### Steps that do not look at the notices -/

/-- The answer of a step does not depend on the notices. -/
def Steady (x : Audit α) : Prop := x.Gives x.result

theorem Gives.steady {x : Audit α} {r : Except AuditError α} (h : x.Gives r) : x.Steady := by
  rw [Steady, h.result_eq]
  exact h

theorem steady_pure (a : α) : Steady (pure a) := (gives_pure a).steady

theorem steady_throw (e : AuditError) : Steady (throw e : Audit α) := (gives_throw e).steady

theorem steady_ofExcept (x : Except AuditError α) : Steady (ofExcept x) := (gives_ofExcept x).steady

theorem steady_notify (n : Notice) : Steady (notify n) := (gives_notify n).steady

theorem Steady.gives_bind {x : Audit α} {f : α → Audit β} (hx : x.Steady)
    (hf : ∀ a, (f a).Steady) : (x >>= f).Gives (x.result >>= fun a => (f a).result) :=
  Gives.bind hx fun a _ => hf a

theorem Steady.bind {x : Audit α} {f : α → Audit β} (hx : x.Steady) (hf : ∀ a, (f a).Steady) :
    (x >>= f).Steady :=
  (hx.gives_bind hf).steady

theorem Steady.gives_mapM {f : α → Audit β} {l : List α} (h : ∀ a ∈ l, (f a).Steady) :
    (l.mapM f).Gives (l.mapM fun a => (f a).result) :=
  Gives.mapM h

/-! ### How audits end -/

/-- A step fails in one way only, or has an answer of one kind, whatever
notices there are. -/
def AlwaysEnds (E : AuditError → Prop) (P : α → Prop) (x : Audit α) : Prop :=
  ∀ notices, Ends E P (x notices).1

section Ends

variable {E E' : AuditError → Prop} {P : α → Prop} {Q : β → Prop}

theorem alwaysEnds_pure {a : α} (h : P a) : AlwaysEnds E P (pure a) := fun _ => h

theorem alwaysEnds_throw {e : AuditError} (h : E e) : AlwaysEnds E P (throw e : Audit α) :=
  fun _ => h

theorem alwaysEnds_ofExcept {x : Except AuditError α} (h : Ends E P x) :
    AlwaysEnds E P (ofExcept x) :=
  fun _ => h

theorem alwaysEnds_notify (n : Notice) : AlwaysEnds E (fun _ => True) (notify n) :=
  fun _ => trivial

theorem AlwaysEnds.bind {x : Audit α} {f : α → Audit β} (hx : x.AlwaysEnds E P)
    (hf : ∀ a, P a → (f a).AlwaysEnds E Q) : (x >>= f).AlwaysEnds E Q := by
  intro notices
  have hstep := hx notices
  rw [bind_apply]
  rcases h : x notices with ⟨_ | a, rest⟩
  · rw [h] at hstep
    exact hstep
  · rw [h] at hstep
    exact hf a hstep rest

theorem AlwaysEnds.imp {P' : α → Prop} {x : Audit α} (hx : x.AlwaysEnds E P)
    (hE : ∀ e, E e → E' e) (hP : ∀ a, P a → P' a) : x.AlwaysEnds E' P' :=
  fun notices => (hx notices).imp hE hP

/-- A step that fails in one way fails in a more general one. -/
theorem AlwaysEnds.weaken {x : Audit α} (hx : x.AlwaysEnds E P) (hE : ∀ e, E e → E' e) :
    x.AlwaysEnds E' P :=
  hx.imp hE fun _ ha => ha

theorem alwaysEnds_mapM {f : α → Audit β} {l : List α} (h : ∀ a ∈ l, (f a).AlwaysEnds E Q) :
    (l.mapM f).AlwaysEnds E fun bs => ∀ b ∈ bs, Q b := by
  induction l with
  | nil =>
    apply alwaysEnds_pure
    intro b hb
    cases hb
  | cons a l ih =>
    obtain ⟨ha, hl⟩ := List.forall_mem_cons.1 h
    rw [List.mapM_cons]
    apply ha.bind
    intro b hb
    apply (ih hl).bind
    intro bs hbs
    exact alwaysEnds_pure (List.forall_mem_cons.2 ⟨hb, hbs⟩)

end Ends

end Audit

end CartridgeAudit
