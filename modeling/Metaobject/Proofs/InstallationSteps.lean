import Metaobject.Proofs.ActionRuns

/-!
# Steps of installation
-/

namespace Metaobject.Installation

variable {α β : Type} (m : Image)

@[simp] theorem runOn_get : (get : Installation Image).runOn m = (.ok m, m) := rfl

@[simp] theorem runOn_bind (s : Installation α) (f : α → Installation β) :
    (s >>= f).runOn m =
      match s.runOn m with
      | (.ok x, next) => (f x).runOn next
      | (.error e, next) => (.error e, next) := by
  change (match s.runOn m with
    | (x, next) => (ExceptT.bindCont f x).run next : Except LoadFault β × Image) = _
  cases h : s.runOn m with
  | mk x next => cases x <;> rfl

theorem runOn_bind_of_ok {m next : Image} {s : Installation α} {f : α → Installation β} {x : α}
    (h : s.runOn m = (.ok x, next)) : (s >>= f).runOn m = (f x).runOn next := by
  rw [runOn_bind, h]

@[simp] theorem runOn_map (s : Installation α) (f : α → β) :
    (f <$> s).runOn m = ((s.runOn m).1.map f, (s.runOn m).2) := by
  change (s >>= fun x => pure (f x)).runOn m = _
  rw [runOn_bind]
  cases h : s.runOn m with
  | mk x next => cases x <;> rfl

@[simp] theorem runOn_discard (s : Installation α) :
    (discard s).runOn m = ((s.runOn m).1.map fun _ => (), (s.runOn m).2) :=
  runOn_map m s fun _ => ()

@[simp] theorem runOn_core (a : Action α) :
    (core a).runOn m = ((a.runOn m).1.mapError LoadFault.core, (a.runOn m).2) := rfl

theorem bind_eq_ok {s : Installation α} {f : α → Installation β} {b : β} {m' : Image}
    (h : (s >>= f).runOn m = (.ok b, m')) :
    ∃ a next, s.runOn m = (.ok a, next) ∧ (f a).runOn next = (.ok b, m') := by
  rw [runOn_bind] at h
  cases hs : s.runOn m with
  | mk answer next =>
    rw [hs] at h
    cases answer with
    | error e => cases h
    | ok a => exact ⟨a, next, rfl, h⟩

theorem forM_cons_eq_ok {f : α → Installation PUnit} {x : α} {rest : List α} {m' : Image}
    (h : ((x :: rest).forM f).runOn m = (.ok (), m')) :
    ∃ next, (f x).runOn m = (.ok (), next) ∧ (rest.forM f).runOn next = (.ok (), m') := by
  obtain ⟨_, next, hx, hrest⟩ := bind_eq_ok m (s := f x) (f := fun _ => rest.forM f) h
  exact ⟨next, hx, hrest⟩

theorem forM_cons_of_ok {f : α → Installation PUnit} {x : α} (rest : List α) {next : Image}
    (h : (f x).runOn m = (.ok (), next)) :
    ((x :: rest).forM f).runOn m = (rest.forM f).runOn next := by
  change (f x >>= fun _ => rest.forM f).runOn m = _
  rw [runOn_bind_of_ok h]

theorem bind_eq_error {m m' : Image} {s : Installation α} {f : α → Installation β} {e : LoadFault} :
    (s >>= f).runOn m = (.error e, m') ↔ s.runOn m = (.error e, m') ∨
      ∃ x next, s.runOn m = (.ok x, next) ∧ (f x).runOn next = (.error e, m') := by
  rw [runOn_bind]
  cases s.runOn m with
  | mk answer next => cases answer <;> simp

theorem forM_eq_error {m m' : Image} {f : α → Installation PUnit} {l : List α} {e : LoadFault} :
    (l.forM f).runOn m = (.error e, m') ↔ ∃ before x after next, l = before ++ x :: after ∧
      (before.forM f).runOn m = (.ok (), next) ∧ (f x).runOn next = (.error e, m') := by
  constructor
  · intro h
    induction l generalizing m with
    | nil => cases h
    | cons x l ih =>
      have hsteps : (f x >>= fun _ => l.forM f).runOn m = (.error e, m') := h
      obtain hx | ⟨_, mid, hx, hrest⟩ := bind_eq_error.mp hsteps
      · exact ⟨[], x, l, m, rfl, rfl, hx⟩
      · obtain ⟨before, y, after, next, rfl, hbefore, hy⟩ := ih hrest
        refine ⟨x :: before, y, after, next, rfl, ?_, hy⟩
        rw [forM_cons_of_ok m before hx]
        exact hbefore
  · rintro ⟨before, x, after, next, rfl, hbefore, hx⟩
    induction before generalizing m with
    | nil =>
      cases hbefore
      exact bind_eq_error.mpr (Or.inl hx)
    | cons y before ih =>
      obtain ⟨mid, hy, hrest⟩ := forM_cons_eq_ok m hbefore
      rw [List.cons_append, forM_cons_of_ok m _ hy]
      exact ih hrest

theorem forM_discard (f : α → Installation β) (l : List α) :
    (l.forM fun x => discard (f x)) = discard (l.mapM f) := by
  induction l with
  | nil => rfl
  | cons x l ih =>
    change ((fun _ => PUnit.unit) <$> f x >>= fun _ => l.forM fun x => discard (f x)) =
      (fun _ => PUnit.unit) <$> (x :: l).mapM f
    simp only [ih, List.mapM_cons, map_bind, bind_map_left, bind_pure_comp, Functor.map_map]
    rfl

theorem core_eq_ok {a : Action α} {x : α} {m' : Image} (h : (core a).runOn m = (.ok x, m')) :
    a.runOn m = (.ok x, m') := by
  rw [runOn_core] at h
  cases ha : a.runOn m with
  | mk answer next =>
    rw [ha] at h
    cases answer with
    | error e => cases h
    | ok y =>
      cases h
      rfl

theorem discard_eq_ok {s : Installation α} {m' : Image}
    (h : (discard s).runOn m = (.ok (), m')) : ∃ x, s.runOn m = (.ok x, m') := by
  rw [runOn_discard] at h
  cases hs : s.runOn m with
  | mk answer next =>
    rw [hs] at h
    cases answer with
    | error e => cases h
    | ok x =>
      cases h
      exact ⟨x, rfl⟩

theorem discard_eq_error {m m' : Image} {s : Installation α} {e : LoadFault} :
    (discard s).runOn m = (.error e, m') ↔ s.runOn m = (.error e, m') := by
  rw [runOn_discard]
  cases s.runOn m with
  | mk answer next => cases answer <;> simp [Except.map]

theorem runOn_literal (unit : String) (j : Json) :
    (literal unit j).runOn m =
      match Literal.read j m.nextObject with
      | .ok (v, next) => (.ok v, { m with nextObject := next })
      | .error j => (.error (.decode unit none none (Literal.refusal j)), m) := by
  rw [literal, runOn_bind_of_ok (runOn_get m)]
  cases Literal.read j m.nextObject <;> rfl

theorem runOn_specializer (unit : String) (n : Symbol) :
    (specializer unit (.ofClass n)).runOn m =
      match m.registry.resolveOrPlaceholder n with
      | .ok (c, next) => (.ok (.ofClass c), { m with registry := next })
      | .error f => (.error (.core f), m) := by
  have hstep : (Action.onRegistry fun r => r.resolveOrPlaceholder n).runOn m =
      match m.registry.resolveOrPlaceholder n with
      | .ok (c, next) => (.ok c, { m with registry := next })
      | .error f => (.error f, m) := by
    rw [Action.onRegistry, Action.runOn_bind_of_ok (Action.runOn_get m)]
    cases m.registry.resolveOrPlaceholder n <;> rfl
  rw [specializer, runOn_bind, runOn_core, hstep]
  cases m.registry.resolveOrPlaceholder n <;> rfl

/-- If the step fails, the fault satisfies a condition. -/
def FailsOnly (P : LoadFault → Prop) (s : Installation α) : Prop :=
  ∀ m e m', s.runOn m = (.error e, m') → P e

section Faults

variable {P : LoadFault → Prop} {s : Installation α}

theorem FailsOnly.bind {f : α → Installation β} (hs : FailsOnly P s) (hf : ∀ y, FailsOnly P (f y)) :
    FailsOnly P (s >>= f) := by
  intro m e m' h
  obtain hfirst | ⟨y, next, _, hnext⟩ := bind_eq_error.mp h
  · exact hs m e m' hfirst
  · exact hf y next e m' hnext

theorem failsOnly_pure (y : α) : FailsOnly P (pure y : Installation α) := by
  intro m e m' h
  cases h

theorem FailsOnly.map (hs : FailsOnly P s) (g : α → β) : FailsOnly P (g <$> s) :=
  hs.bind fun y => failsOnly_pure (g y)

theorem FailsOnly.discard (hs : FailsOnly P s) : FailsOnly P (discard s) :=
  hs.map fun _ => ()

theorem FailsOnly.forM {f : α → Installation PUnit} (hf : ∀ y, FailsOnly P (f y)) (l : List α) :
    FailsOnly P (l.forM f) := by
  intro m e m' h
  obtain ⟨_, y, _, next, _, _, hy⟩ := forM_eq_error.mp h
  exact hf y next e m' hy

theorem FailsOnly.mapM {f : α → Installation β} (hf : ∀ y, FailsOnly P (f y)) (l : List α) :
    FailsOnly P (l.mapM f) := by
  induction l with
  | nil => exact failsOnly_pure []
  | cons y l ih =>
    rw [List.mapM_cons]
    exact (hf y).bind fun z => ih.bind fun zs => failsOnly_pure (z :: zs)

theorem failsOnly_throw {e : LoadFault} (he : P e) : FailsOnly P (throw e : Installation α) := by
  intro m e' m' h
  cases h
  exact he

theorem failsOnly_core (hcore : ∀ f, P (.core f)) (action : Action α) :
    FailsOnly P (core action) := by
  intro m e m' h
  rw [runOn_core] at h
  cases hrun : action.runOn m with
  | mk answer next =>
    rw [hrun] at h
    cases answer with
    | error f =>
      cases h
      exact hcore f
    | ok y => cases h

theorem failsOnly_functionFor (hcore : ∀ f, P (.core f)) (d : MethodDeclaration) :
    FailsOnly P (functionFor d) := by
  intro m e m' h
  rw [functionFor, runOn_bind_of_ok (runOn_get m)] at h
  cases hg : m.findFunction d.function with
  | some g =>
    rw [hg] at h
    cases h
  | none =>
    rw [hg] at h
    exact failsOnly_core hcore _ m e m' h

theorem failsOnly_function (hcore : ∀ f, P (.core f)) (d : FunctionDeclaration) :
    FailsOnly P (function d) := by
  refine (failsOnly_core hcore _).bind fun g => ?_
  intro m e m' h
  cases h

end Faults

end Metaobject.Installation
