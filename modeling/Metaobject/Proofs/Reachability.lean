import Metaobject.Proofs.FreshRegistry

/-!
# Reachable registries

A registry changes by definitions and by changes of its bindings. The invariant holds of a fresh
registry, and every step keeps it, whether it succeeds or fails.
-/

namespace Metaobject

inductive Operation
  | define (d : ClassDefinition)
  | register (name : Symbol) (c : ClassId)
  | remove (name : Symbol)
  | resolve (name : Symbol)
  | installPlaceholder (name : Symbol)
deriving DecidableEq, Repr

namespace Registry

variable {r : Registry} {limits : Limits} {name : Symbol}

/-- The registry after a step. A change of bindings that fails changes nothing. -/
def perform (r : Registry) : Operation → Registry
  | .define d => (r.define d).2
  | .register name c =>
    match r.register name c with
    | .ok (_, next) => next
    | .error _ => r
  | .remove name =>
    match r.remove name with
    | .ok (_, next) => next
    | .error _ => r
  | .resolve name =>
    match r.resolveOrPlaceholder name with
    | .ok (_, next) => next
    | .error _ => r
  | .installPlaceholder name =>
    match r.installPlaceholder name with
    | .ok (_, next) => next
    | .error _ => r

/-- Names may be bound to the classes of the registry only. -/
def Allowed (r : Registry) : Operation → Prop
  | .register _ c => c < r.cells.length
  | _ => True

/-- The registries that steps lead to, from a fresh one with these limits. -/
inductive Reachable (limits : Limits) : Registry → Prop
  | fresh : Reachable limits (.fresh limits)
  | step {r : Registry} {op : Operation} : Reachable limits r → r.Allowed op →
      Reachable limits (r.perform op)

section Fresh

theorem wellFormed_fresh (limits : Limits) : (fresh limits).WellFormed where
  kernel := generation_fresh limits
  user c hc := by
    rw [generation_of_le (length_fresh_le hc)]
    trivial
  acyclic := by
    refine Subrelation.wf ?_ (measure id).wf
    intro s c hs
    obtain ⟨k, l, rfl, rfl, hk⟩ := mem_superclasses_fresh.mp hs
    exact KernelClass.id_superclass_lt hk
  links a b := mem_subclasses_fresh.trans mem_superclasses_fresh.symm
  nodup_links := nodup_subclasses_fresh limits
  bound n c hn := by
    obtain ⟨k, _, rfl⟩ := lookup_fresh.mp hn
    rw [length_fresh]
    exact k.id_lt

theorem invariant_fresh (limits : Limits) : (fresh limits).Invariant where
  toWellFormed := wellFormed_fresh limits
  settled c := by
    intro k hk hsealed
    by_cases hc : IsKernel c
    · have h := (wellFormed_fresh limits).isSealed_iff.mpr hc
      rw [isSealed, hk] at h
      rw [Generation.isSealed, hsealed] at h
      exact absurd h Bool.false_ne_true
    · rw [generation_of_le (length_fresh_le hc)] at hk
      exact Generation.noConfusion hk

end Fresh

theorem alike_addPlaceholder (r : Registry) (name : Symbol) :
    r.Alike (r.addPlaceholder name).2 where
  limits := rfl
  generation c := by
    rcases Nat.lt_trichotomy c r.cells.length with hlt | rfl | hlt
    · exact Or.inl (generation_of_cell (cell_addPlaceholder_of_lt hlt))
    · exact Or.inr ⟨_, name, generation_of_le (Nat.le_refl _), generation_addPlaceholder_new⟩
    · refine Or.inr ⟨_, _, generation_of_le (Nat.le_of_lt hlt), generation_of_le ?_⟩
      rw [length_addPlaceholder]
      exact hlt
  subclasses := subclasses_addCell r (.forwardReferenced name)

theorem addPlaceholder_invariant (hr : r.Invariant) (name : Symbol) :
    (r.addPlaceholder name).2.Invariant := by
  apply (alike_addPlaceholder r name).invariant hr
  intro n c hn
  rw [length_addPlaceholder]
  rw [lookup_addPlaceholder] at hn
  split at hn
  · cases hn
    exact Nat.lt_succ_self _
  · exact Nat.lt_succ_of_lt (hr.bound n c hn)

theorem state_eq_placeholder {g : Generation} (h : g.state = .placeholder) :
    ∃ n, g = .forwardReferenced n := by
  have hshape : ∀ s : Option Shape, (if s.isSome then ClassState.finalized else .unfinalized) ≠
      .placeholder := by
    intro s
    split <;> exact ClassState.noConfusion
  cases g with
  | forwardReferenced n => exact ⟨n, rfl⟩
  | standard c => exact absurd h (hshape c.shape)
  | methodClass c => exact absurd h (hshape c.shape)
  | builtIn c => contradiction

theorem alike_publish_placeholder {c : ClassId} (name : Symbol) (hc : r.state c = .placeholder) :
    r.Alike (r.publish c (.forwardReferenced name)) where
  limits := rfl
  generation a := by
    by_cases ha : a = c
    · subst ha
      obtain ⟨n, hn⟩ := state_eq_placeholder hc
      by_cases hlt : a < r.cells.length
      · exact Or.inr ⟨n, name, hn, generation_publish_self r _ hlt⟩
      · have hle := Nat.le_of_not_lt hlt
        exact Or.inr ⟨n, _, hn, generation_of_le (by rwa [length_publish])⟩
    · exact Or.inl (generation_publish_of_ne r _ ha)
  subclasses a := subclasses_publish r c a _

theorem installPlaceholder_invariant (hr : r.Invariant) {c : ClassId} {next : Registry}
    (h : r.installPlaceholder name = .ok (c, next)) : next.Invariant ∧ next.limits = r.limits := by
  rw [installPlaceholder] at h
  obtain ⟨_, h⟩ := check_bind_eq_ok.mp h
  split at h
  · rename_i c' hc'
    split at h
    · rename_i hstate
      cases h
      refine ⟨(alike_publish_placeholder name hstate).invariant hr fun n a hn => ?_, rfl⟩
      rw [length_publish]
      exact hr.bound n a hn
    · split at h
      · contradiction
      · cases h
        exact ⟨addPlaceholder_invariant hr name, rfl⟩
  · cases h
    exact ⟨addPlaceholder_invariant hr name, rfl⟩

theorem bindings_invariant (hr : r.Invariant) {bindings : Table Symbol ClassId}
    (h : ∀ n c, bindings.find? n = some c → c < r.cells.length) :
    { r with bindings := bindings }.Invariant :=
  have halike : r.Alike { r with bindings := bindings } :=
    ⟨rfl, fun _ => Or.inl rfl, fun _ => rfl⟩
  halike.invariant hr h

theorem register_invariant (hr : r.Invariant) {c : ClassId} (hc : c < r.cells.length)
    {old : Option ClassId} {next : Registry} (h : r.register name c = .ok (old, next)) :
    next.Invariant ∧ next.limits = r.limits := by
  rw [register] at h
  obtain ⟨_, h⟩ := check_bind_eq_ok.mp h
  obtain ⟨_, h⟩ := check_bind_eq_ok.mp h
  cases h
  refine ⟨bindings_invariant hr fun n a hn => ?_, rfl⟩
  rw [Table.find?_insert] at hn
  split at hn
  · cases hn
    exact hc
  · exact hr.bound n a hn

theorem remove_invariant (hr : r.Invariant) {old : Option ClassId} {next : Registry}
    (h : r.remove name = .ok (old, next)) : next.Invariant ∧ next.limits = r.limits := by
  rw [remove] at h
  obtain ⟨_, h⟩ := check_bind_eq_ok.mp h
  cases h
  refine ⟨bindings_invariant hr fun n a hn => ?_, rfl⟩
  rw [Table.find?_erase] at hn
  split at hn
  · contradiction
  · exact hr.bound n a hn

theorem resolveOrPlaceholder_invariant (hr : r.Invariant) {c : ClassId} {next : Registry}
    (h : r.resolveOrPlaceholder name = .ok (c, next)) :
    next.Invariant ∧ next.limits = r.limits := by
  rw [resolveOrPlaceholder] at h
  obtain ⟨_, h⟩ := check_bind_eq_ok.mp h
  have hgrown := (grown_resolve r name).1
  rw [Except.ok.inj h] at hgrown
  exact ⟨hgrown.invariant hr, hgrown.limits⟩

theorem perform_invariant (hr : r.Invariant) {op : Operation} (ha : r.Allowed op) :
    (r.perform op).Invariant ∧ (r.perform op).limits = r.limits := by
  cases op with
  | define d => exact define_invariant hr d
  | register name c =>
    rw [perform]
    split
    · exact register_invariant hr ha ‹_›
    · exact ⟨hr, rfl⟩
  | remove name =>
    rw [perform]
    split
    · exact remove_invariant hr ‹_›
    · exact ⟨hr, rfl⟩
  | resolve name =>
    rw [perform]
    split
    · exact resolveOrPlaceholder_invariant hr ‹_›
    · exact ⟨hr, rfl⟩
  | installPlaceholder name =>
    rw [perform]
    split
    · exact installPlaceholder_invariant hr ‹_›
    · exact ⟨hr, rfl⟩

theorem Reachable.invariant (h : Reachable limits r) : r.Invariant ∧ r.limits = limits := by
  induction h with
  | fresh => exact ⟨invariant_fresh limits, limits_fresh limits⟩
  | step _ ha ih =>
    obtain ⟨hinv, hlimits⟩ := perform_invariant ih.1 ha
    exact ⟨hinv, hlimits.trans ih.2⟩

end Registry

namespace ClassDefinition

def point : ClassDefinition := ⟨⟨"POINT"⟩, [], [⟨"X"⟩, ⟨"Y"⟩], none⟩

def coloredPoint : ClassDefinition := ⟨⟨"COLORED-POINT"⟩, [⟨"POINT"⟩], [⟨"COLOR"⟩], none⟩

end ClassDefinition

namespace Registry

def points : Registry :=
  ((fresh Limits.standard).perform (.define .coloredPoint)).perform (.define .point)

theorem reachable_points : Reachable Limits.standard points :=
  .step (.step .fresh trivial) trivial

end Registry

end Metaobject
