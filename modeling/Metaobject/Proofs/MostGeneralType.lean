import Metaobject.Proofs.TypeCoherence

/-!
# The most general type

By its name, every value is of the most general type. By its class, the values are whose class
inherits from a finalized one: a class that waits for all that it inherits from does not find the
top of the hierarchy. Only instances have such classes.
-/

namespace Metaobject

namespace Registry

variable {r : Registry} {c : ClassId}

theorem Invariant.inherits_top (hr : r.Invariant) (hc : r.isFinalized c = true) :
    r.Inherits c KernelClass.top.id := by
  induction c using hr.acyclic.induction with
  | _ c ih =>
    by_cases hk : IsKernel c
    · obtain ⟨k, rfl⟩ := hk
      rw [← hr.mem_precedenceList, hr.precedenceList_kernel]
      apply List.mem_map_of_mem
      cases k <;> decide
    · obtain ⟨s, hs⟩ := isFinalized_iff.mp hc
      obtain ⟨hready, _⟩ := hr.precedence_superclasses (hr.settled c) hs
      have huser := hr.user c hk
      have hne : r.superclasses c ≠ [] := by
        rw [superclasses]
        cases hg : r.generation c with
        | forwardReferenced n => rw [hg] at hs; contradiction
        | standard k =>
          rw [hg] at huser
          exact huser.2
        | methodClass k => rw [hg] at huser; contradiction
        | builtIn k => rw [hg] at huser; contradiction
      obtain ⟨p, hp⟩ := List.exists_mem_of_ne_nil _ hne
      exact .head hp (ih p hp (hready p hp))

theorem Invariant.inherits_top_iff (hr : r.Invariant) :
    r.Inherits c KernelClass.top.id ↔ ∃ a, r.Inherits c a ∧ r.isFinalized a = true := by
  constructor
  · intro h
    obtain ⟨s, hs, _⟩ := hr.shape_kernel .top
    exact ⟨_, h, isFinalized_iff.mpr ⟨s, hs⟩⟩
  · rintro ⟨a, hca, ha⟩
    exact hca.trans (hr.inherits_top ha)

end Registry

namespace Session

variable {limits : Limits} {s : Session}

/-- The name of the most general type holds of every value. The class of that name holds of the
values whose class inherits from a finalized one, and so of all but instances without fail. -/
theorem reachable_most_general_type (h : Reachable limits s) (v : Value) :
    s.image.isOfType v (.named KernelClass.top.name) = true ∧
      (s.image.isOfType v (.ofClass KernelClass.top.id) = true ↔
        ∃ a, s.image.registry.Inherits (s.image.classOf v) a ∧
          s.image.registry.isFinalized a = true) ∧
      ((∀ i, v ≠ .object i) → s.image.isOfType v (.ofClass KernelClass.top.id) = true) := by
  obtain ⟨hinv, _⟩ := h.registry.invariant
  have htest := Image.isOfType_eq h.registry v
  have hclass : s.image.isOfType v (.ofClass KernelClass.top.id) = true ↔
      ∃ a, s.image.registry.Inherits (s.image.classOf v) a ∧
        s.image.registry.isFinalized a = true := by
    rw [htest, ← hinv.inherits_top_iff]
    exact hinv.isSubclass_iff
  refine ⟨?_, hclass, ?_⟩
  · rw [htest]
    rfl
  · intro hv
    obtain ⟨k, hk, _⟩ := Image.exists_kernelClass h.registry hv
    obtain ⟨shape, hshape, _⟩ := hinv.shape_kernel k
    rw [hclass, hk]
    exact ⟨_, .refl, Registry.isFinalized_iff.mpr ⟨shape, hshape⟩⟩

/-- An instance of a class that waits for its only superclass, and the waiting class itself. -/
theorem suspendedPoint_most_general_type :
    Reachable Limits.standard suspendedPoint ∧
      suspendedPoint.image.isOfType (.object 0) (.named KernelClass.top.name) = true ∧
      suspendedPoint.image.isOfType (.classObject 20) (.ofClass KernelClass.top.id) = true := by
  obtain ⟨hnamed, _, _⟩ := reachable_most_general_type reachable_suspendedPoint (.object 0)
  obtain ⟨_, _, hclass⟩ := reachable_most_general_type reachable_suspendedPoint (.classObject 20)
  exact ⟨reachable_suspendedPoint, hnamed, hclass fun _ heq => nomatch heq⟩

/-- The same instance is not of the class that has the name of the most general type. -/
theorem suspendedPoint_not_of_top :
    Reachable Limits.standard suspendedPoint ∧
      suspendedPoint.image.isOfType (.object 0) (.named KernelClass.top.name) = true ∧
      suspendedPoint.image.isOfType (.object 0) (.ofClass KernelClass.top.id) = false :=
  ⟨reachable_suspendedPoint, by decide +kernel, by decide +kernel⟩

end Session

end Metaobject
