import Metaobject.Proofs.Reachability

/-!
# Stored shapes

In every reachable registry the shape that a class keeps is the one that finalization would give it
now. No class is left with what one of its superclasses was before.
-/

namespace Metaobject.Registry

variable {limits : Limits} {r : Registry} {c : ClassId} {k : StandardClass}

theorem finalizedClass_eq (r : Registry) (limits : Limits) (c : ClassId) (version : Nat)
    (k : StandardClass) : r.finalizedClass limits c version k =
      (r.shapeOf limits c version k).map fun s => { k with shape := some s } := by
  rw [finalizedClass]
  cases r.shapeOf limits c version k <;> rfl

theorem exists_shapeOf (version : Nat) {o : Outline ClassId} (h : r.outline? c k = some o) :
    ∃ s, r.shapeOf r.limits c version k = .ok s ∧ s.outline = o := by
  rw [← outline_shapeOf_version version] at h
  cases hs : r.shapeOf r.limits c version k with
  | error f => rw [hs] at h; contradiction
  | ok s =>
    rw [hs] at h
    exact ⟨s, rfl, Option.some.inj h⟩

theorem outline?_of_shapeOf {version : Nat} {s : Shape}
    (h : r.shapeOf r.limits c version k = .ok s) : r.outline? c k = some s.outline := by
  rw [← outline_shapeOf_version version, h]
  rfl

theorem Invariant.isFinalized_iff_finalizedClass (h : r.Invariant)
    (hk : r.generation c = .standard k) (hsealed : k.isSealed = false) (version : Nat) :
    r.isFinalized c ↔ (∀ s ∈ r.superclasses c, r.isFinalized s) ∧
      ∃ k', r.finalizedClass r.limits c version k = .ok k' := by
  have hsettled : k.shape.map Shape.outline = r.outline? c k := h.settled c k hk hsealed
  have hshape : (r.generation c).shape = k.shape := congrArg Generation.shape hk
  have hsupers : r.superclasses c = k.superclasses := congrArg Generation.superclasses hk
  rw [isFinalized_iff, hshape, hsupers, finalizedClass_eq]
  constructor
  · rintro ⟨s, hs⟩
    rw [hs] at hsettled
    obtain ⟨s', hs', _⟩ := exists_shapeOf version hsettled.symm
    rw [hs']
    exact ⟨(fits_of_outline? hsettled.symm).ready, _, rfl⟩
  · rintro ⟨_, k', hk'⟩
    cases hs : r.shapeOf r.limits c version k with
    | error f => rw [hs] at hk'; contradiction
    | ok s =>
      rw [outline?_of_shapeOf hs] at hsettled
      obtain ⟨s', hs', _⟩ := Option.map_eq_some_iff.mp hsettled
      exact ⟨s', hs'⟩

/-- The slots of a finalized class are those that the classes declare which it inherits from. -/
theorem Invariant.mem_slots (h : r.Invariant) (hk : r.generation c = .standard k)
    (hsealed : k.isSealed = false) {s : Shape} (hs : k.shape = some s) {n : Symbol} :
    n ∈ s.layout.slots ↔ ∃ a, r.Inherits c a ∧ n ∈ r.slots a := by
  have hsettled : k.shape.map Shape.outline = r.outline? c k := h.settled c k hk hsealed
  rw [hs] at hsettled
  have hown : k.slots = r.slots c := (congrArg Generation.slots hk).symm
  have hshape : (r.generation c).shape = some s := (congrArg Generation.shape hk).trans hs
  have hinherits : ∀ a, r.Inherits c a ↔ a = c ∨ a ∈ s.outline.precedence := fun a => by
    rw [← h.mem_precedenceList, precedenceList_finalized hshape]
    exact List.mem_cons
  change n ∈ s.outline.slots ↔ _
  rw [mem_slots_of_outline? hsettled.symm, hown]
  simp only [hinherits, or_and_right, exists_or, exists_eq_left]

/-- A class is finalized exactly when it can be, and keeps what finalization computes now: the
classes that it inherits from now, and the slots that they declare now, within the limits. -/
theorem reachable_shape_recomputed (h : Reachable limits r) (hc : ¬IsKernel c)
    (hk : r.generation c = .standard k) (version : Nat) :
    (r.isFinalized c ↔ (∀ s ∈ r.superclasses c, r.isFinalized s) ∧
      ∃ k', r.finalizedClass limits c version k = .ok k') ∧
    ∀ s, k.shape = some s →
      (∃ s', r.finalizedClass limits c version k = .ok { k with shape := some s' } ∧
        s'.precedence = s.precedence ∧ s'.layout.slots = s.layout.slots) ∧
      (r.precedenceList c).length ≤ limits.maxPrecedenceDepth ∧
      s.layout.length ≤ limits.maxSlots ∧
      (∀ a, a ∈ r.precedenceList c ↔ r.Inherits c a) ∧
      ∀ n, n ∈ s.layout.slots ↔ ∃ a, r.Inherits c a ∧ n ∈ r.slots a := by
  obtain ⟨hinv, rfl⟩ := h.invariant
  have huser := hinv.user c hc
  rw [hk] at huser
  refine ⟨hinv.isFinalized_iff_finalizedClass hk huser.1 version, fun s hs => ?_⟩
  have hsettled : k.shape.map Shape.outline = r.outline? c k := hinv.settled c k hk huser.1
  rw [hs] at hsettled
  have houtline : r.outline? c k = some s.outline := hsettled.symm
  have hfits := fits_of_outline? houtline
  obtain ⟨s', hs', heq⟩ := exists_shapeOf version houtline
  refine ⟨⟨s', ?_, congrArg Outline.precedence heq, congrArg Outline.slots heq⟩, ?_, hfits.size,
    fun _ => hinv.mem_precedenceList, fun _ => hinv.mem_slots hk huser.1 hs⟩
  · rw [finalizedClass_eq, hs']
    rfl
  · rw [precedenceList_finalized ((congrArg Generation.shape hk).trans hs)]
    exact hfits.depth huser.2

def coloredPointShape : Shape :=
  ⟨[20, 1, 0], ⟨some ⟨"COLORED-POINT"⟩, 1, [⟨"X"⟩, ⟨"Y"⟩, ⟨"COLOR"⟩], by decide⟩⟩

theorem coloredPoint_shape_recomputed :
    Reachable Limits.standard points ∧ ¬IsKernel 21 ∧
      points.generation 21 = .standard { ClassDefinition.coloredPoint.classWith [20] with
        shape := some coloredPointShape } ∧
      ∃ s', points.finalizedClass Limits.standard 21 7
          { ClassDefinition.coloredPoint.classWith [20] with shape := some coloredPointShape } =
            .ok { ClassDefinition.coloredPoint.classWith [20] with shape := some s' } ∧
        s'.precedence = [20, 1, 0] ∧ s'.layout.slots = [⟨"X"⟩, ⟨"Y"⟩, ⟨"COLOR"⟩] := by
  have hkernel : ¬IsKernel 21 := by
    rintro ⟨k, hk⟩
    exact absurd k.id_lt (by rw [hk]; decide)
  have hgeneration : points.generation 21 = .standard
      { ClassDefinition.coloredPoint.classWith [20] with shape := some coloredPointShape } := by
    decide +kernel
  refine ⟨reachable_points, hkernel, hgeneration, ?_⟩
  exact ((reachable_shape_recomputed reachable_points hkernel hgeneration 7).2 _ rfl).1

end Metaobject.Registry
