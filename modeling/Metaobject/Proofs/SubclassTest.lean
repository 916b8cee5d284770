import Metaobject.Proofs.Reachability

/-!
# The test for subclasses

In every reachable registry no class inherits from itself, and the test for subclasses says exactly
what can be reached along direct superclasses. A definition that would close a cycle fails, and a
cycle is reported only for one.
-/

namespace Metaobject.Registry

variable {limits : Limits} {r : Registry} {d : ClassDefinition} {c : StandardClass}

/-- The direct superclasses as they would be after a definition. -/
def superclassesAfter (r : Registry) (d : ClassDefinition) : ClassId → List ClassId :=
  Function.update (r.declare d).2.2.superclasses (r.declare d).1 (r.declare d).2.1.superclasses

/-- With this superclass the class of a definition would inherit from itself. -/
def ClosesCycle (r : Registry) (d : ClassDefinition) (super : Symbol) : Prop :=
  super ∈ d.superclasses ∧ ∃ s, (r.declare d).2.2.lookup super = some s ∧
    Graph.Reaches (r.superclassesAfter d) s (r.declare d).1

theorem lookup_declare_name (r : Registry) (d : ClassDefinition) :
    (r.declare d).2.2.lookup d.name = some (r.declare d).1 := by
  have hcell : ∀ (r : Registry) (c : StandardClass),
      (r.cellFor d.name c).2.lookup d.name = some (r.cellFor d.name c).1 := by
    intro r c
    rw [cellFor]
    split
    · assumption
    · exact (lookup_bind _ _).trans (if_pos rfl)
  exact hcell _ _

theorem declare_of_some {root : ClassId} (h : r.lookup d.name = some root) :
    (r.declare d).1 = root ∧ (r.declare d).2.2 = (r.declaredSuperclasses d).2 := by
  have hlookup := (grown_declaredSuperclasses r d).1.lookup_of_some h
  have hcell : ∀ c, (r.declaredSuperclasses d).2.cellFor d.name c =
      (root, (r.declaredSuperclasses d).2) := by
    intro c
    rw [cellFor, hlookup]
  exact ⟨congrArg Prod.fst (hcell _), congrArg Prod.snd (hcell _)⟩

theorem closesCycle_of_inherits {super : Symbol} (hsuper : super ∈ d.superclasses)
    (h : super = d.name ∨ ∃ s root, r.lookup super = some s ∧ r.lookup d.name = some root ∧
      r.Inherits s root) : r.ClosesCycle d super := by
  refine ⟨hsuper, ?_⟩
  rcases h with rfl | ⟨s, root, hs, hroot, hinherits⟩
  · exact ⟨_, lookup_declare_name r d, .refl⟩
  · obtain ⟨hfirst, hmid⟩ := declare_of_some hroot
    have hgrown := (grown_declaredSuperclasses r d).1
    refine ⟨s, ?_, ?_⟩
    · rw [hmid]
      exact hgrown.lookup_of_some hs
    · rw [superclassesAfter, hfirst, hmid]
      refine (Graph.reaches_redirect fun a hne => ?_).mpr hinherits
      rw [Function.update_of_ne hne]
      exact hgrown.alike.superclasses a

theorem not_closesCycle_of_installed {root : ClassId} {k : StandardClass} {mid next : Registry}
    (hr : r.Invariant) (ha : r.Admits d) (hi : r.Installed d root k mid next) (super : Symbol) :
    ¬r.ClosesCycle d super := by
  rintro ⟨hsuper, s, hs, hreach⟩
  have hw := wellFormed_installed hr ha hi
  have hafter : r.superclassesAfter d = next.superclasses := by
    funext a
    rw [superclassesAfter, hi.declare]
    by_cases hroot : a = root
    · rw [hroot, Function.update_self, hi.superclasses_root]
    · rw [Function.update_of_ne hroot, superclasses, superclasses, generation, generation,
        hi.redefined.snapshot a hroot]
  rw [hafter] at hreach
  rw [hi.declare] at hs hreach
  have hmem : s ∈ k.superclasses := by
    have hnames := hi.declared.superclasses
    rw [NamesSuperclasses, if_neg (List.ne_nil_of_mem hsuper)] at hnames
    have hsome : some s ∈ k.superclasses.map some := by
      rw [← hnames, ← hs]
      exact List.mem_map_of_mem hsuper
    obtain ⟨s', hs', heq⟩ := List.mem_map.mp hsome
    cases heq
    exact hs'
  rw [← hi.superclasses_root] at hmem
  exact hw.not_descends_self root (Relation.TransGen.head'_iff.mpr ⟨s, hmem, hreach⟩)

theorem shapeOf_not_cyclic {self : ClassId} {version : Nat} {n s : Symbol} :
    r.shapeOf limits self version c ≠ .error (.cyclicSuperclass n s) := by
  intro h
  by_cases hready : ∀ p ∈ c.superclasses, r.isFinalized p
  · rw [shapeOf_ready hready, linearized] at h
    split at h
    · rw [ok_bind] at h
      cases hbuild : Layout.build c.name c.slots (r.inheritedSlots _) with
      | error f =>
        rw [hbuild] at h
        obtain ⟨_, rfl⟩ := build_eq_error hbuild
        cases h
      | ok l =>
        rw [hbuild, ok_bind] at h
        split at h <;> cases h
    · cases h
    · cases h
  · cases hfind : c.superclasses.find? (fun p => !r.isFinalized p) with
    | none => exact hready fun p hp => by simpa using List.find?_eq_none.mp hfind p hp
    | some p =>
      rw [shapeOf, hfind] at h
      cases h

theorem closesCycle_of_fault (hr : r.Invariant) {n s : Symbol}
    (h : (r.define d).1 = .error (.cyclicSuperclass n s)) : n = d.name ∧ r.ClosesCycle d s := by
  rcases define_eq_error hr.toWellFormed (Prod.ext h rfl) with ⟨hcheck, _⟩ | ⟨_, _, k, mid, hrefused⟩
  · obtain ⟨hn, hs, hcycle⟩ := checkDefinition_cyclic hcheck
    refine ⟨hn, closesCycle_of_inherits hs (hcycle.imp_right ?_)⟩
    rintro ⟨s', root, hs', hroot, hsub⟩
    exact ⟨s', root, hs', hroot, hr.isSubclass_iff.mp hsub⟩
  · exact absurd hrefused.fault shapeOf_not_cyclic

/-- The superclass graph has no cycle, the test for subclasses is reachability in it, and thereby a
partial order. Definitions fail if they would close a cycle, and report one only then. -/
theorem reachable_isSubclass_exact (h : Reachable limits r) :
    (∀ a, ¬r.Descends a a) ∧
    (∀ a b, r.isSubclass a b ↔ r.Inherits a b) ∧
    IsPartialOrder ClassId (fun a b => r.isSubclass a b) ∧
    (∀ d super, r.ClosesCycle d super → ∃ f, (r.define d).1 = .error f) ∧
    ∀ d n super, (r.define d).1 = .error (.cyclicSuperclass n super) →
      n = d.name ∧ r.ClosesCycle d super := by
  obtain ⟨hinv, _⟩ := h.invariant
  have hexact : ∀ a b, r.isSubclass a b ↔ r.Inherits a b := fun _ _ => hinv.isSubclass_iff
  refine ⟨hinv.not_descends_self, hexact, ?_, ?_, ?_⟩
  · simp only [hexact]
    refine { refl := fun a => .refl, trans := fun a b c => .trans, antisymm := fun a b hab hba => ?_ }
    rcases Relation.reflTransGen_iff_eq_or_transGen.mp hab with heq | hdescends
    · exact heq.symm
    · exact absurd (hdescends.trans_left hba) (hinv.not_descends_self a)
  · intro d super hcycle
    cases hdefine : r.define d with
    | mk result next =>
      cases result with
      | error f => exact ⟨f, rfl⟩
      | ok root =>
        obtain ⟨k, mid, inst, hdefined⟩ := define_eq_ok hinv.toWellFormed hdefine
        exact absurd hcycle
          (not_closesCycle_of_installed hinv hdefined.admits hdefined.installed super)
  · exact fun d n super hfault => closesCycle_of_fault hinv hfault

def pointBelow : ClassDefinition := ⟨⟨"POINT"⟩, [⟨"COLORED-POINT"⟩], [], none⟩

theorem coloredPoint_isSubclass_exact :
    Reachable Limits.standard points ∧ points.isSubclass 21 20 ∧ points.Inherits 21 20 ∧
      ¬points.Descends 21 21 ∧ points.ClosesCycle pointBelow ⟨"COLORED-POINT"⟩ ∧
      ∃ f, (points.define pointBelow).1 = .error f := by
  obtain ⟨hacyclic, hexact, _, hfails, _⟩ := reachable_isSubclass_exact reachable_points
  have hsub : points.isSubclass 21 20 := by decide +kernel
  have hinherits := (hexact 21 20).mp hsub
  have hcycle : points.ClosesCycle pointBelow ⟨"COLORED-POINT"⟩ :=
    closesCycle_of_inherits (by decide)
      (Or.inr ⟨21, 20, by decide +kernel, by decide +kernel, hinherits⟩)
  exact ⟨reachable_points, hsub, hinherits, hacyclic 21, hcycle, hfails _ _ hcycle⟩

end Metaobject.Registry
