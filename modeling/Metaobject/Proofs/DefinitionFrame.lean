import Metaobject.Proofs.Reachability

/-!
# What a definition touches

A successful definition binds the name of the class and placeholders for the superclasses that are
missing, and builds the class and its proper descendants, each of these once and superclasses first.
Everything else stays what it was.
-/

namespace Metaobject.Registry

variable {limits : Limits} {r mid inst next : Registry} {d : ClassDefinition} {root : ClassId}
  {k : StandardClass}

def NewPlaceholder (r next : Registry) (n : Symbol) (a : ClassId) : Prop :=
  next.lookup n = some a ∧ r.cells.length ≤ a ∧ a < next.cells.length ∧
    next.generation a = .forwardReferenced n

/-- The bindings after a definition. -/
structure Binds (r : Registry) (d : ClassDefinition) (root : ClassId) (next : Registry) : Prop where
  kept : ∀ n a, r.lookup n = some a → next.lookup n = some a
  name : next.lookup d.name = some root
  name_new : r.lookup d.name = none → r.cells.length ≤ root
  superclass : ∀ n ∈ d.superclasses, r.lookup n = none → ∃ a, a ≠ root ∧ r.NewPlaceholder next n a
  other : ∀ n, n ≠ d.name → n ∉ d.superclasses → next.lookup n = r.lookup n

def cascadeOf (r : Registry) (d : ClassDefinition) (root : ClassId) : Outcome :=
  settle ((r.install d).2.descendants root) [root] ((r.install d).2.descendants root)
    (r.install d).2

theorem Defined.descends_iff (hr : r.Invariant) (h : r.Defined d root k mid inst next)
    {a : ClassId} : next.Descends a root ↔ inst.Descends a root := by
  have hsupers : next.superclasses = inst.superclasses :=
    funext (h.cascade hr).2.1.superclasses
  rw [Descends, hsupers]

theorem Defined.descends_before (hr : r.Invariant) (h : r.Defined d root k mid inst next)
    {a : ClassId} : next.Descends a root ↔ r.Descends a root := by
  have hw := wellFormed_installed hr h.admits h.installed
  rw [h.descends_iff hr]
  by_cases hroot : a = root
  · subst hroot
    exact iff_of_false (hw.not_descends_self a) (hr.not_descends_self a)
  · have hinherits := h.installed.inherits_iff (a := a)
    rw [Inherits, Graph.Reaches, Inherits, Graph.Reaches, Relation.reflTransGen_iff_eq_or_transGen,
      Relation.reflTransGen_iff_eq_or_transGen] at hinherits
    have hne : root ≠ a := Ne.symm hroot
    simpa only [hne, false_or] using hinherits

theorem Defined.placeholder (hr : r.Invariant) (h : r.Defined d root k mid inst next) {n : Symbol}
    (hn : n ∈ d.superclasses) (hnone : r.lookup n = none) :
    ∃ a, a ≠ root ∧ r.NewPlaceholder next n a := by
  have hreshaped := (h.cascade hr).2.1
  have hd := h.installed.declared
  have hname : n ≠ d.name := fun heq => h.admits.notMem (heq ▸ hn)
  have hbound : mid.lookup n ≠ none := by
    have hnames := hd.superclasses
    rw [NamesSuperclasses, if_neg (List.ne_nil_of_mem hn)] at hnames
    intro hmissing
    have hmem : none ∈ k.superclasses.map some := by
      rw [← hmissing]
      exact hnames ▸ List.mem_map_of_mem hn
    simp at hmem
  rcases hd.lookup n hname with heq | ⟨_, _, a, ha, hne, hle, hlt, hgen⟩
  · exact absurd (heq.trans hnone) hbound
  · refine ⟨a, hne, ?_, hle, ?_, ?_⟩
    · rw [hreshaped.lookup, h.installed.redefined.lookup, ha]
    · rwa [hreshaped.length, h.installed.redefined.length]
    · have hold : inst.generation a = .forwardReferenced n := by
        rw [generation, h.installed.redefined.snapshot a hne, ← generation, hgen]
      have hdefinition := hreshaped.definition a
      rw [hold] at hdefinition
      exact Generation.eq_forwardReferenced hdefinition

theorem Defined.binds (hr : r.Invariant) (h : r.Defined d root k mid inst next) :
    r.Binds d root next := by
  have hlookup : next.lookup = mid.lookup :=
    (h.cascade hr).2.1.lookup.trans h.installed.redefined.lookup
  have hd := h.installed.declared
  constructor
  · intro n a hn
    rw [hlookup]
    by_cases hname : n = d.name
    · subst hname
      rw [hd.root_eq a hn, hd.lookup_root]
    · rcases hd.lookup n hname with heq | ⟨_, hnone, _⟩
      · rw [heq, hn]
      · rw [hn] at hnone
        contradiction
  · rw [hlookup, hd.lookup_root]
  · exact hd.root_new
  · exact fun n hn hnone => h.placeholder hr hn hnone
  · intro n hname hn
    rw [hlookup]
    exact (hd.lookup n hname).resolve_right fun hnew => hn hnew.1

theorem Defined.frame (hr : r.Invariant) (h : r.Defined d root k mid inst next) {a : ClassId}
    (hlt : a < r.cells.length) (hne : a ≠ root) (hdescends : ¬next.Descends a root) :
    next.snapshot a = r.snapshot a ∧ next.built a = r.built a := by
  have hreshaped := (h.cascade hr).2.1
  rw [h.descends_iff hr] at hdescends
  have hcell := h.installed.declared.cell a hlt
  constructor
  · rw [hreshaped.snapshot a hdescends, h.installed.redefined.snapshot a hne, snapshot, hcell,
      snapshot]
  · rw [hreshaped.built a hdescends, h.installed.redefined.built a hne, built, hcell, built]

theorem Defined.built (hr : r.Invariant) (h : r.Defined d root k mid inst next) {a : ClassId}
    (hdescends : next.Descends a root) :
    next.built a = r.built a + if (next.superclasses a).all next.isFinalized then 1 else 0 := by
  have hne : a ≠ root := by
    rintro rfl
    exact (h.cascade hr).1.not_descends_self a hdescends
  have hlt : a < r.cells.length := by
    by_contra hle
    obtain ⟨b, hb, _⟩ := Relation.TransGen.head'_iff.mp ((h.descends_before hr).mp hdescends)
    rw [superclasses_of_le (Nat.le_of_not_lt hle)] at hb
    contradiction
  have hcell := h.installed.declared.cell a hlt
  rw [(h.cascade hr).2.2 a ((h.descends_iff hr).mp hdescends), h.installed.redefined.built a hne,
    Registry.built, hcell, Registry.built, attempts]

/-- The loop builds every descendant once, superclasses first, and then has nothing left. -/
theorem Defined.settles (hr : r.Invariant) (h : r.Defined d root k mid inst next) :
    (r.cascadeOf d root).registry = next ∧ (r.cascadeOf d root).left = [] ∧
      (r.cascadeOf d root).rebuilt.Nodup ∧
      (∀ a, a ∈ (r.cascadeOf d root).rebuilt ↔ next.Descends a root) ∧
      (r.cascadeOf d root).rebuilt.Pairwise fun a b => b ∉ next.superclasses a := by
  have hw := wellFormed_installed hr h.admits h.installed
  have hsupers : next.superclasses = inst.superclasses := funext (h.cascade hr).2.1.superclasses
  obtain ⟨hperm, hfirst⟩ := cascadeOrder_spec hw root
  obtain ⟨hregistry, hrebuilt, hall⟩ := settle_eq (inst.descendants root) [root]
    (inst.descendants root) inst
  have hloop : r.cascadeOf d root =
      settle (inst.descendants root) [root] (inst.descendants root) inst := by
    rw [cascadeOf, h.install]
  rw [hloop]
  have horder : (settle (inst.descendants root) [root] (inst.descendants root) inst).rebuilt =
      inst.cascadeOrder root := hrebuilt
  have hleft : (settle (inst.descendants root) [root] (inst.descendants root) inst).left = [] := by
    have hlength := hall.length_eq
    rw [List.length_append, horder, hperm.length_eq] at hlength
    exact List.length_eq_zero_iff.mp (Nat.add_eq_left.mp hlength)
  refine ⟨?_, hleft, ?_, ?_, ?_⟩
  · rw [hregistry, h.eq_cascade]
    rfl
  · rw [horder, hperm.nodup_iff]
    exact nodup_descendants inst root
  · intro a
    rw [horder, mem_cascadeOrder hw, h.descends_iff hr]
  · rw [horder, hsupers]
    exact hfirst

/-- A definition touches the class and its proper descendants only. -/
theorem reachable_define_frame (h : Reachable limits r) (hdef : r.define d = (.ok root, next)) :
    r.Binds d root next ∧
    (∀ a, next.Descends a root ↔ r.Descends a root) ∧
    (∀ a, a < r.cells.length → a ≠ root → ¬next.Descends a root →
      next.snapshot a = r.snapshot a ∧ next.edition? a = r.edition? a ∧
        next.built a = r.built a) ∧
    ((r.cascadeOf d root).registry = next ∧ (r.cascadeOf d root).left = [] ∧
      (r.cascadeOf d root).rebuilt.Nodup ∧
      (∀ a, a ∈ (r.cascadeOf d root).rebuilt ↔ next.Descends a root) ∧
      (r.cascadeOf d root).rebuilt.Pairwise fun a b => b ∉ next.superclasses a) ∧
    ∀ a, next.Descends a root →
      next.built a = r.built a + if (next.superclasses a).all next.isFinalized then 1 else 0 := by
  obtain ⟨hinv, _⟩ := h.invariant
  obtain ⟨k, mid, inst, hdefined⟩ := define_eq_ok hinv.toWellFormed hdef
  refine ⟨hdefined.binds hinv, fun a => hdefined.descends_before hinv, ?_,
    hdefined.settles hinv, fun a => hdefined.built hinv⟩
  intro a hlt hne hdescends
  obtain ⟨hsnapshot, hbuilt⟩ := hdefined.frame hinv hlt hne hdescends
  exact ⟨hsnapshot, congrArg Snapshot.edition? hsnapshot, hbuilt⟩

/-- A redefinition with a subclass. -/
theorem point_define_frame :
    Reachable Limits.standard points ∧ (points.define .point).1 = .ok 20 ∧
      (points.define .point).2.lookup ⟨"COLORED-POINT"⟩ = some 21 ∧
      (points.define .point).2.snapshot 0 = points.snapshot 0 ∧
      (points.cascadeOf .point 20).left = [] ∧
      (points.define .point).2.built 21 = points.built 21 + 1 := by
  have hroot : (points.define .point).1.toOption = some 20 := by decide +kernel
  have hdef : points.define .point = (.ok 20, (points.define .point).2) := by
    cases hresult : (points.define .point).1 with
    | error f => rw [hresult] at hroot; contradiction
    | ok root =>
      rw [hresult] at hroot
      cases hroot
      exact Prod.ext hresult rfl
  have hdescends : (points.define .point).2.Descends 21 20 :=
    .single (by decide +kernel)
  have htop : ¬(points.define .point).2.Descends 0 20 := by
    intro h
    obtain ⟨s, hs, _⟩ := Relation.TransGen.head'_iff.mp h
    have hnone : (points.define .point).2.superclasses 0 = [] := by decide +kernel
    rw [hnone] at hs
    contradiction
  have hready : ((points.define .point).2.superclasses 21).all
      (points.define .point).2.isFinalized = true := by decide +kernel
  obtain ⟨hbinds, _, hframe, hsettles, hbuilt⟩ := reachable_define_frame reachable_points hdef
  refine ⟨reachable_points, congrArg Prod.fst hdef, ?_, ?_, hsettles.2.1, ?_⟩
  · exact hbinds.kept _ _ (by decide +kernel)
  · exact (hframe 0 (by decide +kernel) (by decide) htop).1
  · rw [hbuilt 21 hdescends, if_pos hready]

end Metaobject.Registry
