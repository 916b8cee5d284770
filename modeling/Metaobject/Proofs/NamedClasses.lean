import Metaobject.Proofs.DefinitionFrame

/-!
# Classes by name

After definitions of different classes, a registry holds the kernel, the classes that were defined,
and placeholders for the superclasses that are missing. Every class that can be reached has a name,
and no two have the same.
-/

namespace Metaobject

theorem KernelClass.name_generation (k : KernelClass) : k.generation.name = some k.name := by
  cases k <;> rfl

theorem KernelClass.isBuiltIn_generation (l : KernelClass) :
    l.generation.isBuiltIn = l.isBuiltIn := by
  cases l <;> rfl

def ClassDefinition.superclassNames (d : ClassDefinition) : List Symbol :=
  if d.superclasses = [] then [KernelClass.standardObject.name] else d.superclasses

theorem ClassDefinition.mem_superclassNames {d : ClassDefinition} {n : Symbol}
    (h : n ∈ d.superclassNames) : n = KernelClass.standardObject.name ∨ n ∈ d.superclasses := by
  unfold superclassNames at h
  split at h
  · exact Or.inl (List.mem_singleton.mp h)
  · exact Or.inr h

theorem ClassDefinition.superclassNames_of_mem {d : ClassDefinition} {n : Symbol}
    (h : n ∈ d.superclasses) : n ∈ d.superclassNames := by
  rwa [superclassNames, if_neg (List.ne_nil_of_mem h)]

namespace Registry

variable {r mid inst next : Registry} {ds : List ClassDefinition} {d : ClassDefinition}
  {n m : Symbol} {a c root : ClassId} {k : StandardClass}

/-- The class of a definition stands under its name. -/
structure Holds (r : Registry) (d : ClassDefinition) (c : ClassId) (k : StandardClass) : Prop where
  lookup : r.lookup d.name = some c
  generation : r.generation c = .standard k
  eq_classWith : k = { d.classWith k.superclasses with shape := k.shape }
  superclasses : d.superclassNames.map r.lookup = k.superclasses.map some

/-- A registry after the given definitions, in whatever order. -/
structure Represents (r : Registry) (ds : List ClassDefinition) : Prop where
  invariant : r.Invariant
  kernel : ∀ k : KernelClass, r.lookup k.name = some k.id
  defined : ∀ d ∈ ds, ∃ c k, r.Holds d c k
  bound : ∀ n c, r.lookup n = some c → (∃ k : KernelClass, k.name = n ∧ k.id = c) ∨
    (∃ d ∈ ds, d.name = n) ∨ r.generation c = .forwardReferenced n ∧ ∃ d ∈ ds, n ∈ d.superclasses

theorem Holds.className (h : r.Holds d c k) : r.className c = some d.name := by
  rw [Registry.className, h.generation, h.eq_classWith]
  rfl

theorem Holds.isSealed (h : r.Holds d c k) : k.isSealed = false :=
  congrArg StandardClass.isSealed h.eq_classWith

theorem Holds.name (h : r.Holds d c k) : k.name = some d.name :=
  congrArg StandardClass.name h.eq_classWith

theorem Holds.slots (h : r.Holds d c k) : k.slots = d.slots :=
  congrArg StandardClass.slots h.eq_classWith

theorem Holds.mem_superclasses (h : r.Holds d c k) {s : ClassId} :
    s ∈ r.superclasses c ↔ ∃ n ∈ d.superclassNames, r.lookup n = some s := by
  have hsupers : r.superclasses c = k.superclasses :=
    congrArg Generation.superclasses h.generation
  have hmem : s ∈ k.superclasses ↔ some s ∈ k.superclasses.map some := by simp
  rw [hsupers, hmem, ← h.superclasses, List.mem_map]

theorem Holds.superclass_bound (h : r.Holds d c k) {n : Symbol} (hn : n ∈ d.superclassNames) :
    ∃ s, r.lookup n = some s := by
  have hmem : r.lookup n ∈ k.superclasses.map some := h.superclasses ▸ List.mem_map_of_mem hn
  obtain ⟨s, _, hs⟩ := List.mem_map.mp hmem
  exact ⟨s, hs.symm⟩

namespace Represents

variable (h : r.Represents ds)

include h

theorem className_of_lookup (hn : r.lookup n = some c) : r.className c = some n := by
  rcases h.bound n c hn with ⟨k, rfl, rfl⟩ | ⟨d, hd, rfl⟩ | ⟨hgen, _⟩
  · rw [className, h.invariant.kernel]
    exact KernelClass.name_generation k
  · obtain ⟨c', k, hk⟩ := h.defined d hd
    cases hk.lookup.symm.trans hn
    exact hk.className
  · rw [className, hgen]
    rfl

theorem name_unique (hn : r.lookup n = some c) (hm : r.lookup m = some c) : n = m :=
  Option.some.inj ((h.className_of_lookup hn).symm.trans (h.className_of_lookup hm))

theorem tellsApart {l : List ClassId} (hl : ∀ a ∈ l, ∃ n, r.lookup n = some a) :
    Precedence.TellsApart r.className l := by
  intro a ha b hb hab
  obtain ⟨n, hn⟩ := hl a ha
  obtain ⟨m, hm⟩ := hl b hb
  rw [h.className_of_lookup hn, h.className_of_lookup hm] at hab
  cases hab
  exact Option.some.inj (hn.symm.trans hm)

theorem superclass_bound (hn : r.lookup n = some c) {s : ClassId} (hs : s ∈ r.superclasses c) :
    ∃ m, r.lookup m = some s := by
  rcases h.bound n c hn with ⟨k, _, rfl⟩ | ⟨d, hd, rfl⟩ | ⟨hgen, _⟩
  · obtain ⟨l, rfl⟩ := h.invariant.isKernel_superclass ⟨k, rfl⟩ hs
    exact ⟨l.name, h.kernel l⟩
  · obtain ⟨c', k, hk⟩ := h.defined d hd
    cases hk.lookup.symm.trans hn
    obtain ⟨m, _, hm⟩ := hk.mem_superclasses.mp hs
    exact ⟨m, hm⟩
  · rw [superclasses, hgen] at hs
    contradiction

theorem inherits_bound (hn : r.lookup n = some c) (hinherits : r.Inherits c a) :
    ∃ m, r.lookup m = some a := by
  induction hinherits with
  | refl => exact ⟨n, hn⟩
  | tail _ hs ih =>
    obtain ⟨m, hm⟩ := ih
    exact h.superclass_bound hm hs

theorem placeholder_of_not_mem (hkernel : ∀ l : KernelClass, l.name ≠ n)
    (hds : ∀ d ∈ ds, d.name ≠ n) (hn : r.lookup n = some c) :
    r.generation c = .forwardReferenced n := by
  rcases h.bound n c hn with ⟨k, hk, _⟩ | ⟨d, hd, hname⟩ | ⟨hgen, _⟩
  · exact absurd hk (hkernel k)
  · exact absurd hname (hds d hd)
  · exact hgen

end Represents

/-- The class is the one of the name, or the name is free for it. -/
structure Reserves (r : Registry) (n : Symbol) (c : ClassId) : Prop where
  name : ∀ m, r.lookup m = some c → m = n
  cell : ∀ a, r.lookup n = some a → a = c

theorem Represents.reserves_declared (h : r.Represents ds) (hd : r.Declared d root k mid) :
    r.Reserves d.name root where
  name m hm := by
    cases hname : r.lookup d.name with
    | none => exact absurd (h.invariant.bound m root hm) (Nat.not_lt.mpr (hd.root_new hname))
    | some a =>
      cases hd.root_eq a hname
      exact h.name_unique hm hname
  cell := hd.root_eq

theorem represents_fresh (limits : Limits) : (fresh limits).Represents [] where
  invariant := invariant_fresh limits
  kernel k := lookup_fresh.mpr ⟨k, rfl, rfl⟩
  defined _ hd := absurd hd List.not_mem_nil
  bound _ _ hn := Or.inl (lookup_fresh.mp hn)

theorem NamesSuperclasses.map_lookup {supers : List ClassId}
    (hkernel : r.lookup KernelClass.standardObject.name = some KernelClass.standardObject.id)
    (h : r.NamesSuperclasses d.superclasses supers) :
    d.superclassNames.map r.lookup = supers.map some := by
  unfold NamesSuperclasses at h
  unfold ClassDefinition.superclassNames
  split at h
  · rw [if_pos ‹_›, h, List.map_singleton, hkernel]
    rfl
  · rwa [if_neg ‹_›]

section Definition

variable (h : r.Represents ds) (hdef : r.Defined d root k mid inst next)

include h hdef

theorem ne_root_of_lookup (hn : r.lookup n = some c) (hne : n ≠ d.name) : c ≠ root :=
  fun hroot => hne ((h.reserves_declared hdef.installed.declared).name n (hroot ▸ hn))

theorem definition_of_lookup (hn : r.lookup n = some c) (hne : n ≠ d.name) :
    (next.generation c).unfinalized = (r.generation c).unfinalized := by
  have hroot := ne_root_of_lookup h hdef hn hne
  have hcell := hdef.installed.declared.cell c (h.invariant.bound n c hn)
  rw [(hdef.cascade h.invariant).2.1.definition c, generation, generation,
    hdef.installed.redefined.snapshot c hroot, snapshot, hcell, snapshot]

theorem holds_root : ∃ k', next.Holds d root k' := by
  have hreshaped := (hdef.cascade h.invariant).2.1
  have hbinds := hdef.binds h.invariant
  have hd := hdef.installed.declared
  have hsealed : k.isSealed = false := congrArg StandardClass.isSealed hd.eq_classWith
  have hdefinition := hreshaped.definition root
  rw [hdef.installed.redefined.generation_root] at hdefinition
  obtain ⟨shape, hgen⟩ := Generation.eq_standard hdefinition hsealed
  refine ⟨_, hbinds.name, hgen, ?_, ?_⟩
  · exact congrArg (fun c : StandardClass => { c with shape := shape }) hd.eq_classWith
  · have hlookup : next.lookup = mid.lookup :=
      hreshaped.lookup.trans hdef.installed.redefined.lookup
    have hnames := hd.superclasses
    rw [NamesSuperclasses, ← hlookup] at hnames
    exact NamesSuperclasses.map_lookup (hbinds.kept _ _ (h.kernel .standardObject)) hnames

theorem holds_of_holds {d' : ClassDefinition} {k' : StandardClass} (hne : d'.name ≠ d.name)
    (hk' : r.Holds d' c k') : ∃ k'', next.Holds d' c k'' := by
  have hbinds := hdef.binds h.invariant
  have hdefinition := definition_of_lookup h hdef hk'.lookup hne
  rw [hk'.generation] at hdefinition
  obtain ⟨shape, hgen⟩ := Generation.eq_standard hdefinition hk'.isSealed
  refine ⟨_, hbinds.kept _ _ hk'.lookup, hgen, ?_, ?_⟩
  · exact congrArg (fun c : StandardClass => { c with shape := shape }) hk'.eq_classWith
  · rw [← hk'.superclasses]
    apply List.map_congr_left
    intro n hn
    obtain ⟨s, hs⟩ := hk'.superclass_bound hn
    rw [hs, hbinds.kept n s hs]

/-- A definition of another class is added to what a registry represents. -/
theorem represents_define (hnames : ∀ d' ∈ ds, d'.name ≠ d.name) : next.Represents (d :: ds) where
  invariant := (hdef.cascade h.invariant).1
  kernel l := (hdef.binds h.invariant).kept _ _ (h.kernel l)
  defined d' hd' := by
    rcases List.mem_cons.mp hd' with rfl | hd'
    · exact ⟨root, holds_root h hdef⟩
    · obtain ⟨c, k', hk'⟩ := h.defined d' hd'
      exact ⟨c, holds_of_holds h hdef (hnames d' hd') hk'⟩
  bound n c hn := by
    have hbinds := hdef.binds h.invariant
    by_cases hne : n = d.name
    · exact Or.inr (Or.inl ⟨d, List.mem_cons_self, hne.symm⟩)
    cases hold : r.lookup n with
    | some a =>
      cases (hbinds.kept n a hold).symm.trans hn
      rcases h.bound n c hold with hkernel | ⟨d', hd', hname⟩ | ⟨hgen, d', hd', hmem⟩
      · exact Or.inl hkernel
      · exact Or.inr (Or.inl ⟨d', List.mem_cons_of_mem _ hd', hname⟩)
      · have hdefinition := definition_of_lookup h hdef hold hne
        rw [hgen] at hdefinition
        exact Or.inr (Or.inr ⟨Generation.eq_forwardReferenced hdefinition, d',
          List.mem_cons_of_mem _ hd', hmem⟩)
    | none =>
      by_cases hmem : n ∈ d.superclasses
      · obtain ⟨a, _, ha, _, _, hgen⟩ := hbinds.superclass n hmem hold
        cases ha.symm.trans hn
        exact Or.inr (Or.inr ⟨hgen, d, List.mem_cons_self, hmem⟩)
      · rw [hbinds.other n hne hmem, hold] at hn
        contradiction

end Definition

end Registry

end Metaobject
