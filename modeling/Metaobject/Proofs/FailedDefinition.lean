import Metaobject.Proofs.SlotOrder

/-!
# Definitions that fail

A definition fails in its checks, before anything changes, or when its class is finalized. Finalization
starts only if all superclasses are finalized, which placeholders are not: no superclass was missing,
and none was made up. All that may remain is that a generation was counted.
-/

namespace Metaobject

/-- What finalization reports for a class whose superclasses are finalized. -/
inductive ShapeFault (limits : Limits) (label : String) : Fault → Prop
  | inconsistent : ShapeFault limits label (.inconsistentPrecedence label)
  | tooDeep : ShapeFault limits label (.hierarchyTooDeep label limits.maxPrecedenceDepth)
  | tooLarge {count : Nat} (h : limits.maxSlots < count) :
      ShapeFault limits label (.layoutTooLarge count limits.maxSlots)

inductive CheckFault (d : ClassDefinition) : Fault → Prop
  | name {n : Symbol} (hn : n ∈ d.name :: d.superclasses) :
      CheckFault d (.typeError (.symbol n) classNameType)
  | sealedClass : CheckFault d (.sealedClass d.name)
  | slot (s : Symbol) : CheckFault d (.duplicateSlot s (some d.name))
  | cyclic {s : Symbol} (hs : s ∈ d.superclasses) : CheckFault d (.cyclicSuperclass d.name s)
  | duplicate : CheckFault d (.inconsistentPrecedence d.name.name)
  | builtIn (c : ClassId) : CheckFault d (.typeError (.classObject c) "(NOT BUILT-IN-CLASS)")

namespace Registry

variable {r mid next : Registry} {limits : Limits} {d : ClassDefinition} {root : ClassId}
  {c k : StandardClass} {f : Fault}

/-- Inherited slots never repeat, so that the layout can be built. -/
theorem shapeFault_of_shapeOf {self : ClassId} {version : Nat}
    (hready : ∀ s ∈ c.superclasses, r.isFinalized s) (hslots : c.slots.Nodup)
    (h : r.shapeOf limits self version c = .error f) :
    ShapeFault limits (Generation.standard c).describe f := by
  rw [shapeOf_ready hready, linearized] at h
  cases hlist : Precedence.linearize limits.maxPrecedenceDepth self
      (c.superclasses.map r.precedenceList) c.superclasses with
  | error e =>
    rw [hlist] at h
    cases e with
    | inconsistent =>
      cases h
      exact .inconsistent
    | tooDeep =>
      cases h
      exact .tooDeep
  | ok list =>
    obtain ⟨layout, hlayout⟩ := exists_build c.name hslots (r.nodup_inheritedSlots list.tail)
    simp only [hlist, ok_bind, hlayout] at h
    split at h
    · rename_i hlarge
      cases h
      exact .tooLarge hlarge
    · contradiction

section Checks

theorem superclassFault?_checkFault {existing : Option ClassId} {seen : List Symbol} {super : Symbol}
    (hsuper : super ∈ d.superclasses)
    (h : r.superclassFault? d.name existing seen super = some f) : CheckFault d f := by
  unfold superclassFault? at h
  by_cases hname : super = d.name
  · rw [if_pos hname] at h
    cases h
    exact .cyclic hsuper
  rw [if_neg hname] at h
  by_cases hseen : super ∈ seen
  · rw [if_pos hseen] at h
    cases h
    exact .duplicate
  rw [if_neg hseen] at h
  cases hc : r.lookup super with
  | none =>
    rw [hc] at h
    contradiction
  | some c =>
    rw [hc] at h
    dsimp only at h
    split at h
    · cases h
      exact .builtIn c
    · cases existing with
      | none => contradiction
      | some self =>
        dsimp only at h
        split at h
        · cases h
          exact .cyclic hsuper
        · contradiction

theorem checkFault_of_checkDefinition (h : r.checkDefinition d = .error f) : CheckFault d f := by
  rcases check_bind_eq_error.mp h with h | ⟨_, h⟩
  · rcases checkNames_eq_error h with ⟨n, hn, rfl⟩ | rfl
    · exact .name hn
    · exact .sealedClass
  · rcases check_bind_eq_error.mp h with h | ⟨_, h⟩
    · obtain ⟨s, rfl⟩ := build_eq_error (check_discard_eq_error.mp h)
      exact .slot s
    · obtain ⟨super, hsuper, seen, hfault⟩ := checkSuperclasses_eq_error h
      exact superclassFault?_checkFault hsuper hfault

end Checks

section Superclasses

theorem resolveAll_of_bound {names : List Symbol} (h : ∀ n ∈ names, ∃ a, r.lookup n = some a) :
    (r.resolveAll names).2 = r := by
  induction names with
  | nil => rfl
  | cons name names ih =>
    obtain ⟨a, ha⟩ := h name List.mem_cons_self
    have hresolve : r.resolve name = (a, r) := by
      rw [resolve, ha]
    rw [resolveAll, hresolve]
    exact ih fun n hn => h n (List.mem_cons_of_mem name hn)

theorem declaredSuperclasses_of_bound (h : ∀ n ∈ d.superclasses, ∃ a, r.lookup n = some a) :
    (r.declaredSuperclasses d).2 = r := by
  unfold declaredSuperclasses
  split
  · rfl
  · exact resolveAll_of_bound h

theorem NamesSuperclasses.exists_of_mem {names : List Symbol} {supers : List ClassId} {n : Symbol}
    (h : r.NamesSuperclasses names supers) (hn : n ∈ names) :
    ∃ s ∈ supers, r.lookup n = some s := by
  unfold NamesSuperclasses at h
  rw [if_neg (List.ne_nil_of_mem hn)] at h
  have hmem : r.lookup n ∈ supers.map some := h ▸ List.mem_map_of_mem hn
  obtain ⟨s, hs, heq⟩ := List.mem_map.mp hmem
  exact ⟨s, hs, heq.symm⟩

theorem Declared.bound_of_ready (hd : r.Declared d root k mid) (hmem : d.name ∉ d.superclasses)
    (hr : r.WellFormed) (hready : ∀ s ∈ k.superclasses, mid.isFinalized s) {n : Symbol}
    (hn : n ∈ d.superclasses) : ∃ a, r.lookup n = some a ∧ r.isFinalized a := by
  obtain ⟨s, hs, hlookup⟩ := hd.superclasses.exists_of_mem hn
  have hfinal := hready s hs
  have hne : n ≠ d.name := fun h => hmem (h ▸ hn)
  rcases hd.lookup n hne with heq | ⟨_, _, a, ha, _, _, _, hgen⟩
  · rw [heq] at hlookup
    refine ⟨s, hlookup, ?_⟩
    rwa [isFinalized, generation_of_cell (hd.cell s (hr.bound n s hlookup))] at hfinal
  · cases ha.symm.trans hlookup
    rw [isFinalized, hgen] at hfinal
    contradiction

end Superclasses

theorem countGeneration_of_le (h : r.cells.length ≤ root) : r.countGeneration root = r := by
  rw [countGeneration, modifyCell, List.modify_eq_self h]

theorem install_error (h : r.install d = (.error f, next)) :
    next = (r.declaredSuperclasses d).2.countGeneration (r.declare d).1 := by
  unfold install at h
  dsimp only at h
  split at h
  · exact (congrArg Prod.snd h).symm
  · cases congrArg Prod.fst h

/-- All superclasses are there and finalized, and yet the class that is declared has no shape. -/
structure CannotFinalize (r : Registry) (d : ClassDefinition) (f : Fault) : Prop where
  checked : r.checkDefinition d = .ok ()
  bound : ∀ n ∈ d.superclasses, ∃ a, r.lookup n = some a ∧ r.isFinalized a
  finalize : ∃ root k mid, r.declare d = (root, k, mid) ∧
    mid.finalizedClass r.limits root (mid.built root + 1) k = .error f
  fault : ShapeFault r.limits (printUnreadable "STANDARD-CLASS" (some d.name)) f

theorem Refused.cannotFinalize (h : r.Refused d root k mid f next) (hr : r.WellFormed)
    (ha : r.Admits d) : r.CannotFinalize d f where
  checked := checkDefinition_eq_ok.mpr ha
  bound _ hn := h.declared.bound_of_ready ha.notMem hr h.ready hn
  finalize := by
    refine ⟨root, k, mid, h.declare, ?_⟩
    rw [← h.declared.limits, finalizedClass, h.fault]
    rfl
  fault := by
    have hk := h.declared.eq_classWith
    obtain ⟨l, hl⟩ := ha.slots
    have hslots : k.slots.Nodup := by
      rw [hk]
      exact (nodup_of_build hl).1
    have hlabel : (Generation.standard k).describe =
        printUnreadable "STANDARD-CLASS" (some d.name) := by
      rw [hk]
      rfl
    rw [← hlabel, ← h.declared.limits]
    exact shapeFault_of_shapeOf h.ready hslots h.fault

theorem Refused.next_eq (h : r.Refused d root k mid f next) (hr : r.WellFormed) (ha : r.Admits d)
    (hinstall : r.install d = (.error f, next)) :
    r.lookup d.name = none ∧ next = r ∨
      r.lookup d.name = some root ∧ next = r.countGeneration root := by
  have hbound : ∀ n ∈ d.superclasses, ∃ a, r.lookup n = some a := by
    intro n hn
    obtain ⟨a, ha, _⟩ := h.declared.bound_of_ready ha.notMem hr h.ready hn
    exact ⟨a, ha⟩
  have hnext : next = r.countGeneration root := by
    rw [install_error hinstall, declaredSuperclasses_of_bound hbound, h.declare]
  cases hroot : r.lookup d.name with
  | none =>
    refine Or.inl ⟨rfl, ?_⟩
    rw [hnext, countGeneration_of_le (h.declared.root_new hroot)]
  | some a =>
    cases h.declared.root_eq a hroot
    exact Or.inr ⟨rfl, hnext⟩

theorem define_error_cases (hr : r.WellFormed) (h : r.define d = (.error f, next)) :
    r.checkDefinition d = .error f ∧ next = r ∨
      r.CannotFinalize d f ∧ (r.lookup d.name = none ∧ next = r ∨
        ∃ root, r.lookup d.name = some root ∧ next = r.countGeneration root) := by
  rw [define] at h
  cases hcheck : r.checkDefinition d with
  | error f' =>
    rw [hcheck] at h
    cases h
    exact Or.inl ⟨rfl, rfl⟩
  | ok _ =>
    have ha := checkDefinition_eq_ok.mp hcheck
    rw [hcheck] at h
    rcases install_spec hr ha with ⟨f', root, k, mid, next', hinst, hrefused⟩ | ⟨_, _, _, _, hinst, _⟩
    · rw [hinst] at h
      cases h
      refine Or.inr ⟨hrefused.cannotFinalize hr ha, ?_⟩
      rcases hrefused.next_eq hr ha hinst with hnone | hsome
      · exact Or.inl hnone
      · exact Or.inr ⟨root, hsome⟩
    · rw [hinst] at h
      cases h

/-- All is as it was, but for the generations that were counted. -/
structure Untouched (r next : Registry) : Prop where
  bindings : next.bindings = r.bindings
  length : next.cells.length = r.cells.length
  snapshot : ∀ c, next.snapshot c = r.snapshot c
  subclasses : ∀ c, next.subclasses c = r.subclasses c

theorem Untouched.refl (r : Registry) : r.Untouched r :=
  ⟨rfl, rfl, fun _ => rfl, fun _ => rfl⟩

theorem untouched_countGeneration (r : Registry) (c : ClassId) :
    r.Untouched (r.countGeneration c) :=
  ⟨rfl, length_countGeneration r c, snapshot_countGeneration r c, subclasses_countGeneration r c⟩

/-- A definition that fails leaves the registry as it is. If it fails in finalization and its name is
bound, then a generation was counted for the class of that name. -/
theorem reachable_define_error (h : Reachable limits r) (hdef : r.define d = (.error f, next)) :
    r.Untouched next ∧
      (r.checkDefinition d = .error f ∧ CheckFault d f ∧ next = r ∨
        r.CannotFinalize d f ∧ (r.lookup d.name = none ∧ next = r ∨
          ∃ root, r.lookup d.name = some root ∧ next = r.countGeneration root ∧
            next.built root = r.built root + 1 ∧ ∀ c, c ≠ root → next.built c = r.built c)) := by
  obtain ⟨hinv, _⟩ := h.invariant
  rcases define_error_cases hinv.toWellFormed hdef with
    ⟨hcheck, rfl⟩ | ⟨hfails, ⟨hnone, rfl⟩ | ⟨root, hroot, rfl⟩⟩
  · exact ⟨.refl next, Or.inl ⟨hcheck, checkFault_of_checkDefinition hcheck, rfl⟩⟩
  · exact ⟨.refl next, Or.inr ⟨hfails, Or.inl ⟨hnone, rfl⟩⟩⟩
  · have hlt := hinv.bound d.name root hroot
    refine ⟨untouched_countGeneration r root, Or.inr ⟨hfails, Or.inr ⟨root, hroot, rfl, ?_, ?_⟩⟩⟩
    · exact built_countGeneration_self r hlt
    · intro c hc
      exact built_countGeneration_of_ne r hc

def dots : Registry := points.perform (.define ⟨⟨"DOT"⟩, [], [], none⟩)

def dotAcross : ClassDefinition := ⟨⟨"DOT"⟩, [⟨"POINT"⟩, ⟨"COLORED-POINT"⟩], [], none⟩

theorem dot_define_error :
    Reachable Limits.standard dots ∧ ∃ f next, dots.define dotAcross = (.error f, next) ∧
      dots.Untouched next ∧ dots.CannotFinalize dotAcross f ∧
      next.built 22 = dots.built 22 + 1 := by
  have hreachable : Reachable Limits.standard dots := .step reachable_points trivial
  have hfails : (dots.define dotAcross).1.toOption = none := by decide +kernel
  have hchecked : (dots.checkDefinition dotAcross).toOption = some () := by decide +kernel
  have hname : dots.lookup dotAcross.name = some 22 := by decide +kernel
  refine ⟨hreachable, ?_⟩
  cases hdef : dots.define dotAcross with
  | mk answer next =>
    cases answer with
    | ok root =>
      rw [hdef] at hfails
      contradiction
    | error f =>
      obtain ⟨huntouched, ⟨hcheck, _⟩ | ⟨hfinalize, ⟨hnone, _⟩ | ⟨root, hroot, _, hbuilt, _⟩⟩⟩ :=
        reachable_define_error hreachable hdef
      · rw [hcheck] at hchecked
        contradiction
      · rw [hname] at hnone
        contradiction
      · cases hname.symm.trans hroot
        exact ⟨f, next, rfl, huntouched, hfinalize, hbuilt⟩

end Registry

end Metaobject
