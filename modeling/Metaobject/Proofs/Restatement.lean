import Metaobject.Proofs.DefinitionOrder
import Metaobject.Proofs.KernelIntegrity
import Metaobject.Proofs.Prevailing
import Metaobject.Proofs.StoredShapes

/-!
# Definitions that are repeated

A class whose definition says what it said before is built again, and so are its descendants, but no
class changes in anything that can be seen: the shapes of all classes follow from what they are
declared to be.
-/

namespace Metaobject.Registry

variable {r r' r'' mid inst next : Registry} {d d' : ClassDefinition} {root self c a : ClassId}
  {k : StandardClass} {op : Operation} {n : Symbol} {supers : List ClassId}
  {ds : List ClassDefinition}

/-- The same names are bound to the same classes, which are declared in the same way. -/
structure Restates (r r' : Registry) : Prop where
  limits : r'.limits = r.limits
  lookup : r'.lookup = r.lookup
  length : r'.cells.length = r.cells.length
  definition : ∀ c, (r'.generation c).unfinalized = (r.generation c).unfinalized

theorem Restates.refl (r : Registry) : r.Restates r := ⟨rfl, rfl, rfl, fun _ => rfl⟩

theorem Restates.trans (h : r.Restates r') (h' : r'.Restates r'') : r.Restates r'' where
  limits := h'.limits.trans h.limits
  lookup := h'.lookup.trans h.lookup
  length := h'.length.trans h.length
  definition c := (h'.definition c).trans (h.definition c)

section Outlines

theorem Restates.superclasses (h : r.Restates r') (c : ClassId) :
    r'.superclasses c = r.superclasses c :=
  Generation.superclasses_congr (h.definition c)

theorem Restates.slots (h : r.Restates r') (c : ClassId) : r'.slots c = r.slots c :=
  Generation.slots_congr (h.definition c)

theorem isFinalized_of_outline
    (h : (r'.generation c).shape.map Shape.outline = (r.generation c).shape.map Shape.outline) :
    r'.isFinalized c = r.isFinalized c := by
  have hsome := congrArg Option.isSome h
  rwa [Option.isSome_map, Option.isSome_map] at hsome

theorem precedenceList_of_outline
    (h : (r'.generation c).shape.map Shape.outline = (r.generation c).shape.map Shape.outline)
    (hfinal : r.isFinalized c) : r'.precedenceList c = r.precedenceList c := by
  obtain ⟨s, hs⟩ := isFinalized_iff.mp hfinal
  have hfinal' : r'.isFinalized c := by
    rw [isFinalized_of_outline h]
    exact hfinal
  obtain ⟨s', hs'⟩ := isFinalized_iff.mp hfinal'
  rw [hs, hs'] at h
  have houtline : s'.outline = s.outline := Option.some.inj h
  have hprecedence : s'.precedence = s.precedence := congrArg Outline.precedence houtline
  rw [precedenceList_finalized hs, precedenceList_finalized hs', hprecedence]

theorem outline?_of_outlines {k' : StandardClass} (hlimits : r'.limits = r.limits)
    (hname : k'.name = k.name) (hsupers : k'.superclasses = k.superclasses)
    (hown : k'.slots = k.slots)
    (houtline : ∀ s ∈ k.superclasses,
      (r'.generation s).shape.map Shape.outline = (r.generation s).shape.map Shape.outline)
    (hslots : ∀ a, r'.slots a = r.slots a) : r'.outline? self k' = r.outline? self k := by
  have hfinal : ∀ s ∈ k.superclasses, r'.isFinalized s = r.isFinalized s := fun s hs =>
    isFinalized_of_outline (houtline s hs)
  by_cases hready : ∀ s ∈ k.superclasses, r.isFinalized s
  · have hready' : ∀ s ∈ k'.superclasses, r'.isFinalized s := by
      intro s hs
      rw [hsupers] at hs
      rw [hfinal s hs]
      exact hready s hs
    have hlists : k.superclasses.map r'.precedenceList = k.superclasses.map r.precedenceList := by
      apply List.map_congr_left
      intro s hs
      exact precedenceList_of_outline (houtline s hs) (hready s hs)
    rw [outline?, outline?, outline_shapeOf_id _ _ _ hready fun _ _ => rfl,
      outline_shapeOf_id _ _ _ hready' fun a _ => (hslots a).symm, hsupers, hlists, hlimits, hname,
      hown]
  · have hready' : ¬∀ s ∈ k'.superclasses, r'.isFinalized s := by
      intro h
      apply hready
      intro s hs
      rw [← hfinal s hs]
      exact h s (hsupers ▸ hs)
    rw [outline?, outline?, outline_shapeOf_pending hready, outline_shapeOf_pending hready']

/-- Where all classes are settled, their shapes follow from their definitions. -/
theorem Restates.outline (h : r.Restates r') (hr : r.Invariant) (hr' : r'.Invariant) (c : ClassId) :
    (r'.generation c).shape.map Shape.outline = (r.generation c).shape.map Shape.outline := by
  induction c using hr.acyclic.induction with
  | _ c ih =>
    by_cases hkernel : IsKernel c
    · obtain ⟨l, rfl⟩ := hkernel
      rw [hr.kernel, hr'.kernel]
    · have huser := hr.user c hkernel
      have hdefinition := h.definition c
      cases hgen : r.generation c with
      | forwardReferenced m =>
        rw [hgen] at hdefinition
        rw [Generation.eq_forwardReferenced hdefinition]
      | standard k =>
        rw [hgen] at huser hdefinition
        obtain ⟨shape, hgen'⟩ := Generation.eq_standard hdefinition huser.1
        have hsettled := hr.settled c k hgen huser.1
        have hsettled' := hr'.settled c _ hgen' huser.1
        rw [hgen']
        change shape.map Shape.outline = k.shape.map Shape.outline
        refine hsettled'.trans (Eq.trans ?_ hsettled.symm)
        apply outline?_of_outlines h.limits rfl rfl rfl
        · intro s hs
          apply ih s
          change s ∈ (r.generation c).superclasses
          rw [hgen]
          exact hs
        · exact h.slots
      | methodClass k =>
        rw [hgen] at huser
        contradiction
      | builtIn k =>
        rw [hgen] at huser
        contradiction

theorem Restates.isFinalized (h : r.Restates r') (hr : r.Invariant) (hr' : r'.Invariant)
    (c : ClassId) : r'.isFinalized c = r.isFinalized c :=
  isFinalized_of_outline (h.outline hr hr' c)

/-- A class is the same in all that can be seen of it. -/
structure SameClass (r r' : Registry) (c : ClassId) : Prop where
  kind : kindOf (r'.generation c) = kindOf (r.generation c)
  state : r'.state c = r.state c
  name : r'.className c = r.className c
  documentation : (r'.generation c).documentation = (r.generation c).documentation
  superclasses : r'.superclasses c = r.superclasses c
  slots : r'.slots c = r.slots c
  precedenceList : r'.precedenceList c = r.precedenceList c
  layout : (r'.layout c).map Layout.slots = (r.layout c).map Layout.slots

theorem kindOf_unfinalized (g : Generation) : kindOf g.unfinalized = kindOf g := by
  unfold Generation.unfinalized
  split
  · split <;> rfl
  · rfl

theorem Restates.sameClass (h : r.Restates r') (hr : r.Invariant) (hr' : r'.Invariant)
    (c : ClassId) : r.SameClass r' c := by
  have houtline := h.outline hr hr' c
  have hfinal := isFinalized_of_outline houtline
  have hkind : kindOf (r'.generation c) = kindOf (r.generation c) := by
    rw [← kindOf_unfinalized, h.definition, kindOf_unfinalized]
  constructor
  · exact hkind
  · have hsome : (r'.generation c).shape.isSome = (r.generation c).shape.isSome := hfinal
    rw [state, state, state_eq, state_eq, hkind, hsome]
  · rw [className, className, ← Generation.name_unfinalized, h.definition,
      Generation.name_unfinalized]
  · rw [← Generation.documentation_unfinalized, h.definition, Generation.documentation_unfinalized]
  · exact h.superclasses c
  · exact h.slots c
  · by_cases hc : r.isFinalized c
    · exact precedenceList_of_outline houtline hc
    · have hnone : (r.generation c).shape = none := Option.not_isSome_iff_eq_none.mp hc
      have hnone' : (r'.generation c).shape = none := by
        apply Option.not_isSome_iff_eq_none.mp
        change ¬r'.isFinalized c
        rwa [hfinal]
      have hsupers : r'.superclasses = r.superclasses := funext h.superclasses
      rw [precedenceList, precedenceList, hnone, hnone', hsupers, h.length]
  · have hslots := congrArg (Option.map Outline.slots) houtline
    rw [Option.map_map, Option.map_map] at hslots
    rw [layout, layout, Generation.layout, Generation.layout, Option.map_map, Option.map_map]
    exact hslots

end Outlines

section Standing

def Named (r : Registry) : Prop := ∀ n c, r.lookup n = some c → r.className c = some n

/-- A definition that the checks let pass, apart from what is in the registry. -/
structure Proper (d : ClassDefinition) : Prop where
  name : IsClassName d.name
  superclassNames : ∀ s ∈ d.superclasses, IsClassName s
  slots : ∃ l, Layout.build (some d.name) d.slots [] = .ok l
  nodup : d.superclasses.Nodup
  notMem : d.name ∉ d.superclasses

/-- The class stands in the registry as it is defined. -/
structure Stands (r : Registry) (d : ClassDefinition) (c : ClassId) (supers : List ClassId) :
    Prop where
  proper : Proper d
  lookup : r.lookup d.name = some c
  definition : (r.generation c).unfinalized = .standard (d.classWith supers)
  names : r.NamesSuperclasses d.superclasses supers
  builtIn : ∀ l : KernelClass, l.id ∈ supers → l.isBuiltIn = true → l = .top

theorem named_fresh (limits : Limits) : (fresh limits).Named := by
  intro n c hn
  obtain ⟨k, rfl, rfl⟩ := lookup_fresh.mp hn
  rw [className, generation_fresh]
  exact KernelClass.name_generation k

theorem named_addPlaceholder (hr : r.WellFormed) (h : r.Named) (n : Symbol) :
    (r.addPlaceholder n).2.Named := by
  intro m c hm
  rw [lookup_addPlaceholder] at hm
  split at hm
  · rename_i heq
    cases hm
    rw [className, generation_addPlaceholder_new, heq]
    rfl
  · rw [className, generation_of_cell (cell_addPlaceholder_of_lt (hr.bound m c hm))]
    exact h m c hm

theorem Defined.ne_root (hr : r.Invariant) (h : r.Named) (hdef : r.Defined d root k mid inst next)
    (hn : r.lookup n = some c) (hne : n ≠ d.name) : c ≠ root := by
  rintro rfl
  cases hd : r.lookup d.name with
  | none =>
    have hle := (hdef.binds hr).name_new hd
    exact absurd (hr.bound n c hn) (Nat.not_lt.mpr hle)
  | some b =>
    have hkept := (hdef.binds hr).kept d.name b hd
    cases hkept.symm.trans (hdef.binds hr).name
    have hname := (h n c hn).symm.trans (h d.name c hd)
    exact hne (Option.some.inj hname)

theorem Defined.definition_of_ne (hr : r.Invariant) (h : r.Named)
    (hdef : r.Defined d root k mid inst next) (hn : r.lookup n = some c) (hne : n ≠ d.name) :
    (next.generation c).unfinalized = (r.generation c).unfinalized := by
  have hroot := hdef.ne_root hr h hn hne
  have hlt := hr.bound n c hn
  rcases hdef.definition hr c with ⟨heq, _⟩ | ⟨_, _, hgen⟩ | ⟨_, hle, _⟩ | ⟨_, hle, _⟩
  · exact absurd heq hroot
  · exact hgen
  · exact absurd hlt (Nat.not_lt.mpr hle)
  · exact absurd hlt (Nat.not_lt.mpr hle)

theorem Defined.definition_root (hr : r.Invariant) (hdef : r.Defined d root k mid inst next) :
    (next.generation root).unfinalized = .standard (d.classWith k.superclasses) := by
  rcases hdef.definition hr root with ⟨_, hgen⟩ | ⟨hne, _⟩ | ⟨hne, _⟩ | ⟨hne, _⟩
  · exact hgen
  · exact absurd rfl hne
  · exact absurd rfl hne
  · exact absurd rfl hne

theorem Defined.named (hr : r.Invariant) (h : r.Named) (hdef : r.Defined d root k mid inst next) :
    next.Named := by
  have hbinds := hdef.binds hr
  intro n c hn
  rw [className, ← Generation.name_unfinalized]
  by_cases hname : n = d.name
  · subst hname
    cases hbinds.name.symm.trans hn
    rw [hdef.definition_root hr]
    rfl
  · cases hold : r.lookup n with
    | some b =>
      cases (hbinds.kept n b hold).symm.trans hn
      rw [hdef.definition_of_ne hr h hold hname, Generation.name_unfinalized]
      exact h n c hold
    | none =>
      by_cases hmem : n ∈ d.superclasses
      · obtain ⟨b, _, hb, _, _, hgen⟩ := hbinds.superclass n hmem hold
        cases hb.symm.trans hn
        rw [hgen]
        rfl
      · rw [hbinds.other n hname hmem, hold] at hn
        contradiction

/-- What holds of the registries of loaders between any two steps. -/
structure Loadable (r : Registry) : Prop where
  invariant : r.Invariant
  kernel : r.KernelIntact
  named : r.Named

theorem loadable_fresh (limits : Limits) : (fresh limits).Loadable :=
  ⟨invariant_fresh limits, kernelIntact_fresh limits, named_fresh limits⟩

theorem Loadable.define (h : r.Loadable) (d : ClassDefinition) : (r.define d).2.Loadable := by
  have hmove : r.Move (.define d) (r.perform (.define d)) := move_perform h.invariant trivial
  refine ⟨(define_invariant h.invariant d).1, h.kernel.move h.invariant hmove, ?_⟩
  cases hanswer : r.define d with
  | mk answer next =>
    cases answer with
    | ok root =>
      obtain ⟨k, mid, inst, hdef⟩ := define_eq_ok h.invariant.toWellFormed hanswer
      exact hdef.named h.invariant h.named
    | error f =>
      rcases define_error_cases h.invariant.toWellFormed hanswer with
        ⟨_, rfl⟩ | ⟨_, ⟨_, rfl⟩ | ⟨root, _, rfl⟩⟩
      · exact h.named
      · exact h.named
      · intro n c hn
        rw [className, generation_countGeneration]
        exact h.named n c hn

theorem Loadable.defined {answer : Except Fault ClassId} (h : r.Loadable)
    (heq : r.define d = (answer, next)) : next.Loadable := by
  have hnext := h.define d
  rw [heq] at hnext
  exact hnext

theorem Loadable.resolve (h : r.Loadable) (heq : r.resolveOrPlaceholder n = .ok (c, next)) :
    next.Loadable := by
  have hmove : r.Move (.resolve n) (r.perform (.resolve n)) := move_perform h.invariant trivial
  have hkernel := h.kernel.move h.invariant hmove
  have hperform : r.perform (.resolve n) = next := by
    rw [perform, heq]
  rw [hperform] at hkernel
  refine ⟨(resolveOrPlaceholder_invariant h.invariant heq).1, hkernel, ?_⟩
  obtain ⟨_, ⟨_, rfl⟩ | ⟨_, _, rfl⟩⟩ := resolve_cases heq
  · exact h.named
  · exact named_addPlaceholder h.invariant.toWellFormed h.named n

theorem Admits.proper (h : r.Admits d) : Proper d :=
  ⟨h.name, h.superclassNames, h.slots, h.nodup, h.notMem⟩

theorem Defined.stands (hr : r.Loadable) (hdef : r.Defined d root k mid inst next) :
    next.Stands d root k.superclasses := by
  have hinv := hr.invariant
  have hbinds := hdef.binds hinv
  have hnames := hdef.names hinv
  rw [hdef.superclasses_root hinv] at hnames
  refine ⟨hdef.admits.proper, hbinds.name, hdef.definition_root hinv, hnames, ?_⟩
  intro l hl hbuiltIn
  apply hdef.superclass_top hinv hl
  rw [hinv.kernel, KernelClass.isBuiltIn_generation]
  exact hbuiltIn

theorem NamesSuperclasses.kept {names : List Symbol}
    (hkept : ∀ n a, r.lookup n = some a → r'.lookup n = some a)
    (h : r.NamesSuperclasses names supers) : r'.NamesSuperclasses names supers := by
  unfold NamesSuperclasses at h ⊢
  split at h
  · rw [if_pos ‹_›]
    exact h
  · rw [if_neg ‹_›, ← h]
    apply List.map_congr_left
    intro n hn
    have hmem : r.lookup n ∈ supers.map some := h ▸ List.mem_map_of_mem hn
    obtain ⟨a, _, ha⟩ := List.mem_map.mp hmem
    rw [← ha, hkept n a ha.symm]

theorem Stands.kept (h : r.Stands d c supers)
    (hkept : ∀ n a, r.lookup n = some a → r'.lookup n = some a)
    (hdefinition : (r'.generation c).unfinalized = (r.generation c).unfinalized) :
    r'.Stands d c supers where
  proper := h.proper
  lookup := hkept _ _ h.lookup
  definition := hdefinition.trans h.definition
  names := h.names.kept hkept
  builtIn := h.builtIn

theorem Stands.restates (h : r.Stands d c supers) (hsame : r.Restates r') :
    r'.Stands d c supers := by
  apply h.kept
  · intro n a hn
    rw [hsame.lookup]
    exact hn
  · exact hsame.definition c

theorem Stands.define (hr : r.Loadable) (h : r.Stands d c supers) (hne : d.name ≠ d'.name)
    (hdef : r.Defined d' root k mid inst next) : next.Stands d c supers := by
  apply h.kept (hdef.binds hr.invariant).kept
  exact hdef.definition_of_ne hr.invariant hr.named h.lookup hne

theorem Stands.grown {names : List Symbol} (hr : r.WellFormed) (h : r.Stands d c supers)
    (hgrown : r.Grown r' names) : r'.Stands d c supers := by
  apply h.kept fun _ _ hn => hgrown.lookup_of_some hn
  rw [generation_of_cell (hgrown.cell c (hr.bound _ c h.lookup))]

end Standing

section Repetition

theorem resolveAll_of_map_lookup {names : List Symbol}
    (h : names.map r.lookup = supers.map some) : r.resolveAll names = (supers, r) := by
  induction names generalizing supers with
  | nil =>
    have hnil : supers = [] := by
      cases supers with
      | nil => rfl
      | cons s rest => contradiction
    rw [hnil]
    rfl
  | cons m rest ih =>
    cases supers with
    | nil => contradiction
    | cons s ss =>
      rw [List.map_cons, List.map_cons, List.cons.injEq] at h
      have hresolve : r.resolve m = (s, r) := by
        rw [Registry.resolve, h.1]
      rw [resolveAll, hresolve]
      dsimp only
      rw [ih h.2]

theorem Stands.declare (h : r.Stands d c supers) :
    r.declare d = (c, d.classWith supers, r) := by
  have hsupers : r.declaredSuperclasses d = (supers, r) := by
    have hnames := h.names
    unfold NamesSuperclasses at hnames
    unfold declaredSuperclasses
    split at hnames
    · rename_i hnil
      rw [hnil, hnames]
      rfl
    · rename_i hne
      rw [if_neg fun hempty => hne (List.isEmpty_iff.mp hempty)]
      exact resolveAll_of_map_lookup hnames
  rw [Registry.declare, hsupers]
  dsimp only
  rw [cellFor, h.lookup]
  rfl

theorem Stands.superclasses (h : r.Stands d c supers) : r.superclasses c = supers := by
  rw [Registry.superclasses, ← Generation.superclasses_unfinalized, h.definition]
  rfl

theorem Stands.admits (hr : r.Invariant) (h : r.Stands d c supers) : r.Admits d := by
  have hsealed : r.isSealed c = false := by
    rw [isSealed, ← Generation.isSealed_unfinalized, h.definition]
    rfl
  have hmem : ∀ s ∈ d.superclasses, ∀ b, r.lookup s = some b → b ∈ supers := by
    intro s hs b hb
    obtain ⟨b', hb', hlookup⟩ := h.names.exists_of_mem hs
    cases hlookup.symm.trans hb
    exact hb'
  refine ⟨h.proper.name, h.proper.superclassNames, ?_, h.proper.slots, h.proper.nodup,
    h.proper.notMem, ?_, ?_⟩
  · intro b hb
    cases h.lookup.symm.trans hb
    exact hsealed
  · intro s hs b hb hbuiltIn
    have hkernel : IsKernel b := by
      by_contra huser
      have := hr.user b huser
      cases hg : r.generation b <;> simp_all [Generation.isBuiltIn, Generation.IsUser]
    obtain ⟨l, rfl⟩ := hkernel
    rw [hr.kernel, KernelClass.isBuiltIn_generation] at hbuiltIn
    rw [h.builtIn l (hmem s hs _ hb) hbuiltIn]
  · intro s hs b hb self hself
    cases h.lookup.symm.trans hself
    rw [← Bool.not_eq_true, hr.isSubclass_iff]
    intro hinherits
    apply hr.not_descends_self c
    refine Relation.TransGen.head' ?_ hinherits
    rw [h.superclasses]
    exact hmem s hs b hb

theorem Stands.exists_shapeOf (hr : r.Invariant) (h : r.Stands d c supers)
    (hfinal : r.isFinalized c) (version : Nat) :
    ∃ s, r.shapeOf r.limits c version (d.classWith supers) = .ok s := by
  obtain ⟨shape, hgen⟩ := Generation.eq_standard
    (h.definition.trans (by rfl : Generation.standard (d.classWith supers) =
      (Generation.standard (d.classWith supers)).unfinalized)) rfl
  obtain ⟨s, hs⟩ := isFinalized_iff.mp hfinal
  have hsettled := hr.settled c _ hgen rfl
  rw [hgen] at hs
  have hshape : shape = some s := hs
  subst hshape
  have houtline : r.outline? c (d.classWith supers) = some s.outline := by
    rw [← outline?_congr rfl rfl rfl rfl (fun _ _ => rfl) fun _ _ _ => rfl]
    exact hsettled.symm
  obtain ⟨s', hs', _⟩ := Registry.exists_shapeOf (r := r) version houtline
  exact ⟨s', hs'⟩

/-- A finalized class can be defined again as it stands, and then no class changes. -/
theorem Stands.define_again (hr : r.Invariant) (h : r.Stands d c supers)
    (hfinal : r.isFinalized c) :
    ∃ next, r.define d = (.ok c, next) ∧ r.Restates next := by
  have ha := h.admits hr
  have hcheck := checkDefinition_eq_ok.mpr ha
  rcases install_spec hr.toWellFormed ha with ⟨f, root, k, mid, next, hinst, hrefused⟩ |
    ⟨root, k, mid, inst, hinst, hi⟩
  · cases h.declare.symm.trans hrefused.declare
    obtain ⟨s, hs⟩ := h.exists_shapeOf hr hfinal (r.built c + 1)
    have hfault := hrefused.fault
    rw [hs] at hfault
    contradiction
  · have hdeclare := h.declare.symm.trans hi.declare
    rw [Prod.mk.injEq, Prod.mk.injEq] at hdeclare
    obtain ⟨rfl, hk, rfl⟩ := hdeclare
    have hsupers : k.superclasses = supers := (congrArg StandardClass.superclasses hk).symm
    have hdef : r.Defined d c k r inst (inst.cascade c) := ⟨ha, hinst, hi, rfl⟩
    have hreshaped := (hdef.cascade hr).2.1
    refine ⟨inst.cascade c, ?_, hdef.limits hr, ?_, ?_, ?_⟩
    · rw [Registry.define, hcheck, hinst]
    · exact hreshaped.lookup.trans hi.redefined.lookup
    · exact hreshaped.length.trans hi.redefined.length
    · intro a
      rcases hdef.definition hr a with ⟨rfl, hgen⟩ | ⟨_, _, hgen⟩ | ⟨_, hle, hle'⟩ |
        ⟨_, _, m, hm, hnone, _⟩
      · rw [hgen, h.definition, hsupers]
      · exact hgen
      · rw [generation_of_le hle, generation_of_le hle']
      · obtain ⟨s, _, hs⟩ := h.names.exists_of_mem hm
        rw [hs] at hnone
        contradiction

theorem Loadable.defineAll (h : r.Loadable) (hrun : r.defineAll ds = some r') : r'.Loadable := by
  induction ds generalizing r with
  | nil =>
    cases hrun
    exact h
  | cons d rest ih =>
    obtain ⟨root, next, hdef, hrest⟩ := defineAll_eq_some hrun
    exact ih (h.defined hdef) hrest

theorem Stands.defineAll (hr : r.Loadable) (h : r.Stands d c supers)
    (hne : ∀ e ∈ ds, d.name ≠ e.name) (hrun : r.defineAll ds = some r') : r'.Stands d c supers := by
  induction ds generalizing r with
  | nil =>
    cases hrun
    exact h
  | cons e rest ih =>
    obtain ⟨root, next, hanswer, hrest⟩ := defineAll_eq_some hrun
    obtain ⟨k, mid, inst, hdef⟩ := define_eq_ok hr.invariant.toWellFormed hanswer
    have hnext := hr.defined hanswer
    apply ih hnext
    · exact h.define hr (hne e List.mem_cons_self) hdef
    · exact fun e' he' => hne e' (List.mem_cons_of_mem e he')
    · exact hrest

theorem stands_of_defineAll (hr : r.Loadable) (hrun : r.defineAll ds = some r') :
    ∀ d ∈ prevailing (sameKey ClassDefinition.name) ds, ∃ c supers, r'.Stands d c supers := by
  induction ds generalizing r with
  | nil => exact fun d hd => absurd hd List.not_mem_nil
  | cons e rest ih =>
    obtain ⟨root, next, hanswer, hrest⟩ := defineAll_eq_some hrun
    obtain ⟨k, mid, inst, hdef⟩ := define_eq_ok hr.invariant.toWellFormed hanswer
    have hnext := hr.defined hanswer
    intro d hd
    rcases mem_prevailing_cons.mp hd with hd | ⟨rfl, hothers⟩
    · exact ih hnext hrest d hd
    · have hne : ∀ e' ∈ rest, d.name ≠ e'.name := fun e' he' =>
        of_decide_eq_false (hothers e' he')
      exact ⟨root, _, (hdef.stands hr).defineAll hnext hne hrest⟩

/-- Classes that stand and are finalized can all be defined again, and then no class changes. -/
theorem defineAll_again (hr : r.Loadable)
    (h : ∀ d ∈ ds, ∃ c supers, r.Stands d c supers ∧ r.isFinalized c) :
    ∃ r', r.defineAll ds = some r' ∧ r.Restates r' := by
  induction ds generalizing r with
  | nil => exact ⟨r, rfl, .refl r⟩
  | cons e rest ih =>
    obtain ⟨c, supers, hstands, hfinal⟩ := h e List.mem_cons_self
    obtain ⟨next, hanswer, hsame⟩ := hstands.define_again hr.invariant hfinal
    have hnext := hr.defined hanswer
    have hrest : ∀ d ∈ rest, ∃ c supers, next.Stands d c supers ∧ next.isFinalized c := by
      intro d hd
      obtain ⟨b, ss, hb, hfinal⟩ := h d (List.mem_cons_of_mem e hd)
      refine ⟨b, ss, hb.restates hsame, ?_⟩
      rw [hsame.isFinalized hr.invariant hnext.invariant]
      exact hfinal
    obtain ⟨r', hrun, hsame'⟩ := ih hnext hrest
    refine ⟨r', ?_, hsame.trans hsame'⟩
    rw [defineAll_cons hanswer]
    exact hrun

end Repetition

end Metaobject.Registry
