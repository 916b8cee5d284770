import Metaobject.Proofs.NamedClasses

/-!
# Agreement by name

Two registries that represent the same definitions say the same of each name: what is finalized in
the one is finalized in the other, with the same precedence list and slots by name. More generally
this holds of the names whose definitions, and those of their superclasses, both represent.
-/

namespace Metaobject

/-- A set of names, closed under superclasses, for which the second list has all definitions of the
first. -/
structure Covered (ds ds' : List ClassDefinition) (P : Symbol → Prop) : Prop where
  kernel : ∀ k : KernelClass, P k.name
  defined : ∀ d ∈ ds, P d.name → d ∈ ds'
  superclass : ∀ d ∈ ds, P d.name → ∀ s ∈ d.superclasses, P s

theorem Covered.superclassNames {ds ds' : List ClassDefinition} {P : Symbol → Prop}
    (h : Covered ds ds' P) {d : ClassDefinition} (hd : d ∈ ds) (hP : P d.name) {s : Symbol}
    (hs : s ∈ d.superclassNames) : P s := by
  rcases ClassDefinition.mem_superclassNames hs with rfl | hs
  · exact h.kernel .standardObject
  · exact h.superclass d hd hP s hs

theorem covered_of_subset {ds ds' : List ClassDefinition} (h : ds ⊆ ds') :
    Covered ds ds' fun _ => True :=
  ⟨fun _ => trivial, fun _ hd _ => h hd, fun _ _ _ _ _ => trivial⟩

namespace Registry

variable {r r' : Registry} {ds ds' : List ClassDefinition} {P : Symbol → Prop}
  {d : ClassDefinition} {n : Symbol} {a c c' : ClassId} {k k' : StandardClass}

theorem Invariant.finalized_inherits (h : r.Invariant) (hc : r.isFinalized c)
    (hinherits : r.Inherits c a) : r.isFinalized a := by
  induction hinherits with
  | refl => exact hc
  | tail _ hs ih =>
    obtain ⟨s, hshape⟩ := isFinalized_iff.mp ih
    exact (h.precedence_superclasses (h.settled _) hshape).1 _ hs

theorem map_superclasses_eq {β : Type} {names : List Symbol} {supers supers' : List ClassId}
    (h : names.map r.lookup = supers.map some) (h' : names.map r'.lookup = supers'.map some)
    {g g' : ClassId → β} (heq : ∀ n ∈ names, (r'.lookup n).map g' = (r.lookup n).map g) :
    supers'.map g' = supers.map g := by
  have hmap : ∀ (r : Registry) (supers : List ClassId) (g : ClassId → β),
      names.map r.lookup = supers.map some →
        (supers.map g).map some = names.map fun n => (r.lookup n).map g := by
    intro r supers g h
    have := congrArg (List.map (Option.map g)) h
    rw [List.map_map, List.map_map] at this
    rw [List.map_map]
    exact this.symm
  have hsome : (supers'.map g').map some = (supers.map g).map some := by
    rw [hmap r' supers' g' h', hmap r supers g h]
    exact List.map_congr_left heq
  exact List.map_injective_iff.mpr (Option.some_injective β) hsome

theorem mem_of_names {names : List Symbol} {supers : List ClassId}
    (h : names.map r.lookup = supers.map some) :
    (∀ s ∈ supers, ∃ n ∈ names, r.lookup n = some s) ∧
      ∀ n ∈ names, ∃ s ∈ supers, r.lookup n = some s := by
  constructor
  · intro s hs
    have hmem : some s ∈ names.map r.lookup := h ▸ List.mem_map_of_mem hs
    exact List.mem_map.mp hmem
  · intro n hn
    have hmem : r.lookup n ∈ supers.map some := h ▸ List.mem_map_of_mem hn
    obtain ⟨s, hs, heq⟩ := List.mem_map.mp hmem
    exact ⟨s, hs, heq.symm⟩

theorem Represents.map_className (h : r.Represents ds) {names : List Symbol}
    {supers : List ClassId} (hnames : names.map r.lookup = supers.map some) :
    supers.map r.className = names.map some := by
  have hsome := congrArg (List.map fun o : Option ClassId => o.bind r.className) hnames
  rw [List.map_map, List.map_map] at hsome
  refine Eq.trans (Eq.trans ?_ hsome.symm) (List.map_congr_left fun n hn => ?_)
  · rfl
  · obtain ⟨s, _, hs⟩ := (mem_of_names hnames).2 n hn
    exact (congrArg (fun o : Option ClassId => o.bind r.className) hs).trans
      (h.className_of_lookup hs)

/-- What a class inherits from has a name in the set, if the class does. -/
theorem Represents.inherits_covered (h : r.Represents ds) (hcovered : Covered ds ds' P)
    (hn : r.lookup n = some c) (hP : P n) (hinherits : r.Inherits c a) :
    ∃ m, r.lookup m = some a ∧ P m := by
  induction hinherits with
  | refl => exact ⟨n, hn, hP⟩
  | @tail b s _ hs ih =>
    obtain ⟨m, hm, hPm⟩ := ih
    rcases h.bound m b hm with ⟨l, _, rfl⟩ | ⟨d, hd, rfl⟩ | ⟨hgen, _⟩
    · obtain ⟨l', rfl⟩ := h.invariant.isKernel_superclass ⟨l, rfl⟩ hs
      exact ⟨l'.name, h.kernel l', hcovered.kernel l'⟩
    · obtain ⟨b', k, hk⟩ := h.defined d hd
      cases hk.lookup.symm.trans hm
      obtain ⟨m', hm', hlookup⟩ := hk.mem_superclasses.mp hs
      exact ⟨m', hlookup, hcovered.superclassNames hd hPm hm'⟩
    · rw [superclasses, hgen] at hs
      contradiction

inductive Kind
  | forwardReferenced
  | standard
  | methodClass
  | builtIn
deriving DecidableEq, Repr

def kindOf : Generation → Kind
  | .forwardReferenced _ => .forwardReferenced
  | .standard _ => .standard
  | .methodClass _ => .methodClass
  | .builtIn _ => .builtIn

/-- Two classes are declared in the same way, with superclasses of the same names. -/
structure SameDeclaration (r r' : Registry) (c c' : ClassId) : Prop where
  kind : kindOf (r'.generation c') = kindOf (r.generation c)
  documentation : (r'.generation c').documentation = (r.generation c).documentation
  slots : r'.slots c' = r.slots c
  superclasses : (r'.superclasses c').map r'.className = (r.superclasses c).map r.className

theorem kernel_sameDeclaration (h : r.Represents ds) (h' : r'.Represents ds') (l : KernelClass) :
    r.SameDeclaration r' l.id l.id := by
  have hgen : r'.generation l.id = r.generation l.id :=
    (h'.invariant.kernel l).trans (h.invariant.kernel l).symm
  refine ⟨by rw [hgen], by rw [hgen], congrArg Generation.slots hgen, ?_⟩
  have hsupers : r'.superclasses l.id = r.superclasses l.id :=
    congrArg Generation.superclasses hgen
  rw [hsupers]
  apply List.map_congr_left
  intro s hs
  obtain ⟨l', rfl⟩ := h.invariant.isKernel_superclass ⟨l, rfl⟩ hs
  rw [h.className_of_lookup (h.kernel l'), h'.className_of_lookup (h'.kernel l')]

theorem Holds.sameDeclaration (h : r.Represents ds) (h' : r'.Represents ds')
    (hk : r.Holds d c k) (hk' : r'.Holds d c' k') : r.SameDeclaration r' c c' := by
  refine ⟨?_, ?_, ?_, ?_⟩
  · rw [hk.generation, hk'.generation]
    rfl
  · rw [hk.generation, hk'.generation, hk.eq_classWith, hk'.eq_classWith]
    rfl
  · rw [Registry.slots, Registry.slots, hk.generation, hk'.generation]
    exact hk'.slots.trans hk.slots.symm
  · rw [Registry.superclasses, Registry.superclasses, hk.generation, hk'.generation]
    exact (h'.map_className hk'.superclasses).trans (h.map_className hk.superclasses).symm

theorem Represents.counterpart (h : r.Represents ds) (h' : r'.Represents ds')
    (hcovered : Covered ds ds' P) (hn : r.lookup n = some c) (hP : P n)
    (hc : r.generation c ≠ .forwardReferenced n) :
    ∃ c', r'.lookup n = some c' ∧ r.SameDeclaration r' c c' := by
  rcases h.bound n c hn with ⟨l, rfl, rfl⟩ | ⟨d, hd, rfl⟩ | ⟨hgen, _⟩
  · exact ⟨l.id, h'.kernel l, kernel_sameDeclaration h h' l⟩
  · obtain ⟨_, k, hk⟩ := h.defined d hd
    cases hk.lookup.symm.trans hn
    obtain ⟨c', k', hk'⟩ := h'.defined d (hcovered.defined d hd hP)
    exact ⟨c', hk'.lookup, hk.sameDeclaration h h' hk'⟩
  · exact absurd hgen hc

/-- The names of the classes, with that of a class that may not have its name yet. -/
def namedAt (r : Registry) (n : Symbol) (c : ClassId) : ClassId → Option Symbol :=
  Function.update r.className c (some n)

theorem namedAt_self (r : Registry) (n : Symbol) (c : ClassId) : r.namedAt n c c = some n :=
  Function.update_self ..

theorem Represents.reserves (h : r.Represents ds) (hn : r.lookup n = some c) : r.Reserves n c :=
  ⟨fun _ hm => h.name_unique hm hn, fun _ ha => Option.some.inj (ha.symm.trans hn)⟩

theorem Represents.namedAt_eq (h : r.Represents ds) (hn : r.lookup n = some c) :
    r.namedAt n c = r.className := by
  rw [namedAt, ← h.className_of_lookup hn]
  exact Function.update_eq_self c r.className

theorem Represents.namedAt_of_lookup (h : r.Represents ds) (hc : r.Reserves n c) {m : Symbol}
    (hm : r.lookup m = some a) : r.namedAt n c a = some m := by
  by_cases hac : a = c
  · subst hac
    rw [namedAt, Function.update_self, hc.name m hm]
  · rw [namedAt, Function.update_of_ne hac, h.className_of_lookup hm]

theorem Represents.map_namedAt (h : r.Represents ds) (hc : r.Reserves n c) {l : List ClassId}
    (hl : ∀ a ∈ l, ∃ m, r.lookup m = some a) : l.map (r.namedAt n c) = l.map r.className := by
  apply List.map_congr_left
  intro a ha
  obtain ⟨m, hm⟩ := hl a ha
  rw [h.namedAt_of_lookup hc hm, h.className_of_lookup hm]

theorem Represents.tellsApart_namedAt (h : r.Represents ds) (hc : r.Reserves n c)
    {l : List ClassId} (hl : ∀ a ∈ l, ∃ m, r.lookup m = some a) :
    Precedence.TellsApart (r.namedAt n c) (c :: l) := by
  have hself : ∀ a ∈ l, r.namedAt n c a = r.namedAt n c c → a = c := by
    intro a ha heq
    obtain ⟨m, hm⟩ := hl a ha
    rw [namedAt_self, h.namedAt_of_lookup hc hm] at heq
    exact hc.cell a (Option.some.inj heq ▸ hm)
  intro a ha b hb hab
  rcases List.mem_cons.mp ha with rfl | hal
  · rcases List.mem_cons.mp hb with rfl | hbl
    · rfl
    · exact (hself b hbl hab.symm).symm
  · rcases List.mem_cons.mp hb with rfl | hbl
    · exact hself a hal hab
    · obtain ⟨m, hm⟩ := hl a hal
      obtain ⟨m', hm'⟩ := hl b hbl
      rw [h.namedAt_of_lookup hc hm, h.namedAt_of_lookup hc hm'] at hab
      cases hab
      exact Option.some.inj (hm.symm.trans hm')

/-- The superclasses of a name in two registries are finalized in the same way. -/
def ShapesAgree (r r' : Registry) (m : Symbol) : Prop :=
  ∃ p s p' s', r.lookup m = some p ∧ (r.generation p).shape = some s ∧
    r'.lookup m = some p' ∧ (r'.generation p').shape = some s' ∧
    s'.outline.map r'.className = s.outline.map r.className

theorem ShapesAgree.isFinalized_left {m : Symbol} (h : r.ShapesAgree r' m)
    (hc : r.lookup m = some c) : r.isFinalized c := by
  obtain ⟨_, s, _, _, hp, hs, _⟩ := h
  cases hp.symm.trans hc
  exact isFinalized_iff.mpr ⟨s, hs⟩

theorem ShapesAgree.isFinalized_right {m : Symbol} (h : r.ShapesAgree r' m)
    (hc : r'.lookup m = some c) : r'.isFinalized c := by
  obtain ⟨_, _, _, s, _, _, hp, hs, _⟩ := h
  cases hp.symm.trans hc
  exact isFinalized_iff.mpr ⟨s, hs⟩

theorem ShapesAgree.precedenceList (hm : r.ShapesAgree r' n) (h : r.Represents ds)
    (h' : r'.Represents ds') (hc : r.lookup n = some c) (hc' : r'.lookup n = some c') :
    (r'.precedenceList c').map r'.className = (r.precedenceList c).map r.className := by
  obtain ⟨_, s, _, s', hp, hs, hp', hs', heq⟩ := hm
  cases hp.symm.trans hc
  cases hp'.symm.trans hc'
  rw [precedenceList_finalized hs, precedenceList_finalized hs', List.map_cons, List.map_cons,
    h.className_of_lookup hc, h'.className_of_lookup hc']
  exact congrArg (fun o => some n :: Outline.precedence o) heq

theorem ShapesAgree.layout (hm : r.ShapesAgree r' n) (hc : r.lookup n = some c)
    (hc' : r'.lookup n = some c') :
    (r'.layout c').map Layout.slots = (r.layout c).map Layout.slots := by
  obtain ⟨_, s, _, s', hp, hs, hp', hs', heq⟩ := hm
  cases hp.symm.trans hc
  cases hp'.symm.trans hc'
  rw [Registry.layout, Registry.layout, Generation.layout, Generation.layout, hs, hs']
  exact congrArg (fun o => some (Outline.slots o)) heq

theorem kernel_shapesAgree (h : r.Represents ds) (h' : r'.Represents ds') (l : KernelClass) :
    r.ShapesAgree r' l.name := by
  obtain ⟨s, hs, hprec⟩ := l.shape_generation
  refine ⟨l.id, s, l.id, s, h.kernel l, ?_, h'.kernel l, ?_, ?_⟩
  · rw [h.invariant.kernel, hs]
  · rw [h'.invariant.kernel, hs]
  · have hnames : ∀ a ∈ s.precedence, r'.className a = r.className a := by
      intro a ha
      rw [hprec] at ha
      obtain ⟨b, _, rfl⟩ := List.mem_map.mp ha
      rw [h.className_of_lookup (h.kernel b), h'.className_of_lookup (h'.kernel b)]
    exact congrArg (fun l => Outline.mk l s.layout.slots) (List.map_congr_left hnames)

section Agreement

variable (h : r.Represents ds) (h' : r'.Represents ds') (hlimits : r'.limits = r.limits)
  (hcovered : Covered ds ds' P)

theorem Represents.bound_precedenceList (h : r.Represents ds) (hn : r.lookup n = some c) :
    ∀ a ∈ r.precedenceList c, ∃ m, r.lookup m = some a := by
  intro a ha
  exact h.inherits_bound hn (h.invariant.mem_precedenceList.mp ha)

theorem Represents.bound_ancestry (h : r.Represents ds) {supers : List ClassId}
    (hready : ∀ s ∈ supers, r.isFinalized s) (hsupers : ∀ s ∈ supers, ∃ m, r.lookup m = some s) :
    ∀ a ∈ r.ancestry supers, ∃ m, r.lookup m = some a := by
  intro a ha
  obtain ⟨s, hs, hmem⟩ := (mem_ancestry hready).mp ha
  obtain ⟨m, hm⟩ := hsupers s hs
  exact h.bound_precedenceList hm a hmem

include h h' hcovered

theorem slots_agree (hn : r.lookup n = some c) (hP : P n) (hc : r.isFinalized c)
    (hinherits : r.Inherits c a) {m : Symbol} (hm : r.lookup m = some a) {a' : ClassId}
    (hm' : r'.lookup m = some a') : r'.slots a' = r.slots a := by
  obtain ⟨m', hlookup, hPm⟩ := h.inherits_covered hcovered hn hP hinherits
  cases h.name_unique hlookup hm
  have hfin := h.invariant.finalized_inherits hc hinherits
  have hplaceholder : r.generation a ≠ .forwardReferenced m := by
    intro hgen
    rw [isFinalized, hgen] at hfin
    contradiction
  obtain ⟨b, hb, hsame⟩ := h.counterpart h' hcovered hm hPm hplaceholder
  cases hb.symm.trans hm'
  exact hsame.slots

include hlimits

/-- Classes of the same declaration have the same outline by names, if their superclasses have. -/
theorem outline_agrees {names : List Symbol} (hc : r.Reserves n c) (hc' : r'.Reserves n c')
    (hname : k'.name = k.name) (hown : k'.slots = k.slots)
    (hnames : names.map r.lookup = k.superclasses.map some)
    (hnames' : names.map r'.lookup = k'.superclasses.map some)
    (hP : ∀ m ∈ names, P m) (hagree : ∀ m ∈ names, r.ShapesAgree r' m) :
    (r'.outline? c' k').map (Outline.map (r'.namedAt n c')) =
      (r.outline? c k).map (Outline.map (r.namedAt n c)) := by
  obtain ⟨hsupers, hmem⟩ := mem_of_names hnames
  obtain ⟨hsupers', _⟩ := mem_of_names hnames'
  have hready : ∀ s ∈ k.superclasses, r.isFinalized s := by
    intro s hs
    obtain ⟨m, hm, hlookup⟩ := hsupers s hs
    exact (hagree m hm).isFinalized_left hlookup
  have hready' : ∀ s ∈ k'.superclasses, r'.isFinalized s := by
    intro s hs
    obtain ⟨m, hm, hlookup⟩ := hsupers' s hs
    exact (hagree m hm).isFinalized_right hlookup
  have hbound := h.bound_ancestry hready fun s hs => (hsupers s hs).imp fun _ => And.right
  have hbound' := h'.bound_ancestry hready' fun s hs => (hsupers' s hs).imp fun _ => And.right
  apply outline?_agree hlimits hname hown hready hready' (h.tellsApart_namedAt hc hbound)
    (h'.tellsApart_namedAt hc' hbound')
  · exact (namedAt_self r' n c').trans (namedAt_self r n c).symm
  · apply map_superclasses_eq hnames hnames'
    intro m hm
    obtain ⟨p, _, p', _, hp, _, hp', _⟩ := hagree m hm
    rw [hp, hp', Option.map_some, Option.map_some, h.namedAt_of_lookup hc hp,
      h'.namedAt_of_lookup hc' hp']
  · rw [List.map_map, List.map_map]
    apply map_superclasses_eq hnames hnames'
    intro m hm
    obtain ⟨p, _, p', _, hp, _, hp', _⟩ := hagree m hm
    rw [hp, hp', Option.map_some, Option.map_some, Function.comp, Function.comp,
      h.map_namedAt hc (h.bound_precedenceList hp),
      h'.map_namedAt hc' (h'.bound_precedenceList hp'), (hagree m hm).precedenceList h h' hp hp']
  · intro a ha a' ha' heq
    obtain ⟨s, hs, hin⟩ := (mem_ancestry hready).mp ha
    obtain ⟨m, hm, hlookup⟩ := hsupers s hs
    obtain ⟨ma, hma⟩ := hbound a ha
    obtain ⟨ma', hma'⟩ := hbound' a' ha'
    rw [h.namedAt_of_lookup hc hma, h'.namedAt_of_lookup hc' hma'] at heq
    cases heq
    exact slots_agree h h' hcovered hlookup (hP m hm) (hready s hs)
      (h.invariant.mem_precedenceList.mp hin) hma hma'

theorem shapesAgree (hn : r.lookup n = some c) (hP : P n) (hc : r.isFinalized c) :
    r.ShapesAgree r' n := by
  induction c using h.invariant.acyclic.induction generalizing n with
  | _ c ih =>
    obtain ⟨s, hs⟩ := isFinalized_iff.mp hc
    rcases h.bound n c hn with ⟨l, rfl, rfl⟩ | ⟨d, hd, rfl⟩ | ⟨hgen, _⟩
    · exact kernel_shapesAgree h h' l
    · obtain ⟨_, k, hk⟩ := h.defined d hd
      cases hk.lookup.symm.trans hn
      obtain ⟨c', k', hk'⟩ := h'.defined d (hcovered.defined d hd hP)
      have hsupers : ∀ m ∈ d.superclassNames, r.ShapesAgree r' m := by
        intro m hm
        obtain ⟨p, hp⟩ := hk.superclass_bound hm
        have hmem := hk.mem_superclasses.mpr ⟨m, hm, hp⟩
        exact ih p hmem hp (hcovered.superclassNames hd hP hm)
          ((h.invariant.precedence_superclasses (h.invariant.settled c) hs).1 p hmem)
      have hagree := outline_agrees h h' hlimits hcovered (h.reserves hn) (h'.reserves hk'.lookup)
        (hk'.name.trans hk.name.symm) (hk'.slots.trans hk.slots.symm) hk.superclasses hk'.superclasses
        (fun m hm => hcovered.superclassNames hd hP hm) hsupers
      rw [h.namedAt_eq hn, h'.namedAt_eq hk'.lookup,
        ← h.invariant.settled c k hk.generation hk.isSealed,
        ← h'.invariant.settled c' k' hk'.generation hk'.isSealed] at hagree
      rw [hk.generation] at hs
      change k.shape = some s at hs
      rw [hs] at hagree
      obtain ⟨o, ho, heq⟩ := Option.map_eq_some_iff.mp hagree
      obtain ⟨s', hs', rfl⟩ := Option.map_eq_some_iff.mp ho
      refine ⟨c, s, c', s', hn, ?_, hk'.lookup, ?_, heq⟩
      · rw [hk.generation]
        exact hs
      · rw [hk'.generation]
        exact hs'
    · rw [isFinalized, hgen] at hc
      contradiction

end Agreement

/-- What a registry says of a class, with names for the classes. -/
structure Profile where
  kind : Kind
  state : ClassState
  documentation : Option String
  slots : List Symbol
  superclasses : List (Option Symbol)
  precedence : List (Option Symbol)
  layout : Option (List Symbol)
deriving DecidableEq, Repr

def profile (r : Registry) (c : ClassId) : Profile where
  kind := kindOf (r.generation c)
  state := r.state c
  documentation := (r.generation c).documentation
  slots := r.slots c
  superclasses := (r.superclasses c).map r.className
  precedence := (r.precedenceList c).map r.className
  layout := (r.layout c).map Layout.slots

/-- The registries bind the same names, to classes of which they say the same. -/
def Agree (r r' : Registry) : Prop :=
  ∀ n, (r'.lookup n).map r'.profile = (r.lookup n).map r.profile

theorem state_eq (g : Generation) : g.state =
    match kindOf g with
    | .forwardReferenced => .placeholder
    | _ => if g.shape.isSome then .finalized else .unfinalized := by
  cases g <;> rfl

theorem kindOf_forwardReferenced {g : Generation} (h : kindOf g = .forwardReferenced) :
    ∃ m, g = .forwardReferenced m := by
  cases g with
  | forwardReferenced m => exact ⟨m, rfl⟩
  | standard _ => contradiction
  | methodClass _ => contradiction
  | builtIn _ => contradiction

theorem walk_precedenceList (hc : (r.generation c).shape = none) :
    Graph.Walk r.superclasses [c] [] (r.precedenceList c) := by
  rw [precedenceList, hc]
  exact Graph.walk_preorder (fun _ ha => superclasses_of_le ha) [c]

section SameDefinitions

variable (h : r.Represents ds) (h' : r'.Represents ds') (hmem : ∀ d, d ∈ ds ↔ d ∈ ds')

include h h' hmem

theorem exists_placeholder (hn : r.lookup n = some c)
    (hgen : r.generation c = .forwardReferenced n) :
    ∃ c', r'.lookup n = some c' ∧ r'.generation c' = .forwardReferenced n := by
  have hsuper : ∃ d ∈ ds, n ∈ d.superclasses := by
    rcases h.bound n c hn with ⟨l, _, rfl⟩ | ⟨d, hd, rfl⟩ | ⟨_, hsuper⟩
    · have hsealed := l.isSealed_generation
      rw [← h.invariant.kernel, hgen] at hsealed
      contradiction
    · obtain ⟨_, k, hk⟩ := h.defined d hd
      cases hk.lookup.symm.trans hn
      rw [hk.generation] at hgen
      contradiction
    · exact hsuper
  obtain ⟨d, hd, hsuper⟩ := hsuper
  obtain ⟨root, k, hk⟩ := h'.defined d ((hmem d).mp hd)
  obtain ⟨c', hc'⟩ := hk.superclass_bound (ClassDefinition.superclassNames_of_mem hsuper)
  refine ⟨c', hc', ?_⟩
  -- What is not a placeholder there has a counterpart here, and that is the placeholder.
  by_contra hne
  obtain ⟨b, hb, hsame⟩ := h'.counterpart h (covered_of_subset fun d hd => (hmem d).mpr hd) hc'
    trivial hne
  cases hb.symm.trans hn
  have hkind := hsame.kind
  rw [hgen] at hkind
  obtain ⟨m, hm⟩ := kindOf_forwardReferenced hkind.symm
  have hname := h'.className_of_lookup hc'
  rw [className, hm] at hname
  exact hne (Option.some.inj hname ▸ hm)

theorem exists_sameDeclaration (hn : r.lookup n = some c) :
    ∃ c', r'.lookup n = some c' ∧ r.SameDeclaration r' c c' := by
  by_cases hgen : r.generation c = .forwardReferenced n
  · obtain ⟨c', hc', hgen'⟩ := exists_placeholder h h' hmem hn hgen
    refine ⟨c', hc', ?_, ?_, ?_, ?_⟩
    · rw [hgen, hgen']
    · rw [hgen, hgen']
    · rw [slots, slots, hgen, hgen']
    · rw [superclasses, superclasses, hgen, hgen']
      rfl
  · exact h.counterpart h' (covered_of_subset fun d hd => (hmem d).mp hd) hn trivial hgen

/-- Before finalization, the precedence lists are walks along the same names. -/
theorem walk_agrees (hn : r.lookup n = some c) (hn' : r'.lookup n = some c')
    (hc : (r.generation c).shape = none) (hc' : (r'.generation c').shape = none) :
    (r'.precedenceList c').map r'.className = (r.precedenceList c).map r.className := by
  let supers : Option Symbol → List (Option Symbol) := fun o =>
    ((o.bind r.lookup).map fun a => (r.superclasses a).map r.className).getD []
  have hbound := h.bound_precedenceList hn
  have hbound' := h'.bound_precedenceList hn'
  have hsupers : ∀ a ∈ r.precedenceList c,
      supers (r.className a) = (r.superclasses a).map r.className := by
    intro a ha
    obtain ⟨m, hm⟩ := hbound a ha
    simp only [supers, h.className_of_lookup hm, Option.bind_some, hm, Option.map_some,
      Option.getD_some]
  have hsupers' : ∀ a ∈ r'.precedenceList c',
      supers (r'.className a) = (r'.superclasses a).map r'.className := by
    intro a ha
    obtain ⟨m, hm⟩ := hbound' a ha
    obtain ⟨b, hb, hsame⟩ := exists_sameDeclaration h' h (fun d => (hmem d).symm) hm
    simp only [supers, h'.className_of_lookup hm, Option.bind_some, hb, Option.map_some,
      Option.getD_some, hsame.superclasses]
  have hwalk := (walk_precedenceList hc).map hsupers (h.tellsApart hbound)
  have hwalk' := (walk_precedenceList hc').map hsupers' (h'.tellsApart hbound')
  rw [List.map_singleton, h.className_of_lookup hn] at hwalk
  rw [List.map_singleton, h'.className_of_lookup hn'] at hwalk'
  exact hwalk'.unique hwalk

/-- Classes of the same name are finalized with the same precedence list and layout by names, or
both not finalized. -/
theorem shape_agrees (hlimits : r'.limits = r.limits) (hn : r.lookup n = some c)
    (hn' : r'.lookup n = some c') : r'.isFinalized c' = r.isFinalized c ∧
      (r'.precedenceList c').map r'.className = (r.precedenceList c).map r.className ∧
      (r'.layout c').map Layout.slots = (r.layout c).map Layout.slots := by
  by_cases hfin : r.isFinalized c
  · have hshapes := shapesAgree h h' hlimits (covered_of_subset fun d hd => (hmem d).mp hd) hn
      trivial hfin
    exact ⟨(hshapes.isFinalized_right hn').trans hfin.symm, hshapes.precedenceList h h' hn hn',
      hshapes.layout hn hn'⟩
  · have hfin' : ¬r'.isFinalized c' := fun hfin' => hfin
      ((shapesAgree h' h hlimits.symm (covered_of_subset fun d hd => (hmem d).mpr hd) hn' trivial
        hfin').isFinalized_right hn)
    have hnone : (r.generation c).shape = none := by simpa [isFinalized] using hfin
    have hnone' : (r'.generation c').shape = none := by simpa [isFinalized] using hfin'
    refine ⟨?_, walk_agrees h h' hmem hn hn' hnone hnone', ?_⟩
    · rw [isFinalized, isFinalized, hnone, hnone']
    · rw [layout, layout, Generation.layout, Generation.layout, hnone, hnone']

theorem agree_of_represents (hlimits : r'.limits = r.limits) : r.Agree r' := by
  intro n
  cases hn : r.lookup n with
  | none =>
    cases hn' : r'.lookup n with
    | none => rfl
    | some c' =>
      obtain ⟨c, hc, _⟩ := exists_sameDeclaration h' h (fun d => (hmem d).symm) hn'
      rw [hn] at hc
      contradiction
  | some c =>
    obtain ⟨c', hn', hsame⟩ := exists_sameDeclaration h h' hmem hn
    obtain ⟨hfinalized, hprecedence, hlayout⟩ := shape_agrees h h' hmem hlimits hn hn'
    have hstate : r'.state c' = r.state c := by
      rw [isFinalized, isFinalized] at hfinalized
      rw [state, state, state_eq, state_eq, hsame.kind, hfinalized]
    rw [hn', Option.map_some, Option.map_some, profile, profile, hsame.kind, hstate,
      hsame.documentation, hsame.slots, hsame.superclasses, hprecedence, hlayout]

end SameDefinitions

end Registry

end Metaobject
