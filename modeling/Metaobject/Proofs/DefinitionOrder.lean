import Metaobject.Proofs.Agreement

/-!
# The order of definitions

Definitions of different classes may come in any order. If they all succeed in an order in which
superclasses come first, they succeed in every order, and the registries agree by name.
-/

namespace Metaobject.Registry

variable {r r' mid inst next ref : Registry} {ds ds' refs es pre post : List ClassDefinition}
  {d : ClassDefinition} {n : Symbol} {c c' root : ClassId} {k : StandardClass}

def defineAll (r : Registry) : List ClassDefinition → Option Registry
  | [] => some r
  | d :: rest =>
    match r.define d with
    | (.ok _, next) => next.defineAll rest
    | (.error _, _) => none

theorem defineAll_cons {rest : List ClassDefinition} (h : r.define d = (.ok root, next)) :
    r.defineAll (d :: rest) = next.defineAll rest := by
  rw [defineAll, h]

theorem defineAll_eq_some {rest : List ClassDefinition}
    (h : r.defineAll (d :: rest) = some r') :
    ∃ root next, r.define d = (.ok root, next) ∧ next.defineAll rest = some r' := by
  rw [defineAll] at h
  cases hdef : r.define d with
  | mk result next =>
    rw [hdef] at h
    cases result with
    | ok root => exact ⟨root, next, rfl, h⟩
    | error f => contradiction

theorem Represents.congr (h : r.Represents ds) (hmem : ∀ d, d ∈ ds ↔ d ∈ ds') :
    r.Represents ds' where
  invariant := h.invariant
  kernel := h.kernel
  defined d hd := h.defined d ((hmem d).mpr hd)
  bound n c hn := by
    simpa only [← hmem] using h.bound n c hn

section Success

/-- What a definition has to satisfy in every order, as seen from a registry with all of them. -/
structure Sound (ref : Registry) (d : ClassDefinition) : Prop where
  name : IsClassName d.name
  superclassNames : ∀ s ∈ d.superclasses, IsClassName s
  slots : ∃ l, Layout.build (some d.name) d.slots [] = .ok l
  nodup : d.superclasses.Nodup
  notMem : d.name ∉ d.superclasses
  kernel : ∀ l : KernelClass, l.name ≠ d.name
  builtIn : ∀ l : KernelClass, l.name ∈ d.superclasses → l.isBuiltIn = true → l = .top
  ready : ∀ c k, ref.Holds d c k → (∀ s ∈ k.superclasses, ref.isFinalized s) → ref.isFinalized c

theorem Declared.finalized_iff (h : r.Represents ds) (hd : r.Declared d root k mid)
    (hnotMem : d.name ∉ d.superclasses) (hkernel : ∀ l : KernelClass, l.name ≠ d.name)
    (hn : n ∈ d.superclassNames) {s : ClassId} :
    mid.lookup n = some s ∧ mid.isFinalized s ↔ r.lookup n = some s ∧ r.isFinalized s := by
  have hname : n ≠ d.name := by
    rcases ClassDefinition.mem_superclassNames hn with rfl | hn
    · exact hkernel .standardObject
    · exact fun heq => hnotMem (heq ▸ hn)
  rcases hd.lookup n hname with heq | ⟨_, hnone, a, ha, _, _, _, hgen⟩
  · rw [heq]
    refine and_congr_right fun hs => ?_
    rw [isFinalized, isFinalized, generation_of_cell (hd.cell s (h.invariant.bound n s hs))]
  · refine iff_of_false ?_ ?_
    · rintro ⟨hs, hfin⟩
      cases ha.symm.trans hs
      rw [isFinalized, hgen] at hfin
      contradiction
    · rintro ⟨hs, _⟩
      rw [hnone] at hs
      contradiction

theorem Declared.map_lookup (h : r.Represents ds) (hd : r.Declared d root k mid)
    (hkernel : ∀ l : KernelClass, l.name ≠ d.name) :
    d.superclassNames.map mid.lookup = k.superclasses.map some := by
  refine NamesSuperclasses.map_lookup ?_ hd.superclasses
  rcases hd.lookup _ (hkernel .standardObject) with heq | ⟨_, hnone, _⟩
  · rw [heq, h.kernel]
  · rw [h.kernel] at hnone
    contradiction

/-- A class whose superclasses are finalized in the registry with all definitions is finalized when
it is defined, if these cover its superclasses. -/
theorem Defined.root_finalized (h : r.Represents pre) (href : ref.Represents refs)
    (hlimits : ref.limits = r.limits) (hdef : r.Defined d root k mid inst next)
    (hkernel : ∀ l : KernelClass, l.name ≠ d.name) {P : Symbol → Prop}
    (hcovered : Covered refs pre P) (hP : ∀ s ∈ d.superclasses, P s) {k' : StandardClass}
    (hk' : ref.Holds d c k') (hready : ∀ s ∈ k'.superclasses, ref.isFinalized s) :
    next.isFinalized root := by
  have hd := hdef.installed.declared
  have hnames := hd.map_lookup h hkernel
  have hfinalized : ∀ s ∈ k.superclasses, mid.isFinalized s := by
    intro s hs
    obtain ⟨n, hn, hlookup⟩ := (mem_of_names hnames).1 s hs
    obtain ⟨s', hs', hmem⟩ := (mem_of_names hk'.superclasses).2 n hn
    have hPn : P n := by
      rcases ClassDefinition.mem_superclassNames hn with rfl | hn
      · exact hcovered.kernel .standardObject
      · exact hP n hn
    obtain ⟨_, _, p, shape, _, _, hp, hshape, _⟩ :=
      shapesAgree href h hlimits.symm hcovered hmem hPn (hready s' hs')
    obtain ⟨hq, hfin⟩ := (hd.finalized_iff h hdef.admits.notMem hkernel hn).mpr
      ⟨hp, isFinalized_iff.mpr ⟨shape, hshape⟩⟩
    cases hq.symm.trans hlookup
    exact hfin
  have hreshaped := (hdef.cascade h.invariant).2.1
  have hself : ¬inst.Descends root root :=
    (wellFormed_installed h.invariant hdef.admits hdef.installed).not_descends_self root
  rw [isFinalized_of_snapshot (hreshaped.snapshot root hself), isFinalized,
    hdef.installed.redefined.generation_root]
  exact hdef.installed.ready hfinalized

theorem sound_of_defined (h : r.Represents pre) (href : ref.Represents refs)
    (hlimits : ref.limits = r.limits) (hdef : r.Defined d root k mid inst next)
    (hsub : d :: pre ⊆ refs) (hnew : ∀ d' ∈ pre, d'.name ≠ d.name)
    (hkernel : ∀ l : KernelClass, l.name ≠ d.name) {P : Symbol → Prop}
    (hcovered : Covered refs pre P) (hP : ∀ s ∈ d.superclasses, P s) : ref.Sound d where
  name := hdef.admits.name
  superclassNames := hdef.admits.superclassNames
  slots := hdef.admits.slots
  nodup := hdef.admits.nodup
  notMem := hdef.admits.notMem
  kernel := hkernel
  builtIn l hl hbuiltIn := by
    have hid := hdef.admits.builtIn _ hl l.id (h.kernel l) (by
      rw [h.invariant.kernel, KernelClass.isBuiltIn_generation, hbuiltIn])
    exact KernelClass.id_injective hid
  ready c k' hk' hready := by
    have hroot := hdef.root_finalized h href hlimits hkernel hcovered hP hk' hready
    obtain ⟨_, hk⟩ := holds_root h hdef
    have hshapes := shapesAgree (represents_define h hdef hnew) href
      (hlimits.trans (hdef.limits h.invariant).symm) (covered_of_subset hsub) hk.lookup trivial hroot
    exact hshapes.isFinalized_right hk'.lookup

theorem inherits_of_subset (h : r.Represents ds) (href : ref.Represents refs) (hsub : ds ⊆ refs)
    (hn : r.lookup n = some c) (hc' : ref.lookup n = some c') {a : ClassId}
    (hinherits : r.Inherits c a) :
    ∃ m a', r.lookup m = some a ∧ ref.lookup m = some a' ∧ ref.Inherits c' a' := by
  induction hinherits with
  | refl => exact ⟨n, c', hn, hc', .refl⟩
  | @tail b s _ hs ih =>
    obtain ⟨m, b', hm, hb', hreach⟩ := ih
    have hplaceholder : r.generation b ≠ .forwardReferenced m := by
      intro hgen
      rw [superclasses, hgen] at hs
      contradiction
    obtain ⟨b'', hb'', hsame⟩ :=
      h.counterpart href (covered_of_subset hsub) hm trivial hplaceholder
    cases hb''.symm.trans hb'
    obtain ⟨ms, hms⟩ := h.superclass_bound hm hs
    have hmem : some ms ∈ (ref.superclasses b').map ref.className := by
      rw [hsame.superclasses, ← h.className_of_lookup hms]
      exact List.mem_map_of_mem hs
    obtain ⟨s', hs', hname⟩ := List.mem_map.mp hmem
    obtain ⟨ms', hms'⟩ := href.superclass_bound hb' hs'
    rw [href.className_of_lookup hms'] at hname
    cases hname
    exact ⟨ms, s', hms, hms', hreach.tail hs'⟩

theorem admits_of_sound (h : r.Represents ds) (href : ref.Represents refs) (hsub : ds ⊆ refs)
    (hd : d ∈ refs) (hsound : ref.Sound d) (hnew : ∀ d' ∈ ds, d'.name ≠ d.name) :
    r.Admits d where
  name := hsound.name
  superclassNames := hsound.superclassNames
  slots := hsound.slots
  nodup := hsound.nodup
  notMem := hsound.notMem
  unsealed c hc := by
    rw [isSealed, h.placeholder_of_not_mem hsound.kernel hnew hc]
    rfl
  builtIn s hs c hc hbuiltIn := by
    rcases h.bound s c hc with ⟨l, rfl, rfl⟩ | ⟨d', hd', rfl⟩ | ⟨hgen, _⟩
    · rw [h.invariant.kernel, KernelClass.isBuiltIn_generation] at hbuiltIn
      rw [hsound.builtIn l hs hbuiltIn]
    · obtain ⟨_, k, hk⟩ := h.defined d' hd'
      cases hk.lookup.symm.trans hc
      rw [hk.generation] at hbuiltIn
      contradiction
    · rw [hgen] at hbuiltIn
      contradiction
  acyclic s hs c hc self hself := by
    rw [← Bool.not_eq_true, h.invariant.isSubclass_iff]
    intro hinherits
    obtain ⟨root, k, hk⟩ := href.defined d hd
    have hnames := ClassDefinition.superclassNames_of_mem hs
    obtain ⟨c', hc'⟩ := hk.superclass_bound hnames
    obtain ⟨m, root', hm, hroot', hreach⟩ := inherits_of_subset h href hsub hc hc' hinherits
    cases h.name_unique hm hself
    cases hroot'.symm.trans hk.lookup
    exact href.invariant.not_descends_self root
      (Relation.TransGen.head'_iff.mpr ⟨c', hk.mem_superclasses.mpr ⟨s, hnames, hc'⟩, hreach⟩)

theorem Declared.superclasses_before (h : r.Represents ds) (hdecl : r.Declared d root k mid)
    (hnotMem : d.name ∉ d.superclasses) (hkernel : ∀ l : KernelClass, l.name ≠ d.name)
    (hready : ∀ s ∈ k.superclasses, mid.isFinalized s) :
    d.superclassNames.map r.lookup = k.superclasses.map some ∧
      ∀ s ∈ k.superclasses, r.isFinalized s := by
  have hmid := hdecl.map_lookup h hkernel
  have hold : ∀ n ∈ d.superclassNames, ∀ s ∈ k.superclasses, mid.lookup n = some s →
      r.lookup n = some s ∧ r.isFinalized s := fun n hn s hs hlookup =>
    (hdecl.finalized_iff h hnotMem hkernel hn).mp ⟨hlookup, hready s hs⟩
  constructor
  · rw [← hmid]
    refine List.map_congr_left fun n hn => ?_
    obtain ⟨s, hs, hlookup⟩ := (mem_of_names hmid).2 n hn
    rw [hlookup, (hold n hn s hs hlookup).1]
  · intro s hs
    obtain ⟨n, hn, hlookup⟩ := (mem_of_names hmid).1 s hs
    exact (hold n hn s hs hlookup).2

theorem Declared.outline?_eq (h : r.Represents ds) (hdecl : r.Declared d root k mid)
    (hbound : ∀ s ∈ k.superclasses, ∃ n, r.lookup n = some s) :
    mid.outline? root k = r.outline? root k := by
  have hsame : ∀ n s, r.lookup n = some s → mid.generation s = r.generation s := fun n s hs =>
    generation_of_cell (hdecl.cell s (h.invariant.bound n s hs))
  apply outline?_congr hdecl.limits rfl rfl rfl
  · intro s hs
    obtain ⟨n, hlookup⟩ := hbound s hs
    rw [hsame n s hlookup]
  · intro hready a ha
    obtain ⟨m, hm⟩ := h.bound_ancestry hready hbound a ha
    exact congrArg Generation.slots (hsame m a hm)

theorem outline?_of_sound (h : r.Represents ds) (href : ref.Represents refs)
    (hlimits : ref.limits = r.limits) (hsub : ds ⊆ refs) (hd : d ∈ refs) (hsound : ref.Sound d)
    (hdecl : r.Declared d root k mid) (hready : ∀ s ∈ k.superclasses, mid.isFinalized s) :
    ∃ o, mid.outline? root k = some o := by
  obtain ⟨c', k', hk'⟩ := href.defined d hd
  obtain ⟨hnames, hfin⟩ := hdecl.superclasses_before h hsound.notMem hsound.kernel hready
  have hagree : ∀ n ∈ d.superclassNames, r.ShapesAgree ref n := by
    intro n hn
    obtain ⟨s, hs, hlookup⟩ := (mem_of_names hnames).2 n hn
    exact shapesAgree h href hlimits (covered_of_subset hsub) hlookup trivial (hfin s hs)
  have hfinalized : ref.isFinalized c' := by
    refine hsound.ready c' k' hk' fun s hs => ?_
    obtain ⟨n, hn, hlookup⟩ := (mem_of_names hk'.superclasses).1 s hs
    exact (hagree n hn).isFinalized_right hlookup
  have houtline := outline_agrees h href hlimits (covered_of_subset hsub) (h.reserves_declared hdecl)
    (href.reserves hk'.lookup) (hk'.name.trans (congrArg StandardClass.name hdecl.eq_classWith).symm)
    (hk'.slots.trans (congrArg StandardClass.slots hdecl.eq_classWith).symm) hnames
    hk'.superclasses (fun _ _ => trivial) hagree
  have hsettled := href.invariant.settled c' k' hk'.generation hk'.isSealed
  obtain ⟨shape, hshape⟩ := isFinalized_iff.mp hfinalized
  rw [hk'.generation] at hshape
  change k'.shape = some shape at hshape
  rw [← hsettled, hshape] at houtline
  obtain ⟨o, ho, _⟩ := Option.map_eq_some_iff.mp houtline.symm
  have hbound : ∀ s ∈ k.superclasses, ∃ n, r.lookup n = some s := fun s hs =>
    ((mem_of_names hnames).1 s hs).imp fun _ => And.right
  exact ⟨o, (hdecl.outline?_eq h hbound).trans ho⟩

theorem define_succeeds (h : r.Represents ds) (href : ref.Represents refs)
    (hlimits : ref.limits = r.limits) (hsub : ds ⊆ refs) (hd : d ∈ refs) (hsound : ref.Sound d)
    (hnew : ∀ d' ∈ ds, d'.name ≠ d.name) : ∃ root next, r.define d = (.ok root, next) := by
  have ha := admits_of_sound h href hsub hd hsound hnew
  cases hdef : r.define d with
  | mk result next =>
    cases result with
    | ok root => exact ⟨root, next, rfl⟩
    | error f =>
      rcases define_eq_error h.invariant.toWellFormed hdef with ⟨hcheck, _⟩ | ⟨_, _, _, _, hrefused⟩
      · rw [checkDefinition_eq_ok.mpr ha] at hcheck
        contradiction
      · obtain ⟨o, ho⟩ := outline?_of_sound h href hlimits hsub hd hsound hrefused.declared
          hrefused.ready
        have hfault := hrefused.fault
        rw [← outline_shapeOf_version, hfault] at ho
        contradiction

end Success

section Runs

theorem represents_defineAll (h : r.Represents ds) (hnodup : (es.map ClassDefinition.name).Nodup)
    (hnew : ∀ d ∈ es, ∀ d' ∈ ds, d'.name ≠ d.name) (hrun : r.defineAll es = some r') :
    r'.Represents (es.reverse ++ ds) ∧ r'.limits = r.limits := by
  induction es generalizing r ds with
  | nil =>
    cases hrun
    exact ⟨h, rfl⟩
  | cons d rest ih =>
    obtain ⟨root, next, hdef, hrest⟩ := defineAll_eq_some hrun
    obtain ⟨k, mid, inst, hdefined⟩ := define_eq_ok h.invariant.toWellFormed hdef
    obtain ⟨hname, hnodup⟩ := List.nodup_cons.mp hnodup
    have hstep := represents_define h hdefined (hnew d List.mem_cons_self)
    obtain ⟨hrepresents, hlimits⟩ := ih hstep hnodup (fun e he d' hd' => by
      rcases List.mem_cons.mp hd' with rfl | hd'
      · exact fun heq => hname (heq ▸ List.mem_map_of_mem he)
      · exact hnew e (List.mem_cons_of_mem _ he) d' hd') hrest
    rw [List.reverse_cons, List.append_assoc]
    exact ⟨hrepresents, hlimits.trans (hdefined.limits h.invariant)⟩

/-- Every class comes after those of its superclasses that the list defines. -/
def SuperclassesFirst (ds : List ClassDefinition) : Prop :=
  ds.Pairwise fun d e => e.name ∉ d.superclasses

theorem covered_of_append (hkernel : ∀ d ∈ pre ++ es, ∀ l : KernelClass, l.name ≠ d.name)
    (hfirst : SuperclassesFirst (pre ++ es)) :
    Covered (pre ++ es) pre fun n => ∀ e ∈ es, e.name ≠ n := by
  have hbefore : ∀ d ∈ pre ++ es, (∀ e ∈ es, e.name ≠ d.name) → d ∈ pre := fun d hd hlater =>
    (List.mem_append.mp hd).resolve_right fun hmem => hlater d hmem rfl
  refine ⟨?_, hbefore, ?_⟩
  · intro l e he heq
    exact hkernel e (List.mem_append_right _ he) l heq.symm
  · intro d hd hlater s hs e he heq
    exact (List.pairwise_append.mp hfirst).2.2 d (hbefore d hd hlater) e he (heq ▸ hs)

theorem sound_of_defineAll (hkernel : ∀ d ∈ refs, ∀ l : KernelClass, l.name ≠ d.name)
    (hnodup : (refs.map ClassDefinition.name).Nodup) (hfirst : SuperclassesFirst refs)
    (href : ref.Represents refs) (hsplit : refs = pre ++ es) (h : r.Represents pre)
    (hlimits : ref.limits = r.limits) (hrun : r.defineAll es = some r') :
    ∀ d ∈ es, ref.Sound d := by
  induction es generalizing r pre with
  | nil => exact fun d hd => absurd hd List.not_mem_nil
  | cons d rest ih =>
    obtain ⟨root, next, hdef, hrest⟩ := defineAll_eq_some hrun
    obtain ⟨k, mid, inst, hdefined⟩ := define_eq_ok h.invariant.toWellFormed hdef
    subst hsplit
    rw [List.map_append, List.nodup_append] at hnodup
    have hnew : ∀ d' ∈ pre, d'.name ≠ d.name := fun d' hd' =>
      hnodup.2.2 _ (List.mem_map_of_mem hd') _ (List.mem_map_of_mem List.mem_cons_self)
    have hd : d ∈ pre ++ d :: rest := List.mem_append_right _ List.mem_cons_self
    have hsupers : ∀ s ∈ d.superclasses, ∀ e ∈ d :: rest, e.name ≠ s := by
      intro s hs e he heq
      rcases List.mem_cons.mp he with rfl | he
      · exact hdefined.admits.notMem (heq ▸ hs)
      · have hlater := (List.pairwise_append.mp hfirst).2.1
        exact (List.pairwise_cons.mp hlater).1 e he (heq ▸ hs)
    have hsound := sound_of_defined h href hlimits hdefined
      (List.cons_subset.mpr ⟨hd, List.subset_append_left _ _⟩) hnew (hkernel d hd)
      (covered_of_append hkernel hfirst) hsupers
    have hstep : next.Represents (pre ++ [d]) :=
      (represents_define h hdefined hnew).congr fun e => by
        rw [List.mem_cons, List.mem_append, List.mem_singleton, or_comm]
    have hrests := ih (by rw [List.append_assoc, List.singleton_append]) hstep
      (hlimits.trans (hdefined.limits h.invariant).symm) hrest
    exact List.forall_mem_cons.mpr ⟨hsound, hrests⟩

/-- Sound definitions succeed in whatever order they come. -/
theorem defineAll_succeeds (href : ref.Represents refs) (h : r.Represents ds)
    (hlimits : ref.limits = r.limits) (hds : ds ⊆ refs) (hes : es ⊆ refs)
    (hsound : ∀ d ∈ es, ref.Sound d) (hnodup : (es.map ClassDefinition.name).Nodup)
    (hnew : ∀ d ∈ es, ∀ d' ∈ ds, d'.name ≠ d.name) : ∃ r', r.defineAll es = some r' := by
  induction es generalizing r ds with
  | nil => exact ⟨r, rfl⟩
  | cons d rest ih =>
    obtain ⟨hd, hrest⟩ := List.cons_subset.mp hes
    obtain ⟨hname, hnodup⟩ := List.nodup_cons.mp hnodup
    have hnewd := hnew d List.mem_cons_self
    obtain ⟨root, next, hdef⟩ :=
      define_succeeds h href hlimits hds hd (hsound d List.mem_cons_self) hnewd
    obtain ⟨k, mid, inst, hdefined⟩ := define_eq_ok h.invariant.toWellFormed hdef
    rw [defineAll_cons hdef]
    apply ih (represents_define h hdefined hnewd)
      (hlimits.trans (hdefined.limits h.invariant).symm) (List.cons_subset.mpr ⟨hd, hds⟩) hrest
      (fun e he => hsound e (List.mem_cons_of_mem _ he)) hnodup
    intro e he d' hd'
    rcases List.mem_cons.mp hd' with rfl | hd'
    · exact fun heq => hname (heq ▸ List.mem_map_of_mem he)
    · exact hnew e (List.mem_cons_of_mem _ he) d' hd'

end Runs

/-- If definitions of different classes succeed with superclasses first, they succeed in every order,
and the registries agree by name. -/
theorem define_order_irrelevant {limits : Limits}
    (hnodup : (ds.map ClassDefinition.name).Nodup)
    (hkernel : ∀ d ∈ ds, ∀ l : KernelClass, l.name ≠ d.name) (hfirst : SuperclassesFirst ds)
    (hrun : (fresh limits).defineAll ds = some r) (hperm : es.Perm ds) :
    ∃ r', (fresh limits).defineAll es = some r' ∧ r.Agree r' := by
  have hnodup' : (es.map ClassDefinition.name).Nodup :=
    (hperm.map ClassDefinition.name).nodup_iff.mpr hnodup
  have hfresh := represents_fresh limits
  have hnew : ∀ es : List ClassDefinition, ∀ d ∈ es, ∀ d' ∈ ([] : List ClassDefinition),
      d'.name ≠ d.name := fun _ _ _ _ hd' => absurd hd' List.not_mem_nil
  obtain ⟨hrepresents, hlimits⟩ := represents_defineAll hfresh hnodup (hnew ds) hrun
  have href : r.Represents ds := hrepresents.congr fun d => by
    rw [List.append_nil, List.mem_reverse]
  have hsound := sound_of_defineAll hkernel hnodup hfirst href rfl hfresh hlimits hrun
  obtain ⟨r', hrun'⟩ := defineAll_succeeds href hfresh hlimits (List.nil_subset ds) hperm.subset
    (fun d hd => hsound d (hperm.subset hd)) hnodup' (hnew es)
  obtain ⟨hrepresents', hlimits'⟩ := represents_defineAll hfresh hnodup' (hnew es) hrun'
  refine ⟨r', hrun', agree_of_represents href hrepresents' ?_ (hlimits'.trans hlimits.symm)⟩
  intro d
  rw [List.append_nil, List.mem_reverse, hperm.mem_iff]

/-- A class may be defined before its superclass. -/
theorem point_order_irrelevant :
    ∃ r r', (fresh Limits.standard).defineAll [.point, .coloredPoint] = some r ∧
      (fresh Limits.standard).defineAll [.coloredPoint, .point] = some r' ∧ r.Agree r' := by
  have hkernel : ∀ d ∈ [ClassDefinition.point, .coloredPoint], ∀ l : KernelClass,
      l.name ≠ d.name := by
    intro d hd l
    rcases List.mem_pair.mp hd with rfl | rfl
    · cases l <;> decide
    · cases l <;> decide
  have hfirst : SuperclassesFirst [.point, .coloredPoint] := by
    rw [SuperclassesFirst]
    decide
  have hsome : ((fresh Limits.standard).defineAll [.point, .coloredPoint]).isSome = true := by
    decide +kernel
  obtain ⟨r, hrun⟩ := Option.isSome_iff_exists.mp hsome
  obtain ⟨r', hrun', hagree⟩ :=
    define_order_irrelevant (by decide) hkernel hfirst hrun (.swap ClassDefinition.point _ [])
  exact ⟨r, r', hrun, hrun', hagree⟩

end Metaobject.Registry
