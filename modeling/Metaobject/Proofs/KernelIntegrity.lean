import Metaobject.Proofs.ActionRuns
import Metaobject.Proofs.DefinitionFrame
import Metaobject.Proofs.Moves

/-!
# Integrity of the kernel

No step can take a name away from a kernel class, put another generation into its cell, or give its
name to another class. A kernel class may get further names, and may be subclassed. Names that
cannot name classes are never bound.
-/

namespace Metaobject

namespace KernelClass

theorem isClassName_name (k : KernelClass) : IsClassName k.name := by
  cases k <;> exact ⟨by decide, by decide⟩

theorem name_ne_empty (k : KernelClass) : k.name ≠ ⟨""⟩ := by
  cases k <;> decide

end KernelClass

namespace Registry

variable {r mid inst next : Registry} {limits : Limits} {d : ClassDefinition} {root : ClassId}
  {k : StandardClass} {op : Operation}

theorem Defined.superclass_top (hr : r.Invariant) (hdef : r.Defined d root k mid inst next)
    {l : KernelClass} (hl : l.id ∈ k.superclasses)
    (hbuiltIn : (r.generation l.id).isBuiltIn = true) : l = .top := by
  have hbinds := hdef.binds hr
  have hnames := hdef.names hr
  rw [hdef.superclasses_root hr] at hnames
  rcases hnames.cases hl with hobject | ⟨n, hn, hlookup⟩
  · cases KernelClass.id_injective hobject
    rw [hr.kernel] at hbuiltIn
    contradiction
  · have hold : r.lookup n = some l.id := by
      cases hold : r.lookup n with
      | some b =>
        rw [← hbinds.kept n b hold]
        exact hlookup
      | none =>
        obtain ⟨b, _, hb, hle, _⟩ := hbinds.superclass n hn hold
        cases hb.symm.trans hlookup
        exact absurd (hr.kernel_lt l) (Nat.not_lt.mpr hle)
    exact KernelClass.id_injective (hdef.admits.builtIn n hn l.id hold hbuiltIn)

/-- Each kernel class has its name, its first generation and no count, and no other class has its
name. Bound names are names of classes. -/
structure KernelIntact (r : Registry) : Prop where
  bound : ∀ k : KernelClass, r.lookup k.name = some k.id
  snapshot : ∀ k : KernelClass, r.snapshot k.id = ⟨k.id, k.generation⟩
  built : ∀ k : KernelClass, r.built k.id = 0
  foreign : ∀ c, ¬IsKernel c → ∀ k : KernelClass, r.className c ≠ some k.name
  names : ∀ n c, r.lookup n = some c → IsClassName n

theorem kernelIntact_fresh (limits : Limits) : (fresh limits).KernelIntact := by
  constructor
  · intro k
    exact lookup_fresh.mpr ⟨k, rfl, rfl⟩
  · exact snapshot_fresh limits
  · exact built_fresh limits
  · intro c hc k hname
    rw [className, generation_of_le (length_fresh_le hc)] at hname
    exact k.name_ne_empty (Option.some.inj hname).symm
  · intro n c hn
    obtain ⟨k, rfl, rfl⟩ := lookup_fresh.mp hn
    exact k.isClassName_name

namespace KernelIntact

theorem ne_of_open (h : r.KernelIntact) (hr : r.WellFormed) {n : Symbol} (hopen : r.Open n)
    (k : KernelClass) : n ≠ k.name := by
  rintro rfl
  have hsealed := hopen k.id (h.bound k)
  rw [hr.isSealed_iff.mpr ⟨k, rfl⟩] at hsealed
  contradiction

theorem not_isKernel_of_open (hr : r.WellFormed) {n : Symbol} {c : ClassId} (hopen : r.Open n)
    (hc : r.lookup n = some c) : ¬IsKernel c := by
  intro hk
  have hsealed := hopen c hc
  rw [hr.isSealed_iff.mpr hk] at hsealed
  contradiction

theorem not_isKernel_placeholder (hr : r.WellFormed) {c : ClassId}
    (hc : r.state c = .placeholder) : ¬IsKernel c := by
  rintro ⟨k, rfl⟩
  obtain ⟨n, hn⟩ := state_eq_placeholder hc
  have hgen := hr.kernel k
  rw [hn] at hgen
  cases k <;> contradiction

theorem bind {n : Symbol} {c : ClassId} (h : r.KernelIntact) (hname : IsClassName n)
    (hne : ∀ k : KernelClass, n ≠ k.name) : (r.bind n c).KernelIntact := by
  refine ⟨?_, h.snapshot, h.built, h.foreign, ?_⟩
  · intro k
    rw [lookup_bind, if_neg (hne k)]
    exact h.bound k
  · intro m a hm
    rw [lookup_bind] at hm
    split at hm
    · rename_i heq
      rwa [← heq]
    · exact h.names m a hm

theorem addCell (h : r.KernelIntact) (hr : r.WellFormed) {g : Generation}
    (hne : ∀ k : KernelClass, g.name ≠ some k.name) : (r.addCell g).2.KernelIntact := by
  have hcell : ∀ k : KernelClass, (r.addCell g).2.cell k.id = r.cell k.id := by
    intro k
    exact cell_addCell_of_lt r g (hr.kernel_lt k)
  refine ⟨h.bound, ?_, ?_, ?_, h.names⟩
  · intro k
    rw [Registry.snapshot, hcell]
    exact h.snapshot k
  · intro k
    rw [Registry.built, hcell]
    exact h.built k
  · intro c hc k
    rcases Nat.lt_trichotomy c r.cells.length with hlt | rfl | hlt
    · rw [className, generation_of_cell (cell_addCell_of_lt r g hlt)]
      exact h.foreign c hc k
    · rw [className, generation, Registry.snapshot, cell_addCell_new]
      exact hne k
    · have hle : (r.addCell g).2.cells.length ≤ c := by
        rw [length_addCell]
        omega
      rw [className, generation_of_le hle]
      intro hname
      exact k.name_ne_empty (Option.some.inj hname).symm

theorem addPlaceholder (h : r.KernelIntact) (hr : r.WellFormed) {n : Symbol}
    (hname : IsClassName n) (hne : ∀ k : KernelClass, n ≠ k.name) :
    (r.addPlaceholder n).2.KernelIntact := by
  apply bind
  · apply h.addCell hr
    intro k heq
    exact hne k (Option.some.inj heq)
  · exact hname
  · exact hne

theorem publish (h : r.KernelIntact) {c : ClassId} {g : Generation} (hc : ¬IsKernel c)
    (hne : ∀ k : KernelClass, g.name ≠ some k.name) : (r.publish c g).KernelIntact := by
  refine ⟨h.bound, ?_, ?_, ?_, h.names⟩
  · intro k
    have hkc : k.id ≠ c := fun heq => hc ⟨k, heq⟩
    rw [snapshot_publish_of_ne r g hkc]
    exact h.snapshot k
  · intro k
    rw [built_publish]
    exact h.built k
  · intro a ha k
    by_cases hac : a = c
    · subst hac
      by_cases hlt : a < r.cells.length
      · rw [className, generation_publish_self r g hlt]
        exact hne k
      · rw [className, generation_of_le (by simpa using hlt)]
        intro hname
        exact k.name_ne_empty (Option.some.inj hname).symm
    · rw [className, generation_publish_of_ne r g hac]
      exact h.foreign a ha k

theorem countGeneration (h : r.KernelIntact) {c : ClassId} (hc : ¬IsKernel c) :
    (r.countGeneration c).KernelIntact := by
  refine ⟨h.bound, ?_, ?_, ?_, h.names⟩
  · intro k
    rw [snapshot_countGeneration]
    exact h.snapshot k
  · intro k
    have hkc : k.id ≠ c := fun heq => hc ⟨k, heq⟩
    rw [built_countGeneration_of_ne r hkc]
    exact h.built k
  · intro a ha k
    rw [className, generation_countGeneration]
    exact h.foreign a ha k

theorem erase (h : r.KernelIntact) {n : Symbol} (hne : ∀ k : KernelClass, n ≠ k.name) :
    { r with bindings := r.bindings.erase n }.KernelIntact := by
  refine ⟨?_, h.snapshot, h.built, h.foreign, ?_⟩
  · intro k
    refine (Table.find?_erase r.bindings n k.name).trans ?_
    rw [if_neg (hne k)]
    exact h.bound k
  · intro m a hm
    change (r.bindings.erase n).find? m = some a at hm
    rw [Table.find?_erase] at hm
    split at hm
    · contradiction
    · exact h.names m a hm

theorem define (h : r.KernelIntact) (hr : r.Invariant)
    (hdef : r.Defined d root k mid inst next) : next.KernelIntact := by
  have hroot : ¬IsKernel root := not_isKernel_installed hr hdef.admits hdef.installed
  have hname := h.ne_of_open hr.toWellFormed hdef.admits.unsealed
  have hbinds := hdef.binds hr
  have hframe : ∀ l : KernelClass, next.snapshot l.id = r.snapshot l.id ∧
      next.built l.id = r.built l.id := by
    intro l
    apply hdef.frame hr (hr.kernel_lt l)
    · exact fun heq => hroot ⟨l, heq⟩
    · intro hdescends
      rw [hdef.descends_before hr] at hdescends
      exact hroot (hr.isKernel_inherits ⟨l, rfl⟩ hdescends.to_reflTransGen)
  constructor
  · intro l
    exact hbinds.kept _ _ (h.bound l)
  · intro l
    rw [(hframe l).1]
    exact h.snapshot l
  · intro l
    rw [(hframe l).2]
    exact h.built l
  · intro c hc l
    rw [className, ← Generation.name_unfinalized]
    rcases hdef.definition hr c with ⟨_, hgen⟩ | ⟨_, _, hgen⟩ | ⟨_, _, hle⟩ |
      ⟨_, _, n, _, hnone, _, hgen⟩
    · rw [hgen]
      intro heq
      exact hname l (Option.some.inj heq)
    · rw [hgen, Generation.name_unfinalized]
      exact h.foreign c hc l
    · rw [Generation.name_unfinalized, generation_of_le hle]
      intro heq
      exact l.name_ne_empty (Option.some.inj heq).symm
    · rw [Generation.name_unfinalized, hgen]
      intro heq
      rw [Option.some.inj heq, h.bound l] at hnone
      contradiction
  · intro n c hn
    by_cases hd : n = d.name
    · rw [hd]
      exact hdef.admits.name
    · by_cases hmem : n ∈ d.superclasses
      · exact hdef.admits.superclassNames n hmem
      · rw [hbinds.other n hd hmem] at hn
        exact h.names n c hn

theorem move (h : r.KernelIntact) (hr : r.Invariant) (hmove : r.Move op next) :
    next.KernelIntact := by
  have hwell := hr.toWellFormed
  cases hmove with
  | idle op => exact h
  | counted hroot hopen => exact h.countGeneration (not_isKernel_of_open hwell hopen hroot)
  | defined _ hdef => exact h.define hr hdef
  | bound hname hopen hc => exact h.bind hname (h.ne_of_open hwell hopen)
  | unbound hopen => exact h.erase (h.ne_of_open hwell hopen)
  | resolved hname hnone =>
    exact h.addPlaceholder hwell hname (h.ne_of_open hwell (open_of_none hnone))
  | displaced hname hopen hstate => exact h.addPlaceholder hwell hname (h.ne_of_open hwell hopen)
  | @refreshed n c hname hc hstate =>
    have hkernel := not_isKernel_placeholder hwell hstate
    apply h.publish hkernel
    intro k heq
    -- The name of a kernel class is bound to that class, which is no placeholder.
    rw [Option.some.inj heq, h.bound k] at hc
    exact hkernel ⟨k, Option.some.inj hc⟩

end KernelIntact

theorem Reachable.kernelIntact (h : Reachable limits r) : r.KernelIntact := by
  induction h with
  | fresh => exact kernelIntact_fresh limits
  | step hr ha ih =>
    obtain ⟨hinv, _⟩ := hr.invariant
    exact ih.move hinv (move_perform hinv ha)

end Registry

/-- A step of an image that is about its classes, or installs a unit. -/
inductive ImageStep
  | classes (op : Operation)
  | forwardReference (name : Value)
  | install (name : String) (u : DefinitionUnit)

namespace Image

variable {m : Image} {limits : Limits}

def perform (m : Image) : ImageStep → Image
  | .classes op => { m with registry := m.registry.perform op }
  | .forwardReference name =>
    ((Action.onRegistry fun r => r.makeForwardReferencedClass name).runOn m).2
  | .install name u => ((Installation.install name u).runOn m).2

def Allowed (m : Image) : ImageStep → Prop
  | .classes op => m.registry.Allowed op
  | .forwardReference _ | .install _ _ => True

inductive Reachable (limits : Limits) : Image → Prop
  | fresh : Reachable limits (.fresh limits)
  | step {m : Image} {s : ImageStep} : Reachable limits m → m.Allowed s →
      Reachable limits (m.perform s)

theorem leads_makeForwardReferencedClass (name : Value) (s : Session) :
    ∃ t, s.Leads t ∧ t.image =
      ((Action.onRegistry fun r => r.makeForwardReferencedClass name).runOn s.image).2 := by
  have hfails : ∀ f, s.image.registry.makeForwardReferencedClass name = .error f →
      ((Action.onRegistry fun r => r.makeForwardReferencedClass name).runOn s.image).2 =
        s.image := by
    intro f hf
    rw [Action.onRegistry, Action.runOn_bind_of_ok (Action.runOn_get _), hf]
    rfl
  cases h : s.image.registry.makeForwardReferencedClass name with
  | error f => exact ⟨s, .refl, (hfails f h).symm⟩
  | ok p =>
    obtain ⟨c, next⟩ := p
    cases name with
    | symbol n =>
      refine ⟨s.perform (.classes (.installPlaceholder n)), Session.Leads.single trivial, ?_⟩
      have hinstall : s.image.registry.installPlaceholder n = .ok (c, next) := h
      change _ =
        ((Action.onRegistry fun r => r.makeForwardReferencedClass (.symbol n)).runOn s.image).2
      rw [Action.onRegistry, Action.runOn_bind_of_ok (Action.runOn_get _), h,
        Session.perform, Registry.perform, hinstall]
      rfl
    | nil | integer _ | float _ | string _ _ | list _ _ | function _ | classObject _ | object _
    | generic _ | eqlSpecializer _ => cases h

theorem leads_perform {s : Session} {step : ImageStep} (ha : s.image.Allowed step) :
    ∃ t, s.Leads t ∧ t.image = s.image.perform step := by
  cases step with
  | classes op => exact ⟨s.perform (.classes op), Session.Leads.single ha, rfl⟩
  | forwardReference name => exact leads_makeForwardReferencedClass name s
  | install name u =>
    obtain ⟨t, hproceeds, himage⟩ := isRun_install name u s
    exact ⟨t, hproceeds.leads, himage⟩

theorem Reachable.session (h : Reachable limits m) :
    ∃ s, Session.Reachable limits s ∧ s.image = m := by
  induction h with
  | fresh => exact ⟨.fresh limits, .fresh, rfl⟩
  | step _ ha ih =>
    obtain ⟨s, hs, rfl⟩ := ih
    obtain ⟨t, hleads, himage⟩ := leads_perform ha
    exact ⟨t, hs.leads hleads, himage⟩

theorem Reachable.registry (h : Reachable limits m) : Registry.Reachable limits m.registry := by
  obtain ⟨s, hs, rfl⟩ := h.session
  exact hs.registry

/-- Whatever steps were taken, the kernel classes have their names, their first generations and no
others, and only names of classes are bound. -/
theorem reachable_kernel_intact (h : Reachable limits m) :
    (∀ k : KernelClass, m.registry.lookup k.name = some k.id) ∧
      (∀ k : KernelClass, m.registry.snapshot k.id = (Registry.fresh limits).snapshot k.id ∧
        m.registry.isFinalized k.id ∧ m.registry.built k.id = 0) ∧
      (∀ c, ¬IsKernel c → ∀ k : KernelClass, m.registry.className c ≠ some k.name) ∧
      ∀ n c, m.registry.lookup n = some c → n.name ≠ "" ∧ n.name ≠ "NIL" := by
  have hkernel := h.registry.kernelIntact
  have hfresh := Registry.kernelIntact_fresh limits
  refine ⟨hkernel.bound, ?_, hkernel.foreign, ?_⟩
  · intro k
    refine ⟨(hkernel.snapshot k).trans (hfresh.snapshot k).symm, ?_, hkernel.built k⟩
    obtain ⟨shape, hshape, _⟩ := k.shape_generation
    rw [Registry.isFinalized, Registry.generation, hkernel.snapshot, hshape]
    rfl
  · intro n c hn
    obtain ⟨hnil, hempty⟩ := hkernel.names n c hn
    exact ⟨hempty, hnil⟩

def annexed : Image :=
  (((fresh Limits.standard).perform (.classes (.register ⟨"ENTITY"⟩ 1))).perform
    (.install "entities" ⟨[⟨⟨"THING"⟩, [⟨"ENTITY"⟩], [⟨"AGE"⟩], none⟩, ⟨⟨"ENTITY"⟩, [], [], none⟩],
      [], []⟩)).perform (.forwardReference (.symbol ⟨"ENTITY"⟩))

theorem annexed_kernel_intact :
    Reachable Limits.standard annexed ∧ annexed.registry.lookup ⟨"ENTITY"⟩ = some 1 ∧
      annexed.registry.superclasses 20 = [1] ∧
      annexed.registry.lookup KernelClass.standardObject.name = some 1 ∧
      annexed.registry.snapshot 1 = (Registry.fresh Limits.standard).snapshot 1 := by
  have hallowed : (fresh Limits.standard).Allowed (.classes (.register ⟨"ENTITY"⟩ 1)) := by
    change 1 < _
    decide +kernel
  have hreachable : Reachable Limits.standard annexed :=
    .step (.step (.step .fresh hallowed) trivial) trivial
  obtain ⟨hbound, hkept, _⟩ := reachable_kernel_intact hreachable
  refine ⟨hreachable, by decide +kernel, by decide +kernel, ?_, ?_⟩
  · exact hbound .standardObject
  · exact (hkept .standardObject).1

end Image

end Metaobject
