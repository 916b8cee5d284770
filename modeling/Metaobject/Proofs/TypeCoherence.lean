import Metaobject.Proofs.KernelIntegrity
import Metaobject.Proofs.NamedClasses
import Metaobject.Typing

/-!
# Coherence of types

The type of a value is the name of its class, and the test for types agrees with both. Class objects
are tested through their kind and their metaclass first, which gives no other answer, since the
metaclass of every class is the kernel class that its kind is named after.
-/

namespace Metaobject

namespace Generation

variable {g g' : Generation} {c : ClassId}

/-- The kernel class of which a class is an instance. -/
def kind : Generation → KernelClass
  | .forwardReferenced _ => .forwardReferencedClass
  | .standard _ | .methodClass _ => .standardClass
  | .builtIn _ => .builtInClass

theorem tag_eq_kind (g : Generation) : g.tag = g.kind.name := by
  cases g <;> rfl

theorem kind_unfinalized (g : Generation) : g.unfinalized.kind = g.kind := by
  unfold unfinalized
  split
  · split <;> rfl
  · rfl

theorem metaclass_unfinalized (g : Generation) : g.unfinalized.metaclass = g.metaclass := by
  unfold unfinalized
  split
  · split <;> rfl
  · rfl

/-- In its cell a class has a name, other than that of the empty type, and is an instance of the
class of its kind. -/
structure Coherent (g : Generation) (c : ClassId) : Prop where
  name : ∃ n : Symbol, g.name = some n ∧ n.name ≠ "NIL"
  metaclass : Registry.metaclassOf c g = g.kind.id

theorem Coherent.congr (h : g.Coherent c) (heq : g'.unfinalized = g.unfinalized) :
    g'.Coherent c := by
  have hname : g'.name = g.name := by
    rw [← name_unfinalized, heq, name_unfinalized]
  have hkind : g'.kind = g.kind := by
    rw [← kind_unfinalized, heq, kind_unfinalized]
  have hmetaclass : g'.metaclass = g.metaclass := by
    rw [← metaclass_unfinalized, heq, metaclass_unfinalized]
  constructor
  · rw [hname]
    exact h.name
  · rw [Registry.metaclassOf, hmetaclass, hkind]
    exact h.metaclass

theorem coherent_forwardReferenced {n : Symbol} (hn : n.name ≠ "NIL") (c : ClassId) :
    (Generation.forwardReferenced n).Coherent c :=
  ⟨⟨n, rfl, hn⟩, rfl⟩

theorem coherent_classWith {d : ClassDefinition} (hname : IsClassName d.name)
    (supers : List ClassId) (c : ClassId) : (Generation.standard (d.classWith supers)).Coherent c :=
  ⟨⟨d.name, rfl, hname.1⟩, rfl⟩

end Generation

theorem KernelClass.coherent_generation (k : KernelClass) : k.generation.Coherent k.id := by
  refine ⟨⟨k.name, ?_, k.isClassName_name.1⟩, ?_⟩
  · cases k <;> rfl
  · cases k <;> rfl

namespace Registry

variable {r next : Registry} {limits : Limits} {op : Operation} {c : ClassId}

section Steps

theorem generation_addPlaceholder_cases (r : Registry) (n : Symbol) (c : ClassId) :
    (r.addPlaceholder n).2.generation c = r.generation c ∨
      (r.addPlaceholder n).2.generation c = .forwardReferenced n := by
  rcases Nat.lt_trichotomy c r.cells.length with hlt | rfl | hlt
  · exact Or.inl (generation_of_cell (cell_addPlaceholder_of_lt hlt))
  · exact Or.inr generation_addPlaceholder_new
  · left
    rw [generation_of_le (Nat.le_of_lt hlt), generation_of_le]
    rw [length_addPlaceholder]
    exact hlt

theorem generation_publish_cases (r : Registry) (a : ClassId) (g : Generation) (c : ClassId) :
    (r.publish a g).generation c = r.generation c ∨ (r.publish a g).generation c = g := by
  by_cases hne : c = a
  · subst hne
    by_cases hlt : c < r.cells.length
    · exact Or.inr (generation_publish_self r g hlt)
    · left
      have hle := Nat.le_of_not_lt hlt
      rw [generation_of_le hle, generation_of_le (by rwa [length_publish])]
  · exact Or.inl (generation_publish_of_ne r g hne)

/-- What a step makes of a class: what it was, up to its shape, or a placeholder, or the class of a
definition. -/
theorem Move.generation_cases (hr : r.Invariant) (h : r.Move op next) (c : ClassId) :
    (next.generation c).unfinalized = (r.generation c).unfinalized ∨
      (∃ n, IsClassName n ∧ next.generation c = .forwardReferenced n) ∨
      ∃ d supers, r.Admits d ∧ (next.generation c).unfinalized = .standard (d.classWith supers) := by
  have hold : next.generation c = r.generation c →
      (next.generation c).unfinalized = (r.generation c).unfinalized :=
    congrArg Generation.unfinalized
  cases h with
  | idle op => exact Or.inl rfl
  | counted hroot hopen => exact Or.inl (hold (generation_countGeneration r _ c))
  | @defined d root k mid inst next _ hdef =>
    rcases hdef.definition hr c with ⟨_, hgen⟩ | ⟨_, _, hgen⟩ | ⟨_, hle, hle'⟩ |
      ⟨_, _, n, hn, _, _, hgen⟩
    · exact Or.inr (Or.inr ⟨d, k.superclasses, hdef.admits, hgen⟩)
    · exact Or.inl hgen
    · exact Or.inl (hold ((generation_of_le hle').trans (generation_of_le hle).symm))
    · exact Or.inr (Or.inl ⟨n, hdef.admits.superclassNames n hn, hgen⟩)
  | bound hname hopen hc => exact Or.inl rfl
  | unbound hopen => exact Or.inl rfl
  | @resolved n hname hnone =>
    rcases generation_addPlaceholder_cases r n c with hsame | hnew
    · exact Or.inl (hold hsame)
    · exact Or.inr (Or.inl ⟨n, hname, hnew⟩)
  | @displaced n hname hopen hstate =>
    rcases generation_addPlaceholder_cases r n c with hsame | hnew
    · exact Or.inl (hold hsame)
    · exact Or.inr (Or.inl ⟨n, hname, hnew⟩)
  | @refreshed n a hname hc hstate =>
    rcases generation_publish_cases r a (.forwardReferenced n) c with hsame | hnew
    · exact Or.inl (hold hsame)
    · exact Or.inr (Or.inl ⟨n, hname, hnew⟩)

theorem Move.coherent (hr : r.Invariant) (h : r.Move op next)
    (hc : (r.generation c).Coherent c) : (next.generation c).Coherent c := by
  rcases h.generation_cases hr c with hsame | ⟨n, hname, hgen⟩ | ⟨d, supers, hadmits, hgen⟩
  · exact hc.congr hsame
  · rw [hgen]
    exact Generation.coherent_forwardReferenced hname.1 c
  · exact (Generation.coherent_classWith hadmits.name supers c).congr hgen

end Steps

theorem coherent_fresh (limits : Limits) (c : ClassId) :
    ((fresh limits).generation c).Coherent c := by
  by_cases hc : IsKernel c
  · obtain ⟨k, rfl⟩ := hc
    rw [generation_fresh]
    exact k.coherent_generation
  · rw [generation_of_le (length_fresh_le hc)]
    exact Generation.coherent_forwardReferenced (by decide) c

theorem Reachable.coherent (h : Reachable limits r) (c : ClassId) :
    (r.generation c).Coherent c := by
  induction h with
  | fresh => exact coherent_fresh limits c
  | step hr ha ih =>
    obtain ⟨hinv, _⟩ := hr.invariant
    exact (move_perform hinv ha).coherent hinv ih

section Tests

theorem Invariant.hasInstancesOf_self (hr : r.Invariant) (c : ClassId) :
    r.hasInstancesOf c (.ofClass c) = true :=
  hr.isSubclass_iff.mpr .refl

theorem Invariant.hasInstancesOf_name (hr : r.Invariant) {n : Symbol}
    (hname : r.className c = some n) (hnil : n.name ≠ "NIL") :
    r.hasInstancesOf c (.named n) = true := by
  rw [hasInstancesOf]
  by_cases htop : n.name = "T"
  · rw [if_pos htop]
  · rw [if_neg htop, if_neg hnil, List.any_eq_true]
    have hself : c ∈ r.precedenceList c := hr.mem_precedenceList.mpr .refl
    exact ⟨c, hself, decide_eq_true hname⟩

theorem WellFormed.className_kernel (hr : r.WellFormed) (k : KernelClass) :
    r.className k.id = some k.name := by
  rw [className, hr.kernel]
  exact k.name_generation

/-- The kind and the metaclass of a class are types of the instances of its metaclass, so that
testing for them first changes nothing. -/
theorem Invariant.classIsOfType_eq (hr : r.Invariant) {g : Generation} (hg : g.Coherent c)
    (type : TypeDesignator) :
    r.classIsOfType c g type = r.hasInstancesOf (metaclassOf c g) type := by
  have hname : r.className (metaclassOf c g) = some g.tag := by
    rw [hg.metaclass, Generation.tag_eq_kind]
    exact hr.className_kernel g.kind
  have htag : g.tag.name ≠ "NIL" := by
    rw [Generation.tag_eq_kind]
    exact g.kind.isClassName_name.1
  rw [classIsOfType]
  by_cases htype : type = .named g.tag
  · rw [htype, hr.hasInstancesOf_name hname htag]
    simp
  · by_cases hclass : type = .ofClass (metaclassOf c g)
    · rw [hclass, hr.hasInstancesOf_self]
      simp
    · simp [htype, hclass]

end Tests

end Registry

namespace Image

variable {limits : Limits} {m : Image}

theorem isOfType_eq (h : Registry.Reachable limits m.registry) (v : Value)
    (type : TypeDesignator) :
    m.isOfType v type = m.registry.hasInstancesOf (m.classOf v) type := by
  obtain ⟨hinv, _⟩ := h.invariant
  cases v with
  | classObject c => exact hinv.classIsOfType_eq (h.coherent c) type
  | nil | integer _ | float _ | string _ _ | symbol _ | list _ _ | function _ | object _
  | generic _ | eqlSpecializer _ => rfl

theorem exists_kernelClass (h : Registry.Reachable limits m.registry) {v : Value}
    (hv : ∀ i, v ≠ .object i) : ∃ k : KernelClass, m.classOf v = k.id ∧ m.typeOf v = k.name := by
  cases v with
  | nil => exact ⟨.null, rfl, rfl⟩
  | integer _ => exact ⟨.integer, rfl, rfl⟩
  | float _ => exact ⟨.float, rfl, rfl⟩
  | string _ _ => exact ⟨.string, rfl, rfl⟩
  | symbol _ => exact ⟨.symbol, rfl, rfl⟩
  | list _ _ => exact ⟨.cons, rfl, rfl⟩
  | function _ => exact ⟨.function, rfl, rfl⟩
  | classObject c => exact ⟨_, (h.coherent c).metaclass, Generation.tag_eq_kind _⟩
  | object i => exact absurd rfl (hv i)
  | generic _ => exact ⟨.standardGenericFunction, rfl, rfl⟩
  | eqlSpecializer _ => exact ⟨.eqlSpecializer, rfl, rfl⟩

theorem className_classOf (h : Registry.Reachable limits m.registry) (v : Value) :
    m.registry.className (m.classOf v) = some (m.typeOf v) ∧ (m.typeOf v).name ≠ "NIL" := by
  by_cases hv : ∃ i, v = .object i
  · obtain ⟨i, rfl⟩ := hv
    obtain ⟨n, hname, hnil⟩ := (h.coherent (m.object i).owner).name
    have howner : m.registry.className (m.object i).owner = some n := hname
    rw [classOf, typeOf, howner]
    exact ⟨rfl, hnil⟩
  · obtain ⟨hinv, _⟩ := h.invariant
    obtain ⟨k, hclass, htype⟩ := exists_kernelClass h fun i heq => hv ⟨i, heq⟩
    rw [hclass, htype]
    exact ⟨hinv.className_kernel k, k.isClassName_name.1⟩

end Image

namespace Session

variable {limits : Limits} {s : Session}

/-- The test for types asks nothing but the class of a value, the type of a value is the name of its
class, and every value is of its type and of its class. -/
theorem reachable_types_cohere (h : Reachable limits s) (v : Value) :
    (∀ type, s.image.isOfType v type =
        s.image.registry.hasInstancesOf (s.image.classOf v) type) ∧
      s.image.registry.className (s.image.classOf v) = some (s.image.typeOf v) ∧
      s.image.isOfType v (.named (s.image.typeOf v)) = true ∧
      s.image.isOfType v (.ofClass (s.image.classOf v)) = true := by
  obtain ⟨hinv, _⟩ := h.registry.invariant
  obtain ⟨hname, hnil⟩ := Image.className_classOf h.registry v
  have htest := Image.isOfType_eq h.registry v
  refine ⟨htest, hname, ?_, ?_⟩
  · rw [htest]
    exact hinv.hasInstancesOf_name hname hnil
  · rw [htest]
    exact hinv.hasInstancesOf_self _

def suspendedPoint : Session :=
  (fresh Limits.standard).performAll
    [.classes (.define ⟨⟨"POINT"⟩, [], [⟨"X"⟩], none⟩), .hold 20, .allocate 0 20,
      .classes (.define ⟨⟨"POINT"⟩, [⟨"SHAPE"⟩], [⟨"X"⟩], none⟩)]

theorem reachable_suspendedPoint : Reachable Limits.standard suspendedPoint :=
  Reachable.fresh.performAll (by decide +kernel)

theorem suspendedPoint_types_cohere :
    Reachable Limits.standard suspendedPoint ∧
      suspendedPoint.image.registry.state 20 = .unfinalized ∧
      suspendedPoint.image.registry.state 21 = .placeholder ∧
      suspendedPoint.image.isOfType (.object 0) (.named ⟨"POINT"⟩) = true ∧
      suspendedPoint.image.isOfType (.classObject 20) (.ofClass KernelClass.standardClass.id) =
        true ∧
      suspendedPoint.image.isOfType (.classObject 21) (.named ⟨"FORWARD-REFERENCED-CLASS"⟩) =
        true := by
  have hpoint : suspendedPoint.image.typeOf (.object 0) = ⟨"POINT"⟩ := by decide +kernel
  have hdefined : suspendedPoint.image.classOf (.classObject 20) = KernelClass.standardClass.id := by
    decide +kernel
  have hnamed : suspendedPoint.image.typeOf (.classObject 21) = ⟨"FORWARD-REFERENCED-CLASS"⟩ := by
    decide +kernel
  obtain ⟨_, _, hobject, _⟩ := reachable_types_cohere reachable_suspendedPoint (.object 0)
  obtain ⟨_, _, _, hclass⟩ := reachable_types_cohere reachable_suspendedPoint (.classObject 20)
  obtain ⟨_, _, hplaceholder, _⟩ :=
    reachable_types_cohere reachable_suspendedPoint (.classObject 21)
  rw [hpoint] at hobject
  rw [hdefined] at hclass
  rw [hnamed] at hplaceholder
  exact ⟨reachable_suspendedPoint, by decide +kernel, by decide +kernel, hobject, hclass,
    hplaceholder⟩

end Session

end Metaobject
