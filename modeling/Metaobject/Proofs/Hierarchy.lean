import Metaobject.Proofs.Cells
import Metaobject.Proofs.Outline
import Metaobject.Proofs.Walk
import Metaobject.Registry.Bootstrap

/-!
# The superclass graph

What holds of a registry between any two steps: the kernel is intact, the superclass graph has no
cycle, the subclass links are its edges turned round, and the shape that a class keeps is the one
that finalization would give it now. Then the precedence list of a class consists of the classes
that can be reached along superclasses.
-/

namespace Metaobject

def IsKernel (c : ClassId) : Prop := ∃ k : KernelClass, k.id = c

/-- What a cell holds that was made later: a placeholder, or a class with superclasses that is not
sealed. -/
def Generation.IsUser : Generation → Prop
  | .forwardReferenced _ => True
  | .standard c => c.isSealed = false ∧ c.superclasses ≠ []
  | .methodClass _ | .builtIn _ => False

namespace KernelClass

theorem id_injective {k l : KernelClass} (h : k.id = l.id) : k = l := by
  have hk := all_getElem_id k
  rw [h, all_getElem_id l] at hk
  exact (Option.some.inj hk).symm

theorem isKernel_of_lt {c : ClassId} (h : c < all.length) : IsKernel c := by
  have hall : ∀ i : Fin all.length, (all[i]).id = i := by decide
  exact ⟨all[c], hall ⟨c, h⟩⟩

theorem id_lt (k : KernelClass) : k.id < all.length :=
  (List.getElem?_eq_some_iff.mp (all_getElem_id k)).1

theorem superclasses_generation (k : KernelClass) :
    k.generation.superclasses = k.superclasses.map id := by
  cases k <;> rfl

theorem shape_generation (k : KernelClass) :
    ∃ s, k.generation.shape = some s ∧ s.precedence = k.ancestors.map id := by
  cases k <;> exact ⟨_, rfl, rfl⟩

theorem isSealed_generation (k : KernelClass) : k.generation.isSealed = true := by
  cases k <;> rfl

theorem id_superclass_lt {k s : KernelClass} (h : s ∈ k.superclasses) : s.id < k.id := by
  revert s
  cases k <;> decide

theorem mem_ancestors {k a : KernelClass} :
    a ∈ k.ancestors ↔ ∃ s ∈ k.superclasses, a ∈ s :: s.ancestors := by
  rw [ancestors_eq_keepLast, Precedence.mem_keepLast, List.mem_flatMap]

end KernelClass

namespace Registry

variable {r r' : Registry}

abbrev Inherits (r : Registry) : ClassId → ClassId → Prop := Graph.Reaches r.superclasses

/-- `a` is a subclass of `b`, direct or not, and not `b` itself unless there is a cycle. -/
abbrev Descends (r : Registry) : ClassId → ClassId → Prop :=
  Relation.TransGen fun a b => b ∈ r.superclasses a

structure WellFormed (r : Registry) : Prop where
  kernel : ∀ k : KernelClass, r.generation k.id = k.generation
  user : ∀ c, ¬IsKernel c → (r.generation c).IsUser
  acyclic : WellFounded fun s c => s ∈ r.superclasses c
  links : ∀ a b, b ∈ r.subclasses a ↔ a ∈ r.superclasses b
  nodup_links : ∀ a, (r.subclasses a).Nodup
  bound : ∀ name c, r.lookup name = some c → c < r.cells.length

/-- The class keeps the shape that finalization would give it now. -/
def Settled (r : Registry) (c : ClassId) : Prop :=
  ∀ k, r.generation c = .standard k → k.isSealed = false →
    k.shape.map Shape.outline = r.outline? c k

/-- All classes are settled but the pending ones, from which none of the others inherits. -/
structure SettledBut (r : Registry) (pending : ClassId → Prop) : Prop where
  closed : ∀ c, ¬pending c → ∀ s ∈ r.superclasses c, ¬pending s
  settled : ∀ c, ¬pending c → r.Settled c

/-- What holds between any two steps. -/
structure Invariant (r : Registry) : Prop extends WellFormed r where
  settled : ∀ c, r.Settled c

theorem Invariant.settledBut (h : r.Invariant) : r.SettledBut fun _ => False :=
  ⟨fun _ _ _ _ => id, fun c _ => h.settled c⟩

theorem generation_of_le {c : ClassId} (h : r.cells.length ≤ c) :
    r.generation c = .forwardReferenced ⟨""⟩ := by
  rw [generation, snapshot, cell_of_le r h]
  rfl

theorem superclasses_of_le {c : ClassId} (h : r.cells.length ≤ c) : r.superclasses c = [] := by
  rw [superclasses, generation_of_le h]
  rfl

theorem subclasses_of_le {c : ClassId} (h : r.cells.length ≤ c) : r.subclasses c = [] := by
  rw [subclasses, cell_of_le r h]
  rfl

theorem inherits_iff {a b : ClassId} :
    r.Inherits a b ↔ b = a ∨ ∃ s ∈ r.superclasses a, r.Inherits s b := by
  change Relation.ReflTransGen _ a b ↔ _
  rw [Relation.ReflTransGen.cases_head_iff, eq_comm]

theorem SettledBut.closed_inherits {pending : ClassId → Prop} (h : r.SettledBut pending)
    {a b : ClassId} (ha : ¬pending a) (hab : r.Inherits a b) : ¬pending b := by
  induction hab with
  | refl => exact ha
  | tail _ hs ih => exact h.closed _ ih _ hs

theorem mem_ancestry {supers : List ClassId} (hready : ∀ s ∈ supers, r.isFinalized s)
    {a : ClassId} : a ∈ r.ancestry supers ↔ ∃ s ∈ supers, a ∈ r.precedenceList s := by
  simp only [ancestry, List.mem_append, List.mem_flatten, List.mem_map, exists_exists_and_eq_and]
  constructor
  · rintro (h | h)
    · exact h
    · obtain ⟨shape, hs⟩ := isFinalized_iff.mp (hready a h)
      exact ⟨a, h, by rw [precedenceList_finalized hs]; exact List.mem_cons_self⟩
  · exact Or.inl

namespace WellFormed

theorem length_kernel (h : r.WellFormed) : KernelClass.all.length ≤ r.cells.length := by
  by_contra hlt
  have hlast : r.cells.length ≤ KernelClass.function.id :=
    Nat.le_of_lt_succ (Nat.lt_of_not_le hlt)
  have := (h.kernel .function).symm.trans (generation_of_le hlast)
  cases this

theorem kernel_lt (h : r.WellFormed) (k : KernelClass) : k.id < r.cells.length :=
  Nat.lt_of_lt_of_le k.id_lt h.length_kernel

theorem superclass_lt (h : r.WellFormed) {c s : ClassId} (hs : s ∈ r.superclasses c) :
    s < r.cells.length := by
  by_contra hle
  have := (h.links s c).mpr hs
  rw [subclasses_of_le (Nat.le_of_not_lt hle)] at this
  contradiction

theorem superclasses_kernel (h : r.WellFormed) (k : KernelClass) :
    r.superclasses k.id = k.superclasses.map KernelClass.id := by
  rw [superclasses, h.kernel, KernelClass.superclasses_generation]

theorem isKernel_superclass (h : r.WellFormed) {c s : ClassId} (hc : IsKernel c)
    (hs : s ∈ r.superclasses c) : IsKernel s := by
  obtain ⟨k, rfl⟩ := hc
  rw [h.superclasses_kernel] at hs
  obtain ⟨l, _, rfl⟩ := List.mem_map.mp hs
  exact ⟨l, rfl⟩

theorem isKernel_inherits (h : r.WellFormed) {a b : ClassId} (ha : IsKernel a)
    (hab : r.Inherits a b) : IsKernel b := by
  induction hab with
  | refl => exact ha
  | tail _ hs ih => exact h.isKernel_superclass ih hs

theorem isSealed_iff (h : r.WellFormed) {c : ClassId} : r.isSealed c = true ↔ IsKernel c := by
  constructor
  · intro hs
    by_contra hc
    have huser := h.user c hc
    rw [isSealed] at hs
    cases hg : r.generation c <;> simp_all [Generation.isSealed, Generation.IsUser]
  · rintro ⟨k, rfl⟩
    rw [isSealed, h.kernel, KernelClass.isSealed_generation]

theorem not_descends_self (h : r.WellFormed) (c : ClassId) : ¬r.Descends c c := by
  intro hc
  have hw := h.acyclic.transGen
  exact hw.irrefl.irrefl c (Relation.transGen_swap.mpr hc)

theorem shape_kernel (h : r.WellFormed) (k : KernelClass) :
    ∃ s, (r.generation k.id).shape = some s ∧ s.precedence = k.ancestors.map KernelClass.id := by
  rw [h.kernel]
  exact k.shape_generation

theorem precedenceList_kernel (h : r.WellFormed) (k : KernelClass) :
    r.precedenceList k.id = (k :: k.ancestors).map KernelClass.id := by
  obtain ⟨s, hs, hprec⟩ := h.shape_kernel k
  rw [precedenceList_finalized hs, hprec, List.map_cons]

theorem precedence_kernel (h : r.WellFormed) (k : KernelClass) :
    (∀ p ∈ r.superclasses k.id, r.isFinalized p) ∧
      ∀ a, a ∈ r.precedenceList k.id ↔
        a = k.id ∨ ∃ p ∈ r.superclasses k.id, a ∈ r.precedenceList p := by
  rw [h.superclasses_kernel]
  constructor
  · intro p hp
    obtain ⟨l, _, rfl⟩ := List.mem_map.mp hp
    obtain ⟨s, hs, _⟩ := h.shape_kernel l
    exact isFinalized_iff.mpr ⟨s, hs⟩
  · intro a
    have hancestors : a ∈ k.ancestors.map KernelClass.id ↔
        ∃ l ∈ k.superclasses, a ∈ r.precedenceList l.id := by
      simp only [List.mem_map, h.precedenceList_kernel]
      constructor
      · rintro ⟨b, hb, rfl⟩
        obtain ⟨l, hl, hbl⟩ := KernelClass.mem_ancestors.mp hb
        exact ⟨l, hl, b, hbl, rfl⟩
      · rintro ⟨l, hl, b, hbl, rfl⟩
        exact ⟨b, KernelClass.mem_ancestors.mpr ⟨l, hl, hbl⟩, rfl⟩
    rw [h.precedenceList_kernel, List.map_cons, List.mem_cons, hancestors]
    simp only [List.mem_map, exists_exists_and_eq_and]

theorem precedence_superclasses (h : r.WellFormed) {c : ClassId} (hc : r.Settled c) {s : Shape}
    (hs : (r.generation c).shape = some s) :
    (∀ p ∈ r.superclasses c, r.isFinalized p) ∧
      ∀ a, a ∈ r.precedenceList c ↔ a = c ∨ ∃ p ∈ r.superclasses c, a ∈ r.precedenceList p := by
  by_cases hk : IsKernel c
  · obtain ⟨k, rfl⟩ := hk
    exact h.precedence_kernel k
  · have huser := h.user c hk
    rw [precedenceList_finalized hs]
    cases hg : r.generation c with
    | forwardReferenced name => rw [hg] at hs; contradiction
    | methodClass k => rw [hg] at huser; contradiction
    | builtIn k => rw [hg] at huser; contradiction
    | standard k =>
      rw [hg] at hs huser
      have hout : r.outline? c k = some s.outline := by
        rw [← hc k hg huser.1]
        exact congrArg (Option.map Shape.outline) hs
      have hfits := fits_of_outline? hout
      have hsupers : r.superclasses c = k.superclasses := by rw [superclasses, hg]; rfl
      rw [hsupers]
      refine ⟨hfits.ready, fun a => ?_⟩
      rw [← mem_ancestry hfits.ready]
      exact hfits.mem a

/-- The precedence list consists of the class and of what it inherits from. A finalized class has
it from its superclasses; before that it is a walk. -/
theorem mem_precedenceList (h : r.WellFormed) {pending : ClassId → Prop}
    (hsettled : r.SettledBut pending) {c a : ClassId} (hc : ¬pending c) :
    a ∈ r.precedenceList c ↔ r.Inherits c a := by
  induction c using h.acyclic.induction generalizing a with
  | _ c ih =>
    cases hs : (r.generation c).shape with
    | none =>
      rw [precedenceList, hs, Graph.mem_preorder fun b hb => superclasses_of_le hb]
      simp
    | some s =>
      obtain ⟨_, hmem⟩ := h.precedence_superclasses (hsettled.settled c hc) hs
      rw [hmem, inherits_iff]
      apply or_congr_right
      apply exists_congr
      intro p
      apply and_congr_right
      intro hp
      exact ih p hp (hsettled.closed c hc p hp)

theorem mem_ancestry_iff (h : r.WellFormed) {pending : ClassId → Prop}
    (hsettled : r.SettledBut pending) {supers : List ClassId} (hsupers : ∀ s ∈ supers, ¬pending s)
    (hready : ∀ s ∈ supers, r.isFinalized s) {a : ClassId} :
    a ∈ r.ancestry supers ↔ ∃ s ∈ supers, r.Inherits s a := by
  rw [mem_ancestry hready]
  apply exists_congr
  intro s
  apply and_congr_right
  intro hs
  exact h.mem_precedenceList hsettled (hsupers s hs)

theorem settled_transfer (h : r.WellFormed) {pending : ClassId → Prop}
    (hsettled : r.SettledBut pending) {c : ClassId} (hc : ¬pending c)
    (hlimits : r'.limits = r.limits) (hgen : r'.generation c = r.generation c)
    (hsame : ∀ s ∈ r.superclasses c, ∀ a, r.Inherits s a →
      (r'.generation a).shape = (r.generation a).shape ∧ r'.slots a = r.slots a) :
    r'.Settled c := by
  intro k hk hsealed
  rw [hgen] at hk
  have hsupers : r.superclasses c = k.superclasses := by rw [superclasses, hk]; rfl
  rw [hsettled.settled c hc k hk hsealed]
  symm
  apply outline?_congr hlimits rfl rfl rfl
  · intro s hs
    exact (hsame s (hsupers ▸ hs) s .refl).1
  · intro hready a ha
    have hclosed := hsettled.closed c hc
    rw [hsupers] at hclosed hsame
    obtain ⟨s, hs, hsa⟩ := (h.mem_ancestry_iff hsettled hclosed hready).mp ha
    exact (hsame s hs a hsa).2

theorem frame (h : r.WellFormed)
    (hkernel : ∀ k : KernelClass, r'.generation k.id = r.generation k.id)
    (huser : ∀ c, (r.generation c).IsUser → (r'.generation c).IsUser)
    (hsupers : ∀ c, r'.superclasses c = r.superclasses c)
    (hsubs : ∀ c, r'.subclasses c = r.subclasses c)
    (hbound : ∀ name c, r'.lookup name = some c → c < r'.cells.length) : r'.WellFormed where
  kernel k := (hkernel k).trans (h.kernel k)
  user c hc := huser c (h.user c hc)
  acyclic := by simpa only [hsupers] using h.acyclic
  links a b := by rw [hsubs, hsupers, h.links]
  nodup_links a := hsubs a ▸ h.nodup_links a
  bound := hbound

end WellFormed

theorem Invariant.mem_precedenceList (h : r.Invariant) {c a : ClassId} :
    a ∈ r.precedenceList c ↔ r.Inherits c a :=
  h.toWellFormed.mem_precedenceList h.settledBut fun hpending => hpending

theorem Invariant.isSubclass_iff (h : r.Invariant) {a b : ClassId} :
    r.isSubclass a b ↔ r.Inherits a b := by
  rw [isSubclass, decide_eq_true_iff, h.mem_precedenceList]

end Registry

end Metaobject
