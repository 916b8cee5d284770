import Metaobject.Proofs.Admission
import Metaobject.Proofs.Hierarchy

/-!
# Placeholders and declarations

The names that a definition uses and that are missing get placeholders, and the class that is defined
gets a cell. The classes that were there keep theirs, and the superclass graph does not change.
-/

namespace Metaobject

def ClassDefinition.classWith (d : ClassDefinition) (supers : List ClassId) : StandardClass :=
  ⟨some d.name, .other KernelClass.standardClass.id, supers, d.slots, none, d.documentation, false⟩

namespace Generation

variable {g g' : Generation}

/-- The generations are the same, or both are placeholders. -/
def Alike (g g' : Generation) : Prop :=
  g' = g ∨ ∃ n n', g = .forwardReferenced n ∧ g' = .forwardReferenced n'

theorem Alike.part {α : Type} (h : g.Alike g') (f : Generation → α)
    (hf : ∀ n n', f (.forwardReferenced n) = f (.forwardReferenced n')) : f g' = f g := by
  rcases h with rfl | ⟨n, n', rfl, rfl⟩
  · rfl
  · exact hf n' n

theorem Alike.eq_of_standard {k : StandardClass} (h : g.Alike g') (hk : g' = .standard k) :
    g' = g := by
  rcases h with h | ⟨n, n', _, rfl⟩
  · exact h
  · contradiction

end Generation

namespace Registry

variable {r r' r'' : Registry} {names names' : List Symbol} {name : Symbol} {d : ClassDefinition}

/-- The classes are the same, up to placeholders. -/
structure Alike (r r' : Registry) : Prop where
  limits : r'.limits = r.limits
  generation : ∀ c, (r.generation c).Alike (r'.generation c)
  subclasses : ∀ c, r'.subclasses c = r.subclasses c

namespace Alike

theorem superclasses (h : r.Alike r') (c : ClassId) : r'.superclasses c = r.superclasses c :=
  (h.generation c).part Generation.superclasses fun _ _ => rfl

theorem shape (h : r.Alike r') (c : ClassId) :
    (r'.generation c).shape = (r.generation c).shape :=
  (h.generation c).part Generation.shape fun _ _ => rfl

theorem slots (h : r.Alike r') (c : ClassId) : r'.slots c = r.slots c :=
  (h.generation c).part Generation.slots fun _ _ => rfl

theorem wellFormed (h : r.Alike r') (hr : r.WellFormed)
    (hbound : ∀ n c, r'.lookup n = some c → c < r'.cells.length) : r'.WellFormed := by
  refine hr.frame ?_ ?_ h.superclasses h.subclasses hbound
  · intro k
    rcases h.generation k.id with heq | ⟨n, _, hn, _⟩
    · exact heq
    · have hsealed := k.isSealed_generation
      rw [← hr.kernel, hn] at hsealed
      contradiction
  · intro c hc
    rcases h.generation c with heq | ⟨_, _, _, hn'⟩
    · rwa [heq]
    · rw [hn']
      trivial

theorem invariant (h : r.Alike r') (hr : r.Invariant)
    (hbound : ∀ n c, r'.lookup n = some c → c < r'.cells.length) : r'.Invariant where
  toWellFormed := h.wellFormed hr.toWellFormed hbound
  settled c := by
    intro k hk
    exact hr.settled_transfer hr.settledBut (fun h => h) h.limits
      ((h.generation c).eq_of_standard hk) (fun _ _ a _ => ⟨h.shape a, h.slots a⟩) k hk

end Alike

/-- Some names that were missing got placeholders, and nothing else changed. -/
structure Grown (r r' : Registry) (names : List Symbol) : Prop where
  limits : r'.limits = r.limits
  length : r.cells.length ≤ r'.cells.length
  cell : ∀ c, c < r.cells.length → r'.cell c = r.cell c
  lookup : ∀ n, r'.lookup n = r.lookup n ∨ n ∈ names ∧ r.lookup n = none ∧
    ∃ c, r'.lookup n = some c ∧ r.cells.length ≤ c ∧ c < r'.cells.length ∧
      r'.generation c = .forwardReferenced n
  placeholder : ∀ c, r.cells.length ≤ c → c < r'.cells.length →
    ∃ n ∈ names, r.lookup n = none ∧ r'.lookup n = some c ∧ r'.generation c = .forwardReferenced n
  subclasses : ∀ c, r.cells.length ≤ c → r'.subclasses c = []

theorem generation_addPlaceholder_new :
    (r.addPlaceholder name).2.generation r.cells.length = .forwardReferenced name :=
  congrArg (fun x => x.current.generation) (cell_addCell_new r (.forwardReferenced name))

theorem length_addPlaceholder : (r.addPlaceholder name).2.cells.length = r.cells.length + 1 :=
  length_addCell r (.forwardReferenced name)

theorem cell_addPlaceholder_of_lt {c : ClassId} (h : c < r.cells.length) :
    (r.addPlaceholder name).2.cell c = r.cell c :=
  cell_addCell_of_lt r (.forwardReferenced name) h

theorem subclasses_addCell_of_le {g : Generation} {c : ClassId} (h : r.cells.length ≤ c) :
    (r.addCell g).2.subclasses c = [] := by
  rcases Nat.eq_or_lt_of_le h with rfl | hlt
  · exact congrArg Cell.subclasses (cell_addCell_new r g)
  · apply subclasses_of_le
    rw [length_addCell]
    exact hlt

theorem subclasses_addCell (r : Registry) (g : Generation) (c : ClassId) :
    (r.addCell g).2.subclasses c = r.subclasses c := by
  by_cases hlt : c < r.cells.length
  · exact congrArg Cell.subclasses (cell_addCell_of_lt r g hlt)
  · have hle := Nat.le_of_not_lt hlt
    rw [subclasses_of_le hle]
    exact subclasses_addCell_of_le hle

theorem lookup_addPlaceholder {n : Symbol} :
    (r.addPlaceholder name).2.lookup n = if name = n then some r.cells.length else r.lookup n :=
  lookup_bind (r.addCell (.forwardReferenced name)).2 r.cells.length

namespace Grown

theorem refl (r : Registry) (names : List Symbol) : r.Grown r names where
  limits := rfl
  length := Nat.le_refl _
  cell _ _ := rfl
  lookup _ := Or.inl rfl
  placeholder _ hle hlt := absurd hlt (Nat.not_lt.mpr hle)
  subclasses _ hle := subclasses_of_le hle

theorem lookup_of_some (h : r.Grown r' names) {n : Symbol} {c : ClassId}
    (hn : r.lookup n = some c) : r'.lookup n = some c := by
  rcases h.lookup n with heq | ⟨_, hnone, _⟩
  · rw [heq, hn]
  · rw [hn] at hnone
    contradiction

theorem generation (h : r.Grown r' names) {c : ClassId} (hc : c < r.cells.length) :
    r'.generation c = r.generation c :=
  generation_of_cell (h.cell c hc)

theorem trans (h : r.Grown r' names) (h' : r'.Grown r'' names') :
    r.Grown r'' (names ++ names') where
  limits := h'.limits.trans h.limits
  length := Nat.le_trans h.length h'.length
  cell c hc := (h'.cell c (Nat.lt_of_lt_of_le hc h.length)).trans (h.cell c hc)
  lookup n := by
    rcases h'.lookup n with heq' | ⟨hmem', hnone', c, hc, hle, hlt, hgen⟩
    · rcases h.lookup n with heq | ⟨hmem, hnone, c, hc, hle, hlt, hgen⟩
      · exact Or.inl (heq'.trans heq)
      · refine Or.inr ⟨List.mem_append_left _ hmem, hnone, c, heq'.trans hc, hle, ?_, ?_⟩
        · exact Nat.lt_of_lt_of_le hlt h'.length
        · exact (h'.generation hlt).trans hgen
    · rcases h.lookup n with heq | ⟨_, _, _, hc', _⟩
      · exact Or.inr ⟨List.mem_append_right _ hmem', heq ▸ hnone', c, hc,
          Nat.le_trans h.length hle, hlt, hgen⟩
      · rw [hc'] at hnone'
        contradiction
  placeholder c hle hlt := by
    by_cases hlt' : c < r'.cells.length
    · obtain ⟨n, hmem, hnone, hc, hgen⟩ := h.placeholder c hle hlt'
      exact ⟨n, List.mem_append_left _ hmem, hnone, h'.lookup_of_some hc,
        (h'.generation hlt').trans hgen⟩
    · obtain ⟨n, hmem, hnone, hc, hgen⟩ := h'.placeholder c (Nat.le_of_not_lt hlt') hlt
      refine ⟨n, List.mem_append_right _ hmem, ?_, hc, hgen⟩
      cases hn : r.lookup n with
      | none => rfl
      | some a =>
        rw [h.lookup_of_some hn] at hnone
        contradiction
  subclasses c hle := by
    by_cases hlt : c < r'.cells.length
    · have := h.subclasses c hle
      rwa [Registry.subclasses, ← h'.cell c hlt] at this
    · exact h'.subclasses c (Nat.le_of_not_lt hlt)

theorem alike (h : r.Grown r' names) : r.Alike r' where
  limits := h.limits
  generation c := by
    by_cases hc : c < r.cells.length
    · exact Or.inl (h.generation hc)
    · have hle := Nat.le_of_not_lt hc
      by_cases hc' : c < r'.cells.length
      · obtain ⟨n, _, _, _, hgen⟩ := h.placeholder c hle hc'
        exact Or.inr ⟨_, n, generation_of_le hle, hgen⟩
      · exact Or.inr ⟨_, _, generation_of_le hle, generation_of_le (Nat.le_of_not_lt hc')⟩
  subclasses c := by
    by_cases hc : c < r.cells.length
    · exact congrArg Cell.subclasses (h.cell c hc)
    · have hle := Nat.le_of_not_lt hc
      rw [h.subclasses c hle, subclasses_of_le hle]

theorem bound (h : r.Grown r' names) (hr : ∀ n c, r.lookup n = some c → c < r.cells.length)
    {n : Symbol} {c : ClassId} (hn : r'.lookup n = some c) : c < r'.cells.length := by
  rcases h.lookup n with heq | ⟨_, _, a, ha, _, hlt, _⟩
  · rw [heq] at hn
    exact Nat.lt_of_lt_of_le (hr n c hn) h.length
  · cases ha.symm.trans hn
    exact hlt

end Grown

theorem grown_addPlaceholder (hnone : r.lookup name = none) :
    r.Grown (r.addPlaceholder name).2 [name] where
  limits := rfl
  length := by
    rw [length_addPlaceholder]
    exact Nat.le_succ _
  cell _ hc := cell_addPlaceholder_of_lt hc
  lookup n := by
    rw [lookup_addPlaceholder]
    split
    · rename_i hn
      subst hn
      refine Or.inr ⟨List.mem_singleton_self _, hnone, _, rfl, Nat.le_refl _, ?_,
        generation_addPlaceholder_new⟩
      rw [length_addPlaceholder]
      exact Nat.lt_succ_self _
    · exact Or.inl rfl
  placeholder c hle hlt := by
    rw [length_addPlaceholder] at hlt
    cases Nat.le_antisymm hle (Nat.le_of_lt_succ hlt)
    refine ⟨name, List.mem_singleton_self _, hnone, ?_, generation_addPlaceholder_new⟩
    rw [lookup_addPlaceholder, if_pos rfl]
  subclasses _ hle := subclasses_addCell_of_le hle

theorem grown_resolve (r : Registry) (name : Symbol) :
    r.Grown (r.resolve name).2 [name] ∧
      (r.resolve name).2.lookup name = some (r.resolve name).1 := by
  unfold resolve
  split
  · rename_i c hc
    exact ⟨.refl r _, hc⟩
  · rename_i hnone
    refine ⟨grown_addPlaceholder hnone, ?_⟩
    rw [lookup_addPlaceholder, if_pos rfl]
    rfl

theorem grown_resolveAll (r : Registry) (names : List Symbol) :
    r.Grown (r.resolveAll names).2 names ∧
      names.map (r.resolveAll names).2.lookup = (r.resolveAll names).1.map some := by
  induction names generalizing r with
  | nil => exact ⟨.refl r _, rfl⟩
  | cons name rest ih =>
    obtain ⟨hstep, hname⟩ := grown_resolve r name
    obtain ⟨hrest, hall⟩ := ih (r.resolve name).2
    refine ⟨hstep.trans hrest, ?_⟩
    exact congrArg₂ List.cons (hrest.lookup_of_some hname) hall

/-- The direct superclasses of a class that is defined: those that are named, or the most general
class with slots. -/
def NamesSuperclasses (r : Registry) (names : List Symbol) (supers : List ClassId) : Prop :=
  if names = [] then supers = [KernelClass.standardObject.id] else names.map r.lookup = supers.map some

theorem grown_declaredSuperclasses (r : Registry) (d : ClassDefinition) :
    r.Grown (r.declaredSuperclasses d).2 d.superclasses ∧
      (r.declaredSuperclasses d).2.NamesSuperclasses d.superclasses (r.declaredSuperclasses d).1 := by
  unfold declaredSuperclasses NamesSuperclasses
  by_cases h : d.superclasses = []
  · rw [if_pos (List.isEmpty_iff.mpr h), if_pos h]
    exact ⟨.refl r _, rfl⟩
  · rw [if_neg (fun h' => h (List.isEmpty_iff.mp h')), if_neg h]
    exact grown_resolveAll r d.superclasses

/-- What a declaration leaves: the class has a cell, its superclasses have one, and nothing else
changed. -/
structure Declared (r : Registry) (d : ClassDefinition) (root : ClassId) (k : StandardClass)
    (next : Registry) : Prop where
  limits : next.limits = r.limits
  length : r.cells.length ≤ next.cells.length
  cell : ∀ a, a < r.cells.length → next.cell a = r.cell a
  root_lt : root < next.cells.length
  root_eq : ∀ a, r.lookup d.name = some a → a = root
  root_new : r.lookup d.name = none → r.cells.length ≤ root
  lookup_root : next.lookup d.name = some root
  lookup : ∀ n, n ≠ d.name → next.lookup n = r.lookup n ∨ n ∈ d.superclasses ∧ r.lookup n = none ∧
    ∃ a, next.lookup n = some a ∧ a ≠ root ∧ r.cells.length ≤ a ∧ a < next.cells.length ∧
      next.generation a = .forwardReferenced n
  placeholder : ∀ a, r.cells.length ≤ a → a < next.cells.length → a ≠ root →
    ∃ n ∈ d.superclasses, r.lookup n = none ∧ next.lookup n = some a ∧
      next.generation a = .forwardReferenced n
  subclasses : ∀ a, r.cells.length ≤ a → next.subclasses a = []
  superclasses : next.NamesSuperclasses d.superclasses k.superclasses
  eq_classWith : k = d.classWith k.superclasses

theorem NamesSuperclasses.congr {supers : List ClassId}
    (h : r.NamesSuperclasses names supers) (hsame : ∀ n ∈ names, r'.lookup n = r.lookup n) :
    r'.NamesSuperclasses names supers := by
  unfold NamesSuperclasses at h ⊢
  rwa [List.map_congr_left hsame]

theorem declared_of_some (hbound : ∀ n c, r.lookup n = some c → c < r.cells.length)
    {root : ClassId} {supers : List ClassId} (hroot : r.lookup d.name = some root)
    (h : r.Grown r' d.superclasses)
    (hsupers : r'.NamesSuperclasses d.superclasses supers) :
    r.Declared d root (d.classWith supers) r' where
  limits := h.limits
  length := h.length
  cell := h.cell
  root_lt := h.bound hbound (h.lookup_of_some hroot)
  root_eq a ha := Option.some.inj (ha.symm.trans hroot)
  root_new hnone := by rw [hroot] at hnone; contradiction
  lookup_root := h.lookup_of_some hroot
  lookup n _ := by
    rcases h.lookup n with heq | ⟨hn, hnone, a, ha, hle, hrest⟩
    · exact Or.inl heq
    · refine Or.inr ⟨hn, hnone, a, ha, ?_, hle, hrest⟩
      exact Ne.symm (Nat.ne_of_lt (Nat.lt_of_lt_of_le (hbound _ _ hroot) hle))
  placeholder a hle hlt _ := h.placeholder a hle hlt
  subclasses := h.subclasses
  superclasses := hsupers
  eq_classWith := rfl

theorem length_addCell_bind (r : Registry) (g : Generation) (n : Symbol) (c : ClassId) :
    ((r.addCell g).2.bind n c).cells.length = r.cells.length + 1 :=
  length_addCell r g

theorem declared_of_none (hmem : d.name ∉ d.superclasses) {supers : List ClassId} {g : Generation}
    (hnone : r.lookup d.name = none) (h : r.Grown r' d.superclasses)
    (hsupers : r'.NamesSuperclasses d.superclasses supers) :
    r.Declared d r'.cells.length (d.classWith supers)
      ((r'.addCell g).2.bind d.name r'.cells.length) where
  limits := h.limits
  length := by
    rw [length_addCell_bind]
    exact Nat.le_succ_of_le h.length
  cell a ha := (cell_addCell_of_lt r' g (Nat.lt_of_lt_of_le ha h.length)).trans (h.cell a ha)
  root_lt := by
    rw [length_addCell_bind]
    exact Nat.lt_succ_self _
  root_eq a ha := by rw [hnone] at ha; contradiction
  root_new _ := h.length
  lookup_root := by rw [lookup_bind, if_pos rfl]
  lookup n hne := by
    rw [lookup_bind, if_neg (Ne.symm hne)]
    rcases h.lookup n with heq | ⟨hn, hnone, a, ha, hle, hlt, hgen⟩
    · exact Or.inl heq
    · refine Or.inr ⟨hn, hnone, a, ha, Nat.ne_of_lt hlt, hle, ?_, ?_⟩
      · rw [length_addCell_bind]
        exact Nat.lt_succ_of_lt hlt
      · exact (generation_of_cell (cell_addCell_of_lt r' g hlt)).trans hgen
  placeholder a hle hlt hne := by
    have hlt' : a < r'.cells.length := by
      rw [length_addCell_bind] at hlt
      exact Nat.lt_of_le_of_ne (Nat.le_of_lt_succ hlt) hne
    obtain ⟨n, hn, hnone', ha, hgen⟩ := h.placeholder a hle hlt'
    refine ⟨n, hn, hnone', ?_, ?_⟩
    · have hne' : d.name ≠ n := fun h => hmem (h ▸ hn)
      rw [lookup_bind, if_neg hne']
      exact ha
    · exact (generation_of_cell (cell_addCell_of_lt r' g hlt')).trans hgen
  subclasses a hle := by
    by_cases hlt : a < r'.cells.length
    · exact (congrArg Cell.subclasses (cell_addCell_of_lt r' g hlt)).trans (h.subclasses a hle)
    · exact subclasses_addCell_of_le (Nat.le_of_not_lt hlt)
  superclasses := hsupers.congr fun n hn => by
    have hne : d.name ≠ n := fun h => hmem (h ▸ hn)
    rw [lookup_bind, if_neg hne]
    rfl
  eq_classWith := rfl

theorem declared_declare (hmem : d.name ∉ d.superclasses)
    (hbound : ∀ n c, r.lookup n = some c → c < r.cells.length) :
    r.Declared d (r.declare d).1 (r.declare d).2.1 (r.declare d).2.2 := by
  obtain ⟨h, hsupers⟩ := grown_declaredSuperclasses r d
  have hdeclare : r.declare d =
      let supers := (r.declaredSuperclasses d).1
      let cell := (r.declaredSuperclasses d).2.cellFor d.name (d.classWith supers)
      (cell.1, d.classWith supers, cell.2) := rfl
  rw [hdeclare]
  dsimp only [cellFor]
  cases hroot : r.lookup d.name with
  | some root =>
    rw [h.lookup_of_some hroot]
    exact declared_of_some hbound hroot h hsupers
  | none =>
    have hnone : (r.declaredSuperclasses d).2.lookup d.name = none := by
      rcases h.lookup d.name with heq | ⟨hn, _⟩
      · rw [heq, hroot]
      · exact absurd hn hmem
    rw [hnone]
    exact declared_of_none hmem hroot h hsupers

end Registry

end Metaobject
