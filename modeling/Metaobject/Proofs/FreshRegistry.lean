import Metaobject.Proofs.Installation
import Metaobject.Proofs.Tables

/-!
# Fresh registries

The kernel classes are entered in the order of their numbers. What holds of the classes that were
entered so far is kept by each that follows, so that in the end it holds of all of them: each is in
the cell of its number, and among the subclasses of just those classes that it names as superclasses.
-/

namespace Metaobject

namespace KernelClass

theorem name_injective {k l : KernelClass} (h : k.name = l.name) : k = l := by
  revert h
  cases k <;> cases l <;> decide

theorem nodup_all : all.Nodup := by decide

theorem mem_all (k : KernelClass) : k ∈ all := List.mem_of_getElem? (all_getElem_id k)

theorem id_eq_length {k : KernelClass} {before after : List KernelClass}
    (h : all = before ++ k :: after) : k.id = before.length := by
  have hplace : all[before.length]? = some k := by simp [h]
  obtain ⟨hlt, hk⟩ := List.getElem?_eq_some_iff.mp hplace
  obtain ⟨_, hid⟩ := List.getElem?_eq_some_iff.mp (all_getElem_id k)
  exact nodup_all.getElem_inj_iff.mp (hid.trans hk.symm)

end KernelClass

namespace Registry

variable {r : Registry} {limits : Limits} {name : Symbol} {k : KernelClass} {ks : List KernelClass}
  {a b c : ClassId}

/-- A registry that holds these kernel classes and nothing else, each linked to its superclasses. -/
structure HoldsKernel (limits : Limits) (ks : List KernelClass) (r : Registry) : Prop where
  limits : r.limits = limits
  length : r.cells.length = ks.length
  nextStamp : r.nextStamp = ks.length
  id_lt : ∀ k ∈ ks, k.id < ks.length
  snapshot : ∀ k ∈ ks, r.snapshot k.id = ⟨k.id, k.generation⟩
  built : ∀ k ∈ ks, r.built k.id = 0
  links : ∀ a b, b ∈ r.subclasses a ↔
    ∃ k l : KernelClass, l ∈ ks ∧ k.id = a ∧ l.id = b ∧ k ∈ l.superclasses
  nodup_links : ∀ a, (r.subclasses a).Nodup

theorem enterKernel_eq (r : Registry) (k : KernelClass) :
    r.enterKernel k = (k.superclasses.map KernelClass.id).foldl
      (fun next super => next.link r.cells.length super) (r.addCell k.generation).2 := rfl

theorem nextStamp_foldl_link (r : Registry) (self : ClassId) (supers : List ClassId) :
    (supers.foldl (fun r super => r.link self super) r).nextStamp = r.nextStamp := by
  induction supers generalizing r with
  | nil => rfl
  | cons super rest ih => exact ih (r.link self super)

section Bootstrap

theorem holdsKernel_nil (limits : Limits) :
    HoldsKernel limits [] ⟨limits, [], Table.empty, 0⟩ where
  limits := rfl
  length := rfl
  nextStamp := rfl
  id_lt _ hk := absurd hk List.not_mem_nil
  snapshot _ hk := absurd hk List.not_mem_nil
  built _ hk := absurd hk List.not_mem_nil
  links a b := by
    rw [subclasses_of_le (Nat.zero_le a)]
    simp
  nodup_links a := by
    rw [subclasses_of_le (Nat.zero_le a)]
    exact List.nodup_nil

/-- The next class takes the next cell, and the cells before it stay as they are. -/
theorem HoldsKernel.addCell {l : KernelClass} (h : r.HoldsKernel limits ks) (hk : k.id = ks.length)
    (hl : l ∈ ks ++ [k]) : (r.addCell k.generation).2.snapshot l.id = ⟨l.id, l.generation⟩ ∧
      (r.addCell k.generation).2.built l.id = 0 := by
  obtain hold | hnew := List.mem_append.mp hl
  · have hcell : (r.addCell k.generation).2.cell l.id = r.cell l.id := by
      apply cell_addCell_of_lt
      rw [h.length]
      exact h.id_lt l hold
    exact ⟨(congrArg Cell.current hcell).trans (h.snapshot l hold),
      (congrArg Cell.built hcell).trans (h.built l hold)⟩
  · cases List.mem_singleton.mp hnew
    have hcell : (r.addCell k.generation).2.cell k.id = ⟨⟨k.id, k.generation⟩, 0, []⟩ := by
      rw [hk, ← h.length, cell_addCell_new, h.nextStamp, h.length]
    exact ⟨congrArg Cell.current hcell, congrArg Cell.built hcell⟩

theorem HoldsKernel.enterKernel (h : r.HoldsKernel limits ks) (hk : k.id = ks.length) :
    (r.enterKernel k).HoldsKernel limits (ks ++ [k]) := by
  have hself : r.cells.length = k.id := h.length.trans hk.symm
  have hsupers : ∀ s ∈ k.superclasses.map KernelClass.id,
      s < (r.addCell k.generation).2.cells.length := by
    intro s hs
    obtain ⟨l, hl, rfl⟩ := List.mem_map.mp hs
    rw [length_addCell, hself]
    exact Nat.lt_succ_of_lt (KernelClass.id_superclass_lt hl)
  obtain ⟨hsame, hlinks, hnodup⟩ :=
    foldl_link (r.addCell k.generation).2 r.cells.length _ hsupers
  constructor
  · exact hsame.limits.trans h.limits
  · rw [enterKernel_eq, hsame.length, length_addCell, h.length, List.length_append]
    rfl
  · rw [enterKernel_eq, nextStamp_foldl_link, List.length_append, ← h.nextStamp]
    rfl
  · intro l hl
    rw [List.length_append]
    obtain hl | hl := List.mem_append.mp hl
    · exact Nat.lt_succ_of_lt (h.id_lt l hl)
    · rw [List.mem_singleton.mp hl, hk]
      exact Nat.lt_succ_self _
  · intro l hl
    exact (hsame.snapshot l.id).trans (h.addCell hk hl).1
  · intro l hl
    exact (hsame.built l.id).trans (h.addCell hk hl).2
  · intro a b
    rw [enterKernel_eq, hlinks, subclasses_addCell, h.links, hself, List.mem_map]
    constructor
    · rintro (⟨s, l, hl, hs, hb, hmem⟩ | ⟨⟨s, hs, rfl⟩, rfl⟩)
      · exact ⟨s, l, List.mem_append_left _ hl, hs, hb, hmem⟩
      · exact ⟨s, k, List.mem_append_right _ List.mem_cons_self, rfl, rfl, hs⟩
    · rintro ⟨s, l, hl, rfl, rfl, hmem⟩
      obtain hl | hl := List.mem_append.mp hl
      · exact .inl ⟨s, l, hl, rfl, rfl, hmem⟩
      · cases List.mem_singleton.mp hl
        exact .inr ⟨⟨s, hmem, rfl⟩, rfl⟩
  · apply hnodup
    intro a
    rw [subclasses_addCell]
    exact h.nodup_links a

theorem HoldsKernel.foldl_enterKernel {rest : List KernelClass} (h : r.HoldsKernel limits ks)
    (hall : KernelClass.all = ks ++ rest) :
    (rest.foldl Registry.enterKernel r).HoldsKernel limits KernelClass.all := by
  induction rest generalizing r ks with
  | nil =>
    rw [hall, List.append_nil]
    exact h
  | cons k rest ih =>
    apply ih (h.enterKernel (KernelClass.id_eq_length hall))
    rw [hall, List.append_assoc]
    rfl

theorem HoldsKernel.withBindings (h : r.HoldsKernel limits ks) (t : Table Symbol ClassId) :
    HoldsKernel limits ks { r with bindings := t } :=
  ⟨h.limits, h.length, h.nextStamp, h.id_lt, h.snapshot, h.built, h.links, h.nodup_links⟩

theorem holdsKernel_bootstrap (limits : Limits) :
    (bootstrap limits).HoldsKernel limits KernelClass.all :=
  (holdsKernel_nil limits).foldl_enterKernel rfl

theorem holdsKernel_fresh (limits : Limits) : (fresh limits).HoldsKernel limits KernelClass.all :=
  (holdsKernel_bootstrap limits).withBindings _

end Bootstrap

section Fresh

theorem limits_fresh (limits : Limits) : (fresh limits).limits = limits :=
  (holdsKernel_fresh limits).limits

theorem length_fresh (limits : Limits) : (fresh limits).cells.length = KernelClass.all.length :=
  (holdsKernel_fresh limits).length

theorem nextStamp_fresh (limits : Limits) : (fresh limits).nextStamp = KernelClass.all.length :=
  (holdsKernel_fresh limits).nextStamp

theorem snapshot_fresh (limits : Limits) (k : KernelClass) :
    (fresh limits).snapshot k.id = ⟨k.id, k.generation⟩ :=
  (holdsKernel_fresh limits).snapshot k k.mem_all

theorem generation_fresh (limits : Limits) (k : KernelClass) :
    (fresh limits).generation k.id = k.generation :=
  congrArg Snapshot.generation (snapshot_fresh limits k)

theorem built_fresh (limits : Limits) (k : KernelClass) : (fresh limits).built k.id = 0 :=
  (holdsKernel_fresh limits).built k k.mem_all

theorem length_fresh_le {c : ClassId} (h : ¬IsKernel c) : (fresh limits).cells.length ≤ c := by
  rw [length_fresh]
  exact Nat.le_of_not_lt fun hlt => h (KernelClass.isKernel_of_lt hlt)

theorem mem_superclasses_fresh :
    a ∈ (fresh limits).superclasses b ↔
      ∃ k l : KernelClass, k.id = a ∧ l.id = b ∧ k ∈ l.superclasses := by
  constructor
  · intro h
    by_cases hb : IsKernel b
    · obtain ⟨l, rfl⟩ := hb
      rw [superclasses, generation_fresh, KernelClass.superclasses_generation] at h
      obtain ⟨k, hk, rfl⟩ := List.mem_map.mp h
      exact ⟨k, l, rfl, rfl, hk⟩
    · rw [superclasses_of_le (length_fresh_le hb)] at h
      contradiction
  · rintro ⟨k, l, rfl, rfl, hk⟩
    rw [superclasses, generation_fresh, KernelClass.superclasses_generation]
    exact List.mem_map_of_mem hk

theorem mem_subclasses_fresh :
    b ∈ (fresh limits).subclasses a ↔
      ∃ k l : KernelClass, k.id = a ∧ l.id = b ∧ k ∈ l.superclasses := by
  simp only [(holdsKernel_fresh limits).links, KernelClass.mem_all, true_and]

theorem nodup_subclasses_fresh (limits : Limits) (a : ClassId) :
    ((fresh limits).subclasses a).Nodup :=
  (holdsKernel_fresh limits).nodup_links a

theorem lookup_fresh :
    (fresh limits).lookup name = some c ↔ ∃ k : KernelClass, k.name = name ∧ k.id = c := by
  have hkeys : ((KernelClass.all.map fun k => (k.name, k.id)).map Prod.fst).Nodup := by
    rw [List.map_map]
    exact KernelClass.nodup_all.map fun _ _ => KernelClass.name_injective
  refine (Table.find?_ofList hkeys).trans ?_
  simp [KernelClass.mem_all]

end Fresh

end Registry

end Metaobject
