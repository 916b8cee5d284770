import Metaobject.Registry
import Mathlib.Data.List.Nodup

/-!
# Cells of a registry

What each change of a registry does to the cells, and what it leaves alone.
-/

namespace Metaobject.Registry

variable (r : Registry) (c d super : ClassId)

theorem cell_of_le {c : ClassId} (h : r.cells.length ≤ c) : r.cell c = Cell.vacant := by
  rw [cell, List.getElem?_eq_none h, Option.getD_none]

theorem generation_of_cell {r r' : Registry} {c d : ClassId} (h : r'.cell c = r.cell d) :
    r'.generation c = r.generation d :=
  congrArg (fun x => x.current.generation) h

section Modification

variable (f : Cell → Cell)

@[simp] theorem limits_modifyCell : (r.modifyCell c f).limits = r.limits := rfl

@[simp] theorem lookup_modifyCell : (r.modifyCell c f).lookup = r.lookup := rfl

@[simp] theorem length_modifyCell : (r.modifyCell c f).cells.length = r.cells.length :=
  List.length_modify ..

theorem cell_modifyCell_of_ne {c d : ClassId} (h : d ≠ c) :
    (r.modifyCell c f).cell d = r.cell d := by
  rw [cell, modifyCell, List.getElem?_modify_ne _ _ (Ne.symm h), cell]

theorem cell_modifyCell_self {c : ClassId} (h : c < r.cells.length) :
    (r.modifyCell c f).cell c = f (r.cell c) := by
  rw [cell, modifyCell, List.getElem?_modify_eq, cell, List.getElem?_eq_getElem h]
  rfl

theorem cell_modifyCell_part {α : Type} (part : Cell → α) (hf : ∀ x, part (f x) = part x) :
    part ((r.modifyCell c f).cell d) = part (r.cell d) := by
  by_cases hd : d = c
  · subst hd
    by_cases hlt : d < r.cells.length
    · rw [cell_modifyCell_self r f hlt, hf]
    · have hle := Nat.le_of_not_lt hlt
      rw [cell_of_le r hle, cell_of_le _ (by rwa [length_modifyCell])]
  · rw [cell_modifyCell_of_ne r f hd]

end Modification

section Publication

variable (g : Generation)

@[simp] theorem limits_publish : (r.publish c g).limits = r.limits := rfl

@[simp] theorem lookup_publish : (r.publish c g).lookup = r.lookup := rfl

@[simp] theorem length_publish : (r.publish c g).cells.length = r.cells.length :=
  List.length_modify ..

theorem snapshot_publish_of_ne {c d : ClassId} (h : d ≠ c) :
    (r.publish c g).snapshot d = r.snapshot d :=
  congrArg Cell.current (cell_modifyCell_of_ne r _ h)

theorem generation_publish_of_ne {c d : ClassId} (h : d ≠ c) :
    (r.publish c g).generation d = r.generation d :=
  congrArg Snapshot.generation (snapshot_publish_of_ne r g h)

theorem generation_publish_self {c : ClassId} (h : c < r.cells.length) :
    (r.publish c g).generation c = g :=
  congrArg (fun x => x.current.generation) (cell_modifyCell_self r _ h)

@[simp] theorem subclasses_publish : (r.publish c g).subclasses d = r.subclasses d :=
  cell_modifyCell_part r c d _ Cell.subclasses fun _ => rfl

@[simp] theorem built_publish : (r.publish c g).built d = r.built d :=
  cell_modifyCell_part r c d _ Cell.built fun _ => rfl

end Publication

section Counting

@[simp] theorem limits_countGeneration : (r.countGeneration c).limits = r.limits := rfl

@[simp] theorem lookup_countGeneration : (r.countGeneration c).lookup = r.lookup := rfl

@[simp] theorem length_countGeneration : (r.countGeneration c).cells.length = r.cells.length :=
  List.length_modify ..

@[simp] theorem snapshot_countGeneration : (r.countGeneration c).snapshot d = r.snapshot d :=
  cell_modifyCell_part r c d _ Cell.current fun _ => rfl

@[simp] theorem generation_countGeneration : (r.countGeneration c).generation d = r.generation d :=
  congrArg Snapshot.generation (snapshot_countGeneration r c d)

@[simp] theorem subclasses_countGeneration :
    (r.countGeneration c).subclasses d = r.subclasses d :=
  cell_modifyCell_part r c d _ Cell.subclasses fun _ => rfl

theorem built_countGeneration_of_ne {c d : ClassId} (h : d ≠ c) :
    (r.countGeneration c).built d = r.built d :=
  congrArg Cell.built (cell_modifyCell_of_ne r _ h)

theorem built_countGeneration_self {c : ClassId} (h : c < r.cells.length) :
    (r.countGeneration c).built c = r.built c + 1 :=
  congrArg Cell.built (cell_modifyCell_self r _ h)

end Counting

section Links

@[simp] theorem limits_link : (r.link c super).limits = r.limits := rfl

@[simp] theorem lookup_link : (r.link c super).lookup = r.lookup := rfl

@[simp] theorem length_link : (r.link c super).cells.length = r.cells.length :=
  List.length_modify ..

@[simp] theorem snapshot_link : (r.link c super).snapshot d = r.snapshot d :=
  cell_modifyCell_part r super d _ Cell.current fun _ => rfl

@[simp] theorem built_link : (r.link c super).built d = r.built d :=
  cell_modifyCell_part r super d _ Cell.built fun _ => rfl

theorem subclasses_link_self {c super : ClassId} (h : super < r.cells.length) :
    (r.link c super).subclasses super =
      if c ∈ r.subclasses super then r.subclasses super else r.subclasses super ++ [c] :=
  congrArg Cell.subclasses (cell_modifyCell_self r _ h)

theorem subclasses_link_of_ne {c super d : ClassId} (h : d ≠ super) :
    (r.link c super).subclasses d = r.subclasses d :=
  congrArg Cell.subclasses (cell_modifyCell_of_ne r _ h)

theorem mem_subclasses_link {c super d x : ClassId} (h : super < r.cells.length) :
    x ∈ (r.link c super).subclasses d ↔ x ∈ r.subclasses d ∨ (d = super ∧ x = c) := by
  by_cases hd : d = super
  · subst hd
    rw [subclasses_link_self r h]
    split
    · rename_i hc
      constructor
      · exact Or.inl
      · rintro (hx | ⟨_, rfl⟩)
        · exact hx
        · exact hc
    · simp
  · rw [subclasses_link_of_ne r hd]
    simp [hd]

theorem nodup_subclasses_link {c super d : ClassId} (h : super < r.cells.length)
    (hn : (r.subclasses d).Nodup) : ((r.link c super).subclasses d).Nodup := by
  by_cases hd : d = super
  · subst hd
    rw [subclasses_link_self r h]
    split
    · exact hn
    · rename_i hc
      exact List.nodup_append.mpr ⟨hn, List.nodup_singleton c, by
        intro a ha b hb hab
        exact hc (List.mem_singleton.mp hb ▸ hab ▸ ha)⟩
  · rwa [subclasses_link_of_ne r hd]

@[simp] theorem limits_unlink : (r.unlink c super).limits = r.limits := rfl

@[simp] theorem lookup_unlink : (r.unlink c super).lookup = r.lookup := rfl

@[simp] theorem length_unlink : (r.unlink c super).cells.length = r.cells.length :=
  List.length_modify ..

@[simp] theorem snapshot_unlink : (r.unlink c super).snapshot d = r.snapshot d :=
  cell_modifyCell_part r super d _ Cell.current fun _ => rfl

@[simp] theorem built_unlink : (r.unlink c super).built d = r.built d :=
  cell_modifyCell_part r super d _ Cell.built fun _ => rfl

theorem subclasses_unlink_self {c super : ClassId} :
    (r.unlink c super).subclasses super = (r.subclasses super).filter (· ≠ c) := by
  by_cases h : super < r.cells.length
  · exact congrArg Cell.subclasses (cell_modifyCell_self r _ h)
  · have hle := Nat.le_of_not_lt h
    rw [subclasses, subclasses, cell_of_le r hle, cell_of_le _ (by rwa [length_unlink])]
    rfl

theorem subclasses_unlink_of_ne {c super d : ClassId} (h : d ≠ super) :
    (r.unlink c super).subclasses d = r.subclasses d :=
  congrArg Cell.subclasses (cell_modifyCell_of_ne r _ h)

theorem mem_subclasses_unlink {c super d x : ClassId} :
    x ∈ (r.unlink c super).subclasses d ↔ x ∈ r.subclasses d ∧ ¬(d = super ∧ x = c) := by
  by_cases hd : d = super
  · subst hd
    rw [subclasses_unlink_self]
    simp
  · rw [subclasses_unlink_of_ne r hd]
    simp [hd]

theorem nodup_subclasses_unlink {c super d : ClassId} (hn : (r.subclasses d).Nodup) :
    ((r.unlink c super).subclasses d).Nodup := by
  by_cases hd : d = super
  · subst hd
    rw [subclasses_unlink_self]
    exact hn.filter _
  · rwa [subclasses_unlink_of_ne r hd]

end Links

section Growth

variable (g : Generation) (name : Symbol)

theorem length_addCell : (r.addCell g).2.cells.length = r.cells.length + 1 := by
  simp [addCell]

theorem cell_addCell_of_lt {c : ClassId} (h : c < r.cells.length) :
    (r.addCell g).2.cell c = r.cell c := by
  simp [addCell, cell, List.getElem?_append_left h]

theorem cell_addCell_new : (r.addCell g).2.cell r.cells.length = ⟨⟨r.nextStamp, g⟩, 0, []⟩ := by
  simp [addCell, cell]

@[simp] theorem cell_bind : (r.bind name c).cell d = r.cell d := rfl

theorem lookup_bind {name other : Symbol} :
    (r.bind name c).lookup other = if name = other then some c else r.lookup other :=
  Table.find?_insert r.bindings name other c

end Growth

end Metaobject.Registry
