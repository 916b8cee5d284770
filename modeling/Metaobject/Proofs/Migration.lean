import Metaobject.Proofs.SlotAccess

/-!
# Migration

Migration moves every value whose slot stays to one place, and leaves all other places unbound. On the
way over a layout in between, just those values are lost whose slots that layout lacks.
-/

namespace Metaobject.Storage

variable {s t : Storage} {e : Edition} {n : Symbol} {v : Value} {names : List Symbol}

/-- The slots that have a value, with their values: names and places are read side by side. -/
def bindings (s : Storage) : List (Symbol × Value) :=
  (s.layout.slots.zip s.slots).filterMap fun p => p.2.map (Prod.mk p.1)

def clear (s : Storage) (names : List Symbol) : Storage :=
  names.foldl (fun s n => s.assign n none) s

section Values

theorem value?_eq_some : s.value? n = some v ↔
    ∃ index : Nat, s.layout.slots[index]? = some n ∧ s.slots[index]? = some (some v) := by
  simp only [value?, valueAt?, Option.bind_eq_some_iff, Layout.position?_eq_some,
    Option.join_eq_some_iff]

theorem mem_bindings : (n, v) ∈ s.bindings ↔ s.value? n = some v := by
  rw [value?_eq_some, bindings, List.mem_filterMap]
  constructor
  · rintro ⟨⟨k, cell⟩, hmem, hcell⟩
    obtain ⟨w, rfl, heq⟩ := Option.map_eq_some_iff.mp hcell
    cases heq
    obtain ⟨index, hindex⟩ := List.mem_iff_getElem?.mp hmem
    exact ⟨index, List.getElem?_zip_eq_some.mp hindex⟩
  · rintro ⟨index, hplace⟩
    refine ⟨(n, some v), ?_, rfl⟩
    exact List.mem_iff_getElem?.mpr ⟨index, List.getElem?_zip_eq_some.mpr hplace⟩

theorem map_fst_sublist (names : List Symbol) (cells : List (Option Value)) :
    (((names.zip cells).filterMap fun p => p.2.map (Prod.mk p.1)).map Prod.fst).Sublist names := by
  induction names generalizing cells with
  | nil => simp
  | cons n names ih =>
    cases cells with
    | nil => simp
    | cons cell cells =>
      cases cell with
      | none => simpa using (ih cells).cons n
      | some v => simpa using (ih cells).cons_cons n

theorem nodup_map_bindings (s : Storage) : (s.bindings.map Prod.fst).Nodup :=
  s.layout.nodup.sublist (map_fst_sublist s.layout.slots s.slots)

theorem nodup_bindings (s : Storage) : s.bindings.Nodup := s.nodup_map_bindings.of_map

theorem value?_of_notMem (hn : n ∉ s.layout.slots) : s.value? n = none := by
  rw [value?, Layout.position?_eq_none.mpr hn, Option.bind_none]

theorem value?_migrate_eq (s : Storage) (e : Edition) (n : Symbol) :
    (s.migrate e).value? n = if n ∈ e.layout.slots then s.value? n else none := by
  split
  · rename_i hn
    exact value?_migrate hn
  · rename_i hn
    exact value?_of_notMem hn

theorem slots_eq_map (h : s.Fits) : s.slots = s.layout.slots.map s.value? := by
  apply List.ext_getElem
  · rw [List.length_map]
    exact h
  · intro index hlt hlt'
    have hplace : index < s.layout.slots.length := by simpa using hlt'
    have hposition : s.layout.position? s.layout.slots[index] = some index :=
      Layout.position?_eq_some.mpr (List.getElem?_eq_getElem hplace)
    simp [value?, hposition, valueAt?, hlt]

/-- Storages under one layout are the same if all slots have the same values. -/
theorem eq_of_value? (hs : s.Fits) (ht : t.Fits) (he : s.edition = t.edition)
    (h : ∀ n ∈ s.layout.slots, s.value? n = t.value? n) : s = t := by
  have hlayout : s.layout = t.layout := congrArg Edition.layout he
  have hslots : s.slots = t.slots := by
    rw [slots_eq_map hs, slots_eq_map ht, ← hlayout]
    exact List.map_congr_left h
  cases s
  cases t
  cases he
  cases hslots
  rfl

end Values

section Clear

theorem value?_assign_none (s : Storage) (n : Symbol) : (s.assign n none).value? n = none := by
  unfold assign
  split
  · rename_i index hindex
    change (s.layout.position? n).bind (s.put index none).valueAt? = none
    by_cases hlt : index < s.slots.length <;> simp [hindex, valueAt?, put, hlt]
  · rename_i hnone
    exact value?_of_notMem (Layout.position?_eq_none.mp hnone)

theorem edition_clear (s : Storage) (names : List Symbol) :
    (s.clear names).edition = s.edition := by
  induction names generalizing s with
  | nil => rfl
  | cons n names ih => exact (ih (s.assign n none)).trans (edition_assign s n none)

theorem fits_clear (h : s.Fits) (names : List Symbol) : (s.clear names).Fits := by
  induction names generalizing s with
  | nil => exact h
  | cons n names ih => exact ih (fits_assign h n none)

theorem value?_clear (s : Storage) (names : List Symbol) (n : Symbol) :
    (s.clear names).value? n = if n ∈ names then none else s.value? n := by
  induction names generalizing s with
  | nil => simp [clear]
  | cons k names ih =>
    have hstep : (s.clear (k :: names)).value? n =
        if n ∈ names then none else (s.assign k none).value? n := ih (s.assign k none)
    rw [hstep]
    by_cases hk : n = k
    · subst hk
      simp [value?_assign_none]
    · simp [hk, value?_assign_of_ne hk]

end Clear

section Migrations

variable (s : Storage) (e₂ e₃ : Edition)

theorem bindings_migrate (e : Edition) :
    (s.migrate e).bindings.Perm (s.bindings.filter fun p => p.1 ∈ e.layout.slots) := by
  rw [List.perm_ext_iff_of_nodup (nodup_bindings _) (s.nodup_bindings.filter _)]
  rintro ⟨n, v⟩
  rw [mem_bindings, value?_migrate_eq, List.mem_filter, mem_bindings, decide_eq_true_iff]
  split <;> simp_all

theorem value?_migrate_migrate (n : Symbol) : ((s.migrate e₂).migrate e₃).value? n =
    if n ∈ e₃.layout.slots ∧ n ∈ e₂.layout.slots then s.value? n else none := by
  rw [value?_migrate_eq, value?_migrate_eq, ite_and]

/-- Going over another layout unbinds the slots that it lacks. -/
theorem migrate_migrate : (s.migrate e₂).migrate e₃ =
    (s.migrate e₃).clear (e₃.layout.slots.filter fun n => n ∉ e₂.layout.slots) := by
  have hfits := fits_clear (fits_migrate s e₃) (e₃.layout.slots.filter fun n => n ∉ e₂.layout.slots)
  apply eq_of_value? (fits_migrate _ e₃) hfits
  · rw [edition_clear]
    rfl
  · intro n hn
    have hmem : n ∈ e₃.layout.slots := hn
    rw [value?_migrate_migrate, value?_clear, value?_migrate hmem]
    by_cases h₂ : n ∈ e₂.layout.slots <;> simp [hmem, h₂]

theorem migrate_migrate_eq_iff : (s.migrate e₂).migrate e₃ = s.migrate e₃ ↔
    ∀ p ∈ s.bindings, p.1 ∈ e₃.layout.slots → p.1 ∈ e₂.layout.slots := by
  constructor
  · rintro h ⟨n, v⟩ hbound hn
    by_contra h₂
    have hvalue := value?_migrate_migrate s e₂ e₃ n
    rw [h, value?_migrate hn, mem_bindings.mp hbound, if_neg fun hboth => h₂ hboth.2] at hvalue
    contradiction
  · intro h
    apply eq_of_value? (fits_migrate (s.migrate e₂) e₃) (fits_migrate s e₃) rfl
    intro n hn
    have hmem : n ∈ e₃.layout.slots := hn
    rw [value?_migrate_migrate, value?_migrate hmem]
    cases hv : s.value? n with
    | none => simp
    | some v =>
      have h₂ := h (n, v) (mem_bindings.mpr hv) hmem
      simp [hmem, h₂]

/-- Migrations compose, up to the slots that the layout in between lacks, and no value is moved to two
places or to the wrong one. -/
theorem migrate_composes :
    (s.migrate e₂).migrate e₃ =
        (s.migrate e₃).clear (e₃.layout.slots.filter fun n => n ∉ e₂.layout.slots) ∧
      ((s.migrate e₂).migrate e₃ = s.migrate e₃ ↔
        ∀ p ∈ s.bindings, p.1 ∈ e₃.layout.slots → p.1 ∈ e₂.layout.slots) ∧
      ∀ e, (s.migrate e).edition = e ∧ (s.migrate e).Fits ∧
        ((s.migrate e).bindings.map Prod.fst).Nodup ∧
        (s.migrate e).bindings.Perm (s.bindings.filter fun p => p.1 ∈ e.layout.slots) ∧
        ∀ n, n ∉ s.layout.slots → (s.migrate e).value? n = none := by
  refine ⟨migrate_migrate s e₂ e₃, migrate_migrate_eq_iff s e₂ e₃, ?_⟩
  intro e
  refine ⟨rfl, fits_migrate s e, nodup_map_bindings _, bindings_migrate s e, ?_⟩
  intro n hn
  rw [value?_migrate_eq, value?_of_notMem hn, ite_self]

end Migrations

end Metaobject.Storage
