import Mathlib.Data.List.NodupEquivFin
import Metaobject.Proofs.SlotAccess
import Metaobject.Proofs.SlotOrder

/-!
# Layouts as they are built

A layout is built of two lists of slots unless one of them names a slot twice, and then the fault is
about the first name that repeats an earlier one. The slots of a layout and their places determine
each other, and a table in which each slot is entered with its place tells the same.
-/

namespace Metaobject

section Repetitions

variable {α : Type}

/-- The first element of a list that is there before. -/
def RepeatsFirst (l : List α) (a : α) : Prop :=
  ∃ before after, l = before ++ a :: after ∧ a ∈ before ∧ before.Nodup

variable [DecidableEq α] {seen l : List α} {a : α}

theorem firstRepeat_eq_some : firstRepeat seen l = some a ↔ ∃ before after,
    l = before ++ a :: after ∧ (a ∈ seen ∨ a ∈ before) ∧ before.Nodup ∧ ∀ b ∈ before, b ∉ seen := by
  induction l generalizing seen with
  | nil => simp [firstRepeat]
  | cons c l ih =>
    rw [firstRepeat]
    simp only [List.cons_eq_append_iff]
    by_cases hc : c ∈ seen
    · rw [if_pos hc]
      constructor
      · rintro ⟨⟩
        exact ⟨[], l, .inl ⟨rfl, rfl⟩, .inl hc, List.nodup_nil, by simp⟩
      · rintro ⟨before, after, ⟨_, heq⟩ | ⟨before, rfl, _⟩, _, _, hnew⟩
        · cases heq
          rfl
        · exact absurd hc (hnew c List.mem_cons_self)
    · rw [if_neg hc, ih]
      constructor
      · rintro ⟨before, after, rfl, ha, hnodup, hnew⟩
        exact ⟨c :: before, after, .inr ⟨before, rfl, rfl⟩, by grind⟩
      · rintro ⟨before, after, ⟨rfl, heq⟩ | ⟨before, rfl, rfl⟩, ha, hnodup, hnew⟩
        · cases heq
          exact absurd ha (by simp [hc])
        · exact ⟨before, after, rfl, by grind⟩

theorem repeatsFirst_iff : RepeatsFirst l a ↔ firstRepeat [] l = some a := by
  simp [RepeatsFirst, firstRepeat_eq_some]

theorem nodup_iff_firstRepeat : l.Nodup ↔ firstRepeat [] l = none :=
  ⟨fun h => firstRepeat_of_nodup h (by simp), fun h => (nodup_of_firstRepeat h).1⟩

end Repetitions

namespace Layout

variable {l : Layout} {owner : Option Symbol} {owned inherited : List Symbol} {n : Symbol}
  {f : Fault}

section Places

/-- Names and places of slots determine each other, whichever way they are looked up. -/
structure Numbered (l : Layout) : Prop where
  bijection : ∃ e : {n // n ∈ l.slots} ≃ Fin l.length,
    (∀ n : {n // n ∈ l.slots}, l.position? n = some (e n).val) ∧
      ∀ i : Fin l.length, l.slot? i = some (e.symm i).val
  unknown : ∀ n ∉ l.slots, l.position? n = none
  beyond : ∀ index, l.length ≤ index → l.slot? index = none
  table : ∀ n, l.positions.find? n = l.slots.findIdx? (fun s => s = n)

theorem numbered (l : Layout) : l.Numbered where
  bijection := by
    let e : Fin l.length ≃ {n // n ∈ l.slots} := l.nodup.getEquiv l.slots
    have hget (i : Fin l.length) : l.slots[i.val]? = some (e i).val :=
      List.getElem?_eq_getElem i.isLt
    refine ⟨e.symm, fun n => ?_, hget⟩
    rw [position?_eq_some, hget, e.apply_symm_apply]
  unknown _ hn := position?_eq_none.mpr hn
  beyond _ hindex := List.getElem?_eq_none hindex
  table := l.find?_positions

end Places

section Building

theorem build_eq_error : build owner owned inherited = .error f ↔ ∃ s, f = .duplicateSlot s owner ∧
    (RepeatsFirst owned s ∨ owned.Nodup ∧ RepeatsFirst inherited s) := by
  simp only [repeatsFirst_iff, nodup_iff_firstRepeat]
  unfold build
  split
  · rename_i s hown
    simp [hown, eq_comm]
  · rename_i hown
    split
    · rename_i s hinherited
      simp [hown, hinherited, eq_comm]
    · rename_i hinherited
      simp [hown, hinherited]

theorem build_own_eq_error {owner' : Option Symbol} : build owner owned [] =
    .error (.duplicateSlot n owner') ↔ owner' = owner ∧ RepeatsFirst owned n := by
  have hempty : ∀ s, ¬RepeatsFirst ([] : List Symbol) s := by simp [RepeatsFirst]
  simp only [build_eq_error, hempty, and_false, or_false]
  constructor
  · rintro ⟨_, ⟨⟩, hrepeats⟩
    exact ⟨rfl, hrepeats⟩
  · rintro ⟨rfl, hrepeats⟩
    exact ⟨n, rfl, hrepeats⟩

theorem owner_build (h : build owner owned inherited = .ok l) : l.owner = owner := by
  unfold build at h
  split at h
  · contradiction
  · split at h
    · contradiction
    · exact (congrArg Layout.owner (Except.ok.inj h)).symm

/-- A layout is built exactly if neither list names a slot twice. It has the slots that are declared
after those that are only inherited, and numbers them. Otherwise the first repetition is reported,
and the declared slots are looked through first. -/
theorem build_exact (owner : Option Symbol) (owned inherited : List Symbol) :
    ((∃ l, build owner owned inherited = .ok l) ↔ owned.Nodup ∧ inherited.Nodup) ∧
    (∀ l, build owner owned inherited = .ok l →
      l.owner = owner ∧ l.slots = inherited.filter (fun n => n ∉ owned) ++ owned ∧ l.slots.Nodup ∧
      l.Numbered ∧ ∀ n, l.contains n = true ↔ n ∈ owned ∨ n ∈ inherited) ∧
    ∀ f, build owner owned inherited = .error f ↔ ∃ s, f = .duplicateSlot s owner ∧
      (RepeatsFirst owned s ∨ owned.Nodup ∧ RepeatsFirst inherited s) := by
  refine ⟨⟨fun ⟨_, h⟩ => nodup_of_build h, fun h => exists_build owner h.1 h.2⟩, ?_,
    fun _ => build_eq_error⟩
  intro l h
  have hslots := slots_build h
  refine ⟨owner_build h, hslots, l.nodup, l.numbered, fun n => ?_⟩
  rw [contains_iff, hslots, mem_mergeSlots]

/-- A slot that is declared again moves behind. Of all slots that repeat, one is reported. -/
theorem point_build_exact :
    let point : Option Symbol := some ⟨"POINT"⟩
    (∃ l, build point [⟨"D"⟩, ⟨"B"⟩] [⟨"A"⟩, ⟨"B"⟩, ⟨"C"⟩] = .ok l ∧
      l.slots = [⟨"A"⟩, ⟨"C"⟩, ⟨"D"⟩, ⟨"B"⟩] ∧ l.Numbered) ∧
    build point [⟨"X"⟩, ⟨"Y"⟩, ⟨"Y"⟩, ⟨"X"⟩] [⟨"Z"⟩, ⟨"Z"⟩] =
      .error (.duplicateSlot ⟨"Y"⟩ point) := by
  intro point
  constructor
  · obtain ⟨hbuilt, hshape, _⟩ := build_exact point [⟨"D"⟩, ⟨"B"⟩] [⟨"A"⟩, ⟨"B"⟩, ⟨"C"⟩]
    obtain ⟨l, hl⟩ := hbuilt.mpr ⟨by decide, by decide⟩
    obtain ⟨_, hslots, _, hnumbered, _⟩ := hshape l hl
    exact ⟨l, hl, hslots, hnumbered⟩
  · obtain ⟨_, _, hfault⟩ := build_exact point [⟨"X"⟩, ⟨"Y"⟩, ⟨"Y"⟩, ⟨"X"⟩] [⟨"Z"⟩, ⟨"Z"⟩]
    exact (hfault _).mpr
      ⟨⟨"Y"⟩, rfl, .inl ⟨[⟨"X"⟩, ⟨"Y"⟩], [⟨"X"⟩], rfl, by decide, by decide⟩⟩

end Building

end Layout

end Metaobject
