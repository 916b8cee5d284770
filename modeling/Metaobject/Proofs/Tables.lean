import Mathlib.Data.List.Nodup
import Metaobject.Table

/-!
# Tables as lists of entries

An entry is changed in its place or added at the end, so that no key is bound twice. Entries that are
entered again leave the table that they left.
-/

namespace Metaobject

namespace Table

variable {κ ν : Type} [DecidableEq κ] {k j : κ} {v w : ν} {l ps rest : List (κ × ν)} {t : Table κ ν}

theorem insertIn_self (h : findIn k l = some v) : insertIn k v l = l := by
  induction l with
  | nil => contradiction
  | cons e l ih =>
    obtain ⟨key, value⟩ := e
    rw [findIn] at h
    rw [insertIn]
    split at h
    · rename_i heq
      cases h
      rw [if_pos heq, heq]
    · rename_i hne
      rw [if_neg hne, ih h]

theorem insertIn_insertIn (k : κ) (v w : ν) (l : List (κ × ν)) :
    insertIn k w (insertIn k v l) = insertIn k w l := by
  induction l with
  | nil => simp [insertIn]
  | cons e l ih =>
    obtain ⟨key, value⟩ := e
    by_cases h : key = k
    · simp [insertIn, h]
    · simp [insertIn, h, ih]

theorem insertIn_comm (hne : k ≠ j) (h : (findIn k l).isSome) :
    insertIn j w (insertIn k v l) = insertIn k v (insertIn j w l) := by
  induction l with
  | nil => contradiction
  | cons e l ih =>
    obtain ⟨key, value⟩ := e
    rw [findIn] at h
    by_cases hk : key = k
    · subst hk
      simp [insertIn, hne]
    · rw [if_neg hk] at h
      by_cases hj : key = j
      · subst hj
        simp [insertIn, hk]
      · simp [insertIn, hk, hj, ih h]

theorem findIn_append : findIn k (l ++ ps) = (findIn k l).or (findIn k ps) := by
  induction l with
  | nil => rfl
  | cons e l ih =>
    obtain ⟨key, value⟩ := e
    rw [List.cons_append, findIn, findIn]
    split
    · rfl
    · exact ih

theorem isSome_findIn : (findIn k l).isSome ↔ k ∈ l.map Prod.fst := by
  induction l with
  | nil => simp [findIn]
  | cons e l ih =>
    obtain ⟨key, value⟩ := e
    rw [findIn, List.map_cons, List.mem_cons]
    by_cases h : key = k
    · simp [h]
    · rw [if_neg h, ih]
      have hne : ¬k = key := fun heq => h heq.symm
      tauto

theorem find?_insert_self (t : Table κ ν) (k : κ) (v : ν) : (t.insert k v).find? k = some v :=
  (find?_insert t k k v).trans (if_pos rfl)

theorem find?_insert_of_ne (t : Table κ ν) (v : ν) (h : k ≠ j) :
    (t.insert k v).find? j = t.find? j :=
  (find?_insert t k j v).trans (if_neg h)

theorem keys_insertIn (k : κ) (v : ν) (l : List (κ × ν)) :
    (insertIn k v l).map Prod.fst =
      if (findIn k l).isSome then l.map Prod.fst else l.map Prod.fst ++ [k] := by
  induction l with
  | nil => rfl
  | cons e l ih =>
    obtain ⟨key, value⟩ := e
    by_cases hkey : key = k
    · simp [insertIn, findIn, hkey]
    · simp only [insertIn, findIn, if_neg hkey, List.map_cons, ih]
      split <;> rfl

theorem mem_keys_iff : k ∈ t.keys ↔ (t.find? k).isSome := isSome_findIn.symm

omit [DecidableEq κ] in
theorem length_keys (t : Table κ ν) : t.keys.length = t.size := List.length_map _

theorem keys_insert_of_isSome (v : ν) (h : (t.find? k).isSome) : (t.insert k v).keys = t.keys :=
  (keys_insertIn k v t.entries).trans (if_pos h)

theorem keys_insert_of_none (v : ν) (h : t.find? k = none) :
    (t.insert k v).keys = t.keys ++ [k] := by
  have hnone : findIn k t.entries = none := h
  apply (keys_insertIn k v t.entries).trans
  rw [hnone]
  rfl

theorem keys_erase (t : Table κ ν) (k : κ) : (t.erase k).keys = t.keys.filter (· ≠ k) := by
  rw [keys, erase, keys, List.filter_map]
  rfl

theorem size_erase (hnodup : t.keys.Nodup) (h : (t.find? k).isSome) :
    (t.erase k).size + 1 = t.size := by
  have hmem : k ∈ t.keys := mem_keys_iff.mpr h
  have hkeys : (t.erase k).keys = t.keys.erase k := by
    rw [keys_erase, hnodup.erase_eq_filter]
    simp only [decide_not, bne]
    rfl
  rw [← length_keys, ← length_keys, hkeys, List.length_erase_of_mem hmem]
  exact Nat.sub_add_cancel (List.length_pos_of_mem hmem)

/-- A key that was not bound can be bound and erased, and leaves nothing behind. -/
theorem erase_insert_of_none (v : ν) (h : t.find? k = none) : (t.insert k v).erase k = t := by
  have hentries : ∀ l : List (κ × ν), findIn k l = none →
      (insertIn k v l).filter (fun e => e.1 ≠ k) = l := by
    intro l hl
    induction l with
    | nil => simp [insertIn]
    | cons e l ih =>
      obtain ⟨key, value⟩ := e
      by_cases hkey : key = k
      · simp [findIn, hkey] at hl
      · simp only [findIn, if_neg hkey] at hl
        simpa [insertIn, hkey] using ih hl
  exact congrArg Table.mk (hentries t.entries h)

theorem insert_insert_self (w : ν) (h : t.find? k = some v) : (t.insert k w).insert k v = t :=
  congrArg Table.mk ((insertIn_insertIn k w v t.entries).trans (insertIn_self h))

def insertAll (l ps : List (κ × ν)) : List (κ × ν) :=
  ps.foldl (fun l p => insertIn p.1 p.2 l) l

theorem insertAll_cons (l : List (κ × ν)) (p : κ × ν) (ps : List (κ × ν)) :
    insertAll l (p :: ps) = insertAll (insertIn p.1 p.2 l) ps := rfl

theorem findIn_insertAll : findIn k (insertAll l ps) = (findIn k ps.reverse).or (findIn k l) := by
  induction ps generalizing l with
  | nil => rfl
  | cons p rest ih =>
    have hlast : findIn k [p] = if p.1 = k then some p.2 else none := rfl
    rw [insertAll_cons, ih, List.reverse_cons, findIn_append, Option.or_assoc, hlast,
      findIn_insertIn]
    split <;> rfl

theorem insertAll_insertIn (h : (findIn k l).isSome) (hmem : k ∈ ps.map Prod.fst) :
    insertAll (insertIn k v l) ps = insertAll l ps := by
  induction ps generalizing l with
  | nil => contradiction
  | cons p rest ih =>
    rw [insertAll_cons, insertAll_cons]
    by_cases hkey : p.1 = k
    · rw [← hkey, insertIn_insertIn]
    · have hne : k ≠ p.1 := fun heq => hkey heq.symm
      rw [insertIn_comm hne h]
      apply ih
      · rw [findIn_insertIn, if_neg hkey]
        exact h
      · rw [List.map_cons, List.mem_cons] at hmem
        exact hmem.resolve_left hne

theorem insertAll_self (h : ∀ k ∈ ps.map Prod.fst, findIn k l = findIn k ps.reverse) :
    insertAll l ps = l := by
  induction ps with
  | nil => rfl
  | cons p rest ih =>
    have hp := h p.1 (by simp)
    rw [List.reverse_cons, findIn_append] at hp
    have hlast : findIn p.1 [p] = some p.2 := if_pos rfl
    have hrest : ∀ k ∈ rest.map Prod.fst, findIn k l = findIn k rest.reverse := by
      intro k hk
      have hfound : (findIn k rest.reverse).isSome := by
        rw [isSome_findIn, List.map_reverse, List.mem_reverse]
        exact hk
      have hall := h k (by simpa using Or.inr hk)
      rw [List.reverse_cons, findIn_append] at hall
      rw [hall, Option.or_of_isSome hfound]
    rw [insertAll_cons]
    by_cases hmem : p.1 ∈ rest.map Prod.fst
    · have hfound : (findIn p.1 l).isSome := by
        rw [hp, hlast, Option.isSome_or]
        simp
      rw [insertAll_insertIn hfound hmem]
      exact ih hrest
    · have hnone : findIn p.1 rest.reverse = none := by
        rw [← Option.not_isSome_iff_eq_none, isSome_findIn, List.map_reverse, List.mem_reverse]
        exact hmem
      rw [hnone, hlast] at hp
      rw [insertIn_self hp]
      exact ih hrest

/-- Entering the same entries again changes nothing. -/
theorem insertAll_insertAll (l ps : List (κ × ν)) :
    insertAll (insertAll l ps) ps = insertAll l ps := by
  apply insertAll_self
  intro k hk
  have hfound : (findIn k ps.reverse).isSome := by
    rw [isSome_findIn, List.map_reverse, List.mem_reverse]
    exact hk
  rw [findIn_insertAll, Option.or_of_isSome hfound]

theorem findIn_eq_some_of_nodup (h : (ps.map Prod.fst).Nodup) :
    findIn k ps = some v ↔ (k, v) ∈ ps := by
  induction ps with
  | nil => simp [findIn]
  | cons p rest ih =>
    obtain ⟨key, value⟩ := p
    obtain ⟨hkey, hrest⟩ := List.nodup_cons.mp h
    rw [findIn, List.mem_cons, Prod.mk.injEq]
    split
    · rename_i heq
      have hother : (k, v) ∉ rest := fun hmem =>
        hkey (List.mem_map.mpr ⟨(k, v), hmem, heq.symm⟩)
      simp [heq, hother, eq_comm]
    · rename_i hne
      rw [ih hrest]
      have : k ≠ key := fun heq => hne heq.symm
      tauto

theorem entries_ofList (ps : List (κ × ν)) : (ofList ps).entries = insertAll [] ps := by
  have hfold (t : Table κ ν) : (ps.foldl (fun t e => t.insert e.1 e.2) t).entries =
      insertAll t.entries ps := by
    induction ps generalizing t with
    | nil => rfl
    | cons p rest ih => exact ih (t.insert p.1 p.2)
  exact hfold empty

theorem find?_ofList (h : (ps.map Prod.fst).Nodup) :
    (ofList ps).find? k = some v ↔ (k, v) ∈ ps := by
  have hreverse : (ps.reverse.map Prod.fst).Nodup := by
    rw [List.map_reverse, List.nodup_reverse]
    exact h
  rw [find?, entries_ofList, findIn_insertAll]
  change (findIn k ps.reverse).or none = some v ↔ _
  rw [Option.or_none, findIn_eq_some_of_nodup hreverse, List.mem_reverse]

end Table

end Metaobject
