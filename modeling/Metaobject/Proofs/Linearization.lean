import Metaobject.Precedence
import Mathlib.Data.List.Find

/-!
# Facts about the merge of precedence lists

A merge that succeeds takes every element of every list, after what was found before, and keeps to
the limit. It looks at its elements only to compare them, so it can be seen through names.
-/

namespace Metaobject.Precedence

section Names

variable {α β : Type} {f : α → β}

/-- Different elements of the list have different names. -/
def TellsApart (f : α → β) (l : List α) : Prop := ∀ a ∈ l, ∀ b ∈ l, f a = f b → a = b

theorem TellsApart.mono {l l' : List α} (h : TellsApart f l) (hl : l' ⊆ l) : TellsApart f l' :=
  fun a ha b hb => h a (hl ha) b (hl hb)

theorem TellsApart.mem_map {l s : List α} (h : TellsApart f l) (hs : s ⊆ l) {a : α} (ha : a ∈ l) :
    f a ∈ s.map f ↔ a ∈ s := by
  constructor
  · intro hm
    obtain ⟨b, hb, hab⟩ := List.mem_map.mp hm
    exact h b (hs hb) a ha hab ▸ hb
  · exact List.mem_map_of_mem

def live (lists : List (List α)) : List (List α) := lists.filter fun l => !l.isEmpty

theorem flatten_live (lists : List (List α)) : (live lists).flatten = lists.flatten :=
  List.flatten_filter_not_isEmpty

theorem flatten_eq_nil_of_live {lists : List (List α)} (h : (live lists).isEmpty) :
    lists.flatten = [] := by
  rw [← flatten_live, List.isEmpty_iff.mp h, List.flatten_nil]

theorem live_map (lists : List (List α)) :
    live (lists.map (List.map f)) = (live lists).map (List.map f) := by
  simp [live, List.filter_map, Function.comp_def]

end Names

variable {α β : Type} [DecidableEq α] [DecidableEq β]

theorem nextHead_head {lists : List (List α)} {a : α} (h : nextHead lists = some a) :
    ∃ l ∈ lists, l.head? = some a := by
  have := List.mem_of_find?_eq_some h
  simpa only [List.mem_filterMap] using this

theorem nextHead_mem_flatten {lists : List (List α)} {a : α} (h : nextHead lists = some a) :
    a ∈ lists.flatten := by
  obtain ⟨l, hl, ha⟩ := nextHead_head h
  exact List.mem_flatten.mpr ⟨l, hl, List.mem_of_head? ha⟩

theorem merge_succ (limit steps : Nat) (self : α) (lists : List (List α)) (found : List α) :
    merge limit self (steps + 1) lists found =
      if (live lists).isEmpty then .ok found
      else
        match nextHead (live lists) with
        | none => .error .inconsistent
        | some a =>
          if a = self then .error .inconsistent
          else if limit < found.length + 1 then .error .tooDeep
          else merge limit self steps ((live lists).map (dropHead a)) (found ++ [a]) := rfl

theorem merge_round {limit steps : Nat} {self : α} {lists : List (List α)} {found out : List α}
    (h : merge limit self (steps + 1) lists found = .ok out) :
    (lists.flatten = [] ∧ out = found) ∨
      ∃ a, nextHead (live lists) = some a ∧ a ≠ self ∧ found.length + 1 ≤ limit ∧
        merge limit self steps ((live lists).map (dropHead a)) (found ++ [a]) = .ok out := by
  rw [merge_succ] at h
  split at h
  · rename_i hl
    exact Or.inl ⟨flatten_eq_nil_of_live hl, (Except.ok.inj h).symm⟩
  · split at h
    · contradiction
    · rename_i a ha
      split at h
      · contradiction
      · rename_i hself
        split at h
        · contradiction
        · exact Or.inr ⟨a, ha, hself, by omega, h⟩

theorem mem_dropHead_or {a x : α} {l : List α} (h : x ∈ l) : x = a ∨ x ∈ dropHead a l := by
  cases l with
  | nil => contradiction
  | cons b l =>
    by_cases hb : b = a
    · subst hb
      simpa [dropHead] using h
    · exact Or.inr (by simpa [dropHead, hb] using h)

theorem dropHead_sublist (a : α) (l : List α) : (dropHead a l).Sublist l := by
  unfold dropHead
  split
  · exact List.tail_sublist l
  · exact List.Sublist.refl l

theorem flatten_dropHead_sublist (a : α) (lists : List (List α)) :
    (lists.map (dropHead a)).flatten.Sublist lists.flatten := by
  induction lists with
  | nil => exact List.Sublist.refl []
  | cons l lists ih => exact (dropHead_sublist a l).append ih

theorem mem_flatten_dropHead {a x : α} {lists : List (List α)} (ha : a ∈ lists.flatten) :
    x ∈ lists.flatten ↔ x = a ∨ x ∈ (lists.map (dropHead a)).flatten := by
  constructor
  · intro hx
    obtain ⟨l, hl, hx⟩ := List.mem_flatten.mp hx
    rcases mem_dropHead_or (a := a) hx with h | h
    · exact Or.inl h
    · exact Or.inr (List.mem_flatten.mpr ⟨_, List.mem_map_of_mem hl, h⟩)
  · rintro (rfl | hx)
    · exact ha
    · exact (flatten_dropHead_sublist a lists).subset hx

theorem length_flatten_dropHead {a : α} {lists : List (List α)}
    (h : ∃ l ∈ lists, l.head? = some a) :
    (lists.map (dropHead a)).flatten.length < lists.flatten.length := by
  induction lists with
  | nil => simp at h
  | cons l lists ih =>
    obtain ⟨l', hl', ha⟩ := h
    simp only [List.map_cons, List.flatten_cons, List.length_append]
    have hl := (dropHead_sublist a l).length_le
    have hrest := (flatten_dropHead_sublist a lists).length_le
    rcases List.mem_cons.mp hl' with rfl | hl'
    · have hshort : (dropHead a l').length < l'.length := by
        cases l' with
        | nil => simp at ha
        | cons b l' => simp only [dropHead, if_pos ha, List.tail_cons, List.length_cons]; omega
      omega
    · have := ih ⟨l', hl', ha⟩
      omega

theorem length_round {lists : List (List α)} {a : α} (h : nextHead (live lists) = some a) :
    ((live lists).map (dropHead a)).flatten.length < lists.flatten.length := by
  rw [← flatten_live lists]
  exact length_flatten_dropHead (nextHead_head h)

theorem mem_merge {limit steps : Nat} {self : α} {lists : List (List α)} {found out : List α}
    (hs : lists.flatten.length < steps) (h : merge limit self steps lists found = .ok out) {x : α} :
    x ∈ out ↔ x ∈ found ∨ x ∈ lists.flatten := by
  induction steps generalizing lists found with
  | zero => omega
  | succ steps ih =>
    rcases merge_round h with ⟨hnil, rfl⟩ | ⟨a, ha, _, _, h⟩
    · simp [hnil]
    · have hmem := mem_flatten_dropHead (x := x) (nextHead_mem_flatten ha)
      have hshort := length_round ha
      rw [ih (by omega) h, ← flatten_live lists, hmem, List.mem_append, List.mem_singleton, or_assoc]

theorem merge_eq_append {limit steps : Nat} {self : α} {lists : List (List α)}
    {found out : List α} (h : merge limit self steps lists found = .ok out) :
    ∃ rest, out = found ++ rest ∧ self ∉ rest := by
  induction steps generalizing lists found with
  | zero =>
    rw [merge] at h
    exact ⟨[], by simpa using (Except.ok.inj h).symm, by simp⟩
  | succ steps ih =>
    rcases merge_round h with ⟨_, rfl⟩ | ⟨a, _, hself, _, h⟩
    · exact ⟨[], by simp⟩
    · obtain ⟨rest, rfl, hrest⟩ := ih h
      exact ⟨a :: rest, by simp, by simp [hrest, Ne.symm hself]⟩

theorem length_merge {limit steps : Nat} {self : α} {lists : List (List α)} {found out : List α}
    (h : merge limit self steps lists found = .ok out) : out = found ∨ out.length ≤ limit := by
  induction steps generalizing lists found with
  | zero =>
    rw [merge] at h
    exact Or.inl (Except.ok.inj h).symm
  | succ steps ih =>
    rcases merge_round h with ⟨_, rfl⟩ | ⟨a, _, _, hlimit, h⟩
    · exact Or.inl rfl
    · rcases ih h with rfl | hout
      · exact Or.inr (by simpa using hlimit)
      · exact Or.inr hout

theorem mem_linearize {limit : Nat} {self : α} {lists : List (List α)} {supers out : List α}
    (h : linearize limit self lists supers = .ok out) {x : α} :
    x ∈ out ↔ x = self ∨ x ∈ lists.flatten ∨ x ∈ supers := by
  rw [mem_merge (by omega) h, List.mem_singleton, List.flatten_append, List.mem_append,
    List.flatten_singleton]

theorem linearize_eq_cons {limit : Nat} {self : α} {lists : List (List α)} {supers out : List α}
    (h : linearize limit self lists supers = .ok out) : out = self :: out.tail ∧ self ∉ out.tail := by
  obtain ⟨rest, rfl, hrest⟩ := merge_eq_append h
  exact ⟨rfl, hrest⟩

theorem length_linearize {limit : Nat} {self : α} {lists : List (List α)} {supers out : List α}
    (hsupers : supers ≠ []) (h : linearize limit self lists supers = .ok out) :
    out.length ≤ limit := by
  rw [linearize] at h
  rcases merge_round h with ⟨hnil, _⟩ | ⟨a, _, _, hlimit, h⟩
  · simp [hsupers] at hnil
  · rcases length_merge h with rfl | hout
    · exact hlimit
    · exact hout

variable {f : α → β}

theorem nextHead_map {lists : List (List α)} (h : TellsApart f lists.flatten) :
    nextHead (lists.map (List.map f)) = (nextHead lists).map f := by
  have hheads : (lists.map (List.map f)).filterMap List.head? =
      (lists.filterMap List.head?).map f := by
    rw [List.filterMap_map, List.map_filterMap]
    exact congrArg (List.filterMap · lists) (funext fun l => List.head?_map)
  rw [nextHead, nextHead, hheads, List.find?_map]
  congr 1
  apply List.find?_congr
  intro a ha
  obtain ⟨l, hl, hla⟩ := List.mem_filterMap.mp ha
  have hmem : a ∈ lists.flatten := List.mem_flatten.mpr ⟨l, hl, List.mem_of_head? hla⟩
  have htail : ∀ l' ∈ lists, (f a ∉ (l'.map f).tail ↔ a ∉ l'.tail) := by
    intro l' hl'
    have hsub : l'.tail ⊆ lists.flatten := fun x hx =>
      List.mem_flatten.mpr ⟨l', hl', List.mem_of_mem_tail hx⟩
    rw [← List.map_tail, h.mem_map hsub hmem]
  rw [Function.comp_apply, Bool.eq_iff_iff]
  simp only [List.all_eq_true, List.forall_mem_map, decide_eq_true_eq]
  exact forall₂_congr htail

theorem dropHead_map {l : List α} {a : α} (h : TellsApart f (a :: l)) :
    dropHead (f a) (l.map f) = (dropHead a l).map f := by
  cases l with
  | nil => rfl
  | cons b l =>
    by_cases hb : b = a
    · subst hb
      simp [dropHead]
    · have hne : f b ≠ f a := fun hab => hb (h b (by simp) a (by simp) hab)
      simp [dropHead, hb, hne]

theorem dropHead_map_all {lists : List (List α)} {a : α} (h : TellsApart f lists.flatten)
    (ha : a ∈ lists.flatten) : (lists.map (List.map f)).map (dropHead (f a)) =
      (lists.map (dropHead a)).map (List.map f) := by
  simp only [List.map_map]
  apply List.map_congr_left
  intro l hl
  apply dropHead_map
  apply h.mono
  exact List.cons_subset.mpr ⟨ha, fun x hx => List.mem_flatten.mpr ⟨l, hl, hx⟩⟩

theorem merge_map {limit steps : Nat} {self : α} {lists : List (List α)} {found : List α}
    (h : TellsApart f (self :: lists.flatten)) :
    merge limit (f self) steps (lists.map (List.map f)) (found.map f) =
      (merge limit self steps lists found).map (List.map f) := by
  induction steps generalizing lists found with
  | zero => rfl
  | succ steps ih =>
    have hlive : TellsApart f (live lists).flatten :=
      h.mono (by rw [flatten_live]; exact List.subset_cons_self _ _)
    have hempty : ((live lists).map (List.map f)).isEmpty = (live lists).isEmpty := by
      cases live lists <;> rfl
    rw [merge_succ, merge_succ, live_map, nextHead_map hlive, hempty]
    split
    · rfl
    · cases ha : nextHead (live lists) with
      | none => rfl
      | some a =>
        have hlist := nextHead_mem_flatten ha
        have hmem : a ∈ lists.flatten := flatten_live lists ▸ hlist
        have hself : f a = f self ↔ a = self :=
          ⟨h a (List.mem_cons_of_mem _ hmem) self (by simp), congrArg f⟩
        have hdrop := dropHead_map_all hlive hlist
        simp only [Option.map_some, hself, List.length_map, hdrop]
        split
        · rfl
        · split
          · rfl
          · have hfound : found.map f ++ [f a] = (found ++ [a]).map f := by simp
            rw [hfound]
            apply ih
            apply h.mono
            have hsub := (flatten_dropHead_sublist a (live lists)).subset
            rw [flatten_live] at hsub
            exact List.cons_subset_cons _ hsub

/-- Superclass-first merging commutes with naming the classes. -/
theorem linearize_map {limit : Nat} {self : α} {lists : List (List α)} {supers : List α}
    (h : TellsApart f (self :: (lists.flatten ++ supers))) :
    linearize limit (f self) (lists.map (List.map f)) (supers.map f) =
      (linearize limit self lists supers).map (List.map f) := by
  have hall : lists.map (List.map f) ++ [supers.map f] = (lists ++ [supers]).map (List.map f) := by
    simp
  have hlength : ((lists ++ [supers]).map (List.map f)).flatten.length =
      (lists ++ [supers]).flatten.length := by
    rw [← List.map_flatten, List.length_map]
  simp only [linearize, hall, hlength]
  change merge _ _ _ _ (List.map f [self]) = _
  exact merge_map (by simpa using h)

theorem mem_keepLast {l : List α} {x : α} : x ∈ keepLast l ↔ x ∈ l := by
  induction l with
  | nil => rfl
  | cons a l ih =>
    rw [keepLast]
    split
    · rename_i ha
      rw [ih, List.mem_cons]
      exact ⟨Or.inr, fun h => h.elim (fun h => h ▸ ha) id⟩
    · rw [List.mem_cons, List.mem_cons, ih]

end Metaobject.Precedence
