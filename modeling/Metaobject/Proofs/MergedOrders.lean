import Metaobject.Proofs.Linearization
import Metaobject.Proofs.Reachability
import Mathlib.Data.Finset.Card

/-!
# Orders of superclasses

A merge of precedence lists succeeds only with an order that keeps every list, and reports an
inconsistency only if there is no such order. It stops at the limit only if there are more elements
than fit.
-/

namespace Metaobject.Precedence

variable {α : Type} [DecidableEq α] {lists : List (List α)} {order found out : List α} {a b self : α}
  {limit steps : Nat} {e : Failure}

/-- An order of all elements of the lists, each once, that keeps the order of every list. -/
structure Orders (lists : List (List α)) (order : List α) : Prop where
  nodup : order.Nodup
  mem_iff : ∀ a, a ∈ order ↔ a ∈ lists.flatten
  keeps : ∀ l ∈ lists, l.Sublist order

omit [DecidableEq α] in
theorem orders_live : Orders (live lists) order ↔ Orders lists order := by
  constructor
  · intro h
    refine ⟨h.nodup, ?_, ?_⟩
    · intro a
      rw [h.mem_iff, flatten_live]
    · intro l hl
      by_cases hnil : l = []
      · simp [hnil]
      · exact h.keeps l (by simp [live, hl, hnil])
  · intro h
    refine ⟨h.nodup, ?_, ?_⟩
    · intro a
      rw [h.mem_iff, flatten_live]
    · intro l hl
      exact h.keeps l (List.mem_of_mem_filter hl)

section Heads

theorem notMem_tail_of_nextHead (h : nextHead lists = some a) : ∀ l ∈ lists, a ∉ l.tail := by
  simpa [nextHead] using List.find?_some h

theorem Orders.nextHead_isSome (h : Orders lists (a :: order)) : (nextHead lists).isSome := by
  have htail : ∀ l ∈ lists, a ∉ l.tail := by
    intro l hl hmem
    have hrest := (h.keeps l hl).tail
    exact (List.nodup_cons.mp h.nodup).1 (hrest.subset hmem)
  have hhead : a ∈ lists.filterMap List.head? := by
    obtain ⟨l, hl, ha⟩ := List.mem_flatten.mp ((h.mem_iff a).mp List.mem_cons_self)
    refine List.mem_filterMap.mpr ⟨l, hl, ?_⟩
    cases l with
    | nil => contradiction
    | cons b l =>
      rcases List.mem_cons.mp ha with rfl | ha
      · rfl
      · exact absurd ha (htail _ hl)
  rw [nextHead, List.find?_isSome]
  exact ⟨a, hhead, by simpa using htail⟩

theorem dropHead_eq_erase {l : List α} (h : a ∉ l.tail) : dropHead a l = l.erase a := by
  cases l with
  | nil => rfl
  | cons b l =>
    by_cases hb : b = a
    · simp [dropHead, hb]
    · have hl : a ∉ l := h
      simp [dropHead, hb, List.erase_of_not_mem hl]

theorem notMem_dropHead {l : List α} (h : a ∉ l.tail) : a ∉ dropHead a l := by
  unfold dropHead
  split
  · exact h
  · rename_i hhead
    cases l with
    | nil => simp
    | cons b l =>
      simp only [List.head?_cons, Option.some.injEq] at hhead
      simpa [Ne.symm hhead] using h

theorem notMem_flatten_dropHead (h : nextHead lists = some a) :
    a ∉ (lists.map (dropHead a)).flatten := by
  intro hmem
  obtain ⟨l, hl, ha⟩ := List.mem_flatten.mp hmem
  obtain ⟨l', hl', rfl⟩ := List.mem_map.mp hl
  exact notMem_dropHead (notMem_tail_of_nextHead h l' hl') ha

theorem Orders.dropHead (h : Orders lists order) (ha : nextHead lists = some a) :
    Orders (lists.map (dropHead a)) (order.erase a) := by
  have hmem := nextHead_mem_flatten ha
  have hgone := notMem_flatten_dropHead ha
  refine ⟨h.nodup.erase a, ?_, ?_⟩
  · intro b
    rw [h.nodup.mem_erase_iff, h.mem_iff, mem_flatten_dropHead hmem]
    constructor
    · rintro ⟨hne, rfl | hb⟩
      · exact absurd rfl hne
      · exact hb
    · intro hb
      exact ⟨fun heq => hgone (heq ▸ hb), Or.inr hb⟩
  · intro l hl
    obtain ⟨l', hl', rfl⟩ := List.mem_map.mp hl
    rw [dropHead_eq_erase (notMem_tail_of_nextHead ha l' hl')]
    exact (h.keeps l' hl').erase a

theorem sublist_cons_dropHead (a : α) (l : List α) : l.Sublist (a :: Precedence.dropHead a l) := by
  unfold Precedence.dropHead
  split
  · rename_i hhead
    rw [List.cons_head?_tail hhead]
  · exact List.sublist_cons_self a l

theorem Orders.cons (h : Orders (lists.map (Precedence.dropHead a)) order)
    (ha : nextHead lists = some a) : Orders lists (a :: order) := by
  have hmem := nextHead_mem_flatten ha
  have hgone := notMem_flatten_dropHead ha
  refine ⟨?_, ?_, ?_⟩
  · rw [List.nodup_cons, h.mem_iff]
    exact ⟨hgone, h.nodup⟩
  · intro b
    rw [mem_flatten_dropHead hmem, List.mem_cons, h.mem_iff]
  · intro l hl
    have hrest := h.keeps _ (List.mem_map_of_mem hl)
    exact (sublist_cons_dropHead a l).trans (hrest.cons_cons a)

end Heads

section Merge

theorem merge_error_round (h : merge limit self (steps + 1) lists found = .error e) :
    (nextHead (live lists) = none ∧ lists.flatten ≠ [] ∧ e = .inconsistent) ∨
      ∃ a, nextHead (live lists) = some a ∧
        (a = self ∧ e = .inconsistent ∨ limit < found.length + 1 ∧ e = .tooDeep ∨
          merge limit self steps ((live lists).map (dropHead a)) (found ++ [a]) = .error e) := by
  rw [merge_succ] at h
  split at h
  · contradiction
  · rename_i hlive
    split at h
    · rename_i hnone
      refine Or.inl ⟨hnone, ?_, (Except.error.inj h).symm⟩
      simpa [live, List.filter_eq_nil_iff] using hlive
    · rename_i a ha
      refine Or.inr ⟨a, ha, ?_⟩
      split at h
      · rename_i hself
        exact Or.inl ⟨hself, (Except.error.inj h).symm⟩
      · split at h
        · rename_i hlimit
          exact Or.inr (Or.inl ⟨hlimit, (Except.error.inj h).symm⟩)
        · exact Or.inr (Or.inr h)

/-- A merge that succeeds has found an order. -/
theorem orders_of_merge (hs : lists.flatten.length < steps)
    (h : merge limit self steps lists found = .ok out) :
    ∃ order, out = found ++ order ∧ Orders lists order := by
  induction steps generalizing lists found with
  | zero => omega
  | succ steps ih =>
    rcases merge_round h with ⟨hnil, rfl⟩ | ⟨a, ha, _, _, h⟩
    · refine ⟨[], by simp, List.nodup_nil, by simp [hnil], ?_⟩
      intro l hl
      rw [List.flatten_eq_nil_iff.mp hnil l hl]
    · have hshort := length_round ha
      obtain ⟨order, rfl, horder⟩ := ih (by omega) h
      exact ⟨a :: order, by simp, orders_live.mp (horder.cons ha)⟩

/-- A merge gets stuck only if there is no order. -/
theorem not_orders_of_merge (hself : self ∉ lists.flatten) (hs : lists.flatten.length < steps)
    (h : merge limit self steps lists found = .error .inconsistent) :
    ¬∃ order, Orders lists order := by
  induction steps generalizing lists found with
  | zero => omega
  | succ steps ih =>
    rintro ⟨order, horder⟩
    have hlive := orders_live.mpr horder
    rcases merge_error_round h with ⟨hnone, hne, _⟩ | ⟨a, ha, ⟨rfl, _⟩ | ⟨_, he⟩ | h⟩
    · -- The first element of the order could have been taken.
      cases order with
      | nil =>
        obtain ⟨b, hb⟩ := List.exists_mem_of_ne_nil _ hne
        exact absurd ((horder.mem_iff b).mpr hb) List.not_mem_nil
      | cons b order =>
        have hsome := hlive.nextHead_isSome
        simp [hnone] at hsome
    · have hmem := nextHead_mem_flatten ha
      rw [flatten_live] at hmem
      exact hself hmem
    · contradiction
    · have hshort := length_round ha
      have hsub := (flatten_dropHead_sublist a (live lists)).subset
      rw [flatten_live] at hsub
      exact ih (fun hmem => hself (hsub hmem)) (by omega) h ⟨_, hlive.dropHead ha⟩

theorem card_round (h : nextHead (live lists) = some a) :
    lists.flatten.toFinset.card = ((live lists).map (dropHead a)).flatten.toFinset.card + 1 := by
  have hset : lists.flatten.toFinset =
      insert a ((live lists).map (dropHead a)).flatten.toFinset := by
    ext b
    rw [← flatten_live lists, List.mem_toFinset, Finset.mem_insert, List.mem_toFinset,
      mem_flatten_dropHead (nextHead_mem_flatten h)]
  rw [hset, Finset.card_insert_of_notMem]
  simpa using notMem_flatten_dropHead h

theorem card_of_merge (hs : lists.flatten.length < steps)
    (h : merge limit self steps lists found = .error .tooDeep) :
    limit < found.length + lists.flatten.toFinset.card := by
  induction steps generalizing lists found with
  | zero => omega
  | succ steps ih =>
    rcases merge_error_round h with ⟨_, _, he⟩ | ⟨a, ha, ⟨_, he⟩ | ⟨hlimit, _⟩ | h⟩
    · contradiction
    · contradiction
    · have hcard := card_round ha
      omega
    · have hcard := card_round ha
      have hshort := length_round ha
      have hrest := ih (by omega) h
      rw [List.length_append, List.length_singleton] at hrest
      omega

theorem Orders.length_eq (h : Orders lists order) :
    order.length = lists.flatten.toFinset.card := by
  rw [← List.toFinset_card_of_nodup h.nodup]
  congr 1
  ext b
  rw [List.mem_toFinset, List.mem_toFinset, h.mem_iff]

end Merge

section Linearize

variable {supers : List α}

theorem orders_of_linearize (h : linearize limit self lists supers = .ok out) :
    ∃ order, out = self :: order ∧ Orders (lists ++ [supers]) order :=
  orders_of_merge (Nat.lt_succ_self _) h

theorem not_orders_of_linearize (hself : self ∉ (lists ++ [supers]).flatten)
    (h : linearize limit self lists supers = .error .inconsistent) :
    ¬∃ order, Orders (lists ++ [supers]) order :=
  not_orders_of_merge hself (Nat.lt_succ_self _) h

theorem card_of_linearize (h : linearize limit self lists supers = .error .tooDeep) :
    limit < 1 + (lists ++ [supers]).flatten.toFinset.card :=
  card_of_merge (Nat.lt_succ_self _) h

theorem linearize_eq_ok (hself : self ∉ (lists ++ [supers]).flatten)
    (horder : ∃ order, Orders (lists ++ [supers]) order)
    (hfits : 1 + (lists ++ [supers]).flatten.toFinset.card ≤ limit) :
    ∃ order, linearize limit self lists supers = .ok (self :: order) ∧
      Orders (lists ++ [supers]) order := by
  cases h : linearize limit self lists supers with
  | ok out =>
    obtain ⟨order, rfl, hout⟩ := orders_of_linearize h
    exact ⟨order, rfl, hout⟩
  | error e =>
    cases e with
    | inconsistent => exact absurd horder (not_orders_of_linearize hself h)
    | tooDeep =>
      have := card_of_linearize h
      omega

theorem linearize_eq_tooDeep (hne : supers ≠ []) (hself : self ∉ (lists ++ [supers]).flatten)
    (horder : ∃ order, Orders (lists ++ [supers]) order)
    (hlarge : limit < 1 + (lists ++ [supers]).flatten.toFinset.card) :
    linearize limit self lists supers = .error .tooDeep := by
  cases h : linearize limit self lists supers with
  | ok out =>
    have hlimit := length_linearize hne h
    obtain ⟨order, rfl, hout⟩ := orders_of_linearize h
    rw [List.length_cons, hout.length_eq] at hlimit
    omega
  | error e =>
    cases e with
    | inconsistent => exact absurd horder (not_orders_of_linearize hself h)
    | tooDeep => rfl

theorem linearize_eq_inconsistent (hnone : ¬∃ order, Orders (lists ++ [supers]) order)
    (hfits : 1 + (lists ++ [supers]).flatten.toFinset.card ≤ limit) :
    linearize limit self lists supers = .error .inconsistent := by
  cases h : linearize limit self lists supers with
  | ok out =>
    obtain ⟨order, _, hout⟩ := orders_of_linearize h
    exact absurd ⟨order, hout⟩ hnone
  | error e =>
    cases e with
    | inconsistent => rfl
    | tooDeep =>
      have := card_of_linearize h
      omega

end Linearize

omit [DecidableEq α] in
theorem not_sublist_swap (h : order.Nodup) (hab : [a, b].Sublist order) :
    ¬[b, a].Sublist order := by
  intro hba
  induction order with
  | nil => cases hab
  | cons c order ih =>
    obtain ⟨hc, hnodup⟩ := List.nodup_cons.mp h
    cases hab with
    | cons _ hab =>
      cases hba with
      | cons _ hba => exact ih hnodup hab hba
      | cons_cons _ hba => exact hc (hab.subset (by simp))
    | cons_cons _ hb =>
      cases hba with
      | cons _ hba => exact hc (hba.subset (by simp))
      | cons_cons _ _ => exact hc (hb.subset (by simp))

omit [DecidableEq α] in
theorem not_orders_of_swap {l l' : List α} (hl : l ∈ lists) (hl' : l' ∈ lists)
    (hab : [a, b].Sublist l) (hba : [b, a].Sublist l') : ¬∃ order, Orders lists order := by
  rintro ⟨order, h⟩
  exact not_sublist_swap h.nodup (hab.trans (h.keeps l hl)) (hba.trans (h.keeps l' hl'))

end Metaobject.Precedence

namespace Metaobject.Registry

open Precedence

/-- What the precedence list of a class with these direct superclasses has to keep: their precedence
lists, and the order of the superclasses themselves. -/
def precedences (r : Registry) (supers : List ClassId) : List (List ClassId) :=
  supers.map r.precedenceList ++ [supers]

/-- The length of such a precedence list, the class itself included. -/
def extent (r : Registry) (supers : List ClassId) : Nat :=
  1 + (r.precedences supers).flatten.toFinset.card

/-- A class gets a precedence list just if some order keeps those of its superclasses and the list is
within the limit, and then it is the class and such an order. Otherwise it is reported which of the
two fails. -/
theorem linearized_sound_complete (r : Registry) (limits : Limits) (label : String) {self : ClassId}
    {supers : List ClassId} (hne : supers ≠ []) (hself : self ∉ (r.precedences supers).flatten) :
    ((∃ order, Orders (r.precedences supers) order) →
      (r.extent supers ≤ limits.maxPrecedenceDepth →
        ∃ order, Orders (r.precedences supers) order ∧
          linearize limits.maxPrecedenceDepth self (supers.map r.precedenceList) supers =
            .ok (self :: order) ∧
          r.linearized limits self label supers = .ok order) ∧
      (limits.maxPrecedenceDepth < r.extent supers →
        r.linearized limits self label supers =
          .error (.hierarchyTooDeep label limits.maxPrecedenceDepth))) ∧
    ((¬∃ order, Orders (r.precedences supers) order) →
      (∀ order, r.linearized limits self label supers ≠ .ok order) ∧
      (r.extent supers ≤ limits.maxPrecedenceDepth →
        r.linearized limits self label supers = .error (.inconsistentPrecedence label))) := by
  constructor
  · intro horder
    constructor
    · intro hfits
      obtain ⟨order, hok, hfound⟩ := linearize_eq_ok hself horder hfits
      refine ⟨order, hfound, hok, ?_⟩
      rw [linearized, hok]
      rfl
    · intro hlarge
      rw [linearized, linearize_eq_tooDeep hne hself horder hlarge]
  · intro hnone
    constructor
    · intro order hok
      rw [linearized] at hok
      split at hok
      · rename_i out hout
        obtain ⟨found, _, hfound⟩ := orders_of_linearize hout
        exact hnone ⟨found, hfound⟩
      · contradiction
      · contradiction
    · intro hfits
      rw [linearized, linearize_eq_inconsistent hnone hfits]

def crossed : Registry :=
  ((((fresh Limits.standard).perform (.define ⟨⟨"LEFT"⟩, [], [], none⟩)).perform
    (.define ⟨⟨"RIGHT"⟩, [], [], none⟩)).perform
    (.define ⟨⟨"DOOR"⟩, [⟨"LEFT"⟩, ⟨"RIGHT"⟩], [], none⟩)).perform
    (.define ⟨⟨"GATE"⟩, [⟨"RIGHT"⟩, ⟨"LEFT"⟩], [], none⟩)

theorem crossed_sound_complete :
    (24 ∉ (crossed.precedences [20, 21]).flatten ∧ crossed.extent [20, 21] = 5 ∧
      ∃ order, Orders (crossed.precedences [20, 21]) order ∧
        crossed.linearized Limits.standard 24 "#<STANDARD-CLASS WALL>" [20, 21] = .ok order) ∧
    24 ∉ (crossed.precedences [22, 23]).flatten ∧ crossed.extent [22, 23] = 7 ∧
      crossed.linearized Limits.standard 24 "#<STANDARD-CLASS WALL>" [22, 23] =
        .error (.inconsistentPrecedence "#<STANDARD-CLASS WALL>") := by
  have hsides : crossed.precedences [20, 21] = [[20, 1, 0], [21, 1, 0], [20, 21]] := by
    decide +kernel
  have hcrossed : crossed.precedences [22, 23] =
      [[22, 20, 21, 1, 0], [23, 21, 20, 1, 0], [22, 23]] := by
    decide +kernel
  have horder : Orders (crossed.precedences [20, 21]) [20, 21, 1, 0] := by
    rw [hsides]
    refine ⟨by decide, ?_, by decide⟩
    intro a
    simp
    tauto
  have hnone : ¬∃ order, Orders (crossed.precedences [22, 23]) order := by
    have hdoor : [20, 21].Sublist [22, 20, 21, 1, 0] := by decide
    have hgate : [21, 20].Sublist [23, 21, 20, 1, 0] := by decide
    rw [hcrossed]
    exact not_orders_of_swap (by simp) (by simp) hdoor hgate
  have hself : 24 ∉ (crossed.precedences [20, 21]).flatten := by simp [hsides]
  have hself' : 24 ∉ (crossed.precedences [22, 23]).flatten := by simp [hcrossed]
  have hextent : crossed.extent [20, 21] = 5 := by
    rw [extent, hsides]
    decide
  have hextent' : crossed.extent [22, 23] = 7 := by
    rw [extent, hcrossed]
    decide
  refine ⟨⟨hself, hextent, ?_⟩, hself', hextent', ?_⟩
  · obtain ⟨hfound, _⟩ := linearized_sound_complete crossed Limits.standard
      "#<STANDARD-CLASS WALL>" (by simp) hself
    obtain ⟨order, hkeeps, _, hok⟩ := (hfound ⟨_, horder⟩).1 (by rw [hextent]; decide)
    exact ⟨order, hkeeps, hok⟩
  · obtain ⟨_, hstuck⟩ := linearized_sound_complete crossed Limits.standard
      "#<STANDARD-CLASS WALL>" (by simp) hself'
    exact (hstuck hnone).2 (by rw [hextent']; decide)

end Metaobject.Registry
