import Metaobject.Proofs.Reachability
import Mathlib.Data.List.Dedup

/-!
# The order of slots

The slots of a finalized class are those along its precedence list, from the most general class on,
where of a slot that is declared several times the last declaration counts. The two steps that put
them together, one for the superclasses and one for the class itself, both come down to keeping last
occurrences.
-/

namespace Metaobject

namespace Precedence

variable {α : Type} [DecidableEq α]

theorem keepLast_eq_dedup (l : List α) : keepLast l = l.dedup := by
  induction l with
  | nil => rfl
  | cons a l ih =>
    rw [keepLast]
    split
    · rename_i ha
      rw [ih, List.dedup_cons_of_mem ha]
    · rename_i ha
      rw [ih, List.dedup_cons_of_notMem ha]

theorem nodup_keepLast (l : List α) : (keepLast l).Nodup := by
  rw [keepLast_eq_dedup]
  exact List.nodup_dedup l

theorem keepLast_of_nodup {l : List α} (h : l.Nodup) : keepLast l = l := by
  rw [keepLast_eq_dedup]
  exact h.dedup

theorem keepLast_append (l l' : List α) :
    keepLast (l ++ l') = (keepLast l).filter (fun a => a ∉ l') ++ keepLast l' := by
  induction l with
  | nil => rfl
  | cons a l ih =>
    rw [List.cons_append, keepLast, keepLast, ih]
    by_cases hl : a ∈ l
    · simp [hl]
    · by_cases hl' : a ∈ l'
      · simp [hl, hl']
      · simp [hl, hl']

theorem keepLast_keepLast_append (l l' : List α) :
    keepLast (keepLast l ++ l') = keepLast (l ++ l') := by
  rw [keepLast_append, keepLast_append, keepLast_of_nodup (nodup_keepLast l)]

end Precedence

open Precedence

section Slots

variable {own inherited : List Symbol}

theorem mergeSlots_eq_keepLast (hown : own.Nodup) (hinherited : inherited.Nodup) :
    mergeSlots own inherited = keepLast (inherited ++ own) := by
  rw [mergeSlots, keepLast_append, keepLast_of_nodup hown, keepLast_of_nodup hinherited]

/-- Moving the slots that are declared again to the end, one by one, keeps their last occurrences. -/
theorem declareSlots_eq_keepLast (hinherited : inherited.Nodup) :
    declareSlots inherited own = keepLast (inherited ++ own) := by
  induction own generalizing inherited with
  | nil =>
    rw [List.append_nil, keepLast_of_nodup hinherited]
    rfl
  | cons s own ih =>
    have hmoved : (inherited.erase s ++ [s]).Nodup := by
      rw [List.nodup_append]
      refine ⟨hinherited.erase s, List.nodup_singleton s, ?_⟩
      intro a ha b hb hab
      rw [List.mem_singleton.mp hb] at hab
      exact hinherited.not_mem_erase (hab ▸ ha)
    -- The slot that moves is declared here, and so is dropped from what is inherited either way.
    have herase : (inherited.erase s).filter (fun a => a ∉ s :: own) =
        inherited.filter (fun a => a ∉ s :: own) := by
      rw [hinherited.erase_eq_filter, List.filter_filter]
      apply List.filter_congr
      intro a _
      by_cases ha : a = s <;> simp [ha]
    change declareSlots (inherited.erase s ++ [s]) own = _
    rw [ih hmoved, List.append_assoc, List.singleton_append, keepLast_append, keepLast_append,
      keepLast_of_nodup hinherited, keepLast_of_nodup (hinherited.erase s), herase]

theorem collectSlots_eq_keepLast {α : Type} (slots : α → List Symbol) (precedence : List α) :
    collectSlots slots precedence = keepLast (precedence.reverse.flatMap slots) := by
  have hfold : ∀ (l : List α) (found : List Symbol), found.Nodup →
      l.foldl (fun found c => declareSlots found (slots c)) found =
        keepLast (found ++ l.flatMap slots) := by
    intro l
    induction l with
    | nil =>
      intro found hfound
      simp [keepLast_of_nodup hfound]
    | cons c l ih =>
      intro found hfound
      rw [List.foldl_cons, declareSlots_eq_keepLast hfound, ih _ (nodup_keepLast _),
        keepLast_keepLast_append, List.flatMap_cons, List.append_assoc]
  exact hfold precedence.reverse [] List.nodup_nil

theorem nodup_of_build {owner : Option Symbol} {l : Layout}
    (h : Layout.build owner own inherited = .ok l) : own.Nodup ∧ inherited.Nodup := by
  unfold Layout.build at h
  split at h
  · contradiction
  · rename_i hown
    split at h
    · contradiction
    · rename_i hinherited
      exact ⟨(nodup_of_firstRepeat hown).1, (nodup_of_firstRepeat hinherited).1⟩

theorem firstRepeat_of_nodup {α : Type} [DecidableEq α] {seen l : List α} (hl : l.Nodup)
    (hseen : ∀ a ∈ l, a ∉ seen) : firstRepeat seen l = none := by
  induction l generalizing seen with
  | nil => rfl
  | cons a l ih =>
    obtain ⟨ha, hl⟩ := List.nodup_cons.mp hl
    rw [firstRepeat, if_neg (hseen a List.mem_cons_self)]
    apply ih hl
    intro b hb hmem
    rcases List.mem_cons.mp hmem with rfl | hmem
    · exact ha hb
    · exact hseen b (List.mem_cons_of_mem a hb) hmem

theorem exists_build (owner : Option Symbol) {own inherited : List Symbol} (hown : own.Nodup)
    (hinherited : inherited.Nodup) : ∃ l, Layout.build owner own inherited = .ok l := by
  have hown : firstRepeat [] own = none := firstRepeat_of_nodup hown (by simp)
  have hinherited : firstRepeat [] inherited = none := firstRepeat_of_nodup hinherited (by simp)
  unfold Layout.build
  split
  · simp_all
  · split
    · simp_all
    · exact ⟨_, rfl⟩

end Slots

namespace Precedence

section Single

variable {α : Type} [DecidableEq α] {limit steps : Nat} {self : α} {found out : List α}

theorem merge_live (lists : List (List α)) :
    merge limit self (steps + 1) (live lists) found = merge limit self (steps + 1) lists found := by
  rw [merge_succ, merge_succ, live, live, List.filter_filter]
  simp only [Bool.and_self]

theorem merge_single {l : List α} (hs : l.length < steps)
    (h : merge limit self steps [l] found = .ok out) : out = found ++ l := by
  induction steps generalizing l found with
  | zero => omega
  | succ steps ih =>
    rcases merge_round h with ⟨hnil, rfl⟩ | ⟨a, ha, _, _, h⟩
    · simp at hnil
      simp [hnil]
    · cases l with
      | nil => simp [live, nextHead] at ha
      | cons b l =>
        have hab : b = a := by
          obtain ⟨l', hl', hhead⟩ := nextHead_head ha
          simp [live] at hl'
          simpa [hl'] using hhead
        subst hab
        have hdrop : (live [b :: l]).map (dropHead b) = [l] := by simp [live, dropHead]
        rw [hdrop] at h
        have := ih (by simp at hs; omega) h
        simpa using this

theorem linearize_single {super : α} {l : List α}
    (h : linearize limit self [super :: l] [super] = .ok out) : out = self :: super :: l := by
  rw [linearize] at h
  rcases merge_round h with ⟨hnil, _⟩ | ⟨a, ha, _, _, h⟩
  · simp at hnil
  · have hsuper : super = a := by
      obtain ⟨l', hl', hhead⟩ := nextHead_head ha
      simp [live] at hl'
      rcases hl' with rfl | rfl
      · simpa using hhead
      · simpa using hhead
    subst hsuper
    -- The first round takes the superclass from both lists and leaves its precedence list alone.
    have hdrop : (live ([super :: l] ++ [[super]])).map (dropHead super) = [l, []] := by
      simp [live, dropHead]
    have hlive : live [l, []] = live [l] := by cases l <;> simp [live]
    have hsteps : ([super :: l] ++ [[super]]).flatten.length = (l.length + 1) + 1 := by simp
    rw [hdrop, hsteps, ← merge_live, hlive, merge_live] at h
    exact merge_single (by omega) h

end Single

end Precedence

namespace KernelClass

theorem slots_generation (k : KernelClass) : k.generation.slots = k.slots := by
  cases k <;> rfl

theorem layout_generation (k : KernelClass) :
    ∃ l, k.generation.layout = some l ∧ l.slots = k.slots := by
  cases k <;> exact ⟨_, rfl, rfl⟩

theorem slots_eq_keepLast (k : KernelClass) :
    k.slots = keepLast ((k :: k.ancestors).reverse.flatMap slots) := by
  cases k <;> decide

theorem ancestors_single {k s : KernelClass} (h : k.superclasses = [s]) :
    k.ancestors = s :: s.ancestors := by
  rw [ancestors_eq_keepLast, h, List.flatMap_singleton]
  cases s <;> decide

end KernelClass

namespace Registry

variable {limits : Limits} {r : Registry} {c s : ClassId} {k : StandardClass}

/-- The slots that classes declare, from the last of a precedence list to the first. -/
def declaredSlots (r : Registry) (precedence : List ClassId) : List Symbol :=
  precedence.reverse.flatMap r.slots

theorem declaredSlots_cons (r : Registry) (c : ClassId) (precedence : List ClassId) :
    r.declaredSlots (c :: precedence) = r.declaredSlots precedence ++ r.slots c := by
  simp [declaredSlots]

theorem nodup_inheritedSlots (r : Registry) (precedence : List ClassId) :
    (r.inheritedSlots precedence).Nodup := by
  have hkeep := collectSlots_eq_keepLast r.slots precedence
  change (collectSlots r.slots precedence).Nodup
  rw [hkeep]
  exact Precedence.nodup_keepLast _

theorem slots_of_outline? {o : Outline ClassId} (h : r.outline? c k = some o) :
    k.slots.Nodup ∧ o.slots = keepLast (r.declaredSlots o.precedence ++ k.slots) := by
  have hready := (fits_of_outline? h).ready
  rw [outline?, outline_shapeOf_id _ _ _ hready fun _ _ => rfl, outlineFrom] at h
  split at h
  · contradiction
  · split at h
    · contradiction
    · rename_i layout hlayout
      split at h
      · contradiction
      · cases h
        obtain ⟨hown, hinherited⟩ := nodup_of_build hlayout
        refine ⟨hown, ?_⟩
        rw [slots_build hlayout, mergeSlots_eq_keepLast hown hinherited, collectSlots_eq_keepLast,
          keepLast_keepLast_append]
        rfl

theorem precedence_of_outline? {o : Outline ClassId} (h : r.outline? c k = some o)
    (hsuper : k.superclasses = [s]) : o.precedence = r.precedenceList s := by
  have hready := (fits_of_outline? h).ready
  rw [outline?, outline_shapeOf_id _ _ _ hready fun _ _ => rfl, outlineFrom, hsuper] at h
  obtain ⟨shape, hshape⟩ := isFinalized_iff.mp (hready s (by simp [hsuper]))
  rw [List.map_singleton, precedenceList_finalized hshape] at h
  rw [precedenceList_finalized hshape]
  split at h
  · contradiction
  · rename_i list hlist
    split at h
    · contradiction
    · split at h
      · contradiction
      · cases h
        rw [linearize_single hlist]
        rfl

theorem Invariant.outline?_of_shape (h : r.Invariant) (hc : ¬IsKernel c) {shape : Shape}
    (hshape : (r.generation c).shape = some shape) :
    ∃ k, r.generation c = .standard k ∧ r.outline? c k = some shape.outline := by
  have huser := h.user c hc
  cases hg : r.generation c with
  | forwardReferenced name => rw [hg] at hshape; contradiction
  | methodClass k => rw [hg] at huser; contradiction
  | builtIn k => rw [hg] at huser; contradiction
  | standard k =>
    rw [hg] at huser hshape
    refine ⟨k, rfl, ?_⟩
    rw [← h.settled c k hg huser.1]
    exact congrArg (Option.map Shape.outline) hshape

theorem Invariant.slots_kernel (h : r.Invariant) (k : KernelClass) : r.slots k.id = k.slots := by
  rw [slots, h.kernel, KernelClass.slots_generation]

/-- The layout of a finalized class, for the classes of the kernel as for all others. -/
theorem Invariant.layout_slots (h : r.Invariant) (hc : r.isFinalized c) :
    ∃ l, r.layout c = some l ∧ (r.slots c).Nodup ∧
      l.slots = keepLast (r.declaredSlots (r.precedenceList c)) := by
  obtain ⟨shape, hshape⟩ := isFinalized_iff.mp hc
  by_cases hk : IsKernel c
  · obtain ⟨k, rfl⟩ := hk
    obtain ⟨l, hl, hslots⟩ := k.layout_generation
    refine ⟨l, ?_, ?_, ?_⟩
    · rw [layout, h.kernel, hl]
    · rw [h.slots_kernel]
      exact k.nodup_slots
    · have hdeclared : r.slots ∘ KernelClass.id = KernelClass.slots := funext h.slots_kernel
      rw [hslots, KernelClass.slots_eq_keepLast, h.precedenceList_kernel, declaredSlots,
        ← List.map_reverse, List.flatMap_map]
      exact congrArg (fun f => keepLast (List.flatMap f _)) hdeclared.symm
  · obtain ⟨k, hg, houtline⟩ := h.outline?_of_shape hk hshape
    obtain ⟨hown, hslots⟩ := slots_of_outline? houtline
    have hk : r.slots c = k.slots := congrArg Generation.slots hg
    refine ⟨shape.layout, congrArg (Option.map Shape.layout) hshape, ?_, ?_⟩
    · rwa [hk]
    · rw [precedenceList_finalized hshape, declaredSlots_cons, hk]
      exact hslots

theorem Invariant.precedenceList_single (h : r.Invariant) (hc : r.isFinalized c)
    (hsuper : r.superclasses c = [s]) : r.precedenceList c = c :: r.precedenceList s := by
  obtain ⟨shape, hshape⟩ := isFinalized_iff.mp hc
  by_cases hk : IsKernel c
  · obtain ⟨k, rfl⟩ := hk
    rw [h.superclasses_kernel] at hsuper
    obtain ⟨l, hl, rfl⟩ := List.map_eq_singleton_iff.mp hsuper
    rw [h.precedenceList_kernel, h.precedenceList_kernel, KernelClass.ancestors_single hl]
    rfl
  · obtain ⟨k, hg, houtline⟩ := h.outline?_of_shape hk hshape
    have hk : k.superclasses = [s] := (congrArg Generation.superclasses hg).symm.trans hsuper
    rw [precedenceList_finalized hshape]
    exact congrArg (c :: ·) (precedence_of_outline? houtline hk)

/-- The slots of a finalized class are those that the classes of its precedence list declare now,
from the most general class on and each name at its last place. With one superclass these are the
slots of that class but for the ones that are declared again, and then the own ones. -/
theorem reachable_layout_slots (h : Reachable limits r) (hc : r.isFinalized c) :
    ∃ l, r.layout c = some l ∧
      l.slots = keepLast ((r.precedenceList c).reverse.flatMap r.slots) ∧
      ∀ s, r.superclasses c = [s] → ∃ ls, r.layout s = some ls ∧
        l.slots = ls.slots.filter (fun n => n ∉ r.slots c) ++ r.slots c := by
  obtain ⟨hinv, _⟩ := h.invariant
  obtain ⟨l, hl, hown, hslots⟩ := hinv.layout_slots hc
  refine ⟨l, hl, hslots, ?_⟩
  intro s hsuper
  obtain ⟨shape, hshape⟩ := isFinalized_iff.mp hc
  have hready : r.isFinalized s :=
    (hinv.precedence_superclasses (hinv.settled c) hshape).1 s (by simp [hsuper])
  obtain ⟨ls, hls, _, hsuperSlots⟩ := hinv.layout_slots hready
  refine ⟨ls, hls, ?_⟩
  rw [hslots, hinv.precedenceList_single hc hsuper, declaredSlots_cons, keepLast_append,
    keepLast_of_nodup hown, hsuperSlots]

/-- A class, two below it that declare one of its slots again, and one below both. -/
def diamond : Registry :=
  ((((fresh Limits.standard).perform (.define ⟨⟨"TOP"⟩, [], [⟨"X"⟩, ⟨"Y"⟩], none⟩)).perform
    (.define ⟨⟨"LEFT"⟩, [⟨"TOP"⟩], [⟨"Y"⟩, ⟨"Z"⟩], none⟩)).perform
    (.define ⟨⟨"RIGHT"⟩, [⟨"TOP"⟩], [⟨"X"⟩, ⟨"W"⟩], none⟩)).perform
    (.define ⟨⟨"BOTTOM"⟩, [⟨"LEFT"⟩, ⟨"RIGHT"⟩], [⟨"Z"⟩], none⟩)

theorem reachable_diamond : Reachable Limits.standard diamond :=
  .step (.step (.step (.step .fresh trivial) trivial) trivial) trivial

theorem diamond_layout_slots :
    Reachable Limits.standard diamond ∧ diamond.isFinalized 23 ∧ diamond.isFinalized 21 ∧
      (∃ l, diamond.layout 23 = some l ∧ l.slots = [⟨"X"⟩, ⟨"W"⟩, ⟨"Y"⟩, ⟨"Z"⟩]) ∧
      ∃ l, diamond.layout 21 = some l ∧ l.slots = [⟨"X"⟩, ⟨"Y"⟩, ⟨"Z"⟩] := by
  obtain ⟨hbottom, hleft, hdeclared, hsuper, htop, hown⟩ :
      diamond.isFinalized 23 ∧ diamond.isFinalized 21 ∧
        keepLast ((diamond.precedenceList 23).reverse.flatMap diamond.slots) =
          [⟨"X"⟩, ⟨"W"⟩, ⟨"Y"⟩, ⟨"Z"⟩] ∧
        diamond.superclasses 21 = [20] ∧
        diamond.layout 20 = some ⟨some ⟨"TOP"⟩, 1, [⟨"X"⟩, ⟨"Y"⟩], by decide⟩ ∧
        diamond.slots 21 = [⟨"Y"⟩, ⟨"Z"⟩] := by
    decide +kernel
  refine ⟨reachable_diamond, hbottom, hleft, ?_, ?_⟩
  · obtain ⟨l, hl, hslots, _⟩ := reachable_layout_slots reachable_diamond hbottom
    exact ⟨l, hl, hslots.trans hdeclared⟩
  · obtain ⟨l, hl, _, hsingle⟩ := reachable_layout_slots reachable_diamond hleft
    obtain ⟨ls, hls, hslots⟩ := hsingle 20 hsuper
    cases htop.symm.trans hls
    rw [hown] at hslots
    exact ⟨l, hl, hslots⟩

end Registry

end Metaobject
