import Metaobject.Proofs.Rebuilding

/-!
# Cascades

The descendants of a class are the classes that inherit from it. Since no class inherits from
itself, they can always be brought into an order in which superclasses come first: a cascade builds
each of them again, once.
-/

namespace Metaobject.Registry

variable {r : Registry} {root : ClassId}

theorem inherits_subclass (h : r.WellFormed) {a b : ClassId} :
    Graph.Reaches (fun c => (r.subclasses c).reverse) b a ↔ r.Inherits a b := by
  have hedge : (fun x y => y ∈ (r.subclasses x).reverse) =
      Function.swap fun x y => y ∈ r.superclasses x := by
    funext x y
    exact propext (List.mem_reverse.trans (h.links x y))
  change Relation.ReflTransGen (fun x y => y ∈ (r.subclasses x).reverse) b a ↔ _
  rw [hedge, Relation.reflTransGen_swap]

theorem mem_descendants (h : r.WellFormed) {a : ClassId} :
    a ∈ r.descendants root ↔ r.Descends a root := by
  have hsize : ∀ c, r.cells.length ≤ c → (r.subclasses c).reverse = [] := fun c hc => by
    rw [subclasses_of_le hc, List.reverse_nil]
  rw [descendants, Graph.mem_preorder hsize, Descends, Relation.TransGen.tail'_iff]
  apply exists_congr
  intro b
  rw [inherits_subclass h, List.mem_reverse, h.links, and_comm]

theorem nodup_descendants (r : Registry) (root : ClassId) : (r.descendants root).Nodup := by
  apply Graph.nodup_preorder
  intro c hc
  rw [subclasses_of_le hc, List.reverse_nil]

section SettlingOrder

variable {supers : ClassId → List ClassId} {affected done pending : List ClassId}

theorem exists_ready (hwf : WellFounded fun s c => s ∈ supers c) (h : pending ≠ []) :
    ∃ c ∈ pending, ∀ s ∈ supers c, s ∉ pending := by
  obtain ⟨c, hc, hmin⟩ := hwf.has_min {c | c ∈ pending} (List.exists_mem_of_ne_nil pending h)
  exact ⟨c, hc, fun s hs hmem => hmin s hmem hs⟩

theorem ready_iff (haffected : ∀ c ∈ pending, c ∈ affected)
    (hcover : ∀ s ∈ affected, s ∈ done ∨ s ∈ pending) (hdone : ∀ s ∈ done, s ∉ pending)
    {c : ClassId} : (supers c).all (fun s => s ∈ done || s ∉ affected) = true ↔
      ∀ s ∈ supers c, s ∉ pending := by
  rw [List.all_eq_true]
  apply forall₂_congr
  intro s _
  have := hcover s
  have := hdone s
  have := haffected s
  simp only [Bool.or_eq_true, decide_eq_true_eq]
  tauto

/-- No class is left over, and none comes before one of its superclasses. -/
theorem settlingOrder_spec (hwf : WellFounded fun s c => s ∈ supers c)
    (hnodup : pending.Nodup) (haffected : ∀ c ∈ pending, c ∈ affected)
    (hcover : ∀ s ∈ affected, s ∈ done ∨ s ∈ pending) (hdone : ∀ s ∈ done, s ∉ pending) :
    (settlingOrder supers affected done pending).Perm pending ∧
      (settlingOrder supers affected done pending).Pairwise fun a b => b ∉ supers a := by
  induction hn : pending.length generalizing done pending with
  | zero =>
    rw [List.length_eq_zero_iff.mp hn, settlingOrder]
    exact ⟨.refl [], .nil⟩
  | succ n ih =>
    rw [settlingOrder]
    split
    · rename_i hfind
      have hne : pending ≠ [] := by
        rintro rfl
        contradiction
      obtain ⟨c, hc, hs⟩ := exists_ready hwf hne
      exact absurd ((ready_iff haffected hcover hdone).mpr hs) (List.find?_eq_none.mp hfind c hc)
    · rename_i c hfind
      have hc := List.mem_of_find?_eq_some hfind
      have hall := List.find?_some hfind
      have hs := (ready_iff haffected hcover hdone).mp hall
      have hmem : ∀ a, a ∈ pending.erase c ↔ a ≠ c ∧ a ∈ pending := fun a =>
        hnodup.mem_erase_iff
      obtain ⟨hperm, hfirst⟩ := @ih (c :: done) (pending.erase c) (hnodup.erase c)
        (fun a ha => haffected a ((hmem a).mp ha).2)
        (fun s hs => by
          have := hcover s hs
          have := hmem s
          simp only [List.mem_cons]
          tauto)
        (fun s hs h => by
          rcases List.mem_cons.mp hs with rfl | hs
          · exact ((hmem s).mp h).1 rfl
          · exact hdone s hs ((hmem s).mp h).2)
        (by rw [List.length_erase_of_mem hc]; omega)
      refine ⟨(hperm.cons c).trans (List.perm_cons_erase hc).symm, List.Pairwise.cons ?_ hfirst⟩
      intro b hb hbs
      exact hs b hbs ((hmem b).mp (hperm.subset hb)).2

end SettlingOrder

theorem cascadeOrder_spec (h : r.WellFormed) (root : ClassId) :
    (r.cascadeOrder root).Perm (r.descendants root) ∧
      (r.cascadeOrder root).Pairwise fun a b => b ∉ r.superclasses a := by
  apply settlingOrder_spec h.acyclic (nodup_descendants r root)
  · exact fun _ => id
  · exact fun _ => Or.inr
  · intro s hs
    rw [List.mem_singleton.mp hs, mem_descendants h]
    exact h.not_descends_self root

theorem mem_cascadeOrder (h : r.WellFormed) {a : ClassId} :
    a ∈ r.cascadeOrder root ↔ r.Descends a root := by
  rw [(cascadeOrder_spec h root).1.mem_iff, mem_descendants h]

theorem WellFormed.standard_of_descends (h : r.WellFormed) (hroot : ¬IsKernel root) {a : ClassId}
    (ha : r.Descends a root) : ∃ k, r.generation a = .standard k ∧ k.isSealed = false := by
  have hkernel : ¬IsKernel a := fun hk => hroot (h.isKernel_inherits hk ha.to_reflTransGen)
  have huser := h.user a hkernel
  obtain ⟨b, hb, _⟩ := Relation.TransGen.head'_iff.mp ha
  cases hg : r.generation a with
  | forwardReferenced name =>
    rw [superclasses, hg] at hb
    contradiction
  | standard k =>
    rw [hg] at huser
    exact ⟨k, rfl, huser.1⟩
  | methodClass k => rw [hg] at huser; contradiction
  | builtIn k => rw [hg] at huser; contradiction

theorem WellFormed.awaits_cascadeOrder (h : r.WellFormed) (hroot : ¬IsKernel root)
    (hsettled : r.SettledBut (r.Descends · root)) : r.Awaits (r.cascadeOrder root) where
  toWellFormed := h
  nodup := (cascadeOrder_spec h root).1.nodup_iff.mpr (nodup_descendants r root)
  first := (cascadeOrder_spec h root).2
  standard _ ha := h.standard_of_descends hroot ((mem_cascadeOrder h).mp ha)
  settledBut := by simpa only [mem_cascadeOrder h] using hsettled

/-- A cascade settles what inherits from the class, and touches nothing else. -/
theorem cascade_settles (h : r.WellFormed) (hroot : ¬IsKernel root)
    (hsettled : r.SettledBut (r.Descends · root)) :
    (r.cascade root).Invariant ∧ r.Reshaped (r.cascade root) (r.Descends · root) ∧
      ∀ a, r.Descends a root →
        (r.cascade root).built a = r.built a + (r.cascade root).attempts a := by
  have hrebuilt := rebuild_settles (h.awaits_cascadeOrder hroot hsettled)
  simpa only [cascade, mem_cascadeOrder h] using hrebuilt

section Loop

/-- How a cascade ends: the registry, the classes that were built again, in order, and those that
were left. -/
structure Outcome where
  registry : Registry
  rebuilt : List ClassId
  left : List ClassId

/-- The cascade as a loop over the classes that are to be built again. A round takes the first of
them that waits for no other, as the registry stands then; without one the loop breaks off. -/
def settle (affected done pending : List ClassId) (r : Registry) : Outcome :=
  match _h : pending.find? (fun c =>
      (r.superclasses c).all (fun s => s ∈ done || s ∉ affected)) with
  | none => ⟨r, [], pending⟩
  | some c =>
    let o := settle affected (c :: done) (pending.erase c) (r.refinalize c)
    { o with rebuilt := c :: o.rebuilt }
termination_by pending.length
decreasing_by
  have hc := List.mem_of_find?_eq_some _h
  have := List.length_erase_of_mem hc
  have := List.length_pos_of_mem hc
  omega

theorem settle_of_none {affected done pending : List ClassId}
    (h : pending.find? (fun c =>
      (r.superclasses c).all (fun s => s ∈ done || s ∉ affected)) = none) :
    settle affected done pending r = ⟨r, [], pending⟩ ∧
      settlingOrder r.superclasses affected done pending = [] := by
  rw [settle, settlingOrder]
  constructor
  · split
    · rfl
    · rename_i hsome
      cases h.symm.trans hsome
  · split
    · rfl
    · rename_i hsome
      cases h.symm.trans hsome

theorem settle_of_some {affected done pending : List ClassId} {c : ClassId}
    (h : pending.find? (fun c =>
      (r.superclasses c).all (fun s => s ∈ done || s ∉ affected)) = some c) :
    settle affected done pending r =
        { settle affected (c :: done) (pending.erase c) (r.refinalize c) with
          rebuilt := c :: (settle affected (c :: done) (pending.erase c) (r.refinalize c)).rebuilt } ∧
      settlingOrder r.superclasses affected done pending =
        c :: settlingOrder r.superclasses affected (c :: done) (pending.erase c) := by
  rw [settle, settlingOrder]
  constructor
  · split
    · rename_i hnone
      cases h.symm.trans hnone
    · rename_i hsome
      cases h.symm.trans hsome
      rfl
  · split
    · rename_i hnone
      cases h.symm.trans hnone
    · rename_i hsome
      cases h.symm.trans hsome
      rfl

/-- Building a class again changes no superclasses, so that the order may be fixed beforehand. -/
theorem superclasses_refinalize (r : Registry) (c : ClassId) :
    (r.refinalize c).superclasses = r.superclasses := by
  funext d
  cases hg : r.generation c with
  | standard k =>
    by_cases hs : k.isSealed
    · rw [refinalize, hg]
      simp [Generation.isSealed, hs]
    · exact (reshaped_refinalize hg (by simpa using hs)).superclasses d
  | methodClass k => rw [refinalize, hg]; rfl
  | builtIn k => rw [refinalize, hg]; rfl
  | forwardReferenced name =>
    have hpublish : r.refinalize c = (r.countGeneration c).publish c (.forwardReferenced name) := by
      rw [refinalize, hg]
      rfl
    rw [hpublish, superclasses, superclasses]
    by_cases hd : d = c
    · subst hd
      by_cases hlt : d < r.cells.length
      · rw [generation_publish_self _ _ (by rwa [length_countGeneration]), hg]
      · have hle := Nat.le_of_not_lt hlt
        rw [generation_of_le hle, generation_of_le (by simpa using hle)]
    · rw [generation_publish_of_ne _ _ hd, generation_countGeneration]

theorem settle_eq (affected done pending : List ClassId) (r : Registry) :
    (settle affected done pending r).registry =
        (settlingOrder r.superclasses affected done pending).foldl refinalize r ∧
      (settle affected done pending r).rebuilt =
        settlingOrder r.superclasses affected done pending ∧
      ((settle affected done pending r).rebuilt ++
        (settle affected done pending r).left).Perm pending := by
  induction hn : pending.length using Nat.strong_induction_on generalizing done pending r with
  | _ n ih =>
    cases hfind : pending.find? (fun c =>
        (r.superclasses c).all (fun s => s ∈ done || s ∉ affected)) with
    | none =>
      obtain ⟨hsettle, horder⟩ := settle_of_none hfind
      rw [hsettle, horder]
      exact ⟨rfl, rfl, .refl pending⟩
    | some c =>
      obtain ⟨hsettle, horder⟩ := settle_of_some hfind
      have hc := List.mem_of_find?_eq_some hfind
      have hlength := List.length_erase_of_mem hc
      have hpos := List.length_pos_of_mem hc
      obtain ⟨hregistry, hrebuilt, hperm⟩ := ih _ (by omega) (c :: done) (pending.erase c)
        (r.refinalize c) rfl
      rw [superclasses_refinalize] at hregistry hrebuilt
      rw [hsettle, horder]
      refine ⟨hregistry, congrArg (c :: ·) hrebuilt, ?_⟩
      exact (hperm.cons c).trans (List.perm_cons_erase hc).symm

end Loop

end Metaobject.Registry
