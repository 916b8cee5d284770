import Metaobject.Proofs.Stamps
import Mathlib.Data.List.Destutter

/-!
# Versions of layouts

A layout has the number of the generation that brought it as its version. The layouts that a class has
one after the other are therefore in the order of their versions, whatever fails in between, and none
has a version above the number of generations that were counted for the class.
-/

namespace Metaobject

/-- The same generation, or one that was published later: its layout, if both have one, has a greater
version. -/
def Snapshot.Leads (x y : Snapshot) : Prop :=
  y = x ∨ x.stamp < y.stamp ∧
    ∀ e ∈ x.edition?, ∀ e' ∈ y.edition?, e.layout.version < e'.layout.version

namespace Registry

variable {r r' r'' : Registry} {limits : Limits} {a c : ClassId} {g : Generation} {x : Snapshot}
  {moments later : List Registry}

section Cells

theorem cell_modifyCell_of_not {f : Cell → Cell} (h : ¬(c = a ∧ a < r.cells.length)) :
    (r.modifyCell a f).cell c = r.cell c := by
  by_cases hc : c = a
  · subst hc
    have hle : r.cells.length ≤ c := by simpa using h
    rw [cell_of_le r hle, cell_of_le _ (by simpa using hle)]
  · exact cell_modifyCell_of_ne r f hc

theorem cell_addCell_of_ne (h : c ≠ r.cells.length) : (r.addCell g).2.cell c = r.cell c := by
  by_cases hlt : c < r.cells.length
  · exact cell_addCell_of_lt r g hlt
  · have hle := Nat.le_of_not_lt hlt
    have hlt' : r.cells.length < c := Nat.lt_of_le_of_ne hle (Ne.symm h)
    rw [cell_of_le r hle, cell_of_le _ (by rwa [length_addCell])]

theorem built_le_countGeneration : r.built c ≤ (r.countGeneration a).built c := by
  by_cases h : c = a ∧ a < r.cells.length
  · obtain ⟨rfl, hlt⟩ := h
    simp [built_countGeneration_self r hlt]
  · exact Nat.le_of_eq (congrArg Cell.built (cell_modifyCell_of_not h)).symm

end Cells

/-- The class got a new generation. Its layout, if it has one, has the number that was counted for it
as its version. -/
structure Renews (r r' : Registry) (c : ClassId) : Prop where
  stamp : (r'.snapshot c).stamp = r.nextStamp
  next : r.nextStamp < r'.nextStamp
  built : r.built c ≤ r'.built c
  version : ∀ e ∈ r'.edition? c, e.layout.version = r'.built c ∧ r.built c < r'.built c

theorem renews_of_none (hstamp : (r'.snapshot c).stamp = r.nextStamp)
    (hnext : r.nextStamp < r'.nextStamp) (hbuilt : r.built c ≤ r'.built c)
    (hnone : r'.layout c = none) : r.Renews r' c := by
  refine ⟨hstamp, hnext, hbuilt, ?_⟩
  intro e he
  obtain ⟨l, hl, rfl⟩ := Option.map_eq_some_iff.mp he
  have hlayout : r'.layout c = some l := hl
  simp [hnone] at hlayout

theorem renews_withhold (hlt : c < r.cells.length) (hnone : g.layout = none) :
    r.Renews (r.publish c g) c := by
  have hsnapshot := snapshot_publish_self (g := g) hlt
  apply renews_of_none
  · rw [hsnapshot]
  · exact Nat.lt_succ_self _
  · simp
  · rw [layout, generation, hsnapshot, hnone]

theorem renews_issue (hlt : c < r.cells.length)
    (hversion : ∀ l, g.layout = some l → l.version = (r.countGeneration c).built c) :
    r.Renews ((r.countGeneration c).publish c g) c := by
  have hbuilt := built_countGeneration_self r hlt
  have hsnapshot := snapshot_publish_self (r := r.countGeneration c) (g := g) (by simpa using hlt)
  constructor
  · rw [hsnapshot]
    rfl
  · exact Nat.lt_succ_self _
  · simp [hbuilt]
  · intro e he
    rw [edition?, hsnapshot] at he
    obtain ⟨l, hl, rfl⟩ := Option.map_eq_some_iff.mp he
    have := hversion l hl
    simp [hbuilt, this]

theorem renews_addCell (hnone : g.layout = none) :
    r.Renews (r.addCell g).2 r.cells.length := by
  have hcell := cell_addCell_new r g
  apply renews_of_none
  · rw [snapshot, hcell]
  · exact Nat.lt_succ_self _
  · simp [built, cell_of_le r (Nat.le_refl _), Cell.vacant]
  · rw [layout, generation, snapshot, hcell, hnone]

theorem Publication.cell (h : Publication r r') (c : ClassId) :
    r'.snapshot c = r.snapshot c ∧ r'.built c = r.built c ∨ r.Renews r' c := by
  cases h with
  | @withhold a g hnone =>
    by_cases hc : c = a ∧ a < r.cells.length
    · obtain ⟨rfl, hlt⟩ := hc
      exact Or.inr (renews_withhold hlt hnone)
    · left
      exact ⟨congrArg Cell.current (cell_modifyCell_of_not hc), by simp⟩
  | @issue a g hversion =>
    by_cases hc : c = a ∧ a < r.cells.length
    · obtain ⟨rfl, hlt⟩ := hc
      exact Or.inr (renews_issue hlt hversion)
    · left
      constructor
      · rw [← snapshot_countGeneration r a c]
        exact congrArg Cell.current (cell_modifyCell_of_not (by simpa using hc))
      · rw [built_publish]
        exact congrArg Cell.built (cell_modifyCell_of_not hc)
  | @addCell g hnone =>
    by_cases hc : c = r.cells.length
    · subst hc
      exact Or.inr (renews_addCell hnone)
    · left
      have hcell := cell_addCell_of_ne (g := g) hc
      exact ⟨congrArg Cell.current hcell, congrArg Cell.built hcell⟩
  | keep _ _ hsnapshot hbuilt => exact Or.inl ⟨hsnapshot c, hbuilt c⟩

theorem Publication.nextStamp_le (h : Publication r r') : r.nextStamp ≤ r'.nextStamp := by
  cases h with
  | withhold => exact Nat.le_succ _
  | issue => exact Nat.le_succ _
  | addCell => exact Nat.le_succ _
  | keep hnext => exact Nat.le_of_eq hnext.symm

/-- A publication, or a generation that is counted and not published. -/
inductive Evolution : Registry → Registry → Prop
  | published {r r' : Registry} (h : Publication r r') : Evolution r r'
  | counted (r : Registry) (c : ClassId) : Evolution r (r.countGeneration c)

abbrev Evolves : Registry → Registry → Prop := Relation.ReflTransGen Evolution

theorem Publications.evolves (h : Publications r r') : Evolves r r' :=
  Relation.ReflTransGen.mono (fun _ _ => Evolution.published) r r' h

theorem evolves_perform (r : Registry) (op : Operation) : Evolves r (r.perform op) := by
  obtain ⟨mid, hmid, heq | ⟨root, heq⟩⟩ := publications_perform r op
  · rw [heq]
    exact hmid.evolves
  · rw [heq]
    exact hmid.evolves.tail (.counted mid root)

section Generations

/-- What is known of a generation that the class had at some time. -/
structure Had (r : Registry) (c : ClassId) (x : Snapshot) : Prop where
  stamp : x.stamp < r.nextStamp
  built : ∀ e ∈ x.edition?, e.layout.version ≤ r.built c
  current : x.Leads (r.snapshot c)

theorem Had.publication (h : r.Had c x) (hstep : Publication r r') : r'.Had c x := by
  have hstamp := h.stamp
  have hnext := hstep.nextStamp_le
  rcases hstep.cell c with ⟨hsnapshot, hbuilt⟩ | hnew
  · refine ⟨by omega, ?_, ?_⟩
    · intro e he
      rw [hbuilt]
      exact h.built e he
    · rw [hsnapshot]
      exact h.current
  · refine ⟨by omega, ?_, Or.inr ⟨?_, ?_⟩⟩
    · intro e he
      exact (h.built e he).trans hnew.built
    · rw [hnew.stamp]
      exact hstamp
    · -- The version of the new layout is above all that was counted before.
      intro e he e' he'
      have := h.built e he
      have := hnew.version e' he'
      omega

theorem Had.counted (h : r.Had c x) (a : ClassId) : (r.countGeneration a).Had c x := by
  refine ⟨h.stamp, ?_, ?_⟩
  · intro e he
    exact (h.built e he).trans built_le_countGeneration
  · rw [snapshot_countGeneration]
    exact h.current

theorem Had.evolves (h : r.Had c x) (hevolves : Evolves r r') : r'.Had c x := by
  induction hevolves with
  | refl => exact h
  | tail _ hstep ih =>
    cases hstep with
    | published hstep => exact ih.publication hstep
    | counted => exact ih.counted _

/-- The generations that classes have were published in their turn. -/
def Dated (r : Registry) : Prop := ∀ c, r.Had c (r.snapshot c)

theorem Dated.publication (h : r.Dated) (hstep : Publication r r') : r'.Dated := by
  intro c
  rcases hstep.cell c with ⟨hsnapshot, _⟩ | hnew
  · rw [hsnapshot]
    exact (h c).publication hstep
  · refine ⟨?_, ?_, Or.inl rfl⟩
    · rw [hnew.stamp]
      exact hnew.next
    · intro e he
      exact Nat.le_of_eq (hnew.version e he).1

theorem Dated.evolves (h : r.Dated) (hevolves : Evolves r r') : r'.Dated := by
  induction hevolves with
  | refl => exact h
  | tail _ hstep ih =>
    cases hstep with
    | published hstep => exact ih.publication hstep
    | counted a =>
      intro c
      rw [snapshot_countGeneration]
      exact (ih c).counted a

theorem dated_fresh (limits : Limits) : (fresh limits).Dated := by
  intro c
  refine ⟨?_, ?_, Or.inl rfl⟩
  · by_cases hlt : c < (fresh limits).cells.length
    · exact (stamped_fresh limits).lt c hlt
    · rw [snapshot_of_le (Nat.le_of_not_lt hlt)]
      rw [nextStamp_fresh]
      exact Nat.zero_lt_succ _
  · intro e he
    obtain ⟨k, rfl⟩ := KernelClass.isKernel_of_lt (length_fresh limits ▸ lt_of_edition he)
    rw [snapshot_fresh] at he
    have hversion : e.layout.version = 0 := by
      obtain ⟨l, hl, rfl⟩ := Option.map_eq_some_iff.mp he
      cases k <;> cases hl <;> rfl
    omega

theorem Reachable.dated (h : Reachable limits r) : r.Dated := by
  induction h with
  | fresh => exact dated_fresh limits
  | step _ _ ih => exact ih.evolves (evolves_perform _ _)

theorem Dated.version_le (h : r.Dated) {l : Layout} (hl : r.layout c = some l) :
    l.version ≤ r.built c := by
  have he : r.edition? c = some ⟨(r.snapshot c).stamp, l⟩ := Option.map_eq_some_iff.mpr ⟨l, hl, rfl⟩
  exact (h c).built _ he

end Generations

section Moments

/-- The layouts that a class had at some moments, each as often as it was published. -/
def editionsOf (c : ClassId) (moments : List Registry) : List Edition :=
  ((moments.map fun r => r.snapshot c).destutter (· ≠ ·)).filterMap Snapshot.edition?

/-- Where neighbours are different, each generation was published after all before it. -/
theorem pairwise_destutter {l : List Snapshot} (h : l.Pairwise Snapshot.Leads) :
    (l.destutter (· ≠ ·)).Pairwise fun x y => x.stamp < y.stamp ∧ x.Leads y := by
  have hleads : (l.destutter (· ≠ ·)).Pairwise Snapshot.Leads := h.sublist (List.destutter_sublist _ l)
  have hne := List.isChain_destutter (· ≠ ·) l
  generalize l.destutter (· ≠ ·) = published at hleads hne ⊢
  have hchain : (published.map Snapshot.stamp).IsChain (· < ·) := by
    rw [List.isChain_map, List.isChain_iff_getElem]
    intro i hi
    have hdistinct := hne.getElem i hi
    rcases List.pairwise_iff_getElem.mp hleads i (i + 1) (by omega) hi (by omega) with heq | ⟨hlt, _⟩
    · exact absurd heq.symm hdistinct
    · exact hlt
  exact (List.pairwise_map.mp hchain.pairwise).and hleads

theorem pairwise_editionsOf (hdated : ∀ r ∈ moments, r.Dated) (h : moments.Pairwise Evolves)
    (c : ClassId) : (editionsOf c moments).Pairwise fun e e' =>
      e.stamp ≠ e'.stamp ∧ e.layout.version < e'.layout.version := by
  have hleads : (moments.map fun r => r.snapshot c).Pairwise Snapshot.Leads := by
    rw [List.pairwise_map]
    refine h.imp_of_mem ?_
    intro r r' hr _ hevolves
    exact ((hdated r hr c).evolves hevolves).current
  refine List.Pairwise.filterMap _ ?_ (pairwise_destutter hleads)
  rintro x y ⟨hlt, hxy⟩ e he e' he'
  have hstamp := stamp_edition he
  have hstamp' := stamp_edition he'
  rcases hxy with rfl | ⟨_, hversion⟩
  · omega
  · exact ⟨by omega, hversion e he e' he'⟩

/-- The registries that a step passes through: a definition publishes its class, and then one
descendant of it after the other. -/
def stages (r : Registry) : Operation → List Registry
  | .define d =>
    match r.checkDefinition d, r.install d with
    | .ok (), (.ok root, next) => (next.cascadeOrder root).scanl refinalize next
    | _, _ => [(r.define d).2]
  | op => [r.perform op]

structure Passage (r : Registry) (moments : List Registry) (r' : Registry) : Prop where
  evolves : Evolves r r'
  between : ∀ m ∈ moments, Evolves r m ∧ Evolves m r'
  pairwise : moments.Pairwise Evolves

namespace Passage

theorem nil (h : Evolves r r') : r.Passage [] r' := ⟨h, by simp, .nil⟩

theorem arrive (h : Evolves r r') : r.Passage [r'] r' := by
  refine ⟨h, ?_, List.pairwise_singleton ..⟩
  simp [h, Relation.ReflTransGen.refl]

theorem append (h : r.Passage moments r') (h' : r'.Passage later r'') :
    r.Passage (moments ++ later) r'' := by
  refine ⟨h.evolves.trans h'.evolves, ?_, List.pairwise_append.mpr ⟨h.pairwise, h'.pairwise, ?_⟩⟩
  · intro m hm
    rcases List.mem_append.mp hm with hm | hm
    · obtain ⟨hbefore, hafter⟩ := h.between m hm
      exact ⟨hbefore, hafter.trans h'.evolves⟩
    · obtain ⟨hbefore, hafter⟩ := h'.between m hm
      exact ⟨h.evolves.trans hbefore, hafter⟩
  · intro m hm m' hm'
    exact (h.between m hm).2.trans (h'.between m' hm').1

theorem leave (h : r.Passage moments r') : r.Passage (r :: moments) r' :=
  (arrive .refl).append h

end Passage

theorem passage_scanl (l : List ClassId) (r : Registry) :
    r.Passage (l.scanl refinalize r) (l.foldl refinalize r) := by
  induction l generalizing r with
  | nil => exact .arrive .refl
  | cons c l ih =>
    have hstep : r.Passage [] (r.refinalize c) := .nil (publications_refinalize r c).evolves
    have hrest := (hstep.append (ih (r.refinalize c))).leave
    rwa [List.nil_append, ← List.scanl_cons] at hrest

theorem passage_stages (r : Registry) (op : Operation) : r.Passage (r.stages op) (r.perform op) := by
  have hwhole : r.Passage [r.perform op] (r.perform op) := .arrive (evolves_perform r op)
  cases op with
  | define d =>
    rw [stages]
    split
    · rename_i root next hcheck hinstall
      have hdefine : (r.define d).2 = next.cascade root := by
        rw [define, hcheck, hinstall]
      have hinstalled : r.Passage [] next := .nil (publications_install hinstall).evolves
      rw [perform, hdefine]
      exact hinstalled.append (passage_scanl (next.cascadeOrder root) next)
    · exact hwhole
  | register name c => exact hwhole
  | remove name => exact hwhole
  | resolve name => exact hwhole
  | installPlaceholder name => exact hwhole

end Moments

end Registry

end Metaobject
