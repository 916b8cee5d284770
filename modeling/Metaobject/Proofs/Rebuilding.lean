import Metaobject.Proofs.Hierarchy

/-!
# Classes that are built again

Building a class again keeps its definition and settles it, if its superclasses are settled. Building
a list of classes again, superclasses before subclasses, settles all of them.
-/

namespace Metaobject

namespace Generation

variable {g g' : Generation}

theorem superclasses_unfinalized (g : Generation) : g.unfinalized.superclasses = g.superclasses := by
  unfold unfinalized
  split
  · split <;> rfl
  · rfl

theorem slots_unfinalized (g : Generation) : g.unfinalized.slots = g.slots := by
  unfold unfinalized
  split
  · split <;> rfl
  · rfl

theorem superclasses_congr (h : g'.unfinalized = g.unfinalized) :
    g'.superclasses = g.superclasses := by
  rw [← superclasses_unfinalized, h, superclasses_unfinalized]

theorem slots_congr (h : g'.unfinalized = g.unfinalized) : g'.slots = g.slots := by
  rw [← slots_unfinalized, h, slots_unfinalized]

theorem isSealed_unfinalized (g : Generation) : g.unfinalized.isSealed = g.isSealed := by
  unfold unfinalized
  split
  · split <;> rfl
  · rfl

theorem isUser_unfinalized (g : Generation) : g.unfinalized.IsUser ↔ g.IsUser := by
  unfold unfinalized
  split
  · split <;> rfl
  · rfl

theorem unfinalized_of_isSealed (h : g.isSealed) : g.unfinalized = g := by
  cases g <;> simp_all [unfinalized, isSealed]

theorem eq_forwardReferenced {n : Symbol} (h : g.unfinalized = .forwardReferenced n) :
    g = .forwardReferenced n := by
  unfold unfinalized at h
  split at h
  · split at h <;> contradiction
  · exact h

theorem eq_standard {k : StandardClass} (h : g.unfinalized = (Generation.standard k).unfinalized)
    (hk : k.isSealed = false) : ∃ shape, g = .standard { k with shape := shape } := by
  have hnone : (Generation.standard k).unfinalized = .standard { k with shape := none } := by
    simp [unfinalized, hk]
  rw [hnone] at h
  unfold unfinalized at h
  split at h
  · rename_i c
    split at h
    · rename_i hsealed
      rw [Generation.standard.inj h] at hsealed
      simp [hk] at hsealed
    · cases c
      cases h
      exact ⟨_, rfl⟩
  · rw [h]
    exact ⟨none, rfl⟩

theorem eq_of_unfinalized_eq (h : g'.unfinalized = g.unfinalized) (hs : g.isSealed) : g' = g := by
  have hs' : g'.isSealed := by rw [← isSealed_unfinalized, h, isSealed_unfinalized, hs]
  rwa [unfinalized_of_isSealed hs, unfinalized_of_isSealed hs'] at h

end Generation

namespace Registry

variable {r r' r'' : Registry} {c : ClassId} {k : StandardClass}

theorem precedenceList_of_generation (hgen : ∀ d, r'.generation d = r.generation d)
    (hlength : r'.cells.length = r.cells.length) : r'.precedenceList = r.precedenceList := by
  have hsupers : r'.superclasses = r.superclasses := funext fun d => by
    rw [superclasses, superclasses, hgen]
  funext d
  rw [precedenceList, precedenceList, hgen, hsupers, hlength]

theorem shapeOf_of_generation (hgen : ∀ d, r'.generation d = r.generation d)
    (hlength : r'.cells.length = r.cells.length) : r'.shapeOf = r.shapeOf := by
  have hlist := precedenceList_of_generation hgen hlength
  funext limits self version c
  simp only [shapeOf, isFinalized, describe, linearized, inheritedSlots, slots, hgen, hlist]

theorem isFinalized_of_snapshot {d : ClassId} (h : r'.snapshot d = r.snapshot d) :
    r'.isFinalized d = r.isFinalized d := by
  rw [isFinalized, isFinalized, generation, generation, h]

/-- What changes when some classes are built again: only their shapes, and how many generations they
have. -/
structure Reshaped (r r' : Registry) (touched : ClassId → Prop) : Prop where
  limits : r'.limits = r.limits
  lookup : r'.lookup = r.lookup
  length : r'.cells.length = r.cells.length
  subclasses : ∀ c, r'.subclasses c = r.subclasses c
  definition : ∀ c, (r'.generation c).unfinalized = (r.generation c).unfinalized
  snapshot : ∀ c, ¬touched c → r'.snapshot c = r.snapshot c
  built : ∀ c, ¬touched c → r'.built c = r.built c

namespace Reshaped

variable {touched touched' : ClassId → Prop}

theorem refl (r : Registry) (touched : ClassId → Prop) : r.Reshaped r touched :=
  ⟨rfl, rfl, rfl, fun _ => rfl, fun _ => rfl, fun _ _ => rfl, fun _ _ => rfl⟩

theorem trans (h : r.Reshaped r' touched) (h' : r'.Reshaped r'' touched') :
    r.Reshaped r'' fun c => touched c ∨ touched' c where
  limits := h'.limits.trans h.limits
  lookup := h'.lookup.trans h.lookup
  length := h'.length.trans h.length
  subclasses c := (h'.subclasses c).trans (h.subclasses c)
  definition c := (h'.definition c).trans (h.definition c)
  snapshot c hc := (h'.snapshot c fun h => hc (Or.inr h)).trans (h.snapshot c fun h => hc (Or.inl h))
  built c hc := (h'.built c fun h => hc (Or.inr h)).trans (h.built c fun h => hc (Or.inl h))

theorem mono (h : r.Reshaped r' touched) (ht : ∀ c, touched c → touched' c) :
    r.Reshaped r' touched' :=
  { h with
    snapshot := fun c hc => h.snapshot c fun hc' => hc (ht c hc')
    built := fun c hc => h.built c fun hc' => hc (ht c hc') }

theorem superclasses (h : r.Reshaped r' touched) (c : ClassId) :
    r'.superclasses c = r.superclasses c :=
  Generation.superclasses_congr (h.definition c)

theorem slots (h : r.Reshaped r' touched) (c : ClassId) : r'.slots c = r.slots c :=
  Generation.slots_congr (h.definition c)

theorem wellFormed (h : r.Reshaped r' touched) (hr : r.WellFormed) : r'.WellFormed := by
  refine hr.frame ?_ ?_ h.superclasses h.subclasses ?_
  · intro k
    apply Generation.eq_of_unfinalized_eq (h.definition k.id)
    rw [hr.kernel, KernelClass.isSealed_generation]
  · intro c hc
    rwa [← Generation.isUser_unfinalized, h.definition, Generation.isUser_unfinalized]
  · intro name c hc
    rw [h.lookup] at hc
    rw [h.length]
    exact hr.bound name c hc

end Reshaped

theorem lt_of_standard (hg : r.generation c = .standard k) : c < r.cells.length := by
  by_contra hle
  rw [generation_of_le (Nat.le_of_not_lt hle)] at hg
  contradiction

theorem refinalize_eq (hg : r.generation c = .standard k) (hs : k.isSealed = false) :
    r.refinalize c =
      (if k.superclasses.all r.isFinalized then r.countGeneration c else r).publish c
        (.standard { k with shape := (r.shapeOf r.limits c (r.built c + 1) k).toOption }) := by
  have hlt := lt_of_standard hg
  have hsealed : (Generation.standard k).isSealed = false := hs
  rw [refinalize, hg]
  simp only [hsealed, Bool.false_eq_true, if_false]
  change (if k.superclasses.all r.isFinalized then _ else _) = _
  split
  · have hshape : (r.countGeneration c).shapeOf = r.shapeOf :=
      shapeOf_of_generation (generation_countGeneration r c) (length_countGeneration r c)
    simp only [finalizedGeneration, hs, Bool.false_eq_true, if_false, finalizedClass, hshape,
      limits_countGeneration, built_countGeneration_self r hlt]
    cases r.shapeOf r.limits c (r.built c + 1) k with
    | error f => simp [Except.map, Generation.unfinalized, hs, Except.toOption]
    | ok s => rfl
  · rename_i hready
    have hready' : ¬∀ s ∈ k.superclasses, r.isFinalized s := by simpa using hready
    obtain ⟨f, hf⟩ := shapeOf_pending r.limits c (r.built c + 1) hready'
    rw [hf]
    simp [Generation.unfinalized, hs, Except.toOption]

theorem generation_refinalize (hg : r.generation c = .standard k) (hs : k.isSealed = false) :
    (r.refinalize c).generation c =
      .standard { k with shape := (r.shapeOf r.limits c (r.built c + 1) k).toOption } := by
  rw [refinalize_eq hg hs]
  apply generation_publish_self
  split
  · rw [length_countGeneration]
    exact lt_of_standard hg
  · exact lt_of_standard hg

/-- How many generations a class gets when it is built again: one, if its superclasses end up
finalized. -/
def attempts (r : Registry) (c : ClassId) : Nat :=
  if (r.superclasses c).all r.isFinalized then 1 else 0

theorem attempts_congr {d : ClassId} (hsupers : r'.superclasses d = r.superclasses d)
    (hfinal : ∀ s ∈ r.superclasses d, r'.isFinalized s = r.isFinalized s) :
    r'.attempts d = r.attempts d := by
  have hall : (r.superclasses d).all r'.isFinalized = (r.superclasses d).all r.isFinalized := by
    rw [Bool.eq_iff_iff, List.all_eq_true, List.all_eq_true]
    exact forall₂_congr fun s hmem => by rw [hfinal s hmem]
  rw [attempts, attempts, hsupers, hall]

theorem built_refinalize (hg : r.generation c = .standard k) (hs : k.isSealed = false) :
    (r.refinalize c).built c = r.built c + r.attempts c := by
  have hk : r.superclasses c = k.superclasses := congrArg Generation.superclasses hg
  rw [refinalize_eq hg hs, built_publish, attempts, hk]
  split
  · exact built_countGeneration_self r (lt_of_standard hg)
  · rfl

theorem reshaped_refinalize (hg : r.generation c = .standard k) (hs : k.isSealed = false) :
    r.Reshaped (r.refinalize c) (· = c) := by
  have hgen := generation_refinalize hg hs
  rw [refinalize_eq hg hs] at hgen ⊢
  refine ⟨?_, ?_, ?_, ?_, ?_, ?_, ?_⟩
  · split <;> rfl
  · split <;> rfl
  · split <;> simp
  · intro d
    split <;> simp
  · intro d
    by_cases hd : d = c
    · subst hd
      rw [hgen, hg]
      simp [Generation.unfinalized, hs]
    · rw [generation_publish_of_ne _ _ hd]
      split <;> simp
  · intro d hd
    rw [snapshot_publish_of_ne _ _ hd]
    split <;> simp
  · intro d hd
    rw [built_publish]
    split
    · exact built_countGeneration_of_ne r hd
    · rfl

theorem settled_refinalize (hr : r.WellFormed) (hg : r.generation c = .standard k)
    (hs : k.isSealed = false) : (r.refinalize c).Settled c := by
  have hreshaped := reshaped_refinalize hg hs
  intro k' hk' _
  rw [generation_refinalize hg hs] at hk'
  cases hk'
  have hself : c ∉ k.superclasses := by
    intro hmem
    have : c ∈ r.superclasses c := by rwa [superclasses, hg]
    exact hr.not_descends_self c (.single this)
  have hsame : (r.refinalize c).outline? c
      { k with shape := (r.shapeOf r.limits c (r.built c + 1) k).toOption } = r.outline? c k := by
    apply outline?_congr hreshaped.limits rfl rfl rfl
    · intro s hmem
      have hne : s ≠ c := fun h => hself (h ▸ hmem)
      rw [generation, hreshaped.snapshot s hne, generation]
    · exact fun _ a _ => hreshaped.slots a
  rw [hsame]
  exact outline_shapeOf_version _

/-- One step of a cascade: the class is not pending any more, and nothing else becomes so. -/
theorem settledBut_refinalize (hr : r.WellFormed) {rest : List ClassId}
    (hsettled : r.SettledBut (· ∈ c :: rest)) (hsupers : ∀ s ∈ r.superclasses c, s ∉ rest)
    (hg : r.generation c = .standard k) (hs : k.isSealed = false) :
    (r.refinalize c).SettledBut (· ∈ rest) := by
  have hreshaped := reshaped_refinalize hg hs
  constructor
  · intro d hd s hmem
    rw [hreshaped.superclasses] at hmem
    by_cases hdc : d = c
    · exact hsupers s (hdc ▸ hmem)
    · have hd' : d ∉ c :: rest := List.not_mem_cons_of_ne_of_not_mem hdc hd
      exact fun h => hsettled.closed d hd' s hmem (List.mem_cons_of_mem _ h)
  · intro d hd
    by_cases hdc : d = c
    · subst hdc
      exact settled_refinalize hr hg hs
    · have hd' : d ∉ c :: rest := List.not_mem_cons_of_ne_of_not_mem hdc hd
      apply hr.settled_transfer hsettled hd' hreshaped.limits
      · rw [generation, hreshaped.snapshot d hdc, generation]
      · intro s hmem a ha
        have hac := hsettled.closed_inherits (hsettled.closed d hd' s hmem) ha
        have hne : a ≠ c := fun h => hac (h ▸ List.mem_cons_self)
        exact ⟨by rw [generation, hreshaped.snapshot a hne, generation], hreshaped.slots a⟩

/-- The classes are to be built again, in this order: all of them were defined, superclasses come
first, and the other classes are settled. -/
structure Awaits (r : Registry) (order : List ClassId) : Prop extends WellFormed r where
  nodup : order.Nodup
  first : order.Pairwise fun a b => b ∉ r.superclasses a
  standard : ∀ a ∈ order, ∃ k, r.generation a = .standard k ∧ k.isSealed = false
  settledBut : r.SettledBut (· ∈ order)

variable {order rest : List ClassId}

theorem Awaits.notMem_of_superclass (h : r.Awaits (c :: rest)) {s : ClassId}
    (hs : s ∈ r.superclasses c) : s ∉ c :: rest := by
  have hself : s ≠ c := by
    rintro rfl
    exact h.not_descends_self s (.single hs)
  have hrest : s ∉ rest := fun hmem => (List.pairwise_cons.mp h.first).1 s hmem hs
  exact List.not_mem_cons_of_ne_of_not_mem hself hrest

theorem Awaits.refinalize (h : r.Awaits (c :: rest)) : (r.refinalize c).Awaits rest := by
  obtain ⟨k, hg, hs⟩ := h.standard c List.mem_cons_self
  obtain ⟨hc, hrest⟩ := List.nodup_cons.mp h.nodup
  have hstep := reshaped_refinalize hg hs
  have hsupers : ∀ s ∈ r.superclasses c, s ∉ rest := fun s hmem =>
    List.not_mem_of_not_mem_cons (h.notMem_of_superclass hmem)
  refine ⟨hstep.wellFormed h.toWellFormed, hrest, ?_, ?_, ?_⟩
  · exact (List.pairwise_cons.mp h.first).2.imp fun hab => by rwa [hstep.superclasses]
  · intro a ha
    have hne : a ≠ c := fun heq => hc (heq ▸ ha)
    rw [generation, hstep.snapshot a hne]
    exact h.standard a (List.mem_cons_of_mem c ha)
  · exact settledBut_refinalize h.toWellFormed h.settledBut hsupers hg hs

/-- Building classes again in an order in which superclasses come first. -/
theorem rebuild_settles (h : r.Awaits order) :
    (order.foldl refinalize r).Invariant ∧
      r.Reshaped (order.foldl refinalize r) (· ∈ order) ∧
      ∀ a ∈ order, (order.foldl refinalize r).built a =
        r.built a + (order.foldl refinalize r).attempts a := by
  induction order generalizing r with
  | nil => exact ⟨⟨h.toWellFormed, fun a => h.settledBut.settled a (by simp)⟩, .refl r _, by simp⟩
  | cons c rest ih =>
    obtain ⟨k, hg, hs⟩ := h.standard c List.mem_cons_self
    have hc : c ∉ rest := (List.nodup_cons.mp h.nodup).1
    have hstep := reshaped_refinalize hg hs
    obtain ⟨hinv, hreshaped, hbuilt⟩ := ih h.refinalize
    rw [List.foldl_cons]
    refine ⟨hinv, ?_, ?_⟩
    · exact (hstep.trans hreshaped).mono fun a ha => ha.elim (fun h => h ▸ List.mem_cons_self)
        (List.mem_cons_of_mem _)
    · intro a ha
      rcases List.mem_cons.mp ha with rfl | ha
      · have hfinal : ∀ s ∈ r.superclasses a,
            (rest.foldl refinalize (r.refinalize a)).isFinalized s = r.isFinalized s := by
          intro s hmem
          have hsettled := h.notMem_of_superclass hmem
          rw [isFinalized_of_snapshot (hreshaped.snapshot s (List.not_mem_of_not_mem_cons hsettled)),
            isFinalized_of_snapshot (hstep.snapshot s (List.ne_of_not_mem_cons hsettled))]
        have hsame := (hreshaped.superclasses a).trans (hstep.superclasses a)
        rw [hreshaped.built a hc, built_refinalize hg hs, attempts_congr hsame hfinal]
      · have hne : a ≠ c := fun h => hc (h ▸ ha)
        rw [hbuilt a ha, hstep.built a hne]

end Registry

end Metaobject
