import Metaobject.Proofs.Reachability

/-!
# Publication

What a registry publishes: a generation without a layout, or one that was counted and whose layout
has the count as its version. Steps consist of nothing else, except that a definition that fails may
count a generation and publish none.
-/

namespace Metaobject.Registry

variable {r r' : Registry} {limits : Limits} {d : ClassDefinition} {c self : ClassId}
  {g next : Generation} {k : StandardClass} {version : Nat} {l : Layout}

section Versions

theorem version_shapeOf {s : Shape} (h : r.shapeOf limits self version k = .ok s) :
    s.layout.version = version := by
  by_cases hready : ∀ a ∈ k.superclasses, r.isFinalized a
  · rw [shapeOf_ready hready] at h
    cases hlist : r.linearized limits self (Generation.standard k).describe k.superclasses with
    | error f =>
      rw [hlist] at h
      contradiction
    | ok list =>
      rw [hlist, ok_bind] at h
      cases hlayout : Layout.build k.name k.slots (r.inheritedSlots list) with
      | error f =>
        rw [hlayout] at h
        contradiction
      | ok layout =>
        rw [hlayout, ok_bind] at h
        dsimp only at h
        split at h
        · contradiction
        · cases h
          rfl
  · obtain ⟨f, hf⟩ := shapeOf_pending limits self version hready
    rw [hf] at h
    contradiction

theorem version_finalizedClass {k' : StandardClass}
    (h : r.finalizedClass limits self version k = .ok k')
    (hl : (Generation.standard k').layout = some l) : l.version = version := by
  rw [finalizedClass] at h
  cases hs : r.shapeOf limits self version k with
  | error f =>
    rw [hs] at h
    contradiction
  | ok s =>
    rw [hs] at h
    cases h
    cases hl
    exact version_shapeOf hs

theorem version_finalizedGeneration (hsealed : g.isSealed = false)
    (h : r.finalizedGeneration limits self version g = .ok next) (hl : next.layout = some l) :
    l.version = version := by
  cases g with
  | forwardReferenced name => contradiction
  | standard k =>
    rw [finalizedGeneration, if_neg (by simpa [Generation.isSealed] using hsealed)] at h
    cases hk : r.finalizedClass limits self version k with
    | error f =>
      rw [hk] at h
      contradiction
    | ok k' =>
      rw [hk] at h
      cases h
      exact version_finalizedClass hk hl
  | methodClass k => contradiction
  | builtIn k => contradiction

theorem version_generationFor (h : r.generationFor self true k = .ok g)
    (hl : g.layout = some l) : l.version = r.built self := by
  rw [generationFor, if_pos rfl] at h
  cases hk : r.finalizedClass r.limits self (r.built self) k with
  | error f =>
    rw [hk] at h
    contradiction
  | ok k' =>
    rw [hk] at h
    cases h
    exact version_finalizedClass hk hl

theorem layout_unfinalized (hsealed : g.isSealed = false) : g.unfinalized.layout = none := by
  cases g with
  | forwardReferenced name => rfl
  | standard k =>
    rw [Generation.unfinalized, if_neg (by simpa [Generation.isSealed] using hsealed)]
    rfl
  | methodClass k => contradiction
  | builtIn k => contradiction

end Versions

/-- A change of one generation, or one that keeps all generations and their number. -/
inductive Publication : Registry → Registry → Prop
  | withhold (r : Registry) (c : ClassId) {g : Generation} (h : g.layout = none) :
      Publication r (r.publish c g)
  | issue (r : Registry) (c : ClassId) {g : Generation}
      (h : ∀ l, g.layout = some l → l.version = (r.countGeneration c).built c) :
      Publication r ((r.countGeneration c).publish c g)
  | addCell (r : Registry) {g : Generation} (h : g.layout = none) : Publication r (r.addCell g).2
  | keep {r r' : Registry} (nextStamp : r'.nextStamp = r.nextStamp)
      (length : r'.cells.length = r.cells.length) (snapshot : ∀ c, r'.snapshot c = r.snapshot c)
      (built : ∀ c, r'.built c = r.built c) : Publication r r'

abbrev Publications : Registry → Registry → Prop := Relation.ReflTransGen Publication

section Steps

theorem Publications.foldl {α : Type} {f : Registry → α → Registry}
    (hf : ∀ r a, Publications r (f r a)) (l : List α) (r : Registry) :
    Publications r (l.foldl f r) := by
  induction l generalizing r with
  | nil => exact .refl
  | cons a l ih => exact (hf r a).trans (ih (f r a))

theorem publications_link (r : Registry) (c super : ClassId) : Publications r (r.link c super) :=
  .single (.keep rfl (length_link r c super) (fun a => snapshot_link r c a super) fun a =>
    built_link r c a super)

theorem publications_unlink (r : Registry) (c super : ClassId) :
    Publications r (r.unlink c super) :=
  .single (.keep rfl (length_unlink r c super) (fun a => snapshot_unlink r c a super) fun a =>
    built_unlink r c a super)

theorem publications_bindings (r : Registry) (bindings : Table Symbol ClassId) :
    Publications r { r with bindings } :=
  .single (.keep rfl rfl (fun _ => rfl) fun _ => rfl)

theorem publications_addCell_bind (r : Registry) (name : Symbol) (c : ClassId)
    (h : g.layout = none) : Publications r ((r.addCell g).2.bind name c) :=
  .tail (.single (.addCell r h)) (.keep rfl rfl (fun _ => rfl) fun _ => rfl)

theorem publications_resolve (r : Registry) (name : Symbol) :
    Publications r (r.resolve name).2 := by
  unfold resolve
  split
  · exact .refl
  · exact publications_addCell_bind r name r.cells.length rfl

theorem publications_resolveAll (r : Registry) (names : List Symbol) :
    Publications r (r.resolveAll names).2 := by
  induction names generalizing r with
  | nil => exact .refl
  | cons name names ih => exact (publications_resolve r name).trans (ih (r.resolve name).2)

theorem publications_declaredSuperclasses (r : Registry) (d : ClassDefinition) :
    Publications r (r.declaredSuperclasses d).2 := by
  unfold declaredSuperclasses
  split
  · exact .refl
  · exact publications_resolveAll r d.superclasses

theorem publications_cellFor (r : Registry) (name : Symbol)
    (h : (Generation.standard k).layout = none) : Publications r (r.cellFor name k).2 := by
  unfold cellFor
  split
  · exact .refl
  · exact publications_addCell_bind r name r.cells.length h

theorem publications_declare (r : Registry) (d : ClassDefinition) :
    Publications r (r.declare d).2.2 :=
  (publications_declaredSuperclasses r d).trans (publications_cellFor _ d.name rfl)

theorem publications_redefine (r start : Registry) (c : ClassId) (g : Generation)
    (h : Publications start (r.publish c g)) : Publications start (r.redefine c g) := by
  have hunlinked := Publications.foldl (fun r super => publications_unlink r c super)
    (r.superclasses c) (r.publish c g)
  have hlinked := Publications.foldl (fun r super => publications_link r c super) g.superclasses
    ((r.superclasses c).foldl (fun r super => r.unlink c super) (r.publish c g))
  exact (h.trans hunlinked).trans hlinked

theorem publications_refinalize (r : Registry) (c : ClassId) :
    Publications r (r.refinalize c) := by
  unfold refinalize
  dsimp only
  split
  · exact .refl
  · rename_i hsealed
    have hopen : (r.generation c).isSealed = false := by simpa using hsealed
    split
    · split
      · rename_i next hnext
        exact .single (.issue r c fun l hl => version_finalizedGeneration hopen hnext hl)
      · have hnone := layout_unfinalized hopen
        exact .single (.issue r c fun l hl => by rw [hnone] at hl; contradiction)
    · exact .single (.withhold r c (layout_unfinalized hopen))

theorem publications_install (h : r.install d = (.ok c, r')) : Publications r r' := by
  unfold install at h
  dsimp only at h
  split at h
  · cases h
  · rename_i g hg
    cases h
    apply publications_redefine
    refine (publications_declare r d).trans (.single ?_)
    split at hg
    · rename_i hready
      rw [if_pos hready]
      rw [hready] at hg
      exact .issue _ _ fun l hl => version_generationFor hg hl
    · rename_i hready
      rw [if_neg hready]
      rw [generationFor, if_neg hready] at hg
      cases hg
      exact .withhold _ _ rfl

theorem publications_define (h : r.define d = (.ok c, r')) : Publications r r' := by
  rw [define] at h
  split at h
  · cases h
  · split at h
    · cases h
    · rename_i root inst hinstall
      cases h
      exact (publications_install hinstall).trans (Publications.foldl publications_refinalize _ inst)

theorem publications_installPlaceholder {name : Symbol}
    (h : r.installPlaceholder name = .ok (c, r')) : Publications r r' := by
  rw [installPlaceholder] at h
  obtain ⟨_, h⟩ := check_bind_eq_ok.mp h
  split at h
  · split at h
    · cases h
      exact .single (.withhold r _ rfl)
    · split at h
      · contradiction
      · cases h
        exact publications_addCell_bind r name r.cells.length rfl
  · cases h
    exact publications_addCell_bind r name r.cells.length rfl

/-- A definition that fails publishes no generation of its class, but may have counted one. -/
theorem publications_define_error {f : Fault} (h : r.define d = (.error f, r')) :
    ∃ mid, Publications r mid ∧ (r' = mid ∨ ∃ root, r' = mid.countGeneration root) := by
  rw [define] at h
  split at h
  · cases h
    exact ⟨_, .refl, Or.inl rfl⟩
  · split at h
    · rename_i hinstall
      cases h
      unfold install at hinstall
      dsimp only at hinstall
      split at hinstall
      · cases hinstall
        exact ⟨_, publications_declaredSuperclasses r d, Or.inr ⟨_, rfl⟩⟩
      · cases hinstall
    · cases h

theorem publications_naming {op : Operation} (h : ∀ d, op ≠ .define d) :
    Publications r (r.perform op) := by
  cases op with
  | define d => exact absurd rfl (h d)
  | register name c =>
    rw [perform]
    split
    · rename_i h
      obtain ⟨_, h⟩ := check_bind_eq_ok.mp h
      obtain ⟨_, h⟩ := check_bind_eq_ok.mp h
      cases h
      exact publications_bindings r _
    · exact .refl
  | remove name =>
    rw [perform]
    split
    · rename_i h
      obtain ⟨_, h⟩ := check_bind_eq_ok.mp h
      cases h
      exact publications_bindings r _
    · exact .refl
  | resolve name =>
    rw [perform]
    split
    · rename_i h
      obtain ⟨_, h⟩ := check_bind_eq_ok.mp h
      have hresolve := publications_resolve r name
      rwa [Except.ok.inj h] at hresolve
    · exact .refl
  | installPlaceholder name =>
    rw [perform]
    split
    · exact publications_installPlaceholder ‹_›
    · exact .refl

theorem publications_perform (r : Registry) (op : Operation) :
    ∃ mid, Publications r mid ∧
      (r.perform op = mid ∨ ∃ root, r.perform op = mid.countGeneration root) := by
  by_cases hdefine : ∃ d, op = .define d
  · obtain ⟨d, rfl⟩ := hdefine
    cases h : r.define d with
    | mk answer next =>
      rw [perform, h]
      cases answer with
      | ok root => exact ⟨next, publications_define h, Or.inl rfl⟩
      | error f => exact publications_define_error h
  · exact ⟨_, publications_naming (by simpa using hdefine), Or.inl rfl⟩

end Steps

end Metaobject.Registry
