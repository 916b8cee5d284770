import Metaobject.Proofs.LayoutVersions
import Metaobject.Proofs.NameIdentity

/-!
# Definitions that are refused

The number of a generation is taken before the class is finalized. When a class cannot be redefined
because of that, it keeps its layout, but its count goes on: the version of the layout falls behind by
one for each definition that was refused, until the next generation is published.
-/

namespace Metaobject.Registry

variable {r r' : Registry} {limits : Limits} {op : Operation} {ops : List Operation} {c : ClassId}
  {n : Nat}

/-- The step is a definition of the class that passes all checks and fails in finalization. -/
def refuses (r : Registry) (c : ClassId) : Operation → Bool
  | .define d => r.lookup d.name = some c && (r.checkDefinition d).isOk && !(r.define d).1.isOk
  | .register _ _ | .remove _ | .resolve _ | .installPlaceholder _ => false

/-- The definitions of the class that were refused since its generation was published, after a step. -/
def refusalsAfter (r : Registry) (c : ClassId) (n : Nat) (op : Operation) : Nat :=
  if (r.perform op).snapshot c ≠ r.snapshot c then 0
  else if r.refuses c op then n + 1
  else n

def refusals (r : Registry) (c : ClassId) (n : Nat) : List Operation → Nat
  | [] => n
  | op :: rest => (r.perform op).refusals c (r.refusalsAfter c n op) rest

section Steps

theorem Publications.nextStamp_le (h : Publications r r') : r.nextStamp ≤ r'.nextStamp := by
  induction h with
  | refl => exact Nat.le_refl _
  | tail _ hstep ih => exact ih.trans hstep.nextStamp_le

theorem Publications.cell (h : Publications r r') (hdated : r.Dated) (c : ClassId) :
    r'.snapshot c = r.snapshot c ∧ r'.built c = r.built c ∨
      r'.snapshot c ≠ r.snapshot c ∧ ∀ e ∈ r'.edition? c, e.layout.version = r'.built c := by
  have hcases : r'.snapshot c = r.snapshot c ∧ r'.built c = r.built c ∨
      r.nextStamp ≤ (r'.snapshot c).stamp ∧
        ∀ e ∈ r'.edition? c, e.layout.version = r'.built c := by
    induction h with
    | refl => exact Or.inl ⟨rfl, rfl⟩
    | tail hsteps hstep ih =>
      rcases hstep.cell c with ⟨hsnapshot, hbuilt⟩ | hnew
      · rwa [edition?, hsnapshot, hbuilt]
      · right
        constructor
        · rw [hnew.stamp]
          exact Publications.nextStamp_le hsteps
        · intro e he
          exact (hnew.version e he).1
  refine hcases.imp_right ?_
  rintro ⟨hstamp, hversion⟩
  refine ⟨?_, hversion⟩
  intro heq
  have := (hdated c).stamp
  rw [heq] at hstamp
  omega

theorem perform_cases (hr : r.Invariant) (op : Operation) :
    Publications r (r.perform op) ∧ (∀ c, r.refuses c op = false) ∨
      ∃ root, root < r.cells.length ∧ (∀ c, r.refuses c op = true ↔ c = root) ∧
        r.perform op = r.countGeneration root := by
  by_cases hdefine : ∃ d, op = .define d
  · obtain ⟨d, rfl⟩ := hdefine
    cases h : r.define d with
    | mk answer next =>
      cases answer with
      | ok root =>
        left
        simp only [perform, h, refuses]
        exact ⟨publications_define h, by simp [Except.isOk, Except.toBool]⟩
      | error f =>
        rcases define_error_cases hr.toWellFormed h with
          ⟨hcheck, rfl⟩ | ⟨hfails, ⟨hnone, rfl⟩ | ⟨root, hroot, rfl⟩⟩
        · left
          simp only [perform, h, refuses, hcheck]
          exact ⟨.refl, by simp [Except.isOk, Except.toBool]⟩
        · left
          simp only [perform, h, refuses, hnone]
          exact ⟨.refl, by simp⟩
        · right
          refine ⟨root, hr.bound d.name root hroot, ?_, by rw [perform, h]⟩
          intro c
          simp [refuses, h, hroot, hfails.checked, Except.isOk, Except.toBool, eq_comm]
  · left
    have hnaming : ∀ d, op ≠ .define d := by simpa using hdefine
    refine ⟨publications_naming hnaming, ?_⟩
    intro c
    cases op with
    | define d => exact absurd rfl (hnaming d)
    | register _ _ | remove _ | resolve _ | installPlaceholder _ => rfl

/-- The layout of the class is behind the count by a number. -/
def Behind (r : Registry) (c : ClassId) (n : Nat) : Prop :=
  ∀ l ∈ r.layout c, l.version + n = r.built c

theorem layout_of_snapshot (h : r'.snapshot c = r.snapshot c) : r'.layout c = r.layout c :=
  congrArg (fun x => x.generation.layout) h

theorem Behind.perform (h : r.Behind c n) (hr : r.Invariant) (hdated : r.Dated) (op : Operation) :
    (r.perform op).Behind c (r.refusalsAfter c n op) := by
  intro l hl
  rcases perform_cases hr op with ⟨hpublished, hrefuses⟩ | ⟨root, hlt, hrefuses, heq⟩
  · rcases hpublished.cell hdated c with ⟨hsnapshot, hbuilt⟩ | ⟨hnew, hversion⟩
    · rw [layout_of_snapshot hsnapshot] at hl
      simpa [refusalsAfter, hsnapshot, hrefuses, hbuilt] using h l hl
    · have hedition : (r.perform op).edition? c = some ⟨_, l⟩ := Option.map_eq_some_iff.mpr ⟨l, hl, rfl⟩
      simpa [refusalsAfter, hnew] using hversion _ hedition
  · have hsnapshot : (r.perform op).snapshot c = r.snapshot c := by
      rw [heq, snapshot_countGeneration]
    rw [layout_of_snapshot hsnapshot] at hl
    have hbehind := h l hl
    by_cases hc : c = root
    · subst hc
      have hrefused : r.refuses c op = true := (hrefuses c).mpr rfl
      have hafter : r.refusalsAfter c n op = n + 1 := by
        simp [refusalsAfter, hsnapshot, hrefused]
      rw [hafter, heq, built_countGeneration_self r hlt]
      omega
    · have hrefused : r.refuses c op = false := by simpa [hc] using hrefuses c
      have hafter : r.refusalsAfter c n op = n := by
        simp [refusalsAfter, hsnapshot, hrefused]
      rw [hafter, heq, built_countGeneration_of_ne r hc]
      exact hbehind

end Steps

theorem behind_fresh (limits : Limits) (c : ClassId) : (fresh limits).Behind c 0 := by
  intro l hl
  by_cases hkernel : IsKernel c
  · obtain ⟨k, rfl⟩ := hkernel
    have hversion := (dated_fresh limits).version_le hl
    have hbuilt := built_fresh limits k
    omega
  · rw [layout, generation_of_le (length_fresh_le hkernel)] at hl
    contradiction

theorem Behind.performAll (h : r.Behind c n) (hr : Reachable limits r)
    (ha : r.AllSteps Allowed ops) : (r.performAll ops).Behind c (r.refusals c n ops) := by
  induction ops generalizing r n with
  | nil => exact h
  | cons op rest ih =>
    have hstep := h.perform hr.invariant.1 hr.dated op
    exact ih hstep (hr.step ha.1) ha.2

/-- The version of a layout and the definitions that were refused since then make up the number of
generations that were counted for the class. -/
theorem run_version_add_refusals (ha : (fresh limits).AllSteps Allowed ops) {l : Layout}
    (hl : ((fresh limits).performAll ops).layout c = some l) :
    l.version + (fresh limits).refusals c 0 ops = ((fresh limits).performAll ops).built c :=
  (behind_fresh limits c).performAll .fresh ha l hl

def crossingDot : List Operation :=
  [.define .coloredPoint, .define .point, .define ⟨⟨"DOT"⟩, [], [], none⟩, .define dotAcross]

theorem crossingDot_version_add_refusals :
    (fresh Limits.standard).AllSteps Allowed crossingDot ∧
      ∃ l, ((fresh Limits.standard).performAll crossingDot).layout 22 = some l ∧ l.version = 1 ∧
        (fresh Limits.standard).refusals 22 0 crossingDot = 1 ∧
        ((fresh Limits.standard).performAll crossingDot).built 22 = 2 := by
  have hallowed : (fresh Limits.standard).AllSteps Allowed crossingDot :=
    ⟨trivial, trivial, trivial, trivial, trivial⟩
  have hversion : (((fresh Limits.standard).performAll crossingDot).layout 22).map Layout.version =
      some 1 := by decide +kernel
  have hrefusals : (fresh Limits.standard).refusals 22 0 crossingDot = 1 := by decide +kernel
  obtain ⟨l, hl, hone⟩ := Option.map_eq_some_iff.mp hversion
  have hsum := run_version_add_refusals hallowed hl
  exact ⟨hallowed, l, hl, hone, hrefusals, by omega⟩

/-- After a definition that was refused, the version of a layout is not the count of its class. -/
theorem crossedDot_version_ne_built :
    Reachable Limits.standard (dots.perform (.define dotAcross)) ∧ ¬IsKernel 22 ∧
      ∃ l, (dots.perform (.define dotAcross)).layout 22 = some l ∧ l.version = 1 ∧
        (dots.perform (.define dotAcross)).built 22 = 2 ∧
        l.version ≠ (dots.perform (.define dotAcross)).built 22 := by
  have hdots : Reachable Limits.standard dots := .step reachable_points trivial
  have hkernel : ¬IsKernel 22 := by
    rintro ⟨k, hk⟩
    exact absurd k.id_lt (by rw [hk]; decide)
  have hversion : ((dots.perform (.define dotAcross)).layout 22).map Layout.version = some 1 := by
    decide +kernel
  have hbuilt : (dots.perform (.define dotAcross)).built 22 = 2 := by decide +kernel
  obtain ⟨l, hl, hone⟩ := Option.map_eq_some_iff.mp hversion
  exact ⟨hdots.step trivial, hkernel, l, hl, hone, hbuilt, by omega⟩

end Metaobject.Registry
