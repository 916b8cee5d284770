import Metaobject.Proofs.BuiltInTypes
import Metaobject.Proofs.LayoutVersions

/-!
# Obsolete instances

An instance is stored under a layout that its class had. Whether it is obsolete is seen from the
stamps of that layout and of the current one, and their versions say the same: an instance is obsolete
if it has an earlier version, however many redefinitions it missed.
-/

namespace Metaobject

def Image.storedVersion (m : Image) (i : InstanceId) : Nat := (m.object i).storage.layout.version

def Image.currentVersion? (m : Image) (i : InstanceId) : Option Nat :=
  (m.registry.layout (m.object i).owner).map Layout.version

namespace Session

open Registry

variable {limits : Limits} {s : Session} {cmd : Command} {cmds : List Command}
  {sources : List ClassId} {i : InstanceId}

section Runs

def stages (s : Session) : Command → List Registry
  | .classes op => s.image.registry.stages op
  | .hold _ | .allocate _ _ | .access _ _ | .readAt _ _ | .writeAt _ _ _ | .functions _ _ _ => []

def trail (s : Session) : List Command → List Registry
  | [] => [s.image.registry]
  | cmd :: rest => s.image.registry :: (s.stages cmd ++ (s.perform cmd).trail rest)

theorem passage_stages (ha : s.Allowed cmd) :
    s.image.registry.Passage (s.stages cmd) (s.perform cmd).image.registry := by
  rcases registry_perform ha with heq | ⟨op, rfl, heq⟩
  · rw [heq]
    cases cmd with
    | classes op =>
      have hpassage := s.image.registry.passage_stages op
      rwa [show s.image.registry.perform op = s.image.registry from heq] at hpassage
    | hold _ | allocate _ _ | access _ _ | readAt _ _ | writeAt _ _ _ | functions _ _ _ =>
      exact .nil .refl
  · rw [heq]
    exact s.image.registry.passage_stages op

theorem passage_trail (ha : s.AllSteps Allowed cmds) :
    s.image.registry.Passage (s.trail cmds) (s.performAll cmds).image.registry := by
  induction cmds generalizing s with
  | nil => exact .arrive .refl
  | cons cmd rest ih => exact ((passage_stages ha.1).append (ih ha.2)).leave

theorem dated_trail (ha : (fresh limits).AllSteps Allowed cmds) :
    ∀ r ∈ (fresh limits).trail cmds, r.Dated := by
  intro r hr
  exact (dated_fresh limits).evolves ((passage_trail ha).between r hr).1

theorem evolves_perform (ha : s.Allowed cmd) :
    Evolves s.image.registry (s.perform cmd).image.registry :=
  (passage_stages ha).evolves

end Runs

section Instances

/-- An access leaves an instance under its layout or under the current one of its class. -/
theorem edition_after (a : NamedAccess) (m : Image) (i : InstanceId) :
    (a.after m i).edition = (m.object i).storage.edition ∨
      m.registry.edition? (m.object i).owner = some (a.after m i).edition := by
  unfold NamedAccess.after
  split
  · rename_i e he
    rw [NamedAccess.edition_store, Storage.under]
    split
    · exact Or.inl rfl
    · exact Or.inr he
  · exact Or.inl rfl

/-- Generations that are held are of the classes from which they were taken, and instances are stored
under layouts that their classes had. -/
structure OfOwnClass (s : Session) (sources : List ClassId) : Prop where
  held : List.Forall₂ (fun x c => s.image.registry.Had c x) s.snapshots sources
  stored : ∀ i, i < s.image.instances.length → ∃ x,
    s.image.registry.Had (s.image.object i).owner x ∧
      x.edition? = some (s.image.object i).storage.edition

theorem OfOwnClass.perform (h : s.OfOwnClass sources) (hdated : s.image.registry.Dated)
    (ha : s.Allowed cmd) (hown : MakesOwn sources cmd) :
    (s.perform cmd).OfOwnClass (sourcesAfter sources cmd) := by
  have hevolves := evolves_perform ha
  constructor
  · have hheld := h.held.imp fun x c hx => hx.evolves hevolves
    rcases snapshots_perform_cases s sources cmd with ⟨c, rfl, heq⟩ | ⟨heq, hsources⟩
    · rw [heq]
      exact List.rel_append hheld (.cons (hdated c) .nil)
    · rw [heq, hsources]
      exact hheld
  · intro i hi
    by_cases hlt : i < s.image.instances.length
    · obtain ⟨x, hx, hedition⟩ := h.stored i hlt
      rw [owner_perform ha hlt]
      rcases object_perform ha hlt with hsame | ⟨a, _, hobject⟩ | ⟨index, v, _, hobject⟩
      · rw [hsame]
        exact ⟨x, hx.evolves hevolves, hedition⟩
      · rw [hobject]
        rcases edition_after a s.image i with heq | hcurrent
        · rw [heq]
          exact ⟨x, hx.evolves hevolves, hedition⟩
        · exact ⟨_, (hdated _).evolves hevolves, hcurrent⟩
      · rw [hobject]
        exact ⟨x, hx.evolves hevolves, hedition⟩
    · obtain ⟨k, c, x, e, rfl, hx, _, he, hobject⟩ := object_perform_new ha hi hlt
      obtain ⟨hk, rfl⟩ := List.getElem?_eq_some_iff.mp hx
      obtain ⟨hk', rfl⟩ := List.getElem?_eq_some_iff.mp hown
      rw [hobject]
      exact ⟨_, (h.held.get hk hk').evolves hevolves, he⟩

theorem Populated.ofOwnClass (h : Populated limits s sources) :
    s.image.registry.Dated ∧ s.OfOwnClass sources := by
  induction h with
  | fresh => exact ⟨dated_fresh limits, .nil, fun i hi => absurd hi (Nat.not_lt_zero i)⟩
  | step _ ha hown ih => exact ⟨ih.1.evolves (evolves_perform ha), ih.2.perform ih.1 ha hown⟩

theorem OfOwnClass.isObsolete_iff (h : s.OfOwnClass sources) (hi : i < s.image.instances.length)
    {n : Nat} (hn : s.image.currentVersion? i = some n) :
    s.image.storedVersion i ≤ n ∧ (s.image.isObsolete i = true ↔ s.image.storedVersion i < n) := by
  obtain ⟨x, hx, hedition⟩ := h.stored i hi
  obtain ⟨l, hl, rfl⟩ := Option.map_eq_some_iff.mp hn
  have he : s.image.registry.edition? (s.image.object i).owner = some ⟨_, l⟩ :=
    Option.map_eq_some_iff.mpr ⟨l, hl, rfl⟩
  have hstamp := stamp_edition hedition
  have hobsolete : s.image.isObsolete i = true ↔
      (s.image.registry.snapshot (s.image.object i).owner).stamp ≠ x.stamp := by
    simp [Image.isObsolete, he, hstamp]
  rw [hobsolete]
  change (s.image.object i).storage.edition.layout.version ≤ _ ∧ (_ ↔
    (s.image.object i).storage.edition.layout.version < _)
  rcases hx.current with hsame | ⟨hlt, hversion⟩
  · rw [edition?, hsame, hedition] at he
    simp [hsame, Option.some.inj he]
  · have hless : (s.image.object i).storage.edition.layout.version < l.version :=
      hversion _ hedition _ he
    exact ⟨hless.le, by omega⟩

end Instances

/-- The layouts that a class has in the course of a run are different objects with ever greater
versions, and none has a version above the number of generations counted for the class at the time. So
an instance has no later version than its class, and is obsolete just if its version is an earlier one,
if instances are made by their own classes: only then is an instance stored under a layout that its
class had. -/
theorem run_versions_ordered (ha : (fresh limits).AllSteps Allowed cmds) :
    (∀ c, (editionsOf c ((fresh limits).trail cmds)).Pairwise fun e e' =>
        e.stamp ≠ e'.stamp ∧ e.layout.version < e'.layout.version) ∧
      (∀ r ∈ (fresh limits).trail cmds, ∀ c, ∀ l ∈ r.layout c, l.version ≤ r.built c) ∧
      (∀ sources, Populated limits ((fresh limits).performAll cmds) sources →
        ∀ i, i < ((fresh limits).performAll cmds).image.instances.length →
        ∀ n ∈ ((fresh limits).performAll cmds).image.currentVersion? i,
          ((fresh limits).performAll cmds).image.storedVersion i ≤ n ∧
            (((fresh limits).performAll cmds).image.isObsolete i = true ↔
              ((fresh limits).performAll cmds).image.storedVersion i < n)) := by
  have hdated := dated_trail ha
  refine ⟨?_, ?_, ?_⟩
  · intro c
    exact pairwise_editionsOf hdated (passage_trail ha).pairwise c
  · intro r hr c l hl
    exact (hdated r hr).version_le hl
  · intro sources hpopulated i hi n hn
    exact hpopulated.ofOwnClass.2.isObsolete_iff hi hn

/-- A class that had to wait for its superclass, was finalized again when that was defined, could then
not be given a superclass before its subclass, and was redefined once more. -/
def lateShapes : List Command :=
  [.classes (.define .point), .hold 20, .allocate 0 20,
    .classes (.define ⟨⟨"POINT"⟩, [⟨"SHAPE"⟩], [⟨"X"⟩], none⟩),
    .classes (.define ⟨⟨"SHAPE"⟩, [], [⟨"NAME"⟩], none⟩), .hold 20, .allocate 1 20,
    .classes (.define ⟨⟨"POINT"⟩, [⟨"STANDARD-OBJECT"⟩, ⟨"SHAPE"⟩], [⟨"X"⟩], none⟩),
    .allocate 0 20, .classes (.define .point), .hold 20, .allocate 2 20]

theorem lateShapes_versions_ordered :
    (fresh Limits.standard).AllSteps Allowed lateShapes ∧
      Populated Limits.standard ((fresh Limits.standard).performAll lateShapes) [20, 20, 20] ∧
      (editionsOf 20 ((fresh Limits.standard).trail lateShapes)).map (fun e => e.layout.version) =
        [1, 2, 4] ∧
      (editionsOf 20 ((fresh Limits.standard).trail lateShapes)).Pairwise (fun e e' =>
        e.stamp ≠ e'.stamp ∧ e.layout.version < e'.layout.version) ∧
      (∀ r ∈ (fresh Limits.standard).trail lateShapes, ∀ l ∈ r.layout 20,
        l.version ≤ r.built 20) ∧
      ((fresh Limits.standard).performAll lateShapes).image.storedVersion 1 = 2 ∧
      ((fresh Limits.standard).performAll lateShapes).image.isObsolete 1 = true ∧
      ((fresh Limits.standard).performAll lateShapes).image.storedVersion 3 = 4 ∧
      ((fresh Limits.standard).performAll lateShapes).image.isObsolete 3 = false := by
  have hallowed : (fresh Limits.standard).AllSteps Allowed lateShapes := by decide +kernel
  have hpopulated :
      Populated Limits.standard ((fresh Limits.standard).performAll lateShapes) [20, 20, 20] :=
    Populated.fresh.performAll hallowed
      (by simp [lateShapes, AllMakeOwn, MakesOwn, sourcesAfter])
  obtain ⟨hlength, hearly, hlate, hcurrent, hcurrent'⟩ :
      ((fresh Limits.standard).performAll lateShapes).image.instances.length = 4 ∧
        ((fresh Limits.standard).performAll lateShapes).image.storedVersion 1 = 2 ∧
        ((fresh Limits.standard).performAll lateShapes).image.storedVersion 3 = 4 ∧
        ((fresh Limits.standard).performAll lateShapes).image.currentVersion? 1 = some 4 ∧
        ((fresh Limits.standard).performAll lateShapes).image.currentVersion? 3 = some 4 := by
    decide +kernel
  obtain ⟨hpairwise, hversions, hobsolete⟩ := run_versions_ordered hallowed
  obtain ⟨_, hstale⟩ := hobsolete _ hpopulated 1 (by omega) 4 hcurrent
  obtain ⟨_, hfresh⟩ := hobsolete _ hpopulated 3 (by omega) 4 hcurrent'
  refine ⟨hallowed, hpopulated, by decide +kernel, hpairwise 20, fun r hr => hversions r hr 20, hearly, ?_,
    hlate, ?_⟩
  · exact hstale.mpr (by omega)
  · rw [← Bool.not_eq_true, hfresh]
    omega

end Session

end Metaobject
