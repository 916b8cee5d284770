import Metaobject.Archive.Memory
import Metaobject.Proofs.Restatement
import Metaobject.Proofs.TypeCoherence

/-!
# Types by name and by class

As long as no step gives a name to another class, every class is found under its own name and under no
other. The test for types then gives one answer for a class and for its name, however far the classes
have come.
-/

namespace Metaobject

namespace Registry

variable {r mid inst next : Registry} {limits : Limits} {d : ClassDefinition} {root a c : ClassId}
  {k : StandardClass} {op : Operation} {n : Symbol}

/-- Every class is found under its name, and nothing else is. -/
structure OneToOne (r : Registry) : Prop where
  named : r.Named
  found : ∀ c, c < r.cells.length → ∃ n, r.className c = some n ∧ r.lookup n = some c

theorem oneToOne_fresh (limits : Limits) : (fresh limits).OneToOne := by
  refine ⟨named_fresh limits, ?_⟩
  intro c hc
  rw [length_fresh] at hc
  obtain ⟨k, rfl⟩ := KernelClass.isKernel_of_lt hc
  refine ⟨k.name, ?_, (kernelIntact_fresh limits).bound k⟩
  rw [className, generation_fresh]
  exact k.name_generation

namespace OneToOne

theorem className_eq_iff (h : r.OneToOne) (hname : IsClassName n) (hn : r.lookup n = some c) :
    r.className a = some n ↔ a = c := by
  constructor
  · intro ha
    by_cases hlt : a < r.cells.length
    · obtain ⟨m, hm, hfound⟩ := h.found a hlt
      cases hm.symm.trans ha
      exact Option.some.inj (hfound.symm.trans hn)
    · rw [className, generation_of_le (Nat.le_of_not_lt hlt)] at ha
      cases ha
      exact absurd rfl hname.2
  · rintro rfl
    exact h.named n a hn

theorem addPlaceholder (h : r.OneToOne) (hr : r.WellFormed) (hnone : r.lookup n = none) :
    (r.addPlaceholder n).2.OneToOne := by
  refine ⟨named_addPlaceholder hr h.named n, ?_⟩
  intro c hc
  rw [length_addPlaceholder] at hc
  rcases Nat.lt_succ_iff_lt_or_eq.mp hc with hlt | rfl
  · obtain ⟨m, hm, hfound⟩ := h.found c hlt
    have hne : n ≠ m := by
      rintro rfl
      rw [hnone] at hfound
      contradiction
    refine ⟨m, ?_, ?_⟩
    · rw [className, generation_of_cell (cell_addPlaceholder_of_lt hlt)]
      exact hm
    · rw [lookup_addPlaceholder, if_neg hne]
      exact hfound
  · refine ⟨n, ?_, ?_⟩
    · rw [className, generation_addPlaceholder_new]
      rfl
    · rw [lookup_addPlaceholder, if_pos rfl]

theorem publish (h : r.OneToOne) (hr : r.WellFormed) (hc : r.lookup n = some c) :
    (r.publish c (.forwardReferenced n)).OneToOne := by
  have hname : ∀ a, (r.publish c (.forwardReferenced n)).className a = r.className a := by
    intro a
    by_cases ha : a = c
    · subst ha
      rw [className, generation_publish_self r _ (hr.bound n a hc)]
      exact (h.named n a hc).symm
    · rw [className, generation_publish_of_ne r _ ha, className]
  constructor
  · intro m a hm
    rw [hname]
    exact h.named m a hm
  · intro a ha
    rw [length_publish] at ha
    rw [hname]
    exact h.found a ha

theorem define (h : r.OneToOne) (hr : r.Invariant) (hdef : r.Defined d root k mid inst next) :
    next.OneToOne := by
  have hbinds := hdef.binds hr
  refine ⟨hdef.named hr h.named, ?_⟩
  intro c hc
  rw [className, ← Generation.name_unfinalized]
  rcases hdef.definition hr c with ⟨rfl, hgen⟩ | ⟨_, hlt, hgen⟩ | ⟨_, _, hle⟩ |
    ⟨_, _, n, _, _, hlookup, hgen⟩
  · rw [hgen]
    exact ⟨d.name, rfl, hbinds.name⟩
  · obtain ⟨n, hn, hfound⟩ := h.found c hlt
    rw [hgen, Generation.name_unfinalized]
    exact ⟨n, hn, hbinds.kept n c hfound⟩
  · exact absurd hc (Nat.not_lt.mpr hle)
  · rw [hgen]
    exact ⟨n, rfl, hlookup⟩

theorem move (h : r.OneToOne) (hr : r.Invariant) (hkeeps : r.KeepsNames op)
    (hmove : r.Move op next) : next.OneToOne := by
  have hwell := hr.toWellFormed
  cases hmove with
  | idle op => exact h
  | @counted d root hroot hopen =>
    constructor
    · intro m a hm
      rw [className, generation_countGeneration]
      exact h.named m a hm
    · intro a ha
      rw [length_countGeneration] at ha
      rw [className, generation_countGeneration]
      exact h.found a ha
  | defined _ hdef => exact h.define hr hdef
  | bound hname hopen hc => contradiction
  | unbound hopen => contradiction
  | resolved hname hnone => exact h.addPlaceholder hwell hnone
  | @displaced n hname hopen hstate =>
    cases hn : r.lookup n with
    | none => exact h.addPlaceholder hwell hn
    | some c => exact absurd (hkeeps c hn) (hstate c hn)
  | refreshed hname hc hstate => exact h.publish hwell hc

/-- The instances of any class are of the type that a name names if they are of the class that the
name is bound to. -/
theorem hasInstancesOf_eq (h : r.OneToOne) (hname : IsClassName n) (htop : n ≠ KernelClass.top.name)
    (hn : r.lookup n = some c) (a : ClassId) :
    r.hasInstancesOf a (.named n) = r.hasInstancesOf a (.ofClass c) := by
  have hne : n.name ≠ "T" := fun heq => htop (congrArg Symbol.mk heq)
  rw [hasInstancesOf, if_neg hne, if_neg hname.1, hasInstancesOf, isSubclass, Bool.eq_iff_iff,
    List.any_eq_true, decide_eq_true_iff]
  constructor
  · rintro ⟨b, hb, hbn⟩
    rwa [← (h.className_eq_iff hname hn).mp (of_decide_eq_true hbn)]
  · intro hc
    exact ⟨c, hc, decide_eq_true (h.named n c hn)⟩

end OneToOne

end Registry

namespace Session

variable {limits : Limits} {s t : Session}

/-- Sessions that are reached by steps that keep names, and by loading units, from whatever cache and
whether that succeeds or fails. -/
inductive KeepingNames (limits : Limits) : Session → Prop
  | fresh : KeepingNames limits (.fresh limits)
  | step {s : Session} {cmd : Command} : KeepingNames limits s → s.Allowed cmd →
      s.KeepsNames cmd → KeepingNames limits (s.perform cmd)
  | load {s : Session} {σ : Type} (o : Opener σ Archive) (cache : Cache σ Archive)
      (name : String) : KeepingNames limits s →
      KeepingNames limits { s with image := (Loader.loadUnit o name ⟨s.image, cache⟩).2.image }

theorem oneToOne_perform {cmd : Command} (hr : Registry.Reachable limits s.image.registry)
    (h : s.image.registry.OneToOne) (ha : s.Allowed cmd) (hkeeps : s.KeepsNames cmd) :
    Registry.Reachable limits (s.perform cmd).image.registry ∧
      (s.perform cmd).image.registry.OneToOne := by
  rcases registry_perform ha with hsame | ⟨op, rfl, hop⟩
  · rw [hsame]
    exact ⟨hr, h⟩
  · obtain ⟨hinv, _⟩ := hr.invariant
    rw [hop]
    exact ⟨hr.step ha, h.move hinv hkeeps (Registry.move_perform hinv ha)⟩

theorem Proceeds.oneToOne (h : s.Proceeds t) (hr : Registry.Reachable limits s.image.registry)
    (hs : s.image.registry.OneToOne) :
    Registry.Reachable limits t.image.registry ∧ t.image.registry.OneToOne := by
  induction h with
  | refl => exact ⟨hr, hs⟩
  | tail _ hstep ih =>
    obtain ⟨cmd, ha, hkeeps, rfl⟩ := hstep
    exact oneToOne_perform ih.1 ih.2 ha hkeeps

theorem KeepingNames.oneToOne (h : KeepingNames limits s) :
    Registry.Reachable limits s.image.registry ∧ s.image.registry.OneToOne := by
  induction h with
  | fresh => exact ⟨.fresh, Registry.oneToOne_fresh limits⟩
  | step _ ha hkeeps ih => exact oneToOne_perform ih.1 ih.2 ha hkeeps
  | @load s σ o cache name _ ih =>
    obtain ⟨t, hproceeds, himage⟩ :=
      Loader.proceeds_loadUnit o (s := s) (l := ⟨s.image, cache⟩) name rfl
    rw [← himage]
    exact hproceeds.oneToOne ih.1 ih.2

/-- Whether a value is of a type is the same for a name and for the class that it is bound to. Only the
name of the most general type is a type of all values by itself. -/
theorem keepingNames_types_agree (h : KeepingNames limits s) (v : Value) {n : Symbol} {c : ClassId}
    (hn : s.image.registry.lookup n = some c) (htop : n ≠ KernelClass.top.name) :
    s.image.isOfType v (.named n) = s.image.isOfType v (.ofClass c) := by
  obtain ⟨hr, hone⟩ := h.oneToOne
  have hname : IsClassName n := hr.kernelIntact.names n c hn
  rw [Image.isOfType_eq hr, Image.isOfType_eq hr]
  exact hone.hasInstancesOf_eq hname htop hn _

def shapes : Archive :=
  let point : Json := .object [("name", .string "POINT"), ("superclasses", .array [.string "SHAPE"])]
  ⟨"shapes", Text.Utf8.encode (Json.object [("classes", .array [point])]).text⟩

def onePoint : Session :=
  (((fresh Limits.standard).perform (.classes (.define ⟨⟨"POINT"⟩, [], [⟨"X"⟩], none⟩))).perform
    (.hold 20)).perform (.allocate 0 20)

theorem keepingNames_onePoint : KeepingNames Limits.standard onePoint := by
  refine .step (.step (.step .fresh ?_ ?_) ?_ ?_) ?_ ?_
  · trivial
  · trivial
  · decide +kernel
  · trivial
  · decide +kernel
  · trivial

def loadedPoint : Session :=
  let cache := Cache.fresh (Table.empty.insert "shapes" shapes.bytes)
  { onePoint with image :=
      (Loader.loadUnit (MemoryArchives.opener 200) "shapes" ⟨onePoint.image, cache⟩).2.image }

theorem loadedPoint_types_agree :
    KeepingNames Limits.standard loadedPoint ∧
      loadedPoint.image.registry.state 20 = .unfinalized ∧
      loadedPoint.image.registry.lookup ⟨"SHAPE"⟩ = some 21 ∧
      loadedPoint.image.isOfType (.object 0) (.named ⟨"SHAPE"⟩) = true ∧
      loadedPoint.image.isOfType (.object 0) (.ofClass 21) = true := by
  have hkeeping : KeepingNames Limits.standard loadedPoint := .load _ _ _ keepingNames_onePoint
  obtain ⟨hstate, hlookup, hnamed⟩ : loadedPoint.image.registry.state 20 = .unfinalized ∧
      loadedPoint.image.registry.lookup ⟨"SHAPE"⟩ = some 21 ∧
      loadedPoint.image.isOfType (.object 0) (.named ⟨"SHAPE"⟩) = true := by
    decide +kernel
  have hagree := keepingNames_types_agree hkeeping (.object 0) hlookup (by decide)
  exact ⟨hkeeping, hstate, hlookup, hnamed, hagree ▸ hnamed⟩

end Session

end Metaobject
