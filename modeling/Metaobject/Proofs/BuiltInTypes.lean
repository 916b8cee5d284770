import Metaobject.Proofs.TypeCoherence

/-!
# Built-in types

The classes of the values that the runtime makes itself are no superclasses, but for the top of the
hierarchy: a definition that names one is refused, whatever the name, and what was only named when it
became a superclass is never built in later. So instances, which other classes make, are of no built-in
type.
-/

namespace Metaobject

theorem KernelClass.superclass_top {k l : KernelClass} (hk : k.isBuiltIn = false)
    (hl : l ∈ k.superclasses) (hbuiltIn : l.isBuiltIn = true) : l = .top := by
  revert hl
  cases k <;> cases l <;> first | contradiction | decide

namespace Registry

variable {r next : Registry} {limits : Limits} {op : Operation} {a c : ClassId} {k : KernelClass}

theorem WellFormed.isBuiltIn_iff (hr : r.WellFormed) :
    (r.generation c).isBuiltIn = true ↔ ∃ k : KernelClass, k.id = c ∧ k.isBuiltIn = true := by
  constructor
  · intro hc
    have hkernel : IsKernel c := by
      by_contra huser
      have hgen := hr.user c huser
      cases hg : r.generation c <;> simp_all [Generation.isBuiltIn, Generation.IsUser]
    obtain ⟨k, rfl⟩ := hkernel
    rw [hr.kernel, KernelClass.isBuiltIn_generation] at hc
    exact ⟨k, rfl, hc⟩
  · rintro ⟨k, rfl, hk⟩
    rw [hr.kernel, KernelClass.isBuiltIn_generation]
    exact hk

theorem WellFormed.isBuiltIn_eq (hr : r.WellFormed) (hnext : next.WellFormed) (c : ClassId) :
    (next.generation c).isBuiltIn = (r.generation c).isBuiltIn := by
  rw [Bool.eq_iff_iff, hr.isBuiltIn_iff, hnext.isBuiltIn_iff]

/-- A class that was defined has no built-in superclass but the top. -/
def ShunsBuiltIn (r : Registry) : Prop :=
  ∀ c, ¬IsKernel c → ∀ k : KernelClass, k.id ∈ r.superclasses c → k.isBuiltIn = true → k = .top

theorem shunsBuiltIn_fresh (limits : Limits) : (fresh limits).ShunsBuiltIn := by
  intro c hc k hk
  rw [superclasses_of_le (length_fresh_le hc)] at hk
  contradiction

theorem ShunsBuiltIn.congr (h : r.ShunsBuiltIn)
    (hsupers : ∀ c, next.superclasses c = r.superclasses c) : next.ShunsBuiltIn := by
  intro c hc k hk
  rw [hsupers] at hk
  exact h c hc k hk

theorem ShunsBuiltIn.move (h : r.ShunsBuiltIn) (hr : r.Invariant) (hmove : r.Move op next) :
    next.ShunsBuiltIn := by
  cases hmove with
  | idle op => exact h
  | @counted d root _ _ => exact h.congr (alike_countGeneration r root).superclasses
  | @defined d root k mid inst next _ hdef =>
    intro c hc l hl hbuiltIn
    by_cases hroot : c = root
    · subst hroot
      rw [hdef.superclasses_root hr] at hl
      apply hdef.superclass_top hr hl
      rw [hr.kernel, KernelClass.isBuiltIn_generation]
      exact hbuiltIn
    · rw [hdef.superclasses_of_ne hr hroot] at hl
      exact h c hc l hl hbuiltIn
  | bound _ _ _ => exact h.congr fun _ => rfl
  | unbound _ => exact h.congr fun _ => rfl
  | @resolved n _ _ => exact h.congr (alike_addPlaceholder r n).superclasses
  | @displaced n _ _ _ => exact h.congr (alike_addPlaceholder r n).superclasses
  | @refreshed n c _ _ hstate => exact h.congr (alike_publish_placeholder n hstate).superclasses

theorem Reachable.shunsBuiltIn (h : Reachable limits r) : r.ShunsBuiltIn := by
  induction h with
  | fresh => exact shunsBuiltIn_fresh limits
  | step hr ha ih =>
    obtain ⟨hinv, _⟩ := hr.invariant
    exact ih.move hinv (move_perform hinv ha)

theorem ShunsBuiltIn.superclass (h : r.ShunsBuiltIn) (hr : r.WellFormed)
    (hc : (r.generation c).isBuiltIn = false) (ha : a ∈ r.superclasses c) :
    (r.generation a).isBuiltIn = false ∨ a = KernelClass.top.id := by
  cases hbuiltIn : (r.generation a).isBuiltIn with
  | false => exact Or.inl rfl
  | true =>
    right
    obtain ⟨l, rfl, hl⟩ := hr.isBuiltIn_iff.mp hbuiltIn
    apply congrArg KernelClass.id
    by_cases hkernel : IsKernel c
    · obtain ⟨k, rfl⟩ := hkernel
      rw [hr.kernel, KernelClass.isBuiltIn_generation] at hc
      rw [hr.superclasses_kernel] at ha
      obtain ⟨l', hmem, hid⟩ := List.mem_map.mp ha
      cases KernelClass.id_injective hid
      exact KernelClass.superclass_top hc hmem hl
    · exact h c hkernel l ha hl

theorem Reachable.inherits_builtIn (h : Reachable limits r)
    (hc : (r.generation c).isBuiltIn = false) (hinherits : r.Inherits c a) :
    (r.generation a).isBuiltIn = false ∨ a = KernelClass.top.id := by
  obtain ⟨hinv, _⟩ := h.invariant
  induction hinherits with
  | refl => exact Or.inl hc
  | tail _ hs ih =>
    rcases ih with hopen | rfl
    · exact h.shunsBuiltIn.superclass hinv.toWellFormed hopen hs
    · rw [hinv.superclasses_kernel] at hs
      contradiction

theorem Reachable.not_inherits_builtIn (h : Reachable limits r) (hk : k.isBuiltIn = true)
    (htop : k ≠ .top) (hc : (r.generation c).isBuiltIn = false) : ¬r.Inherits c k.id := by
  obtain ⟨hinv, _⟩ := h.invariant
  intro hinherits
  rcases h.inherits_builtIn hc hinherits with hopen | hid
  · rw [hinv.kernel, KernelClass.isBuiltIn_generation, hk] at hopen
    contradiction
  · exact htop (KernelClass.id_injective hid)

/-- In every reachable registry the names of kernel classes are theirs alone. -/
theorem Reachable.className_eq_kernel (h : Reachable limits r) :
    r.className a = some k.name ↔ a = k.id := by
  obtain ⟨hinv, _⟩ := h.invariant
  constructor
  · intro hname
    by_cases hkernel : IsKernel a
    · obtain ⟨l, rfl⟩ := hkernel
      rw [hinv.className_kernel] at hname
      exact congrArg KernelClass.id (KernelClass.name_injective (Option.some.inj hname))
    · exact absurd hname (h.kernelIntact.foreign a hkernel k)
  · rintro rfl
    exact hinv.className_kernel k

/-- Only a kernel class has its name, so the name of a built-in class means this class and no other. -/
theorem Reachable.hasInstancesOf_builtIn (h : Reachable limits r) (hk : k.isBuiltIn = true)
    (htop : k ≠ .top) (hc : (r.generation c).isBuiltIn = false) :
    r.hasInstancesOf c (.ofClass k.id) = false ∧ r.hasInstancesOf c (.named k.name) = false := by
  obtain ⟨hinv, _⟩ := h.invariant
  have hnot := h.not_inherits_builtIn hk htop hc
  constructor
  · rw [hasInstancesOf, ← Bool.not_eq_true, hinv.isSubclass_iff]
    exact hnot
  · have hname : k.name.name ≠ "T" := fun heq =>
      htop (KernelClass.name_injective (congrArg Symbol.mk heq))
    rw [hasInstancesOf, if_neg hname, if_neg k.isClassName_name.1, List.any_eq_false]
    intro a ha hnamed
    have hinherits := hinv.mem_precedenceList.mp ha
    have hclass : r.className a = some k.name := of_decide_eq_true hnamed
    rw [h.className_eq_kernel] at hclass
    exact hnot (hclass ▸ hinherits)

end Registry

namespace Session

variable {limits : Limits} {s : Session} {cmd : Command} {sources : List ClassId} {i : InstanceId}

/-- The classes from which the generations that are held were taken, after a step. -/
def sourcesAfter (sources : List ClassId) : Command → List ClassId
  | .hold c => sources ++ [c]
  | .classes _ | .allocate _ _ | .access _ _ | .readAt _ _ | .writeAt _ _ _ | .functions _ _ _ =>
    sources

/-- Instances are made by a class itself: from its generation, or from one that it had. -/
def MakesOwn (sources : List ClassId) : Command → Prop
  | .allocate k c => sources[k]? = some c
  | .classes _ | .hold _ | .access _ _ | .readAt _ _ | .writeAt _ _ _ | .functions _ _ _ => True

/-- Sessions whose instances were made by their own classes, with the classes from which the
generations that are held were taken. A generation that is held can also make instances for a class
that it is not of. Where something is said of instances and their classes, such sessions are left out:
what such an instance is stored under tells nothing about its class. -/
inductive Populated (limits : Limits) : Session → List ClassId → Prop
  | fresh : Populated limits (.fresh limits) []
  | step {s : Session} {sources : List ClassId} {cmd : Command} : Populated limits s sources →
      s.Allowed cmd → MakesOwn sources cmd → Populated limits (s.perform cmd) (sourcesAfter sources cmd)

theorem Populated.reachable (h : Populated limits s sources) : Reachable limits s := by
  induction h with
  | fresh => exact .fresh
  | step _ ha _ ih => exact ih.step ha

def AllMakeOwn (sources : List ClassId) : List Command → Prop
  | [] => True
  | cmd :: rest => MakesOwn sources cmd ∧ AllMakeOwn (sourcesAfter sources cmd) rest

theorem Populated.performAll {cmds : List Command} (h : Populated limits s sources)
    (ha : s.AllSteps Allowed cmds) (hown : AllMakeOwn sources cmds) :
    Populated limits (s.performAll cmds) (cmds.foldl sourcesAfter sources) := by
  induction cmds generalizing s sources with
  | nil => exact h
  | cons cmd rest ih => exact ih (h.step ha.1 hown.1) ha.2 hown.2

/-- The generations that are held are built in just if the classes are from which they were taken, and
no instance has a built-in class. -/
structure Unmixed (s : Session) (sources : List ClassId) : Prop where
  held : List.Forall₂ (fun x c => x.generation.isBuiltIn =
    (s.image.registry.generation c).isBuiltIn) s.snapshots sources
  owners : ∀ i, i < s.image.instances.length →
    (s.image.registry.generation (s.image.object i).owner).isBuiltIn = false

theorem snapshots_perform_cases (s : Session) (sources : List ClassId) (cmd : Command) :
    (∃ c, cmd = .hold c ∧ (s.perform cmd).snapshots = s.snapshots ++ [s.image.registry.snapshot c]) ∨
      (s.perform cmd).snapshots = s.snapshots ∧ sourcesAfter sources cmd = sources := by
  cases cmd with
  | hold c => exact Or.inl ⟨c, rfl, rfl⟩
  | allocate k c =>
    right
    rw [perform]
    split <;> exact ⟨rfl, rfl⟩
  | classes _ | access _ _ | readAt _ _ | writeAt _ _ _ | functions _ _ _ => exact Or.inr ⟨rfl, rfl⟩

theorem owner_perform (ha : s.Allowed cmd) (hi : i < s.image.instances.length) :
    ((s.perform cmd).image.object i).owner = (s.image.object i).owner := by
  rcases object_perform ha hi with hsame | ⟨a, _, hobject⟩ | ⟨index, v, _, hobject⟩
  · rw [hsame]
  · rw [hobject]
  · rw [hobject]

theorem Unmixed.perform (h : s.Unmixed sources) (hr : Reachable limits s) (ha : s.Allowed cmd)
    (hown : MakesOwn sources cmd) : (s.perform cmd).Unmixed (sourcesAfter sources cmd) := by
  obtain ⟨hinv, _⟩ := hr.registry.invariant
  obtain ⟨hnext, _⟩ := (hr.step ha).registry.invariant
  have hsame := hinv.isBuiltIn_eq hnext.toWellFormed
  constructor
  · have hheld := h.held.imp fun x c hx => hx.trans (hsame c).symm
    rcases snapshots_perform_cases s sources cmd with ⟨c, rfl, heq⟩ | ⟨heq, hsources⟩
    · rw [heq]
      exact List.rel_append hheld (.cons rfl .nil)
    · rw [heq, hsources]
      exact hheld
  · intro i hi
    rw [hsame]
    by_cases hlt : i < s.image.instances.length
    · rw [owner_perform ha hlt]
      exact h.owners i hlt
    · obtain ⟨k, c, x, e, rfl, hx, hbuiltIn, _, hobject⟩ := object_perform_new ha hi hlt
      obtain ⟨hk, rfl⟩ := List.getElem?_eq_some_iff.mp hx
      obtain ⟨hk', rfl⟩ := List.getElem?_eq_some_iff.mp hown
      -- A class does not become built in, so it is what it was when the generation was taken.
      have hheld := h.held.get hk hk'
      rw [hobject]
      exact hheld.symm.trans hbuiltIn

theorem Populated.unmixed (h : Populated limits s sources) : s.Unmixed sources := by
  induction h with
  | fresh => exact ⟨.nil, fun i hi => absurd hi (Nat.not_lt_zero i)⟩
  | step hs ha hown ih => exact ih.perform hs.reachable ha hown

theorem Populated.owner_not_builtIn (h : Populated limits s sources) (i : InstanceId) :
    (s.image.registry.generation (s.image.object i).owner).isBuiltIn = false := by
  by_cases hi : i < s.image.instances.length
  · exact h.unmixed.owners i hi
  · obtain ⟨hinv, _⟩ := h.reachable.registry.invariant
    have hobject : (s.image.object i).owner = KernelClass.standardObject.id := by
      rw [Image.object, List.getElem?_eq_none (Nat.le_of_not_lt hi)]
      rfl
    rw [hobject, hinv.kernel]
    rfl

theorem typep_builtIn (h : Reachable limits s) {k : KernelClass} (hk : k.isBuiltIn = true)
    (htop : k ≠ .top)
    (hi : (s.image.registry.generation (s.image.object i).owner).isBuiltIn = false) :
    s.image.typep (.object i) (.classObject k.id) = .ok false ∧
      s.image.typep (.object i) (.symbol k.name) = .ok false := by
  obtain ⟨hclass, hname⟩ := h.registry.hasInstancesOf_builtIn hk htop hi
  exact ⟨congrArg Except.ok hclass, congrArg Except.ok hname⟩

/-- An instance whose class is not built in is of no built-in type but the most general one, neither by
the class nor by its name. That is every instance if instances are made by their own classes, since
built-in classes make none. And no class that is not built in inherits from such a class. -/
theorem reachable_no_builtIn_type (h : Reachable limits s) {k : KernelClass}
    (hk : k.isBuiltIn = true) (htop : k ≠ .top) :
    (∀ i, (s.image.registry.generation (s.image.object i).owner).isBuiltIn = false →
        s.image.typep (.object i) (.classObject k.id) = .ok false ∧
          s.image.typep (.object i) (.symbol k.name) = .ok false) ∧
      (∀ sources, Populated limits s sources → ∀ i,
        s.image.typep (.object i) (.classObject k.id) = .ok false ∧
          s.image.typep (.object i) (.symbol k.name) = .ok false) ∧
      ∀ c, (s.image.registry.generation c).isBuiltIn = false →
        ¬s.image.registry.Inherits c k.id := by
  refine ⟨fun i hi => typep_builtIn h hk htop hi, ?_, ?_⟩
  · intro sources hpopulated i
    exact typep_builtIn h hk htop (hpopulated.owner_not_builtIn i)
  · intro c hc
    exact h.registry.not_inherits_builtIn hk htop hc

/-- An instance whose class was defined again on a name that then became one of the class of
integers. -/
def renamedInteger : Session :=
  (fresh Limits.standard).performAll
    [.classes (.define ⟨⟨"POINT"⟩, [], [⟨"X"⟩], none⟩), .hold 20, .allocate 0 20,
      .classes (.define ⟨⟨"POINT"⟩, [⟨"SHAPE"⟩], [⟨"X"⟩], none⟩),
      .classes (.register ⟨"SHAPE"⟩ KernelClass.integer.id)]

theorem populated_renamedInteger : Populated Limits.standard renamedInteger [20] :=
  Populated.fresh.performAll (by decide +kernel) ⟨trivial, trivial, rfl, trivial, trivial, trivial⟩

theorem renamedInteger_no_builtIn_type :
    Populated Limits.standard renamedInteger [20] ∧
      renamedInteger.image.registry.lookup ⟨"SHAPE"⟩ = some KernelClass.integer.id ∧
      renamedInteger.image.registry.superclasses 20 = [21] ∧
      renamedInteger.image.typep (.object 0) (.classObject KernelClass.integer.id) = .ok false ∧
      renamedInteger.image.typep (.object 0) (.symbol KernelClass.integer.name) = .ok false ∧
      ¬renamedInteger.image.registry.Inherits 20 KernelClass.integer.id := by
  have hbuiltIn : KernelClass.integer.isBuiltIn = true := rfl
  obtain ⟨_, htypes, hclasses⟩ :=
    reachable_no_builtIn_type populated_renamedInteger.reachable hbuiltIn (by decide)
  obtain ⟨hclass, hname⟩ := htypes [20] populated_renamedInteger 0
  exact ⟨populated_renamedInteger, by decide +kernel, by decide +kernel, hclass, hname,
    hclasses 20 (by decide +kernel)⟩

end Session

end Metaobject
