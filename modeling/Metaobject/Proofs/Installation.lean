import Metaobject.Proofs.Cascade
import Metaobject.Proofs.Declaration

/-!
# Installation of a definition

The class of a definition replaces what was in its cell. Its superclasses do not inherit from it, so
that no cycle comes about, and all classes stay settled but those that inherit from it. The cascade
settles these.
-/

namespace Metaobject.Registry

variable {r r' mid next : Registry} {d : ClassDefinition} {root self : ClassId} {g : Generation}
  {k : StandardClass}

structure Relinked (r r' : Registry) : Prop where
  limits : r'.limits = r.limits
  lookup : r'.lookup = r.lookup
  length : r'.cells.length = r.cells.length
  snapshot : ∀ c, r'.snapshot c = r.snapshot c
  built : ∀ c, r'.built c = r.built c

theorem Relinked.trans {r'' : Registry} (h : r.Relinked r') (h' : r'.Relinked r'') :
    r.Relinked r'' :=
  ⟨h'.limits.trans h.limits, h'.lookup.trans h.lookup, h'.length.trans h.length,
    fun c => (h'.snapshot c).trans (h.snapshot c), fun c => (h'.built c).trans (h.built c)⟩

theorem relinked_unlink (r : Registry) (self super : ClassId) : r.Relinked (r.unlink self super) :=
  ⟨rfl, rfl, length_unlink r self super, fun c => snapshot_unlink r self c super,
    fun c => built_unlink r self c super⟩

theorem relinked_link (r : Registry) (self super : ClassId) : r.Relinked (r.link self super) :=
  ⟨rfl, rfl, length_link r self super, fun c => snapshot_link r self c super,
    fun c => built_link r self c super⟩

theorem foldl_unlink (r : Registry) (self : ClassId) (supers : List ClassId) :
    r.Relinked (supers.foldl (fun r super => r.unlink self super) r) ∧
      (∀ a b, b ∈ (supers.foldl (fun r super => r.unlink self super) r).subclasses a ↔
        b ∈ r.subclasses a ∧ ¬(a ∈ supers ∧ b = self)) ∧
      ((∀ a, (r.subclasses a).Nodup) →
        ∀ a, ((supers.foldl (fun r super => r.unlink self super) r).subclasses a).Nodup) := by
  induction supers generalizing r with
  | nil => exact ⟨⟨rfl, rfl, rfl, fun _ => rfl, fun _ => rfl⟩, by simp, fun h => h⟩
  | cons super rest ih =>
    obtain ⟨hsame, hmem, hnodup⟩ := ih (r.unlink self super)
    rw [List.foldl_cons]
    refine ⟨(relinked_unlink r self super).trans hsame, ?_, ?_⟩
    · intro a b
      rw [hmem, mem_subclasses_unlink, List.mem_cons]
      tauto
    · exact fun h => hnodup fun a => nodup_subclasses_unlink r (h a)

theorem foldl_link (r : Registry) (self : ClassId) (supers : List ClassId)
    (hlt : ∀ s ∈ supers, s < r.cells.length) :
    r.Relinked (supers.foldl (fun r super => r.link self super) r) ∧
      (∀ a b, b ∈ (supers.foldl (fun r super => r.link self super) r).subclasses a ↔
        b ∈ r.subclasses a ∨ (a ∈ supers ∧ b = self)) ∧
      ((∀ a, (r.subclasses a).Nodup) →
        ∀ a, ((supers.foldl (fun r super => r.link self super) r).subclasses a).Nodup) := by
  induction supers generalizing r with
  | nil => exact ⟨⟨rfl, rfl, rfl, fun _ => rfl, fun _ => rfl⟩, by simp, fun h => h⟩
  | cons super rest ih =>
    have hsuper := hlt super List.mem_cons_self
    obtain ⟨hsame, hmem, hnodup⟩ := ih (r.link self super) fun s hs => by
      rw [length_link]
      exact hlt s (List.mem_cons_of_mem _ hs)
    rw [List.foldl_cons]
    refine ⟨(relinked_link r self super).trans hsame, ?_, ?_⟩
    · intro a b
      rw [hmem, mem_subclasses_link r hsuper, List.mem_cons]
      tauto
    · exact fun h => hnodup fun a => nodup_subclasses_link r hsuper (h a)

/-- The class has another generation, and is linked to its superclasses instead of the old ones. -/
structure Redefined (r : Registry) (root : ClassId) (g : Generation) (r' : Registry) : Prop where
  limits : r'.limits = r.limits
  lookup : r'.lookup = r.lookup
  length : r'.cells.length = r.cells.length
  generation_root : r'.generation root = g
  snapshot : ∀ c, c ≠ root → r'.snapshot c = r.snapshot c
  built : ∀ c, c ≠ root → r'.built c = r.built c
  subclasses : ∀ a b, b ∈ r'.subclasses a ↔
    b ∈ r.subclasses a ∧ ¬(a ∈ r.superclasses root ∧ b = root) ∨ a ∈ g.superclasses ∧ b = root
  nodup : (∀ a, (r.subclasses a).Nodup) → ∀ a, (r'.subclasses a).Nodup

theorem redefined_redefine (hroot : root < r.cells.length)
    (hlt : ∀ s ∈ g.superclasses, s < r.cells.length) : r.Redefined root g (r.redefine root g) := by
  obtain ⟨hun, hmem, hnodup⟩ := foldl_unlink (r.publish root g) root (r.superclasses root)
  obtain ⟨hlink, hmem', hnodup'⟩ := foldl_link
    ((r.superclasses root).foldl (fun r super => r.unlink root super) (r.publish root g)) root
    g.superclasses fun s hs => by
      rw [hun.length, length_publish]
      exact hlt s hs
  have hsame := hun.trans hlink
  refine ⟨hsame.limits, hsame.lookup, ?_, ?_, ?_, ?_, ?_, ?_⟩
  · exact hsame.length.trans (length_publish r root g)
  · exact (congrArg Snapshot.generation (hsame.snapshot root)).trans
      (generation_publish_self r g hroot)
  · intro c hc
    exact (hsame.snapshot c).trans (snapshot_publish_of_ne r g hc)
  · intro c _
    exact (hsame.built c).trans (built_publish r root c g)
  · intro a b
    rw [redefine, hmem', hmem, subclasses_publish]
  · intro h
    exact hnodup' (hnodup fun a => by rw [subclasses_publish]; exact h a)

theorem redefined_countGeneration (hroot : root < r.cells.length)
    (hlt : ∀ s ∈ g.superclasses, s < r.cells.length) :
    r.Redefined root g ((r.countGeneration root).redefine root g) := by
  have h := redefined_redefine (r := r.countGeneration root) (g := g)
    (by rwa [length_countGeneration]) (by simpa using hlt)
  refine ⟨h.limits, h.lookup, ?_, h.generation_root, ?_, ?_, ?_, ?_⟩
  · exact h.length.trans (length_countGeneration r root)
  · intro c hc
    exact (h.snapshot c hc).trans (snapshot_countGeneration r root c)
  · intro c hc
    exact (h.built c hc).trans (built_countGeneration_of_ne r hc)
  · intro a b
    rw [h.subclasses, subclasses_countGeneration, Registry.superclasses, generation_countGeneration,
      ← Registry.superclasses]
  · intro hn
    exact h.nodup fun a => by rw [subclasses_countGeneration]; exact hn a

/-- The class of a definition is in its cell, with the shape that it had to get. -/
structure Installed (r : Registry) (d : ClassDefinition) (root : ClassId) (k : StandardClass)
    (mid next : Registry) : Prop where
  declare : r.declare d = (root, { k with shape := none }, mid)
  declared : r.Declared d root { k with shape := none } mid
  redefined : mid.Redefined root (.standard k) next
  shape : k.shape.map Shape.outline = mid.outline? root { k with shape := none }
  ready : (∀ s ∈ k.superclasses, mid.isFinalized s) → k.shape.isSome

theorem Declared.bound {c : StandardClass} (h : r.Declared d root c mid)
    (hbound : ∀ n a, r.lookup n = some a → a < r.cells.length) {n : Symbol} {a : ClassId}
    (hn : mid.lookup n = some a) : a < mid.cells.length := by
  by_cases hname : n = d.name
  · rw [hname, h.lookup_root] at hn
    cases hn
    exact h.root_lt
  · rcases h.lookup n hname with heq | ⟨_, _, b, hb, _, _, hlt, _⟩
    · rw [heq] at hn
      exact Nat.lt_of_lt_of_le (hbound n a hn) h.length
    · cases hb.symm.trans hn
      exact hlt

theorem NamesSuperclasses.cases {names : List Symbol} {supers : List ClassId}
    (h : r.NamesSuperclasses names supers) {s : ClassId} (hs : s ∈ supers) :
    s = KernelClass.standardObject.id ∨ ∃ n ∈ names, r.lookup n = some s := by
  unfold NamesSuperclasses at h
  split at h
  · rw [h] at hs
    exact Or.inl (List.mem_singleton.mp hs)
  · have hmem : some s ∈ names.map r.lookup := h ▸ List.mem_map_of_mem hs
    exact Or.inr (List.mem_map.mp hmem)

theorem NamesSuperclasses.ne_nil {names : List Symbol} {supers : List ClassId}
    (h : r.NamesSuperclasses names supers) : supers ≠ [] := by
  rintro rfl
  unfold NamesSuperclasses at h
  split at h
  · contradiction
  · exact absurd (List.map_eq_nil_iff.mp h) ‹_›

theorem Declared.alike (hd : r.Declared d root k mid) {a : ClassId} (hne : a ≠ root) :
    (r.generation a).Alike (mid.generation a) := by
  by_cases hlt : a < r.cells.length
  · exact Or.inl (generation_of_cell (hd.cell a hlt))
  · have hle := Nat.le_of_not_lt hlt
    by_cases hlt' : a < mid.cells.length
    · obtain ⟨n, _, _, _, hgen⟩ := hd.placeholder a hle hlt' hne
      exact Or.inr ⟨_, n, generation_of_le hle, hgen⟩
    · exact Or.inr ⟨_, _, generation_of_le hle, generation_of_le (Nat.le_of_not_lt hlt')⟩

section Declared

variable (hr : r.Invariant) (ha : r.Admits d) (hd : r.Declared d root k mid)

include hr ha hd

theorem Declared.not_isKernel : ¬IsKernel root := by
  intro hk
  cases hname : r.lookup d.name with
  | none =>
    obtain ⟨l, rfl⟩ := hk
    exact absurd (hr.kernel_lt l) (Nat.not_lt.mpr (hd.root_new hname))
  | some c =>
    cases hd.root_eq c hname
    have hsealed := ha.unsealed root hname
    rw [hr.isSealed_iff.mpr hk] at hsealed
    contradiction

theorem Declared.not_inherits {s : ClassId} (hs : s ∈ k.superclasses) : ¬r.Inherits s root := by
  intro hinherits
  rcases hd.superclasses.cases hs with rfl | ⟨n, hn, hlookup⟩
  · exact hd.not_isKernel hr ha (hr.isKernel_inherits ⟨_, rfl⟩ hinherits)
  · have hne : n ≠ d.name := fun h => ha.notMem (h ▸ hn)
    rcases hd.lookup n hne with heq | ⟨_, _, a, hnew, hneRoot, hle, _⟩
    · rw [heq] at hlookup
      cases hname : r.lookup d.name with
      | none =>
        have hroot := hd.root_new hname
        rcases Relation.ReflTransGen.cases_tail hinherits with rfl | ⟨b, _, hb⟩
        · exact absurd (hr.bound n _ hlookup) (Nat.not_lt.mpr hroot)
        · exact absurd (hr.superclass_lt hb) (Nat.not_lt.mpr hroot)
      | some c =>
        cases hd.root_eq c hname
        have hsub := ha.acyclic n hn s hlookup root hname
        rw [← Bool.not_eq_true, hr.isSubclass_iff] at hsub
        exact hsub hinherits
    · cases hnew.symm.trans hlookup
      rcases inherits_iff.mp hinherits with h | ⟨p, hp, _⟩
      · exact hneRoot h.symm
      · rw [superclasses_of_le hle] at hp
        contradiction

/-- Finalized superclasses were there before, so that their precedence lists are still exact. -/
theorem Declared.mem_precedenceList {s a : ClassId} (hs : s ∈ k.superclasses)
    (hready : mid.isFinalized s) : a ∈ mid.precedenceList s ↔ r.Inherits s a := by
  have hne : s ≠ root := fun h => hd.not_inherits hr ha hs (h ▸ .refl)
  obtain ⟨shape, hshape⟩ := isFinalized_iff.mp hready
  have hold : (r.generation s).shape = some shape :=
    ((hd.alike hne).part Generation.shape fun _ _ => rfl).symm.trans hshape
  rw [precedenceList_finalized hshape, ← precedenceList_finalized hold, hr.mem_precedenceList]

end Declared

theorem Declared.shape_none (hd : r.Declared d root k mid) : { k with shape := none } = k := by
  rw [hd.eq_classWith]
  rfl

theorem Declared.superclass_lt {c : StandardClass} (h : r.Declared d root c mid)
    (hr : r.WellFormed) {s : ClassId} (hs : s ∈ c.superclasses) : s < mid.cells.length := by
  rcases h.superclasses.cases hs with rfl | ⟨n, _, hn⟩
  · exact Nat.lt_of_lt_of_le (hr.kernel_lt .standardObject) h.length
  · exact h.bound hr.bound hn

def installing (mid : Registry) (root : ClassId) (c : StandardClass) : Generation :=
  .standard { c with shape := (mid.shapeOf mid.limits root (mid.built root + 1) c).toOption }

theorem generationFor_ready {c : StandardClass} (hroot : root < mid.cells.length) :
    (mid.countGeneration root).generationFor root true c =
      (mid.shapeOf mid.limits root (mid.built root + 1) c).map
        fun s => .standard { c with shape := some s } := by
  have hshape : (mid.countGeneration root).shapeOf = mid.shapeOf :=
    shapeOf_of_generation (generation_countGeneration mid root) (length_countGeneration mid root)
  simp only [generationFor, if_true, finalizedClass, hshape, limits_countGeneration,
    built_countGeneration_self mid hroot]
  cases mid.shapeOf mid.limits root (mid.built root + 1) c <;> rfl

theorem install_cases (hd : r.Declared d root k mid) (heq : r.declare d = (root, k, mid)) :
    (∃ f, (∀ s ∈ k.superclasses, mid.isFinalized s) ∧
      mid.shapeOf mid.limits root (mid.built root + 1) k = .error f ∧
      r.install d = (.error f, (r.declaredSuperclasses d).2.countGeneration root)) ∨
    ∃ start : Registry, (start = mid ∨ start = mid.countGeneration root) ∧
      ((∀ s ∈ k.superclasses, mid.isFinalized s) →
        ∃ s, mid.shapeOf mid.limits root (mid.built root + 1) k = .ok s) ∧
      r.install d = (.ok root, start.redefine root (mid.installing root k)) := by
  rw [install, heq]
  dsimp only
  by_cases hready : ∀ s ∈ k.superclasses, mid.isFinalized s
  · have hall : k.superclasses.all mid.isFinalized = true := List.all_eq_true.mpr hready
    rw [hall, if_pos rfl, generationFor_ready hd.root_lt]
    cases hshape : mid.shapeOf mid.limits root (mid.built root + 1) k with
    | error f => exact Or.inl ⟨f, hready, rfl, rfl⟩
    | ok s =>
      refine Or.inr ⟨_, Or.inr rfl, fun _ => ⟨s, rfl⟩, ?_⟩
      rw [installing, hshape]
      rfl
  · have hall : k.superclasses.all mid.isFinalized = false := by
      rw [← Bool.not_eq_true, List.all_eq_true]
      exact hready
    obtain ⟨f, hf⟩ := shapeOf_pending mid.limits root (mid.built root + 1) hready
    refine Or.inr ⟨_, Or.inl rfl, fun h => absurd h hready, ?_⟩
    rw [hall, installing, hf]
    simp only [Except.toOption, hd.shape_none]
    rfl

theorem Installed.alike (hi : r.Installed d root k mid next) {a : ClassId} (hne : a ≠ root) :
    (r.generation a).Alike (next.generation a) := by
  have hsame : next.generation a = mid.generation a :=
    congrArg Snapshot.generation (hi.redefined.snapshot a hne)
  rw [hsame]
  exact hi.declared.alike hne

theorem Installed.superclasses_of_ne (hi : r.Installed d root k mid next) {a : ClassId}
    (hne : a ≠ root) : next.superclasses a = r.superclasses a :=
  (hi.alike hne).part Generation.superclasses fun _ _ => rfl

theorem Installed.superclasses_root (hi : r.Installed d root k mid next) :
    next.superclasses root = k.superclasses :=
  congrArg Generation.superclasses hi.redefined.generation_root

theorem Installed.inherits_iff (hi : r.Installed d root k mid next) {a : ClassId} :
    next.Inherits a root ↔ r.Inherits a root :=
  Graph.reaches_redirect fun _ hne => hi.superclasses_of_ne hne

theorem links_installed (hr : r.WellFormed) (hi : r.Installed d root k mid next) (a b : ClassId) :
    b ∈ next.subclasses a ↔ a ∈ next.superclasses b := by
  have hmid : b ∈ mid.subclasses a ↔ a ∈ r.superclasses b := by
    by_cases hlt : a < r.cells.length
    · rw [subclasses, hi.declared.cell a hlt]
      exact hr.links a b
    · have hle := Nat.le_of_not_lt hlt
      rw [hi.declared.subclasses a hle]
      refine ⟨fun h => absurd h (List.not_mem_nil), fun h => ?_⟩
      exact absurd (hr.superclass_lt h) hlt
  have hroot : a ∈ r.superclasses root → a ∈ mid.superclasses root := by
    intro h
    by_cases hlt : root < r.cells.length
    · rwa [superclasses, generation, snapshot, hi.declared.cell root hlt]
    · rw [superclasses_of_le (Nat.le_of_not_lt hlt)] at h
      contradiction
  rw [hi.redefined.subclasses, hmid]
  by_cases hb : b = root
  · subst hb
    rw [hi.superclasses_root]
    change _ ∨ a ∈ k.superclasses ∧ b = b ↔ _
    tauto
  · rw [hi.superclasses_of_ne hb]
    tauto

section Installed

variable (hr : r.Invariant) (ha : r.Admits d) (hi : r.Installed d root k mid next)

include hr ha hi

theorem not_isKernel_installed : ¬IsKernel root :=
  hi.declared.not_isKernel hr ha

theorem not_inherits_installed {s : ClassId} (hs : s ∈ k.superclasses) : ¬r.Inherits s root :=
  hi.declared.not_inherits hr ha hs

theorem wellFormed_installed : next.WellFormed where
  kernel l := by
    have hne : l.id ≠ root := fun h => not_isKernel_installed hr ha hi ⟨l, h⟩
    rw [generation, hi.redefined.snapshot _ hne, snapshot, hi.declared.cell _ (hr.kernel_lt l)]
    exact hr.kernel l
  user a hkernel := by
    by_cases hroot : a = root
    · rw [hroot, hi.redefined.generation_root]
      refine ⟨?_, hi.declared.superclasses.ne_nil⟩
      exact congrArg StandardClass.isSealed hi.declared.eq_classWith
    · rcases hi.alike hroot with heq | ⟨_, n, _, hgen⟩
      · rw [heq]
        exact hr.user a hkernel
      · rw [hgen]
        trivial
  acyclic := by
    apply Graph.wellFounded_redirect hr.acyclic
    · exact fun _ hne => hi.superclasses_of_ne hne
    · intro s hs
      rw [hi.superclasses_root] at hs
      exact not_inherits_installed hr ha hi hs
  links := links_installed hr.toWellFormed hi
  nodup_links := by
    apply hi.redefined.nodup
    intro a
    by_cases hlt : a < r.cells.length
    · rw [subclasses, hi.declared.cell a hlt]
      exact hr.nodup_links a
    · rw [hi.declared.subclasses a (Nat.le_of_not_lt hlt)]
      exact List.nodup_nil
  bound n a hn := by
    rw [hi.redefined.lookup] at hn
    rw [hi.redefined.length]
    exact hi.declared.bound hr.bound hn

theorem settled_installed_root : next.Settled root := by
  intro k' hk' _
  cases hi.redefined.generation_root.symm.trans hk'
  have hne : ∀ s ∈ k.superclasses, s ≠ root := fun s hs h =>
    not_inherits_installed hr ha hi hs (h ▸ .refl)
  have hsnapshot : ∀ s ∈ k.superclasses, next.generation s = mid.generation s := fun s hs =>
    congrArg Snapshot.generation (hi.redefined.snapshot s (hne s hs))
  rw [hi.shape]
  symm
  apply outline?_congr hi.redefined.limits rfl rfl rfl
  · exact fun s hs => congrArg Generation.shape (hsnapshot s hs)
  · intro hready a ha'
    obtain ⟨s, hs, hmem⟩ := (mem_ancestry hready).mp ha'
    rw [hi.declared.mem_precedenceList hr ha hs (hready s hs)] at hmem
    have hroot : a ≠ root := fun h => not_inherits_installed hr ha hi hs (h ▸ hmem)
    rw [slots, generation, hi.redefined.snapshot a hroot, slots, generation]

theorem settledBut_installed : next.SettledBut (next.Descends · root) where
  closed a hdescends s hs h := hdescends (.head hs h)
  settled a hdescends := by
    by_cases hroot : a = root
    · exact hroot ▸ settled_installed_root hr ha hi
    · intro k' hk'
      apply hr.settled_transfer hr.settledBut (fun h => h)
      · exact hi.redefined.limits.trans hi.declared.limits
      · exact (hi.alike hroot).eq_of_standard hk'
      · intro s hs b hb
        have hne : b ≠ root := by
          rintro rfl
          rw [← hi.superclasses_of_ne hroot] at hs
          exact hdescends (Relation.TransGen.head'_iff.mpr ⟨s, hs, hi.inherits_iff.mpr hb⟩)
        exact ⟨(hi.alike hne).part Generation.shape fun _ _ => rfl,
          (hi.alike hne).part Generation.slots fun _ _ => rfl⟩
      · exact hk'

end Installed

theorem Declared.outline? (hd : r.Declared d root k mid) :
    ((mid.shapeOf mid.limits root (mid.built root + 1) k).toOption).map Shape.outline =
      mid.outline? root { k with shape := none } := by
  rw [outline_shapeOf_version, hd.shape_none]

/-- The class has no shape, although all its superclasses are finalized. -/
structure Refused (r : Registry) (d : ClassDefinition) (root : ClassId) (k : StandardClass)
    (mid : Registry) (f : Fault) (next : Registry) : Prop where
  declare : r.declare d = (root, k, mid)
  declared : r.Declared d root k mid
  ready : ∀ s ∈ k.superclasses, mid.isFinalized s
  fault : mid.shapeOf mid.limits root (mid.built root + 1) k = .error f
  grown : ∃ grown, r.Grown grown d.superclasses ∧ next = grown.countGeneration root

/-- A definition that is admitted is refused, and then nothing is published, or it is installed. -/
theorem install_spec (hr : r.WellFormed) (ha : r.Admits d) :
    (∃ f root k mid next, r.install d = (.error f, next) ∧ r.Refused d root k mid f next) ∨
    ∃ root k mid next, r.install d = (.ok root, next) ∧ r.Installed d root k mid next := by
  have hd := declared_declare ha.notMem hr.bound
  generalize hdeclare : r.declare d = declared at hd
  obtain ⟨root, k, mid⟩ := declared
  change r.Declared d root k mid at hd
  have hlt : ∀ s ∈ k.superclasses, s < mid.cells.length := fun s hs => hd.superclass_lt hr hs
  rcases install_cases hd hdeclare with ⟨f, hready, hfault, h⟩ | ⟨start, hstart, hready, h⟩
  · refine Or.inl ⟨f, root, k, mid, _, h, hdeclare, hd, hready, hfault, ?_⟩
    exact ⟨_, (grown_declaredSuperclasses r d).1, rfl⟩
  · refine Or.inr ⟨root, { k with
      shape := (mid.shapeOf mid.limits root (mid.built root + 1) k).toOption }, mid, _, h, ?_, ?_, ?_, ?_, ?_⟩
    · rw [hdeclare, ← hd.shape_none]
    · change r.Declared d root { k with shape := none } mid
      rwa [hd.shape_none]
    · rcases hstart with rfl | rfl
      · exact redefined_redefine hd.root_lt hlt
      · exact redefined_countGeneration hd.root_lt hlt
    · exact hd.outline?
    · intro hsupers
      obtain ⟨s, hs⟩ := hready hsupers
      rw [hs]
      rfl

theorem Grown.invariant {names : List Symbol} (h : r.Grown r' names) (hr : r.Invariant) :
    r'.Invariant :=
  h.alike.invariant hr fun _ _ hn => h.bound hr.bound hn

theorem alike_countGeneration (r : Registry) (c : ClassId) : r.Alike (r.countGeneration c) :=
  ⟨rfl, fun a => Or.inl (generation_countGeneration r c a), subclasses_countGeneration r c⟩

theorem countGeneration_invariant (hr : r.Invariant) (c : ClassId) :
    (r.countGeneration c).Invariant :=
  (alike_countGeneration r c).invariant hr fun n a hn => by
    rw [length_countGeneration]
    exact hr.bound n a hn

structure Defined (r : Registry) (d : ClassDefinition) (root : ClassId) (k : StandardClass)
    (mid inst next : Registry) : Prop where
  admits : r.Admits d
  install : r.install d = (.ok root, inst)
  installed : r.Installed d root k mid inst
  eq_cascade : next = inst.cascade root

theorem define_eq_ok (hr : r.WellFormed) (h : r.define d = (.ok root, next)) :
    ∃ k mid inst, r.Defined d root k mid inst next := by
  rw [define] at h
  cases hcheck : r.checkDefinition d with
  | error f => rw [hcheck] at h; cases h
  | ok _ =>
    have ha := checkDefinition_eq_ok.mp hcheck
    rw [hcheck] at h
    rcases install_spec hr ha with ⟨_, _, _, _, _, hinst, _⟩ | ⟨root', k, mid, inst, hinst, hi⟩
    · rw [hinst] at h
      cases h
    · rw [hinst] at h
      cases h
      exact ⟨k, mid, inst, ha, hinst, hi, rfl⟩

theorem define_eq_error {f : Fault} (hr : r.WellFormed) (h : r.define d = (.error f, next)) :
    (r.checkDefinition d = .error f ∧ next = r) ∨
      r.Admits d ∧ ∃ root k mid, r.Refused d root k mid f next := by
  rw [define] at h
  cases hcheck : r.checkDefinition d with
  | error f' =>
    rw [hcheck] at h
    cases h
    exact Or.inl ⟨rfl, rfl⟩
  | ok _ =>
    have ha := checkDefinition_eq_ok.mp hcheck
    rw [hcheck] at h
    rcases install_spec hr ha with ⟨f', root, k, mid, next', hinst, hrefused⟩ | ⟨_, _, _, _, hinst, _⟩
    · rw [hinst] at h
      cases h
      exact Or.inr ⟨ha, root, k, mid, hrefused⟩
    · rw [hinst] at h
      cases h

section Defined

variable {inst : Registry}

/-- What a definition does after it is installed: its descendants get new shapes. -/
theorem Defined.cascade (hr : r.Invariant) (h : r.Defined d root k mid inst next) :
    next.Invariant ∧ inst.Reshaped next (inst.Descends · root) ∧
      ∀ a, inst.Descends a root → next.built a = inst.built a + next.attempts a := by
  rw [h.eq_cascade]
  exact cascade_settles (wellFormed_installed hr h.admits h.installed)
    (not_isKernel_installed hr h.admits h.installed)
    (settledBut_installed hr h.admits h.installed)

theorem Defined.limits (hr : r.Invariant) (h : r.Defined d root k mid inst next) :
    next.limits = r.limits :=
  ((h.cascade hr).2.1.limits.trans h.installed.redefined.limits).trans h.installed.declared.limits

end Defined

theorem define_invariant (hr : r.Invariant) (d : ClassDefinition) :
    (r.define d).2.Invariant ∧ (r.define d).2.limits = r.limits := by
  cases h : r.define d with
  | mk result next =>
    cases result with
    | ok root =>
      obtain ⟨k, mid, inst, hdef⟩ := define_eq_ok hr.toWellFormed h
      exact ⟨(hdef.cascade hr).1, hdef.limits hr⟩
    | error f =>
      rcases define_eq_error hr.toWellFormed h with ⟨_, rfl⟩ | ⟨_, _, _, _, hrefused⟩
      · exact ⟨hr, rfl⟩
      · obtain ⟨_, hgrown, rfl⟩ := hrefused.grown
        exact ⟨countGeneration_invariant (hgrown.invariant hr) _, hgrown.limits⟩

end Metaobject.Registry
