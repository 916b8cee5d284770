import Metaobject.Proofs.Linearization
import Metaobject.Registry.Finalization
import Mathlib.Data.List.Basic

/-!
# Outlines of shapes

The outline of a shape is its precedence list and the order of its slots, without the version of
its layout. It follows from the precedence lists of the superclasses and the slots along them, and
it may be computed on names instead of the classes.
-/

namespace Metaobject

theorem ok_bind {ε α β : Type} (a : α) (f : α → Except ε β) : (Except.ok a >>= f) = f a := rfl

theorem error_bind {ε α β : Type} (e : ε) (f : α → Except ε β) :
    (Except.error e >>= f) = .error e := rfl

structure Outline (α : Type) where
  precedence : List α
  slots : List Symbol
deriving DecidableEq

variable {α : Type}

def Outline.map (f : ClassId → α) (o : Outline ClassId) : Outline α :=
  ⟨o.precedence.map f, o.slots⟩

theorem Outline.map_id (o : Outline ClassId) : o.map id = o := by
  rw [Outline.map, List.map_id]

def Shape.outline (s : Shape) : Outline ClassId := ⟨s.precedence, s.layout.slots⟩

def collectSlots (slots : α → List Symbol) (precedence : List α) : List Symbol :=
  precedence.reverse.foldl (fun found c => declareSlots found (slots c)) []

theorem collectSlots_map {f : ClassId → α} {slots : α → List Symbol} {own : ClassId → List Symbol}
    {precedence : List ClassId} (h : ∀ c ∈ precedence, slots (f c) = own c) :
    collectSlots slots (precedence.map f) = collectSlots own precedence := by
  rw [collectSlots, collectSlots, ← List.map_reverse, List.foldl_map]
  apply List.foldl_ext
  intro found c hc
  rw [h c (List.mem_reverse.mp hc)]

theorem mem_declareSlots {inherited own : List Symbol} {n : Symbol} :
    n ∈ declareSlots inherited own ↔ n ∈ inherited ∨ n ∈ own := by
  induction own generalizing inherited with
  | nil => simp [declareSlots]
  | cons s own ih =>
    have hmove : n ∈ inherited.erase s ++ [s] ↔ n ∈ inherited ∨ n = s := by
      by_cases hn : n = s
      · simp [hn]
      · rw [List.mem_append, List.mem_erase_of_ne hn, List.mem_singleton]
    change n ∈ declareSlots (inherited.erase s ++ [s]) own ↔ _
    rw [ih, hmove, List.mem_cons, or_assoc]

theorem mem_collectSlots {slots : α → List Symbol} {precedence : List α} {n : Symbol} :
    n ∈ collectSlots slots precedence ↔ ∃ a ∈ precedence, n ∈ slots a := by
  induction precedence with
  | nil => simp [collectSlots]
  | cons a precedence ih =>
    have hcons : collectSlots slots (a :: precedence) =
        declareSlots (collectSlots slots precedence) (slots a) := by
      simp [collectSlots]
    rw [hcons, mem_declareSlots, ih, List.exists_mem_cons_iff, or_comm]

theorem slots_build {owner : Option Symbol} {owned inherited : List Symbol} {l : Layout}
    (h : Layout.build owner owned inherited = .ok l) : l.slots = mergeSlots owned inherited := by
  unfold Layout.build at h
  split at h
  · contradiction
  · split at h
    · contradiction
    · exact (congrArg Layout.slots (Except.ok.inj h)).symm

theorem mem_mergeSlots {owned inherited : List Symbol} {n : Symbol} :
    n ∈ mergeSlots owned inherited ↔ n ∈ owned ∨ n ∈ inherited := by
  rw [mergeSlots, List.mem_append, List.mem_filter, decide_eq_true_iff]
  tauto

def outlineFrom [DecidableEq α] (limits : Limits) (slots : α → List Symbol) (self : α)
    (lists : List (List α)) (supers : List α) (owner : Option Symbol) (own : List Symbol) :
    Option (Outline α) :=
  match Precedence.linearize limits.maxPrecedenceDepth self lists supers with
  | .error _ => none
  | .ok list =>
    match Layout.build owner own (collectSlots slots list.tail) with
    | .error _ => none
    | .ok layout =>
      if limits.maxSlots < layout.length then none else some ⟨list.tail, layout.slots⟩

namespace Registry

variable {r r' : Registry} {limits : Limits} {self : ClassId} {version : Nat} {c : StandardClass}

def ancestry (r : Registry) (supers : List ClassId) : List ClassId :=
  (supers.map r.precedenceList).flatten ++ supers

/-- The outline that finalization gives a class now, if there is one. -/
def outline? (r : Registry) (self : ClassId) (c : StandardClass) : Option (Outline ClassId) :=
  (r.shapeOf r.limits self 0 c).toOption.map Shape.outline

theorem shapeOf_ready (h : ∀ s ∈ c.superclasses, r.isFinalized s) :
    r.shapeOf limits self version c = (do
      let precedence ← r.linearized limits self (Generation.standard c).describe c.superclasses
      let layout ← Layout.build c.name c.slots (r.inheritedSlots precedence)
      if limits.maxSlots < layout.length then
        throw (.layoutTooLarge layout.length limits.maxSlots)
      return ⟨precedence, layout.withVersion version⟩) := by
  have hfind : c.superclasses.find? (fun s => !r.isFinalized s) = none :=
    List.find?_eq_none.mpr fun s hs => by simp [h s hs]
  rw [shapeOf, hfind]

theorem shapeOf_pending (limits : Limits) (self : ClassId) (version : Nat)
    (h : ¬∀ s ∈ c.superclasses, r.isFinalized s) :
    ∃ f, r.shapeOf limits self version c = .error f := by
  cases hfind : c.superclasses.find? (fun s => !r.isFinalized s) with
  | none => exact absurd (fun s hs => by simpa using List.find?_eq_none.mp hfind s hs) h
  | some s => exact ⟨_, by rw [shapeOf, hfind]; rfl⟩

theorem outline_shapeOf_pending (h : ¬∀ s ∈ c.superclasses, r.isFinalized s) :
    (r.shapeOf limits self version c).toOption.map Shape.outline = none := by
  obtain ⟨f, hf⟩ := shapeOf_pending limits self version h
  rw [hf]
  rfl

theorem mem_tail_linearize {list : List ClassId} {limit : Nat} {supers : List ClassId}
    (h : Precedence.linearize limit self (supers.map r.precedenceList) supers = .ok list) :
    list.tail ⊆ r.ancestry supers := by
  intro a ha
  have hself := (Precedence.linearize_eq_cons h).2
  have hmem := (Precedence.mem_linearize h).mp (List.mem_of_mem_tail ha)
  rw [ancestry, List.mem_append]
  exact hmem.resolve_left fun h => hself (h ▸ ha)

/-- What finalization computes does not depend on what the classes are, as long as they have
different names. -/
theorem outline_shapeOf [DecidableEq α] (limits : Limits) (self : ClassId) (version : Nat)
    {f : ClassId → α} {slots : α → List Symbol}
    (hready : ∀ s ∈ c.superclasses, r.isFinalized s)
    (hf : Precedence.TellsApart f (self :: r.ancestry c.superclasses))
    (hslots : ∀ a ∈ r.ancestry c.superclasses, slots (f a) = r.slots a) :
    ((r.shapeOf limits self version c).toOption.map Shape.outline).map (Outline.map f) =
      outlineFrom limits slots (f self) ((c.superclasses.map r.precedenceList).map (List.map f))
        (c.superclasses.map f) c.name c.slots := by
  rw [shapeOf_ready hready, outlineFrom, Precedence.linearize_map hf, linearized]
  cases hlist : Precedence.linearize limits.maxPrecedenceDepth self
      (c.superclasses.map r.precedenceList) c.superclasses with
  | error e => cases e <;> rfl
  | ok list =>
    have hcollect : collectSlots slots (list.map f).tail = r.inheritedSlots list.tail := by
      rw [← List.map_tail]
      exact collectSlots_map fun a ha => hslots a (mem_tail_linearize hlist ha)
    simp only [Except.map, hcollect, ok_bind]
    cases Layout.build c.name c.slots (r.inheritedSlots list.tail) with
    | error e => rfl
    | ok layout =>
      rw [ok_bind]
      dsimp only
      split
      · rfl
      · rw [← List.map_tail]
        rfl

theorem outline_shapeOf_id (limits : Limits) (self : ClassId) (version : Nat)
    {slots : ClassId → List Symbol} (hready : ∀ s ∈ c.superclasses, r.isFinalized s)
    (hslots : ∀ a ∈ r.ancestry c.superclasses, slots a = r.slots a) :
    (r.shapeOf limits self version c).toOption.map Shape.outline =
      outlineFrom limits slots self (c.superclasses.map r.precedenceList) c.superclasses c.name
        c.slots := by
  have hid : Precedence.TellsApart id (self :: r.ancestry c.superclasses) := fun _ _ _ _ h => h
  have h := outline_shapeOf limits self version hready hid hslots
  have hmap : Outline.map id = id := funext Outline.map_id
  simpa only [hmap, Option.map_id, id_eq, List.map_id_fun, List.map_id] using h

theorem outline_shapeOf_version (version : Nat) :
    (r.shapeOf r.limits self version c).toOption.map Shape.outline = r.outline? self c := by
  by_cases hready : ∀ s ∈ c.superclasses, r.isFinalized s
  · rw [outline?, outline_shapeOf_id _ _ _ hready fun _ _ => rfl,
      outline_shapeOf_id _ _ _ hready fun _ _ => rfl]
  · rw [outline?, outline_shapeOf_pending hready, outline_shapeOf_pending hready]

theorem precedenceList_finalized {s : Shape} (h : (r.generation self).shape = some s) :
    r.precedenceList self = self :: s.precedence := by
  rw [precedenceList, h]

theorem isFinalized_iff : r.isFinalized self ↔ ∃ s, (r.generation self).shape = some s :=
  Option.isSome_iff_exists

/-- The outline of a class follows from the shapes of its superclasses and the slots of the classes
that it inherits from. -/
theorem outline?_congr {c' : StandardClass} (hlimits : r'.limits = r.limits)
    (hname : c'.name = c.name) (hsupers : c'.superclasses = c.superclasses)
    (hown : c'.slots = c.slots)
    (hshape : ∀ s ∈ c.superclasses, (r'.generation s).shape = (r.generation s).shape)
    (hslots : (∀ s ∈ c.superclasses, r.isFinalized s) →
      ∀ a ∈ r.ancestry c.superclasses, r'.slots a = r.slots a) :
    r'.outline? self c' = r.outline? self c := by
  have hfin : ∀ s ∈ c.superclasses, r'.isFinalized s = r.isFinalized s := fun s hs => by
    rw [isFinalized, isFinalized, hshape s hs]
  by_cases hready : ∀ s ∈ c.superclasses, r.isFinalized s
  · have hready' : ∀ s ∈ c'.superclasses, r'.isFinalized s := fun s hs => by
      rw [hsupers] at hs
      rw [hfin s hs]
      exact hready s hs
    have hlists : c.superclasses.map r'.precedenceList = c.superclasses.map r.precedenceList := by
      apply List.map_congr_left
      intro s hs
      obtain ⟨shape, hs'⟩ := isFinalized_iff.mp (hready s hs)
      rw [precedenceList_finalized hs', precedenceList_finalized ((hshape s hs).trans hs')]
    have hancestry : r'.ancestry c'.superclasses = r.ancestry c.superclasses := by
      rw [ancestry, ancestry, hsupers, hlists]
    rw [outline?, outline?, outline_shapeOf_id _ _ _ hready fun _ _ => rfl,
      outline_shapeOf_id _ _ _ hready' fun a ha => (hslots hready a (hancestry ▸ ha)).symm,
      hsupers, hlists, hlimits, hname, hown]
  · have hready' : ¬∀ s ∈ c'.superclasses, r'.isFinalized s := fun h => hready fun s hs => by
      rw [← hfin s hs]
      exact h s (hsupers ▸ hs)
    rw [outline?, outline?, outline_shapeOf_pending hready, outline_shapeOf_pending hready']

theorem map_ancestry {f : ClassId → α} {supers : List ClassId} :
    (r.ancestry supers).map f =
      ((supers.map r.precedenceList).map (List.map f)).flatten ++ supers.map f := by
  rw [ancestry, List.map_append, List.map_flatten]

theorem exists_factor {f : ClassId → α} {l : List ClassId} (hf : Precedence.TellsApart f l)
    (g : ClassId → List Symbol) : ∃ h : α → List Symbol, ∀ a ∈ l, h (f a) = g a := by
  classical
  refine ⟨fun n => if hn : ∃ a ∈ l, f a = n then g hn.choose else [], fun a ha => ?_⟩
  have hn : ∃ b ∈ l, f b = f a := ⟨a, ha, rfl⟩
  have heq : hn.choose = a := hf _ hn.choose_spec.1 a ha hn.choose_spec.2
  exact (dif_pos hn).trans (congrArg g heq)

/-- Two classes have the same outline by names if their superclasses have the same precedence lists
by names, and the classes along these the same slots. -/
theorem outline?_agree [DecidableEq α] {self' : ClassId} {c' : StandardClass} {f f' : ClassId → α}
    (hlimits : r'.limits = r.limits) (hname : c'.name = c.name) (hown : c'.slots = c.slots)
    (hready : ∀ s ∈ c.superclasses, r.isFinalized s)
    (hready' : ∀ s ∈ c'.superclasses, r'.isFinalized s)
    (hf : Precedence.TellsApart f (self :: r.ancestry c.superclasses))
    (hf' : Precedence.TellsApart f' (self' :: r'.ancestry c'.superclasses))
    (hself : f' self' = f self) (hsupers : c'.superclasses.map f' = c.superclasses.map f)
    (hlists : (c'.superclasses.map r'.precedenceList).map (List.map f') =
      (c.superclasses.map r.precedenceList).map (List.map f))
    (hslots : ∀ a ∈ r.ancestry c.superclasses, ∀ a' ∈ r'.ancestry c'.superclasses, f' a' = f a →
      r'.slots a' = r.slots a) :
    (r'.outline? self' c').map (Outline.map f') = (r.outline? self c).map (Outline.map f) := by
  obtain ⟨slots, hfactor⟩ := exists_factor (hf.mono (List.subset_cons_self _ _)) r.slots
  have hfactor' : ∀ a' ∈ r'.ancestry c'.superclasses, slots (f' a') = r'.slots a' := by
    intro a' ha'
    have hmem : f' a' ∈ (r.ancestry c.superclasses).map f := by
      rw [map_ancestry, ← hlists, ← hsupers, ← map_ancestry]
      exact List.mem_map_of_mem ha'
    obtain ⟨a, ha, heq⟩ := List.mem_map.mp hmem
    rw [hslots a ha a' ha' heq.symm, ← hfactor a ha, heq]
  rw [outline?, outline?, outline_shapeOf _ _ _ hready hf hfactor,
    outline_shapeOf _ _ _ hready' hf' hfactor', hlimits, hname, hown, hself, hsupers, hlists]

structure Fits (r : Registry) (a : ClassId) (supers : List ClassId) (o : Outline ClassId) :
    Prop where
  ready : ∀ s ∈ supers, r.isFinalized s
  mem : ∀ b, b ∈ a :: o.precedence ↔ b = a ∨ b ∈ r.ancestry supers
  notMem : a ∉ o.precedence
  depth : supers ≠ [] → (a :: o.precedence).length ≤ r.limits.maxPrecedenceDepth
  size : o.slots.length ≤ r.limits.maxSlots

theorem fits_of_outline? {o : Outline ClassId} (h : r.outline? self c = some o) :
    r.Fits self c.superclasses o := by
  by_cases hready : ∀ s ∈ c.superclasses, r.isFinalized s
  · rw [outline?, outline_shapeOf_id _ _ _ hready fun _ _ => rfl, outlineFrom] at h
    split at h
    · contradiction
    · rename_i list hlist
      obtain ⟨hcons, hself⟩ := Precedence.linearize_eq_cons hlist
      split at h
      · contradiction
      · split at h
        · contradiction
        · rename_i layout _ hsize
          cases h
          refine ⟨hready, ?_, hself, ?_, Nat.le_of_not_lt hsize⟩
          · intro a
            rw [← hcons, Precedence.mem_linearize hlist, ancestry, List.mem_append]
          · intro hne
            rw [← hcons]
            exact Precedence.length_linearize hne hlist
  · rw [outline?, outline_shapeOf_pending hready] at h
    contradiction

theorem mem_slots_of_outline? {o : Outline ClassId} (h : r.outline? self c = some o) {n : Symbol} :
    n ∈ o.slots ↔ n ∈ c.slots ∨ ∃ a ∈ o.precedence, n ∈ r.slots a := by
  have hready := (fits_of_outline? h).ready
  rw [outline?, outline_shapeOf_id _ _ _ hready fun _ _ => rfl, outlineFrom] at h
  split at h
  · contradiction
  · split at h
    · contradiction
    · rename_i layout hlayout
      split at h
      · contradiction
      · cases h
        rw [slots_build hlayout, mem_mergeSlots, mem_collectSlots]

end Registry

end Metaobject
