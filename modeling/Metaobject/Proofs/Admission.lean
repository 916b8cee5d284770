import Metaobject.Proofs.Outline
import Metaobject.Registry.Definition

/-!
# Which definitions are admitted

The checks before a definition as one condition on the registry and the definition, and the reasons
for which a superclass is refused.
-/

namespace Metaobject

theorem check_bind_eq_ok {ε β : Type} {x : Except ε Unit} {y : Except ε β} {b : β} :
    (x >>= fun _ => y) = .ok b ↔ x = .ok () ∧ y = .ok b := by
  cases x with
  | error e => simp [error_bind]
  | ok a => simp [ok_bind]

theorem check_bind_eq_error {ε β : Type} {x : Except ε Unit} {y : Except ε β} {e : ε} :
    (x >>= fun _ => y) = .error e ↔ x = .error e ∨ x = .ok () ∧ y = .error e := by
  cases x with
  | error e => simp [error_bind]
  | ok a => simp [ok_bind]

theorem check_discard_eq_error {ε α : Type} {x : Except ε α} {e : ε} :
    discard x = .error e ↔ x = .error e := by
  cases x with
  | error e' =>
    change Except.error e' = _ ↔ _
    simp
  | ok a =>
    change Except.ok () = _ ↔ _
    simp

def IsClassName (name : Symbol) : Prop := name.name ≠ "NIL" ∧ name.name ≠ ""

theorem checkClassName_eq_ok {name : Symbol} : checkClassName name = .ok () ↔ IsClassName name := by
  unfold checkClassName IsClassName
  split
  · rename_i h
    have h' : name.name = "NIL" ∨ name.name = "" := by simpa using h
    exact ⟨fun h => (nomatch h), fun hn => absurd h' (by tauto)⟩
  · rename_i h
    have h' : ¬(name.name = "NIL" ∨ name.name = "") := by simpa using h
    exact ⟨fun _ => by tauto, fun _ => rfl⟩

theorem forM_checkClassName_eq_ok {names : List Symbol} :
    names.forM checkClassName = .ok () ↔ ∀ name ∈ names, IsClassName name := by
  induction names with
  | nil => exact ⟨fun _ _ h => absurd h (by simp), fun _ => rfl⟩
  | cons name names ih =>
    change (checkClassName name >>= fun _ => names.forM checkClassName) = .ok () ↔ _
    rw [check_bind_eq_ok, checkClassName_eq_ok, ih, List.forall_mem_cons]

namespace Registry

variable {r : Registry} {name super : Symbol} {existing : Option ClassId} {seen : List Symbol}

theorem checkNotSealed_eq_ok :
    r.checkNotSealed name = .ok () ↔ ∀ c, r.lookup name = some c → r.isSealed c = false := by
  unfold checkNotSealed
  split
  · split <;> simp_all
  · simp_all

/-- Why a superclass is refused, if it is. -/
def superclassFault? (r : Registry) (name : Symbol) (existing : Option ClassId)
    (seen : List Symbol) (super : Symbol) : Option Fault :=
  if super = name then some (.cyclicSuperclass name super)
  else if super ∈ seen then some (.inconsistentPrecedence name.name)
  else
    match r.lookup super with
    | none => none
    | some c =>
      if (r.generation c).isBuiltIn && c ≠ KernelClass.top.id then
        some (.typeError (.classObject c) "(NOT BUILT-IN-CLASS)")
      else
        match existing with
        | some self => if r.isSubclass c self then some (.cyclicSuperclass name super) else none
        | none => none

theorem checkSuperclasses_cons (rest : List Symbol) :
    r.checkSuperclasses name existing seen (super :: rest) =
      match r.superclassFault? name existing seen super with
      | some f => .error f
      | none => r.checkSuperclasses name existing (super :: seen) rest := by
  rw [checkSuperclasses, superclassFault?]
  by_cases hname : super = name
  · simp only [if_pos hname]
    rfl
  by_cases hseen : super ∈ seen
  · simp only [if_neg hname, if_pos hseen]
    rfl
  simp only [if_neg hname, if_neg hseen]
  cases r.lookup super with
  | none => rfl
  | some c =>
    by_cases hbuiltIn : ((r.generation c).isBuiltIn && c ≠ KernelClass.top.id) = true
    · simp only [if_pos hbuiltIn]
      rfl
    simp only [if_neg hbuiltIn]
    cases existing with
    | none => rfl
    | some self =>
      by_cases hsub : r.isSubclass c self = true
      · simp only [if_pos hsub]
        rfl
      · simp only [if_neg hsub]

theorem superclassFault?_eq_none :
    r.superclassFault? name existing seen super = none ↔
      super ≠ name ∧ super ∉ seen ∧ ∀ c, r.lookup super = some c →
        ((r.generation c).isBuiltIn = true → c = KernelClass.top.id) ∧
          ∀ self, existing = some self → r.isSubclass c self = false := by
  unfold superclassFault?
  split
  · rename_i hname
    simp [hname]
  · rename_i hname
    split
    · rename_i hseen
      simp [hseen]
    · rename_i hseen
      cases r.lookup super with
      | none => simp [hname, hseen]
      | some c =>
        dsimp only
        split
        · rename_i hbuiltIn
          simp_all
        · rename_i hbuiltIn
          have hc : (r.generation c).isBuiltIn = true → c = KernelClass.top.id := by
            simpa using hbuiltIn
          cases existing with
          | none => simpa [hname, hseen] using hc
          | some self =>
            dsimp only
            split
            · rename_i hsub
              simp [hsub]
            · rename_i hsub
              simpa [hname, hseen, hsub] using hc

theorem checkSuperclasses_eq_ok {supers : List Symbol} :
    r.checkSuperclasses name existing seen supers = .ok () ↔
      supers.Nodup ∧ ∀ super ∈ supers, super ≠ name ∧ super ∉ seen ∧
        ∀ c, r.lookup super = some c →
          ((r.generation c).isBuiltIn = true → c = KernelClass.top.id) ∧
            ∀ self, existing = some self → r.isSubclass c self = false := by
  induction supers generalizing seen with
  | nil => simp [checkSuperclasses]
  | cons super rest ih =>
    rw [checkSuperclasses_cons]
    cases hfault : r.superclassFault? name existing seen super with
    | some f =>
      refine ⟨fun h => (nomatch h), fun h => ?_⟩
      have := superclassFault?_eq_none.mpr (h.2 super List.mem_cons_self)
      rw [hfault] at this
      contradiction
    | none =>
      have hsuper := superclassFault?_eq_none.mp hfault
      dsimp only
      rw [ih, List.nodup_cons, List.forall_mem_cons]
      constructor
      · rintro ⟨hnodup, hrest⟩
        refine ⟨⟨fun h => (hrest super h).2.1 List.mem_cons_self, hnodup⟩, hsuper, ?_⟩
        intro s hs
        obtain ⟨hname, hseen, hc⟩ := hrest s hs
        exact ⟨hname, fun h => hseen (List.mem_cons_of_mem _ h), hc⟩
      · rintro ⟨⟨hmem, hnodup⟩, _, hrest⟩
        refine ⟨hnodup, fun s hs => ?_⟩
        obtain ⟨hname, hseen, hc⟩ := hrest s hs
        refine ⟨hname, ?_, hc⟩
        exact List.not_mem_cons_of_ne_of_not_mem (fun h => hmem (h ▸ hs)) hseen

theorem checkSuperclasses_eq_error {supers : List Symbol} {f : Fault}
    (h : r.checkSuperclasses name existing seen supers = .error f) :
    ∃ super ∈ supers, ∃ seen, r.superclassFault? name existing seen super = some f := by
  induction supers generalizing seen with
  | nil => contradiction
  | cons super rest ih =>
    rw [checkSuperclasses_cons] at h
    cases hfault : r.superclassFault? name existing seen super with
    | some f' =>
      rw [hfault] at h
      cases h
      exact ⟨super, List.mem_cons_self, seen, hfault⟩
    | none =>
      rw [hfault] at h
      obtain ⟨s, hs, hseen⟩ := ih h
      exact ⟨s, List.mem_cons_of_mem _ hs, hseen⟩

theorem superclassFault?_cyclic {n s : Symbol}
    (h : r.superclassFault? name existing seen super = some (.cyclicSuperclass n s)) :
    n = name ∧ s = super ∧ (super = name ∨
      ∃ c self, r.lookup super = some c ∧ existing = some self ∧ r.isSubclass c self = true) := by
  unfold superclassFault? at h
  split at h
  · rename_i hname
    cases h
    exact ⟨rfl, rfl, Or.inl hname⟩
  · split at h
    · cases h
    · cases hc : r.lookup super with
      | none => rw [hc] at h; contradiction
      | some c =>
        rw [hc] at h
        dsimp only at h
        split at h
        · cases h
        · cases existing with
          | none => contradiction
          | some self =>
            dsimp only at h
            split at h
            · rename_i hsub
              cases h
              exact ⟨rfl, rfl, Or.inr ⟨c, self, rfl, rfl, hsub⟩⟩
            · contradiction

/-- What a definition has to satisfy before anything changes. -/
structure Admits (r : Registry) (d : ClassDefinition) : Prop where
  name : IsClassName d.name
  superclassNames : ∀ s ∈ d.superclasses, IsClassName s
  unsealed : ∀ c, r.lookup d.name = some c → r.isSealed c = false
  slots : ∃ l, Layout.build (some d.name) d.slots [] = .ok l
  nodup : d.superclasses.Nodup
  notMem : d.name ∉ d.superclasses
  builtIn : ∀ s ∈ d.superclasses, ∀ c, r.lookup s = some c → (r.generation c).isBuiltIn = true →
    c = KernelClass.top.id
  acyclic : ∀ s ∈ d.superclasses, ∀ c, r.lookup s = some c → ∀ self, r.lookup d.name = some self →
    r.isSubclass c self = false

theorem checkNames_eq_ok {d : ClassDefinition} :
    r.checkNames d = .ok () ↔ IsClassName d.name ∧ (∀ s ∈ d.superclasses, IsClassName s) ∧
      ∀ c, r.lookup d.name = some c → r.isSealed c = false := by
  rw [checkNames, check_bind_eq_ok, check_bind_eq_ok, checkClassName_eq_ok,
    forM_checkClassName_eq_ok, checkNotSealed_eq_ok]

theorem checkDefinition_eq_ok {d : ClassDefinition} :
    r.checkDefinition d = .ok () ↔ r.Admits d := by
  have hslots : discard (Layout.build (some d.name) d.slots []) = .ok () ↔
      ∃ l, Layout.build (some d.name) d.slots [] = .ok l := by
    cases Layout.build (some d.name) d.slots [] with
    | error e => exact ⟨fun h => (nomatch h), fun ⟨_, h⟩ => (nomatch h)⟩
    | ok l => exact ⟨fun _ => ⟨l, rfl⟩, fun _ => rfl⟩
  rw [checkDefinition, check_bind_eq_ok, check_bind_eq_ok, checkNames_eq_ok, hslots,
    checkSuperclasses_eq_ok]
  constructor
  · rintro ⟨⟨hname, hsupers, hsealed⟩, hslots, hnodup, hall⟩
    exact ⟨hname, hsupers, hsealed, hslots, hnodup, fun h => (hall _ h).1 rfl,
      fun s hs c hc => ((hall s hs).2.2 c hc).1,
      fun s hs c hc self hself => ((hall s hs).2.2 c hc).2 self hself⟩
  · intro h
    refine ⟨⟨h.name, h.superclassNames, h.unsealed⟩, h.slots, h.nodup, ?_⟩
    intro s hs
    exact ⟨fun hn => h.notMem (hn ▸ hs), by simp,
      fun c hc => ⟨h.builtIn s hs c hc, h.acyclic s hs c hc⟩⟩

theorem checkClassName_eq_error {f : Fault} (h : checkClassName name = .error f) :
    f = .typeError (.symbol name) classNameType := by
  unfold checkClassName at h
  split at h
  · exact (Except.error.inj h).symm
  · contradiction

theorem forM_checkClassName_eq_error {names : List Symbol} {f : Fault}
    (h : names.forM checkClassName = .error f) :
    ∃ name ∈ names, f = .typeError (.symbol name) classNameType := by
  induction names with
  | nil => contradiction
  | cons name names ih =>
    change (checkClassName name >>= fun _ => names.forM checkClassName) = .error f at h
    rcases check_bind_eq_error.mp h with h | ⟨_, h⟩
    · exact ⟨name, List.mem_cons_self, checkClassName_eq_error h⟩
    · obtain ⟨n, hn, hf⟩ := ih h
      exact ⟨n, List.mem_cons_of_mem name hn, hf⟩

theorem checkNotSealed_eq_error {f : Fault} (h : r.checkNotSealed name = .error f) :
    f = .sealedClass name := by
  unfold checkNotSealed at h
  split at h
  · split at h
    · exact (Except.error.inj h).symm
    · contradiction
  · contradiction

theorem checkNames_eq_error {d : ClassDefinition} {f : Fault} (h : r.checkNames d = .error f) :
    (∃ n ∈ d.name :: d.superclasses, f = .typeError (.symbol n) classNameType) ∨
      f = .sealedClass d.name := by
  rcases check_bind_eq_error.mp h with h | ⟨_, h⟩
  · exact Or.inl ⟨d.name, List.mem_cons_self, checkClassName_eq_error h⟩
  · rcases check_bind_eq_error.mp h with h | ⟨_, h⟩
    · obtain ⟨n, hn, heq⟩ := forM_checkClassName_eq_error h
      exact Or.inl ⟨n, List.mem_cons_of_mem _ hn, heq⟩
    · exact Or.inr (checkNotSealed_eq_error h)

theorem build_eq_error {owner : Option Symbol} {owned inherited : List Symbol} {f : Fault}
    (h : Layout.build owner owned inherited = .error f) : ∃ s, f = .duplicateSlot s owner := by
  unfold Layout.build at h
  split at h
  · exact ⟨_, (Except.error.inj h).symm⟩
  · split at h
    · exact ⟨_, (Except.error.inj h).symm⟩
    · contradiction

theorem checkDefinition_cyclic {d : ClassDefinition} {n s : Symbol}
    (h : r.checkDefinition d = .error (.cyclicSuperclass n s)) :
    n = d.name ∧ s ∈ d.superclasses ∧ (s = d.name ∨ ∃ c self, r.lookup s = some c ∧
      r.lookup d.name = some self ∧ r.isSubclass c self = true) := by
  rcases check_bind_eq_error.mp h with h | ⟨_, h⟩
  · rcases checkNames_eq_error h with ⟨_, _, h⟩ | h
    · cases h
    · cases h
  · rcases check_bind_eq_error.mp h with h | ⟨_, h⟩
    · obtain ⟨_, h⟩ := build_eq_error (check_discard_eq_error.mp h)
      cases h
    · obtain ⟨super, hsuper, seen, hfault⟩ := checkSuperclasses_eq_error h
      obtain ⟨rfl, rfl, hcycle⟩ := superclassFault?_cyclic hfault
      exact ⟨rfl, hsuper, hcycle⟩

end Registry

end Metaobject
