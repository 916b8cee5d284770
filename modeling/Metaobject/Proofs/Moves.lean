import Metaobject.Proofs.FailedDefinition

/-!
# Moves of a registry

What each step can do to a registry, with the conditions under which it does so. Names are bound
only if no sealed class has them, cells keep what they say of a class unless it is defined, and only
placeholders are ever refreshed. Whatever the steps, subclass links stay the superclass lists turned
round.
-/

namespace Metaobject

namespace Generation

variable {g g' : Generation}

theorem name_unfinalized (g : Generation) : g.unfinalized.name = g.name := by
  unfold unfinalized
  split
  · split <;> rfl
  · rfl

theorem documentation_unfinalized (g : Generation) :
    g.unfinalized.documentation = g.documentation := by
  unfold unfinalized
  split
  · split <;> rfl
  · rfl

theorem isStandard_unfinalized (g : Generation) : g.unfinalized.isStandard = g.isStandard := by
  unfold unfinalized
  split
  · split <;> rfl
  · rfl

end Generation

namespace Registry

variable {r mid inst next : Registry} {limits : Limits} {d : ClassDefinition} {root a : ClassId}
  {k : StandardClass} {op : Operation} {n : Symbol}

def Open (r : Registry) (n : Symbol) : Prop := ∀ c, r.lookup n = some c → r.isSealed c = false

theorem open_of_none (h : r.lookup n = none) : r.Open n := by
  intro c hc
  rw [h] at hc
  contradiction

/-- What a step can do. -/
inductive Move (r : Registry) : Operation → Registry → Prop
  | idle (op : Operation) : Move r op r
  | counted {d : ClassDefinition} {root : ClassId} (hroot : r.lookup d.name = some root)
      (hopen : r.Open d.name) : Move r (.define d) (r.countGeneration root)
  | defined {d : ClassDefinition} {root : ClassId} {k : StandardClass} {mid inst next : Registry}
      (heq : r.define d = (.ok root, next)) (hdef : r.Defined d root k mid inst next) :
      Move r (.define d) next
  | bound {n : Symbol} {c : ClassId} (hname : IsClassName n) (hopen : r.Open n)
      (hc : c < r.cells.length) : Move r (.register n c) (r.bind n c)
  | unbound {n : Symbol} (hopen : r.Open n) :
      Move r (.remove n) { r with bindings := r.bindings.erase n }
  | resolved {n : Symbol} (hname : IsClassName n) (hnone : r.lookup n = none) :
      Move r (.resolve n) (r.addPlaceholder n).2
  | displaced {n : Symbol} (hname : IsClassName n) (hopen : r.Open n)
      (hstate : ∀ c, r.lookup n = some c → r.state c ≠ .placeholder) :
      Move r (.installPlaceholder n) (r.addPlaceholder n).2
  | refreshed {n : Symbol} {c : ClassId} (hname : IsClassName n) (hc : r.lookup n = some c)
      (hstate : r.state c = .placeholder) :
      Move r (.installPlaceholder n) (r.publish c (.forwardReferenced n))

section Inversion

theorem move_define (hr : r.Invariant) (d : ClassDefinition) :
    r.Move (.define d) (r.define d).2 := by
  cases h : r.define d with
  | mk answer next =>
    cases answer with
    | ok root =>
      obtain ⟨k, mid, inst, hdef⟩ := define_eq_ok hr.toWellFormed h
      exact .defined h hdef
    | error f =>
      rcases define_error_cases hr.toWellFormed h with
        ⟨_, rfl⟩ | ⟨hfails, ⟨_, rfl⟩ | ⟨root, hroot, rfl⟩⟩
      · exact .idle _
      · exact .idle _
      · exact .counted hroot (checkDefinition_eq_ok.mp hfails.checked).unsealed

theorem move_register {c : ClassId} (hc : c < r.cells.length) {old : Option ClassId}
    (h : r.register n c = .ok (old, next)) : r.Move (.register n c) next := by
  rw [register] at h
  obtain ⟨hname, h⟩ := check_bind_eq_ok.mp h
  obtain ⟨hopen, h⟩ := check_bind_eq_ok.mp h
  cases h
  exact .bound (checkClassName_eq_ok.mp hname) (checkNotSealed_eq_ok.mp hopen) hc

theorem move_remove {old : Option ClassId} (h : r.remove n = .ok (old, next)) :
    r.Move (.remove n) next := by
  rw [remove] at h
  obtain ⟨hopen, h⟩ := check_bind_eq_ok.mp h
  cases h
  exact .unbound (checkNotSealed_eq_ok.mp hopen)

theorem resolve_cases {c : ClassId} (h : r.resolveOrPlaceholder n = .ok (c, next)) :
    IsClassName n ∧ (r.lookup n = some c ∧ next = r ∨
      r.lookup n = none ∧ c = r.cells.length ∧ next = (r.addPlaceholder n).2) := by
  rw [resolveOrPlaceholder] at h
  obtain ⟨hname, h⟩ := check_bind_eq_ok.mp h
  refine ⟨checkClassName_eq_ok.mp hname, ?_⟩
  have hresolve : r.resolve n = (c, next) := Except.ok.inj h
  rw [resolve] at hresolve
  split at hresolve
  · rename_i c' hc'
    cases hresolve
    exact Or.inl ⟨hc', rfl⟩
  · rename_i hnone
    cases hresolve
    exact Or.inr ⟨hnone, rfl, rfl⟩

theorem installPlaceholder_cases {c : ClassId} (h : r.installPlaceholder n = .ok (c, next)) :
    IsClassName n ∧
      (r.lookup n = some c ∧ r.state c = .placeholder ∧
          next = r.publish c (.forwardReferenced n) ∨
        r.Open n ∧ (∀ c', r.lookup n = some c' → r.state c' ≠ .placeholder) ∧
          c = r.cells.length ∧ next = (r.addPlaceholder n).2) := by
  rw [installPlaceholder] at h
  obtain ⟨hname, h⟩ := check_bind_eq_ok.mp h
  refine ⟨checkClassName_eq_ok.mp hname, ?_⟩
  split at h
  · rename_i c' hc'
    split at h
    · rename_i hstate
      cases h
      exact Or.inl ⟨hc', hstate, rfl⟩
    · rename_i hstate
      split at h
      · contradiction
      · rename_i hsealed
        cases h
        refine Or.inr ⟨?_, ?_, rfl, rfl⟩
        · intro b hb
          cases hc'.symm.trans hb
          simpa using hsealed
        · intro b hb
          cases hc'.symm.trans hb
          exact hstate
  · rename_i hnone
    cases h
    refine Or.inr ⟨open_of_none hnone, ?_, rfl, rfl⟩
    intro b hb
    rw [hnone] at hb
    contradiction

theorem move_perform (hr : r.Invariant) (ha : r.Allowed op) : r.Move op (r.perform op) := by
  cases op with
  | define d => exact move_define hr d
  | register n c =>
    rw [perform]
    split
    · exact move_register ha ‹_›
    · exact .idle _
  | remove n =>
    rw [perform]
    split
    · exact move_remove ‹_›
    · exact .idle _
  | resolve n =>
    rw [perform]
    split
    · obtain ⟨hname, ⟨_, rfl⟩ | ⟨hnone, _, rfl⟩⟩ := resolve_cases ‹_›
      · exact .idle _
      · exact .resolved hname hnone
    · exact .idle _
  | installPlaceholder n =>
    rw [perform]
    split
    · obtain ⟨hname, ⟨hc, hstate, rfl⟩ | ⟨hopen, hstate, _, rfl⟩⟩ := installPlaceholder_cases ‹_›
      · exact .refreshed hname hc hstate
      · exact .displaced hname hopen hstate
    · exact .idle _

end Inversion

section Definition

/-- What the cells say after a definition: one has the class that was defined, those that were there
say what they said, and the new ones are placeholders. -/
theorem Defined.definition (hr : r.Invariant) (h : r.Defined d root k mid inst next) (a : ClassId) :
    a = root ∧ (next.generation a).unfinalized = .standard (d.classWith k.superclasses) ∨
      a ≠ root ∧ a < r.cells.length ∧
        (next.generation a).unfinalized = (r.generation a).unfinalized ∨
      a ≠ root ∧ r.cells.length ≤ a ∧ next.cells.length ≤ a ∨
      a ≠ root ∧ r.cells.length ≤ a ∧ ∃ n ∈ d.superclasses, r.lookup n = none ∧
        next.lookup n = some a ∧ next.generation a = .forwardReferenced n := by
  have hreshaped := (h.cascade hr).2.1
  have hd := h.installed.declared
  have hk := hd.eq_classWith
  by_cases hroot : a = root
  · left
    refine ⟨hroot, ?_⟩
    rw [hreshaped.definition, hroot, h.installed.redefined.generation_root]
    have hsealed : k.isSealed = false := congrArg StandardClass.isSealed hk
    have hnone : (Generation.standard k).unfinalized = .standard { k with shape := none } := by
      simp [Generation.unfinalized, hsealed]
    rw [hnone, hk]
  · right
    have hinst : inst.generation a = mid.generation a :=
      congrArg Snapshot.generation (h.installed.redefined.snapshot a hroot)
    by_cases hlt : a < r.cells.length
    · left
      refine ⟨hroot, hlt, ?_⟩
      rw [hreshaped.definition, hinst, generation_of_cell (hd.cell a hlt)]
    · right
      have hle := Nat.le_of_not_lt hlt
      have hlength : next.cells.length = mid.cells.length :=
        hreshaped.length.trans h.installed.redefined.length
      by_cases hmid : a < mid.cells.length
      · right
        obtain ⟨n, hn, hnone, hlookup, hgen⟩ := hd.placeholder a hle hmid hroot
        refine ⟨hroot, hle, n, hn, hnone, ?_, ?_⟩
        · rw [hreshaped.lookup, h.installed.redefined.lookup, hlookup]
        · have hdefinition := hreshaped.definition a
          rw [hinst, hgen] at hdefinition
          exact Generation.eq_forwardReferenced hdefinition
      · left
        rw [hlength]
        exact ⟨hroot, hle, Nat.le_of_not_lt hmid⟩

theorem Defined.superclasses_of_ne (hr : r.Invariant) (h : r.Defined d root k mid inst next)
    (hne : a ≠ root) : next.superclasses a = r.superclasses a := by
  rw [(h.cascade hr).2.1.superclasses, h.installed.superclasses_of_ne hne]

theorem Defined.superclasses_root (hr : r.Invariant) (h : r.Defined d root k mid inst next) :
    next.superclasses root = k.superclasses := by
  rw [(h.cascade hr).2.1.superclasses, h.installed.superclasses_root]

theorem Defined.names (hr : r.Invariant) (h : r.Defined d root k mid inst next) :
    next.NamesSuperclasses d.superclasses (next.superclasses root) := by
  have hlookup : next.lookup = mid.lookup :=
    (h.cascade hr).2.1.lookup.trans h.installed.redefined.lookup
  rw [h.superclasses_root hr]
  exact h.installed.declared.superclasses.congr fun n _ => congrFun hlookup n

end Definition

section Links

/-- In all registries that steps lead to, the subclass links are the superclass lists turned round,
each link once and between cells, so that a cascade finds what inherits from its root. -/
theorem reachable_subclass_links (h : Reachable limits r) :
    (∀ a b, b ∈ r.subclasses a ↔ a ∈ r.superclasses b) ∧
      (∀ a, (r.subclasses a).Nodup) ∧
      (∀ a b, b ∈ r.subclasses a → a < r.cells.length ∧ b < r.cells.length) ∧
      ∀ root a, a ∈ r.descendants root ↔ r.Descends a root := by
  obtain ⟨hinv, _⟩ := h.invariant
  refine ⟨hinv.links, hinv.nodup_links, ?_, ?_⟩
  · intro a b hb
    have ha : a ∈ r.superclasses b := (hinv.links a b).mp hb
    constructor
    · exact hinv.superclass_lt ha
    · by_contra hle
      rw [superclasses_of_le (Nat.le_of_not_lt hle)] at ha
      contradiction
  · intro root a
    exact mem_descendants hinv.toWellFormed

/-- A class whose superclasses are one class with two names. -/
def square : Registry :=
  (((fresh Limits.standard).perform (.resolve ⟨"SHAPE"⟩)).perform (.register ⟨"FIGURE"⟩ 20)).perform
    (.define ⟨⟨"SQUARE"⟩, [⟨"SHAPE"⟩, ⟨"FIGURE"⟩], [], none⟩)

theorem square_subclass_links :
    Reachable Limits.standard square ∧ square.superclasses 21 = [20, 20] ∧
      square.subclasses 20 = [21] ∧ 21 ∈ square.descendants 20 := by
  have hallowed : ((fresh Limits.standard).perform (.resolve ⟨"SHAPE"⟩)).Allowed
      (.register ⟨"FIGURE"⟩ 20) := by
    change 20 < _
    decide +kernel
  have hreachable : Reachable Limits.standard square :=
    .step (.step (.step .fresh trivial) hallowed) trivial
  have hsupers : square.superclasses 21 = [20, 20] := by decide +kernel
  have hsubs : square.subclasses 20 = [21] := by decide +kernel
  refine ⟨hreachable, hsupers, hsubs, ?_⟩
  obtain ⟨hlinks, _, _, hdescends⟩ := reachable_subclass_links hreachable
  have hmem : 20 ∈ square.superclasses 21 := (hlinks 20 21).mp (by simp [hsubs])
  exact (hdescends 20 21).mpr (.single hmem)

end Links

end Registry

end Metaobject
