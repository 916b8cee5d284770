import Metaobject.Image.Methods
import Metaobject.Proofs.BuiltInTypes
import Metaobject.Proofs.NamedSlots
import Metaobject.Proofs.SlotOrder

/-!
# Views of methods

Values are taken for methods by the name of a superclass. Since no other class ever has the name of the
class of methods, this is the same as asking for that class itself. What inherits from it has its slots,
in whatever order, so that the view of a method finds each of them.
-/

namespace Metaobject

namespace MethodAttribute

theorem slot_mem_slots (a : MethodAttribute) : a.slot ∈ slots := by
  cases a <;> decide

end MethodAttribute

namespace Registry

variable {limits : Limits} {r : Registry} {c a : ClassId}

theorem Reachable.mem_layout_slots (h : Reachable limits r) {l : Layout}
    (hl : r.layout c = some l) (ha : r.isSubclass c a) {n : Symbol} (hn : n ∈ r.slots a) :
    n ∈ l.slots := by
  obtain ⟨hinv, _⟩ := h.invariant
  have hfinal : r.isFinalized c := by
    rw [isFinalized_iff]
    obtain ⟨shape, hshape, _⟩ := Option.map_eq_some_iff.mp hl
    exact ⟨shape, hshape⟩
  obtain ⟨l', hl', _, hslots⟩ := hinv.layout_slots hfinal
  cases hl.symm.trans hl'
  rw [hslots, Precedence.mem_keepLast, declaredSlots, List.mem_flatMap]
  exact ⟨a, List.mem_reverse.mpr (by simpa [isSubclass] using ha), hn⟩

end Registry

namespace Image

variable {m : Image} {i : InstanceId} {limits : Limits}

theorem isMethodClass_eq (h : Registry.Reachable limits m.registry) (c : ClassId) :
    m.isMethodClass c = m.registry.isSubclass c KernelClass.standardMethod.id := by
  rw [Bool.eq_iff_iff, isMethodClass, List.any_eq_true, Registry.isSubclass, decide_eq_true_iff]
  simp only [decide_eq_true_iff, h.className_eq_kernel, exists_eq_right]

theorem methodOf_eq_ok {v : Value} :
    m.methodOf v = .ok i ↔ v = .object i ∧ m.isMethodClass (m.object i).owner = true := by
  cases v with
  | object j =>
    rw [methodOf]
    split
    · rename_i hj
      constructor
      · intro hi
        cases hi
        exact ⟨rfl, hj⟩
      · rintro ⟨hi, _⟩
        cases hi
        rfl
    · rename_i hj
      constructor
      · intro hi
        contradiction
      · rintro ⟨hi, hclass⟩
        cases hi
        exact absurd hclass hj
  | _ => exact ⟨fun hi => by contradiction, fun hi => by simp at hi⟩

/-- An instance with a slot for each attribute of methods, as soon as its class has a layout. -/
structure HoldsAttributes (m : Image) (i : InstanceId) : Prop where
  lt : i < m.instances.length
  stamped : m.registry.Stamped
  stored : m.registry.Stored (m.object i).storage
  slots : ∀ l, m.registry.layout (m.object i).owner = some l → ∀ a : MethodAttribute, a.slot ∈ l.slots

end Image

def LacksNoSlot {α : Type} (x : Except Fault α) : Prop :=
  ∀ n label, x ≠ .error (.missingSlot n label)

section Decoding

variable {α β : Type} {x : Except Fault α} {f : α → Except Fault β}

theorem lacksNoSlot_ok (a : α) : LacksNoSlot (.ok a) := by
  intro n label h
  contradiction

theorem lacksNoSlot_typeError (datum : Value) (expected : String) :
    LacksNoSlot (.error (.typeError datum expected) : Except Fault α) := by
  intro n label h
  cases h

theorem LacksNoSlot.bind (hx : LacksNoSlot x) (hf : ∀ a, LacksNoSlot (f a)) :
    LacksNoSlot (x >>= f) := by
  cases x with
  | ok a => exact hf a
  | error e =>
    intro n label h
    cases h
    exact hx n label rfl

theorem LacksNoSlot.mapM (hf : ∀ a, LacksNoSlot (f a)) (l : List α) : LacksNoSlot (l.mapM f) := by
  induction l with
  | nil => exact lacksNoSlot_ok []
  | cons a l ih =>
    rw [List.mapM_cons]
    exact (hf a).bind fun b => ih.bind fun bs => lacksNoSlot_ok (b :: bs)

theorem lacksNoSlot_listItems (v : Value) : LacksNoSlot (listItems v) := by
  rw [listItems]
  cases v.items? with
  | none => exact lacksNoSlot_typeError v _
  | some items => exact lacksNoSlot_ok items

theorem lacksNoSlot_symbolItems (v : Value) : LacksNoSlot (symbolItems v) := by
  refine (lacksNoSlot_listItems v).bind fun items => LacksNoSlot.mapM (fun item => ?_) items
  cases item.symbol? with
  | none => exact lacksNoSlot_typeError item _
  | some s => exact lacksNoSlot_ok s

theorem lacksNoSlot_ofValue (v : Value) : LacksNoSlot (Specializer.ofValue v) := by
  rw [Specializer.ofValue]
  cases Specializer.ofValue? v with
  | none => exact lacksNoSlot_typeError v _
  | some s => exact lacksNoSlot_ok s

end Decoding

namespace Action

/-- The action finds the slots that it looks for in an instance that holds the attributes of methods,
and leaves such an instance. -/
def FindsSlots {α : Type} (i : InstanceId) (a : Action α) : Prop :=
  ∀ m, m.HoldsAttributes i → (a.runOn m).2.HoldsAttributes i ∧ LacksNoSlot (a.runOn m).1

variable {α β : Type} {i : InstanceId} {a : Action α} {f : α → Action β}

theorem findsSlots_of_same {x : Except Fault α} (h : ∀ m, a.runOn m = (x, m))
    (hx : LacksNoSlot x) : FindsSlots i a := by
  intro m hm
  rw [h]
  exact ⟨hm, hx⟩

theorem findsSlots_pure (x : α) : FindsSlots i (pure x) :=
  findsSlots_of_same (fun _ => rfl) (lacksNoSlot_ok x)

theorem findsSlots_typeError (datum : Value) (expected : String) :
    FindsSlots i (throw (.typeError datum expected) : Action α) :=
  findsSlots_of_same (fun _ => rfl) (lacksNoSlot_typeError datum expected)

theorem findsSlots_liftM {x : Except Fault α} (hx : LacksNoSlot x) :
    FindsSlots i (liftM x : Action α) :=
  findsSlots_of_same (fun m => runOn_liftM m x) hx

theorem FindsSlots.bind (ha : FindsSlots i a) (hf : ∀ x, FindsSlots i (f x)) :
    FindsSlots i (a >>= f) := by
  intro m hm
  obtain ⟨hnext, hlacks⟩ := ha m hm
  rw [runOn_bind]
  cases hrun : a.runOn m with
  | mk x next =>
    rw [hrun] at hnext hlacks
    cases x with
    | ok x => exact hf x next hnext
    | error e =>
      refine ⟨hnext, fun n label h => ?_⟩
      cases h
      exact hlacks n label rfl

theorem findsSlots_map (g : α → β) : FindsSlots i (g <$> a) ↔ FindsSlots i a := by
  have hmap : ∀ x : Except Fault α, LacksNoSlot (x.map g) ↔ LacksNoSlot x := by
    intro x
    cases x <;> simp [LacksNoSlot, Except.map]
  simp only [FindsSlots, runOn_map, hmap]

theorem lacksNoSlot_onContents {m : Image} {slots : Contents} (access : NamedAccess)
    (h : ∀ n, access.slot? = some n → slots n ≠ none) :
    LacksNoSlot (access.onContents m i slots).1 := by
  cases access with
  | update => exact lacksNoSlot_ok _
  | find n => exact lacksNoSlot_ok _
  | read n =>
    obtain ⟨v, hv⟩ := Option.ne_none_iff_exists'.mp (h n rfl)
    rw [NamedAccess.onContents, hv]
    cases v with
    | none =>
      intro k label herror
      cases herror
    | some v => exact lacksNoSlot_ok _
  | test n =>
    obtain ⟨v, hv⟩ := Option.ne_none_iff_exists'.mp (h n rfl)
    rw [NamedAccess.onContents, hv]
    exact lacksNoSlot_ok _
  | write n v =>
    obtain ⟨v, hv⟩ := Option.ne_none_iff_exists'.mp (h n rfl)
    rw [NamedAccess.onContents, hv]
    exact lacksNoSlot_ok _
  | clear n =>
    obtain ⟨v, hv⟩ := Option.ne_none_iff_exists'.mp (h n rfl)
    rw [NamedAccess.onContents, hv]
    exact lacksNoSlot_ok _

theorem findsSlots_run (access : NamedAccess)
    (h : ∀ n, access.slot? = some n → ∃ b : MethodAttribute, n = b.slot) :
    FindsSlots i (access.run i) := by
  intro m hm
  have himage := access.image_run hm.lt
  refine ⟨?_, ?_⟩
  · rw [himage]
    refine ⟨?_, hm.stamped, ?_, ?_⟩
    · rw [Image.length_setStorage]
      exact hm.lt
    · rw [Image.object_setStorage_self hm.lt]
      exact hm.stored.after hm.stamped access
    · rw [Image.owner_setStorage]
      exact hm.slots
  · cases hl : m.registry.layout (m.object i).owner with
    | none =>
      rw [access.run_of_none (Registry.edition?_of_layout_none hl)]
      intro n label herror
      cases herror
    | some l =>
      obtain ⟨e, rfl, hcurrent⟩ := Image.exists_current hm.lt hm.stored hl
      have hanswer : ((access.run i).runOn m).1 = (access.onContents m i (m.contents i)).1 :=
        congrArg Prod.fst (hcurrent.run_eq_onContents access)
      rw [hanswer]
      apply lacksNoSlot_onContents
      intro n hn
      obtain ⟨b, rfl⟩ := h n hn
      rw [hcurrent.contents_of_mem (hm.slots _ hl b)]
      exact Option.some_ne_none _

theorem findsSlots_slotValue (b : MethodAttribute) : FindsSlots i (slotValue i b.slot) := by
  rw [← findsSlots_map Answer.value]
  exact findsSlots_run (.read b.slot) fun n hn => ⟨b, (Option.some.inj hn).symm⟩

theorem findsSlots_isSlotBound (b : MethodAttribute) : FindsSlots i (isSlotBound i b.slot) := by
  rw [← findsSlots_map Answer.flag]
  exact findsSlots_run (.test b.slot) fun n hn => ⟨b, (Option.some.inj hn).symm⟩

theorem findsSlots_setAttribute (b : MethodAttribute) (v : Value) :
    FindsSlots i (setAttribute i b v) := by
  rw [← findsSlots_map fun _ => Answer.done]
  exact findsSlots_run (.write b.slot v) fun n hn => ⟨b, (Option.some.inj hn).symm⟩

theorem findsSlots_attribute? (b : MethodAttribute) : FindsSlots i (attribute? i b) := by
  refine (findsSlots_isSlotBound b).bind fun bound => ?_
  cases bound with
  | true => exact (findsSlots_slotValue b).bind fun v => findsSlots_pure (some v)
  | false => exact findsSlots_pure none

theorem findsSlots_allBound (attributes : List MethodAttribute) :
    FindsSlots i (allBound i attributes) := by
  induction attributes with
  | nil => exact findsSlots_pure true
  | cons b rest ih =>
    refine (findsSlots_isSlotBound b).bind fun bound => ?_
    cases bound with
    | true => exact ih
    | false => exact findsSlots_pure false

theorem findsSlots_methodSpecializers : FindsSlots i (methodSpecializers i) := by
  refine (findsSlots_slotValue .specializers).bind fun v => ?_
  refine (findsSlots_liftM (lacksNoSlot_listItems v)).bind fun items => ?_
  exact findsSlots_liftM (LacksNoSlot.mapM lacksNoSlot_ofValue items)

theorem findsSlots_methodFunction? : FindsSlots i (methodFunction? i) := by
  refine (findsSlots_slotValue .genericFunction).bind fun v => ?_
  cases v with
  | generic g => exact findsSlots_pure (some g)
  | nil => exact findsSlots_pure none
  | _ => exact findsSlots_typeError _ _

theorem findsSlots_methodBody : FindsSlots i (methodBody i) := by
  refine (findsSlots_slotValue .function).bind fun v => ?_
  cases v with
  | function f => exact findsSlots_pure f
  | _ => exact findsSlots_typeError _ _

theorem findsSlots_methodFastBody? : FindsSlots i (methodFastBody? i) := by
  refine (findsSlots_slotValue .fastFunction).bind fun v => ?_
  cases v with
  | function f => exact findsSlots_pure (some f)
  | nil => exact findsSlots_pure none
  | _ => exact findsSlots_typeError _ _

theorem findsSlots_methodDocumentation? : FindsSlots i (methodDocumentation? i) := by
  refine (findsSlots_slotValue .documentation).bind fun v => ?_
  cases v with
  | string id text => exact findsSlots_pure (some text)
  | nil => exact findsSlots_pure none
  | _ => exact findsSlots_typeError _ _

end Action

/-- What the view of a method offers: an attribute as it is stored, a new value for it, the question
whether all of them have values, and an attribute as what it stands for. -/
inductive MethodAccess
  | stored (a : MethodAttribute)
  | put (a : MethodAttribute) (v : Value)
  | initialized
  | typed (a : MethodAttribute)

namespace MethodAccess

open Metaobject.Action

/-- The access, of which only the outcome counts here. -/
def run (i : InstanceId) : MethodAccess → Action Unit
  | .stored a => discard (attribute? i a)
  | .put a v => setAttribute i a v
  | .initialized => discard (isInitialized i)
  | .typed .genericFunction => discard (methodFunction? i)
  | .typed .lambdaList => discard (methodLambdaList i)
  | .typed .specializers => discard (methodSpecializers i)
  | .typed .qualifiers => discard (methodQualifiers i)
  | .typed .function => discard (methodBody i)
  | .typed .fastFunction => discard (methodFastBody? i)
  | .typed .documentation => discard (methodDocumentation? i)

theorem findsSlots {i : InstanceId} (access : MethodAccess) : FindsSlots i (access.run i) := by
  have hdiscard : ∀ {α : Type} {a : Action α}, FindsSlots i a → FindsSlots i (discard a) :=
    fun ha => (findsSlots_map _).mpr ha
  cases access with
  | stored a => exact hdiscard (findsSlots_attribute? a)
  | put a v => exact findsSlots_setAttribute a v
  | initialized => exact hdiscard (findsSlots_allBound MethodAttribute.all)
  | typed a =>
    cases a with
    | genericFunction => exact hdiscard findsSlots_methodFunction?
    | specializers => exact hdiscard findsSlots_methodSpecializers
    | function => exact hdiscard findsSlots_methodBody
    | fastFunction => exact hdiscard findsSlots_methodFastBody?
    | documentation => exact hdiscard findsSlots_methodDocumentation?
    | lambdaList =>
      exact hdiscard ((findsSlots_slotValue .lambdaList).bind fun v =>
        findsSlots_liftM (lacksNoSlot_symbolItems v))
    | qualifiers =>
      exact hdiscard ((findsSlots_slotValue .qualifiers).bind fun v =>
        findsSlots_liftM (lacksNoSlot_symbolItems v))

end MethodAccess

namespace Session

variable {limits : Limits} {s : Session} {i : InstanceId}

theorem Reachable.lt_of_methodClass (h : Reachable limits s)
    (hi : s.image.isMethodClass (s.image.object i).owner = true) :
    i < s.image.instances.length := by
  by_contra hle
  have howner : (s.image.object i).owner = KernelClass.standardObject.id := by
    rw [Image.object, List.getElem?_eq_none (Nat.le_of_not_lt hle)]
    rfl
  obtain ⟨hinv, _⟩ := h.registry.invariant
  rw [Image.isMethodClass_eq h.registry, howner, Registry.isSubclass, decide_eq_true_iff,
    hinv.precedenceList_kernel] at hi
  revert hi
  decide

theorem Reachable.holdsAttributes (h : Reachable limits s)
    (hi : s.image.isMethodClass (s.image.object i).owner = true) :
    s.image.HoldsAttributes i := by
  obtain ⟨hinv, _⟩ := h.registry.invariant
  have hlt := h.lt_of_methodClass hi
  refine ⟨hlt, h.invariant.stamped, h.invariant.stored i hlt, ?_⟩
  intro l hl a
  rw [Image.isMethodClass_eq h.registry] at hi
  apply h.registry.mem_layout_slots hl hi
  rw [hinv.slots_kernel]
  exact a.slot_mem_slots

/-- A value is viewed as a method exactly if it is an instance of the class of methods or of one that
inherits from it. If the class of such an instance is finalized, it has a slot for each attribute of
methods, and in no case does an access by the view fail for want of a slot. -/
theorem reachable_method_views (h : Reachable limits s) (v : Value) (i : InstanceId) :
    (s.image.methodOf v = .ok i ↔
      v = .object i ∧ i < s.image.instances.length ∧
        s.image.registry.isSubclass (s.image.object i).owner KernelClass.standardMethod.id = true) ∧
    (s.image.methodOf v = .ok i →
      (s.image.registry.isFinalized (s.image.object i).owner = true →
        ∃ l, s.image.registry.layout (s.image.object i).owner = some l ∧
          ∀ a : MethodAttribute, a.slot ∈ l.slots) ∧
      ∀ (access : MethodAccess) (n : Symbol) (label : String),
        ((access.run i).runOn s.image).1 ≠ .error (.missingSlot n label)) := by
  rw [Image.methodOf_eq_ok]
  constructor
  · rw [← Image.isMethodClass_eq h.registry]
    constructor
    · rintro ⟨rfl, hclass⟩
      exact ⟨rfl, h.lt_of_methodClass hclass, hclass⟩
    · rintro ⟨rfl, _, hclass⟩
      exact ⟨rfl, hclass⟩
  · rintro ⟨rfl, hclass⟩
    have hholds := h.holdsAttributes hclass
    constructor
    · intro hfinal
      obtain ⟨shape, hshape⟩ := Registry.isFinalized_iff.mp hfinal
      have hl : s.image.registry.layout (s.image.object i).owner = some shape.layout :=
        congrArg (Option.map Shape.layout) hshape
      exact ⟨shape.layout, hl, hholds.slots _ hl⟩
    · intro access
      exact (access.findsSlots _ hholds).2

/-- A method of a class that declares two of the slots of methods again, one of them through a class
that is not one of methods. -/
def tracedMethod : Session :=
  (fresh Limits.standard).performAll
    [.classes (.define ⟨⟨"TRACED"⟩, [], [⟨"DOCUMENTATION"⟩, ⟨"CALLS"⟩], none⟩),
      .classes (.define ⟨⟨"TRACED-METHOD"⟩, [⟨"TRACED"⟩, ⟨"STANDARD-METHOD"⟩], [⟨"FUNCTION"⟩],
        none⟩),
      .hold 21, .allocate 0 21]

theorem reachable_tracedMethod : Reachable Limits.standard tracedMethod :=
  Reachable.fresh.performAll (by decide +kernel)

theorem tracedMethod_view :
    Reachable Limits.standard tracedMethod ∧ tracedMethod.image.methodOf (.object 0) = .ok 0 ∧
      tracedMethod.image.registry.isFinalized (tracedMethod.image.object 0).owner = true ∧
      (∃ l, tracedMethod.image.registry.layout (tracedMethod.image.object 0).owner = some l ∧
        ∀ a : MethodAttribute, a.slot ∈ l.slots) ∧
      ∀ (access : MethodAccess) (n : Symbol) (label : String),
        ((access.run 0).runOn tracedMethod.image).1 ≠ .error (.missingSlot n label) := by
  obtain ⟨hviewed, hslots⟩ := reachable_method_views reachable_tracedMethod (.object 0) 0
  have hmethod : tracedMethod.image.methodOf (.object 0) = .ok 0 :=
    hviewed.mpr ⟨rfl, by decide +kernel, by decide +kernel⟩
  have hfinal : tracedMethod.image.registry.isFinalized (tracedMethod.image.object 0).owner =
      true := by
    decide +kernel
  obtain ⟨hlayout, haccess⟩ := hslots hmethod
  exact ⟨reachable_tracedMethod, hmethod, hfinal, hlayout hfinal, haccess⟩

end Session

end Metaobject
