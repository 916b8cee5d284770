import Metaobject.Proofs.BuiltLayouts
import Metaobject.Proofs.TypeCoherence
import Metaobject.Registry.Events

/-!
# What finalization can fail with

Finalization starts only if all superclasses are finalized, and none of them inherits from the class.
So the merge of their precedence lists never comes upon the class itself. Slots that are inherited
never repeat, and declared ones were looked through when the class was defined. What is left are lists
that cannot be merged, a precedence list that is too long, and a layout that is too large.
-/

namespace Metaobject

namespace Precedence

/-- What a merge can come upon: only heads that stand behind others, the class itself, or the limit. -/
inductive Obstacle
  | crossed
  | itself
  | tooDeep
deriving DecidableEq, Repr

def Obstacle.failure : Obstacle → Failure
  | .crossed | .itself => .inconsistent
  | .tooDeep => .tooDeep

variable {α : Type} [DecidableEq α] {limit steps : Nat} {self : α} {lists : List (List α)}
  {found supers : List α}

/-- The merge of lists, with its two kinds of inconsistency told apart. -/
def mergeTold (limit : Nat) (self : α) :
    Nat → List (List α) → List α → Except Obstacle (List α)
  | 0, _, found => .ok found
  | steps + 1, lists, found =>
    if (live lists).isEmpty then .ok found
    else
      match nextHead (live lists) with
      | none => .error .crossed
      | some a =>
        if a = self then .error .itself
        else if limit < found.length + 1 then .error .tooDeep
        else mergeTold limit self steps ((live lists).map (dropHead a)) (found ++ [a])

def linearizeTold (limit : Nat) (self : α) (lists : List (List α)) (supers : List α) :
    Except Obstacle (List α) :=
  let all := lists ++ [supers]
  mergeTold limit self (all.flatten.length + 1) all [self]

theorem mapError_mergeTold : (mergeTold limit self steps lists found).mapError Obstacle.failure =
    merge limit self steps lists found := by
  induction steps generalizing lists found with
  | zero => rfl
  | succ steps ih =>
    rw [merge_succ, mergeTold]
    split
    · rfl
    · cases nextHead (live lists) with
      | none => rfl
      | some a =>
        dsimp only
        split
        · rfl
        · split
          · rfl
          · exact ih

theorem mapError_linearizeTold : (linearizeTold limit self lists supers).mapError Obstacle.failure =
    linearize limit self lists supers :=
  mapError_mergeTold

theorem mergeTold_ne_itself (h : self ∉ lists.flatten) :
    mergeTold limit self steps lists found ≠ .error .itself := by
  induction steps generalizing lists found with
  | zero => simp [mergeTold]
  | succ steps ih =>
    rw [← flatten_live] at h
    rw [mergeTold]
    split
    · simp
    · split
      · simp
      · rename_i a ha
        have hne : a ≠ self := fun heq => h (heq ▸ nextHead_mem_flatten ha)
        rw [if_neg hne]
        split
        · simp
        · exact ih fun hmem => h ((flatten_dropHead_sublist a (live lists)).subset hmem)

theorem linearizeTold_ne_itself (hlists : self ∉ lists.flatten) (hsupers : self ∉ supers) :
    linearizeTold limit self lists supers ≠ .error .itself := by
  apply mergeTold_ne_itself
  simp [hlists, hsupers]

end Precedence

/-- A class that is about to be finalized: the registry in which its generation is counted, its cell,
and the generation that is to get a shape. -/
structure Finalization where
  registry : Registry
  self : ClassId
  generation : Generation

namespace Finalization

def start (r : Registry) (self : ClassId) (g : Generation) : Finalization :=
  ⟨r.countGeneration self, self, g⟩

def outcome (x : Finalization) : Except Fault Generation :=
  x.registry.finalizedGeneration x.registry.limits x.self (x.registry.built x.self) x.generation

def precedence (x : Finalization) : Except Precedence.Obstacle (List ClassId) :=
  Precedence.linearizeTold x.registry.limits.maxPrecedenceDepth x.self
    (x.generation.superclasses.map x.registry.precedenceList) x.generation.superclasses

/-- The superclasses are finalized, the class itself does not turn up among what they inherit from, and
a layout can be built of its own slots and of those along any precedence list. Three ways to fail are
left. -/
structure Regular (limits : Limits) (x : Finalization) : Prop where
  standard : ∃ k, x.generation = .standard k ∧ k.isSealed = false
  ready : ∀ s ∈ x.generation.superclasses, x.registry.isFinalized s
  merged : x.precedence.mapError Precedence.Obstacle.failure =
    Precedence.linearize limits.maxPrecedenceDepth x.self
      (x.generation.superclasses.map x.registry.precedenceList) x.generation.superclasses
  apart : x.precedence ≠ .error .itself
  layout : ∀ list, ∃ l,
    Layout.build x.generation.name x.generation.slots (x.registry.inheritedSlots list) = .ok l
  faults : ∀ f, x.outcome = .error f → ShapeFault limits x.generation.describe f

theorem outcome_start {r : Registry} {self : ClassId} {k : StandardClass}
    (hsealed : k.isSealed = false) : (start r self (.standard k)).outcome =
      ((r.countGeneration self).finalizedClass r.limits self
        ((r.countGeneration self).built self) k).map Generation.standard := by
  rw [outcome, start, Registry.finalizedGeneration, hsealed]
  rfl

theorem regular_start {r : Registry} {self : ClassId} {k : StandardClass}
    (hsealed : k.isSealed = false) (hready : ∀ s ∈ k.superclasses, r.isFinalized s)
    (hself : ∀ s ∈ k.superclasses, self ∉ r.precedenceList s) (hslots : k.slots.Nodup) :
    (start r self (.standard k)).Regular r.limits := by
  have hlists : (r.countGeneration self).precedenceList = r.precedenceList :=
    Registry.precedenceList_of_generation (r.generation_countGeneration self)
      (r.length_countGeneration self)
  have hready' : ∀ s ∈ k.superclasses, (r.countGeneration self).isFinalized s := by
    simpa [Registry.isFinalized] using hready
  refine ⟨⟨k, rfl, hsealed⟩, hready', Precedence.mapError_linearizeTold, ?_, ?_, ?_⟩
  · apply Precedence.linearizeTold_ne_itself
    · simpa [start, Generation.superclasses, hlists] using hself
    · intro hmem
      obtain ⟨s, hs⟩ := Registry.isFinalized_iff.mp (hready self hmem)
      apply hself self hmem
      rw [Registry.precedenceList_finalized hs]
      exact List.mem_cons_self
  · intro list
    exact exists_build k.name hslots (Registry.nodup_inheritedSlots _ list)
  · intro f hf
    rw [outcome_start hsealed, Registry.finalizedClass] at hf
    cases hshape : (r.countGeneration self).shapeOf r.limits self
        ((r.countGeneration self).built self) k with
    | error f' =>
      rw [hshape] at hf
      cases hf
      exact Registry.shapeFault_of_shapeOf hready' hslots hshape
    | ok s =>
      rw [hshape] at hf
      cases hf

end Finalization

namespace Registry

variable {r mid inst next : Registry} {limits : Limits} {d : ClassDefinition} {root c : ClassId}
  {k : StandardClass} {order : List ClassId} {label : String} {f : Fault} {op : Operation}

section Attempts

def ownFinalization? (r : Registry) (d : ClassDefinition) : Option Finalization :=
  match r.checkDefinition d with
  | .error _ => none
  | .ok () =>
    let (self, c, next) := r.declare d
    if c.superclasses.all next.isFinalized then
      some (.start next self (.standard c))
    else none

def refinalization? (r : Registry) (c : ClassId) : Option Finalization :=
  let g := r.generation c
  if g.isSealed then none
  else if g.superclasses.all r.isFinalized then some (.start r c g)
  else none

def refinalizations : List ClassId → Registry → List Finalization
  | [], _ => []
  | c :: rest, r => (r.refinalization? c).toList ++ refinalizations rest (r.refinalize c)

def cascadeFinalizations (r : Registry) (d : ClassDefinition) : List Finalization :=
  match r.checkDefinition d with
  | .error _ => []
  | .ok () =>
    match r.install d with
    | (.error _, _) => []
    | (.ok self, next) => refinalizations (next.cascadeOrder self) next

theorem answer_install (h : r.checkDefinition d = .ok ()) :
    (r.install d).1 = match r.ownFinalization? d with
      | none => .ok (r.declare d).1
      | some x => x.outcome.map fun _ => (r.declare d).1 := by
  rw [ownFinalization?, h, install]
  generalize hdeclare : r.declare d = declared
  obtain ⟨root, k, mid⟩ := declared
  have hsealed : k.isSealed = false := congrArg (fun t => t.2.1.isSealed) hdeclare.symm
  by_cases hready : k.superclasses.all mid.isFinalized = true
  · simp only [hready, if_true, generationFor, Finalization.outcome_start hsealed,
      limits_countGeneration]
    cases (mid.countGeneration root).finalizedClass mid.limits root _ k <;> rfl
  · simp [hready, generationFor]

theorem define_eq_error_iff : (r.define d).1 = .error f ↔
    r.checkDefinition d = .error f ∨ ∃ x, r.ownFinalization? d = some x ∧ x.outcome = .error f := by
  cases hcheck : r.checkDefinition d with
  | error f' => simp [define, ownFinalization?, hcheck]
  | ok _ =>
    have hanswer : (r.define d).1 = (r.install d).1 := by
      rw [define, hcheck]
      dsimp only
      cases r.install d with
      | mk answer next => cases answer <;> rfl
    rw [hanswer, answer_install hcheck]
    cases r.ownFinalization? d with
    | none => simp
    | some x =>
      cases hx : x.outcome with
      | ok g => simp [Except.map, hx]
      | error f' => simp [Except.map, hx]

section Events

theorem failed_notMem_shapeEvents {version : Nat} :
    Event.subclassFailed label f ∉ r.shapeEvents limits c version k := by
  unfold shapeEvents
  dsimp only
  split
  · simp
  · split
    · simp
    · split <;> simp

theorem failed_mem_generationEvents {g : Generation} :
    Event.subclassFailed label f ∈ r.generationEvents c g ↔ label = r.describe c ∧
      r.finalizedGeneration r.limits c (r.built c) g = .error f := by
  have hevents : ∃ shape, Event.subclassFailed label f ∉ shape ∧
      (∀ g', r.finalizedGeneration r.limits c (r.built c) g = .ok g' →
        r.generationEvents c g = shape) ∧
      ∀ f, r.finalizedGeneration r.limits c (r.built c) g = .error f →
        r.generationEvents c g = shape ++ [.subclassFailed (r.describe c) f] := by
    unfold generationEvents
    dsimp only
    refine ⟨_, ?_, fun g' hg => by rw [hg], fun f hf => by rw [hf]⟩
    cases g with
    | standard k => exact failed_notMem_shapeEvents
    | forwardReferenced n => exact List.not_mem_nil
    | methodClass k => exact List.not_mem_nil
    | builtIn k => exact List.not_mem_nil
  obtain ⟨shape, hshape, hok, herror⟩ := hevents
  cases hg : r.finalizedGeneration r.limits c (r.built c) g with
  | ok g' => simpa [hok g' hg] using hshape
  | error f' => simp [herror f' hg, hshape, eq_comm]

theorem failed_mem_refinalizeEvents : Event.subclassFailed label f ∈ r.refinalizeEvents c ↔
    ∃ x, r.refinalization? c = some x ∧ label = x.generation.describe ∧ x.outcome = .error f := by
  rw [refinalizeEvents, refinalization?]
  dsimp only
  split
  · simp
  · split
    · rw [List.mem_append, failed_mem_generationEvents]
      simp [Finalization.outcome, Finalization.start, describe]
    · simp

theorem failed_mem_rebuildEvents : Event.subclassFailed label f ∈ rebuildEvents order r ↔
    ∃ x ∈ refinalizations order r, label = x.generation.describe ∧ x.outcome = .error f := by
  induction order generalizing r with
  | nil => simp [rebuildEvents, refinalizations]
  | cons c rest ih =>
    rw [rebuildEvents, refinalizations, List.mem_append, failed_mem_refinalizeEvents, ih]
    simp only [List.mem_append, Option.mem_toList, or_and_right, exists_or]

theorem failed_mem_declarationEvents : Event.subclassFailed label f ∈ r.declarationEvents d ↔
    ∃ root next, r.install d = (.ok root, next) ∧
      Event.subclassFailed label f ∈ next.cascadeEvents root := by
  rw [declarationEvents, install]
  generalize r.declare d = declared
  obtain ⟨root, k, mid⟩ := declared
  dsimp only
  generalize (if k.superclasses.all mid.isFinalized then mid.countGeneration root else mid) = start
  have hshape : Event.subclassFailed label f ∉
      (if k.superclasses.all mid.isFinalized then
        start.shapeEvents start.limits root (start.built root) k else []) := by
    split
    · exact failed_notMem_shapeEvents
    · exact List.not_mem_nil
  generalize (if k.superclasses.all mid.isFinalized then
    start.shapeEvents start.limits root (start.built root) k else []) = shape at hshape ⊢
  cases start.generationFor root (k.superclasses.all mid.isFinalized) k with
  | error f' => simpa using hshape
  | ok g => simp [hshape]

/-- A cascade tells of a failure exactly if it is the outcome of one of its finalizations. -/
theorem failed_mem_definitionEvents : Event.subclassFailed label f ∈ r.definitionEvents d ↔
    ∃ x ∈ r.cascadeFinalizations d, label = x.generation.describe ∧ x.outcome = .error f := by
  cases hcheck : r.checkDefinition d with
  | error f' =>
    rw [definitionEvents, cascadeFinalizations, hcheck]
    split <;> simp_all
  | ok _ =>
    have hnames : r.checkNames d = .ok () := (check_bind_eq_ok.mp hcheck).1
    obtain ⟨l, hl⟩ := (checkDefinition_eq_ok.mp hcheck).slots
    have hevents : Event.subclassFailed label f ∈ r.definitionEvents d ↔
        Event.subclassFailed label f ∈ r.declarationEvents d := by
      rw [definitionEvents, hnames, hl, hcheck]
      simp
    rw [hevents, failed_mem_declarationEvents, cascadeFinalizations, hcheck]
    dsimp only
    cases r.install d with
    | mk answer next =>
      cases answer with
      | error f' => simp
      | ok root =>
        rw [← failed_mem_rebuildEvents]
        constructor
        · rintro ⟨_, _, ⟨⟩, hmem⟩
          exact hmem
        · exact fun hmem => ⟨root, next, rfl, hmem⟩

end Events

end Attempts

section DeclaredSlots

theorem Move.nodup_slots (hr : r.Invariant) (h : r.Move op next) (hslots : ∀ c, (r.slots c).Nodup)
    (c : ClassId) : (next.slots c).Nodup := by
  rcases h.generation_cases hr c with hsame | ⟨n, _, hgen⟩ | ⟨d, supers, hadmits, hgen⟩
  · have heq : next.slots c = r.slots c := Generation.slots_congr hsame
    rw [heq]
    exact hslots c
  · rw [slots, hgen]
    exact List.nodup_nil
  · obtain ⟨l, hl⟩ := hadmits.slots
    have heq : next.slots c = d.slots := by
      rw [slots, ← Generation.slots_unfinalized, hgen]
      rfl
    rw [heq]
    exact (nodup_of_build hl).1

theorem nodup_slots_fresh (limits : Limits) (c : ClassId) : ((fresh limits).slots c).Nodup := by
  by_cases hc : IsKernel c
  · obtain ⟨k, rfl⟩ := hc
    rw [(invariant_fresh limits).slots_kernel]
    exact k.nodup_slots
  · rw [slots, generation_of_le (length_fresh_le hc)]
    exact List.nodup_nil

theorem Reachable.nodup_slots (h : Reachable limits r) : ∀ c, (r.slots c).Nodup := by
  induction h with
  | fresh => exact nodup_slots_fresh limits
  | step hr ha ih => exact (move_perform hr.invariant.1 ha).nodup_slots hr.invariant.1 ih

end DeclaredSlots

section Regularity

theorem regular_ownFinalization {x : Finalization} (hr : r.Invariant)
    (h : r.ownFinalization? d = some x) : x.Regular r.limits := by
  unfold ownFinalization? at h
  cases hcheck : r.checkDefinition d with
  | error f => simp [hcheck] at h
  | ok _ =>
    have ha := checkDefinition_eq_ok.mp hcheck
    have hd := declared_declare ha.notMem hr.bound
    rw [hcheck] at h
    generalize r.declare d = declared at h hd
    obtain ⟨root, k, mid⟩ := declared
    dsimp only at h hd
    split at h
    · rename_i hall
      cases h
      have hready : ∀ s ∈ k.superclasses, mid.isFinalized s := List.all_eq_true.mp hall
      have hself : ∀ s ∈ k.superclasses, root ∉ mid.precedenceList s := by
        intro s hs
        rw [hd.mem_precedenceList hr ha hs (hready s hs)]
        exact hd.not_inherits hr ha hs
      obtain ⟨l, hl⟩ := ha.slots
      rw [← hd.limits]
      rw [hd.eq_classWith] at hready hself ⊢
      exact Finalization.regular_start rfl hready hself (nodup_of_build hl).1
    · contradiction

/-- The superclasses of the first class that is built again are settled, and nothing settled inherits
from it. -/
theorem Awaits.regular_refinalization {rest : List ClassId} {x : Finalization}
    (h : r.Awaits (c :: rest)) (hslots : ∀ c, (r.slots c).Nodup)
    (hx : r.refinalization? c = some x) : x.Regular r.limits := by
  obtain ⟨k, hg, hsealed⟩ := h.standard c List.mem_cons_self
  have hk : r.superclasses c = k.superclasses := congrArg Generation.superclasses hg
  have hown : r.slots c = k.slots := congrArg Generation.slots hg
  have hself : ∀ s ∈ k.superclasses, c ∉ r.precedenceList s := by
    intro s hs hmem
    have hsettled := h.notMem_of_superclass (hk ▸ hs)
    rw [h.toWellFormed.mem_precedenceList h.settledBut hsettled] at hmem
    exact h.settledBut.closed_inherits hsettled hmem List.mem_cons_self
  rw [refinalization?, hg] at hx
  split at hx
  · contradiction
  · split at hx
    · rename_i hall
      cases hx
      exact Finalization.regular_start hsealed (List.all_eq_true.mp hall) hself (hown ▸ hslots c)
    · contradiction

theorem Awaits.regular_refinalizations (h : r.Awaits order) (hslots : ∀ c, (r.slots c).Nodup)
    {x : Finalization} (hx : x ∈ refinalizations order r) : x.Regular r.limits := by
  induction order generalizing r with
  | nil => contradiction
  | cons c rest ih =>
    obtain ⟨k, hg, hs⟩ := h.standard c List.mem_cons_self
    have hstep := reshaped_refinalize hg hs
    rcases List.mem_append.mp hx with hx | hx
    · exact h.regular_refinalization hslots (Option.mem_toList.mp hx)
    · rw [← hstep.limits]
      exact ih h.refinalize (fun a => hstep.slots a ▸ hslots a) hx

theorem Defined.awaits (hr : r.Invariant) (h : r.Defined d root k mid inst next) :
    inst.Awaits (inst.cascadeOrder root) :=
  (wellFormed_installed hr h.admits h.installed).awaits_cascadeOrder
    (not_isKernel_installed hr h.admits h.installed) (settledBut_installed hr h.admits h.installed)

theorem Reachable.regular_cascadeFinalization (h : Reachable limits r) {x : Finalization}
    (hx : x ∈ r.cascadeFinalizations d) : x.Regular limits := by
  obtain ⟨hinv, hlimits⟩ := h.invariant
  unfold cascadeFinalizations at hx
  cases hcheck : r.checkDefinition d with
  | error f => simp [hcheck] at hx
  | ok _ =>
    rw [hcheck] at hx
    cases hinst : r.install d with
    | mk answer next =>
      rw [hinst] at hx
      cases answer with
      | error f => contradiction
      | ok root =>
        have hdefine : r.define d = (.ok root, next.cascade root) := by
          rw [define, hcheck, hinst]
        obtain ⟨k, mid, inst, hdef⟩ := define_eq_ok hinv.toWellFormed hdefine
        cases hinst.symm.trans hdef.install
        -- Only shapes change in a cascade, so that the slots may be looked at when it is over.
        have hafter : Reachable limits (r.perform (.define d)) := .step h trivial
        have hperform : r.perform (.define d) = next.cascade root := congrArg Prod.snd hdefine
        have hslots : ∀ c, (next.slots c).Nodup := by
          intro c
          rw [← (hdef.cascade hinv).2.1.slots c, ← hperform]
          exact hafter.nodup_slots c
        have hnext : next.limits = limits :=
          (hdef.installed.redefined.limits.trans hdef.installed.declared.limits).trans hlimits
        rw [← hnext]
        exact (hdef.awaits hinv).regular_refinalizations hslots hx

end Regularity

section DuplicateSlots

variable {s : Symbol} {owner : Option Symbol}

theorem superclassFault?_ne_duplicateSlot {name super : Symbol} {existing : Option ClassId}
    {seen : List Symbol} :
    r.superclassFault? name existing seen super ≠ some (.duplicateSlot s owner) := by
  grind [superclassFault?]

theorem checkDefinition_duplicateSlot : r.checkDefinition d = .error (.duplicateSlot s owner) ↔
    r.checkNames d = .ok () ∧ owner = some d.name ∧ RepeatsFirst d.slots s := by
  have hnames : r.checkNames d ≠ .error (.duplicateSlot s owner) := by
    intro h
    rcases checkNames_eq_error h with ⟨_, _, heq⟩ | heq <;> cases heq
  have hsupers : r.checkSuperclasses d.name (r.lookup d.name) [] d.superclasses ≠
      .error (.duplicateSlot s owner) := by
    intro h
    obtain ⟨_, _, _, hfault⟩ := checkSuperclasses_eq_error h
    exact superclassFault?_ne_duplicateSlot hfault
  rw [checkDefinition, check_bind_eq_error, check_bind_eq_error, check_discard_eq_error,
    Layout.build_own_eq_error]
  tauto

/-- Finalization has no part in this: inherited slots may repeat, own ones may not. -/
theorem define_duplicateSlot_iff (h : Reachable limits r) :
    (r.define d).1 = .error (.duplicateSlot s owner) ↔
      r.checkNames d = .ok () ∧ owner = some d.name ∧ RepeatsFirst d.slots s := by
  rw [define_eq_error_iff, checkDefinition_duplicateSlot]
  apply or_iff_left
  rintro ⟨x, hx, hfault⟩
  have hshape := (regular_ownFinalization h.invariant.1 hx).faults _ hfault
  cases hshape

end DuplicateSlots

/-- In all registries that steps lead to, finalization fails in three ways only, be it that of a class
that is defined or that of its descendants. It makes up all failures but those of the checks, and all
that a cascade tells of. A slot is reported as a duplicate exactly if the definition names it twice,
however many classes declare it. -/
theorem reachable_finalizations_regular (h : Reachable limits r) (d : ClassDefinition) :
    (∀ x, r.ownFinalization? d = some x ∨ x ∈ r.cascadeFinalizations d → x.Regular limits) ∧
      (∀ f, (r.define d).1 = .error f ↔
        r.checkDefinition d = .error f ∨ ∃ x, r.ownFinalization? d = some x ∧ x.outcome = .error f) ∧
      (∀ label f, Event.subclassFailed label f ∈ r.definitionEvents d ↔
        ∃ x ∈ r.cascadeFinalizations d, label = x.generation.describe ∧ x.outcome = .error f) ∧
      ∀ s owner, (r.define d).1 = .error (.duplicateSlot s owner) ↔
        r.checkNames d = .ok () ∧ owner = some d.name ∧ RepeatsFirst d.slots s := by
  refine ⟨?_, fun _ => define_eq_error_iff, fun _ _ => failed_mem_definitionEvents,
    fun _ _ => define_duplicateSlot_iff h⟩
  rintro x (hx | hx)
  · obtain ⟨hinv, hlimits⟩ := h.invariant
    exact hlimits ▸ regular_ownFinalization hinv hx
  · exact h.regular_cascadeFinalization hx

def colors : Registry :=
  (((fresh Limits.standard).perform (.define ⟨⟨"POINT"⟩, [], [⟨"X"⟩], none⟩)).perform
    (.define ⟨⟨"COLOR"⟩, [], [⟨"X"⟩], none⟩)).perform
    (.define ⟨⟨"COLORED-POINT"⟩, [⟨"POINT"⟩, ⟨"COLOR"⟩], [⟨"X"⟩], none⟩)

def colorBelow (slots : List Symbol) : ClassDefinition := ⟨⟨"COLOR"⟩, [⟨"POINT"⟩], slots, none⟩

theorem colors_finalizations_regular :
    Reachable Limits.standard colors ∧
      (∃ x, colors.ownFinalization? (colorBelow [⟨"X"⟩]) = some x ∧ x.Regular Limits.standard ∧
        x.precedence = .ok [21, 20, 1, 0]) ∧
      (∃ x ∈ colors.cascadeFinalizations (colorBelow [⟨"X"⟩]), x.Regular Limits.standard ∧
        x.precedence = .error .crossed ∧ ∃ f, x.outcome = .error f ∧
          Event.subclassFailed x.generation.describe f ∈
            colors.definitionEvents (colorBelow [⟨"X"⟩])) ∧
      (colors.define (colorBelow [⟨"X"⟩, ⟨"Y"⟩, ⟨"Y"⟩])).1 =
        .error (.duplicateSlot ⟨"Y"⟩ (some ⟨"COLOR"⟩)) := by
  have hreachable : Reachable Limits.standard colors :=
    .step (.step (.step .fresh trivial) trivial) trivial
  have hown : (colors.ownFinalization? (colorBelow [⟨"X"⟩])).map Finalization.precedence =
      some (.ok [21, 20, 1, 0]) := by
    decide +kernel
  have hcascade : (colors.cascadeFinalizations (colorBelow [⟨"X"⟩])).map
      (fun x => (x.precedence, x.outcome.toOption)) = [(.error .crossed, none)] := by
    decide +kernel
  have hnames : (colors.checkNames (colorBelow [⟨"X"⟩, ⟨"Y"⟩, ⟨"Y"⟩])).toOption = some () := by
    decide +kernel
  obtain ⟨hregular, _, hevents, _⟩ :=
    reachable_finalizations_regular hreachable (colorBelow [⟨"X"⟩])
  refine ⟨hreachable, ?_, ?_, ?_⟩
  · obtain ⟨x, hx, hprecedence⟩ := Option.map_eq_some_iff.mp hown
    exact ⟨x, hx, hregular x (Or.inl hx), hprecedence⟩
  · obtain ⟨x, hall, hx⟩ := List.map_eq_singleton_iff.mp hcascade
    have hmem : x ∈ colors.cascadeFinalizations (colorBelow [⟨"X"⟩]) :=
      hall ▸ List.mem_singleton_self x
    obtain ⟨hprecedence, hnone⟩ := Prod.mk.inj hx
    cases hfails : x.outcome with
    | ok g =>
      rw [hfails] at hnone
      contradiction
    | error f =>
      exact ⟨x, hmem, hregular x (Or.inr hmem), hprecedence, f, hfails,
        (hevents _ f).mpr ⟨x, hmem, rfl, hfails⟩⟩
  · obtain ⟨_, _, _, hduplicate⟩ :=
      reachable_finalizations_regular hreachable (colorBelow [⟨"X"⟩, ⟨"Y"⟩, ⟨"Y"⟩])
    cases hcheck : colors.checkNames (colorBelow [⟨"X"⟩, ⟨"Y"⟩, ⟨"Y"⟩]) with
    | error f =>
      rw [hcheck] at hnames
      contradiction
    | ok _ =>
      exact (hduplicate _ _).mpr
        ⟨hcheck, rfl, [⟨"X"⟩, ⟨"Y"⟩], [], rfl, by decide, by decide⟩

end Registry

end Metaobject
