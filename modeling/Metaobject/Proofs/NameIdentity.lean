import Metaobject.Proofs.DefinitionFrame
import Metaobject.Proofs.InstallationSteps
import Metaobject.Proofs.Moves

/-!
# Identity of names

As long as nobody binds a name elsewhere, it stands for one class from its first mention on:
references and definitions answer that class, and subclasses record it. A class that was defined
never becomes a placeholder again.
-/

namespace Metaobject

namespace Registry

variable {r mid inst next : Registry} {limits : Limits} {d : ClassDefinition} {root c : ClassId}
  {k : StandardClass} {op : Operation} {ops : List Operation} {n : Symbol}

section Runs

def performAll (r : Registry) (ops : List Operation) : Registry := ops.foldl perform r

/-- All steps of a run satisfy a condition, each in the registry that it finds. -/
def AllSteps (p : Registry → Operation → Prop) (r : Registry) : List Operation → Prop
  | [] => True
  | op :: rest => p r op ∧ (r.perform op).AllSteps p rest

theorem Reachable.allSteps {p : Registry → Operation → Prop} (h : Reachable limits r)
    (ha : r.AllSteps Allowed ops)
    (hp : ∀ s op, Reachable limits s → s.Allowed op → p s op) : r.AllSteps p ops := by
  induction ops generalizing r with
  | nil => trivial
  | cons op rest ih => exact ⟨hp r op h ha.1, ih (h.step ha.1) ha.2⟩

end Runs

/-- A step that leaves it to a name which class it stands for. -/
def Keeps (n : Symbol) (r : Registry) : Operation → Prop
  | .register m _ | .remove m => m ≠ n
  | .installPlaceholder m => m = n → ∀ c, r.lookup n = some c → r.state c = .placeholder
  | .define _ | .resolve _ => True

/-- What a step answers for a name. -/
inductive Answers (r : Registry) (n : Symbol) : Operation → ClassId → Prop
  | resolved {c : ClassId} {next : Registry} (h : r.resolveOrPlaceholder n = .ok (c, next)) :
      Answers r n (.resolve n) c
  | specialized {c : ClassId} {unit : String} {m : Image} (hm : m.registry = r)
      (h : ((Installation.specializer unit (.ofClass n)).runOn m).1 = .ok (.ofClass c)) :
      Answers r n (.resolve n) c
  | installed {c : ClassId} {next : Registry} (h : r.installPlaceholder n = .ok (c, next)) :
      Answers r n (.installPlaceholder n) c
  | defined {c : ClassId} {d : ClassDefinition} {next : Registry} (hname : d.name = n)
      (h : r.define d = (.ok c, next)) : Answers r n (.define d) c

/-- The class that a step defines has a class at the place of a name among its superclasses. -/
def Records (n : Symbol) (c : ClassId) (r : Registry) (op : Operation) : Prop :=
  ∀ (d : ClassDefinition) (root : ClassId), op = .define d → (r.define d).1 = .ok root →
    ∀ i : Nat, d.superclasses[i]? = some n → ((r.perform op).superclasses root)[i]? = some c

/-- During a run a name stands for a class: nothing else is found under the name, answered for it,
or recorded for it. -/
def StandsFor (n : Symbol) (c : ClassId) (r : Registry) : List Operation → Prop
  | [] => ∀ a, r.lookup n = some a → a = c
  | op :: rest => (∀ a, r.lookup n = some a → a = c) ∧ (∀ a, r.Answers n op a → a = c) ∧
      Records n c r op ∧ StandsFor n c (r.perform op) rest

def KeepsSuperclasses (r : Registry) (op : Operation) : Prop :=
  ∀ a, (∀ d, op = .define d → (r.define d).1 ≠ .ok a) →
    (r.perform op).superclasses a = r.superclasses a

theorem StandsFor.lookup (h : StandsFor n c r ops) {a : ClassId} (ha : r.lookup n = some a) :
    a = c := by
  cases ops with
  | nil => exact h a ha
  | cons op rest => exact h.1 a ha

section Steps

theorem Move.lookup (hr : r.Invariant) (h : r.Move op next) (hkeeps : Keeps n r op)
    (hn : r.lookup n = some c) : next.lookup n = some c := by
  cases h with
  | idle op => exact hn
  | counted hroot hopen => exact hn
  | defined _ hdef => exact (hdef.binds hr).kept n c hn
  | @bound m a hname hopen ha =>
    have hne : m ≠ n := hkeeps
    rw [lookup_bind, if_neg hne]
    exact hn
  | @unbound m hopen =>
    have hne : m ≠ n := hkeeps
    refine (Table.find?_erase r.bindings m n).trans ?_
    rw [if_neg hne]
    exact hn
  | @resolved m hname hnone =>
    rw [lookup_addPlaceholder]
    split
    · rename_i heq
      rw [heq, hn] at hnone
      contradiction
    · exact hn
  | @displaced m hname hopen hstate =>
    rw [lookup_addPlaceholder]
    split
    · rename_i heq
      subst heq
      exact absurd (hkeeps rfl c hn) (hstate c hn)
    · exact hn
  | refreshed hname hc hstate => exact hn

theorem Answers.lookup (hr : r.Invariant) (h : r.Answers n op c) :
    (r.perform op).lookup n = some c := by
  have hresolve : ∀ {a next}, r.resolveOrPlaceholder n = .ok (a, next) →
      (r.perform (.resolve n)).lookup n = some a := by
    intro a next heq
    rw [perform, heq]
    dsimp only
    obtain ⟨_, ⟨hn, rfl⟩ | ⟨_, rfl, rfl⟩⟩ := resolve_cases heq
    · exact hn
    · rw [lookup_addPlaceholder, if_pos rfl]
  cases h with
  | resolved heq => exact hresolve heq
  | @specialized a unit m hm heq =>
    rw [Installation.runOn_specializer, hm] at heq
    cases hanswer : r.resolveOrPlaceholder n with
    | error f =>
      rw [hanswer] at heq
      cases heq
    | ok p =>
      obtain ⟨a, next⟩ := p
      rw [hanswer] at heq
      cases heq
      exact hresolve hanswer
  | installed heq =>
    rw [perform, heq]
    dsimp only
    obtain ⟨_, ⟨hn, _, rfl⟩ | ⟨_, _, rfl, rfl⟩⟩ := installPlaceholder_cases heq
    · exact hn
    · rw [lookup_addPlaceholder, if_pos rfl]
  | defined hname heq =>
    obtain ⟨k, mid, inst, hdef⟩ := define_eq_ok hr.toWellFormed heq
    rw [perform, heq, ← hname]
    exact (hdef.binds hr).name

theorem NamesSuperclasses.getElem? {names : List Symbol} {supers : List ClassId} {i : Nat}
    (h : r.NamesSuperclasses names supers) (hi : names[i]? = some n) :
    ∃ a, r.lookup n = some a ∧ supers[i]? = some a := by
  have hmem := List.mem_of_getElem? hi
  rw [NamesSuperclasses, if_neg (List.ne_nil_of_mem hmem)] at h
  have hplace : (names.map r.lookup)[i]? = (supers.map some)[i]? := congrArg (·[i]?) h
  rw [List.getElem?_map, List.getElem?_map, hi] at hplace
  cases hs : supers[i]? with
  | none =>
    rw [hs] at hplace
    contradiction
  | some a =>
    rw [hs] at hplace
    exact ⟨a, Option.some.inj hplace, rfl⟩

theorem records_of_lookup (hr : r.Invariant)
    (h : ∀ a, (r.perform op).lookup n = some a → a = c) : Records n c r op := by
  rintro d root rfl hok i hi
  have heq : r.define d = (.ok root, (r.define d).2) := Prod.ext hok rfl
  obtain ⟨k, mid, inst, hdef⟩ := define_eq_ok hr.toWellFormed heq
  obtain ⟨a, ha, hplace⟩ := (hdef.names hr).getElem? hi
  rw [← h a ha]
  exact hplace

theorem Move.defined_or_alike (h : r.Move op next) :
    (∃ d root k mid inst, op = .define d ∧ r.define d = (.ok root, next) ∧
      r.Defined d root k mid inst next) ∨ r.Alike next := by
  cases h with
  | idle op => exact Or.inr ⟨rfl, fun _ => Or.inl rfl, fun _ => rfl⟩
  | @counted d root hroot hopen => exact Or.inr (alike_countGeneration r root)
  | @defined d root k mid inst next heq hdef =>
    exact Or.inl ⟨d, root, k, mid, inst, rfl, heq, hdef⟩
  | bound hname hopen hc => exact Or.inr ⟨rfl, fun _ => Or.inl rfl, fun _ => rfl⟩
  | unbound hopen => exact Or.inr ⟨rfl, fun _ => Or.inl rfl, fun _ => rfl⟩
  | @resolved m hname hnone => exact Or.inr (alike_addPlaceholder r m)
  | @displaced m hname hopen hstate => exact Or.inr (alike_addPlaceholder r m)
  | @refreshed m a hname hc hstate => exact Or.inr (alike_publish_placeholder m hstate)

theorem Move.keepsSuperclasses (hr : r.Invariant) (h : r.Move op (r.perform op)) :
    KeepsSuperclasses r op := by
  intro a hother
  rcases h.defined_or_alike with ⟨d, root, k, mid, inst, rfl, heq, hdef⟩ | halike
  · apply hdef.superclasses_of_ne hr
    rintro rfl
    apply hother d rfl
    rw [heq]
  · exact halike.superclasses a

theorem Defined.isStandard (hr : r.Invariant) (h : r.Defined d root k mid inst next)
    (hc : (r.generation c).isStandard = true) : (next.generation c).isStandard = true := by
  rw [← Generation.isStandard_unfinalized] at hc ⊢
  rcases h.definition hr c with ⟨_, hgen⟩ | ⟨_, _, hgen⟩ | ⟨_, hle, _⟩ | ⟨_, hle, _⟩
  · rw [hgen]
    rfl
  · rw [hgen]
    exact hc
  · rw [generation_of_le hle] at hc
    contradiction
  · rw [generation_of_le hle] at hc
    contradiction

theorem Move.isStandard (hr : r.Invariant) (h : r.Move op next)
    (hc : (r.generation c).isStandard = true) : (next.generation c).isStandard = true := by
  rcases h.defined_or_alike with ⟨d, root, k, mid, inst, _, _, hdef⟩ | halike
  · exact hdef.isStandard hr hc
  · rw [(halike.generation c).part Generation.isStandard fun _ _ => rfl]
    exact hc

end Steps

section Runs

theorem standsFor_of_lookup (hr : Reachable limits r) (ha : r.AllSteps Allowed ops)
    (hkeeps : r.AllSteps (Keeps n) ops) (hn : r.lookup n = some c) : StandsFor n c r ops := by
  have hfound : ∀ {s : Registry}, s.lookup n = some c → ∀ a, s.lookup n = some a → a = c := by
    intro s hs a ha
    exact Option.some.inj (ha.symm.trans hs)
  induction ops generalizing r with
  | nil => exact hfound hn
  | cons op rest ih =>
    obtain ⟨hinv, _⟩ := hr.invariant
    have hnext := (move_perform hinv ha.1).lookup hinv hkeeps.1 hn
    refine ⟨hfound hn, ?_, records_of_lookup hinv (hfound hnext), ?_⟩
    · intro a hanswer
      exact hfound hnext a (hanswer.lookup hinv)
    · exact ih (hr.step ha.1) ha.2 hkeeps.2 hnext

theorem exists_standsFor (hr : Reachable limits r) (ha : r.AllSteps Allowed ops)
    (hkeeps : r.AllSteps (Keeps n) ops) : ∃ c, StandsFor n c r ops := by
  induction ops generalizing r with
  | nil =>
    cases hn : r.lookup n with
    | none =>
      refine ⟨0, fun a ha => ?_⟩
      rw [hn] at ha
      contradiction
    | some c => exact ⟨c, standsFor_of_lookup hr ha hkeeps hn⟩
  | cons op rest ih =>
    cases hn : r.lookup n with
    | some c => exact ⟨c, standsFor_of_lookup hr ha hkeeps hn⟩
    | none =>
      -- Before its first mention a name is not bound, and what the step answers is found after it.
      obtain ⟨hinv, _⟩ := hr.invariant
      obtain ⟨c, hc⟩ := ih (hr.step ha.1) ha.2 hkeeps.2
      refine ⟨c, ?_, ?_, records_of_lookup hinv fun a => hc.lookup, hc⟩
      · intro a ha
        rw [hn] at ha
        contradiction
      · intro a hanswer
        exact hc.lookup (hanswer.lookup hinv)

theorem isStandard_performAll (hr : Reachable limits r) (ha : r.AllSteps Allowed ops)
    (hc : (r.generation c).isStandard = true) :
    ((r.performAll ops).generation c).isStandard = true := by
  induction ops generalizing r with
  | nil => exact hc
  | cons op rest ih =>
    obtain ⟨hinv, _⟩ := hr.invariant
    apply ih (hr.step ha.1) ha.2
    exact (move_perform hinv ha.1).isStandard hinv hc

theorem state_of_isStandard (hc : (r.generation c).isStandard = true) :
    r.state c = .unfinalized ∨ r.state c = .finalized := by
  rw [state]
  cases hg : r.generation c with
  | standard k =>
    change (if k.shape.isSome then ClassState.finalized else .unfinalized) = _ ∨
      (if k.shape.isSome then ClassState.finalized else .unfinalized) = _
    split
    · exact Or.inr rfl
    · exact Or.inl rfl
  | forwardReferenced m => rw [hg] at hc; contradiction
  | methodClass k => rw [hg] at hc; contradiction
  | builtIn k => rw [hg] at hc; contradiction

end Runs

/-- Every name that a run leaves alone stands for one class, which subclasses keep recorded until
they are defined again. A class that was defined stays a defined class in any run. -/
theorem reachable_name_identity (hr : Reachable limits r) (ha : r.AllSteps Allowed ops) :
    (∀ n, r.AllSteps (Keeps n) ops → ∃ c, StandsFor n c r ops) ∧
      r.AllSteps KeepsSuperclasses ops ∧
      ∀ c, (r.generation c).isStandard = true →
        ((r.performAll ops).generation c).isStandard = true ∧
          ((r.performAll ops).state c = .unfinalized ∨ (r.performAll ops).state c = .finalized) := by
  refine ⟨?_, ?_, ?_⟩
  · intro n hkeeps
    exact exists_standsFor hr ha hkeeps
  · apply hr.allSteps ha
    intro s op hs hallowed
    obtain ⟨hinv, _⟩ := hs.invariant
    exact (move_perform hinv hallowed).keepsSuperclasses hinv
  · intro c hc
    have hstandard := isStandard_performAll hr ha hc
    exact ⟨hstandard, state_of_isStandard hstandard⟩

def sketch : Registry := (fresh Limits.standard).perform (.define ⟨⟨"SQUARE"⟩, [⟨"SHAPE"⟩], [], none⟩)

def sketching : List Operation :=
  [.register ⟨"FIGURE"⟩ 20, .define ⟨⟨"SHAPE"⟩, [], [⟨"AREA"⟩], none⟩, .installPlaceholder ⟨"FIGURE"⟩,
    .remove ⟨"FIGURE"⟩, .define ⟨⟨"SQUARE"⟩, [⟨"SHAPE"⟩], [⟨"SIDE"⟩], none⟩, .resolve ⟨"SHAPE"⟩]

theorem sketching_name_identity :
    Reachable Limits.standard sketch ∧ sketch.AllSteps Allowed sketching ∧
      StandsFor ⟨"SHAPE"⟩ 20 sketch sketching ∧ sketch.AllSteps KeepsSuperclasses sketching ∧
      sketch.state 21 = .unfinalized ∧ (sketch.performAll sketching).state 21 = .finalized := by
  have hreachable : Reachable Limits.standard sketch := .step .fresh trivial
  have hregister : sketch.Allowed (.register ⟨"FIGURE"⟩ 20) := by
    change 20 < _
    decide +kernel
  have hallowed : sketch.AllSteps Allowed sketching :=
    ⟨hregister, trivial, trivial, trivial, trivial, trivial, trivial⟩
  have hne : (⟨"FIGURE"⟩ : Symbol) ≠ ⟨"SHAPE"⟩ := by decide
  have hkeeps : sketch.AllSteps (Keeps ⟨"SHAPE"⟩) sketching :=
    ⟨hne, trivial, fun heq => absurd heq hne, hne, trivial, trivial, trivial⟩
  obtain ⟨hnames, hsupers, hstates⟩ := reachable_name_identity hreachable hallowed
  obtain ⟨c, hc⟩ := hnames ⟨"SHAPE"⟩ hkeeps
  have hbound : sketch.lookup ⟨"SHAPE"⟩ = some 20 := by decide +kernel
  have hstandard : (sketch.generation 21).isStandard = true := by decide +kernel
  have hfinal : (sketch.performAll sketching).state 21 ≠ .unfinalized := by decide +kernel
  cases hc.lookup hbound
  refine ⟨hreachable, hallowed, hc, hsupers, by decide +kernel, ?_⟩
  exact (hstates 21 hstandard).2.resolve_left hfinal

end Registry

end Metaobject
