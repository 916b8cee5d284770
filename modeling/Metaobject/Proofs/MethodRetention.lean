import Metaobject.Proofs.MethodRuns

/-!
# How long a method stays

A method that was installed in the generic function of a name stays there: a generic function that has
methods keeps its name, and only a method with the same signature takes the place of another one. A generic
function without methods may lose its name to another one. What is installed in it after that is not found by
the name.
-/

namespace Metaobject

/-- The call neither removes the method from the generic function nor enters another one with its
signature. -/
def FunctionCall.Leaves (m : Image) (g : FunctionId) (i : InstanceId) (σ : Signature) :
    FunctionCall → Prop
  | .create _ _ _ | .ensure _ _ _ => True
  | .install k spec => k = g → spec.signature.same σ = false
  | .add k j => k = g → j = i ∨ m.signedAs σ j = false
  | .remove k j => k = g → j ≠ i

namespace Image

variable {limits : Limits} {m m' : Image} {n : Symbol} {g k : FunctionId} {i j : InstanceId}
  {σ τ : Signature}

/-- The method is one of the generic function to which the name is bound. -/
structure Offers (m : Image) (n : Symbol) (g : FunctionId) (i : InstanceId) (σ : Signature) :
    Prop where
  name : m.findFunction n = some g
  mem : i ∈ (m.function g).methods
  signature : m.signature? i = some σ

namespace Offers

theorem retains (h : m.Offers n g i σ) (hretains : m.Retains m') : m'.Offers n g i σ where
  name := by
    rw [findFunction, hretains.functionNames]
    exact h.name
  mem := by
    rw [hretains.function]
    exact h.mem
  signature := by
    rw [hretains.signature i (lt_of_signature? h.signature)]
    exact h.signature

theorem enters (h : m.Offers n g i σ) (hm : m.Tabled) (henters : m.Enters m' k j τ)
    (hother : k = g → τ.same σ = false) : m'.Offers n g i σ where
  name := by
    rw [findFunction, henters.functionNames]
    exact h.name
  mem := by
    by_cases hk : k = g
    · subst hk
      apply henters.mem_of_not_signed hm h.mem
      rw [signedAs_of_signature? h.signature, Signature.same_comm]
      exact hother rfl
    · rw [henters.others (Ne.symm hk)]
      exact h.mem
  signature := by
    rw [henters.signature (lt_of_signature? h.signature)]
    exact h.signature

theorem ensure (h : m.Offers n g i σ) (hm : m.Orderly limits) (name : Symbol)
    (lambdaList : List Symbol) (documentation : Option String) :
    (FunctionCall.after m (.ensure name lambdaList documentation)).Offers n g i σ := by
  rw [FunctionCall.after]
  rcases Action.ensureGenericFunction_cases m name lambdaList documentation with
    ⟨_, _, _, hrun⟩ | ⟨_, hrun⟩ | ⟨hnone, hrun⟩
  · rw [hrun]
    exact h
  · rw [hrun]
    exact h
  · rw [hrun]
    have hne : name ≠ n := by
      rintro rfl
      have hmem := h.mem
      rw [hnone g h.name] at hmem
      contradiction
    constructor
    · rw [findFunction_withFunction, if_neg hne]
      exact h.name
    · rw [function_withFunction_of_lt (hm.names n g h.name)]
      exact h.mem
    · rw [Agrees.signature?]
      · exact h.signature
      · exact agrees_of_instances rfl rfl

theorem create (h : m.Offers n g i σ) (hm : m.Orderly limits) (name : Symbol)
    (lambdaList : List Symbol) (documentation : Option String) :
    (FunctionCall.after m (.create name lambdaList documentation)).Offers n g i σ where
  name := h.name
  mem := by
    have hfunction :
        (FunctionCall.after m (.create name lambdaList documentation)).function g = m.function g := by
      change ((m.functions ++ [_])[g]?).getD _ = _
      rw [List.getElem?_append_left (hm.names n g h.name)]
      rfl
    rw [hfunction]
    exact h.mem
  signature := by
    rw [Agrees.signature?]
    · exact h.signature
    · exact agrees_of_instances rfl rfl

theorem remove (h : m.Offers n g i σ) (hm : m.Orderly limits) (hother : k = g → j ≠ i) :
    (FunctionCall.after m (.remove k j)).Offers n g i σ where
  name := h.name
  mem := by
    change i ∈ ((m.setMethods k ((m.function k).methods.filter (· ≠ j))).function g).methods
    by_cases hk : k = g
    · subst hk
      rw [function_setMethods_self (hm.names n k h.name)]
      exact List.mem_filter.mpr ⟨h.mem, by simpa using (hother rfl).symm⟩
    · rw [function_setMethods_of_ne (Ne.symm hk)]
      exact h.mem
  signature := by
    change (m.setMethods k _).signature? i = some σ
    rw [(agrees_setMethods m k _).signature?]
    exact h.signature

theorem after {c : FunctionCall} (h : m.Offers n g i σ) (hm : m.Orderly limits)
    (hleaves : c.Leaves m g i σ) : (c.after m).Offers n g i σ := by
  cases c with
  | create name lambdaList documentation => exact h.create hm name lambdaList documentation
  | ensure name lambdaList documentation => exact h.ensure hm name lambdaList documentation
  | install k spec =>
    rw [FunctionCall.after]
    rcases Action.installMethod_enters hm.tabled hm.registry.kernelIntact k spec with
      ⟨_, _, m', hretains, hrun⟩ | ⟨_, m', henters, hrun⟩
    · rw [hrun]
      exact h.retains hretains
    · rw [hrun]
      exact h.enters hm.tabled henters hleaves
  | add k j =>
    rw [FunctionCall.after]
    rcases Action.addMethod_cases hm.tabled k j with
      ⟨_, m', hretains, hrun⟩ | ⟨τ, m', hτ, henters, hrun⟩
    · rw [hrun]
      exact h.retains hretains
    · rw [hrun]
      by_cases hagain : k = g ∧ j = i
      · obtain ⟨rfl, rfl⟩ := hagain
        refine ⟨?_, henters.mem_self (hm.names n k h.name), ?_⟩
        · rw [findFunction, henters.functionNames]
          exact h.name
        · rw [henters.signature (lt_of_signature? hτ)]
          exact h.signature
      · apply h.enters hm.tabled henters
        intro hk
        have hother := (hleaves hk).resolve_left fun hj => hagain ⟨hk, hj⟩
        rw [signedAs_of_signature? hτ] at hother
        exact hother
  | remove k j => exact h.remove hm hleaves

end Offers

end Image

namespace Session

open Image

variable {limits : Limits} {s t : Session} {cmd : Command} {n : Symbol} {g : FunctionId}
  {i : InstanceId} {σ : Signature} {spec : MethodSpec}

/-- Runs in which a method is neither removed from a generic function nor replaced there. -/
inductive Leaving (g : FunctionId) (i : InstanceId) (σ : Signature) (start : Session) :
    Session → Prop
  | refl : Leaving g i σ start start
  | step {s : Session} {cmd : Command} : Leaving g i σ start s → s.Allowed cmd →
      SparesFunctions cmd → s.KeepsSignatures cmd → Leaving g i σ start (s.perform cmd)
  | call {s : Session} {c : FunctionCall} : Leaving g i σ start s → c.Leaves s.image g i σ →
      Leaving g i σ start (s.call c)

theorem offers_perform (h : s.image.Offers n g i σ) (ha : s.Allowed cmd)
    (hspares : SparesFunctions cmd) (hkeeps : s.KeepsSignatures cmd) :
    (s.perform cmd).image.Offers n g i σ := by
  obtain ⟨hfunctions, hnames⟩ := functions_perform ha hspares
  constructor
  · rw [findFunction, hnames]
    exact h.name
  · rw [function, hfunctions]
    exact h.mem
  · exact hkeeps g i h.mem σ h.signature

theorem Leaving.offers (hrun : Leaving g i σ s t) (hs : Managed limits s)
    (h : s.image.Offers n g i σ) : Managed limits t ∧ t.image.Offers n g i σ := by
  induction hrun with
  | refl => exact ⟨hs, h⟩
  | step _ ha hspares hkeeps ih =>
    exact ⟨ih.1.step ha hspares hkeeps, offers_perform ih.2 ha hspares hkeeps⟩
  | call _ hleaves ih => exact ⟨ih.1.call _, ih.2.after ih.1.orderly hleaves⟩

theorem offers_install (h : Managed limits s) (hn : s.image.findFunction n = some g)
    (hinstall : ((Action.installMethod g spec).runOn s.image).1 = .ok i) :
    (s.call (.install g spec)).image.Offers n g i spec.signature := by
  have horderly := h.orderly
  rw [call, FunctionCall.after]
  rcases Action.installMethod_enters horderly.tabled horderly.registry.kernelIntact g spec with
    ⟨_, _, _, _, hrun⟩ | ⟨_, m', henters, hrun⟩
  · rw [hrun] at hinstall
    contradiction
  · rw [hrun] at hinstall ⊢
    cases hinstall
    refine ⟨?_, henters.mem_self (horderly.names n g hn), henters.signature_self⟩
    rw [findFunction, henters.functionNames]
    exact hn

/-- What is installed in the generic function of a name is one of its methods from then on, whatever
generic functions are asked for, until it is removed or replaced. -/
theorem installed_method_stays (h : Managed limits s) (hn : s.image.findFunction n = some g)
    (hinstall : ((Action.installMethod g spec).runOn s.image).1 = .ok i)
    (hrun : Leaving g i spec.signature (s.call (.install g spec)) t) :
    t.image.findFunction n = some g ∧ i ∈ (t.image.function g).methods := by
  obtain ⟨_, hoffers⟩ := hrun.offers (h.call _) (offers_install h hn hinstall)
  exact ⟨hoffers.name, hoffers.mem⟩

def soleArea : Session := (fresh Limits.standard).call (.ensure ⟨"AREA"⟩ [⟨"SHAPE"⟩] none)

/-- Its method, after others asked for the function with more parameters and with another parameter, and
after another method came and went. -/
def keptArea : Session :=
  soleArea.call (.install 0 areaMethod)
    |>.call (.ensure ⟨"AREA"⟩ [⟨"A"⟩, ⟨"B"⟩] none)
    |>.call (.ensure ⟨"AREA"⟩ [⟨"S"⟩] (some "The area of a shape."))
    |>.call (.install 0 { areaMethod with qualifiers := [⟨"BEFORE"⟩] })
    |>.call (.remove 0 1)

theorem leaving_keptArea :
    Leaving 0 0 areaMethod.signature (soleArea.call (.install 0 areaMethod)) keptArea :=
  .call (.call (.call (.call .refl trivial) trivial) fun _ => by decide) fun _ => by decide

theorem keptArea_method_stays :
    Managed Limits.standard soleArea ∧ soleArea.image.findFunction ⟨"AREA"⟩ = some 0 ∧
      ((Action.installMethod 0 areaMethod).runOn soleArea.image).1 = .ok 0 ∧
      keptArea.image.findFunction ⟨"AREA"⟩ = some 0 ∧ 0 ∈ (keptArea.image.function 0).methods := by
  have hmanaged : Managed Limits.standard soleArea := Managed.fresh.call _
  have hn : soleArea.image.findFunction ⟨"AREA"⟩ = some 0 := by decide +kernel
  have hok : ((Action.installMethod 0 areaMethod).runOn soleArea.image).1.toOption = some 0 := by
    decide +kernel
  have hinstall : ((Action.installMethod 0 areaMethod).runOn soleArea.image).1 = .ok 0 := by
    cases h : ((Action.installMethod 0 areaMethod).runOn soleArea.image).1 with
    | error f =>
      rw [h] at hok
      contradiction
    | ok i =>
      rw [h] at hok
      exact congrArg Except.ok (Option.some.inj hok)
  exact ⟨hmanaged, hn, hinstall, installed_method_stays hmanaged hn hinstall leaving_keptArea⟩

/-- A generic function whose name went to another one, before it had any method. -/
def renamedArea : Session :=
  (fresh Limits.standard).call (.ensure ⟨"AREA"⟩ [⟨"SHAPE"⟩] none)
    |>.call (.ensure ⟨"AREA"⟩ [⟨"A"⟩, ⟨"B"⟩] none)

/-- A method is installed in it all the same, and is not found by the name. -/
theorem renamedArea_method_lost :
    ((Action.ensureGenericFunction ⟨"AREA"⟩ [⟨"SHAPE"⟩] none).runOn
        (fresh Limits.standard).image).1.toOption = some 0 ∧
      ((Action.installMethod 0 areaMethod).runOn renamedArea.image).1.toOption = some 0 ∧
      (renamedArea.call (.install 0 areaMethod)).image.findFunction ⟨"AREA"⟩ = some 1 ∧
      0 ∉ ((renamedArea.call (.install 0 areaMethod)).image.function 1).methods := by
  decide +kernel

end Session

end Metaobject
