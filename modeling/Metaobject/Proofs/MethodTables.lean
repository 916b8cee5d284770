import Metaobject.Image.Methods
import Metaobject.Proofs.Tables

/-!
# Tables of methods

Methods are entered by their signatures. A list of methods that is entered twice leaves the table
that it left the first time: of several methods with one signature the last one remains, in the place of
the first, and methods with other signatures stay where they are.
-/

namespace Metaobject

/-- What can be read of a method. Strings and code are told by what they say, not by identity. -/
structure MethodReading where
  specializers : List Specializer
  qualifiers : List Symbol
  lambdaList : List Symbol
  documentation : Option String
  code : String
  fastCode : Option String
deriving Repr

/-- A value that is the same whenever it is written. -/
def Value.IsPlain : Value → Prop
  | .nil | .integer _ | .float _ | .symbol _ => True
  | _ => False

def Specializer.IsPlain : Specializer → Prop
  | .ofClass _ => True
  | .eql datum => datum.IsPlain

theorem Value.eql_iff {a b : Value} (h : b.IsPlain) : a.eql b = true ↔ a = b := by
  cases b <;> first | contradiction | (cases a <;> simp [eql, equal])

theorem Specializer.same_iff {a b : Specializer} (h : b.IsPlain) : a.same b = true ↔ a = b := by
  cases a with
  | ofClass c => cases b <;> simp [same]
  | eql v =>
    cases b with
    | ofClass c => simp [same]
    | eql w =>
      rw [same, Value.eql_iff h]
      simp

theorem Action.sameSpecializers_iff {a b : List Specializer} (h : ∀ s ∈ b, s.IsPlain) :
    Action.sameSpecializers a b = true ↔ a = b := by
  rw [Action.sameSpecializers, Bool.and_eq_true, decide_eq_true_iff]
  induction b generalizing a with
  | nil => simp
  | cons s b ih =>
    cases a with
    | nil => simp
    | cons t a =>
      have hs := h s List.mem_cons_self
      have hrest := ih (a := a) fun x hx => h x (List.mem_cons_of_mem s hx)
      simp only [List.length_cons, Nat.add_right_cancel_iff, List.zip_cons_cons, List.all_cons,
        Bool.and_eq_true, Specializer.same_iff hs, List.cons.injEq]
      tauto

namespace MethodReading

variable {t : MethodReading} {texts : List MethodReading}

def signature (t : MethodReading) : List Symbol × List Specializer := (t.qualifiers, t.specializers)

def HasSignature (x : MethodReading) (qualifiers : List Symbol) (specializers : List Specializer) :
    Bool :=
  x.qualifiers = qualifiers && Action.sameSpecializers x.specializers specializers

def enter (texts : List MethodReading) (t : MethodReading) : List MethodReading :=
  match texts.findIdx? (·.HasSignature t.qualifiers t.specializers) with
  | none => texts ++ [t]
  | some index => texts.set index t

theorem mem_enter_self (texts : List MethodReading) (t : MethodReading) : t ∈ enter texts t := by
  unfold enter
  cases hindex : texts.findIdx? (·.HasSignature t.qualifiers t.specializers) with
  | none => exact List.mem_append_right texts (List.mem_singleton.mpr rfl)
  | some index => exact List.mem_set (List.findIdx?_eq_some_iff_getElem.mp hindex).1 t

theorem mem_enter {x : MethodReading} (hx : x ∈ texts)
    (hne : ¬x.HasSignature t.qualifiers t.specializers = true) : x ∈ enter texts t := by
  unfold enter
  cases hindex : texts.findIdx? (·.HasSignature t.qualifiers t.specializers) with
  | none => exact List.mem_append_left [t] hx
  | some index =>
    obtain ⟨_, hsignature, _⟩ := List.findIdx?_eq_some_iff_getElem.mp hindex
    obtain ⟨i, hi⟩ := List.mem_iff_getElem?.mp hx
    have hplace : index ≠ i := by
      rintro rfl
      obtain ⟨_, hx⟩ := List.getElem?_eq_some_iff.mp hi
      rw [hx] at hsignature
      exact hne hsignature
    apply List.mem_of_getElem? (i := i)
    rw [List.getElem?_set_ne hplace]
    exact hi

def IsPlain (t : MethodReading) : Prop := ∀ s ∈ t.specializers, s.IsPlain

theorem hasSignature_iff {x : MethodReading} (h : t.IsPlain) :
    x.HasSignature t.qualifiers t.specializers = true ↔ x.signature = t.signature := by
  rw [HasSignature, Bool.and_eq_true, decide_eq_true_iff, Action.sameSpecializers_iff h, signature,
    signature, Prod.mk.injEq]

def entry (t : MethodReading) : (List Symbol × List Specializer) × MethodReading := (t.signature, t)

open scoped Classical in
theorem map_entry_enter (h : t.IsPlain) :
    (enter texts t).map entry = Table.insertIn t.signature t (texts.map entry) := by
  induction texts with
  | nil => rfl
  | cons x rest ih =>
    rw [enter] at ih ⊢
    rw [List.findIdx?_cons, List.map_cons, entry, Table.insertIn]
    by_cases hx : x.signature = t.signature
    · rw [if_pos ((hasSignature_iff h).mpr hx), if_pos hx]
      rfl
    · have hfalse : ¬x.HasSignature t.qualifiers t.specializers = true := by
        rw [hasSignature_iff h]
        exact hx
      rw [if_neg hfalse, if_neg hx, ← ih]
      cases rest.findIdx? (·.HasSignature t.qualifiers t.specializers) with
      | none => rfl
      | some index => rfl

open scoped Classical in
theorem map_entry_foldl {ts : List MethodReading} (h : ∀ t ∈ ts, t.IsPlain) :
    (ts.foldl enter texts).map entry = Table.insertAll (texts.map entry) (ts.map entry) := by
  induction ts generalizing texts with
  | nil => rfl
  | cons t rest ih =>
    rw [List.foldl_cons, ih fun x hx => h x (List.mem_cons_of_mem t hx),
      map_entry_enter (h t List.mem_cons_self)]
    rfl

theorem entry_injective : Function.Injective entry := fun _ _ h => congrArg Prod.snd h

/-- Methods that are entered again leave the table that they left. -/
theorem foldl_enter_again {ts : List MethodReading} (h : ∀ t ∈ ts, t.IsPlain) :
    ts.foldl enter (ts.foldl enter texts) = ts.foldl enter texts := by
  classical
  apply List.map_injective_iff.mpr entry_injective
  rw [map_entry_foldl h, map_entry_foldl h]
  exact Table.insertAll_insertAll _ _

def enterAt (T : FunctionId → List MethodReading) (j : FunctionId × MethodReading) :
    FunctionId → List MethodReading :=
  Function.update T j.1 (enter (T j.1) j.2)

theorem foldl_enterAt (T : FunctionId → List MethodReading)
    (jobs : List (FunctionId × MethodReading)) (g : FunctionId) : jobs.foldl enterAt T g =
      ((jobs.filter (fun j => j.1 = g)).map Prod.snd).foldl enter (T g) := by
  induction jobs generalizing T with
  | nil => rfl
  | cons j rest ih =>
    rw [List.foldl_cons, ih, enterAt]
    by_cases hg : j.1 = g
    · rw [List.filter_cons_of_pos (by simpa using hg), List.map_cons, List.foldl_cons, ← hg,
        Function.update_self]
    · rw [List.filter_cons_of_neg (by simpa using hg), Function.update_of_ne (Ne.symm hg)]

theorem mem_foldl_enterAt {T : FunctionId → List MethodReading} {x : MethodReading}
    {jobs : List (FunctionId × MethodReading)} {g : FunctionId} (hx : x ∈ T g)
    (hne : ∀ j ∈ jobs, j.1 = g → ¬x.HasSignature j.2.qualifiers j.2.specializers = true) :
    x ∈ jobs.foldl enterAt T g := by
  induction jobs generalizing T with
  | nil => exact hx
  | cons j rest ih =>
    apply ih
    · rw [enterAt]
      by_cases hg : j.1 = g
      · subst hg
        rw [Function.update_self]
        exact mem_enter hx (hne j List.mem_cons_self rfl)
      · rw [Function.update_of_ne (Ne.symm hg)]
        exact hx
    · exact fun y hy => hne y (List.mem_cons_of_mem j hy)

theorem foldl_enterAt_again (T : FunctionId → List MethodReading)
    {jobs : List (FunctionId × MethodReading)} (h : ∀ j ∈ jobs, j.2.IsPlain) :
    jobs.foldl enterAt (jobs.foldl enterAt T) = jobs.foldl enterAt T := by
  funext g
  rw [foldl_enterAt, foldl_enterAt]
  apply foldl_enter_again
  intro t ht
  obtain ⟨j, hj, rfl⟩ := List.mem_map.mp ht
  exact h j (List.mem_of_mem_filter hj)

end MethodReading

end Metaobject
