import Metaobject.Proofs.LoadedImages
import Metaobject.Proofs.MethodSignatures

/-!
# Methods by their signatures

The methods of a generic function are a table with their signatures as keys, as long as all of them can
be read. To add a method is to bind its signature, in its place if it is bound already.
-/

namespace Metaobject

namespace Image

variable {m m' : Image} {i j : InstanceId} {σ τ : Signature} {l : List InstanceId}

/-- The key under which a method is entered, if it can be read. -/
def key? (m : Image) (i : InstanceId) : Option (List Symbol × List Specializer) :=
  (m.signature? i).map Signature.key

theorem key?_of_signature? (h : m.signature? i = some σ) : m.key? i = some σ.key := by
  rw [key?, h]
  rfl

theorem signedAs_iff : m.signedAs σ i = true ↔ m.key? i = some σ.key := by
  rw [signedAs, key?]
  cases m.signature? i with
  | none => simp
  | some τ => simp [Signature.same_iff_key]

section Entering

def table (m : Image) (l : List InstanceId) :
    List (Option (List Symbol × List Specializer) × InstanceId) :=
  l.map fun i => (m.key? i, i)

theorem table_cons (m : Image) (i : InstanceId) (rest : List InstanceId) :
    m.table (i :: rest) = (m.key? i, i) :: m.table rest := rfl

theorem map_fst_table (m : Image) (l : List InstanceId) :
    (m.table l).map Prod.fst = l.map m.key? := by
  rw [table, List.map_map]
  rfl

open scoped Classical in
theorem findIn_table (m : Image) (σ : Signature) (l : List InstanceId) :
    Table.findIn (some σ.key) (m.table l) = l.find? (m.signedAs σ) := by
  induction l with
  | nil => rfl
  | cons i rest ih =>
    rw [table_cons, Table.findIn, List.find?_cons]
    cases hi : m.signedAs σ i with
    | true => exact if_pos (signedAs_iff.mp hi)
    | false =>
      rw [if_neg fun hkey => Bool.false_ne_true (hi.symm.trans (signedAs_iff.mpr hkey))]
      exact ih

theorem enter_cons (m : Image) (σ : Signature) (i j : InstanceId) (rest : List InstanceId) :
    m.enter σ i (j :: rest) =
      if m.signedAs σ j = true then i :: rest else j :: m.enter σ i rest := by
  rw [enter, List.findIdx?_cons, enter]
  cases m.signedAs σ j with
  | true => rfl
  | false => cases rest.findIdx? (m.signedAs σ) <;> rfl

open scoped Classical in
theorem table_enter (hi : m.signature? i = some σ) (l : List InstanceId) :
    m.table (m.enter σ i l) = Table.insertIn (some σ.key) i (m.table l) := by
  have hkey := key?_of_signature? hi
  induction l with
  | nil => simp [enter, table, Table.insertIn, hkey]
  | cons j rest ih =>
    rw [enter_cons, table_cons, Table.insertIn]
    by_cases hj : m.signedAs σ j = true
    · rw [if_pos hj, if_pos (signedAs_iff.mp hj), table_cons, hkey]
    · rw [if_neg hj, if_neg fun hsame => hj (signedAs_iff.mpr hsame), table_cons, ih]

/-- The signature that was entered leads to its method, and all others lead where they led. -/
theorem find?_enter (hi : m.signature? i = some σ) (τ : Signature) (l : List InstanceId) :
    (m.enter σ i l).find? (m.signedAs τ) =
      if τ.same σ = true then some i else l.find? (m.signedAs τ) := by
  classical
  rw [← findIn_table, table_enter hi, Table.findIn_insertIn, findIn_table]
  have hkey : some σ.key = some τ.key ↔ τ.same σ = true := by
    rw [Option.some.injEq, Signature.same_iff_key, eq_comm]
  exact if_congr hkey rfl rfl

theorem nodup_enter (hi : m.signature? i = some σ) (hl : (l.map m.key?).Nodup) :
    ((m.enter σ i l).map m.key?).Nodup := by
  classical
  rw [← map_fst_table, table_enter hi, Table.keys_insertIn, map_fst_table]
  split
  · exact hl
  · rename_i hnew
    apply hl.append (List.nodup_singleton _)
    rw [List.disjoint_singleton, ← map_fst_table, ← Table.isSome_findIn]
    exact hnew

theorem enter_cases (m : Image) (σ : Signature) (i : InstanceId) (l : List InstanceId) :
    (∃ (k : Nat) (j : InstanceId), l[k]? = some j ∧ m.signedAs σ j = true ∧
        l.find? (m.signedAs σ) = some j ∧ m.enter σ i l = l.set k i) ∨
      (∀ j ∈ l, m.signedAs σ j = false) ∧ l.find? (m.signedAs σ) = none ∧
        m.enter σ i l = l ++ [i] := by
  rw [enter, ← Action.findIdx?_bind_getElem?]
  cases hindex : l.findIdx? (m.signedAs σ) with
  | none => exact Or.inr ⟨List.findIdx?_eq_none_iff.mp hindex, rfl, rfl⟩
  | some k =>
    obtain ⟨hlt, hsigned, _⟩ := List.findIdx?_eq_some_iff_getElem.mp hindex
    have hget := List.getElem?_eq_getElem hlt
    exact Or.inl ⟨k, l[k], hget, hsigned, hget, rfl⟩

theorem mem_of_mem_enter (hj : j ∈ m.enter σ i l) : j = i ∨ j ∈ l := by
  rcases enter_cases m σ i l with ⟨k, _, _, _, _, heq⟩ | ⟨_, _, heq⟩
  · rw [heq] at hj
    exact (List.mem_or_eq_of_mem_set hj).symm
  · rw [heq, List.mem_append, List.mem_singleton] at hj
    exact hj.symm

theorem mem_enter_of_not_signed (hj : j ∈ l) (hother : m.signedAs σ j = false) :
    j ∈ m.enter σ i l := by
  rcases enter_cases m σ i l with ⟨k, j', hk, hsigned, _, heq⟩ | ⟨_, _, heq⟩
  · obtain ⟨index, hindex⟩ := List.mem_iff_getElem?.mp hj
    have hne : k ≠ index := by
      rintro rfl
      rw [hk] at hindex
      cases hindex
      rw [hsigned] at hother
      contradiction
    rw [heq]
    apply List.mem_of_getElem? (i := index)
    rw [List.getElem?_set_ne hne]
    exact hindex
  · rw [heq]
    exact List.mem_append_left [i] hj

theorem mem_enter_self (m : Image) (σ : Signature) (i : InstanceId) (l : List InstanceId) :
    i ∈ m.enter σ i l := by
  rcases enter_cases m σ i l with ⟨k, _, hk, _, _, heq⟩ | ⟨_, _, heq⟩
  · rw [heq]
    exact List.mem_set (List.getElem?_eq_some_iff.mp hk).1 i
  · rw [heq]
    exact List.mem_append_right l List.mem_cons_self

end Entering

section Tables

variable {g : FunctionId}

theorem Agrees.key? (h : m.Agrees m') : m'.key? = m.key? := by
  funext i
  rw [Image.key?, h.signature?, Image.key?]

/-- All methods can be read and have the right number of specializers, and no two of one generic
function have the same signature. -/
structure Tabled (m : Image) : Prop where
  signed : ∀ g, ∀ i ∈ (m.function g).methods, ∃ σ, m.signature? i = some σ ∧
    σ.specializers.length = (m.function g).required
  distinct : ∀ g, ((m.function g).methods.map m.key?).Nodup

theorem Tabled.readable (h : m.Tabled) (g : FunctionId) :
    ∀ j ∈ (m.function g).methods, (m.signature? j).isSome := by
  intro j hj
  obtain ⟨σ, hσ, _⟩ := h.signed g j hj
  rw [hσ]
  rfl

theorem Tabled.mono (h : m.Tabled)
    (hfunctions : ∀ g, m'.function g = m.function g ∨ (m'.function g).methods = [])
    (hsignatures : ∀ g, ∀ i ∈ (m.function g).methods, m'.signature? i = m.signature? i) :
    m'.Tabled := by
  constructor
  · intro g i hi
    rcases hfunctions g with hsame | hnone
    · rw [hsame] at hi ⊢
      rw [hsignatures g i hi]
      exact h.signed g i hi
    · rw [hnone] at hi
      contradiction
  · intro g
    rcases hfunctions g with hsame | hnone
    · have hkeys : (m.function g).methods.map m'.key? = (m.function g).methods.map m.key? := by
        apply List.map_congr_left
        intro i hi
        rw [key?, hsignatures g i hi, key?]
      rw [hsame, hkeys]
      exact h.distinct g
    · rw [hnone]
      exact .nil

theorem Tabled.matches (h : m.Tabled) (hmatches : m.Matches m') : m'.Tabled :=
  h.mono (fun g => Or.inl (hmatches.function g)) fun _ i _ => hmatches.signature? i

theorem agrees_setMethods (m : Image) (g : FunctionId) (l : List InstanceId) :
    m.Agrees (m.setMethods g l) :=
  agrees_of_instances rfl rfl

theorem Tabled.setMethods (h : m.Tabled)
    (hsigned : ∀ i ∈ l, ∃ σ, m.signature? i = some σ ∧
      σ.specializers.length = (m.function g).required)
    (hdistinct : (l.map m.key?).Nodup) : (m.setMethods g l).Tabled := by
  by_cases hg : g < m.functions.length
  · constructor
    · intro k i hi
      rw [(agrees_setMethods m g l).signature?]
      by_cases hk : k = g
      · subst hk
        rw [function_setMethods_self hg] at hi ⊢
        exact hsigned i hi
      · rw [function_setMethods_of_ne hk] at hi ⊢
        exact h.signed k i hi
    · intro k
      rw [(agrees_setMethods m g l).key?]
      by_cases hk : k = g
      · subst hk
        rw [function_setMethods_self hg]
        exact hdistinct
      · rw [function_setMethods_of_ne hk]
        exact h.distinct k
  · rw [Image.setMethods, List.modify_eq_self (Nat.le_of_not_lt hg)]
    exact h

/-- The method that a generic function has for a signature. -/
def methodFor (m : Image) (g : FunctionId) (σ : Signature) : Except Fault (Option InstanceId) :=
  ((Action.findMethod g σ.qualifiers σ.specializers).runOn m).1

theorem Tabled.methodFor_eq (h : m.Tabled) (g : FunctionId) (σ : Signature) :
    m.methodFor g σ = .ok ((m.function g).methods.find? (m.signedAs σ)) := by
  obtain ⟨m', _, hrun⟩ := Action.runOn_findMethod_matches (h.readable g) σ
  rw [methodFor, hrun]

/-- A method was entered: in the place of another one, or at the end. Its signature leads to it, and
nothing else changed. -/
structure Entered (m m' : Image) (g : FunctionId) (i : InstanceId) (σ : Signature)
    (old : Option InstanceId) : Prop where
  methods : (∃ (k : Nat) (j : InstanceId), (m.function g).methods[k]? = some j ∧
        m.signedAs σ j = true ∧ old = some j ∧
        (m'.function g).methods = (m.function g).methods.set k i) ∨
      (∀ j ∈ (m.function g).methods, m.signedAs σ j = false) ∧ old = none ∧
        (m'.function g).methods = (m.function g).methods ++ [i]
  found : ∀ τ, τ.same σ = true → m'.methodFor g τ = .ok (some i)
  kept : ∀ τ, τ.same σ = false → m'.methodFor g τ = m.methodFor g τ
  others : ∀ h, h ≠ g → m'.function h = m.function h

section Adding

variable (h : m.Tabled) (hmatches : m.Matches m') (hi : m.signature? i = some σ)
  (hlength : σ.specializers.length = (m.function g).required)

include h hmatches hi hlength

theorem tabled_enter : (m'.setMethods g (m.enter σ i (m.function g).methods)).Tabled := by
  apply (h.matches hmatches).setMethods
  · intro j hj
    rw [hmatches.signature?, hmatches.function]
    rcases mem_of_mem_enter hj with rfl | hold
    · exact ⟨σ, hi, hlength⟩
    · exact h.signed g j hold
  · rw [hmatches.key?]
    exact nodup_enter hi (h.distinct g)

theorem entered_enter (hg : g < m.functions.length) :
    Entered m (m'.setMethods g (m.enter σ i (m.function g).methods)) g i σ
      ((m.function g).methods.find? (m.signedAs σ)) := by
  have hg' : g < m'.functions.length := hmatches.functions.symm ▸ hg
  have htabled := tabled_enter h hmatches hi hlength
  have hmethods : ((m'.setMethods g (m.enter σ i (m.function g).methods)).function g).methods =
      m.enter σ i (m.function g).methods := by
    rw [function_setMethods_self hg']
  have hfor : ∀ τ, (m'.setMethods g (m.enter σ i (m.function g).methods)).methodFor g τ =
      .ok (if τ.same σ = true then some i else (m.function g).methods.find? (m.signedAs τ)) := by
    intro τ
    rw [htabled.methodFor_eq, hmethods, (agrees_setMethods m' g _).signedAs, hmatches.signedAs,
      find?_enter hi]
  constructor
  · rw [hmethods]
    exact enter_cases m σ i (m.function g).methods
  · intro τ hτ
    rw [hfor, if_pos hτ]
  · intro τ hτ
    rw [hfor, if_neg (Bool.not_eq_true _ ▸ hτ), h.methodFor_eq]
  · intro k hk
    rw [function_setMethods_of_ne hk, hmatches.function]

end Adding

end Tables

end Image

end Metaobject
