import Metaobject.Graph
import Mathlib.Algebra.Order.BigOperators.Group.Finset
import Mathlib.Logic.Relation

/-!
# Depth-first walks

The bounded walk takes enough steps: it visits each node that can be reached, once. Walks of two
graphs with the same edges visit the same nodes in the same order, whatever the nodes are.
-/

namespace Metaobject.Graph

variable {α β : Type}

/-- A walk that runs until its stack is empty. -/
inductive Walk (next : α → List α) : List α → List α → List α → Prop where
  | done (seen) : Walk next [] seen seen
  | skip {a stack seen out} : a ∈ seen → Walk next stack seen out → Walk next (a :: stack) seen out
  | enter {a stack seen out} : a ∉ seen → Walk next (next a ++ stack) (seen ++ [a]) out →
      Walk next (a :: stack) seen out

/-- The nodes to which edges lead from `a`, and from these, and so on; with `a` itself. -/
abbrev Reaches (next : α → List α) : α → α → Prop :=
  Relation.ReflTransGen fun a b => b ∈ next a

def openEdges (next : Nat → List Nat) (size : Nat) (seen : List Nat) : Nat :=
  ∑ a ∈ (Finset.range size).filter (· ∉ seen), (next a).length

theorem openEdges_nil (next : Nat → List Nat) (size : Nat) :
    openEdges next size [] = edgeCount next size := by
  induction size with
  | zero => rfl
  | succ size ih =>
    simp only [openEdges, edgeCount, List.not_mem_nil, not_false_eq_true, Finset.filter_true] at ih ⊢
    rw [Finset.sum_range_succ, ih, List.range_succ, List.flatMap_append, List.length_append]
    simp

theorem openEdges_visit (next : Nat → List Nat) {size a : Nat} {seen : List Nat}
    (ha : a < size) (hs : a ∉ seen) :
    (next a).length + openEdges next size (seen ++ [a]) = openEdges next size seen := by
  have herase : (Finset.range size).filter (· ∉ seen ++ [a]) =
      ((Finset.range size).filter (· ∉ seen)).erase a := by
    ext b
    simp only [List.mem_append, List.mem_singleton, Finset.mem_filter, Finset.mem_erase]
    tauto
  have hmem : a ∈ (Finset.range size).filter (· ∉ seen) := by simp [ha, hs]
  rw [openEdges, herase, openEdges]
  exact Finset.add_sum_erase _ (fun b => (next b).length) hmem

theorem openEdges_append_le (next : Nat → List Nat) (size : Nat) (seen : List Nat) (a : Nat) :
    openEdges next size (seen ++ [a]) ≤ openEdges next size seen := by
  apply Finset.sum_le_sum_of_subset
  intro b hb
  simp only [List.mem_append, Finset.mem_filter, not_or] at hb ⊢
  exact ⟨hb.1, hb.2.1⟩

/-- With a step for each node on the stack and each open edge, the stack gets empty. -/
theorem walk_visit {next : Nat → List Nat} {size : Nat} (hsize : ∀ a, size ≤ a → next a = [])
    {steps : Nat} {stack seen : List Nat}
    (h : stack.length + openEdges next size seen ≤ steps) :
    Walk next stack seen (visit next steps stack seen) := by
  induction steps generalizing stack seen with
  | zero =>
    have : stack = [] := List.length_eq_zero_iff.mp (by omega)
    subst this
    exact .done seen
  | succ steps ih =>
    cases stack with
    | nil => exact .done seen
    | cons a stack =>
      simp only [List.length_cons] at h
      by_cases ha : a ∈ seen
      · rw [visit, if_pos ha]
        exact .skip ha (ih (by omega))
      · rw [visit, if_neg ha]
        refine .enter ha (ih ?_)
        rw [List.length_append]
        by_cases hlt : a < size
        · have := openEdges_visit next hlt ha
          omega
        · have := openEdges_append_le next size seen a
          have hnil : (next a).length = 0 := by rw [hsize a (by omega)]; rfl
          omega

theorem walk_preorder {next : Nat → List Nat} {size : Nat} (hsize : ∀ a, size ≤ a → next a = [])
    (start : List Nat) : Walk next start [] (preorder next size start) := by
  apply walk_visit hsize
  rw [openEdges_nil]

namespace Walk

variable {next : α → List α} {stack seen out : List α}

theorem seen_subset (h : Walk next stack seen out) : seen ⊆ out := by
  induction h with
  | done => exact fun _ hx => hx
  | skip _ _ ih => exact ih
  | enter _ _ ih => exact fun x hx => ih (List.mem_append_left _ hx)

theorem stack_subset (h : Walk next stack seen out) : stack ⊆ out := by
  induction h with
  | done => simp
  | skip ha hw ih =>
    intro x hx
    rcases List.mem_cons.mp hx with rfl | hx
    · exact hw.seen_subset ha
    · exact ih hx
  | enter _ hw ih =>
    intro x hx
    rcases List.mem_cons.mp hx with rfl | hx
    · exact hw.seen_subset (by simp)
    · exact ih (List.mem_append_right _ hx)

theorem nodup (h : Walk next stack seen out) (hn : seen.Nodup) : out.Nodup := by
  induction h with
  | done => exact hn
  | skip _ _ ih => exact ih hn
  | @enter a stack seen out ha _ ih =>
    apply ih
    rw [List.nodup_append]
    refine ⟨hn, List.nodup_singleton a, ?_⟩
    intro x hx y hy hxy
    exact ha (List.mem_singleton.mp hy ▸ hxy ▸ hx)

theorem sound (h : Walk next stack seen out) {x : α} (hx : x ∈ out) :
    x ∈ seen ∨ ∃ a ∈ stack, Reaches next a x := by
  induction h with
  | done => exact Or.inl hx
  | skip _ _ ih =>
    rcases ih hx with h | ⟨a, ha, hr⟩
    · exact Or.inl h
    · exact Or.inr ⟨a, List.mem_cons_of_mem _ ha, hr⟩
  | @enter a stack seen out _ _ ih =>
    rcases ih hx with h | ⟨b, hb, hr⟩
    · rcases List.mem_append.mp h with h | h
      · exact Or.inl h
      · exact Or.inr ⟨a, by simp, List.mem_singleton.mp h ▸ .refl⟩
    · rcases List.mem_append.mp hb with hb | hb
      · exact Or.inr ⟨a, by simp, .head hb hr⟩
      · exact Or.inr ⟨b, List.mem_cons_of_mem _ hb, hr⟩

theorem closed (h : Walk next stack seen out)
    (hc : ∀ x ∈ seen, ∀ y ∈ next x, y ∈ seen ∨ y ∈ stack) :
    ∀ x ∈ out, ∀ y ∈ next x, y ∈ out := by
  induction h with
  | done => exact fun x hx y hy => (hc x hx y hy).elim id (by simp)
  | @skip a stack seen out ha _ ih =>
    apply ih
    intro x hx y hy
    rcases hc x hx y hy with h | h
    · exact Or.inl h
    · rcases List.mem_cons.mp h with rfl | h
      · exact Or.inl ha
      · exact Or.inr h
  | @enter a stack seen out _ _ ih =>
    apply ih
    intro x hx y hy
    rcases List.mem_append.mp hx with hx | hx
    · rcases hc x hx y hy with h | h
      · exact Or.inl (List.mem_append_left _ h)
      · rcases List.mem_cons.mp h with rfl | h
        · exact Or.inl (by simp)
        · exact Or.inr (List.mem_append_right _ h)
    · rw [List.mem_singleton.mp hx] at hy
      exact Or.inr (List.mem_append_left _ hy)

theorem complete (h : Walk next stack [] out) {a x : α} (ha : a ∈ stack)
    (hr : Reaches next a x) : x ∈ out := by
  induction hr with
  | refl => exact h.stack_subset ha
  | tail _ hy ih => exact h.closed (by simp) _ ih _ hy

theorem mem_iff (h : Walk next stack [] out) {x : α} :
    x ∈ out ↔ ∃ a ∈ stack, Reaches next a x := by
  constructor
  · intro hx
    exact (h.sound hx).resolve_left (by simp)
  · rintro ⟨a, ha, hr⟩
    exact h.complete ha hr

theorem unique {out' : List α} (h : Walk next stack seen out) (h' : Walk next stack seen out') :
    out = out' := by
  induction h with
  | done => cases h'; rfl
  | skip ha _ ih =>
    cases h' with
    | skip _ h' => exact ih h'
    | enter hn _ => exact absurd ha hn
  | enter hn _ ih =>
    cases h' with
    | skip ha _ => exact absurd ha hn
    | enter _ h' => exact ih h'

theorem map {f : α → β} {next' : β → List β} (hnext : ∀ a ∈ out, next' (f a) = (next a).map f)
    (hinj : ∀ a ∈ out, ∀ b ∈ out, f a = f b → a = b) (h : Walk next stack seen out) :
    Walk next' (stack.map f) (seen.map f) (out.map f) := by
  induction h with
  | done seen => exact .done _
  | skip ha _ ih => exact .skip (List.mem_map_of_mem ha) (ih hnext hinj)
  | @enter a stack seen out hn hw ih =>
    have ha : a ∈ out := hw.seen_subset (by simp)
    refine .enter ?_ ?_
    · intro hm
      obtain ⟨b, hb, hab⟩ := List.mem_map.mp hm
      exact hn (hinj b (hw.seen_subset (List.mem_append_left _ hb)) a ha hab ▸ hb)
    · have hrec := ih hnext hinj
      rwa [List.map_append, List.map_append, ← hnext a ha] at hrec

end Walk

theorem mem_preorder {next : Nat → List Nat} {size : Nat} (hsize : ∀ a, size ≤ a → next a = [])
    (start : List Nat) {x : Nat} :
    x ∈ preorder next size start ↔ ∃ a ∈ start, Reaches next a x :=
  (walk_preorder hsize start).mem_iff

theorem nodup_preorder {next : Nat → List Nat} {size : Nat} (hsize : ∀ a, size ≤ a → next a = [])
    (start : List Nat) : (preorder next size start).Nodup :=
  (walk_preorder hsize start).nodup List.nodup_nil

section Redirection

variable {next next' : α → List α} {self : α}

/-- New edges out of a node matter only to what leads to it. -/
theorem reaches_redirect (hsame : ∀ c, c ≠ self → next' c = next c) {c : α} :
    Reaches next' c self ↔ Reaches next c self := by
  constructor
  · intro h
    induction h using Relation.ReflTransGen.head_induction_on with
    | refl => exact .refl
    | @head a b hab _ ih =>
      by_cases ha : a = self
      · exact ha ▸ .refl
      · exact ih.head (hsame a ha ▸ hab)
  · intro h
    induction h using Relation.ReflTransGen.head_induction_on with
    | refl => exact .refl
    | @head a b hab _ ih =>
      by_cases ha : a = self
      · exact ha ▸ .refl
      · exact ih.head (by rwa [hsame a ha])

theorem not_reaches_of_mem (hne : ¬Reaches next c self) {s : α} (hs : s ∈ next c) :
    ¬Reaches next s self :=
  fun h => hne (h.head hs)

/-- A node gets new edges, none of which leads back to it: there is still no cycle. -/
theorem wellFounded_redirect (hwf : WellFounded fun s c => s ∈ next c)
    (hsame : ∀ c, c ≠ self → next' c = next c)
    (hself : ∀ s ∈ next' self, ¬Reaches next s self) :
    WellFounded fun s c => s ∈ next' c := by
  have hoff : ∀ c, ¬Reaches next c self → Acc (fun s c => s ∈ next' c) c := by
    intro c
    induction c using hwf.induction with
    | _ c ih =>
      intro hc
      have hne : c ≠ self := fun h => hc (h ▸ .refl)
      refine .intro c fun s hs => ?_
      rw [hsame c hne] at hs
      exact ih s hs (not_reaches_of_mem hc hs)
  have hacc : Acc (fun s c => s ∈ next' c) self :=
    .intro self fun s hs => hoff s (hself s hs)
  refine ⟨fun c => ?_⟩
  induction c using hwf.induction with
  | _ c ih =>
    by_cases hc : c = self
    · exact hc ▸ hacc
    · refine .intro c fun s hs => ?_
      rw [hsame c hc] at hs
      exact ih s hs

end Redirection

end Metaobject.Graph
