/-!
# Declarations that prevail

Of declarations that are carried out in order, a later one may take the place of an earlier one. Those
prevail for which this does not happen.
-/

namespace Metaobject

variable {α κ : Type} [DecidableEq κ] {overridden : α → α → Bool} {key : α → κ} {l rest : List α}
  {x y : α}

/-- The elements that are not overridden by any later one, in order. -/
def prevailing (overridden : α → α → Bool) : List α → List α
  | [] => []
  | x :: rest =>
    if rest.any (overridden x) then prevailing overridden rest
    else x :: prevailing overridden rest

theorem mem_prevailing_cons :
    x ∈ prevailing overridden (y :: rest) ↔
      x ∈ prevailing overridden rest ∨ x = y ∧ ∀ z ∈ rest, overridden x z = false := by
  rw [prevailing]
  by_cases h : rest.any (overridden y) = true
  · rw [if_pos h]
    constructor
    · exact Or.inl
    · rintro (hx | ⟨rfl, hkept⟩)
      · exact hx
      · obtain ⟨z, hz, hover⟩ := List.any_eq_true.mp h
        rw [hkept z hz] at hover
        contradiction
  · have hkept : ∀ z ∈ rest, overridden y z = false := by
      intro z hz
      apply Bool.eq_false_iff.mpr
      intro hover
      exact h (List.any_eq_true.mpr ⟨z, hz, hover⟩)
    rw [if_neg h, List.mem_cons]
    constructor
    · rintro (rfl | hx)
      · exact Or.inr ⟨rfl, hkept⟩
      · exact Or.inl hx
    · rintro (hx | ⟨rfl, _⟩)
      · exact Or.inr hx
      · exact Or.inl rfl

def sameKey (key : α → κ) (x y : α) : Bool := key x = key y

theorem exists_prevailing (key : α → κ) (hx : x ∈ l) :
    ∃ y ∈ prevailing (sameKey key) l, key y = key x := by
  induction l generalizing x with
  | nil => contradiction
  | cons z rest ih =>
    by_cases hlater : ∃ y ∈ rest, key y = key x
    · obtain ⟨y, hy, hkey⟩ := hlater
      obtain ⟨w, hw, hwy⟩ := ih hy
      exact ⟨w, mem_prevailing_cons.mpr (Or.inl hw), hwy.trans hkey⟩
    · rcases List.mem_cons.mp hx with rfl | hx
      · refine ⟨x, mem_prevailing_cons.mpr (Or.inr ⟨rfl, ?_⟩), rfl⟩
        intro y hy
        exact decide_eq_false fun heq => hlater ⟨y, hy, heq.symm⟩
      · exact absurd ⟨x, hx, rfl⟩ hlater

theorem prevailing_of_nodup (h : (l.map key).Nodup) : prevailing (sameKey key) l = l := by
  induction l with
  | nil => rfl
  | cons x rest ih =>
    obtain ⟨hx, hrest⟩ := List.nodup_cons.mp h
    have hkept : ¬rest.any (sameKey key x) = true := by
      intro hany
      obtain ⟨y, hy, hkey⟩ := List.any_eq_true.mp hany
      exact hx (of_decide_eq_true hkey ▸ List.mem_map_of_mem hy)
    rw [prevailing, if_neg hkept, ih hrest]

end Metaobject
