import Metaobject.Proofs.NameIdentity
import Metaobject.Proofs.Tables

/-!
# Names that are added

A name that nobody has can be given to any class. Whether it can be taken back depends on the class
and not on the name: a class of the kernel keeps all names that it was given.
-/

namespace Metaobject.Registry

variable {r next : Registry} {limits : Limits} {op : Operation} {ops : List Operation} {n : Symbol}
  {c : ClassId}

section Calls

theorem register_of_open (hname : IsClassName n) (hopen : r.Open n) :
    r.register n c = .ok (r.lookup n, r.bind n c) := by
  apply check_bind_eq_ok.mpr ⟨checkClassName_eq_ok.mpr hname, ?_⟩
  exact check_bind_eq_ok.mpr ⟨checkNotSealed_eq_ok.mpr hopen, rfl⟩

theorem remove_of_open (hopen : r.Open n) :
    r.remove n = .ok (r.lookup n, { r with bindings := r.bindings.erase n }) :=
  check_bind_eq_ok.mpr ⟨checkNotSealed_eq_ok.mpr hopen, rfl⟩

theorem remove_of_sealed (hn : r.lookup n = some c) (hc : r.isSealed c = true) :
    r.remove n = .error (.sealedClass n) := by
  have hcheck : r.checkNotSealed n = .error (.sealedClass n) := by simp [checkNotSealed, hn, hc]
  exact check_bind_eq_error.mpr (Or.inl hcheck)

theorem lookup_bind_self (r : Registry) (n : Symbol) (c : ClassId) :
    (r.bind n c).lookup n = some c := by
  simp [lookup_bind]

theorem remove_bind (hnone : r.lookup n = none) (hc : r.isSealed c = false) :
    (r.bind n c).remove n = .ok (some c, r) := by
  have hopen : (r.bind n c).Open n := by
    intro a ha
    rw [lookup_bind_self] at ha
    cases ha
    exact hc
  have herase : (r.bindings.insert n c).erase n = r.bindings := Table.erase_insert_of_none c hnone
  rw [remove_of_open hopen, lookup_bind_self]
  change Except.ok (some c, { r with bindings := (r.bindings.insert n c).erase n }) = .ok (some c, r)
  rw [herase]

end Calls

section Runs

/-- No step takes a name away from a sealed class. -/
theorem Move.lookup_of_sealed (hr : r.Invariant) (h : r.Move op next) (hn : r.lookup n = some c)
    (hc : r.isSealed c = true) : next.lookup n = some c := by
  have hclosed : ∀ m, r.Open m → m ≠ n := by
    rintro m hopen rfl
    simp [hopen c hn] at hc
  cases h with
  | idle | counted | refreshed => exact hn
  | defined _ hdef => exact (hdef.binds hr).kept n c hn
  | bound _ hopen _ => simpa [lookup_bind, hclosed _ hopen] using hn
  | @unbound m hopen =>
    exact (Table.find?_erase r.bindings m n).trans ((if_neg (hclosed m hopen)).trans hn)
  | resolved _ hnone => simpa [lookup_addPlaceholder, hclosed _ (open_of_none hnone)] using hn
  | displaced _ hopen _ => simpa [lookup_addPlaceholder, hclosed _ hopen] using hn

theorem lookup_performAll_of_isKernel (hr : Reachable limits r) (hn : r.lookup n = some c)
    (hc : IsKernel c) (ha : r.AllSteps Allowed ops) : (r.performAll ops).lookup n = some c := by
  induction ops generalizing r with
  | nil => exact hn
  | cons op rest ih =>
    obtain ⟨hinv, _⟩ := hr.invariant
    have hsealed := hinv.toWellFormed.isSealed_iff.mpr hc
    have hnext := (move_perform hinv ha.1).lookup_of_sealed hinv hn hsealed
    exact ih (hr.step ha.1) hnext ha.2

end Runs

/-- A name that is not bound can be given to any class. From a class that is not of the kernel it can
be taken back, which leaves the registry as it was. A class of the kernel refuses to give it back, and
has it from then on. -/
theorem reachable_register_remove (h : Reachable limits r) (hname : IsClassName n)
    (hnone : r.lookup n = none) :
    ∃ next, r.register n c = .ok (none, next) ∧ next.lookup n = some c ∧
      (¬IsKernel c → next.remove n = .ok (some c, r)) ∧
      (IsKernel c → next.remove n = .error (.sealedClass n) ∧
        ∀ ops, next.AllSteps Allowed ops → (next.performAll ops).lookup n = some c) := by
  obtain ⟨hinv, _⟩ := h.invariant
  have hregister : r.register n c = .ok (none, r.bind n c) := by
    rw [register_of_open hname (open_of_none hnone), hnone]
  refine ⟨r.bind n c, hregister, lookup_bind_self r n c, ?_, ?_⟩
  · intro hc
    apply remove_bind hnone
    exact Bool.eq_false_iff.mpr fun hsealed => hc (hinv.toWellFormed.isSealed_iff.mp hsealed)
  · rintro ⟨k, rfl⟩
    have hsealed : r.isSealed k.id = true := hinv.toWellFormed.isSealed_iff.mpr ⟨k, rfl⟩
    have hnext : Reachable limits (r.bind n k.id) := by
      have hstep : Reachable limits (r.perform (.register n k.id)) := h.step (hinv.kernel_lt k)
      rwa [perform, hregister] at hstep
    refine ⟨remove_of_sealed (lookup_bind_self r n k.id) hsealed, ?_⟩
    intro ops ha
    exact lookup_performAll_of_isKernel hnext (lookup_bind_self r n k.id) ⟨k, rfl⟩ ha

/-- Another name for a class that was a placeholder at first. -/
theorem points_register_remove :
    Reachable Limits.standard points ∧ points.lookup ⟨"DOT"⟩ = none ∧
      points.lookup ⟨"POINT"⟩ = some 20 ∧
      ∃ next, points.register ⟨"DOT"⟩ 20 = .ok (none, next) ∧ next.lookup ⟨"DOT"⟩ = some 20 ∧
        next.remove ⟨"DOT"⟩ = .ok (some 20, points) := by
  have hname : IsClassName ⟨"DOT"⟩ := ⟨by decide, by decide⟩
  have hnone : points.lookup ⟨"DOT"⟩ = none := by decide +kernel
  have hpoint : points.lookup ⟨"POINT"⟩ = some 20 := by decide +kernel
  have huser : ¬IsKernel 20 := by
    rintro ⟨k, hk⟩
    have hlt := k.id_lt
    rw [hk] at hlt
    exact absurd hlt (by decide)
  obtain ⟨next, hregister, hbound, hremove, _⟩ :=
    reachable_register_remove (c := 20) reachable_points hname hnone
  exact ⟨reachable_points, hnone, hpoint, next, hregister, hbound, hremove huser⟩

/-- A name that was given to a class of the kernel cannot be taken back. -/
theorem entity_not_removed :
    ∃ next, Reachable Limits.standard (fresh Limits.standard) ∧ IsClassName ⟨"ENTITY"⟩ ∧
      (fresh Limits.standard).lookup ⟨"ENTITY"⟩ = none ∧
      KernelClass.standardObject.id < (fresh Limits.standard).cells.length ∧
      (fresh Limits.standard).register ⟨"ENTITY"⟩ KernelClass.standardObject.id =
        .ok (none, next) ∧
      next.remove ⟨"ENTITY"⟩ = .error (.sealedClass ⟨"ENTITY"⟩) := by
  have hname : IsClassName ⟨"ENTITY"⟩ := ⟨by decide, by decide⟩
  have hnone : (fresh Limits.standard).lookup ⟨"ENTITY"⟩ = none := by decide +kernel
  refine ⟨(fresh Limits.standard).bind ⟨"ENTITY"⟩ KernelClass.standardObject.id, .fresh, hname,
    hnone, by decide +kernel, ?_, ?_⟩
  · rw [register_of_open hname (open_of_none hnone), hnone]
  · exact remove_of_sealed (lookup_bind_self _ _ _) (by decide +kernel)

end Metaobject.Registry
