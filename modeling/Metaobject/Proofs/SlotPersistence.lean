import Metaobject.Proofs.NamedSlots

/-!
# Slots keep their values

A slot that has a value keeps it as long as nothing writes to the slot, whatever happens to the class of
the instance, if only no access moves the instance to a layout without the slot.
-/

namespace Metaobject

theorem NamedAccess.value?_store {a : NamedAccess} {slot : Symbol}
    (h : ∀ p ∈ a.change?, p.1 ≠ slot) (s : Storage) : (a.store s).value? slot = s.value? slot := by
  unfold NamedAccess.store
  split
  · rename_i n v hchange
    exact Storage.value?_assign_of_ne (Ne.symm (h (n, v) hchange))
  · rfl

namespace Session

variable {limits : Limits} {s t : Session} {cmd : Command} {i : InstanceId} {slot : Symbol}
  {v : Value} {l : Layout}

/-- The step does not write to the slot of the instance, neither by name nor by position, and an access
by name finds the slot in the layout of the class if there is one. -/
def Spares (s : Session) (i : InstanceId) (slot : Symbol) : Command → Prop
  | .access j a => j = i → (∀ p ∈ a.change?, p.1 ≠ slot) ∧
      ∀ l ∈ s.image.registry.layout (s.image.object i).owner, slot ∈ l.slots
  | .writeAt j _ _ => j ≠ i
  | _ => True

instance (s : Session) (i : InstanceId) (slot : Symbol) (cmd : Command) :
    Decidable (s.Spares i slot cmd) :=
  match cmd with
  | .access j a => inferInstanceAs (Decidable (j = i → (∀ p ∈ a.change?, p.1 ≠ slot) ∧
      ∀ l ∈ s.image.registry.layout (s.image.object i).owner, slot ∈ l.slots))
  | .writeAt j _ _ => inferInstanceAs (Decidable (j ≠ i))
  | .classes _ | .hold _ | .allocate _ _ | .readAt _ _ | .functions .. => isTrue trivial

inductive Sparing (i : InstanceId) (slot : Symbol) : Session → Session → Prop
  | refl {s : Session} : Sparing i slot s s
  | tail {s t : Session} {cmd : Command} : Sparing i slot s t →
      t.Allowed cmd ∧ t.Spares i slot cmd → Sparing i slot s (t.perform cmd)

theorem Sparing.performAll {cmds : List Command} (h : Sparing i slot s t)
    (hsteps : t.AllSteps (fun t cmd => t.Allowed cmd ∧ t.Spares i slot cmd) cmds) :
    Sparing i slot s (t.performAll cmds) := by
  induction cmds generalizing t with
  | nil => exact h
  | cons cmd rest ih => exact ih (h.tail hsteps.1) hsteps.2

theorem value?_after {a : NamedAccess} (hchange : ∀ p ∈ a.change?, p.1 ≠ slot)
    (hslot : ∀ l ∈ s.image.registry.layout (s.image.object i).owner, slot ∈ l.slots) :
    (a.after s.image i).value? slot = (s.image.object i).storage.value? slot := by
  unfold NamedAccess.after
  split
  · rename_i e he
    rw [NamedAccess.value?_store hchange]
    apply Storage.value?_under
    apply hslot
    obtain ⟨l, hl, rfl⟩ := Option.map_eq_some_iff.mp he
    exact hl
  · rfl

theorem value?_perform (ha : s.Allowed cmd) (hi : i < s.image.instances.length)
    (hspares : s.Spares i slot cmd) :
    ((s.perform cmd).image.object i).storage.value? slot =
      (s.image.object i).storage.value? slot := by
  rcases object_perform ha hi with hsame | ⟨a, rfl, hobject⟩ | ⟨index, v, rfl, _⟩
  · rw [hsame]
  · obtain ⟨hchange, hslot⟩ := hspares rfl
    rw [hobject]
    exact value?_after hchange hslot
  · exact absurd rfl hspares

/-- A run that spares the slot leaves its value, and all that holds of sessions. -/
theorem Sparing.value? (h : Sparing i slot s t) (hinv : s.Invariant)
    (hi : i < s.image.instances.length) :
    t.Invariant ∧ i < t.image.instances.length ∧
      (t.image.object i).storage.value? slot = (s.image.object i).storage.value? slot := by
  induction h with
  | refl => exact ⟨hinv, hi, rfl⟩
  | tail _ hstep ih =>
    obtain ⟨ha, hspares⟩ := hstep
    obtain ⟨hinv, hlt, hvalue⟩ := ih
    refine ⟨hinv.perform ha, ?_, ?_⟩
    · have hlength := length_perform ha
      exact Nat.lt_of_lt_of_le hlt hlength
    · rw [value?_perform ha hlt hspares, hvalue]

theorem Invariant.value?_write (h : s.Invariant) (hi : i < s.image.instances.length)
    (hset : ((Action.setSlotValue i slot v).runOn s.image).1 = .ok ()) :
    ((s.perform (.access i (.write slot v))).image.object i).storage.value? slot = some v := by
  rw [Action.setSlotValue] at hset
  cases he : s.image.registry.edition? (s.image.object i).owner with
  | none =>
    rw [Action.locate_of_none slot _ he] at hset
    contradiction
  | some e =>
    by_cases hn : slot ∈ ((s.image.object i).storage.under e).layout.slots
    · have hfits := Storage.fits_under (h.stored i hi).fits e
      rw [image_access _ hi, Image.object_setStorage_self hi, NamedAccess.after, he]
      exact Storage.value?_assign_self hfits hn
    · rw [Action.locate_of_notMem slot hi he _ hn] at hset
      contradiction

/-- A value that is written is read again after any run that spares the slot, however often the class
was redefined on the way, if the class has the slot then. -/
theorem reachable_slot_persists (h : Reachable limits s) (hi : i < s.image.instances.length)
    (hset : ((Action.setSlotValue i slot v).runOn s.image).1 = .ok ())
    (hrun : Sparing i slot (s.perform (.access i (.write slot v))) t)
    (hl : t.image.registry.layout (t.image.object i).owner = some l) (hslot : slot ∈ l.slots) :
    ((Action.slotValue i slot).runOn t.image).1 = .ok v := by
  have hwrite : s.Allowed (.access i (.write slot v)) := hi
  have hstart := h.invariant.perform hwrite
  have hlength := length_perform hwrite
  obtain ⟨hinv, hlt, hvalue⟩ := hrun.value? hstart (Nat.lt_of_lt_of_le hi hlength)
  rw [h.invariant.value?_write hi hset] at hvalue
  obtain ⟨e, rfl, hcurrent⟩ := Image.exists_current hlt (hinv.stored i hlt) hl
  rw [Action.slotValue_of_mem hlt hcurrent.edition (hcurrent.mem_under.mpr hslot),
    Storage.value?_under hslot, hvalue]

def newPoint : Session :=
  (fresh Limits.standard).performAll [.classes (.define .point), .hold 20, .allocate 0 20]

/-- The instance after its class waited for a superclass, and after it was defined once more. -/
def travelledPoint : Session :=
  (newPoint.perform (.access 0 (.write ⟨"X"⟩ (.integer 1)))).performAll
    [.classes (.define ⟨⟨"POINT"⟩, [⟨"PLACE"⟩], [⟨"Z"⟩, ⟨"X"⟩], none⟩), .access 0 (.read ⟨"X"⟩),
      .classes (.define ⟨⟨"PLACE"⟩, [], [⟨"NAME"⟩], none⟩), .access 0 (.write ⟨"Z"⟩ (.integer 2)),
      .classes (.define .point)]

theorem sparing_travelledPoint :
    Sparing 0 ⟨"X"⟩ (newPoint.perform (.access 0 (.write ⟨"X"⟩ (.integer 1)))) travelledPoint :=
  Sparing.refl.performAll (by decide +kernel)

theorem travelledPoint_slot_persists :
    Reachable Limits.standard newPoint ∧ 0 < newPoint.image.instances.length ∧
      Sparing 0 ⟨"X"⟩ (newPoint.perform (.access 0 (.write ⟨"X"⟩ (.integer 1)))) travelledPoint ∧
      travelledPoint.image.isObsolete 0 ∧
      ((Action.slotValue 0 ⟨"X"⟩).runOn travelledPoint.image).1 = .ok (.integer 1) := by
  have hreachable : Reachable Limits.standard newPoint := Reachable.fresh.performAll (by decide +kernel)
  obtain ⟨hlt, hok, hobsolete, hfinalized, hmem⟩ :
      0 < newPoint.image.instances.length ∧
        ((Action.setSlotValue 0 ⟨"X"⟩ (.integer 1)).runOn newPoint.image).1.toOption = some () ∧
        travelledPoint.image.isObsolete 0 = true ∧
        (travelledPoint.image.registry.layout (travelledPoint.image.object 0).owner).isSome = true ∧
        ∀ l ∈ travelledPoint.image.registry.layout (travelledPoint.image.object 0).owner,
          (⟨"X"⟩ : Symbol) ∈ l.slots := by
    decide +kernel
  have hset : ((Action.setSlotValue 0 ⟨"X"⟩ (.integer 1)).runOn newPoint.image).1 = .ok () := by
    cases h : ((Action.setSlotValue 0 ⟨"X"⟩ (.integer 1)).runOn newPoint.image).1 with
    | ok _ => rfl
    | error f =>
      rw [h] at hok
      contradiction
  obtain ⟨l, hl⟩ := Option.isSome_iff_exists.mp hfinalized
  exact ⟨hreachable, hlt, sparing_travelledPoint, hobsolete,
    reachable_slot_persists hreachable hlt hset sparing_travelledPoint hl (hmem l hl)⟩

end Session

end Metaobject
