import Metaobject.Proofs.Session

/-!
# Slots by name

Seen by name, an instance is a map from the slots that its class has now to their values, some of them
unbound. Under which layout the instance is stored makes no difference to this map, and every access
by name is one to the map.
-/

namespace Metaobject

/-- The slots of an instance by name: there is none, it is unbound, or it has a value. -/
abbrev Contents := Symbol → Option (Option Value)

def Storage.stored (s : Storage) (n : Symbol) : Option Value :=
  (Table.findIn n (s.layout.slots.zip s.slots)).join

/-- For the slots of the current layout, what the instance has stored under their names. -/
def Image.contents (m : Image) (i : InstanceId) : Contents := fun n =>
  match m.registry.layout (m.object i).owner with
  | some l => if n ∈ l.slots then some ((m.object i).storage.stored n) else none
  | none => none

/-- The access as one to a map of slots. The image serves to describe the instance in faults. -/
def NamedAccess.onContents (m : Image) (i : InstanceId) (slots : Contents) :
    NamedAccess → Except Fault Answer × Contents
  | .update => (.ok (.flag (m.isObsolete i)), slots)
  | .find n => (.ok (.flag (slots n).isSome), slots)
  | .read n =>
    match slots n with
    | none => (.error (.missingSlot n (m.registry.describe (m.object i).owner)), slots)
    | some none => (.error (.unboundSlot n (m.describeObject i)), slots)
    | some (some v) => (.ok (.value v), slots)
  | .test n =>
    match slots n with
    | none => (.error (.missingSlot n (m.registry.describe (m.object i).owner)), slots)
    | some v => (.ok (.flag v.isSome), slots)
  | .write n v =>
    match slots n with
    | none => (.error (.missingSlot n (m.registry.describe (m.object i).owner)), slots)
    | some _ => (.ok .done, Function.update slots n (some (some v)))
  | .clear n =>
    match slots n with
    | none => (.error (.missingSlot n (m.registry.describe (m.object i).owner)), slots)
    | some _ => (.ok .done, Function.update slots n (some none))

theorem findIn_zip (n : Symbol) (names : List Symbol) (values : List (Option Value)) :
    Table.findIn n (names.zip values) = (names.findIdx? (· = n)).bind (values[·]?) := by
  induction names generalizing values with
  | nil => rfl
  | cons k names ih =>
    cases values with
    | nil =>
      cases (k :: names).findIdx? (· = n) <;> rfl
    | cons v values =>
      rw [List.zip_cons_cons, Table.findIn, List.findIdx?_cons]
      by_cases hk : k = n
      · simp [hk]
      · simp only [hk, if_false, decide_false, ih]
        cases names.findIdx? (· = n) <;> simp

theorem Storage.stored_eq_value? (s : Storage) (n : Symbol) : s.stored n = s.value? n := by
  rw [Storage.stored, findIn_zip, Storage.value?, Layout.position?,
    Layout.find?_positions]
  cases s.layout.slots.findIdx? (· = n) <;> rfl

theorem Registry.edition?_eq_map (r : Registry) (c : ClassId) :
    r.edition? c = (r.layout c).map (Edition.mk (r.snapshot c).stamp) := rfl

theorem Registry.edition?_of_layout {r : Registry} {c : ClassId} {l : Layout}
    (h : r.layout c = some l) : r.edition? c = some ⟨(r.snapshot c).stamp, l⟩ := by
  rw [edition?_eq_map, h, Option.map_some]

theorem Registry.edition?_of_layout_none {r : Registry} {c : ClassId} (h : r.layout c = none) :
    r.edition? c = none := by
  rw [edition?_eq_map, h, Option.map_none]

theorem Registry.layout_of_edition? {r : Registry} {c : ClassId} {e : Edition}
    (h : r.edition? c = some e) : r.layout c = some e.layout := by
  rw [edition?_eq_map] at h
  obtain ⟨l, hl, rfl⟩ := Option.map_eq_some_iff.mp h
  exact hl

structure Image.Current (m : Image) (i : InstanceId) (e : Edition) : Prop where
  lt : i < m.instances.length
  edition : m.registry.edition? (m.object i).owner = some e
  stored : m.registry.Stored (m.object i).storage

theorem Image.exists_current {m : Image} {i : InstanceId} {l : Layout}
    (hi : i < m.instances.length) (hstored : m.registry.Stored (m.object i).storage)
    (hl : m.registry.layout (m.object i).owner = some l) :
    ∃ e : Edition, e.layout = l ∧ m.Current i e :=
  ⟨_, rfl, hi, Registry.edition?_of_layout hl, hstored⟩

namespace Image.Current

open Metaobject.Action

variable {m : Image} {i : InstanceId} {e : Edition} {n : Symbol} (h : m.Current i e)

include h

theorem layout : m.registry.layout (m.object i).owner = some e.layout :=
  Registry.layout_of_edition? h.edition

theorem layout_under : ((m.object i).storage.under e).layout = e.layout :=
  congrArg Edition.layout (h.stored.edition_under h.edition)

theorem contents_setStorage (s : Storage) :
    (m.setStorage i s).contents i =
      fun n => if n ∈ e.layout.slots then some (s.value? n) else none := by
  funext n
  rw [contents, registry_setStorage, owner_setStorage, h.layout, object_setStorage_self h.lt]
  dsimp only
  rw [Storage.stored_eq_value?]

theorem contents_eq :
    m.contents i =
      fun n => if n ∈ e.layout.slots then some ((m.object i).storage.value? n) else none := by
  have hself := h.contents_setStorage (m.object i).storage
  rwa [setStorage_self] at hself

theorem contents_updated : (updated m i e).contents i = m.contents i := by
  rw [updated, h.contents_setStorage, h.contents_eq]
  funext n
  by_cases hn : n ∈ e.layout.slots
  · rw [if_pos hn, if_pos hn, Storage.value?_under hn]
  · rw [if_neg hn, if_neg hn]

theorem contents_of_mem (hn : n ∈ e.layout.slots) :
    m.contents i n = some (((m.object i).storage.under e).value? n) := by
  rw [h.contents_eq]
  dsimp only
  rw [if_pos hn, Storage.value?_under hn]

theorem contents_of_notMem (hn : n ∉ e.layout.slots) : m.contents i n = none := by
  rw [h.contents_eq]
  exact if_neg hn

theorem contents_assign (hn : n ∈ e.layout.slots) (v : Option Value) :
    (m.setStorage i (((m.object i).storage.under e).assign n v)).contents i =
      Function.update (m.contents i) n (some v) := by
  have hfits := Storage.fits_under h.stored.fits e
  have hmem : n ∈ ((m.object i).storage.under e).layout.slots := by
    rwa [h.layout_under]
  rw [h.contents_setStorage]
  funext k
  by_cases hkn : k = n
  · subst hkn
    rw [Function.update_self, if_pos hn, Storage.value?_assign_self hfits hmem]
  · rw [Function.update_of_ne hkn, Storage.value?_assign_of_ne hkn]
    by_cases hk : k ∈ e.layout.slots
    · rw [if_pos hk, h.contents_of_mem hk]
    · rw [if_neg hk, h.contents_of_notMem hk]

theorem mem_under : n ∈ ((m.object i).storage.under e).layout.slots ↔ n ∈ e.layout.slots := by
  rw [h.layout_under]

theorem run_missing {a : NamedAccess} (ha : a.slot? = some n) (hn : n ∉ e.layout.slots) :
    (a.run i).runOn m =
      (.error (.missingSlot n (m.registry.describe (m.object i).owner)), updated m i e) :=
  NamedAccess.run_of_notMem ha h.lt h.edition (mt h.mem_under.mp hn)

theorem run_update :
    (updateInstance i).runOn m = (.ok (m.isObsolete i), updated m i e) := by
  rw [updateInstance_of_some h.edition, isObsolete, h.edition]

/-- One square for each access: what it answers, and the contents that it leaves. -/
theorem run_eq_onContents (a : NamedAccess) :
    (((a.run i).runOn m).1, ((a.run i).runOn m).2.contents i) =
      a.onContents m i (m.contents i) := by
  have hupdated := h.contents_updated
  cases a with
  | update =>
    rw [NamedAccess.run, runOn_map, h.run_update, NamedAccess.onContents, hupdated]
    rfl
  | find n =>
    rw [NamedAccess.run, runOn_map, runOn_hasSlot h.lt h.edition, NamedAccess.onContents, hupdated]
    by_cases hn : n ∈ e.layout.slots
    · simp [h.layout_under, hn, h.contents_of_mem hn, Except.map]
    · simp [h.layout_under, hn, h.contents_of_notMem hn, Except.map]
  | read n =>
    rw [NamedAccess.onContents]
    by_cases hn : n ∈ e.layout.slots
    · rw [NamedAccess.run, runOn_map, h.contents_of_mem hn,
        slotValue_of_mem h.lt h.edition (h.mem_under.mpr hn), hupdated]
      cases ((m.object i).storage.under e).value? n <;> rfl
    · rw [h.run_missing rfl hn, h.contents_of_notMem hn, hupdated]
  | test n =>
    rw [NamedAccess.onContents]
    by_cases hn : n ∈ e.layout.slots
    · rw [NamedAccess.run, runOn_map, h.contents_of_mem hn,
        isSlotBound_of_mem h.lt h.edition (h.mem_under.mpr hn), hupdated]
      rfl
    · rw [h.run_missing rfl hn, h.contents_of_notMem hn, hupdated]
  | write n v =>
    rw [NamedAccess.onContents]
    by_cases hn : n ∈ e.layout.slots
    · rw [NamedAccess.run, runOn_map, setSlotValue, h.contents_of_mem hn,
        putSlot_of_mem h.lt h.edition (h.mem_under.mpr hn), h.contents_assign hn]
      rfl
    · rw [h.run_missing rfl hn, h.contents_of_notMem hn, hupdated]
  | clear n =>
    rw [NamedAccess.onContents]
    by_cases hn : n ∈ e.layout.slots
    · rw [NamedAccess.run, runOn_map, makeSlotUnbound, h.contents_of_mem hn,
        putSlot_of_mem h.lt h.edition (h.mem_under.mpr hn), h.contents_assign hn]
      rfl
    · rw [h.run_missing rfl hn, h.contents_of_notMem hn, hupdated]

theorem edition_after (a : NamedAccess) : (a.after m i).edition = e := by
  rw [NamedAccess.after, h.edition]
  exact (a.edition_store _).trans (h.stored.edition_under h.edition)

theorem update_after (a : NamedAccess) :
    (updateInstance i).runOn ((a.run i).runOn m).2 = (.ok false, ((a.run i).runOn m).2) := by
  have himage := a.image_run h.lt
  have hstorage : (((a.run i).runOn m).2.object i).storage = a.after m i := by
    rw [himage, object_setStorage_self h.lt]
  have hedition : ((a.run i).runOn m).2.registry.edition?
      (((a.run i).runOn m).2.object i).owner = some e := by
    rw [himage, registry_setStorage, owner_setStorage]
    exact h.edition
  have hsame : updated ((a.run i).runOn m).2 i e = ((a.run i).runOn m).2 := by
    rw [updated, Storage.under, hstorage, h.edition_after a, if_pos rfl, ← hstorage,
      setStorage_self]
  rw [updateInstance_of_some hedition, hsame, hstorage, h.edition_after a]
  simp

end Image.Current

open Metaobject.Action in
/-- Access by name is access to a map from the slots of the current layout to their values, and which
layout the instance is stored under cannot be seen in it. Without a current layout nothing can be
accessed, and nothing changes. -/
theorem Session.reachable_named_access {limits : Limits} {s : Session} {i : InstanceId}
    (h : Reachable limits s) (hi : i < s.image.instances.length) (a : NamedAccess) :
    (∀ l, s.image.registry.layout (s.image.object i).owner = some l →
      (((a.run i).runOn s.image).1, ((a.run i).runOn s.image).2.contents i) =
          a.onContents s.image i (s.image.contents i) ∧
        (updateInstance i).runOn ((a.run i).runOn s.image).2 =
          (.ok false, ((a.run i).runOn s.image).2) ∧
        ∃ storage, ((a.run i).runOn s.image).2 = s.image.setStorage i storage) ∧
    (s.image.registry.layout (s.image.object i).owner = none →
      (a.run i).runOn s.image =
        (.error (.notFinalized (s.image.registry.describe (s.image.object i).owner)), s.image)) := by
  have hstored := h.invariant.stored i hi
  constructor
  · intro l hl
    obtain ⟨e, rfl, hcurrent⟩ := Image.exists_current hi hstored hl
    exact ⟨hcurrent.run_eq_onContents a, hcurrent.update_after a, _, a.image_run hi⟩
  · intro hl
    apply a.run_of_none
    rw [Registry.edition?_eq_map, hl, Option.map_none]

namespace Session

def obsoletePoint : Session :=
  (fresh Limits.standard).performAll
    [.classes (.define .point), .hold 20, .allocate 0 20,
      .access 0 (.write ⟨"X"⟩ (.integer 1)),
      .classes (.define ⟨⟨"POINT"⟩, [], [⟨"Z"⟩, ⟨"X"⟩], none⟩)]

theorem reachable_obsoletePoint : Reachable Limits.standard obsoletePoint :=
  Reachable.fresh.performAll (by decide +kernel)

theorem obsoletePoint_named_access :
    Reachable Limits.standard obsoletePoint ∧ 0 < obsoletePoint.image.instances.length ∧
      obsoletePoint.image.isObsolete 0 ∧
      (((NamedAccess.read ⟨"X"⟩).run 0).runOn obsoletePoint.image).1 = .ok (.value (.integer 1)) ∧
      (((NamedAccess.read ⟨"Y"⟩).run 0).runOn obsoletePoint.image).1 =
        .error (.missingSlot ⟨"Y"⟩ "#<STANDARD-CLASS POINT>") := by
  obtain ⟨hlt, hobsolete, hfinalized, hlabel, hx, hy⟩ :
      0 < obsoletePoint.image.instances.length ∧ obsoletePoint.image.isObsolete 0 = true ∧
        (obsoletePoint.image.registry.layout (obsoletePoint.image.object 0).owner).isSome = true ∧
        obsoletePoint.image.registry.describe (obsoletePoint.image.object 0).owner =
          "#<STANDARD-CLASS POINT>" ∧
        ((obsoletePoint.image.contents 0 ⟨"X"⟩).map (Option.map (Value.equal (.integer 1)))) =
          some (some true) ∧
        ((obsoletePoint.image.contents 0 ⟨"Y"⟩).isSome) = false := by
    decide +kernel
  obtain ⟨l, hl⟩ := Option.isSome_iff_exists.mp hfinalized
  refine ⟨reachable_obsoletePoint, hlt, hobsolete, ?_, ?_⟩
  · obtain ⟨hcurrent, _⟩ := reachable_named_access reachable_obsoletePoint hlt (.read ⟨"X"⟩)
    have hvalue : obsoletePoint.image.contents 0 ⟨"X"⟩ = some (some (.integer 1)) := by
      simp only [Option.map_eq_some_iff] at hx
      obtain ⟨_, hcell, v, rfl, hv⟩ := hx
      rw [hcell]
      cases v <;> simp_all [Value.equal]
    have hanswer := congrArg Prod.fst (hcurrent l hl).1
    rw [NamedAccess.onContents, hvalue] at hanswer
    exact hanswer
  · obtain ⟨hcurrent, _⟩ := reachable_named_access reachable_obsoletePoint hlt (.read ⟨"Y"⟩)
    have hnone : obsoletePoint.image.contents 0 ⟨"Y"⟩ = none := by
      simpa using hy
    have hanswer := congrArg Prod.fst (hcurrent l hl).1
    rw [NamedAccess.onContents, hnone, hlabel] at hanswer
    exact hanswer

end Session

end Metaobject
