import Metaobject.Image.Slots
import Metaobject.Proofs.Tables

/-!
# Access to slots

What an access by name does to an image: it brings the storage of the instance to the current layout
of the class, and then reads or changes one place of it.
-/

namespace Metaobject

namespace Action

variable {α β : Type} (m : Image)

@[simp] theorem runOn_pure (a : α) : (pure a : Action α).runOn m = (.ok a, m) := rfl

@[simp] theorem runOn_throw (f : Fault) : (throw f : Action α).runOn m = (.error f, m) := rfl

@[simp] theorem runOn_get : (get : Action Image).runOn m = (.ok m, m) := rfl

@[simp] theorem runOn_set (m' : Image) : (set m' : Action PUnit).runOn m = (.ok (), m') := rfl

@[simp] theorem runOn_modify (f : Image → Image) :
    (modify f : Action PUnit).runOn m = (.ok (), f m) := rfl

@[simp] theorem runOn_liftM (x : Except Fault α) : (liftM x : Action α).runOn m = (x, m) := by
  cases x <;> rfl

@[simp] theorem runOn_bind (a : Action α) (f : α → Action β) :
    (a >>= f).runOn m =
      match a.runOn m with
      | (.ok x, m') => (f x).runOn m'
      | (.error e, m') => (.error e, m') := by
  change (StateT.run (ExceptT.run a >>= ExceptT.bindCont f) m : Except Fault β × Image) = _
  change (match a.runOn m with
    | (x, m') => (ExceptT.bindCont f x).run m' : Except Fault β × Image) = _
  cases h : a.runOn m with
  | mk x m' => cases x <;> rfl

theorem runOn_bind_of_ok {m m' : Image} {a : Action α} {f : α → Action β} {x : α}
    (h : a.runOn m = (.ok x, m')) : (a >>= f).runOn m = (f x).runOn m' := by
  rw [runOn_bind, h]

@[simp] theorem runOn_map (a : Action α) (f : α → β) :
    (f <$> a).runOn m = ((a.runOn m).1.map f, (a.runOn m).2) := by
  change (a >>= fun x => pure (f x)).runOn m = _
  rw [runOn_bind]
  cases h : a.runOn m with
  | mk x m' => cases x <;> rfl

@[simp] theorem runOn_discard (a : Action α) :
    (discard a).runOn m = ((a.runOn m).1.map fun _ => (), (a.runOn m).2) :=
  runOn_map m a fun _ => ()

end Action

namespace Layout

variable {l : Layout} {n : Symbol} {index : Nat}

theorem findIdx?_slots : l.slots.findIdx? (fun s => s = n) = some index ↔
    l.slots[index]? = some n := by
  rw [List.findIdx?_eq_some_iff_getElem]
  constructor
  · rintro ⟨hlt, hn, _⟩
    rw [List.getElem?_eq_getElem hlt]
    simpa using hn
  · intro h
    obtain ⟨hlt, hn⟩ := List.getElem?_eq_some_iff.mp h
    refine ⟨hlt, by simpa using hn, ?_⟩
    intro j hj
    have hne : l.slots[j] ≠ n := by
      intro hjn
      have := (List.Nodup.getElem_inj_iff l.nodup).mp (hjn.trans hn.symm)
      omega
    simpa using hne

/-- The table of positions tells the place of a slot in the list. -/
theorem find?_positions (l : Layout) (n : Symbol) :
    l.positions.find? n = l.slots.findIdx? (fun s => s = n) := by
  have hkeys : (l.slots.zipIdx.map Prod.fst).Nodup := by
    rw [List.zipIdx_map_fst]
    exact l.nodup
  apply Option.ext
  intro index
  rw [positions, Table.find?_ofList hkeys, List.mem_zipIdx_iff_getElem?, findIdx?_slots]

theorem position?_eq_none : l.position? n = none ↔ n ∉ l.slots := by
  rw [position?, find?_positions, List.findIdx?_eq_none_iff]
  constructor
  · intro h hn
    simpa using h n hn
  · intro h s hs
    have hne : s ≠ n := fun hsn => h (hsn ▸ hs)
    simpa using hne

theorem position?_eq_some : l.position? n = some index ↔ l.slots[index]? = some n := by
  rw [position?, find?_positions, findIdx?_slots]

theorem contains_iff : l.contains n = true ↔ n ∈ l.slots := by
  rw [contains, Table.contains, Option.isSome_iff_ne_none]
  exact (not_congr position?_eq_none).trans not_not

theorem exists_position (hn : n ∈ l.slots) : ∃ index, l.position? n = some index := by
  cases h : l.position? n with
  | none => exact absurd hn (position?_eq_none.mp h)
  | some index => exact ⟨index, rfl⟩

theorem position_lt (h : l.position? n = some index) : index < l.length :=
  (List.getElem?_eq_some_iff.mp (position?_eq_some.mp h)).1

end Layout

namespace Storage

variable {s : Storage} {e : Edition} {n k : Symbol} {v : Option Value}

/-- The storage holds a place for each slot of its layout. -/
def Fits (s : Storage) : Prop := s.slots.length = s.layout.length

/-- The storage as it is under the current edition of the class. -/
def under (s : Storage) (e : Edition) : Storage :=
  if e.stamp = s.edition.stamp then s else s.migrate e

/-- The storage with another value in a slot, if it has that slot. -/
def assign (s : Storage) (n : Symbol) (v : Option Value) : Storage :=
  match s.layout.position? n with
  | some index => s.put index v
  | none => s

theorem fits_unbound (e : Edition) : (unbound e).Fits := by
  simp [Fits, unbound, layout]

theorem length_takeAll (s : Storage) (names : List Symbol) :
    (s.takeAll names).length = names.length := by
  induction names generalizing s with
  | nil => rfl
  | cons n names ih => simp [takeAll, ih]

theorem fits_migrate (s : Storage) (e : Edition) : (s.migrate e).Fits :=
  length_takeAll s e.layout.slots

theorem fits_under (h : s.Fits) (e : Edition) : (s.under e).Fits := by
  unfold under
  split
  · exact h
  · exact fits_migrate s e

theorem fits_put (h : s.Fits) (index : Nat) (v : Option Value) : (s.put index v).Fits := by
  rw [Fits, put, List.length_set]
  exact h

theorem edition_assign (s : Storage) (n : Symbol) (v : Option Value) :
    (s.assign n v).edition = s.edition := by
  unfold assign
  split <;> rfl

theorem assign_of_notMem (hn : n ∉ s.layout.slots) : s.assign n v = s := by
  rw [assign, Layout.position?_eq_none.mpr hn]

theorem fits_assign (h : s.Fits) (n : Symbol) (v : Option Value) : (s.assign n v).Fits := by
  unfold assign
  split
  · exact fits_put h _ v
  · exact h

theorem edition_under (h : e.stamp = s.edition.stamp → e = s.edition) :
    (s.under e).edition = e := by
  unfold under
  split
  · rename_i hstamp
    exact (h hstamp).symm
  · rfl

theorem value?_assign_self (h : s.Fits) (hn : n ∈ s.layout.slots) :
    (s.assign n v).value? n = v := by
  obtain ⟨index, hindex⟩ := Layout.exists_position hn
  have hlt : index < s.slots.length := by
    have := Layout.position_lt hindex
    rw [Fits] at h
    omega
  have hput : s.assign n v = s.put index v := by
    rw [assign, hindex]
  rw [hput]
  change (s.layout.position? n).bind (s.put index v).valueAt? = v
  simp [hindex, valueAt?, put, hlt]

theorem value?_assign_of_ne (hne : k ≠ n) : (s.assign n v).value? k = s.value? k := by
  unfold assign
  split
  · rename_i index hindex
    change (s.layout.position? k).bind (s.put index v).valueAt? = (s.layout.position? k).bind s.valueAt?
    cases hk : s.layout.position? k with
    | none => rfl
    | some place =>
      -- Other names are at other places, since a layout names no slot twice.
      have hplace : index ≠ place := by
        rintro rfl
        have hslot := Layout.position?_eq_some.mp hindex
        rw [Layout.position?_eq_some.mp hk] at hslot
        exact hne (Option.some.inj hslot)
      simp [valueAt?, put, List.getElem?_set_ne hplace]
  · rfl

theorem take_eq (s : Storage) (n : Symbol) : s.take n = (s.value? n, s.assign n none) := by
  rw [take, value?, assign]
  cases s.layout.position? n <;> rfl

/-- Each name is taken once, so that no value is missed for having been moved before. -/
theorem takeAll_eq_map {names : List Symbol} (h : names.Nodup) (s : Storage) :
    s.takeAll names = names.map s.value? := by
  induction names generalizing s with
  | nil => rfl
  | cons n names ih =>
    obtain ⟨hn, hnames⟩ := List.nodup_cons.mp h
    rw [takeAll, take_eq]
    dsimp only
    rw [ih hnames, List.map_cons]
    congr 1
    apply List.map_congr_left
    intro k hk
    have hne : k ≠ n := fun heq => hn (heq ▸ hk)
    exact value?_assign_of_ne hne

theorem slots_migrate (s : Storage) (e : Edition) :
    (s.migrate e).slots = e.layout.slots.map s.value? :=
  takeAll_eq_map e.layout.nodup s

theorem value?_migrate (hn : n ∈ e.layout.slots) : (s.migrate e).value? n = s.value? n := by
  obtain ⟨index, h⟩ := Layout.exists_position hn
  have hslot := Layout.position?_eq_some.mp h
  change (e.layout.position? n).bind (s.migrate e).valueAt? = _
  simp [h, valueAt?, slots_migrate, hslot]

theorem value?_under (hn : n ∈ e.layout.slots) : (s.under e).value? n = s.value? n := by
  unfold under
  split
  · rfl
  · exact value?_migrate hn

end Storage

namespace Image

variable {m : Image} {i j : InstanceId} {s s' : Storage}

@[simp] theorem registry_setStorage : (m.setStorage i s).registry = m.registry := rfl

@[simp] theorem length_setStorage : (m.setStorage i s).instances.length = m.instances.length :=
  List.length_modify ..

theorem object_setStorage_self (hi : i < m.instances.length) :
    (m.setStorage i s).object i = ⟨(m.object i).owner, s⟩ := by
  simp [object, setStorage, hi]

theorem object_setStorage_of_ne (hj : j ≠ i) : (m.setStorage i s).object j = m.object j := by
  simp [object, setStorage, List.getElem?_modify_ne _ _ (Ne.symm hj)]

@[simp] theorem owner_setStorage : ((m.setStorage i s).object j).owner = (m.object j).owner := by
  by_cases hj : j = i
  · subst hj
    by_cases hlt : j < m.instances.length
    · rw [object_setStorage_self hlt]
    · simp [object, setStorage, hlt]
  · rw [object_setStorage_of_ne hj]

theorem setStorage_setStorage : (m.setStorage i s).setStorage i s' = m.setStorage i s' := by
  simp [setStorage, List.modify_modify_eq, Function.comp_def]

theorem setStorage_self (m : Image) (i : InstanceId) :
    m.setStorage i (m.object i).storage = m := by
  have hsame : m.instances.modify i (fun o => { o with storage := (m.object i).storage }) =
      m.instances := by
    apply List.ext_getElem?
    intro j
    by_cases hj : j = i
    · subst hj
      cases h : m.instances[j]? with
      | none => simp [h]
      | some o => simp [h, object]
    · rw [List.getElem?_modify_ne _ _ (Ne.symm hj)]
  rw [setStorage, hsame]

end Image

namespace Action

variable {m : Image} {i : InstanceId} {e : Edition} (n : Symbol)

def updated (m : Image) (i : InstanceId) (e : Edition) : Image :=
  m.setStorage i ((m.object i).storage.under e)

theorem storage_updated (hi : i < m.instances.length) :
    ((updated m i e).object i).storage = (m.object i).storage.under e := by
  rw [updated, Image.object_setStorage_self hi]

theorem updateInstance_of_none (h : m.registry.edition? (m.object i).owner = none) :
    (updateInstance i).runOn m =
      (.error (.notFinalized (m.registry.describe (m.object i).owner)), m) := by
  rw [updateInstance, runOn_bind, runOn_get]
  simp [h]

theorem updateInstance_of_some (h : m.registry.edition? (m.object i).owner = some e) :
    (updateInstance i).runOn m =
      (.ok (decide (e.stamp ≠ (m.object i).storage.edition.stamp)), updated m i e) := by
  rw [updateInstance, runOn_bind, runOn_get]
  dsimp only
  rw [h]
  by_cases hstamp : e.stamp = (m.object i).storage.edition.stamp
  · have hsame : updated m i e = m := by
      rw [updated, Storage.under, if_pos hstamp, Image.setStorage_self]
    simp [hstamp, hsame]
  · simp [hstamp, updated, Storage.under]
    rfl

section Located

theorem locate_of_none {α : Type} (f : Nat → Action α)
    (h : m.registry.edition? (m.object i).owner = none) :
    (locate i n >>= f).runOn m =
      (.error (.notFinalized (m.registry.describe (m.object i).owner)), m) := by
  rw [runOn_bind, locate, runOn_bind, runOn_discard, updateInstance_of_none h]
  rfl

variable (hi : i < m.instances.length) (h : m.registry.edition? (m.object i).owner = some e)

include hi h

theorem runOn_locate :
    (locate i n).runOn m =
      (match ((m.object i).storage.under e).layout.position? n with
      | some index => .ok index
      | none => .error (.missingSlot n (m.registry.describe (m.object i).owner)), updated m i e) := by
  rw [locate, runOn_bind, runOn_discard, updateInstance_of_some h]
  simp only [Except.map, runOn_bind, runOn_get, storage_updated hi]
  cases ((m.object i).storage.under e).layout.position? n with
  | none => simp [updated]
  | some index => rfl

theorem locate_of_notMem {α : Type} (f : Nat → Action α)
    (hn : n ∉ ((m.object i).storage.under e).layout.slots) :
    (locate i n >>= f).runOn m =
      (.error (.missingSlot n (m.registry.describe (m.object i).owner)), updated m i e) := by
  rw [runOn_bind, runOn_locate n hi h, Layout.position?_eq_none.mpr hn]

theorem locate_of_mem (hn : n ∈ ((m.object i).storage.under e).layout.slots) :
    ∃ index, ((m.object i).storage.under e).layout.position? n = some index ∧
      (locate i n).runOn m = (.ok index, updated m i e) := by
  obtain ⟨index, hindex⟩ := Layout.exists_position hn
  refine ⟨index, hindex, ?_⟩
  rw [runOn_locate n hi h, hindex]

end Located

section Current

variable {n} (hi : i < m.instances.length) (h : m.registry.edition? (m.object i).owner = some e)

include hi h

theorem slotValue_of_mem (hn : n ∈ ((m.object i).storage.under e).layout.slots) :
    (slotValue i n).runOn m =
      (match ((m.object i).storage.under e).value? n with
      | some v => .ok v
      | none => .error (.unboundSlot n (m.describeObject i)), updated m i e) := by
  obtain ⟨index, hindex, hlocate⟩ := locate_of_mem n hi h hn
  rw [slotValue, runOn_bind, hlocate, Storage.value?, hindex, Option.bind_some]
  dsimp only
  rw [runOn_bind, runOn_get]
  dsimp only
  rw [storage_updated hi]
  cases ((m.object i).storage.under e).valueAt? index with
  | none => simp [updated, Image.describeObject]
  | some v => rfl

theorem isSlotBound_of_mem (hn : n ∈ ((m.object i).storage.under e).layout.slots) :
    (isSlotBound i n).runOn m =
      (.ok (((m.object i).storage.under e).value? n).isSome, updated m i e) := by
  obtain ⟨index, hindex, hlocate⟩ := locate_of_mem n hi h hn
  rw [isSlotBound, runOn_bind, hlocate, Storage.value?, hindex, Option.bind_some]
  dsimp only
  rw [runOn_bind, runOn_get]
  dsimp only
  rw [storage_updated hi]
  rfl

theorem putSlot_of_mem (hn : n ∈ ((m.object i).storage.under e).layout.slots) (v : Option Value) :
    (locate i n >>= fun index => putSlot i index v).runOn m =
      (.ok (), m.setStorage i (((m.object i).storage.under e).assign n v)) := by
  obtain ⟨index, hindex, hlocate⟩ := locate_of_mem n hi h hn
  rw [runOn_bind, hlocate, Storage.assign, hindex]
  dsimp only
  rw [putSlot, runOn_modify, storage_updated hi, updated, Image.setStorage_setStorage]

theorem runOn_hasSlot :
    (hasSlot i n).runOn m =
      (.ok (decide (n ∈ ((m.object i).storage.under e).layout.slots)), updated m i e) := by
  have hcontains : ∀ l : Layout, l.contains n = decide (n ∈ l.slots) := by
    intro l
    rw [Bool.eq_iff_iff, Layout.contains_iff, decide_eq_true_iff]
  rw [hasSlot, runOn_bind, runOn_discard, updateInstance_of_some h]
  simp only [Except.map, runOn_bind, runOn_get, runOn_pure, storage_updated hi, hcontains]

end Current

end Action

/-- An access to an instance by name, or its update to the current layout. -/
inductive NamedAccess
  | update
  | read (slot : Symbol)
  | write (slot : Symbol) (value : Value)
  | test (slot : Symbol)
  | clear (slot : Symbol)
  | find (slot : Symbol)
deriving Repr

inductive Answer
  | done
  | flag (holds : Bool)
  | value (v : Value)
deriving Repr

namespace NamedAccess

open Metaobject.Action

variable {m : Image} {i : InstanceId} {e : Edition}

def run (i : InstanceId) : NamedAccess → Action Answer
  | .update => Answer.flag <$> updateInstance i
  | .read n => Answer.value <$> slotValue i n
  | .write n v => (fun _ => Answer.done) <$> setSlotValue i n v
  | .test n => Answer.flag <$> isSlotBound i n
  | .clear n => (fun _ => Answer.done) <$> makeSlotUnbound i n
  | .find n => Answer.flag <$> hasSlot i n

/-- The slot that an access changes, and what it puts there. -/
def change? : NamedAccess → Option (Symbol × Option Value)
  | .write n v => some (n, some v)
  | .clear n => some (n, none)
  | .update | .read _ | .test _ | .find _ => none

/-- What an access leaves of the storage that it finds under the current layout. -/
def store (a : NamedAccess) (s : Storage) : Storage :=
  match a.change? with
  | some (n, v) => s.assign n v
  | none => s

theorem edition_store (a : NamedAccess) (s : Storage) : (a.store s).edition = s.edition := by
  unfold store
  split
  · exact Storage.edition_assign s _ _
  · rfl

theorem fits_store (a : NamedAccess) {s : Storage} (h : s.Fits) : (a.store s).Fits := by
  unfold store
  split
  · exact Storage.fits_assign h _ _
  · exact h

theorem run_of_none (a : NamedAccess) (h : m.registry.edition? (m.object i).owner = none) :
    (a.run i).runOn m = (.error (.notFinalized (m.registry.describe (m.object i).owner)), m) := by
  cases a with
  | update => rw [run, runOn_map, updateInstance_of_none h]; rfl
  | read n => rw [run, runOn_map, slotValue, locate_of_none n _ h]; rfl
  | write n v => rw [run, runOn_map, setSlotValue, locate_of_none n _ h]; rfl
  | test n => rw [run, runOn_map, isSlotBound, locate_of_none n _ h]; rfl
  | clear n => rw [run, runOn_map, makeSlotUnbound, locate_of_none n _ h]; rfl
  | find n =>
    rw [run, runOn_map, hasSlot, runOn_bind, runOn_discard, updateInstance_of_none h]
    rfl

def slot? : NamedAccess → Option Symbol
  | .read n | .write n _ | .test n | .clear n => some n
  | .update | .find _ => none

theorem run_of_notMem {a : NamedAccess} {n : Symbol} (ha : a.slot? = some n)
    (hi : i < m.instances.length) (h : m.registry.edition? (m.object i).owner = some e)
    (hn : n ∉ ((m.object i).storage.under e).layout.slots) :
    (a.run i).runOn m =
      (.error (.missingSlot n (m.registry.describe (m.object i).owner)), updated m i e) := by
  cases a with
  | update => contradiction
  | find k => contradiction
  | read k =>
    cases ha
    rw [run, runOn_map, slotValue, locate_of_notMem n hi h _ hn]
    rfl
  | write k v =>
    cases ha
    rw [run, runOn_map, setSlotValue, locate_of_notMem n hi h _ hn]
    rfl
  | test k =>
    cases ha
    rw [run, runOn_map, isSlotBound, locate_of_notMem n hi h _ hn]
    rfl
  | clear k =>
    cases ha
    rw [run, runOn_map, makeSlotUnbound, locate_of_notMem n hi h _ hn]
    rfl

theorem image_of_some (a : NamedAccess) (hi : i < m.instances.length)
    (h : m.registry.edition? (m.object i).owner = some e) :
    ((a.run i).runOn m).2 = m.setStorage i (a.store ((m.object i).storage.under e)) := by
  cases a with
  | update => rw [run, runOn_map, updateInstance_of_some h]; rfl
  | read n =>
    by_cases hn : n ∈ ((m.object i).storage.under e).layout.slots
    · rw [run, runOn_map, slotValue_of_mem hi h hn]
      rfl
    · rw [run_of_notMem rfl hi h hn]
      rfl
  | test n =>
    by_cases hn : n ∈ ((m.object i).storage.under e).layout.slots
    · rw [run, runOn_map, isSlotBound_of_mem hi h hn]
      rfl
    · rw [run_of_notMem rfl hi h hn]
      rfl
  | write n v =>
    by_cases hn : n ∈ ((m.object i).storage.under e).layout.slots
    · rw [run, runOn_map, setSlotValue, putSlot_of_mem hi h hn]
      rfl
    · rw [run_of_notMem rfl hi h hn]
      exact congrArg (m.setStorage i) (Storage.assign_of_notMem hn).symm
  | clear n =>
    by_cases hn : n ∈ ((m.object i).storage.under e).layout.slots
    · rw [run, runOn_map, makeSlotUnbound, putSlot_of_mem hi h hn]
      rfl
    · rw [run_of_notMem rfl hi h hn]
      exact congrArg (m.setStorage i) (Storage.assign_of_notMem hn).symm
  | find n => rw [run, runOn_map, runOn_hasSlot hi h]; rfl

def after (a : NamedAccess) (m : Image) (i : InstanceId) : Storage :=
  match m.registry.edition? (m.object i).owner with
  | some e => a.store ((m.object i).storage.under e)
  | none => (m.object i).storage

theorem image_run (a : NamedAccess) (hi : i < m.instances.length) :
    ((a.run i).runOn m).2 = m.setStorage i (a.after m i) := by
  unfold after
  cases h : m.registry.edition? (m.object i).owner with
  | none => rw [run_of_none a h, Image.setStorage_self]
  | some e => exact image_of_some a hi h

end NamedAccess

namespace Action

variable {m : Image} {i : InstanceId}

@[simp] theorem image_slotAt (index : Nat) : ((slotAt i index).runOn m).2 = m := by
  rw [slotAt, runOn_bind, runOn_get]
  dsimp only
  cases (m.object i).storage.slots[index]? with
  | none => simp
  | some v => rfl

theorem image_setSlotAt (index : Nat) (v : Value) :
    ((setSlotAt i index v).runOn m).2 =
      m.setStorage i ((m.object i).storage.put index (some v)) := by
  rw [setSlotAt, runOn_bind, runOn_discard, slotAt, runOn_bind, runOn_get]
  dsimp only
  by_cases hlt : index < (m.object i).storage.slots.length
  · rw [List.getElem?_eq_getElem hlt]
    rfl
  · have hput : (m.object i).storage.put index (some v) = (m.object i).storage := by
      rw [Storage.put, List.set_eq_of_length_le (Nat.le_of_not_lt hlt)]
    rw [hput, Image.setStorage_self, List.getElem?_eq_none (Nat.le_of_not_lt hlt)]
    simp [Except.map]

end Action

end Metaobject
