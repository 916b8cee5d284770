import Metaobject.Proofs.BuiltLayouts
import Metaobject.Proofs.Session

/-!
# Places within bounds

Access by name and migration take the place of a slot from the table of a layout, and use it without
looking whether the storage has it. Here they are done with every place checked when it is used, and
break off where there is none. They never do, however often classes were redefined.
-/

namespace Metaobject

namespace Storage

variable {s : Storage} {e : Edition} {n : Symbol} {index : Nat}

section Checked

def fetch? (s : Storage) (index : Nat) : Option (Option Value) := s.slots[index]?

def put? (s : Storage) (index : Nat) (v : Option Value) : Option Storage :=
  if index < s.slots.length then some (s.put index v) else none

def take? (s : Storage) (name : Symbol) : Option (Option Value × Storage) :=
  match s.layout.positions.find? name with
  | some index => do
    let value ← s.fetch? index
    let s ← s.put? index none
    return (value, s)
  | none => some (none, s)

def takeAll? : Storage → List Symbol → Option (List (Option Value))
  | _, [] => some []
  | s, name :: rest => do
    let (value, s) ← s.take? name
    return value :: (← s.takeAll? rest)

def migrate? (s : Storage) (e : Edition) : Option Storage :=
  (s.takeAll? e.layout.slots).map (Storage.mk e)

end Checked

theorem Fits.lt_of_positions (h : s.Fits) (hn : s.layout.positions.find? n = some index) :
    index < s.slots.length := by
  have := Layout.position_lt hn
  unfold Fits at h
  omega

theorem fetch?_of_lt (h : index < s.slots.length) : s.fetch? index = some (s.valueAt? index) := by
  simp [fetch?, valueAt?, h]

theorem put?_of_lt (h : index < s.slots.length) (v : Option Value) :
    s.put? index v = some (s.put index v) :=
  if_pos h

theorem take?_eq (h : s.Fits) (n : Symbol) : s.take? n = some (s.take n) := by
  rw [take?, take, Layout.position?]
  cases hn : s.layout.positions.find? n with
  | none => rfl
  | some index =>
    have hlt : index < s.slots.length := h.lt_of_positions hn
    simp [fetch?_of_lt hlt, put?_of_lt hlt]

theorem fits_take (h : s.Fits) (n : Symbol) : (s.take n).2.Fits := by
  rw [take_eq]
  exact fits_assign h n none

/-- Values that are moved out leave their places behind, so that the next places are there as well. -/
theorem takeAll?_eq (h : s.Fits) (names : List Symbol) :
    s.takeAll? names = some (s.takeAll names) := by
  induction names generalizing s with
  | nil => rfl
  | cons n names ih => simp [takeAll?, takeAll, take?_eq h, ih (fits_take h n)]

theorem migrate?_eq (h : s.Fits) (e : Edition) : s.migrate? e = some (s.migrate e) := by
  simp [migrate?, migrate, takeAll?_eq h]

end Storage

/-- An action that breaks off, without any answer, where a place is used that is not there. -/
abbrev CheckedAction := ExceptT Fault (StateT Image Option)

namespace CheckedAction

section Accesses

def updateInstance (i : InstanceId) : CheckedAction Bool := do
  let m ← get
  let o := m.object i
  match m.registry.edition? o.owner with
  | none => throw (.notFinalized (m.registry.describe o.owner))
  | some e =>
    if e.stamp = o.storage.edition.stamp then return false
    set (m.setStorage i (← o.storage.migrate? e))
    return true

def locate (i : InstanceId) (slot : Symbol) : CheckedAction Nat := do
  discard (updateInstance i)
  let m ← get
  let o := m.object i
  match o.storage.layout.positions.find? slot with
  | some index => return index
  | none => throw (.missingSlot slot (m.registry.describe o.owner))

def putSlot (i : InstanceId) (index : Nat) (value : Option Value) : CheckedAction Unit := do
  let m ← get
  set (m.setStorage i (← (m.object i).storage.put? index value))

def slotValue (i : InstanceId) (slot : Symbol) : CheckedAction Value := do
  let index ← locate i slot
  let m ← get
  match ← (m.object i).storage.fetch? index with
  | some value => return value
  | none => throw (.unboundSlot slot (m.describeObject i))

def setSlotValue (i : InstanceId) (slot : Symbol) (value : Value) : CheckedAction Unit := do
  putSlot i (← locate i slot) (some value)

def isSlotBound (i : InstanceId) (slot : Symbol) : CheckedAction Bool := do
  let index ← locate i slot
  return (← ((← get).object i).storage.fetch? index).isSome

def makeSlotUnbound (i : InstanceId) (slot : Symbol) : CheckedAction Unit := do
  putSlot i (← locate i slot) none

def hasSlot (i : InstanceId) (slot : Symbol) : CheckedAction Bool := do
  discard (updateInstance i)
  return (((← get).object i).storage.layout.positions.find? slot).isSome

end Accesses

variable {α β : Type} {m : Image} {i : InstanceId}

def runOn (c : CheckedAction α) (m : Image) : Option (Except Fault α × Image) := c.run.run m

/-- On this image, the checked action does what the action does and does not break off. -/
def Follows (c : CheckedAction α) (a : Action α) (m : Image) : Prop :=
  c.runOn m = some (a.runOn m)

section Following

theorem follows_pure (x : α) (m : Image) : Follows (pure x) (pure x) m := rfl

theorem follows_throw (f : Fault) (m : Image) : Follows (throw f : CheckedAction α) (throw f) m := rfl

theorem follows_get (m : Image) : Follows get get m := rfl

theorem follows_set (m' m : Image) : Follows (set m') (set m') m := rfl

theorem Follows.bind {c : CheckedAction α} {a : Action α} {g : α → CheckedAction β}
    {f : α → Action β} (h : Follows c a m)
    (hnext : ∀ x m', a.runOn m = (.ok x, m') → Follows (g x) (f x) m') :
    Follows (c >>= g) (a >>= f) m := by
  have hbind : (c >>= g).runOn m = (c.runOn m).bind fun p => (ExceptT.bindCont g p.1).run p.2 := rfl
  rw [Follows, hbind, h, Option.bind_some, Action.runOn_bind]
  cases hrun : a.runOn m with
  | mk x m' =>
    cases x with
    | error f => rfl
    | ok x => exact hnext x m' hrun

theorem Follows.present {x : Option α} {v : α} {g : α → CheckedAction β} {a : Action β}
    (hx : x = some v) (h : Follows (g v) a m) : Follows (liftM x >>= g) a m := by
  subst hx
  exact h

theorem Follows.map {c : CheckedAction α} {a : Action α} (h : Follows c a m) (g : α → β) :
    Follows (g <$> c) (g <$> a) m :=
  h.bind fun x m' _ => follows_pure (g x) m'

end Following

section Bounds

variable {m' : Image} {index : Nat} {n : Symbol} {v : Option Value} {moved : Bool}

theorem fits_of_updateInstance (hi : i < m.instances.length) (h : (m.object i).storage.Fits)
    (hrun : (Action.updateInstance i).runOn m = (.ok moved, m')) : (m'.object i).storage.Fits := by
  cases he : m.registry.edition? (m.object i).owner with
  | none =>
    rw [Action.updateInstance_of_none he] at hrun
    cases hrun
  | some e =>
    rw [Action.updateInstance_of_some he] at hrun
    cases hrun
    rw [Action.storage_updated hi]
    exact Storage.fits_under h e

theorem fits_of_locate (hi : i < m.instances.length) (h : (m.object i).storage.Fits)
    (hrun : (Action.locate i n).runOn m = (.ok index, m')) :
    (m'.object i).storage.Fits ∧ (m'.object i).storage.layout.position? n = some index := by
  rw [Action.locate, Action.runOn_bind, Action.runOn_discard] at hrun
  cases hupdate : (Action.updateInstance i).runOn m with
  | mk moved next =>
    cases moved with
    | error f =>
      rw [hupdate] at hrun
      cases hrun
    | ok moved =>
      have hfits := fits_of_updateInstance hi h hupdate
      simp only [hupdate, Except.map, Action.runOn_bind, Action.runOn_get] at hrun
      split at hrun
      · rename_i hposition
        cases hrun
        exact ⟨hfits, hposition⟩
      · cases hrun

theorem follows_updateInstance (h : (m.object i).storage.Fits) :
    Follows (updateInstance i) (Action.updateInstance i) m := by
  refine (follows_get m).bind fun _ _ hget => ?_
  cases hget
  dsimp only
  cases m.registry.edition? (m.object i).owner with
  | none => exact follows_throw _ m
  | some e =>
    dsimp only
    split
    · exact follows_pure false m
    · exact .present (Storage.migrate?_eq h e) ((follows_set _ m).bind fun _ m' _ => follows_pure true m')

theorem follows_locate (h : (m.object i).storage.Fits) (n : Symbol) :
    Follows (locate i n) (Action.locate i n) m := by
  refine ((follows_updateInstance h).map _).bind fun _ next _ => ?_
  refine (follows_get next).bind fun _ _ hget => ?_
  cases hget
  dsimp only
  rw [Layout.position?]
  cases (next.object i).storage.layout.positions.find? n with
  | none => exact follows_throw _ next
  | some index => exact follows_pure index next

theorem follows_hasSlot (h : (m.object i).storage.Fits) (n : Symbol) :
    Follows (hasSlot i n) (Action.hasSlot i n) m := by
  refine ((follows_updateInstance h).map _).bind fun _ next _ => ?_
  refine (follows_get next).bind fun _ _ hget => ?_
  cases hget
  exact follows_pure _ next

theorem follows_putSlot (hlt : index < (m.object i).storage.slots.length) (v : Option Value) :
    Follows (putSlot i index v) (Action.putSlot i index v) m := by
  have hput := Storage.put?_of_lt hlt v
  exact Follows.present (g := fun s => set (m.setStorage i s)) hput (follows_set _ m)

end Bounds

section Named

variable {index : Nat} {n : Symbol} (hi : i < m.instances.length) (h : (m.object i).storage.Fits)

include hi h

theorem lt_of_locate {m' : Image} (hrun : (Action.locate i n).runOn m = (.ok index, m')) :
    index < (m'.object i).storage.slots.length := by
  obtain ⟨hfits, hposition⟩ := fits_of_locate hi h hrun
  exact hfits.lt_of_positions hposition

theorem follows_slotValue (n : Symbol) : Follows (slotValue i n) (Action.slotValue i n) m := by
  refine (follows_locate h n).bind fun index next hlocate => ?_
  refine (follows_get next).bind fun _ _ hget => ?_
  cases hget
  refine .present (Storage.fetch?_of_lt (lt_of_locate hi h hlocate)) ?_
  cases (next.object i).storage.valueAt? index with
  | none => exact follows_throw _ next
  | some v => exact follows_pure v next

theorem follows_isSlotBound (n : Symbol) :
    Follows (isSlotBound i n) (Action.isSlotBound i n) m := by
  refine (follows_locate h n).bind fun index next hlocate => ?_
  refine (follows_get next).bind fun _ _ hget => ?_
  cases hget
  exact .present (Storage.fetch?_of_lt (lt_of_locate hi h hlocate)) (follows_pure _ next)

theorem follows_setSlotValue (n : Symbol) (v : Value) :
    Follows (setSlotValue i n v) (Action.setSlotValue i n v) m :=
  (follows_locate h n).bind fun _ _ hlocate => follows_putSlot (lt_of_locate hi h hlocate) (some v)

theorem follows_makeSlotUnbound (n : Symbol) :
    Follows (makeSlotUnbound i n) (Action.makeSlotUnbound i n) m :=
  (follows_locate h n).bind fun _ _ hlocate => follows_putSlot (lt_of_locate hi h hlocate) none

end Named

end CheckedAction

namespace NamedAccess

def runChecked (i : InstanceId) : NamedAccess → CheckedAction Answer
  | .update => Answer.flag <$> CheckedAction.updateInstance i
  | .read n => Answer.value <$> CheckedAction.slotValue i n
  | .write n v => (fun _ => Answer.done) <$> CheckedAction.setSlotValue i n v
  | .test n => Answer.flag <$> CheckedAction.isSlotBound i n
  | .clear n => (fun _ => Answer.done) <$> CheckedAction.makeSlotUnbound i n
  | .find n => Answer.flag <$> CheckedAction.hasSlot i n

open CheckedAction in
theorem follows_runChecked {m : Image} {i : InstanceId} (hi : i < m.instances.length)
    (h : (m.object i).storage.Fits) (a : NamedAccess) : Follows (a.runChecked i) (a.run i) m := by
  cases a with
  | update => exact (follows_updateInstance h).map _
  | read n => exact (follows_slotValue hi h n).map _
  | write n v => exact (follows_setSlotValue hi h n v).map _
  | test n => exact (follows_isSlotBound hi h n).map _
  | clear n => exact (follows_makeSlotUnbound hi h n).map _
  | find n => exact (follows_hasSlot h n).map _

end NamedAccess

namespace Action

variable {m : Image} {i : InstanceId} {f : Fault}

theorem slotAt_eq_error (h : (m.object i).storage.Fits) (index : Nat) :
    ((slotAt i index).runOn m).1 = .error f ↔ (m.object i).storage.layout.length ≤ index ∧
      f = .slotIndexOutOfRange index (m.object i).storage.layout.length := by
  have hlength : (m.object i).storage.slots.length = (m.object i).storage.layout.length := h
  rw [slotAt, runOn_bind, runOn_get]
  dsimp only
  by_cases hlt : index < (m.object i).storage.slots.length
  · have hle : ¬(m.object i).storage.layout.length ≤ index := by omega
    simp [List.getElem?_eq_getElem hlt, hle]
  · have hle : (m.object i).storage.layout.length ≤ index := by omega
    simp [hlength, hle, eq_comm]

theorem setSlotAt_eq_error (h : (m.object i).storage.Fits) (index : Nat) (v : Value) :
    ((setSlotAt i index v).runOn m).1 = .error f ↔ (m.object i).storage.layout.length ≤ index ∧
      f = .slotIndexOutOfRange index (m.object i).storage.layout.length := by
  rw [← slotAt_eq_error h, setSlotAt, runOn_bind, runOn_discard]
  cases (slotAt i index).runOn m with
  | mk answer next => cases answer <;> simp [Except.map, putSlot]

end Action

namespace Session

open Metaobject.Action

variable {limits : Limits} {s : Session} {cmd : Command} {cmds : List Command}

/-- The session after a step in which places are checked, if that does not break off. -/
def performChecked? (s : Session) : Command → Option Session
  | .access i a => ((a.runChecked i).runOn s.image).map fun p => { s with image := p.2 }
  | cmd => some (s.perform cmd)

theorem Invariant.performChecked?_eq (h : s.Invariant) (ha : s.Allowed cmd) :
    s.performChecked? cmd = some (s.perform cmd) := by
  cases cmd with
  | access i a =>
    have hfollows := a.follows_runChecked ha (h.stored i ha).fits
    rw [performChecked?, hfollows]
    rfl
  | classes _ | hold _ | allocate _ _ | readAt _ _ | writeAt _ _ _ | functions _ _ _ => rfl

theorem Invariant.foldlM_performChecked? (h : s.Invariant) (ha : s.AllSteps Allowed cmds) :
    cmds.foldlM performChecked? s = some (s.performAll cmds) := by
  induction cmds generalizing s with
  | nil => rfl
  | cons cmd rest ih =>
    rw [List.foldlM_cons, h.performChecked?_eq ha.1]
    exact ih (h.perform ha.1) ha.2

/-- An instance has a place for each slot of the layout under which it is stored, whatever became of
its class. Checking the places that are used by name or in a migration therefore makes no difference,
neither in a step nor in a run, and access by position fails for the places beyond that layout only. -/
theorem reachable_slots_in_bounds (h : Reachable limits s) :
    (∀ i, i < s.image.instances.length →
      let storage := (s.image.object i).storage
      storage.slots.length = storage.layout.length ∧
        (∀ n index, storage.layout.positions.find? n = some index →
          index < storage.layout.length) ∧
        (∀ e, storage.migrate? e = some (storage.migrate e)) ∧
        (∀ a : NamedAccess, (a.runChecked i).runOn s.image = some ((a.run i).runOn s.image)) ∧
        ∀ index f, (((slotAt i index).runOn s.image).1 = .error f ↔
            storage.layout.length ≤ index ∧ f = .slotIndexOutOfRange index storage.layout.length) ∧
          ∀ v, ((setSlotAt i index v).runOn s.image).1 = .error f ↔
            storage.layout.length ≤ index ∧ f = .slotIndexOutOfRange index storage.layout.length) ∧
    ∀ cmds, s.AllSteps Allowed cmds → cmds.foldlM performChecked? s = some (s.performAll cmds) := by
  refine ⟨?_, fun cmds => h.invariant.foldlM_performChecked?⟩
  intro i hi storage
  have hfits : storage.Fits := (h.invariant.stored i hi).fits
  refine ⟨hfits, ?_, Storage.migrate?_eq hfits, NamedAccess.follows_runChecked hi hfits, ?_⟩
  · intro n index hn
    have hlt := hfits.lt_of_positions hn
    rwa [hfits] at hlt
  · intro index f
    exact ⟨slotAt_eq_error hfits index, setSlotAt_eq_error hfits index⟩

/-- An instance that is stored under two slots while its class has three by now. -/
def outgrownPoint : Session :=
  (fresh Limits.standard).performAll
    [.classes (.define .point), .hold 20, .allocate 0 20,
      .access 0 (.write ⟨"Y"⟩ (.integer 1)),
      .classes (.define ⟨⟨"POINT"⟩, [], [⟨"Z"⟩, ⟨"X"⟩, ⟨"Y"⟩], none⟩)]

theorem outgrownPoint_slots_in_bounds :
    Reachable Limits.standard outgrownPoint ∧ 0 < outgrownPoint.image.instances.length ∧
      (outgrownPoint.image.registry.layout 20).map Layout.length = some 3 ∧
      (outgrownPoint.image.object 0).storage.slots.length = 2 ∧
      (((NamedAccess.read ⟨"Y"⟩).runChecked 0).runOn outgrownPoint.image).isSome ∧
      ((slotAt 0 2).runOn outgrownPoint.image).1 = .error (.slotIndexOutOfRange 2 2) ∧
      ([.access 0 (.clear ⟨"Z"⟩), .writeAt 0 2 (.integer 3)].foldlM performChecked?
        outgrownPoint).isSome := by
  have hreachable : Reachable Limits.standard outgrownPoint :=
    Reachable.fresh.performAll (by decide +kernel)
  obtain ⟨hlt, hcurrent, hlayout, hallowed⟩ :
      0 < outgrownPoint.image.instances.length ∧
        (outgrownPoint.image.registry.layout 20).map Layout.length = some 3 ∧
        (outgrownPoint.image.object 0).storage.layout.length = 2 ∧
        outgrownPoint.AllSteps Allowed [.access 0 (.clear ⟨"Z"⟩), .writeAt 0 2 (.integer 3)] := by
    decide +kernel
  obtain ⟨hstep, hrun⟩ := reachable_slots_in_bounds hreachable
  obtain ⟨hlength, _, _, hnamed, hplaces⟩ := hstep 0 hlt
  refine ⟨hreachable, hlt, hcurrent, hlength.trans hlayout, ?_, ?_, ?_⟩
  · rw [hnamed]
    rfl
  · refine ((hplaces 2 _).1).mpr ?_
    rw [hlayout]
    exact ⟨Nat.le_refl 2, rfl⟩
  · rw [hrun _ hallowed]
    rfl

end Session

end Metaobject
