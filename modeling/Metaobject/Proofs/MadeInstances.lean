import Metaobject.Proofs.NamedSlots
import Mathlib.Data.List.TakeWhile

/-!
# Made instances

An instance is made by allocating it and then writing its initial values one after the other, each as
an access by name. The first name that the layout lacks ends this. Nothing that was there before is
touched, whether an instance is made or not.
-/

namespace Metaobject

/-- The value that a list of initial values gives to a slot: the last one of that name. -/
def initialValue? (initargs : List (Symbol × Value)) (n : Symbol) : Option Value :=
  ((initargs.filter fun p => p.1 = n).getLast?).map Prod.snd

namespace Storage

variable {s : Storage} {e : Edition} {n : Symbol}

def fill (s : Storage) (initargs : List (Symbol × Value)) : Storage :=
  initargs.foldl (fun s p => s.assign p.1 (some p.2)) s

theorem fill_concat (s : Storage) (initargs : List (Symbol × Value)) (p : Symbol × Value) :
    s.fill (initargs ++ [p]) = (s.fill initargs).assign p.1 (some p.2) :=
  List.foldl_concat ..

theorem edition_fill (s : Storage) (initargs : List (Symbol × Value)) :
    (s.fill initargs).edition = s.edition := by
  induction initargs using List.reverseRecOn with
  | nil => rfl
  | append_singleton initargs p ih => rw [fill_concat, edition_assign, ih]

theorem fits_fill (h : s.Fits) (initargs : List (Symbol × Value)) : (s.fill initargs).Fits := by
  induction initargs using List.reverseRecOn with
  | nil => exact h
  | append_singleton initargs p ih =>
    rw [fill_concat]
    exact fits_assign ih _ _

theorem value?_unbound (e : Edition) (n : Symbol) : (unbound e).value? n = none := by
  rw [value?]
  cases (unbound e).layout.position? n with
  | none => rfl
  | some index =>
    rw [Option.bind_some, valueAt?, unbound, List.getElem?_replicate]
    split <;> rfl

theorem value?_fill_unbound (initargs : List (Symbol × Value)) (hn : n ∈ e.layout.slots) :
    ((unbound e).fill initargs).value? n = initialValue? initargs n := by
  induction initargs using List.reverseRecOn with
  | nil => exact value?_unbound e n
  | append_singleton initargs p ih =>
    rw [fill_concat, initialValue?, List.filter_append]
    by_cases hp : p.1 = n
    · subst hp
      have hmem : p.1 ∈ ((unbound e).fill initargs).layout.slots := by
        rw [layout, edition_fill]
        exact hn
      rw [value?_assign_self (fits_fill (fits_unbound e) initargs) hmem]
      simp
    · rw [value?_assign_of_ne (Ne.symm hp), ih, initialValue?]
      simp [hp]

end Storage

namespace Image

variable (m : Image) (c : ClassId) (s : Storage)

def withInstance : Image := { m with instances := m.instances ++ [⟨c, s⟩] }

theorem object_withInstance : (m.withInstance c s).object m.instances.length = ⟨c, s⟩ := by
  simp [withInstance, object]

theorem lt_withInstance : m.instances.length < (m.withInstance c s).instances.length := by
  simp [withInstance]

theorem setStorage_withInstance (s' : Storage) :
    (m.withInstance c s).setStorage m.instances.length s' = m.withInstance c s' := by
  have hlast := List.modifyTailIdx_add (List.modifyHead fun o : Instance =>
    { o with storage := s' }) 0 m.instances [⟨c, s⟩]
  exact congrArg (fun instances => { m with instances }) hlast

end Image

namespace Action

variable {m : Image} {c : ClassId} {e : Edition} {s : Storage}

theorem allocate_of_builtIn (h : (m.registry.generation c).isBuiltIn = true) :
    (allocate c).runOn m = (.error (.typeError (.classObject c) "STANDARD-CLASS"), m) := by
  rw [allocate, runOn_bind, runOn_get]
  dsimp only
  rw [allocateFrom, if_pos (show (m.registry.snapshot c).generation.isBuiltIn = true from h)]
  rfl

section Defined

variable (hbuiltIn : (m.registry.generation c).isBuiltIn = false)

include hbuiltIn

theorem allocate_of_none (h : m.registry.layout c = none) :
    (allocate c).runOn m = (.error (.notFinalized (m.registry.describe c)), m) := by
  have hedition := Registry.edition?_of_layout_none h
  rw [allocate, runOn_bind, runOn_get]
  dsimp only
  rw [allocateFrom, if_neg (by rw [← Registry.generation, hbuiltIn]; decide),
    ← Registry.edition?, hedition]
  rfl

theorem allocate_of_some (h : m.registry.edition? c = some e) :
    (allocate c).runOn m =
      (.ok m.instances.length, m.withInstance c (Storage.unbound e)) := by
  rw [allocate, runOn_bind, runOn_get]
  dsimp only
  rw [allocateFrom, if_neg (by rw [← Registry.generation, hbuiltIn]; decide),
    ← Registry.edition?, h]
  rfl

end Defined

section Initialized

variable (h : m.registry.edition? c = some e) (hs : s.edition = e)

include h hs

theorem setSlotValue_withInstance (n : Symbol) (v : Value) :
    (setSlotValue m.instances.length n v).runOn (m.withInstance c s) =
      if n ∈ e.layout.slots then (.ok (), m.withInstance c (s.assign n (some v)))
      else (.error (.missingSlot n (m.registry.describe c)), m.withInstance c s) := by
  have hlt := m.lt_withInstance c s
  have hobject := m.object_withInstance c s
  have hedition : (m.withInstance c s).registry.edition?
      ((m.withInstance c s).object m.instances.length).owner = some e := by
    rw [hobject]
    exact h
  -- The instance is stored under the layout that its class has now.
  have hunder : ((m.withInstance c s).object m.instances.length).storage.under e = s := by
    rw [hobject, Storage.under, hs, if_pos rfl]
  have hlayout : s.layout = e.layout := congrArg Edition.layout hs
  rw [setSlotValue]
  by_cases hn : n ∈ e.layout.slots
  · rw [if_pos hn, putSlot_of_mem hlt hedition (by rwa [hunder, hlayout]), hunder,
      Image.setStorage_withInstance]
  · rw [if_neg hn, locate_of_notMem n hlt hedition _ (by rwa [hunder, hlayout]), hobject, updated,
      hunder, Image.setStorage_withInstance]
    rfl

/-- Initial values are written up to the first one whose slot is not there. -/
theorem runOn_initialize (initargs : List (Symbol × Value)) :
    (initargs.forM fun p => setSlotValue m.instances.length p.1 p.2).runOn (m.withInstance c s) =
      (match initargs.find? fun p => p.1 ∉ e.layout.slots with
        | none => .ok ()
        | some p => .error (.missingSlot p.1 (m.registry.describe c)),
        m.withInstance c (s.fill (initargs.takeWhile fun p => p.1 ∈ e.layout.slots))) := by
  induction initargs generalizing s with
  | nil => rfl
  | cons p initargs ih =>
    change (setSlotValue m.instances.length p.1 p.2 >>= fun _ =>
      initargs.forM fun p => setSlotValue m.instances.length p.1 p.2).runOn _ = _
    rw [runOn_bind, setSlotValue_withInstance h hs]
    by_cases hp : p.1 ∈ e.layout.slots
    · rw [if_pos hp]
      dsimp only
      rw [ih ((Storage.edition_assign ..).trans hs)]
      simp [hp, Storage.fill]
    · rw [if_neg hp]
      simp [hp, Storage.fill]

end Initialized

theorem makeInstance_of_error {f : Fault} (initargs : List (Symbol × Value))
    (h : (allocate c).runOn m = (.error f, m)) :
    (makeInstance c initargs).runOn m = (.error f, m) := by
  rw [makeInstance, runOn_bind, h]

theorem makeInstance_of_builtIn (initargs : List (Symbol × Value))
    (h : (m.registry.generation c).isBuiltIn = true) :
    (makeInstance c initargs).runOn m =
      (.error (.typeError (.classObject c) "STANDARD-CLASS"), m) :=
  makeInstance_of_error initargs (allocate_of_builtIn h)

section Defined

variable (initargs : List (Symbol × Value))
  (hbuiltIn : (m.registry.generation c).isBuiltIn = false)

include hbuiltIn

theorem makeInstance_of_none (h : m.registry.layout c = none) :
    (makeInstance c initargs).runOn m = (.error (.notFinalized (m.registry.describe c)), m) :=
  makeInstance_of_error initargs (allocate_of_none hbuiltIn h)

theorem makeInstance_of_some (h : m.registry.edition? c = some e) :
    (makeInstance c initargs).runOn m =
      (match initargs.find? fun p => p.1 ∉ e.layout.slots with
        | none => .ok m.instances.length
        | some p => .error (.missingSlot p.1 (m.registry.describe c)),
        m.withInstance c
          ((Storage.unbound e).fill (initargs.takeWhile fun p => p.1 ∈ e.layout.slots))) := by
  have hinitialize := runOn_initialize h (s := Storage.unbound e) rfl initargs
  rw [makeInstance, runOn_bind, allocate_of_some hbuiltIn h]
  dsimp only
  rw [runOn_bind, hinitialize]
  cases initargs.find? fun p => p.1 ∉ e.layout.slots <;> rfl

theorem makeInstance_of_mem (h : m.registry.edition? c = some e)
    (hall : ∀ p ∈ initargs, p.1 ∈ e.layout.slots) :
    (makeInstance c initargs).runOn m =
      (.ok m.instances.length, m.withInstance c ((Storage.unbound e).fill initargs)) := by
  have hfind : (initargs.find? fun p => p.1 ∉ e.layout.slots) = none := by
    rw [List.find?_eq_none]
    intro p hp
    simpa using hall p hp
  have htake : (initargs.takeWhile fun p => p.1 ∈ e.layout.slots) = initargs := by
    rw [List.takeWhile_eq_self_iff]
    intro p hp
    simpa using hall p hp
  rw [makeInstance_of_some initargs hbuiltIn h, hfind, htake]

end Defined

end Action

namespace Image

variable {m : Image} {c : ClassId} {e : Edition} {s : Storage}

theorem isObsolete_withInstance (h : m.registry.edition? c = some e) (hs : s.edition = e) :
    (m.withInstance c s).isObsolete m.instances.length = false := by
  rw [isObsolete, object_withInstance]
  dsimp only
  rw [show (m.withInstance c s).registry = m.registry from rfl, h, hs]
  simp

theorem contents_withInstance (h : m.registry.layout c = some e.layout)
    (initargs : List (Symbol × Value)) (n : Symbol) :
    (m.withInstance c ((Storage.unbound e).fill initargs)).contents m.instances.length n =
      if n ∈ e.layout.slots then some (initialValue? initargs n) else none := by
  rw [contents, object_withInstance]
  dsimp only
  rw [show (m.withInstance c _).registry = m.registry from rfl, h]
  dsimp only
  by_cases hn : n ∈ e.layout.slots
  · rw [if_pos hn, if_pos hn, Storage.stored_eq_value?, Storage.value?_fill_unbound initargs hn]
  · rw [if_neg hn, if_neg hn]

end Image

theorem Generation.state_eq_finalized_iff (g : Generation) :
    g.state = .finalized ↔ ∃ l, g.layout = some l := by
  cases g with
  | forwardReferenced name => simp [state, layout, shape]
  | standard k => cases hk : k.shape <;> simp [state, layout, shape, hk]
  | methodClass k => cases hk : k.shape <;> simp [state, layout, shape, hk]
  | builtIn k => simp [state, layout, shape]

theorem Generation.state_of_builtIn {g : Generation} (h : g.isBuiltIn = true) :
    g.state = .finalized := by
  cases g with
  | builtIn k => rfl
  | forwardReferenced name => contradiction
  | standard k => contradiction
  | methodClass k => contradiction

theorem Generation.layout_of_state_ne {g : Generation} (h : g.state ≠ .finalized) :
    g.isBuiltIn = false ∧ g.layout = none := by
  constructor
  · rw [← Bool.not_eq_true]
    exact fun hbuiltIn => h (state_of_builtIn hbuiltIn)
  · rw [Option.eq_none_iff_forall_ne_some]
    exact fun l hl => h (g.state_eq_finalized_iff.mpr ⟨l, hl⟩)

/-- How it can go to make an instance: what it answers, and the image that it leaves. -/
inductive Making (m : Image) (c : ClassId) (initargs : List (Symbol × Value)) :
    Except Fault InstanceId × Image → Prop
  | builtIn (h : (m.registry.generation c).isBuiltIn = true) :
      Making m c initargs (.error (.typeError (.classObject c) "STANDARD-CLASS"), m)
  | notFinalized (hbuiltIn : (m.registry.generation c).isBuiltIn = false)
      (h : m.registry.layout c = none) :
      Making m c initargs (.error (.notFinalized (m.registry.describe c)), m)
  | missing {l : Layout} {p : Symbol × Value} (s : Storage)
      (hbuiltIn : (m.registry.generation c).isBuiltIn = false) (h : m.registry.layout c = some l)
      (hp : (initargs.find? fun p => p.1 ∉ l.slots) = some p) :
      Making m c initargs (.error (.missingSlot p.1 (m.registry.describe c)), m.withInstance c s)
  | made {e : Edition} (hbuiltIn : (m.registry.generation c).isBuiltIn = false)
      (h : m.registry.edition? c = some e) (hall : ∀ p ∈ initargs, p.1 ∈ e.layout.slots) :
      Making m c initargs
        (.ok m.instances.length, m.withInstance c ((Storage.unbound e).fill initargs))

theorem making_makeInstance (m : Image) (c : ClassId) (initargs : List (Symbol × Value)) :
    Making m c initargs ((Action.makeInstance c initargs).runOn m) := by
  by_cases hbuiltIn : (m.registry.generation c).isBuiltIn = true
  · rw [Action.makeInstance_of_builtIn initargs hbuiltIn]
    exact .builtIn hbuiltIn
  rw [Bool.not_eq_true] at hbuiltIn
  cases hl : m.registry.layout c with
  | none =>
    rw [Action.makeInstance_of_none initargs hbuiltIn hl]
    exact .notFinalized hbuiltIn hl
  | some l =>
    have hedition := Registry.edition?_of_layout hl
    cases hfind : initargs.find? fun p => p.1 ∉ l.slots with
    | none =>
      have hall : ∀ p ∈ initargs, p.1 ∈ l.slots := by
        simpa using List.find?_eq_none.mp hfind
      rw [Action.makeInstance_of_mem initargs hbuiltIn hedition hall]
      exact .made hbuiltIn hedition hall
    | some p =>
      rw [Action.makeInstance_of_some initargs hbuiltIn hedition, hfind]
      exact .missing _ hbuiltIn hl hfind

namespace Making

variable {m m' : Image} {c : ClassId} {i : InstanceId} {initargs : List (Symbol × Value)}
  {run : Except Fault InstanceId × Image}

theorem exists_ok_iff (h : Making m c initargs run) :
    (∃ i, run.1 = .ok i) ↔
      m.registry.state c = .finalized ∧ (m.registry.generation c).isBuiltIn = false ∧
        ∃ l, m.registry.layout c = some l ∧ ∀ p ∈ initargs, p.1 ∈ l.slots := by
  cases h with
  | builtIn hbuiltIn => simp [hbuiltIn]
  | notFinalized hbuiltIn hl => simp [hl]
  | @missing l p s hbuiltIn hl hp =>
    constructor
    · rintro ⟨i, hi⟩
      contradiction
    · rintro ⟨_, _, l', hl', hall⟩
      cases hl.symm.trans hl'
      have hslot : p.1 ∉ l.slots := by simpa using List.find?_some hp
      exact absurd (hall p (List.mem_of_find?_eq_some hp)) hslot
  | @made e hbuiltIn hedition hall =>
    have hl := Registry.layout_of_edition? hedition
    have hfinal := (m.registry.generation c).state_eq_finalized_iff.mpr ⟨e.layout, hl⟩
    exact ⟨fun _ => ⟨hfinal, hbuiltIn, e.layout, hl, hall⟩, fun _ => ⟨_, rfl⟩⟩

theorem of_ok (h : Making m c initargs (.ok i, m')) :
    i = m.instances.length ∧ i < m'.instances.length ∧ (m'.object i).owner = c ∧
      m'.isObsolete i = false ∧ ∃ l, m.registry.layout c = some l ∧
        ∀ n, m'.contents i n = if n ∈ l.slots then some (initialValue? initargs n) else none := by
  cases h with
  | @made e hbuiltIn hedition hall =>
    have hl := Registry.layout_of_edition? hedition
    refine ⟨rfl, m.lt_withInstance c _, ?_, ?_, e.layout, hl, m.contents_withInstance hl initargs⟩
    · rw [Image.object_withInstance]
    · exact Image.isObsolete_withInstance hedition (Storage.edition_fill _ initargs)

theorem frame (h : Making m c initargs run) :
    ∃ made, made.length ≤ 1 ∧ run.2 = { m with instances := m.instances ++ made } := by
  cases h with
  | builtIn _ => exact ⟨[], by simp⟩
  | notFinalized _ _ => exact ⟨[], by simp⟩
  | missing s _ _ _ => exact ⟨[⟨c, s⟩], by simp, rfl⟩
  | @made e _ _ _ => exact ⟨[⟨c, (Storage.unbound e).fill initargs⟩], by simp, rfl⟩

end Making

open Metaobject.Action in
/-- An instance is made exactly if the class is finalized, is not built in and has a slot for each
initial value. It then has in each slot the last value that was given for it, and no other values.
Otherwise the class is to blame, or else the first name that it has no slot for. Either way the image
is what it was, up to one more instance at its end. -/
theorem Image.makeInstance_initializes (m : Image) (c : ClassId)
    (initargs : List (Symbol × Value)) :
    ((∃ i, ((makeInstance c initargs).runOn m).1 = .ok i) ↔
      m.registry.state c = .finalized ∧ (m.registry.generation c).isBuiltIn = false ∧
        ∃ l, m.registry.layout c = some l ∧ ∀ p ∈ initargs, p.1 ∈ l.slots) ∧
    (∀ i m', (makeInstance c initargs).runOn m = (.ok i, m') →
      i = m.instances.length ∧ i < m'.instances.length ∧ (m'.object i).owner = c ∧
        m'.isObsolete i = false ∧ ∃ l, m.registry.layout c = some l ∧
          ∀ n, m'.contents i n =
            if n ∈ l.slots then some (initialValue? initargs n) else none) ∧
    ((m.registry.generation c).isBuiltIn = true →
      ((makeInstance c initargs).runOn m).1 =
        .error (.typeError (.classObject c) "STANDARD-CLASS")) ∧
    (m.registry.state c ≠ .finalized →
      ((makeInstance c initargs).runOn m).1 = .error (.notFinalized (m.registry.describe c))) ∧
    (∀ l p, (m.registry.generation c).isBuiltIn = false → m.registry.layout c = some l →
      (initargs.find? fun p => p.1 ∉ l.slots) = some p →
      ((makeInstance c initargs).runOn m).1 =
        .error (.missingSlot p.1 (m.registry.describe c))) ∧
    ∃ made, made.length ≤ 1 ∧
      ((makeInstance c initargs).runOn m).2 = { m with instances := m.instances ++ made } := by
  have hmaking := making_makeInstance m c initargs
  refine ⟨hmaking.exists_ok_iff, ?made, ?builtIn, ?notFinalized, ?missing, hmaking.frame⟩
  case made =>
    intro i m' hrun
    rw [hrun] at hmaking
    exact hmaking.of_ok
  case builtIn =>
    intro hbuiltIn
    rw [makeInstance_of_builtIn initargs hbuiltIn]
  case notFinalized =>
    intro hfinal
    obtain ⟨hbuiltIn, hl⟩ := Generation.layout_of_state_ne hfinal
    rw [makeInstance_of_none initargs hbuiltIn hl]
  case missing =>
    intro l p hbuiltIn hl hp
    have hedition := Registry.edition?_of_layout hl
    rw [makeInstance_of_some initargs hbuiltIn hedition, hp]

def pointImage : Image := ⟨Registry.points, [], [], Table.empty, 0⟩

/-- A slot that is given two values keeps the second, and a slot that is given none has none. -/
theorem coloredPoint_initializes :
    (∃ i m', (Action.makeInstance 21 [(⟨"COLOR"⟩, .integer 1), (⟨"X"⟩, .integer 2),
        (⟨"COLOR"⟩, .integer 3)]).runOn pointImage = (.ok i, m') ∧
      m'.contents i ⟨"COLOR"⟩ = some (some (.integer 3)) ∧ m'.contents i ⟨"Y"⟩ = some none) ∧
    ((Action.makeInstance 20 [(⟨"X"⟩, .integer 1), (⟨"COLOR"⟩, .integer 2),
        (⟨"Z"⟩, .integer 3)]).runOn pointImage).1 =
      .error (.missingSlot ⟨"COLOR"⟩ "#<STANDARD-CLASS POINT>") := by
  have hshapes : pointImage.registry.state 21 = .finalized ∧
      (pointImage.registry.generation 21).isBuiltIn = false ∧
      (pointImage.registry.generation 20).isBuiltIn = false ∧
      pointImage.registry.layout 21 =
        some ⟨some ⟨"COLORED-POINT"⟩, 1, [⟨"X"⟩, ⟨"Y"⟩, ⟨"COLOR"⟩], by decide⟩ ∧
      pointImage.registry.layout 20 = some ⟨some ⟨"POINT"⟩, 1, [⟨"X"⟩, ⟨"Y"⟩], by decide⟩ ∧
      pointImage.registry.describe 20 = "#<STANDARD-CLASS POINT>" := by
    decide +kernel
  obtain ⟨hstate, hcolored, hpoint, hcoloredLayout, hpointLayout, hlabel⟩ := hshapes
  constructor
  · obtain ⟨hiff, hmade, _⟩ := Image.makeInstance_initializes pointImage 21
      [(⟨"COLOR"⟩, .integer 1), (⟨"X"⟩, .integer 2), (⟨"COLOR"⟩, .integer 3)]
    obtain ⟨i, hi⟩ := hiff.mpr ⟨hstate, hcolored, _, hcoloredLayout, by simp⟩
    obtain ⟨_, _, _, _, l, hl, hcontents⟩ := hmade i _ (Prod.ext hi rfl)
    cases hcoloredLayout.symm.trans hl
    refine ⟨i, _, Prod.ext hi rfl, ?_, ?_⟩
    · rw [hcontents]
      rfl
    · rw [hcontents]
      rfl
  · obtain ⟨_, _, _, _, hmissing, _⟩ := Image.makeInstance_initializes pointImage 20
      [(⟨"X"⟩, .integer 1), (⟨"COLOR"⟩, .integer 2), (⟨"Z"⟩, .integer 3)]
    rw [← hlabel]
    exact hmissing _ (⟨"COLOR"⟩, .integer 2) hpoint hpointLayout rfl

end Metaobject
