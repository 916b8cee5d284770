import Metaobject.Proofs.SlotAccess
import Metaobject.Proofs.Stamps

/-!
# Sessions

A session is an image with the generations of classes that someone holds on to. It changes by steps of
the registry, by new instances and by access to their slots. Every instance is stored under a layout
that its class, or another class, had at some time.
-/

namespace Metaobject

/-- An image, and generations that were taken from its classes. -/
structure Session where
  image : Image
  snapshots : List Snapshot

/-- A step of a session. Generic functions may change in any way. -/
inductive Command
  | classes (op : Operation)
  | hold (c : ClassId)
  | allocate (k : Nat) (c : ClassId)
  | access (i : InstanceId) (a : NamedAccess)
  | readAt (i : InstanceId) (index : Nat)
  | writeAt (i : InstanceId) (index : Nat) (v : Value)
  | functions (functions : List GenericFunction) (names : Table Symbol FunctionId)
      (nextObject : ObjectId)

/-- A storage in which an instance may be: its layout was issued, and each slot has a place. -/
structure Registry.Stored (r : Registry) (s : Storage) : Prop where
  issued : r.Issued s.edition
  fits : s.Fits

namespace Registry.Stored

variable {r r' : Registry} {s : Storage} {e : Edition} {c : ClassId}

theorem changes (h : r.Stored s) (hchanges : Changes r r') : r'.Stored s :=
  ⟨h.issued.changes hchanges, h.fits⟩

theorem unbound (h : r.Issued e) : r.Stored (Storage.unbound e) :=
  ⟨h, Storage.fits_unbound e⟩

theorem edition_under (h : r.Stored s) (hc : r.edition? c = some e) : (s.under e).edition = e :=
  Storage.edition_under fun hstamp => h.issued.eq_of_stamp hc hstamp

theorem under (h : r.Stored s) (hr : r.Stamped) (hc : r.edition? c = some e) :
    r.Stored (s.under e) := by
  constructor
  · rw [h.edition_under hc]
    exact hr.issued hc
  · exact Storage.fits_under h.fits e

theorem store (h : r.Stored s) (a : NamedAccess) : r.Stored (a.store s) := by
  constructor
  · rw [a.edition_store]
    exact h.issued
  · exact a.fits_store h.fits

theorem put (h : r.Stored s) (index : Nat) (v : Option Value) : r.Stored (s.put index v) :=
  ⟨h.issued, Storage.fits_put h.fits index v⟩

theorem after {m : Image} {i : InstanceId} (h : m.registry.Stored (m.object i).storage)
    (hr : m.registry.Stamped) (a : NamedAccess) : m.registry.Stored (a.after m i) := by
  unfold NamedAccess.after
  split
  · rename_i e he
    exact (h.under hr he).store a
  · exact h

end Registry.Stored

namespace Session

variable {limits : Limits} {s : Session} {cmd : Command} {i : InstanceId}

def fresh (limits : Limits) : Session := ⟨Image.fresh limits, []⟩

/-- The session after a step. One that fails may still have moved an instance to another layout. -/
def perform (s : Session) : Command → Session
  | .classes op => { s with image := { s.image with registry := s.image.registry.perform op } }
  | .hold c => { s with snapshots := s.snapshots ++ [s.image.registry.snapshot c] }
  | .allocate k c =>
    match s.snapshots[k]? with
    | some x => { s with image := ((Action.allocateFrom x c).runOn s.image).2 }
    | none => s
  | .access i a => { s with image := ((a.run i).runOn s.image).2 }
  | .readAt i index => { s with image := ((Action.slotAt i index).runOn s.image).2 }
  | .writeAt i index v => { s with image := ((Action.setSlotAt i index v).runOn s.image).2 }
  | .functions functions names nextObject =>
    { s with image := { s.image with functions, functionNames := names, nextObject } }

def Allowed (s : Session) : Command → Prop
  | .classes op => s.image.registry.Allowed op
  | .hold c | .allocate _ c => c < s.image.registry.cells.length
  | .access i _ | .readAt i _ | .writeAt i _ _ => i < s.image.instances.length
  | .functions .. => True

inductive Reachable (limits : Limits) : Session → Prop
  | fresh : Reachable limits (.fresh limits)
  | step {s : Session} {cmd : Command} : Reachable limits s → s.Allowed cmd →
      Reachable limits (s.perform cmd)

section Runs

instance (r : Registry) (op : Operation) : Decidable (r.Allowed op) :=
  match op with
  | .register _ c => inferInstanceAs (Decidable (c < r.cells.length))
  | .define _ | .remove _ | .resolve _ | .installPlaceholder _ => isTrue trivial

instance (s : Session) (cmd : Command) : Decidable (s.Allowed cmd) :=
  match cmd with
  | .classes op => inferInstanceAs (Decidable (s.image.registry.Allowed op))
  | .hold c | .allocate _ c => inferInstanceAs (Decidable (c < s.image.registry.cells.length))
  | .access i _ | .readAt i _ | .writeAt i _ _ =>
    inferInstanceAs (Decidable (i < s.image.instances.length))
  | .functions .. => isTrue trivial

def performAll (s : Session) (cmds : List Command) : Session := cmds.foldl perform s

/-- All steps of a run satisfy a condition, each in the session that it finds. -/
def AllSteps (p : Session → Command → Prop) (s : Session) : List Command → Prop
  | [] => True
  | cmd :: rest => p s cmd ∧ (s.perform cmd).AllSteps p rest

def decideAllSteps (p : Session → Command → Prop) [∀ s cmd, Decidable (p s cmd)] (s : Session) :
    (cmds : List Command) → Decidable (s.AllSteps p cmds)
  | [] => isTrue trivial
  | cmd :: rest =>
    have := (s.perform cmd).decideAllSteps p rest
    inferInstanceAs (Decidable (p s cmd ∧ (s.perform cmd).AllSteps p rest))

instance (p : Session → Command → Prop) [∀ s cmd, Decidable (p s cmd)] (s : Session)
    (cmds : List Command) : Decidable (s.AllSteps p cmds) :=
  s.decideAllSteps p cmds

theorem Reachable.performAll {cmds : List Command} (h : Reachable limits s)
    (ha : s.AllSteps Allowed cmds) : Reachable limits (s.performAll cmds) := by
  induction cmds generalizing s with
  | nil => exact h
  | cons cmd rest ih => exact ih (h.step ha.1) ha.2

end Runs

theorem allocateFrom_cases (m : Image) (x : Snapshot) (c : ClassId) :
    ((Action.allocateFrom x c).runOn m).2 = m ∨
      ∃ e, x.generation.isBuiltIn = false ∧ x.edition? = some e ∧
        ((Action.allocateFrom x c).runOn m).2 = (m.addInstance ⟨c, Storage.unbound e⟩).2 := by
  rw [Action.allocateFrom]
  dsimp only
  by_cases hbuiltIn : x.generation.isBuiltIn = true
  · rw [if_pos hbuiltIn]
    exact Or.inl rfl
  · rw [if_neg hbuiltIn]
    cases x.edition? with
    | none => exact Or.inl rfl
    | some e => exact Or.inr ⟨e, by simpa using hbuiltIn, rfl, rfl⟩

section Steps

theorem image_access (a : NamedAccess) (hi : i < s.image.instances.length) :
    (s.perform (.access i a)).image = s.image.setStorage i (a.after s.image i) :=
  a.image_run hi

theorem image_readAt (index : Nat) : (s.perform (.readAt i index)).image = s.image :=
  Action.image_slotAt index

theorem image_writeAt (index : Nat) (v : Value) :
    (s.perform (.writeAt i index v)).image =
      s.image.setStorage i ((s.image.object i).storage.put index (some v)) :=
  Action.image_setSlotAt index v

theorem registry_perform (ha : s.Allowed cmd) :
    (s.perform cmd).image.registry = s.image.registry ∨ ∃ op, cmd = .classes op ∧
      (s.perform cmd).image.registry = s.image.registry.perform op := by
  cases cmd with
  | classes op => exact Or.inr ⟨op, rfl, rfl⟩
  | hold c => exact Or.inl rfl
  | allocate k c =>
    left
    rw [perform]
    split
    · rename_i x _
      rcases allocateFrom_cases s.image x c with h | ⟨e, _, _, h⟩
      · exact congrArg Image.registry h
      · exact (congrArg Image.registry h).trans rfl
    · rfl
  | access i a => exact Or.inl (by rw [image_access a ha, Image.registry_setStorage])
  | readAt i index => exact Or.inl (by rw [image_readAt])
  | writeAt i index v => exact Or.inl (by rw [image_writeAt, Image.registry_setStorage])
  | functions functions names nextObject => exact Or.inl rfl

theorem snapshots_perform {x : Snapshot} (hx : x ∈ (s.perform cmd).snapshots) :
    x ∈ s.snapshots ∨ ∃ c, cmd = .hold c ∧ x = s.image.registry.snapshot c := by
  cases cmd with
  | hold c =>
    rcases List.mem_append.mp hx with h | h
    · exact Or.inl h
    · exact Or.inr ⟨c, rfl, List.mem_singleton.mp h⟩
  | allocate k c =>
    rw [perform] at hx
    split at hx
    · exact Or.inl hx
    · exact Or.inl hx
  | classes op => exact Or.inl hx
  | access i a => exact Or.inl hx
  | readAt i index => exact Or.inl hx
  | writeAt i index v => exact Or.inl hx
  | functions functions names nextObject => exact Or.inl hx

theorem object_perform (ha : s.Allowed cmd) (hi : i < s.image.instances.length) :
    (s.perform cmd).image.object i = s.image.object i ∨
      (∃ a, cmd = .access i a ∧ (s.perform cmd).image.object i =
        ⟨(s.image.object i).owner, a.after s.image i⟩) ∨
      ∃ index v, cmd = .writeAt i index v ∧ (s.perform cmd).image.object i =
        ⟨(s.image.object i).owner, (s.image.object i).storage.put index (some v)⟩ := by
  cases cmd with
  | classes op => exact Or.inl rfl
  | hold c => exact Or.inl rfl
  | allocate k c =>
    left
    rw [perform]
    split
    · rename_i x _
      rcases allocateFrom_cases s.image x c with h | ⟨e, _, _, h⟩
      · exact congrArg (Image.object · i) h
      · refine (congrArg (Image.object · i) h).trans ?_
        simp [Image.object, Image.addInstance, List.getElem?_append_left hi]
    · rfl
  | access j a =>
    have himage := image_access a ha
    by_cases hij : i = j
    · subst hij
      right
      left
      refine ⟨a, rfl, ?_⟩
      rw [himage, Image.object_setStorage_self hi]
    · left
      rw [himage, Image.object_setStorage_of_ne hij]
  | readAt j index => exact Or.inl (by rw [image_readAt])
  | writeAt j index v =>
    have himage := image_writeAt (s := s) (i := j) index v
    by_cases hij : i = j
    · subst hij
      right
      right
      refine ⟨index, v, rfl, ?_⟩
      rw [himage, Image.object_setStorage_self hi]
    · left
      rw [himage, Image.object_setStorage_of_ne hij]
  | functions functions names nextObject => exact Or.inl rfl

theorem instances_perform (ha : s.Allowed cmd) :
    (s.perform cmd).image.instances.length = s.image.instances.length ∨
      ∃ k c x e, cmd = .allocate k c ∧ s.snapshots[k]? = some x ∧ x.generation.isBuiltIn = false ∧
        x.edition? = some e ∧
        (s.perform cmd).image = (s.image.addInstance ⟨c, Storage.unbound e⟩).2 := by
  cases cmd with
  | classes op => exact Or.inl rfl
  | hold c => exact Or.inl rfl
  | allocate k c =>
    rw [perform]
    split
    · rename_i x hx
      rcases allocateFrom_cases s.image x c with h | ⟨e, hbuiltIn, he, h⟩
      · exact Or.inl (congrArg (fun m => m.instances.length) h)
      · exact Or.inr ⟨k, c, x, e, rfl, hx, hbuiltIn, he, h⟩
    · exact Or.inl rfl
  | access i a => exact Or.inl (by rw [image_access a ha, Image.length_setStorage])
  | readAt i index => exact Or.inl (by rw [image_readAt])
  | writeAt i index v => exact Or.inl (by rw [image_writeAt, Image.length_setStorage])
  | functions functions names nextObject => exact Or.inl rfl

theorem length_perform (ha : s.Allowed cmd) :
    s.image.instances.length ≤ (s.perform cmd).image.instances.length := by
  rcases instances_perform ha with h | ⟨_, c, _, e, _, _, _, _, h⟩
  · omega
  · rw [h]
    simp [Image.addInstance]

theorem object_perform_new (ha : s.Allowed cmd) (hi : i < (s.perform cmd).image.instances.length)
    (hnew : ¬i < s.image.instances.length) :
    ∃ k c x e, cmd = .allocate k c ∧ s.snapshots[k]? = some x ∧ x.generation.isBuiltIn = false ∧
      x.edition? = some e ∧ (s.perform cmd).image.object i = ⟨c, Storage.unbound e⟩ := by
  rcases instances_perform ha with h | ⟨k, c, x, e, hcmd, hx, hbuiltIn, he, h⟩
  · rw [h] at hi
    exact absurd hi hnew
  · refine ⟨k, c, x, e, hcmd, hx, hbuiltIn, he, ?_⟩
    rw [h] at hi ⊢
    have hlt : i < s.image.instances.length + 1 := by
      simpa [Image.addInstance] using hi
    cases Nat.le_antisymm (Nat.le_of_lt_succ hlt) (Nat.le_of_not_lt hnew)
    simp [Image.object, Image.addInstance]

end Steps

/-- What holds of all sessions: stamps are told apart, generations that are held were published, and
instances are stored under layouts that were issued. -/
structure Invariant (s : Session) : Prop where
  stamped : s.image.registry.Stamped
  known : ∀ x ∈ s.snapshots, s.image.registry.Knows x
  stored : ∀ i, i < s.image.instances.length → s.image.registry.Stored (s.image.object i).storage

theorem invariant_fresh (limits : Limits) : (fresh limits).Invariant := by
  constructor
  · exact Registry.stamped_fresh limits
  · intro x hx
    exact absurd hx List.not_mem_nil
  · intro i hi
    exact absurd hi (Nat.not_lt_zero i)

theorem changes_perform (ha : s.Allowed cmd) :
    Registry.Changes s.image.registry (s.perform cmd).image.registry := by
  rcases registry_perform ha with h | ⟨op, _, h⟩
  · rw [h]
  · rw [h]
    exact Registry.changes_perform s.image.registry op

theorem Invariant.perform (h : s.Invariant) (ha : s.Allowed cmd) : (s.perform cmd).Invariant := by
  have hchanges := changes_perform ha
  constructor
  · exact h.stamped.changes hchanges
  · intro x hx
    rcases snapshots_perform hx with hx | ⟨c, rfl, rfl⟩
    · exact (h.known x hx).changes hchanges
    · exact h.stamped.knows_snapshot ha
  · intro i hi
    by_cases hlt : i < s.image.instances.length
    · have hstored := h.stored i hlt
      rcases object_perform ha hlt with hsame | ⟨a, _, hobject⟩ | ⟨index, v, _, hobject⟩
      · rw [hsame]
        exact hstored.changes hchanges
      · rw [hobject]
        exact (hstored.after h.stamped a).changes hchanges
      · rw [hobject]
        exact (hstored.put index (some v)).changes hchanges
    · obtain ⟨k, c, x, e, _, hx, _, he, hobject⟩ := object_perform_new ha hi hlt
      have hissued : s.image.registry.Issued e := ⟨x, h.known x (List.mem_of_getElem? hx), he⟩
      rw [hobject]
      exact .unbound (hissued.changes hchanges)

theorem Reachable.invariant (h : Reachable limits s) : s.Invariant := by
  induction h with
  | fresh => exact invariant_fresh limits
  | step _ ha ih => exact ih.perform ha

theorem Reachable.registry (h : Reachable limits s) :
    Registry.Reachable limits s.image.registry := by
  induction h with
  | fresh => exact .fresh
  | step _ ha ih =>
    rcases registry_perform ha with heq | ⟨op, rfl, heq⟩
    · rw [heq]
      exact ih
    · rw [heq]
      exact ih.step ha

end Session

end Metaobject
