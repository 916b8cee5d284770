import Metaobject.Proofs.Publication

/-!
# Stamps

Every generation that is published gets the next stamp, and no stamp is used again. Two classes never
hold generations of the same stamp, and one that was seen keeps its stamp for good. This is shown of
single changes, of which all steps of a registry consist.
-/

namespace Metaobject.Registry

variable {r r' : Registry} {limits : Limits} {x : Snapshot} {c : ClassId}

/-- A change of one generation, or one that keeps all generations. -/
inductive Change : Registry → Registry → Prop
  | publish (r : Registry) (c : ClassId) (g : Generation) : Change r (r.publish c g)
  | addCell (r : Registry) (g : Generation) : Change r (r.addCell g).2
  | keep {r r' : Registry} (nextStamp : r'.nextStamp = r.nextStamp)
      (length : r'.cells.length = r.cells.length) (snapshot : ∀ c, r'.snapshot c = r.snapshot c) :
      Change r r'

abbrev Changes : Registry → Registry → Prop := Relation.ReflTransGen Change

section Steps

theorem changes_countGeneration (r : Registry) (c : ClassId) : Changes r (r.countGeneration c) :=
  .single (.keep rfl (length_countGeneration r c) (snapshot_countGeneration r c))

theorem Publication.changes (h : Publication r r') : Changes r r' := by
  cases h with
  | withhold c _ => exact .single (.publish r c _)
  | issue c _ => exact (changes_countGeneration r c).tail (.publish _ c _)
  | addCell _ => exact .single (.addCell r _)
  | keep hnext hlength hsnapshot _ => exact .single (.keep hnext hlength hsnapshot)

theorem Publications.changes (h : Publications r r') : Changes r r' := by
  induction h with
  | refl => exact .refl
  | tail _ hstep ih => exact ih.trans hstep.changes

theorem changes_perform (r : Registry) (op : Operation) : Changes r (r.perform op) := by
  obtain ⟨mid, hmid, heq | ⟨root, heq⟩⟩ := publications_perform r op
  · rw [heq]
    exact hmid.changes
  · rw [heq]
    exact hmid.changes.trans (changes_countGeneration mid root)

end Steps

theorem snapshot_publish_self {g : Generation} (h : c < r.cells.length) :
    (r.publish c g).snapshot c = ⟨r.nextStamp, g⟩ :=
  congrArg Cell.current (cell_modifyCell_self r _ h)

theorem snapshot_of_le (h : r.cells.length ≤ c) : r.snapshot c = Cell.vacant.current :=
  congrArg Cell.current (cell_of_le r h)

/-- What a change can do: one cell may get a generation with the next stamp. -/
theorem Change.snapshots (h : Change r r') :
    r.nextStamp ≤ r'.nextStamp ∧ ∃ c, ∀ a, a < r'.cells.length →
      a < r.cells.length ∧ r'.snapshot a = r.snapshot a ∨
        a = c ∧ (r'.snapshot a).stamp = r.nextStamp ∧ r.nextStamp < r'.nextStamp := by
  cases h with
  | publish c g =>
    refine ⟨Nat.le_succ _, c, ?_⟩
    intro a ha
    rw [length_publish] at ha
    by_cases hac : a = c
    · subst hac
      right
      rw [snapshot_publish_self ha]
      exact ⟨rfl, rfl, Nat.lt_succ_self _⟩
    · left
      exact ⟨ha, snapshot_publish_of_ne r g hac⟩
  | addCell g =>
    refine ⟨Nat.le_succ _, r.cells.length, ?_⟩
    intro a ha
    rw [length_addCell] at ha
    by_cases hlt : a < r.cells.length
    · left
      exact ⟨hlt, congrArg Cell.current (cell_addCell_of_lt r g hlt)⟩
    · right
      obtain rfl : a = r.cells.length := by omega
      rw [snapshot, cell_addCell_new]
      exact ⟨rfl, rfl, Nat.lt_succ_self _⟩
  | keep hnext hlength hsnapshot =>
    refine ⟨Nat.le_of_eq hnext.symm, 0, ?_⟩
    intro a ha
    rw [hlength] at ha
    left
    exact ⟨ha, hsnapshot a⟩

/-- Stamps below the next one, no two classes with the same. -/
structure Stamped (r : Registry) : Prop where
  lt : ∀ a, a < r.cells.length → (r.snapshot a).stamp < r.nextStamp
  unique : ∀ a b, a < r.cells.length → b < r.cells.length →
    (r.snapshot a).stamp = (r.snapshot b).stamp → a = b

/-- A generation that was published: a class whose generation has its stamp holds this one. -/
structure Knows (r : Registry) (x : Snapshot) : Prop where
  lt : x.stamp < r.nextStamp
  eq : ∀ a, a < r.cells.length → (r.snapshot a).stamp = x.stamp → r.snapshot a = x

theorem Stamped.change (h : r.Stamped) (hchange : Change r r') : r'.Stamped := by
  obtain ⟨hnext, c, hsnapshot⟩ := hchange.snapshots
  constructor
  · intro a ha
    rcases hsnapshot a ha with ⟨hlt, heq⟩ | ⟨_, hstamp, hlt⟩
    · have := h.lt a hlt
      rw [heq]
      omega
    · omega
  · -- Only one class gets a new stamp, and it is above all that there were.
    intro a b ha hb hab
    rcases hsnapshot a ha with ⟨halt, haeq⟩ | ⟨hac, hastamp, _⟩
    · rcases hsnapshot b hb with ⟨hblt, hbeq⟩ | ⟨_, hbstamp, _⟩
      · rw [haeq, hbeq] at hab
        exact h.unique a b halt hblt hab
      · have := h.lt a halt
        rw [haeq] at hab
        omega
    · rcases hsnapshot b hb with ⟨hblt, hbeq⟩ | ⟨hbc, _, _⟩
      · have := h.lt b hblt
        rw [hbeq] at hab
        omega
      · rw [hac, hbc]

theorem Knows.change (h : r.Knows x) (hchange : Change r r') : r'.Knows x := by
  obtain ⟨hnext, c, hsnapshot⟩ := hchange.snapshots
  have hx := h.lt
  constructor
  · omega
  · intro a ha hstamp
    rcases hsnapshot a ha with ⟨hlt, heq⟩ | ⟨_, hnew, _⟩
    · rw [heq] at hstamp ⊢
      exact h.eq a hlt hstamp
    · omega

theorem Stamped.knows_snapshot (h : r.Stamped) (hc : c < r.cells.length) :
    r.Knows (r.snapshot c) := by
  constructor
  · exact h.lt c hc
  · intro a ha hstamp
    rw [h.unique a c ha hc hstamp]

theorem Stamped.changes (h : r.Stamped) (hchanges : Changes r r') : r'.Stamped := by
  induction hchanges with
  | refl => exact h
  | tail _ hchange ih => exact ih.change hchange

theorem Knows.changes (h : r.Knows x) (hchanges : Changes r r') : r'.Knows x := by
  induction hchanges with
  | refl => exact h
  | tail _ hchange ih => exact ih.change hchange

theorem stamped_fresh (limits : Limits) : (fresh limits).Stamped := by
  have hstamp : ∀ a, a < (fresh limits).cells.length → ((fresh limits).snapshot a).stamp = a := by
    intro a ha
    rw [length_fresh] at ha
    obtain ⟨k, rfl⟩ := KernelClass.isKernel_of_lt ha
    rw [snapshot_fresh]
  constructor
  · intro a ha
    rw [hstamp a ha, nextStamp_fresh]
    rwa [length_fresh] at ha
  · intro a b ha hb hab
    rwa [hstamp a ha, hstamp b hb] at hab

def Issued (r : Registry) (e : Edition) : Prop := ∃ x, r.Knows x ∧ x.edition? = some e

theorem Issued.changes {e : Edition} (h : r.Issued e) (hchanges : Changes r r') : r'.Issued e := by
  obtain ⟨x, hx, he⟩ := h
  exact ⟨x, hx.changes hchanges, he⟩

theorem lt_of_edition {e : Edition} (hc : r.edition? c = some e) : c < r.cells.length := by
  by_contra hle
  rw [edition?, snapshot_of_le (Nat.le_of_not_lt hle)] at hc
  contradiction

theorem Stamped.issued (h : r.Stamped) {e : Edition} (hc : r.edition? c = some e) : r.Issued e :=
  ⟨r.snapshot c, h.knows_snapshot (lt_of_edition hc), hc⟩

theorem stamp_edition {e : Edition} (hx : x.edition? = some e) : e.stamp = x.stamp := by
  obtain ⟨l, _, rfl⟩ := Option.map_eq_some_iff.mp hx
  rfl

/-- Stamps tell the current layout of a class from all that were issued before. -/
theorem Issued.eq_of_stamp {e e' : Edition} (h : r.Issued e) (hc : r.edition? c = some e')
    (hstamp : e'.stamp = e.stamp) : e' = e := by
  obtain ⟨x, hx, he⟩ := h
  have hsame : (r.snapshot c).stamp = x.stamp := by
    rw [← stamp_edition hc, ← stamp_edition he, hstamp]
  have hsnapshot := hx.eq c (lt_of_edition hc) hsame
  rw [edition?, hsnapshot, he] at hc
  exact (Option.some.inj hc).symm

end Metaobject.Registry
