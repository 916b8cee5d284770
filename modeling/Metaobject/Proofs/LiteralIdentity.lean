import Metaobject.Literal
import Metaobject.Proofs.MethodTables
import Metaobject.Proofs.Outline

/-!
# Identity of literals

Reading a literal takes identities for the strings and lists in it, from the next free one on. A
literal without any is the same value whenever it is read, and what is read of another one is no
other object. So it can be told from two literals whether their values will be the same.
-/

namespace Metaobject

/-- A literal that is the same value whenever it is read. -/
def Json.IsPlainLiteral : Json → Prop
  | .null | .bool _ | .number _ | .string _ | .array [] => True
  | .array (_ :: _) | .object _ => False

instance : (j : Json) → Decidable j.IsPlainLiteral
  | .null | .bool _ | .number _ | .string _ | .array [] => isTrue trivial
  | .array (_ :: _) | .object _ => isFalse id

def Value.identity? : Value → Option ObjectId
  | .string id _ | .list id _ => some id
  | _ => none

theorem Value.identity?_of_eql {v w : Value} (h : v.eql w = true) :
    v.identity? = w.identity? := by
  cases v <;> cases w <;> simp_all [eql, equal, identity?]

theorem Value.identity?_of_isPlain {v : Value} (h : v.IsPlain) : v.identity? = none := by
  cases v <;> first | rfl | contradiction

namespace Literal

variable {j j' : Json} {v w : Value} {a b a' b' : ObjectId}

theorem read_plain (h : j.IsPlainLiteral) :
    ∃ v : Value, v.IsPlain ∧ ∀ next, ∃ next', read j next = .ok (v, next') := by
  cases j with
  | null => exact ⟨.nil, trivial, fun next => ⟨next, by rw [read]⟩⟩
  | bool b =>
    cases b with
    | false => exact ⟨.nil, trivial, fun next => ⟨next, by rw [read]⟩⟩
    | true => exact ⟨.symbol ⟨"T"⟩, trivial, fun next => ⟨next, by rw [read]⟩⟩
  | number n =>
    cases hint : n.toInt? with
    | some i => exact ⟨.integer i, trivial, fun next => ⟨next, by rw [read, hint]⟩⟩
    | none => exact ⟨.float n.toDouble, trivial, fun next => ⟨next, by rw [read, hint]⟩⟩
  | string name => exact ⟨.symbol ⟨name⟩, trivial, fun next => ⟨next, by rw [read]⟩⟩
  | array items =>
    cases items with
    | nil => exact ⟨.nil, trivial, fun next => ⟨next + 1, by rw [read, readItems]; rfl⟩⟩
    | cons j rest => contradiction
  | object fields => contradiction

theorem read_again (hj : j.IsPlainLiteral) (h : read j a = .ok (v, b)) :
    v.IsPlain ∧ ∀ next, ∃ next', read j next = .ok (v, next') := by
  obtain ⟨w, hw, hreads⟩ := read_plain hj
  obtain ⟨_, hread⟩ := hreads a
  cases h.symm.trans hread
  exact ⟨hw, hreads⟩

theorem readItems_cons_eq_ok {rest : List Json} {values : List Value}
    (h : readItems (j :: rest) a = .ok (values, b)) :
    ∃ v next vs, read j a = .ok (v, next) ∧ readItems rest next = .ok (vs, b) ∧
      values = v :: vs := by
  rw [readItems] at h
  cases hread : read j a with
  | error j => rw [hread] at h; contradiction
  | ok p =>
    obtain ⟨v, next⟩ := p
    rw [hread, ok_bind] at h
    dsimp only at h
    cases hrest : readItems rest next with
    | error j => rw [hrest] at h; contradiction
    | ok q =>
      obtain ⟨vs, last⟩ := q
      rw [hrest] at h
      cases h
      exact ⟨v, next, vs, rfl, hrest, rfl⟩

theorem read_array_eq_ok {items : List Json} (h : read (.array items) a = .ok (v, b)) :
    ∃ values next, readItems items a = .ok (values, next) ∧ v = Value.ofItems next values ∧
      b = next + 1 := by
  rw [read] at h
  cases hitems : readItems items a with
  | error j => rw [hitems] at h; contradiction
  | ok p =>
    obtain ⟨values, next⟩ := p
    rw [hitems] at h
    cases h
    exact ⟨values, next, rfl, rfl, rfl⟩

theorem read_object_eq_ok {fields : List (String × Json)}
    (h : read (.object fields) a = .ok (v, b)) : ∃ text, v = .string a text ∧ b = a + 1 := by
  unfold read at h
  split at h
  case h_7 key text _ =>
    split at h
    · cases h
      exact ⟨text, rfl, rfl⟩
    · contradiction
  all_goals contradiction

mutual

theorem read_le : (j : Json) → {a b : ObjectId} → {v : Value} → read j a = .ok (v, b) → a ≤ b
  | .array items, a, b, v, h => by
    obtain ⟨values, next, hitems, _, rfl⟩ := read_array_eq_ok h
    exact Nat.le_succ_of_le (readItems_le items hitems)
  | .object fields, a, b, v, h => by
    obtain ⟨_, _, rfl⟩ := read_object_eq_ok h
    exact Nat.le_succ a
  | .null, a, b, v, h => by
    rw [read] at h
    cases h
    exact Nat.le_refl a
  | .bool true, a, b, v, h => by
    rw [read] at h
    cases h
    exact Nat.le_refl a
  | .bool false, a, b, v, h => by
    rw [read] at h
    cases h
    exact Nat.le_refl a
  | .number n, a, b, v, h => by
    rw [read] at h
    split at h <;> (cases h; exact Nat.le_refl a)
  | .string name, a, b, v, h => by
    rw [read] at h
    cases h
    exact Nat.le_refl a

theorem readItems_le : (items : List Json) → {a b : ObjectId} → {values : List Value} →
    readItems items a = .ok (values, b) → a ≤ b
  | [], a, b, values, h => by
    rw [readItems] at h
    cases h
    exact Nat.le_refl a
  | j :: rest, a, b, values, h => by
    obtain ⟨v, next, vs, hread, hrest, _⟩ := readItems_cons_eq_ok h
    exact Nat.le_trans (read_le j hread) (readItems_le rest hrest)

end

/-- What is read of other literals is a new object. -/
theorem read_fresh (h : ¬j.IsPlainLiteral) (hread : read j a = .ok (v, b)) :
    ∃ id, v.identity? = some id ∧ a ≤ id ∧ id < b := by
  cases j with
  | null | bool _ | number _ | string _ => exact absurd trivial h
  | object fields =>
    obtain ⟨text, rfl, rfl⟩ := read_object_eq_ok hread
    exact ⟨a, rfl, Nat.le_refl a, Nat.lt_succ_self a⟩
  | array items =>
    cases items with
    | nil => exact absurd trivial h
    | cons j rest =>
      obtain ⟨values, next, hitems, rfl, rfl⟩ := read_array_eq_ok hread
      obtain ⟨x, _, xs, _, _, rfl⟩ := readItems_cons_eq_ok hitems
      exact ⟨next, rfl, readItems_le (j :: rest) hitems, Nat.lt_succ_self next⟩

/-- Whether two literals that are read one after the other are the same value. -/
def same (j j' : Json) : Bool :=
  match read j 0 with
  | .error _ => false
  | .ok (v, next) =>
    match read j' next with
    | .error _ => false
    | .ok (w, _) => v.eql w

theorem exists_of_same (h : same j j' = true) :
    ∃ v w next last, read j 0 = .ok (v, next) ∧ read j' next = .ok (w, last) ∧ v.eql w = true := by
  rw [same] at h
  split at h
  · contradiction
  · rename_i v next hv
    split at h
    · contradiction
    · rename_i w last hw
      exact ⟨v, w, next, last, hv, hw, h⟩

theorem isPlainLiteral_of_eql (hv : read j a = .ok (v, b)) (hw : read j' a' = .ok (w, b'))
    (hle : b ≤ a') (h : v.eql w = true) : j.IsPlainLiteral ∧ j'.IsPlainLiteral := by
  have hidentity := Value.identity?_of_eql h
  by_cases hj : j.IsPlainLiteral
  · refine ⟨hj, ?_⟩
    by_contra hj'
    obtain ⟨id, hid, _⟩ := read_fresh hj' hw
    rw [Value.identity?_of_isPlain (read_again hj hv).1, hid] at hidentity
    contradiction
  · -- The object that was read before was made before, and is none that is read later.
    obtain ⟨id, hid, _, hlt⟩ := read_fresh hj hv
    by_cases hj' : j'.IsPlainLiteral
    · rw [hid, Value.identity?_of_isPlain (read_again hj' hw).1] at hidentity
      contradiction
    · obtain ⟨id', hid', hge, _⟩ := read_fresh hj' hw
      rw [hid, hid'] at hidentity
      cases hidentity
      exact absurd hlt (Nat.not_lt.mpr (Nat.le_trans hle hge))

/-- Whenever two literals are read one after the other, they tell whether the values are the same. -/
theorem eql_eq_same (hv : read j a = .ok (v, b)) (hw : read j' a' = .ok (w, b')) (hle : b ≤ a') :
    v.eql w = same j j' := by
  rw [Bool.eq_iff_iff]
  constructor
  · intro h
    obtain ⟨hj, hj'⟩ := isPlainLiteral_of_eql hv hw hle h
    obtain ⟨first, hfirst⟩ := (read_again hj hv).2 0
    obtain ⟨_, hsecond⟩ := (read_again hj' hw).2 first
    rw [same, hfirst]
    dsimp only
    rw [hsecond]
    exact h
  · intro h
    obtain ⟨x, y, next, last, hx, hy, h⟩ := exists_of_same h
    obtain ⟨hj, hj'⟩ := isPlainLiteral_of_eql hx hy (Nat.le_refl next) h
    obtain ⟨_, hx'⟩ := (read_again hj hx).2 a
    obtain ⟨_, hy'⟩ := (read_again hj' hy).2 a'
    cases hv.symm.trans hx'
    cases hw.symm.trans hy'
    exact h

end Literal

end Metaobject
