import Metaobject.Proofs.InstallationSteps
import Metaobject.Proofs.LiteralIdentity

/-!
# Values of literals

What a literal becomes, and which object is reported if it becomes nothing. Only objects can be
refused, and only those that are met when nothing but lists is entered. The first of them, from left
to right, is the one that is reported.
-/

namespace Metaobject.Literal

section Objects

mutual

/-- The objects that are met in a literal, from left to right. Objects are not entered. -/
def objects : Json → List Json
  | .array items => objectsOfItems items
  | .object fields => [.object fields]
  | .null | .bool _ | .number _ | .string _ => []

def objectsOfItems : List Json → List Json
  | [] => []
  | j :: rest => objects j ++ objectsOfItems rest

end

/-- Whether an object has text in its one field, which is `string`. -/
def isText : Json → Bool
  | .object [(key, .string _)] => key = "string"
  | _ => false

/-- The first object of a literal that is no text. -/
def FirstRefused (j o : Json) : Prop :=
  ∃ before after, objects j = before ++ o :: after ∧ isText o = false ∧
    ∀ b ∈ before, isText b = true

end Objects

section Values

/-- What literals stand for, whichever identities the strings and lists of the value get. -/
inductive Denotes : Json → Value → Prop
  | null : Denotes .null .nil
  | no : Denotes (.bool false) .nil
  | yes : Denotes (.bool true) (.symbol ⟨"T"⟩)
  | natural {n : Nat} : n < Nat.pow 2 63 → Denotes (.number (.natural n)) (.integer n)
  | large {n : Nat} : Nat.pow 2 63 ≤ n → Denotes (.number (.natural n)) (.float (Double.ofNat n))
  | negative (n : Nat) : Denotes (.number (.negative n)) (.integer (-n))
  | real (x : Double) : Denotes (.number (.real x)) (.float x)
  | symbol (name : String) : Denotes (.string name) (.symbol ⟨name⟩)
  | text (id : ObjectId) (text : String) :
      Denotes (.object [("string", .string text)]) (.string id text)
  | empty : Denotes (.array []) .nil
  | list (id : ObjectId) {items : List Json} {values : List Value} : items ≠ [] →
      List.Forall₂ Denotes items values → Denotes (.array items) (.list id values)

end Values

section Reading

variable {j o : Json} {items : List Json} {v : Value} {next last : ObjectId}

theorem read_text (text : String) (next : ObjectId) :
    read (.object [("string", .string text)]) next = .ok (.string next text, next + 1) := by
  rw [read, if_pos rfl]

theorem exists_of_isText (h : isText j = true) :
    ∃ text, j = .object [("string", .string text)] := by
  unfold isText at h
  split at h
  · rename_i key text
    rw [decide_eq_true_iff] at h
    exact ⟨text, by rw [h]⟩
  · contradiction

theorem read_of_not_isText {fields : List (String × Json)} (h : isText (.object fields) = false)
    (next : ObjectId) : read (.object fields) next = .error (.object fields) := by
  unfold read
  split
  case h_7 _ _ _ key text heq =>
    cases heq
    exact if_neg (of_decide_eq_false h)
  case h_8 heq =>
    cases heq
    rfl
  all_goals contradiction

def firstRefused (os : List Json) : Option Json := os.find? fun o => !isText o

theorem firstRefused_append (os os' : List Json) :
    firstRefused (os ++ os') = (firstRefused os).or (firstRefused os') :=
  List.find?_append

theorem firstRefused_eq_some : firstRefused (objects j) = some o ↔ FirstRefused j o := by
  simp only [firstRefused, List.find?_eq_some_iff_append, FirstRefused, Bool.not_eq_true',
    Bool.not_not]
  constructor
  · rintro ⟨hother, before, after, heq, hbefore⟩
    exact ⟨before, after, heq, hother, hbefore⟩
  · rintro ⟨before, after, heq, hother, hbefore⟩
    exact ⟨hother, before, after, heq, hbefore⟩

theorem firstRefused_eq_none :
    firstRefused (objects j) = none ↔ ∀ o ∈ objects j, isText o = true := by
  simp [firstRefused, List.find?_eq_none]

def reported {α : Type} : Except Json α → Option Json
  | .error o => some o
  | .ok _ => none

mutual

theorem reported_read : (j : Json) → (next : ObjectId) →
    reported (read j next) = firstRefused (objects j)
  | .null, next => by rw [read]; rfl
  | .bool false, next => by rw [read]; rfl
  | .bool true, next => by rw [read]; rfl
  | .number n, next => by
    rw [read]
    cases n.toInt? <;> rfl
  | .string name, next => by rw [read]; rfl
  | .array items, next => by
    rw [objects, ← reported_readItems items next, read]
    cases readItems items next <;> rfl
  | .object fields, next => by
    rw [objects, firstRefused, List.find?_singleton]
    cases h : isText (.object fields) with
    | true =>
      obtain ⟨text, heq⟩ := exists_of_isText h
      rw [heq, read_text]
      rfl
    | false =>
      rw [read_of_not_isText h]
      rfl

theorem reported_readItems : (items : List Json) → (next : ObjectId) →
    reported (readItems items next) = firstRefused (objectsOfItems items)
  | [], next => by rw [readItems]; rfl
  | j :: rest, next => by
    rw [objectsOfItems, firstRefused_append, ← reported_read j next, readItems]
    cases hread : read j next with
    | error o => rfl
    | ok p =>
      obtain ⟨v, last⟩ := p
      rw [← reported_readItems rest last]
      change reported (readItems rest last >>= _) = _
      cases readItems rest last <;> rfl

end

mutual

/-- What a literal is read as is what it stands for. -/
theorem denotes_of_read : (j : Json) → {v : Value} → {next last : ObjectId} →
    read j next = .ok (v, last) → Denotes j v
  | .null, v, next, last, h => by
    rw [read] at h
    cases h
    exact .null
  | .bool false, v, next, last, h => by
    rw [read] at h
    cases h
    exact .no
  | .bool true, v, next, last, h => by
    rw [read] at h
    cases h
    exact .yes
  | .number (.natural n), v, next, last, h => by
    rw [read, Json.Number.toInt?] at h
    by_cases hn : n < Nat.pow 2 63
    · rw [if_pos hn] at h
      cases h
      exact .natural hn
    · rw [if_neg hn] at h
      cases h
      exact .large (Nat.le_of_not_lt hn)
  | .number (.negative n), v, next, last, h => by
    rw [read, Json.Number.toInt?] at h
    cases h
    exact .negative n
  | .number (.real x), v, next, last, h => by
    rw [read, Json.Number.toInt?] at h
    cases h
    exact .real x
  | .string name, v, next, last, h => by
    rw [read] at h
    cases h
    exact .symbol name
  | .array [], v, next, last, h => by
    rw [read, readItems] at h
    cases h
    exact .empty
  | .array (j :: rest), v, next, last, h => by
    obtain ⟨values, free, hitems, rfl, _⟩ := read_array_eq_ok h
    have hvalues := denotes_of_readItems (j :: rest) hitems
    cases hvalues with
    | cons hfirst hrest => exact .list free (List.cons_ne_nil j rest) (.cons hfirst hrest)
  | .object fields, v, next, last, h => by
    cases htext : isText (.object fields) with
    | true =>
      obtain ⟨text, heq⟩ := exists_of_isText htext
      rw [heq, read_text] at h
      cases h
      rw [heq]
      exact .text next text
    | false =>
      rw [read_of_not_isText htext] at h
      contradiction

theorem denotes_of_readItems : (items : List Json) → {values : List Value} →
    {next last : ObjectId} → readItems items next = .ok (values, last) →
    List.Forall₂ Denotes items values
  | [], values, next, last, h => by
    rw [readItems] at h
    cases h
    exact .nil
  | j :: rest, values, next, last, h => by
    obtain ⟨v, middle, vs, hread, hrest, rfl⟩ := readItems_cons_eq_ok h
    exact .cons (denotes_of_read j hread) (denotes_of_readItems rest hrest)

end

theorem read_eq_error : read j next = .error o ↔ FirstRefused j o := by
  rw [← firstRefused_eq_some, ← reported_read j next]
  cases read j next <;> simp [reported]

theorem exists_read_eq_error :
    (∃ o, read j next = .error o) ↔ ∃ o ∈ objects j, isText o = false := by
  have hnone : reported (read j next) = none ↔ ∀ o ∈ objects j, isText o = true := by
    rw [reported_read, firstRefused_eq_none]
  cases hread : read j next with
  | error o =>
    rw [hread] at hnone
    simpa [reported] using hnone
  | ok p =>
    rw [hread] at hnone
    simpa [reported] using hnone

theorem runOn_literal_of_firstRefused (h : FirstRefused j o) (unit : String) (m : Image) :
    (Installation.literal unit j).runOn m =
      (.error (.decode unit none none ("unsupported literal object " ++ o.text)), m) := by
  rw [Installation.runOn_literal, read_eq_error.mpr h]
  rfl

/-- A literal is refused exactly if one of its objects is no text, and the first one that is none is
reported. Any other literal becomes the value that it stands for. -/
theorem literals_convert (j : Json) (next : ObjectId) :
    ((∃ o, read j next = .error o) ↔ ∃ o ∈ objects j, isText o = false) ∧
    (∀ o, read j next = .error o ↔ FirstRefused j o) ∧
    (∀ o, FirstRefused j o → ∀ unit m, (Installation.literal unit j).runOn m =
      (.error (.decode unit none none ("unsupported literal object " ++ o.text)), m)) ∧
    ∀ v last, read j next = .ok (v, last) → Denotes j v :=
  ⟨exists_read_eq_error, fun _ => read_eq_error, fun _ => runOn_literal_of_firstRefused,
    fun _ _ => denotes_of_read j⟩

/-- A list with a list in it, and one of which two objects are no text. -/
theorem nested_literals_convert :
    let listed : Json := .array [.number (.natural 1),
      .array [.string "RED", .object [("string", .string "hi")], .array []], .bool true]
    let refused : Json := .array [.array [.object [("string", .string "hi")],
      .object [("vector", .array [])]], .object []]
    (∃ v last, read listed 0 = .ok (v, last) ∧ Denotes listed v) ∧
      read refused 0 = .error (.object [("vector", .array [])]) := by
  intro listed refused
  constructor
  · obtain ⟨_, _, _, hvalue⟩ := literals_convert listed 0
    exact ⟨_, _, rfl, hvalue _ _ rfl⟩
  · obtain ⟨_, hreported, _⟩ := literals_convert refused 0
    exact (hreported _).mpr
      ⟨[.object [("string", .string "hi")]], [.object []], rfl, rfl, by simp [isText]⟩

end Reading

end Metaobject.Literal
