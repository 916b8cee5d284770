import Metaobject.Proofs.LiteralIdentity
import Metaobject.Proofs.LoadedImages
import Metaobject.Proofs.Prevailing

/-!
# Declarations of units

What a declaration of a class, a function or a method comes to in an image, and what keeps it: more
names may be bound, more functions may be made, and methods may be added.
-/

namespace Metaobject

def SpecializerDeclaration.IsPlain : SpecializerDeclaration → Prop
  | .ofClass _ => True
  | .eql datum => datum.IsPlainLiteral

def MethodDeclaration.IsPlain (d : MethodDeclaration) : Prop := ∀ s ∈ d.specializers, s.IsPlain

instance : (s : SpecializerDeclaration) → Decidable s.IsPlain
  | .ofClass _ => isTrue trivial
  | .eql datum => inferInstanceAs (Decidable datum.IsPlainLiteral)

instance (d : MethodDeclaration) : Decidable d.IsPlain :=
  inferInstanceAs (Decidable (∀ s ∈ d.specializers, s.IsPlain))

def MethodDeclaration.reading (d : MethodDeclaration) (specializers : List Specializer) :
    MethodReading :=
  ⟨specializers, d.qualifiers, d.lambdaList, d.documentation, d.code, d.fastCode⟩

/-- What is read of a specializer that is declared: the class of a name, or the value of a literal
with identities from one on and before another one. -/
inductive Registry.Reads (r : Registry) (first last : ObjectId) :
    SpecializerDeclaration → Specializer → Prop
  | ofClass {n : Symbol} {c : ClassId} (h : r.lookup n = some c) :
      Reads r first last (.ofClass n) (.ofClass c)
  | eql {j : Json} {v : Value} {a b : ObjectId} (hfirst : first ≤ a)
      (h : Literal.read j a = .ok (v, b)) (hlast : b ≤ last) : Reads r first last (.eql j) (.eql v)

section Reading

variable {r r' : Registry} {s : SpecializerDeclaration} {x : Specializer}
  {first last first' last' : ObjectId}

theorem Registry.Reads.kept (h : r.Reads first last s x)
    (hkept : ∀ n c, r.lookup n = some c → r'.lookup n = some c) : r'.Reads first last s x := by
  cases h with
  | ofClass h => exact .ofClass (hkept _ _ h)
  | eql hfirst h hlast => exact .eql hfirst h hlast

theorem Registry.Reads.widen (h : r.Reads first last s x) (hfirst : first' ≤ first)
    (hlast : last ≤ last') : r.Reads first' last' s x := by
  cases h with
  | ofClass h => exact .ofClass h
  | eql hle h hle' => exact .eql (Nat.le_trans hfirst hle) h (Nat.le_trans hle' hlast)

theorem Registry.Reads.read_plain {j : Json} {v : Value} (h : r.Reads first last (.eql j) (.eql v))
    (hj : j.IsPlainLiteral) :
    v.IsPlain ∧ ∀ next, ∃ next', Literal.read j next = .ok (v, next') := by
  cases h with
  | eql _ hread _ => exact Literal.read_again hj hread

theorem Registry.Reads.isPlain (h : r.Reads first last s x) (hs : s.IsPlain) : x.IsPlain := by
  cases x with
  | ofClass c => trivial
  | eql v =>
    cases s with
    | ofClass n => cases h
    | eql j => exact (h.read_plain hs).1

end Reading

theorem exists_of_forall₂ {α β : Type} {R : α → β → Prop} {l : List α} {l' : List β} {y : β}
    (h : List.Forall₂ R l l') (hy : y ∈ l') : ∃ x ∈ l, R x y := by
  induction h with
  | nil => contradiction
  | @cons a b l l' hab _ ih =>
    rcases List.mem_cons.mp hy with rfl | hy
    · exact ⟨a, List.mem_cons_self, hab⟩
    · obtain ⟨x, hx, hxy⟩ := ih hy
      exact ⟨x, List.mem_cons_of_mem a hx, hxy⟩

theorem GenericFunction.required_of_head {f f' : GenericFunction} (h : f'.head = f.head) :
    f'.required = f.required :=
  congrArg (fun x : Symbol × List Symbol × Option String => requiredCount x.2.1) h

namespace Image

variable {m m' m'' : Image} {d : MethodDeclaration} {e : FunctionDeclaration} {g : FunctionId}
  {t : MethodReading} {f : GenericFunction} {first last : ObjectId} {ds : List MethodDeclaration}
  {jobs : List (FunctionId × MethodReading)}

/-- More names may be bound, and more functions may be there. -/
structure Grown (m m' : Image) : Prop where
  registry : ∃ names, m.registry.Grown m'.registry names
  findFunction : ∀ n g, m.findFunction n = some g → m'.findFunction n = some g
  length : m.functions.length ≤ m'.functions.length
  head : ∀ g, g < m.functions.length → (m'.function g).head = (m.function g).head

/-- Only the methods of functions may be others. -/
structure Alike (m m' : Image) : Prop where
  registry : m'.registry = m.registry
  functionNames : m'.functionNames = m.functionNames
  length : m'.functions.length = m.functions.length
  head : ∀ g, (m'.function g).head = (m.function g).head

theorem Grown.refl (m : Image) : m.Grown m :=
  ⟨⟨[], .refl m.registry []⟩, fun _ _ h => h, Nat.le_refl _, fun _ _ => rfl⟩

theorem Grown.trans (h : m.Grown m') (h' : m'.Grown m'') : m.Grown m'' where
  registry := by
    obtain ⟨names, hnames⟩ := h.registry
    obtain ⟨names', hnames'⟩ := h'.registry
    exact ⟨names ++ names', hnames.trans hnames'⟩
  findFunction n g hn := h'.findFunction n g (h.findFunction n g hn)
  length := Nat.le_trans h.length h'.length
  head g hg := (h'.head g (Nat.lt_of_lt_of_le hg h.length)).trans (h.head g hg)

theorem Grown.lookup (h : m.Grown m') {n : Symbol} {c : ClassId}
    (hn : m.registry.lookup n = some c) : m'.registry.lookup n = some c := by
  obtain ⟨names, hnames⟩ := h.registry
  exact hnames.lookup_of_some hn

theorem Alike.refl (m : Image) : m.Alike m := ⟨rfl, rfl, rfl, fun _ => rfl⟩

theorem Alike.trans (h : m.Alike m') (h' : m'.Alike m'') : m.Alike m'' where
  registry := h'.registry.trans h.registry
  functionNames := h'.functionNames.trans h.functionNames
  length := h'.length.trans h.length
  head g := (h'.head g).trans (h.head g)

theorem Alike.grown (h : m.Alike m') : m.Grown m' where
  registry := by
    rw [h.registry]
    exact ⟨[], .refl m.registry []⟩
  findFunction n g hn := by
    rw [Image.findFunction, h.functionNames]
    exact hn
  length := Nat.le_of_eq h.length.symm
  head g _ := h.head g

theorem grown_withFunction (hname : m.findFunction f.name = none) : m.Grown (m.withFunction f) where
  registry := ⟨[], .refl m.registry []⟩
  findFunction n g hn := by
    rw [findFunction_withFunction]
    split
    · rename_i heq
      rw [heq, hn] at hname
      contradiction
    · exact hn
  length := by
    rw [length_withFunction]
    exact Nat.le_succ _
  head g hg := by
    rw [function_withFunction_of_lt hg]

theorem alike_setMethods (m : Image) (g : FunctionId) (methods : List InstanceId) :
    m.Alike (m.setMethods g methods) where
  registry := rfl
  functionNames := rfl
  length := length_setMethods
  head := head_setMethods methods

/-- What the declaration of a method comes to: its function, and what will be read of it. -/
structure Means (m : Image) (first last : ObjectId) (d : MethodDeclaration) (g : FunctionId)
    (t : MethodReading) : Prop where
  function : m.findFunction d.function = some g
  specializers : List.Forall₂ (m.registry.Reads first last) d.specializers t.specializers
  reading : t = d.reading t.specializers
  fits : t.specializers.length = (m.function g).required

theorem Means.isPlain (h : m.Means first last d g t) (hd : d.IsPlain) : t.IsPlain := by
  intro x hx
  obtain ⟨s, hs, hread⟩ := exists_of_forall₂ h.specializers hx
  exact hread.isPlain (hd s hs)

theorem Means.restates {r : Registry} (h : m.Means first last d g t)
    (hr : m.registry.Restates r) : Means { m with registry := r } first last d g t where
  function := h.function
  specializers := by
    apply h.specializers.imp
    intro s x hx
    apply hx.kept
    intro n c hn
    rw [hr.lookup]
    exact hn
  reading := h.reading
  fits := h.fits

theorem Means.grown (h : m.Means first last d g t) (hm : m.Loaded) (hgrown : m.Grown m') :
    m'.Means first last d g t where
  function := hgrown.findFunction _ _ h.function
  specializers := h.specializers.imp fun _ _ hx => hx.kept fun _ _ => hgrown.lookup
  reading := h.reading
  fits := by
    rw [GenericFunction.required_of_head (hgrown.head g (hm.functions _ g h.function))]
    exact h.fits

inductive Declares (m : Image) :
    ObjectId → List MethodDeclaration → List (FunctionId × MethodReading) → Prop
  | nil (first : ObjectId) : Declares m first [] []
  | cons {first next : ObjectId} {d : MethodDeclaration} {j : FunctionId × MethodReading}
      {ds : List MethodDeclaration} {jobs : List (FunctionId × MethodReading)}
      (hle : first ≤ next) (hd : m.Means first next d j.1 j.2) (hrest : Declares m next ds jobs) :
      Declares m first (d :: ds) (j :: jobs)

theorem Declares.isPlain (h : m.Declares first ds jobs) (hds : ∀ d ∈ ds, d.IsPlain) :
    ∀ j ∈ jobs, j.2.IsPlain := by
  induction h with
  | nil => exact fun j hj => absurd hj List.not_mem_nil
  | @cons _ _ d j ds jobs _ hd _ ih =>
    intro x hx
    rcases List.mem_cons.mp hx with rfl | hx
    · exact hd.isPlain (hds d List.mem_cons_self)
    · exact ih (fun y hy => hds y (List.mem_cons_of_mem d hy)) x hx

theorem Declares.restates {r : Registry} (h : m.Declares first ds jobs)
    (hr : m.registry.Restates r) : Declares { m with registry := r } first ds jobs := by
  induction h with
  | nil first => exact .nil first
  | cons hle hd _ ih => exact .cons hle (hd.restates hr) ih

theorem Declares.grown (h : m.Declares first ds jobs) (hm : m.Loaded) (hgrown : m.Grown m') :
    m'.Declares first ds jobs := by
  induction h with
  | nil first => exact .nil first
  | cons hle hd _ ih => exact .cons hle (hd.grown hm hgrown) ih

/-- The function of a declaration is there and takes as many parameters as are declared. -/
def Ensures (m : Image) (e : FunctionDeclaration) : Prop :=
  ∃ g, m.findFunction e.name = some g ∧ (m.function g).required = requiredCount e.lambdaList

theorem Ensures.grown (h : m.Ensures e) (hm : m.Loaded) (hgrown : m.Grown m') : m'.Ensures e := by
  obtain ⟨g, hg, hrequired⟩ := h
  refine ⟨g, hgrown.findFunction _ _ hg, ?_⟩
  rw [GenericFunction.required_of_head (hgrown.head g (hm.functions _ g hg))]
  exact hrequired

/-- The declarations of a unit are in the image, of several with one name the last one. -/
structure Holds (m : Image) (u : DefinitionUnit) (jobs : List (FunctionId × MethodReading)) :
    Prop where
  loaded : m.Loaded
  classes : ∀ d ∈ prevailing (sameKey ClassDefinition.name) u.classes,
    ∃ c supers, m.registry.Stands d c supers
  functions : ∀ e ∈ prevailing (sameKey FunctionDeclaration.name) u.functions, m.Ensures e
  methods : ∃ first, m.Declares first u.methods jobs

end Image

end Metaobject
