import Metaobject.Archive.Directory
import Metaobject.Proofs.DecodeFaults
import Metaobject.Proofs.NeutralLoading

/-!
# Reports on loading

What is reported when a unit cannot be loaded is what went wrong in the first place, under the name of
the unit. Faults of the object system do not know the unit, and are put into it; all others name it
themselves, as long as archives and their faults carry the names that they were asked for by.
-/

namespace Metaobject

/-- An archive, or a fault in its place, carries the name. -/
def Archive.CarriesName (name : String) : Except CacheFault Archive → Prop
  | .ok a => a.name = name
  | .error f => f.name = name

/-- An opener whose archives and faults carry the names that they were asked for by. -/
def Opener.Faithful {σ : Type} (o : Opener σ Archive) : Prop :=
  ∀ name s, Archive.CarriesName name (o.openNamed name s).1

namespace Archive

variable {name : String}

theorem name_of_validateName {f : CacheFault} (h : validateName name = .error f) :
    f.name = name := by
  rw [validateName] at h
  split at h
  · cases h
    rfl
  · cases h

theorem carriesName_limited (limit : Nat) (name : String) (bytes : List UInt8) :
    CarriesName name (limited limit name bytes) := by
  rw [limited]
  split <;> rfl

end Archive

theorem MemoryArchives.faithful_opener (limit : Nat) : (opener limit).Faithful := by
  intro name archives
  simp only [opener]
  split
  · exact Archive.carriesName_limited limit name _
  · rfl

theorem DirectoryArchives.faithful_opener {σ : Type} (view : σ → FileView) (root : String)
    (limit : Nat) : (opener view root limit).Faithful := by
  intro name s
  change Archive.CarriesName name (path root name >>= fun p => ofEntry limit name (view s p))
  rw [path]
  cases hvalid : Archive.validateName name with
  | error f => exact Archive.name_of_validateName hvalid
  | ok u =>
    change Archive.CarriesName name (ofEntry limit name (view s _))
    unfold ofEntry
    split
    · exact Archive.carriesName_limited limit name _
    all_goals rfl

namespace Cache

variable {σ : Type} {o : Opener σ Archive} {c : Cache σ Archive}

def Named (c : Cache σ Archive) : Prop :=
  ∀ n x, c.holdings.find? n = some x → x.resource.name = n

theorem named_fresh (backend : σ) : (fresh backend : Cache σ Archive).Named := by
  intro n x hx
  cases hx

theorem carriesName_acquire (ho : o.Faithful) (hc : c.Named) (n : String) :
    Archive.CarriesName n (c.acquire o n).1 := by
  rw [acquire]
  cases hvalid : Archive.validateName n with
  | error f => exact Archive.name_of_validateName hvalid
  | ok u =>
    dsimp only
    cases hfind : c.holdings.find? n with
    | some x => exact hc n x hfind
    | none =>
      have hopen := ho n c.backend
      dsimp only
      cases hrun : o.openNamed n c.backend with
      | mk answer backend =>
        rw [hrun] at hopen
        cases answer <;> exact hopen

theorem Named.insert (hc : c.Named) {n : String} {x : Holding Archive} (hx : x.resource.name = n)
    (backend : σ) : Named ⟨backend, c.holdings.insert n x⟩ := by
  intro k y hy
  change (c.holdings.insert n x).find? k = some y at hy
  rw [Table.find?_insert] at hy
  split at hy
  · rename_i hk
    cases hy
    exact hx.trans hk
  · exact hc k y hy

theorem Named.perform (hc : c.Named) (ho : o.Faithful) (call : CacheCall σ) :
    (c.perform o call).Named := by
  cases call with
  | acquire n =>
    have hname := carriesName_acquire ho hc n
    change (c.acquire o n).2.Named
    rcases acquire_cases o c n with ⟨f, backend, _, hacquire, _⟩ | ⟨x, _, hfind, hacquire, _⟩ |
      ⟨r, backend, _, _, hacquire, _⟩
    · rw [hacquire]
      exact hc
    · rw [hacquire]
      exact hc.insert (x := { x with count := x.count + 1 }) (hc n x hfind) c.backend
    · rw [hacquire] at hname ⊢
      exact hc.insert (x := ⟨r, 1⟩) hname backend
  | release n =>
    change (c.release o n).2.Named
    rcases release_cases o c n with ⟨_, hrelease, _⟩ | ⟨x, hfind, _, hrelease, _⟩ |
      ⟨x, backend, _, _, hrelease, _⟩
    · rw [hrelease]
      exact hc
    · rw [hrelease]
      exact hc.insert (x := { x with count := x.count - 1 }) (hc n x hfind) c.backend
    · rw [hrelease]
      intro k y hy
      change (c.holdings.erase n).find? k = some y at hy
      rw [Table.find?_erase] at hy
      split at hy
      · cases hy
      · exact hc k y hy
  | change backend => exact hc

theorem Named.performAll (hc : c.Named) (ho : o.Faithful) (calls : List (CacheCall σ)) :
    (c.performAll o calls).Named := by
  induction calls generalizing c with
  | nil => exact hc
  | cons call rest ih => exact ih (hc.perform ho call)

end Cache

/-- A fault of installing a unit: one of the object system, or one of decoding, with the place in the
text if there is one. -/
inductive LoadFault.OfUnit (unit : String) : LoadFault → Prop
  | core (f : Fault) : OfUnit unit (.core f)
  | decode (place : Option Json.Position) (detail : String) :
      OfUnit unit (.decode unit (place.map Json.Position.line) (place.map Json.Position.column) detail)

namespace Installation

open LoadFault (OfUnit)

variable {unit : String}

theorem failsOnly_specializer (d : SpecializerDeclaration) :
    FailsOnly (OfUnit unit) (specializer unit d) := by
  cases d with
  | ofClass name => exact (failsOnly_core OfUnit.core _).map _
  | eql datum =>
    refine FailsOnly.map (fun m e m' h => ?_) _
    rw [runOn_literal] at h
    split at h
    · cases h
    · cases h
      exact .decode none _

theorem failsOnly_spec (d : MethodDeclaration) : FailsOnly (OfUnit unit) (spec unit d) := by
  refine (FailsOnly.mapM failsOnly_specializer _).bind fun specializers => ?_
  refine (failsOnly_core OfUnit.core _).bind fun function => ?_
  cases d.fastCode with
  | none => exact (failsOnly_pure none).bind fun _ => failsOnly_pure _
  | some code => exact ((failsOnly_core OfUnit.core _).map some).bind fun _ => failsOnly_pure _

theorem failsOnly_method (d : MethodDeclaration) : FailsOnly (OfUnit unit) (method unit d) :=
  (failsOnly_functionFor OfUnit.core d).bind fun _ => (failsOnly_spec d).bind fun _ =>
    (failsOnly_core OfUnit.core _).discard

theorem failsOnly_install (u : DefinitionUnit) : FailsOnly (OfUnit unit) (install unit u) := by
  refine FailsOnly.bind (.forM (fun d => (failsOnly_core OfUnit.core _).discard) _) fun _ => ?_
  refine FailsOnly.bind (.mapM (failsOnly_function OfUnit.core) _) fun _ => ?_
  exact FailsOnly.bind (.forM failsOnly_method _) fun _ => failsOnly_pure _

theorem failsOnly_installArchive (a : Archive) : FailsOnly (OfUnit a.name) (installArchive a) := by
  unfold installArchive
  split
  · exact failsOnly_throw (.decode none _)
  · refine FailsOnly.bind ?_ fun u => failsOnly_install u
    unfold decode
    split
    · exact failsOnly_pure _
    · rename_i f _
      exact failsOnly_throw (.decode f.place _)

end Installation

namespace LoadFault

variable {unit : String} {e : LoadFault}

/-- What went wrong in the first place. -/
def root : LoadFault → LoadFault
  | .inUnit _ source => source.root
  | f => f

/-- The line and the column of a fault of decoding that has a place in the text. -/
def position? : LoadFault → Option (Nat × Nat)
  | .decode _ (some line) (some column) _ => some (line, column)
  | _ => none

theorem within_within (a b : String) (e : LoadFault) : (e.within b).within a = e.within b := by
  cases e <;> rfl

theorem OfUnit.report_within (h : OfUnit unit e) (print : Value → String) :
    (e.within unit).report print =
      ⟨e.phase, some unit, e.position?.map Prod.fst, e.position?.map Prod.snd, e.errorKind,
        e.message print⟩ := by
  cases h with
  | core f => rfl
  | decode place detail => cases place <;> rfl

theorem OfUnit.unit_within (h : OfUnit unit e) : (e.within unit).unit = some unit := by
  cases h <;> rfl

theorem OfUnit.root_within (h : OfUnit unit e) : (e.within unit).root = e := by
  cases h <;> rfl

theorem OfUnit.core_of_inUnit (h : OfUnit unit e) {u : String} {source : LoadFault}
    (hin : e.within unit = .inUnit u source) : ∃ f, source = .core f := by
  cases h with
  | core f =>
    cases hin
    exact ⟨f, rfl⟩
  | decode place detail => cases hin

end LoadFault

namespace Loader

variable {σ : Type} {o : Opener σ Archive} {l : Loader σ} {name : String} {f : LoadFault}

theorem Reachable.named (h : Reachable o l) (ho : o.Faithful) : l.cache.Named := by
  obtain ⟨backend, calls, hcache⟩ := h.calls
  rw [hcache]
  exact (Cache.named_fresh backend).performAll ho calls

/-- A unit cannot be loaded since its archive cannot be had, or since it cannot be installed. -/
inductive Failing (o : Opener σ Archive) (name : String) (l : Loader σ) : LoadFault → Prop
  | acquire {c : CacheFault} (h : (l.cache.acquire o name).1 = .error c) (hname : c.name = name) :
      Failing o name l (.cache c)
  | install {a : Archive} {e : LoadFault} (h : (l.cache.acquire o name).1 = .ok a)
      (hrun : ((Installation.installArchive a).runOn l.image).1 = .error e)
      (he : LoadFault.OfUnit name e) : Failing o name l (e.within name)

theorem failing_loadUnit (h : Reachable o l) (ho : o.Faithful)
    (hf : (l.loadUnit o name).1 = .error f) : Failing o name l f := by
  have hcarries := Cache.carriesName_acquire ho (h.named ho) name
  cases hacquire : (l.cache.acquire o name).1 with
  | error c =>
    rw [hacquire] at hcarries
    rw [loadUnit_of_error hacquire] at hf
    cases hf
    exact .acquire hacquire hcarries
  | ok a =>
    rw [hacquire] at hcarries
    rw [loadUnit_of_acquire hacquire] at hf
    cases hrun : (Installation.installArchive a).runOn l.image with
    | mk answer next =>
      rw [hrun] at hf
      cases answer with
      | ok report => cases hf
      | error e =>
        cases hf
        have he := Installation.failsOnly_installArchive a l.image e next hrun
        rw [show a.name = name from hcarries] at he
        exact .install hacquire (congrArg Prod.fst hrun) he

def unfinishedUnit : Loader MemoryArchives :=
  fresh Settings.standard (Table.empty.insert "open.json" (Text.Utf8.encode "\x7b\"classes\":"))

end Loader

end Metaobject
