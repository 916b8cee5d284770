import Metaobject.Archive.Directory
import Metaobject.Archive.Memory
import Metaobject.Proofs.CacheRequests

/-!
# Names of archives

A name is accepted if no segment of it is empty or leads upwards. The path of such an archive has
the segments of the root and then those of the name, so whatever files there are, it leads to a
place below the one where the root leads. Any other name is refused before something is opened.
-/

namespace Metaobject

namespace Path

variable {base name path s : String} {steps : List String}

section Splitting

theorem split_eq_splitOn (chars : List Char) : split chars = chars.splitOn '/' := by
  induction chars with
  | nil => rfl
  | cons c rest ih =>
    rw [split, List.splitOn_cons_eq_if_modifyHead, ih]
    by_cases hc : c = '/'
    · simp [hc]
    · cases hrest : rest.splitOn '/' with
      | nil => exact absurd hrest (List.splitOn_ne_nil _ _)
      | cons part parts => simp [hc]

theorem segments_eq_map (path : String) :
    segments path = (path.toList.splitOn '/').map String.ofList := by
  rw [segments, split_eq_splitOn]

theorem segments_ne_nil (path : String) : segments path ≠ [] := by
  rw [segments_eq_map, ne_eq, List.map_eq_nil_iff]
  exact List.splitOn_ne_nil _ _

theorem segments_append (a b : String) : segments (a ++ "/" ++ b) = segments a ++ segments b := by
  have hsplit : (a ++ "/" ++ b).toList = a.toList ++ '/' :: b.toList := by simp
  rw [segments_eq_map, hsplit, List.splitOn_append_cons_self, List.map_append, ← segments_eq_map,
    ← segments_eq_map]

theorem segments_append_slash (path : String) : segments (path ++ "/") = segments path ++ [""] := by
  have hsplit := segments_append path ""
  rwa [String.append_empty] at hsplit

theorem intercalate_segments (path : String) : "/".intercalate (segments path) = path := by
  rw [← String.toList_inj, String.toList_intercalate, segments_eq_map, List.map_map]
  simp [Function.comp_def, List.intercalate_splitOn]

theorem slash_notMem_split {part : List Char} {chars : List Char} (h : part ∈ split chars) :
    '/' ∉ part := by
  induction chars generalizing part with
  | nil =>
    rw [split, List.mem_singleton] at h
    simp [h]
  | cons c rest ih =>
    rw [split] at h
    split at h
    · rcases List.mem_cons.mp h with rfl | h
      · exact List.not_mem_nil
      · exact ih h
    · rename_i hc
      cases hrest : split rest with
      | nil =>
        rw [hrest] at h
        simp only [List.mem_singleton] at h
        simpa [h] using fun heq => hc heq.symm
      | cons first parts =>
        rw [hrest] at h ih
        rcases List.mem_cons.mp h with rfl | h
        · rw [List.mem_cons, not_or]
          exact ⟨fun heq => hc heq.symm, ih List.mem_cons_self⟩
        · exact ih (List.mem_cons_of_mem first h)

theorem slash_notMem_segments (h : s ∈ segments path) : '/' ∉ s.toList := by
  obtain ⟨part, hpart, rfl⟩ := List.mem_map.mp h
  rw [String.toList_ofList]
  exact slash_notMem_split hpart

end Splitting

section Joining

/-- What stands in a path before the names of what lies in a directory. -/
def lead (base : String) : String :=
  if base = "" ∨ base.toList.getLast? = some '/' then base else base ++ "/"

theorem join_of_relative (h : isAbsolute path = false) : join base path = lead base ++ path := by
  by_cases hempty : base = ""
  · simp [join, lead, h, hempty]
  · by_cases hslash : base.toList.getLast? = some '/' <;>
      simp [join, lead, h, hempty, hslash, String.append_assoc]

theorem isAbsolute_of_notMem (h : '/' ∉ s.toList) : isAbsolute s = false := by
  rw [isAbsolute, decide_eq_false_iff_not]
  exact fun hhead => h (List.mem_of_head? hhead)

theorem isAbsolute_append (hs : s ≠ "") : isAbsolute (s ++ path) = isAbsolute s := by
  have hne : s.toList ≠ [] := by simpa using hs
  rw [isAbsolute, isAbsolute, String.toList_append, List.head?_append_of_ne_nil _ hne]

/-- A path that ends in a segment is one of a directory, whose entries come after a slash. -/
theorem lead_append (hs : s ≠ "") (hslash : '/' ∉ s.toList) :
    lead (base ++ s) = base ++ s ++ "/" := by
  have hne : s.toList ≠ [] := by simpa using hs
  rw [lead, if_neg]
  rintro (hempty | hlast)
  · exact hs (String.append_eq_empty_iff.mp hempty).2
  · rw [String.toList_append, List.getLast?_append_of_ne_nil _ hne] at hlast
    exact hslash (List.mem_of_getLast? hlast)

theorem isAbsolute_intercalate (hs : s ≠ "") (hslash : '/' ∉ s.toList) (rest : List String) :
    isAbsolute ("/".intercalate (s :: rest)) = false := by
  cases rest with
  | nil => rw [String.intercalate_singleton, isAbsolute_of_notMem hslash]
  | cons s' rest =>
    rw [String.intercalate_cons_cons, String.append_assoc, isAbsolute_append hs,
      isAbsolute_of_notMem hslash]

theorem foldl_join (hsteps : ∀ s ∈ steps, s ≠ "" ∧ '/' ∉ s.toList) (hne : steps ≠ []) :
    steps.foldl join base = join base ("/".intercalate steps) := by
  induction steps generalizing base with
  | nil => contradiction
  | cons s rest ih =>
    obtain ⟨hs, hslash⟩ := hsteps s List.mem_cons_self
    cases rest with
    | nil => rw [List.foldl_cons, List.foldl_nil, String.intercalate_singleton]
    | cons s' rest =>
      have hrest := fun t ht => hsteps t (List.mem_cons_of_mem s ht)
      obtain ⟨hs', hslash'⟩ := hrest s' List.mem_cons_self
      rw [List.foldl_cons, ih hrest (List.cons_ne_nil s' rest),
        join_of_relative (isAbsolute_intercalate hs' hslash' rest),
        join_of_relative (isAbsolute_of_notMem hslash), lead_append hs hslash,
        join_of_relative (isAbsolute_intercalate hs hslash (s' :: rest)),
        String.intercalate_cons_cons, String.append_assoc, String.append_assoc, String.append_assoc]

/-- The segments of a directory. A slash at its end makes no difference. -/
def directorySegments (base : String) : List String := (segments (lead base)).dropLast

theorem lead_cases (base : String) : lead base = "" ∨ ∃ b, lead base = b ++ "/" := by
  rw [lead]
  split
  · rename_i h
    refine h.imp id fun hlast => ⟨String.ofList base.toList.dropLast, ?_⟩
    rw [← String.toList_inj, String.toList_append, String.toList_ofList]
    exact (List.dropLast_append_getLast? '/' hlast).symm
  · exact Or.inr ⟨base, rfl⟩

theorem segments_lead_append (base name : String) :
    segments (lead base ++ name) = directorySegments base ++ segments name := by
  rw [directorySegments]
  rcases lead_cases base with hempty | ⟨b, hb⟩
  · rw [hempty, String.empty_append]
    rfl
  · rw [hb, segments_append, segments_append_slash, List.dropLast_concat]

theorem segments_cases (base : String) :
    segments base = directorySegments base ∨ segments base = directorySegments base ++ [""] := by
  by_cases h : base = "" ∨ base.toList.getLast? = some '/'
  · right
    have hlead := segments_lead_append base ""
    rw [lead, if_pos h, String.append_empty] at hlead
    exact hlead
  · left
    rw [directorySegments, lead, if_neg h, segments_append_slash, List.dropLast_concat]

example : directorySegments "lib/units" = ["lib", "units"] ∧
    directorySegments "lib/units/" = ["lib", "units"] ∧ directorySegments "/" = [""] ∧
    directorySegments "" = [] := by decide +kernel

end Joining

end Path

namespace FileTree

open Metaobject.Path

variable {t : FileTree} {here place found steps more : List String} {root name : String}

theorem follow_append (t : FileTree) (here steps more : List String) :
    t.follow here (steps ++ more) =
      (t.follow here steps).bind fun place => t.follow place more := by
  induction steps generalizing here with
  | nil => rfl
  | cons s rest ih =>
    rw [List.cons_append, follow, follow]
    split
    · split
      · exact ih here
      · split
        · exact ih here.dropLast
        · split
          · rfl
          · exact ih (here ++ [s])
    · rfl
    · rfl

/-- Without a segment that leads upwards, a path leads to a place below the one where it starts. -/
theorem isPrefix_of_follow (hsteps : ".." ∉ steps) (h : t.follow here steps = .ok found) :
    here <+: found := by
  induction steps generalizing here with
  | nil =>
    cases h
    exact List.prefix_rfl
  | cons s rest ih =>
    rw [List.mem_cons, not_or] at hsteps
    obtain ⟨hs, hrest⟩ := hsteps
    rw [follow] at h
    split at h
    · split at h
      · exact ih hrest h
      · split at h
        · rename_i hup
          exact absurd hup.symm hs
        · split at h
          · contradiction
          · exact (List.prefix_append here [s]).trans (ih hrest h)
    · contradiction
    · contradiction

theorem eq_of_follow_idle (h : t.follow here [""] = .ok found) : found = here := by
  rw [follow] at h
  split at h
  · cases h
    rfl
  · contradiction
  · contradiction

theorem follow_of_locate {path : String} (h : t.locate path = .ok found) :
    path ≠ "" ∧ t.follow (if isAbsolute path then [] else home) (segments path) = .ok found := by
  rw [locate] at h
  split at h
  · contradiction
  · split at h
    · contradiction
    · split at h
      · contradiction
      · rename_i hempty _
        exact ⟨hempty, h⟩

theorem follow_directorySegments (h : t.follow here (segments root) = .ok place) :
    t.follow here (directorySegments root) = .ok place := by
  rcases segments_cases root with heq | heq
  · rw [← heq]
    exact h
  · rw [heq, follow_append] at h
    cases hfollow : t.follow here (directorySegments root) with
    | error f =>
      rw [hfollow] at h
      contradiction
    | ok last =>
      rw [hfollow] at h
      rw [eq_of_follow_idle h]

theorem isPrefix_of_locate (hname : ".." ∉ segments name) (hroot : t.locate root = .ok place)
    (hpath : t.locate (lead root ++ name) = .ok found) : place <+: found := by
  obtain ⟨hne, hplace⟩ := follow_of_locate hroot
  obtain ⟨_, hfound⟩ := follow_of_locate hpath
  have habsolute : isAbsolute (lead root ++ name) = isAbsolute root := by
    rw [lead]
    split
    · exact isAbsolute_append hne
    · rw [String.append_assoc, isAbsolute_append hne]
  rw [habsolute, segments_lead_append, follow_append, follow_directorySegments hplace] at hfound
  exact isPrefix_of_follow hname hfound

end FileTree

namespace Archive

variable {name : String}

/-- A name without forbidden characters whose segments all lead downwards. -/
def IsName (name : String) : Prop :=
  '\\' ∉ name.toList ∧ '\x00' ∉ name.toList ∧
    ∀ s ∈ name.toList.splitOn '/', s ≠ [] ∧ s ≠ ['.', '.']

instance (name : String) : Decidable (IsName name) :=
  inferInstanceAs (Decidable (_ ∧ _ ∧ ∀ s ∈ name.toList.splitOn '/', _))

theorem isName_iff_segments : IsName name ↔
    '\\' ∉ name.toList ∧ '\x00' ∉ name.toList ∧ ∀ s ∈ Path.segments name, s ≠ "" ∧ s ≠ ".." := by
  have hup (part : List Char) : String.ofList part = ".." ↔ part = ['.', '.'] := by
    rw [← String.toList_inj, String.toList_ofList]
    rfl
  simp [IsName, Path.segments_eq_map, hup]

theorem empty_mem_segments {path : String} (h : path.toList = [] ∨ path.toList.head? = some '/') :
    "" ∈ Path.segments path := by
  rw [Path.segments_eq_map]
  cases hchars : path.toList with
  | nil => simp
  | cons c rest =>
    have hc : c = '/' := by simpa [hchars] using h
    simp [hc, List.splitOn_cons_eq_if_modifyHead]

/-- Of the checks, the one of the segments also refuses names that are empty or absolute. -/
theorem nameProblem?_eq_none : nameProblem? name = none ↔ IsName name := by
  have hcheck {c : Prop} [Decidable c] (reason : String) (next : Option String) :
      (if c then some reason else next) = none ↔ ¬c ∧ next = none := by
    split <;> simp [*]
  rw [isName_iff_segments, nameProblem?]
  simp only [hcheck, Bool.or_eq_true, decide_eq_true_eq, List.any_eq_true, not_or, not_exists,
    not_and, and_true]
  constructor
  · rintro ⟨_, _, ⟨hbackslash, hnul⟩, hsegments⟩
    exact ⟨hbackslash, hnul, hsegments⟩
  · rintro ⟨hbackslash, hnul, hsegments⟩
    have hfirst := fun h => (hsegments "" (empty_mem_segments h)).1 rfl
    exact ⟨fun h => hfirst (.inl h), fun h => hfirst (.inr h), ⟨hbackslash, hnul⟩, hsegments⟩

theorem validateName_eq_ok : validateName name = .ok () ↔ IsName name := by
  rw [← nameProblem?_eq_none, validateName]
  cases nameProblem? name <;> simp

theorem exists_reason_of_not_isName (h : ¬IsName name) :
    ∃ reason, validateName name = .error (.invalidName name reason) := by
  rw [← nameProblem?_eq_none] at h
  obtain ⟨reason, hreason⟩ := Option.ne_none_iff_exists'.mp h
  exact ⟨reason, by rw [validateName, hreason]⟩

end Archive

/-- A path that leads below a root, by the segments of a name. -/
structure Path.LeadsBelow (root name path : String) : Prop where
  text : path = lead root ++ name
  segments : segments path = directorySegments root ++ segments name
  /-- But for idle segments the path is the root, followed by what never leads upwards. -/
  downwards : ∃ steps, (Path.segments path).filter (fun s => s ≠ ".") =
    (directorySegments root).filter (fun s => s ≠ ".") ++ steps ∧ ".." ∉ steps
  /-- Whatever files there are, the path is never found anywhere else than below the root. -/
  below : ∀ (t : FileTree) (place found : List String), t.locate root = .ok place →
    t.locate path = .ok found → place <+: found

namespace DirectoryArchives

variable {root name : String}

theorem path_of_isName (h : Archive.IsName name) :
    path root name = .ok (Path.lead root ++ name) := by
  have hsteps : ∀ s ∈ Path.segments name, s ≠ "" ∧ '/' ∉ s.toList := fun s hs =>
    ⟨((Archive.isName_iff_segments.mp h).2.2 s hs).1, Path.slash_notMem_segments hs⟩
  have hrelative : Path.isAbsolute name = false := by
    rw [← Path.intercalate_segments name]
    cases hsegments : Path.segments name with
    | nil => exact absurd hsegments (Path.segments_ne_nil name)
    | cons s rest =>
      rw [hsegments] at hsteps
      obtain ⟨hs, hslash⟩ := hsteps s List.mem_cons_self
      exact Path.isAbsolute_intercalate hs hslash rest
  rw [path, Archive.validateName_eq_ok.mpr h]
  change Except.ok ((Path.segments name).foldl Path.join root) = _
  rw [Path.foldl_join hsteps (Path.segments_ne_nil name), Path.intercalate_segments,
    Path.join_of_relative hrelative]

theorem leadsBelow_of_isName (h : Archive.IsName name) (root : String) :
    Path.LeadsBelow root name (Path.lead root ++ name) := by
  have hname : ".." ∉ Path.segments name :=
    fun hmem => ((Archive.isName_iff_segments.mp h).2.2 ".." hmem).2 rfl
  have hsegments := Path.segments_lead_append root name
  refine ⟨rfl, hsegments, ⟨(Path.segments name).filter fun s => s ≠ ".", ?_, ?_⟩, ?_⟩
  · rw [hsegments, List.filter_append]
  · exact fun hmem => hname (List.mem_filter.mp hmem).1
  · exact fun t place found => FileTree.isPrefix_of_locate hname

theorem path_of_error {f : CacheFault} (h : Archive.validateName name = .error f) :
    path root name = .error f := by
  rw [path, h]
  rfl

end DirectoryArchives

namespace Cache

variable {σ ρ : Type}

theorem requests_of_invalid {f : CacheFault} {name : String}
    (h : Archive.validateName name = .error f) (o : Opener σ ρ) (c : Cache σ ρ) :
    c.requests o [.acquire name] = [] := by
  change (c.watching.acquire o.watched name).2.backend.events = []
  rw [acquire_of_invalid h]
  rfl

end Cache

namespace DirectoryArchives

variable {σ ρ : Type}

/-- The archives whose names are accepted lie below the root: their path has the segments of the
root, then those of the name, of which none leads upwards, and in no tree of files it leads
elsewhere. All other names are refused, and the opener is not asked for them. -/
theorem names_stay_below (o : Opener σ ρ) (c : Cache σ ρ) (root name : String) :
    (Archive.validateName name = .ok () ↔ Archive.IsName name) ∧
    (Archive.IsName name → ∃ p, path root name = .ok p ∧ Path.LeadsBelow root name p) ∧
    (¬Archive.IsName name → ∃ reason,
      Archive.validateName name = .error (.invalidName name reason) ∧
      path root name = .error (.invalidName name reason) ∧
      c.acquire o name = (.error (.invalidName name reason), c) ∧
      c.requests o [.acquire name] = []) := by
  refine ⟨Archive.validateName_eq_ok, ?_, ?_⟩
  · intro h
    exact ⟨_, path_of_isName h, leadsBelow_of_isName h root⟩
  · intro h
    obtain ⟨reason, hreason⟩ := Archive.exists_reason_of_not_isName h
    exact ⟨reason, hreason, path_of_error hreason, Cache.acquire_of_invalid hreason,
      Cache.requests_of_invalid hreason o c⟩

/-- A name with an idle segment that leads to a file, and one that would climb out of the root. -/
theorem units_stay_below :
    let c : Cache MemoryArchives Archive := Cache.fresh Table.empty
    let t := FileTree.bare.writeFile "lib/units/shapes.json" []
    Archive.IsName "units/./shapes.json" ∧ ¬Archive.IsName "units/../../shapes.json" ∧
      t.locate "lib/units/./shapes.json" = .ok ["tmp", "work", "lib", "units", "shapes.json"] ∧
      (∃ p, path "lib" "units/./shapes.json" = .ok p ∧
        Path.LeadsBelow "lib" "units/./shapes.json" p) ∧
      ∃ reason, c.acquire (MemoryArchives.opener 100) "units/../../shapes.json" =
        (.error (.invalidName "units/../../shapes.json" reason), c) := by
  intro c t
  have haccepted : Archive.IsName "units/./shapes.json" := by decide +kernel
  have hrefused : ¬Archive.IsName "units/../../shapes.json" := by decide +kernel
  obtain ⟨_, hpath, _⟩ :=
    names_stay_below (MemoryArchives.opener 100) c "lib" "units/./shapes.json"
  obtain ⟨_, _, hreason⟩ :=
    names_stay_below (MemoryArchives.opener 100) c "lib" "units/../../shapes.json"
  obtain ⟨reason, _, _, hacquire, _⟩ := hreason hrefused
  exact ⟨haccepted, hrefused, by decide +kernel, hpath haccepted, reason, hacquire⟩

end DirectoryArchives

end Metaobject
