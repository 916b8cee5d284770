import Metaobject.Proofs.CacheBalance
import Metaobject.Proofs.CacheRequests
import Metaobject.Proofs.Reloading

/-!
# Loading and the cache

Loading a unit takes a hold on its archive and gives it up again, whatever becomes of the unit. So the
cache is left as it was found, also while others hold archives, and the opener is asked for what is not
held and no more.
-/

namespace Metaobject

namespace Cache

variable {σ ρ : Type} {o : Opener σ ρ} {c : Cache σ ρ} {n : String} {r : ρ}

/-- Only valid names are held, and each by someone. -/
def Counted (c : Cache σ ρ) : Prop :=
  ∀ n x, c.holdings.find? n = some x → Archive.validateName n = .ok () ∧ 1 ≤ x.count

theorem counted_performAll (o : Opener σ ρ) (backend : σ) (calls : List (CacheCall σ)) :
    ((fresh backend).performAll o calls).Counted := by
  intro n x hfind
  have haccounts := Accounts.performAll (o := o) (accounts_fresh (ρ := ρ) backend) calls n
  refine ⟨haccounts.valid (by rw [hfind]; rfl), ?_⟩
  obtain ⟨_, _, _, _, _, hpos⟩ := haccounts.held x hfind
  exact hpos

theorem count_congr {c' : Cache σ ρ} (h : c'.holdings = c.holdings) : c'.count n = c.count n := by
  rw [count, count, h]

/-- A hold that is taken and given up again leaves what is held as it was. -/
theorem holdings_release_acquire (hc : c.Counted) (h : (c.acquire o n).1 = .ok r) :
    ((c.acquire o n).2.release o n).2.holdings = c.holdings := by
  rcases acquire_cases o c n with ⟨f, backend, _, hacquire, _⟩ | ⟨x, _, hfind, hacquire, _⟩ |
    ⟨r', backend, _, hfind, hacquire, _⟩
  · rw [hacquire] at h
    contradiction
  · have hpos := (hc n x hfind).2
    have hlt : 1 < x.count + 1 := by omega
    rw [hacquire, release_of_shared (Table.find?_insert_self _ _ _) hlt]
    exact Table.insert_insert_self _ hfind
  · rw [hacquire, release_of_last (Table.find?_insert_self _ _ _) (Nat.lt_irrefl 1)]
    exact Table.erase_insert_of_none _ hfind

end Cache

namespace Loader

variable {σ : Type} {o : Opener σ Archive} {l : Loader σ} {name : String} {a : Archive}
  {f : CacheFault}

/-- The loaders that there can be: units are loaded, others hold and release archives of the cache, and
anything may become of the backend and of the image. -/
inductive Reachable (o : Opener σ Archive) : Loader σ → Prop
  | fresh (settings : Settings) (backend : σ) : Reachable o (.fresh settings backend)
  | load {l : Loader σ} (name : String) : Reachable o l → Reachable o (l.loadUnit o name).2
  | call {l : Loader σ} (call : CacheCall σ) : Reachable o l →
      Reachable o { l with cache := l.cache.perform o call }
  | change {l : Loader σ} (image : Image) : Reachable o l → Reachable o { l with image }

def watching (l : Loader σ) : Loader (Traced σ Archive) := ⟨l.image, l.cache.watching⟩

def requests (o : Opener σ Archive) (name : String) (l : Loader σ) : List (OpenerEvent Archive) :=
  (l.watching.loadUnit o.watched name).2.cache.backend.events

/-- Loading leaves the cache as it was. The archive is asked for if it is not held, and closed if it
was opened; one that is held is installed, whatever the backend has by now. -/
structure NeutralLoad (o : Opener σ Archive) (name : String) (l : Loader σ) : Prop where
  holdings : (l.loadUnit o name).2.cache.holdings = l.cache.holdings
  requests_held : l.cache.isOpen name = true → l.requests o name = []
  requests_invalid : ∀ f, Archive.validateName name = .error f → l.requests o name = []
  requests_failed : ∀ f, l.cache.isOpen name = false → Archive.validateName name = .ok () →
    (o.openNamed name l.cache.backend).1 = .error f → l.requests o name = [.opened name]
  requests_opened : ∀ a, l.cache.isOpen name = false → Archive.validateName name = .ok () →
    (o.openNamed name l.cache.backend).1 = .ok a →
    l.requests o name = [.opened name, .closed name a]
  installed : ∀ x, l.cache.holdings.find? name = some x → ∀ backend,
    let load := Loader.loadUnit o name { l with cache := { l.cache with backend } }
    load.1 = ((Installation.installArchive x.resource).runOn l.image).1.mapError
      (LoadFault.within name) ∧
      load.2.image = ((Installation.installArchive x.resource).runOn l.image).2

section Steps

/-- To the cache, loading is to take a hold, and to give it up if there is one. -/
theorem exists_cache_loadUnit (o : Opener σ Archive) (name : String) (l : Loader σ) :
    ∃ calls, (l.loadUnit o name).2.cache = l.cache.performAll o calls := by
  cases hacquire : (l.cache.acquire o name).1 with
  | error f =>
    refine ⟨[.acquire name], ?_⟩
    rw [loadUnit_of_error hacquire]
    rfl
  | ok a =>
    refine ⟨[.acquire name, .release name], ?_⟩
    rw [loadUnit_of_acquire hacquire]
    rfl

theorem Reachable.calls (h : Reachable o l) :
    ∃ backend calls, l.cache = (Cache.fresh backend).performAll o calls := by
  induction h with
  | fresh settings backend => exact ⟨backend, [], rfl⟩
  | @load l name _ ih =>
    obtain ⟨backend, calls, hcache⟩ := ih
    obtain ⟨more, hmore⟩ := exists_cache_loadUnit o name l
    exact ⟨backend, calls ++ more, by rw [hmore, hcache, Cache.performAll_append]⟩
  | call call _ ih =>
    obtain ⟨backend, calls, hcache⟩ := ih
    refine ⟨backend, calls ++ [call], ?_⟩
    rw [hcache, Cache.performAll_append]
    rfl
  | change image _ ih => exact ih

theorem Reachable.counted (h : Reachable o l) : l.cache.Counted := by
  obtain ⟨backend, calls, hcache⟩ := h.calls
  rw [hcache]
  exact Cache.counted_performAll o backend calls

theorem holdings_loadUnit (hc : l.cache.Counted) (name : String) :
    (l.loadUnit o name).2.cache.holdings = l.cache.holdings := by
  cases hacquire : (l.cache.acquire o name).1 with
  | error f =>
    rw [loadUnit_of_error hacquire]
    exact (Cache.acquire_error hacquire).1
  | ok a =>
    rw [loadUnit_of_acquire hacquire]
    exact Cache.holdings_release_acquire hc hacquire

theorem holdings_loadAll (hc : l.cache.Counted) (stopOnError : Bool) (names : List String) :
    (loadAll o stopOnError names l).2.cache.holdings = l.cache.holdings := by
  induction names generalizing l with
  | nil => rfl
  | cons name rest ih =>
    have hholdings := holdings_loadUnit (o := o) hc name
    rw [loadAll, loadEach]
    cases hunit : l.loadUnit o name with
    | mk answer next =>
      rw [hunit] at hholdings
      have hnext : next.cache.Counted := by
        intro n x hfind
        rw [hholdings] at hfind
        exact hc n x hfind
      have hrest := (ih hnext).trans hholdings
      cases answer with
      | ok report => exact hrest
      | error f =>
        cases stopOnError with
        | true => exact hholdings
        | false => exact hrest

end Steps

section Requests

theorem requests_of_error (h : (l.cache.watching.acquire o.watched name).1 = .error f) :
    l.requests o name = (l.cache.watching.acquire o.watched name).2.backend.events := by
  rw [requests, loadUnit_of_error h]
  rfl

theorem requests_of_ok (h : (l.cache.watching.acquire o.watched name).1 = .ok a) :
    l.requests o name =
      ((l.cache.watching.acquire o.watched name).2.release o.watched name).2.backend.events := by
  rw [requests, loadUnit_of_acquire h]
  rfl

theorem requests_of_invalid (hvalid : Archive.validateName name = .error f) :
    l.requests o name = [] := by
  have hrun := Cache.acquire_of_invalid (o := o.watched) (c := l.cache.watching) hvalid
  rw [requests_of_error (congrArg Prod.fst hrun), hrun]
  rfl

theorem requests_of_held {x : Holding Archive} (hc : l.cache.Counted)
    (hfind : l.cache.holdings.find? name = some x) : l.requests o name = [] := by
  obtain ⟨hvalid, hpos⟩ := hc name x hfind
  have hrun := Cache.acquire_of_open (o := o.watched) (c := l.cache.watching) hvalid hfind
  have hlt : 1 < x.count + 1 := by omega
  rw [requests_of_ok (congrArg Prod.fst hrun), hrun,
    Cache.release_of_shared (Table.find?_insert_self _ _ _) hlt]
  rfl

theorem requests_of_failed (hfind : l.cache.holdings.find? name = none)
    (hvalid : Archive.validateName name = .ok ())
    (hopen : (o.openNamed name l.cache.backend).1 = .error f) :
    l.requests o name = [.opened name] := by
  have hnotes : o.watched.openNamed name l.cache.watching.backend =
      (.error f, ⟨(o.openNamed name l.cache.backend).2, [.opened name]⟩) := by
    simp [Opener.openNamed_watched, Cache.watching, hopen]
  have hrun := Cache.acquire_of_error (c := l.cache.watching) hvalid hfind hnotes
  rw [requests_of_error (congrArg Prod.fst hrun), hrun]

theorem requests_of_opened (hfind : l.cache.holdings.find? name = none)
    (hvalid : Archive.validateName name = .ok ())
    (hopen : (o.openNamed name l.cache.backend).1 = .ok a) :
    l.requests o name = [.opened name, .closed name a] := by
  have hnotes : o.watched.openNamed name l.cache.watching.backend =
      (.ok a, ⟨(o.openNamed name l.cache.backend).2, [.opened name]⟩) := by
    simp [Opener.openNamed_watched, Cache.watching, hopen]
  have hrun := Cache.acquire_of_ok (c := l.cache.watching) hvalid hfind hnotes
  rw [requests_of_ok (congrArg Prod.fst hrun), hrun,
    Cache.release_of_last (Table.find?_insert_self _ _ _) (Nat.lt_irrefl 1)]
  rfl

end Requests

theorem neutralLoad (hc : l.cache.Counted) (name : String) : NeutralLoad o name l where
  holdings := holdings_loadUnit hc name
  requests_held hopen := by
    obtain ⟨x, hfind⟩ := Option.isSome_iff_exists.mp hopen
    exact requests_of_held hc hfind
  requests_invalid _ := requests_of_invalid
  requests_failed _ hclosed := requests_of_failed (Cache.find?_of_not_isOpen hclosed)
  requests_opened _ hclosed := requests_of_opened (Cache.find?_of_not_isOpen hclosed)
  installed x hfind backend := by
    obtain ⟨hvalid, _⟩ := hc name x hfind
    have hrun := Cache.acquire_of_open (o := o) (c := { l.cache with backend }) hvalid hfind
    have hload := loadUnit_of_acquire (l := { l with cache := { l.cache with backend } })
      (congrArg Prod.fst hrun)
    exact ⟨congrArg Prod.fst hload, congrArg (fun p => p.2.image) hload⟩

/-- Loading units, whether it succeeds or fails and whatever else is held, leaves the cache as it
was. -/
theorem reachable_load_neutral (h : Reachable o l) :
    (∀ name, NeutralLoad o name l) ∧
      ∀ stopOnError names, (loadAll o stopOnError names l).2.cache.holdings = l.cache.holdings :=
  ⟨neutralLoad h.counted, holdings_loadAll h.counted⟩

def dotsHeld : Loader MemoryArchives :=
  let l := fresh Settings.standard (Table.empty.insert "dots" dots.bytes)
  let held := { l with cache := l.cache.perform (MemoryArchives.opener 200) (.acquire "dots") }
  let changed : CacheCall MemoryArchives := .change (Table.empty.insert "lines" [0xff])
  { held with cache := held.cache.perform (MemoryArchives.opener 200) changed }

theorem dotsHeld_load_neutral :
    Reachable (MemoryArchives.opener 200) dotsHeld ∧
      (dotsHeld.loadUnit (MemoryArchives.opener 200) "dots").1.toOption =
        some ⟨"dots", [⟨"DOT"⟩], [], 1⟩ ∧
      (dotsHeld.loadUnit (MemoryArchives.opener 200) "dots").2.cache.count "dots" = 1 ∧
      dotsHeld.requests (MemoryArchives.opener 200) "dots" = [] ∧
      dotsHeld.requests (MemoryArchives.opener 200) "lines" =
        [.opened "lines", .closed "lines" ⟨"lines", [0xff]⟩] ∧
      (loadAll (MemoryArchives.opener 200) false ["lines", "dots", "none"] dotsHeld).2.cache.holdings =
        dotsHeld.cache.holdings := by
  have hreachable : Reachable (MemoryArchives.opener 200) dotsHeld :=
    .call (.change _) (.call (.acquire "dots") (.fresh Settings.standard _))
  obtain ⟨hload, hall⟩ := reachable_load_neutral hreachable
  obtain ⟨hcount, hheld, hclosed, hlines⟩ : dotsHeld.cache.count "dots" = 1 ∧
      dotsHeld.cache.isOpen "dots" = true ∧ dotsHeld.cache.isOpen "lines" = false ∧
      ((MemoryArchives.opener 200).openNamed "lines" dotsHeld.cache.backend).1 =
        .ok ⟨"lines", [0xff]⟩ := by
    decide +kernel
  have hvalid : Archive.validateName "lines" = .ok () := by decide +kernel
  refine ⟨hreachable, by decide +kernel, ?_, (hload "dots").requests_held hheld, ?_, hall false _⟩
  · exact (Cache.count_congr (hload "dots").holdings).trans hcount
  · exact (hload "lines").requests_opened _ hclosed hvalid hlines

end Loader

end Metaobject
