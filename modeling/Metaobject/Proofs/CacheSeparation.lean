import Metaobject.Archive.Directory
import Metaobject.Archive.Memory
import Metaobject.Proofs.CacheRequests

/-!
# Separation of names in a cache

A cache gives each name a place of its own. Over an opener that keeps names apart, what happens in the
place of a name is a matter of the calls with this name alone, whatever else is called in between.
-/

namespace Metaobject

variable {σ ρ : Type}

/-- The answers of an opener for a name depend on the requests for this name only. -/
def Opener.Separate (o : Opener σ ρ) (s : σ) : Prop :=
  ∀ n (requests : List (OpenerEvent ρ)), (o.openNamed n (o.after s requests)).1 =
    (o.openNamed n (o.after s (requests.filter (·.name = n)))).1

section Openers

variable {o : Opener σ ρ}

theorem Opener.after_of_still (hopened : ∀ n s, (o.openNamed n s).2 = s)
    (hclosed : ∀ n r s, o.closeNamed n r s = s) (s : σ) (requests : List (OpenerEvent ρ)) :
    o.after s requests = s := by
  induction requests with
  | nil => rfl
  | cons e rest ih =>
    have hmeet : o.meet s e = s := by
      cases e with
      | opened n => exact hopened n s
      | closed n r => exact hclosed n r s
    rw [after, List.foldl_cons, hmeet]
    exact ih

theorem Opener.separate_of_still (hopened : ∀ n s, (o.openNamed n s).2 = s)
    (hclosed : ∀ n r s, o.closeNamed n r s = s) (s : σ) : o.Separate s := by
  intro n requests
  rw [after_of_still hopened hclosed, after_of_still hopened hclosed]

theorem MemoryArchives.separate (limit : Nat) (archives : MemoryArchives) :
    (opener limit).Separate archives := by
  apply Opener.separate_of_still
  · intro n s
    simp only [opener]
    split <;> rfl
  · exact fun _ _ _ => rfl

theorem DirectoryArchives.separate (view : σ → FileView) (root : String) (limit : Nat) (s : σ) :
    (opener view root limit).Separate s :=
  Opener.separate_of_still (fun _ _ => rfl) (fun _ _ _ => rfl) s

end Openers

/-- What there is about one name: how it is held, and what the opener was asked for it. -/
structure CachePlace (ρ : Type) where
  held : Option (Holding ρ)
  requests : List (OpenerEvent ρ)

namespace CachePlace

/-- What a call brings about in a place, over an opener that has met only the requests for it. -/
def effect (o : Opener σ ρ) (s : σ) (p : CachePlace ρ) (call : HolderCall) : CallEffect ρ :=
  call.effect p.held (o.openNamed call.name (o.after s p.requests)).1

def next (o : Opener σ ρ) (s : σ) (p : CachePlace ρ) (call : HolderCall) : CachePlace ρ :=
  ⟨(p.effect o s call).holding, p.requests ++ (p.effect o s call).requests⟩

def answers (o : Opener σ ρ) (s : σ) (p : CachePlace ρ) : List HolderCall → List (CacheEvent ρ)
  | [] => []
  | call :: rest => (p.effect o s call).answer :: (p.next o s call).answers o s rest

end CachePlace

namespace Cache

variable {o : Opener σ ρ} {s : σ} {c : Cache (Traced σ ρ) ρ} {call : HolderCall}
  {calls calls' : List HolderCall} {n : String}

def place (c : Cache (Traced σ ρ) ρ) (n : String) : CachePlace ρ :=
  ⟨c.holdings.find? n, c.backend.events.filter (·.name = n)⟩

/-- The opener is in the state to which the noted requests led. -/
def Faithful (o : Opener σ ρ) (s : σ) (c : Cache (Traced σ ρ) ρ) : Prop :=
  c.backend.inner = o.after s c.backend.events

section Steps

theorem Faithful.perform (hc : c.Faithful o s) (call : HolderCall) :
    (c.perform o.watched call.toCall).Faithful o s := by
  have heffect := hasEffect o c call
  rw [Faithful, heffect.state, heffect.requests, Opener.after_append]
  exact congrArg (o.after · _) hc

theorem place_perform_of_ne (hne : call.name ≠ n) :
    (c.perform o.watched call.toCall).place n = c.place n := by
  have heffect := hasEffect o c call
  have hnone : (call.effect (c.holdings.find? call.name)
      (o.openNamed call.name c.backend.inner).1).requests.filter (·.name = n) = [] := by
    rw [List.filter_eq_nil_iff]
    intro e he
    simp [HolderCall.name_requests e he, hne]
  simp [place, heffect.others n hne, heffect.requests, hnone]

/-- A call does in the place of its name what the place alone determines. -/
theorem place_perform (hopener : o.Separate s) (hc : c.Faithful o s) (hname : call.name = n) :
    c.answer o.watched call = ((c.place n).effect o s call).answer ∧
      (c.perform o.watched call.toCall).place n = (c.place n).next o s call := by
  subst hname
  have hanswer : (o.openNamed call.name c.backend.inner).1 =
      (o.openNamed call.name (o.after s (c.place call.name).requests)).1 := by
    rw [hc]
    exact hopener call.name c.backend.events
  have heffect : c.HasEffect o call ((c.place call.name).effect o s call) := by
    have heffect := hasEffect o c call
    rwa [hanswer] at heffect
  have hall : ((c.place call.name).effect o s call).requests.filter (·.name = call.name) =
      ((c.place call.name).effect o s call).requests := by
    rw [List.filter_eq_self]
    intro e he
    simp [HolderCall.name_requests e he]
  refine ⟨heffect.answer, ?_⟩
  rw [place, heffect.holding, heffect.requests, List.filter_append, hall]
  rfl

end Steps

section Runs

theorem place_performAll (hopener : o.Separate s) (hc : c.Faithful o s) (n : String)
    (calls : List HolderCall) :
    (c.answers o.watched calls).filter (·.name = n) =
        (c.place n).answers o s (calls.filter (·.name = n)) ∧
      (c.performAll o.watched (calls.map HolderCall.toCall)).place n =
        (calls.filter (·.name = n)).foldl (CachePlace.next o s) (c.place n) := by
  induction calls generalizing c with
  | nil => exact ⟨rfl, rfl⟩
  | cons call rest ih =>
    obtain ⟨hanswers, hlast⟩ := ih (hc.perform call)
    have hsame : (c.answer o.watched call).name = call.name := by
      cases call <;> rfl
    by_cases hname : call.name = n
    · obtain ⟨hanswer, hnext⟩ := place_perform hopener hc hname
      rw [hnext] at hanswers hlast
      constructor
      · rw [answers, List.filter_cons_of_pos (by simp [hsame, hname]), hanswers, hanswer,
          List.filter_cons_of_pos (by simp [hname]), CachePlace.answers]
      · simpa [performAll, hname] using hlast
    · rw [place_perform_of_ne hname] at hanswers hlast
      constructor
      · simp [answers, hsame, hname, hanswers]
      · simpa [performAll, hname] using hlast

theorem count_viewed (c : Cache (Traced σ ρ) ρ) (n : String) :
    (c.viewed Traced.inner).count n = ((c.place n).held.map Holding.count).getD 0 := by
  simp only [count, viewed, place]
  cases c.holdings.find? n <;> rfl

theorem isOpen_viewed (c : Cache (Traced σ ρ) ρ) (n : String) :
    (c.viewed Traced.inner).isOpen n = (c.place n).held.isSome := rfl

end Runs

/-- For a name two runs are the same: its calls are answered alike, it is held alike in the end, and
the opener is asked the same for it. -/
structure SameFor (o : Opener σ ρ) (backend : σ) (n : String) (calls calls' : List HolderCall) :
    Prop where
  answers : ((fresh backend).answers o calls).filter (·.name = n) =
    ((fresh backend).answers o calls').filter (·.name = n)
  count : ((fresh backend).performAll o (calls.map HolderCall.toCall)).count n =
    ((fresh backend).performAll o (calls'.map HolderCall.toCall)).count n
  isOpen : ((fresh backend).performAll o (calls.map HolderCall.toCall)).isOpen n =
    ((fresh backend).performAll o (calls'.map HolderCall.toCall)).isOpen n
  requests : ((fresh backend).requests o calls).filter (·.name = n) =
    ((fresh backend).requests o calls').filter (·.name = n)

theorem sameFor_of_filter (hopener : o.Separate s)
    (hcalls : calls.filter (·.name = n) = calls'.filter (·.name = n)) :
    SameFor o s n calls calls' := by
  have hfresh : ((fresh s : Cache σ ρ).watching).Faithful o s := rfl
  have hplain : (fresh s : Cache σ ρ).watching.viewed Traced.inner = fresh s := rfl
  obtain ⟨hanswers, hplace⟩ := place_performAll hopener hfresh n calls
  obtain ⟨hanswers', hplace'⟩ := place_performAll hopener hfresh n calls'
  obtain ⟨hwatched, hlast⟩ := answers_watched (o := o) (fresh s : Cache σ ρ).watching calls
  obtain ⟨hwatched', hlast'⟩ := answers_watched (o := o) (fresh s : Cache σ ρ).watching calls'
  rw [hplain] at hwatched hlast hwatched' hlast'
  rw [← hcalls] at hanswers' hplace'
  have hsame := hplace.trans hplace'.symm
  constructor
  · rw [hwatched, hwatched', hanswers, hanswers']
  · rw [hlast, hlast', count_viewed, count_viewed, hsame]
  · rw [hlast, hlast', isOpen_viewed, isOpen_viewed, hsame]
  · exact congrArg CachePlace.requests hsame

/-- Over an opener that keeps names apart, runs with the same calls for a name are the same for it,
whatever else they call. So calls with two names can change places in every run, and nothing is
different for any name. -/
theorem names_separate (hopener : o.Separate s) :
    (∀ n calls calls', calls.filter (·.name = n) = calls'.filter (·.name = n) →
        SameFor o s n calls calls') ∧
      ∀ (a b : HolderCall) before after, a.name ≠ b.name → ∀ n,
        SameFor o s n (before ++ a :: b :: after) (before ++ b :: a :: after) := by
  refine ⟨fun n calls calls' => sameFor_of_filter hopener, ?_⟩
  intro a b before after hne n
  apply sameFor_of_filter hopener
  by_cases ha : a.name = n
  · have hb : ¬b.name = n := fun hb => hne (ha.trans hb.symm)
    simp [List.filter_cons, hb]
  · simp [List.filter_cons, ha]

/-- An archive that is held twice while another one comes and goes, and others are asked for in vain. -/
def busyCalls : List HolderCall :=
  [.acquire "b", .acquire "a", .acquire "../a", .release "c", .acquire "a", .release "b", .acquire "c",
    .release "a"]

theorem busy_names_separate :
    let archives : MemoryArchives := ((Table.empty.insert "a" [1, 2]).insert "b" [3])
    (MemoryArchives.opener 100).Separate archives ∧
      SameFor (MemoryArchives.opener 100) archives "a" busyCalls
        [.acquire "a", .acquire "a", .release "a"] ∧
      ((fresh archives).performAll (MemoryArchives.opener 100)
        (busyCalls.map HolderCall.toCall)).count "a" = 1 ∧
      ((fresh archives).requests (MemoryArchives.opener 100) busyCalls).map OpenerEvent.name =
        ["b", "a", "b", "c"] := by
  intro archives
  have hopener := MemoryArchives.separate 100 archives
  refine ⟨hopener, (names_separate hopener).1 "a" _ _ (by decide), ?_, ?_⟩
  · decide +kernel
  · decide +kernel

end Cache

end Metaobject
