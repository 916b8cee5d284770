import Metaobject.Cache
import Metaobject.Proofs.Tables

/-!
# The history of a cache

The history of a cache is made of the calls on it, with their answers, and of the openings and closings
that they brought about. These are what an opener notes that the cache works with.
-/

namespace Metaobject

inductive Transfer (ρ : Type)
  | opened (resource : ρ)
  | closed (resource : ρ)
deriving DecidableEq, Repr

/-- What happened to a cache: a resource was opened or closed under a name, or a call was answered. -/
inductive CacheEvent (ρ : Type)
  | transferred (name : String) (t : Transfer ρ)
  | acquired (name : String) (answer : Except CacheFault ρ)
  | released (name : String) (closed : Bool)

structure Recorded (σ ρ : Type) where
  inner : σ
  events : List (CacheEvent ρ)

/-- A call on a cache. Between calls whatever the opener depends on may change in any way. -/
inductive CacheCall (σ : Type)
  | acquire (name : String)
  | release (name : String)
  | change (backend : σ)

variable {σ ρ : Type}

def Opener.recorded (o : Opener σ ρ) : Opener (Recorded σ ρ) ρ where
  openNamed name s :=
    match o.openNamed name s.inner with
    | (.ok resource, inner) =>
      (.ok resource, ⟨inner, s.events ++ [.transferred name (.opened resource)]⟩)
    | (.error f, inner) => (.error f, { s with inner })
  closeNamed name resource s :=
    ⟨o.closeNamed name resource s.inner, s.events ++ [.transferred name (.closed resource)]⟩

/-- An opener does what another one does in the part of its state that a view shows. -/
structure Opener.Extends {τ : Type} (o' : Opener τ ρ) (o : Opener σ ρ) (view : τ → σ) : Prop where
  openNamed : ∀ n t, o.openNamed n (view t) = ((o'.openNamed n t).1, view (o'.openNamed n t).2)
  closeNamed : ∀ n r t, o.closeNamed n r (view t) = view (o'.closeNamed n r t)

theorem Opener.recorded_extends (o : Opener σ ρ) : o.recorded.Extends o Recorded.inner where
  openNamed n s := by
    rcases hopen : o.openNamed n s.inner with ⟨_ | r, inner⟩ <;> simp [recorded, hopen]
  closeNamed _ _ _ := rfl

def Cache.viewed {τ : Type} (view : τ → σ) (c : Cache τ ρ) : Cache σ ρ := ⟨view c.backend, c.holdings⟩

namespace CacheEvent

def transfersOf (n : String) (h : List (CacheEvent ρ)) : List (Transfer ρ) :=
  h.filterMap fun
    | .transferred m t => if m = n then some t else none
    | .acquired _ _ | .released _ _ => none

/-- The resource that is open under a name: the last that was opened, unless it was closed. -/
def current (n : String) (h : List (CacheEvent ρ)) : Option ρ :=
  match (transfersOf n h).getLast? with
  | some (.opened r) => some r
  | some (.closed _) | none => none

def acquires (n : String) (h : List (CacheEvent ρ)) : Nat :=
  h.countP fun
    | .acquired m (.ok _) => m = n
    | .acquired _ (.error _) | .released _ _ | .transferred _ _ => false

def releases (n : String) (h : List (CacheEvent ρ)) : Nat :=
  h.countP fun
    | .released m _ => m = n
    | .acquired _ _ | .transferred _ _ => false

def opens (h : List (CacheEvent ρ)) : Nat :=
  h.countP fun
    | .transferred _ (.opened _) => true
    | .transferred _ (.closed _) | .acquired _ _ | .released _ _ => false

def closes (h : List (CacheEvent ρ)) : Nat :=
  h.countP fun
    | .transferred _ (.closed _) => true
    | .transferred _ (.opened _) | .acquired _ _ | .released _ _ => false

end CacheEvent

/-- Openings and closings take turns from an opening on, and what is closed is what was opened. -/
def Alternates : List (Transfer ρ) → Prop
  | [] => True
  | [.opened _] => True
  | .opened r :: .closed r' :: rest => r' = r ∧ Alternates rest
  | .opened _ :: .opened _ :: _ | .closed _ :: _ => False

theorem Alternates.append_opened {r : ρ} : {l : List (Transfer ρ)} → Alternates l →
    (∀ r', l.getLast? ≠ some (.opened r')) → Alternates (l ++ [.opened r])
  | [], _, _ => trivial
  | [.opened r'], _, hlast => absurd rfl (hlast r')
  | [.opened _, .closed _], h, _ => ⟨h.1, trivial⟩
  | .opened _ :: .closed _ :: _ :: _, h, hlast => ⟨h.1, h.2.append_opened hlast⟩

theorem Alternates.append_closed {r : ρ} : {l : List (Transfer ρ)} → Alternates l →
    l.getLast? = some (.opened r) → Alternates (l ++ [.closed r])
  | [.opened r'], _, hlast => by
    cases hlast
    exact ⟨rfl, trivial⟩
  | .opened _ :: .closed _ :: _ :: _, h, hlast => ⟨h.1, h.2.append_closed hlast⟩

namespace CacheEvent

variable {n : String} {h events : List (CacheEvent ρ)} {e : CacheEvent ρ} {r : ρ}

def name : CacheEvent ρ → String
  | .transferred n _ | .acquired n _ | .released n _ => n

theorem transfersOf_append (n : String) (h events : List (CacheEvent ρ)) :
    transfersOf n (h ++ events) = transfersOf n h ++ transfersOf n events :=
  List.filterMap_append

theorem acquires_append (n : String) (h events : List (CacheEvent ρ)) :
    acquires n (h ++ events) = acquires n h + acquires n events :=
  List.countP_append

theorem releases_append (n : String) (h events : List (CacheEvent ρ)) :
    releases n (h ++ events) = releases n h + releases n events :=
  List.countP_append

theorem opens_append (h events : List (CacheEvent ρ)) :
    opens (h ++ events) = opens h + opens events :=
  List.countP_append

theorem closes_append (h events : List (CacheEvent ρ)) :
    closes (h ++ events) = closes h + closes events :=
  List.countP_append

theorem transfersOf_of_ne (h : ∀ e ∈ events, e.name ≠ n) : transfersOf n events = [] := by
  rw [transfersOf, List.filterMap_eq_nil_iff]
  intro e he
  cases e with
  | transferred m t => exact if_neg (h _ he)
  | acquired _ _ | released _ _ => rfl

theorem acquires_of_ne (h : ∀ e ∈ events, e.name ≠ n) : acquires n events = 0 := by
  rw [acquires, List.countP_eq_zero]
  intro e he
  cases e with
  | acquired m answer =>
    cases answer with
    | ok r => simpa [name] using h _ he
    | error f => exact Bool.false_ne_true
  | transferred _ _ | released _ _ => exact Bool.false_ne_true

theorem releases_of_ne (h : ∀ e ∈ events, e.name ≠ n) : releases n events = 0 := by
  rw [releases, List.countP_eq_zero]
  intro e he
  cases e with
  | released m closed => simpa [name] using h _ he
  | transferred _ _ | acquired _ _ => exact Bool.false_ne_true

theorem current_append_of_nil (h : List (CacheEvent ρ)) (hevents : transfersOf n events = []) :
    current n (h ++ events) = current n h := by
  rw [current, transfersOf_append, hevents, List.append_nil, current]

theorem current_append_opened (h : List (CacheEvent ρ)) (n : String) (r : ρ) :
    current n (h ++ [.transferred n (.opened r)]) = some r := by
  simp [current, transfersOf]

theorem current_append_closed (h : List (CacheEvent ρ)) (n : String) (r : ρ) :
    current n (h ++ [.transferred n (.closed r)]) = none := by
  simp [current, transfersOf]

theorem current_eq_some_iff :
    current n h = some r ↔ (transfersOf n h).getLast? = some (.opened r) := by
  rw [current]
  split <;> simp_all

/-- Whoever acquired a resource was given the one that was open then. -/
def Answered (n : String) (h : List (CacheEvent ρ)) : Prop :=
  ∀ h₁ answer h₂, h = h₁ ++ .acquired n answer :: h₂ → ∀ r, answer = .ok r ↔ current n h₁ = some r

theorem Answered.append (h : Answered n events)
    (hlast : ∀ answer, e = .acquired n answer → ∀ r, answer = .ok r ↔ current n events = some r) :
    Answered n (events ++ [e]) := by
  intro h₁ answer h₂ heq
  rcases List.eq_nil_or_concat' h₂ with rfl | ⟨init, last, rfl⟩
  · obtain ⟨rfl, hhead⟩ := List.append_inj' heq rfl
    exact hlast answer (List.head_eq_of_cons_eq hhead)
  · have hassoc : events ++ [e] = (h₁ ++ .acquired n answer :: init) ++ [last] := by
      rw [heq, List.append_assoc]
      rfl
    obtain ⟨hinit, _⟩ := List.append_inj' hassoc rfl
    exact h h₁ answer init hinit

theorem Answered.append_quiet (h : Answered n events) (hquiet : ∀ answer, e ≠ .acquired n answer) :
    Answered n (events ++ [e]) :=
  h.append fun answer he => absurd he (hquiet answer)

theorem Answered.append_of_ne {more : List (CacheEvent ρ)} (h : Answered n events)
    (hne : ∀ e ∈ more, e.name ≠ n) : Answered n (events ++ more) := by
  induction more generalizing events with
  | nil =>
    rw [List.append_nil]
    exact h
  | cons e more ih =>
    rw [List.append_cons]
    apply ih _ fun e' he' => hne e' (List.mem_cons_of_mem e he')
    apply h.append_quiet
    rintro answer rfl
    exact hne _ List.mem_cons_self rfl

end CacheEvent

namespace Cache

open CacheEvent

variable {o : Opener σ ρ} {c : Cache σ ρ} {n : String}

def perform (o : Opener σ ρ) (c : Cache σ ρ) : CacheCall σ → Cache σ ρ
  | .acquire name => (c.acquire o name).2
  | .release name => (c.release o name).2
  | .change backend => { c with backend }

def recording (c : Cache σ ρ) : Cache (Recorded σ ρ) ρ := ⟨⟨c.backend, []⟩, c.holdings⟩

def forget (c : Cache (Recorded σ ρ) ρ) : Cache σ ρ := ⟨c.backend.inner, c.holdings⟩

/-- What is opened and closed in a call. -/
def transfers (o : Opener σ ρ) (c : Cache σ ρ) : CacheCall σ → List (CacheEvent ρ)
  | .acquire name => (c.recording.acquire o.recorded name).2.backend.events
  | .release name => (c.recording.release o.recorded name).2.backend.events
  | .change _ => []

/-- What happens in a call: what is opened or closed, and then the answer. -/
def events (o : Opener σ ρ) (c : Cache σ ρ) : CacheCall σ → List (CacheEvent ρ)
  | .acquire name => c.transfers o (.acquire name) ++ [.acquired name (c.acquire o name).1]
  | .release name => c.transfers o (.release name) ++ [.released name (c.release o name).1]
  | .change _ => []

def performAll (o : Opener σ ρ) (c : Cache σ ρ) (calls : List (CacheCall σ)) : Cache σ ρ :=
  calls.foldl (perform o) c

theorem performAll_append (o : Opener σ ρ) (c : Cache σ ρ) (calls more : List (CacheCall σ)) :
    c.performAll o (calls ++ more) = (c.performAll o calls).performAll o more :=
  List.foldl_append

def history (o : Opener σ ρ) (c : Cache σ ρ) : List (CacheCall σ) → List (CacheEvent ρ)
  | [] => []
  | call :: rest => c.events o call ++ (c.perform o call).history o rest

section Calls

variable {x : Holding ρ} {f : CacheFault} {r : ρ} {backend : σ}

theorem acquire_of_invalid (hvalid : Archive.validateName n = .error f) :
    c.acquire o n = (.error f, c) := by
  rw [acquire, hvalid]

theorem acquire_of_open (hvalid : Archive.validateName n = .ok ())
    (hfind : c.holdings.find? n = some x) :
    c.acquire o n =
      (.ok x.resource,
        { c with holdings := c.holdings.insert n { x with count := x.count + 1 } }) := by
  rw [acquire, hvalid]
  dsimp only
  rw [hfind]

theorem acquire_of_error (hvalid : Archive.validateName n = .ok ())
    (hfind : c.holdings.find? n = none) (hopen : o.openNamed n c.backend = (.error f, backend)) :
    c.acquire o n = (.error f, { c with backend }) := by
  rw [acquire, hvalid]
  dsimp only
  rw [hfind]
  dsimp only
  rw [hopen]

theorem acquire_of_ok (hvalid : Archive.validateName n = .ok ())
    (hfind : c.holdings.find? n = none) (hopen : o.openNamed n c.backend = (.ok r, backend)) :
    c.acquire o n = (.ok r, ⟨backend, c.holdings.insert n ⟨r, 1⟩⟩) := by
  rw [acquire, hvalid]
  dsimp only
  rw [hfind]
  dsimp only
  rw [hopen]

theorem release_of_closed (hfind : c.holdings.find? n = none) : c.release o n = (false, c) := by
  rw [release, hfind]

theorem release_of_shared (hfind : c.holdings.find? n = some x) (hcount : 1 < x.count) :
    c.release o n =
      (false, { c with holdings := c.holdings.insert n { x with count := x.count - 1 } }) := by
  rw [release, hfind]
  exact if_pos hcount

theorem release_of_last (hfind : c.holdings.find? n = some x) (hcount : ¬1 < x.count) :
    c.release o n =
      (true, ⟨o.closeNamed n x.resource c.backend, c.holdings.erase n⟩) := by
  rw [release, hfind]
  exact if_neg hcount

theorem openNamed_recorded (s : Recorded σ ρ) :
    o.recorded.openNamed n s =
      match o.openNamed n s.inner with
      | (.ok resource, inner) =>
        (.ok resource, ⟨inner, s.events ++ [.transferred n (.opened resource)]⟩)
      | (.error f, inner) => (.error f, { s with inner }) := rfl

end Calls

section Views

variable {τ : Type} {o' : Opener τ ρ} {view : τ → σ}

theorem acquire_viewed (h : o'.Extends o view) (c : Cache τ ρ) (n : String) :
    (c.viewed view).acquire o n = ((c.acquire o' n).1, (c.acquire o' n).2.viewed view) := by
  cases hvalid : Archive.validateName n with
  | error f => simp [acquire_of_invalid hvalid]
  | ok u =>
    cases hfind : c.holdings.find? n with
    | some x =>
      rw [acquire_of_open hvalid hfind, acquire_of_open (c := c.viewed view) hvalid hfind]
      rfl
    | none =>
      have hview := h.openNamed n c.backend
      rcases hopen : o'.openNamed n c.backend with ⟨_ | r, backend⟩
      · rw [hopen] at hview
        rw [acquire_of_error hvalid hfind hopen,
          acquire_of_error (c := c.viewed view) hvalid hfind hview]
        rfl
      · rw [hopen] at hview
        rw [acquire_of_ok hvalid hfind hopen, acquire_of_ok (c := c.viewed view) hvalid hfind hview]
        rfl

theorem release_viewed (h : o'.Extends o view) (c : Cache τ ρ) (n : String) :
    (c.viewed view).release o n = ((c.release o' n).1, (c.release o' n).2.viewed view) := by
  cases hfind : c.holdings.find? n with
  | none =>
    rw [release_of_closed hfind, release_of_closed (c := c.viewed view) hfind]
  | some x =>
    by_cases hcount : 1 < x.count
    · rw [release_of_shared hfind hcount, release_of_shared (c := c.viewed view) hfind hcount]
      rfl
    · have hview := h.closeNamed n x.resource c.backend
      rw [release_of_last hfind hcount, release_of_last (c := c.viewed view) hfind hcount, viewed,
        viewed, hview]

end Views

/-- An opener that takes notes is for a cache like the one without. -/
theorem acquire_recorded (o : Opener σ ρ) (c : Cache (Recorded σ ρ) ρ) (n : String) :
    (c.acquire o.recorded n).1 = (c.forget.acquire o n).1 ∧
      (c.acquire o.recorded n).2.forget = (c.forget.acquire o n).2 := by
  have h : c.forget.acquire o n = _ := acquire_viewed o.recorded_extends c n
  rw [h]
  exact ⟨rfl, rfl⟩

theorem release_recorded (o : Opener σ ρ) (c : Cache (Recorded σ ρ) ρ) (n : String) :
    (c.release o.recorded n).1 = (c.forget.release o n).1 ∧
      (c.release o.recorded n).2.forget = (c.forget.release o n).2 := by
  have h : c.forget.release o n = _ := release_viewed o.recorded_extends c n
  rw [h]
  exact ⟨rfl, rfl⟩

theorem acquire_cases (o : Opener σ ρ) (c : Cache σ ρ) (n : String) :
    (∃ f backend, (Archive.validateName n = .error f ∨ Archive.validateName n = .ok () ∧
          c.holdings.find? n = none ∧ (o.openNamed n c.backend).1 = .error f) ∧
        c.acquire o n = (.error f, { c with backend }) ∧ c.transfers o (.acquire n) = []) ∨
      (∃ x, Archive.validateName n = .ok () ∧ c.holdings.find? n = some x ∧
        c.acquire o n =
          (.ok x.resource,
            { c with holdings := c.holdings.insert n { x with count := x.count + 1 } }) ∧
        c.transfers o (.acquire n) = []) ∨
      ∃ r backend, Archive.validateName n = .ok () ∧ c.holdings.find? n = none ∧
        c.acquire o n = (.ok r, ⟨backend, c.holdings.insert n ⟨r, 1⟩⟩) ∧
        c.transfers o (.acquire n) = [.transferred n (.opened r)] := by
  rw [transfers]
  cases hvalid : Archive.validateName n with
  | error f =>
    left
    refine ⟨f, c.backend, .inl rfl, acquire_of_invalid hvalid, ?_⟩
    rw [acquire_of_invalid hvalid]
    rfl
  | ok u =>
    cases hfind : c.holdings.find? n with
    | some x =>
      right; left
      refine ⟨x, rfl, rfl, acquire_of_open hvalid hfind, ?_⟩
      rw [acquire_of_open (c := c.recording) hvalid hfind]
      rfl
    | none =>
      rcases hopen : o.openNamed n c.backend with ⟨_ | r, backend⟩
      · rename_i f
        left
        refine ⟨f, backend, .inr ⟨rfl, rfl, rfl⟩, acquire_of_error hvalid hfind hopen, ?_⟩
        have hrecorded : o.recorded.openNamed n c.recording.backend = (.error f, ⟨backend, []⟩) := by
          rw [openNamed_recorded, recording, hopen]
        rw [acquire_of_error (c := c.recording) hvalid hfind hrecorded]
      · right; right
        refine ⟨r, backend, rfl, rfl, acquire_of_ok hvalid hfind hopen, ?_⟩
        have hrecorded : o.recorded.openNamed n c.recording.backend =
            (.ok r, ⟨backend, [.transferred n (.opened r)]⟩) := by
          rw [openNamed_recorded, recording, hopen]
          rfl
        rw [acquire_of_ok (c := c.recording) hvalid hfind hrecorded]

theorem release_cases (o : Opener σ ρ) (c : Cache σ ρ) (n : String) :
    (c.holdings.find? n = none ∧ c.release o n = (false, c) ∧ c.transfers o (.release n) = []) ∨
      (∃ x, c.holdings.find? n = some x ∧ 1 < x.count ∧
        c.release o n =
          (false, { c with holdings := c.holdings.insert n { x with count := x.count - 1 } }) ∧
        c.transfers o (.release n) = []) ∨
      ∃ x backend, c.holdings.find? n = some x ∧ ¬1 < x.count ∧
        c.release o n = (true, ⟨backend, c.holdings.erase n⟩) ∧
        c.transfers o (.release n) = [.transferred n (.closed x.resource)] := by
  rw [transfers]
  cases hfind : c.holdings.find? n with
  | none =>
    left
    refine ⟨rfl, release_of_closed hfind, ?_⟩
    rw [release_of_closed (c := c.recording) hfind]
    rfl
  | some x =>
    right
    by_cases hcount : 1 < x.count
    · left
      refine ⟨x, rfl, hcount, release_of_shared hfind hcount, ?_⟩
      rw [release_of_shared (c := c.recording) hfind hcount]
      rfl
    · right
      refine ⟨x, _, rfl, hcount, release_of_last hfind hcount, ?_⟩
      rw [release_of_last (c := c.recording) hfind hcount]
      rfl

end Cache

end Metaobject
