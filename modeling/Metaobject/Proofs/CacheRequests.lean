import Metaobject.Cache.Trace
import Metaobject.Proofs.CacheHistory

/-!
# Requests of a cache

What a call on a cache is answered, what becomes of the holding, and what the opener is asked for. All
of it is about the name in the call: it depends on how this name is held and on what the opener would
answer for it, and other names stay as they are.
-/

namespace Metaobject

/-- A call on a cache by one of the holders of its resources. -/
inductive HolderCall
  | acquire (name : String)
  | release (name : String)
deriving DecidableEq, Repr

variable {σ ρ : Type}

def OpenerEvent.name : OpenerEvent ρ → String
  | .opened n | .closed n _ => n

namespace Opener

/-- An opener that notes all requests to it, also those that it cannot meet. -/
def watched (o : Opener σ ρ) : Opener (Traced σ ρ) ρ where
  openNamed name s :=
    ((o.openNamed name s.inner).1, ⟨(o.openNamed name s.inner).2, s.events ++ [.opened name]⟩)
  closeNamed name resource s :=
    ⟨o.closeNamed name resource s.inner, s.events ++ [.closed name resource]⟩

theorem openNamed_watched (o : Opener σ ρ) (n : String) (s : Traced σ ρ) :
    o.watched.openNamed n s =
      ((o.openNamed n s.inner).1, ⟨(o.openNamed n s.inner).2, s.events ++ [.opened n]⟩) := rfl

theorem closeNamed_watched (o : Opener σ ρ) (n : String) (r : ρ) (s : Traced σ ρ) :
    o.watched.closeNamed n r s = ⟨o.closeNamed n r s.inner, s.events ++ [.closed n r]⟩ := rfl

theorem watched_extends (o : Opener σ ρ) : o.watched.Extends o Traced.inner :=
  ⟨fun _ _ => rfl, fun _ _ _ => rfl⟩

def meet (o : Opener σ ρ) (s : σ) : OpenerEvent ρ → σ
  | .opened n => (o.openNamed n s).2
  | .closed n r => o.closeNamed n r s

def after (o : Opener σ ρ) (s : σ) (requests : List (OpenerEvent ρ)) : σ :=
  requests.foldl o.meet s

theorem after_append (o : Opener σ ρ) (s : σ) (requests more : List (OpenerEvent ρ)) :
    o.after s (requests ++ more) = o.after (o.after s requests) more :=
  List.foldl_append

end Opener

/-- What a call brings about: its answer, the holding under its name, and requests to the opener. -/
structure CallEffect (ρ : Type) where
  answer : CacheEvent ρ
  holding : Option (Holding ρ)
  requests : List (OpenerEvent ρ)

namespace HolderCall

def name : HolderCall → String
  | .acquire n | .release n => n

def toCall : HolderCall → CacheCall σ
  | .acquire n => .acquire n
  | .release n => .release n

/-- What a call brings about if its name is held like this, and the opener would answer this. -/
def effect (held : Option (Holding ρ)) (opened : Except CacheFault ρ) : HolderCall → CallEffect ρ
  | .acquire n =>
    match Archive.validateName n, held, opened with
    | .error f, _, _ => ⟨.acquired n (.error f), held, []⟩
    | .ok (), some x, _ =>
      ⟨.acquired n (.ok x.resource), some { x with count := x.count + 1 }, []⟩
    | .ok (), none, .error f => ⟨.acquired n (.error f), none, [.opened n]⟩
    | .ok (), none, .ok r => ⟨.acquired n (.ok r), some ⟨r, 1⟩, [.opened n]⟩
  | .release n =>
    match held with
    | none => ⟨.released n false, none, []⟩
    | some x =>
      if 1 < x.count then ⟨.released n false, some { x with count := x.count - 1 }, []⟩
      else ⟨.released n true, none, [.closed n x.resource]⟩

variable {held : Option (Holding ρ)} {opened : Except CacheFault ρ} {call : HolderCall}

theorem name_requests : ∀ e ∈ (call.effect held opened).requests, e.name = call.name := by
  cases call with
  | acquire n =>
    simp only [effect]
    split <;> simp [OpenerEvent.name, name]
  | release n =>
    simp only [effect]
    split
    · simp
    · split <;> simp [OpenerEvent.name, name]

end HolderCall

namespace Cache

def answer (o : Opener σ ρ) (c : Cache σ ρ) : HolderCall → CacheEvent ρ
  | .acquire n => .acquired n (c.acquire o n).1
  | .release n => .released n (c.release o n).1

def answers (o : Opener σ ρ) (c : Cache σ ρ) : List HolderCall → List (CacheEvent ρ)
  | [] => []
  | call :: rest => c.answer o call :: (c.perform o call.toCall).answers o rest

def watching (c : Cache σ ρ) : Cache (Traced σ ρ) ρ := ⟨⟨c.backend, []⟩, c.holdings⟩

def requests (o : Opener σ ρ) (c : Cache σ ρ) (calls : List HolderCall) : List (OpenerEvent ρ) :=
  (c.watching.performAll o.watched (calls.map HolderCall.toCall)).backend.events

/-- A call brings this about, and nothing for other names. -/
structure HasEffect (o : Opener σ ρ) (c : Cache (Traced σ ρ) ρ) (call : HolderCall)
    (e : CallEffect ρ) : Prop where
  answer : c.answer o.watched call = e.answer
  holding : (c.perform o.watched call.toCall).holdings.find? call.name = e.holding
  others : ∀ m, call.name ≠ m →
    (c.perform o.watched call.toCall).holdings.find? m = c.holdings.find? m
  requests : (c.perform o.watched call.toCall).backend.events = c.backend.events ++ e.requests
  state : (c.perform o.watched call.toCall).backend.inner = o.after c.backend.inner e.requests

theorem hasEffect_acquire (o : Opener σ ρ) (c : Cache (Traced σ ρ) ρ) (n : String) :
    c.HasEffect o (.acquire n)
      ((HolderCall.acquire n).effect (c.holdings.find? n) (o.openNamed n c.backend.inner).1) := by
  have hnotes := o.openNamed_watched n c.backend
  cases hvalid : Archive.validateName n with
  | error f =>
    have hrun := acquire_of_invalid (c := c) (o := o.watched) hvalid
    constructor <;>
      simp [answer, perform, HolderCall.toCall, HolderCall.name, hrun, HolderCall.effect, hvalid,
        Opener.after]
  | ok u =>
    cases hfind : c.holdings.find? n with
    | some x =>
      have hrun := acquire_of_open (o := o.watched) hvalid hfind
      constructor <;>
        simp +contextual [answer, perform, HolderCall.toCall, HolderCall.name, hrun,
          HolderCall.effect, hvalid, Opener.after, Table.find?_insert]
    | none =>
      rcases hopen : o.openNamed n c.backend.inner with ⟨f | r, inner⟩
      · rw [hopen] at hnotes
        have hrun := acquire_of_error hvalid hfind hnotes
        constructor <;>
          simp [answer, perform, HolderCall.toCall, HolderCall.name, hrun, HolderCall.effect,
            hvalid, hfind, Opener.after, Opener.meet, hopen]
      · rw [hopen] at hnotes
        have hrun := acquire_of_ok hvalid hfind hnotes
        constructor <;>
          simp +contextual [answer, perform, HolderCall.toCall, HolderCall.name, hrun,
            HolderCall.effect, hvalid, Opener.after, Opener.meet, hopen, Table.find?_insert]

theorem hasEffect_release (o : Opener σ ρ) (c : Cache (Traced σ ρ) ρ) (n : String)
    (opened : Except CacheFault ρ) :
    c.HasEffect o (.release n) ((HolderCall.release n).effect (c.holdings.find? n) opened) := by
  cases hfind : c.holdings.find? n with
  | none =>
    have hrun := release_of_closed (o := o.watched) hfind
    constructor <;>
      simp [answer, perform, HolderCall.toCall, HolderCall.name, hrun, HolderCall.effect, hfind,
        Opener.after]
  | some x =>
    by_cases hcount : 1 < x.count
    · have hrun := release_of_shared (o := o.watched) hfind hcount
      constructor <;>
        simp +contextual [answer, perform, HolderCall.toCall, HolderCall.name, hrun,
          HolderCall.effect, hcount, Opener.after, Table.find?_insert]
    · have hrun := release_of_last (o := o.watched) hfind hcount
      constructor <;>
        simp +contextual [answer, perform, HolderCall.toCall, HolderCall.name, hrun,
          HolderCall.effect, hcount, Opener.after, Opener.meet,
          Opener.closeNamed_watched, Table.find?_erase]

theorem hasEffect (o : Opener σ ρ) (c : Cache (Traced σ ρ) ρ) (call : HolderCall) :
    c.HasEffect o call
      (call.effect (c.holdings.find? call.name) (o.openNamed call.name c.backend.inner).1) := by
  cases call with
  | acquire n => exact hasEffect_acquire o c n
  | release n => exact hasEffect_release o c n _

section Watching

variable {o : Opener σ ρ}

theorem answer_watched (c : Cache (Traced σ ρ) ρ) (call : HolderCall) :
    (c.viewed Traced.inner).answer o call = c.answer o.watched call ∧
      (c.viewed Traced.inner).perform o call.toCall =
        (c.perform o.watched call.toCall).viewed Traced.inner := by
  cases call with
  | acquire n => simp [answer, perform, HolderCall.toCall, acquire_viewed o.watched_extends]
  | release n => simp [answer, perform, HolderCall.toCall, release_viewed o.watched_extends]

theorem answers_watched (c : Cache (Traced σ ρ) ρ) (calls : List HolderCall) :
    (c.viewed Traced.inner).answers o calls = c.answers o.watched calls ∧
      (c.viewed Traced.inner).performAll o (calls.map HolderCall.toCall) =
        (c.performAll o.watched (calls.map HolderCall.toCall)).viewed Traced.inner := by
  induction calls generalizing c with
  | nil => exact ⟨rfl, rfl⟩
  | cons call rest ih =>
    obtain ⟨hanswer, hnext⟩ := answer_watched (o := o) c call
    obtain ⟨hanswers, hlast⟩ := ih (c.perform o.watched call.toCall)
    constructor
    · rw [answers, answers, hanswer, hnext, hanswers]
    · change ((c.viewed Traced.inner).perform o call.toCall).performAll o _ = _
      rw [hnext, hlast]
      rfl

end Watching

end Cache

end Metaobject
