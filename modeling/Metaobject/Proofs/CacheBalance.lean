import Metaobject.Proofs.CacheRequests

/-!
# The balance of a cache

For each name openings and closings take turns, and between an opening and its closing the holds that
were taken and not given up are as many as the cache counts. What happens under a name is kept in its
accounts, to which only the calls with this name add anything.
-/

namespace Metaobject

variable {σ ρ : Type}

namespace Cache

open CacheEvent

variable {o : Opener σ ρ} {c : Cache σ ρ} {n : String}

/-- A resource is held as often as it was acquired and not released since it was opened. -/
def HeldSince (n : String) (x : Holding ρ) (h : List (CacheEvent ρ)) : Prop :=
  ∃ h₁ h₂, h = h₁ ++ .transferred n (.opened x.resource) :: h₂ ∧ transfersOf n h₂ = [] ∧
    x.count + releases n h₂ = acquires n h₂ ∧ 1 ≤ x.count

/-- How a cache stands with a name after what happened. -/
structure Accounts (c : Cache σ ρ) (h : List (CacheEvent ρ)) (n : String) : Prop where
  valid : (c.holdings.find? n).isSome → Archive.validateName n = .ok ()
  alternates : Alternates (transfersOf n h)
  resource : (c.holdings.find? n).map Holding.resource = current n h
  held : ∀ x, c.holdings.find? n = some x → HeldSince n x h
  answers : Answered n h

section Steps

variable {next : Cache σ ρ} {h events : List (CacheEvent ρ)} {e : CacheEvent ρ} {x y : Holding ρ}
  {r : ρ}

theorem Accounts.current_of_none (hc : c.Accounts h n) (hfind : c.holdings.find? n = none) :
    current n h = none := by
  rw [← hc.resource, hfind]
  rfl

theorem Accounts.find?_of_invalid {f : CacheFault} (hc : c.Accounts h n)
    (hinvalid : Archive.validateName n = .error f) : c.holdings.find? n = none := by
  rw [← Option.not_isSome_iff_eq_none]
  intro hheld
  rw [hc.valid hheld] at hinvalid
  contradiction

theorem Accounts.current_of_some (hc : c.Accounts h n) (hfind : c.holdings.find? n = some x) :
    current n h = some x.resource := by
  rw [← hc.resource, hfind]
  rfl

theorem HeldSince.append (hx : HeldSince n x h) (hresource : y.resource = x.resource)
    (htransfers : transfersOf n events = [])
    (hcount : y.count + releases n events = x.count + acquires n events) (hpos : 1 ≤ y.count) :
    HeldSince n y (h ++ events) := by
  obtain ⟨h₁, h₂, rfl, hnone, hbalance, _⟩ := hx
  refine ⟨h₁, h₂ ++ events, ?_, ?_, ?_, hpos⟩
  · rw [hresource, List.append_assoc, List.cons_append]
  · rw [transfersOf_append, hnone, htransfers]
    rfl
  · rw [releases_append, acquires_append]
    omega

theorem Accounts.other (hc : c.Accounts h n) (hfind : next.holdings.find? n = c.holdings.find? n)
    (hne : ∀ e ∈ events, e.name ≠ n) : next.Accounts (h ++ events) n := by
  have htransfers := transfersOf_of_ne hne
  constructor
  · rw [hfind]
    exact hc.valid
  · rw [transfersOf_append, htransfers, List.append_nil]
    exact hc.alternates
  · rw [hfind, current_append_of_nil h htransfers]
    exact hc.resource
  · intro x hx
    rw [hfind] at hx
    have hpos : 1 ≤ x.count := (hc.held x hx).choose_spec.choose_spec.2.2.2
    apply (hc.held x hx).append rfl htransfers _ hpos
    rw [releases_of_ne hne, acquires_of_ne hne]
  · exact hc.answers.append_of_ne hne

/-- A call is about one name, so its accounts are those to look at. -/
theorem Accounts.all {m : String} (hc : ∀ n, c.Accounts h n) (hm : next.Accounts (h ++ events) m)
    (hfind : ∀ n, m ≠ n → next.holdings.find? n = c.holdings.find? n)
    (hname : ∀ e ∈ events, e.name = m) (n : String) : next.Accounts (h ++ events) n := by
  by_cases heq : m = n
  · exact heq ▸ hm
  · apply (hc n).other (hfind n heq)
    intro e he
    rw [hname e he]
    exact heq

theorem Accounts.unheld (hc : c.Accounts h n) (hfind : c.holdings.find? n = none)
    (hnext : next.holdings.find? n = none) (htransfers : transfersOf n [e] = [])
    (hanswer : ∀ r, e ≠ .acquired n (.ok r)) : next.Accounts (h ++ [e]) n := by
  have hcurrent := hc.current_of_none hfind
  constructor
  · rw [hnext]
    simp
  · rw [transfersOf_append, htransfers, List.append_nil]
    exact hc.alternates
  · rw [hnext, current_append_of_nil h htransfers, hcurrent]
    rfl
  · rw [hnext]
    simp
  · apply hc.answers.append
    rintro answer rfl r
    rw [hcurrent]
    constructor
    · rintro rfl
      exact absurd rfl (hanswer r)
    · simp

theorem Accounts.shared (hc : c.Accounts h n) (hfind : c.holdings.find? n = some x)
    (hnext : next.holdings.find? n = some y) (hresource : y.resource = x.resource)
    (htransfers : transfersOf n [e] = [])
    (hcount : y.count + releases n [e] = x.count + acquires n [e]) (hpos : 1 ≤ y.count)
    (hanswer : ∀ answer, e = .acquired n answer → answer = .ok x.resource) :
    next.Accounts (h ++ [e]) n := by
  have hcurrent := hc.current_of_some hfind
  constructor
  · intro _
    apply hc.valid
    rw [hfind]
    rfl
  · rw [transfersOf_append, htransfers, List.append_nil]
    exact hc.alternates
  · rw [hnext, current_append_of_nil h htransfers, hcurrent, Option.map_some, hresource]
  · intro z hz
    rw [hnext] at hz
    cases hz
    exact (hc.held x hfind).append hresource htransfers hcount hpos
  · apply hc.answers.append
    intro answer he r
    rw [hcurrent, hanswer answer he, Except.ok.injEq, Option.some.injEq]

theorem Accounts.opened (hc : c.Accounts h n) (hvalid : Archive.validateName n = .ok ())
    (hfind : c.holdings.find? n = none) (hnext : next.holdings.find? n = some ⟨r, 1⟩) :
    next.Accounts (h ++ [.transferred n (.opened r), .acquired n (.ok r)]) n := by
  have hsplit : h ++ [.transferred n (.opened r), .acquired n (.ok r)] =
      (h ++ [.transferred n (.opened r)]) ++ [.acquired n (.ok r)] := by simp
  have htransfers : transfersOf n (h ++ [.transferred n (.opened r), .acquired n (.ok r)]) =
      transfersOf n h ++ [.opened r] := by simp [transfersOf]
  have hanswered : transfersOf n [CacheEvent.acquired n (.ok r)] = [] := rfl
  constructor
  · exact fun _ => hvalid
  · rw [htransfers]
    apply hc.alternates.append_opened
    intro r' hlast
    have hopen := current_eq_some_iff.mpr hlast
    rw [hc.current_of_none hfind] at hopen
    contradiction
  · rw [hnext, hsplit, current_append_of_nil _ hanswered, current_append_opened]
    rfl
  · intro x hx
    rw [hnext] at hx
    cases hx
    exact ⟨h, [.acquired n (.ok r)], rfl, rfl, by simp [releases, acquires], Nat.le_refl 1⟩
  · have htaken : Answered n (h ++ [.transferred n (.opened r)]) := hc.answers.append_quiet (by simp)
    rw [hsplit]
    apply htaken.append
    intro answer he r'
    cases he
    rw [current_append_opened, Except.ok.injEq, Option.some.injEq]

theorem Accounts.closed (hc : c.Accounts h n) (hfind : c.holdings.find? n = some x)
    (hnext : next.holdings.find? n = none) :
    next.Accounts (h ++ [.transferred n (.closed x.resource), .released n true]) n := by
  have hsplit : h ++ [.transferred n (.closed x.resource), .released n true] =
      (h ++ [.transferred n (.closed x.resource)]) ++ [.released n true] := by simp
  have htransfers : transfersOf n (h ++ [.transferred n (.closed x.resource), .released n true]) =
      transfersOf n h ++ [.closed x.resource] := by simp [transfersOf]
  have hanswered : transfersOf n ([.released n true] : List (CacheEvent ρ)) = [] := rfl
  constructor
  · rw [hnext]
    simp
  · rw [htransfers]
    exact hc.alternates.append_closed (current_eq_some_iff.mp (hc.current_of_some hfind))
  · rw [hnext, hsplit, current_append_of_nil _ hanswered, current_append_closed]
    rfl
  · rw [hnext]
    simp
  · have hgiven : Answered n (h ++ [.transferred n (.closed x.resource)]) :=
      hc.answers.append_quiet (by simp)
    rw [hsplit]
    exact hgiven.append_quiet (by simp)

end Steps

section Runs

variable {h : List (CacheEvent ρ)}

theorem Accounts.acquire (hc : ∀ n, c.Accounts h n) (m : String) :
    ∀ n, (c.acquire o m).2.Accounts (h ++ c.events o (.acquire m)) n := by
  rw [events]
  rcases acquire_cases o c m with ⟨f, backend, hrefused, hacquire, htransfers⟩ |
    ⟨x, _, hfind, hacquire, htransfers⟩ | ⟨r, backend, hvalid, hfind, hacquire, htransfers⟩
  · rw [hacquire, htransfers]
    have hfind : c.holdings.find? m = none := by
      obtain hinvalid | ⟨_, hfind, _⟩ := hrefused
      · exact (hc m).find?_of_invalid hinvalid
      · exact hfind
    have hm : Accounts { c with backend } (h ++ [.acquired m (.error f)]) m :=
      (hc m).unheld hfind hfind rfl (by simp)
    exact Accounts.all hc hm (fun _ _ => rfl) (by simp [name])
  · rw [hacquire, htransfers]
    apply Accounts.all hc _ (fun _ hne => Table.find?_insert_of_ne _ _ hne) (by simp [name])
    apply (hc m).shared (y := { x with count := x.count + 1 }) hfind
      (Table.find?_insert_self _ _ _) rfl rfl
    · simp [releases, acquires]
    · exact Nat.le_add_left 1 x.count
    · intro answer he
      cases he
      rfl
  · rw [hacquire, htransfers]
    exact Accounts.all hc ((hc m).opened hvalid hfind (Table.find?_insert_self _ _ _))
      (fun _ hne => Table.find?_insert_of_ne _ _ hne) (by simp [name])

theorem Accounts.release (hc : ∀ n, c.Accounts h n) (m : String) :
    ∀ n, (c.release o m).2.Accounts (h ++ c.events o (.release m)) n := by
  rw [events]
  rcases release_cases o c m with ⟨hfind, hrelease, htransfers⟩ |
    ⟨x, hfind, hcount, hrelease, htransfers⟩ | ⟨x, backend, hfind, _, hrelease, htransfers⟩
  · rw [hrelease, htransfers]
    have hm : c.Accounts (h ++ [.released m false]) m := (hc m).unheld hfind hfind rfl (by simp)
    exact Accounts.all hc hm (fun _ _ => rfl) (by simp [name])
  · rw [hrelease, htransfers]
    apply Accounts.all hc _ (fun _ hne => Table.find?_insert_of_ne _ _ hne) (by simp [name])
    apply (hc m).shared (y := { x with count := x.count - 1 }) hfind
      (Table.find?_insert_self _ _ _) rfl rfl
    · simp [releases, acquires]
      omega
    · exact Nat.le_sub_one_of_lt hcount
    · simp
  · rw [hrelease, htransfers]
    have hnone := (Table.find?_erase c.holdings m m).trans (if_pos rfl)
    exact Accounts.all hc ((hc m).closed hfind hnone)
      (fun n hne => (Table.find?_erase c.holdings m n).trans (if_neg hne)) (by simp [name])

theorem Accounts.perform (hc : ∀ n, c.Accounts h n) (call : CacheCall σ) (n : String) :
    (c.perform o call).Accounts (h ++ c.events o call) n := by
  cases call with
  | acquire m => exact Accounts.acquire hc m n
  | release m => exact Accounts.release hc m n
  | change backend =>
    rw [events, List.append_nil]
    obtain ⟨hvalid, halternates, hresource, hheld, hanswers⟩ := hc n
    exact ⟨hvalid, halternates, hresource, hheld, hanswers⟩

/-- As many resources are open as were opened and not closed, each under one name. -/
structure Sized (c : Cache σ ρ) (h : List (CacheEvent ρ)) : Prop where
  nodup : c.holdings.keys.Nodup
  balance : c.size + closes h = opens h

section Sizes

variable {next : Cache σ ρ} {events : List (CacheEvent ρ)} {x : Holding ρ}

theorem Sized.alike (hc : c.Sized h) (hkeys : next.holdings.keys = c.holdings.keys)
    (hopens : opens events = 0) (hcloses : closes events = 0) : next.Sized (h ++ events) := by
  have hsize : next.size = c.size := by
    rw [size, size, ← Table.length_keys, ← Table.length_keys, hkeys]
  constructor
  · rw [hkeys]
    exact hc.nodup
  · rw [hsize, closes_append, opens_append, hopens, hcloses]
    exact hc.balance

theorem Sized.opened (hc : c.Sized h) (hfind : c.holdings.find? n = none)
    (hnext : next.holdings = c.holdings.insert n x)
    (hopens : opens events = 1) (hcloses : closes events = 0) : next.Sized (h ++ events) := by
  have hkeys : next.holdings.keys = c.holdings.keys ++ [n] := by
    rw [hnext]
    exact Table.keys_insert_of_none x hfind
  have hsize : next.size = c.size + 1 := by
    rw [size, size, ← Table.length_keys, ← Table.length_keys, hkeys, List.length_append]
    rfl
  have hbefore := hc.balance
  constructor
  · rw [hkeys]
    apply hc.nodup.append (List.nodup_singleton n)
    rw [List.disjoint_singleton, Table.mem_keys_iff, hfind]
    exact Bool.false_ne_true
  · rw [closes_append, opens_append]
    omega

theorem Sized.closed (hc : c.Sized h) (hfind : c.holdings.find? n = some x)
    (hnext : next.holdings = c.holdings.erase n)
    (hopens : opens events = 0) (hcloses : closes events = 1) : next.Sized (h ++ events) := by
  have hsize : next.size + 1 = c.size := by
    rw [size, hnext]
    exact Table.size_erase hc.nodup (by rw [hfind]; rfl)
  have hbefore := hc.balance
  constructor
  · rw [hnext, Table.keys_erase]
    exact hc.nodup.filter _
  · rw [closes_append, opens_append]
    omega

end Sizes

theorem Sized.perform (hc : c.Sized h) (call : CacheCall σ) :
    (c.perform o call).Sized (h ++ c.events o call) := by
  cases call with
  | acquire m =>
    rw [Cache.perform, events]
    rcases acquire_cases o c m with ⟨f, backend, _, hacquire, htransfers⟩ |
      ⟨x, _, hfind, hacquire, htransfers⟩ | ⟨r, backend, _, hfind, hacquire, htransfers⟩
    · rw [hacquire, htransfers]
      exact hc.alike rfl rfl rfl
    · rw [hacquire, htransfers]
      exact hc.alike (Table.keys_insert_of_isSome _ (by rw [hfind]; rfl)) rfl rfl
    · rw [hacquire, htransfers]
      exact hc.opened hfind rfl rfl rfl
  | release m =>
    rw [Cache.perform, events]
    rcases release_cases o c m with ⟨hfind, hrelease, htransfers⟩ |
      ⟨x, hfind, _, hrelease, htransfers⟩ | ⟨x, backend, hfind, _, hrelease, htransfers⟩
    · rw [hrelease, htransfers]
      exact hc.alike rfl rfl rfl
    · rw [hrelease, htransfers]
      exact hc.alike (Table.keys_insert_of_isSome _ (by rw [hfind]; rfl)) rfl rfl
    · rw [hrelease, htransfers]
      exact hc.closed hfind rfl rfl rfl
  | change backend => exact hc.alike rfl rfl rfl

theorem Accounts.performAll (hc : ∀ n, c.Accounts h n) (calls : List (CacheCall σ)) (n : String) :
    (c.performAll o calls).Accounts (h ++ c.history o calls) n := by
  induction calls generalizing c h with
  | nil =>
    rw [history, List.append_nil]
    exact hc n
  | cons call rest ih =>
    rw [history, ← List.append_assoc]
    exact ih (Accounts.perform hc call)

theorem Sized.performAll (hc : c.Sized h) (calls : List (CacheCall σ)) :
    (c.performAll o calls).Sized (h ++ c.history o calls) := by
  induction calls generalizing c h with
  | nil =>
    rw [history, List.append_nil]
    exact hc
  | cons call rest ih =>
    rw [history, ← List.append_assoc]
    exact ih (hc.perform call)

theorem accounts_fresh (backend : σ) (n : String) :
    (fresh backend : Cache σ ρ).Accounts [] n :=
  ⟨nofun, trivial, rfl, nofun, fun h₁ answer h₂ heq => by simp at heq⟩

theorem sized_fresh (backend : σ) : (fresh backend : Cache σ ρ).Sized [] := ⟨.nil, rfl⟩

end Runs

/-- A cache in balance with its history. -/
structure Balanced (o : Opener σ ρ) (c : Cache σ ρ) (h : List (CacheEvent ρ)) : Prop where
  /-- Openings and closings of a name take turns, and what is closed is what was opened. -/
  alternates : ∀ n, Alternates (transfersOf n h)
  /-- A name is open when it was last opened. -/
  isOpen : ∀ n, c.isOpen n = true ↔ ∃ r, (transfersOf n h).getLast? = some (.opened r)
  /-- The count is that of the acquisitions without the releases since then. -/
  count_open : ∀ n, c.isOpen n = true → ∃ h₁ r h₂, h = h₁ ++ .transferred n (.opened r) :: h₂ ∧
    transfersOf n h₂ = [] ∧ c.count n + releases n h₂ = acquires n h₂ ∧ 1 ≤ c.count n
  count_closed : ∀ n, c.isOpen n = false → c.count n = 0
  /-- An acquisition was answered with the resource that was open then, if it succeeded. -/
  answered : ∀ n, Answered n h
  /-- A release gives up one hold, closes what is open with the last, and tells whether it did. -/
  count_release : ∀ n, (c.release o n).2.count n = c.count n - 1
  release_last : ∀ n, (c.release o n).1 = true ↔ 0 < c.count n ∧ (c.release o n).2.count n = 0
  release_true : ∀ n, (c.release o n).1 = true → ∃ r, current n h = some r ∧
    c.transfers o (.release n) = [.transferred n (.closed r)] ∧ (c.release o n).2.isOpen n = false
  release_false : ∀ n, (c.release o n).1 = false → c.transfers o (.release n) = []
  /-- An acquisition fails for an invalid name, or since what is not open cannot be opened. -/
  acquire_error_iff : ∀ n f, (c.acquire o n).1 = .error f ↔ Archive.validateName n = .error f ∨
    Archive.validateName n = .ok () ∧ c.isOpen n = false ∧ (o.openNamed n c.backend).1 = .error f
  /-- What is open is held once more. -/
  acquire_open : ∀ n, c.isOpen n = true → ∃ r, current n h = some r ∧ (c.acquire o n).1 = .ok r ∧
    (c.acquire o n).2.count n = c.count n + 1 ∧ c.transfers o (.acquire n) = []
  /-- What is not open is opened, and then held once. -/
  acquire_opened : ∀ n r, Archive.validateName n = .ok () → c.isOpen n = false →
    (o.openNamed n c.backend).1 = .ok r → (c.acquire o n).1 = .ok r ∧
      (c.acquire o n).2.count n = 1 ∧ c.transfers o (.acquire n) = [.transferred n (.opened r)]
  /-- The opener is asked once for a valid name that is not open, and for nothing else. Only by
  this does an acquisition change what the opener depends on. -/
  requests_opened : ∀ n, Archive.validateName n = .ok () → c.isOpen n = false →
    c.requests o [.acquire n] = [.opened n]
  requests_held : ∀ n, Archive.validateName n ≠ .ok () ∨ c.isOpen n = true →
    c.requests o [.acquire n] = []
  backend : ∀ n, (c.acquire o n).2.backend = o.after c.backend (c.requests o [.acquire n])
  /-- What fails, and what gives up a name that is not open, changes nothing. -/
  acquire_invalid : ∀ n f, Archive.validateName n = .error f → c.acquire o n = (.error f, c)
  acquire_error : ∀ n f, (c.acquire o n).1 = .error f →
    (c.acquire o n).2.holdings = c.holdings ∧ c.transfers o (.acquire n) = []
  release_closed : ∀ n, c.isOpen n = false → c.release o n = (false, c)
  /-- As many resources are open as were opened and not closed. -/
  size : c.size + closes h = opens h

section Balance

variable {h : List (CacheEvent ρ)} {x : Holding ρ}

theorem isOpen_eq (c : Cache σ ρ) (n : String) : c.isOpen n = (c.holdings.find? n).isSome := rfl

theorem count_of_some (hfind : c.holdings.find? n = some x) : c.count n = x.count := by
  rw [count, hfind]

theorem count_of_none (hfind : c.holdings.find? n = none) : c.count n = 0 := by
  rw [count, hfind]

theorem find?_of_not_isOpen (hopen : c.isOpen n = false) : c.holdings.find? n = none :=
  Option.not_isSome_iff_eq_none.mp (Bool.not_eq_true _ ▸ hopen)

theorem Accounts.isOpen_iff (hc : c.Accounts h n) :
    c.isOpen n = true ↔ ∃ r, (transfersOf n h).getLast? = some (.opened r) := by
  rw [isOpen_eq, ← Option.isSome_map (f := Holding.resource), hc.resource, Option.isSome_iff_exists]
  simp only [current_eq_some_iff]

theorem Accounts.count_release (hc : c.Accounts h n) :
    (c.release o n).2.count n = c.count n - 1 ∧
      ((c.release o n).1 = true ↔ 0 < c.count n ∧ (c.release o n).2.count n = 0) := by
  rcases release_cases o c n with ⟨hfind, hrelease, _⟩ | ⟨x, hfind, hlt, hrelease, _⟩ |
    ⟨x, backend, hfind, hlast, hrelease, _⟩
  · rw [hrelease, count_of_none hfind]
    simp
  · rw [hrelease, count_of_some hfind, count_of_some (Table.find?_insert_self _ _ _)]
    simp
    omega
  · have hnone := (Table.find?_erase c.holdings n n).trans (if_pos rfl)
    obtain ⟨_, _, _, _, _, hpos⟩ := hc.held x hfind
    rw [hrelease, count_of_some hfind, count_of_none hnone]
    simp
    omega

theorem Accounts.count_open (hc : c.Accounts h n) (hopen : c.isOpen n = true) :
    ∃ h₁ r h₂, h = h₁ ++ .transferred n (.opened r) :: h₂ ∧ transfersOf n h₂ = [] ∧
      c.count n + releases n h₂ = acquires n h₂ ∧ 1 ≤ c.count n := by
  obtain ⟨x, hfind⟩ := Option.isSome_iff_exists.mp hopen
  obtain ⟨h₁, h₂, heq, htransfers, hcount, hpos⟩ := hc.held x hfind
  rw [count_of_some hfind]
  exact ⟨h₁, x.resource, h₂, heq, htransfers, hcount, hpos⟩

theorem Accounts.release_true (hc : c.Accounts h n) (hclosed : (c.release o n).1 = true) :
    ∃ r, current n h = some r ∧ c.transfers o (.release n) = [.transferred n (.closed r)] ∧
      (c.release o n).2.isOpen n = false := by
  rcases release_cases o c n with ⟨_, hrelease, _⟩ | ⟨_, _, _, hrelease, _⟩ |
    ⟨x, backend, hfind, _, hrelease, htransfers⟩
  · rw [hrelease] at hclosed
    contradiction
  · rw [hrelease] at hclosed
    contradiction
  · refine ⟨x.resource, hc.current_of_some hfind, htransfers, ?_⟩
    rw [hrelease, isOpen_eq, (Table.find?_erase c.holdings n n).trans (if_pos rfl)]
    rfl

theorem release_false (hclosed : (c.release o n).1 = false) :
    c.transfers o (.release n) = [] := by
  rcases release_cases o c n with ⟨_, _, htransfers⟩ | ⟨_, _, _, _, htransfers⟩ |
    ⟨_, _, _, _, hrelease, _⟩
  · exact htransfers
  · exact htransfers
  · rw [hrelease] at hclosed
    contradiction

theorem acquire_error_iff {f : CacheFault} : (c.acquire o n).1 = .error f ↔
    Archive.validateName n = .error f ∨ Archive.validateName n = .ok () ∧ c.isOpen n = false ∧
      (o.openNamed n c.backend).1 = .error f := by
  constructor
  · intro hfault
    rcases acquire_cases o c n with ⟨f', backend, hrefused, hacquire, _⟩ | ⟨_, _, _, hacquire, _⟩ |
      ⟨_, _, _, _, hacquire, _⟩
    · rw [hacquire] at hfault
      cases hfault
      rw [isOpen_eq, Option.isSome_eq_false_iff, Option.isNone_iff_eq_none]
      exact hrefused
    · rw [hacquire] at hfault
      contradiction
    · rw [hacquire] at hfault
      contradiction
  · rintro (hinvalid | ⟨hvalid, hclosed, hopened⟩)
    · rw [acquire_of_invalid hinvalid]
    · rw [acquire_of_error hvalid (find?_of_not_isOpen hclosed) (Prod.ext hopened rfl)]

theorem Accounts.acquire_open (hc : c.Accounts h n) (hopen : c.isOpen n = true) :
    ∃ r, current n h = some r ∧ (c.acquire o n).1 = .ok r ∧
      (c.acquire o n).2.count n = c.count n + 1 ∧ c.transfers o (.acquire n) = [] := by
  obtain ⟨x, hfind⟩ := Option.isSome_iff_exists.mp hopen
  rcases acquire_cases o c n with ⟨f, backend, hrefused, _⟩ |
    ⟨y, _, hheld, hacquire, htransfers⟩ | ⟨_, _, _, hnone, _⟩
  · obtain hinvalid | ⟨_, hnone, _⟩ := hrefused
    · rw [hc.find?_of_invalid hinvalid] at hfind
      contradiction
    · rw [hnone] at hfind
      contradiction
  · rw [hacquire, count_of_some hheld, count_of_some (Table.find?_insert_self _ _ _)]
    exact ⟨y.resource, hc.current_of_some hheld, rfl, rfl, htransfers⟩
  · rw [hnone] at hfind
    contradiction

theorem acquire_opened {r : ρ} (hvalid : Archive.validateName n = .ok ())
    (hclosed : c.isOpen n = false) (hopened : (o.openNamed n c.backend).1 = .ok r) :
    (c.acquire o n).1 = .ok r ∧ (c.acquire o n).2.count n = 1 ∧
      c.transfers o (.acquire n) = [.transferred n (.opened r)] := by
  have hanswer : (c.acquire o n).1 = .ok r := by
    rw [acquire_of_ok hvalid (find?_of_not_isOpen hclosed) (Prod.ext hopened rfl)]
  rcases acquire_cases o c n with ⟨_, _, _, hacquire, _⟩ | ⟨x, _, hfind, _⟩ |
    ⟨_, _, _, _, hacquire, htransfers⟩
  · rw [hacquire] at hanswer
    contradiction
  · rw [find?_of_not_isOpen hclosed] at hfind
    contradiction
  · refine ⟨hanswer, ?_⟩
    rw [hacquire] at hanswer ⊢
    cases hanswer
    rw [count_of_some (Table.find?_insert_self _ _ _)]
    exact ⟨rfl, htransfers⟩

theorem requests_acquire (o : Opener σ ρ) (c : Cache σ ρ) (n : String) :
    c.requests o [.acquire n] = ((HolderCall.acquire n).effect (c.holdings.find? n)
      (o.openNamed n c.backend).1).requests :=
  (hasEffect o c.watching (.acquire n)).requests

theorem requests_opened (hvalid : Archive.validateName n = .ok ()) (hclosed : c.isOpen n = false) :
    c.requests o [.acquire n] = [.opened n] := by
  rw [requests_acquire, find?_of_not_isOpen hclosed]
  cases hopened : (o.openNamed n c.backend).1 <;> simp [HolderCall.effect, hvalid]

theorem requests_held (hheld : Archive.validateName n ≠ .ok () ∨ c.isOpen n = true) :
    c.requests o [.acquire n] = [] := by
  rw [requests_acquire]
  cases hvalid : Archive.validateName n with
  | error f => simp [HolderCall.effect, hvalid]
  | ok u =>
    have hopen := hheld.resolve_left (not_not_intro hvalid)
    obtain ⟨x, hfind⟩ := Option.isSome_iff_exists.mp hopen
    simp [HolderCall.effect, hvalid, hfind]

theorem backend_acquire (o : Opener σ ρ) (c : Cache σ ρ) (n : String) :
    (c.acquire o n).2.backend = o.after c.backend (c.requests o [.acquire n]) := by
  rw [requests_acquire]
  have hsame : c.perform o (.acquire n) = _ := (answer_watched c.watching (.acquire n)).2
  exact (congrArg Cache.backend hsame).trans (hasEffect o c.watching (.acquire n)).state

theorem acquire_error {f : CacheFault} (hfault : (c.acquire o n).1 = .error f) :
    (c.acquire o n).2.holdings = c.holdings ∧ c.transfers o (.acquire n) = [] := by
  rcases acquire_cases o c n with ⟨_, _, _, hacquire, htransfers⟩ | ⟨_, _, _, hacquire, _⟩ |
    ⟨_, _, _, _, hacquire, _⟩
  · rw [hacquire]
    exact ⟨rfl, htransfers⟩
  · rw [hacquire] at hfault
    contradiction
  · rw [hacquire] at hfault
    contradiction

theorem Sized.balanced (hsize : c.Sized h) (hc : ∀ n, c.Accounts h n) : Balanced o c h where
  alternates n := (hc n).alternates
  isOpen n := (hc n).isOpen_iff
  count_open n := (hc n).count_open
  count_closed _ hopen := count_of_none (find?_of_not_isOpen hopen)
  answered n := (hc n).answers
  count_release n := (hc n).count_release.1
  release_last n := (hc n).count_release.2
  release_true n := (hc n).release_true
  release_false _ := release_false
  acquire_error_iff _ _ := acquire_error_iff
  acquire_open n := (hc n).acquire_open
  acquire_opened _ _ := acquire_opened
  requests_opened _ := requests_opened
  requests_held _ := requests_held
  backend := backend_acquire o c
  acquire_invalid _ _ := acquire_of_invalid
  acquire_error _ _ := acquire_error
  release_closed _ hopen := release_of_closed (find?_of_not_isOpen hopen)
  size := hsize.balance

end Balance

/-- Whatever calls are made, and whatever becomes of the backend between them, a cache is in balance
with its history. -/
theorem performAll_balanced (o : Opener σ ρ) (backend : σ) (calls : List (CacheCall σ)) :
    Balanced o ((fresh backend).performAll o calls) ((fresh backend).history o calls) :=
  (sized_fresh backend).performAll calls |>.balanced
    (Accounts.performAll (accounts_fresh backend) calls)

end Cache

end Metaobject
