import Mathlib.Data.List.Induction
import EventEdge.Coalescer
import EventEdge.Lts
/-!
# CoalescerRuns — the coalescer under any callers

`RequestCoalescer` by itself, called from anywhere: every `join_or_start` and the locked part of every `complete` is
one action, and so is every call of a waiter's callback, which `complete` makes after it has released the mutex.  Other
calls, from other threads or from inside a callback, come in between as they like.  A callback may throw, which ends
the loop of its `complete`.

A call is known by its place in the history: a join's place is its ticket.  `openJoins` reads off the history which
joins of a key came after the last `complete` of it; `Reachable.delivers` says what the coalescer does in these terms.
-/
namespace EventEdge
namespace CoalescerRuns

open RequestCoalescer (Role)

variable {κ ρ : Type}

/-! ## Calls -/

inductive Call (κ ρ : Type) where
  | joined (key : κ) (role : Role)
  | completed (key : κ) (response : ρ)
  | invoked (ticket call : Nat) (response : ρ)
  deriving DecidableEq

/-- A `complete` past its locked part: the waiters its loop has not reached, and whether one of its callbacks threw. -/
structure Delivery (κ ρ : Type) where
  call : Nat
  key : κ
  response : ρ
  remaining : List Nat
  threw : Bool
  deriving DecidableEq

structure State (κ ρ : Type) where
  coalescer : RequestCoalescer κ Nat
  deliveries : List (Delivery κ ρ)
  history : List (Call κ ρ)

inductive Action (κ ρ : Type) where
  | join (key : κ)
  | complete (key : κ) (response : ρ)
  | invoke (delivery : Nat) (returns : Bool)

def init : State κ ρ := ⟨.make, [], []⟩

/-! ## What a history says -/

/-- The tickets whose callbacks the `complete` at `place` has called, in order. -/
def invokedBy (place : Nat) (h : List (Call κ ρ)) : List Nat :=
  h.filterMap (fun c => match c with
    | .invoked w p _ => if p = place then some w else none
    | _ => none)

/-- By which `complete`, and with what, the callback of ticket `w` was called. -/
def invocations (w : Nat) (h : List (Call κ ρ)) : List (Nat × ρ) :=
  h.filterMap (fun c => match c with
    | .invoked t p r => if t = w then some (p, r) else none
    | _ => none)

theorem invokedBy_snoc (place : Nat) (h : List (Call κ ρ)) (c : Call κ ρ) :
    invokedBy place (h ++ [c]) = invokedBy place h ++ invokedBy place [c] := List.filterMap_append

theorem mem_invocations {w p : Nat} {r : ρ} {h : List (Call κ ρ)} :
    (p, r) ∈ invocations w h ↔ .invoked w p r ∈ h := by
  unfold invocations
  rw [List.mem_filterMap]
  constructor
  · rintro ⟨c, hc, he⟩
    split at he
    · split at he
      · rename_i ht; cases he; subst ht; exact hc
      · cases he
    · cases he
  · intro hm
    exact ⟨_, hm, by simp⟩

theorem mem_invokedBy {w p : Nat} {r : ρ} {h : List (Call κ ρ)} (hm : .invoked w p r ∈ h) : w ∈ invokedBy p h :=
  List.mem_filterMap.2 ⟨_, hm, by simp⟩

theorem of_mem_invokedBy {w p : Nat} {h : List (Call κ ρ)} (hm : w ∈ invokedBy p h) : ∃ r, .invoked w p r ∈ h := by
  unfold invokedBy at hm
  obtain ⟨c, hc, he⟩ := List.mem_filterMap.1 hm
  split at he
  · split at he
    · rename_i r hp; cases he; subst hp; exact ⟨r, hc⟩
    · cases he
  · cases he

theorem count_invocations (w p : Nat) : ∀ h : List (Call κ ρ),
    ((invocations w h).map Prod.fst).count p = (invokedBy p h).count w
  | [] => rfl
  | c :: h => by
    have ih := count_invocations w p h
    unfold invocations invokedBy at ih ⊢
    cases c with
    | invoked t q r =>
      by_cases ht : t = w <;> by_cases hq : q = p <;> simp [ht, hq, ih]
    | _ => exact ih

/-- The `complete` at `p` is the first one of the key after place `w`. -/
def FirstComplete (h : List (Call κ ρ)) (w p : Nat) (key : κ) (r : ρ) : Prop :=
  w < p ∧ h[p]? = some (.completed key r) ∧ ∀ q r', w < q → q < p → h[q]? ≠ some (.completed key r')

theorem FirstComplete.unique {h : List (Call κ ρ)} {w p p' : Nat} {key : κ} {r r' : ρ} (hf : FirstComplete h w p key r)
    (hf' : FirstComplete h w p' key r') : p = p' ∧ r = r' := by
  obtain ⟨hlt, hp, hno⟩ := hf
  obtain ⟨hlt', hp', hno'⟩ := hf'
  have hpp : p = p' := by
    rcases Nat.lt_trichotomy p p' with h1 | h1 | h1
    · exact absurd hp (hno' p r hlt h1)
    · exact h1
    · exact absurd hp' (hno p' r' hlt' h1)
  subst hpp
  rw [hp] at hp'
  cases hp'
  exact ⟨rfl, rfl⟩

variable [DecidableEq κ]

/-- One more call, at its place. -/
def nextJoins (key : κ) (joins : List Nat) (call : Call κ ρ) (place : Nat) : List Nat :=
  match call with
  | .joined k _ => if k = key then joins ++ [place] else joins
  | .completed k _ => if k = key then [] else joins
  | .invoked _ _ _ => joins

/-- **The joins of a key since the last `complete` of it**, in order. -/
def openJoins (key : κ) (h : List (Call κ ρ)) : List Nat :=
  h.zipIdx.foldl (fun joins x => nextJoins key joins x.1 x.2) []

theorem openJoins_snoc (key : κ) (h : List (Call κ ρ)) (c : Call κ ρ) :
    openJoins key (h ++ [c]) = nextJoins key (openJoins key h) c h.length := by
  unfold openJoins
  rw [List.zipIdx_append, List.foldl_append]
  simp

/-- **An open join** is a join of the key that no `complete` of it follows. -/
theorem mem_openJoins {key : κ} {h : List (Call κ ρ)} {w : Nat} : w ∈ openJoins key h ↔
    (∃ role, h[w]? = some (.joined key role)) ∧ ∀ q r, w < q → h[q]? ≠ some (.completed key r) := by
  induction h using List.reverseRecOn with
  | nil => exact ⟨nofun, fun he => by obtain ⟨⟨role, hr⟩, -⟩ := he; cases hr⟩
  | append_singleton h c ih =>
    have hlt : ∀ {q : Nat} {x : Call κ ρ}, h[q]? = some x → q < h.length := fun he => (List.getElem?_eq_some_iff.1 he).1
    simp only [openJoins_snoc, ne_eq, Lts.getElem?_snoc_iff]
    cases c with
    | invoked t p r => simpa [nextJoins] using ih
    | completed k r =>
      by_cases hk : k = key
      · subst hk
        simp only [nextJoins, if_true, List.not_mem_nil, false_iff]
        rintro ⟨⟨role, hw | ⟨-, hw⟩⟩, hno⟩
        · exact hno h.length r (hlt hw) (.inr ⟨rfl, rfl⟩)
        · cases hw
      · simpa [nextJoins, hk, Ne.symm hk] using ih
    | joined k role =>
      by_cases hk : k = key
      · subst hk
        simp only [nextJoins, if_true, List.mem_append, ih, List.mem_singleton]
        constructor
        · rintro (⟨⟨ro, hw⟩, hno⟩ | rfl)
          · exact ⟨⟨ro, .inl hw⟩, fun q r hq he => he.elim (hno q r hq) (fun e => by cases e.2)⟩
          · refine ⟨⟨role, .inr ⟨rfl, rfl⟩⟩, fun q r hq he => he.elim (fun e => ?_) (fun e => by cases e.2)⟩
            exact absurd (hlt e) (Nat.not_lt.2 (Nat.le_of_lt hq))
        · rintro ⟨⟨ro, hw | ⟨rfl, -⟩⟩, hno⟩
          · exact .inl ⟨⟨ro, hw⟩, fun q r hq he => hno q r hq (.inl he)⟩
          · exact .inr rfl
      · simpa [nextJoins, hk, Ne.symm hk] using ih

/-- Joins are open in the order they were made. -/
theorem openJoins_pairwise (key : κ) (h : List (Call κ ρ)) : (openJoins key h).Pairwise (· < ·) := by
  induction h using List.reverseRecOn with
  | nil => exact List.Pairwise.nil
  | append_singleton h c ih =>
    rw [openJoins_snoc]
    unfold nextJoins
    split
    · split
      · rw [List.pairwise_append]
        refine ⟨ih, List.pairwise_singleton _ _, fun x hx y hy => ?_⟩
        rw [List.mem_singleton.1 hy]
        obtain ⟨⟨role, hr⟩, -⟩ := mem_openJoins.1 hx
        exact (List.getElem?_eq_some_iff.1 hr).1
      · exact ih
    · split
      · exact List.Pairwise.nil
      · exact ih
    · exact ih

/-- The first open join leads the flight, the others wait for it. -/
def flightOf : List Nat → Option (List Nat)
  | [] => none
  | _ :: waiters => some waiters

/-! ## Steps -/

def step (st : State κ ρ) : Action κ ρ → Option (State κ ρ)
  | .join key =>
    let joined := st.coalescer.joinOrStart key st.history.length
    some { st with coalescer := joined.2, history := st.history ++ [.joined key joined.1] }
  | .complete key response =>
    let taken := st.coalescer.complete key
    some { coalescer := taken.2
           deliveries := st.deliveries ++ [⟨st.history.length, key, response, taken.1, false⟩]
           history := st.history ++ [.completed key response] }
  | .invoke n returns => match st.deliveries[n]? with
    | none => none
    | some d => match d.remaining with
      | [] => none
      | w :: rest => some { st with
          deliveries := st.deliveries.set n { d with remaining := if returns then rest else [], threw := !returns }
          history := st.history ++ [.invoked w d.call d.response] }

def Reachable (st : State κ ρ) : Prop := Lts.Reach step Lts.anyStep init st

/-! ## The invariant -/

/-- What a `complete` has called, has still to call and, after a throw, will never call is what it took out. -/
def DeliveryOk (h : List (Call κ ρ)) (d : Delivery κ ρ) : Prop :=
  h[d.call]? = some (.completed d.key d.response) ∧
    ∃ dropped, (openJoins d.key (h.take d.call)).tail = invokedBy d.call h ++ d.remaining ++ dropped ∧
      (d.threw = false → dropped = []) ∧ (d.threw = true → d.remaining = [])

structure Inv (st : State κ ρ) : Prop where
  flights : ∀ key, st.coalescer.waiters key = flightOf (openJoins key st.history)
  roles : ∀ (place : Nat) (key : κ) (role : Role), st.history[place]? = some (.joined key role) →
    (role = .leader ↔ openJoins key (st.history.take place) = [])
  calls : ∀ (place : Nat) (key : κ) (r : ρ), st.history[place]? = some (.completed key r) →
    ∃ (n : Nat) (d : Delivery κ ρ), st.deliveries[n]? = some d ∧ d.call = place
  once : ∀ (n n' : Nat) (d d' : Delivery κ ρ), st.deliveries[n]? = some d → st.deliveries[n']? = some d' →
    d.call = d'.call → n = n'
  delivery : ∀ (n : Nat) (d : Delivery κ ρ), st.deliveries[n]? = some d → DeliveryOk st.history d
  invoked : ∀ w p r, .invoked w p r ∈ st.history → ∃ (n : Nat) (d : Delivery κ ρ), st.deliveries[n]? = some d ∧
    d.call = p ∧ d.response = r

theorem inv_init : Inv (init : State κ ρ) := by
  constructor
  · intro key; rfl
  · intro place key role hp; cases hp
  · intro place key r hp; cases hp
  · intro n n' d d' hd; cases hd
  · intro n d hd; cases hd
  · intro w p r hm; cases hm

theorem roles_snoc {h : List (Call κ ρ)} {c : Call κ ρ}
    (hold : ∀ (place : Nat) (key : κ) (role : Role), h[place]? = some (.joined key role) →
      (role = .leader ↔ openJoins key (h.take place) = []))
    (hnew : ∀ key role, c = .joined key role → (role = .leader ↔ openJoins key h = [])) (place : Nat) (key : κ)
    (role : Role) (hp : (h ++ [c])[place]? = some (.joined key role)) :
    role = .leader ↔ openJoins key ((h ++ [c]).take place) = [] := by
  rcases Lts.getElem?_snoc_iff.1 hp with hp | ⟨rfl, hc⟩
  · rw [List.take_append_of_le_length (Nat.le_of_lt (List.getElem?_eq_some_iff.1 hp).1)]
    exact hold place key role hp
  · rw [List.take_left']
    · exact hnew key role hc.symm
    · rfl

theorem DeliveryOk.snoc {h : List (Call κ ρ)} {d : Delivery κ ρ} (hd : DeliveryOk h d) {c : Call κ ρ}
    (hc : invokedBy d.call [c] = []) : DeliveryOk (h ++ [c]) d := by
  obtain ⟨hcall, dropped, htail, hthrew⟩ := hd
  have hlt := (List.getElem?_eq_some_iff.1 hcall).1
  refine ⟨by rw [List.getElem?_append_left hlt]; exact hcall, dropped, ?_, hthrew⟩
  rw [List.take_append_of_le_length (Nat.le_of_lt hlt), invokedBy_snoc, hc, List.append_nil]
  exact htail

theorem flights_update {c c' : RequestCoalescer κ Nat} {h : List (Call κ ρ)} {call : Call κ ρ} {key : κ}
    {flight : Option (List Nat)} (hold : ∀ key, c.waiters key = flightOf (openJoins key h))
    (hc : c'.waiters = Function.update c.waiters key flight)
    (hself : flight = flightOf (nextJoins key (openJoins key h) call h.length))
    (hother : ∀ k, k ≠ key → nextJoins k (openJoins k h) call h.length = openJoins k h) (k : κ) :
    c'.waiters k = flightOf (openJoins k (h ++ [call])) := by
  rw [hc, openJoins_snoc]
  by_cases hk : k = key
  · subst hk; rw [Function.update_self]; exact hself
  · rw [Function.update_of_ne hk, hother k hk]; exact hold k

variable {st st' : State κ ρ}

theorem Inv.join (h : Inv st) (key : κ) (hs : step st (.join key) = some st') : Inv st' := by
  simp only [step, Option.some.injEq] at hs
  subst hs
  have hflights := h.flights key
  have hrole : ((st.coalescer.joinOrStart key st.history.length).1 = .leader ↔ openJoins key st.history = []) ∧
      ∃ flight, (st.coalescer.joinOrStart key st.history.length).2.waiters =
          Function.update st.coalescer.waiters key (some flight) ∧
        some flight = flightOf (openJoins key st.history ++ [st.history.length]) := by
    cases hj : openJoins key st.history with
    | nil =>
      rw [hj] at hflights
      obtain ⟨h1, h2⟩ := st.coalescer.joinOrStart_none key st.history.length hflights
      exact ⟨by simp [h1], [], h2, rfl⟩
    | cons l ws =>
      rw [hj] at hflights
      obtain ⟨h1, h2⟩ := st.coalescer.joinOrStart_some key st.history.length hflights
      exact ⟨by simp [h1], ws ++ [st.history.length], h2, rfl⟩
  obtain ⟨hrole, flight, hw, hflight⟩ := hrole
  constructor
  · refine flights_update h.flights hw (by simpa [nextJoins] using hflight) (fun k hk => ?_)
    simp [nextJoins, Ne.symm hk]
  · refine roles_snoc h.roles (fun k role hc => ?_)
    injection hc with hk hr
    subst hk
    rw [← hr]; exact hrole
  · intro place k r hp
    rcases Lts.getElem?_snoc_iff.1 hp with hp | ⟨-, hp⟩
    · exact h.calls place k r hp
    · cases hp
  · exact h.once
  · intro n d hd; exact (h.delivery n d hd).snoc rfl
  · intro w p r hm
    rcases List.mem_append.1 hm with hm | hm
    · exact h.invoked w p r hm
    · rw [List.mem_singleton] at hm; cases hm

theorem Inv.complete (h : Inv st) (key : κ) (response : ρ) (hs : step st (.complete key response) = some st') :
    Inv st' := by
  simp only [step, Option.some.injEq] at hs
  subst hs
  obtain ⟨htaken, hw⟩ := st.coalescer.complete_waiters key
  have hcallLt : ∀ (n : Nat) (d : Delivery κ ρ), st.deliveries[n]? = some d → d.call < st.history.length :=
    fun n d hd => (List.getElem?_eq_some_iff.1 (h.delivery n d hd).1).1
  constructor
  · refine flights_update h.flights hw (by simp [nextJoins, flightOf]) (fun k hk => ?_)
    simp [nextJoins, Ne.symm hk]
  · exact roles_snoc h.roles nofun
  · intro place k r hp
    rcases Lts.getElem?_snoc_iff.1 hp with hp | ⟨rfl, -⟩
    · obtain ⟨n, d, hd, hc⟩ := h.calls place k r hp
      exact ⟨n, d, by rw [List.getElem?_append_left (List.getElem?_eq_some_iff.1 hd).1]; exact hd, hc⟩
    · exact ⟨st.deliveries.length, _, List.getElem?_concat_length, rfl⟩
  · intro n n' d d' hd hd' he
    rcases Lts.getElem?_snoc_iff.1 hd with hd | ⟨rfl, rfl⟩ <;> rcases Lts.getElem?_snoc_iff.1 hd' with hd' | ⟨rfl, rfl⟩
    · exact h.once n n' d d' hd hd' he
    · have := hcallLt n d hd; simp only at he; omega
    · have := hcallLt n' d' hd'; simp only at he; omega
    · rfl
  · intro n d hd
    rcases Lts.getElem?_snoc_iff.1 hd with hd | ⟨rfl, rfl⟩
    · exact (h.delivery n d hd).snoc rfl
    · refine ⟨by simp, [], ?_, fun _ => rfl, nofun⟩
      -- nothing was called by it yet
      have hnone : invokedBy st.history.length st.history = [] := by
        rw [invokedBy, List.filterMap_eq_nil_iff]
        intro c hc
        split
        · rename_i w p r
          rw [if_neg]
          rintro rfl
          obtain ⟨n, d, hd, he, -⟩ := h.invoked w _ r hc
          have := hcallLt n d hd
          omega
        · rfl
      simp only [List.take_left', invokedBy_snoc, hnone, List.append_nil, htaken, h.flights key]
      cases openJoins key st.history <;> rfl
  · intro w p r hm
    rcases List.mem_append.1 hm with hm | hm
    · obtain ⟨n, d, hd, hc⟩ := h.invoked w p r hm
      exact ⟨n, d, by rw [List.getElem?_append_left (List.getElem?_eq_some_iff.1 hd).1]; exact hd, hc⟩
    · rw [List.mem_singleton] at hm; cases hm

theorem Inv.invoke (h : Inv st) (n : Nat) (returns : Bool) (hs : step st (.invoke n returns) = some st') : Inv st' := by
  simp only [step] at hs
  split at hs
  · cases hs
  rename_i d hd
  split at hs
  · cases hs
  rename_i w rest hrem
  cases hs
  have hlt := (List.getElem?_eq_some_iff.1 hd).1
  -- the table keeps the calls where they are
  have kept : ∀ {m : Nat} {d₀ : Delivery κ ρ}, st.deliveries[m]? = some d₀ → ∃ d₁, (st.deliveries.set n
      { d with remaining := if returns then rest else [], threw := !returns })[m]? = some d₁ ∧ d₁.call = d₀.call ∧
      d₁.response = d₀.response := by
    intro m d₀ hd₀
    by_cases hm : n = m
    · subst hm
      rw [hd] at hd₀; cases hd₀
      exact ⟨_, List.getElem?_set_self hlt, rfl, rfl⟩
    · exact ⟨d₀, by rw [List.getElem?_set_ne hm]; exact hd₀, rfl, rfl⟩
  constructor
  · intro key; rw [openJoins_snoc]; exact h.flights key
  · exact roles_snoc h.roles nofun
  · intro place key r hp
    rcases Lts.getElem?_snoc_iff.1 hp with hp | ⟨-, hp⟩
    · obtain ⟨m, d₀, hd₀, hc⟩ := h.calls place key r hp
      obtain ⟨d₁, hd₁, hc₁, -⟩ := kept hd₀
      exact ⟨m, d₁, hd₁, hc₁.trans hc⟩
    · cases hp
  · intro m m' d₁ d₁' hd₁ hd₁' he
    rcases Lts.getElem?_set_cases hd₁ with ⟨rfl, rfl⟩ | ⟨-, hold⟩ <;>
      rcases Lts.getElem?_set_cases hd₁' with ⟨rfl, rfl⟩ | ⟨-, hold'⟩
    · rfl
    · exact h.once _ m' d d₁' hd hold' he
    · exact h.once m _ d₁ d hold hd he
    · exact h.once m m' d₁ d₁' hold hold' he
  · intro m d₁ hd₁
    rcases Lts.getElem?_set_cases hd₁ with ⟨rfl, rfl⟩ | ⟨hm, hd₁⟩
    · obtain ⟨hcall, dropped, htail, hok, hthrew⟩ := h.delivery _ d hd
      have hnot : d.threw = false := by
        cases ht : d.threw with
        | false => rfl
        | true => rw [hthrew ht] at hrem; cases hrem
      have hclt := (List.getElem?_eq_some_iff.1 hcall).1
      refine ⟨by rw [List.getElem?_append_left hclt]; exact hcall, ?_⟩
      have hnew : (openJoins d.key ((st.history ++ [Call.invoked w d.call d.response]).take d.call)).tail =
          invokedBy d.call (st.history ++ [Call.invoked w d.call d.response]) ++ rest := by
        rw [List.take_append_of_le_length (Nat.le_of_lt hclt), htail, hok hnot, hrem, invokedBy_snoc]
        simp [invokedBy]
      cases returns with
      | true => exact ⟨[], by simpa using hnew, fun _ => rfl, nofun⟩
      | false => exact ⟨rest, by simpa using hnew, nofun, fun _ => rfl⟩
    · refine (h.delivery m d₁ hd₁).snoc ?_
      have hne : d.call ≠ d₁.call := fun e => hm (h.once m n d₁ d hd₁ hd e.symm)
      simp [invokedBy, hne]
  · intro t p r hm
    rcases List.mem_append.1 hm with hm | hm
    · obtain ⟨m, d₀, hd₀, hc, hr⟩ := h.invoked t p r hm
      obtain ⟨d₁, hd₁, hc₁, hr₁⟩ := kept hd₀
      exact ⟨m, d₁, hd₁, hc₁.trans hc, hr₁.trans hr⟩
    · rw [List.mem_singleton] at hm
      cases hm
      obtain ⟨d₁, hd₁, hc₁, hr₁⟩ := kept hd
      exact ⟨n, d₁, hd₁, hc₁, hr₁⟩

theorem Inv.step {a : Action κ ρ} (h : Inv st) (hs : step st a = some st') : Inv st' := by
  cases a with
  | join key => exact h.join key hs
  | complete key response => exact h.complete key response hs
  | invoke n returns => exact h.invoke n returns hs

theorem Reachable.inv (h : Reachable st) : Inv st := Lts.Reach.inv h inv_init (fun _ _ _ hi _ hs => hi.step hs)

/-! ## Who is called, by whom, and when -/

theorem mem_openJoins_take {key : κ} {h : List (Call κ ρ)} {w p : Nat} : w ∈ openJoins key (h.take p) ↔
    w < p ∧ (∃ role, h[w]? = some (.joined key role)) ∧ ∀ q r, w < q → q < p → h[q]? ≠ some (.completed key r) := by
  have take : ∀ {q : Nat} {c : Call κ ρ}, (h.take p)[q]? = some c ↔ q < p ∧ h[q]? = some c := by
    intro q c
    rw [List.getElem?_take]
    split
    · rename_i hq; exact ⟨fun he => ⟨hq, he⟩, fun he => he.2⟩
    · rename_i hq; exact ⟨nofun, fun he => absurd he.1 hq⟩
  rw [mem_openJoins]
  constructor
  · rintro ⟨⟨role, hrole⟩, hno⟩
    obtain ⟨hlt, hrole⟩ := take.1 hrole
    exact ⟨hlt, ⟨role, hrole⟩, fun q r hq hqp he => hno q r hq (take.2 ⟨hqp, he⟩)⟩
  · rintro ⟨hlt, ⟨role, hrole⟩, hno⟩
    refine ⟨⟨role, take.2 ⟨hlt, hrole⟩⟩, fun q r hq he => ?_⟩
    obtain ⟨hqp, he⟩ := take.1 he
    exact hno q r hq hqp he

theorem mem_tail_iff {l : List Nat} (hl : l.Pairwise (· < ·)) {w : Nat} : w ∈ l.tail ↔ w ∈ l ∧ ∃ x ∈ l, x < w := by
  cases l with
  | nil => simp
  | cons a l =>
    obtain ⟨ha, -⟩ := List.pairwise_cons.1 hl
    constructor
    · intro hw; exact ⟨List.mem_cons_of_mem a hw, a, List.mem_cons_self, ha w hw⟩
    · rintro ⟨hw, x, hx, hlt⟩
      rcases List.mem_cons.1 hw with rfl | hw
      · rcases List.mem_cons.1 hx with rfl | hx
        · exact absurd hlt (Nat.lt_irrefl x)
        · exact absurd hlt (Nat.lt_asymm (ha x hx))
      · exact hw

/-- **Behind the first open join are the waiters that no `complete` has taken.** -/
theorem Inv.mem_waiting (h : Inv st) {key : κ} {w p : Nat} : w ∈ (openJoins key (st.history.take p)).tail ↔
    st.history[w]? = some (.joined key .waiter) ∧ w < p ∧
      ∀ q r, w < q → q < p → st.history[q]? ≠ some (.completed key r) := by
  rw [mem_tail_iff (openJoins_pairwise key _), mem_openJoins_take]
  constructor
  · rintro ⟨⟨hlt, ⟨role, hrole⟩, hno⟩, x, hx, hxw⟩
    refine ⟨?_, hlt, hno⟩
    cases role with
    | waiter => exact hrole
    | leader =>
      -- what is open before it now was open when it was made
      obtain ⟨-, hjoin, hnox⟩ := mem_openJoins_take.1 hx
      have hm : x ∈ openJoins key (st.history.take w) :=
        mem_openJoins_take.2 ⟨hxw, hjoin, fun q r hq hqw => hnox q r hq (Nat.lt_trans hqw hlt)⟩
      rw [(h.roles w key .leader hrole).1 rfl] at hm
      cases hm
  · rintro ⟨hrole, hlt, hno⟩
    refine ⟨⟨hlt, ⟨_, hrole⟩, hno⟩, ?_⟩
    cases hj : openJoins key (st.history.take w) with
    | nil => cases (h.roles w key .waiter hrole).2 hj
    | cons x ws =>
      have hm : x ∈ openJoins key (st.history.take w) := by rw [hj]; exact List.mem_cons_self
      obtain ⟨hxw, hjoin, hnox⟩ := mem_openJoins_take.1 hm
      refine ⟨x, mem_openJoins_take.2 ⟨Nat.lt_trans hxw hlt, hjoin, fun q r hq hqp he => ?_⟩, hxw⟩
      rcases Nat.lt_trichotomy q w with hqw | rfl | hqw
      · exact hnox q r hq hqw he
      · rw [hrole] at he; cases he
      · exact hno q r hqw hqp he

/-- **A callback is called by the first `complete` of its key after it joined as a waiter, with that response.** -/
theorem Inv.invoked_by_first (h : Inv st) {w p : Nat} {r : ρ} (hm : (p, r) ∈ invocations w st.history) :
    ∃ key, st.history[w]? = some (.joined key .waiter) ∧ FirstComplete st.history w p key r := by
  rw [mem_invocations] at hm
  obtain ⟨n, d, hd, rfl, rfl⟩ := h.invoked w p r hm
  obtain ⟨hcall, dropped, htail, -⟩ := h.delivery n d hd
  have htaken : w ∈ (openJoins d.key (st.history.take d.call)).tail := by
    rw [htail]
    exact List.mem_append_left _ (List.mem_append_left _ (mem_invokedBy hm))
  obtain ⟨hw, hlt, hno⟩ := h.mem_waiting.1 htaken
  exact ⟨d.key, hw, hlt, hcall, hno⟩

/-- A waiter some `complete` follows was called once, by the first one; or that one has still to call it, or threw. -/
theorem Inv.waiter_called (h : Inv st) {w p : Nat} {key : κ} {r : ρ}
    (hw : st.history[w]? = some (.joined key .waiter)) (hf : FirstComplete st.history w p key r) :
    invocations w st.history = [(p, r)] ∨ invocations w st.history = [] ∧
      ∃ (n : Nat) (d : Delivery κ ρ), st.deliveries[n]? = some d ∧ d.call = p ∧ (w ∈ d.remaining ∨ d.threw = true) := by
  -- whatever called it is that `complete`
  have hall : ∀ x ∈ invocations w st.history, x = (p, r) := by
    rintro ⟨p', r'⟩ hx
    obtain ⟨key', hw', hf'⟩ := h.invoked_by_first hx
    rw [hw] at hw'; cases hw'
    obtain ⟨rfl, rfl⟩ := hf.unique hf'
    rfl
  obtain ⟨n, d, hd, hc⟩ := h.calls p key r hf.2.1
  obtain ⟨hcall, dropped, htail, hok, -⟩ := h.delivery n d hd
  rw [hc, hf.2.1] at hcall
  injection hcall with hcall
  injection hcall with hk hr
  have hm := h.mem_waiting.2 ⟨hw, hf.1, hf.2.2⟩
  have hnd : (openJoins key (st.history.take p)).tail.Nodup :=
    ((openJoins_pairwise key _).imp (fun hlt => Nat.ne_of_lt hlt)).tail
  rw [hc, ← hk] at htail
  rw [htail] at hm hnd
  have hlen : (invocations w st.history).length = (invokedBy p st.history).count w := by
    rw [← count_invocations, ← List.length_map (f := Prod.fst), eq_comm, List.count_eq_length]
    intro q hq
    obtain ⟨x, hx, rfl⟩ := List.mem_map.1 hq
    rw [hall x hx]
  rcases List.mem_append.1 hm with hm | hm
  · rcases List.mem_append.1 hm with hm | hm
    · refine .inl ?_
      have hcount := List.count_eq_one_of_mem (List.Nodup.of_append_left (List.Nodup.of_append_left hnd)) hm
      rw [hcount] at hlen
      obtain ⟨x, hx⟩ := List.length_eq_one_iff.1 hlen
      rw [hx, hall x (by rw [hx]; exact List.mem_singleton.2 rfl)]
    · refine .inr ⟨?_, n, d, hd, hc, .inl hm⟩
      have hnot : w ∉ invokedBy p st.history := fun hi =>
        (List.disjoint_of_nodup_append (List.Nodup.of_append_left hnd)) hi hm
      rw [List.count_eq_zero_of_not_mem hnot] at hlen
      exact List.length_eq_zero_iff.1 hlen
  · refine .inr ⟨?_, n, d, hd, hc, .inr ?_⟩
    · have hnot : w ∉ invokedBy p st.history := fun hi =>
        (List.disjoint_of_nodup_append hnd) (List.mem_append_left _ hi) hm
      rw [List.count_eq_zero_of_not_mem hnot] at hlen
      exact List.length_eq_zero_iff.1 hlen
    · cases ht : d.threw with
      | true => rfl
      | false => rw [hok ht] at hm; cases hm

/-- **The loop of a `complete` that nothing throws out of ends**, with every waiter it took called. -/
theorem exists_loop_end (n : Nat) : ∀ (ws : List Nat) (st : State κ ρ) {d : Delivery κ ρ}, st.deliveries[n]? = some d →
    d.remaining = ws → d.threw = false → ∃ st', Lts.run step st (List.replicate ws.length (.invoke n true)) = some st' ∧
      st'.deliveries[n]? = some { d with remaining := [] }
  | [], st, d, hd, hrem, hthrew => ⟨st, rfl, by rw [hd, ← hrem]⟩
  | w :: ws, st, d, hd, hrem, hthrew => by
    have hlt := (List.getElem?_eq_some_iff.1 hd).1
    obtain ⟨st', hrun, hd'⟩ := exists_loop_end n ws
      { st with deliveries := st.deliveries.set n { d with remaining := ws }
                history := st.history ++ [.invoked w d.call d.response] } (List.getElem?_set_self hlt) rfl hthrew
    refine ⟨st', ?_, hd'⟩
    rw [List.length_cons, List.replicate_succ, Lts.run_cons]
    simp only [step, hd, hrem, if_true, Bool.not_true, Option.bind_some]
    rw [← hthrew]; exact hrun

/-! ## The contract -/

/-- As many things as `n` meet the condition. -/
def HasCount {α : Type} (p : α → Prop) (n : Nat) : Prop := ∃ l : List α, l.Nodup ∧ (∀ a, a ∈ l ↔ p a) ∧ l.length = n

/-- What the coalescer has done with the calls of the history. -/
structure Delivers (st : State κ ρ) : Prop where
  /-- A join leads iff every join of the key before it was completed before it. -/
  leads : ∀ (place : Nat) (key : κ) (role : Role), st.history[place]? = some (.joined key role) →
    (role = .leader ↔ ∀ (q : Nat) (role' : Role), q < place → st.history[q]? = some (.joined key role') →
      ∃ c r, q < c ∧ c < place ∧ st.history[c]? = some (.completed key r))
  /-- The first `complete` after a waiter's join calls it, once; or will, unless a callback threw out of its loop. -/
  once : ∀ (w p : Nat) (key : κ) (r : ρ), st.history[w]? = some (.joined key .waiter) →
    FirstComplete st.history w p key r → invocations w st.history = [(p, r)] ∨
      invocations w st.history = [] ∧ ∃ (n : Nat) (d : Delivery κ ρ), st.deliveries[n]? = some d ∧ d.call = p ∧
        (w ∈ d.remaining ∨ d.threw = true)
  /-- No other callback is called: not a leader's, not a waiter's that no `complete` follows. -/
  never : ∀ w : Nat, (∀ (p : Nat) (key : κ) (r : ρ), st.history[w]? = some (.joined key .waiter) →
    ¬ FirstComplete st.history w p key r) → invocations w st.history = []
  /-- A `complete` calls in join order... -/
  inOrder : ∀ p : Nat, (invokedBy p st.history).Pairwise (· < ·)
  /-- ... to the end of its loop... -/
  ends : ∀ (n : Nat) (d : Delivery κ ρ), st.deliveries[n]? = some d → d.threw = false →
    ∃ st', Lts.run step st (List.replicate d.remaining.length (.invoke n true)) = some st' ∧
      st'.deliveries[n]? = some { d with remaining := [] }
  /-- ... and leaves the other keys alone. -/
  ownKey : ∀ (key : κ) (r : ρ) (st' : State κ ρ) (k : κ), step st (.complete key r) = some st' → k ≠ key →
    st'.coalescer.waiters k = st.coalescer.waiters k
  size : HasCount (fun key : κ => ∃ (w : Nat) (role : Role), st.history[w]? = some (.joined key role) ∧
    ∀ q r, w < q → st.history[q]? ≠ some (.completed key r)) st.coalescer.size
  waiterCount : ∀ key : κ, HasCount (fun w : Nat => st.history[w]? = some (.joined key .waiter) ∧
    ∀ q r, w < q → st.history[q]? ≠ some (.completed key r)) (st.coalescer.waiterCount key)

theorem openJoins_take_eq_nil {key : κ} {h : List (Call κ ρ)} {p : Nat} : openJoins key (h.take p) = [] ↔
    ∀ (q : Nat) (role : Role), q < p → h[q]? = some (.joined key role) →
      ∃ c r, q < c ∧ c < p ∧ h[c]? = some (.completed key r) := by
  rw [List.eq_nil_iff_forall_not_mem]
  constructor
  · intro hnil q role hq hrole
    by_contra hno
    refine hnil q (mem_openJoins_take.2 ⟨hq, ⟨role, hrole⟩, fun c r hc hcp he => hno ⟨c, r, hc, hcp, he⟩⟩)
  · intro hall q hm
    obtain ⟨hq, ⟨role, hrole⟩, hno⟩ := mem_openJoins_take.1 hm
    obtain ⟨c, r, hc, hcp, he⟩ := hall q role hq hrole
    exact hno c r hc hcp he

theorem Inv.inOrder (h : Inv st) (p : Nat) : (invokedBy p st.history).Pairwise (· < ·) := by
  cases hp : invokedBy p st.history with
  | nil => exact List.Pairwise.nil
  | cons w ws =>
    have hm : w ∈ invokedBy p st.history := by rw [hp]; exact List.mem_cons_self
    obtain ⟨r, hr⟩ := of_mem_invokedBy hm
    obtain ⟨n, d, hd, rfl, -⟩ := h.invoked w p r hr
    obtain ⟨-, dropped, htail, -⟩ := h.delivery n d hd
    have hpw := (openJoins_pairwise d.key (st.history.take d.call)).tail
    rw [htail, List.append_assoc] at hpw
    rw [← hp]; exact (List.pairwise_append.1 hpw).1

theorem Inv.size (h : Inv st) : HasCount (fun key : κ => ∃ (w : Nat) (role : Role),
    st.history[w]? = some (.joined key role) ∧ ∀ q r, w < q → st.history[q]? ≠ some (.completed key r))
    st.coalescer.size := by
  refine ⟨st.coalescer.flights.keys, st.coalescer.flights.nodupKeys, fun key => ?_, ?_⟩
  · rw [← AList.mem_keys, ← AList.lookup_isSome]
    have hfl := h.flights key
    unfold RequestCoalescer.waiters at hfl
    rw [hfl]
    constructor
    · intro hs
      cases hj : openJoins key st.history with
      | nil => rw [hj] at hs; cases hs
      | cons l ws =>
        have hl : l ∈ openJoins key st.history := by rw [hj]; exact List.mem_cons_self
        obtain ⟨⟨role, hrole⟩, hno⟩ := mem_openJoins.1 hl
        exact ⟨l, role, hrole, hno⟩
    · rintro ⟨w, role, hrole, hno⟩
      have hm := mem_openJoins.2 ⟨⟨role, hrole⟩, hno⟩
      cases hj : openJoins key st.history with
      | nil => rw [hj] at hm; cases hm
      | cons l ws => rfl
  · exact List.length_map _

theorem Inv.waiterCount (h : Inv st) (key : κ) : HasCount (fun w : Nat => st.history[w]? = some (.joined key .waiter) ∧
    ∀ q r, w < q → st.history[q]? ≠ some (.completed key r)) (st.coalescer.waiterCount key) := by
  refine ⟨(openJoins key st.history).tail, ?_, fun w => ?_, ?_⟩
  · exact ((openJoins_pairwise key st.history).imp (fun hlt => Nat.ne_of_lt hlt)).tail
  · rw [← List.take_length (l := st.history), h.mem_waiting, List.take_length]
    constructor
    · rintro ⟨hw, -, hno⟩
      exact ⟨hw, fun q r hq he => hno q r hq (List.getElem?_eq_some_iff.1 he).1 he⟩
    · rintro ⟨hw, hno⟩
      exact ⟨hw, (List.getElem?_eq_some_iff.1 hw).1, fun q r hq _ => hno q r hq⟩
  · have hfl := h.flights key
    unfold RequestCoalescer.waiters at hfl
    unfold RequestCoalescer.waiterCount
    rw [hfl]
    cases openJoins key st.history <;> rfl

/-- **Every run of the coalescer delivers.** -/
theorem Reachable.delivers (h : Reachable st) : Delivers st where
  leads place key role hp := (h.inv.roles place key role hp).trans openJoins_take_eq_nil
  once w p key r hw hf := h.inv.waiter_called hw hf
  never w hno := by
    refine List.eq_nil_iff_forall_not_mem.2 (fun ⟨p, r⟩ hm => ?_)
    obtain ⟨key, hw, hf⟩ := h.inv.invoked_by_first hm
    exact hno p key r hw hf
  inOrder := h.inv.inOrder
  ends n d hd hthrew := exists_loop_end n d.remaining st hd rfl hthrew
  ownKey key r st' k hs hk := by
    cases hs
    rw [(st.coalescer.complete_waiters key).2, Function.update_of_ne hk]
  size := h.inv.size
  waiterCount := h.inv.waiterCount

/-- A leader and two waiters, completed. -/
def twoWaiters : List (Action Nat Nat) := [.join 0, .join 0, .join 0, .complete 0 7]

def twoWaitersHistory : List (Call Nat Nat) :=
  [.joined 0 .leader, .joined 0 .waiter, .joined 0 .waiter, .completed 0 7]

/-- The first callback joins again, as the leader of the next flight, before the second is called. -/
theorem delivers_twoWaiters : ∃ st : State Nat Nat, Reachable st ∧
    st.history = twoWaitersHistory ++ [.invoked 1 3 7, .joined 0 .leader, .invoked 2 3 7] ∧ Delivers st := by
  obtain ⟨st, hr, hf⟩ := Lts.exists_reach step (fun _ _ => true) init
    (twoWaiters ++ [.invoke 0 true, .join 0, .invoke 0 true])
    (fun st : State Nat Nat => decide (st.history = twoWaitersHistory ++
      [Call.invoked 1 3 7, .joined 0 .leader, .invoked 2 3 7]))
    (by decide +kernel)
  exact ⟨st, hr.any, of_decide_eq_true hf, Reachable.delivers hr.any⟩

/-- **The first callback throws**: the second, which the same `complete` took, is not called and no loop is left to call
it.  And before either is called `waiter_count` is zero. -/
theorem thrown_waiter_dropped :
    (∃ st : State Nat Nat, Reachable st ∧ st.history[2]? = some (.joined 0 .waiter) ∧
      FirstComplete st.history 2 3 0 7 ∧ invocations 2 st.history = [] ∧
      ∀ n returns, step st (.invoke n returns) = none) ∧
    ∃ st : State Nat Nat, Reachable st ∧ st.history = twoWaitersHistory ∧
      st.deliveries = [⟨3, 0, 7, [1, 2], false⟩] ∧ st.coalescer.waiterCount 0 = 0 := by
  constructor
  · obtain ⟨st, hr, hf⟩ := Lts.exists_reach step (fun _ _ => true) init (twoWaiters ++ [.invoke 0 false])
      (fun st : State Nat Nat => decide (st.history = twoWaitersHistory ++ [Call.invoked 1 3 7] ∧
        st.deliveries = [⟨3, 0, 7, [], true⟩])) (by decide +kernel)
    obtain ⟨hh, hd⟩ := of_decide_eq_true hf
    refine ⟨st, hr.any, by rw [hh]; rfl, ⟨by decide, by rw [hh]; rfl, fun q r' h1 h2 => by omega⟩, by rw [hh]; rfl, ?_⟩
    intro n returns
    cases n with
    | zero => simp [step, hd]
    | succ n => simp [step, hd]
  · obtain ⟨st, hr, hf⟩ := Lts.exists_reach step (fun _ _ => true) init twoWaiters
      (fun st : State Nat Nat => decide (st.history = twoWaitersHistory ∧ st.deliveries = [⟨3, 0, 7, [1, 2], false⟩] ∧
        st.coalescer.waiterCount 0 = 0)) (by decide +kernel)
    exact ⟨st, hr.any, of_decide_eq_true hf⟩

end CoalescerRuns
end EventEdge
