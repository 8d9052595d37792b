import EventEdge.ServerFlights
/-!
# ServerRequests — every request is read once, and answered at most once

A session numbers the requests it reads.  `RequestInv` ties the numbers to the log: a number is read once, the request
a session is working on is the one it read last, and `write_response` was not called for it yet; it is never called
twice for one number.
-/
namespace EventEdge
namespace Server

/-- The session is working on a request it has not answered. -/
def Phase.pending : Phase → Bool
  | .lookup _ | .joining _ | .leading _ | .selecting | .waiting _ | .proxying _ _ | .storing _ _ | .completing _ _
  | .responding _ => true
  | .unaccepted | .reading | .writing _ | .closed | .failed => false

/-- Every request the session read is answered. -/
def Phase.settled : Phase → Bool
  | .unaccepted | .reading | .writing _ | .closed => true
  | _ => false

theorem Phase.settled_of_pending {p : Phase} (h : p.pending = true) : p.settled = false := by
  cases p <;> first | rfl | cases h

/-- `write_response` was called for the `n`-th request of session `i`. -/
def isWrite (i n : Nat) (e : Logged) : Bool :=
  match e.event with
  | .wrote i' n' _ => decide (i' = i ∧ n' = n)
  | _ => false

def writes (st : State) (i n : Nat) : Nat := st.log.countP (isWrite i n)

structure RequestInv (st : State) : Prop where
  numbered : ∀ t i n request, ⟨t, .received i n request⟩ ∈ st.log → 0 < n ∧ n ≤ (st.sessions i).number
  unique : ∀ t t' i n request request', ⟨t, .received i n request⟩ ∈ st.log → ⟨t', .received i n request'⟩ ∈ st.log →
    t = t' ∧ request = request'
  current : ∀ i, (st.sessions i).phase.pending = true →
    ⟨(st.sessions i).requestStarted, .received i (st.sessions i).number (st.sessions i).request⟩ ∈ st.log
  once : ∀ i n, writes st i n ≤ 1
  fresh : ∀ i n, (st.sessions i).number < n → writes st i n = 0
  unanswered : ∀ i, (st.sessions i).phase.pending = true → writes st i (st.sessions i).number = 0
  answered : ∀ i n, 0 < n → n ≤ (st.sessions i).number →
    (n = (st.sessions i).number → (st.sessions i).phase.settled = true) → writes st i n = 1

variable {cfg : Config} {st st' : State}

theorem requestInv_init : RequestInv (init cfg) := by
  constructor
  · intro t i n request h; cases h
  · intro t t' i n request request' h; cases h
  · intro i h; cases h
  · intro i n; exact Nat.zero_le 1
  · intro i n _; rfl
  · intro i _; rfl
  · intro i n h0 hn _; exact absurd h0 (by rw [Nat.le_zero.1 hn]; exact Nat.lt_irrefl 0)

/-- Neither a read request nor an answer. -/
def Event.quiet : Event → Bool
  | .received _ _ _ | .wrote _ _ _ => false
  | _ => true

theorem isWrite_quiet {e : Logged} (h : e.event.quiet = true) (i n : Nat) : isWrite i n e = false := by
  unfold isWrite
  split
  · rename_i he; rw [he] at h; cases h
  · rfl

/-- A session moves on with the request it has, if it still works on one. -/
theorem RequestInv.move (h : RequestInv st) {i : Nat} {s : Session} {l : List Logged}
    (hs : st'.sessions = Function.update st.sessions i s) (hl : st'.log = st.log ++ l)
    (hq : ∀ e ∈ l, e.event.quiet = true) (hn : s.number = (st.sessions i).number)
    (hc : s.phase.pending = true → (st.sessions i).phase.pending = true ∧ s.request = (st.sessions i).request ∧
      s.requestStarted = (st.sessions i).requestStarted)
    (ha : s.phase.settled = true → (st.sessions i).phase.settled = true) : RequestInv st' := by
  have hrec : ∀ t j n request, ⟨t, .received j n request⟩ ∈ st'.log → ⟨t, .received j n request⟩ ∈ st.log := by
    intro t j n request hm
    rw [hl, List.mem_append] at hm
    rcases hm with hm | hm
    · exact hm
    · cases hq _ hm
  have hw : ∀ j n, writes st' j n = writes st j n := by
    intro j n
    have hz : l.countP (isWrite j n) = 0 := List.countP_eq_zero.2 (fun e he => by simp [isWrite_quiet (hq e he)])
    unfold writes
    rw [hl, List.countP_append, hz, Nat.add_zero]
  have hnum : ∀ j, (st'.sessions j).number = (st.sessions j).number := by
    intro j
    rcases Lts.update_cases hs j with ⟨rfl, hj⟩ | ⟨-, hj⟩
    · rw [hj, hn]
    · rw [hj]
  have hpend : ∀ j, (st'.sessions j).phase.pending = true → (st.sessions j).phase.pending = true ∧
      (st'.sessions j).request = (st.sessions j).request ∧
      (st'.sessions j).requestStarted = (st.sessions j).requestStarted := by
    intro j hp
    rcases Lts.update_cases hs j with ⟨rfl, hj⟩ | ⟨-, hj⟩
    · rw [hj] at hp ⊢; exact hc hp
    · rw [hj] at hp ⊢; exact ⟨hp, rfl, rfl⟩
  have hset : ∀ j, (st'.sessions j).phase.settled = true → (st.sessions j).phase.settled = true := by
    intro j hp
    rcases Lts.update_cases hs j with ⟨rfl, hj⟩ | ⟨-, hj⟩
    · rw [hj] at hp; exact ha hp
    · rwa [hj] at hp
  constructor
  · intro t j n request hm
    rw [hnum]; exact h.numbered t j n request (hrec _ _ _ _ hm)
  · intro t t' j n request request' hm hm'
    exact h.unique t t' j n request request' (hrec _ _ _ _ hm) (hrec _ _ _ _ hm')
  · intro j hj
    obtain ⟨hp, hr, ht⟩ := hpend j hj
    rw [hr, ht, hnum, hl]
    exact List.mem_append_left _ (h.current j hp)
  · intro j n; rw [hw]; exact h.once j n
  · intro j n hjn; rw [hw]; exact h.fresh j n (by rw [← hnum]; exact hjn)
  · intro j hj; rw [hw, hnum]; exact h.unanswered j (hpend j hj).1
  · intro j n h0 hn hl
    rw [hnum] at hn
    rw [hw]
    exact h.answered j n h0 hn (fun e => hset j (hl (by rw [hnum]; exact e)))

/-- Nothing moves and nothing is logged. -/
theorem RequestInv.same (h : RequestInv st) (hs : st'.sessions = st.sessions) (hl : st'.log = st.log) : RequestInv st' :=
  h.move (i := 0) (s := st.sessions 0) (l := []) (by rw [hs, Function.update_eq_self]) (by rw [hl, List.append_nil])
    nofun rfl (fun hp => ⟨hp, rfl, rfl⟩) (fun ha => ha)

/-- A session reads its next request. -/
theorem RequestInv.read (h : RequestInv st) {i : Nat} {request : HttpRequest} {phase : Phase}
    (hold : (st.sessions i).phase = .reading) (hpend : phase.pending = true)
    (hs : st'.sessions = Function.update st.sessions i (received st i request phase))
    (hl : st'.log = receivedLog st i request) : RequestInv st' := by
  have hrec : ∀ t j n r, ⟨t, .received j n r⟩ ∈ st'.log → ⟨t, .received j n r⟩ ∈ st.log ∨
      (t = st.now ∧ j = i ∧ n = (st.sessions i).number + 1 ∧ r = request) := by
    intro t j n r hm
    rw [hl, receivedLog, List.mem_append, List.mem_singleton] at hm
    rcases hm with hm | hm
    · exact .inl hm
    · cases hm; exact .inr ⟨rfl, rfl, rfl, rfl⟩
  have hw : ∀ j n, writes st' j n = writes st j n := by
    intro j n
    unfold writes
    rw [hl, receivedLog, List.countP_append]
    rfl
  have hnum : ∀ j, (st.sessions j).number ≤ (st'.sessions j).number := by
    intro j
    rcases Lts.update_cases hs j with ⟨rfl, hj⟩ | ⟨-, hj⟩
    · rw [hj]; exact Nat.le_succ _
    · rw [hj]
  have hi : st'.sessions i = received st i request phase := by rw [hs, Function.update_self]
  -- the new number was not read before
  have hnew : ∀ t r, ⟨t, .received i ((st.sessions i).number + 1) r⟩ ∉ st.log := fun t r hm => by
    have := (h.numbered t i _ r hm).2; omega
  constructor
  · intro t j n r hm
    rcases hrec t j n r hm with hm | ⟨-, rfl, rfl, -⟩
    · obtain ⟨h0, hn⟩ := h.numbered t j n r hm
      exact ⟨h0, Nat.le_trans hn (hnum j)⟩
    · rw [hi]; exact ⟨Nat.succ_pos _, Nat.le_refl _⟩
  · intro t t' j n r r' hm hm'
    rcases hrec t j n r hm with hm | ⟨rfl, rfl, rfl, rfl⟩ <;> rcases hrec t' j _ r' hm' with hm' | ⟨rfl, h2, h3, rfl⟩
    · exact h.unique t t' j n r r' hm hm'
    · subst h2 h3; exact absurd hm (hnew _ _)
    · exact absurd hm' (hnew _ _)
    · exact ⟨rfl, rfl⟩
  · intro j hj
    by_cases hji : j = i
    · subst hji
      rw [hi, hl]
      exact List.mem_append_right _ (List.mem_singleton.2 rfl)
    · rw [hs, Function.update_of_ne hji] at hj ⊢
      rw [hl]
      exact List.mem_append_left _ (h.current j hj)
  · intro j n; rw [hw]; exact h.once j n
  · intro j n hjn; rw [hw]; exact h.fresh j n (Nat.lt_of_le_of_lt (hnum j) hjn)
  · intro j hj
    rw [hw]
    by_cases hji : j = i
    · subst hji; rw [hi]; exact h.fresh j _ (Nat.lt_succ_self _)
    · rw [hs, Function.update_of_ne hji] at hj ⊢; exact h.unanswered j hj
  · intro j n h0 hn hlast
    rw [hw]
    by_cases hji : j = i
    · subst hji
      rw [hi] at hn hlast
      have hne : n ≠ (st.sessions j).number + 1 := fun e => by
        have hset : phase.settled = true := hlast e
        rw [Phase.settled_of_pending hpend] at hset
        cases hset
      exact h.answered j n h0 (Nat.lt_succ_iff.1 (Nat.lt_of_le_of_ne hn hne)) (fun _ => by rw [hold]; rfl)
    · rw [hs, Function.update_of_ne hji] at hn hlast
      exact h.answered j n h0 hn hlast

/-- A session answers its request. -/
theorem RequestInv.answer (h : RequestInv st) {i : Nat} {c : Bool} {reply : Reply}
    (hp : (st.sessions i).phase.pending = true) (hs : st'.sessions = atPhase st i (.writing c))
    (hl : st'.log = st.log ++ [⟨st.now, .wrote i (st.sessions i).number reply⟩]) : RequestInv st' := by
  have hrec : ∀ t j n r, ⟨t, .received j n r⟩ ∈ st'.log → ⟨t, .received j n r⟩ ∈ st.log := by
    intro t j n r hm
    rw [hl, List.mem_append, List.mem_singleton] at hm
    rcases hm with hm | hm
    · exact hm
    · cases hm
  have hw : ∀ j n, writes st' j n = writes st j n + if i = j ∧ (st.sessions i).number = n then 1 else 0 := by
    intro j n
    unfold writes
    rw [hl, List.countP_append, List.countP_singleton]
    simp only [isWrite, decide_eq_true_eq]
  have hnum : ∀ j, (st'.sessions j).number = (st.sessions j).number := by
    intro j
    rcases Lts.update_cases hs j with ⟨rfl, hj⟩ | ⟨-, hj⟩ <;> rw [hj]
  have hpend : ∀ j, (st'.sessions j).phase.pending = true → j ≠ i ∧ st'.sessions j = st.sessions j := by
    intro j hpj
    rcases Lts.update_cases hs j with ⟨rfl, hj⟩ | hj
    · rw [hj] at hpj; cases hpj
    · exact hj
  constructor
  · intro t j n r hm; rw [hnum]; exact h.numbered t j n r (hrec _ _ _ _ hm)
  · intro t t' j n r r' hm hm'; exact h.unique t t' j n r r' (hrec _ _ _ _ hm) (hrec _ _ _ _ hm')
  · intro j hj
    obtain ⟨-, hjs⟩ := hpend j hj
    rw [hjs] at hj ⊢
    rw [hl]
    exact List.mem_append_left _ (h.current j hj)
  · intro j n
    rw [hw]
    split
    · rename_i hjn
      obtain ⟨rfl, rfl⟩ := hjn
      rw [h.unanswered i hp]
    · exact h.once j n
  · intro j n hjn
    rw [hnum] at hjn
    rw [hw, h.fresh j n hjn, if_neg]
    rintro ⟨rfl, rfl⟩
    exact Nat.lt_irrefl _ hjn
  · intro j hj
    obtain ⟨hji, hjs⟩ := hpend j hj
    rw [hjs] at hj ⊢
    rw [hw, h.unanswered j hj, if_neg (fun e => hji e.1.symm)]
  · intro j n h0 hn hl
    rw [hnum] at hn hl
    rw [hw]
    split
    · rename_i hjn
      obtain ⟨rfl, rfl⟩ := hjn
      rw [h.unanswered i hp]
    · rename_i hjn
      refine h.answered j n h0 hn (fun e => ?_)
      have hji : j ≠ i := fun hji => hjn ⟨hji.symm, by rw [e, hji]⟩
      have := hl e
      rwa [hs, atPhase, Function.update_of_ne hji] at this

theorem flightPhase_pending (key : Str) (reply : Reply) (c : Bool) : (flightPhase key reply c).pending = true := by
  unfold flightPhase
  split <;> rfl

theorem mem_singleton_quiet {e : Logged} (he : e.event.quiet = true) : ∀ x ∈ [e], x.event.quiet = true := by
  intro x hx
  rw [List.mem_singleton] at hx
  rw [hx]; exact he

/-- **Every step keeps the numbering.** -/
theorem RequestInv.step {a : Action} (h : RequestInv st) (hc : CoreInv cfg st) (hs : Step cfg st a st') :
    RequestInv st' := by
  cases hs with
  | tick _ _ | proxyStep _ _ _ _ _ _ _ _ | proxyThrow _ _ _ _ _ _ _ _ | health _ _ _ _ _ _ => exact h.same rfl rfl
  | readLocal i _ _ _ hph | readCacheable i _ _ hph | readOther i _ _ hph => exact h.read hph rfl rfl rfl
  | respond i reply hph => exact h.answer (by rw [hph]; rfl) rfl rfl
  | accept i _ hph | readError i _ _ hph | writtenNext i _ hph | writtenLast i _ _ _ hph =>
    exact h.move (l := []) rfl (List.append_nil _).symm nofun rfl nofun (fun _ => by rw [hph]; rfl)
  | leadThrow i | directThrow i => exact h.move (l := []) rfl (List.append_nil _).symm nofun rfl nofun nofun
  | miss i _ hph | missAlone i _ hph | leadUnavailable i _ hph | leadFetch i _ _ _ hph | directUnavailable i hph
  | directFetch i _ _ hph =>
    exact h.move (l := []) rfl (List.append_nil _).symm nofun rfl (fun _ => ⟨by rw [hph]; rfl, rfl, rfl⟩) nofun
  | hit i _ _ hph | lead i _ hph | wait i _ _ hph | store i _ _ hph | release i _ _ hph =>
    exact h.move rfl rfl (mem_singleton_quiet rfl) rfl (fun _ => ⟨by rw [hph]; rfl, rfl, rfl⟩) nofun
  | callback pre post w reply _ hp =>
    obtain ⟨k, hk⟩ := hc.callback_waiting hp
    exact h.move (l := []) rfl (List.append_nil _).symm nofun rfl (fun _ => ⟨by rw [hk]; rfl, rfl, rfl⟩) nofun
  | proxyFlight id p q event i key r _ hp hop hh =>
    have hpend : (st.sessions i).phase.pending = true := by rw [hc.proxies.flight_phase hp hop hh]; rfl
    refine h.move rfl rfl (mem_singleton_quiet rfl) rfl (fun _ => ⟨hpend, rfl, rfl⟩) (fun hset => ?_)
    rw [Phase.settled_of_pending (flightPhase_pending key _ true)] at hset
    cases hset
  | proxyDirect id p q event i r _ hp hop hh =>
    have hpend : (st.sessions i).phase.pending = true := by rw [hc.proxies.direct_phase hp hop hh]; rfl
    exact h.move rfl rfl (mem_singleton_quiet rfl) rfl (fun _ => ⟨hpend, rfl, rfl⟩) nofun

theorem Reachable.requests (h : Reachable cfg st) : RequestInv st :=
  h.invWith (J := CoreInv cfg) (fun _ hr => Reachable.core hr) requestInv_init
    (fun _ a _ hc hi _ hs => hi.step hc (step_sound a hs))

end Server
end EventEdge
