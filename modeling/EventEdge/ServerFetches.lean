import EventEdge.ServerOrigins
/-!
# ServerFetches — the fetches of one key follow one another

The leader of a flight fetches, stores and only then closes the flight, so the fetches of one key do not overlap and
their responses are stored in the order the fetches were started (`Reachable.fetchOrder`).  Between a miss and the join
after it another session's flight may open, store and close; where none does, no fetch is started for what the cache
holds (`needed`).
-/
namespace EventEdge
namespace Server

variable {cfg : Config} {st st' : State} {a : Action}

/-- Session `i` leads the flight of `key` with run `id`, whose response, if it is to be stored, is not yet. -/
def Fetching (st : State) (i : Nat) (key : Str) (id : Nat) : Prop :=
  (st.sessions i).phase = .proxying id (some key) ∨ ∃ m, (st.sessions i).phase = .storing key ⟨m, .proxy id⟩

theorem Fetching.leads {i id : Nat} {key : Str} (h : Fetching st i key id) : Leads st i key := by
  unfold Leads
  rcases h with h | ⟨m, h⟩ <;> rw [h] <;> rfl

/-- **A session fetches because it did, or because it just started the newest run.** -/
theorem CoreInv.fetching_step (hc : CoreInv cfg st) (hs : Step cfg st a st') {i id : Nat} {key : Str}
    (hf : Fetching st' i key id) : Fetching st i key id ∨ (id = st.proxies.length ∧ st'.log = st.log) := by
  have other : ∀ {j : Nat} {s : Session}, st'.sessions = Function.update st.sessions j s →
      (∀ id key, s.phase ≠ .proxying id (some key)) → (∀ key r, s.phase ≠ .storing key r) → Fetching st i key id := by
    intro j s hu hp hst
    unfold Fetching at hf
    rcases Lts.update_cases hu i with ⟨rfl, hi⟩ | ⟨-, hi⟩
    · rw [hi] at hf
      rcases hf with hf | ⟨m, hf⟩
      · exact absurd hf (hp id key)
      · exact absurd hf (hst key _)
    · rw [hi] at hf; exact hf
  cases hs with
  | tick _ _ | proxyStep _ _ _ _ _ _ _ _ | proxyThrow _ _ _ _ _ _ _ _ | health _ _ _ _ _ _ => exact .inl hf
  | leadFetch j k u p hph =>
    by_cases hij : i = j
    · subst hij
      simp only [Fetching, atPhase, Function.update_self] at hf
      rcases hf with hf | ⟨m, hf⟩
      · cases hf; exact .inr ⟨rfl, rfl⟩
      · cases hf
    · simp only [Fetching, atPhase, Function.update_of_ne hij] at hf; exact .inl hf
  | proxyFlight id' p q event j k r _ hp hop hh =>
    obtain ⟨-, -, -, -, hph⟩ := hc.proxies.finished hp hop hh
    by_cases hij : i = j
    · subst hij
      simp only [Fetching, atPhase, Function.update_self, flightPhase] at hf
      split at hf
      · rcases hf with hf | ⟨m, hf⟩ <;> cases hf
        exact .inl (.inl hph)
      · rcases hf with hf | ⟨m, hf⟩ <;> cases hf
    · simp only [Fetching, atPhase, Function.update_of_ne hij] at hf; exact .inl hf
  | _ => exact .inl (other rfl (fun _ _ e => by cases e) (fun _ _ e => by cases e))

/-- A response is stored by the session that fetched it. -/
theorem Step.stored_last (hs : Step cfg st a st') {e : Logged} {key : Str} {o : Origin} (hl : st'.log = st.log ++ [e])
    (he : e.event = .stored key o) : ∃ i r, a = .put i ∧ (st.sessions i).phase = .storing key r ∧ r.origin = o ∧
      e.time = st.now ∧ (st'.sessions i).phase = .completing key r ∧ st'.cache = st.cache.put key r st.now := by
  cases hs with
  | store i k r hph =>
    have hcancel := List.append_cancel_left hl
    injection hcancel with hcancel
    subst hcancel
    injection he with hk ho
    subst hk
    exact ⟨i, r, rfl, hph, ho, rfl, by simp [atPhase], rfl⟩
  | _ => first
    | simp only [receivedLog, List.append_cancel_left_eq, List.cons.injEq, and_true] at hl
      subst hl
      cases he
    | simp at hl

theorem Step.stored (hs : Step cfg st a st') (g : Grows st st') {t : Int} {key : Str} {o : Origin}
    (hm : ⟨t, .stored key o⟩ ∈ st'.log) : ⟨t, .stored key o⟩ ∈ st.log ∨
      ∃ i r, a = .put i ∧ (st.sessions i).phase = .storing key r ∧ r.origin = o ∧ t = st.now ∧
        (st'.sessions i).phase = .completing key r ∧ st'.cache = st.cache.put key r st.now := by
  rcases g.log with hl | ⟨e, hl⟩
  · exact .inl (by rw [← hl]; exact hm)
  · have hm' := hm
    rw [hl, List.mem_append, List.mem_singleton] at hm'
    rcases hm' with hm' | hm'
    · exact .inl hm'
    · rw [← hm'] at hl
      exact .inr (hs.stored_last hl rfl)

structure StoreInv (st : State) : Prop where
  started : ∀ t key id, ⟨t, .stored key (.proxy id)⟩ ∈ st.log → id < st.proxies.length
  ahead : ∀ i key id, Fetching st i key id → ∀ t id', ⟨t, .stored key (.proxy id')⟩ ∈ st.log → id' < id
  ordered : st.log.Pairwise (fun e e' => ∀ key id id', e.event = .stored key (.proxy id) →
    e'.event = .stored key (.proxy id') → id < id')
  earlier : ∀ (id id' : Nat) (p p' : UpstreamProxy) (key : Str), st.proxies[id]? = some p → st.proxies[id']? = some p' →
    id < id' → p.fetch.handler.key = some key → p'.fetch.handler.key = some key → p.completed = true
  times : st.proxies.Pairwise (fun p p' => p.fetch.startedAt ≤ p'.fetch.startedAt) ∧
    ∀ p ∈ st.proxies, p.fetch.startedAt ≤ st.now

theorem storeInv_init : StoreInv (init cfg) := by
  constructor
  · intro t key id hm; cases hm
  · intro i key id _ t id' hm; cases hm
  · exact List.Pairwise.nil
  · intro id id' p p' key hp; cases hp
  · exact ⟨List.Pairwise.nil, fun p hp => by cases hp⟩

theorem Grows.length (g : Grows st st') {id : Nat} (h : id < st.proxies.length) : id < st'.proxies.length := by
  obtain ⟨p', hp', -, -⟩ := g.started id _ (List.getElem?_eq_getElem h)
  exact (List.getElem?_eq_some_iff.1 hp').1

theorem StoreInv.started_step (h : StoreInv st) (ho : OriginInv cfg st) (g : Grows st st') (hs : Step cfg st a st')
    (t : Int) (key : Str) (id : Nat) (hm : ⟨t, .stored key (.proxy id)⟩ ∈ st'.log) : id < st'.proxies.length := by
  rcases hs.stored g hm with hm | ⟨i, r, -, hph, hr, -⟩
  · exact g.length (h.started t key id hm)
  · have hi := ho.phases i
    rw [PhaseOk, hph] at hi
    rcases hi.1 with ⟨hsrv, -⟩ | ⟨id', fetch, tj, tc, hor, ⟨p, hp, -⟩, -⟩
    · rw [hr] at hsrv; cases hsrv
    · rw [hr] at hor; cases hor
      exact g.length (List.getElem?_eq_some_iff.1 hp).1

theorem StoreInv.ahead_step (h : StoreInv st) (hc : CoreInv cfg st) (g : Grows st st') (hs : Step cfg st a st')
    (i : Nat) (key : Str) (id : Nat) (hf : Fetching st' i key id) (t : Int) (id' : Nat)
    (hm : ⟨t, .stored key (.proxy id')⟩ ∈ st'.log) : id' < id := by
  rcases hc.fetching_step hs hf with hold | ⟨rfl, hlog⟩
  · rcases hs.stored g hm with hm | ⟨j, r, -, hph, -, -, hph', -⟩
    · exact h.ahead i key id hold t id' hm
    · -- whoever just stored was the key's only leader, and does not fetch any more
      have hj : Leads st j key := by rw [Leads, hph]; rfl
      cases hc.flights.one_leader i j key hold.leads hj
      unfold Fetching at hf
      rw [hph'] at hf
      rcases hf with hf | ⟨m, hf⟩ <;> cases hf
  · exact h.started t key id' (by rw [← hlog]; exact hm)

theorem StoreInv.ordered_step (h : StoreInv st) (g : Grows st st') (hs : Step cfg st a st') :
    st'.log.Pairwise (fun e e' => ∀ key id id', e.event = .stored key (.proxy id) →
      e'.event = .stored key (.proxy id') → id < id') := by
  rcases g.log with hl | ⟨e, hl⟩
  · rw [hl]; exact h.ordered
  · rw [hl, List.pairwise_append]
    refine ⟨h.ordered, List.pairwise_singleton _ _, ?_⟩
    intro x hx y hy key id id' hxe hye
    rw [List.mem_singleton] at hy
    subst hy
    obtain ⟨i, r, -, hph, hr, -⟩ := hs.stored_last hl hye
    have hxm : (⟨x.time, .stored key (.proxy id)⟩ : Logged) ∈ st.log := by rw [← hxe]; exact hx
    refine h.ahead i key id' (.inr ⟨r.message, ?_⟩) x.time id hxm
    rw [hph, ← hr]

theorem StoreInv.earlier_step (h : StoreInv st) (hc : CoreInv cfg st) (hs : Step cfg st a st') (id id' : Nat)
    (p p' : UpstreamProxy) (key : Str) (hp : st'.proxies[id]? = some p) (hp' : st'.proxies[id']? = some p')
    (hlt : id < id') (hk : p.fetch.handler.key = some key) (hk' : p'.fetch.handler.key = some key) :
    p.completed = true := by
  rcases hc.proxies.change hs with hps | ⟨i, u, handler, q, hps, rfl, hi⟩ | ⟨id₀, p₀, q, hp₀, hc₀, hps, hf, -, -⟩
  · rw [hps] at hp hp'; exact h.earlier id id' p p' key hp hp' hlt hk hk'
  · rw [hps] at hp hp'
    rcases Lts.getElem?_snoc_iff.1 hp' with hp' | ⟨rfl, rfl⟩
    · rw [List.getElem?_append_left (Nat.lt_trans hlt (List.getElem?_eq_some_iff.1 hp').1)] at hp
      exact h.earlier id id' p p' key hp hp' hlt hk hk'
    · -- the session that starts the newest run leads the key, so no older run of the key is still on
      rw [List.getElem?_append_left hlt] at hp
      rcases hi with ⟨k, rfl, hph⟩ | ⟨rfl, -⟩
      · cases hk'
        by_contra hnc
        have hrun := (hc.proxies.running id p hp (by simpa using hnc)).1
        rw [hk] at hrun
        cases hc.leader_phase hrun hph rfl rfl
      · cases hk'
  · rw [hps] at hp hp'
    have hold' : ∃ p'', st.proxies[id']? = some p'' ∧ p''.fetch.handler.key = some key := by
      rcases Lts.getElem?_set_cases hp' with ⟨rfl, rfl⟩ | ⟨-, hp'⟩
      · exact ⟨p₀, hp₀, by rw [← hf]; exact hk'⟩
      · exact ⟨p', hp', hk'⟩
    obtain ⟨p'', hp'', hk''⟩ := hold'
    rcases Lts.getElem?_set_cases hp with ⟨rfl, rfl⟩ | ⟨-, hp⟩
    · rw [h.earlier id id' p₀ p'' key hp₀ hp'' hlt (by rw [← hf]; exact hk) hk''] at hc₀; cases hc₀
    · exact h.earlier id id' p p'' key hp hp'' hlt hk hk''

theorem StoreInv.times_step (h : StoreInv st) (hc : CoreInv cfg st) (g : Grows st st') (hs : Step cfg st a st') :
    st'.proxies.Pairwise (fun p p' => p.fetch.startedAt ≤ p'.fetch.startedAt) ∧
      ∀ p ∈ st'.proxies, p.fetch.startedAt ≤ st'.now := by
  have hnow := g.now
  obtain ⟨hord, hle⟩ := h.times
  have hmap : ∀ l : List UpstreamProxy, l.Pairwise (fun p p' => p.fetch.startedAt ≤ p'.fetch.startedAt) ↔
      (l.map (fun p => p.fetch.startedAt)).Pairwise (· ≤ ·) := fun l => List.pairwise_map.symm
  rcases hc.proxies.change hs with hps | ⟨i, u, handler, q, hps, rfl, -⟩ | ⟨id, p, q, hp, -, hps, hf, -, -⟩
  · rw [hps]; exact ⟨hord, fun p hp => Int.le_trans (hle p hp) hnow⟩
  · rw [hps]
    constructor
    · rw [List.pairwise_append]
      exact ⟨hord, List.pairwise_singleton _ _, fun x hx y hy => by rw [List.mem_singleton.1 hy]; exact hle x hx⟩
    · intro p hp
      rw [List.mem_append, List.mem_singleton] at hp
      rcases hp with hp | rfl
      · exact Int.le_trans (hle p hp) hnow
      · exact hnow
  · -- a run keeps its start
    have hsame : (st.proxies.set id q).map (fun p => p.fetch.startedAt) =
        st.proxies.map (fun p => p.fetch.startedAt) := by
      obtain ⟨hlt, rfl⟩ := List.getElem?_eq_some_iff.1 hp
      rw [List.map_set, hf, ← List.getElem_map (fun p : UpstreamProxy => p.fetch.startedAt), List.set_getElem_self]
      rwa [List.length_map]
    refine ⟨by rw [hps, hmap, hsame, ← hmap]; exact hord, fun p' hp' => ?_⟩
    rw [hps] at hp'
    have hm : p'.fetch.startedAt ∈ st.proxies.map (fun p => p.fetch.startedAt) := by
      rw [← hsame]; exact List.mem_map.2 ⟨p', hp', rfl⟩
    obtain ⟨p'', hp'', he⟩ := List.mem_map.1 hm
    rw [← he]; exact Int.le_trans (hle p'' hp'') hnow

theorem StoreInv.step (h : StoreInv st) (hc : CoreInv cfg st) (ho : OriginInv cfg st) (hs : Step cfg st a st') :
    StoreInv st' := by
  have g := hc.proxies.grows hs
  exact ⟨h.started_step ho g hs, h.ahead_step hc g hs, h.ordered_step g hs, h.earlier_step hc hs, h.times_step hc g hs⟩

theorem Reachable.stores (h : Reachable cfg st) : StoreInv st :=
  h.invWith (J := fun st => CoreInv cfg st ∧ OriginInv cfg st) (fun _ hr => ⟨Reachable.core hr, Reachable.origins hr⟩)
    storeInv_init (fun _ a _ hc hi _ hs => hi.step hc.1 hc.2 (step_sound a hs))

/-- **The fetches of a key, one at a time and stored in order.**  Runs are numbered in starting order. -/
structure FetchOrder (st : State) : Prop where
  one_outstanding : ∀ (id id' : Nat) (p p' : UpstreamProxy) (i i' : Nat) (key : Str), st.proxies[id]? = some p →
    st.proxies[id']? = some p' → p.completed = false → p'.completed = false → p.fetch.handler = .flight i key →
    p'.fetch.handler = .flight i' key → id = id'
  started_in_order : st.proxies.Pairwise (fun p p' => p.fetch.startedAt ≤ p'.fetch.startedAt)
  stored_in_order : st.log.Pairwise (fun e e' => ∀ key id id', e.event = .stored key (.proxy id) →
    e'.event = .stored key (.proxy id') → id < id')
  never_overwrites : ∀ i key reply id, (st.sessions i).phase = .storing key reply → reply.origin = .proxy id →
    ∀ e, st.cache.entries.lookup key = some e → ∃ id', e.response.origin = .proxy id' ∧ id' < id

theorem Reachable.fetchOrder (h : Reachable cfg st) : FetchOrder st := by
  have hs := Reachable.stores h
  constructor
  · intro id id' p p' i i' key hp hp' hc hc' hh hh'
    rcases Nat.lt_trichotomy id id' with hlt | heq | hgt
    · rw [hs.earlier id id' p p' key hp hp' hlt (by rw [hh]; rfl) (by rw [hh']; rfl)] at hc; cases hc
    · exact heq
    · rw [hs.earlier id' id p' p key hp' hp hgt (by rw [hh']; rfl) (by rw [hh]; rfl)] at hc'; cases hc'
  · exact hs.times.1
  · exact hs.ordered
  · intro i key reply id hph hor e he
    obtain ⟨t, id', fetch, ht, -, hor', -⟩ := (Reachable.origins h).cached key e he
    refine ⟨id', hor', hs.ahead i key id (.inr ⟨reply.message, ?_⟩) t id' ht⟩
    rw [hph, ← hor]

/-- Sessions 0 and 1 ask for the same target one after the other, each by a fetch of its own. -/
def twoFetches : List Action :=
  [.accept 0, .accept 1, .read 0 (.ok (getOf "/x".toList [])), .get 0, .join 0, .select 0] ++
    upstreamAnswers 0 ⟨200, 11, [], "one".toList⟩ ++ [.put 0, .complete 0, .tick 2000000] ++
  [.read 1 (.ok (getOf "/x".toList [])), .get 1, .join 1, .select 1] ++
    upstreamAnswers 1 ⟨200, 11, [], "two".toList⟩ ++ [.put 1]

theorem fetchOrder_twoFetches : ∃ st, Reachable sampleConfig st ∧
    st.log.filter (fun e => match e.event with | .stored _ _ => true | _ => false) =
      [⟨0, .stored "/x".toList (.proxy 0)⟩, ⟨2000000, .stored "/x".toList (.proxy 1)⟩] ∧ FetchOrder st := by
  obtain ⟨st, hr, hf⟩ := Lts.exists_reach (step sampleConfig) (fun _ _ => true) (init sampleConfig) twoFetches
    (fun st => decide (st.log.filter (fun e => match e.event with | .stored _ _ => true | _ => false) =
      [⟨0, .stored "/x".toList (.proxy 0)⟩, ⟨2000000, .stored "/x".toList (.proxy 1)⟩])) (by decide +kernel)
  exact ⟨st, hr.any, of_decide_eq_true hf, Reachable.fetchOrder hr.any⟩

/-! ## Is the fetch needed? -/

def NoneUnexpired (st : State) (key : Str) : Prop := ∀ e, st.cache.entries.lookup key = some e → e.expiresAt ≤ st.now

/-- A response for the key was stored after the first `n` events. -/
def storedSince (st : State) (n : Nat) (key : Str) : Bool :=
  (st.log.drop n).any (fun e => match e.event with
    | .stored k _ => decide (k = key)
    | _ => false)

/-- A session opens a flight only if nothing was stored for its key since its lookup. -/
def missStillHolds (st : State) : Action → Bool
  | .join i => match (st.sessions i).phase with
    | .joining key => (st.coalescer.flights.lookup key).isSome || !storedSince st (st.sessions i).missedAt key
    | _ => true
  | _ => true

structure ColdInv (st : State) : Prop where
  missed : ∀ i, (st.sessions i).missedAt ≤ st.log.length
  joining : ∀ i key, (st.sessions i).phase = .joining key →
    NoneUnexpired st key ∨ storedSince st (st.sessions i).missedAt key = true
  leading : ∀ i key, (st.sessions i).phase = .leading key → NoneUnexpired st key

/-- **Only a `put` makes a key unexpired.** -/
theorem NoneUnexpired.step {key : Str} (h : NoneUnexpired st key) (hs : Step cfg st a st') : NoneUnexpired st' key ∨
    ∃ i r, a = .put i ∧ (st.sessions i).phase = .storing key r ∧
      st'.log = st.log ++ [⟨st.now, .stored key r.origin⟩] := by
  cases hs with
  | tick now hle => exact .inl (fun e he => Int.le_trans (h e he) hle)
  | hit _ _ _ _ _ | miss _ _ _ _ _ | missAlone _ _ _ _ _ =>
    exact .inl (fun e he => h e (st.cache.lookup_of_lookup_get _ _ he))
  | store i k r hph =>
    by_cases hk : k = key
    · subst hk; exact .inr ⟨i, r, rfl, hph, rfl⟩
    · exact .inl (fun e he => h e (st.cache.lookup_of_lookup_put k st.now (Ne.symm hk) he))
  | _ => exact .inl h

theorem Grows.storedSince (g : Grows st st') {n : Nat} {key : Str} (h : storedSince st n key = true) :
    storedSince st' n key = true := by
  unfold Server.storedSince at h ⊢
  rcases g.log with hl | ⟨e, hl⟩
  · rw [hl]; exact h
  · rw [hl, List.drop_append, List.any_append, h]; rfl

theorem storedSince_last {n : Nat} {t : Int} {key : Str} {o : Origin} (hn : n ≤ st.log.length)
    (hl : st'.log = st.log ++ [⟨t, .stored key o⟩]) : storedSince st' n key = true := by
  unfold storedSince
  rw [hl, List.drop_append_of_le_length hn, List.any_append]
  simp

theorem Grows.log_length (g : Grows st st') : st.log.length ≤ st'.log.length := by
  rcases g.log with hl | ⟨e, hl⟩
  · rw [hl]
  · rw [hl, List.length_append]; exact Nat.le_add_right _ _

theorem ColdInv.missed_step (h : ColdInv st) (g : Grows st st') (hs : Step cfg st a st') (j : Nat) :
    (st'.sessions j).missedAt ≤ st'.log.length := by
  have hlen := g.log_length
  have frame : ∀ {i : Nat} {s : Session}, st'.sessions = Function.update st.sessions i s →
      s.missedAt ≤ st'.log.length → (st'.sessions j).missedAt ≤ st'.log.length := by
    intro i s hu hle
    exact Lts.update_all (Q := fun _ s => s.missedAt ≤ st'.log.length) hu hle
      (fun j => Nat.le_trans (h.missed j) hlen) j
  cases hs with
  | tick _ _ | proxyStep _ _ _ _ _ _ _ _ | proxyThrow _ _ _ _ _ _ _ _ | health _ _ _ _ _ _ => exact h.missed j
  | miss i => exact frame (i := i) rfl (Nat.le_refl _)
  | _ => exact frame rfl (Nat.le_trans (h.missed _) hlen)

theorem ColdInv.joining_step (h : ColdInv st) (g : Grows st st') (hs : Step cfg st a st') (j : Nat) (key : Str)
    (hj : (st'.sessions j).phase = .joining key) :
    NoneUnexpired st' key ∨ storedSince st' (st'.sessions j).missedAt key = true := by
  have old : (st.sessions j).phase = .joining key →
      NoneUnexpired st' key ∨ storedSince st' (st.sessions j).missedAt key = true := by
    intro hph
    rcases h.joining j key hph with hn | hsn
    · rcases hn.step hs with hn | ⟨i, r, -, -, hl⟩
      · exact .inl hn
      · exact .inr (storedSince_last (h.missed j) hl)
    · exact .inr (g.storedSince hsn)
  -- any other session, and any session that does not just miss
  have frame : ∀ {i : Nat} {s : Session}, st'.sessions = Function.update st.sessions i s →
      (∀ k, s.phase ≠ .joining k) → NoneUnexpired st' key ∨ storedSince st' (st'.sessions j).missedAt key = true := by
    intro i s hu hne
    rcases Lts.update_cases hu j with ⟨rfl, hs'⟩ | ⟨-, hs'⟩
    · rw [hs'] at hj; exact absurd hj (hne key)
    · rw [hs'] at hj ⊢; exact old hj
  cases hs with
  | tick _ _ | proxyStep _ _ _ _ _ _ _ _ | proxyThrow _ _ _ _ _ _ _ _ | health _ _ _ _ _ _ => exact old hj
  | miss i k hph hget _ =>
    by_cases hji : j = i
    · subst hji
      simp only [Function.update_self] at hj
      cases hj
      refine .inl (fun e he => ?_)
      cases (st.cache.lookup_of_get_none key st.now hget).symm.trans he
    · simp only [Function.update_of_ne hji] at hj ⊢; exact old hj
  | proxyFlight id p q event i k r => exact frame (i := i) rfl (fun k' => flightPhase_ne (p := .joining k') nofun _ true)
  | _ => exact frame rfl nofun

theorem ColdInv.leading_step (h : ColdInv st) (hc : CoreInv cfg st) (hP : missStillHolds st a = true)
    (hs : Step cfg st a st') (j : Nat) (key : Str) (hj : (st'.sessions j).phase = .leading key) :
    NoneUnexpired st' key := by
  have old : (st.sessions j).phase = .leading key → NoneUnexpired st' key := by
    intro hph
    rcases (h.leading j key hph).step hs with hn | ⟨i, r, -, hi, -⟩
    · exact hn
    · -- only the leader of the key stores, and this one is not there yet
      cases hc.leader_phase hi hph rfl rfl
  have frame : ∀ {i : Nat} {s : Session}, st'.sessions = Function.update st.sessions i s →
      (∀ k, s.phase ≠ .leading k) → NoneUnexpired st' key := by
    intro i s hu hne
    rcases Lts.update_cases hu j with ⟨rfl, hs'⟩ | ⟨-, hs'⟩
    · rw [hs'] at hj; exact absurd hj (hne key)
    · rw [hs'] at hj; exact old hj
  cases hs with
  | tick _ _ | proxyStep _ _ _ _ _ _ _ _ | proxyThrow _ _ _ _ _ _ _ _ | health _ _ _ _ _ _ => exact old hj
  | lead i k hph hw =>
    by_cases hji : j = i
    · subst hji
      simp only [atPhase, Function.update_self] at hj
      cases hj
      have hnone : st.coalescer.flights.lookup key = none := hw
      simp only [missStillHolds, hph, hnone, Option.isSome_none, Bool.false_or, Bool.not_eq_true'] at hP
      exact (h.joining j key hph).resolve_right (by rw [hP]; exact Bool.false_ne_true)
    · simp only [atPhase, Function.update_of_ne hji] at hj; exact old hj
  | proxyFlight id p q event i k r =>
    refine frame (i := i) rfl (fun k' e => ?_)
    unfold flightPhase at e
    split at e <;> cases e
  | _ => exact frame rfl (fun _ e => by cases e)

theorem cold_inv (h : Lts.Reach (step cfg) (fun st a => missStillHolds st a = true) (init cfg) st) : ColdInv st := by
  refine h.invWith (J := CoreInv cfg) (fun _ hr => Reachable.core hr) ⟨fun _ => Nat.le_refl 0, nofun, nofun⟩ ?_
  intro st a st' hc hi hP hs
  have hst := step_sound a hs
  have g := hc.proxies.grows hst
  exact ⟨hi.missed_step g hst, hi.joining_step g hst, hi.leading_step hc hP hst⟩

/-! ## One fetch for a burst -/

/-- The keys anything was ever stored for. -/
def storedKeys (st : State) : Finset Str :=
  (st.log.filterMap (fun e => match e.event with
    | .stored k _ => some k
    | _ => none)).toFinset

/-- Fewer other keys were ever stored than there is room for. -/
def FewOthers (cfg : Config) (st : State) (key : Str) : Prop :=
  ((storedKeys st).erase key).card < cfg.cacheOptions.capacity

theorem mem_storedKeys {t : Int} {k : Str} {o : Origin} (h : ⟨t, .stored k o⟩ ∈ st.log) : k ∈ storedKeys st :=
  List.mem_toFinset.2 (List.mem_filterMap.2 ⟨_, h, rfl⟩)

theorem Grows.storedKeys_subset (g : Grows st st') : storedKeys st ⊆ storedKeys st' := by
  intro k hk
  obtain ⟨e, he, hx⟩ := List.mem_filterMap.1 (List.mem_toFinset.1 hk)
  exact List.mem_toFinset.2 (List.mem_filterMap.2 ⟨e, g.mem he, hx⟩)

theorem Grows.fewOthers (g : Grows st st') {key : Str} (h : FewOthers cfg st' key) : FewOthers cfg st key :=
  (Finset.card_le_card (Finset.erase_subset_erase key g.storedKeys_subset)).trans_lt h

/-- **With so few other keys a `put` of one of them evicts nothing.** -/
theorem OriginInv.has_room (h : OriginInv cfg st) (g : Grows st st') {key k : Str} (hkey : key ∈ st.cache.entries)
    {t : Int} {o : Origin} (hk : ⟨t, .stored k o⟩ ∈ st'.log) (hfew : FewOthers cfg st' key) :
    k ∈ st.cache.entries ∨ st.cache.size ≠ st.cache.options.capacity := by
  by_cases hnew : k ∈ st.cache.entries
  · exact .inl hnew
  -- the keys in the cache and the new one, without `key`, are others that were stored
  have hsub : (insert k st.cache.entries.keys.toFinset).erase key ⊆ (storedKeys st').erase key := by
    refine Finset.erase_subset_erase key (Finset.insert_subset (mem_storedKeys hk) (fun x hx => ?_))
    rw [List.mem_toFinset, ← AList.mem_keys, ← AList.lookup_isSome] at hx
    obtain ⟨e, he⟩ := Option.isSome_iff_exists.1 hx
    obtain ⟨t, id, fetch, ht, -⟩ := h.cached x e he
    exact g.storedKeys_subset (mem_storedKeys ht)
  have hcard : ((insert k st.cache.entries.keys.toFinset).erase key).card = st.cache.size := by
    rw [Finset.card_erase_of_mem (Finset.mem_insert_of_mem (List.mem_toFinset.2 (AList.mem_keys.1 hkey))),
      Finset.card_insert_of_notMem (fun hm => hnew (AList.mem_keys.2 (List.mem_toFinset.1 hm))),
      List.toFinset_card_of_nodup st.cache.entries.keys_nodup]
    exact List.length_map _
  refine .inr (Nat.ne_of_lt ?_)
  rw [h.options, ← hcard]
  exact (Finset.card_le_card hsub).trans_lt hfew

/-- From the start of the server until `now`, one time to live later is a time point. -/
def Config.Representable (cfg : Config) (now : Int) : Prop :=
  -9223372036854775808 ≤ cfg.start + cfg.cacheOptions.lifetime ∧ now + cfg.cacheOptions.lifetime ≤ 9223372036854775807

theorem Config.Representable.mono {t t' : Int} (h : cfg.Representable t') (hle : t ≤ t') : cfg.Representable t :=
  ⟨h.1, Int.le_trans (Int.add_le_add_right hle _) h.2⟩

theorem Config.Representable.at_now {t : Int} (h : cfg.Representable t) (hstart : cfg.start ≤ t) :
    cfg.cacheOptions.Representable t :=
  ⟨Int.le_trans h.1 (Int.add_le_add_right hstart _), h.2⟩

/-- What was stored is in the cache until its expiry, as long as there are not enough other keys to evict it and every
expiry so far is a time point. -/
def Retained (cfg : Config) (st : State) : Prop :=
  ∀ key, FewOthers cfg st key → cfg.Representable st.now → ∀ ts o, ⟨ts, .stored key o⟩ ∈ st.log →
    (∃ e, st.cache.entries.lookup key = some e ∧ ts + cfg.cacheOptions.lifetime ≤ e.expiresAt) ∨
      ts + cfg.cacheOptions.lifetime ≤ st.now

theorem Retained.step (h : Retained cfg st) (ho : OriginInv cfg st) (hk : ClockInv st) (hstart : cfg.start ≤ st.now)
    (g : Grows st st') (hs : Step cfg st a st') : Retained cfg st' := by
  intro key hfew hfits ts o hm
  have hnow := g.now
  have hfits := hfits.mono hnow
  have stored : ∀ r, ∃ e, (st.cache.put key r st.now).entries.lookup key = some e ∧
      e.expiresAt = st.now + cfg.cacheOptions.lifetime := by
    intro r
    obtain ⟨e, he, -, hx⟩ := st.cache.lookup_put_self key st.now r
    exact ⟨e, he, by rw [hx, ho.options, CacheOptions.expiry_of_representable _ (hfits.at_now hstart)]⟩
  rcases hs.stored g hm with hold | ⟨i, r, -, -, -, rfl, -, hcache⟩
  · rcases h key (g.fewOthers hfew) hfits ts o hold with ⟨e, he, hx⟩ | hx
    · have hget : ∀ k, st'.cache = (st.cache.get k st.now).2 →
          (∃ e, st'.cache.entries.lookup key = some e ∧ ts + cfg.cacheOptions.lifetime ≤ e.expiresAt) ∨
            ts + cfg.cacheOptions.lifetime ≤ st'.now := by
        intro k hc
        by_cases hexp : st.now < e.expiresAt
        · exact .inl ⟨e, by rw [hc]; exact st.cache.lookup_get_of_lookup k st.now he (.inr hexp), hx⟩
        · exact .inr (by omega)
      cases hs with
      | hit _ k _ _ _ => exact hget k rfl
      | miss _ k _ _ _ => exact hget k rfl
      | missAlone _ k _ _ _ => exact hget k rfl
      | store i k r hph =>
        by_cases hkk : key = k
        · subst hkk
          obtain ⟨e', he', hx'⟩ := stored r
          have hpast := hk.past _ hold
          simp only at hpast
          exact .inl ⟨e', he', by omega⟩
        · have hmem : key ∈ st.cache.entries := AList.lookup_isSome.1 (by rw [he]; rfl)
          have hroom := ho.has_room (t := st.now) (o := r.origin) g hmem
            (List.mem_append_right _ (List.mem_singleton.2 rfl)) hfew
          exact .inl ⟨e, st.cache.lookup_put_of_lookup k st.now hkk he hroom, hx⟩
      | _ => exact .inl ⟨e, he, hx⟩
    · exact .inr (by omega)
  · obtain ⟨e', he', hx'⟩ := stored r
    exact .inl ⟨e', by rw [hcache]; exact he', Int.le_of_eq hx'.symm⟩

/-- A response the cache takes was stored, or its leader is about to. -/
def StoredOrStoring (st : State) : Prop :=
  ∀ id fetch m key, Completed st id fetch m → fetch.handler.key = some key → cacheableResponse m = true →
    (∃ ts, ⟨ts, .stored key (.proxy id)⟩ ∈ st.log) ∨ ∃ i, (st.sessions i).phase = .storing key ⟨m, .proxy id⟩

theorem Step.storing (hs : Step cfg st a st') (hc : CoreInv cfg st) {i : Nat} {key : Str} {r : Reply}
    (hph : (st.sessions i).phase = .storing key r) : (st'.sessions i).phase = .storing key r ∨
      ⟨st.now, .stored key r.origin⟩ ∈ st'.log := by
  have other : ∀ {j : Nat} {s : Session}, st'.sessions = Function.update st.sessions j s →
      (st.sessions j).phase ≠ .storing key r → (st'.sessions i).phase = .storing key r := by
    intro j s hu hj
    have hij : i ≠ j := by rintro rfl; exact hj hph
    rw [hu, Function.update_of_ne hij]; exact hph
  cases hs with
  | tick _ _ | proxyStep _ _ _ _ _ _ _ _ | proxyThrow _ _ _ _ _ _ _ _ | health _ _ _ _ _ _ => exact .inl hph
  | accept j _ hj | readError j _ _ hj | readLocal j _ _ _ hj | readCacheable j _ _ hj | readOther j _ _ hj
  | hit j _ _ hj | miss j _ hj | missAlone j _ hj | lead j _ hj | wait j _ _ hj | leadUnavailable j _ hj
  | leadFetch j _ _ _ hj | leadThrow j _ _ _ hj | directUnavailable j hj | directFetch j _ _ hj | directThrow j _ _ hj
  | release j _ _ hj | respond j _ hj | writtenNext j _ hj | writtenLast j _ _ _ hj =>
    exact .inl (other (j := j) rfl (fun e => by cases hj.symm.trans e))
  | store j k r' hj =>
    by_cases hij : i = j
    · subst hij
      rw [hph] at hj; cases hj
      exact .inr (List.mem_append_right _ (List.mem_singleton.2 rfl))
    · exact .inl (by simp only [atPhase, Function.update_of_ne hij]; exact hph)
  | callback pre post w reply _ hp =>
    obtain ⟨k, hk⟩ := hc.callback_waiting hp
    exact .inl (other (j := w) rfl (fun e => by cases hk.symm.trans e))
  | proxyFlight id p q event j k r' _ hp hop hh =>
    exact .inl (other (j := j) rfl (fun e => by cases (hc.proxies.flight_phase hp hop hh).symm.trans e))
  | proxyDirect id p q event j r' _ hp hop hh =>
    exact .inl (other (j := j) rfl (fun e => by cases (hc.proxies.direct_phase hp hop hh).symm.trans e))

theorem StoredOrStoring.step (h : StoredOrStoring st) (hc : CoreInv cfg st) (g : Grows st st') (hs : Step cfg st a st') :
    StoredOrStoring st' := by
  intro id fetch m key hcm hk hcr
  rcases hc.proxies.completed_step hs hcm with hcm | ⟨p, event, -, -, -, -, -, -, hph⟩
  · rcases h id fetch m key hcm hk hcr with ⟨ts, hts⟩ | ⟨i, hi⟩
    · exact .inl ⟨ts, g.mem hts⟩
    · exact (hs.storing hc hi).symm.imp (fun hm => ⟨_, hm⟩) (fun hi => ⟨i, hi⟩)
  · cases hh : fetch.handler with
    | flight i k =>
      rw [hh] at hk; cases hk
      refine .inr ⟨i, ?_⟩
      rw [hph i key hh, flightPhase, hcr]; rfl
    | direct i => rw [hh] at hk; cases hk

/-- As long as what is stored is not evicted and expires at a time point, a fetch of the key after one whose response
the cache took starts no earlier than one time to live after that response was stored. -/
def Spaced (cfg : Config) (st : State) : Prop :=
  ∀ key, FewOthers cfg st key → cfg.Representable st.now →
    ∀ (id id' : Nat) (fetch : Fetch) (m : HttpResponse) (p' : UpstreamProxy),
    Completed st id fetch m → fetch.handler.key = some key → cacheableResponse m = true →
    st.proxies[id']? = some p' → p'.fetch.handler.key = some key → id < id' →
    ∃ ts, ⟨ts, .stored key (.proxy id)⟩ ∈ st.log ∧ ts + cfg.cacheOptions.lifetime ≤ p'.fetch.startedAt

theorem retained (h : Reachable cfg st) : Retained cfg st :=
  h.invWith (J := fun st => CoreInv cfg st ∧ OriginInv cfg st ∧ ClockInv st ∧ cfg.start ≤ st.now)
    (fun _ hr => ⟨Reachable.core hr, Reachable.origins hr, Reachable.clock hr, Reachable.start_le hr⟩)
    (fun _ _ _ _ _ hm => by cases hm)
    (fun _ a _ ⟨hc, ho, hk, hstart⟩ hi _ hs =>
      hi.step ho hk hstart (hc.proxies.grows (step_sound a hs)) (step_sound a hs))

theorem storedOrStoring (h : Reachable cfg st) : StoredOrStoring st :=
  h.invWith (J := CoreInv cfg) (fun _ hr => Reachable.core hr) (fun _ _ _ _ ⟨_, hp, _⟩ => by cases hp)
    (fun _ a _ hc hi _ hs => hi.step hc (hc.proxies.grows (step_sound a hs)) (step_sound a hs))

/-- **A fetch of the key starts only once the last response the cache took for it has expired.** -/
theorem ColdInv.starts_late (h : ColdInv st) (hr : Reachable cfg st) {key : Str} (hfew : FewOthers cfg st key)
    (hfits : cfg.Representable st.now) {i id : Nat} {fetch : Fetch} {m : HttpResponse}
    (hi : (st.sessions i).phase = .leading key) (hcm : Completed st id fetch m)
    (hk : fetch.handler.key = some key) (hcr : cacheableResponse m = true) :
    ∃ ts, ⟨ts, .stored key (.proxy id)⟩ ∈ st.log ∧ ts + cfg.cacheOptions.lifetime ≤ st.now := by
  rcases storedOrStoring hr id fetch m key hcm hk hcr with ⟨ts, hts⟩ | ⟨j, hj⟩
  · refine ⟨ts, hts, ?_⟩
    rcases retained hr key hfew hfits ts _ hts with ⟨e, he, hx⟩ | hx
    · exact Int.le_trans hx (h.leading i key hi e he)
    · exact hx
  · cases (Reachable.core hr).leader_phase hj hi rfl rfl

theorem Spaced.step (h : Spaced cfg st) (hcold : ColdInv st) (hr : Reachable cfg st) (hs : Step cfg st a st') :
    Spaced cfg st' := by
  have hc := Reachable.core hr
  have g := hc.proxies.grows hs
  intro key hfew hfits id id' fetch m p' hcm hk hcr hp' hk' hlt
  have hfew := g.fewOthers hfew
  have hfits := hfits.mono g.now
  rcases hc.proxies.completed_step hs hcm with hcm | ⟨p, event, rfl, hp, hpc, rfl, -, -, -⟩
  · rcases hc.proxies.fetch_step hs hp' with ⟨p₀, hp₀, hf⟩ | ⟨i, rfl, hst, hi⟩
    · obtain ⟨ts, hts, hle⟩ := h key hfew hfits id id' fetch m p₀ hcm hk hcr hp₀ (by rw [hf]; exact hk') hlt
      exact ⟨ts, g.mem hts, by rw [← hf]; exact hle⟩
    · obtain ⟨ts, hts, hle⟩ := hcold.starts_late hr hfew hfits (hi key hk') hcm hk hcr
      exact ⟨ts, g.mem hts, by rw [hst]; exact hle⟩
  · -- a run that completes only now has no later run of its key
    rcases hc.proxies.fetch_step hs hp' with ⟨p₀, hp₀, hf⟩ | ⟨i, rfl, -, hi⟩
    · rw [(Reachable.stores hr).earlier id id' p p₀ key hp hp₀ hlt hk (by rw [hf]; exact hk')] at hpc; cases hpc
    · have hrun := (hc.proxies.running id p hp hpc).1
      rw [hk] at hrun
      cases hc.leader_phase hrun (hi key hk') rfl rfl

/-- **The fetches are needed**: whenever a leader is about to select an upstream the cache holds nothing unexpired for
its key, and a burst for one key costs one fetch for each time to live. -/
structure Needed (cfg : Config) (st : State) : Prop where
  cold : ∀ i key, (st.sessions i).phase = .leading key → NoneUnexpired st key
  burst : Spaced cfg st

theorem needed (h : Lts.Reach (step cfg) (fun st a => missStillHolds st a = true) (init cfg) st) : Needed cfg st := by
  refine ⟨(cold_inv h).leading, ?_⟩
  refine h.invFrom (I := Spaced cfg) (fun _ _ _ _ _ _ _ _ ⟨_, hp, _⟩ => by cases hp) ?_
  intro st a st' hr hi _ hs
  exact hi.step (cold_inv hr) hr.any (step_sound a hs)

/-- A burst of two: one fetch, and the next one after the expiry; then one for another key, which there is room for. -/
theorem needed_twoFetches : ∃ st,
    Lts.Reach (step sampleConfig) (fun st a => missStillHolds st a = true) (init sampleConfig) st ∧
    st.proxies.map (fun p => (p.fetch.handler.key, p.fetch.startedAt)) =
      [(some "/x".toList, 0), (some "/x".toList, 2000000), (some "/y".toList, 2000000)] ∧
    storedKeys st = {"/x".toList, "/y".toList} ∧ FewOthers sampleConfig st "/x".toList ∧
    sampleConfig.Representable st.now ∧ Needed sampleConfig st := by
  obtain ⟨st, hr, hf⟩ := Lts.exists_reach (step sampleConfig) missStillHolds (init sampleConfig)
    (twoFetches ++ [.accept 2, .read 2 (.ok (getOf "/y".toList [])), .get 2, .join 2, .select 2] ++
      upstreamAnswers 2 ⟨200, 11, [], "three".toList⟩ ++ [.put 2])
    (fun st => decide (st.proxies.map (fun p => (p.fetch.handler.key, p.fetch.startedAt)) =
      [(some "/x".toList, 0), (some "/x".toList, 2000000), (some "/y".toList, 2000000)] ∧
      storedKeys st = {"/x".toList, "/y".toList} ∧ ((storedKeys st).erase "/x".toList).card < 2 ∧
      st.now = 2000000)) (by decide +kernel)
  obtain ⟨hruns, hkeys, hfew, hnow⟩ := of_decide_eq_true hf
  have hfits : sampleConfig.Representable st.now := by
    rw [hnow]
    exact ⟨by decide, by decide⟩
  exact ⟨st, hr, hruns, hkeys, hfew, hfits, needed hr⟩

/-- **Session 1 missed before session 0's response was stored, and joins after session 0's flight was closed**: it
opens a second flight, and fetches again what the cache holds. -/
theorem second_fetch : ∃ st st' e, Reachable sampleConfig st ∧ (st.sessions 1).phase = .leading "/x".toList ∧
    st.cache.entries.lookup "/x".toList = some e ∧ st.now < e.expiresAt ∧ step sampleConfig st (.select 1) = some st' ∧
    st.proxies.length = 1 ∧ st'.proxies.length = 2 ∧ ¬ Needed sampleConfig st := by
  obtain ⟨st, hr, hf⟩ := Lts.exists_reach (step sampleConfig) (fun _ _ => true) (init sampleConfig)
    ([.accept 0, .accept 1, .read 0 (.ok (getOf "/x".toList [])), .read 1 (.ok (getOf "/x".toList [])), .get 0, .get 1,
      .join 0, .select 0] ++ upstreamAnswers 0 ⟨200, 11, [], "hi".toList⟩ ++ [.put 0, .complete 0, .join 1])
    (fun st => decide ((st.sessions 1).phase = .leading "/x".toList ∧ st.proxies.length = 1) &&
      (st.cache.entries.lookup "/x".toList).any (fun e : Entry Reply => decide (st.now < e.expiresAt)) &&
      (step sampleConfig st (.select 1)).any (fun st' : State => decide (st'.proxies.length = 2)))
    (by decide +kernel)
  simp only [Bool.and_eq_true, decide_eq_true_eq] at hf
  obtain ⟨⟨⟨hph, hlen⟩, he⟩, hs⟩ := hf
  obtain ⟨e, he, hlt⟩ := (Option.any_eq_true _ _).1 he
  obtain ⟨st', hs, hlen'⟩ := (Option.any_eq_true _ _).1 hs
  have hlt := of_decide_eq_true hlt
  refine ⟨st, st', e, hr.any, hph, he, hlt, hs, hlen, of_decide_eq_true hlen', fun hn => ?_⟩
  have := hn.cold 1 _ hph e he
  omega

end Server
end EventEdge
