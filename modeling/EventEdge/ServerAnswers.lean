import EventEdge.ServerOrigins
/-!
# ServerAnswers — what a client may be answered with

Two readings of `Reachable.answer`.  A request that may not be shared stays by itself: it touches neither the cache nor
the coalescer, and what its own run brings goes to no one else (`Reachable.apart`).  A cacheable request is answered
with what some run for exactly its target brought, and recently: from the cache before the entry's expiry, or by a
flight it led or had joined before the flight was closed (`Reachable.fresh`).
-/
namespace EventEdge
namespace Server

open RequestCoalescer (Role)

variable {cfg : Config} {st st' : State} {a : Action}

/-! ## Requests that may not be shared -/

/-- Not a GET, or with an Authorization field. -/
def unshared (request : HttpRequest) : Bool :=
  decide (request.method ≠ .get) || request.fields.has HeaderField.authorization.text

theorem cacheableRequest_iff {request : HttpRequest} (hl : isLocalRequest request = false) :
    cacheableRequest request = true ↔ unshared request = false := by
  unfold isLocalRequest at hl
  rw [Bool.or_eq_false_iff] at hl
  unfold cacheableRequest unshared
  rw [hl.1]
  simp

/-- The call to the cache or the coalescer an action of session `i` makes. -/
def touchesShared (i : Nat) (a : Action) : Prop := a = .get i ∨ a = .join i ∨ a = .put i ∨ a = .complete i

/-- Answered 503 by the server, or by the completion of the request's own run. -/
def AnsweredAlone (cfg : Config) (st : State) (i n : Nat) (request : HttpRequest) (reply : Reply) : Prop :=
  (reply.origin = .server ∧ ∃ asked, reply.message.SameContent (unavailableResponse cfg.beast asked)) ∨
    ∃ id fetch m, reply.origin = .proxy id ∧ Completed st id fetch m ∧ fetch.handler = .direct i ∧ fetch.number = n ∧
      fetch.client = request ∧ reply.message.SameContent m

/-- **Requests that may not be shared are kept apart.** -/
structure Apart (cfg : Config) (st : State) : Prop where
  -- the local routes aside
  answered : ∀ t b i n request reply, ⟨b, .received i n request⟩ ∈ st.log → ⟨t, .wrote i n reply⟩ ∈ st.log →
    unshared request = true → isLocalRequest request = false → AnsweredAlone cfg st i n request reply
  -- a session that works on one calls neither the cache nor the coalescer, and no other action changes these
  untouched : ∀ i a st', step cfg st a = some st' → touchesShared i a → unshared (st.sessions i).request = false
  others : ∀ a st', step cfg st a = some st' → (∀ i, ¬ touchesShared i a) →
    st'.cache = st.cache ∧ st'.coalescer = st.coalescer
  -- what a run for one of them brought goes to its own session, for its own request
  delivered_own : ∀ i n id fetch m, delivered st i n id = true → Completed st id fetch m →
    unshared fetch.client = true → fetch.handler = .direct i ∧ fetch.number = n
  -- nothing in the cache, and nothing handed to a waiter, comes from one of them
  cached : ∀ key e, st.cache.entries.lookup key = some e → ∃ id fetch, e.response.origin = .proxy id ∧
    Completed st id fetch e.response.message ∧ unshared fetch.client = false
  posted : ∀ w reply, (w, reply) ∈ st.posted → reply.origin = .server ∨ ∃ id fetch, reply.origin = .proxy id ∧
    Completed st id fetch reply.message ∧ unshared fetch.client = false

/-- A run behind a flight is for a request that may be shared, of the flight's own target. -/
theorem OriginInv.flight_client (h : OriginInv cfg st) {id : Nat} {fetch : Fetch} {m : HttpResponse} {key : Str}
    (hc : Completed st id fetch m) (hk : fetch.handler.key = some key) :
    fetch.client.target = key ∧ cacheableRequest fetch.client = true ∧ unshared fetch.client = false := by
  obtain ⟨p, hp, -, rfl, -⟩ := hc
  obtain ⟨-, hl, hf⟩ := h.fetched id p hp
  split at hf
  · rename_i i key' hh
    rw [hh] at hk; cases hk
    exact ⟨hf.1.symm, hf.2, (cacheableRequest_iff hl).1 hf.2⟩
  · rename_i i hh
    rw [hh] at hk; cases hk

theorem CoreInv.shares (h : CoreInv cfg st) {i : Nat} (hs : Step cfg st a st') (ht : touchesShared i a) :
    unshared (st.sessions i).request = false := by
  have hi := h.path i
  unfold touchesShared at ht
  cases hs with
  | hit j k c hph _ | miss j k hph _ _ | missAlone j k hph _ _ =>
    simp at ht; subst ht
    rw [PathOk, hph] at hi
    exact (cacheableRequest_iff hi.2.2).1 hi.2.1
  | lead j k hph _ | wait j k ws hph _ | store j k r hph | release j k r hph =>
    simp at ht; subst ht
    rw [PathOk, hph] at hi
    exact (cacheableRequest_iff hi.2.2.1).1 hi.2.1
  | _ => simp at ht

theorem Step.shared_same (hs : Step cfg st a st') (ht : ∀ i, ¬ touchesShared i a) :
    st'.cache = st.cache ∧ st'.coalescer = st.coalescer := by
  unfold touchesShared at ht
  cases hs with
  | hit i | miss i | missAlone i | lead i | wait i | store i | release i => exact absurd (by simp) (ht i)
  | _ => exact ⟨rfl, rfl⟩

theorem Reachable.apart (h : Reachable cfg st) : Apart cfg st := by
  have ho := Reachable.origins h
  have hc := Reachable.core h
  constructor
  · intro t b i n request reply hb hw hu hl
    -- a flight or a hit would make the request a cacheable one
    have hnc : cacheableRequest request ≠ true := fun e => by
      rw [(cacheableRequest_iff hl).1 e] at hu; cases hu
    cases Reachable.answer h hb hw with
    | localRoute hl' => rw [hl] at hl'; cases hl'
    | unavailable asked _ hor hs => exact .inl ⟨hor, asked, hs⟩
    | direct id f m hor hcm hh hn hq hs => exact .inr ⟨id, f, m, hor, hcm, hh, hn, hq, hs⟩
    | led id f m _ _ _ hcm hh _ hq =>
      have := (ho.flight_client hcm (by rw [hh]; rfl)).2.1
      rw [hq] at this
      exact absurd this hnc
    | hit _ _ _ _ _ _ _ _ _ _ _ _ _ _ hq => exact absurd hq hnc
    | waited _ _ _ _ _ _ _ _ _ _ _ _ hq => exact absurd hq hnc
  · intro i a st' hs ht; exact hc.shares (step_sound a hs) ht
  · intro a st' hs ht; exact (step_sound a hs).shared_same ht
  · intro i n id fetch m hd hcm hu
    obtain ⟨t, reply, hw, horig⟩ := (delivered_iff st i n id).1 hd
    obtain ⟨b, request, -, hans⟩ := ho.wrote t i n reply hw
    have shared : ∀ {id' fetch' m' key}, reply.origin = .proxy id' → Completed st id' fetch' m' →
        fetch'.handler.key = some key → False := by
      intro id' fetch' m' key hor hcm' hk
      rw [horig] at hor; cases hor
      obtain ⟨rfl, -⟩ := hcm'.unique hcm
      rw [(ho.flight_client hcm' hk).2.2] at hu; cases hu
    cases hans with
    | localRoute _ hor => rw [horig] at hor; cases hor
    | unavailable _ _ hor => rw [horig] at hor; cases hor
    | direct id' f' m' hor hcm' hh hn =>
      rw [horig] at hor; cases hor
      obtain ⟨rfl, -⟩ := hcm'.unique hcm
      exact ⟨hh, hn⟩
    | led id' f' m' _ _ hor hcm' hh => exact (shared hor hcm' (by rw [hh]; rfl)).elim
    | hit id' f' m' _ _ _ hor hcm' hk => exact (shared hor hcm' hk).elim
    | waited id' f' m' _ _ _ hor hcm' hk => exact (shared hor hcm' hk).elim
  · intro key e he
    obtain ⟨t, id, fetch, -, -, hor, hcm, hk, -⟩ := ho.cached key e he
    exact ⟨id, fetch, hor, hcm, (ho.flight_client hcm hk).2.2⟩
  · intro w reply hm
    rcases (ho.posted w reply hm).1 with ⟨hor, -⟩ | ⟨id, fetch, hor, hcm, hk⟩
    · exact .inl hor
    · exact .inr ⟨id, fetch, hor, hcm, (ho.flight_client hcm hk).2.2⟩

/-- A POST is answered by its own run. -/
theorem apart_post : ∃ st, Reachable sampleConfig st ∧ delivered st 0 1 0 = true ∧ Apart sampleConfig st := by
  obtain ⟨st, hr, hf⟩ := Lts.exists_reach (step sampleConfig) (fun _ _ => true) (init sampleConfig)
    ([.accept 0, .read 0 (.ok ⟨.post, "/x".toList, 11, [], "b".toList⟩), .select 0] ++
      upstreamAnswers 0 ⟨200, 11, [], "hi".toList⟩ ++ [.respond 0])
    (fun st => delivered st 0 1 0) (by decide +kernel)
  exact ⟨st, hr.any, hf, Reachable.apart hr.any⟩

/-- **A POST to a local route is answered 405**, neither 503 nor by any run. -/
theorem post_health_answered : ∃ st b t reply request, Reachable sampleConfig st ∧
    ⟨b, .received 0 1 request⟩ ∈ st.log ∧ ⟨t, .wrote 0 1 reply⟩ ∈ st.log ∧ unshared request = true ∧
    reply.message.result = 405 ∧ ¬ AnsweredAlone sampleConfig st 0 1 request reply := by
  obtain ⟨st, hr, hf⟩ := Lts.exists_reach (step sampleConfig) (fun _ _ => true) (init sampleConfig)
    [.accept 0, .read 0 (.ok ⟨.post, "/health".toList, 11, [], []⟩), .respond 0]
    (fun st => decide (∃ e ∈ st.log, e.event = .received 0 1 ⟨.post, "/health".toList, 11, [], []⟩) &&
      wroteWith st 0 1 (fun reply => decide (reply.message.result = 405 ∧ reply.origin = .server)))
    (by decide +kernel)
  rw [Bool.and_eq_true, wroteWith_iff] at hf
  obtain ⟨hb, t, reply, ht, he⟩ := hf
  obtain ⟨⟨b, e'⟩, hb, rfl⟩ := of_decide_eq_true hb
  obtain ⟨h405, hsrv⟩ := of_decide_eq_true he
  refine ⟨st, b, t, reply, _, hr.any, hb, ht, rfl, h405, ?_⟩
  rintro (⟨-, asked, hsame⟩ | ⟨id, fetch, m, hor, -⟩)
  · rw [hsame.1] at h405; cases h405
  · rw [hsrv] at hor; cases hor

/-! ## How old an answer may be -/

/-- **A cacheable request is answered 503, or with what a run for exactly its target brought**: from the cache, before
its expiry, where it was stored less than the time to live before the lookup, and so later than the time to live before
the request was read; or by a flight it led, from before the run completed; or by one it joined, before the flight was
closed.  (No time to live but one far below zero makes the sum of `put` wrap up from below.) -/
def Fresh (cfg : Config) (st : State) : Prop :=
  ∀ t b i n request reply, ⟨b, .received i n request⟩ ∈ st.log → ⟨t, .wrote i n reply⟩ ∈ st.log →
    cacheableRequest request = true → isLocalRequest request = false →
    (reply.origin = .server ∧ ∃ asked, reply.message.SameContent (unavailableResponse cfg.beast asked)) ∨
    ∃ id fetch m, reply.origin = .proxy id ∧ Completed st id fetch m ∧ reply.message.SameContent m ∧
      fetch.client.method = .get ∧ fetch.client.fields.has HeaderField.authorization.text = false ∧
      fetch.client.target = request.target ∧
      ((∃ ts tg, [⟨ts, .stored request.target (.proxy id)⟩, ⟨tg, .hit i n (.proxy id)⟩].Sublist st.log ∧ b ≤ tg ∧
          tg < cfg.cacheOptions.expiry ts ∧ (-9223372036854775808 ≤ ts + cfg.cacheOptions.lifetime →
            tg < ts + cfg.cacheOptions.lifetime ∧ b - cfg.cacheOptions.lifetime < ts)) ∨
        (∃ tj tc, fetch.handler = .flight i request.target ∧ fetch.number = n ∧
          [⟨tj, .joined i n request.target .leader⟩, ⟨tc, .completed id⟩].Sublist st.log) ∨
        ∃ tj tr ws, (i, n) ∈ ws ∧
          [⟨tj, .joined i n request.target .waiter⟩, ⟨tr, .released request.target (.proxy id) ws⟩].Sublist st.log)

theorem get_of_unshared {request : HttpRequest} (h : unshared request = false) :
    request.method = .get ∧ request.fields.has HeaderField.authorization.text = false := by
  unfold unshared at h
  simpa using h

theorem Reachable.fresh (h : Reachable cfg st) : Fresh cfg st := by
  have ho := Reachable.origins h
  intro t b i n request reply hb hw hq hl
  have client : ∀ {id fetch m}, Completed st id fetch m → fetch.handler.key = some request.target →
      fetch.client.method = .get ∧ fetch.client.fields.has HeaderField.authorization.text = false ∧
        fetch.client.target = request.target := by
    intro id fetch m hcm hk
    obtain ⟨ht, -, hu⟩ := ho.flight_client hcm hk
    exact ⟨(get_of_unshared hu).1, (get_of_unshared hu).2, ht⟩
  cases Reachable.answer h hb hw with
  | localRoute hl' => rw [hl] at hl'; cases hl'
  | unavailable asked _ hor hs => exact .inl ⟨hor, asked, hs⟩
  | direct id f m _ hcm hh _ hfq =>
    -- a run started directly is for a request that is not cacheable
    obtain ⟨p, hp, -, rfl, -⟩ := hcm
    have hf := (ho.fetched id p hp).2.2
    rw [hh, hfq, hq] at hf
    cases hf
  | led id f m tj tc hor hcm hh hn _ hlog hs =>
    obtain ⟨h1, h2, h3⟩ := client hcm (by rw [hh]; rfl)
    exact .inr ⟨id, f, m, hor, hcm, hs, h1, h2, h3, .inr (.inl ⟨tj, tc, hh, hn, hlog⟩)⟩
  | hit id f m ts b' tg hor hcm hk _ hlog hlog' hlt hs =>
    obtain ⟨h1, h2, h3⟩ := client hcm hk
    obtain ⟨rfl, -⟩ := (Reachable.requests h).unique b b' i n request request hb (hlog'.subset (by simp))
    have hle : b ≤ tg := (Reachable.clock h).before hlog'
    refine .inr ⟨id, f, m, hor, hcm, hs, h1, h2, h3, .inl ⟨ts, tg, hlog, hle, hlt, fun hfits => ?_⟩⟩
    have hage := Int.lt_of_lt_of_le hlt (cfg.cacheOptions.expiry_le hfits)
    exact ⟨hage, by omega⟩
  | waited id f m tj tr ws hor hcm hk hlog hm hs =>
    obtain ⟨h1, h2, h3⟩ := client hcm hk
    exact .inr ⟨id, f, m, hor, hcm, hs, h1, h2, h3, .inr (.inr ⟨tj, tr, ws, hm, hlog⟩)⟩

/-- Session 1 is answered from the cache with what session 0 fetched. -/
theorem fresh_hit : ∃ st, Reachable sampleConfig st ∧ delivered st 1 1 0 = true ∧ Fresh sampleConfig st := by
  obtain ⟨st, hr, hf⟩ := Lts.exists_reach (step sampleConfig) (fun _ _ => true) (init sampleConfig)
    ([.accept 0, .accept 1, .read 0 (.ok (getOf "/x".toList [])), .get 0, .join 0, .select 0] ++
      upstreamAnswers 0 ⟨200, 11, [], "hi".toList⟩ ++
      [.put 0, .complete 0, .tick 999999, .read 1 (.ok (getOf "/x".toList [])), .get 1, .respond 1])
    (fun st => delivered st 1 1 0) (by decide +kernel)
  exact ⟨st, hr.any, hf, Reachable.fresh hr.any⟩

/-- Freshness counted from the completion of the run, not from the store or the close of the flight. -/
def FreshSinceCompletion (cfg : Config) (st : State) : Prop :=
  ∀ t b i n request reply id, ⟨b, .received i n request⟩ ∈ st.log → ⟨t, .wrote i n reply⟩ ∈ st.log →
    cacheableRequest request = true → isLocalRequest request = false → reply.origin = .proxy id →
    (∃ tc, ⟨tc, .completed id⟩ ∈ st.log ∧ b - cfg.cacheOptions.lifetime < tc) ∨
      ∃ tj role tc, [⟨tj, .joined i n request.target role⟩, ⟨tc, .completed id⟩].Sublist st.log

/-- **Session 1 reads its request long after the run of the flight has completed**, but its leader has not called `put`
yet: the lookup misses, the join finds the flight open. -/
theorem late_joiner : ∃ st, Reachable sampleConfig st ∧ ¬ FreshSinceCompletion sampleConfig st := by
  obtain ⟨st, hr, hf⟩ := Lts.exists_reach (step sampleConfig) (fun _ _ => true) (init sampleConfig)
    ([.accept 0, .accept 1, .read 0 (.ok (getOf "/x".toList [])), .get 0, .join 0, .select 0] ++
      upstreamAnswers 0 ⟨200, 11, [], "hi".toList⟩ ++
      [.tick 2000000, .read 1 (.ok (getOf "/x".toList [])), .get 1, .join 1, .put 0, .complete 0, .callback 0, .respond 1])
    (fun st => decide (⟨2000000, .received 1 1 (getOf "/x".toList [])⟩ ∈ st.log) && delivered st 1 1 0 &&
      decide (∀ e ∈ st.log, e.event = .completed 0 → e.time = 0) &&
      decide (∀ role ∈ [Role.leader, Role.waiter],
        ¬ [Event.joined 1 1 "/x".toList role, .completed 0].Sublist (st.log.map Logged.event)))
    (by decide +kernel)
  simp only [Bool.and_eq_true, decide_eq_true_eq] at hf
  obtain ⟨⟨⟨hb, hd⟩, htime⟩, horder⟩ := hf
  obtain ⟨t, reply, hw, hor⟩ := (delivered_iff st 1 1 0).1 hd
  refine ⟨st, hr.any, fun hfresh => ?_⟩
  rcases hfresh t 2000000 1 1 _ reply 0 hb hw (by decide) (by decide) hor with ⟨tc, hc, hlt⟩ | ⟨tj, role, tc, hs⟩
  · have h0 : tc = 0 := htime _ hc rfl
    rw [h0] at hlt
    exact absurd hlt (by decide)
  · exact horder role (by cases role <;> simp) (hs.map Logged.event)

end Server
end EventEdge
