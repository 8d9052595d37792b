import EventEdge.Relay
import EventEdge.ServerExchanges
import EventEdge.ServerFraming
/-!
# ServerRelay — what an upstream sends is what its clients get

A message goes from an upstream through `on_read`, then through a flight or not, through the cache or not, and to one
client or to many.  `RelayInv` follows it through the run: what a proxy completed with is the message that was read for
it, prepared for the client, or a 502 or 504 if none was (`brought`).  No stage after that changes more than the version
and the Connection field, so the same holds of everything written to any client.
-/
namespace EventEdge
namespace Server

variable {cfg : Config} {st st' : State} {a : Action} {as : List Action}

/-- What the operations of an exchange say a run completes with: the one message that was read, prepared for the client,
or the proxy's own 502 or 504 if none was read. -/
def Brought (cfg : Config) (es : List ProxyEvent) (m : HttpResponse) : Prop :=
  (∃ (raw : HttpResponse) (p : UpstreamProxy), .read (.ok raw) ∈ es ∧
      (p.relayed cfg.beast raw).preparePayload cfg.beast = .ok m) ∨
    ((∀ raw, .read (.ok raw) ∉ es) ∧ (m.result = 502 ∨ m.result = 504))

def RelayInv (cfg : Config) (st : State) (as : List Action) : Prop :=
  ∀ id fetch m, Completed st id fetch m → Brought cfg (exchange id as) m

/-- A completed proxy has no operation left to complete. -/
theorem ProxyInv.eventOf_completed (h : ProxyInv st) (hs : Step cfg st a st') {id : Nat} {fetch : Fetch}
    {m : HttpResponse} (hc : Completed st id fetch m) : a.eventOf id = none := by
  obtain ⟨p, hp, hdone, -⟩ := hc
  have hout := h.done id p hp hdone
  cases ha : a.eventOf id with
  | none => rfl
  | some event =>
    have haction : a = .proxy id event := by
      unfold Action.eventOf at ha
      split at ha
      · rename_i id' event'
        split at ha
        · rename_i hid; cases ha; rw [hid]
        · cases ha
      · cases ha
    subst haction
    cases hs with
    | proxyStep _ q _ _ _ hq hop | proxyFlight _ q _ _ _ _ _ _ hq hop | proxyDirect _ q _ _ _ _ _ hq hop
    | proxyThrow _ q _ _ _ hq hop =>
      rw [hp] at hq; cases hq
      rw [hout] at hop; cases hop

/-- Before the operation that completes a proxy, no message was read for it. -/
theorem not_read_of_running {es : List ProxyEvent} {op : ProxyOp} (h : es.map ProxyEvent.op ++ op.rest = ProxyOp.all)
    (raw : HttpResponse) : .read (.ok raw) ∉ es := by
  intro hmem
  have hread : ProxyOp.read ∈ es.map ProxyEvent.op := List.mem_map.2 ⟨_, hmem, rfl⟩
  -- the read is the last operation, and another one is left
  have hlast : op.rest.getLast? = some .read := by cases op <;> rfl
  have hnodup : (es.map ProxyEvent.op ++ op.rest).Nodup := by rw [h]; decide
  exact (List.disjoint_of_nodup_append hnodup) hread (List.mem_of_getLast? hlast)

theorem RelayInv.step (h : RelayInv cfg st as) (hc : CoreInv cfg st) (he : ExchangeInv st as)
    (hs : Step cfg st a st') : RelayInv cfg st' (as ++ [a]) := by
  intro id fetch m hcm
  rcases hc.proxies.completed_step hs hcm with hcm | ⟨p, event, rfl, hp, hrun, -, -, ⟨q, hh⟩, -⟩
  · rw [exchange_snoc_other (hc.proxies.eventOf_completed hs hcm)]
    exact h id fetch m hcm
  · have hsnoc : exchange id (as ++ [.proxy id event]) = exchange id as ++ [event] := by
      rw [exchange_snoc]; simp [Action.eventOf]
    obtain ⟨-, hch, -⟩ := hc.proxies.running id p hp hrun
    have hop : event.op ∈ p.outstanding := by
      cases hs with
      | proxyStep _ _ _ _ _ hq hop | proxyFlight _ _ _ _ _ _ _ _ hq hop | proxyDirect _ _ _ _ _ _ _ hq hop
      | proxyThrow _ _ _ _ _ hq hop => rw [hp] at hq; cases hq; exact hop
    obtain ⟨-, hops, -⟩ := ((he id).2 p hp).running hop
    rw [hsnoc]
    rcases UpstreamProxy.handle_result cfg.beast (p := withoutOp p event) hrun hch hh with ⟨raw, rfl, hraw⟩ | ⟨hbad, hres⟩
    · exact .inl ⟨raw, _, List.mem_append_right _ List.mem_cons_self, hraw⟩
    · refine .inr ⟨fun raw hmem => ?_, hres⟩
      rcases List.mem_append.1 hmem with hmem | hmem
      · exact not_read_of_running hops raw hmem
      · rw [List.mem_singleton] at hmem
        rw [← hmem] at hbad
        cases hbad

/-- **Every completed run brought what was read for it**, or its own answer if nothing was. -/
theorem brought (hrun : Lts.run (step cfg) (init cfg) as = some st) {id : Nat} {fetch : Fetch} {m : HttpResponse}
    (hcm : Completed st id fetch m) : Brought cfg (exchange id as) m := by
  have hinit : CoreInv cfg (init cfg) ∧ ExchangeInv (init cfg) [] ∧ RelayInv cfg (init cfg) [] := by
    refine ⟨coreInv_init, exchangeInv_init, ?_⟩
    rintro id fetch m ⟨p, hp, -⟩
    cases hp
  have hinv := Lts.run_history (R := fun st as => CoreInv cfg st ∧ ExchangeInv st as ∧ RelayInv cfg st as)
    (fun s a s' pre hi hs => ⟨hi.1.step (step_sound a hs), hi.2.1.step hi.1 (step_sound a hs),
      hi.2.2.step hi.1 hi.2.1 (step_sound a hs)⟩) as hinit hrun
  exact hinv.2.2 id fetch m hcm

/-- What is written for a run has the content of what the run completed with. -/
theorem Reachable.wrote_content (h : Reachable cfg st) {t : Int} {i n : Nat} {reply : Reply} {id : Nat}
    (hw : ⟨t, .wrote i n reply⟩ ∈ st.log) (ho : reply.origin = .proxy id) :
    ∃ fetch m, Completed st id fetch m ∧ reply.message.SameContent m := by
  obtain ⟨b, request, -, hans⟩ := (Reachable.origins h).wrote t i n reply hw
  cases hans with
  | localRoute _ ho' | unavailable _ _ ho' => rw [ho] at ho'; cases ho'
  | direct id' f m ho' hcm _ _ _ hsame | led id' f m _ _ ho' hcm _ _ _ _ hsame
  | hit id' f m _ _ _ ho' hcm _ _ _ _ _ hsame | waited id' f m _ _ _ ho' hcm _ _ _ hsame =>
    rw [ho] at ho'; cases ho'
    exact ⟨f, m, hcm, hsame⟩

/-- **Clients get what the upstream sent.**  In every run, whatever is written to any client for a run of a proxy, be
it the client the run was started for, a waiter of its flight or a client that hit the cache, is the message that was
read for that run, with its status, its body and its end-to-end fields; only if none was read it is a 502 or a 504. -/
theorem relays (hB : cfg.beast.Framing) (hrun : Lts.run (step cfg) (init cfg) as = some st) {t : Int} {i n : Nat}
    {reply : Reply} {id : Nat} (hw : ⟨t, .wrote i n reply⟩ ∈ st.log) (ho : reply.origin = .proxy id) :
    (∃ raw, .read (.ok raw) ∈ exchange id as ∧ Relayed raw reply.message) ∨
      ((∀ raw, .read (.ok raw) ∉ exchange id as) ∧ (reply.message.result = 502 ∨ reply.message.result = 504)) := by
  have hr : Reachable cfg st := Lts.reach_any hrun
  obtain ⟨fetch, m, hcm, hsame⟩ := Reachable.wrote_content hr hw ho
  rcases brought hrun hcm with ⟨raw, p, hmem, hraw⟩ | ⟨hnone, hres⟩
  · exact .inl ⟨raw, hmem, (UpstreamProxy.relayed_prepared hB hraw).sameContent hsame⟩
  · exact .inr ⟨hnone, by rw [hsame.1]; exact hres⟩

/-- A page with a field of its own, and one of the connection's. -/
def tracedPage : HttpResponse :=
  ⟨200, 11, [⟨"X-Trace".toList, "7".toList⟩, ⟨"Connection".toList, "X-Hop".toList⟩, ⟨"X-Hop".toList, "1".toList⟩],
    "page".toList⟩

/-- Client 0 leads and fetches the page, client 1 waits and is written it too. -/
def sharedPage : List Action :=
  coldMisses (getOf "/x".toList []) (getOf "/x".toList []) ++ upstreamAnswers 0 tracedPage ++
    [.put 0, .complete 0, .callback 0, .respond 1]

theorem relays_sharedPage : ∃ st t reply, Lts.run (step sampleConfig) (init sampleConfig) sharedPage = some st ∧
    ⟨t, .wrote 1 1 reply⟩ ∈ st.log ∧ reply.origin = .proxy 0 ∧
    ((∃ raw, .read (.ok raw) ∈ exchange 0 sharedPage ∧ Relayed raw reply.message) ∨
      ((∀ raw, .read (.ok raw) ∉ exchange 0 sharedPage) ∧
        (reply.message.result = 502 ∨ reply.message.result = 504))) := by
  obtain ⟨st, hrun, hf⟩ := Lts.exists_run (step sampleConfig) (init sampleConfig) sharedPage
    (fun st => delivered st 1 1 0) (by decide +kernel)
  obtain ⟨t, reply, hw, ho⟩ := (delivered_iff st 1 1 0).1 hf
  exact ⟨st, t, reply, hrun, hw, ho, relays ReferenceBeast.framing hrun hw ho⟩

end Server
end EventEdge
