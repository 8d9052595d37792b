import EventEdge.ServerHead
import EventEdge.ServerRelay
/-!
# ServerInterim — an upstream that sends interim responses first

A request's Expect field goes on to the upstream, which may then send `100 Continue`, or another 1xx response, before
the final one.  `on_write` starts one `async_read`, and `on_read` completes with whatever message that brought: the
final one if nothing came before it (`final_kept`), and otherwise the interim one (`Reachable.interim_relayed`), so that
the final one is never read.
-/
namespace EventEdge

/-- What an upstream sends on one connection: interim responses, any number, and a final one as a parser gives it. -/
structure UpstreamStream where
  interim : List HttpResponse
  final : HttpResponse
  interim_status : ∀ m ∈ interim, 100 ≤ m.result ∧ m.result < 200
  final_status : 200 ≤ final.result
  final_body : bodiless final.result = true → final.body = []

namespace UpstreamStream

/-- `http::async_read`: the first complete message. -/
def asyncRead (s : UpstreamStream) : Except OpError HttpResponse :=
  (s.interim ++ [s.final]).head?.elim (.error .other) .ok

theorem asyncRead_of_interim_nil {s : UpstreamStream} (h : s.interim = []) : s.asyncRead = .ok s.final := by
  unfold asyncRead
  rw [h]
  rfl

/-- What a run may complete with, by its operations: the final response if it read that, and the proxy's own 502 or 504
only if it read no message at all. -/
def Final (s : UpstreamStream) (es : List ProxyEvent) (m : HttpResponse) : Prop :=
  (.read (.ok s.final) ∈ es ∧ m.result = s.final.result ∧ m.body = s.final.body) ∨
    ((∀ raw, .read (.ok raw) ∉ es) ∧ (m.result = 502 ∨ m.result = 504))

theorem Final.status {s : UpstreamStream} {es : List ProxyEvent} {m : HttpResponse} (h : s.Final es m) :
    200 ≤ m.result := by
  have hs := s.final_status
  rcases h with ⟨-, h, -⟩ | ⟨-, h⟩
  · omega
  · omega

end UpstreamStream

namespace Server

variable {cfg : Config} {st st' : State} {a : Action} {as : List Action} {streams : Nat → UpstreamStream}

/-- Every run that reads a message reads the first of what its upstream sends. -/
def readsFirst (streams : Nat → UpstreamStream) : Action → Prop
  | .proxy id (.read (.ok m)) => (streams id).asyncRead = .ok m
  | _ => True

/-- **The final response is what a client gets.**  The Expect field goes on; a message that is read completes its run;
a run that read one completed with the final response, and only one that read none with the proxy's own 502 or 504; and
what was written for a run is what it completed with. -/
structure FinalKept (cfg : Config) (streams : Nat → UpstreamStream) (as : List Action) (st : State) : Prop where
  expect : ∀ (id : Nat) (p : UpstreamProxy), st.proxies[id]? = some p →
    namedByConnection p.fetch.client.fields "Expect".toList = false →
    p.request.fields.values "Expect".toList = p.fetch.client.fields.values "Expect".toList
  relayed : ∀ (id : Nat) (p : UpstreamProxy), st.proxies[id]? = some p → st.stopped = false → .read ∈ p.outstanding →
    ∃ st' r, step cfg st (.proxy id (.read (streams id).asyncRead)) = some st' ∧ Completed st' id p.fetch r ∧
      r.result = (streams id).final.result ∧ r.body = (streams id).final.body
  completed : ∀ id fetch m, Completed st id fetch m → (streams id).Final (exchange id as) m
  written : ∀ t i n reply, ⟨t, .wrote i n reply⟩ ∈ st.log → 200 ≤ reply.message.result ∧
    ∀ id, reply.origin = .proxy id → (streams id).Final (exchange id as) reply.message ∧
      ∃ fetch m, Completed st id fetch m ∧ reply.message.SameContent m

/-- A message of an exchange is the one its run read first. -/
theorem first_of_read (hfirst : ∀ a ∈ as, readsFirst streams a) {id : Nat} {raw : HttpResponse}
    (h : .read (.ok raw) ∈ exchange id as) : (streams id).asyncRead = .ok raw := by
  obtain ⟨a, ha, he⟩ := List.mem_filterMap.1 h
  have hread := hfirst a ha
  cases a with
  | proxy id' event =>
    simp only [Action.eventOf] at he
    split at he
    · rename_i hid
      subst hid
      cases he
      exact hread
    · cases he
  | _ => cases he

/-- What is not written for a run of a proxy is the server's own, and final. -/
theorem Reachable.wrote_status (h : Reachable cfg st) {t : Int} {i n : Nat} {reply : Reply}
    (hw : ⟨t, .wrote i n reply⟩ ∈ st.log) : 200 ≤ reply.message.result ∨ ∃ id, reply.origin = .proxy id := by
  obtain ⟨b, request, -, hans⟩ := (Reachable.origins h).wrote t i n reply hw
  cases hans with
  | localRoute _ _ hr => exact .inl (by omega)
  | unavailable asked _ _ hsame =>
    refine .inl ?_
    rw [hsame.1, show (unavailableResponse cfg.beast asked).result = 503 from rfl]
    decide
  | direct id _ _ ho | led id _ _ _ _ ho | hit id _ _ _ _ _ ho | waited id _ _ _ _ _ ho => exact .inr ⟨id, ho⟩

/-- **Without interim responses the final one is relayed and written**, in every run. -/
theorem final_kept (hno : ∀ id, (streams id).interim = []) (hfirst : ∀ a ∈ as, readsFirst streams a)
    (hrun : Lts.run (step cfg) (init cfg) as = some st) : FinalKept cfg streams as st := by
  have h : Reachable cfg st := Lts.reach_any hrun
  have hcompleted : ∀ id fetch m, Completed st id fetch m → (streams id).Final (exchange id as) m := by
    intro id fetch m hcm
    rcases brought hrun hcm with ⟨raw, p, hmem, hraw⟩ | hnone
    · have hread := first_of_read hfirst hmem
      rw [UpstreamStream.asyncRead_of_interim_nil (hno id), Except.ok.injEq] at hread
      subst hread
      refine .inl ⟨hmem, ?_, ?_⟩
      · rw [HttpResponse.preparePayload_ok hraw]; rfl
      · rw [HttpResponse.preparePayload_ok hraw]; rfl
    · exact .inr hnone
  have hwritten : ∀ t i n reply, ⟨t, .wrote i n reply⟩ ∈ st.log → ∀ id, reply.origin = .proxy id →
      (streams id).Final (exchange id as) reply.message ∧
        ∃ fetch m, Completed st id fetch m ∧ reply.message.SameContent m := by
    intro t i n reply hw id ho
    obtain ⟨fetch, m, hcm, hsame⟩ := Reachable.wrote_content h hw ho
    refine ⟨?_, fetch, m, hcm, hsame⟩
    rw [UpstreamStream.Final, hsame.1, hsame.2.1]
    exact hcompleted id fetch m hcm
  refine ⟨?_, ?_, hcompleted, fun t i n reply hw => ⟨?_, hwritten t i n reply hw⟩⟩
  · intro id p hp hnot
    rw [Reachable.values_forwarded h hp (by decide), hnot]
    rfl
  · intro id p hp ht hop
    rw [UpstreamStream.asyncRead_of_interim_nil (hno id)]
    obtain ⟨st', r, hs, hcm, hres, hbody, -⟩ := (Reachable.core h).read_completes ht hp hop (streams id).final_body
    exact ⟨st', r, hs, hcm, hres, hbody⟩
  · rcases Reachable.wrote_status h hw with hs | ⟨id, ho⟩
    · exact hs
    · exact (hwritten t i n reply hw id ho).1.status

/-- **An interim response that comes first completes its run**, and is what the client gets. -/
theorem Reachable.interim_relayed (h : Reachable cfg st) (ht : st.stopped = false) {id : Nat} {p : UpstreamProxy}
    (hp : st.proxies[id]? = some p) (hop : .read ∈ p.outstanding) {stream : UpstreamStream} {m : HttpResponse}
    {rest : List HttpResponse} (hi : stream.interim = m :: rest) (hb : m.body = []) :
    ∃ st' r, step cfg st (.proxy id (.read stream.asyncRead)) = some st' ∧ Completed st' id p.fetch r ∧
      r.result = m.result ∧ r.result < 200 := by
  have hread : stream.asyncRead = .ok m := by
    unfold UpstreamStream.asyncRead
    rw [hi]
    rfl
  rw [hread]
  obtain ⟨st', r, hs, hcm, hres, -, -⟩ := (Reachable.core h).read_completes ht hp hop (fun _ => hb)
  refine ⟨st', r, hs, hcm, hres, ?_⟩
  rw [hres]
  exact (stream.interim_status m (by rw [hi]; exact List.mem_cons_self)).2

/-! ### An upstream that is asked for `100 Continue` -/

def expectFields : Fields := [⟨"Expect".toList, "100-continue".toList⟩]

/-- A request with a body that waits for the upstream's consent. -/
def expecting : HttpRequest := ⟨.post, "/x".toList, 11, expectFields, "b".toList⟩

def storedResponse : HttpResponse := ⟨200, 11, [], "stored".toList⟩

/-- The upstream answers at once, or says first that it will. -/
def answersAtOnce : UpstreamStream := ⟨[], storedResponse, fun _ h => (List.not_mem_nil h).elim, by decide, by decide⟩
def continues : UpstreamStream := ⟨[⟨100, 11, [], []⟩], storedResponse, by decide, by decide, by decide⟩

/-- The request is forwarded, and run 0 reads `m`. -/
def expectingRun (m : HttpResponse) : List Action :=
  [.accept 0, .read 0 (.ok expecting), .select 0] ++ upstreamAnswers 0 m ++ [.respond 0]

theorem expectingRun_readsFirst {s : UpstreamStream} {m : HttpResponse} (h : s.asyncRead = .ok m) :
    ∀ a ∈ expectingRun m, readsFirst (fun _ => s) a := by
  intro a ha
  simp only [expectingRun, upstreamAnswers, List.mem_append, List.mem_cons, List.not_mem_nil, or_false] at ha
  rcases ha with ((rfl | rfl | rfl) | rfl | rfl | rfl | rfl) | rfl <;> first | exact h | trivial

/-- Run 0 forwarded the Expect field, and client 0 was written the status. -/
def expectAnswered (result : Nat) (st : State) : Bool :=
  (st.proxies[0]?).any (fun p => decide (p.request.fields.values "Expect".toList = ["100-continue".toList])) &&
    wroteWith st 0 1 (fun reply => decide (reply.message.result = result))

theorem final_kept_atOnce : ∃ st,
    Lts.run (step sampleConfig) (init sampleConfig) (expectingRun storedResponse) = some st ∧
    (∀ a ∈ expectingRun storedResponse, readsFirst (fun _ => answersAtOnce) a) ∧ expectAnswered 200 st = true ∧
    FinalKept sampleConfig (fun _ => answersAtOnce) (expectingRun storedResponse) st := by
  obtain ⟨st, hrun, hf⟩ := Lts.exists_run (step sampleConfig) (init sampleConfig) (expectingRun storedResponse)
    (expectAnswered 200) (by decide +kernel)
  have hfirst := expectingRun_readsFirst (s := answersAtOnce) (m := storedResponse) rfl
  exact ⟨st, hrun, hfirst, hf, final_kept (fun _ => rfl) hfirst hrun⟩

/-- **The client is written `100 Continue` as the answer.** -/
theorem interim_written : ∃ st,
    Lts.run (step sampleConfig) (init sampleConfig) (expectingRun ⟨100, 11, [], []⟩) = some st ∧
    (∀ a ∈ expectingRun ⟨100, 11, [], []⟩, readsFirst (fun _ => continues) a) ∧ expectAnswered 100 st = true ∧
    continues.final.result = 200 ∧ ¬ FinalKept sampleConfig (fun _ => continues) (expectingRun ⟨100, 11, [], []⟩) st := by
  obtain ⟨st, hrun, hf⟩ := Lts.exists_run (step sampleConfig) (init sampleConfig) (expectingRun ⟨100, 11, [], []⟩)
    (expectAnswered 100) (by decide +kernel)
  refine ⟨st, hrun, expectingRun_readsFirst rfl, hf, rfl, fun hkept => ?_⟩
  obtain ⟨t, reply, hw, hres⟩ := wroteWith_iff.1 (Bool.and_eq_true_iff.1 hf).2
  have hstatus := (hkept.written t 0 1 reply hw).1
  rw [of_decide_eq_true hres] at hstatus
  exact absurd hstatus (by decide)

end Server
end EventEdge
