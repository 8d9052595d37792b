import EventEdge.Framing
import EventEdge.Scan
/-!
# Forwarding — the fields that go on to the other side

The tokenizer of `remove_hop_by_hop_headers` reads a Connection value as what it is, names between commas with blanks
around them (`connectionTokens_eq`), and its loop ends (`tokenRun_connectionTokens`).  So the function keeps the fields
that are neither hop-by-hop nor named by a Connection field, in order, and a second call finds nothing to remove.  The
request a proxy writes has these fields of the client's, and Host, Connection and Content-Length of its own
(`UpstreamProxy.forwarded_sent`), whatever the client's Connection fields name.
-/
namespace EventEdge

/-! ## Connection options -/

/-- The options in the value of a Connection field: what stands between the commas, without blanks, if anything. -/
def options (value : Str) : List Str := ((value.splitOn ',').map (Scan.trim isBlank)).filter (fun t => !t.isEmpty)

/-- A Connection field of the message names the field. -/
def namedByConnection (headers : Fields) (name : Str) : Bool :=
  (headers.values HeaderField.connection.text).any (fun v => (options v).any (fun n => iequals name n))

/-- The fixed names. -/
def isHopByHop (name : Str) : Bool :=
  ["Connection", "Keep-Alive", "Proxy-Authenticate", "Proxy-Authorization", "TE", "Trailer", "Transfer-Encoding",
    "Upgrade"].any (fun n => iequals name n.toList)

/-- What one round of the loop adds: the token, from its first to its last character that is no blank. -/
def tokenIn (token : Str) : List Str :=
  ((firstNotBlank token).bind (fun first =>
    (lastNotBlank token).map (fun last => substr token first (last - first + 1)))).toList

/-- **A run of the tokenizer's loop from `start` that comes to its end**, with the tokens it adds. -/
inductive TokenRun (value : Str) : Nat → List Str → Prop
  | stop {start : Nat} : ¬ start < value.length → TokenRun value start []
  | last {start : Nat} : start < value.length → findFrom ',' value start = none →
      TokenRun value start (tokenIn (substr value start (value.length - start)))
  | next {start stop : Nat} {tokens : List Str} : start < value.length → findFrom ',' value start = some stop →
      TokenRun value (stop + 1) tokens → TokenRun value start (tokenIn (substr value start (stop - start)) ++ tokens)

/-- A comma found cuts the rest of the value there. -/
theorem findFrom_eq_some_iff {c : Char} {s : Str} {start stop : Nat} : findFrom c s start = some stop ↔
    ∃ pre post, s.drop start = pre ++ c :: post ∧ c ∉ pre ∧ stop = start + pre.length := by
  unfold findFrom
  rw [Option.map_eq_some_iff]
  constructor
  · rintro ⟨i, hi, rfl⟩
    obtain ⟨pre, x, post, he, rfl, hx, hpre⟩ := Scan.findIdx?_eq_some_iff_cut.1 hi
    rw [eq_of_beq hx] at he
    exact ⟨pre, post, he, fun hm => by simpa using hpre c hm, rfl⟩
  · rintro ⟨pre, post, he, hpre, rfl⟩
    refine ⟨pre.length, Scan.findIdx?_eq_some_iff_cut.2 ⟨pre, c, post, he, rfl, by simp, fun y hy => ?_⟩, rfl⟩
    simpa using fun h : y = c => hpre (h ▸ hy)

theorem findFrom_eq_none_iff {c : Char} {s : Str} {start : Nat} : findFrom c s start = none ↔ c ∉ s.drop start := by
  unfold findFrom
  rw [Option.map_eq_none_iff, List.findIdx?_eq_none_iff]
  constructor
  · intro h hm; simpa using h c hm
  · intro h x hx; simpa using fun e : x = c => h (e ▸ hx)

theorem tokenLoop_last {value : Str} {fuel start : Nat} (hlt : start < value.length)
    (hstop : findFrom ',' value start = none) :
    tokenLoop value (fuel + 1) start = tokenIn (substr value start (value.length - start)) := by
  rw [tokenLoop, if_pos hlt]
  dsimp only
  rw [hstop, Option.getD_none, tokenIn]
  cases firstNotBlank _ <;> cases lastNotBlank _ <;> rfl

theorem tokenLoop_next {value : Str} {fuel start stop : Nat} (hlt : start < value.length)
    (hstop : findFrom ',' value start = some stop) : tokenLoop value (fuel + 1) start =
      tokenIn (substr value start (stop - start)) ++ tokenLoop value fuel (stop + 1) := by
  rw [tokenLoop, if_pos hlt]
  dsimp only
  rw [hstop, Option.getD_some, tokenIn]
  cases firstNotBlank _ <;> cases lastNotBlank _ <;> rfl

/-- **The loop of the model is a run that ends**, with fuel for every character still to read. -/
theorem tokenRun_tokenLoop (value : Str) : ∀ (fuel start : Nat), value.length < fuel + start →
    TokenRun value start (tokenLoop value fuel start)
  | 0, start, h => .stop (by omega)
  | fuel + 1, start, h => by
    by_cases hlt : start < value.length
    · cases hstop : findFrom ',' value start with
      | none => rw [tokenLoop_last hlt hstop]; exact .last hlt hstop
      | some stop =>
        obtain ⟨pre, post, -, -, rfl⟩ := findFrom_eq_some_iff.1 hstop
        rw [tokenLoop_next hlt hstop]
        exact .next hlt hstop (tokenRun_tokenLoop value fuel _ (by omega))
    · rw [tokenLoop, if_neg hlt]; exact .stop hlt

theorem tokenRun_connectionTokens (value : Str) : TokenRun value 0 (connectionTokens value) :=
  tokenRun_tokenLoop value _ 0 (by omega)

/-- A token is the text between two commas, trimmed, unless it is blank. -/
theorem tokenIn_eq (token : Str) : tokenIn token = [Scan.trim isBlank token].filter (fun t => !t.isEmpty) := by
  unfold tokenIn firstNotBlank lastNotBlank
  cases hfirst : token.findIdx? (fun c => !isBlank c) with
  | none =>
    have hall : Scan.trim isBlank token = [] := Scan.trim_eq_nil_iff.2 (fun x hx => by
      simpa using List.findIdx?_eq_none_iff.1 hfirst x hx)
    rw [hall]; rfl
  | some first =>
    obtain ⟨pre, x, post, htoken, -, hx, -⟩ := Scan.findIdx?_eq_some_iff_cut.1 hfirst
    have hne : Scan.trim isBlank token ≠ [] := fun he => by
      have hb := Scan.trim_eq_nil_iff.1 he x (by rw [htoken]; simp)
      rw [hb] at hx
      cases hx
    cases hlast : token.reverse.findIdx? (fun c => !isBlank c) with
    | none =>
      have hb := List.findIdx?_eq_none_iff.1 hlast x (by rw [htoken]; simp)
      rw [hb] at hx
      cases hx
    | some last =>
      have hcut := Scan.take_drop_eq_trim hfirst hlast
      have hemp : (Scan.trim isBlank token).isEmpty = false := List.isEmpty_eq_false_iff.2 hne
      simp only [Option.map_some, Option.bind_some, Option.toList_some, substr, hcut]
      rw [List.filter_cons_of_pos (by rw [hemp]; rfl), List.filter_nil]

/-- **A run of the loop reads the options of the rest of the value.** -/
theorem TokenRun.eq_options {value : Str} {start : Nat} {tokens : List Str} (h : TokenRun value start tokens) :
    tokens = options (value.drop start) := by
  induction h with
  | stop hge =>
    rw [List.drop_eq_nil_of_le (by omega)]
    rfl
  | last _ hnone =>
    rw [options, List.splitOn_eq_singleton (findFrom_eq_none_iff.1 hnone), tokenIn_eq, substr,
      List.take_of_length_le (by rw [List.length_drop])]
    rfl
  | @next start stop tokens _ hsome _ ih =>
    obtain ⟨pre, post, hdrop, hpre, rfl⟩ := findFrom_eq_some_iff.1 hsome
    have hpost : value.drop (start + pre.length + 1) = post := by
      rw [Nat.add_assoc, ← List.drop_drop, hdrop]
      simp
    rw [ih, hpost, hdrop, tokenIn_eq, substr, hdrop, Nat.add_sub_cancel_left, List.take_left, options, options,
      List.splitOn_append_cons_self_of_not_mem hpre, List.map_cons, ← List.filter_append]
    rfl

/-- **The tokenizer reads the options.** -/
theorem connectionTokens_eq (value : Str) : connectionTokens value = options value :=
  (tokenRun_connectionTokens value).eq_options

example : options " close ,,\tX-A , \t,".toList = ["close".toList, "X-A".toList] := by decide +kernel

/-! ## The fields that are kept -/

theorem mem_connectionOptions {headers : Fields} {n : Str} : n ∈ connectionOptions headers ↔
    ∃ v ∈ headers.values HeaderField.connection.text, n ∈ options v := by
  unfold connectionOptions Fields.values
  simp only [List.mem_flatMap, List.mem_map, connectionTokens_eq]
  constructor
  · rintro ⟨x, hx, hn⟩; exact ⟨x.value, ⟨x, hx, rfl⟩, hn⟩
  · rintro ⟨_, ⟨x, hx, rfl⟩, hn⟩; exact ⟨x, hx, hn⟩

theorem namedByConnection_eq (headers : Fields) (name : Str) :
    namedByConnection headers name = (connectionOptions headers).any (fun n => iequals name n) := by
  rw [Bool.eq_iff_iff, List.any_eq_true]
  simp only [namedByConnection, List.any_eq_true, mem_connectionOptions]
  constructor
  · rintro ⟨v, hv, n, hn, he⟩; exact ⟨n, ⟨v, hv, hn⟩, he⟩
  · rintro ⟨n, ⟨v, hv, hn⟩, he⟩; exact ⟨v, hv, n, hn, he⟩

theorem isHopByHop_eq (name : Str) : isHopByHop name = (hopByHop.map HeaderField.text).any (fun n => iequals name n) := rfl

/-- A field goes on to the other side. -/
def endToEnd (headers : Fields) (x : Field) : Bool := !isHopByHop x.name && !namedByConnection headers x.name

/-- **Removing the hop-by-hop headers is a filter on the names.** -/
theorem removeHopByHopHeaders_filter (headers : Fields) :
    removeHopByHopHeaders headers = List.filter (endToEnd headers) headers := by
  rw [removeHopByHopHeaders_eq, Fields.others]
  refine List.filter_congr (fun x _ => ?_)
  rw [List.any_append, endToEnd, isHopByHop_eq, namedByConnection_eq, Bool.not_or, Bool.and_comm]
  rfl

/-- Without Connection fields nothing but the fixed names is removed. -/
theorem namedByConnection_of_endToEnd {headers kept : Fields} (h : ∀ x ∈ kept, endToEnd headers x = true) (name : Str) :
    namedByConnection kept name = false := by
  have hnone : kept.values HeaderField.connection.text = [] := by
    rw [Fields.values, List.map_eq_nil_iff, Fields.all, List.filter_eq_nil_iff]
    intro x hx hconn
    have hhop : isHopByHop x.name = true := by
      rw [isHopByHop_eq]
      exact List.any_eq_true.2 ⟨_, List.mem_map.2 ⟨.connection, by decide, rfl⟩, hconn⟩
    have := h x hx
    rw [endToEnd, hhop] at this
    cases this
  rw [namedByConnection, hnone]
  rfl

/-- **Whatever the Connection fields say, the tokenizer's loop ends on each of them, the fields that are kept are the
end-to-end ones, and a second call removes nothing.** -/
theorem removeHopByHopHeaders_exact (headers : Fields) :
    (∀ v ∈ headers.values HeaderField.connection.text, TokenRun v 0 (connectionTokens v)) ∧
    removeHopByHopHeaders headers =
      headers.filter (fun x => !isHopByHop x.name && !namedByConnection headers x.name) ∧
    removeHopByHopHeaders (removeHopByHopHeaders headers) = removeHopByHopHeaders headers := by
  refine ⟨fun v _ => tokenRun_connectionTokens v, removeHopByHopHeaders_filter headers, ?_⟩
  have hkept : ∀ x ∈ removeHopByHopHeaders headers, endToEnd headers x = true := by
    intro x hx
    rw [removeHopByHopHeaders_filter] at hx
    exact (List.mem_filter.1 hx).2
  rw [removeHopByHopHeaders_filter (removeHopByHopHeaders headers)]
  refine List.filter_eq_self.2 (fun x hx => ?_)
  have hx' := hkept x hx
  rw [endToEnd, Bool.and_eq_true] at hx'
  rw [endToEnd, hx'.1, namedByConnection_of_endToEnd hkept]
  rfl

/-! ## The request on the wire -/

/-- **The documentation of `prepare_payload` on a request with a body of known size.**  Content-Length is its size if
there is a body or the method asks for one, and goes otherwise; no transfer coding is asked for. -/
structure Beast.RequestFraming (B : Beast) : Prop where
  requestPayload_length : ∀ m v n (f : Fields), (B.requestPayload m v n f).values HeaderField.contentLength.text =
    if 0 < n ∨ m = .options ∨ m = .put ∨ m = .post then [decimal n] else []
  requestPayload_chunked : ∀ m v n (f : Fields), f.values HeaderField.transferEncoding.text = [] →
    (B.requestPayload m v n f).values HeaderField.transferEncoding.text = []

/-- The fields a forwarded request has of the proxy's own, or not at all. -/
def isRewritten (name : Str) : Bool :=
  iequals name HeaderField.host.text || iequals name HeaderField.contentLength.text || isHopByHop name

/-- **What a proxy sends to an upstream for a client's request.** -/
structure Forwarded (upstream : UpstreamEndpoint) (client wire : HttpRequest) : Prop where
  method : wire.method = client.method
  target : wire.target = client.target
  body : wire.body = client.body
  version : wire.version = 11
  host : wire.fields.values HeaderField.host.text = [upstreamHostHeader upstream]
  connection : wire.fields.values HeaderField.connection.text = ["close".toList]
  hopByHop : ∀ name : Str, isHopByHop name = true → iequals name HeaderField.connection.text = false →
    wire.fields.values name = []
  length : wire.fields.values HeaderField.contentLength.text = [decimal client.body.length] ∨
    client.body = [] ∧ wire.fields.values HeaderField.contentLength.text = []
  endToEnd : ∀ name : Str, isRewritten name = false → wire.fields.values name =
    if namedByConnection client.fields name then [] else client.fields.values name

theorem isHopByHop_congr {a b : Str} (h : iequals a b = true) : isHopByHop a = isHopByHop b := by
  unfold isHopByHop
  congr 1
  funext n
  exact iequals_trans_left h

theorem iequals_eq_false_of_isHopByHop {a b : Str} (h : isHopByHop a = !isHopByHop b) : iequals a b = false := by
  cases he : iequals a b with
  | false => rfl
  | true =>
    rw [isHopByHop_congr he] at h
    cases hb : isHopByHop b <;> rw [hb] at h <;> cases h

theorem namedByConnection_congr (headers : Fields) {a b : Str} (h : iequals a b = true) :
    namedByConnection headers a = namedByConnection headers b := by
  unfold namedByConnection
  congr 1
  funext v
  congr 1
  funext n
  exact iequals_trans_left h

/-- What is left of the fields of one name. -/
theorem all_removeHopByHopHeaders (headers : Fields) (name : Str) : (removeHopByHopHeaders headers).all name =
    if isHopByHop name || namedByConnection headers name then [] else headers.all name := by
  rw [removeHopByHopHeaders_filter]
  -- the fields of that name are all kept or all removed
  have hsame : ∀ x, Fields.named name x = true →
      endToEnd headers x = !(isHopByHop name || namedByConnection headers name) := by
    intro x hx
    rw [endToEnd, isHopByHop_congr hx, namedByConnection_congr headers hx, Bool.not_or]
  unfold Fields.all
  rw [List.filter_filter]
  split
  · rename_i hgone
    refine List.filter_eq_nil_iff.2 (fun x _ hx => ?_)
    rw [Bool.and_eq_true] at hx
    rw [hsame x hx.1, hgone] at hx
    exact absurd hx.2 (by decide)
  · rename_i hkept
    refine List.filter_congr (fun x _ => ?_)
    cases hx : Fields.named name x with
    | false => rfl
    | true => rw [hsame x hx, Bool.eq_false_iff.2 hkept]; rfl

namespace UpstreamProxy

variable {B : Beast}

/-- **A relayed response has the end-to-end fields the upstream sent**: those the Connection field does not name. -/
theorem all_relayed {p : UpstreamProxy} {raw m : HttpResponse} (h : (p.relayed B raw).preparePayload B = .ok m)
    (name : Str) (hname : isHopByHop name = false) (hlen : iequals name HeaderField.contentLength.text = false) :
    m.fields.all name = if namedByConnection raw.fields name then [] else raw.fields.all name := by
  have hconn : iequals name HeaderField.connection.text = false := iequals_eq_false_of_isHopByHop hname
  have hte : iequals name HeaderField.transferEncoding.text = false := iequals_eq_false_of_isHopByHop hname
  rw [HttpResponse.preparePayload_ok h]
  dsimp only
  rw [all_responsePayload B _ _ _ _ _ hlen hte, relayed, HttpResponse.setKeepAlive, all_setKeepAlive B _ _ _ _ hconn,
    all_removeHopByHopHeaders, hname, Bool.false_or]

/-- The rewriting leaves every field but Host and Connection as it is without the hop-by-hop ones. -/
theorem all_rewritten (upstream : UpstreamEndpoint) (request : HttpRequest) (name : Str)
    (hh : iequals name HeaderField.host.text = false) (hc : iequals name HeaderField.connection.text = false) :
    (rewritten B upstream request).fields.all name = (removeHopByHopHeaders request.fields).all name := by
  unfold rewritten
  rw [Fields.all_set_ne _ _ _ _ hc, all_setKeepAlive B _ _ _ _ hc, Fields.all_set_ne _ _ _ _ hh]

/-- **A field the proxy does not set itself goes on with all its values** if no Connection field names it. -/
theorem values_sent (upstream : UpstreamEndpoint) (request : HttpRequest) (name : Str) (hname : isRewritten name = false) :
    (sent B upstream request).fields.values name =
      if namedByConnection request.fields name then [] else request.fields.values name := by
  simp only [isRewritten, Bool.or_eq_false_iff] at hname
  obtain ⟨⟨hhost, hlen⟩, hhop⟩ := hname
  have hconn : iequals name HeaderField.connection.text = false := iequals_eq_false_of_isHopByHop hhop
  have hte : iequals name HeaderField.transferEncoding.text = false := iequals_eq_false_of_isHopByHop hhop
  unfold sent Fields.values
  rw [all_requestPayload B _ _ _ _ _ hlen hte, all_rewritten upstream request name hhost hconn,
    all_removeHopByHopHeaders, hhop, Bool.false_or]
  split <;> rfl

theorem has_of_has_sent (upstream : UpstreamEndpoint) (request : HttpRequest) (name : Str)
    (hname : isRewritten name = false) (h : (sent B upstream request).fields.has name = true) :
    request.fields.has name = true := by
  rw [Fields.has_iff_values, values_sent upstream request name hname] at h
  rw [Fields.has_iff_values]
  split at h
  · exact absurd rfl h
  · exact h

/-- **The request on the wire is the client's, forwarded**, whatever its Connection fields name. -/
theorem forwarded_sent (hB : B.RequestFraming) (upstream : UpstreamEndpoint) (request : HttpRequest) :
    Forwarded upstream request (sent B upstream request) where
  method := rfl
  target := rfl
  body := rfl
  version := rfl
  host := by
    unfold sent Fields.values
    rw [all_requestPayload B _ _ _ _ _ (by decide) (by decide)]
    unfold rewritten
    rw [Fields.all_set_ne _ _ _ _ (by decide), all_setKeepAlive B _ _ _ _ (by decide), Fields.all_set_self]
    rfl
  connection := by
    unfold sent Fields.values
    rw [all_requestPayload B _ _ _ _ _ (by decide) (by decide)]
    unfold rewritten
    rw [Fields.all_set_self]
    rfl
  hopByHop := fun name hname hconn => by
    have hhost : iequals name HeaderField.host.text = false := iequals_eq_false_of_isHopByHop hname
    have hlen : iequals name HeaderField.contentLength.text = false := iequals_eq_false_of_isHopByHop hname
    have hrewritten : (rewritten B upstream request).fields.all name = [] := by
      rw [all_rewritten upstream request name hhost hconn, all_removeHopByHopHeaders, hname]; rfl
    unfold sent
    by_cases hte : iequals name HeaderField.transferEncoding.text = true
    · -- the only one `prepare_payload` may touch
      rw [Fields.all_congr hte] at hrewritten
      rw [Fields.values, Fields.all_congr hte]
      exact hB.requestPayload_chunked _ _ _ _ (by rw [Fields.values, hrewritten]; rfl)
    · rw [Fields.values, all_requestPayload B _ _ _ _ _ hlen (Bool.eq_false_iff.2 hte), hrewritten]
      rfl
  length := by
    unfold sent
    rw [hB.requestPayload_length]
    split
    · exact .inl rfl
    · rename_i h
      refine .inr ⟨?_, rfl⟩
      rw [not_or, Nat.not_lt, Nat.le_zero, List.length_eq_zero_iff] at h
      exact h.1
  endToEnd := values_sent upstream request

end UpstreamProxy

theorem ReferenceBeast.requestFraming : referenceBeast.RequestFraming where
  requestPayload_length := fun m v n f => by
    show (withLength _ n f).values _ = _
    unfold withLength
    by_cases h : 0 < n ∨ m = .options ∨ m = .put ∨ m = .post
    · rw [if_pos h, if_pos (decide_eq_true h), Fields.values, Fields.all_set_self]
      rfl
    · rw [if_neg h, if_neg (by rw [decide_eq_true_eq]; exact h), Fields.values, Fields.all_erase_self]
      rfl
  requestPayload_chunked := fun m v n f _ => by
    have hte : (f.erase HeaderField.transferEncoding.text).all HeaderField.transferEncoding.text = [] :=
      Fields.all_erase_self _ _
    show (withLength _ n f).values _ = _
    unfold withLength Fields.values
    dsimp only
    split
    · rw [Fields.all_set_ne _ _ _ _ (by decide), hte]; rfl
    · rw [Fields.all_erase_ne _ _ _ (by decide), hte]; rfl

namespace UpstreamProxy

/-- **What `run` writes upstream**: for every request `prepare_payload` takes, the client's request, forwarded. -/
theorem run_forwards {B : Beast} (hB : B.RequestFraming) (p : UpstreamProxy) (wire : HttpRequest)
    (h : (rewritten B p.upstream p.request).preparePayload B = .ok wire) :
    (∃ q, p.run B = .ok q ∧ q.request = wire) ∧ Forwarded p.upstream p.request wire := by
  have hrun : p.run B = .ok { p with request := wire, outstanding := .resolve :: p.outstanding } := by
    unfold run
    rw [h]
    rfl
  refine ⟨⟨_, hrun, rfl⟩, ?_⟩
  have hwire : wire = sent B p.upstream p.request := congrArg UpstreamProxy.request (run_ok B _ _ hrun)
  rw [hwire]
  exact forwarded_sent hB p.upstream p.request

/-- A request whose Connection fields name its own framing and routing fields. -/
def selfNaming : HttpRequest :=
  ⟨.post, "/x".toList, 10, [⟨"Host".toList, "edge".toList⟩, ⟨"connection".toList, "Host, ,Content-Length".toList⟩,
    ⟨"Content-Length".toList, "7".toList⟩, ⟨"Transfer-Encoding".toList, "chunked".toList⟩, ⟨"X-A".toList, "1".toList⟩,
    ⟨"Connection".toList, "\tx-a,transfer-encoding,".toList⟩, ⟨"X-B".toList, "2".toList⟩, ⟨"x-b".toList, "3".toList⟩],
    "ab".toList⟩

theorem run_forwards_selfNaming : ∃ wire,
    (rewritten referenceBeast ⟨"::1".toList, 9000⟩ selfNaming).preparePayload referenceBeast = .ok wire ∧
    wire.fields.values "X-B".toList = ["2".toList, "3".toList] ∧ wire.fields.values "X-A".toList = [] ∧
    Forwarded ⟨"::1".toList, 9000⟩ selfNaming wire := by
  refine ⟨_, rfl, by decide, by decide, ?_⟩
  exact (run_forwards ReferenceBeast.requestFraming
    (make referenceBeast ⟨"::1".toList, 9000⟩ selfNaming (.direct 0) ⟨.direct 0, 0, selfNaming, 0⟩) _ rfl).2

end UpstreamProxy
end EventEdge
