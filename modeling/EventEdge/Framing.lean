import EventEdge.Proxy
import EventEdge.ReferenceBeast
/-!
# Framing — where a message ends

`Beast.Framing` is the library's documentation of `keep_alive`, `prepare_payload` and `need_eof` for bodies of known
size.  `Sized` says that a response has exactly one Content-Length, equal to its body's, and no Transfer-Encoding;
`Framed` adds the version and the persistence of the request it answers.  Every response the server makes is framed for
the request it is made from, every response a proxy hands over is sized, whatever the upstream sent
(`UpstreamProxy.handle_sized`), and setting version and `keep_alive` again frames a sized one for another request.
-/
namespace EventEdge

/-- `std::to_string` of a size. -/
def decimal (n : Nat) : Str := (Nat.repr n).toList

/-- A number in decimal digits, read back. -/
def ofDecimal (s : Str) : Option Nat := if s ≠ [] ∧ s.all Char.isDigit then some (Nat.ofDigitChars 10 s 0) else none

theorem ofDecimal_decimal (n : Nat) : ofDecimal (decimal n) = some n := by
  have hd : decimal n = Nat.toDigits 10 n := by rw [decimal, Nat.repr_eq_ofList_toDigits, String.toList_ofList]
  have hall : (Nat.toDigits 10 n).all Char.isDigit = true :=
    List.all_eq_true.2 (fun c hc => Nat.isDigit_of_mem_toDigits (by decide) (by decide) hc)
  rw [ofDecimal, hd, if_pos ⟨Nat.toDigits_ne_nil, hall⟩, Nat.ofDigitChars_ten_toDigits]

namespace Fields

/-- Every field of that name. -/
def all (f : Fields) (name : Str) : Fields := List.filter (named name) f

/-- The values of every field of that name. -/
def values (f : Fields) (name : Str) : List Str := (f.all name).map Field.value

theorem has_eq (f : Fields) (name : Str) : f.has name = !(f.all name).isEmpty := by
  rw [Bool.eq_iff_iff, has_iff, Bool.not_eq_true', List.isEmpty_eq_false_iff, ne_eq, all, List.filter_eq_nil_iff]
  constructor
  · rintro ⟨x, hx, hn⟩ h; exact h x hx hn
  · intro h; simpa using h

theorem has_iff_values (f : Fields) (name : Str) : f.has name = true ↔ f.values name ≠ [] := by
  rw [has_eq, Bool.not_eq_true', List.isEmpty_eq_false_iff, values, ne_eq, ne_eq, List.map_eq_nil_iff]

theorem value_eq (f : Fields) (name : Str) : f.value name = (f.values name).head?.getD [] := by
  rw [value, values, all, List.head?_map, List.head?_filter]
  rfl

theorem all_others (names : List Str) (name : Str) (hn : ∀ n ∈ names, iequals name n = false) (f : Fields) :
    (f.others names).all name = f.all name := by
  unfold all others
  rw [List.filter_filter]
  refine List.filter_congr (fun x _ => ?_)
  cases hx : named name x with
  | false => rfl
  | true =>
    have hnone : names.any (fun n => named n x) = false := by
      rw [List.any_eq_false]
      intro n hm
      unfold named at hx ⊢
      rw [iequals_trans_left hx, hn n hm]
      exact Bool.false_ne_true
    rw [hnone]; rfl

theorem all_others_self (names : List Str) (name : Str) (hm : name ∈ names) (f : Fields) :
    (f.others names).all name = [] := by
  refine List.filter_eq_nil_iff.2 (fun x hx hn => ?_)
  have hany : names.any (fun n => named n x) = true := List.any_eq_true.2 ⟨name, hm, hn⟩
  have hnot := (List.mem_filter.1 hx).2
  rw [hany] at hnot
  cases hnot

/-- What leaves the fields of other names alone leaves those of any one other name. -/
theorem all_of_others {names : List Str} {f g : Fields} (h : f.others names = g.others names) {name : Str}
    (hn : ∀ n ∈ names, iequals name n = false) : f.all name = g.all name := by
  rw [← all_others names name hn f, h, all_others names name hn g]

theorem all_set_ne (f : Fields) (n v name : Str) (h : iequals name n = false) : (f.set n v).all name = f.all name :=
  all_of_others (others_set [n] n v List.mem_cons_self f) (List.forall_mem_singleton.2 h)

theorem all_erase_ne (f : Fields) (n name : Str) (h : iequals name n = false) : (f.erase n).all name = f.all name :=
  all_of_others (others_erase [n] n List.mem_cons_self f) (List.forall_mem_singleton.2 h)

theorem all_erase_self (f : Fields) (name : Str) : (f.erase name).all name = [] := by
  refine List.filter_eq_nil_iff.2 (fun x hx hn => ?_)
  have hnot := (List.mem_filter.1 hx).2
  rw [hn] at hnot
  cases hnot

theorem all_set_self (f : Fields) (name v : Str) : (f.set name v).all name = [⟨name, v⟩] := by
  have herase := all_erase_self f name
  unfold set all at *
  rw [List.filter_append, herase]
  simp [named]

theorem all_congr {f : Fields} {a b : Str} (h : iequals a b = true) : f.all a = f.all b := by
  unfold all
  congr 1
  funext x
  rw [iequals, decide_eq_true_eq] at h
  rw [named, named, iequals, iequals, h]

theorem others_eq_foldl_erase : ∀ (names : List Str) (f : Fields), names.foldl Fields.erase f = f.others names
  | [], f => (List.filter_eq_self.2 (fun _ _ => rfl)).symm
  | n :: names, f => by
    rw [List.foldl_cons, others_eq_foldl_erase names]
    unfold others erase
    rw [List.filter_filter]
    refine List.filter_congr (fun x _ => ?_)
    rw [List.any_cons, Bool.not_or, Bool.and_comm]

end Fields

/-! ## What Beast does -/

/-- **The documentation of `keep_alive`, `prepare_payload` and `need_eof`.**  `keep_alive` reads the Connection field;
`prepare_payload` on a response with a body of known size sets Content-Length to it and asks for no chunked coding;
where a Content-Length tells the end of the body, `need_eof` says whether the connection is to be closed after it. -/
structure Beast.Framing (B : Beast) : Prop where
  keepAlive_connection : ∀ v (f : Fields), B.keepAlive v (f.all HeaderField.connection.text) = B.keepAlive v f
  responsePayload_length : ∀ r v n (f : Fields),
    (B.responsePayload r v n f).values HeaderField.contentLength.text = [decimal n]
  responsePayload_chunked : ∀ r v n (f : Fields), f.has HeaderField.transferEncoding.text = false →
    (B.responsePayload r v n f).has HeaderField.transferEncoding.text = false
  needEof_length : ∀ r v (f : Fields), f.has HeaderField.contentLength.text = true →
    B.needEof r v f = !B.keepAlive v f

/-! ## Sized and framed -/

structure HttpResponse.Sized (m : HttpResponse) : Prop where
  length : m.fields.values HeaderField.contentLength.text = [decimal m.body.length]
  unchunked : m.fields.has HeaderField.transferEncoding.text = false

structure HttpResponse.Framed (B : Beast) (request : HttpRequest) (m : HttpResponse) : Prop extends Sized m where
  version : m.version = request.version
  keepAlive : B.keepAlive m.version m.fields = request.keepAlive B

variable {B : Beast} {m m' : HttpResponse} {request : HttpRequest}

theorem HttpResponse.Sized.has_length (h : m.Sized) : m.fields.has HeaderField.contentLength.text = true := by
  rw [Fields.has_eq, Bool.not_eq_true', List.isEmpty_eq_false_iff]
  intro hnil
  have := h.length
  rw [Fields.values, hnil] at this
  cases this

/-- Only what the framing fields say matters. -/
theorem HttpResponse.Sized.congr (h : m.Sized) (hb : m'.body = m.body)
    (hl : m'.fields.all HeaderField.contentLength.text = m.fields.all HeaderField.contentLength.text)
    (ht : m'.fields.all HeaderField.transferEncoding.text = m.fields.all HeaderField.transferEncoding.text) :
    m'.Sized := by
  refine ⟨?_, ?_⟩
  · rw [Fields.values, hl, hb]; exact h.length
  · rw [Fields.has_eq, ht, ← Fields.has_eq]; exact h.unchunked

theorem all_setKeepAlive (B : Beast) (v : Nat) (b : Bool) (f : Fields) (name : Str)
    (hn : iequals name HeaderField.connection.text = false) : (B.setKeepAlive v b f).all name = f.all name :=
  Fields.all_of_others (B.setKeepAlive_others v b f) (List.forall_mem_singleton.2 hn)

theorem all_responsePayload (B : Beast) (r v n : Nat) (f : Fields) (name : Str)
    (hl : iequals name HeaderField.contentLength.text = false)
    (ht : iequals name HeaderField.transferEncoding.text = false) :
    (B.responsePayload r v n f).all name = f.all name :=
  Fields.all_of_others (B.responsePayload_others r v n f)
    (List.forall_mem_cons.2 ⟨hl, List.forall_mem_singleton.2 ht⟩)

theorem all_requestPayload (B : Beast) (m : Verb) (v n : Nat) (f : Fields) (name : Str)
    (hl : iequals name HeaderField.contentLength.text = false)
    (ht : iequals name HeaderField.transferEncoding.text = false) :
    (B.requestPayload m v n f).all name = f.all name :=
  Fields.all_of_others (B.requestPayload_others m v n f)
    (List.forall_mem_cons.2 ⟨hl, List.forall_mem_singleton.2 ht⟩)

/-- `version(v)` and `keep_alive(b)` leave the size alone. -/
theorem HttpResponse.Sized.setKeepAlive (h : m.Sized) (b : Bool) (v : Nat) :
    (HttpResponse.setKeepAlive B b { m with version := v }).Sized :=
  h.congr rfl (all_setKeepAlive B _ b _ _ (by decide)) (all_setKeepAlive B _ b _ _ (by decide))

/-- **A sized response is framed for a request by its version and its `keep_alive`.** -/
theorem HttpResponse.Sized.framed (h : m.Sized) (B : Beast) (request : HttpRequest) :
    (HttpResponse.setKeepAlive B (request.keepAlive B) { m with version := request.version }).Framed B request :=
  ⟨h.setKeepAlive _ _, rfl, B.keepAlive_setKeepAlive _ _ _⟩

theorem HttpResponse.preparePayload_ok (h : m.preparePayload B = .ok m') :
    m' = { m with fields := B.responsePayload m.result m.version m.body.length m.fields } := by
  unfold HttpResponse.preparePayload at h
  split at h
  · cases h
  · cases h; rfl

/-- **`prepare_payload` sizes a response**, and leaves its version and persistence. -/
theorem Beast.Framing.sized (hB : B.Framing) (h : m.preparePayload B = .ok m')
    (ht : m.fields.has HeaderField.transferEncoding.text = false) :
    m'.Sized ∧ m'.version = m.version ∧ B.keepAlive m'.version m'.fields = B.keepAlive m.version m.fields := by
  rw [HttpResponse.preparePayload_ok h]
  refine ⟨⟨hB.responsePayload_length _ _ _ _, hB.responsePayload_chunked _ _ _ _ ht⟩, rfl, ?_⟩
  dsimp only
  rw [← hB.keepAlive_connection, all_responsePayload B _ _ _ _ _ (by decide) (by decide), hB.keepAlive_connection]

/-- **After a framed response the connection is closed exactly if the request did not ask for `keep_alive`.** -/
theorem HttpResponse.Framed.needEof (hB : B.Framing) (h : m.Framed B request) :
    m.needEof B = !request.keepAlive B := by
  rw [HttpResponse.needEof, hB.needEof_length _ _ _ h.has_length, h.keepAlive]

/-! ## What follows the header on the wire -/

/-- `chunked()`: the last coding of the Transfer-Encoding field. -/
def Fields.chunked (f : Fields) : Bool :=
  ((connectionTokens (f.value HeaderField.transferEncoding.text)).getLast?.map (iequals "chunked".toList)).getD false

/-- One chunk and the closing one. -/
def chunkCoded (body : Str) : Str :=
  Nat.toDigits 16 body.length ++ "\r\n".toList ++ body ++ "\r\n0\r\n\r\n".toList

/-- The octets `async_write` sends after the header. -/
def HttpResponse.bodyOctets (m : HttpResponse) : Str := if m.fields.chunked then chunkCoded m.body else m.body

theorem HttpResponse.Sized.bodyOctets_eq (h : m.Sized) : m.bodyOctets = m.body := by
  have hv : m.fields.value HeaderField.transferEncoding.text = [] := by
    have := h.unchunked
    rw [Fields.has, Option.isSome_eq_false_iff, Option.isNone_iff_eq_none] at this
    rw [Fields.value, this]; rfl
  rw [HttpResponse.bodyOctets, Fields.chunked, hv, if_neg]
  decide

/-! ## The responses the server makes -/

/-- A message made from nothing but fields of its own, with the request's version and `keep_alive`. -/
theorem Beast.Framing.framed_draft (hB : B.Framing) {fields : Fields} {result : Nat} {body : Str}
    (ht : fields.has HeaderField.transferEncoding.text = false)
    (h : HttpResponse.preparePayload B
      { HttpResponse.setKeepAlive B (request.keepAlive B) ⟨result, request.version, fields, []⟩ with body := body } =
        .ok m) : m.Framed B request := by
  have hte : (B.setKeepAlive request.version (request.keepAlive B) fields).has HeaderField.transferEncoding.text =
      false := by
    rw [Fields.has_eq, all_setKeepAlive B _ _ _ _ (by decide), ← Fields.has_eq]; exact ht
  obtain ⟨hs, hv, hk⟩ := hB.sized h hte
  exact ⟨hs, hv, hk.trans (B.keepAlive_setKeepAlive _ _ _)⟩

theorem Beast.Framing.makeResponse (hB : B.Framing) {status : Status} {contentType body : Str}
    (h : makeResponse B request status contentType body = .ok m) : m.Framed B request := by
  refine hB.framed_draft ?_ h
  rw [Fields.has_eq, Fields.all_set_ne _ _ _ _ (by decide), Fields.all_set_ne _ _ _ _ (by decide)]
  rfl

theorem Beast.Framing.unavailableResponse (hB : B.Framing) (request : HttpRequest) :
    (EventEdge.unavailableResponse B request).Framed B request :=
  hB.makeResponse (makeServiceUnavailableResponse_ok B request)

/-- One more field of the server's own changes nothing. -/
theorem HttpResponse.Framed.set (hB : B.Framing) (h : m.Framed B request) (name v : Str)
    (hl : iequals HeaderField.contentLength.text name = false)
    (ht : iequals HeaderField.transferEncoding.text name = false)
    (hc : iequals HeaderField.connection.text name = false) :
    HttpResponse.Framed B request { m with fields := m.fields.set name v } := by
  refine ⟨h.congr rfl (Fields.all_set_ne _ _ _ _ hl) (Fields.all_set_ne _ _ _ _ ht), h.version, ?_⟩
  rw [← h.keepAlive, ← hB.keepAlive_connection, Fields.all_set_ne _ _ _ _ hc, hB.keepAlive_connection]

theorem Beast.Framing.handleRequest (hB : B.Framing) (h : handleRequest B request = .ok m) : m.Framed B request := by
  unfold EventEdge.handleRequest at h
  split at h
  · rw [makeResponse_ok] at h
    cases h
    exact (hB.makeResponse (makeResponse_ok B _ _ _ _)).set hB _ _ (by decide) (by decide) (by decide)
  · split at h
    · exact hB.makeResponse h
    · exact hB.makeResponse h

/-! ## The responses a proxy hands over -/

/-- The names in the Connection fields. -/
def connectionOptions (headers : Fields) : List Str :=
  (headers.all HeaderField.connection.text).flatMap (fun x => connectionTokens x.value)

/-- **Removing the hop-by-hop headers keeps the other fields, in order.** -/
theorem removeHopByHopHeaders_eq (headers : Fields) :
    removeHopByHopHeaders headers = headers.others (connectionOptions headers ++ hopByHop.map HeaderField.text) := by
  rw [← Fields.others_eq_foldl_erase, List.foldl_append, List.foldl_map]
  rfl

theorem removeHopByHopHeaders_unchunked (headers : Fields) :
    (removeHopByHopHeaders headers).has HeaderField.transferEncoding.text = false := by
  rw [removeHopByHopHeaders_eq, Fields.has_eq, Fields.all_others_self]
  · rfl
  · exact List.mem_append_right _ (List.mem_map.2 ⟨.transferEncoding, by decide, rfl⟩)

namespace UpstreamProxy

theorem onRead_sized (hB : B.Framing) {p : UpstreamProxy} (h : (p.relayed B m).preparePayload B = .ok m') : m'.Sized := by
  refine (hB.sized h ?_).1
  unfold relayed HttpResponse.setKeepAlive
  rw [Fields.has_eq, all_setKeepAlive B _ _ _ _ (by decide), ← Fields.has_eq]
  exact removeHopByHopHeaders_unchunked _

theorem fail_sized (hB : B.Framing) {p q : UpstreamProxy} {e : OpError} {h : CompletionHandler}
    (hf : p.fail B e = .ok (q, some (h, m))) : m.Sized := by
  unfold fail at hf
  split at hf
  · cases hf
  · cases e with
    | timeout =>
      simp only [makeGatewayTimeoutResponse, makeResponse_ok] at hf
      rw [complete_some (Except.ok.inj hf)]
      exact (hB.makeResponse (makeResponse_ok B _ _ _ _)).toSized
    | other =>
      simp only [makeBadGatewayResponse, makeResponse_ok] at hf
      rw [complete_some (Except.ok.inj hf)]
      exact (hB.makeResponse (makeResponse_ok B _ _ _ _)).toSized

/-- What `on_read` hands over is the upstream's message, prepared. -/
theorem onRead_some {p q : UpstreamProxy} {h : CompletionHandler} {raw : HttpResponse}
    (hh : p.onRead B raw = .ok (q, some (h, m))) : (p.relayed B raw).preparePayload B = .ok m := by
  unfold onRead at hh
  cases hp : (p.relayed B raw).preparePayload B with
  | error e => rw [hp] at hh; cases hh
  | ok r =>
    rw [hp] at hh
    rw [complete_some (Except.ok.inj hh)]

/-- **Whatever a proxy hands over is sized**: the upstream's message, chunked, of given length or up to the end of the
connection, and the server's own 502 and 504. -/
theorem handle_sized (hB : B.Framing) {timeouts : ProxyTimeouts} {now : Int} {p q : UpstreamProxy} {ev : ProxyEvent}
    {h : CompletionHandler} (hh : p.handle B timeouts now ev = .ok (q, some (h, m))) : m.Sized := by
  match ev with
  | .resolved (some _) | .connected (some _) | .wrote (some _) | .read (.error _) => exact fail_sized hB hh
  | .resolved none | .connected none | .wrote none => cases hh
  | .read (.ok raw) => exact onRead_sized hB (onRead_some hh)

end UpstreamProxy

/-! ## The documentation can be met -/

namespace ReferenceBeast

theorem value_all (f : Fields) (name : Str) : (f.all name).value name = f.value name := by
  rw [Fields.value_eq, Fields.value_eq, Fields.values, Fields.all, Fields.all, List.filter_filter]
  simp [Fields.values, Fields.all]

theorem framing : referenceBeast.Framing where
  keepAlive_connection := fun v f => by
    show keepAlive v _ = keepAlive v f
    unfold keepAlive
    rw [value_all]
  responsePayload_length := fun r v n f => by
    show (Fields.set _ _ _).values _ = _
    rw [Fields.values, Fields.all_set_self]
    rfl
  responsePayload_chunked := fun r v n f _ => by
    show (Fields.set _ _ _).has _ = false
    rw [Fields.has_eq, Fields.all_set_ne _ _ _ _ (by decide), ← Fields.has_eq, Fields.has, Fields.find_erase_self]
    rfl
  needEof_length := fun r v f h => by
    show needEof r v f = !keepAlive v f
    unfold needEof
    rw [h]
    simp

end ReferenceBeast
end EventEdge
