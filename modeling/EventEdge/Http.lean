import Mathlib.Data.List.Basic
/-!
# Http — messages, header fields, and what Beast does with them

`HttpRequest` and `HttpResponse` (`http_handler.hpp`) are Beast messages with a string body.  A header container is
the list of its fields in order; `find`, `value` (the container's `operator[]`), `erase` and `set` follow the
container's reference: names compare without case, `find` and `value` read the first match, `erase` drops every match,
`set` drops every match and adds the field last.

What the message operations do to the framing fields is Beast's, not this repository's: `Beast` takes `keep_alive`,
`prepare_payload` and `need_eof` as parameters, with what the code relies on.
-/
namespace EventEdge

/-- A byte string, one character a byte. -/
abbrev Str := List Char

/-- `beast::iequals`. -/
def iequals (a b : Str) : Bool := decide (a.map Char.toLower = b.map Char.toLower)

@[simp] theorem iequals_self (a : Str) : iequals a a = true := by simp [iequals]

theorem iequals_trans_left {a b c : Str} (h : iequals a b = true) : iequals a c = iequals b c := by
  simp only [iequals, decide_eq_true_eq] at h
  simp only [iequals, h]

/-- The members of `http::field` the code names, and the Range and the conditional ones, which it forwards. -/
inductive HeaderField where
  | allow | authorization | cacheControl | connection | contentLength | contentType | host
  | ifMatch | ifModifiedSince | ifNoneMatch | ifRange | ifUnmodifiedSince
  | keepAlive | proxyAuthenticate | proxyAuthorization | range | server | setCookie
  | te | trailer | transferEncoding | upgrade
  deriving DecidableEq, Repr

/-- `http::to_string(field)`. -/
def HeaderField.text : HeaderField → Str
  | .allow => "Allow".toList
  | .authorization => "Authorization".toList
  | .cacheControl => "Cache-Control".toList
  | .connection => "Connection".toList
  | .contentLength => "Content-Length".toList
  | .contentType => "Content-Type".toList
  | .host => "Host".toList
  | .ifMatch => "If-Match".toList
  | .ifModifiedSince => "If-Modified-Since".toList
  | .ifNoneMatch => "If-None-Match".toList
  | .ifRange => "If-Range".toList
  | .ifUnmodifiedSince => "If-Unmodified-Since".toList
  | .keepAlive => "Keep-Alive".toList
  | .proxyAuthenticate => "Proxy-Authenticate".toList
  | .proxyAuthorization => "Proxy-Authorization".toList
  | .range => "Range".toList
  | .server => "Server".toList
  | .setCookie => "Set-Cookie".toList
  | .te => "TE".toList
  | .trailer => "Trailer".toList
  | .transferEncoding => "Transfer-Encoding".toList
  | .upgrade => "Upgrade".toList

/-- One header field. -/
structure Field where
  name : Str
  value : Str
  deriving DecidableEq, Repr

/-- `http::fields`, in the order of the container. -/
abbrev Fields := List Field

namespace Fields

/-- Whether a field bears the name. -/
def named (name : Str) (x : Field) : Bool := iequals x.name name

/-- `find(name)`: the first field of that name. -/
def find (f : Fields) (name : Str) : Option Field := List.find? (named name) f

/-- `find(name) != end()`. -/
def has (f : Fields) (name : Str) : Bool := (f.find name).isSome

/-- `operator[](name)`: the first field's value, empty without one. -/
def value (f : Fields) (name : Str) : Str := ((f.find name).map Field.value).getD []

/-- `erase(name)`: every field of that name goes. -/
def erase (f : Fields) (name : Str) : Fields := List.filter (fun x => !named name x) f

/-- `set(name, value)`. -/
def set (f : Fields) (name v : Str) : Fields := f.erase name ++ [⟨name, v⟩]

theorem has_iff (f : Fields) (name : Str) : f.has name = true ↔ ∃ x ∈ f, named name x = true := by
  unfold has find
  rw [List.find?_isSome]

/-- The fields of no name in the list. -/
def others (names : List Str) (f : Fields) : Fields := List.filter (fun x => !names.any (fun n => named n x)) f

theorem others_erase (names : List Str) (name : Str) (hm : name ∈ names) (f : Fields) :
    (f.erase name).others names = f.others names := by
  unfold others erase
  rw [List.filter_filter]
  apply List.filter_congr
  intro x _
  cases hx : named name x with
  | false => simp
  | true =>
    have : names.any (fun n => named n x) = true := List.any_eq_true.2 ⟨name, hm, hx⟩
    simp [this]

theorem others_set (names : List Str) (name v : Str) (hm : name ∈ names) (f : Fields) :
    (f.set name v).others names = f.others names := by
  unfold set
  rw [others, List.filter_append, ← others, others_erase names name hm]
  have : names.any (fun n => named n ⟨name, v⟩) = true := List.any_eq_true.2 ⟨name, hm, by simp [named]⟩
  simp [this]

end Fields

/-- The request methods the code or the library tells apart. -/
inductive Verb where
  | get | head | post | put | delete | options | trace | connect | patch
  | other (name : Str)
  deriving DecidableEq, Repr

/-- `http::request<http::string_body>`. -/
structure HttpRequest where
  method : Verb
  target : Str
  version : Nat
  fields : Fields
  body : Str
  deriving DecidableEq, Repr

/-- A default-constructed request, as `request_ = {}` leaves it. -/
def HttpRequest.empty : HttpRequest := ⟨.other [], [], 11, [], []⟩

/-- `http::response<http::string_body>`; `result` is `result_int()`. -/
structure HttpResponse where
  result : Nat
  version : Nat
  fields : Fields
  body : Str
  deriving DecidableEq, Repr

/-- An exception a handler lets out. -/
inductive Thrown where
  | invalidArgument
  deriving DecidableEq, Repr

/-- A response of this status has no body: 1xx, 204 and 304. -/
def bodiless (result : Nat) : Bool := result / 100 == 1 || result == 204 || result == 304

/-- **The Beast operations on the framing fields, and what the code relies on.**  `keepAlive` and `setKeepAlive` are
the two `keep_alive` members at a version; `requestPayload` and `responsePayload` the fields `prepare_payload` leaves
when it does not throw; `needEof` is `need_eof` of a response. -/
structure Beast where
  keepAlive : (version : Nat) → Fields → Bool
  setKeepAlive : (version : Nat) → Bool → Fields → Fields
  requestPayload : Verb → (version bodySize : Nat) → Fields → Fields
  responsePayload : (result version bodySize : Nat) → Fields → Fields
  needEof : (result version : Nat) → Fields → Bool
  /-- `keep_alive(bool)` works on the Connection field alone. -/
  setKeepAlive_others : ∀ v b (f : Fields),
    (setKeepAlive v b f).others [HeaderField.connection.text] = f.others [HeaderField.connection.text]
  /-- `keep_alive()` reads back what `keep_alive(bool)` set. -/
  keepAlive_setKeepAlive : ∀ v b (f : Fields), keepAlive v (setKeepAlive v b f) = b
  /-- `prepare_payload` works on the Content-Length and Transfer-Encoding fields alone. -/
  requestPayload_others : ∀ m v n (f : Fields),
    (requestPayload m v n f).others [HeaderField.contentLength.text, HeaderField.transferEncoding.text] =
      f.others [HeaderField.contentLength.text, HeaderField.transferEncoding.text]
  responsePayload_others : ∀ r v n (f : Fields),
    (responsePayload r v n f).others [HeaderField.contentLength.text, HeaderField.transferEncoding.text] =
      f.others [HeaderField.contentLength.text, HeaderField.transferEncoding.text]

variable (B : Beast)

/-- `request.keep_alive()`. -/
def HttpRequest.keepAlive (r : HttpRequest) : Bool := B.keepAlive r.version r.fields

/-- `request.prepare_payload()`: a TRACE request may have no body. -/
def HttpRequest.preparePayload (r : HttpRequest) : Except Thrown HttpRequest :=
  if r.method = .trace ∧ r.body ≠ [] then .error .invalidArgument
  else .ok { r with fields := B.requestPayload r.method r.version r.body.length r.fields }

/-- `response.keep_alive(b)`. -/
def HttpResponse.setKeepAlive (b : Bool) (r : HttpResponse) : HttpResponse :=
  { r with fields := B.setKeepAlive r.version b r.fields }

/-- `response.prepare_payload()`: a 1xx, 204 or 304 response may have no body. -/
def HttpResponse.preparePayload (r : HttpResponse) : Except Thrown HttpResponse :=
  if bodiless r.result = true ∧ r.body ≠ [] then .error .invalidArgument
  else .ok { r with fields := B.responsePayload r.result r.version r.body.length r.fields }

/-- `response.need_eof()`. -/
def HttpResponse.needEof (r : HttpResponse) : Bool := B.needEof r.result r.version r.fields

/-- **Equal up to the version and the Connection field.** -/
def HttpResponse.SameContent (r r₀ : HttpResponse) : Prop :=
  r.result = r₀.result ∧ r.body = r₀.body ∧
    r.fields.others [HeaderField.connection.text] = r₀.fields.others [HeaderField.connection.text]

theorem HttpResponse.SameContent.refl (r : HttpResponse) : r.SameContent r := ⟨rfl, rfl, rfl⟩

end EventEdge
