import EventEdge.Http
/-!
# ReferenceBeast — the assumptions on Beast can be met

`referenceBeast` follows the library's documentation for messages whose Connection field is one token: `keep_alive`
reads and writes "keep-alive" below HTTP/1.1 and "close" from there on, `prepare_payload` sets Content-Length (and drops
it on a request that needs none) and drops Transfer-Encoding, `need_eof` asks for the end of the stream where no field
tells the end of the body.
-/
namespace EventEdge
namespace Fields

theorem find_append (f g : Fields) (name : Str) : Fields.find (f ++ g) name = (f.find name).or (g.find name) :=
  List.find?_append

theorem find_erase_self (f : Fields) (name : Str) : (f.erase name).find name = none := by
  unfold find erase
  rw [List.find?_eq_none]
  intro x hx
  have := (List.mem_filter.1 hx).2
  simpa using this

theorem value_erase_self (f : Fields) (name : Str) : (f.erase name).value name = [] := by
  rw [value, find_erase_self]; rfl

theorem value_set_self (f : Fields) (name v : Str) : (f.set name v).value name = v := by
  unfold value set
  rw [find_append, find_erase_self]
  simp [find, named]

end Fields

namespace ReferenceBeast

def keepAlive (version : Nat) (f : Fields) : Bool :=
  if version < 11 then iequals (f.value HeaderField.connection.text) "keep-alive".toList
  else !iequals (f.value HeaderField.connection.text) "close".toList

def setKeepAlive (version : Nat) (b : Bool) (f : Fields) : Fields :=
  if version < 11 then
    if b then f.set HeaderField.connection.text "keep-alive".toList else f.erase HeaderField.connection.text
  else
    if b then f.erase HeaderField.connection.text else f.set HeaderField.connection.text "close".toList

/-- The framing fields for a body of known length. -/
def withLength (known : Bool) (bodySize : Nat) (f : Fields) : Fields :=
  let f := f.erase HeaderField.transferEncoding.text
  if known then f.set HeaderField.contentLength.text (Nat.repr bodySize).toList else f.erase HeaderField.contentLength.text

def requestPayload (method : Verb) (_version bodySize : Nat) (f : Fields) : Fields :=
  withLength (decide (0 < bodySize ∨ method = .options ∨ method = .put ∨ method = .post)) bodySize f

def responsePayload (_result _version bodySize : Nat) (f : Fields) : Fields := withLength true bodySize f

def needEof (result version : Nat) (f : Fields) : Bool :=
  if bodiless result || f.has HeaderField.contentLength.text ||
      iequals (f.value HeaderField.transferEncoding.text) "chunked".toList then !keepAlive version f
  else true

theorem setKeepAlive_others (v : Nat) (b : Bool) (f : Fields) :
    (setKeepAlive v b f).others [HeaderField.connection.text] = f.others [HeaderField.connection.text] := by
  unfold setKeepAlive
  split <;> split
  · exact Fields.others_set _ _ _ List.mem_cons_self f
  · exact Fields.others_erase _ _ List.mem_cons_self f
  · exact Fields.others_erase _ _ List.mem_cons_self f
  · exact Fields.others_set _ _ _ List.mem_cons_self f

theorem keepAlive_setKeepAlive (v : Nat) (b : Bool) (f : Fields) : keepAlive v (setKeepAlive v b f) = b := by
  unfold keepAlive setKeepAlive
  by_cases hv : v < 11 <;> cases b <;>
    simp only [hv, if_true, if_false, Bool.false_eq_true, Fields.value_set_self, Fields.value_erase_self] <;> decide

theorem withLength_others (known : Bool) (n : Nat) (f : Fields) :
    (withLength known n f).others [HeaderField.contentLength.text, HeaderField.transferEncoding.text] =
      f.others [HeaderField.contentLength.text, HeaderField.transferEncoding.text] := by
  have hte := Fields.others_erase [HeaderField.contentLength.text, HeaderField.transferEncoding.text]
    HeaderField.transferEncoding.text (by simp) f
  unfold withLength
  split
  · rw [Fields.others_set _ _ _ List.mem_cons_self, hte]
  · rw [Fields.others_erase _ _ List.mem_cons_self, hte]

end ReferenceBeast

/-- **A library that meets every assumption.** -/
def referenceBeast : Beast where
  keepAlive := ReferenceBeast.keepAlive
  setKeepAlive := ReferenceBeast.setKeepAlive
  requestPayload := ReferenceBeast.requestPayload
  responsePayload := ReferenceBeast.responsePayload
  needEof := ReferenceBeast.needEof
  setKeepAlive_others := ReferenceBeast.setKeepAlive_others
  keepAlive_setKeepAlive := ReferenceBeast.keepAlive_setKeepAlive
  requestPayload_others := fun _ _ _ f => ReferenceBeast.withLength_others _ _ f
  responsePayload_others := fun _ _ _ f => ReferenceBeast.withLength_others _ _ f

end EventEdge
