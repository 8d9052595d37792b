import EventEdge.Forwarding
/-!
# Arguments — the command line (`main.cpp`)

`parse_upstream` cuts `host:port` or `[ipv6-address]:port` at a separator and reads the port with `std::from_chars`.
Every access by position is checked here, and none is ever out of range: what is accepted is exactly what `UpstreamText`
describes, and everything else throws a `std::runtime_error` (`parseUpstream_cases`).  The Host field a proxy writes is
such a text again unless the host has a bracket in front and no colon (`hostHeader_iff`).  `parseArguments` reads the
command line of `main` with them.
-/
namespace EventEdge

/-! ## Reading a number -/

/-- What the parsing functions throw, and the access by position that would be out of range. -/
inductive ParseError where
  | runtimeError (what : Str)
  | outOfRange
  deriving DecidableEq, Repr

inductive Errc where
  | invalidArgument | resultOutOfRange
  deriving DecidableEq, Repr

/-- The result of `std::from_chars`: the text from `ptr` on, the error, and the value, untouched on an error. -/
structure FromChars where
  rest : Str
  error : Option Errc
  value : UInt32

/-- `std::from_chars` into an `unsigned int`: the longest run of digits, and an error where there is none or its value
has more than 32 bits. -/
def fromChars (text : Str) (value : UInt32) : FromChars :=
  let digits := text.takeWhile Char.isDigit
  if digits = [] then ⟨text, some .invalidArgument, value⟩
  else if 4294967296 ≤ Nat.ofDigitChars 10 digits 0 then
    ⟨text.dropWhile Char.isDigit, some .resultOutOfRange, value⟩
  else ⟨text.dropWhile Char.isDigit, none, UInt32.ofNat (Nat.ofDigitChars 10 digits 0)⟩

def parsePort (value : Str) : Except ParseError UInt16 :=
  let read := fromChars value 0
  if read.error ≠ none ∨ read.rest ≠ [] ∨ read.value = 0 ∨ read.value > 65535 then
    .error (.runtimeError "port must be an integer from 1 to 65535".toList)
  else .ok read.value.toUInt16

def parseWorkerCount (value : Str) : Except ParseError UInt32 :=
  let read := fromChars value 0
  if read.error ≠ none ∨ read.rest ≠ [] ∨ read.value = 0 then
    .error (.runtimeError "worker count must be a positive integer".toList)
  else .ok read.value

/-! ## Cutting an upstream -/

-- `std::string_view`: `rfind(c)`, and `operator[]` and `substr(start, count)` where the position is in range
def rfind (c : Char) (s : Str) : Option Nat := (s.reverse.findIdx? (· == c)).map (fun i => s.length - 1 - i)
def charAt (s : Str) (i : Nat) : Except ParseError Char := (s[i]?).elim (.error .outOfRange) .ok
def substrAt (s : Str) (start count : Nat) : Except ParseError Str :=
  if start ≤ s.length then .ok (substr s start count) else .error .outOfRange

def badForm : ParseError := .runtimeError "upstream must use host:port or [ipv6-address]:port".toList
def emptyHost : ParseError := .runtimeError "upstream host must not be empty".toList

/-- The branch of `parse_upstream` for a leading bracket: host and port. -/
def cutBracketed (value : Str) : Except ParseError (Str × Str) :=
  match findFrom ']' value 0 with
  | none => .error badForm
  | some closingBracket =>
    if closingBracket + 1 ≥ value.length then .error badForm
    else do
      let c ← charAt value (closingBracket + 1)
      if c ≠ ':' then .error badForm
      else do
        let host ← substrAt value 1 (closingBracket - 1)
        let port ← substrAt value (closingBracket + 2) value.length
        return (host, port)

/-- The other branch. -/
def cutPlain (value : Str) : Except ParseError (Str × Str) :=
  match rfind ':' value with
  | none => .error badForm
  | some separator =>
    if findFrom ':' value 0 ≠ some separator then .error badForm
    else do
      let host ← substrAt value 0 separator
      let port ← substrAt value (separator + 1) value.length
      return (host, port)

def cutUpstream (value : Str) : Except ParseError (Str × Str) :=
  if value.head? = some '[' then cutBracketed value else cutPlain value

def parseUpstream (value : Str) : Except ParseError UpstreamEndpoint := do
  let (host, port) ← cutUpstream value
  if host = [] then .error emptyHost
  else do
    let port ← parsePort port
    return ⟨host, port⟩

/-! ## What is accepted -/

/-- The decimal digits of a port, however many zeros in front. -/
def PortDigits (digits : Str) (port : UInt16) : Prop :=
  ∃ value, ofDecimal digits = some value ∧ 1 ≤ value ∧ value ≤ 65535 ∧ port.toNat = value

/-- **The texts of an endpoint.** -/
inductive UpstreamText : Str → UpstreamEndpoint → Prop
  | plain (host digits : Str) (port : UInt16) : host ≠ [] → ':' ∉ host → host.head? ≠ some '[' →
      PortDigits digits port → UpstreamText (host ++ ':' :: digits) ⟨host, port⟩
  | bracketed (host digits : Str) (port : UInt16) : host ≠ [] → ']' ∉ host →
      PortDigits digits port → UpstreamText ('[' :: host ++ ']' :: ':' :: digits) ⟨host, port⟩

theorem ofDecimal_eq_some_iff {s : Str} {n : Nat} : ofDecimal s = some n ↔
    s ≠ [] ∧ (∀ c ∈ s, c.isDigit = true) ∧ Nat.ofDigitChars 10 s 0 = n := by
  unfold ofDecimal
  constructor
  · intro hs
    split at hs
    · rename_i h
      exact ⟨h.1, List.all_eq_true.1 h.2, Option.some.inj hs⟩
    · cases hs
  · rintro ⟨hne, hall, rfl⟩
    rw [if_pos ⟨hne, List.all_eq_true.2 hall⟩]

/-- `from_chars` reads the whole text without an error exactly if it is a number of 32 bits. -/
theorem fromChars_whole (text : Str) (v₀ : UInt32) (n : Nat) :
    (fromChars text v₀).error = none ∧ (fromChars text v₀).rest = [] ∧ (fromChars text v₀).value.toNat = n ↔
      ofDecimal text = some n ∧ n < 4294967296 := by
  rw [ofDecimal_eq_some_iff]
  unfold fromChars
  dsimp only
  constructor
  · rintro ⟨herr, hrest, hval⟩
    split at herr
    · cases herr
    · rename_i hne
      split at herr
      · cases herr
      · rename_i hlt
        rw [if_neg hne, if_neg hlt] at hrest hval
        dsimp only at hrest hval
        have hall : text.takeWhile Char.isDigit = text := by
          have := List.takeWhile_append_dropWhile (p := Char.isDigit) (l := text)
          rwa [hrest, List.append_nil] at this
        rw [hall] at hne hlt hval
        rw [UInt32.toNat_ofNat_of_lt' (Nat.not_le.1 hlt)] at hval
        exact ⟨⟨hne, fun c hc => List.takeWhile_eq_self_iff.1 hall c hc, hval⟩, hval ▸ Nat.not_le.1 hlt⟩
  · rintro ⟨⟨hne, hall, rfl⟩, hlt⟩
    have htake : text.takeWhile Char.isDigit = text := List.takeWhile_eq_self_iff.2 hall
    have hdrop : text.dropWhile Char.isDigit = [] := List.dropWhile_eq_nil_iff.2 hall
    rw [htake, hdrop, if_neg hne, if_neg (Nat.not_le.2 hlt)]
    exact ⟨rfl, rfl, UInt32.toNat_ofNat_of_lt' hlt⟩

/-- **A port is accepted by its digits**; the cast to 16 bits loses nothing. -/
theorem parsePort_ok_iff {value : Str} {port : UInt16} : parsePort value = .ok port ↔ PortDigits value port := by
  unfold parsePort
  dsimp only
  constructor
  · intro h
    split at h
    · cases h
    · rename_i hgood
      simp only [not_or, ne_eq, not_not, gt_iff_lt, UInt32.not_lt] at hgood
      obtain ⟨herr, hrest, hzero, hmax⟩ := hgood
      cases h
      have hwhole := (fromChars_whole value 0 _).1 ⟨herr, hrest, rfl⟩
      have hmax' : (fromChars value 0).value.toNat ≤ 65535 := hmax
      have hpos : (fromChars value 0).value.toNat ≠ 0 := fun he => hzero (UInt32.toNat_inj.1 he)
      refine ⟨_, hwhole.1, by omega, hmax', ?_⟩
      rw [UInt32.toNat_toUInt16]
      omega
  · rintro ⟨n, hdec, hpos, hmax, hport⟩
    obtain ⟨herr, hrest, hval⟩ := (fromChars_whole value 0 n).2 ⟨hdec, by omega⟩
    have hzero : (fromChars value 0).value ≠ 0 := fun he => by rw [he] at hval; simp at hval; omega
    have hle : ¬ (fromChars value 0).value > 65535 := by
      rw [gt_iff_lt, UInt32.lt_iff_toNat_lt, hval]
      exact Nat.not_lt.2 hmax
    rw [if_neg (by simp only [herr, hrest, ne_eq, not_true, hzero, hle, or_self, not_false_iff])]
    refine congrArg Except.ok (UInt16.toNat_inj.1 ?_)
    rw [UInt32.toNat_toUInt16, hval, hport]
    omega

theorem parsePort_cases (value : Str) : (∃ port, parsePort value = .ok port) ∨
    parsePort value = .error (.runtimeError "port must be an integer from 1 to 65535".toList) := by
  unfold parsePort
  dsimp only
  split
  · exact .inr rfl
  · exact .inl ⟨_, rfl⟩

/-! ### The separators -/

theorem rfind_eq_some_iff {c : Char} {s : Str} {i : Nat} : rfind c s = some i ↔
    ∃ pre post, s = pre ++ c :: post ∧ c ∉ post ∧ i = pre.length := by
  unfold rfind
  rw [Option.map_eq_some_iff]
  constructor
  · rintro ⟨j, hj, rfl⟩
    obtain ⟨a, x, b, he, rfl, hx, ha⟩ := Scan.findIdx?_eq_some_iff_cut.1 hj
    have hs : s = b.reverse ++ c :: a.reverse := by
      rw [← List.reverse_reverse s, he, eq_of_beq hx]; simp
    refine ⟨b.reverse, a.reverse, hs, fun hm => by simpa using ha c (List.mem_reverse.1 hm), ?_⟩
    rw [hs]
    simp only [List.length_append, List.length_reverse, List.length_cons]
    omega
  · rintro ⟨pre, post, rfl, hpost, rfl⟩
    refine ⟨post.length, Scan.findIdx?_eq_some_iff_cut.2 ⟨post.reverse, c, pre.reverse, by simp, by simp, by simp,
      fun y hy => ?_⟩, ?_⟩
    · simpa using fun h : y = c => hpost (h ▸ List.mem_reverse.1 hy)
    · simp only [List.length_append, List.length_cons]
      omega

/-- `substr` in range of a text cut into three: the middle, and the end. -/
theorem substrAt_middle (pre mid post : Str) : substrAt (pre ++ (mid ++ post)) pre.length mid.length = .ok mid := by
  rw [substrAt, if_pos (by simp), substr, List.drop_left, List.take_left]

theorem substrAt_end (pre post : Str) : substrAt (pre ++ post) pre.length (pre ++ post).length = .ok post := by
  rw [substrAt, if_pos (by simp), substr, List.drop_left, List.take_of_length_le (by simp)]

/-- **Without a bracket in front the text is cut at its only colon.** -/
theorem cutPlain_complete {host digits : Str} (hhost : ':' ∉ host) (hdigits : ':' ∉ digits) :
    cutPlain (host ++ ':' :: digits) = .ok (host, digits) := by
  have hr : rfind ':' (host ++ ':' :: digits) = some host.length :=
    rfind_eq_some_iff.2 ⟨host, digits, rfl, hdigits, rfl⟩
  have hf : findFrom ':' (host ++ ':' :: digits) 0 = some host.length :=
    findFrom_eq_some_iff.2 ⟨host, digits, rfl, hhost, by omega⟩
  have h1 := substrAt_middle [] host (':' :: digits)
  have h2 := substrAt_end (host ++ [':']) digits
  rw [List.append_assoc, List.length_append] at h2
  simp only [cutPlain, hr, hf, ne_eq, not_true, if_false]
  rw [show substrAt (host ++ ':' :: digits) 0 host.length = .ok host from h1]
  rw [show substrAt (host ++ ':' :: digits) (host.length + 1) (host ++ ':' :: digits).length = .ok digits from h2]
  rfl

theorem cutPlain_cases (value : Str) :
    (∃ host digits, value = host ++ ':' :: digits ∧ ':' ∉ host ∧ ':' ∉ digits ∧ cutPlain value = .ok (host, digits)) ∨
      cutPlain value = .error badForm := by
  cases hr : rfind ':' value with
  | none => right; simp only [cutPlain, hr]
  | some separator =>
    obtain ⟨host, digits, rfl, hdigits, rfl⟩ := rfind_eq_some_iff.1 hr
    by_cases hhost : ':' ∈ host
    · -- another colon in front
      right
      have hne : findFrom ':' (host ++ ':' :: digits) 0 ≠ some host.length := by
        intro hf
        obtain ⟨pre, post, he, hpre, hlen⟩ := findFrom_eq_some_iff.1 hf
        rw [List.drop_zero] at he
        rw [(List.append_inj he (by omega)).1] at hhost
        exact hpre hhost
      simp only [cutPlain, hr, if_pos hne]
    · exact .inl ⟨host, digits, rfl, hhost, hdigits, cutPlain_complete hhost hdigits⟩

/-- **With a bracket in front the text is cut at the first closing one**, if a colon follows. -/
theorem cutBracketed_complete {host digits : Str} (hhost : ']' ∉ host) :
    cutBracketed ('[' :: host ++ ']' :: ':' :: digits) = .ok (host, digits) := by
  have hf : findFrom ']' ('[' :: host ++ ']' :: ':' :: digits) 0 = some (host.length + 1) :=
    findFrom_eq_some_iff.2 ⟨'[' :: host, ':' :: digits, rfl, by simpa using hhost, by simp⟩
  have hc : charAt ('[' :: host ++ ']' :: ':' :: digits) (host.length + 1 + 1) = .ok ':' := by simp [charAt]
  have h1 := substrAt_middle ['['] host (']' :: ':' :: digits)
  have h2 := substrAt_end ('[' :: host ++ [']', ':']) digits
  rw [List.append_assoc, List.length_append] at h2
  simp only [cutBracketed, hf]
  rw [if_neg (by simp), hc]
  simp only [bind, Except.bind, ne_eq, not_true, if_false, Nat.add_sub_cancel]
  rw [show substrAt ('[' :: host ++ ']' :: ':' :: digits) 1 host.length = .ok host from h1]
  rw [show substrAt ('[' :: host ++ ']' :: ':' :: digits) (host.length + 1 + 2)
    ('[' :: host ++ ']' :: ':' :: digits).length = .ok digits from h2]
  rfl

theorem cutBracketed_cases {value : Str} (hv : value.head? = some '[') :
    (∃ host digits, value = '[' :: host ++ ']' :: ':' :: digits ∧ ']' ∉ host ∧
      cutBracketed value = .ok (host, digits)) ∨ cutBracketed value = .error badForm := by
  cases hf : findFrom ']' value 0 with
  | none => right; simp only [cutBracketed, hf]
  | some closing =>
    obtain ⟨pre, post, he, hpre, rfl⟩ := findFrom_eq_some_iff.1 hf
    rw [List.drop_zero] at he
    cases pre with
    | nil => rw [he] at hv; cases hv
    | cons c host =>
      rw [he] at hv
      cases hv
      cases post with
      | nil =>
        -- the closing bracket is the last character
        right
        simp only [cutBracketed, hf]
        rw [if_pos (by simp [he])]
      | cons d digits =>
        by_cases hd : d = ':'
        · subst hd he
          have hhost : ']' ∉ host := fun hm => hpre (List.mem_cons_of_mem _ hm)
          exact .inl ⟨host, digits, rfl, hhost, cutBracketed_complete hhost⟩
        · right
          have hc : charAt value (0 + ('[' :: host).length + 1) = .ok d := by rw [he]; simp [charAt]
          simp only [cutBracketed, hf, hc]
          rw [if_neg (by simp [he])]
          exact if_pos hd

/-! ### The whole text -/

theorem PortDigits.not_mem {digits : Str} {port : UInt16} (h : PortDigits digits port) {c : Char}
    (hc : c.isDigit = false) : c ∉ digits := by
  obtain ⟨n, hn, -⟩ := h
  intro hm
  rw [(ofDecimal_eq_some_iff.1 hn).2.1 c hm] at hc
  cases hc

/-- What a cut text is parsed to. -/
theorem parseUpstream_cut {value host digits : Str} (h : cutUpstream value = .ok (host, digits)) :
    parseUpstream value =
      if host = [] then .error emptyHost else (parsePort digits).map (fun port => ⟨host, port⟩) := by
  unfold parseUpstream
  rw [h]
  simp only [bind, Except.bind]
  split
  · rfl
  · cases parsePort digits <;> rfl

theorem parseUpstream_complete {value : Str} {endpoint : UpstreamEndpoint} (h : UpstreamText value endpoint) :
    parseUpstream value = .ok endpoint := by
  cases h with
  | plain host digits port hne hcolon hhead hport =>
    have hh : (host ++ ':' :: digits).head? ≠ some '[' := by
      cases host with
      | nil => exact absurd rfl hne
      | cons c host => exact hhead
    rw [parseUpstream_cut (by rw [cutUpstream, if_neg hh]; exact cutPlain_complete hcolon (hport.not_mem rfl)), if_neg hne,
      parsePort_ok_iff.2 hport]
    rfl
  | bracketed host digits port hne hbracket hport =>
    rw [parseUpstream_cut (by exact cutBracketed_complete hbracket), if_neg hne,
      parsePort_ok_iff.2 hport]
    rfl

/-- **What happens to any text**: it is one of an endpoint and gives that endpoint, or it throws. -/
theorem parseUpstream_cases (value : Str) :
    (∃ endpoint, UpstreamText value endpoint ∧ parseUpstream value = .ok endpoint) ∨
      ∃ what, parseUpstream value = .error (.runtimeError what) := by
  -- what is left once the text is cut: the host is there and the port is one
  have hcut : ∀ host digits, cutUpstream value = .ok (host, digits) →
      (∀ port, host ≠ [] → PortDigits digits port → UpstreamText value ⟨host, port⟩) →
      (∃ endpoint, UpstreamText value endpoint ∧ parseUpstream value = .ok endpoint) ∨
        ∃ what, parseUpstream value = .error (.runtimeError what) := by
    intro host digits hc htext
    rw [parseUpstream_cut hc]
    by_cases hne : host = []
    · right; exact ⟨_, if_pos hne⟩
    · rw [if_neg hne]
      rcases parsePort_cases digits with ⟨port, hp⟩ | hp
      · rw [hp]; exact .inl ⟨_, htext port hne (parsePort_ok_iff.1 hp), rfl⟩
      · rw [hp]; exact .inr ⟨_, rfl⟩
  have herror : cutUpstream value = .error badForm → ∃ what, parseUpstream value = .error (.runtimeError what) := by
    intro he
    refine ⟨"upstream must use host:port or [ipv6-address]:port".toList, ?_⟩
    unfold parseUpstream
    rw [he]
    rfl
  by_cases hv : value.head? = some '['
  · have hbranch : cutUpstream value = cutBracketed value := if_pos hv
    rcases cutBracketed_cases hv with ⟨host, digits, rfl, hhost, hc⟩ | hc
    · exact hcut host digits (hbranch.trans hc) (fun port hne hp => .bracketed host digits port hne hhost hp)
    · exact .inr (herror (hbranch.trans hc))
  · have hbranch : cutUpstream value = cutPlain value := if_neg hv
    rcases cutPlain_cases value with ⟨host, digits, rfl, hhost, -, hc⟩ | hc
    · refine hcut host digits (hbranch.trans hc) (fun port hne hp => .plain host digits port hne hhost ?_ hp)
      cases host with
      | nil => exact absurd rfl hne
      | cons c host => exact hv
    · exact .inr (herror (hbranch.trans hc))

theorem parseUpstream_ok_iff {value : Str} {endpoint : UpstreamEndpoint} :
    parseUpstream value = .ok endpoint ↔ UpstreamText value endpoint := by
  constructor
  · intro h
    rcases parseUpstream_cases value with ⟨e, ht, hp⟩ | ⟨what, hp⟩
    · rw [h] at hp; cases hp; exact ht
    · rw [h] at hp; cases hp
  · exact parseUpstream_complete

/-- **The texts that are accepted, the endpoint each one gives, and an exception for every other text**; no access is
out of range. -/
theorem parseUpstream_accepts (value : Str) :
    (∀ endpoint, parseUpstream value = .ok endpoint ↔ UpstreamText value endpoint) ∧
    ((∀ endpoint, ¬ UpstreamText value endpoint) → ∃ what, parseUpstream value = .error (.runtimeError what)) ∧
    parseUpstream value ≠ .error .outOfRange := by
  refine ⟨fun endpoint => parseUpstream_ok_iff, fun hno => ?_, fun hout => ?_⟩
  · rcases parseUpstream_cases value with ⟨e, ht, -⟩ | hwhat
    · exact absurd ht (hno e)
    · exact hwhat
  · rcases parseUpstream_cases value with ⟨e, -, hp⟩ | ⟨what, hp⟩
    · rw [hout] at hp; cases hp
    · rw [hout] at hp; cases hp

/-! ## The Host field, read back -/

theorem portDigits_portText {port : UInt16} (h : 1 ≤ port.toNat) : PortDigits (portText port) port :=
  ⟨port.toNat, ofDecimal_decimal port.toNat, h, by have := port.toNat_lt; omega, rfl⟩

/-- What is known of an endpoint that was parsed: a host with a colon stood in brackets, and so did one with a bracket
in front. -/
theorem UpstreamText.host_port {value : Str} {endpoint : UpstreamEndpoint} (h : UpstreamText value endpoint) :
    endpoint.host ≠ [] ∧ 1 ≤ endpoint.port.toNat ∧
      (':' ∈ endpoint.host ∨ endpoint.host.head? = some '[' → ']' ∉ endpoint.host) := by
  have hpos : ∀ {digits : Str} {port : UInt16}, PortDigits digits port → 1 ≤ port.toNat := by
    rintro digits port ⟨n, -, h1, -, he⟩
    omega
  cases h with
  | plain host digits port hne hcolon hhead hport =>
    exact ⟨hne, hpos hport, fun h => (h.elim hcolon hhead).elim⟩
  | bracketed host digits port hne hbracket hport => exact ⟨hne, hpos hport, fun _ => hbracket⟩

/-- **The Host field of an endpoint denotes that endpoint** unless its host has a bracket in front and no colon. -/
theorem hostHeader_iff {value : Str} {endpoint : UpstreamEndpoint} (h : parseUpstream value = .ok endpoint) :
    parseUpstream (upstreamHostHeader endpoint) = .ok endpoint ↔
      ':' ∈ endpoint.host ∨ endpoint.host.head? ≠ some '[' := by
  obtain ⟨hne, hport, hbracket⟩ := (parseUpstream_ok_iff.1 h).host_port
  have hdigits := portDigits_portText hport
  rw [parseUpstream_ok_iff]
  unfold upstreamHostHeader
  by_cases hcolon : ':' ∈ endpoint.host
  · rw [if_pos (List.contains_iff_mem.2 hcolon)]
    refine ⟨fun _ => .inl hcolon, fun _ => ?_⟩
    have := UpstreamText.bracketed endpoint.host (portText endpoint.port) endpoint.port hne (hbracket (.inl hcolon)) hdigits
    simpa using this
  · rw [if_neg (fun hc => hcolon (List.contains_iff_mem.1 hc))]
    constructor
    · intro htext
      refine .inr (fun hhead => ?_)
      -- the text begins with a bracket and has no closing one
      have hnone : ']' ∉ endpoint.host ++ ':' :: portText endpoint.port := by
        rw [List.mem_append, List.mem_cons, not_or, not_or]
        exact ⟨hbracket (.inr hhead), by decide, hdigits.not_mem rfl⟩
      generalize hs : endpoint.host ++ ':' :: portText endpoint.port = text at htext hnone
      cases htext with
      | plain host digits port hne' _ hhead' _ => exact hhead' hhead
      | bracketed host digits port _ _ _ => exact hnone (by simp)
    · intro hhead
      exact .plain _ _ _ hne hcolon (hhead.resolve_left hcolon) hdigits

theorem hostHeader_iff_ipv6 : parseUpstream "[::1]:09000".toList = .ok ⟨"::1".toList, 9000⟩ ∧
    parseUpstream (upstreamHostHeader ⟨"::1".toList, 9000⟩) = .ok ⟨"::1".toList, 9000⟩ := by
  have haccepted : parseUpstream "[::1]:09000".toList = .ok ⟨"::1".toList, 9000⟩ := by decide +kernel
  exact ⟨haccepted, (hostHeader_iff haccepted).2 (.inl (by decide))⟩

/-- A bracket in the host and no colon: the Host field has one bracket, which nothing closes. -/
theorem hostHeader_rejected : parseUpstream "[[a]:80".toList = .ok ⟨"[a".toList, 80⟩ ∧
    upstreamHostHeader ⟨"[a".toList, 80⟩ = "[a:80".toList ∧
    parseUpstream (upstreamHostHeader ⟨"[a".toList, 80⟩) = .error badForm := by
  decide +kernel

/-! ## `main` -/

/-- The loop over the upstream arguments. -/
def parseUpstreams : List Str → Except ParseError (List UpstreamEndpoint)
  | [] => .ok []
  | argument :: arguments => do
    let upstream ← parseUpstream argument
    let upstreams ← parseUpstreams arguments
    return upstream :: upstreams

theorem parseUpstreams_ok_iff : ∀ {arguments : List Str} {upstreams : List UpstreamEndpoint},
    parseUpstreams arguments = .ok upstreams ↔ List.Forall₂ UpstreamText arguments upstreams
  | [], upstreams => by
    rw [List.forall₂_nil_left_iff, parseUpstreams, Except.ok.injEq, eq_comm]
  | argument :: arguments, upstreams => by
    rw [List.forall₂_cons_left_iff, parseUpstreams]
    constructor
    · intro h
      cases hp : parseUpstream argument with
      | error e => rw [hp] at h; cases h
      | ok upstream =>
        cases hps : parseUpstreams arguments with
        | error e => rw [hp, hps] at h; cases h
        | ok rest =>
          rw [hp, hps] at h
          cases h
          exact ⟨upstream, rest, parseUpstream_ok_iff.1 hp, parseUpstreams_ok_iff.1 hps, rfl⟩
    · rintro ⟨upstream, rest, hu, hr, rfl⟩
      rw [parseUpstream_ok_iff.2 hu, parseUpstreams_ok_iff.2 hr]
      rfl

/-- What the server is started with. -/
structure Arguments (Address : Type) where
  address : Address
  port : UInt16
  workerCount : UInt32
  upstreams : List UpstreamEndpoint

/-- How `main` ends before it starts: the usage line, an address `make_address` does not take, or an argument that is
not one. -/
inductive StartError where
  | usage
  | address
  | argument (error : ParseError)
  deriving DecidableEq, Repr

section Main

variable {Address : Type} (makeAddress : Str → Option Address) (hardwareConcurrency : UInt32)

def defaultWorkerCount : UInt32 := max 1 hardwareConcurrency

/-- The arguments of `main`, the program's name first. -/
def parseArguments : List Str → Except StartError (Arguments Address)
  | [_] => do
    let address ← (makeAddress "127.0.0.1".toList).elim (.error .address) .ok
    return ⟨address, 8080, defaultWorkerCount hardwareConcurrency, [⟨"127.0.0.1".toList, 9000⟩]⟩
  | _ :: listenAddress :: listenPort :: workers :: upstream :: upstreams => do
    let address ← (makeAddress listenAddress).elim (.error .address) .ok
    let port ← (parsePort listenPort).mapError .argument
    let workerCount ← (parseWorkerCount workers).mapError .argument
    let upstreams ← (parseUpstreams (upstream :: upstreams)).mapError .argument
    return ⟨address, port, workerCount, upstreams⟩
  | _ => .error .usage

end Main

end EventEdge
