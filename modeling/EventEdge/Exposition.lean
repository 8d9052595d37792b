import Mathlib.Data.List.TakeWhile
/-!
# Exposition — the text format of Prometheus, read and written

A reader of the format for samples with at most one label and without timestamps: a line is a name, possibly a label in
braces, a blank and a value; lines that begin with `#` are skipped.  A label's value is quoted, and in it `\\`, `\"` and
`\n` are escapes.  A writer that does not escape is read back exactly if it had nothing to escape (`read_iff`).
-/
namespace Exposition

/-- A sample: a name, a label and the text of a value. -/
structure Line where
  name : List Char
  label : Option (List Char × List Char)
  value : List Char
  deriving DecidableEq

def nameChar (c : Char) : Bool := c.isAlphanum || c == '_' || c == ':'

def valueChar (c : Char) : Bool := c != ' ' && c != '\n'

/-- The character that an escape stands for. -/
def unescape (c : Char) : Option Char :=
  if c = '\\' then some '\\' else if c = '"' then some '"' else if c = 'n' then some '\n' else none

/-- The value of a label, after the quote it begins with, and what follows the quote it ends with. -/
def readQuoted : List Char → Option (List Char × List Char)
  | [] => none
  | [c] => if c = '"' then some ([], []) else none
  | c :: e :: text =>
    if c = '"' then some ([], e :: text)
    else if c = '\n' then none
    else if c = '\\' then (unescape e).bind (fun d => (readQuoted text).map (fun r => (d :: r.1, r.2)))
    else (readQuoted (e :: text)).map (fun r => (c :: r.1, r.2))

/-- The text after a character, if it begins with it. -/
def after (c : Char) : List Char → Option (List Char)
  | [] => none
  | d :: text => if d = c then some text else none

/-- A label in braces, after the brace it begins with. -/
def readBraced (text : List Char) : Option ((List Char × List Char) × List Char) :=
  (after '=' (text.dropWhile nameChar)).bind (fun rest =>
    (after '"' rest).bind (fun rest =>
      (readQuoted rest).bind (fun r => (after '\x7d' r.2).map (fun rest => ((text.takeWhile nameChar, r.1), rest)))))

/-- A label, if there is one. -/
def readLabel (text : List Char) : Option (Option (List Char × List Char) × List Char) :=
  (after '\x7b' text).elim (some (none, text)) (fun rest => (readBraced rest).map (fun r => (some r.1, r.2)))

/-- A value, and what follows its line. -/
def readValue (text : List Char) : Option (List Char × List Char) :=
  (after '\n' (text.dropWhile valueChar)).map (fun rest => (text.takeWhile valueChar, rest))

/-- One line, and what follows it. -/
def readLine (text : List Char) : Option (Line × List Char) :=
  if text.takeWhile nameChar = [] then none
  else (readLabel (text.dropWhile nameChar)).bind (fun l =>
    (after ' ' l.2).bind (fun rest => (readValue rest).map (fun v => (⟨text.takeWhile nameChar, l.1, v.1⟩, v.2))))

/-- At most so many lines. -/
def readLines : Nat → List Char → Option (List Line)
  | _, [] => some []
  | 0, _ :: _ => none
  | fuel + 1, c :: text =>
    if c = '#' then readLines fuel ((text.dropWhile (fun d => d != '\n')).drop 1)
    else (readLine (c :: text)).bind (fun l => (readLines fuel l.2).map (fun ls => l.1 :: ls))

/-- **The samples of a text.** -/
def read (text : List Char) : Option (List Line) := readLines text.length text

/-! ## Written as they are -/

def labelText (l : List Char × List Char) : List Char := '\x7b' :: l.1 ++ '=' :: '"' :: l.2 ++ '"' :: ['\x7d']

/-- A line, with nothing escaped. -/
def Line.text (l : Line) : List Char := l.name ++ l.label.elim [] labelText ++ ' ' :: l.value ++ ['\n']

/-- Names are names, and a value has no blanks. -/
structure Line.Ok (l : Line) : Prop where
  name : ∀ c ∈ l.name, nameChar c = true
  named : l.name ≠ []
  key : ∀ k ∈ l.label, ∀ c ∈ k.1, nameChar c = true
  value : ∀ c ∈ l.value, valueChar c = true

def plainChar (c : Char) : Bool := c != '"' && c != '\\' && c != '\n'

/-- Nothing in the label's value is to be escaped. -/
def Line.Plain (l : Line) : Prop := ∀ k ∈ l.label, ∀ c ∈ k.2, plainChar c = true

/-! ## Labels -/

theorem after_cons (c : Char) (text : List Char) : after c (c :: text) = some text := if_pos rfl

variable {rest : List Char}

theorem readQuoted_end (rest : List Char) : readQuoted ('"' :: rest) = some ([], rest) := by
  cases rest <;> rfl

theorem readQuoted_newline (text : List Char) : readQuoted ('\n' :: text) = none := by
  cases text <;> rfl

theorem readQuoted_escape (e : Char) (text : List Char) :
    readQuoted ('\\' :: e :: text) = (unescape e).bind (fun d => (readQuoted text).map (fun r => (d :: r.1, r.2))) := rfl

theorem readQuoted_plain {c : Char} (hc : plainChar c = true) : ∀ {text : List Char}, text ≠ [] →
    readQuoted (c :: text) = (readQuoted text).map (fun r => (c :: r.1, r.2))
  | [], h => absurd rfl h
  | e :: text, _ => by
    simp only [plainChar, Bool.and_eq_true, bne_iff_ne] at hc
    rw [readQuoted, if_neg hc.1.1, if_neg hc.2, if_neg hc.1.2]

theorem char_cases (c : Char) : c = '"' ∨ c = '\n' ∨ c = '\\' ∨ plainChar c = true := by
  by_cases h : c = '"'
  · exact .inl h
  by_cases h' : c = '\n'
  · exact .inr (.inl h')
  by_cases h'' : c = '\\'
  · exact .inr (.inr (.inl h''))
  · exact .inr (.inr (.inr (by simp [plainChar, h, h', h''])))

theorem unescape_backslash {c : Char} (h : unescape c = some '\\') : c = '\\' := by
  unfold unescape at h
  split at h
  · assumption
  · split at h
    · cases h
    · split at h <;> cases h

/-- **A value is read that begins with a backslash**: the text has two there. -/
theorem readQuoted_backslash {c : Char} {text w r : List Char} (h : readQuoted (c :: text) = some ('\\' :: w, r)) :
    c = '\\' ∧ ∃ text', text = '\\' :: text' ∧ readQuoted text' = some (w, r) := by
  rcases char_cases c with rfl | rfl | rfl | hc
  · rw [readQuoted_end] at h; cases h
  · rw [readQuoted_newline] at h; cases h
  · cases text with
    | nil => cases h
    | cons e text =>
      rw [readQuoted_escape] at h
      obtain ⟨d, hd, hr⟩ := Option.bind_eq_some_iff.1 h
      obtain ⟨r', hr', he⟩ := Option.map_eq_some_iff.1 hr
      cases he
      exact ⟨rfl, text, by rw [unescape_backslash hd], hr'⟩
  · cases text with
    | nil =>
      simp only [plainChar, Bool.and_eq_true, bne_iff_ne] at hc
      rw [readQuoted, if_neg hc.1.1] at h
      cases h
    | cons e text =>
      rw [readQuoted_plain hc (List.cons_ne_nil _ _)] at h
      obtain ⟨r', -, he⟩ := Option.map_eq_some_iff.1 h
      cases he
      cases hc

/-- What is read is never the text with backslashes put before it: each costs two of the text's own. -/
theorem readQuoted_shift : ∀ (u s : List Char) {r : List Char}, (∀ c ∈ s, c = '\\') →
    readQuoted (u ++ '"' :: rest) = some (s ++ u, r) → s = []
  | u, [], _, _, _ => rfl
  | [], x :: s, r, _, h => by
    rw [List.nil_append, readQuoted_end] at h
    cases h
  | c :: u, x :: s, r, hs, h => by
    obtain ⟨rfl, hs'⟩ := List.forall_mem_cons.1 hs
    obtain ⟨rfl, text, htext, hread⟩ := readQuoted_backslash h
    cases u with
    | nil => cases htext
    | cons e u =>
      obtain ⟨rfl, rfl⟩ := List.cons.inj htext
      have hshift : readQuoted (u ++ '"' :: rest) = some ((s ++ ['\\', '\\']) ++ u, r) := by
        rw [List.append_assoc]
        exact hread
      have hnil := readQuoted_shift u (s ++ ['\\', '\\']) (fun c hc => by
        rcases List.mem_append.1 hc with hc | hc
        · exact hs' c hc
        · simpa using hc) hshift
      cases (List.append_eq_nil_iff.1 hnil).2

theorem readQuoted_append : ∀ {v : List Char}, (∀ c ∈ v, plainChar c = true) →
    readQuoted (v ++ '"' :: rest) = some (v, rest)
  | [], _ => readQuoted_end rest
  | c :: v, h => by
    obtain ⟨hc, hv⟩ := List.forall_mem_cons.1 h
    rw [List.cons_append, readQuoted_plain hc (by simp), readQuoted_append hv]
    rfl

/-- **A value that is read as it was written had nothing to escape.** -/
theorem plain_of_readQuoted : ∀ {v r : List Char}, readQuoted (v ++ '"' :: rest) = some (v, r) →
    ∀ c ∈ v, plainChar c = true
  | [], _, _, _, hm => by cases hm
  | c :: v, r, h, d, hd => by
    rw [List.cons_append] at h
    rcases char_cases c with rfl | rfl | rfl | hc
    · rw [readQuoted_end] at h; cases h
    · rw [readQuoted_newline] at h; cases h
    · obtain ⟨-, text, htext, hread⟩ := readQuoted_backslash h
      cases v with
      | nil => cases htext
      | cons e v =>
        obtain ⟨rfl, rfl⟩ := List.cons.inj htext
        have hnil : ['\\'] = [] := readQuoted_shift v ['\\'] (fun c hc => List.mem_singleton.1 hc) hread
        cases hnil
    · rw [readQuoted_plain hc (by simp)] at h
      obtain ⟨r', hr', he⟩ := Option.map_eq_some_iff.1 h
      cases he
      rcases List.mem_cons.1 hd with rfl | hd
      · exact hc
      · exact plain_of_readQuoted hr' d hd

/-! ## Lines -/

/-- A word of a kind is read up to a character that is not. -/
theorem takeWhile_word {p : Char → Bool} {w : List Char} {c : Char} (hw : ∀ c ∈ w, p c = true) (hc : p c = false)
    (rest : List Char) : (w ++ c :: rest).takeWhile p = w ∧ (w ++ c :: rest).dropWhile p = c :: rest := by
  rw [List.takeWhile_append_of_pos hw, List.dropWhile_append_of_pos hw, List.takeWhile_cons_of_neg (by simp [hc]),
    List.dropWhile_cons_of_neg (by simp [hc]), List.append_nil]
  exact ⟨rfl, rfl⟩

theorem readValue_append {v : List Char} (hv : ∀ c ∈ v, valueChar c = true) :
    readValue (v ++ '\n' :: rest) = some (v, rest) := by
  obtain ⟨htake, hdrop⟩ := takeWhile_word (c := '\n') hv rfl rest
  rw [readValue, htake, hdrop, after_cons]
  rfl

theorem readLabel_none : readLabel (' ' :: rest) = some (none, ' ' :: rest) := rfl

theorem readLabel_some {k v : List Char} (hk : ∀ c ∈ k, nameChar c = true) :
    readLabel (labelText (k, v) ++ rest) = (readQuoted (v ++ '"' :: '\x7d' :: rest)).bind (fun r =>
      (after '\x7d' r.2).map (fun rest => (some (k, r.1), rest))) := by
  have htext : labelText (k, v) ++ rest = '\x7b' :: (k ++ '=' :: '"' :: (v ++ '"' :: '\x7d' :: rest)) := by
    simp [labelText]
  obtain ⟨htake, hdrop⟩ := takeWhile_word (c := '=') hk rfl ('"' :: (v ++ '"' :: '\x7d' :: rest))
  rw [htext, readLabel, after_cons, Option.elim_some, readBraced, htake, hdrop, after_cons, Option.bind_some, after_cons,
    Option.bind_some, Option.map_bind]
  congr 1
  funext r
  rw [Function.comp_apply, Option.map_map]
  rfl

/-- The rest of a line, once its label is read. -/
theorem readLine_text {l : Line} (h : l.Ok) : readLine (l.text ++ rest) =
    (readLabel (l.label.elim [] labelText ++ ' ' :: (l.value ++ '\n' :: rest))).bind (fun r =>
      (after ' ' r.2).bind (fun rest => (readValue rest).map (fun v => (⟨l.name, r.1, v.1⟩, v.2)))) := by
  have htext : l.text ++ rest = l.name ++ (l.label.elim [] labelText ++ ' ' :: (l.value ++ '\n' :: rest)) := by
    simp [Line.text]
  -- after the name comes a brace or a blank
  have hsplit : ∃ c text, nameChar c = false ∧
      l.label.elim [] labelText ++ ' ' :: (l.value ++ '\n' :: rest) = c :: text := by
    cases l.label with
    | none => exact ⟨' ', _, rfl, rfl⟩
    | some k => exact ⟨'\x7b', _, rfl, rfl⟩
  obtain ⟨c, text, hc, he⟩ := hsplit
  obtain ⟨htake, hdrop⟩ := takeWhile_word h.name hc text
  rw [htext, he, readLine, htake, hdrop, if_neg h.named]

theorem readLine_append {l : Line} (h : l.Ok) (hp : l.Plain) : readLine (l.text ++ rest) = some (l, rest) := by
  have hlabel : readLabel (l.label.elim [] labelText ++ ' ' :: (l.value ++ '\n' :: rest)) =
      some (l.label, ' ' :: (l.value ++ '\n' :: rest)) := by
    cases hl : l.label with
    | none => exact readLabel_none
    | some k =>
      rw [Option.elim_some, readLabel_some (h.key k hl), readQuoted_append (hp k hl), Option.bind_some, after_cons]
      rfl
  rw [readLine_text h, hlabel, Option.bind_some, after_cons, Option.bind_some, readValue_append h.value]
  rfl

theorem plain_of_readLine {l : Line} (h : l.Ok) {r : List Char} (hr : readLine (l.text ++ rest) = some (l, r)) :
    l.Plain := by
  intro k hk
  rw [readLine_text h] at hr
  obtain ⟨lr, hlabel, hr⟩ := Option.bind_eq_some_iff.1 hr
  obtain ⟨text, -, hr⟩ := Option.bind_eq_some_iff.1 hr
  obtain ⟨v, -, hr⟩ := Option.map_eq_some_iff.1 hr
  have hread : lr.1 = some k := by rw [← hk]; exact congrArg (fun x => x.1.label) hr
  rw [show l.label = some k from hk, Option.elim_some, readLabel_some (h.key k hk)] at hlabel
  obtain ⟨q, hq, hlabel⟩ := Option.bind_eq_some_iff.1 hlabel
  obtain ⟨text', -, hlabel⟩ := Option.map_eq_some_iff.1 hlabel
  have hvalue : q.1 = k.2 := by
    rw [← hlabel] at hread
    exact congrArg Prod.snd (Option.some.inj hread)
  exact plain_of_readQuoted (hq.trans (by rw [← hvalue]))

/-! ## Texts -/

theorem Line.Ok.text_cons {l : Line} (h : l.Ok) : ∃ c text, l.text = c :: text ∧ c ≠ '#' := by
  cases hn : l.name with
  | nil => exact absurd hn h.named
  | cons c name =>
    refine ⟨c, name ++ l.label.elim [] labelText ++ ' ' :: l.value ++ ['\n'], by simp [Line.text, hn], ?_⟩
    rintro rfl
    have := h.name '#' (by rw [hn]; exact List.mem_cons_self)
    cases this

theorem readLines_cons {l : Line} (h : l.Ok) (fuel : Nat) : readLines (fuel + 1) (l.text ++ rest) =
    (readLine (l.text ++ rest)).bind (fun r => (readLines fuel r.2).map (fun ls => r.1 :: ls)) := by
  obtain ⟨c, text, ht, hc⟩ := h.text_cons
  rw [ht, List.cons_append, readLines, if_neg hc]

theorem readLines_iff : ∀ {ls : List Line} {fuel : Nat}, (∀ l ∈ ls, l.Ok) → ls.length ≤ fuel →
    (readLines fuel (ls.flatMap Line.text) = some ls ↔ ∀ l ∈ ls, l.Plain)
  | [], _, _, _ => by
    refine ⟨fun _ => List.forall_mem_nil _, fun _ => ?_⟩
    rw [List.flatMap_nil, readLines]
  | l :: ls, 0, _, hle => absurd hle (Nat.not_succ_le_zero _)
  | l :: ls, fuel + 1, hok, hle => by
    obtain ⟨hl, hls⟩ := List.forall_mem_cons.1 hok
    have ih := readLines_iff hls (Nat.le_of_succ_le_succ hle)
    rw [List.flatMap_cons, readLines_cons hl, List.forall_mem_cons]
    constructor
    · intro h
      obtain ⟨r, hr, h⟩ := Option.bind_eq_some_iff.1 h
      obtain ⟨ls', hls', he⟩ := Option.map_eq_some_iff.1 h
      obtain ⟨hrl, rfl⟩ := List.cons.inj he
      have hplain : l.Plain := plain_of_readLine (r := r.2) hl (hr.trans (by rw [← hrl]))
      rw [readLine_append hl hplain, Option.some.injEq] at hr
      refine ⟨hplain, ih.1 ?_⟩
      rw [← hr] at hls'
      exact hls'
    · rintro ⟨hplain, hplains⟩
      rw [readLine_append hl hplain, Option.bind_some, ih.2 hplains]
      rfl

theorem length_le_text : ∀ {ls : List Line}, (∀ l ∈ ls, l.Ok) → ls.length ≤ (ls.flatMap Line.text).length
  | [], _ => Nat.le_refl _
  | l :: ls, h => by
    obtain ⟨hl, hls⟩ := List.forall_mem_cons.1 h
    obtain ⟨c, text, ht, -⟩ := hl.text_cons
    have := length_le_text hls
    rw [List.flatMap_cons, ht, List.length_cons, List.length_append, List.length_cons]
    omega

/-- **A text with a comment before its lines is read back exactly if there was nothing to escape.** -/
theorem read_iff {comment : List Char} (hc : '\n' ∉ comment) {ls : List Line} (hok : ∀ l ∈ ls, l.Ok) :
    read ('#' :: comment ++ '\n' :: ls.flatMap Line.text) = some ls ↔ ∀ l ∈ ls, l.Plain := by
  obtain ⟨-, hdrop⟩ := takeWhile_word (p := fun d => d != '\n') (c := '\n')
    (fun d hd => bne_iff_ne.2 (fun he => hc (he ▸ hd))) (by simp) (ls.flatMap Line.text)
  have hlen : ls.length ≤ (comment ++ '\n' :: ls.flatMap Line.text).length := by
    have := length_le_text hok
    rw [List.length_append, List.length_cons]
    omega
  rw [read, List.cons_append, List.length_cons, readLines, if_pos rfl, hdrop, List.drop_succ_cons, List.drop_zero]
  exact readLines_iff hok hlen

end Exposition
