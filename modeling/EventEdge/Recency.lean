import Mathlib.Data.Finset.Card
import Mathlib.Data.List.AList
/-!
# Recency — lists in order of last use, cut off at a capacity

A history of uses is a list of keys, newest first.  `recent T` is what a list of unbounded capacity makes of it: the
keys used, each once, in order of their last use.  A bounded list, which drops its last key when it is full, is the
front of that one (`take_touch`); how far back a key stands there is how many distinct keys were used since it was
(`length_since_recent`).  A list from which keys are also removed by other means is no longer that front: `Follows` and
`Retains` say what remains of it, for any reason `gone` to remove a key.

`AList` is such a list with values: `insert` puts its key in front.
-/
namespace Recency

variable {κ : Type} [DecidableEq κ]

/-- The key moves, or comes, to the front. -/
def touch (k : κ) (l : List κ) : List κ := k :: l.erase k

def recent : List κ → List κ
  | [] => []
  | k :: T => touch k (recent T)

/-- What stands before the key: of a history, the uses since its last use. -/
def since (k : κ) (l : List κ) : List κ := l.takeWhile (fun a => decide (a ≠ k))

theorem mem_touch {a k : κ} {l : List κ} : a ∈ touch k l ↔ a = k ∨ a ∈ l := by
  unfold touch
  rw [List.mem_cons]
  by_cases h : a = k
  · simp [h]
  · rw [List.mem_erase_of_ne h]

theorem nodup_touch {k : κ} {l : List κ} (h : l.Nodup) : (touch k l).Nodup :=
  List.nodup_cons.2 ⟨h.not_mem_erase, h.erase k⟩

theorem touch_sublist {l l' : List κ} (k : κ) (h : l.Sublist l') : (touch k l).Sublist (touch k l') :=
  (h.erase k).cons_cons k

theorem nodup_recent : ∀ T : List κ, (recent T).Nodup
  | [] => List.nodup_nil
  | _ :: T => nodup_touch (nodup_recent T)

/-! ## Before a key -/

theorem since_cons_self (k : κ) (l : List κ) : since k (k :: l) = [] := by simp [since]

theorem since_cons_ne {a k : κ} (h : a ≠ k) (l : List κ) : since k (a :: l) = a :: since k l := by simp [since, h]

theorem since_erase {a k : κ} (h : a ≠ k) : ∀ l : List κ, since k (l.erase a) = (since k l).erase a
  | [] => rfl
  | b :: l => by
    by_cases hb : b = a
    · subst hb; rw [since_cons_ne h, List.erase_cons_head, List.erase_cons_head]
    · rw [List.erase_cons_tail (by simpa using hb)]
      by_cases hk : b = k
      · subst hk; rw [since_cons_self, since_cons_self]; rfl
      · rw [since_cons_ne hk, since_cons_ne hk, since_erase h l, List.erase_cons_tail (by simpa using hb)]

theorem mem_since_recent {a k : κ} : ∀ {T : List κ}, a ∈ since k (recent T) ↔ a ∈ since k T
  | [] => Iff.rfl
  | b :: T => by
    rw [recent, touch]
    by_cases hb : b = k
    · subst hb; rw [since_cons_self, since_cons_self]
    · rw [since_cons_ne hb, since_cons_ne hb, since_erase hb, List.mem_cons, List.mem_cons]
      by_cases ha : a = b
      · simp [ha]
      · rw [List.mem_erase_of_ne ha, mem_since_recent]

/-- **How far back a key stands is how many distinct keys were used since it was.** -/
theorem length_since_recent (k : κ) (T : List κ) : (since k (recent T)).length = (since k T).toFinset.card := by
  have hnd : (since k (recent T)).Nodup := (nodup_recent T).sublist (List.takeWhile_sublist _)
  rw [← List.toFinset_card_of_nodup hnd]
  congr 1
  ext a
  rw [List.mem_toFinset, List.mem_toFinset, mem_since_recent]

/-- **A key is among the first `n` iff fewer than `n` stand before it.** -/
theorem mem_take_iff {k : κ} : ∀ {l : List κ} {n : Nat}, k ∈ l.take n ↔ k ∈ l ∧ (since k l).length < n
  | [], n => by simp
  | a :: l, 0 => by simp
  | a :: l, n + 1 => by
    rw [List.take_succ_cons, List.mem_cons, List.mem_cons, mem_take_iff]
    by_cases ha : a = k
    · subst ha; simp [since_cons_self]
    · rw [since_cons_ne ha, List.length_cons, Nat.add_lt_add_iff_right]
      simp [Ne.symm ha]

theorem since_sublist {k : κ} {l l' : List κ} (h : l.Sublist l') (hnd : l'.Nodup) (hk : k ∈ l) :
    (since k l).Sublist (since k l') := by
  induction h with
  | slnil => cases hk
  | cons a hl ih =>
    obtain ⟨hna, hnd⟩ := List.nodup_cons.1 hnd
    have hak : a ≠ k := fun e => hna (e ▸ hl.subset hk)
    rw [since_cons_ne hak]
    exact (ih hnd hk).cons a
  | cons_cons a hl ih =>
    by_cases hak : a = k
    · subst hak; rw [since_cons_self, since_cons_self]
    · rw [since_cons_ne hak, since_cons_ne hak]
      refine (ih (List.nodup_cons.1 hnd).2 ?_).cons_cons a
      exact (List.mem_cons.1 hk).resolve_left (Ne.symm hak)

theorem length_since_touch {a k : κ} (h : a ≠ k) (l : List κ) : (since k l).length ≤ (since k (touch a l)).length := by
  rw [touch, since_cons_ne h, since_erase h, List.length_cons]
  have := List.le_length_erase (a := a) (l := since k l)
  omega

/-! ## A bounded list -/

theorem take_erase (k : κ) : ∀ (l : List κ) (n : Nat), ((l.take (n + 1)).erase k).take n = (l.erase k).take n
  | [], n => by simp
  | a :: l, n => by
    rw [List.take_succ_cons]
    by_cases ha : a = k
    · subst ha; rw [List.erase_cons_head, List.erase_cons_head, List.take_take, Nat.min_self]
    · rw [List.erase_cons_tail (by simpa using ha), List.erase_cons_tail (by simpa using ha)]
      cases n with
      | zero => rfl
      | succ n => rw [List.take_succ_cons, List.take_succ_cons, take_erase k l n]

/-- **The bounded list is the front of the unbounded one**, use by use. -/
theorem take_touch (k : κ) (l : List κ) : ∀ n : Nat, (touch k (l.take n)).take n = (touch k l).take n
  | 0 => rfl
  | n + 1 => by rw [touch, touch, List.take_succ_cons, List.take_succ_cons, take_erase]

/-- A use of a key the list has needs no room. -/
theorem take_touch_of_mem {k : κ} {l : List κ} {n : Nat} (hk : k ∈ l) (hn : l.length ≤ n) :
    (touch k l).take n = touch k l := by
  refine List.take_of_length_le ?_
  have := List.length_pos_of_mem hk
  rw [touch, List.length_cons, List.length_erase_of_mem hk]
  omega

/-- The list has keys of the history only, in its order. -/
structure Follows (capacity : Nat) (l T : List κ) : Prop where
  bounded : l.length ≤ capacity
  ordered : l.Sublist (recent T)

/-- A key of the history that the list no longer has is `gone`, or as many others as there is room for came after. -/
def Retains (capacity : Nat) (gone : κ → Prop) (l T : List κ) : Prop :=
  ∀ k ∈ T, k ∉ l → gone k ∨ capacity ≤ (since k (recent T)).length

section

variable {capacity : Nat} {l T : List κ} {gone gone' : κ → Prop} {k : κ}

theorem Follows.touch (h : Follows capacity l T) (k : κ) : Follows capacity ((touch k l).take capacity) (k :: T) :=
  ⟨List.length_take_le _ _, (List.take_sublist _ _).trans (touch_sublist k h.ordered)⟩

theorem Follows.erase (h : Follows capacity l T) (k : κ) : Follows capacity (l.erase k) T :=
  ⟨(List.length_erase_le).trans h.bounded, List.erase_sublist.trans h.ordered⟩

/-- **A key the list drops for lack of room** has as many before it as there is room for. -/
theorem Retains.touch (h : Retains capacity gone l T) (hf : Follows capacity l T) (hcap : capacity ≠ 0)
    (hgone : ∀ a, a ≠ k → gone a → gone' a) : Retains capacity gone' ((touch k l).take capacity) (k :: T) := by
  intro a ha hnot
  have hak : a ≠ k := by
    rintro rfl
    refine hnot (mem_take_iff.2 ⟨List.mem_cons_self, ?_⟩)
    rw [Recency.touch, since_cons_self]; exact Nat.pos_of_ne_zero hcap
  have haT := (List.mem_cons.1 ha).resolve_left hak
  by_cases hal : a ∈ l
  · have hat : a ∈ Recency.touch k l := mem_touch.2 (.inr hal)
    have hle : capacity ≤ (since a (Recency.touch k l)).length :=
      Nat.not_lt.1 (fun hlt => hnot (mem_take_iff.2 ⟨hat, hlt⟩))
    exact .inr (hle.trans (since_sublist (touch_sublist k hf.ordered) (nodup_recent (k :: T)) hat).length_le)
  · rcases h a haT hal with hg | hle
    · exact .inl (hgone a hak hg)
    · exact .inr (hle.trans (length_since_touch (Ne.symm hak) _))

theorem Retains.erase (h : Retains capacity gone l T) (hgone : ∀ a, a = k ∨ gone a → gone' a) :
    Retains capacity gone' (l.erase k) T := by
  intro a ha hnot
  by_cases hak : a = k
  · exact .inl (hgone a (.inl hak))
  · rw [List.mem_erase_of_ne hak] at hnot
    rcases h a ha hnot with hg | hle
    · exact .inl (hgone a (.inr hg))
    · exact .inr hle

theorem Retains.mono (h : Retains capacity gone l T) (hgone : ∀ a, gone a → gone' a) : Retains capacity gone' l T :=
  fun a ha hnot => (h a ha hnot).imp_left (hgone a)

end

/-! ## With values -/

section

variable {β : Type}

/-- The first `n` entries. -/
def keep (n : Nat) (s : AList (fun _ : κ => β)) : AList (fun _ : κ => β) :=
  ⟨s.entries.take n, s.nodupKeys.sublist (List.take_sublist _ _)⟩

omit [DecidableEq κ] in
theorem keys_keep (n : Nat) (s : AList (fun _ : κ => β)) : (keep n s).keys = s.keys.take n :=
  List.map_take

omit [DecidableEq κ] in
theorem keep_of_le {n : Nat} {s : AList (fun _ : κ => β)} (h : s.keys.length ≤ n) : keep n s = s := by
  refine AList.ext (List.take_of_length_le ?_)
  exact (List.length_map _).symm.trans_le h

/-- **To keep all but the last entry is to erase its key.** -/
theorem keep_eq_erase {front : List κ} {k : κ} {s : AList (fun _ : κ => β)} (h : s.keys = front ++ [k]) :
    keep front.length s = s.erase k := by
  obtain ⟨l₁, l₂, hl, h₁, h₂⟩ := List.map_eq_append_iff.1 (show s.entries.map Sigma.fst = front ++ [k] from h)
  obtain ⟨⟨k', v⟩, rfl, rfl⟩ := List.map_eq_singleton_iff.1 h₂
  have hnot : k' ∉ l₁.keys := by
    have hnd := s.keys_nodup
    rw [h, ← h₁] at hnd
    exact fun hm => (List.disjoint_of_nodup_append hnd) hm List.mem_cons_self
  have hlast : List.kerase k' [(⟨k', v⟩ : Sigma (fun _ : κ => β))] = [] := List.kerase_cons_eq rfl
  refine AList.ext ?_
  show s.entries.take front.length = s.entries.kerase k'
  rw [hl, ← h₁, List.length_map, List.take_left', List.kerase_append_right hnot, hlast, List.append_nil]
  rfl

/-- Putting a new key in front pushes the others one further back. -/
theorem keep_insert {k : κ} {v : β} {n : Nat} {s : AList (fun _ : κ => β)} (h : k ∉ s) (hn : 0 < n) :
    keep n (s.insert k v) = (keep (n - 1) s).insert k v := by
  obtain ⟨n, rfl⟩ : ∃ m, n = m + 1 := ⟨n - 1, by omega⟩
  have hnot : k ∉ keep n s := by
    rw [AList.mem_keys, keys_keep]
    exact fun hm => h (AList.mem_keys.2 (List.mem_of_mem_take hm))
  refine AList.ext ?_
  rw [Nat.add_sub_cancel, AList.entries_insert_of_notMem hnot]
  show (s.insert k v).entries.take (n + 1) = _
  rw [AList.entries_insert_of_notMem h, List.take_succ_cons]; rfl

theorem keys_insert_eq_touch (k : κ) (v : β) (s : AList (fun _ : κ => β)) : (s.insert k v).keys = touch k s.keys :=
  AList.keys_insert s

theorem lookup_of_lookup_keep {k : κ} {v : β} {n : Nat} {s : AList (fun _ : κ => β)}
    (h : (keep n s).lookup k = some v) : s.lookup k = some v :=
  List.sublist_dlookup s.nodupKeys (List.take_sublist n s.entries) h

end

end Recency
