import Mathlib.Data.List.DropRight
/-!
# Scan — cutting a list at the elements of a kind

What the position of the first or of the last element of a kind says about the list, for lists over any type: the
list is cut there (`findIdx?_eq_some_iff_cut`), and the part from the first to the last element that is not of a kind
is the list without the elements of that kind at both ends (`take_drop_eq_trim`).
-/
namespace Scan

variable {α : Type*} {p : α → Bool}

/-- **The first element of a kind cuts the list**: nothing of that kind stands before it. -/
theorem findIdx?_eq_some_iff_cut : ∀ {l : List α} {i : Nat}, l.findIdx? p = some i ↔
    ∃ pre x post, l = pre ++ x :: post ∧ pre.length = i ∧ p x = true ∧ ∀ y ∈ pre, p y = false
  | [], i => by simp
  | a :: l, i => by
    rw [List.findIdx?_cons]
    constructor
    · intro h
      split at h
      · rename_i ha; cases h; exact ⟨[], a, l, rfl, rfl, ha, by simp⟩
      · rename_i ha
        obtain ⟨j, hj, rfl⟩ := Option.map_eq_some_iff.1 h
        obtain ⟨pre, x, post, rfl, rfl, hx, hpre⟩ := findIdx?_eq_some_iff_cut.1 hj
        refine ⟨a :: pre, x, post, rfl, rfl, hx, fun y hy => ?_⟩
        rcases List.mem_cons.1 hy with rfl | hy
        · simpa using ha
        · exact hpre y hy
    · rintro ⟨pre, x, post, he, rfl, hx, hpre⟩
      cases pre with
      | nil => cases he; rw [if_pos hx]; rfl
      | cons b pre =>
        rw [List.cons_append, List.cons.injEq] at he
        obtain ⟨rfl, rfl⟩ := he
        rw [hpre a List.mem_cons_self, findIdx?_eq_some_iff_cut.2
          ⟨pre, x, post, rfl, rfl, hx, fun y hy => hpre y (List.mem_cons_of_mem _ hy)⟩]
        rfl

/-- A list without the elements of a kind at both ends. -/
def trim (p : α → Bool) (l : List α) : List α := (l.dropWhile p).rdropWhile p

/-- What `trim` takes away is of that kind. -/
theorem trim_cut (p : α → Bool) (l : List α) :
    ∃ pre post, l = pre ++ (trim p l ++ post) ∧ (∀ x ∈ pre, p x = true) ∧ ∀ x ∈ post, p x = true := by
  refine ⟨l.takeWhile p, (l.dropWhile p).rtakeWhile p, ?_, fun x hx => List.mem_takeWhile_imp hx,
    fun x hx => List.mem_rtakeWhile_imp hx⟩
  rw [trim, List.rdropWhile_append_rtakeWhile, List.takeWhile_append_dropWhile]

theorem trim_eq_nil_iff {l : List α} : trim p l = [] ↔ ∀ x ∈ l, p x = true := by
  rw [trim, List.rdropWhile_eq_nil_iff]
  constructor
  · intro h x hx
    rw [← List.takeWhile_append_dropWhile (p := p) (l := l), List.mem_append] at hx
    exact hx.elim (fun hx => List.mem_takeWhile_imp hx) (h x)
  · intro h x hx
    exact h x ((List.dropWhile_suffix p).subset hx)

/-- A list that is not all of a kind has, trimmed, ends that are not. -/
theorem trim_ends {l : List α} (h : trim p l ≠ []) :
    (∃ x rest, trim p l = x :: rest ∧ p x = false) ∧ ∃ rest x, trim p l = rest ++ [x] ∧ p x = false := by
  constructor
  · have hne : l.dropWhile p ≠ [] := fun he => h (by rw [trim, he, List.rdropWhile_nil])
    obtain ⟨t, ht⟩ := List.rdropWhile_prefix p (l := l.dropWhile p)
    cases hc : trim p l with
    | nil => exact absurd hc h
    | cons x rest =>
      refine ⟨x, rest, rfl, ?_⟩
      rw [show List.rdropWhile p (l.dropWhile p) = x :: rest from hc] at ht
      have hx := List.head_dropWhile_not p hne
      simp only [← ht, List.cons_append, List.head_cons] at hx
      exact hx
  · refine ⟨(trim p l).dropLast, (trim p l).getLast h, (List.dropLast_append_getLast h).symm, ?_⟩
    exact Bool.eq_false_iff.2 (List.rdropWhile_last_not p _ h)

/-- **From the first element not of a kind to the last**: the list, trimmed. -/
theorem take_drop_eq_trim {l : List α} {i j : Nat} (hi : l.findIdx? (fun x => !p x) = some i)
    (hj : l.reverse.findIdx? (fun x => !p x) = some j) :
    (l.drop i).take (l.length - 1 - j - i + 1) = trim p l := by
  have hne : trim p l ≠ [] := fun he => by
    obtain ⟨pre, x, post, rfl, -, hx, -⟩ := findIdx?_eq_some_iff_cut.1 hi
    have := trim_eq_nil_iff.1 he x (by simp)
    rw [this] at hx
    cases hx
  obtain ⟨pre, post, hl, hpre, hpost⟩ := trim_cut p l
  obtain ⟨⟨x, rest, hx, hpx⟩, rest', y, hy, hpy⟩ := trim_ends hne
  generalize trim p l = core at *
  subst hl
  have hi' : (pre ++ (core ++ post)).findIdx? (fun x => !p x) = some pre.length :=
    findIdx?_eq_some_iff_cut.2 ⟨pre, x, rest ++ post, by rw [hx]; rfl, rfl, by rw [hpx]; rfl,
      fun z hz => by rw [hpre z hz]; rfl⟩
  have hj' : (pre ++ (core ++ post)).reverse.findIdx? (fun x => !p x) = some post.length :=
    findIdx?_eq_some_iff_cut.2 ⟨post.reverse, y, rest'.reverse ++ pre.reverse, by rw [hy]; simp,
      List.length_reverse, by rw [hpy]; rfl, fun z hz => by rw [hpost z (List.mem_reverse.1 hz)]; rfl⟩
  rw [hi', Option.some.injEq] at hi
  rw [hj', Option.some.injEq] at hj
  have hpos : 0 < core.length := List.length_pos_iff.2 hne
  have hcount : (pre ++ (core ++ post)).length - 1 - j - i + 1 = core.length := by
    rw [List.length_append, List.length_append]; omega
  rw [hcount, ← hi, List.drop_left, List.take_left]

end Scan
