import Mathlib.Data.Finset.Card
import Mathlib.Logic.Function.Basic
import Mathlib.Logic.Relation
/-!
# Lts — partial step functions: their runs, their invariants

A system is a step function `σ → α → Option σ`: `none` says the action is not enabled.  `Reach step P s₀ s` is a run
from `s₀` to `s` every step of which meets `P` (a condition on the state before the step and the action); the plain
runs are those of `Reach step anyStep`.  `Reach.inv`, `Reach.invFrom` and `Reach.invWith` are the induction rules: what
the first state has and every step keeps, the last two with the run so far, or an invariant of it.  `run` replays a list
of actions; a replay of `guarded` steps is a run (`reach_run`), what every step keeps a replay keeps (`run_inv`), and
`trace` lists its steps, for what is counted along a run (`run_tally`).
The last section is about what a state is made of: logs, which are extended, and tables, which change at one place;
`Tallied` says how many places of a table pass a test.
-/
namespace Lts

variable {σ α : Type}

/-- One step, by some action that meets `P`. -/
def Steps (step : σ → α → Option σ) (P : σ → α → Prop) (s s' : σ) : Prop := ∃ a, P s a ∧ step s a = some s'

/-- **A run every step of which meets `P`.** -/
def Reach (step : σ → α → Option σ) (P : σ → α → Prop) : σ → σ → Prop := Relation.ReflTransGen (Steps step P)

/-- No condition on the steps. -/
def anyStep (_ : σ) (_ : α) : Prop := True

theorem Reach.refl {step : σ → α → Option σ} {P : σ → α → Prop} (s : σ) : Reach step P s s :=
  Relation.ReflTransGen.refl

theorem Reach.tail {step : σ → α → Option σ} {P : σ → α → Prop} {s₀ s s' : σ} {a : α} (h : Reach step P s₀ s)
    (hP : P s a) (hs : step s a = some s') : Reach step P s₀ s' :=
  Relation.ReflTransGen.tail h ⟨a, hP, hs⟩

/-- **The induction rule**: what the first state has and every step keeps holds at the end of every run. -/
theorem Reach.inv {step : σ → α → Option σ} {P : σ → α → Prop} {I : σ → Prop} {s₀ s : σ} (h : Reach step P s₀ s)
    (h₀ : I s₀) (hstep : ∀ s a s', I s → P s a → step s a = some s' → I s') : I s := by
  induction h with
  | refl => exact h₀
  | tail _ hst ih =>
    obtain ⟨a, hP, hs⟩ := hst
    exact hstep _ a _ ih hP hs

/-- A condition may be weakened. -/
theorem Reach.mono {step : σ → α → Option σ} {P Q : σ → α → Prop} {s₀ s : σ} (h : Reach step P s₀ s)
    (hPQ : ∀ s a, P s a → Q s a) : Reach step Q s₀ s :=
  h.inv (I := Reach step Q s₀) (Reach.refl s₀) (fun _ _ _ hr hP hs => hr.tail (hPQ _ _ hP) hs)

theorem Reach.any {step : σ → α → Option σ} {P : σ → α → Prop} {s₀ s : σ} (h : Reach step P s₀ s) :
    Reach step anyStep s₀ s :=
  h.mono (fun _ _ _ => trivial)

/-- **The induction rule that remembers the run**: the step that keeps `I` may use that its first state is reached. -/
theorem Reach.invFrom {step : σ → α → Option σ} {P : σ → α → Prop} {I : σ → Prop} {s₀ s : σ} (h : Reach step P s₀ s)
    (h₀ : I s₀) (hstep : ∀ s a s', Reach step P s₀ s → I s → P s a → step s a = some s' → I s') : I s := by
  induction h with
  | refl => exact h₀
  | tail hr hst ih =>
    obtain ⟨a, hP, hs⟩ := hst
    exact hstep _ a _ hr ih hP hs

/-- **The induction rule above a known invariant**: `J` holds wherever a run from `s₀` leads, so the step that keeps
`I` may use it. -/
theorem Reach.invWith {step : σ → α → Option σ} {P : σ → α → Prop} {I J : σ → Prop} {s₀ s : σ} (h : Reach step P s₀ s)
    (hJ : ∀ s, Reach step anyStep s₀ s → J s) (h₀ : I s₀)
    (hstep : ∀ s a s', J s → I s → P s a → step s a = some s' → I s') : I s :=
  h.invFrom h₀ (fun s a s' hr hi hP hs => hstep s a s' (hJ s hr.any) hi hP hs)

/-! ## Replaying a list of actions -/

/-- The state after the actions, `none` once one of them is not enabled. -/
def run (step : σ → α → Option σ) : σ → List α → Option σ
  | s, [] => some s
  | s, a :: as => (step s a).bind (fun s' => run step s' as)

theorem run_cons (step : σ → α → Option σ) (s : σ) (a : α) (as : List α) :
    run step s (a :: as) = (step s a).bind (fun s' => run step s' as) := rfl

theorem run_append (step : σ → α → Option σ) : ∀ (s : σ) (as bs : List α),
    run step s (as ++ bs) = (run step s as).bind (fun s' => run step s' bs)
  | _, [], _ => rfl
  | s, a :: as, bs => by
    rw [List.cons_append, run_cons, run_cons, Option.bind_assoc]
    exact Option.bind_congr (fun s' _ => run_append step s' as bs)

/-- The step function, enabled only where the test is passed. -/
def guarded (step : σ → α → Option σ) (p : σ → α → Bool) (s : σ) (a : α) : Option σ :=
  if p s a then step s a else none

/-- **A replay of guarded steps is a run.** -/
theorem reach_run {step : σ → α → Option σ} {p : σ → α → Bool} : ∀ (as : List α) {s₀ s s' : σ},
    Reach step (fun s a => p s a = true) s₀ s → run (guarded step p) s as = some s' →
      Reach step (fun s a => p s a = true) s₀ s'
  | [], _, _, _, hr, hrun => by cases hrun; exact hr
  | a :: as, s₀, s, s', hr, hrun => by
    rw [run_cons, guarded] at hrun
    split at hrun
    · rename_i hp
      cases hs : step s a with
      | none => rw [hs] at hrun; cases hrun
      | some t =>
        rw [hs] at hrun
        exact reach_run as (hr.tail hp hs) hrun
    · cases hrun

/-- The replay of a list, and a test passed at its end. -/
theorem exists_run (step : σ → α → Option σ) (s₀ : σ) (as : List α) (f : σ → Bool)
    (h : (run step s₀ as).any f = true) : ∃ s, run step s₀ as = some s ∧ f s = true :=
  (Option.any_eq_true f (run step s₀ as)).1 h

/-- A replay of steps that meet a condition is a run to a state that passes the test. -/
theorem exists_reach (step : σ → α → Option σ) (p : σ → α → Bool) (s₀ : σ) (as : List α) (f : σ → Bool)
    (h : (run (guarded step p) s₀ as).any f = true) :
    ∃ s, Reach step (fun s a => p s a = true) s₀ s ∧ f s = true := by
  obtain ⟨s, hs, hf⟩ := exists_run (guarded step p) s₀ as f h
  exact ⟨s, reach_run as (Reach.refl s₀) hs, hf⟩

/-- A replay of actions each of which meets the condition anywhere is a run. -/
theorem reach_of_run {step : σ → α → Option σ} {P : σ → α → Prop} {s₀ : σ} : ∀ (as : List α) {s s' : σ},
    (∀ a ∈ as, ∀ s, P s a) → Reach step P s₀ s → run step s as = some s' → Reach step P s₀ s'
  | [], _, _, _, hr, hrun => by cases hrun; exact hr
  | a :: as, s, s', hP, hr, hrun => by
    obtain ⟨t, hs, hrun⟩ := Option.bind_eq_some_iff.1 hrun
    obtain ⟨ha, has⟩ := List.forall_mem_cons.1 hP
    exact reach_of_run as has (hr.tail (ha s) hs) hrun

theorem reach_any {step : σ → α → Option σ} {s s' : σ} {as : List α} (h : run step s as = some s') :
    Reach step anyStep s s' :=
  reach_of_run as (fun _ _ _ => trivial) (Reach.refl s) h

/-- **What every step keeps a replay keeps.** -/
theorem run_inv {step : σ → α → Option σ} {I : σ → Prop} {s s' : σ} {as : List α}
    (hstep : ∀ s a s', I s → step s a = some s' → I s') (h₀ : I s) (h : run step s as = some s') : I s' :=
  (reach_any h).inv h₀ (fun s a s' hi _ hs => hstep s a s' hi hs)

/-- The steps of a replay: the state before, the action, the state after. -/
def trace (step : σ → α → Option σ) : σ → List α → List (σ × α × σ)
  | _, [] => []
  | s, a :: as => ((step s a).map (fun s' => (s, a, s') :: trace step s' as)).getD []

/-- **A step of a replay**: it is reached, and the end is reached from it. -/
theorem of_mem_trace {step : σ → α → Option σ} {s₀ t : σ} {x : σ × α × σ} : ∀ (as : List α) {s : σ},
    Reach step anyStep s₀ s → run step s as = some t → x ∈ trace step s as →
      Reach step anyStep s₀ x.1 ∧ step x.1 x.2.1 = some x.2.2 ∧ Reach step anyStep x.2.2 t
  | [], _, _, _, hx => by cases hx
  | a :: as, s, hr, hrun, hx => by
    obtain ⟨s', hs, hrun⟩ := Option.bind_eq_some_iff.1 hrun
    rw [trace, hs] at hx
    rcases List.mem_cons.1 hx with rfl | hx
    · exact ⟨hr, hs, reach_any hrun⟩
    · exact of_mem_trace as (hr.tail trivial hs) hrun hx

/-- A measure added up over a list. -/
def tally (g : α → Nat) : List α → Nat
  | [] => 0
  | x :: xs => g x + tally g xs

/-- **What every step adds to, the run adds up to.** -/
theorem run_tally {step : σ → α → Option σ} {R : σ → Nat → Prop} {g : σ × α × σ → Nat}
    (hstep : ∀ s a s' n, step s a = some s' → R s n → R s' (n + g (s, a, s'))) : ∀ (as : List α) {s s' : σ} {n : Nat},
    run step s as = some s' → R s n → R s' (n + tally g (trace step s as))
  | [], _, _, _, hrun, h => by cases hrun; exact h
  | a :: as, s, s', n, hrun, h => by
    obtain ⟨t, hs, hrun⟩ := Option.bind_eq_some_iff.1 hrun
    have := run_tally hstep as hrun (hstep s a t n hs h)
    rw [Nat.add_assoc] at this
    rw [trace, hs]
    exact this

/-! ## Tables and logs -/

theorem update_cases {ι τ : Type} [DecidableEq ι] {f g : ι → τ} {i : ι} {x : τ} (h : g = Function.update f i x)
    (j : ι) : (j = i ∧ g j = x) ∨ (j ≠ i ∧ g j = f j) := by
  rw [h]
  by_cases hj : j = i
  · subst hj; exact .inl ⟨rfl, Function.update_self j x f⟩
  · exact .inr ⟨hj, Function.update_of_ne hj x f⟩

/-- What holds of every place, and of the new value at the one that changes, holds of every place after. -/
theorem update_all {ι τ : Type} [DecidableEq ι] {f g : ι → τ} {i : ι} {x : τ} {Q : ι → τ → Prop}
    (h : g = Function.update f i x) (hi : Q i x) (hf : ∀ j, Q j (f j)) (j : ι) : Q j (g j) := by
  rcases update_cases h j with ⟨rfl, hj⟩ | ⟨-, hj⟩
  · rw [hj]; exact hi
  · rw [hj]; exact hf j

/-- **Exactly `n` places of the table pass the test.** -/
def Tallied {ι τ : Type} (p : τ → Bool) (f : ι → τ) (n : Nat) : Prop :=
  ∃ S : Finset ι, (∀ i, i ∈ S ↔ p (f i) = true) ∧ S.card = n

section

variable {ι τ : Type} {p q : τ → Bool} {f g : ι → τ} {n : Nat}

theorem tallied_zero (h : ∀ i, p (f i) = false) : Tallied p f 0 :=
  ⟨∅, fun i => by simp [h i], rfl⟩

theorem Tallied.congr (h : Tallied p f n) (hg : ∀ i, q (g i) = p (f i)) : Tallied q g n := by
  obtain ⟨S, hS, hn⟩ := h
  exact ⟨S, fun i => by rw [hS, hg], hn⟩

theorem Tallied.unique {m : Nat} (h : Tallied p f n) (h' : Tallied p f m) : n = m := by
  obtain ⟨S, hS, rfl⟩ := h
  obtain ⟨S', hS', rfl⟩ := h'
  rw [show S = S' from Finset.ext (fun i => by rw [hS, hS'])]

variable [DecidableEq ι] {i : ι} {x : τ}

theorem Tallied.same (h : Tallied p f n) (hg : g = Function.update f i x) (hx : p x = p (f i)) : Tallied p g n := by
  refine h.congr (fun j => ?_)
  rcases update_cases hg j with ⟨rfl, hj⟩ | ⟨-, hj⟩
  · rw [hj, hx]
  · rw [hj]

theorem Tallied.gain (h : Tallied p f n) (hg : g = Function.update f i x) (hold : p (f i) = false) (hx : p x = true) :
    Tallied p g (n + 1) := by
  obtain ⟨S, hS, hn⟩ := h
  have hi : i ∉ S := by rw [hS, hold]; exact Bool.false_ne_true
  refine ⟨insert i S, fun j => ?_, by rw [Finset.card_insert_of_notMem hi, hn]⟩
  rw [Finset.mem_insert, hS]
  rcases update_cases hg j with ⟨rfl, hj⟩ | ⟨hne, hj⟩
  · rw [hj, hx]; simp
  · rw [hj]; simp [hne]

theorem Tallied.lose (h : Tallied p f n) (hg : g = Function.update f i x) (hold : p (f i) = true) (hx : p x = false) :
    ∃ m, n = m + 1 ∧ Tallied p g m := by
  obtain ⟨S, hS, hn⟩ := h
  have hi : i ∈ S := (hS i).2 hold
  refine ⟨(S.erase i).card, by rw [Finset.card_erase_add_one hi, hn], S.erase i, fun j => ?_, rfl⟩
  rw [Finset.mem_erase, hS]
  rcases update_cases hg j with ⟨rfl, hj⟩ | ⟨hne, hj⟩
  · rw [hj, hx]; simp
  · rw [hj]; simp [hne]

end

theorem getElem?_set_cases {l : List α} {i j : Nat} {a b : α} (h : (l.set i a)[j]? = some b) :
    (j = i ∧ b = a) ∨ (j ≠ i ∧ l[j]? = some b) := by
  rw [List.getElem?_set] at h
  split at h
  · rename_i hij
    split at h
    · exact .inl ⟨hij.symm, (Option.some.inj h).symm⟩
    · cases h
  · rename_i hij
    exact .inr ⟨Ne.symm hij, h⟩

theorem getElem?_snoc_iff {l : List α} {j : Nat} {a b : α} :
    (l ++ [a])[j]? = some b ↔ l[j]? = some b ∨ (j = l.length ∧ b = a) := by
  constructor
  · intro h
    rw [List.getElem?_append] at h
    split at h
    · exact .inl h
    · obtain ⟨hlt, hb⟩ := List.getElem?_eq_some_iff.1 h
      rw [List.length_singleton] at hlt
      exact .inr ⟨by omega, by rw [← hb]; simp⟩
  · rintro (h | ⟨rfl, rfl⟩)
    · rw [List.getElem?_append_left (List.getElem?_eq_some_iff.1 h).1]; exact h
    · exact List.getElem?_concat_length

/-- **A place of a list**: what stands before and after it, and the list with that place changed or taken out. -/
theorem getElem?_split {l : List α} {i : Nat} {a : α} (h : l[i]? = some a) :
    ∃ pre post, l = pre ++ a :: post ∧ (∀ b, l.set i b = pre ++ b :: post) ∧ l.eraseIdx i = pre ++ post ∧
      pre.length = i := by
  obtain ⟨hlt, hget⟩ := List.getElem?_eq_some_iff.1 h
  refine ⟨l.take i, l.drop (i + 1), ?_, fun b => ?_, List.eraseIdx_eq_take_drop_succ l i, List.length_take_of_le hlt.le⟩
  · rw [← hget, List.getElem_cons_drop, List.take_append_drop]
  · exact List.set_eq_take_append_cons_drop.trans (if_pos hlt)

theorem sublist_snoc {l : List α} {e e' : α} (h : e ∈ l) : [e, e'].Sublist (l ++ [e']) :=
  (List.singleton_sublist.2 h).append (List.Sublist.refl [e'])

end Lts
