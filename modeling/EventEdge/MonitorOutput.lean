import EventEdge.Monitor
/-!
# MonitorOutput — what the monitor says about the backends (`upstream_health_monitor.cpp`)

`complete` writes a line to `std::cerr` when `set_healthy` says that the flag changed.  `output` is what the handler of
an action writes; the lines about one backend, over any run, tell its flag turn by turn.
-/
namespace EventEdge
namespace Monitor

/-- A line about a backend: it recovered, or it became unhealthy. -/
structure Announcement where
  index : Nat
  healthy : Bool
  deriving DecidableEq, Repr

/-- The line `complete` writes; `endpoint(index)` throws where there is none. -/
def Announcement.text (pool : UpstreamPool) (a : Announcement) : Option Str :=
  (pool.backends[a.index]?).map (fun b => "Upstream ".toList ++ endpointLabel b.endpoint ++
    (if a.healthy then " recovered\n".toList else " became unhealthy\n".toList))

/-- What `complete` writes for probe `c`. -/
def announced (st : State) (c : HealthCheck) (healthy : Bool) : List Announcement :=
  if c.completed then []
  else match st.pool.setHealthy c.index healthy with
    | some (true, _) => [⟨c.index, healthy⟩]
    | _ => []

/-- What the handler of the action writes. -/
def output (st : State) : Action → List Announcement
  | .timeout id => match st.checks[id]? with
    | some c => if c.timeoutTimer = some .expired then announced st c false else []
    | none => []
  | .resolved id ok => match st.checks[id]? with
    | some c => if c.resolving && !ok then announced st c false else []
    | none => []
  | .connected id ok => match st.checks[id]? with
    | some c => if c.connecting then announced st c ok else []
    | none => []
  | _ => []

/-- Everything written along a replay, oldest first, and its text as it was written. -/
def said (st : State) (as : List Action) : List Announcement :=
  (Lts.trace step st as).flatMap (fun x => output x.1 x.2.1)

def printed (st : State) (as : List Action) : List (Option Str) :=
  (Lts.trace step st as).flatMap (fun x => (output x.1 x.2.1).map (Announcement.text x.2.2.pool))

/-- What was said about backend `i`. -/
def aboutBackend (i : Nat) (l : List Announcement) : List Bool :=
  (l.filter (fun a => decide (a.index = i))).map Announcement.healthy

/-- **The values take turns**: from `b` each is the other one, and the last is `b'`. -/
def Alternates (b : Bool) : List Bool → Bool → Prop
  | [], b' => b = b'
  | x :: l, b' => x = !b ∧ Alternates x l b'

theorem Alternates.append : ∀ {l l' : List Bool} {a b c : Bool}, Alternates a l b → Alternates b l' c →
    Alternates a (l ++ l') c
  | [], _, _, _, _, h, h' => by cases h; exact h'
  | _ :: _, _, _, _, _, ⟨hx, h⟩, h' => ⟨hx, h.append h'⟩

variable {st st' : State}

theorem aboutBackend_append (i : Nat) (l l' : List Announcement) :
    aboutBackend i (l ++ l') = aboutBackend i l ++ aboutBackend i l' := by
  rw [aboutBackend, List.filter_append, List.map_append]
  rfl

theorem aboutBackend_self (i : Nat) (healthy : Bool) : aboutBackend i [⟨i, healthy⟩] = [healthy] := by
  simp [aboutBackend]

theorem aboutBackend_other {i j : Nat} (h : j ≠ i) (healthy : Bool) : aboutBackend i [⟨j, healthy⟩] = [] := by
  simp [aboutBackend, h]

/-- **`complete` writes a line exactly when it turns a flag.** -/
theorem complete_announces (st : State) (id : Nat) (c : HealthCheck) (healthy : Bool) (i : Nat) :
    Alternates (st.pool.healthyAt i) (aboutBackend i (announced st c healthy))
      ((complete st id c healthy).pool.healthyAt i) := by
  unfold announced complete
  split
  · exact rfl
  · cases hset : st.pool.setHealthy c.index healthy with
    | none => exact rfl
    | some res =>
      obtain ⟨changed, pool⟩ := res
      obtain ⟨-, hself, hother, hchanged⟩ := UpstreamPool.setHealthy_some hset
      dsimp only
      rw [(onCheckComplete_frame _).2.2.2.1]
      dsimp only
      by_cases hi : c.index = i
      · subst hi
        rw [hself]
        cases changed with
        | true =>
          have hne := hchanged.1 rfl
          show Alternates _ (aboutBackend c.index [⟨c.index, healthy⟩]) healthy
          rw [aboutBackend_self]
          exact ⟨by cases healthy <;> simpa using hne, rfl⟩
        | false =>
          have heq : st.pool.healthyAt c.index = healthy := by
            by_contra hne
            cases hchanged.2 hne
          exact heq
      · rw [hother i (Ne.symm hi)]
        cases changed with
        | true =>
          show Alternates _ (aboutBackend i [⟨c.index, healthy⟩]) _
          rw [aboutBackend_other hi]
          exact rfl
        | false => exact rfl

/-- One step: what is written about a backend turns its flag, and nothing else does. -/
theorem output_alternates (a : Action) (h : step st a = some st') (i : Nat) :
    Alternates (st.pool.healthyAt i) (aboutBackend i (output st a)) (st'.pool.healthyAt i) := by
  cases a with
  | start =>
    simp only [step] at h
    split at h
    · cases h
    · cases h; rw [scheduleNextCheck_pool]; exact rfl
  | stop => cases h; exact rfl
  | expire k =>
    simp only [step] at h
    split at h
    · cases h; exact rfl
    · cases h
  | timer k =>
    simp only [step] at h
    split at h
    · cases h
      unfold runChecks
      split <;> exact rfl
    · cases h; exact rfl
    · cases h
  | probeExpire id =>
    simp only [step] at h
    split at h
    · split at h
      · cases h; exact rfl
      · cases h
    · cases h
  | timeout id =>
    simp only [step] at h
    split at h
    · rename_i c hc
      split at h
      · rename_i hw
        cases h
        simp only [output, hc, hw, if_true]
        exact complete_announces st id { c with timeoutTimer := none, history := c.history ++ [.timeout false] } false i
      · rename_i hw
        cases h
        simp only [output, hc, hw, onTimeout]
        exact rfl
      · cases h
    · cases h
  | resolved id ok =>
    simp only [step] at h
    split at h
    · rename_i c hc
      split at h
      · rename_i hres
        cases h
        simp only [output, hc, hres, Bool.true_and, onResolve]
        cases ok with
        | true =>
          simp only [Bool.not_true, Bool.false_eq_true, if_false, if_true]
          split <;> exact rfl
        | false =>
          simp only [Bool.not_false, Bool.false_eq_true, if_false, if_true]
          split
          · rename_i hd
            rw [announced, if_pos hd]
            exact rfl
          · exact complete_announces st id
              { c with resolving := false, history := c.history ++ [.resolved false] } false i
      · cases h
    · cases h
  | connected id ok =>
    simp only [step] at h
    split at h
    · rename_i c hc
      split at h
      · rename_i hcon
        cases h
        simp only [output, hc, hcon, if_true]
        exact complete_announces st id { c with connecting := false, history := c.history ++ [.connected ok] } ok i
      · cases h
    · cases h
  | select => cases h; rw [UpstreamPool.select_healthyAt]; exact rfl

theorem said_cons {a : Action} {as : List Action} (h : step st a = some st') :
    said st (a :: as) = output st a ++ said st' as := by
  rw [said, Lts.trace, h]
  rfl

theorem printed_cons {a : Action} {as : List Action} (h : step st a = some st') :
    printed st (a :: as) = (output st a).map (Announcement.text st'.pool) ++ printed st' as := by
  rw [printed, Lts.trace, h]
  rfl

/-- No step changes an endpoint, so that a line reads the same whenever it is written. -/
theorem Step.text_eq {a : Action} (hs : Step st a st') : Announcement.text st'.pool = Announcement.text st.pool := by
  have hframe : ∀ {p q : UpstreamPool}, q.backends.map Backend.endpoint = p.backends.map Backend.endpoint →
      Announcement.text q = Announcement.text p := by
    intro p q h
    funext ann
    have hat := congrArg (fun l => l[ann.index]?) h
    simp only [List.getElem?_map] at hat
    unfold Announcement.text
    cases hp : p.backends[ann.index]? with
    | none => rw [hp] at hat; rw [Option.map_eq_none_iff.1 hat]
    | some b =>
      rw [hp] at hat
      obtain ⟨b', hb', he⟩ := Option.map_eq_some_iff.1 hat
      rw [hb', Option.map_some, Option.map_some, he]
  rcases hs.shared with ⟨hpool, -⟩ | rfl | ⟨index, healthy, changed, hset, -⟩
  · rw [hpool]
  · cases hs with
    | select => exact hframe (by rw [UpstreamPool.select_backends])
    | quiet | throw => rfl
    | finish _ _ _ _ _ _ _ _ _ _ _ _ hset =>
      rw [(onCheckComplete_frame _).2.2.2.1]
      exact hframe (UpstreamPool.setHealthy_frame hset).1
  · exact hframe (UpstreamPool.setHealthy_frame hset).1

/-- **The lines about a backend take turns.**  Over any run, from any state, what is written about one backend says
alternately that it became unhealthy and that it recovered, beginning with what it was not; the last line says what its
flag is, and every line names the endpoint at its place. -/
theorem lines_alternate : ∀ (as : List Action) {st st' : State}, Lts.run step st as = some st' →
    (∀ i, Alternates (st.pool.healthyAt i) (aboutBackend i (said st as)) (st'.pool.healthyAt i)) ∧
    printed st as = (said st as).map (Announcement.text st.pool)
  | [], _, _, hrun => by cases hrun; exact ⟨fun _ => rfl, rfl⟩
  | a :: as, st, st', hrun => by
    obtain ⟨t, hs, hrun⟩ := Option.bind_eq_some_iff.1 hrun
    obtain ⟨halt, htext⟩ := lines_alternate as hrun
    have hsame := (step_sound a hs).text_eq
    rw [said_cons hs, printed_cons hs, htext, hsame, List.map_append]
    refine ⟨fun i => ?_, rfl⟩
    rw [aboutBackend_append]
    exact (output_alternates a hs i).append (halt i)

/-- Two rounds: the backend cannot be resolved, and then it connects. -/
theorem lines_alternate_flapping : ∃ st, Lts.run step (init ⟨[⟨⟨"a".toList, 80⟩, true⟩], 0, by decide⟩ none)
      [.start, .expire 0, .timer 0, .resolved 0 false, .expire 0, .timer 0, .resolved 1 true, .connected 1 true] =
        some st ∧
    printed (init ⟨[⟨⟨"a".toList, 80⟩, true⟩], 0, by decide⟩ none)
      [.start, .expire 0, .timer 0, .resolved 0 false, .expire 0, .timer 0, .resolved 1 true, .connected 1 true] =
        [some "Upstream a:80 became unhealthy\n".toList, some "Upstream a:80 recovered\n".toList] ∧
    Alternates true [false, true] (st.pool.healthyAt 0) := by
  obtain ⟨st, hrun, -⟩ := Lts.exists_run step (init ⟨[⟨⟨"a".toList, 80⟩, true⟩], 0, by decide⟩ none)
    [.start, .expire 0, .timer 0, .resolved 0 false, .expire 0, .timer 0, .resolved 1 true, .connected 1 true]
    (fun _ => true) (by decide +kernel)
  exact ⟨st, hrun, by decide +kernel, (lines_alternate _ hrun).1 0⟩

end Monitor
end EventEdge
