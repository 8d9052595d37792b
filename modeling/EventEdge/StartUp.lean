import EventEdge.Arguments
import EventEdge.Program
/-!
# StartUp — from the command line to the first handler (`main.cpp`)

`CommandLine` says which command lines `main` takes and what they mean, without saying how they are read.  `main` is
the code up to the start of the workers; the results of the system's calls are a parameter.  It starts the program
exactly on such a command line, when the acceptor can listen there (`main_ok_iff`).
-/
namespace EventEdge

section

variable {Address : Type} {makeAddress : Str → Option Address} {hardwareConcurrency : UInt32}

/-- The decimal digits of a worker count. -/
def WorkerDigits (digits : Str) (count : UInt32) : Prop :=
  ∃ value, ofDecimal digits = some value ∧ 1 ≤ value ∧ value < 4294967296 ∧ count.toNat = value

/-- **The command lines of the program**, its name first: no argument at all, or an address, a port, a number of workers
and at least one upstream. -/
inductive CommandLine (makeAddress : Str → Option Address) (hardwareConcurrency : UInt32) :
    List Str → Arguments Address → Prop
  | bare (name : Str) (address : Address) : makeAddress "127.0.0.1".toList = some address →
      CommandLine makeAddress hardwareConcurrency [name]
        ⟨address, 8080, defaultWorkerCount hardwareConcurrency, [⟨"127.0.0.1".toList, 9000⟩]⟩
  | full (name listenAddress listenPort workers : Str) (texts : List Str) (address : Address) (port : UInt16)
      (workerCount : UInt32) (upstreams : List UpstreamEndpoint) : makeAddress listenAddress = some address →
      PortDigits listenPort port → WorkerDigits workers workerCount → texts ≠ [] →
      List.Forall₂ UpstreamText texts upstreams →
      CommandLine makeAddress hardwareConcurrency (name :: listenAddress :: listenPort :: workers :: texts)
        ⟨address, port, workerCount, upstreams⟩

theorem parseWorkerCount_ok_iff {value : Str} {count : UInt32} :
    parseWorkerCount value = .ok count ↔ WorkerDigits value count := by
  unfold parseWorkerCount
  dsimp only
  constructor
  · intro h
    split at h
    · cases h
    · rename_i hgood
      simp only [not_or, ne_eq, not_not] at hgood
      obtain ⟨herr, hrest, hzero⟩ := hgood
      cases h
      obtain ⟨hdec, hlt⟩ := (fromChars_whole value 0 _).1 ⟨herr, hrest, rfl⟩
      have hpos : (fromChars value 0).value.toNat ≠ 0 := fun he => hzero (UInt32.toNat_inj.1 he)
      exact ⟨_, hdec, by omega, hlt, rfl⟩
  · rintro ⟨n, hdec, hpos, hlt, hcount⟩
    obtain ⟨herr, hrest, hval⟩ := (fromChars_whole value 0 n).2 ⟨hdec, hlt⟩
    have hsame : (fromChars value 0).value = count := UInt32.toNat_inj.1 (hval.trans hcount.symm)
    have hzero : count ≠ 0 := fun he => by rw [he] at hcount; simp at hcount; omega
    rw [if_neg (by simp only [herr, hrest, hsame, hzero, ne_eq, not_true, or_self, not_false_iff]), hsame]

theorem ok_of_mapError {ε ε' α : Type} {f : ε → ε'} {x : Except ε α} {v : α} (h : x.mapError f = .ok v) : x = .ok v := by
  cases x with
  | error e => cases h
  | ok w => cases h; rfl

theorem ok_of_bind {ε α β : Type} {x : Except ε α} {f : α → Except ε β} {v : β} (h : x >>= f = .ok v) :
    ∃ w, x = .ok w ∧ f w = .ok v := by
  cases x with
  | error e => cases h
  | ok w => exact ⟨w, rfl, h⟩

theorem mapError_ok_iff {ε ε' α : Type} {f : ε → ε'} {x : Except ε α} {v : α} : x.mapError f = .ok v ↔ x = .ok v :=
  ⟨ok_of_mapError, fun h => by rw [h]; rfl⟩

theorem bind_ok_iff {ε α β : Type} {x : Except ε α} {f : α → Except ε β} {v : β} :
    x >>= f = .ok v ↔ ∃ w, x = .ok w ∧ f w = .ok v :=
  ⟨ok_of_bind, fun ⟨w, hx, hf⟩ => by rw [hx]; exact hf⟩

theorem elim_ok_iff {ε α : Type} {e : ε} {x : Option α} {v : α} : x.elim (.error e) Except.ok = .ok v ↔ x = some v := by
  cases x with
  | none => exact ⟨fun h => (by cases h), fun h => (by cases h)⟩
  | some w => exact ⟨fun h => by cases h; rfl, fun h => by cases h; rfl⟩

/-- **`main` reads exactly the command lines**, and what they say. -/
theorem parseArguments_ok_iff {argv : List Str} {a : Arguments Address} :
    parseArguments makeAddress hardwareConcurrency argv = .ok a ↔ CommandLine makeAddress hardwareConcurrency argv a := by
  constructor
  · intro h
    unfold parseArguments at h
    split at h
    · obtain ⟨address, haddress, h⟩ := ok_of_bind h
      cases h
      exact .bare _ address (elim_ok_iff.1 haddress)
    · obtain ⟨address, haddress, h⟩ := ok_of_bind h
      obtain ⟨port, hport, h⟩ := ok_of_bind h
      obtain ⟨workerCount, hworkers, h⟩ := ok_of_bind h
      obtain ⟨upstreams, hups, h⟩ := ok_of_bind h
      cases h
      exact .full _ _ _ _ _ address port workerCount upstreams (elim_ok_iff.1 haddress)
        (parsePort_ok_iff.1 (ok_of_mapError hport)) (parseWorkerCount_ok_iff.1 (ok_of_mapError hworkers))
        (List.cons_ne_nil _ _) (parseUpstreams_ok_iff.1 (ok_of_mapError hups))
    · cases h
  · intro h
    cases h with
    | bare name address haddress => exact bind_ok_iff.2 ⟨address, elim_ok_iff.2 haddress, rfl⟩
    | full name listenAddress listenPort workers texts address port workerCount upstreams haddress hport hworkers hne
        hups =>
      obtain ⟨text, texts, rfl⟩ := List.exists_cons_of_ne_nil hne
      refine bind_ok_iff.2 ⟨address, elim_ok_iff.2 haddress, bind_ok_iff.2 ⟨port, ?_, bind_ok_iff.2 ⟨workerCount, ?_,
        bind_ok_iff.2 ⟨upstreams, ?_, rfl⟩⟩⟩⟩
      · exact mapError_ok_iff.2 (parsePort_ok_iff.2 hport)
      · exact mapError_ok_iff.2 (parseWorkerCount_ok_iff.2 hworkers)
      · exact mapError_ok_iff.2 (parseUpstreams_ok_iff.2 hups)

theorem CommandLine.upstreams_ne_nil {argv : List Str} {a : Arguments Address}
    (h : CommandLine makeAddress hardwareConcurrency argv a) : a.upstreams ≠ [] := by
  cases h with
  | bare => exact List.cons_ne_nil _ _
  | full _ _ _ _ texts _ _ _ upstreams _ _ _ hne hups =>
    rintro rfl
    exact hne (List.forall₂_nil_right_iff.1 hups)

end

namespace Program

/-- What `main` asks the system, and the parts of the libraries the model takes as they are. -/
structure Environment (Address ε : Type) where
  makeAddress : Str → Option Address
  hardwareConcurrency : UInt32
  calls : Address → UInt16 → HttpServer.Calls ε
  beast : Beast
  formatSum : UInt64 → Str
  now : Int

/-- How `main` ends before the workers start. -/
inductive Failure (ε : Type) where
  | start (error : StartError)
  | pool (thrown : Thrown)
  | acceptor (error : ε × String)

variable {Address ε : Type}

/-- The server `main` makes: the default options, and a coalescer. -/
def Environment.config (env : Environment Address ε) (pool : UpstreamPool) : Server.Config :=
  { beast := env.beast, cacheOptions := {}, capacity_ne_zero := by decide, pool, hasCoalescer := true, timeouts := {},
    formatSum := env.formatSum, start := env.now }

/-- `main`, up to the start of the workers. -/
def main (env : Environment Address ε) (argv : List Str) : Except (Failure ε) State := do
  let arguments ← (parseArguments env.makeAddress env.hardwareConcurrency argv).mapError .start
  let pool ← (UpstreamPool.make arguments.upstreams).mapError .pool
  let acceptor ← (HttpServer.make (env.calls arguments.address arguments.port)).mapError .acceptor
  return init (env.config pool) acceptor

theorem make_ok_iff {upstreams : List UpstreamEndpoint} {pool : UpstreamPool} (hne : upstreams ≠ []) :
    UpstreamPool.make upstreams = .ok pool ↔ pool.backends = upstreams.map (fun e => ⟨e, true⟩) ∧ pool.nextIndex = 0 := by
  unfold UpstreamPool.make
  rw [dif_neg hne]
  constructor
  · intro h
    cases h
    exact ⟨rfl, rfl⟩
  · rintro ⟨hbackends, hnext⟩
    obtain ⟨backends, nextIndex, hlt⟩ := pool
    cases hbackends
    cases hnext
    rfl

/-- **The program starts exactly on its command lines**, when the acceptor can listen where they say; and it starts with
the upstreams as given, all in rotation, the first accept outstanding and nothing else done. -/
theorem main_ok_iff (env : Environment Address ε) (argv : List Str) (st : State) : main env argv = .ok st ↔
    ∃ arguments pool, CommandLine env.makeAddress env.hardwareConcurrency argv arguments ∧
      env.calls arguments.address arguments.port = ⟨none, none, none, none⟩ ∧
      pool.backends = arguments.upstreams.map (fun e => ⟨e, true⟩) ∧ pool.nextIndex = 0 ∧
      st = init (env.config pool) ⟨true, [], 0, [], 0⟩ := by
  unfold main
  rw [bind_ok_iff]
  constructor
  · rintro ⟨arguments, hargs, h⟩
    have hline := parseArguments_ok_iff.1 (ok_of_mapError hargs)
    obtain ⟨pool, hpool, h⟩ := ok_of_bind h
    obtain ⟨acceptor, hacc, h⟩ := ok_of_bind h
    cases h
    obtain ⟨hcalls, rfl⟩ := HttpServer.make_ok_iff.1 (ok_of_mapError hacc)
    obtain ⟨hbackends, hnext⟩ := (make_ok_iff hline.upstreams_ne_nil).1 (ok_of_mapError hpool)
    exact ⟨arguments, pool, hline, hcalls, hbackends, hnext, rfl⟩
  · rintro ⟨arguments, pool, hline, hcalls, hbackends, hnext, rfl⟩
    refine ⟨arguments, mapError_ok_iff.2 (parseArguments_ok_iff.2 hline), bind_ok_iff.2 ⟨pool, ?_, bind_ok_iff.2
      ⟨⟨true, [], 0, [], 0⟩, ?_, rfl⟩⟩⟩
    · exact mapError_ok_iff.2 ((make_ok_iff hline.upstreams_ne_nil).2 ⟨hbackends, hnext⟩)
    · exact mapError_ok_iff.2 (HttpServer.make_ok_iff.2 ⟨hcalls, rfl⟩)

end Program
end EventEdge
