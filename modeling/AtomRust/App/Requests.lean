-- SUMMARY: `App`: a request that a handler works on is answered before the program gets on with its stop.
import AtomRust.App.Stages

/-!
# Requests and the stop

The task of the server waits for its connections, and a connection for its handler. So
`App::stop`, which first waits for the server, waits for every request that a handler works
on, and the managers and the runtime are there until it is answered.
-/

namespace App
variable {μ κ ρ : Type} {V : Media.Video} {σ δ ε : Type} {a a' : App μ κ ρ V σ δ ε}
  {x : Action μ κ ρ V σ δ ε} {i : Nat} {request : κ}

/-- A request is worked on only as long as the server may have a task. -/
theorem serving_of_handles (ha : (system μ κ ρ V σ δ ε).Reachable a)
    (hi : a.server.Handles i request) : a.pc.serving := by
  by_contra hpc
  rw [Bool.not_eq_true] at hpc
  have hserved := served_of_reachable ha
  have hidle := hserved.sound.not_serving (hserved.gone hpc) i
  simp [Server.serving_iff.mpr ⟨request, hi⟩] at hidle

/-- `App::stop` leaves a request alone. -/
theorem handles_of_stopStep (hpc : a.pc.serving) (hs : a.stopStep a.pc = some a')
    (hi : a.server.Handles i request) : a'.server.Handles i request := by
  cases h : a.pc with
  | running | takeHold =>
      rw [h] at hs
      cases hs
      exact hi
  | stop =>
      rw [h] at hs
      obtain ⟨worker, -, rfl⟩ := Option.map_eq_some_iff.mp hs
      exact hi
  | wait =>
      rw [h] at hs
      obtain ⟨-, hs⟩ := Option.ite_none_right_eq_some.mp hs
      cases hs
      exact hi
  | register | registering | serve | beginSessions | sessions | beginSources | sources | runtime
  | ended => simp [h, Pc.serving] at hpc

/-- Nothing but the answer takes a request from its handler. -/
theorem handles_of_step (ha : (system μ κ ρ V σ δ ε).Reachable a) (hs : a.step x = some a')
    (hx : ∀ response, x ≠ .respond i response) (hi : a.server.Handles i request) :
    a'.server.Handles i request := by
  have hpc := serving_of_handles ha hi
  have hsound := (served_of_reachable ha).sound
  cases x with
  | server b =>
      -- The answer of a handler is not among the server's own steps.
      obtain ⟨hb, hs⟩ := Option.ite_none_right_eq_some.mp hs
      obtain ⟨server, hserver, rfl⟩ := Option.map_eq_some_iff.mp hs
      refine hi.of_step hsound hserver ?_
      rintro response rfl
      cases hb
  | respond j response =>
      obtain ⟨-, hs⟩ := Option.ite_none_right_eq_some.mp hs
      obtain ⟨server, hserver, rfl⟩ := Option.map_eq_some_iff.mp hs
      refine hi.of_step hsound hserver ?_
      rintro response' ⟨⟩
      exact hx response rfl
  | stop => exact handles_of_stopStep hpc hs hi
  | serve bound =>
      obtain ⟨hserve, -⟩ := Option.ite_none_right_eq_some.mp hs
      simp [hserve, Pc.serving] at hpc
  | registered =>
      obtain ⟨hregistering, -⟩ := Option.ite_none_right_eq_some.mp hs
      simp [hregistering, Pc.serving] at hpc
  | register | setup | find | subscribe | sessions | sources | drainSession | drainSource =>
      obtain ⟨-, hs⟩ := Option.ite_none_right_eq_some.mp hs
      obtain ⟨_, -, rfl⟩ := Option.map_eq_some_iff.mp hs
      exact hi

theorem handles_of_run {as : List (Action μ κ ρ V σ δ ε)}
    (ha : (system μ κ ρ V σ δ ε).Reachable a) (hrun : Transition.run step a as = some a')
    (hx : ∀ response, .respond i response ∉ as) (hi : a.server.Handles i request) :
    a'.server.Handles i request := by
  induction as generalizing a with
  | nil =>
      cases hrun
      exact hi
  | cons x as ih =>
      obtain ⟨b, hs, hrun⟩ := Transition.run_cons_eq_some.mp hrun
      have hne : ∀ response, x ≠ .respond i response := fun response heq =>
        hx response (heq ▸ List.mem_cons_self)
      exact ih (ha.step hs) hrun (fun response hmem => hx response (List.mem_cons_of_mem _ hmem))
        (handles_of_step ha hs hne hi)

/-- Whatever happens otherwise, a request stays with its handler until that answers, and until
then `App::stop` does not get past the server. -/
theorem answer_precedes_stop {as : List (Action μ κ ρ V σ δ ε)}
    (ha : (system μ κ ρ V σ δ ε).Reachable a) (hi : a.server.Handles i request)
    (hrun : Transition.run step a as = some a') (hx : ∀ response, .respond i response ∉ as) :
    a'.server.Handles i request ∧ a'.pc.serving := by
  have hi' := handles_of_run ha hrun hx hi
  exact ⟨hi', serving_of_handles (ha.run hrun) hi'⟩

/-- The program is asked to stop before the client has its answer. -/
def rush : List (Action Nat Nat Nat .counting Nat Nat Nat) :=
  [.stop, .stop, .stop, .server (.waitForStop .stop), .server .stop, .server .stop,
    .server (.connections (.waitForStop .stop)), .server (.connections .exit), .server .stop,
    .server (.drain ⟨0⟩), .server .stop, .server .stop, .sessions (.session 0 .poll),
    .sessions (.register 0)]

theorem answer_precedes_stop_rush :
    ∃ a a', Transition.run step (start (V := .counting)) (visit.take 17) = some a ∧
      Transition.run step a rush = some a' ∧ a'.pc = .wait ∧ a'.server.Handles 0 1 := by
  obtain ⟨a, a', ha, hrun, hpc, hi⟩ :
      ∃ a a', Transition.run step (start (V := .counting)) (visit.take 17) = some a ∧
        Transition.run step a rush = some a' ∧ a'.pc = .wait ∧ a.server.Handles 0 1 :=
    ⟨_, _, rfl, rfl, rfl, _, _, rfl, rfl, rfl⟩
  have hx : ∀ response, .respond 0 response ∉ rush := by simp [rush]
  exact ⟨a, a', ha, hrun, hpc,
    (answer_precedes_stop ⟨_, visit.take 17, rfl, ha⟩ hi hrun hx).1⟩

end App
