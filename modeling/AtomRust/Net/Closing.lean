-- SUMMARY: The task of the server, once it is asked to stop, always gets to its end, if the handlers answer and the writes end.
import AtomRust.Net.Listener
import AtomRust.Net.Stopping

/-!
# Stopping the server gets to its end

The task may be in the middle of a `spawn` when it is asked to stop. It then returns to its
`select!`, leaves the loop there, and waits for the connection manager.
-/

open Connection (WriteResult)
open Runtime (Stopper)
open Transition (Leads)

namespace ConnectionManager
variable {μ κ ρ : Type} {m m' : ConnectionManager μ κ ρ} {a : Action μ κ ρ}

/-- The connections and the worker leave a `spawn` alone. -/
theorem spawning_of_step (h : m.step a = some m') (ha : Server.ofConnections a) :
    m'.spawning = m.spawning := by
  by_cases hworker : a.ofWorker
  · obtain ⟨i, u, v, new, hworked⟩ := worked_of_step hworker h
    rw [hworked.after]
    rfl
  cases a with
  | poll | conn | connStop | connExit | finish => exact absurd rfl hworker
  | recv =>
      simp only [step, recv] at h
      split at h <;> cases h
      rfl
  | remove =>
      simp only [step, remove] at h
      split at h <;> cases h
      simp [note]
  | waitForStop src =>
      obtain ⟨-, h⟩ := Option.ite_none_right_eq_some.mp h
      obtain ⟨worker, -, rfl⟩ := Option.map_eq_some_iff.mp h
      rfl
  | exit =>
      obtain ⟨-, h⟩ := Option.ite_none_right_eq_some.mp h
      cases h
      rfl
  | spawn | insert | beginStop | stop | drain | refuse | stopAll => cases ha

theorem quiet_iff : m.quiet ↔ m.spawning = none ∧ m.stopPc = none := by
  simp [quiet]

end ConnectionManager

namespace Server
variable {μ κ ρ : Type} {s s' : Server μ κ ρ} {a : Action μ κ ρ} {accepting : Bool}
  {stopAll : List Unit} {stopper : Stopper} {m : ConnectionManager μ κ ρ}
  {socket : Nat → WriteResult}

/-! ## The task and the connection manager -/

/-- What the connection manager is about, seen from the task. -/
structure Aligned (s : Server μ κ ρ) : Prop where
  select : ∀ m, s.connections = some m → s.workerPc = .select → m.quiet
  spawn : ∀ m, s.connections = some m → s.workerPc = .spawn → m.spawning.isSome
  polled : s.workerPc = .select ∨ s.workerPc = .spawn ∨ s.workerPc = .stop →
    s.connections.isSome

namespace Aligned

/-- The task is not in its loop. -/
theorem of_not_running (hselect : s.workerPc ≠ .select) (hspawn : s.workerPc ≠ .spawn)
    (hpolled : s.workerPc = .stop → s.connections.isSome) : Aligned s where
  select _ _ hpc := absurd hpc hselect
  spawn _ _ hpc := absurd hpc hspawn
  polled := by
    rintro (hpc | hpc | hpc)
    · exact absurd hpc hselect
    · exact absurd hpc hspawn
    · exact hpolled hpc

/-- The connection manager takes a step that is none of the task's. -/
theorem other (h : Aligned s) (hm : s.connections = some m) {m' : ConnectionManager μ κ ρ}
    (hspawning : m'.spawning = m.spawning) (hstop : m'.stopPc = m.stopPc) :
    Aligned { s with connections := some m' } where
  select := by
    rintro _ ⟨⟩ hpc
    rw [ConnectionManager.quiet_iff, hspawning, hstop]
    exact ConnectionManager.quiet_iff.mp (h.select m hm hpc)
  spawn := by
    rintro _ ⟨⟩ hpc
    rw [hspawning]
    exact h.spawn m hm hpc
  polled _ := rfl

/-- `spawn` returns. -/
theorem insert (hsound : s.Sound stopper) (h : Aligned s) (hs : s.insert = some s') :
    Aligned s' := by
  obtain ⟨hpc, hs⟩ := Option.ite_none_right_eq_some.mp hs
  obtain ⟨t, ht, rfl⟩ := Option.map_eq_some_iff.mp hs
  obtain ⟨m, m', hm, hstep, rfl⟩ := onConnections_eq_some.mp ht
  -- `spawn` and `stop` are both called by the task, one after the other.
  have hnone : m.stopPc = none := by
    apply (ConnectionManager.roster_of_reachable (hsound.reachable m hm)).exclusive
    exact Option.isSome_iff_ne_none.mp (h.spawn m hm hpc)
  obtain ⟨i, -, hstep⟩ := Option.bind_eq_some_iff.mp hstep
  obtain ⟨u, -, rfl⟩ := Option.map_eq_some_iff.mp hstep
  refine ⟨?_, fun _ _ => nofun, fun _ => rfl⟩
  rintro _ ⟨⟩ -
  simp [ConnectionManager.quiet, ConnectionManager.note, hnone]

theorem step (hsound : s.Sound stopper) (h : Aligned s)
    (hs : s.step accepting stopAll a = some s') : Aligned s' := by
  cases a with
  | poll =>
      obtain ⟨-, hs⟩ := Option.ite_none_right_eq_some.mp hs
      cases hs
      refine ⟨?_, fun _ _ => nofun, fun _ => rfl⟩
      rintro _ ⟨⟩ -
      rfl
  | accept =>
      obtain ⟨-, hs⟩ := Option.ite_none_right_eq_some.mp hs
      obtain ⟨t, ht, rfl⟩ := Option.map_eq_some_iff.mp hs
      obtain ⟨m, m', hm, hstep, rfl⟩ := onConnections_eq_some.mp ht
      obtain ⟨-, hstep⟩ := Option.ite_none_right_eq_some.mp hstep
      obtain rfl := ConnectionManager.eq_of_spawn hstep
      refine ⟨fun _ _ => nofun, ?_, fun _ => rfl⟩
      rintro _ ⟨⟩ -
      rfl
  | insert => exact insert hsound h hs
  | waitForStop src =>
      obtain ⟨-, hs⟩ := Option.ite_none_right_eq_some.mp hs
      obtain ⟨worker, -, hs⟩ := Option.bind_eq_some_iff.mp hs
      obtain ⟨t, ht, rfl⟩ := Option.map_eq_some_iff.mp hs
      obtain ⟨m, m', -, -, rfl⟩ := onConnections_eq_some.mp ht
      exact of_not_running nofun nofun fun _ => rfl
  | stop | drain id =>
      obtain ⟨hpc, hs⟩ := Option.ite_none_right_eq_some.mp hs
      obtain ⟨m, m', -, -, rfl⟩ := onConnections_eq_some.mp hs
      exact of_not_running (by simp [hpc]) (by simp [hpc]) fun _ => rfl
  | finish =>
      obtain ⟨-, hs⟩ := Option.ite_none_right_eq_some.mp hs
      cases hs
      exact of_not_running nofun nofun nofun
  | connections b =>
      obtain ⟨hb, hs⟩ := Option.ite_none_right_eq_some.mp hs
      obtain ⟨m, m', hm, hstep, rfl⟩ := onConnections_eq_some.mp hs
      exact h.other hm (ConnectionManager.spawning_of_step hstep hb)
        (ConnectionManager.stopPc_of_step hstep hb)

/-- The runtime begins to stop, or has sent its signal. -/
theorem runtime (h : Aligned s) : Aligned s.refuse ∧ Aligned s.signal := by
  unfold refuse signal
  cases hm : s.connections with
  | none => simp [onConnections, hm, h]
  | some m =>
      simp only [onConnections, hm, Option.bind_some, ConnectionManager.step, Option.map_some,
        Option.getD_some]
      exact ⟨h.other hm rfl rfl, h.other hm rfl rfl⟩

end Aligned

/-! ## The end of the task -/

/-- The steps of the task on its way to its end, and those that the connections need. -/
def Action.unaided (socket : Nat → WriteResult) : Action μ κ ρ → Bool
  | .connections b => b.unaided socket
  | .poll | .insert | .waitForStop .stop | .stop | .drain _ | .finish => true
  | .accept | .waitForStop .stopAll => false

/-- What the connection manager does on the way to the end of its `stop` is a step of the
server. -/
theorem exists_step_of_connections {b : ConnectionManager.Action μ κ ρ}
    {m' : ConnectionManager μ κ ρ} (hpc : s.workerPc = .stop) (hm : s.connections = some m)
    (hb : b.unaided socket) (hs : m.step b = some m') :
    ∃ a s', Action.unaided socket a ∧ s.step accepting stopAll a = some s' ∧
      s'.workerPc = .stop ∧ s'.connections = some m' := by
  have hon : s.onConnections b = some { s with connections := some m' } :=
    onConnections_eq_some.mpr ⟨m, m', hm, hs, rfl⟩
  have hown : ofConnections b → ∃ a s', Action.unaided socket a ∧
      s.step accepting stopAll a = some s' ∧ s'.workerPc = .stop ∧ s'.connections = some m' :=
    fun hof => ⟨.connections b, _, hb, (if_pos hof).trans hon, hpc, rfl⟩
  cases b with
  | stop => exact ⟨.stop, _, rfl, (if_pos hpc).trans hon, hpc, rfl⟩
  | drain id => exact ⟨.drain id, _, rfl, (if_pos hpc).trans hon, hpc, rfl⟩
  | poll | conn | connStop | connExit | finish | remove | waitForStop | exit => exact hown rfl
  | spawn | insert | recv | beginStop | refuse | stopAll => cases hb

/-- Whoever waits for the task sees it finish. -/
def Finishes (socket : Nat → WriteResult) (accepting : Bool) (stopAll : List Unit) :
    Server μ κ ρ → Prop :=
  Leads (fun s a => s.step accepting stopAll a) (fun a => a.unaided socket) fun t =>
    t.workerPc = .finished

namespace Finishes

/-- The task has called `stop` of the connection manager. -/
theorem of_stop [Nonempty ρ] (h : s.Sound .wait) (hpc : s.workerPc = .stop)
    (hm : s.connections = some m) : Finishes socket accepting stopAll s := by
  have hfinish : ∀ t : Server μ κ ρ, t.workerPc = .stop → (∃ m, t.connections = some m ∧
      m.stopPc = none) → Finishes socket accepting stopAll t := by
    rintro t ht ⟨m, hm, hnone⟩
    have hstep : t.step accepting stopAll .finish =
        some { t with worker := t.worker.dropContext, workerPc := .finished } := by
      simp [step, finish, ht, hm, hnone]
    exact .cons rfl hstep (.refl rfl)
  cases hstop : m.stopPc with
  | none => exact hfinish s hpc ⟨m, hm, hstop⟩
  | some pc =>
      have hreturns : ConnectionManager.Returns socket m := .of_pc (h.reachable m hm) hstop
      have hembed : Leads (fun s a => step s accepting stopAll a) (fun a => a.unaided socket)
          (fun t => ∃ m, (t.workerPc = .stop ∧ t.connections = some m) ∧
            m.stopPc = none ∧ ∀ u ∈ m.spawns, u.Gone) s :=
        hreturns.embed (fun t m b m' ⟨ht, hm⟩ hb hs => exists_step_of_connections ht hm hb hs)
          ⟨hpc, hm⟩
      refine hembed.trans fun t ht => ?_
      obtain ⟨m, ⟨ht, hm⟩, hnone, -⟩ := ht
      exact hfinish t ht ⟨m, hm, hnone⟩

theorem of_select [Nonempty ρ] (h : s.Sound .wait) (hi : Aligned s) (hpc : s.workerPc = .select) :
    Finishes socket accepting stopAll s := by
  obtain ⟨m, hm⟩ := Option.isSome_iff_exists.mp (hi.polled (.inl hpc))
  have hserved := h.served
  rw [hpc] at hserved
  -- The message of `stop` has been sent, and only the `select!` receives it.
  have hheard : (s.worker.waitForStop true stopAll .stop).isSome := hserved.hears (by simp)
  obtain ⟨worker, hworker⟩ := Option.isSome_iff_exists.mp hheard
  have hbegin : m.step .beginStop = some { m with stopPc := some .stop } :=
    if_pos (hi.select m hm hpc)
  have hstep : s.step accepting stopAll (.waitForStop .stop) =
      some { s with
        worker, workerPc := .stop, connections := some { m with stopPc := some .stop } } := by
    simp [step, waitForStop, hpc, hworker, onConnections, hm, hbegin]
  exact .cons rfl hstep (of_stop (h.step hstep) rfl rfl)

/-- The client that was accepted last is spawned first. -/
theorem of_spawn [Nonempty ρ] (h : s.Sound .wait) (hi : Aligned s) (hpc : s.workerPc = .spawn) :
    Finishes socket accepting stopAll s := by
  obtain ⟨m, hm⟩ := Option.isSome_iff_exists.mp (hi.polled (.inr (.inl hpc)))
  obtain ⟨i, hspawning⟩ := Option.isSome_iff_exists.mp (hi.spawn m hm hpc)
  have hlt := (ConnectionManager.present_of_reachable (h.reachable m hm)).spawning i hspawning
  obtain ⟨u, hu⟩ : ∃ u, m.spawns[i]? = some u := ⟨_, List.getElem?_eq_getElem hlt⟩
  obtain ⟨m', hinsert⟩ : ∃ m', m.step .insert = some m' := by
    simp [ConnectionManager.step, ConnectionManager.insert, hspawning, hu]
  have hstep : s.step accepting stopAll .insert =
      some { s with workerPc := .select, connections := some m' } := by
    simp [step, insert, hpc, onConnections, hm, hinsert]
  exact .cons rfl hstep (of_select (h.step hstep) (hi.step h hstep) rfl)

theorem of_spawned [Nonempty ρ] (h : s.Sound .wait) (hi : Aligned s)
    (hpc : s.workerPc = .spawned) : Finishes socket accepting stopAll s := by
  have hstep : s.step accepting stopAll .poll =
      some { s with workerPc := .select, connections := some (.start accepting stopAll) } :=
    if_pos hpc
  exact .cons rfl hstep (of_select (h.step hstep) (hi.step h hstep) rfl)

theorem of_alive [Nonempty ρ] (h : s.Sound .wait) (hi : Aligned s) (halive : s.workerPc.alive) :
    Finishes socket accepting stopAll s := by
  cases hpc : s.workerPc with
  | spawned => exact of_spawned h hi hpc
  | select => exact of_select h hi hpc
  | spawn => exact of_spawn h hi hpc
  | stop =>
      obtain ⟨m, hm⟩ := Option.isSome_iff_exists.mp (hi.polled (.inr (.inr hpc)))
      exact of_stop h hpc hm
  | absent | finished => simp [hpc, WorkerPc.alive] at halive

end Finishes

/-- A connection that is answered has a request at its handler. -/
theorem serving_of_respond {i : Nat} {response : ρ}
    (hs : s.step accepting stopAll (.connections (.conn i (.respond response))) = some s') :
    s.serving i := by
  have hs : s.onConnections (.conn i (.respond response)) = some s' := hs
  obtain ⟨m, m', hm, hstep, rfl⟩ := onConnections_eq_some.mp hs
  obtain ⟨u, hu, hstep⟩ := Option.bind_eq_some_iff.mp hstep
  obtain ⟨-, hstep⟩ := Option.ite_none_right_eq_some.mp hstep
  obtain ⟨conn, hconn, rfl⟩ := Option.map_eq_some_iff.mp hstep
  simp only [Connection.step, Connection.respond] at hconn
  split at hconn
  next request hpc => exact serving_iff.mpr ⟨request, m, u, hm, hu, hpc⟩
  next => cases hconn

end Server
