-- SUMMARY: What always holds of the server's task: once it has finished, no connection is in its loop, and none handles a request.
import AtomRust.Net.Roster
import AtomRust.Net.Server
import AtomRust.Runtime.Handshake

/-!
# The server's task

The connection manager is stopped from inside the task, so whoever has waited for the task
knows that the connections are gone. Only an answer of the handler ends a request.
-/

open Runtime (Stopper StopSource TaskState)
open List (getElem?_set_of_some)

namespace Connection
variable {μ κ ρ : Type} {conn conn' : Connection μ κ ρ} {a : Action μ κ ρ} {request : κ}

/-- A request is handled until it is answered. -/
theorem handle_of_step (h : conn.step a = some conn') (hpc : conn.pc = .handle request)
    (ha : ∀ response, a ≠ .respond response) : conn'.pc = .handle request := by
  cases effect_of_step h with
  | enqueued heq => exact heq ▸ hpc
  | responded => exact absurd rfl (ha _)
  | broken pc => exact absurd hpc (pc request)
  | taken pc | flushed pc => rcases pc with pc | pc <;> simp [pc] at hpc
  | fed pc | drained pc | requested pc | ignored pc | sent pc | ended pc => simp [pc] at hpc

end Connection

namespace ConnectionManager
variable {μ κ ρ : Type} {m m' : ConnectionManager μ κ ρ} {a : Action μ κ ρ} {i : Nat}
  {u v : SpawnCall μ κ ρ}

/-! ## Connections -/

/-- The connection itself is as it was, or has taken a step, which was not its answer. -/
inductive Moves (u v : SpawnCall μ κ ρ) : Prop where
  | same (h : v.conn = u.conn)
  | step {b : Connection.Action μ κ ρ} (h : u.conn.step b = some v.conn)
      (hb : ∀ response, b ≠ .respond response)

/-- No connection is new, and each has moved on. -/
def Tracks (m m' : ConnectionManager μ κ ρ) : Prop :=
  ∀ (i : Nat) (v : SpawnCall μ κ ρ), m'.spawns[i]? = some v →
    ∃ u, m.spawns[i]? = some u ∧ Moves u v

namespace Tracks

theorem of_eq (h : m'.spawns = m.spawns) : Tracks m m' := fun _ v hv => ⟨v, h ▸ hv, .same rfl⟩

theorem of_set (hu : m.spawns[i]? = some u) (hv : Moves u v)
    (h : m'.spawns = m.spawns.set i v) : Tracks m m' := by
  unfold Tracks
  rw [h]
  exact List.forall_getElem?_set hu ⟨u, hu, hv⟩ fun _ w _ hw => ⟨w, hw, .same rfl⟩

theorem of_drop {k : Option Nat} (h : m'.spawns = (m.dropConnection k).spawns) :
    Tracks m m' := by
  rcases dropConnection_eq m k with heq | ⟨i, u, hu, heq⟩
  · exact .of_eq (h.trans (congrArg _ heq))
  · exact .of_set hu (v := { u with handle := false }) (.same rfl) (h.trans (congrArg _ heq))

end Tracks

/-- The steps that answer a request. -/
def Action.responds : Action μ κ ρ → Bool
  | .conn _ (.respond _) => true
  | _ => false

def Action.isSpawn : Action μ κ ρ → Bool
  | .spawn => true
  | _ => false

theorem tracks_of_stopStep {pc : StopPc} (h : m.stopStep pc = some m') : Tracks m m' := by
  cases pc with
  | stop =>
      obtain ⟨worker, -, rfl⟩ := Option.map_eq_some_iff.mp h
      exact .of_eq rfl
  | takeHold =>
      cases h
      exact .of_eq rfl
  | wait | drain =>
      obtain ⟨-, h⟩ := Option.ite_none_right_eq_some.mp h
      cases h
      exact .of_eq rfl
  | close i =>
      obtain ⟨u, hu, h⟩ := Option.bind_eq_some_iff.mp h
      obtain ⟨task, -, rfl⟩ := Option.map_eq_some_iff.mp h
      exact .of_set hu (v := { u with task }) (.same rfl) rfl
  | closeTakeHold i =>
      obtain ⟨u, hu, rfl⟩ := Option.map_eq_some_iff.mp h
      exact .of_set hu (v := { u with task := u.task.takeHold }) (.same rfl) rfl
  | closeWait i =>
      obtain ⟨u, -, h⟩ := Option.bind_eq_some_iff.mp h
      obtain ⟨-, h⟩ := Option.ite_none_right_eq_some.mp h
      cases h
      exact .of_eq rfl
  | closed i =>
      cases h
      exact .of_drop rfl

theorem tracks_of_step (h : m.step a = some m') (hspawn : a.isSpawn = false)
    (hresponds : a.responds = false) : Tracks m m' := by
  cases a with
  | spawn => cases hspawn
  | insert =>
      obtain ⟨i, -, h⟩ := Option.bind_eq_some_iff.mp h
      obtain ⟨u, -, rfl⟩ := Option.map_eq_some_iff.mp h
      exact .of_drop rfl
  | poll i =>
      obtain ⟨u, hu, h⟩ := Option.bind_eq_some_iff.mp h
      obtain ⟨-, h⟩ := Option.ite_none_right_eq_some.mp h
      cases h
      exact .of_set hu (v := { u with life := .running }) (.same rfl) rfl
  | conn i b =>
      obtain ⟨u, hu, h⟩ := Option.bind_eq_some_iff.mp h
      obtain ⟨-, h⟩ := Option.ite_none_right_eq_some.mp h
      obtain ⟨conn, hconn, rfl⟩ := Option.map_eq_some_iff.mp h
      refine .of_set hu (v := { u with conn }) (.step hconn ?_) rfl
      rintro response rfl
      cases hresponds
  | connStop i src =>
      obtain ⟨u, hu, h⟩ := Option.bind_eq_some_iff.mp h
      obtain ⟨-, h⟩ := Option.ite_none_right_eq_some.mp h
      obtain ⟨task, -, h⟩ := Option.bind_eq_some_iff.mp h
      obtain ⟨conn, hconn, rfl⟩ := Option.map_eq_some_iff.mp h
      exact .of_set hu (v := { u with conn, task }) (.step hconn (by simp)) rfl
  | connExit i =>
      obtain ⟨u, hu, h⟩ := Option.bind_eq_some_iff.mp h
      simp only [connExit] at h
      split at h
      next disconnected hlife hpc =>
        obtain ⟨conn, hconn, rfl⟩ := Option.map_eq_some_iff.mp h
        exact .of_set hu (v := { u with conn }) (.step hconn (by simp)) rfl
      next => cases h
  | finish i =>
      obtain ⟨u, hu, h⟩ := Option.bind_eq_some_iff.mp h
      simp only [finish] at h
      split at h
      next disconnected hlife hpc =>
        cases h
        exact .of_set hu (v := { u with task := u.task.dropContext, life := .finished })
          (.same rfl) rfl
      next => cases h
  | remove =>
      simp only [step, remove] at h
      split at h <;> cases h
      exact .of_drop rfl
  | recv =>
      simp only [step, recv] at h
      split at h <;> cases h
      exact .of_eq rfl
  | waitForStop src =>
      obtain ⟨-, h⟩ := Option.ite_none_right_eq_some.mp h
      obtain ⟨worker, -, rfl⟩ := Option.map_eq_some_iff.mp h
      exact .of_eq rfl
  | exit | beginStop =>
      obtain ⟨-, h⟩ := Option.ite_none_right_eq_some.mp h
      cases h
      exact .of_eq rfl
  | stop =>
      obtain ⟨pc, -, h⟩ := Option.bind_eq_some_iff.mp h
      exact tracks_of_stopStep h
  | drain id =>
      obtain ⟨-, h⟩ := Option.ite_none_right_eq_some.mp h
      obtain ⟨i, -, rfl⟩ := Option.map_eq_some_iff.mp h
      exact .of_eq rfl
  | refuse | stopAll =>
      cases h
      exact .of_eq rfl

/-- A request is handled until its connection answers it. -/
theorem handle_of_step {request : κ} (h : m.step a = some m') (hu : m.spawns[i]? = some u)
    (hpc : u.conn.pc = .handle request) (ha : ∀ response, a ≠ .conn i (.respond response)) :
    ∃ v, m'.spawns[i]? = some v ∧ v.conn.pc = .handle request := by
  cases hspawn : a.isSpawn with
  | true =>
      cases a with
      | spawn =>
          obtain ⟨-, h⟩ := Option.ite_none_right_eq_some.mp h
          obtain rfl := eq_of_spawn h
          exact ⟨u, List.getElem?_append_of_some hu _, hpc⟩
      | _ => cases hspawn
  | false =>
      cases hresponds : a.responds with
      | true =>
          cases a with
          | conn j b =>
              -- Another connection answers.
              have hji : i ≠ j := by
                rintro rfl
                cases b with
                | respond response => exact ha response rfl
                | _ => cases hresponds
              obtain ⟨w, hw, h⟩ := Option.bind_eq_some_iff.mp h
              obtain ⟨-, h⟩ := Option.ite_none_right_eq_some.mp h
              obtain ⟨conn, -, rfl⟩ := Option.map_eq_some_iff.mp h
              exact ⟨u, by rw [getElem?_setSpawn hw, if_neg hji, hu], hpc⟩
          | _ => cases hresponds
      | false =>
          obtain ⟨v, hv, -⟩ := follows_of_step h i u hu
          obtain ⟨w, hw, hmoves⟩ := tracks_of_step h hspawn hresponds i v hv
          cases hw.symm.trans hu
          refine ⟨v, hv, ?_⟩
          cases hmoves with
          | same hconn => rw [hconn, hpc]
          | step hconn hb => exact Connection.handle_of_step hconn hpc hb

/-! ## `stop` -/

/-- When `stop` returns, no connection is in its loop. -/
theorem gone_of_returned {pc : StopPc} (hm : (system μ κ ρ).Reachable m)
    (hpc : m.stopPc = some pc) (h : m.stopStep pc = some m') (hret : m'.stopPc = none)
    (hv : m'.spawns[i]? = some v) : v.Gone := by
  cases pc with
  | drain =>
      obtain ⟨hempty, h⟩ := Option.ite_none_right_eq_some.mp h
      cases h
      exact (roster_of_reachable hm).gone_of_drained hpc hempty hv
  | stop =>
      obtain ⟨worker, -, rfl⟩ := Option.map_eq_some_iff.mp h
      cases hret
  | takeHold =>
      cases h
      cases hret
  | wait =>
      obtain ⟨-, h⟩ := Option.ite_none_right_eq_some.mp h
      cases h
      cases hret
  | close j =>
      obtain ⟨u, -, h⟩ := Option.bind_eq_some_iff.mp h
      obtain ⟨task, -, rfl⟩ := Option.map_eq_some_iff.mp h
      cases hret
  | closeTakeHold j =>
      obtain ⟨u, -, rfl⟩ := Option.map_eq_some_iff.mp h
      cases hret
  | closeWait j =>
      obtain ⟨u, -, h⟩ := Option.bind_eq_some_iff.mp h
      obtain ⟨-, h⟩ := Option.ite_none_right_eq_some.mp h
      cases h
      cases hret
  | closed j =>
      cases h
      cases hret

/-- The steps that the connections and the worker take by themselves leave `stop` alone. -/
theorem stopPc_of_step (h : m.step a = some m') (ha : Server.ofConnections a) :
    m'.stopPc = m.stopPc := by
  by_cases hworker : a.ofWorker
  · obtain ⟨i, u, v, new, hworked⟩ := worked_of_step hworker h
    rw [hworked.after]
    rfl
  cases a with
  | poll | conn | connStop | connExit | finish => exact absurd rfl hworker
  | recv =>
      simp only [step, recv] at h
      split at h <;> cases h
      rfl
  | remove =>
      simp only [step, remove] at h
      split at h <;> cases h
      simp [note]
  | waitForStop src =>
      obtain ⟨-, h⟩ := Option.ite_none_right_eq_some.mp h
      obtain ⟨worker, -, rfl⟩ := Option.map_eq_some_iff.mp h
      rfl
  | exit =>
      obtain ⟨-, h⟩ := Option.ite_none_right_eq_some.mp h
      cases h
      rfl
  | spawn | insert | beginStop | stop | drain | refuse | stopAll => cases ha

/-- Connections that are gone stay so as long as no connection is new. -/
theorem gone_of_step (h : m.step a = some m') (hspawn : a.isSpawn = false)
    (hgone : ∀ (i : Nat) (u : SpawnCall μ κ ρ), m.spawns[i]? = some u → u.Gone)
    (hv : m'.spawns[i]? = some v) : v.Gone := by
  have hfollows := follows_of_step h
  have hlength : ∃ u, m.spawns[i]? = some u := by
    cases hresponds : a.responds with
    | false =>
        obtain ⟨u, hu, -⟩ := tracks_of_step h hspawn hresponds i v hv
        exact ⟨u, hu⟩
    | true =>
        cases a with
        | conn j b =>
            obtain ⟨w, hw, h⟩ := Option.bind_eq_some_iff.mp h
            obtain ⟨-, h⟩ := Option.ite_none_right_eq_some.mp h
            obtain ⟨conn, -, rfl⟩ := Option.map_eq_some_iff.mp h
            rw [getElem?_setSpawn hw] at hv
            split at hv
            next hij => exact ⟨w, hij ▸ hw⟩
            next => exact ⟨v, hv⟩
        | _ => cases hresponds
  obtain ⟨u, hu⟩ := hlength
  obtain ⟨w, hw, hevolves⟩ := hfollows i u hu
  cases hw.symm.trans hv
  exact (hevolves.gone (hgone i u hu)).1

end ConnectionManager

namespace Server
variable {μ κ ρ : Type} {s s' : Server μ κ ρ} {a : Action μ κ ρ} {accepting : Bool}
  {stopAll : List Unit} {stopper : Stopper} {i : Nat} {m : ConnectionManager μ κ ρ} {request : κ}

theorem onConnections_eq_some {b : ConnectionManager.Action μ κ ρ} :
    s.onConnections b = some s' ↔ ∃ m m', s.connections = some m ∧ m.step b = some m' ∧
      s' = { s with connections := some m' } := by
  simp only [onConnections, Option.bind_eq_some_iff, Option.map_eq_some_iff]
  constructor
  · rintro ⟨m, hm, m', hs, rfl⟩
    exact ⟨m, m', hm, hs, rfl⟩
  · rintro ⟨m, m', hm, hs, rfl⟩
    exact ⟨m, hm, m', hs, rfl⟩

/-- `stop` of the connection manager has returned. -/
def stopped (s : Server μ κ ρ) (m : ConnectionManager μ κ ρ) : Bool :=
  match s.workerPc with
  | .finished => true
  | .stop => m.stopPc.isNone
  | .absent | .spawned | .select | .spawn => false

/-- How the task and what belongs to it fit together. `stopper` is whoever calls
`Server::stop`. -/
structure Sound (s : Server μ κ ρ) (stopper : Stopper) : Prop where
  served : s.worker.Served stopper s.workerPc.running
  context : s.worker.context = s.workerPc.alive
  reachable : ∀ m, s.connections = some m → (ConnectionManager.system μ κ ρ).Reachable m
  unborn : s.workerPc = .absent ∨ s.workerPc = .spawned → s.connections = none
  gone : ∀ m, s.connections = some m → s.stopped m → ∀ (i : Nat)
    (u : ConnectionManager.SpawnCall μ κ ρ), m.spawns[i]? = some u → u.Gone

namespace Sound

/-- The task has not been polled. -/
theorem of_none (hserved : s.worker.Served stopper s.workerPc.running)
    (hcontext : s.worker.context = s.workerPc.alive) (hnone : s.connections = none) :
    s.Sound stopper := by
  refine ⟨hserved, hcontext, fun m hm => ?_, fun _ => hnone, fun m hm => ?_⟩
  · simp [hnone] at hm
  · simp [hnone] at hm

theorem absent : (Server.absent : Server μ κ ρ).Sound .away := of_none .none rfl rfl

theorem start (accepted : Bool) (stopAll : List Unit) :
    (Server.start accepted stopAll : Server μ κ ρ).Sound .away := by
  cases accepted with
  | true => exact of_none (.new _ _) rfl rfl
  | false => exact of_none .none rfl rfl

/-- `Server::stop` goes on. -/
theorem task {worker : TaskState} {stopper' : Stopper} (h : s.Sound stopper)
    (hserved : worker.Served stopper' s.workerPc.running)
    (hcontext : worker.context = s.worker.context) :
    Sound { s with worker } stopper' :=
  ⟨hserved, hcontext.trans h.context, h.reachable, h.unborn, h.gone⟩

/-- The connection manager takes a step, from which the server goes on at `pc`. -/
theorem move {b : ConnectionManager.Action μ κ ρ} {m' : ConnectionManager μ κ ρ}
    {worker : TaskState} (h : s.Sound stopper) (pc : WorkerPc) (hm : s.connections = some m)
    (hs : m.step b = some m') (hserved : worker.Served stopper pc.running)
    (hcontext : worker.context = pc.alive) (hborn : pc ≠ .absent ∧ pc ≠ .spawned)
    (hgone : stopped { s with workerPc := pc } m' → ∀ (i : Nat)
      (v : ConnectionManager.SpawnCall μ κ ρ), m'.spawns[i]? = some v → v.Gone) :
    Sound { s with worker, workerPc := pc, connections := some m' } stopper := by
  refine ⟨hserved, hcontext, ?_, fun hpc => ?_, ?_⟩
  · rintro _ ⟨⟩
    exact (h.reachable m hm).step hs
  · rcases hpc with hpc | hpc
    · exact absurd hpc hborn.1
    · exact absurd hpc hborn.2
  · rintro _ ⟨⟩ hstopped
    exact hgone hstopped

/-- The task has been polled if there is a connection manager. -/
theorem born (h : s.Sound stopper) (hm : s.connections = some m) :
    s.workerPc ≠ .absent ∧ s.workerPc ≠ .spawned := by
  constructor <;> intro hpc
  · simp [h.unborn (.inl hpc)] at hm
  · simp [h.unborn (.inr hpc)] at hm

/-- The server's task waits, while the connection manager takes a step. -/
theorem other {b : ConnectionManager.Action μ κ ρ} {m' : ConnectionManager μ κ ρ}
    (h : s.Sound stopper) (hm : s.connections = some m) (hs : m.step b = some m')
    (hspawn : b.isSpawn = false) (hstop : m'.stopPc = m.stopPc) :
    Sound { s with connections := some m' } stopper := by
  refine h.move _ hm hs h.served h.context (h.born hm) fun hstopped i v hv => ?_
  have hbefore : s.stopped m = s.stopped m' := by rw [stopped, stopped, hstop]
  exact ConnectionManager.gone_of_step hs hspawn (h.gone m hm (hbefore.trans hstopped)) hv

theorem stop (h : s.Sound stopper) (hs : s.stop = some s') : s'.Sound stopper := by
  obtain ⟨hpc, hs⟩ := Option.ite_none_right_eq_some.mp hs
  obtain ⟨m, m', hm, hstep, rfl⟩ := onConnections_eq_some.mp hs
  refine h.move _ hm hstep h.served h.context (h.born hm) fun hstopped i v hv => ?_
  obtain ⟨pc, hstop, hstep⟩ := Option.bind_eq_some_iff.mp hstep
  have hret : m'.stopPc = none := by simpa [stopped, hpc] using hstopped
  exact ConnectionManager.gone_of_returned (h.reachable m hm) hstop hstep hret hv

theorem drain {id : ConnectionId} (h : s.Sound stopper) (hs : s.drain id = some s') :
    s'.Sound stopper := by
  obtain ⟨hpc, hs⟩ := Option.ite_none_right_eq_some.mp hs
  obtain ⟨m, m', hm, hstep, rfl⟩ := onConnections_eq_some.mp hs
  refine h.move _ hm hstep h.served h.context (h.born hm) fun hstopped i v hv => ?_
  obtain ⟨-, hdrain⟩ := Option.ite_none_right_eq_some.mp hstep
  obtain ⟨j, -, rfl⟩ := Option.map_eq_some_iff.mp hdrain
  simp [stopped, hpc] at hstopped

/-- The loop is left. -/
theorem waitForStop {src : StopSource} (h : s.Sound stopper)
    (hs : s.waitForStop stopAll src = some s') : s'.Sound stopper := by
  obtain ⟨hpc, hs⟩ := Option.ite_none_right_eq_some.mp hs
  obtain ⟨worker, hwait, hs⟩ := Option.bind_eq_some_iff.mp hs
  obtain ⟨t, ht, rfl⟩ := Option.map_eq_some_iff.mp hs
  obtain ⟨m, m', hm, hstep, rfl⟩ := onConnections_eq_some.mp ht
  have hcontext := h.context
  rw [hpc] at hcontext
  refine h.move .stop hm hstep (h.served.waitForStop hwait)
    ((TaskState.waitForStop_frame hwait).1.trans hcontext) ⟨nofun, nofun⟩ fun hstopped => ?_
  obtain ⟨-, hstep⟩ := Option.ite_none_right_eq_some.mp hstep
  cases hstep
  cases hstopped

theorem step (h : s.Sound stopper) (hs : s.step accepting stopAll a = some s') :
    s'.Sound stopper := by
  cases a with
  | poll =>
      obtain ⟨hpc, hs⟩ := Option.ite_none_right_eq_some.mp hs
      cases hs
      obtain ⟨hserved, hcontext, -, -, -⟩ := h
      rw [hpc] at hserved hcontext
      refine ⟨hserved, hcontext, ?_, ?_, fun _ _ => nofun⟩
      · rintro _ ⟨⟩
        exact .init ⟨accepting, stopAll, rfl⟩
      · rintro (hpc | hpc) <;> cases hpc
  | accept =>
      obtain ⟨hpc, hs⟩ := Option.ite_none_right_eq_some.mp hs
      obtain ⟨t, ht, rfl⟩ := Option.map_eq_some_iff.mp hs
      obtain ⟨m, m', hm, hstep, rfl⟩ := onConnections_eq_some.mp ht
      have hserved := h.served
      have hcontext := h.context
      rw [hpc] at hserved hcontext
      refine h.move .spawn hm hstep hserved hcontext ⟨nofun, nofun⟩ fun hstopped => ?_
      simp [stopped] at hstopped
  | insert =>
      obtain ⟨hpc, hs⟩ := Option.ite_none_right_eq_some.mp hs
      obtain ⟨t, ht, rfl⟩ := Option.map_eq_some_iff.mp hs
      obtain ⟨m, m', hm, hstep, rfl⟩ := onConnections_eq_some.mp ht
      have hserved := h.served
      have hcontext := h.context
      rw [hpc] at hserved hcontext
      refine h.move .select hm hstep hserved hcontext ⟨nofun, nofun⟩ fun hstopped => ?_
      simp [stopped] at hstopped
  | waitForStop src => exact h.waitForStop hs
  | stop => exact h.stop hs
  | drain id => exact h.drain hs
  | finish =>
      obtain ⟨⟨hpc, hnone⟩, hs⟩ := Option.ite_none_right_eq_some.mp hs
      cases hs
      refine ⟨.dropContext _ _, rfl, h.reachable, ?_, fun m hm _ => ?_⟩
      · rintro (hpc | hpc) <;> cases hpc
      · have hm : s.connections = some m := hm
        have hstop : m.stopPc.isNone := by simpa [hm] using hnone
        exact h.gone m hm (by rw [stopped, hpc]; exact hstop)
  | connections b =>
      obtain ⟨hb, hs⟩ := Option.ite_none_right_eq_some.mp hs
      obtain ⟨m, m', hm, hstep, rfl⟩ := onConnections_eq_some.mp hs
      have hspawn : b.isSpawn = false := by cases b <;> first | rfl | cases hb
      exact h.other hm hstep hspawn (ConnectionManager.stopPc_of_step hstep hb)

/-- The runtime begins to stop, or has sent its signal. -/
theorem runtime (h : s.Sound stopper) : s.refuse.Sound stopper ∧ s.signal.Sound stopper := by
  unfold refuse signal
  cases hm : s.connections with
  | none => simp [onConnections, hm, h]
  | some m =>
      simp only [onConnections, hm, Option.bind_some, ConnectionManager.step, Option.map_some,
        Option.getD_some]
      exact ⟨h.other (b := .refuse) hm rfl rfl rfl, h.other (b := .stopAll) hm rfl rfl rfl⟩

/-- Once the task has finished, no connection is in its loop. -/
theorem departed (h : s.Sound stopper) (halive : s.workerPc.alive = false)
    (hm : s.connections = some m) {u : ConnectionManager.SpawnCall μ κ ρ}
    (hu : m.spawns[i]? = some u) : u.Gone := by
  cases hpc : s.workerPc with
  | absent => exact absurd hpc (h.born hm).1
  | finished =>
      apply h.gone m hm _ i u hu
      rw [stopped, hpc]
  | spawned | select | spawn | stop => simp [hpc, WorkerPc.alive] at halive

end Sound

/-- A task that has finished, or was never started, stays so. -/
theorem not_alive_of_step (hs : s.step accepting stopAll a = some s')
    (h : s.workerPc.alive = false) : s'.workerPc.alive = false := by
  have hother : ∀ pc, s.workerPc = pc → pc.alive → s'.workerPc.alive = false := by
    rintro _ rfl halive
    simp [h] at halive
  cases a with
  | poll | accept | insert | waitForStop src | stop | drain id =>
      obtain ⟨hpc, -⟩ := Option.ite_none_right_eq_some.mp hs
      exact hother _ hpc rfl
  | finish =>
      obtain ⟨⟨hpc, -⟩, -⟩ := Option.ite_none_right_eq_some.mp hs
      exact hother _ hpc rfl
  | connections b =>
      obtain ⟨-, hs⟩ := Option.ite_none_right_eq_some.mp hs
      obtain ⟨m, m', -, -, rfl⟩ := onConnections_eq_some.mp hs
      exact h

@[simp] theorem refuse_workerPc (s : Server μ κ ρ) : s.refuse.workerPc = s.workerPc := by
  unfold refuse onConnections
  cases s.connections <;> rfl

@[simp] theorem signal_workerPc (s : Server μ κ ρ) : s.signal.workerPc = s.workerPc := by
  unfold signal onConnections
  cases s.connections <;> rfl

/-! ## Requests -/

/-- The handler of connection `i` works on the request. -/
def Handles (s : Server μ κ ρ) (i : Nat) (request : κ) : Prop :=
  ∃ m u, s.connections = some m ∧ m.spawns[i]? = some u ∧ u.conn.pc = .handle request

theorem serving_iff : s.serving i ↔ ∃ request, s.Handles i request := by
  simp only [serving, Option.any_eq_true]
  constructor
  · rintro ⟨m, hm, u, hu, hpc⟩
    split at hpc
    next request heq => exact ⟨request, m, u, hm, hu, heq⟩
    next => cases hpc
  · rintro ⟨request, m, u, hm, hu, hpc⟩
    exact ⟨m, hm, u, hu, by rw [hpc]⟩

theorem Sound.not_serving (h : s.Sound stopper) (halive : s.workerPc.alive = false) (i : Nat) :
    s.serving i = false := by
  apply Bool.eq_false_iff.mpr
  intro hserving
  obtain ⟨request, m, u, hm, hu, hpc⟩ := serving_iff.mp hserving
  rcases h.departed halive hm hu with hrefused | hdeparted
  · -- A refused connection has not begun.
    have hfresh := ((ConnectionManager.roster_of_reachable (h.reachable m hm)).sound i u hu).fresh
    simp [hfresh (by simp [hrefused]) (by simp [hrefused]), Connection.start] at hpc
  · simp [hpc, Connection.Pc.departed] at hdeparted

namespace Handles

/-- The connection manager takes a step. -/
theorem onConnections {b : ConnectionManager.Action μ κ ρ} (hi : s.Handles i request)
    (hs : s.onConnections b = some s') (hb : ∀ response, b ≠ .conn i (.respond response)) :
    s'.Handles i request := by
  obtain ⟨m, u, hm, hu, hpc⟩ := hi
  obtain ⟨m₁, m', hm', hstep, rfl⟩ := onConnections_eq_some.mp hs
  cases hm'.symm.trans hm
  obtain ⟨v, hv, hpc'⟩ := ConnectionManager.handle_of_step hstep hu hpc hb
  exact ⟨m', v, rfl, hv, hpc'⟩

/-- Nothing but its answer takes a request from its handler. -/
theorem of_step (hi : s.Handles i request) (h : s.Sound stopper)
    (hs : s.step accepting stopAll a = some s')
    (ha : ∀ response, a ≠ .connections (.conn i (.respond response))) : s'.Handles i request := by
  cases a with
  | poll =>
      -- There is no connection before the first poll.
      obtain ⟨hspawned, -⟩ := Option.ite_none_right_eq_some.mp hs
      obtain ⟨m, u, hm, -, -⟩ := hi
      exact absurd hspawned (h.born hm).2
  | accept | insert =>
      obtain ⟨-, hs⟩ := Option.ite_none_right_eq_some.mp hs
      obtain ⟨t, ht, rfl⟩ := Option.map_eq_some_iff.mp hs
      have hi' : t.Handles i request := hi.onConnections ht (by simp)
      exact hi'
  | waitForStop src =>
      obtain ⟨-, hs⟩ := Option.ite_none_right_eq_some.mp hs
      obtain ⟨worker, -, hs⟩ := Option.bind_eq_some_iff.mp hs
      obtain ⟨t, ht, rfl⟩ := Option.map_eq_some_iff.mp hs
      have hi' : t.Handles i request := hi.onConnections ht (by simp)
      exact hi'
  | stop | drain id =>
      obtain ⟨-, hs⟩ := Option.ite_none_right_eq_some.mp hs
      exact hi.onConnections hs (by simp)
  | finish =>
      obtain ⟨-, hs⟩ := Option.ite_none_right_eq_some.mp hs
      cases hs
      exact hi
  | connections b =>
      obtain ⟨-, hs⟩ := Option.ite_none_right_eq_some.mp hs
      exact hi.onConnections hs fun response hb => ha response (hb ▸ rfl)

end Handles

end Server
