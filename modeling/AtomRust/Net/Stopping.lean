-- SUMMARY: `ConnectionManager::stop` always gets to its end, if the handler answers and the writes end.
import AtomRust.Base.Progress
import AtomRust.Net.Roster
import AtomRust.Runtime.Handshake

/-!
# Stopping the connections gets to its end

A connection looks for a stop in its `select!` only. On the way there it writes out its
batch, or handles a request and writes the response, so `stop` waits for the handler and
for the socket, and for nobody else. A client that takes nothing does not hold it up, for a
write that times out ends the loop.
-/

open Connection (WriteResult)
open Runtime (Stopper StopSource TaskState)
open Transition (Leads)
open List (getElem?_set_of_some getElem?_concat_eq_some)

/-! ## Connections -/

namespace Connection
variable {μ κ ρ : Type} {conn conn' : Connection μ κ ρ} {a : Action μ κ ρ}

/-- The steps that lead to the `select!`, or out of the loop: the handler answers, and each
write ends with `r`. -/
def Action.serving (r : WriteResult) : Action μ κ ρ → Bool
  | .feed r' | .flush r' | .send r' | .flushResponse r' => r' = r
  | .tryRecv | .respond _ => true
  | _ => false

/-- How many of them are left at most. -/
def distance (conn : Connection μ κ ρ) : Nat :=
  match conn.pc with
  | .select | .left _ | .ended _ => 0
  | .flush | .flushResponse => 1
  | .feed _ rounds => 2 * rounds + 2
  | .tryRecv rounds => 2 * rounds + 3
  | .send _ => 2
  | .handle _ => 3

/-- A connection that serves its client, and is not in its `select!`, is on its way there. -/
theorem exists_step [Nonempty ρ] (r : WriteResult) (hpc : conn.pc ≠ .select)
    (hdeparted : conn.pc.departed = false) :
    ∃ a conn', a.serving r ∧ conn.step a = some conn' ∧ conn'.distance < conn.distance := by
  cases h : conn.pc with
  | select => exact absurd h hpc
  | left | ended => simp [h, Pc.departed] at hdeparted
  | feed message rounds =>
      obtain ⟨conn', hfeed, hlt⟩ : ∃ conn', conn.step (.feed r) = some conn' ∧
          conn'.distance < conn.distance := by
        simp only [step, feed, h]
        split
        · refine ⟨_, rfl, ?_⟩
          cases rounds <;> simp only [distance, note, h] <;> omega
        · exact ⟨_, rfl, by simp [distance, h]⟩
      exact ⟨.feed r, conn', by simp [Action.serving], hfeed, hlt⟩
  | tryRecv rounds =>
      cases hqueue : conn.queue with
      | nil =>
          refine ⟨.tryRecv, { conn with pc := .flush }, rfl, ?_, ?_⟩
          · simp [step, tryRecv, h, hqueue]
          · simp only [distance, h]
            omega
      | cons message queue =>
          refine ⟨.tryRecv, { conn with pc := .feed message rounds, queue }, rfl, ?_, ?_⟩
          · simp [step, tryRecv, h, hqueue]
          · simp only [distance, h]
            omega
  | flush =>
      obtain ⟨conn', hflush, hlt⟩ : ∃ conn', conn.step (.flush r) = some conn' ∧
          conn'.distance < conn.distance := by
        simp only [step, flush, h]
        split <;> exact ⟨_, rfl, by simp [distance, note, h]⟩
      exact ⟨.flush r, conn', by simp [Action.serving], hflush, hlt⟩
  | handle request =>
      -- Any answer will do.
      obtain ⟨response⟩ := ‹Nonempty ρ›
      refine ⟨.respond response, { conn with pc := .send response }, rfl, ?_, ?_⟩
      · simp [step, respond, h]
      · simp [distance, h]
  | send response =>
      obtain ⟨conn', hsend, hlt⟩ : ∃ conn', conn.step (.send r) = some conn' ∧
          conn'.distance < conn.distance := by
        simp only [step, send, h]
        split <;> exact ⟨_, rfl, by simp [distance, note, h]⟩
      exact ⟨.send r, conn', by simp [Action.serving], hsend, hlt⟩
  | flushResponse =>
      obtain ⟨conn', hflush, hlt⟩ : ∃ conn', conn.step (.flushResponse r) = some conn' ∧
          conn'.distance < conn.distance := by
        simp only [step, flushResponse, h]
        split <;> exact ⟨_, rfl, by simp [distance, note, h]⟩
      exact ⟨.flushResponse r, conn', by simp [Action.serving], hflush, hlt⟩

end Connection

namespace ConnectionManager
variable {μ κ ρ : Type} {m m' : ConnectionManager μ κ ρ} {a : Action μ κ ρ} {id : ConnectionId}
  {i j : Nat} {u v : SpawnCall μ κ ρ} {pc : StopPc}

/-! ## The handshakes of `stop` -/

/-- Where `stop` stands with the manager's own worker. -/
def stopper (pc : Option StopPc) : Stopper :=
  match pc with
  | some .takeHold => .takeHold
  | some .wait => .wait
  | _ => .away

/-- Where it stands with connection `i`. -/
def connStopper (pc : Option StopPc) (i : Nat) : Stopper :=
  match pc with
  | some (.closeTakeHold j) => if j = i then .takeHold else .away
  | some (.closeWait j) => if j = i then .wait else .away
  | _ => .away

def looping (m : ConnectionManager μ κ ρ) : Bool :=
  match m.workerPc with
  | .select | .remove .. => true
  | .left | .ended => false

/-- The connection is in its loop, or will be. -/
def SpawnCall.looping (u : SpawnCall μ κ ρ) : Bool :=
  match u.life with
  | .spawned => true
  | .running => !u.conn.pc.departed
  | .refused | .finished => false

/-- `stop` has taken the hold on the manager's own worker. -/
def StopPc.past : StopPc → Bool
  | .stop | .takeHold => false
  | .wait | .drain | .close _ | .closeTakeHold _ | .closeWait _ | .closed _ => true

/-- `stop` is in its round for connection `i`. -/
def StopPc.rounds (i : Nat) : StopPc → Bool
  | .close j | .closeTakeHold j | .closeWait j | .closed j => j = i
  | .stop | .takeHold | .wait | .drain => false

/-- The worker's side and the stopper's side of each stop channel agree. -/
structure Attended (m : ConnectionManager μ κ ρ) : Prop where
  connections : ∀ (i : Nat) (u : SpawnCall μ κ ρ), m.spawns[i]? = some u →
    u.task.Served (connStopper m.stopPc i) u.looping
  served : m.worker.Served (stopper m.stopPc) m.looping
  ended : m.workerPc = .ended ↔ m.worker.context = false
  taken : ∀ pc, m.stopPc = some pc → pc.past → m.worker.hold = false

@[simp] theorem dropConnection_worker (m : ConnectionManager μ κ ρ) (k : Option Nat) :
    (m.dropConnection k).worker = m.worker := by
  unfold dropConnection; split <;> rfl

namespace Attended

theorem start (accepted : Bool) (stopAll : List Unit) :
    Attended (ConnectionManager.start accepted stopAll : ConnectionManager μ κ ρ) := by
  refine ⟨by simp [ConnectionManager.start], ?_, ?_, nofun⟩
  · cases accepted with
    | true => exact .new _ _
    | false => exact .none
  · cases accepted <;> simp [ConnectionManager.start, TaskState.new, TaskState.none]

/-- The manager's own worker is as it was. -/
theorem of_connections (h : Attended m) (hstop : m'.stopPc = m.stopPc)
    (hworker : m'.worker = m.worker) (hpc : m'.workerPc = m.workerPc)
    (hconnections : ∀ (j : Nat) (w : SpawnCall μ κ ρ), m'.spawns[j]? = some w →
      w.task.Served (connStopper m'.stopPc j) w.looping) : Attended m' := by
  have hlooping : m'.looping = m.looping := by rw [looping, hpc, looping]
  refine ⟨hconnections, ?_, by rw [hworker, hpc, h.ended], by rw [hworker, hstop]; exact h.taken⟩
  rw [hworker, hstop, hlooping]
  exact h.served

/-- One connection changes. -/
theorem of_set (h : Attended m) (hu : m.spawns[i]? = some u)
    (hspawns : m'.spawns = m.spawns.set i v)
    (hv : v.task.Served (connStopper m.stopPc i) v.looping) (hstop : m'.stopPc = m.stopPc)
    (hworker : m'.worker = m.worker) (hpc : m'.workerPc = m.workerPc) : Attended m' := by
  refine h.of_connections hstop hworker hpc ?_
  rw [hspawns, hstop]
  exact List.forall_getElem?_set hu hv fun j w _ hw => h.connections j w hw

/-- A `Connection` is dropped. -/
theorem of_drop {k : Option Nat} (h : Attended m)
    (hspawns : m'.spawns = (m.dropConnection k).spawns) (hstop : m'.stopPc = m.stopPc)
    (hworker : m'.worker = m.worker)
    (hpc : m'.workerPc = m.workerPc) : Attended m' := by
  rcases dropConnection_eq m k with heq | ⟨i, u, hu, heq⟩
  · refine h.of_connections hstop hworker hpc ?_
    rw [hspawns, heq, hstop]
    exact h.connections
  · exact h.of_set hu (v := { u with handle := false }) (hspawns.trans (by rw [heq]; rfl))
      (h.connections i u hu) hstop hworker hpc

/-- `stop` goes on, and is past the manager's own worker. -/
theorem of_taken (h : Attended m) (hpc : m.stopPc = some pc) (hpast : pc.past)
    (hstopper : stopper m'.stopPc = stopper m.stopPc)
    (hworker : m'.worker = m.worker) (hworkerPc : m'.workerPc = m.workerPc)
    (hconnections : ∀ (j : Nat) (w : SpawnCall μ κ ρ), m'.spawns[j]? = some w →
      w.task.Served (connStopper m'.stopPc j) w.looping) : Attended m' := by
  have hlooping : m'.looping = m.looping := by rw [looping, hworkerPc, looping]
  refine ⟨hconnections, ?_, by rw [hworker, hworkerPc, h.ended], fun _ _ _ => ?_⟩
  · rw [hworker, hstopper, hlooping]
    exact h.served
  · rw [hworker]
    exact h.taken pc hpc hpast

theorem spawn (h : Attended m) (hquiet : m.quiet) (hs : m.spawn = some m') : Attended m' := by
  have hnone : m.stopPc = none := by
    simp only [quiet, Bool.and_eq_true, Option.isNone_iff_eq_none] at hquiet
    exact hquiet.2
  obtain rfl := eq_of_spawn hs
  refine h.of_connections rfl rfl rfl fun j w hw => ?_
  rcases getElem?_concat_eq_some hw with ⟨hw, -⟩ | ⟨rfl, rfl⟩
  · exact h.connections j w hw
  · have haway : connStopper m.stopPc m.spawns.length = .away := by
      rw [hnone]
      rfl
    rw [haway]
    unfold started
    cases m.accepting with
    | true => exact .new _ _
    | false => exact .none

/-- A connection is no longer in its loop than before. -/
theorem of_le {conn : Connection μ κ ρ} (h : Attended m) (life : Life)
    (hu : m.spawns[i]? = some u) (hspawns : m'.spawns = m.spawns.set i { u with conn, life })
    (hle : SpawnCall.looping { u with conn, life } → u.looping) (hstop : m'.stopPc = m.stopPc)
    (hworker : m'.worker = m.worker) (hpc : m'.workerPc = m.workerPc) : Attended m' :=
  h.of_set hu hspawns ((h.connections i u hu).of_le hle) hstop hworker hpc

theorem connStop {src : StopSource} (h : Attended m) (hu : m.spawns[i]? = some u)
    (hs : m.connStop i u src = some m') : Attended m' := by
  obtain ⟨hlife, hs⟩ := Option.ite_none_right_eq_some.mp hs
  obtain ⟨task, htask, hs⟩ := Option.bind_eq_some_iff.mp hs
  obtain ⟨conn, hconn, rfl⟩ := Option.map_eq_some_iff.mp hs
  have hdeparted : conn.pc.departed := by
    simp only [Connection.step, Connection.waitForStop] at hconn
    split at hconn <;> cases hconn
    rfl
  have hlooping : SpawnCall.looping { u with conn, task } = false := by
    simp [SpawnCall.looping, hlife, hdeparted]
  refine h.of_set hu (v := { u with conn, task }) rfl ?_ rfl rfl rfl
  rw [hlooping]
  exact (h.connections i u hu).waitForStop htask

/-- The steps of the connection workers. -/
theorem worked (h : Attended m) (ha : a.ofWorker) (hs : m.step a = some m') : Attended m' := by
  cases a with
  | poll i =>
      obtain ⟨u, hu, hs⟩ := Option.bind_eq_some_iff.mp hs
      obtain ⟨hlife, hs⟩ := Option.ite_none_right_eq_some.mp hs
      cases hs
      exact h.of_le .running hu rfl (fun _ => by simp [SpawnCall.looping, hlife]) rfl rfl rfl
  | conn i b =>
      obtain ⟨u, hu, hs⟩ := Option.bind_eq_some_iff.mp hs
      obtain ⟨⟨hlife, -⟩, hs⟩ := Option.ite_none_right_eq_some.mp hs
      obtain ⟨conn, hconn, rfl⟩ := Option.map_eq_some_iff.mp hs
      refine h.of_le u.life hu rfl (fun hlooping => ?_) rfl rfl rfl
      cases hdeparted : u.conn.pc.departed with
      | false => simp [SpawnCall.looping, hlife, hdeparted]
      | true =>
          simp [SpawnCall.looping, hlife, (Connection.over_step hconn hdeparted).1] at hlooping
  | connStop i src =>
      obtain ⟨u, hu, hs⟩ := Option.bind_eq_some_iff.mp hs
      exact h.connStop hu hs
  | connExit i =>
      obtain ⟨u, hu, hs⟩ := Option.bind_eq_some_iff.mp hs
      simp only [connExit] at hs
      split at hs
      next disconnected hlife hpc =>
        obtain ⟨conn, hconn, rfl⟩ := Option.map_eq_some_iff.mp hs
        refine h.of_le u.life hu rfl (fun hlooping => ?_) rfl rfl rfl
        have hdeparted : u.conn.pc.departed := by rw [hpc]; rfl
        simp [SpawnCall.looping, hlife, (Connection.over_step hconn hdeparted).1] at hlooping
      next => cases hs
  | finish i =>
      obtain ⟨u, hu, hs⟩ := Option.bind_eq_some_iff.mp hs
      simp only [finish] at hs
      split at hs
      next disconnected hlife hpc =>
        cases hs
        exact h.of_set hu (v := { u with task := u.task.dropContext, life := .finished }) rfl
          (.dropContext _ _) rfl rfl rfl
      next => cases hs
  | _ => cases ha

/-- `stop` goes on, and is not in its round for connection `i`. -/
theorem elsewhere {pc : StopPc} (h : Attended m) (pc' : StopPc) (hpc : m.stopPc = some pc)
    (hu : m.spawns[i]? = some u) (hrounds : pc.rounds i = false) (hrounds' : pc'.rounds i = false) :
    u.task.Served (connStopper (some pc') i) u.looping := by
  have haway : ∀ {pc : StopPc}, pc.rounds i = false → connStopper (some pc) i = .away := by
    intro pc hpc
    cases pc <;> first | rfl | simpa [connStopper, StopPc.rounds] using hpc
  have hserved := h.connections i u hu
  rw [hpc, haway hrounds] at hserved
  rw [haway hrounds']
  exact hserved

/-- `stop` goes on with the stop channel of connection `i`. -/
theorem round {pc : StopPc} (h : Attended m) (pc' : StopPc) (task : TaskState)
    (hpc : m.stopPc = some pc)
    (hrounds : ∀ j, j ≠ i → pc.rounds j = false ∧ pc'.rounds j = false) (hpast : pc.past)
    (hpast' : stopper (some pc') = stopper (some pc)) (hu : m.spawns[i]? = some u)
    (hspawns : m'.spawns = m.spawns.set i { u with task }) (hpc' : m'.stopPc = some pc')
    (hserved : task.Served (connStopper (some pc') i) u.looping) (hworker : m'.worker = m.worker)
    (hworkerPc : m'.workerPc = m.workerPc) : Attended m' := by
  refine h.of_taken hpc hpast (by rw [hpc', hpc, hpast']) hworker hworkerPc ?_
  rw [hspawns, hpc']
  exact List.forall_getElem?_set hu hserved fun j w hj hw =>
    h.elsewhere _ hpc hw (hrounds j hj).1 (hrounds j hj).2

theorem stopStep (h : Attended m) (hpc : m.stopPc = some pc) (hs : m.stopStep pc = some m') :
    Attended m' := by
  have hserved := h.served
  rw [hpc] at hserved
  cases pc with
  | stop =>
      obtain ⟨worker, hsend, rfl⟩ := Option.map_eq_some_iff.mp hs
      refine ⟨fun j w hw => h.elsewhere _ hpc hw rfl rfl, hserved.sendStop hsend, ?_, ?_⟩
      · exact h.ended.trans (by rw [(TaskState.sendStop_frame hsend).1])
      · rintro _ ⟨⟩ hpast
        cases hpast
  | takeHold =>
      cases hs
      have htake := hserved.takeHold
      refine ⟨fun j w hw => ?_, ?_, h.ended, fun _ _ _ => rfl⟩
      · apply h.elsewhere _ hpc hw rfl
        cases m.worker.hold <;> rfl
      · cases hhold : m.worker.hold <;> simpa [hhold, stopper, looping] using htake
  | wait =>
      obtain ⟨hreleased, hs⟩ := Option.ite_none_right_eq_some.mp hs
      cases hs
      exact ⟨fun j w hw => h.elsewhere _ hpc hw rfl rfl, hserved.released hreleased, h.ended,
        fun _ _ _ => h.taken .wait hpc rfl⟩
  | drain =>
      obtain ⟨-, hs⟩ := Option.ite_none_right_eq_some.mp hs
      cases hs
      refine h.of_taken hpc rfl (by rw [hpc]; rfl) rfl rfl fun j w hw => ?_
      have haway := h.elsewhere .drain hpc hw rfl rfl
      exact haway
  | close i =>
      obtain ⟨u, hu, hs⟩ := Option.bind_eq_some_iff.mp hs
      obtain ⟨task, hsend, rfl⟩ := Option.map_eq_some_iff.mp hs
      refine h.round (.closeTakeHold i) task hpc (fun j hj => ?_) rfl rfl hu rfl rfl ?_ rfl rfl
      · simp [StopPc.rounds, Ne.symm hj]
      · have hcall := h.connections i u hu
        rw [hpc] at hcall
        simpa [connStopper] using hcall.sendStop hsend
  | closeTakeHold i =>
      obtain ⟨u, hu, rfl⟩ := Option.map_eq_some_iff.mp hs
      have hcall := h.connections i u hu
      have haway : connStopper m.stopPc i = .takeHold := by simp [hpc, connStopper]
      rw [haway] at hcall
      have htake := hcall.takeHold
      refine h.round _ u.task.takeHold hpc (fun j hj => ?_) rfl ?_ hu rfl rfl ?_ rfl rfl
      · cases u.task.hold <;> simp [StopPc.rounds, Ne.symm hj]
      · cases u.task.hold <;> rfl
      · cases hhold : u.task.hold <;> simpa [hhold, connStopper] using htake
  | closeWait i =>
      obtain ⟨u, hu, hs⟩ := Option.bind_eq_some_iff.mp hs
      obtain ⟨hreleased, hs⟩ := Option.ite_none_right_eq_some.mp hs
      cases hs
      have hcall := h.connections i u hu
      have haway : connStopper m.stopPc i = .wait := by simp [hpc, connStopper]
      rw [haway] at hcall
      refine h.round (.closed i) u.task hpc (fun j hj => ?_) rfl rfl hu ?_ rfl
        (hcall.released hreleased) rfl rfl
      · simp [StopPc.rounds, Ne.symm hj]
      · exact (List.set_eq_self_of_some hu).symm
  | closed i =>
      cases hs
      rcases dropConnection_eq m (some i) with heq | ⟨k, u, hu, heq⟩
      · rw [heq]
        refine h.of_taken hpc rfl (by rw [hpc]; rfl) rfl rfl fun j w hw => ?_
        have hserved := h.connections j w hw
        rw [hpc] at hserved
        exact hserved
      · rw [heq]
        refine h.of_taken hpc rfl (by rw [hpc]; rfl) rfl rfl ?_
        refine List.forall_getElem?_set hu ?_ fun j w _ hw => ?_
        · have hserved := h.connections k u hu
          rw [hpc] at hserved
          exact hserved
        · have hserved := h.connections j w hw
          rw [hpc] at hserved
          exact hserved

theorem step (h : Attended m) (hs : m.step a = some m') : Attended m' := by
  cases a with
  | poll | conn | connStop | connExit | finish => exact h.worked rfl hs
  | spawn =>
      obtain ⟨hquiet, hs⟩ := Option.ite_none_right_eq_some.mp hs
      exact h.spawn hquiet hs
  | insert =>
      obtain ⟨i, -, hs⟩ := Option.bind_eq_some_iff.mp hs
      obtain ⟨u, -, rfl⟩ := Option.map_eq_some_iff.mp hs
      exact h.of_drop (k := m.connections.lookup u.id) rfl (by simp [note]) (by simp [note])
        (by simp [note])
  | recv =>
      simp only [ConnectionManager.step, recv] at hs
      split at hs <;> cases hs
      next id _ notices hpc hnotices =>
        have hserved := h.served
        have hended := h.ended
        rw [looping, hpc] at hserved
        rw [hpc] at hended
        exact ⟨h.connections, hserved, by simpa using hended, h.taken⟩
  | remove =>
      simp only [ConnectionManager.step, remove] at hs
      split at hs <;> cases hs
      next id hpc =>
        have hdrop : Attended (m.dropConnection (m.connections.lookup id)) :=
          h.of_drop rfl (by simp) (by simp) (by simp)
        have hserved := hdrop.served
        have hended := hdrop.ended
        rw [looping, dropConnection_workerPc, hpc] at hserved
        rw [dropConnection_workerPc, hpc] at hended
        exact ⟨hdrop.connections, hserved, by simpa [note] using hended, hdrop.taken⟩
  | waitForStop src =>
      obtain ⟨hpc, hs⟩ := Option.ite_none_right_eq_some.mp hs
      obtain ⟨worker, hwait, rfl⟩ := Option.map_eq_some_iff.mp hs
      obtain ⟨hcontext, hhold, -⟩ := TaskState.waitForStop_frame hwait
      have hended := h.ended
      rw [hpc] at hended
      refine ⟨h.connections, h.served.waitForStop hwait, ?_, fun pc hpc' hpast => ?_⟩
      · simpa [hcontext] using hended
      · exact hhold.trans (h.taken pc hpc' hpast)
  | exit =>
      obtain ⟨-, hs⟩ := Option.ite_none_right_eq_some.mp hs
      cases hs
      exact ⟨h.connections, .dropContext _ _, iff_of_true rfl rfl, h.taken⟩
  | beginStop =>
      obtain ⟨hquiet, hs⟩ := Option.ite_none_right_eq_some.mp hs
      cases hs
      have hnone : m.stopPc = none := by
        simp only [quiet, Bool.and_eq_true, Option.isNone_iff_eq_none] at hquiet
        exact hquiet.2
      have hserved := h.served
      have hconnections := h.connections
      rw [hnone] at hserved hconnections
      refine ⟨hconnections, hserved, h.ended, ?_⟩
      rintro _ ⟨⟩ hpast
      cases hpast
  | stop =>
      obtain ⟨pc, hpc, hs⟩ := Option.bind_eq_some_iff.mp hs
      exact h.stopStep hpc hs
  | drain id =>
      obtain ⟨hpc, hs⟩ := Option.ite_none_right_eq_some.mp hs
      obtain ⟨i, -, rfl⟩ := Option.map_eq_some_iff.mp hs
      refine h.of_taken hpc rfl (by rw [hpc]; rfl) rfl rfl fun j w hw => ?_
      have hserved := h.connections j w hw
      rw [hpc] at hserved
      exact hserved
  | refuse | stopAll =>
      cases hs
      exact h.of_connections rfl rfl rfl h.connections

end Attended

theorem attended_of_reachable (h : (system μ κ ρ).Reachable m) : Attended m :=
  h.invariant (fun _ ⟨accepted, stopAll, hm⟩ => hm ▸ .start accepted stopAll)
    fun _ _ _ _ hi hs => hi.step hs

/-! ## The connections of a round -/

/-- The connections that `spawn`, the map and `stop` are about are there. -/
structure Present (m : ConnectionManager μ κ ρ) : Prop where
  spawning : ∀ i, m.spawning = some i → i < m.spawns.length
  mapped : ∀ id i, m.connections.lookup id = some i → i < m.spawns.length
  round : ∀ pc i, m.stopPc = some pc → pc.rounds i → i < m.spawns.length

namespace Present

/-- No connection is lost. -/
theorem of_le (h : Present m) (hlength : m.spawns.length ≤ m'.spawns.length)
    (hspawning : ∀ i, m'.spawning = some i → m.spawning = some i)
    (hmapped : ∀ id i, m'.connections.lookup id = some i → m.connections.lookup id = some i)
    (hround : ∀ pc i, m'.stopPc = some pc → pc.rounds i → ∃ pc, m.stopPc = some pc ∧ pc.rounds i) :
    Present m' where
  spawning i hi := (h.spawning i (hspawning i hi)).trans_le hlength
  mapped id i hi := (h.mapped id i (hmapped id i hi)).trans_le hlength
  round pc i hpc hi := by
    obtain ⟨pc₀, hpc₀, hi₀⟩ := hround pc i hpc hi
    exact (h.round pc₀ i hpc₀ hi₀).trans_le hlength

theorem length_le (hs : m.step a = some m') : m.spawns.length ≤ m'.spawns.length := by
  apply Nat.le_of_not_lt
  intro hlt
  obtain ⟨v, hv, -⟩ := follows_of_step hs _ _ (List.getElem?_eq_getElem hlt)
  simp at hv

theorem stopStep (h : Present m) (hpc : m.stopPc = some pc) (hs : m.stopStep pc = some m')
    (hlength : m.spawns.length ≤ m'.spawns.length) : Present m' := by
  cases pc with
  | stop =>
      obtain ⟨worker, -, rfl⟩ := Option.map_eq_some_iff.mp hs
      refine h.of_le hlength (fun _ => id) (fun _ _ => id) ?_
      rintro _ i ⟨⟩ hi
      cases hi
  | takeHold =>
      cases hs
      refine h.of_le hlength (fun _ => id) (fun _ _ => id) ?_
      rintro _ i ⟨⟩ hi
      split at hi <;> cases hi
  | wait | drain =>
      obtain ⟨-, hs⟩ := Option.ite_none_right_eq_some.mp hs
      cases hs
      refine h.of_le hlength (fun _ => id) (fun _ _ => id) ?_
      rintro _ i ⟨⟩ hi
      try cases hi
  | close j =>
      obtain ⟨u, -, hs⟩ := Option.bind_eq_some_iff.mp hs
      obtain ⟨task, -, rfl⟩ := Option.map_eq_some_iff.mp hs
      refine h.of_le hlength (fun _ => id) (fun _ _ => id) ?_
      rintro _ i ⟨⟩ hi
      exact ⟨_, hpc, hi⟩
  | closeTakeHold j =>
      obtain ⟨u, -, rfl⟩ := Option.map_eq_some_iff.mp hs
      refine h.of_le hlength (fun _ => id) (fun _ _ => id) ?_
      rintro _ i ⟨⟩ hi
      refine ⟨_, hpc, ?_⟩
      split at hi <;> exact hi
  | closeWait j =>
      obtain ⟨u, -, hs⟩ := Option.bind_eq_some_iff.mp hs
      obtain ⟨-, hs⟩ := Option.ite_none_right_eq_some.mp hs
      cases hs
      refine h.of_le hlength (fun _ => id) (fun _ _ => id) ?_
      rintro _ i ⟨⟩ hi
      exact ⟨_, hpc, hi⟩
  | closed j =>
      cases hs
      refine h.of_le hlength (by simp) (by simp) ?_
      rintro _ i ⟨⟩ hi
      cases hi

theorem step (h : Present m) (hs : m.step a = some m') : Present m' := by
  have hlength := length_le hs
  by_cases hworker : a.ofWorker
  · obtain ⟨i, u, v, new, hworked⟩ := worked_of_step hworker hs
    rw [hworked.after] at hlength ⊢
    exact h.of_le hlength (fun _ => id) (fun _ _ => id) fun pc i hpc hi => ⟨pc, hpc, hi⟩
  cases a with
  | poll | conn | connStop | connExit | finish => exact absurd rfl hworker
  | spawn =>
      obtain ⟨-, hs⟩ := Option.ite_none_right_eq_some.mp hs
      obtain rfl := eq_of_spawn hs
      have hlt : m.spawns.length <
          (m.spawns ++ [m.started ⟨m.generator.next⟩]).length := by simp
      refine ⟨?_, fun id i hi => (h.mapped id i hi).trans hlt,
        fun pc i hpc hi => (h.round pc i hpc hi).trans hlt⟩
      rintro _ ⟨⟩
      exact hlt
  | insert =>
      obtain ⟨i, hi, hs⟩ := Option.bind_eq_some_iff.mp hs
      obtain ⟨u, -, rfl⟩ := Option.map_eq_some_iff.mp hs
      refine ⟨nofun, fun id j hj => ?_, fun pc j hpc hj => ?_⟩
      · by_cases hid : id = u.id
        · subst hid
          obtain rfl : i = j := by simpa [note, AList.lookup_insert] using hj
          exact (h.spawning i hi).trans_le hlength
        · refine (h.mapped id j ?_).trans_le hlength
          simpa [note, AList.lookup_insert_ne hid] using hj
      · exact (h.round pc j (by simpa [note] using hpc) hj).trans_le hlength
  | remove =>
      simp only [ConnectionManager.step, remove] at hs
      split at hs <;> cases hs
      next id hpc =>
        refine h.of_le hlength (by simp [note]) (fun id' i hi => ?_) fun pc i hpc hi => ?_
        · by_cases hid : id' = id
          · subst hid
            simp [note, AList.lookup_erase] at hi
          · simpa [note, AList.lookup_erase_ne hid] using hi
        · exact ⟨pc, by simpa [note] using hpc, hi⟩
  | recv =>
      simp only [ConnectionManager.step, recv] at hs
      split at hs <;> cases hs
      exact h.of_le hlength (fun _ => id) (fun _ _ => id) fun pc i hpc hi => ⟨pc, hpc, hi⟩
  | waitForStop src =>
      obtain ⟨-, hs⟩ := Option.ite_none_right_eq_some.mp hs
      obtain ⟨worker, -, rfl⟩ := Option.map_eq_some_iff.mp hs
      exact h.of_le hlength (fun _ => id) (fun _ _ => id) fun pc i hpc hi => ⟨pc, hpc, hi⟩
  | exit =>
      obtain ⟨-, hs⟩ := Option.ite_none_right_eq_some.mp hs
      cases hs
      exact h.of_le hlength (fun _ => id) (fun _ _ => id) fun pc i hpc hi => ⟨pc, hpc, hi⟩
  | beginStop =>
      obtain ⟨-, hs⟩ := Option.ite_none_right_eq_some.mp hs
      cases hs
      refine h.of_le hlength (fun _ => id) (fun _ _ => id) ?_
      rintro _ i ⟨⟩ hi
      cases hi
  | stop =>
      obtain ⟨pc, hpc, hs⟩ := Option.bind_eq_some_iff.mp hs
      exact h.stopStep hpc hs hlength
  | drain id =>
      obtain ⟨-, hs⟩ := Option.ite_none_right_eq_some.mp hs
      obtain ⟨j, hj, rfl⟩ := Option.map_eq_some_iff.mp hs
      refine ⟨h.spawning, fun id' i hi => ?_, ?_⟩
      · by_cases hid : id' = id
        · subst hid
          simp [AList.lookup_erase] at hi
        · exact h.mapped id' i (by simpa [AList.lookup_erase_ne hid] using hi)
      · rintro _ i ⟨⟩ hi
        obtain rfl : j = i := by simpa [StopPc.rounds] using hi
        exact h.mapped id j hj
  | refuse | stopAll =>
      cases hs
      exact h.of_le hlength (fun _ => id) (fun _ _ => id) fun pc i hpc hi => ⟨pc, hpc, hi⟩

end Present

theorem present_of_reachable (h : (system μ κ ρ).Reachable m) : Present m := by
  refine h.invariant (I := Present) ?_ fun _ _ _ _ hi hs => hi.step hs
  rintro _ ⟨accepted, stopAll, rfl⟩
  exact ⟨nofun, by simp [start, AList.lookup_empty], nofun⟩

/-! ## The call -/

/-- The steps of `stop`, of the workers and of the handler, where the writes to client `i`
end with `socket i`: no new client, no request, no message of a session and no signal of the
runtime is among them. -/
def Action.unaided (socket : Nat → WriteResult) : Action μ κ ρ → Bool
  | .conn i b => b.serving (socket i)
  | .poll _ | .connStop _ .stop | .connExit _ | .finish _ => true
  | .remove | .waitForStop .stop | .exit | .stop | .drain _ => true
  | _ => false

/-- `stop` gets to its end by itself, and leaves no connection in its loop. -/
def Returns (socket : Nat → WriteResult) : ConnectionManager μ κ ρ → Prop :=
  Leads step (fun a => a.unaided socket) fun t => t.stopPc = none ∧ ∀ u ∈ t.spawns, u.Gone

/-- The manager's own worker, which `stop` waits for, drops its context. -/
def Ends (socket : Nat → WriteResult) : ConnectionManager μ κ ρ → Prop :=
  Leads step (fun a => a.unaided socket) fun t =>
    (system μ κ ρ).Reachable t ∧ t.stopPc = some .wait ∧ t.workerPc = .ended

/-- The round of the loop ends, and leaves the map alone. -/
def Rounds (socket : Nat → WriteResult) (connections : AList fun _ : ConnectionId => Nat) :
    ConnectionManager μ κ ρ → Prop :=
  Leads step (fun a => a.unaided socket) fun t =>
    (system μ κ ρ).Reachable t ∧ t.stopPc = some .drain ∧ t.connections = connections

variable {socket : Nat → WriteResult}

namespace Ends

theorem of_left (hm : (system μ κ ρ).Reachable m) (hstop : m.stopPc = some .wait)
    (hpc : m.workerPc = .left) : Ends socket m := by
  have hexit : m.step .exit = some { m with worker := m.worker.dropContext, workerPc := .ended } :=
    if_pos hpc
  exact .cons rfl hexit (.refl ⟨hm.step (a := .exit) hexit, hstop, rfl⟩)

/-- The worker has been asked to stop. -/
theorem of_select (hm : (system μ κ ρ).Reachable m) (hstop : m.stopPc = some .wait)
    (hpc : m.workerPc = .select) : Ends socket m := by
  have hserved := (attended_of_reachable hm).served
  have hlooping : m.looping = true := by rw [looping, hpc]
  rw [hstop, hlooping] at hserved
  obtain ⟨worker, hworker⟩ := Option.isSome_iff_exists.mp (hserved.hears (by simp [stopper]))
  have hwait : m.step (.waitForStop .stop) = some { m with worker, workerPc := .left } := by
    rw [step, waitForStop, if_pos hpc, hworker, Option.map_some]
  have hm' : (system μ κ ρ).Reachable { m with worker, workerPc := .left } :=
    hm.step (a := .waitForStop .stop) hwait
  exact .cons rfl hwait (of_left hm' hstop rfl)

theorem of_wait (hm : (system μ κ ρ).Reachable m) (hstop : m.stopPc = some .wait) :
    Ends socket m := by
  cases hpc : m.workerPc with
  | ended => exact .refl ⟨hm, hstop, hpc⟩
  | left => exact of_left hm hstop hpc
  | select => exact of_select hm hstop hpc
  | remove id =>
      obtain ⟨m', hremove, hpc', hstop'⟩ : ∃ m', m.step .remove = some m' ∧
          m'.workerPc = .select ∧ m'.stopPc = m.stopPc := by
        simp [step, remove, hpc, note]
      exact .cons rfl hremove
        (of_select (hm.step (a := .remove) hremove) (hstop'.trans hstop) hpc')

end Ends

/-- How many steps are left until a connection drops its context. -/
def SpawnCall.distance (u : SpawnCall μ κ ρ) : Nat :=
  match u.life, u.conn.pc with
  | .spawned, _ => 4
  | .running, .ended _ => 1
  | .running, .left _ => 2
  | .running, _ => u.conn.distance + 3
  | .refused, _ | .finished, _ => 0

theorem SpawnCall.distance_of_running (hlife : u.life = .running)
    (hdeparted : u.conn.pc.departed = false) : u.distance = u.conn.distance + 3 := by
  unfold distance
  rw [hlife]
  cases hpc : u.conn.pc <;> first | rfl | simp [hpc, Connection.Pc.departed] at hdeparted

/-- The connection takes a step that brings it nearer to its end. -/
structure Nearer (m m' : ConnectionManager μ κ ρ) (i : Nat) (u v : SpawnCall μ κ ρ) : Prop where
  spawns : m'.spawns = m.spawns.set i v
  distance : v.distance < u.distance
  stopPc : m'.stopPc = m.stopPc
  connections : m'.connections = m.connections

/-- The same for a step of the `Connection` itself. -/
theorem nearer_of_conn [Nonempty ρ] (hu : m.spawns[i]? = some u) (hlife : u.life = .running)
    (hpc : u.conn.pc ≠ .select) (hdeparted : u.conn.pc.departed = false) :
    ∃ a m' v, a.unaided socket ∧ m.step a = some m' ∧ Nearer m m' i u v := by
  obtain ⟨b, conn, hb, hconn, hlt⟩ := Connection.exists_step (socket i) hpc hdeparted
  have hof : ofConnection b = true := by cases b <;> first | rfl | cases hb
  have hstep : m.step (.conn i b) = some (m.setSpawn i { u with conn }) := by
    simp [step, hu, connStep, hlife, hof, hconn]
  refine ⟨.conn i b, _, { u with conn }, hb, hstep, rfl, ?_, rfl, rfl⟩
  rw [SpawnCall.distance_of_running hlife hdeparted]
  unfold SpawnCall.distance
  rw [hlife]
  split <;> simp_all

/-- A connection that holds its context, and hears the stop in its `select!`, has a step
to take. -/
theorem exists_nearer [Nonempty ρ] (hsound : u.Sound) (hu : m.spawns[i]? = some u)
    (hcontext : u.task.context)
    (hhears : u.looping → (u.task.waitForStop u.handle m.stopAll .stop).isSome) :
    ∃ a m' v, a.unaided socket ∧ m.step a = some m' ∧ Nearer m m' i u v := by
  rcases hsound.context hcontext with hlife | hlife
  · -- It has not been polled, and so has nothing to serve.
    have hstep : m.step (.poll i) = some (m.setSpawn i { u with life := .running }) := by
      simp [step, hu, poll, hlife]
    have hfresh : u.conn = .start := hsound.fresh (by simp [hlife]) (by simp [hlife])
    refine ⟨.poll i, _, { u with life := .running }, rfl, hstep, rfl, ?_, rfl, rfl⟩
    simp [SpawnCall.distance, hlife, hfresh, Connection.start, Connection.distance]
  · cases hpc : u.conn.pc with
    | select =>
        -- Only here does it look for a stop.
        have hlooping : u.looping := by
          simp [SpawnCall.looping, hlife, hpc, Connection.Pc.departed]
        obtain ⟨task, htask⟩ := Option.isSome_iff_exists.mp (hhears hlooping)
        have hstep : m.step (.connStop i .stop) =
            some (m.setSpawn i { u with conn := { u.conn with pc := .left false }, task }) := by
          simp [step, hu, connStop, hlife, htask, Connection.step, Connection.waitForStop, hpc]
        refine ⟨.connStop i .stop, _, _, rfl, hstep, rfl, ?_, rfl, rfl⟩
        simp [SpawnCall.distance, hlife, hpc, Connection.distance]
    | left disconnected =>
        have hstep : m.step (.connExit i) = some
            { m.setSpawn i { u with conn := { u.conn with pc := .ended disconnected, queue := [] } }
                with notices := m.notices ++ [(u.id, disconnected)] } := by
          simp [step, hu, connExit, hlife, Connection.step, Connection.exit, hpc]
        refine ⟨.connExit i, _, _, rfl, hstep, rfl, ?_, rfl, rfl⟩
        simp [SpawnCall.distance, hlife, hpc]
    | ended disconnected =>
        have hstep : m.step (.finish i) = some
            (m.setSpawn i { u with task := u.task.dropContext, life := .finished }) := by
          simp [step, hu, finish, hlife, hpc]
        refine ⟨.finish i, _, _, rfl, hstep, rfl, ?_, rfl, rfl⟩
        simp [SpawnCall.distance, hlife, hpc]
    | feed | tryRecv | flush | handle | send | flushResponse =>
        exact nearer_of_conn hu hlife (by simp [hpc]) (by rw [hpc]; rfl)

/-- The steps that are left until connection `i` drops its context. -/
def waiting (m : ConnectionManager μ κ ρ) (i : Nat) : Nat :=
  (m.spawns[i]?.map SpawnCall.distance).getD 0

namespace Rounds

/-- `stop` takes a step of the round. -/
theorem of_stopStep (hm : (system μ κ ρ).Reachable m) (hpc : m.stopPc = some pc)
    (hs : m.stopStep pc = some m') (hconnections : m'.connections = m.connections)
    (h : (system μ κ ρ).Reachable m' → Rounds socket m'.connections m') :
    Rounds socket m.connections m := by
  have hstep : m.step .stop = some m' := by rw [step, hpc, Option.bind_some, hs]
  exact .cons rfl hstep (hconnections ▸ h (hm.step (a := .stop) hstep))

theorem of_closed (hm : (system μ κ ρ).Reachable m) (hpc : m.stopPc = some (.closed i)) :
    Rounds socket m.connections m := by
  refine of_stopStep hm hpc rfl ?_ fun hm' => .refl ⟨hm', rfl, rfl⟩
  exact dropConnection_connections m (some i)

/-- The context is dropped. -/
theorem of_released (hm : (system μ κ ρ).Reachable m) (hpc : m.stopPc = some (.closeWait i))
    (hu : m.spawns[i]? = some u) (hreleased : u.task.released) : Rounds socket m.connections m := by
  have hs : m.stopStep (.closeWait i) = some { m with stopPc := some (.closed i) } := by
    simp [stopStep, hu, hreleased]
  exact of_stopStep hm hpc hs rfl fun hm' => of_closed hm' rfl

/-- The connection has been asked to stop, and each of its steps brings the end nearer. -/
theorem of_closeWait [Nonempty ρ] (hm : (system μ κ ρ).Reachable m)
    (hpc : m.stopPc = some (.closeWait i)) : Rounds socket m.connections m := by
  refine Leads.of_measure (Q := fun t => (system μ κ ρ).Reachable t ∧
    t.stopPc = some (.closeWait i) ∧ t.connections = m.connections) (fun t => t.waiting i) ?_
    ⟨hm, hpc, rfl⟩
  rintro t ⟨ht, hstop, hsame⟩
  have hlt := (present_of_reachable ht).round _ i hstop (by simp [StopPc.rounds])
  obtain ⟨u, hu⟩ : ∃ u, t.spawns[i]? = some u := ⟨_, List.getElem?_eq_getElem hlt⟩
  cases hcontext : u.task.context with
  | false =>
      -- There is nothing to wait for, as when the connection was refused.
      have hreleased : u.task.released := by simp [TaskState.released, hcontext]
      exact (hsame ▸ of_released ht hstop hu hreleased).mono fun _ => .inl
  | true =>
      have hserved := (attended_of_reachable ht).connections i u hu
      have hcaller : connStopper t.stopPc i = .wait := by simp [hstop, connStopper]
      rw [hcaller] at hserved
      obtain ⟨a, t', v, ha, hstep, hnearer⟩ :=
        exists_nearer ((roster_of_reachable ht).sound i u hu) hu hcontext fun hlooping =>
          (hlooping ▸ hserved).hears (by simp)
      refine .cons ha hstep (.refl (.inr ⟨⟨ht.step (a := a) hstep, ?_, ?_⟩, ?_⟩))
      · exact hnearer.stopPc.trans hstop
      · exact hnearer.connections.trans hsame
      · have hv : t'.spawns[i]? = some v := by
          rw [hnearer.spawns, getElem?_set_of_some hu, if_pos rfl]
        simpa [waiting, hu, hv] using hnearer.distance

theorem of_closeTakeHold [Nonempty ρ] (hm : (system μ κ ρ).Reachable m)
    (hpc : m.stopPc = some (.closeTakeHold i)) (hu : m.spawns[i]? = some u) :
    Rounds socket m.connections m := by
  let v := { u with task := u.task.takeHold }
  have hs : ∀ next, (if u.task.hold then StopPc.closeWait i else .closed i) = next →
      m.stopStep (.closeTakeHold i) = some { m.setSpawn i v with stopPc := some next } := by
    rintro _ rfl
    rw [stopStep, hu]
    rfl
  cases hhold : u.task.hold with
  | true =>
      have hwait := hs (.closeWait i) (by simp [hhold])
      exact of_stopStep hm hpc hwait rfl fun hm' => of_closeWait hm' rfl
  | false =>
      have hclosed := hs (.closed i) (by simp [hhold])
      exact of_stopStep hm hpc hclosed rfl fun hm' => of_closed hm' rfl

theorem of_close [Nonempty ρ] (hm : (system μ κ ρ).Reachable m)
    (hpc : m.stopPc = some (.close i)) (hu : m.spawns[i]? = some u) :
    Rounds socket m.connections m := by
  have hserved := (attended_of_reachable hm).connections i u hu
  have hcaller : connStopper m.stopPc i = .away := by simp [hpc, connStopper]
  rw [hcaller] at hserved
  obtain ⟨task, htask⟩ := Option.isSome_iff_exists.mp hserved.sendStop_isSome
  have hs : m.stopStep (.close i) =
      some { m.setSpawn i { u with task } with stopPc := some (.closeTakeHold i) } := by
    simp [stopStep, hu, htask]
  have hv : (m.spawns.set i { u with task })[i]? = some { u with task } := by
    rw [getElem?_set_of_some hu, if_pos rfl]
  exact of_stopStep hm hpc hs rfl fun hm' => of_closeTakeHold hm' rfl hv

/-- However far the round has got. -/
theorem of_rounds [Nonempty ρ] (hm : (system μ κ ρ).Reachable m) (hpc : m.stopPc = some pc)
    (hrounds : pc.rounds i) : Rounds socket m.connections m := by
  have hlt := (present_of_reachable hm).round pc i hpc hrounds
  obtain ⟨u, hu⟩ : ∃ u, m.spawns[i]? = some u := ⟨_, List.getElem?_eq_getElem hlt⟩
  have hi : ∀ j, decide (j = i) = true → j = i := fun j hj => by simpa using hj
  cases pc with
  | close j =>
      obtain rfl := hi j hrounds
      exact of_close hm hpc hu
  | closeTakeHold j =>
      obtain rfl := hi j hrounds
      exact of_closeTakeHold hm hpc hu
  | closeWait j => exact of_closeWait hm hpc
  | closed j => exact of_closed hm hpc
  | stop | takeHold | wait | drain => cases hrounds

end Rounds

namespace Returns

/-- The loop takes the connections out of the map, one by one. -/
theorem of_drain [Nonempty ρ] (hm : (system μ κ ρ).Reachable m) (hpc : m.stopPc = some .drain) :
    Returns socket m := by
  refine Leads.of_measure (Q := fun t => (system μ κ ρ).Reachable t ∧ t.stopPc = some .drain)
    (fun t => t.connections.keys.length) ?_ ⟨hm, hpc⟩
  rintro t ⟨ht, hstop⟩
  cases hentries : t.connections.entries with
  | nil =>
      -- The map is empty, and `stop` returns.
      have hstep : t.step .stop = some { t with stopPc := none } := by
        simp [step, hstop, stopStep, hentries]
      refine .cons rfl hstep (.refl (.inl ⟨rfl, fun u hu => ?_⟩))
      obtain ⟨i, hi⟩ := List.mem_iff_getElem?.mp hu
      exact (roster_of_reachable ht).gone_of_drained hstop (by simp [hentries]) hi
  | cons entry rest =>
      obtain ⟨id, i⟩ := entry
      have hlookup : t.connections.lookup id = some i := by simp [AList.lookup, hentries]
      have hmem : id ∈ t.connections.keys := by simp [AList.keys, hentries]
      obtain ⟨t', hstep, hstop', hconnections⟩ : ∃ t', t.step (.drain id) = some t' ∧
          t'.stopPc = some (.close i) ∧ t'.connections = t.connections.erase id := by
        simp [step, hstop, drain, hlookup]
      have ht' : (system μ κ ρ).Reachable t' := ht.step (a := .drain id) hstep
      -- The round leaves the map alone, so one entry less is left than before.
      have hrounds : Rounds socket t'.connections t' :=
        .of_rounds (i := i) ht' hstop' (by simp [StopPc.rounds])
      refine .cons rfl hstep (hrounds.mono ?_)
      rintro t'' ⟨ht'', hdrained, hsame⟩
      refine .inr ⟨⟨ht'', hdrained⟩, ?_⟩
      rw [hsame, hconnections, AList.keys_erase, List.length_erase_of_mem hmem]
      exact Nat.sub_lt (List.length_pos_of_mem hmem) Nat.one_pos

theorem of_rounds [Nonempty ρ] (hm : (system μ κ ρ).Reachable m) (hpc : m.stopPc = some pc)
    (hrounds : pc.rounds i) : Returns socket m :=
  (Rounds.of_rounds hm hpc hrounds).trans fun _ ⟨ht, hstop, _⟩ => of_drain ht hstop

theorem of_wait [Nonempty ρ] (hm : (system μ κ ρ).Reachable m) (hpc : m.stopPc = some .wait) :
    Returns socket m := by
  refine (Ends.of_wait hm hpc).trans fun t ⟨ht, hstop, hended⟩ => ?_
  have hcontext := (attended_of_reachable ht).ended.mp hended
  have hstep : t.step .stop = some { t with stopPc := some .drain } := by
    simp [step, hstop, stopStep, TaskState.released, hcontext]
  exact .cons rfl hstep (of_drain (ht.step (a := .stop) hstep) rfl)

theorem of_takeHold [Nonempty ρ] (hm : (system μ κ ρ).Reachable m)
    (hpc : m.stopPc = some .takeHold) : Returns socket m := by
  have hstep : ∀ next, (if m.worker.hold then StopPc.wait else .drain) = next →
      m.step .stop = some { m with worker := m.worker.takeHold, stopPc := some next } := by
    rintro _ rfl
    rw [step, hpc]
    rfl
  cases hhold : m.worker.hold with
  | true =>
      have hwait := hstep .wait (by simp [hhold])
      exact .cons rfl hwait (of_wait (hm.step (a := .stop) hwait) rfl)
  | false =>
      have hdrain := hstep .drain (by simp [hhold])
      exact .cons rfl hdrain (of_drain (hm.step (a := .stop) hdrain) rfl)

theorem of_stop [Nonempty ρ] (hm : (system μ κ ρ).Reachable m) (hpc : m.stopPc = some .stop) :
    Returns socket m := by
  have hserved := (attended_of_reachable hm).served
  rw [hpc] at hserved
  obtain ⟨worker, hworker⟩ := Option.isSome_iff_exists.mp hserved.sendStop_isSome
  have hstep : m.step .stop = some { m with worker, stopPc := some .takeHold } := by
    simp [step, hpc, stopStep, hworker]
  exact .cons rfl hstep (of_takeHold (hm.step (a := .stop) hstep) rfl)

theorem of_pc [Nonempty ρ] (hm : (system μ κ ρ).Reachable m) (hpc : m.stopPc = some pc) :
    Returns socket m := by
  cases pc with
  | stop => exact of_stop hm hpc
  | takeHold => exact of_takeHold hm hpc
  | wait => exact of_wait hm hpc
  | drain => exact of_drain hm hpc
  | close i | closeTakeHold i | closeWait i | closed i =>
      exact of_rounds (i := i) hm hpc (by simp [StopPc.rounds])

end Returns

/-- However far `stop` has got, and whatever the connections were doing, it can return once
the handler answers, however the writes end, and then no connection is in its loop. -/
theorem stop_gets_through [Nonempty ρ] (socket : Nat → WriteResult)
    (hm : (system μ κ ρ).Reachable m) (hpc : m.stopPc = some pc) : Returns socket m :=
  .of_pc hm hpc

/-- `stop` begins while the handler is at work on a request, and while the worker of a second
client is yet to start. -/
def busyRun : List (Action Nat Nat Nat) :=
  [.spawn, .insert, .poll 0, .conn 0 (.next (.message 7)), .spawn, .insert, .beginStop, .stop,
    .stop, .waitForStop .stop, .exit, .stop, .drain ⟨0⟩, .stop, .stop]

/-- The first client takes nothing. -/
def stalled (i : Nat) : WriteResult := if i = 0 then .timeout else .ok

theorem stop_gets_through_busyRun :
    ∃ m, Transition.run step (start true []) busyRun = some m ∧
      m.stopPc = some (.closeWait 0) ∧ m.spawns.length = 2 ∧ Returns stalled m := by
  obtain ⟨m, hm, hpc, hlength⟩ : ∃ m : ConnectionManager Nat Nat Nat,
      Transition.run step (start true []) busyRun = some m ∧
        m.stopPc = some (.closeWait 0) ∧ m.spawns.length = 2 := ⟨_, rfl, rfl, rfl⟩
  exact ⟨m, hm, hpc, hlength, stop_gets_through stalled ⟨_, busyRun, ⟨_, _, rfl⟩, hm⟩ hpc⟩

end ConnectionManager
