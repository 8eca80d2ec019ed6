-- SUMMARY: A teardown, and with it `SessionManager::stop`, always gets to its end, without the help of a client, of the camera or of the runtime.
import AtomRust.Base.Progress
import AtomRust.Runtime.Handshake
import AtomRust.Session.Closing

/-!
# Stopping gets to its end

`stop` waits in three places: for room in a stop channel, for a worker to drop its token,
and for the mutex of a session. None of them can block for good. The one caller of a
`Task::stop` has the handshake of `Runtime.Stopper` with the worker, and a worker that has
been asked leaves its loop at the next `select!`, which it gets to by itself.
-/

open Media (Video)
open Runtime (Stopper TaskState)
open Transition (Leads)
open List (getElem?_append_of_some getElem?_set_of_some)

namespace Session
variable {V : Video} {s s' : Session V} {a : Action V} {c : Nat} {pc : CallPc}

/-! ## The handshake -/

def CallPc.stopper : CallPc → Stopper
  | .takeHold => .takeHold
  | .wait => .wait
  | _ => .away

/-- `Task::stop` is called under the mutex. -/
def stopper (s : Session V) : Stopper :=
  ((s.mutex.bind fun c => s.calls[c]?).map CallPc.stopper).getD .away

/-- The worker's side and the callers' side of the stop channel agree. -/
def Handshake (s : Session V) : Prop := s.task.Served s.stopper s.looping

theorem stopper_of_free (h : s.mutex = none) : s.stopper = .away := by
  simp [stopper, h]

theorem stopper_of_locked (hmutex : s.mutex = some c) (hc : s.calls[c]? = some pc) :
    s.stopper = pc.stopper := by
  simp [stopper, hmutex, hc]

theorem stopper_congr (hmutex : s'.mutex = s.mutex) (hcalls : s'.calls = s.calls) :
    s'.stopper = s.stopper := by
  rw [stopper, hmutex, hcalls, stopper]

theorem looping_congr (hlife : s'.life = s.life) (htarget : s'.target = s.target)
    (hworker : s'.worker = s.worker) : s'.looping = s.looping := by
  rw [looping, hlife, htarget, hworker, looping]

theorem stopper_enter (request : Request) : (enter request).stopper = .away := by
  match request with
  | .play none | .teardown => rfl
  | .play (some range) => simp only [enter]; split <;> rfl

theorem handshake_setupAndStart (target : SessionSetupTarget) (muxer : V.RtpMuxer)
    (accepted : Bool) (stopAll : List Unit) :
    Handshake (setupAndStart target muxer accepted stopAll) := by
  unfold Handshake
  rw [stopper_of_free rfl]
  cases accepted with
  | true => exact .new _ _
  | false => exact .none

namespace Handshake

/-- Who calls, and whether the worker is in its loop, is as it was. -/
theorem frame (h : Handshake s) (htask : s'.task = s.task) (hstopper : s'.stopper = s.stopper)
    (hlooping : s'.looping = true → s.looping = true) : Handshake s' := by
  unfold Handshake
  rw [htask, hstopper]
  exact h.of_le hlooping

/-- A call takes a step. -/
theorem called (h : Handshake s) (hi : Sound s) (hc : s.calls[c]? = some pc)
    (hcalled : Called s s' c pc) : Handshake s' := by
  have hframe := hcalled.caller
  have hlooping : s'.looping = s.looping := looping_congr hframe.life hframe.target hframe.worker
  have hlock : pc.locks → s.stopper = pc.stopper := fun hpc =>
    stopper_of_locked (hi.mutex.holder hc hpc) hc
  have hset : ∀ (t : Session V) (new : CallPc), t.calls = s.calls.set c new →
      pc.locks → t.mutex = s.mutex → t.stopper = new.stopper := by
    intro t new hcalls hpc hmutex
    apply stopper_of_locked (hmutex.trans (hi.mutex.holder hc hpc))
    rw [hcalls, getElem?_set_of_some hc, if_pos rfl]
  unfold Handshake at h ⊢
  rw [hlooping]
  cases hcalled with
  | @lock request hfree heq =>
      rw [stopper_of_free hfree] at h
      have hstopper : s'.stopper = .away := by
        rw [← stopper_enter request, heq]
        apply stopper_of_locked (c := c) rfl
        exact (getElem?_set_of_some hc c).trans (if_pos rfl)
      rw [hstopper, heq]
      exact h
  | subscribe heq | request _ heq | received _ heq | lagged _ heq | closed _ _ heq
  | sendPlay _ heq =>
      rw [hlock rfl] at h
      rw [hset s' _ (by rw [heq]; rfl) rfl (by rw [heq]; rfl), heq]
      exact h
  | broken hpc _ heq =>
      have hlocks : pc.locks ∧ pc.stopper = .away := by
        rcases hpc with ⟨rx, rfl⟩ | ⟨st, rfl⟩ <;> exact ⟨rfl, rfl⟩
      rw [hlock hlocks.1, hlocks.2] at h
      rw [hset s' _ (by rw [heq]; rfl) hlocks.1 (by rw [heq]; rfl), heq]
      exact h
  | stop hsent heq =>
      rw [hlock rfl] at h
      rw [hset s' _ (by rw [heq]; rfl) rfl (by rw [heq]; rfl), heq]
      exact h.sendStop hsent
  | takeHold heq =>
      rw [hlock rfl] at h
      have hstopper : s'.stopper = if s.task.hold then .wait else .away := by
        rw [hset s' _ (by rw [heq]; rfl) rfl (by rw [heq]; rfl)]
        split <;> rfl
      rw [hstopper, heq]
      exact h.takeHold
  | wait hreleased heq =>
      rw [hlock rfl] at h
      rw [hset s' _ (by rw [heq]; rfl) rfl (by rw [heq]; rfl), heq]
      exact h.released hreleased
  | ret heq =>
      rw [hlock rfl] at h
      rw [stopper_of_free (by rw [heq]; rfl), heq]
      exact h

theorem step (h : Handshake s) (hi : Sound s) (hs : s.step a = some s') : Handshake s' := by
  cases effect_of_step hs with
  | find _ heq =>
      have hstopper : s'.stopper = s.stopper := by
        cases hmutex : s.mutex with
        | none => rw [stopper_of_free hmutex, stopper_of_free (by rw [heq, ← hmutex])]
        | some d =>
            obtain ⟨pc, hd, -⟩ := (hi.mutex d).mp hmutex
            rw [stopper_of_locked hmutex hd]
            apply stopper_of_locked (c := d) (by rw [heq, ← hmutex])
            rw [heq]
            exact getElem?_append_of_some hd _
      exact h.frame (by rw [heq]) hstopper fun hl => by rwa [heq] at hl
  | disown _ heq | stopAll heq | closeMedia _ heq =>
      subst heq
      exact h
  | call hc hcalled => exact h.called hi hc hcalled
  | poll hspawned hlife heq =>
      refine h.frame (by rw [heq]) (stopper_congr (by rw [heq]) (by rw [heq])) fun hl => ?_
      rcases hlife with ⟨htarget, rfl⟩ | ⟨-, rfl⟩
      · simpa [looping, heq, hspawned, htarget] using hl
      · simp [looping, heq] at hl
  | exit htodo heq =>
      have hlooping : s'.looping = false := by rw [heq]; simp [looping]
      have hstopper : s'.stopper = s.stopper := by
        rw [heq]
        apply stopper_congr <;> cases ‹ExitStep› <;> rfl
      unfold Handshake at h ⊢
      rw [hlooping, hstopper, heq]
      cases ‹ExitStep› with
      | dropContext => exact .dropContext _ _
      | dropStreamStateTx | dropControlRx | sendStopped => exact h.leave
  | waitForStop hrunning hpc hstop heq =>
      have hlooping : s'.looping = false := by rw [heq]; simp [looping]
      have hstopper : s'.stopper = s.stopper := by rw [heq]; rfl
      unfold Handshake at h ⊢
      rw [hlooping, hstopper, heq]
      exact h.waitForStop hstop
  | reset hrunning hpc heq | packet hrunning hpc heq | took hrunning hpc _ heq
  | tookPlay hrunning hpc _ heq | deserted hrunning hpc _ heq | reply hrunning hpc heq
  | trySend hrunning hpc _ heq =>
      have hloop : s.looping = true := by simp [looping, hrunning, hpc]
      exact h.frame (by rw [heq]) (by rw [heq]; rfl) fun _ => hloop

end Handshake

theorem handshake_of_reachable (h : (system V).Reachable s) : Handshake s :=
  h.invariant (fun _ ⟨target, muxer, accepted, stopAll, hs⟩ =>
      hs ▸ handshake_setupAndStart target muxer accepted stopAll)
    fun _ _ _ ht hi hs => hi.step (sound_of_reachable ht) hs

/-! ## A teardown -/

/-- A worker that a teardown waits for drops its token by itself. -/
theorem leads_released (hs : (system V).Reachable s) (hc : s.calls[c]? = some .wait) :
    Leads Session.step (fun a => a.unaided)
      (fun t => (system V).Reachable t ∧ t.calls[c]? = some .wait ∧ t.task.context = false) s := by
  refine Leads.of_measure (Q := fun t => (system V).Reachable t ∧ t.calls[c]? = some .wait)
    distance (fun t ⟨ht, hwait⟩ => ?_) ⟨hs, hc⟩
  cases hcontext : t.task.context with
  | false => exact .refl (.inl ⟨ht, hwait, hcontext⟩)
  | true =>
      have hsound := sound_of_reachable ht
      have hstopper : t.stopper = .wait := stopper_of_locked (hsound.mutex.holder hwait rfl) hwait
      have howed : t.owed ≠ [] := List.ne_nil_of_mem (hsound.context.mp hcontext)
      obtain ⟨a, t', ha, hstep, hlt⟩ := exists_step howed fun hrunning hpc => by
        have hserved := handshake_of_reachable ht
        have hlooping : t.looping = true := by simp [looping, hrunning, hpc]
        rw [Handshake, hlooping] at hserved
        exact hserved.hears (by simp [hstopper])
      have hcalls := (Own.step (Action.ofWorker_of_unaided ha) hstep).calls
      exact .cons ha hstep (.refl (.inr ⟨⟨ht.step hstep, hcalls ▸ hwait⟩, hlt⟩))

/-- The steps that call `c` may need to return. -/
def Action.tearing (c : Nat) : Action V → Bool
  | .call d => d = c
  | a => a.unaided

theorem Action.tearing_of_unaided (ha : a.unaided) : a.tearing c := by
  cases a <;> first | exact ha | cases ha

/-- Call `c` gets to its end by itself. -/
def Returns (c : Nat) : Session V → Prop :=
  Leads Session.step (fun a => a.tearing c) fun t => ∃ outcome, t.calls[c]? = some (.returned outcome)

namespace Returns

/-- The call takes a step to `new`. -/
theorem call {new : CallPc} (hs : (system V).Reachable s) (hc : s.calls[c]? = some pc)
    (h : s.callStep c pc = some s') (hcalls : s'.calls = s.calls.set c new)
    (h' : (system V).Reachable s' → s'.calls[c]? = some new → Returns c s') : Returns c s := by
  have hstep : s.step (.call c) = some s' := by rw [Session.step, hc, Option.bind_some, h]
  have hs' : (system V).Reachable s' := hs.step (a := .call c) hstep
  refine Leads.cons (a := .call c) (by simp [Action.tearing]) hstep (h' hs' ?_)
  rw [hcalls, getElem?_set_of_some hc, if_pos rfl]

theorem of_ret {outcome : Outcome} (hs : (system V).Reachable s)
    (hc : s.calls[c]? = some (.ret outcome)) : Returns c s :=
  call hs hc rfl rfl fun _ hreturned => .refl ⟨outcome, hreturned⟩

theorem of_wait (hs : (system V).Reachable s) (hc : s.calls[c]? = some .wait) : Returns c s := by
  apply Leads.trans ((leads_released hs hc).weaken fun _ => Action.tearing_of_unaided)
  rintro t ⟨ht, hwait, hcontext⟩
  have hreleased : t.task.released = true := by simp [TaskState.released, hcontext]
  exact call ht hwait (if_pos hreleased) rfl of_ret

theorem of_takeHold (hs : (system V).Reachable s) (hc : s.calls[c]? = some .takeHold) :
    Returns c s := by
  have htake : ∀ new, (if s.task.hold then .wait else .ret .tornDown) = new →
      s.callStep c .takeHold = some ({ s with task := s.task.takeHold }.setCall c new) := by
    rintro _ rfl
    rfl
  cases hhold : s.task.hold with
  | true => exact call hs hc (htake .wait (by simp [hhold])) rfl of_wait
  | false => exact call hs hc (htake (.ret .tornDown) (by simp [hhold])) rfl of_ret

theorem of_stop (hs : (system V).Reachable s) (hc : s.calls[c]? = some .stop) : Returns c s := by
  have hserved := handshake_of_reachable hs
  have hstopper : s.stopper = .away :=
    stopper_of_locked ((sound_of_reachable hs).mutex.holder hc rfl) hc
  rw [Handshake, hstopper] at hserved
  obtain ⟨task, htask⟩ := Option.isSome_iff_exists.mp hserved.sendStop_isSome
  exact call hs hc (by rw [callStep, htask, Option.map_some]) rfl of_takeHold

theorem of_lock (hs : (system V).Reachable s) (hc : s.calls[c]? = some (.lock .teardown))
    (hfree : s.mutex = none) : Returns c s :=
  call hs hc (if_pos hfree) rfl of_stop

end Returns

/-- A teardown returns if no other call is in progress. -/
theorem returns_of_tears (hs : (system V).Reachable s) (hc : s.calls[c]? = some pc)
    (htears : pc.tears) (halone : ∀ d q, s.calls[d]? = some q → q.active → d = c) :
    Returns c s := by
  cases pc with
  | lock request =>
      cases request with
      | play range => cases htears
      | teardown =>
          refine .of_lock hs hc ?_
          by_contra hmutex
          obtain ⟨d, hd⟩ := Option.ne_none_iff_exists'.mp hmutex
          obtain ⟨q, hq, hlocks⟩ := ((sound_of_reachable hs).mutex d).mp hd
          obtain rfl := halone d q hq (by cases q <;> first | rfl | cases hlocks)
          cases hc.symm.trans hq
          cases hlocks
  | stop => exact .of_stop hs hc
  | takeHold => exact .of_takeHold hs hc
  | wait => exact .of_wait hs hc
  | ret outcome => exact .of_ret hs hc
  | returned outcome => exact .refl ⟨outcome, hc⟩
  | subscribe | request | recv | sendPlay => cases htears

end Session

namespace SessionManager
variable {V : Video} {m m' : SessionManager V} {a : Action V} {id : SessionId} {i c : Nat}
  {pc : StopPc}

/-! ## The manager's own worker -/

def stopper (pc : Option StopPc) : Stopper :=
  match pc with
  | some .takeHold => .takeHold
  | some .wait => .wait
  | some .stop | some .drain | some (.teardown ..) | none => .away

def looping (m : SessionManager V) : Bool :=
  match m.workerPc with
  | .select | .remove .. => true
  | .left | .ended => false

structure Handshake (m : SessionManager V) : Prop where
  served : m.worker.Served (stopper m.stopPc) m.looping
  ended : m.workerPc = .ended → m.worker.context = false

namespace Handshake

theorem start (accepted : Bool) (stopAll : List Unit) :
    Handshake (SessionManager.start accepted stopAll : SessionManager V) := by
  cases accepted with
  | true => exact ⟨.new _ _, nofun⟩
  | false => exact ⟨.none, fun _ => rfl⟩

/-- The worker, and the place of `stop` as far as it concerns the worker, are as they were. -/
theorem frame (h : Handshake m) (hworker : m'.worker = m.worker)
    (hpc : m'.workerPc = m.workerPc) (hstopper : stopper m'.stopPc = stopper m.stopPc) :
    Handshake m' := by
  have hlooping : m'.looping = m.looping := by rw [looping, hpc, looping]
  refine ⟨?_, fun hended => ?_⟩
  · rw [hworker, hstopper, hlooping]
    exact h.served
  · rw [hworker]
    exact h.ended (hpc ▸ hended)

/-- The worker goes around in its loop. -/
theorem loop (h : Handshake m) (hlooping : m.looping = true) (hworker : m'.worker = m.worker)
    (hlooping' : m'.looping = true) (hstop : m'.stopPc = m.stopPc) : Handshake m' := by
  refine ⟨?_, fun hended => ?_⟩
  · rw [hworker, hstop, hlooping', ← hlooping]
    exact h.served
  · simp [looping, hended] at hlooping'

theorem onSession {b : Session.Action V} (h : Handshake m) (hs : m.onSession i b = some m') :
    Handshake m' := by
  obtain ⟨u, s, -, -, rfl⟩ := onSession_eq_some.mp hs
  exact h.frame rfl rfl rfl

theorem stopStep (h : Handshake m) (hpc : m.stopPc = some pc) (hs : m.stopStep pc = some m') :
    Handshake m' := by
  have hserved := h.served
  rw [hpc] at hserved
  cases pc with
  | stop =>
      obtain ⟨worker, hsend, rfl⟩ := Option.map_eq_some_iff.mp hs
      refine ⟨hserved.sendStop hsend, fun hended => ?_⟩
      exact (TaskState.sendStop_frame hsend).1.trans (h.ended hended)
  | takeHold =>
      cases hs
      refine ⟨?_, h.ended⟩
      have htake := hserved.takeHold
      cases hhold : m.worker.hold <;> simpa [hhold, stopper, looping] using htake
  | wait =>
      obtain ⟨hreleased, hs⟩ := Option.ite_none_right_eq_some.mp hs
      cases hs
      exact ⟨hserved.released hreleased, h.ended⟩
  | drain =>
      obtain ⟨-, hs⟩ := Option.ite_none_right_eq_some.mp hs
      cases hs
      exact h.frame rfl rfl (by rw [hpc]; rfl)
  | teardown i c =>
      simp only [SessionManager.stopStep] at hs
      split at hs
      · cases hs
        exact h.frame rfl rfl (by rw [hpc]; rfl)
      · cases hs

theorem step (h : Handshake m) (hs : m.step a = some m') : Handshake m' := by
  cases hmanages : a.manages with
  | false =>
      obtain ⟨hworker, hpc, hstop⟩ := frame_of_step hs hmanages
      exact h.frame hworker hpc (congrArg stopper hstop)
  | true =>
      cases a with
      | recv =>
          simp only [SessionManager.step, recv] at hs
          split at hs
          next hpc _ =>
            cases hs
            exact h.loop (by simp [looping, hpc]) rfl rfl rfl
          next => cases hs
      | remove =>
          simp only [SessionManager.step, remove] at hs
          split at hs
          next id i hpc =>
            have hback : ∀ m₁ : SessionManager V, m₁ = { m with
                workerPc := .select, sessions := m.sessions.erase id }.note (.removed id i) →
                Handshake m₁ := by
              rintro m₁ rfl
              exact h.loop (by simp [looping, hpc]) rfl rfl rfl
            split at hs
            · cases hs
              exact hback _ rfl
            · exact (hback _ rfl).onSession hs
          next => cases hs
      | waitForStop src =>
          obtain ⟨-, hs⟩ := Option.ite_none_right_eq_some.mp hs
          obtain ⟨worker, hwait, rfl⟩ := Option.map_eq_some_iff.mp hs
          exact ⟨h.served.waitForStop hwait, by simp⟩
      | exit =>
          obtain ⟨-, hs⟩ := Option.ite_none_right_eq_some.mp hs
          cases hs
          exact ⟨.dropContext _ _, fun _ => rfl⟩
      | beginStop =>
          obtain ⟨⟨hnone, -⟩, hs⟩ := Option.ite_none_right_eq_some.mp hs
          cases hs
          exact h.frame rfl rfl (by rw [hnone]; rfl)
      | stop =>
          obtain ⟨pc, hpc, hs⟩ := Option.bind_eq_some_iff.mp hs
          exact h.stopStep hpc hs
      | drain id =>
          obtain ⟨hdrain, hs⟩ := Option.ite_none_right_eq_some.mp hs
          obtain ⟨_, _, _, _, -, -, -, -, -, -, hstop, -, hworker, hpc⟩ := drain_eq hs
          exact h.frame hworker hpc (by rw [hstop, hdrain]; rfl)
      | _ => cases hmanages

end Handshake

theorem handshake_of_reachable (h : (system V).Reachable m) : Handshake m :=
  h.invariant (fun _ ⟨accepted, stopAll, hm⟩ => hm ▸ .start accepted stopAll)
    fun _ _ _ _ hi hs => hi.step hs

/-! ## The call -/

/-- The steps of `stop`, of the workers and of the teardowns: no request of a client, no
packet and no signal of the runtime is among them. -/
def Action.unaided : Action V → Bool
  | .session _ (.call _) => true
  | .session _ a => a.unaided
  | .remove | .waitForStop .stop | .exit | .stop | .drain _ => true
  | _ => false

theorem Action.unaided_of_tearing {a : Session.Action V} (ha : a.tearing c) :
    Action.unaided (.session i a) := by
  cases a <;> first | rfl | exact ha

/-- `stop` gets to its end by itself, and leaves nothing. -/
def Returns : SessionManager V → Prop :=
  Leads step (fun a => a.unaided) fun t => t.stopPc = none ∧ Emptied t

/-- The worker that `stop` waits for drops its context. -/
def Ends : SessionManager V → Prop :=
  Leads step (fun a => a.unaided) fun t =>
    (system V).Reachable t ∧ t.stopPc = some .wait ∧ t.workerPc = .ended

namespace Ends

theorem of_left (hm : (system V).Reachable m) (hstop : m.stopPc = some .wait)
    (hpc : m.workerPc = .left) : Ends m := by
  have hexit : m.step .exit = some { m with worker := m.worker.dropContext, workerPc := .ended } :=
    if_pos hpc
  exact .cons rfl hexit (.refl ⟨hm.step (a := .exit) hexit, hstop, rfl⟩)

/-- The worker has been asked to stop. -/
theorem of_select (hm : (system V).Reachable m) (hstop : m.stopPc = some .wait)
    (hpc : m.workerPc = .select) : Ends m := by
  have hserved := (handshake_of_reachable hm).served
  have hlooping : m.looping = true := by rw [looping, hpc]
  rw [hstop, hlooping] at hserved
  obtain ⟨worker, hworker⟩ := Option.isSome_iff_exists.mp (hserved.hears nofun)
  have hwait : m.step (.waitForStop .stop) = some { m with worker, workerPc := .left } := by
    rw [step, waitForStop, if_pos hpc, hworker, Option.map_some]
  have hm' : (system V).Reachable { m with worker, workerPc := .left } :=
    hm.step (a := .waitForStop .stop) hwait
  exact .cons rfl hwait (of_left hm' hstop rfl)

theorem of_remove (hm : (system V).Reachable m) (hstop : m.stopPc = some .wait)
    (hpc : m.workerPc = .remove id i) : Ends m := by
  obtain ⟨m', hremove, hpc', -⟩ := exists_remove hm hpc
  have hstop' : m'.stopPc = some .wait := (stopPc_of_step (a := .remove) hremove rfl).trans hstop
  have hm' : (system V).Reachable m' := hm.step (a := .remove) hremove
  exact Leads.cons (a := .remove) rfl hremove (of_select hm' hstop' hpc')

theorem of_wait (hm : (system V).Reachable m) (hstop : m.stopPc = some .wait) : Ends m := by
  cases hpc : m.workerPc with
  | ended => exact .refl ⟨hm, hstop, hpc⟩
  | left => exact of_left hm hstop hpc
  | select => exact of_select hm hstop hpc
  | remove id i => exact of_remove hm hstop hpc

end Ends

/-- The teardown of a round of the loop returns, and leaves the map alone. -/
theorem leads_drain (hm : (system V).Reachable m) (hpc : m.stopPc = some (.teardown i c)) :
    Leads step (fun a => a.unaided) (fun t => (system V).Reachable t ∧ t.stopPc = some .drain ∧
      t.sessions = m.sessions) m := by
  have hquiet := quiet_of_reachable hm hpc
  obtain ⟨u, q, hu, hq, htears⟩ := hquiet.tears i c rfl
  have halone : ∀ d p, u.session.calls[d]? = some p → p.active → d = c := by
    intro d p hd hactive
    cases hquiet.calls i u hu d p hd hactive
    rfl
  have hreturns := Session.returns_of_tears (session_of_reachable hm hu) hq htears halone
  let R (t : SessionManager V) (s : Session V) : Prop :=
    (system V).Reachable t ∧ t.stopPc = some (.teardown i c) ∧ t.sessions = m.sessions ∧
      ∃ w : SetupCall V, t.setups[i]? = some w ∧ w.session = s
  have hembed : ∀ t s b s', R t s → b.tearing c → s.step b = some s' →
      ∃ a t', Action.unaided a ∧ SessionManager.step t a = some t' ∧ R t' s' := by
    rintro t s b s' ⟨ht, hstop, hsessions, w, hw, rfl⟩ hb hs
    have hof : ofSession b = true := by cases b <;> first | rfl | cases hb
    have hstep : t.step (.session i b) = some (t.putSession i w s') := by
      rw [step, if_pos hof, onSession, hw, Option.bind_some, hs, Option.map_some]
    refine ⟨.session i b, t.putSession i w s', Action.unaided_of_tearing hb, hstep,
      ht.step (a := .session i b) hstep, hstop, hsessions, { w with session := s' }, ?_, rfl⟩
    rw [putSession_setups, getElem?_set_of_some hw, if_pos rfl]
  apply Leads.trans (Leads.embed hembed ⟨hm, hpc, rfl, u, hu, rfl⟩ hreturns)
  rintro t ⟨s, ⟨ht, hstop, hsessions, w, hw, rfl⟩, outcome, hreturned⟩
  have hstep : t.step .stop = some { t with stopPc := some .drain } := by
    simp [step, hstop, stopStep, hw, hreturned]
  exact .cons rfl hstep (.refl ⟨ht.step (a := .stop) hstep, rfl, hsessions⟩)

namespace Returns

/-- The loop takes the sessions out of the map, one by one. -/
theorem of_drain (hm : (system V).Reachable m) (hpc : m.stopPc = some .drain) : Returns m := by
  refine Leads.of_measure (Q := fun t => (system V).Reachable t ∧ t.stopPc = some .drain)
    (fun t => t.sessions.keys.length) ?_ ⟨hm, hpc⟩
  rintro t ⟨ht, hstop⟩
  cases hentries : t.sessions.entries with
  | nil =>
      have hstep : t.step .stop = some { t with stopPc := none } := by
        simp [step, hstop, stopStep, hentries]
      exact .cons rfl hstep (.refl (.inl ⟨rfl, emptied_of_stop ht hstop hstep⟩))
  | cons entry rest =>
      obtain ⟨id, i⟩ := entry
      have hlookup : t.sessions.lookup id = some i := by
        simp [AList.lookup, hentries]
      have hmem : id ∈ t.sessions.keys := by simp [AList.keys, hentries]
      obtain ⟨u, hu, -, -, howner⟩ := (registry_of_reachable ht).mapped id i hlookup
      have hdrain : (t.drain id).isSome := by
        simp [drain, hlookup, hu, onSession, putSession, Session.step, howner,
          getElem?_set_of_some hu]
      obtain ⟨t', hdrain⟩ := Option.isSome_iff_exists.mp hdrain
      have hstep : t.step (.drain id) = some t' := (if_pos hstop).trans hdrain
      have ht' : (system V).Reachable t' := ht.step (a := .drain id) hstep
      obtain ⟨j, w, -, -, -, -, -, -, -, hsessions, hstop', -⟩ := drain_eq hdrain
      refine .cons rfl hstep ((leads_drain ht' hstop').mono ?_)
      rintro t'' ⟨ht'', hdrained, hsame⟩
      refine .inr ⟨⟨ht'', hdrained⟩, ?_⟩
      rw [hsame, hsessions, AList.keys_erase, List.length_erase_of_mem hmem]
      exact Nat.sub_lt (List.length_pos_of_mem hmem) Nat.one_pos

theorem of_wait (hm : (system V).Reachable m) (hpc : m.stopPc = some .wait) : Returns m := by
  refine (Ends.of_wait hm hpc).trans fun t ⟨ht, hstop, hended⟩ => ?_
  have hcontext := (handshake_of_reachable ht).ended hended
  have hstep : t.step .stop = some { t with stopPc := some .drain } := by
    simp [step, hstop, stopStep, TaskState.released, hcontext]
  exact .cons rfl hstep (of_drain (ht.step (a := .stop) hstep) rfl)

theorem of_takeHold (hm : (system V).Reachable m) (hpc : m.stopPc = some .takeHold) :
    Returns m := by
  have hstep : ∀ next, (if m.worker.hold then StopPc.wait else .drain) = next →
      m.step .stop = some { m with worker := m.worker.takeHold, stopPc := some next } := by
    rintro _ rfl
    rw [step, hpc]
    rfl
  cases hhold : m.worker.hold with
  | true =>
      have hwait := hstep .wait (by simp [hhold])
      exact .cons rfl hwait (of_wait (hm.step (a := .stop) hwait) rfl)
  | false =>
      -- An earlier `stop` has waited for the worker.
      have hdrain := hstep .drain (by simp [hhold])
      exact .cons rfl hdrain (of_drain (hm.step (a := .stop) hdrain) rfl)

theorem of_stop (hm : (system V).Reachable m) (hpc : m.stopPc = some .stop) : Returns m := by
  have hserved := (handshake_of_reachable hm).served
  rw [hpc] at hserved
  obtain ⟨worker, hworker⟩ := Option.isSome_iff_exists.mp hserved.sendStop_isSome
  have hstep : m.step .stop = some { m with worker, stopPc := some .takeHold } := by
    simp [step, hpc, stopStep, hworker]
  exact .cons rfl hstep (of_takeHold (hm.step (a := .stop) hstep) rfl)

theorem of_pc (hm : (system V).Reachable m) (hpc : m.stopPc = some pc) : Returns m := by
  cases pc with
  | stop => exact of_stop hm hpc
  | takeHold => exact of_takeHold hm hpc
  | wait => exact of_wait hm hpc
  | drain => exact of_drain hm hpc
  | teardown i c =>
      exact (leads_drain hm hpc).trans fun t ⟨ht, hstop, _⟩ => of_drain ht hstop

end Returns

/-- However far `stop` has got, and whatever the workers and the clients were doing, it can
return without any help, and then there is nothing left. -/
theorem stop_returns (hm : (system V).Reachable m) (hpc : m.stopPc = some pc) : Returns m :=
  .of_pc hm hpc

/-- `stop` begins with one session in its loop, and with one in its loop that was refused. -/
theorem stop_returns_closingRun :
    ∃ m, Transition.run step (start (V := .counting) true []) (closingRun.take 7) = some m ∧
      m.setups.length = 2 ∧ Returns m := by
  obtain ⟨m, hm, hpc, hlength⟩ :
      ∃ m, Transition.run step (start (V := .counting) true []) (closingRun.take 7) = some m ∧
        m.stopPc = some .stop ∧ m.setups.length = 2 := ⟨_, rfl, rfl, rfl⟩
  exact ⟨m, hm, hlength, stop_returns ⟨_, closingRun.take 7, ⟨_, _, rfl⟩, hm⟩ hpc⟩

end SessionManager
