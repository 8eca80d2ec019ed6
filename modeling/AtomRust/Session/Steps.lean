-- SUMMARY: What each step of a session does, said once, and what it leaves alone.
import AtomRust.Base.Slots
import AtomRust.Session.Session

/-!
# Steps of a session

`Effect` lists the ways in which a step can go, with what the step found and the
state that it leads to, and `Called` does so for the steps of one call. What is
proved about sessions is proved by cases on them. `Loop`, `Caller`, `Own` and
`Foreign` say what a step does not touch, by who takes it.
-/

open Media (RtpBuf StreamState Video)
open Runtime (StopSource TaskState)

namespace Session
variable {V : Video} {s s' : Session V} {c : Nat} {pc : CallPc} {a : Action V}

/-! ## Calls -/

/-- The ways in which call `c`, which stands at a statement, takes its next
step. -/
inductive Called (s s' : Session V) (c : Nat) : CallPc → Prop where
  | lock {request : Request} (free : s.mutex = none)
      (h : s' = { s with mutex := some c }.setCall c (enter request)) : Called s s' c (.lock request)
  | subscribe (h : s' = s.setCall c (.request (Broadcast.subscribe s.streamStates))) :
      Called s s' c .subscribe
  | request {rx : Nat} (receiver : s.controlRx = true)
      (h : s' = ((s.send c .streamState).note (.requested c)).setCall c (.recv rx)) :
      Called s s' c (.request rx)
  | received {rx rx' : Nat} {st : StreamState}
      (hr : Broadcast.recv maxQueuedInfo s.streamStates rx = some (.value st, rx'))
      (h : s' = (s.note (.received c st)).setCall c (.sendPlay st)) : Called s s' c (.recv rx)
  | lagged {rx rx' skipped : Nat}
      (hr : Broadcast.recv maxQueuedInfo s.streamStates rx = some (.lagged skipped, rx'))
      (h : s' = s.setCall c (.ret (.failed .controlBroken))) : Called s s' c (.recv rx)
  | closed {rx : Nat} (hr : Broadcast.recv maxQueuedInfo s.streamStates rx = none)
      (gone : s.handle = false) (h : s' = s.setCall c (.ret (.failed .controlBroken))) :
      Called s s' c (.recv rx)
  | sendPlay {st : StreamState} (receiver : s.controlRx = true)
      (h : s' = ((s.send c .play).note (.sentPlay c)).setCall c (.ret (.played st))) :
      Called s s' c (.sendPlay st)
  /-- The receiver of the control channel is gone. -/
  | broken {pc : CallPc} (hpc : (∃ rx, pc = .request rx) ∨ ∃ st, pc = .sendPlay st)
      (gone : s.controlRx = false) (h : s' = s.setCall c (.ret (.failed .controlBroken))) :
      Called s s' c pc
  | stop {task : TaskState} (sent : s.task.sendStop = some task)
      (h : s' = { s with task }.setCall c .takeHold) : Called s s' c .stop
  | takeHold (h : s' = { s with task := s.task.takeHold }.setCall c
      (if s.task.hold then .wait else .ret .tornDown)) : Called s s' c .takeHold
  | wait (released : s.task.released) (h : s' = s.setCall c (.ret .tornDown)) :
      Called s s' c .wait
  | ret {outcome : Outcome}
      (h : s' = ({ s with mutex := none }.note (.returned c outcome)).setCall c (.returned outcome)) :
      Called s s' c (.ret outcome)

theorem called_of_callStep (h : s.callStep c pc = some s') : Called s s' c pc := by
  cases pc with
  | lock request =>
      simp only [callStep, Option.ite_none_right_eq_some, Option.some.injEq] at h
      exact .lock h.1 h.2.symm
  | subscribe => exact .subscribe (Option.some.inj h).symm
  | request rx =>
      simp only [callStep] at h
      split at h
      next hrx => exact .request hrx (Option.some.inj h).symm
      next hrx => exact .broken (.inl ⟨rx, rfl⟩) (by simpa using hrx) (Option.some.inj h).symm
  | recv rx =>
      simp only [callStep, recv] at h
      split at h
      next hr => exact .received hr (Option.some.inj h).symm
      next hr => exact .lagged hr (Option.some.inj h).symm
      next hr =>
        split at h
        · cases h
        next hgone => exact .closed hr (by simp_all) (Option.some.inj h).symm
  | sendPlay st =>
      simp only [callStep] at h
      split at h
      next hrx => exact .sendPlay hrx (Option.some.inj h).symm
      next hrx => exact .broken (.inr ⟨st, rfl⟩) (by simpa using hrx) (Option.some.inj h).symm
  | stop =>
      obtain ⟨task, htask, h⟩ := Option.map_eq_some_iff.mp h
      exact .stop htask h.symm
  | takeHold => exact .takeHold (Option.some.inj h).symm
  | wait =>
      simp only [callStep, Option.ite_none_right_eq_some, Option.some.injEq] at h
      exact .wait h.1 h.2.symm
  | ret outcome => exact .ret (Option.some.inj h).symm
  | returned outcome => cases h

/-! ## The worker -/

/-- The worker takes an event only while it runs. -/
theorem event_eq_some {e : Event V} :
    s.event e = some s' ↔
      s.life = .running ∧ ∃ w, s.worker.step e = some w ∧ s' = { s with worker := w } := by
  unfold event
  split
  next h =>
    rw [Option.map_eq_some_iff]
    simp [h, eq_comm]
  next h => simp [h]

theorem poll_eq_some :
    s.poll = some s' ↔ s.life = .spawned ∧
      (s.target = .rtpTcp ∧ s' = { s with life := .running } ∨
        s.target = .rtpUdp ∧ s' = { s with life := .exiting udpExit }) := by
  unfold poll
  cases s.target <;> by_cases h : s.life = .spawned <;> simp [h, eq_comm]

theorem exit_eq_some :
    s.exit = some s' ↔
      ∃ e todo, s.todo = e :: todo ∧ s' = { s.exitStep e with life := .exiting todo } := by
  unfold exit
  split
  next h => simp [h]
  next e todo h => simp [h, eq_comm]

/-- What a reset adds to the log. -/
def resetLog : Except RecvError (Option V.RtpMuxer) → List Occurrence
  | .ok (some _) => [.reset]
  | .ok none | .error _ => []

/-- What the receipt of a packet adds to the log. -/
def packetLog (s : Session V) : Except RecvError V.Packet → List Occurrence
  | .ok packet => s.muxLog packet
  | .error _ => []

/-- What an attempt to send adds to the log. -/
def trySendLog (message : RtpBuf) : TrySendResult → List Occurrence
  | .ok => [.enqueued message]
  | .full | .closed => []

/-- The ways in which a step leads from `s` to `s'`. -/
inductive Effect (s s' : Session V) : Action V → Prop where
  | find {request : Request} (owner : s.owner = true)
      (h : s' = { s with calls := s.calls ++ [.lock request] }) : Effect s s' (.find request)
  | disown (owner : s.owner = true) (h : s' = { s with owner := false }) : Effect s s' .disown
  | call {c : Nat} {pc : CallPc} (hc : s.calls[c]? = some pc) (h : Called s s' c pc) :
      Effect s s' (.call c)
  | poll {life : Life} (spawned : s.life = .spawned)
      (hlife : s.target = .rtpTcp ∧ life = .running ∨ s.target = .rtpUdp ∧ life = .exiting udpExit)
      (h : s' = { s with life }) : Effect s s' .poll
  | reset {r : Except RecvError (Option V.RtpMuxer)} (running : s.life = .running)
      (hpc : s.worker.pc = .select)
      (h : s' = { s with worker := s.worker.onReset r, log := resetLog r ++ s.log }) :
      Effect s s' (.reset r)
  | packet {r : Except RecvError V.Packet} (running : s.life = .running)
      (hpc : s.worker.pc = .select)
      (h : s' = { s with worker := s.worker.onPacket r, log := s.packetLog r ++ s.log }) :
      Effect s s' (.packet r)
  | took {c : Nat} {control : List (Nat × SessionControlMessage)} (running : s.life = .running)
      (hpc : s.worker.pc = .select) (hcontrol : s.control = (c, .streamState) :: control)
      (h : s' = { s with
        worker := s.worker.onControl (some .streamState), control,
        askers := s.askers ++ [c], log := .took c :: s.log }) : Effect s s' .takeControl
  | tookPlay {c : Nat} {control : List (Nat × SessionControlMessage)} (running : s.life = .running)
      (hpc : s.worker.pc = .select) (hcontrol : s.control = (c, .play) :: control)
      (h : s' = { s with
        worker := s.worker.onControl (some .play), control, log := .tookPlay c :: s.log }) :
      Effect s s' .takeControl
  /-- The control channel is empty, and nobody can send on it any more. -/
  | deserted (running : s.life = .running) (hpc : s.worker.pc = .select) (gone : s.handle = false)
      (h : s' = { s with worker := s.worker.leave }) : Effect s s' .takeControl
  | waitForStop {src : StopSource} {task : TaskState} (running : s.life = .running)
      (hpc : s.worker.pc = .select)
      (hstop : s.task.waitForStop s.handle s.stopAll src = some task)
      (h : s' = { s with worker := s.worker.leave, task }) : Effect s s' (.waitForStop src)
  | reply {st : StreamState} {packet : Option (List RtpBuf)} (running : s.life = .running)
      (hpc : s.worker.pc = .reply st packet)
      (h : s' = { s with
        worker := { s.worker with needStreamState := false }.afterMux packet,
        streamStates := s.streamStates ++ [st], askers := [],
        log := .replied s.askers st :: s.log }) :
      Effect s s' .reply
  | trySend {r : TrySendResult} {message : RtpBuf} {rest : List RtpBuf}
      (running : s.life = .running) (hpc : s.worker.pc = .send message rest)
      (receiver : r = .closed ↔ s.mediaRx = false)
      (h : s' = { s with
        worker := s.worker.onTrySend rest r, log := trySendLog message r ++ s.log }) :
      Effect s s' (.trySend r)
  | exit {e : ExitStep} {todo : List ExitStep} (htodo : s.todo = e :: todo)
      (h : s' = { s.exitStep e with life := .exiting todo }) : Effect s s' .exit
  | stopAll (h : s' = { s with stopAll := s.stopAll ++ [()] }) : Effect s s' .stopAll
  | closeMedia (receiver : s.mediaRx = true) (h : s' = { s with mediaRx := false }) :
      Effect s s' .closeMedia

theorem effect_of_step (h : s.step a = some s') : Effect s s' a := by
  cases a with
  | find request =>
      simp only [step, Option.ite_none_right_eq_some, Option.some.injEq] at h
      exact .find h.1 h.2.symm
  | disown =>
      simp only [step, Option.ite_none_right_eq_some, Option.some.injEq] at h
      exact .disown h.1 h.2.symm
  | call c =>
      obtain ⟨pc, hc, h⟩ := Option.bind_eq_some_iff.mp h
      exact .call hc (called_of_callStep h)
  | poll =>
      obtain ⟨hspawned, ⟨htarget, h⟩ | ⟨htarget, h⟩⟩ := poll_eq_some.mp h
      · exact .poll hspawned (.inl ⟨htarget, rfl⟩) h
      · exact .poll hspawned (.inr ⟨htarget, rfl⟩) h
  | reset r =>
      obtain ⟨t, ht, rfl⟩ := Option.map_eq_some_iff.mp h
      obtain ⟨hrun, w, hw, rfl⟩ := event_eq_some.mp ht
      obtain ⟨hpc, rfl⟩ := Worker.step_reset.mp hw
      match r with
      | .ok (some _) | .ok none | .error _ => exact .reset hrun hpc rfl
  | packet r =>
      obtain ⟨t, ht, rfl⟩ := Option.map_eq_some_iff.mp h
      obtain ⟨hrun, w, hw, rfl⟩ := event_eq_some.mp ht
      obtain ⟨hpc, rfl⟩ := Worker.step_packet.mp hw
      match r with
      | .ok _ | .error _ => exact .packet hrun hpc rfl
  | takeControl =>
      simp only [step, takeControl] at h
      split at h
      next hcontrol =>
        obtain ⟨t, ht, rfl⟩ := Option.map_eq_some_iff.mp h
        obtain ⟨hrun, w, hw, rfl⟩ := event_eq_some.mp ht
        obtain ⟨hpc, rfl⟩ := Worker.step_control.mp hw
        exact .took hrun hpc hcontrol rfl
      next hcontrol =>
        obtain ⟨t, ht, rfl⟩ := Option.map_eq_some_iff.mp h
        obtain ⟨hrun, w, hw, rfl⟩ := event_eq_some.mp ht
        obtain ⟨hpc, rfl⟩ := Worker.step_control.mp hw
        exact .tookPlay hrun hpc hcontrol rfl
      next =>
        split at h
        · cases h
        next hgone =>
          obtain ⟨hrun, w, hw, rfl⟩ := event_eq_some.mp h
          obtain ⟨hpc, rfl⟩ := Worker.step_control.mp hw
          exact .deserted hrun hpc (by simpa using hgone) rfl
  | waitForStop src =>
      obtain ⟨task, htask, h⟩ := Option.bind_eq_some_iff.mp h
      obtain ⟨t, ht, rfl⟩ := Option.map_eq_some_iff.mp h
      obtain ⟨hrun, w, hw, rfl⟩ := event_eq_some.mp ht
      obtain ⟨hpc, rfl⟩ := Worker.step_stop.mp hw
      exact .waitForStop hrun hpc htask rfl
  | reply =>
      simp only [step, reply] at h
      split at h
      next st packet hpc =>
        obtain ⟨t, ht, rfl⟩ := Option.map_eq_some_iff.mp h
        obtain ⟨hrun, w, hw, rfl⟩ := event_eq_some.mp ht
        obtain ⟨st', packet', hpc', rfl⟩ := Worker.step_reply.mp hw
        obtain ⟨rfl, rfl⟩ : st = st' ∧ packet = packet' := by simpa [hpc] using hpc'
        exact .reply hrun hpc rfl
      next => cases h
  | trySend r =>
      simp only [step, trySend] at h
      split at h
      · cases h
      next hrx =>
        split at h
        next message rest hpc =>
          obtain ⟨t, ht, rfl⟩ := Option.map_eq_some_iff.mp h
          obtain ⟨hrun, w, hw, rfl⟩ := event_eq_some.mp ht
          obtain ⟨message', rest', hpc', rfl⟩ := Worker.step_trySend.mp hw
          obtain ⟨rfl, rfl⟩ : message = message' ∧ rest = rest' := by simpa [hpc] using hpc'
          have hclosed : r = .closed ↔ s.mediaRx = false := by
            cases hm : s.mediaRx <;> simpa [hm] using hrx
          cases r <;> exact .trySend hrun hpc hclosed rfl
        next => cases h
  | exit =>
      obtain ⟨e, todo, htodo, h⟩ := exit_eq_some.mp h
      exact .exit htodo h
  | stopAll => exact .stopAll (Option.some.inj h).symm
  | closeMedia =>
      simp only [step, Option.ite_none_right_eq_some, Option.some.injEq] at h
      exact .closeMedia h.1 h.2.symm

/-! ## What a step leaves alone -/

/-- The steps of the worker. -/
def Action.ofWorker : Action V → Bool
  | .poll | .reset _ | .packet _ | .takeControl | .waitForStop _ | .reply | .trySend _
  | .exit => true
  | .find _ | .disown | .call _ | .stopAll | .closeMedia => false

/-- Those that it takes in its loop. -/
def Action.looped : Action V → Bool
  | .reset _ | .packet _ | .takeControl | .waitForStop _ | .reply | .trySend _ => true
  | .poll | .exit | .find _ | .disown | .call _ | .stopAll | .closeMedia => false

/-- Only the worker makes these entries. -/
def Occurrence.ofWorker : Occurrence → Bool
  | .took _ | .muxed _ | .read .. | .replied .. | .tookPlay _ | .reset | .enqueued _ => true
  | .requested _ | .received .. | .sentPlay _ | .returned .. => false

/-- What a step of the loop leaves alone. -/
structure Loop (s s' : Session V) : Prop where
  running : s.life = .running
  life : s'.life = s.life
  target : s'.target = s.target
  owner : s'.owner = s.owner
  mutex : s'.mutex = s.mutex
  calls : s'.calls = s.calls
  context : s'.task.context = s.task.context
  hold : s'.task.hold = s.task.hold
  controlRx : s'.controlRx = s.controlRx
  streamStateTx : s'.streamStateTx = s.streamStateTx
  mediaRx : s'.mediaRx = s.mediaRx
  stopped : s'.stopped = s.stopped

theorem Loop.step (ha : a.looped) (h : s.step a = some s') : Loop s s' := by
  cases effect_of_step h with
  | reset running _ heq | packet running _ heq | took running _ _ heq | tookPlay running _ _ heq
  | deserted running _ _ heq | reply running _ heq | trySend running _ _ heq =>
      subst heq
      constructor <;> first | exact running | rfl
  | waitForStop running _ hstop heq =>
      subst heq
      obtain ⟨hcontext, hhold, -⟩ := TaskState.waitForStop_frame hstop
      constructor <;> first | exact running | exact hcontext | exact hhold | rfl
  | _ => cases ha

/-- What a step of call `c` leaves alone. -/
structure Caller (s s' : Session V) (c : Nat) : Prop where
  life : s'.life = s.life
  target : s'.target = s.target
  owner : s'.owner = s.owner
  worker : s'.worker = s.worker
  context : s'.task.context = s.task.context
  mediaRx : s'.mediaRx = s.mediaRx
  stopped : s'.stopped = s.stopped
  calls : ∃ next, s'.calls = s.calls.set c next
  log : ∃ new, s'.log = new ++ s.log ∧ ∀ o ∈ new, o.ofWorker = false

theorem Called.caller (h : Called s s' c pc) : Caller s s' c := by
  cases h with
  | lock _ h | subscribe h | lagged _ h | closed _ _ h | broken _ _ h | takeHold h | wait _ h =>
      subst h
      exact ⟨rfl, rfl, rfl, rfl, rfl, rfl, rfl, ⟨_, rfl⟩, [], rfl, nofun⟩
  | request _ h | received _ h | sendPlay _ h | ret h =>
      subst h
      exact ⟨rfl, rfl, rfl, rfl, rfl, rfl, rfl, ⟨_, rfl⟩, [_], rfl, by simp [Occurrence.ofWorker]⟩
  | stop sent h =>
      subst h
      have hcontext := (TaskState.sendStop_frame sent).1
      exact ⟨rfl, rfl, rfl, rfl, hcontext, rfl, rfl, ⟨_, rfl⟩, [], rfl, nofun⟩

/-- A step of the worker takes nothing from anyone else. -/
structure Own (s s' : Session V) : Prop where
  owner : s'.owner = s.owner
  calls : s'.calls = s.calls
  mediaRx : s'.mediaRx = s.mediaRx
  stopped : s.stopped = true → s'.stopped = true
  log : ∃ new, s'.log = new ++ s.log ∧ ∀ o ∈ new, o.ofWorker

theorem ofWorker_of_packetLog {r : Except RecvError V.Packet} :
    ∀ o ∈ s.packetLog r, o.ofWorker := by
  intro o ho
  match r with
  | .error _ => cases ho
  | .ok packet =>
      simp only [packetLog, muxLog] at ho
      split at ho
      · cases ho
      · rcases List.mem_append.mp ho with ho | ho
        · split at ho
          · obtain rfl := List.mem_singleton.mp ho
            rfl
          · cases ho
        · obtain ⟨bufs, -, rfl⟩ := by simpa using ho
          rfl

theorem Own.step (ha : a.ofWorker) (h : s.step a = some s') : Own s s' := by
  cases effect_of_step h with
  | poll _ _ heq | deserted _ _ _ heq | waitForStop _ _ _ heq =>
      subst heq
      exact ⟨rfl, rfl, rfl, id, [], rfl, nofun⟩
  | took _ _ _ heq | tookPlay _ _ _ heq | reply _ _ heq =>
      subst heq
      exact ⟨rfl, rfl, rfl, id, [_], rfl, by simp [Occurrence.ofWorker]⟩
  | @reset r _ _ heq =>
      subst heq
      refine ⟨rfl, rfl, rfl, id, resetLog r, rfl, ?_⟩
      match r with
      | .ok (some _) => simp [resetLog, Occurrence.ofWorker]
      | .ok none | .error _ => simp [resetLog]
  | packet _ _ heq =>
      subst heq
      exact ⟨rfl, rfl, rfl, id, _, rfl, ofWorker_of_packetLog⟩
  | @trySend r message _ _ _ _ heq =>
      subst heq
      refine ⟨rfl, rfl, rfl, id, trySendLog message r, rfl, ?_⟩
      cases r <;> simp [trySendLog, Occurrence.ofWorker]
  | @exit e _ _ heq =>
      subst heq
      cases e with
      | sendStopped => exact ⟨rfl, rfl, rfl, fun _ => rfl, [], rfl, nofun⟩
      | dropContext | dropStreamStateTx | dropControlRx => exact ⟨rfl, rfl, rfl, id, [], rfl, nofun⟩
  | _ => cases ha

/-- What a step of anyone but the worker leaves alone. -/
structure Foreign (s s' : Session V) : Prop where
  life : s'.life = s.life
  worker : s'.worker = s.worker
  stopped : s'.stopped = s.stopped
  mediaRx : s.mediaRx = false → s'.mediaRx = false

theorem Foreign.step (ha : a.ofWorker = false) (h : s.step a = some s') : Foreign s s' := by
  cases effect_of_step h with
  | find _ heq | disown _ heq | stopAll heq =>
      subst heq
      exact ⟨rfl, rfl, rfl, id⟩
  | closeMedia _ heq =>
      subst heq
      exact ⟨rfl, rfl, rfl, fun _ => rfl⟩
  | call _ hcalled =>
      have hcaller := hcalled.caller
      exact ⟨hcaller.life, hcaller.worker, hcaller.stopped, fun hrx => hcaller.mediaRx.trans hrx⟩
  | _ => cases ha

end Session
