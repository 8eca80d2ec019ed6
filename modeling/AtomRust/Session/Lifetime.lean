-- SUMMARY: Who holds what in a session: the mutex, the worker's context, the ends of the channels; and what a torn-down session can still do.
import AtomRust.Session.Steps

/-!
# Lifetimes

The worker owns a context, two channel ends and the duty to report `Stopped`,
and gives them up one by one on its way out. `owed` is what is left of that
way; `Sound` says that what exists is exactly what is still owed, that the
mutex has one holder, and that a `Task` whose hold was taken has a caller
waiting for it under the mutex as long as the context lives.

From this follows what a teardown is worth: once it has returned, the loop is
behind the worker.
-/

open List (getElem?_set_of_some)
open Media (RtpBuf StreamState Video)
open Runtime (StopSource TaskState)

namespace Session
variable {V : Video} {s s' : Session V} {c : Nat} {pc : CallPc}

def SessionSetupTarget.exit : SessionSetupTarget → List ExitStep
  | .rtpTcp => tcpExit
  | .rtpUdp => udpExit

/-- The steps that the worker will still take on its way out. -/
def owed (s : Session V) : List ExitStep :=
  match s.life with
  | .refused => []
  | .spawned | .running => s.target.exit
  | .exiting todo => todo

/-- The worker is in its loop or will enter it. -/
def looping (s : Session V) : Bool :=
  s.worker.pc ≠ .left &&
    match s.life with
    | .spawned => s.target = .rtpTcp
    | .running => true
    | .refused | .exiting _ => false

/-- The loop is behind the worker, or there never was one. -/
def Ended (s : Session V) : Prop := s.life = .refused ∨ ∃ todo, s.life = .exiting todo

namespace CallPc

/-- The call is a teardown that has seen the token dropped. -/
def tornDown : CallPc → Bool
  | .ret .tornDown | .returned .tornDown => true
  | _ => false

end CallPc

theorem owed_congr (hlife : s'.life = s.life) (htarget : s'.target = s.target) :
    s'.owed = s.owed := by
  unfold Session.owed
  rw [hlife, htarget]

/-! ## The invariant -/

/-- The holder of the mutex is the one call that stands at a statement under the
guard. -/
def Exclusive (calls : List CallPc) (mutex : Option Nat) : Prop :=
  ∀ c, mutex = some c ↔ ∃ pc, calls[c]? = some pc ∧ pc.locks

namespace Exclusive
variable {calls : List CallPc} {mutex : Option Nat} {old new : CallPc}

theorem holder (h : Exclusive calls mutex) (hc : calls[c]? = some pc) (hpc : pc.locks) :
    mutex = some c := (h c).mpr ⟨pc, hc, hpc⟩

/-- Two calls under the guard are one. -/
theorem unique (h : Exclusive calls mutex) {d : Nat} {pc' : CallPc} (hc : calls[c]? = some pc)
    (hpc : pc.locks) (hd : calls[d]? = some pc') (hpc' : pc'.locks) : c = d :=
  Option.some.inj ((h.holder hc hpc).symm.trans (h.holder hd hpc'))

theorem set (h : Exclusive calls mutex) (hc : calls[c]? = some old)
    (hlocks : old.locks = new.locks) : Exclusive (calls.set c new) mutex := by
  intro d
  rw [getElem?_set_of_some hc]
  by_cases hd : d = c
  · subst hd
    simpa [hc, hlocks] using h d
  · simpa [hd] using h d

theorem lock (h : Exclusive calls none) (hc : calls[c]? = some old) (hlocks : new.locks) :
    Exclusive (calls.set c new) (some c) := by
  intro d
  rw [getElem?_set_of_some hc]
  by_cases hd : d = c
  · simp [hd, hlocks]
  · simpa [hd, Ne.symm hd] using h d

theorem unlock (h : Exclusive calls mutex) (hc : calls[c]? = some old) (hold : old.locks)
    (hnew : new.locks = false) : Exclusive (calls.set c new) none := by
  intro d
  rw [getElem?_set_of_some hc]
  by_cases hd : d = c
  · simp [hd, hnew]
  · have := h d
    simp only [h.holder hc hold, Option.some.injEq, Ne.symm hd, false_iff] at this
    simpa [hd] using this

theorem append (h : Exclusive calls mutex) (hpc : pc.locks = false) :
    Exclusive (calls ++ [pc]) mutex := by
  intro d
  rw [h d]
  constructor
  · rintro ⟨pc', hd, hpc'⟩
    exact ⟨pc', List.getElem?_append_of_some hd _, hpc'⟩
  · rintro ⟨pc', hd, hpc'⟩
    rcases List.getElem?_concat_eq_some hd with ⟨hd, -⟩ | ⟨-, rfl⟩
    · exact ⟨pc', hd, hpc'⟩
    · simp [hpc] at hpc'

end Exclusive

structure Sound (s : Session V) : Prop where
  mutex : Exclusive s.calls s.mutex
  owed : s.owed <:+ s.target.exit
  context : s.task.context = true ↔ .dropContext ∈ s.owed
  streamStateTx : s.streamStateTx = true ↔ .dropStreamStateTx ∈ s.owed
  controlRx : s.controlRx = true ↔ .dropControlRx ∈ s.owed
  stopped : s.life ≠ .refused → (s.stopped = true ↔ .sendStopped ∉ s.owed)
  refused : s.life = .refused → s.stopped = false
  tcp : s.life = .running → s.target = .rtpTcp
  hold : s.task.context = true → s.task.hold = false → CallPc.wait ∈ s.calls
  tornDown : s.task.context = true → ∀ pc ∈ s.calls, pc.tornDown = false

theorem sound_setupAndStart (target : SessionSetupTarget) (muxer : V.RtpMuxer) (accepted : Bool)
    (stopAll : List Unit) : Sound (setupAndStart target muxer accepted stopAll) := by
  cases accepted <;> cases target <;> constructor <;>
    simp [setupAndStart, Session.owed, SessionSetupTarget.exit, tcpExit, udpExit, TaskState.new,
      TaskState.none, Exclusive]

namespace Sound

/-- What is owed is owed once. -/
theorem nodup (hi : Sound s) : s.owed.Nodup :=
  hi.owed.sublist.nodup (by cases s.target <;> decide)

/-- Steps that leave the life of the worker and what it owns alone. -/
theorem frame (hi : Sound s) (hlife : s'.life = s.life) (htarget : s'.target = s.target)
    (hcontext : s'.task.context = s.task.context) (htx : s'.streamStateTx = s.streamStateTx)
    (hrx : s'.controlRx = s.controlRx) (hstopped : s'.stopped = s.stopped)
    (mutex : Exclusive s'.calls s'.mutex)
    (hold : s.task.context = true → s'.task.hold = false → CallPc.wait ∈ s'.calls)
    (tornDown : s.task.context = true → ∀ pc ∈ s'.calls, pc.tornDown = false) : Sound s' := by
  have howed := owed_congr hlife htarget
  refine ⟨mutex, ?_, ?_, ?_, ?_, ?_, ?_, ?_, hcontext ▸ hold, hcontext ▸ tornDown⟩
  · simpa only [howed, htarget] using hi.owed
  · simpa only [howed, hcontext] using hi.context
  · simpa only [howed, htx] using hi.streamStateTx
  · simpa only [howed, hrx] using hi.controlRx
  · simpa only [howed, hlife, hstopped] using hi.stopped
  · simpa only [hlife, hstopped] using hi.refused
  · simpa only [hlife, htarget] using hi.tcp

theorem loop (hi : Sound s) (h : Loop s s') : Sound s' :=
  hi.frame h.life h.target h.context h.streamStateTx h.controlRx h.stopped
    (by simpa only [h.mutex, h.calls] using hi.mutex)
    (by simpa only [h.hold, h.calls] using hi.hold)
    (by simpa only [h.calls] using hi.tornDown)

/-- A call that moves on from `old` to `new` and is not the one that waits for
the token. -/
theorem waiting_of_set {calls : List CallPc} {old new : CallPc} (h : CallPc.wait ∈ calls)
    (hc : calls[c]? = some old) (hold : old ≠ .wait) : CallPc.wait ∈ calls.set c new := by
  obtain ⟨d, hd⟩ := List.mem_iff_getElem?.mp h
  refine List.mem_iff_getElem?.mpr ⟨d, ?_⟩
  rw [getElem?_set_of_some hc, if_neg ?_, hd]
  rintro rfl
  exact hold (Option.some.inj (hc.symm.trans hd))

/-- A step of call `c` from `old` to `new` that keeps the mutex. -/
theorem advance {old new : CallPc} (hi : Sound s) (hc : s.calls[c]? = some old)
    (hlife : s'.life = s.life) (htarget : s'.target = s.target)
    (hcontext : s'.task.context = s.task.context) (hhold : s'.task.hold = s.task.hold)
    (htx : s'.streamStateTx = s.streamStateTx) (hrx : s'.controlRx = s.controlRx)
    (hstopped : s'.stopped = s.stopped) (hmutex : s'.mutex = s.mutex)
    (hcalls : s'.calls = s.calls.set c new) (hlocks : old.locks = new.locks)
    (hgone : old = .wait ∨ new.tornDown → s.task.context = false) : Sound s' := by
  refine hi.frame hlife htarget hcontext htx hrx hstopped ?_ (fun hctx h => ?_)
    fun hctx pc hpc => ?_
  · rw [hmutex, hcalls]
    exact hi.mutex.set hc hlocks
  · rw [hcalls]
    refine waiting_of_set (hi.hold hctx (hhold ▸ h)) hc fun heq => ?_
    exact absurd hctx (by simp [hgone (.inl heq)])
  · rw [hcalls] at hpc
    rcases List.mem_or_eq_of_mem_set hpc with hpc | rfl
    · exact hi.tornDown hctx pc hpc
    · by_contra h
      exact absurd hctx (by simp [hgone (.inr (by simpa using h))])

theorem enter_locks (request : Request) : (enter request).locks = true := by
  match request with
  | .play none | .teardown => rfl
  | .play (some range) => simp only [enter]; split <;> rfl

theorem enter_tornDown (request : Request) : (enter request).tornDown = false := by
  match request with
  | .play none | .teardown => rfl
  | .play (some range) => simp only [enter]; split <;> rfl

/-- Call `c` gets the mutex. -/
theorem lock (hi : Sound s) {request : Request} (hc : s.calls[c]? = some (.lock request))
    (hfree : s.mutex = none) : Sound ({ s with mutex := some c }.setCall c (enter request)) := by
  have hmutex : Exclusive s.calls none := hfree ▸ hi.mutex
  refine hi.frame rfl rfl rfl rfl rfl rfl (hmutex.lock hc (enter_locks request)) ?_ ?_
  · intro hctx h
    exact waiting_of_set (hi.hold hctx h) hc nofun
  · intro hctx pc hpc
    rcases List.mem_or_eq_of_mem_set hpc with hpc | rfl
    · exact hi.tornDown hctx pc hpc
    · exact enter_tornDown request

theorem called (hi : Sound s) (hc : s.calls[c]? = some pc) (h : Called s s' c pc) :
    Sound s' := by
  cases h with
  | lock hfree h =>
      subst h
      exact hi.lock hc hfree
  | subscribe h | request _ h | received _ h | sendPlay _ h | lagged _ h | closed _ _ h =>
      subst h
      exact hi.advance hc rfl rfl rfl rfl rfl rfl rfl rfl rfl rfl (by simp [CallPc.tornDown])
  | broken hpc _ h =>
      subst h
      rcases hpc with ⟨rx, rfl⟩ | ⟨st, rfl⟩ <;>
        exact hi.advance hc rfl rfl rfl rfl rfl rfl rfl rfl rfl rfl (by simp [CallPc.tornDown])
  | stop hsent h =>
      subst h
      obtain ⟨hcontext, -, hhold⟩ := TaskState.sendStop_frame hsent
      exact hi.advance hc rfl rfl hcontext hhold rfl rfl rfl rfl rfl rfl (by simp [CallPc.tornDown])
  | takeHold h =>
      subst h
      cases hhold : s.task.hold with
      | true =>
          -- The call itself is the one that waits from here on.
          refine hi.frame rfl rfl rfl rfl rfl rfl (hi.mutex.set hc rfl) (fun _ _ => ?_)
            fun hctx pc hpc => ?_
          · exact List.mem_iff_getElem?.mpr ⟨c, by simp [setCall, getElem?_set_of_some hc]⟩
          · rcases List.mem_or_eq_of_mem_set hpc with hpc | rfl
            · exact hi.tornDown hctx pc hpc
            · rfl
      | false =>
          -- A call that has taken the hold would be waiting under the mutex.
          have hgone : s.task.context = false := by
            by_contra hctx
            obtain ⟨d, hd⟩ := List.mem_iff_getElem?.mp (hi.hold (by simpa using hctx) hhold)
            obtain rfl := hi.mutex.unique hc rfl hd rfl
            simp [hc] at hd
          exact hi.advance hc rfl rfl rfl hhold.symm rfl rfl rfl rfl rfl rfl fun _ => hgone
  | wait hreleased h =>
      subst h
      have hgone : s.task.context = false := by simpa [TaskState.released] using hreleased
      exact hi.advance hc rfl rfl rfl rfl rfl rfl rfl rfl rfl rfl fun _ => hgone
  | @ret outcome h =>
      subst h
      refine hi.frame rfl rfl rfl rfl rfl rfl (hi.mutex.unlock hc rfl rfl) (fun hctx h => ?_)
        fun hctx pc hpc => ?_
      · exact waiting_of_set (hi.hold hctx h) hc nofun
      · rcases List.mem_or_eq_of_mem_set hpc with hpc | rfl
        · exact hi.tornDown hctx pc hpc
        · have := hi.tornDown hctx _ (List.mem_of_getElem? hc)
          cases outcome <;> simp_all [CallPc.tornDown]

/-- The worker leaves its loop, or takes the next step behind it. -/
theorem exit {e : ExitStep} {todo : List ExitStep} (hi : Sound s) (htodo : s.todo = e :: todo) :
    Sound { s.exitStep e with life := .exiting todo } := by
  have howed : s.owed = e :: todo := by
    unfold Session.todo at htodo
    unfold Session.owed
    cases hlife : s.life with
    | running =>
        rw [hlife] at htodo
        dsimp only at htodo
        split at htodo
        · simp [SessionSetupTarget.exit, hi.tcp hlife, htodo]
        · cases htodo
    | exiting todo' => simpa [hlife] using htodo
    | refused | spawned => simp [hlife] at htodo
  have hnodup := hi.nodup
  have hrefused : s.life ≠ .refused := by
    rintro heq
    simp [Session.owed, heq] at howed
  obtain ⟨hmutex, hsuffix, hcontext, htx, hrx, hstopped, -, htcp, hhold, htorn⟩ := hi
  rw [howed] at hnodup hsuffix hcontext htx hrx hstopped
  have hsuffix' : todo <:+ s.target.exit := (List.suffix_cons e todo).trans hsuffix
  have hstopped := hstopped hrefused
  cases e <;> constructor <;>
    simp_all [exitStep, Session.owed, TaskState.dropContext]

/-- The worker enters its loop, or goes past it. -/
theorem poll {life : Life} (hi : Sound s) (hspawned : s.life = .spawned)
    (hlife : s.target = .rtpTcp ∧ life = .running ∨ s.target = .rtpUdp ∧ life = .exiting udpExit) :
    Sound { s with life } := by
  have howed : ({ s with life } : Session V).owed = s.owed := by
    rcases hlife with ⟨htarget, rfl⟩ | ⟨htarget, rfl⟩ <;>
      simp [Session.owed, hspawned, htarget, SessionSetupTarget.exit]
  obtain ⟨hmutex, hsuffix, hcontext, htx, hrx, hstopped, -, htcp, hhold, htorn⟩ := hi
  refine ⟨hmutex, howed ▸ hsuffix, howed ▸ hcontext, howed ▸ htx, howed ▸ hrx,
    fun _ => howed ▸ hstopped (by simp [hspawned]), ?_, ?_, hhold, htorn⟩
  · rcases hlife with ⟨-, rfl⟩ | ⟨-, rfl⟩ <;> exact nofun
  · rcases hlife with ⟨htarget, -⟩ | ⟨-, rfl⟩
    · exact fun _ => htarget
    · exact nofun

theorem step {a : Action V} (hi : Sound s) (h : s.step a = some s') : Sound s' := by
  cases effect_of_step h with
  | find _ heq =>
      subst heq
      refine hi.frame rfl rfl rfl rfl rfl rfl (hi.mutex.append rfl)
        (fun hctx h => List.mem_append_left _ (hi.hold hctx h)) fun hctx pc hpc => ?_
      rcases List.mem_append.mp hpc with hpc | hpc
      · exact hi.tornDown hctx pc hpc
      · obtain rfl := List.mem_singleton.mp hpc
        rfl
  | disown _ heq | stopAll heq | closeMedia _ heq =>
      subst heq
      exact hi.frame rfl rfl rfl rfl rfl rfl hi.mutex hi.hold hi.tornDown
  | call hc hcalled => exact hi.called hc hcalled
  | poll hspawned hlife heq =>
      subst heq
      exact hi.poll hspawned hlife
  | exit htodo heq =>
      subst heq
      exact hi.exit htodo
  | reset | packet | took | tookPlay | deserted | waitForStop | reply | trySend =>
      exact hi.loop (.step rfl h)

end Sound

theorem sound_of_reachable (h : (system V).Reachable s) : Sound s :=
  h.invariant
    (by
      rintro _ ⟨target, muxer, accepted, stopAll, rfl⟩
      exact sound_setupAndStart target muxer accepted stopAll)
    fun _ _ _ _ hi hs => hi.step hs

/-! ## After a teardown -/

/-- Once a teardown has returned, the loop is behind the worker. -/
theorem Sound.ended (hi : Sound s) (hpc : pc ∈ s.calls) (htorn : pc.tornDown) : s.Ended := by
  have hctx : s.task.context = false := by
    by_contra h
    exact absurd htorn (by simp [hi.tornDown (by simpa using h) pc hpc])
  have howed : .dropContext ∉ s.owed := fun h => by simp [hi.context.mpr h] at hctx
  unfold Session.owed at howed
  cases hlife : s.life with
  | refused => exact .inl hlife
  | exiting todo => exact .inr ⟨todo, hlife⟩
  | spawned | running =>
      rw [hlife] at howed
      cases htarget : s.target <;>
        simp [htarget, SessionSetupTarget.exit, tcpExit, udpExit] at howed

theorem Ended.not_running (h : s.Ended) : s.life ≠ .running := by
  rintro heq
  rcases h with h | ⟨todo, h⟩ <;> simp [heq] at h

/-- No step leads back into the loop, and none behind it is a deed of the
worker that anyone could see. -/
theorem Ended.step {a : Action V} (hi : s.Ended) (h : s.step a = some s') :
    s'.Ended ∧ s'.worker = s.worker ∧
      s'.log.filter Occurrence.ofWorker = s.log.filter Occurrence.ofWorker := by
  cases effect_of_step h with
  | find _ heq | disown _ heq | stopAll heq | closeMedia _ heq =>
      subst heq
      exact ⟨hi, rfl, rfl⟩
  | call _ hcalled =>
      have hcaller := hcalled.caller
      obtain ⟨new, hlog, hnew⟩ := hcaller.log
      have hnone : new.filter Occurrence.ofWorker = [] :=
        List.filter_eq_nil_iff.mpr fun o ho => by simp [hnew o ho]
      refine ⟨?_, hcaller.worker, by rw [hlog, List.filter_append, hnone, List.nil_append]⟩
      unfold Ended
      rwa [hcaller.life]
  | poll hspawned _ _ => rcases hi with hi | ⟨todo, hi⟩ <;> simp [hspawned] at hi
  | @exit e todo _ heq =>
      subst heq
      cases e <;> exact ⟨.inr ⟨todo, rfl⟩, rfl, rfl⟩
  | reset | packet | took | tookPlay | deserted | waitForStop | reply | trySend =>
      exact absurd (Loop.step rfl h).running hi.not_running

/-- What a worker behind its loop has done so far is all it will ever do. -/
theorem Ended.run {as : List (Action V)} (hi : s.Ended)
    (h : Transition.run Session.step s as = some s') :
    s'.Ended ∧ s'.worker = s.worker ∧
      s'.log.filter Occurrence.ofWorker = s.log.filter Occurrence.ofWorker := by
  refine Transition.run_invariant (I := fun t => t.Ended ∧ t.worker = s.worker ∧
    t.log.filter Occurrence.ofWorker = s.log.filter Occurrence.ofWorker) ?_ h ⟨hi, rfl, rfl⟩
  rintro t a t' ⟨ht, hworker, hlog⟩ hs
  obtain ⟨ht', hworker', hlog'⟩ := ht.step hs
  exact ⟨ht', hworker'.trans hworker, hlog'.trans hlog⟩

end Session
