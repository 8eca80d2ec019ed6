-- SUMMARY: What each step of the application does, said once; what `App::stop` has stopped by the time it gets to each of its statements.
import AtomRust.App.App
import AtomRust.Net.Listener
import AtomRust.Session.Closing
import AtomRust.Source.Stopping

/-!
# The stages of a stop

`App::stop` stops the server before the managers, and the managers before the runtime.
The order is what makes the first half of it final: once the server has stopped nobody is
left to ask for a session or a source, so that what the managers leave stays as it is.
-/

open Media (Video)
open Runtime (Stopper TaskState)

/-- A worker that has dropped its context has ended. -/
theorem Session.Sound.ended_of_released {V : Video} {s : Session V} (hi : s.Sound)
    (h : s.task.context = false) : s.Ended := by
  have howed : .dropContext ∉ s.owed := fun hmem => by simp [hi.context.mpr hmem] at h
  unfold Session.owed at howed
  cases hlife : s.life with
  | refused => exact .inl hlife
  | exiting todo => exact .inr ⟨todo, hlife⟩
  | spawned | running =>
      rw [hlife] at howed
      cases htarget : s.target <;>
        simp [htarget, Session.SessionSetupTarget.exit, Session.tcpExit, Session.udpExit] at howed

namespace SessionManager
variable {V : Video} {m m' : SessionManager V} {a : Action V} {i : Nat} {v : SetupCall V}

/-- Without a new `setup`, no session is in its loop that was not in it before. -/
theorem ended_of_step (h : m.step a = some m') (ha : a.sets = false)
    (hended : ∀ (i : Nat) (u : SetupCall V), m.setups[i]? = some u → u.session.Ended)
    (hv : m'.setups[i]? = some v) : v.session.Ended := by
  have hi : i < m.setups.length := by
    rw [← setups_length_of_step h ha]
    exact (List.getElem?_eq_some_iff.mp hv).1
  obtain ⟨w, hw, hfollows⟩ := (effect_of_step h).follows (List.getElem?_eq_getElem hi)
  obtain rfl := Option.some.inj (hw.symm.trans hv)
  obtain ⟨bs, hbs, -⟩ := hfollows.run
  exact ((hended i _ (List.getElem?_eq_getElem hi)).run hbs).1

/-- `stop` returns from the head of its loop. -/
theorem eq_drain_of_returned {pc : StopPc} (h : m.stopStep pc = some m')
    (hret : m'.stopPc = none) : pc = .drain := by
  cases pc with
  | drain => rfl
  | stop =>
      obtain ⟨worker, -, rfl⟩ := Option.map_eq_some_iff.mp h
      cases hret
  | takeHold =>
      cases h
      cases hret
  | wait =>
      obtain ⟨-, h⟩ := Option.ite_none_right_eq_some.mp h
      cases h
      cases hret
  | teardown i c =>
      simp only [stopStep] at h
      split at h <;> cases h
      cases hret

/-- While `stop` is under way, and after it, the manager is empty if it has returned. -/
theorem emptied_of_step (hm : (system V).Reachable m) (h : m.step a = some m')
    (ha : a.sets = false) (hm₀ : m.stopPc = none → Emptied m) (hret : m'.stopPc = none) :
    Emptied m' := by
  cases hpc : m.stopPc with
  | none => exact (hm₀ hpc).step h ha
  | some pc =>
      cases a with
      | stop =>
          have hstep : m.stopStep pc = some m' := by simpa [step, hpc] using h
          obtain rfl := eq_drain_of_returned hstep hret
          exact emptied_of_stop hm hpc h
      | beginStop =>
          obtain ⟨⟨hnone, -⟩, -⟩ := Option.ite_none_right_eq_some.mp h
          cases hnone.symm.trans hpc
      | drain id =>
          obtain ⟨-, hdrain⟩ := Option.ite_none_right_eq_some.mp h
          obtain ⟨i, u, s, t, -, -, -, -, -, -, hstop, -⟩ := drain_eq hdrain
          cases hstop.symm.trans hret
      | _ =>
          have hstop := stopPc_of_step h rfl
          cases hpc.symm.trans (hstop.symm.trans hret)

end SessionManager

namespace SourceManager
variable {σ δ ε : Type} {m m' : SourceManager σ δ ε} {a : Action σ δ ε} {i : Nat}
  {v : RegisterCall σ δ ε} {pc : StopPc}

@[simp] theorem disown_length (m : SourceManager σ δ ε) (k : Option Nat) :
    (m.disown k).registers.length = m.registers.length := by
  rcases disown_eq m k with heq | ⟨i, u, -, heq⟩ <;> simp [heq, setSource]

theorem length_of_stopStep (h : m.stopStep pc = some m') :
    m'.registers.length = m.registers.length := by
  cases pc with
  | stop =>
      obtain ⟨worker, -, rfl⟩ := Option.map_eq_some_iff.mp h
      rfl
  | takeHold =>
      cases h
      rfl
  | wait | drain =>
      obtain ⟨-, h⟩ := Option.ite_none_right_eq_some.mp h
      cases h
      rfl
  | stopSource i =>
      obtain ⟨u, -, h⟩ := Option.bind_eq_some_iff.mp h
      obtain ⟨worker, -, rfl⟩ := Option.map_eq_some_iff.mp h
      simp [setSource]
  | sourceTakeHold i =>
      obtain ⟨u, -, rfl⟩ := Option.map_eq_some_iff.mp h
      simp [setSource]
  | sourceWait i =>
      obtain ⟨u, -, h⟩ := Option.bind_eq_some_iff.mp h
      obtain ⟨-, h⟩ := Option.ite_none_right_eq_some.mp h
      cases h
      rfl
  | stopped i =>
      cases h
      simp

theorem length_of_step (h : m.step a = some m') (ha : a.isRegister = false) :
    m'.registers.length = m.registers.length := by
  cases a with
  | register => cases ha
  | advance i description =>
      obtain ⟨u, -, h⟩ := Option.bind_eq_some_iff.mp h
      simp only [advance] at h
      split at h
      · cases h
        unfold entry
        split <;> simp [note]
      · cases h
        simp
      · cases h
        simp
      · obtain ⟨description, -, rfl⟩ := Option.map_eq_some_iff.mp h
        simp
      · cases h
  | subscribe path =>
      obtain ⟨-, h⟩ := Option.ite_none_right_eq_some.mp h
      cases h
      cases hsub : m.subscribe path with
      | none => rfl
      | some m' =>
          obtain ⟨i, -, hsub⟩ := Option.bind_eq_some_iff.mp hsub
          obtain ⟨u, -, rfl⟩ := Option.map_eq_some_iff.mp hsub
          simp [setSource]
  | source i b =>
      obtain ⟨u, -, h⟩ := Option.bind_eq_some_iff.mp h
      obtain ⟨s, -, rfl⟩ := Option.map_eq_some_iff.mp h
      simp [setSource]
  | recv =>
      simp only [step, recv] at h
      split at h <;> cases h
      rfl
  | remove =>
      simp only [step, remove] at h
      split at h <;> cases h
      simp [note]
  | waitForStop src =>
      obtain ⟨-, h⟩ := Option.ite_none_right_eq_some.mp h
      obtain ⟨worker, -, rfl⟩ := Option.map_eq_some_iff.mp h
      rfl
  | exit | beginStop =>
      obtain ⟨-, h⟩ := Option.ite_none_right_eq_some.mp h
      cases h
      rfl
  | stop =>
      obtain ⟨pc, -, h⟩ := Option.bind_eq_some_iff.mp h
      exact length_of_stopStep h
  | drain path =>
      obtain ⟨-, h⟩ := Option.ite_none_right_eq_some.mp h
      obtain ⟨i, -, rfl⟩ := Option.map_eq_some_iff.mp h
      rfl
  | refuse | stopAll =>
      cases h
      rfl

/-- Without a new `register_and_start`, no source is in its loop that was not in it before. -/
theorem not_running_of_step (h : m.step a = some m') (ha : a.isRegister = false)
    (hended : ∀ (i : Nat) (u : RegisterCall σ δ ε), m.registers[i]? = some u →
      u.source.workerPc.running = false)
    (hv : m'.registers[i]? = some v) : v.source.workerPc.running = false := by
  have hi : i < m.registers.length := by
    rw [← length_of_step h ha]
    exact (List.getElem?_eq_some_iff.mp hv).1
  obtain ⟨w, hw, hevolves⟩ :=
    (stepped_of_step h).follows.old i _ (List.getElem?_eq_getElem hi)
  obtain rfl := Option.some.inj (hw.symm.trans hv)
  apply Bool.eq_false_iff.mpr
  intro hrunning
  have hbefore := hended i _ (List.getElem?_eq_getElem hi)
  simp [hevolves.source.running hrunning] at hbefore

/-- `stop` returns from the head of its loop. -/
theorem eq_drain_of_returned (h : m.stopStep pc = some m') (hret : m'.stopPc = none) :
    pc = .drain := by
  cases pc with
  | drain => rfl
  | stop =>
      obtain ⟨worker, -, rfl⟩ := Option.map_eq_some_iff.mp h
      cases hret
  | takeHold =>
      cases h
      cases hret
  | wait =>
      obtain ⟨-, h⟩ := Option.ite_none_right_eq_some.mp h
      cases h
      cases hret
  | stopSource i =>
      obtain ⟨u, -, h⟩ := Option.bind_eq_some_iff.mp h
      obtain ⟨worker, -, rfl⟩ := Option.map_eq_some_iff.mp h
      cases hret
  | sourceTakeHold i =>
      obtain ⟨u, -, rfl⟩ := Option.map_eq_some_iff.mp h
      cases hret
  | sourceWait i =>
      obtain ⟨u, -, h⟩ := Option.bind_eq_some_iff.mp h
      obtain ⟨-, h⟩ := Option.ite_none_right_eq_some.mp h
      cases h
      cases hret
  | stopped i =>
      cases h
      cases hret

theorem emptied_of_step (hm : (system σ δ ε).Reachable m) (h : m.step a = some m')
    (ha : a.isRegister = false) (hm₀ : m.stopPc = none → Emptied m) (hret : m'.stopPc = none) :
    Emptied m' := by
  cases hpc : m.stopPc with
  | none => exact (hm₀ hpc).step h ha
  | some pc =>
      cases a with
      | stop =>
          have hstep : m.stopStep pc = some m' := by simpa [step, hpc] using h
          obtain rfl := eq_drain_of_returned hstep hret
          exact emptied_of_stop hm hpc h
      | beginStop =>
          obtain ⟨⟨hnone, -⟩, -⟩ := Option.ite_none_right_eq_some.mp h
          cases hnone.symm.trans hpc
      | drain path =>
          obtain ⟨-, hdrain⟩ := Option.ite_none_right_eq_some.mp h
          obtain ⟨i, -, rfl⟩ := Option.map_eq_some_iff.mp hdrain
          cases hret
      | _ =>
          have hstop := stopPc_of_step h rfl
          cases hpc.symm.trans (hstop.symm.trans hret)

end SourceManager

namespace App
variable {μ κ ρ : Type} {V : Video} {σ δ ε : Type} {a a' : App μ κ ρ V σ δ ε}
  {x : Action μ κ ρ V σ δ ε} {i : Nat}

/-! ## Steps -/

inductive Effect (a a' : App μ κ ρ V σ δ ε) : Prop where
  | server {b : Server.Action μ κ ρ} {server : Server μ κ ρ} (hb : ofServer b)
      (hs : a.server.step a.accepting a.stopAll b = some server) (heq : a' = { a with server })
  | respond {i : Nat} {response : ρ} {server : Server μ κ ρ} (hfree : a.free i)
      (hs : a.server.step a.accepting a.stopAll (.connections (.conn i (.respond response))) =
        some server)
      (heq : a' = { a with server, calls := a.calls.erase i })
  | sessions {b : SessionManager.Action V} {sessions : SessionManager V} (hb : ofSessions b)
      (hs : a.sessions.step b = some sessions) (heq : a' = { a with sessions })
  | sources {b : SourceManager.Action σ δ ε} {sources : SourceManager σ δ ε} (hb : ofSources b)
      (hs : a.sources.step b = some sources) (heq : a' = { a with sources })
  | setup {i sample : Nat} {target : Session.SessionSetupTarget} {muxer : V.RtpMuxer}
      {sessions : SessionManager V} (hfree : a.free i)
      (hs : a.sessions.step (.setup sample target muxer) = some sessions)
      (heq : a' = { a with
        sessions, calls := a.calls.insert i (.setup a.sessions.setups.length) })
  | find {i : Nat} {id : SessionId} {request : Session.Request} {sessions : SessionManager V}
      (hfree : a.free i) (hs : a.sessions.step (.find id request) = some sessions)
      (heq : a' = { a with sessions, calls := (a.found id).elim a.calls (a.calls.insert i) })
  | subscribe {i : Nat} {path : SourcePath} {sources : SourceManager σ δ ε} (hfree : a.free i)
      (hs : a.sources.step (.subscribe path) = some sources)
      (heq : a' = { a with sources, calls := (a.subscribed path).elim a.calls (a.calls.insert i) })
  | register {path : SourcePath} {streamInfo : σ} {sources : SourceManager σ δ ε}
      (hpc : a.pc = .register) (hs : a.sources.step (.register path streamInfo) = some sources)
      (heq : a' = { a with sources, pc := .registering })
  /-- `register_and_start` returns. -/
  | registered {u : SourceManager.RegisterCall σ δ ε} {pc : Pc} (hpc : a.pc = .registering)
      (hu : a.sources.registers[0]? = some u) (hreturned : u.pc.active = false)
      (hnext : pc = .serve ∨ pc = .runtime true .refuse) (heq : a' = { a with pc })
  | listening (hpc : a.pc = .serve)
      (heq : a' = { a with server := .start a.accepting a.stopAll, pc := .running })
  | unbound (hpc : a.pc = .serve) (heq : a' = { a with pc := .runtime true .refuse })
  | begin (hpc : a.pc = .running) (heq : a' = { a with pc := .stop })
  | ask {worker : TaskState} (hpc : a.pc = .stop) (hs : a.server.worker.sendStop = some worker)
      (heq : a' = { a with server := { a.server with worker }, pc := .takeHold })
  | took (hpc : a.pc = .takeHold)
      (heq : a' = { a with
        server := { a.server with worker := a.server.worker.takeHold }
        pc := if a.server.worker.hold then Pc.wait else .beginSessions })
  | left (hpc : a.pc = .wait) (hreleased : a.server.worker.released)
      (heq : a' = { a with pc := .beginSessions })
  | beginSessions {sessions : SessionManager V} (hpc : a.pc = .beginSessions)
      (hs : a.sessions.step .beginStop = some sessions)
      (heq : a' = { a with sessions, pc := .sessions })
  | stopSessions {b : SessionManager.Action V} {sessions : SessionManager V}
      (hpc : a.pc = .sessions) (hb : b = .stop ∨ ∃ id, b = .drain id)
      (hs : a.sessions.step b = some sessions) (heq : a' = { a with sessions })
  | sessionsStopped (hpc : a.pc = .sessions) (hnone : a.sessions.stopPc = none)
      (heq : a' = { a with pc := .beginSources })
  | beginSources {sources : SourceManager σ δ ε} (hpc : a.pc = .beginSources)
      (hs : a.sources.step .beginStop = some sources)
      (heq : a' = { a with sources, pc := .sources })
  | stopSources {b : SourceManager.Action σ δ ε} {sources : SourceManager σ δ ε}
      (hpc : a.pc = .sources) (hb : b = .stop ∨ ∃ path, b = .drain path)
      (hs : a.sources.step b = some sources) (heq : a' = { a with sources })
  | sourcesStopped (hpc : a.pc = .sources) (hnone : a.sources.stopPc = none)
      (heq : a' = { a with pc := .runtime false .refuse })
  | refuse {failed : Bool} {sessions : SessionManager V} {sources : SourceManager σ δ ε}
      (hpc : a.pc = .runtime failed .refuse) (hsessions : a.sessions.step .refuse = some sessions)
      (hsources : a.sources.step .refuse = some sources)
      (heq : a' = { a with
        accepting := false, server := a.server.refuse, sessions, sources
        pc := .runtime failed .signal })
  | signal {failed : Bool} {sessions : SessionManager V} {sources : SourceManager σ δ ε}
      (hpc : a.pc = .runtime failed .signal) (hsessions : a.sessions.step .stopAll = some sessions)
      (hsources : a.sources.step .stopAll = some sources)
      (heq : a' = { a with
        stopAll := a.stopAll ++ [()], server := a.server.signal, sessions, sources
        pc := .runtime failed .recv })
  | returned {failed : Bool} (hpc : a.pc = .runtime failed .recv) (hreleased : a.released)
      (heq : a' = { a with pc := .ended failed })

theorem effect_of_runtimeStep {failed : Bool} {pc : RuntimePc} (hpc : a.pc = .runtime failed pc)
    (h : a.runtimeStep failed pc = some a') : Effect a a' := by
  cases pc with
  | refuse =>
      simp only [runtimeStep, Option.bind_eq_some_iff, Option.map_eq_some_iff] at h
      obtain ⟨sessions, hsessions, sources, hsources, rfl⟩ := h
      exact .refuse hpc hsessions hsources rfl
  | signal =>
      simp only [runtimeStep, Option.bind_eq_some_iff, Option.map_eq_some_iff] at h
      obtain ⟨sessions, hsessions, sources, hsources, rfl⟩ := h
      exact .signal hpc hsessions hsources rfl
  | recv =>
      obtain ⟨hreleased, h⟩ := Option.ite_none_right_eq_some.mp h
      exact .returned hpc hreleased (Option.some.inj h).symm

theorem effect_of_stopStep (h : a.stopStep a.pc = some a') : Effect a a' := by
  cases hpc : a.pc with
  | running =>
      rw [hpc] at h
      exact .begin hpc (Option.some.inj h).symm
  | stop =>
      rw [hpc] at h
      obtain ⟨worker, hs, rfl⟩ := Option.map_eq_some_iff.mp h
      exact .ask hpc hs rfl
  | takeHold =>
      rw [hpc] at h
      exact .took hpc (Option.some.inj h).symm
  | wait =>
      rw [hpc] at h
      obtain ⟨hreleased, h⟩ := Option.ite_none_right_eq_some.mp h
      exact .left hpc hreleased (Option.some.inj h).symm
  | beginSessions =>
      rw [hpc] at h
      obtain ⟨sessions, hs, rfl⟩ := Option.map_eq_some_iff.mp h
      exact .beginSessions hpc hs rfl
  | sessions =>
      rw [hpc] at h
      simp only [stopStep] at h
      split at h
      next hnone => exact .sessionsStopped hpc hnone (Option.some.inj h).symm
      next =>
        obtain ⟨sessions, hs, rfl⟩ := Option.map_eq_some_iff.mp h
        exact .stopSessions hpc (.inl rfl) hs rfl
  | beginSources =>
      rw [hpc] at h
      obtain ⟨sources, hs, rfl⟩ := Option.map_eq_some_iff.mp h
      exact .beginSources hpc hs rfl
  | sources =>
      rw [hpc] at h
      simp only [stopStep] at h
      split at h
      next hnone => exact .sourcesStopped hpc hnone (Option.some.inj h).symm
      next =>
        obtain ⟨sources, hs, rfl⟩ := Option.map_eq_some_iff.mp h
        exact .stopSources hpc (.inl rfl) hs rfl
  | runtime failed pc =>
      rw [hpc] at h
      exact effect_of_runtimeStep hpc h
  | register | registering | serve | ended =>
      rw [hpc] at h
      cases h

theorem effect_of_step (h : a.step x = some a') : Effect a a' := by
  cases x with
  | register path streamInfo =>
      obtain ⟨hpc, h⟩ := Option.ite_none_right_eq_some.mp h
      obtain ⟨sources, hs, rfl⟩ := Option.map_eq_some_iff.mp h
      exact .register hpc hs rfl
  | registered =>
      obtain ⟨hpc, h⟩ := Option.ite_none_right_eq_some.mp h
      split at h
      next heq =>
        obtain ⟨u, hu, hreturned⟩ := Option.map_eq_some_iff.mp heq
        exact .registered hpc hu (by rw [hreturned]; rfl) (.inl rfl) (Option.some.inj h).symm
      next error heq =>
        obtain ⟨u, hu, hreturned⟩ := Option.map_eq_some_iff.mp heq
        exact .registered hpc hu (by rw [hreturned]; rfl) (.inr rfl) (Option.some.inj h).symm
      next => cases h
  | serve bound =>
      obtain ⟨hpc, h⟩ := Option.ite_none_right_eq_some.mp h
      cases bound with
      | true => exact .listening hpc (Option.some.inj h).symm
      | false => exact .unbound hpc (Option.some.inj h).symm
  | server b =>
      obtain ⟨hb, h⟩ := Option.ite_none_right_eq_some.mp h
      obtain ⟨server, hs, rfl⟩ := Option.map_eq_some_iff.mp h
      exact .server hb hs rfl
  | sessions b =>
      obtain ⟨hb, h⟩ := Option.ite_none_right_eq_some.mp h
      obtain ⟨sessions, hs, rfl⟩ := Option.map_eq_some_iff.mp h
      exact .sessions hb hs rfl
  | sources b =>
      obtain ⟨hb, h⟩ := Option.ite_none_right_eq_some.mp h
      obtain ⟨sources, hs, rfl⟩ := Option.map_eq_some_iff.mp h
      exact .sources hb hs rfl
  | setup i sample target muxer =>
      obtain ⟨hfree, h⟩ := Option.ite_none_right_eq_some.mp h
      obtain ⟨sessions, hs, rfl⟩ := Option.map_eq_some_iff.mp h
      exact .setup hfree hs rfl
  | find i id request =>
      obtain ⟨hfree, h⟩ := Option.ite_none_right_eq_some.mp h
      obtain ⟨sessions, hs, rfl⟩ := Option.map_eq_some_iff.mp h
      exact .find hfree hs rfl
  | subscribe i path =>
      obtain ⟨hfree, h⟩ := Option.ite_none_right_eq_some.mp h
      obtain ⟨sources, hs, rfl⟩ := Option.map_eq_some_iff.mp h
      exact .subscribe hfree hs rfl
  | respond i response =>
      obtain ⟨hfree, h⟩ := Option.ite_none_right_eq_some.mp h
      obtain ⟨server, hs, rfl⟩ := Option.map_eq_some_iff.mp h
      exact .respond hfree hs rfl
  | stop => exact effect_of_stopStep h
  | drainSession id =>
      obtain ⟨hpc, h⟩ := Option.ite_none_right_eq_some.mp h
      obtain ⟨sessions, hs, rfl⟩ := Option.map_eq_some_iff.mp h
      exact .stopSessions hpc (.inr ⟨id, rfl⟩) hs rfl
  | drainSource path =>
      obtain ⟨hpc, h⟩ := Option.ite_none_right_eq_some.mp h
      obtain ⟨sources, hs, rfl⟩ := Option.map_eq_some_iff.mp h
      exact .stopSources hpc (.inr ⟨path, rfl⟩) hs rfl

/-! ## The parts -/

theorem of_ofSessions {b : SessionManager.Action V} (hb : ofSessions b) :
    b.sets = false ∧ b.stops = false := by
  cases b <;> first | exact ⟨rfl, rfl⟩ | cases hb

theorem of_ofSources {b : SourceManager.Action σ δ ε} (hb : ofSources b) :
    b.isRegister = false ∧ b.stops = false := by
  cases b <;> first | exact ⟨rfl, rfl⟩ | cases hb

/-- What a step of the application is to the session manager. -/
theorem Effect.sessions_step (h : Effect a a') :
    a'.sessions = a.sessions ∨ ∃ b, a.sessions.step b = some a'.sessions ∧
      (b.sets → ∃ i, a.free i) ∧ (b.stops → a'.pc = .sessions) := by
  cases h with
  | sessions hb hs heq =>
      subst heq
      obtain ⟨hsets, hstops⟩ := of_ofSessions hb
      exact .inr ⟨_, hs, by simp [hsets], by simp [hstops]⟩
  | setup hfree hs heq =>
      subst heq
      exact .inr ⟨_, hs, fun _ => ⟨_, hfree⟩, nofun⟩
  | stopSessions hpc hb hs heq =>
      subst heq
      refine .inr ⟨_, hs, ?_, fun _ => hpc⟩
      rcases hb with rfl | ⟨id, rfl⟩ <;> exact nofun
  | beginSessions _ hs heq =>
      subst heq
      exact .inr ⟨_, hs, nofun, fun _ => rfl⟩
  | find _ hs heq | refuse _ hs _ heq | signal _ hs _ heq =>
      subst heq
      exact .inr ⟨_, hs, nofun, nofun⟩
  | server _ _ heq | respond _ _ heq | sources _ _ heq | subscribe _ _ heq | register _ _ heq
  | registered _ _ _ _ heq | listening _ heq | unbound _ heq | begin _ heq | ask _ _ heq
  | took _ heq | left _ _ heq | sessionsStopped _ _ heq | beginSources _ _ heq
  | stopSources _ _ _ heq | sourcesStopped _ _ heq | returned _ _ heq => exact .inl (heq ▸ rfl)

/-- What it is to the source manager. -/
theorem Effect.sources_step (h : Effect a a') :
    a'.sources = a.sources ∨ ∃ b, a.sources.step b = some a'.sources ∧
      (b.isRegister → a.pc = .register) ∧ (b.stops → a'.pc = .sources) := by
  cases h with
  | sources hb hs heq =>
      subst heq
      obtain ⟨hregister, hstops⟩ := of_ofSources hb
      exact .inr ⟨_, hs, by simp [hregister], by simp [hstops]⟩
  | register hpc hs heq =>
      subst heq
      exact .inr ⟨_, hs, fun _ => hpc, nofun⟩
  | stopSources hpc hb hs heq =>
      subst heq
      refine .inr ⟨_, hs, ?_, fun _ => hpc⟩
      rcases hb with rfl | ⟨path, rfl⟩ <;> exact nofun
  | beginSources _ hs heq =>
      subst heq
      exact .inr ⟨_, hs, nofun, fun _ => rfl⟩
  | subscribe _ hs heq | refuse _ _ hs heq | signal _ _ hs heq =>
      subst heq
      exact .inr ⟨_, hs, nofun, nofun⟩
  | server _ _ heq | respond _ _ heq | sessions _ _ heq | setup _ _ heq | find _ _ heq
  | registered _ _ _ _ heq | listening _ heq | unbound _ heq | begin _ heq | ask _ _ heq
  | took _ heq | left _ _ heq | sessionsStopped _ _ heq | beginSessions _ _ heq
  | stopSessions _ _ _ heq | sourcesStopped _ _ heq | returned _ _ heq => exact .inl (heq ▸ rfl)

/-- Only `stop` of the session manager moves its own place. -/
theorem Effect.sessions_stopPc (h : Effect a a') (hpc : a'.pc ≠ .sessions) :
    a'.sessions.stopPc = a.sessions.stopPc := by
  rcases h.sessions_step with heq | ⟨b, hb, -, hstops⟩
  · rw [heq]
  · exact SessionManager.stopPc_of_step hb (Bool.eq_false_iff.mpr fun hstop => hpc (hstops hstop))

theorem Effect.sources_stopPc (h : Effect a a') (hpc : a'.pc ≠ .sources) :
    a'.sources.stopPc = a.sources.stopPc := by
  rcases h.sources_step with heq | ⟨b, hb, -, hstops⟩
  · rw [heq]
  · exact SourceManager.stopPc_of_step hb (Bool.eq_false_iff.mpr fun hstop => hpc (hstops hstop))

theorem sessions_of_reachable (h : (system μ κ ρ V σ δ ε).Reachable a) :
    (SessionManager.system V).Reachable a.sessions := by
  refine h.project (f := App.sessions) ?_ fun a x a' hs => ?_
  · rintro _ rfl
    exact ⟨true, [], rfl⟩
  · exact (effect_of_step hs).sessions_step.imp id fun ⟨b, hb, _⟩ => ⟨b, hb⟩

theorem sources_of_reachable (h : (system μ κ ρ V σ δ ε).Reachable a) :
    (SourceManager.system σ δ ε).Reachable a.sources := by
  refine h.project (f := App.sources) ?_ fun a x a' hs => ?_
  · rintro _ rfl
    exact ⟨true, [], rfl⟩
  · exact (effect_of_step hs).sources_step.imp id fun ⟨b, hb, _⟩ => ⟨b, hb⟩

/-! ## The server -/

namespace Pc

/-- Where `Server::stop` stands. -/
def stopper : Pc → Stopper
  | .takeHold => .takeHold
  | .wait => .wait
  | .register | .registering | .serve | .running | .stop | .beginSessions | .sessions
  | .beginSources | .sources | .runtime .. | .ended _ => .away

/-- The server may have a task. -/
def serving : Pc → Bool
  | .running | .stop | .takeHold | .wait => true
  | .register | .registering | .serve | .beginSessions | .sessions | .beginSources | .sources
  | .runtime .. | .ended _ => false

/-- `SessionManager::stop` has returned. -/
def sessionsStopped : Pc → Bool
  | .beginSources | .sources | .runtime false _ | .ended false => true
  | .register | .registering | .serve | .running | .stop | .takeHold | .wait | .beginSessions
  | .sessions | .runtime true _ | .ended true => false

/-- `SourceManager::stop` has returned. -/
def sourcesStopped : Pc → Bool
  | .runtime false _ | .ended false => true
  | .register | .registering | .serve | .running | .stop | .takeHold | .wait | .beginSessions
  | .sessions | .beginSources | .sources | .runtime true _ | .ended true => false

end Pc

structure Served (a : App μ κ ρ V σ δ ε) : Prop where
  sound : a.server.Sound a.pc.stopper
  gone : a.pc.serving = false → a.server.workerPc.alive = false

namespace Served

/-- The server is left alone, and nobody begins or ends to stop it. -/
theorem of_eq (h : Served a) (hserver : a'.server = a.server)
    (hstopper : a'.pc.stopper = a.pc.stopper)
    (hserving : a'.pc.serving = false → a.pc.serving = false) : Served a' := by
  refine ⟨?_, fun hpc => ?_⟩
  · rw [hserver, hstopper]
    exact h.sound
  · rw [hserver]
    exact h.gone (hserving hpc)

/-- The server takes a step of its own. -/
theorem server {b : Server.Action μ κ ρ} {server : Server μ κ ρ} (h : Served a)
    (hs : a.server.step a.accepting a.stopAll b = some server) (hserver : a'.server = server)
    (hpc : a'.pc = a.pc) : Served a' := by
  subst hserver
  refine ⟨?_, fun hserving => ?_⟩
  · rw [hpc]
    exact h.sound.step hs
  · exact Server.not_alive_of_step hs (h.gone (hpc ▸ hserving))

/-- `Server::stop` takes the hold on the task. -/
theorem took (h : Served a) (hpc : a.pc = .takeHold)
    (heq : a' = { a with
      server := { a.server with worker := a.server.worker.takeHold }
      pc := if a.server.worker.hold then Pc.wait else .beginSessions }) : Served a' := by
  subst heq
  have hsound := h.sound
  rw [hpc] at hsound
  have hstopper : (if a.server.worker.hold then Pc.wait else .beginSessions).stopper =
      if a.server.worker.hold then .wait else .away := by split <;> rfl
  refine ⟨?_, fun hserving => ?_⟩
  · rw [hstopper]
    exact hsound.task hsound.served.takeHold rfl
  · -- Without a hold to wait for, there was no task, or an earlier stop has waited for it.
    have hhold : a.server.worker.hold = false := by
      cases hhold : a.server.worker.hold with
      | false => rfl
      | true => simp [hhold, Pc.serving] at hserving
    have hcontext : a.server.worker.context = false := by
      apply Bool.eq_false_iff.mpr
      intro hcontext
      cases hsound.served.hold hcontext hhold
    exact hsound.context.symm.trans hcontext

theorem step (h : Served a) (hs : Effect a a') : Served a' := by
  cases hs with
  | server _ hs heq | respond _ hs heq => exact h.server hs (heq ▸ rfl) (heq ▸ rfl)
  | took hpc heq => exact h.took hpc heq
  | sessions _ _ heq | sources _ _ heq | setup _ _ heq | find _ _ heq | subscribe _ _ heq
  | stopSessions _ _ _ heq | stopSources _ _ _ heq =>
      subst heq
      exact h.of_eq rfl rfl id
  | register hpc _ heq | begin hpc heq | beginSessions hpc _ heq | sessionsStopped hpc _ heq
  | beginSources hpc _ heq | sourcesStopped hpc _ heq | returned hpc _ heq | unbound hpc heq =>
      subst heq
      exact h.of_eq rfl (by rw [hpc]; rfl) (by rw [hpc]; simp [Pc.serving])
  | registered hpc _ _ hnext heq =>
      subst heq
      rcases hnext with rfl | rfl <;>
        exact h.of_eq rfl (by rw [hpc]; rfl) (by rw [hpc]; exact fun _ => rfl)
  | listening hpc heq =>
      subst heq
      exact ⟨.start _ _, nofun⟩
  | ask hpc hs heq =>
      subst heq
      have hsound := h.sound
      rw [hpc] at hsound
      exact ⟨hsound.task (hsound.served.sendStop hs) (TaskState.sendStop_frame hs).1, nofun⟩
  | left hpc hreleased heq =>
      subst heq
      have hsound := h.sound
      rw [hpc] at hsound
      have hcontext : a.server.worker.context = false := by
        simpa [TaskState.released] using hreleased
      exact ⟨hsound.task (hsound.served.released hreleased) rfl,
        fun _ => hsound.context.symm.trans hcontext⟩
  | refuse hpc _ _ heq =>
      subst heq
      have hsound := h.sound
      have hgone := h.gone
      rw [hpc] at hsound hgone
      exact ⟨hsound.runtime.1, fun _ => (Server.refuse_workerPc _).symm ▸ hgone rfl⟩
  | signal hpc _ _ heq =>
      subst heq
      have hsound := h.sound
      have hgone := h.gone
      rw [hpc] at hsound hgone
      exact ⟨hsound.runtime.2, fun _ => (Server.signal_workerPc _).symm ▸ hgone rfl⟩

/-- Without a server nobody has a request. -/
theorem not_free (h : Served a) (hpc : a.pc.serving = false) (i : Nat) : a.free i = false := by
  rw [free, h.sound.not_serving (h.gone hpc), Bool.false_and]

/-- And so nobody calls `setup`. -/
theorem not_sets {b : SessionManager.Action V} (h : Served a) (hpc : a.pc.serving = false)
    (hsets : b.sets → ∃ i, a.free i) : b.sets = false := by
  apply Bool.eq_false_iff.mpr
  intro hset
  obtain ⟨i, hfree⟩ := hsets hset
  simp [h.not_free hpc] at hfree

end Served

theorem served_of_reachable (h : (system μ κ ρ V σ δ ε).Reachable a) : Served a := by
  refine h.invariant (I := Served) ?_ fun a x a' _ hi hs => hi.step (effect_of_step hs)
  rintro _ rfl
  exact ⟨.absent, fun _ => rfl⟩

/-! ## The managers -/

/-- What a step of the application means for the `stop` of a manager, which is called at
`stage`: with `stopped pc` it has returned. -/
inductive Phase {τ : Type} (stage : Pc) (stopped : Pc → Bool) (stopPc stopPc' : Option τ)
    (pc pc' : Pc) : Prop where
  | same (h : pc' = pc)
  | begun (hpc' : pc' = stage) (h : stopPc' ≠ none)
  | returned (hpc : pc = stage) (h : stopPc = none)
  | apart (hpc : pc ≠ stage) (hpc' : pc' ≠ stage) (h : stopped pc' = stopped pc)

namespace Phase
variable {τ : Type} {stage pc pc' : Pc} {stopped : Pc → Bool} {stopPc stopPc' : Option τ}

theorem before (h : Phase stage stopped stopPc stopPc' pc pc')
    (hpc' : pc' = stage ∨ stopped pc') (hnone : stopPc' = none) : pc = stage ∨ stopped pc := by
  cases h with
  | same h => exact h ▸ hpc'
  | begun _ h => exact absurd hnone h
  | returned hpc => exact .inl hpc
  | apart _ hne h => exact .inr (h ▸ hpc'.resolve_left hne)

theorem idle (h : Phase stage stopped stopPc stopPc' pc pc') (hstage : stopped stage = false)
    (hpc' : stopped pc') : stopped pc ∨ stopPc = none := by
  cases h with
  | same h => exact .inl (h ▸ hpc')
  | begun h =>
      rw [h, hstage] at hpc'
      cases hpc'
  | returned _ h => exact .inr h
  | apart _ _ h => exact .inl (h ▸ hpc')

end Phase

theorem Effect.sessions_phase (h : Effect a a') :
    Phase .sessions Pc.sessionsStopped a.sessions.stopPc a'.sessions.stopPc a.pc a'.pc := by
  cases h with
  | server _ _ heq | respond _ _ heq | sessions _ _ heq | sources _ _ heq | setup _ _ heq
  | find _ _ heq | subscribe _ _ heq | stopSessions _ _ _ heq | stopSources _ _ _ heq =>
      subst heq
      exact .same rfl
  | beginSessions hpc hs heq =>
      subst heq
      obtain ⟨-, hs⟩ := Option.ite_none_right_eq_some.mp hs
      cases hs
      exact .begun rfl nofun
  | sessionsStopped hpc hnone => exact .returned hpc hnone
  | register hpc _ heq | listening hpc heq | unbound hpc heq | begin hpc heq | ask hpc _ heq
  | left hpc _ heq | beginSources hpc _ heq | sourcesStopped hpc _ heq =>
      subst heq
      rw [hpc]
      exact .apart nofun nofun rfl
  | registered hpc _ _ hnext heq =>
      subst heq
      rw [hpc]
      rcases hnext with rfl | rfl <;> exact .apart nofun nofun rfl
  | took hpc heq =>
      subst heq
      rw [hpc]
      dsimp only
      split <;> exact .apart nofun nofun rfl
  | @returned failed hpc _ heq | @refuse failed _ _ hpc _ _ heq | @signal failed _ _ hpc _ _ heq =>
      subst heq
      rw [hpc]
      cases failed <;> exact .apart nofun nofun rfl

theorem Effect.sources_phase (h : Effect a a') :
    Phase .sources Pc.sourcesStopped a.sources.stopPc a'.sources.stopPc a.pc a'.pc := by
  cases h with
  | server _ _ heq | respond _ _ heq | sessions _ _ heq | sources _ _ heq | setup _ _ heq
  | find _ _ heq | subscribe _ _ heq | stopSessions _ _ _ heq | stopSources _ _ _ heq =>
      subst heq
      exact .same rfl
  | beginSources hpc hs heq =>
      subst heq
      obtain ⟨-, hs⟩ := Option.ite_none_right_eq_some.mp hs
      cases hs
      exact .begun rfl nofun
  | sourcesStopped hpc hnone => exact .returned hpc hnone
  | register hpc _ heq | listening hpc heq | unbound hpc heq | begin hpc heq | ask hpc _ heq
  | left hpc _ heq | beginSessions hpc _ heq | sessionsStopped hpc _ heq =>
      subst heq
      rw [hpc]
      exact .apart nofun nofun rfl
  | registered hpc _ _ hnext heq =>
      subst heq
      rw [hpc]
      rcases hnext with rfl | rfl <;> exact .apart nofun nofun rfl
  | took hpc heq =>
      subst heq
      rw [hpc]
      dsimp only
      split <;> exact .apart nofun nofun rfl
  | @returned failed hpc _ heq | @refuse failed _ _ hpc _ _ heq | @signal failed _ _ hpc _ _ heq =>
      subst heq
      rw [hpc]
      cases failed <;> exact .apart nofun nofun rfl

/-- The managers are stopped one after the other, and stay as `stop` leaves them. -/
structure Cleared (a : App μ κ ρ V σ δ ε) : Prop where
  sessions : a.pc = .sessions ∨ a.pc.sessionsStopped → a.sessions.stopPc = none → a.sessions.Emptied
  sessionsIdle : a.pc.sessionsStopped → a.sessions.stopPc = none
  sources : a.pc = .sources ∨ a.pc.sourcesStopped → a.sources.stopPc = none → a.sources.Emptied
  sourcesIdle : a.pc.sourcesStopped → a.sources.stopPc = none

theorem Cleared.step (ha : (system μ κ ρ V σ δ ε).Reachable a) (hi : Cleared a)
    (h : Effect a a') : Cleared a' := by
  have hserving : a.pc = .sessions ∨ a.pc.sessionsStopped → a.pc.serving = false := by
    rintro (hpc | hpc)
    · rw [hpc]
      rfl
    · cases hat : a.pc <;> first | rfl | simp [hat, Pc.sessionsStopped] at hpc
  have hregister : a.pc = .sources ∨ a.pc.sourcesStopped → a.pc ≠ .register := by
    rintro (hpc | hpc) hat <;> simp [hat, Pc.sourcesStopped] at hpc
  refine ⟨fun hpc hnone => ?_, fun hpc => ?_, fun hpc hnone => ?_, fun hpc => ?_⟩
  · have hbefore := h.sessions_phase.before hpc hnone
    rcases h.sessions_step with heq | ⟨b, hb, hsets, -⟩
    · rw [heq] at hnone ⊢
      exact hi.sessions hbefore hnone
    · have hset := (served_of_reachable ha).not_sets (hserving hbefore) hsets
      exact SessionManager.emptied_of_step (sessions_of_reachable ha) hb hset
        (hi.sessions hbefore) hnone
  · have hnone := (h.sessions_phase.idle rfl hpc).elim hi.sessionsIdle id
    refine (h.sessions_stopPc ?_).trans hnone
    intro hat
    simp [hat, Pc.sessionsStopped] at hpc
  · have hbefore := h.sources_phase.before hpc hnone
    rcases h.sources_step with heq | ⟨b, hb, hregisters, -⟩
    · rw [heq] at hnone ⊢
      exact hi.sources hbefore hnone
    · apply SourceManager.emptied_of_step (sources_of_reachable ha) hb _
        (hi.sources hbefore) hnone
      exact Bool.eq_false_iff.mpr fun hreg => hregister hbefore (hregisters hreg)
  · have hnone := (h.sources_phase.idle rfl hpc).elim hi.sourcesIdle id
    refine (h.sources_stopPc ?_).trans hnone
    intro hat
    simp [hat, Pc.sourcesStopped] at hpc

theorem cleared_of_reachable (h : (system μ κ ρ V σ δ ε).Reachable a) : Cleared a := by
  refine h.invariant (I := Cleared) ?_ fun a x a' ha hi hs => hi.step ha (effect_of_step hs)
  rintro _ rfl
  refine ⟨?_, nofun, ?_, nofun⟩ <;> simp [start, Pc.sessionsStopped, Pc.sourcesStopped]

/-! ## The end -/

/-- No session and no source is in its loop. -/
structure Finished (a : App μ κ ρ V σ δ ε) : Prop where
  sessions : ∀ (i : Nat) (u : SessionManager.SetupCall V), a.sessions.setups[i]? = some u →
    u.session.Ended
  sources : ∀ (i : Nat) (u : SourceManager.RegisterCall σ δ ε), a.sources.registers[i]? = some u →
    u.source.workerPc.running = false

/-- The runtime waits for all contexts. -/
theorem Effect.returns {failed : Bool} (h : Effect a a') (hpc' : a'.pc = .ended failed) :
    a.pc = .ended failed ∨ a.released ∧ a'.sessions = a.sessions ∧ a'.sources = a.sources := by
  cases h with
  | server _ _ heq | respond _ _ heq | sessions _ _ heq | sources _ _ heq | setup _ _ heq
  | find _ _ heq | subscribe _ _ heq | stopSessions _ _ _ heq | stopSources _ _ _ heq =>
      subst heq
      exact .inl hpc'
  | returned _ hreleased heq =>
      subst heq
      exact .inr ⟨hreleased, rfl, rfl⟩
  | register _ _ heq | listening _ heq | unbound _ heq | begin _ heq | ask _ _ heq | left _ _ heq
  | beginSessions _ _ heq | sessionsStopped _ _ heq | beginSources _ _ heq | sourcesStopped _ _ heq
  | refuse _ _ _ heq | signal _ _ _ heq =>
      subst heq
      cases hpc'
  | registered _ _ _ hnext heq =>
      subst heq
      rcases hnext with rfl | rfl <;> cases hpc'
  | took _ heq =>
      subst heq
      dsimp only at hpc'
      split at hpc' <;> cases hpc'

theorem finished_of_released (ha : (system μ κ ρ V σ δ ε).Reachable a) (h : a.released) :
    Finished a := by
  simp only [released, Bool.and_eq_true, Bool.not_eq_true', List.all_eq_true] at h
  obtain ⟨⟨⟨-, hsessions⟩, -⟩, hsources⟩ := h
  refine ⟨fun i u hu => ?_, fun i u hu => ?_⟩
  · have hsound := Session.sound_of_reachable
      (SessionManager.session_of_reachable (sessions_of_reachable ha) hu)
    exact hsound.ended_of_released (hsessions u (List.mem_of_getElem? hu))
  · have htended := (SourceManager.attended_of_reachable (sources_of_reachable ha)).sources i u hu
    have halive := htended.served.context.symm.trans (hsources u (List.mem_of_getElem? hu))
    cases hpc : u.source.workerPc <;> first | rfl | simp [hpc, Source.WorkerPc.alive] at halive

theorem Finished.step {failed : Bool} (ha : (system μ κ ρ V σ δ ε).Reachable a)
    (hpc : a.pc = .ended failed) (hi : Finished a) (h : Effect a a') : Finished a' := by
  refine ⟨fun i v hv => ?_, fun i v hv => ?_⟩
  · rcases h.sessions_step with heq | ⟨b, hb, hsets, -⟩
    · exact hi.sessions i v (heq ▸ hv)
    · have hset := (served_of_reachable ha).not_sets (by rw [hpc]; rfl) hsets
      exact SessionManager.ended_of_step hb hset hi.sessions hv
  · rcases h.sources_step with heq | ⟨b, hb, hregisters, -⟩
    · exact hi.sources i v (heq ▸ hv)
    · apply SourceManager.not_running_of_step hb _ hi.sources hv
      apply Bool.eq_false_iff.mpr
      intro hregister
      have hprepare := hregisters hregister
      simp [hpc] at hprepare

theorem finished_of_reachable (h : (system μ κ ρ V σ δ ε).Reachable a) {failed : Bool}
    (hpc : a.pc = .ended failed) : Finished a := by
  refine h.invariant (I := fun a => ∀ failed, a.pc = .ended failed → Finished a) ?_ ?_ failed hpc
  · rintro _ rfl failed hpc
    cases hpc
  · intro a x a' ha hi hs failed hpc
    have heffect := effect_of_step hs
    rcases heffect.returns hpc with hbefore | ⟨hreleased, hsessions, hsources⟩
    · exact (hi failed hbefore).step ha hbefore heffect
    · have hfinished := finished_of_released ha hreleased
      exact ⟨hsessions ▸ hfinished.sessions, hsources ▸ hfinished.sources⟩

/-- What is left at each stage of a stop. -/
structure Stages (a : App μ κ ρ V σ δ ε) : Prop where
  /-- The server has stopped, or has not been started. -/
  connections : a.pc.serving = false → ∀ m, a.server.connections = some m → ∀ (i : Nat)
    (u : ConnectionManager.SpawnCall μ κ ρ), m.spawns[i]? = some u → u.Gone
  sessions : a.pc.sessionsStopped → a.sessions.Emptied
  sources : a.pc.sourcesStopped → a.sources.Emptied
  /-- The runtime has stopped, whether `start` has failed or `stop` was called. -/
  finished : ∀ failed, a.pc = .ended failed → a.Finished

/-- Whatever the clients, the camera and the workers do while the program stops: what one
statement of `App::stop` has stopped is not there any more in any of the later ones. -/
theorem stages_of_reachable (h : (system μ κ ρ V σ δ ε).Reachable a) : Stages a where
  connections hpc _ hm _ _ hu :=
    (served_of_reachable h).sound.departed ((served_of_reachable h).gone hpc) hm hu
  sessions hpc :=
    (cleared_of_reachable h).sessions (.inr hpc) ((cleared_of_reachable h).sessionsIdle hpc)
  sources hpc :=
    (cleared_of_reachable h).sources (.inr hpc) ((cleared_of_reachable h).sourcesIdle hpc)
  finished _ hpc := finished_of_reachable h hpc

/-- The camera is registered, and a client sets up a session. -/
def visit : List (Action Nat Nat Nat .counting Nat Nat Nat) :=
  [.register "camera" 5, .sources (.source 0 .poll), .sources (.advance 0 (.ok 7)),
    .sources (.advance 0 (.ok 7)), .sources (.advance 0 (.ok 7)), .sources (.advance 0 (.ok 7)),
    .registered, .serve true, .server .poll, .server .accept, .server .insert,
    .server (.connections (.poll 0)), .server (.connections (.conn 0 (.next (.message 1)))),
    .subscribe 0 "/camera", .sources (.source 0 (.delegate 0)), .sources (.source 0 (.drop 0)),
    .setup 0 10000000 .rtpTcp (0 : UInt16), .sessions (.session 0 .poll), .sessions (.register 0),
    .respond 0 9, .server (.connections (.conn 0 (.send .ok))),
    .server (.connections (.conn 0 (.flushResponse .ok)))]

/-- The program stops. -/
def leave : List (Action Nat Nat Nat .counting Nat Nat Nat) :=
  [.stop, .stop, .stop, .server (.waitForStop .stop), .server .stop, .server .stop,
    .server (.connections (.waitForStop .stop)), .server (.connections .exit), .server .stop,
    .server (.drain ⟨0⟩), .server .stop, .server .stop, .server (.connections (.connStop 0 .stop)),
    .server (.connections (.connExit 0)), .server (.connections (.finish 0)), .server .stop,
    .server .stop, .server .stop, .server .finish, .stop, .stop, .stop, .stop,
    .sessions (.waitForStop .stop), .sessions .exit, .stop, .drainSession (.generate 10000000),
    .sessions (.session 0 (.call 0)), .sessions (.session 0 (.call 0)),
    .sessions (.session 0 (.call 0)), .sessions (.session 0 (.waitForStop .stop)),
    .sessions (.session 0 .exit), .sessions (.session 0 (.call 0)),
    .sessions (.session 0 (.call 0)), .stop, .stop, .stop, .stop, .stop, .stop,
    .sources (.waitForStop .stop), .sources .exit, .stop, .drainSource "/camera", .stop, .stop,
    .sources (.source 0 (.waitForStop .stop)), .sources (.source 0 .exit),
    .sources (.source 0 .finish), .stop, .stop, .stop, .stop, .stop, .stop, .stop]

theorem stages_of_reachable_visit :
    ∃ a, Transition.run step (start (V := .counting)) (visit ++ leave) = some a ∧
      a.pc = .ended false ∧ a.sessions.setups.length = 1 ∧ a.sources.registers.length = 1 ∧
      Stages a := by
  obtain ⟨a, ha, hpc, hsetups, hregisters⟩ :
      ∃ a, Transition.run step (start (V := .counting)) (visit ++ leave) = some a ∧
        a.pc = .ended false ∧ a.sessions.setups.length = 1 ∧ a.sources.registers.length = 1 :=
    ⟨_, rfl, rfl, rfl, rfl⟩
  exact ⟨a, ha, hpc, hsetups, hregisters, stages_of_reachable ⟨_, visit ++ leave, rfl, ha⟩⟩

end App
