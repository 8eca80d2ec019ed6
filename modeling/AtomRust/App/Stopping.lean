-- SUMMARY: `App::stop` always gets to its last statement, if the calls of the handlers have returned and the writes end.
import AtomRust.App.Calls
import AtomRust.Net.Closing
import AtomRust.Session.Stopping

/-!
# Stopping the application gets past the server

A handler answers as soon as no call to a manager is in its way. With all calls returned
nothing keeps a connection from its `select!`, and so nothing keeps the server from its end.
-/

open Connection (WriteResult)
open Runtime (TaskState)
open Transition (Leads)

namespace App
variable {μ κ ρ : Type} {V : Media.Video} {σ δ ε : Type} {a a' : App μ κ ρ V σ δ ε}
  {x : Action μ κ ρ V σ δ ε} {socket : Nat → WriteResult}

theorem aligned_of_effect (ha : Served a) (hi : a.server.Aligned) (h : Effect a a') :
    a'.server.Aligned := by
  cases h with
  | server _ hs heq | respond _ hs heq =>
      subst heq
      exact hi.step ha.sound hs
  | listening _ heq =>
      subst heq
      cases hrefused : a.accepting <;> exact .of_not_running nofun nofun nofun
  | ask _ _ heq | took _ heq =>
      subst heq
      exact ⟨hi.select, hi.spawn, hi.polled⟩
  | refuse _ _ _ heq =>
      subst heq
      exact hi.runtime.1
  | signal _ _ _ heq =>
      subst heq
      exact hi.runtime.2
  | sessions _ _ heq | sources _ _ heq | setup _ _ heq | find _ _ heq | subscribe _ _ heq
  | register _ _ heq | registered _ _ _ _ heq | unbound _ heq | begin _ heq | left _ _ heq
  | beginSessions _ _ heq | stopSessions _ _ _ heq | sessionsStopped _ _ heq
  | beginSources _ _ heq | stopSources _ _ _ heq | sourcesStopped _ _ heq | returned _ _ heq =>
      subst heq
      exact hi

theorem aligned_of_reachable (h : (system μ κ ρ V σ δ ε).Reachable a) : a.server.Aligned := by
  refine h.invariant (I := fun a => a.server.Aligned) ?_ fun a x a' ha hi hs =>
    aligned_of_effect (served_of_reachable ha) hi (effect_of_step hs)
  rintro _ rfl
  exact .of_not_running nofun nofun nofun

/-! ## The call -/

/-- No handler waits for a manager. -/
def Settled (a : App μ κ ρ V σ δ ε) : Prop :=
  ∀ i call, a.calls.lookup i = some call → a.active call = false

/-- The steps of `stop`, of the server and of the handlers, where the writes to client `i`
end with `socket i`: no new client and no request is among them, and no call to a manager. -/
def Action.unaided (socket : Nat → WriteResult) : Action μ κ ρ V σ δ ε → Bool
  | .server b => b.unaided socket
  | .respond .. | .stop => true
  | _ => false

/-- `App::stop` gets past the server by itself. -/
def Passes (socket : Nat → WriteResult) : App μ κ ρ V σ δ ε → Prop :=
  Leads step (fun x => x.unaided socket) fun t =>
    (system μ κ ρ V σ δ ε).Reachable t ∧ t.pc = .beginSessions

/-- The server has come to `s`, with the rest of `a` as it was. -/
structure Serves (a t : App μ κ ρ V σ δ ε) (s : Server μ κ ρ) : Prop where
  reachable : (system μ κ ρ V σ δ ε).Reachable t
  server : t.server = s
  pc : t.pc = .wait
  accepting : t.accepting = a.accepting
  stopAll : t.stopAll = a.stopAll
  settled : Settled t

/-- What the server does is done in the application. -/
theorem Serves.step {t : App μ κ ρ V σ δ ε} {s s' : Server μ κ ρ} {b : Server.Action μ κ ρ}
    (h : Serves a t s) (hb : b.unaided socket)
    (hs : s.step a.accepting a.stopAll b = some s') :
    ∃ x t', x.unaided socket ∧ t.step x = some t' ∧ Serves a t' s' := by
  obtain ⟨ht, rfl, hpc, haccepting, hstopAll, hsettled⟩ := h
  rw [← haccepting, ← hstopAll] at hs
  by_cases hserver : ofServer b
  · have hstep : t.step (.server b) = some { t with server := s' } := by
      simp [App.step, hserver, hs]
    exact ⟨.server b, _, hb, hstep, ht.step (a := .server b) hstep, rfl, hpc, haccepting, hstopAll,
      hsettled⟩
  · -- A handler answers, which waits for no call.
    obtain ⟨i, response, rfl⟩ : ∃ i response, b = .connections (.conn i (.respond response)) := by
      unfold ofServer at hserver
      split at hserver
      next i response => exact ⟨i, response, rfl⟩
      next => exact absurd rfl hserver
    have hserving : t.server.serving i := Server.serving_of_respond hs
    have hfree : t.free i := by
      rw [free, hserving, Bool.true_and, Option.all_eq_true]
      intro call hcall
      simp [hsettled i call hcall]
    have hstep : t.step (.respond i response) =
        some { t with server := s', calls := t.calls.erase i } := by
      simp [App.step, respond, hfree, hs]
    refine ⟨.respond i response, _, rfl, hstep, ht.step (a := .respond i response) hstep, rfl, hpc,
      haccepting, hstopAll, fun j call hcall => ?_⟩
    by_cases hj : j = i
    · subst hj
      simp [AList.lookup_erase] at hcall
    · exact hsettled j call (by simpa [AList.lookup_erase_ne hj] using hcall)

namespace Passes

theorem of_released (ha : (system μ κ ρ V σ δ ε).Reachable a) (hpc : a.pc = .wait)
    (halive : a.server.workerPc.alive = false) : Passes socket a := by
  have hcontext := (served_of_reachable ha).sound.context.trans halive
  have hstep : a.step .stop = some { a with pc := .beginSessions } := by
    simp [step, hpc, stopStep, TaskState.released, hcontext]
  exact .cons rfl hstep (.refl ⟨ha.step (a := .stop) hstep, rfl⟩)

theorem of_wait [Nonempty ρ] (ha : (system μ κ ρ V σ δ ε).Reachable a) (hpc : a.pc = .wait)
    (hsettled : Settled a) : Passes socket a := by
  cases halive : a.server.workerPc.alive with
  | false => exact of_released ha hpc halive
  | true =>
      have hsound := (served_of_reachable ha).sound
      rw [hpc] at hsound
      have hfinishes : Server.Finishes socket a.accepting a.stopAll a.server :=
        .of_alive hsound (aligned_of_reachable ha) halive
      have hembed : Leads step (fun x => x.unaided socket)
          (fun t => ∃ s, Serves a t s ∧ s.workerPc = .finished) a :=
        hfinishes.embed (fun t s b s' h hb hs => h.step hb hs) ⟨ha, rfl, hpc, rfl, rfl, hsettled⟩
      refine hembed.trans fun t ⟨s, hserves, hfinished⟩ => ?_
      obtain ⟨ht, rfl, hpc', -, -, -⟩ := hserves
      exact of_released ht hpc' (by rw [hfinished]; rfl)

theorem of_takeHold [Nonempty ρ] (ha : (system μ κ ρ V σ δ ε).Reachable a)
    (hpc : a.pc = .takeHold) (hsettled : Settled a) : Passes socket a := by
  have hstep : ∀ next, (if a.server.worker.hold then Pc.wait else .beginSessions) = next →
      a.step .stop = some { a with
        server := { a.server with worker := a.server.worker.takeHold }, pc := next } := by
    rintro _ rfl
    rw [step, hpc]
    rfl
  cases hhold : a.server.worker.hold with
  | true =>
      have hwait := hstep .wait (by simp [hhold])
      exact .cons rfl hwait (of_wait (ha.step (a := .stop) hwait) rfl hsettled)
  | false =>
      have hbegin := hstep .beginSessions (by simp [hhold])
      exact .cons rfl hbegin (.refl ⟨ha.step (a := .stop) hbegin, rfl⟩)

theorem of_stop [Nonempty ρ] (ha : (system μ κ ρ V σ δ ε).Reachable a) (hpc : a.pc = .stop)
    (hsettled : Settled a) : Passes socket a := by
  have hserved := (served_of_reachable ha).sound.served
  rw [hpc] at hserved
  obtain ⟨worker, hworker⟩ := Option.isSome_iff_exists.mp hserved.sendStop_isSome
  have hstep : a.step .stop =
      some { a with server := { a.server with worker }, pc := .takeHold } := by
    simp [step, hpc, stopStep, hworker]
  exact .cons rfl hstep (of_takeHold (ha.step (a := .stop) hstep) rfl hsettled)

theorem of_running [Nonempty ρ] (ha : (system μ κ ρ V σ δ ε).Reachable a) (hpc : a.pc = .running)
    (hsettled : Settled a) : Passes socket a := by
  have hstep : a.step .stop = some { a with pc := .stop } := by rw [step, hpc]; rfl
  exact .cons rfl hstep (of_stop (ha.step (a := .stop) hstep) rfl hsettled)

theorem of_serving [Nonempty ρ] (ha : (system μ κ ρ V σ δ ε).Reachable a) (hpc : a.pc.serving)
    (hsettled : Settled a) : Passes socket a := by
  cases h : a.pc with
  | running => exact of_running ha h hsettled
  | stop => exact of_stop ha h hsettled
  | takeHold => exact of_takeHold ha h hsettled
  | wait => exact of_wait ha h hsettled
  | register | registering | serve | beginSessions | sessions | beginSources | sources | runtime
  | ended => simp [h, Pc.serving] at hpc

end Passes

/-- Once the calls of the handlers have returned, `App::stop` needs no more help to get past
the server, however busy the connections are and however the writes to them end. -/
theorem stop_passes_server [Nonempty ρ] (socket : Nat → WriteResult)
    (ha : (system μ κ ρ V σ δ ε).Reachable a) (hpc : a.pc.serving) (hsettled : Settled a) :
    Passes socket a :=
  .of_serving ha hpc hsettled

theorem stop_passes_server_visit :
    ∃ a, Transition.run step (start (V := .counting)) (visit.take 19) = some a ∧
      a.server.serving 0 ∧ Passes (fun _ => .timeout) a := by
  obtain ⟨a, ha, hpc, hserving, hcalls, hreturned⟩ :
      ∃ a, Transition.run step (start (V := .counting)) (visit.take 19) = some a ∧
        a.pc = .running ∧ a.server.serving 0 ∧ a.calls.entries = [⟨0, .setup 0⟩] ∧
        a.active (.setup 0) = false :=
    ⟨_, rfl, rfl, rfl, rfl, rfl⟩
  have hsettled : Settled a := by
    intro i call hcall
    have hmem := AList.mem_lookup_iff.mp hcall
    simp only [hcalls, List.mem_singleton, Sigma.mk.injEq] at hmem
    obtain ⟨-, hcall⟩ := hmem
    rw [eq_of_heq hcall, hreturned]
  exact ⟨a, ha, hserving,
    stop_passes_server _ ⟨_, visit.take 19, rfl, ha⟩ (by rw [hpc]; rfl) hsettled⟩

/-! ## The managers -/

/-- What the sessions, the sources and the two managers do by themselves is added. -/
def Action.alone (socket : Nat → WriteResult) : Action μ κ ρ V σ δ ε → Bool
  | .sessions b => b.unaided
  | .sources b => b.unaided
  | .drainSession _ | .drainSource _ => true
  | x => x.unaided socket

theorem Action.alone_of_unaided (hx : x.unaided socket) : x.alone socket := by
  cases x <;> first | exact hx | cases hx

/-- `App::stop` gets to where the runtime waits for all tasks. -/
def Arrives (socket : Nat → WriteResult) : App μ κ ρ V σ δ ε → Prop :=
  Leads step (fun x => x.alone socket) fun t =>
    (system μ κ ρ V σ δ ε).Reachable t ∧ ∃ failed, t.pc = .runtime failed .recv

/-- What the session manager does on the way to the end of its `stop` is done in the
application. -/
theorem exists_step_of_sessions {t : App μ κ ρ V σ δ ε} {m' : SessionManager V}
    {b : SessionManager.Action V} (ht : (system μ κ ρ V σ δ ε).Reachable t)
    (hpc : t.pc = .sessions) (hb : b.unaided) (hs : t.sessions.step b = some m') :
    ∃ x t', Action.alone socket x ∧ t.step x = some t' ∧
      (system μ κ ρ V σ δ ε).Reachable t' ∧ t'.sessions = m' ∧ t'.pc = .sessions := by
  have hdone : ∀ x : Action μ κ ρ V σ δ ε, x.alone socket →
      t.step x = some { t with sessions := m' } → ∃ x t', Action.alone socket x ∧
        t.step x = some t' ∧ (system μ κ ρ V σ δ ε).Reachable t' ∧ t'.sessions = m' ∧
          t'.pc = .sessions :=
    fun x hx hstep => ⟨x, _, hx, hstep, ht.step hstep, rfl, hpc⟩
  have hown (hof : ofSessions b) := hdone (.sessions b) hb (by simp [step, hof, hs])
  cases b with
  | stop =>
      obtain ⟨pc, hstop, -⟩ := Option.bind_eq_some_iff.mp hs
      exact hdone .stop rfl (by simp [step, hpc, stopStep, hstop, hs])
  | drain id => exact hdone (.drainSession id) rfl (by simp [step, drainSession, hpc, hs])
  | session | remove | waitForStop | exit => exact hown rfl
  | setup | register | find | recv | beginStop | refuse | stopAll => cases hb

/-- The same for the source manager. -/
theorem exists_step_of_sources {t : App μ κ ρ V σ δ ε} {m' : SourceManager σ δ ε}
    {b : SourceManager.Action σ δ ε} (ht : (system μ κ ρ V σ δ ε).Reachable t)
    (hpc : t.pc = .sources) (hb : b.unaided) (hs : t.sources.step b = some m') :
    ∃ x t', Action.alone socket x ∧ t.step x = some t' ∧
      (system μ κ ρ V σ δ ε).Reachable t' ∧ t'.sources = m' ∧ t'.pc = .sources := by
  have hdone : ∀ x : Action μ κ ρ V σ δ ε, x.alone socket →
      t.step x = some { t with sources := m' } → ∃ x t', Action.alone socket x ∧
        t.step x = some t' ∧ (system μ κ ρ V σ δ ε).Reachable t' ∧ t'.sources = m' ∧
          t'.pc = .sources :=
    fun x hx hstep => ⟨x, _, hx, hstep, ht.step hstep, rfl, hpc⟩
  have hown (hof : ofSources b) := hdone (.sources b) hb (by simp [step, hof, hs])
  cases b with
  | stop =>
      obtain ⟨pc, hstop, -⟩ := Option.bind_eq_some_iff.mp hs
      exact hdone .stop rfl (by simp [step, hpc, stopStep, hstop, hs])
  | drain path => exact hdone (.drainSource path) rfl (by simp [step, drainSource, hpc, hs])
  | source | remove | waitForStop | exit => exact hown rfl
  | register | advance | subscribe | recv | beginStop | refuse | stopAll => cases hb

namespace Arrives

/-- `stop` takes a step. -/
theorem of_stopStep (pc : Pc) (ha : (system μ κ ρ V σ δ ε).Reachable a)
    (hs : ∃ a', a.step .stop = some a' ∧ a'.pc = pc)
    (h : ∀ t, (system μ κ ρ V σ δ ε).Reachable t → t.pc = pc → Arrives socket t) :
    Arrives socket a := by
  obtain ⟨a', hstep, hpc⟩ := hs
  exact .cons rfl hstep (h a' (ha.step (a := .stop) hstep) hpc)

/-- One part of the application, which `stop` waits for at `pc`, gets somewhere by itself. -/
theorem of_part {τ β : Type} {step' : τ → β → Option τ} {B : β → Prop} {P : τ → Prop} {pc : Pc}
    (part : App μ κ ρ V σ δ ε → τ) (ha : (system μ κ ρ V σ δ ε).Reachable a) (hpc : a.pc = pc)
    (hstep : ∀ t b p, (system μ κ ρ V σ δ ε).Reachable t → t.pc = pc → B b →
      step' (part t) b = some p → ∃ x t', Action.alone socket x ∧ t.step x = some t' ∧
        (system μ κ ρ V σ δ ε).Reachable t' ∧ part t' = p ∧ t'.pc = pc)
    (hpart : Leads step' B P (part a))
    (h : ∀ t, (system μ κ ρ V σ δ ε).Reachable t → t.pc = pc → P (part t) → Arrives socket t) :
    Arrives socket a := by
  have hembed : Leads step (fun x => x.alone socket) (fun t : App μ κ ρ V σ δ ε =>
      ∃ p, ((system μ κ ρ V σ δ ε).Reachable t ∧ part t = p ∧ t.pc = pc) ∧ P p) a := by
    refine hpart.embed ?_ ⟨ha, rfl, hpc⟩
    rintro t _ b p ⟨ht, rfl, hat⟩ hb hs
    exact hstep t b p ht hat hb hs
  refine hembed.trans fun t hdone => ?_
  obtain ⟨_, ⟨ht, rfl, hat⟩, hP⟩ := hdone
  exact h t ht hat hP

theorem of_signal {failed : Bool} (ha : (system μ κ ρ V σ δ ε).Reachable a)
    (hpc : a.pc = .runtime failed .signal) : Arrives socket a := by
  apply of_stopStep (.runtime failed .recv) ha
  · simp [step, hpc, stopStep, runtimeStep, SessionManager.step, SourceManager.step]
  · exact fun t ht hrecv => .refl ⟨ht, failed, hrecv⟩

theorem of_refuse {failed : Bool} (ha : (system μ κ ρ V σ δ ε).Reachable a)
    (hpc : a.pc = .runtime failed .refuse) : Arrives socket a := by
  apply of_stopStep (.runtime failed .signal) ha
  · simp [step, hpc, stopStep, runtimeStep, SessionManager.step, SourceManager.step]
  · exact fun t ht hsignal => of_signal ht hsignal

theorem of_sources (ha : (system μ κ ρ V σ δ ε).Reachable a) (hpc : a.pc = .sources) :
    Arrives socket a := by
  -- The call has returned.
  have hlast : ∀ t : App μ κ ρ V σ δ ε, (system μ κ ρ V σ δ ε).Reachable t → t.pc = .sources →
      t.sources.stopPc = none → Arrives socket t := by
    intro t ht hat hnone
    apply of_stopStep (.runtime false .refuse) ht
    · simp [step, hat, stopStep, hnone]
    · exact fun t ht hrefuse => of_refuse ht hrefuse
  cases hstop : a.sources.stopPc with
  | none => exact hlast a ha hpc hstop
  | some _ =>
      have hreturns : a.sources.Returns := .of_pc (sources_of_reachable ha) hstop
      exact of_part App.sources ha hpc
        (fun t b m' ht hat hb hs => exists_step_of_sources ht hat hb hs) hreturns
        fun t ht hat hdone => hlast t ht hat hdone.1

/-- Nobody reads the context. -/
theorem of_beginSources (ha : (system μ κ ρ V σ δ ε).Reachable a) (hpc : a.pc = .beginSources) :
    Arrives socket a := by
  have hnone := (unbegun_of_reachable ha).sources (by rw [hpc])
  apply of_stopStep .sources ha
  · simp [step, hpc, stopStep, SourceManager.step, hnone, sources_quiet ha hpc]
  · exact fun t ht hsources => of_sources ht hsources

theorem of_sessions (ha : (system μ κ ρ V σ δ ε).Reachable a) (hpc : a.pc = .sessions) :
    Arrives socket a := by
  -- The call has returned.
  have hlast : ∀ t : App μ κ ρ V σ δ ε, (system μ κ ρ V σ δ ε).Reachable t → t.pc = .sessions →
      t.sessions.stopPc = none → Arrives socket t := by
    intro t ht hat hnone
    apply of_stopStep .beginSources ht
    · simp [step, hat, stopStep, hnone]
    · exact fun t ht hbegin => of_beginSources ht hbegin
  cases hstop : a.sessions.stopPc with
  | none => exact hlast a ha hpc hstop
  | some _ =>
      have hreturns : a.sessions.Returns := .of_pc (sessions_of_reachable ha) hstop
      exact of_part App.sessions ha hpc
        (fun t b m' ht hat hb hs => exists_step_of_sessions ht hat hb hs) hreturns
        fun t ht hat hdone => hlast t ht hat hdone.1

theorem of_beginSessions (ha : (system μ κ ρ V σ δ ε).Reachable a)
    (hpc : a.pc = .beginSessions) : Arrives socket a := by
  have hnone := (unbegun_of_reachable ha).sessions (by rw [hpc])
  apply of_stopStep .sessions ha
  · simp [step, hpc, stopStep, SessionManager.step, hnone, sessions_quiet ha hpc]
  · exact fun t ht hsessions => of_sessions ht hsessions

theorem of_serving [Nonempty ρ] (ha : (system μ κ ρ V σ δ ε).Reachable a) (hpc : a.pc.serving)
    (hsettled : Settled a) : Arrives socket a := by
  have hpasses : Passes socket a := .of_serving ha hpc hsettled
  exact (hpasses.weaken fun _ => Action.alone_of_unaided).trans fun t ⟨ht, hbegin⟩ =>
    of_beginSessions ht hbegin

end Arrives

/-- Once the calls of the handlers have returned, nothing keeps `App::stop`, or an
`App::start` that has failed, from the point where the runtime waits for its tasks. -/
theorem stop_reaches_runtime [Nonempty ρ] (socket : Nat → WriteResult)
    (ha : (system μ κ ρ V σ δ ε).Reachable a) (hfirst : Pc.stage .running ≤ a.pc.stage)
    (hlast : a.pc.stage ≤ Pc.stage (.runtime false .recv))
    (hsettled : a.pc.serving → Settled a) : Arrives socket a := by
  cases hpc : a.pc with
  | register | registering | serve => simp [hpc, Pc.stage] at hfirst
  | running | stop | takeHold | wait =>
      have hserving : a.pc.serving := by rw [hpc]; rfl
      exact .of_serving ha hserving (hsettled hserving)
  | beginSessions => exact .of_beginSessions ha hpc
  | sessions => exact .of_sessions ha hpc
  | beginSources => exact .of_beginSources ha hpc
  | sources => exact .of_sources ha hpc
  | runtime failed pc =>
      cases pc with
      | refuse => exact .of_refuse ha hpc
      | signal => exact .of_signal ha hpc
      | recv => exact .refl ⟨ha, failed, hpc⟩
  | ended failed => simp [hpc, Pc.stage] at hlast

/-- `SessionManager::stop` has just taken the session of the client out of its map. -/
theorem stop_reaches_runtime_leave :
    ∃ a, Transition.run step (start (V := .counting)) (visit ++ leave.take 27) = some a ∧
      a.pc = .sessions ∧ Arrives (fun _ => .ok) a := by
  obtain ⟨a, ha, hpc⟩ :
      ∃ a, Transition.run step (start (V := .counting)) (visit ++ leave.take 27) = some a ∧
        a.pc = .sessions := ⟨_, rfl, rfl⟩
  have hserving : a.pc.serving → Settled a := by simp [hpc, Pc.serving]
  exact ⟨a, ha, hpc, stop_reaches_runtime _ ⟨_, visit ++ leave.take 27, rfl, ha⟩
    (by simp [hpc, Pc.stage]) (by simp [hpc, Pc.stage]) hserving⟩

end App
