-- SUMMARY: When a `play` call can wait for an answer that nobody will give, and exactly which steps let this happen.
import AtomRust.Session.Pairing

/-!
# Unanswered requests

`Session::play` expects `recv` to fail once the worker is gone. It never does:
the `Session` that the call has locked owns a sender of the stream-state
broadcast itself. A request that the worker leaves behind, or one that is sent
between the end of its loop and the drop of `control_rx`, is waited for without
end.
-/

open List (getElem?_set_of_some)
open Media (RtpBuf StreamState Video)
open Runtime (StopSource TaskState)

namespace Session
variable {V : Video} {s s' : Session V} {c : Nat} {pc : CallPc}

/-- Every call that waits for its stream state has one in its receiver, or has
its request in the control channel or the flag of a worker that is in its loop,
or will see `recv` fail because every sender is gone. -/
def Answerable (s : Session V) : Prop :=
  ∀ (c rx : Nat), s.calls[c]? = some (.recv rx) →
    rx < s.streamStates.length ∨
    s.looping ∧ ((c, .streamState) ∈ s.control ∨ s.worker.needStreamState) ∨
    s.streamStateTx = false ∧ s.handle = false

/-- No request waits in the control channel or in `need_stream_state`. -/
def NoRequest (s : Session V) : Prop :=
  s.worker.needStreamState = false ∧ ∀ m ∈ s.control, m.2 ≠ .streamState

/-- The step ends no loop that has a request to answer, and sends no request to
a worker that is behind its loop and has not dropped `control_rx`. -/
def Heeds (s : Session V) : Action V → Prop
  | .reset r => s.worker.leaves (.reset r) → s.NoRequest
  | .packet r => s.worker.leaves (.packet r) → s.NoRequest
  | .waitForStop _ => s.NoRequest
  | .trySend r => s.worker.leaves (.trySend r) → s.NoRequest
  | .call c => ∀ rx, s.calls[c]? = some (.request rx) → s.controlRx → s.looping
  | _ => True

/-! ## Who waits -/

/-- Some call waits and has no stream state to receive. -/
def Pending (s : Session V) : Prop :=
  ∃ c rx : Nat, s.calls[c]? = some (.recv rx) ∧ s.streamStates.length ≤ rx

/-- A worker in its loop has not dropped its end of the control channel. -/
theorem Sound.controlRx_of_looping (hs : Sound s) (h : s.looping) : s.controlRx = true := by
  rw [hs.controlRx]
  unfold Session.owed
  unfold looping at h
  cases hlife : s.life with
  | refused | exiting todo => simp [hlife] at h
  | spawned | running =>
      cases s.target <;> simp [SessionSetupTarget.exit, tcpExit, udpExit]

/-- What a session owes its callers is a worker in its loop while one of them
waits. The senders of the broadcast are no help: the caller keeps one alive. -/
theorem answerable_iff (hs : Sound s) (hp : Paired s) :
    Answerable s ↔ (Pending s → s.looping) := by
  constructor
  · rintro h ⟨c, rx, hc, hle⟩
    rcases h c rx hc with hlt | ⟨hloop, -⟩ | ⟨-, hgone⟩
    · omega
    · exact hloop
    · simp [Paired.handle_of_active hc rfl] at hgone
  · intro h c rx hc
    have hw : Waiting s c rx := hp.held c _ (hs.mutex.holder hc rfl) hc
    cases hw with
    | queued plays _ hctl _ _ hu _ =>
        exact .inr (.inl ⟨h ⟨c, rx, hc, Nat.le_of_eq hu⟩, .inl (by simp [hctl])⟩)
    | taken ha _ hu _ =>
        exact .inr (.inl ⟨h ⟨c, rx, hc, Nat.le_of_eq hu⟩, .inr (by simp [hp.flag, ha])⟩)
    | lost _ _ hu hgone =>
        have := hs.controlRx_of_looping (h ⟨c, rx, hc, Nat.le_of_eq hu⟩)
        simp [hgone] at this
    | answered st _ _ earlier he hl _ => exact .inl (by simp [he, hl])

/-- As long as the control channel exists, a call waits exactly if there is a
request. -/
theorem pending_iff (hs : Sound s) (hp : Paired s) (hrx : s.controlRx) :
    Pending s ↔ ¬ s.NoRequest := by
  constructor
  · rintro ⟨c, rx, hc, hle⟩ ⟨hneed, hnone⟩
    have hw : Waiting s c rx := hp.held c _ (hs.mutex.holder hc rfl) hc
    cases hw with
    | queued plays _ hctl _ _ _ _ => exact hnone (c, .streamState) (by simp [hctl]) rfl
    | taken ha _ _ _ => simp [hp.flag, ha] at hneed
    | lost _ _ _ hgone => simp [hrx] at hgone
    | answered st _ _ earlier he hl _ =>
        rw [he, List.length_append, List.length_singleton] at hle
        omega
  · intro h
    have hidle : ¬ Idle s := fun hidle =>
      h ⟨by simp [hp.flag, hidle.askers], fun m hm => by simp [hidle.plays m hm]⟩
    have hempty : s.askers = [] → s.control = [] → False := fun ha hctl =>
      h ⟨by simp [hp.flag, ha], by simp [hctl]⟩
    rcases hp.cases hs with ⟨-, hi⟩ | ⟨c, pc, -, hc, -, hphase⟩
    · exact absurd hi hidle
    · rcases hphase.cases with hi | ⟨rx, rfl, hw⟩ | ⟨st, -, ha, hctl⟩
      · exact absurd hi hidle
      · cases hw with
        | queued _ _ _ _ _ hu _ | taken _ _ hu _ | lost _ _ hu _ =>
            exact ⟨c, rx, hc, Nat.le_of_eq hu⟩
        | answered _ ha hctl _ _ _ _ => exact (hempty ha hctl).elim
      · exact (hempty ha hctl).elim

/-- While the worker has requests to answer, the channel is empty. -/
theorem Paired.control_of_askers (hs : Sound s) (hp : Paired s) (h : s.askers ≠ []) :
    s.control = [] := by
  rcases hp.cases hs with ⟨-, hi⟩ | ⟨c, pc, -, -, -, hphase⟩
  · exact absurd hi.askers h
  · rcases hphase.cases with hi | ⟨rx, -, hw⟩ | ⟨st, -, ha, -⟩
    · exact absurd hi.askers h
    · cases hw with
      | queued _ ha _ _ _ _ _ => exact absurd ha h
      | taken _ hctl _ _ | lost _ hctl _ _ | answered _ _ hctl _ _ _ _ => exact hctl
    · exact absurd ha h

/-! ## One step -/

theorem looping_of_step {e : Event V} {w : Worker V} (hrun : s.life = .running)
    (hw : s.worker.step e = some w) : s.looping := by
  have hpc : s.worker.pc ≠ .left := by
    intro hleft
    simp [Worker.step, hleft] at hw
  simp [looping, hrun, hpc]

/-- A step of the loop ends it exactly if its event leaves it. -/
theorem looping_iff {e : Event V} {w : Worker V} (hrun : s.life = .running)
    (hw : s.worker.step e = some w) (hlife : s'.life = s.life) (hworker : s'.worker = w) :
    s'.looping ↔ ¬ s.worker.leaves e := by
  rw [← Worker.step_left hw]
  simp [looping, hlife, hrun, hworker]

theorem Pending.congr (hcalls : s'.calls = s.calls) (hst : s'.streamStates = s.streamStates) :
    Pending s' ↔ Pending s := by
  unfold Pending
  rw [hcalls, hst]

/-- A call that moves on, but not to its `recv`, waits no more than before. -/
theorem Pending.of_set {next : CallPc} (hc : s.calls[c]? = some pc)
    (hcalls : s'.calls = s.calls.set c next) (hst : s'.streamStates = s.streamStates)
    (hnext : ∀ rx, next ≠ .recv rx) (h : Pending s') : Pending s := by
  obtain ⟨d, rx, hd, hle⟩ := h
  rw [hcalls, getElem?_set_of_some hc] at hd
  split at hd
  · exact absurd (Option.some.inj hd) (hnext rx)
  · exact ⟨d, rx, hd, hst ▸ hle⟩

/-- An event that moves no request: a waiting call needs the worker to stay. -/
theorem pending_looping_iff {e : Event V} {w : Worker V} (hs : Sound s) (hp : Paired s)
    (hrun : s.life = .running) (hw : s.worker.step e = some w) (hlife : s'.life = s.life)
    (hworker : s'.worker = w) (hcalls : s'.calls = s.calls)
    (hst : s'.streamStates = s.streamStates) :
    (Pending s' → s'.looping) ↔ (s.worker.leaves e → s.NoRequest) := by
  rw [Pending.congr hcalls hst, looping_iff hrun hw hlife hworker,
    pending_iff hs hp (hs.controlRx_of_looping (looping_of_step hrun hw))]
  tauto

theorem enter_ne_recv (request : Request) (rx : Nat) : enter request ≠ .recv rx := by
  match request with
  | .play none | .teardown => simp [enter]
  | .play (some range) => simp only [enter]; split <;> simp

/-- A call other than a request leaves the worker and its callers as they are. -/
theorem pending_called (hs : Sound s) (hp : Paired s) (hc : s.calls[c]? = some pc)
    (h : Called s s' c pc) (hok : Pending s → s.looping) :
    (Pending s' → s'.looping) ↔ ∀ rx, pc = .request rx → s.controlRx → s.looping := by
  have hmove : ∀ {next : CallPc}, s'.calls = s.calls.set c next → (∀ rx, next ≠ .recv rx) →
      s'.streamStates = s.streamStates → s'.looping = s.looping →
      (∀ rx, pc = .request rx → s.controlRx = false) →
      ((Pending s' → s'.looping) ↔ ∀ rx, pc = .request rx → s.controlRx → s.looping) := by
    intro next hcalls hnext hst hloop hpc
    refine ⟨fun _ rx h hrx => absurd hrx (by simp [hpc rx h]), fun _ hpend => ?_⟩
    rw [hloop]
    exact hok (hpend.of_set hc hcalls hst hnext)
  cases h with
  | @lock request _ h =>
      subst h
      exact hmove rfl (enter_ne_recv request) rfl rfl nofun
  | subscribe h | received _ h | lagged _ h | closed _ _ h | sendPlay _ h | stop _ h | wait _ h
  | ret h =>
      subst h
      exact hmove rfl nofun rfl rfl nofun
  | broken _ gone h =>
      subst h
      exact hmove rfl nofun rfl rfl fun _ _ => gone
  | takeHold h =>
      subst h
      refine hmove rfl (fun rx => ?_) rfl rfl nofun
      split <;> exact nofun
  | @request rx hrx h =>
      subst h
      have hlength : s.streamStates.length = rx := (hp.held c _ (hs.mutex.holder hc rfl) hc).2
      have hpend : Pending (((s.send c .streamState).note (.requested c)).setCall c (.recv rx)) :=
        ⟨c, rx, by simp [setCall, note, send, getElem?_set_of_some hc], Nat.le_of_eq hlength⟩
      exact ⟨fun h rx' _ _ => h hpend, fun h _ => h rx rfl hrx⟩

/-- One step keeps every waiting call answerable exactly if it heeds them. -/
theorem answerable_step {a : Action V} (hs : Sound s) (hp : Paired s) (hok : Answerable s)
    (h : s.step a = some s') : Answerable s' ↔ s.Heeds a := by
  have hs' := hs.step h
  have hp' := hp.step hs h
  rw [answerable_iff hs' hp']
  rw [answerable_iff hs hp] at hok
  have hkeep : (Pending s' → Pending s) → (s.looping → s'.looping) →
      ((Pending s' → s'.looping) ↔ True) := fun hpend hloop =>
    iff_of_true (fun h => hloop (hok (hpend h))) trivial
  cases effect_of_step h with
  | find _ heq =>
      subst heq
      refine hkeep (fun hpend => ?_) id
      obtain ⟨d, rx, hd, hle⟩ := hpend
      refine ⟨d, rx, ?_, hle⟩
      rcases List.getElem?_concat_eq_some hd with ⟨hd, -⟩ | ⟨-, heq⟩
      · exact hd
      · cases heq
  | disown _ heq | closeMedia _ heq | stopAll heq =>
      subst heq
      exact hkeep id id
  | call hc hcalled =>
      rw [pending_called hs hp hc hcalled hok]
      simp only [Heeds, hc, Option.some.injEq]
  | poll hspawned hlife heq =>
      subst heq
      refine hkeep id fun hloop => ?_
      rcases hlife with ⟨-, rfl⟩ | ⟨htarget, rfl⟩
      · simp only [looping, hspawned, Bool.and_eq_true] at hloop ⊢
        exact ⟨hloop.1, trivial⟩
      · simp [looping, hspawned, htarget] at hloop
  | reset hrun hpc heq =>
      subst heq
      exact pending_looping_iff hs hp hrun (Worker.step_reset.mpr ⟨hpc, rfl⟩) rfl rfl rfl rfl
  | packet hrun hpc heq =>
      subst heq
      exact pending_looping_iff hs hp hrun (Worker.step_packet.mpr ⟨hpc, rfl⟩) rfl rfl rfl rfl
  | waitForStop hrun hpc _ heq =>
      subst heq
      exact Iff.trans
        (pending_looping_iff hs hp hrun (Worker.step_stop.mpr ⟨hpc, rfl⟩) rfl rfl rfl rfl)
        (by simp [Worker.leaves, Heeds])
  | trySend hrun hpc _ heq =>
      subst heq
      exact pending_looping_iff hs hp hrun (Worker.step_trySend.mpr ⟨_, _, hpc, rfl⟩)
        rfl rfl rfl rfl
  | took hrun hpc _ heq =>
      subst heq
      have hw := (Worker.step_control (r := some .streamState)).mpr ⟨hpc, rfl⟩
      exact hkeep id fun _ => Iff.mpr (looping_iff hrun hw rfl rfl) (by simp [Worker.leaves])
  | tookPlay hrun hpc _ heq =>
      subst heq
      have hw := (Worker.step_control (r := some .play)).mpr ⟨hpc, rfl⟩
      exact hkeep id fun _ => Iff.mpr (looping_iff hrun hw rfl rfl) (by simp [Worker.leaves])
  | deserted _ _ hgone heq =>
      -- Nobody has the session, so nobody waits.
      subst heq
      refine iff_of_true (fun hpend => ?_) trivial
      obtain ⟨d, rx, hd, -⟩ := hpend
      have hhandle := Paired.handle_of_active (s := s) hd rfl
      simp [hgone] at hhandle
  | @reply st packet hrun hpc heq =>
      -- The request that is answered was the only one.
      subst heq
      have hrx : s.controlRx = true := hs.controlRx_of_looping
        (looping_of_step hrun (Worker.step_reply.mpr ⟨_, _, hpc, rfl⟩))
      have hctl := hp.control_of_askers hs (hp.reading st packet hpc).1
      refine iff_of_true (fun hpend => ?_) trivial
      exact absurd ⟨by simp, by simp [hctl]⟩ ((pending_iff hs' hp' hrx).mp hpend)
  | @exit e todo htodo heq =>
      subst heq
      have hout : s.looping = false := by
        unfold Session.todo at htodo
        unfold looping
        cases hlife : s.life with
        | running =>
            rw [hlife] at htodo
            dsimp only at htodo
            split at htodo
            next hleft => simp [hleft]
            next => cases htodo
        | exiting | refused => simp
        | spawned => simp [hlife] at htodo
      refine hkeep (fun hpend => ?_) fun hloop => by simp [hout] at hloop
      cases e <;> exact hpend

/-! ## Runs -/

/-- In a run of a session, every waiting call is answerable all the time exactly
if every step heeds them. -/
theorem answerable_run {s₀ : Session V} {as : List (Action V)} (h₀ : (system V).init s₀)
    (hrun : Transition.run step s₀ as = some s) :
    (∀ bs t, bs <+: as → Transition.run step s₀ bs = some t → Answerable t) ↔
      ∀ bs a t, bs ++ [a] <+: as → Transition.run step s₀ bs = some t → t.Heeds a := by
  refine Transition.System.run_forall_iff (S := system V) h₀ ?_ ?_ hrun
  · obtain ⟨target, muxer, accepted, stopAll, rfl⟩ := h₀
    simp [Answerable, setupAndStart]
  · exact fun _ _ _ hr hok hs =>
      answerable_step (sound_of_reachable hr) (paired_of_reachable hr) hok hs

/-- A call whose request the worker has taken as the source closes. -/
def lostPlay : List (Action .counting) :=
  [.poll, .find (.play none), .call 0, .call 0, .call 0, .takeControl, .reset (.error .closed)]

theorem answerable_run_lostPlay :
    (∀ bs t, bs <+: lostPlay →
      Transition.run step (setupAndStart .rtpTcp (0 : UInt16) true []) bs = some t → Answerable t) ↔
    ∀ bs a t, bs ++ [a] <+: lostPlay →
      Transition.run step (setupAndStart .rtpTcp (0 : UInt16) true []) bs = some t → t.Heeds a := by
  obtain ⟨s, hs⟩ : ∃ s, Transition.run step
      (setupAndStart (V := .counting) .rtpTcp (0 : UInt16) true []) lostPlay = some s := ⟨_, rfl⟩
  exact answerable_run ⟨_, _, _, _, rfl⟩ hs

/-- The worker takes the request and breaks out of its loop when the source
closes: the call waits, and still does when the worker has done its last step. -/
theorem not_answerable_lostPlay :
    ∃ s, (system .counting).Reachable s ∧ ¬ Answerable s ∧
      ∃ t, Transition.run step s [.exit, .exit, .exit, .exit] = some t ∧ t.todo = [] ∧
        t.calls = [.recv 0] ∧ t.step (.call 0) = none := by
  obtain ⟨s, hs, hcalls, hstates, hloop, hhandle, t, ht, htodo, htcalls, hblocked⟩ :
      ∃ s, Transition.run step (setupAndStart (V := .counting) .rtpTcp (0 : UInt16) true []) lostPlay =
          some s ∧
        s.calls = [.recv 0] ∧ s.streamStates = [] ∧ s.looping = false ∧ s.handle = true ∧
        ∃ t, Transition.run step s [.exit, .exit, .exit, .exit] = some t ∧ t.todo = [] ∧
          t.calls = [.recv 0] ∧ t.step (.call 0) = none :=
    ⟨_, rfl, rfl, rfl, rfl, rfl, _, rfl, rfl, rfl, rfl⟩
  refine ⟨s, ⟨_, lostPlay, ⟨_, _, _, _, rfl⟩, hs⟩, fun h => ?_, t, ht, htodo, htcalls, hblocked⟩
  rcases h 0 0 (by simp [hcalls]) with h | ⟨h, -⟩ | ⟨-, h⟩
  · simp [hstates] at h
  · simp [hloop] at h
  · simp [hhandle] at h

end Session
