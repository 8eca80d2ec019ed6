-- SUMMARY: How a session's worker comes to its end: how far it still has to go, when nothing can hold it, and when it can go if it has to.
import AtomRust.Session.Lifetime

/-!
# Departures

`distance` bounds the steps that a worker still needs to send `Stopped` if it
stays at its `select!` no longer. A worker that is `Leaving` takes those steps
and no others, whatever the rest of the system does; one whose `Session` is gone
may take them.
-/

open Media (RtpBuf StreamState Video)
open Runtime (StopSource TaskState)

namespace Session
variable {V : Video} {s s' : Session V} {c : Nat} {pc : CallPc} {a : Action V}

def Pc.distance : Pc → Nat
  | .reply .. => 7
  | .send .. => 6
  | .select => 5
  | .left => 4

theorem Pc.distance_lt {pc : Pc} (h : ∀ st packet, pc ≠ .reply st packet) : pc.distance < 7 := by
  cases pc with
  | reply st packet => exact absurd rfl (h st packet)
  | send | select | left => simp [distance]

/-- The steps from here to the end of `Session::run`. -/
def distance (s : Session V) : Nat :=
  match s.life with
  | .refused => 0
  | .spawned => 8
  | .running => s.worker.pc.distance
  | .exiting todo => todo.length

/-- The worker will not come back to its `select!`. -/
def Leaving (s : Session V) : Prop :=
  match s.life with
  | .refused | .spawned => False
  | .running =>
      match s.worker.pc with
      | .select => False
      | .reply _ none | .left => True
      | .reply _ (some bufs) => s.worker.state = .playing ∧ bufs ≠ [] ∧ s.mediaRx = false
      | .send .. => s.mediaRx = false
  | .exiting _ => True

/-! ## What steps leave alone -/

section Frame

/-- `Stopped` is not unsent. -/
theorem stopped_step (h : s.step a = some s') (hstopped : s.stopped) : s'.stopped := by
  cases ha : a.ofWorker with
  | true => exact (Own.step ha h).stopped hstopped
  | false => exact (Foreign.step ha h).stopped.trans hstopped

/-- A worker that was not started does not start. -/
theorem refused_step (h : s.step a = some s') (hlife : s.life = .refused) : s'.life = .refused := by
  cases effect_of_step h with
  | find | disown | call | stopAll | closeMedia => exact (Foreign.step rfl h).life.trans hlife
  | poll hspawned _ _ => simp [hlife] at hspawned
  | exit htodo _ => simp [Session.todo, hlife] at htodo
  | reset | packet | took | tookPlay | deserted | waitForStop | reply | trySend =>
      exact (Loop.step rfl h).life.trans hlife

/-- A worker that was started stays so. -/
theorem started_step (h : s.step a = some s') (hlife : s.life ≠ .refused) : s'.life ≠ .refused := by
  cases effect_of_step h with
  | find | disown | call | stopAll | closeMedia => exact (Foreign.step rfl h).life ▸ hlife
  | poll _ hpoll heq =>
      subst heq
      rcases hpoll with ⟨-, rfl⟩ | ⟨-, rfl⟩ <;> exact nofun
  | exit _ heq =>
      subst heq
      exact nofun
  | reset | packet | took | tookPlay | deserted | waitForStop | reply | trySend =>
      exact (Loop.step rfl h).life ▸ hlife

theorem refused_run {as : List (Action V)} (h : Transition.run Session.step s as = some s')
    (hlife : s.life = .refused) : s'.life = .refused :=
  Transition.run_invariant (I := fun t => t.life = .refused)
    (fun _ _ _ ht hs => refused_step hs ht) h hlife

theorem stopped_run {as : List (Action V)} (h : Transition.run Session.step s as = some s')
    (hstopped : s.stopped) : s'.stopped :=
  Transition.run_invariant (I := fun t => t.stopped = true)
    (fun _ _ _ ht hs => stopped_step hs ht) h hstopped

end Frame

/-- Behind its loop, a worker that has not sent `Stopped` has that left to do. -/
theorem exists_todo (hs : Sound s) {todo : List ExitStep} (hlife : s.life = .exiting todo)
    (hstopped : s.stopped = false) : ∃ e todo', todo = e :: todo' := by
  apply List.exists_cons_of_ne_nil
  rintro rfl
  have := (hs.stopped (by simp [hlife])).mpr (by simp [owed, hlife])
  simp [this] at hstopped

/-! ## Workers that leave -/

namespace Leaving

theorem pc_ne_select (hi : Leaving s) (hlife : s.life = .running) : s.worker.pc ≠ .select := by
  intro hpc
  simp [Leaving, hlife, hpc] at hi

/-- The worker turns to the messages of a frame, and finds the queue closed at
the first of them. -/
theorem of_afterMux {w : Worker V} {bufs : Option (List RtpBuf)} (hlife : s.life = .running)
    (hworker : s.worker = w.afterMux bufs)
    (hbufs : ∀ messages, bufs = some messages →
      w.state = .playing ∧ messages ≠ [] ∧ s.mediaRx = false) :
    Leaving s ∧ s.distance < 7 := by
  cases bufs with
  | none => simp [Leaving, distance, hlife, hworker, Worker.afterMux, Pc.distance]
  | some messages =>
      obtain ⟨hplay, hne, hrx⟩ := hbufs messages rfl
      obtain ⟨message, rest, rfl⟩ := List.exists_cons_of_ne_nil hne
      simp [Leaving, distance, hlife, hworker, hrx, Worker.afterMux, hplay, Worker.sendNext,
        Pc.distance]

theorem distance_of_todo {e : ExitStep} {todo : List ExitStep} (htodo : s.todo = e :: todo) :
    s.distance = todo.length + 1 := by
  unfold Session.todo at htodo
  cases hlife : s.life with
  | running =>
      rw [hlife] at htodo
      dsimp only at htodo
      split at htodo
      next hpc =>
        simpa [distance, hlife, hpc, Pc.distance, tcpExit] using congrArg List.length htodo
      next => cases htodo
  | exiting todo' =>
      rw [hlife] at htodo
      simpa [distance, hlife] using congrArg List.length htodo
  | refused | spawned => simp [hlife] at htodo

theorem foreign (hi : Leaving s) (h : Foreign s s') : Leaving s' ∧ s'.distance = s.distance := by
  constructor
  · unfold Leaving at hi ⊢
    rw [h.life, h.worker]
    split at hi <;> try exact hi
    split at hi <;> try exact hi
    · exact ⟨hi.1, hi.2.1, h.mediaRx hi.2.2⟩
    · exact h.mediaRx hi
  · unfold distance
    rw [h.life, h.worker]

/-- Every step of the worker leads it on, and no other holds it up. -/
theorem step (hi : Leaving s) (h : s.step a = some s') :
    Leaving s' ∧ s'.distance + a.ofWorker.toNat ≤ s.distance := by
  cases effect_of_step h with
  | find | disown | call | stopAll | closeMedia =>
      exact (hi.foreign (.step rfl h)).imp id Nat.le_of_eq
  | poll hspawned _ _ => simp [Leaving, hspawned] at hi
  | reset hlife hpc _ | packet hlife hpc _ | took hlife hpc _ _ | tookPlay hlife hpc _ _
  | deserted hlife hpc _ _ | waitForStop hlife hpc _ _ => exact absurd hpc (hi.pc_ne_select hlife)
  | @reply st bufs hlife hpc heq =>
      subst heq
      have hdistance : s.distance = 7 := by simp [distance, hlife, hpc, Pc.distance]
      rw [hdistance]
      refine of_afterMux hlife rfl fun messages hm => ?_
      subst hm
      simpa [Leaving, hlife, hpc] using hi
  | @trySend r message rest hlife hpc hrx heq =>
      subst heq
      have hclosed : s.mediaRx = false := by simpa [Leaving, hlife, hpc] using hi
      obtain rfl : r = .closed := hrx.mpr hclosed
      simp [Leaving, distance, hlife, hpc, Worker.onTrySend, Pc.distance, Action.ofWorker]
  | exit htodo heq =>
      subst heq
      exact ⟨trivial, Nat.le_of_eq (distance_of_todo htodo).symm⟩

theorem run {as : List (Action V)} (hi : Leaving s)
    (h : Transition.run Session.step s as = some s') :
    Leaving s' ∧ s'.distance + as.countP Action.ofWorker ≤ s.distance := by
  induction as generalizing s with
  | nil =>
      obtain rfl : s = s' := Option.some.inj h
      exact ⟨hi, Nat.le_refl _⟩
  | cons a as ih =>
      obtain ⟨t, ha, ht⟩ := Transition.run_cons_eq_some.mp h
      obtain ⟨hleave, hstep⟩ := hi.step ha
      obtain ⟨hleave', hrun⟩ := ih hleave ht
      refine ⟨hleave', ?_⟩
      rw [List.countP_cons]
      cases ha : a.ofWorker <;> simp [ha] at hstep ⊢ <;> omega

/-- Until `Stopped` is sent, the next step can be taken. -/
theorem enabled (hs : Sound s) (hi : Leaving s) (hstopped : s.stopped = false) :
    ∃ a : Action V, a.ofWorker ∧ (s.step a).isSome := by
  cases hlife : s.life with
  | refused | spawned => simp [Leaving, hlife] at hi
  | running =>
      match hpc : s.worker.pc with
      | .select => exact absurd hpc (hi.pc_ne_select hlife)
      | .left => exact ⟨.exit, rfl, by simp [Session.step, Session.exit, todo, hlife, hpc, tcpExit]⟩
      | .reply st bufs =>
          exact ⟨.reply, rfl, by simp [Session.step, Session.reply, event, hlife, hpc, Worker.step]⟩
      | .send message rest =>
          have hrx : s.mediaRx = false := by simpa [Leaving, hlife, hpc] using hi
          exact ⟨.trySend .closed, rfl,
            by simp [Session.step, Session.trySend, event, hlife, hpc, hrx, Worker.step]⟩
  | exiting todo =>
      obtain ⟨e, todo, rfl⟩ := exists_todo hs hlife hstopped
      exact ⟨.exit, rfl, by simp [Session.step, Session.exit, Session.todo, hlife]⟩

end Leaving

/-! ## Workers that have to leave -/

/-- The steps that the worker takes without a packet, a message or a signal to all. -/
def Action.unaided : Action V → Bool
  | .poll | .waitForStop .stop | .reply | .trySend _ | .exit => true
  | _ => false

theorem Action.ofWorker_of_unaided (ha : a.unaided) : a.ofWorker := by
  cases a <;> first | rfl | cases ha

/-- A worker whose `wait_for_stop` is ready can take a step towards its end. -/
theorem exists_step (howed : s.owed ≠ [])
    (hready : s.life = .running → s.worker.pc = .select →
      (s.task.waitForStop s.handle s.stopAll .stop).isSome) :
    ∃ (a : Action V) (s' : Session V), a.unaided ∧ s.step a = some s' ∧
      s'.distance < s.distance := by
  cases hl : s.life with
  | refused => simp [owed, hl] at howed
  | spawned =>
      cases htarget : s.target with
      | rtpTcp =>
          refine ⟨.poll, { s with life := .running }, rfl, ?_, ?_⟩
          · exact poll_eq_some.mpr ⟨hl, .inl ⟨htarget, rfl⟩⟩
          · cases hpc : s.worker.pc <;> simp [distance, hl, hpc, Pc.distance]
      | rtpUdp =>
          refine ⟨.poll, { s with life := .exiting udpExit }, rfl, ?_, ?_⟩
          · exact poll_eq_some.mpr ⟨hl, .inr ⟨htarget, rfl⟩⟩
          · simp [distance, hl, udpExit]
  | running =>
      cases hpc : s.worker.pc with
      | select =>
          obtain ⟨task, htask⟩ := Option.isSome_iff_exists.mp (hready hl hpc)
          refine ⟨.waitForStop .stop, { s with task, worker := s.worker.leave }, rfl, ?_, ?_⟩
          · simp [Session.step, waitForStop, htask, event, hl, Worker.step, hpc]
          · simp [distance, hl, hpc, Pc.distance]
      | left =>
          have hexit := (exit_eq_some (s := s)).mpr
            ⟨.dropContext, tcpExit.tail, by simp [todo, hl, hpc, tcpExit], rfl⟩
          refine ⟨.exit, _, rfl, hexit, ?_⟩
          simp [distance, hl, hpc, tcpExit, Pc.distance]
      | reply st bufs =>
          have hreply : ∃ s', s.reply = some s' ∧ s'.life = .running ∧
              s'.worker.pc = ({ s.worker with needStreamState := false }.afterMux bufs).pc := by
            simp [Session.reply, event, hl, hpc, Worker.step, note]
          obtain ⟨s', h, hl', hpc'⟩ := hreply
          refine ⟨.reply, s', rfl, h, ?_⟩
          have hlt := Pc.distance_lt
            (Worker.afterMux_pc { s.worker with needStreamState := false } bufs)
          rw [← hpc'] at hlt
          simpa [distance, hl, hl', hpc, Pc.distance] using hlt
      | send message rest =>
          -- The queue is full, or closed if its receiver is gone.
          have hsend : ∃ r s', s.trySend r = some s' ∧ s'.life = .running ∧
              (s'.worker.pc = .select ∨ s'.worker.pc = .left) := by
            refine ⟨if s.mediaRx then .full else .closed, ?_⟩
            cases hrx : s.mediaRx <;>
              simp [Session.trySend, event, hl, hpc, hrx, Worker.step, Worker.onTrySend]
          obtain ⟨r, s', h, hl', hpc'⟩ := hsend
          refine ⟨.trySend r, s', rfl, h, ?_⟩
          rcases hpc' with hpc' | hpc' <;> simp [distance, hl, hl', hpc, hpc', Pc.distance]
  | exiting todo =>
      obtain ⟨e, todo, rfl⟩ : ∃ e todo', todo = e :: todo' :=
        List.exists_cons_of_ne_nil (by simpa [owed, hl] using howed)
      refine ⟨.exit, _, rfl, exit_eq_some.mpr ⟨e, todo, ?_, rfl⟩, ?_⟩
      · simp [Session.todo, hl]
      · simp [distance, hl]

/-- A worker that was started, and that nobody has a handle of any more, can go all the way
by itself. -/
theorem exists_departure (hs : Sound s) (hhandle : s.handle = false) (hlife : s.life ≠ .refused)
    (hstopped : s.stopped = false) :
    ∃ (as : List (Action V)) (s' : Session V), (∀ a ∈ as, a.ofWorker) ∧
      Transition.run Session.step s as = some s' ∧ s'.stopped := by
  generalize hn : s.distance = n
  induction n using Nat.strongRecOn generalizing s with
  | ind n ih =>
      have howed : .sendStopped ∈ s.owed := by
        by_contra hnot
        simp [(hs.stopped hlife).mpr hnot] at hstopped
      obtain ⟨a, t, ha, ht, hlt⟩ := exists_step (List.ne_nil_of_mem howed) fun _ _ => by
        rw [hhandle]
        exact TaskState.waitForStop_of_dropped s.task s.stopAll
      have hworker := Action.ofWorker_of_unaided ha
      have hown := Own.step hworker ht
      cases hstopped' : t.stopped with
      | true =>
          exact ⟨[a], t, by simpa using hworker, (Transition.run_singleton s a).trans ht, hstopped'⟩
      | false =>
          have hhandle' : t.handle = false := by
            simpa [handle, hown.owner, hown.calls] using hhandle
          have hlife' : t.life ≠ .refused := started_step ht hlife
          obtain ⟨as, s', has, hrun, hs'⟩ :=
            ih t.distance (hn ▸ hlt) (hs.step ht) hhandle' hlife' hstopped' rfl
          refine ⟨a :: as, s', ?_, Transition.run_cons_eq_some.mpr ⟨t, ht, hrun⟩, hs'⟩
          simpa [hworker] using has

end Session
