-- SUMMARY: The workers of the other modules take the statements of their bodies in order.
import AtomRust.App.Program
import AtomRust.Net.Roster
import AtomRust.Source.Source

/-!
# Bodies and workers

`Kind.body` says of a future only where its loop, its notice and its context stand.
Here this is read off the workers of sessions, connections and sources: whatever such
a worker does, it is at most one statement further in its body afterwards.
-/

open Media (Video)
open Runtime (StopSource)
open Program (Kind Stmt)

namespace Program

/-- The next statement, if any, is behind the future. -/
def Goes (todo todo' : List Stmt) : Prop := todo' = todo ∨ ∃ stmt, todo = stmt :: todo'

theorem Goes.refl (todo : List Stmt) : Goes todo todo := .inl rfl

end Program

open Program (Goes)

/-! ## Sessions -/

namespace Session
variable {V : Video} {s s' : Session V} {a : Action V}

def body (s : Session V) : List Stmt :=
  (if s.looping then [.loop true true [.send]] else []) ++ s.owed.filterMap Program.exitStmt

theorem body_setupAndStart (target : SessionSetupTarget) (muxer : V.RtpMuxer)
    (stopAll : List Unit) :
    (setupAndStart target muxer true stopAll).body = Kind.body (.session target) := by
  cases target <;> rfl

theorem body_congr (hlife : s'.life = s.life) (htarget : s'.target = s.target)
    (hworker : s'.worker = s.worker) : s'.body = s.body := by
  have hlooping : s'.looping = s.looping := by
    unfold looping
    rw [hlife, htarget, hworker]
  rw [body, body, hlooping, owed_congr hlife htarget]

/-- A step of the loop stays in it or leaves it. -/
theorem body_loop (ha : a.looped) (hs : s.looping) (h : s.step a = some s') :
    Goes s.body s'.body := by
  have hloop := Loop.step ha h
  have howed : s'.owed = s.owed := owed_congr hloop.life hloop.target
  unfold body
  rw [howed, if_pos hs]
  cases hs' : s'.looping with
  | true => exact .inl (if_pos rfl ▸ rfl)
  | false => exact .inr ⟨_, rfl⟩

theorem body_step (hi : Sound s) (h : s.step a = some s') : Goes s.body s'.body := by
  cases effect_of_step h with
  | find _ heq | disown _ heq | stopAll heq | closeMedia _ heq =>
      subst heq
      exact .inl rfl
  | call _ hcalled =>
      have hcaller := hcalled.caller
      exact .inl (body_congr hcaller.life hcaller.target hcaller.worker)
  | poll hspawned hlife heq =>
      subst heq
      rcases hlife with ⟨htarget, rfl⟩ | ⟨htarget, rfl⟩
      · exact .inl (by simp [body, looping, owed, hspawned, htarget])
      · exact .inl (by simp [body, looping, owed, hspawned, htarget, SessionSetupTarget.exit])
  | @exit e todo htodo heq =>
      subst heq
      have howed : s.looping = false ∧ s.owed = e :: todo := by
        unfold Session.todo at htodo
        unfold looping owed
        cases hlife : s.life with
        | refused | spawned => simp [hlife] at htodo
        | exiting todo' => simpa [hlife] using htodo
        | running =>
            have hpc : s.worker.pc = .left := by
              by_contra hne
              simp [hlife, hne] at htodo
            simpa [hlife, hpc, hi.tcp hlife, SessionSetupTarget.exit] using htodo
      have hbody : s.body = (Program.exitStmt e).toList ++ todo.filterMap Program.exitStmt := by
        rw [body, howed.1, howed.2]
        cases h : Program.exitStmt e <;> simp [h]
      have hbody' : body { s.exitStep e with life := .exiting todo } =
          todo.filterMap Program.exitStmt := by
        simp [body, looping, owed]
      rw [hbody, hbody']
      cases Program.exitStmt e with
      | none => exact .inl rfl
      | some stmt => exact .inr ⟨stmt, rfl⟩
  | reset running hpc | packet running hpc | took running hpc | tookPlay running hpc
  | deserted running hpc | waitForStop running hpc | reply running hpc | trySend running hpc =>
      exact body_loop rfl (by simp [looping, running, hpc]) h

/-- A session owns its context as long as its body has the drop ahead. -/
theorem context_iff (hi : Sound s) : s.task.context = true ↔ .dropContext ∈ s.body := by
  rw [hi.context, body, List.mem_append, List.mem_filterMap]
  constructor
  · exact fun h => .inr ⟨_, h, rfl⟩
  · rintro (h | ⟨e, he, heq⟩)
    · split at h <;> simp at h
    · cases e <;> first | exact he | cases heq

end Session

/-! ## Connections -/

namespace Connection
variable {μ κ ρ : Type} {conn conn' : Connection μ κ ρ} {a : Action μ κ ρ}

/-- What a worker that stands at `pc` has left of its body. -/
def Pc.body : Pc μ κ ρ → List Stmt
  | .left _ => [.notify, .dropContext]
  | .ended _ => [.dropContext]
  | _ => Kind.body .connection

theorem body_of_not_over {pc : Pc μ κ ρ} (h : pc.departed = false) :
    pc.body = Kind.body .connection := by
  cases pc <;> first | rfl | cases h

/-- Behind its loop the worker only reports how it ended. -/
theorem step_of_left {disconnected : Bool} (hpc : conn.pc = .left disconnected)
    (h : conn.step a = some conn') : conn'.pc = conn.pc ∨ conn'.pc = .ended disconnected := by
  cases a with
  | enqueue message =>
      simp only [step, Option.ite_none_right_eq_some, Option.some.injEq] at h
      exact .inl (h.2 ▸ rfl)
  | exit =>
      simp only [step, exit, hpc, Option.some.injEq] at h
      exact .inr (h ▸ rfl)
  | recv | feed | tryRecv | flush | next | respond | send | flushResponse | waitForStop =>
      simp [step, recv, feed, tryRecv, flush, next, respond, send, flushResponse, waitForStop,
        hpc] at h

theorem body_step (h : conn.step a = some conn') : Goes conn.pc.body conn'.pc.body := by
  have hstays : conn.pc.departed = false → conn'.pc.departed = false →
      Goes conn.pc.body conn'.pc.body :=
    fun h h' => .inl (by rw [body_of_not_over h, body_of_not_over h'])
  cases effect_of_step h with
  | enqueued heq =>
      subst heq
      exact .refl _
  | taken pc _ heq =>
      subst heq
      exact hstays (by rcases pc with pc | pc <;> rw [pc] <;> rfl) rfl
  | fed pc hnext heq =>
      subst heq
      exact hstays (by rw [pc]; rfl) (by rcases hnext with rfl | ⟨_, rfl⟩ <;> rfl)
  | flushed pc heq =>
      subst heq
      exact hstays (by rcases pc with pc | pc <;> rw [pc] <;> rfl) rfl
  | drained pc heq | requested pc heq | responded pc heq | sent pc heq =>
      subst heq
      exact hstays (by rw [pc]; rfl) rfl
  | ignored _ heq =>
      subst heq
      exact .refl _
  | @broken _ disconnected _ heq =>
      cases hover : conn.pc.departed with
      | false =>
          subst heq
          exact .inr ⟨.loop true true [.send, .write], body_of_not_over hover⟩
      | true =>
          cases hpc : conn.pc with
          | left d =>
              rcases step_of_left hpc h with hsame | hended
              · rw [hsame, hpc]
                exact .refl _
              · exact .inr ⟨.notify, by rw [hended]; rfl⟩
          | ended d => simp [step_of_ended hpc] at h
          | _ => simp [hpc, Pc.departed] at hover
  | ended pc heq =>
      subst heq
      exact .inr ⟨.notify, by rw [pc]; rfl⟩

end Connection

/-! ## Sources -/

namespace Source
variable {σ : Type} {s s' : Source σ} {stopAll : List Unit} {a : Action}

/-- What a worker that stands at `pc` has left of its body. -/
def WorkerPc.body : WorkerPc → List Stmt
  | .spawned | .select => Kind.body .source
  | .left => [.notify, .dropContext]
  | .ended => [.dropContext]
  | .refused | .finished => []

theorem body_step (h : s.step stopAll a = some s') : Goes s.workerPc.body s'.workerPc.body := by
  cases a with
  | poll =>
      simp only [step, poll, Option.ite_none_right_eq_some, Option.some.injEq] at h
      obtain ⟨hpc, rfl⟩ := h
      exact .inl (by rw [hpc]; rfl)
  | takeControl =>
      simp only [step, takeControl] at h
      split at h
      next hpc _ =>
        cases h
        exact .refl _
      next hpc _ =>
        split at h <;> cases h
        exact .inr ⟨.loop true true [.send], by rw [hpc]; rfl⟩
      next => cases h
  | waitForStop src =>
      simp only [step, waitForStop, Option.ite_none_right_eq_some] at h
      obtain ⟨hpc, h⟩ := h
      obtain ⟨worker, -, rfl⟩ := Option.map_eq_some_iff.mp h
      exact .inr ⟨.loop true true [.send], by rw [hpc]; rfl⟩
  | exit =>
      simp only [step, exit, Option.ite_none_right_eq_some, Option.some.injEq] at h
      obtain ⟨hpc, rfl⟩ := h
      exact .inr ⟨.notify, by rw [hpc]; rfl⟩
  | finish =>
      simp only [step, finish, Option.ite_none_right_eq_some, Option.some.injEq] at h
      obtain ⟨hpc, rfl⟩ := h
      exact .inr ⟨.dropContext, by rw [hpc]; rfl⟩
  | delegate c | query c | recv c | drop c =>
      obtain ⟨d, -, h⟩ := Option.bind_eq_some_iff.mp h
      refine .inl (congrArg WorkerPc.body ?_)
      simp only [delegate, query, recv, drop] at h
      grind [setDelegate]

end Source
