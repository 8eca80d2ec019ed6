-- SUMMARY: Where the connections of a manager are, at any time; when `stop` returns, every connection worker has left its loop.
import AtomRust.Base.Slots
import AtomRust.Net.ConnectionManager
import AtomRust.Net.Merge

/-!
# The roster

`Roster` is the invariant of the connection manager. Its core is `accounted`: a
connection whose worker has not left its loop is in the hands of `spawn`, in the
map, or about to be closed by `stop`. It rests on the ids being unique, on the
notice being sent behind the loop, and on `Task::stop` waiting for the context.
-/

open Connection (Incoming)
open Runtime (StopSource TaskState)

/-! ## Connections that have left their loop -/

namespace Connection
variable {μ κ ρ : Type} {conn conn' : Connection μ κ ρ} {a : Action μ κ ρ}

/-- Behind its loop a connection handles nothing and writes nothing. -/
theorem over_step (h : conn.step a = some conn') (hover : conn.pc.departed) :
    conn'.pc.departed ∧ conn'.wire = conn.wire := by
  cases effect_of_step h with
  | enqueued heq => exact heq ▸ ⟨hover, rfl⟩
  | taken pc | flushed pc => rcases pc with pc | pc <;> simp [pc, Pc.departed] at hover
  | fed pc | drained pc | requested pc | ignored pc | responded pc | sent pc =>
      simp [pc, Pc.departed] at hover
  | broken _ heq | ended _ heq => exact heq ▸ ⟨rfl, rfl⟩

/-- Once it has ended it does nothing at all. -/
theorem step_of_ended {disconnected : Bool} (hpc : conn.pc = .ended disconnected) :
    conn.step a = none := by
  cases a <;> simp [step, trySend, receives, recv, feed, tryRecv, flush, next, respond, send,
    flushResponse, waitForStop, exit, hpc]

/-- Only the notice ends it. -/
theorem eq_exit_of_ended {disconnected : Bool} (h : conn.step a = some conn')
    (hpc : conn'.pc = .ended disconnected) : a = .exit := by
  cases effect_of_step h with
  | enqueued heq =>
      have hpc' : conn.pc = .ended disconnected := by rw [← hpc, heq]; rfl
      simp [step_of_ended hpc'] at h
  | fed _ hnext heq =>
      rcases hnext with rfl | ⟨n, rfl⟩ <;> simp [heq] at hpc
  | ignored pc heq => simp [heq, pc] at hpc
  | taken _ _ heq | drained _ heq | flushed _ heq | requested _ heq | responded _ heq
  | sent _ heq | broken _ heq => simp [heq] at hpc
  | ended => rfl

end Connection

namespace ConnectionManager
variable {μ κ ρ : Type} {m m' : ConnectionManager μ κ ρ} {a : Action μ κ ρ} {id : ConnectionId}
  {i j : Nat} {u v : SpawnCall μ κ ρ}

namespace SpawnCall

/-- The connection has sent its notice. -/
def sent (u : SpawnCall μ κ ρ) : Bool :=
  match u.conn.pc with
  | .ended _ => true
  | _ => false

/-- The worker has left its serving loop, or was never started. -/
def Gone (u : SpawnCall μ κ ρ) : Prop := u.life = .refused ∨ u.conn.pc.departed

/-- How the parts of a connection's task fit together. -/
structure Sound (u : SpawnCall μ κ ρ) : Prop where
  context : u.task.context → u.life = .spawned ∨ u.life = .running
  alive : u.life = .spawned ∨ u.life = .running → u.task.context
  fresh : u.life ≠ .running → u.life ≠ .finished → u.conn = .start
  finished : u.life = .finished → u.sent
  runs : ∃ as, Transition.run Connection.step .start as = some u.conn

/-- What any step leaves of a connection. -/
structure Evolves (u v : SpawnCall μ κ ρ) : Prop where
  same : v.id = u.id
  refused : v.life = .refused → u.life = .refused
  sound : u.Sound → v.Sound
  sent : u.sent → v.sent
  gone : u.Gone → v.Gone ∧ v.conn.wire = u.conn.wire

theorem Evolves.refl (u : SpawnCall μ κ ρ) : u.Evolves u :=
  ⟨rfl, fun h => h, fun h => h, fun h => h, fun h => ⟨h, rfl⟩⟩

/-- A change of the handle or of the stop channel. -/
theorem Evolves.task (u : SpawnCall μ κ ρ) (task : TaskState) (handle : Bool)
    (hcontext : task.context = u.task.context) : u.Evolves { u with task, handle } :=
  ⟨rfl, fun h => h,
    fun h => ⟨hcontext ▸ h.context, hcontext ▸ h.alive, h.fresh, h.finished, h.runs⟩,
    fun h => h, fun h => ⟨h, rfl⟩⟩

/-- A step of the connection itself. -/
theorem Evolves.conn {a : Connection.Action μ κ ρ} {conn : Connection μ κ ρ} {task : TaskState}
    (hlife : u.life = .running) (hcontext : task.context = u.task.context)
    (h : u.conn.step a = some conn) : u.Evolves { u with conn, task } where
  same := rfl
  refused h := h
  sound hs := by
    obtain ⟨as, has⟩ := hs.runs
    refine ⟨hcontext ▸ hs.context, hcontext ▸ hs.alive, fun hnot => absurd hlife hnot,
      fun hfin => by simp [hlife] at hfin, as ++ [a], ?_⟩
    exact Transition.run_concat_eq_some.mpr ⟨u.conn, has, h⟩
  sent hsent := by
    unfold SpawnCall.sent at hsent
    split at hsent
    next hpc => simp [Connection.step_of_ended hpc] at h
    next => cases hsent
  gone hgone := by
    have hover : u.conn.pc.departed := hgone.resolve_left (by simp [hlife])
    obtain ⟨hover', hwire⟩ := Connection.over_step h hover
    exact ⟨.inr hover', hwire⟩

theorem Evolves.poll (hlife : u.life = .spawned) : u.Evolves { u with life := .running } where
  same := rfl
  refused := nofun
  sound hs :=
    ⟨fun _ => .inr rfl, fun _ => hs.alive (.inl hlife), fun hnot => absurd rfl hnot, nofun,
      hs.runs⟩
  sent h := h
  gone hgone := ⟨.inr (hgone.resolve_left (by simp [hlife])), rfl⟩

theorem Evolves.finish {disconnected : Bool} (hpc : u.conn.pc = .ended disconnected) :
    u.Evolves { u with task := u.task.dropContext, life := .finished } where
  same := rfl
  refused := nofun
  sound hs := ⟨nofun, by simp, by simp, fun _ => by simp [SpawnCall.sent, hpc], hs.runs⟩
  sent h := h
  gone _ := ⟨.inr (by simp [hpc, Connection.Pc.departed]), rfl⟩

/-- A worker whose context is gone has left its loop. -/
theorem Sound.gone (h : u.Sound) (hreleased : u.task.released) : u.Gone := by
  have hcontext : u.task.context = false := by simpa [TaskState.released] using hreleased
  cases hlife : u.life with
  | refused => exact .inl hlife
  | spawned => simp [h.alive (.inl hlife)] at hcontext
  | running => simp [h.alive (.inr hlife)] at hcontext
  | finished =>
      have hsent := h.finished hlife
      unfold SpawnCall.sent at hsent
      split at hsent
      next hpc => exact .inr (by rw [hpc]; rfl)
      next => cases hsent

/-- Only the notice makes a connection count as sent. -/
theorem not_sent_of_step {a : Connection.Action μ κ ρ} {conn : Connection μ κ ρ}
    (task : TaskState) (h : u.conn.step a = some conn) (ha : a ≠ .exit) :
    SpawnCall.sent { u with conn, task } = false := by
  unfold sent
  split
  next hpc => exact absurd (Connection.eq_exit_of_ended h hpc) ha
  next => rfl

theorem gone_of_sent (h : u.sent) : u.Gone := by
  unfold sent at h
  split at h
  next hpc => exact .inr (by rw [hpc]; rfl)
  next => cases h

end SpawnCall

/-! ## Steps -/

theorem getElem?_setSpawn (hu : m.spawns[i]? = some u) (v : SpawnCall μ κ ρ) (j : Nat) :
    (m.setSpawn i v).spawns[j]? = if j = i then some v else m.spawns[j]? :=
  List.getElem?_set_of_some hu j

theorem eq_of_spawn (h : m.spawn = some m') :
    m' = { m with
      generator := ⟨m.generator.next + 1⟩
      spawns := m.spawns ++ [m.started ⟨m.generator.next⟩]
      spawning := some m.spawns.length } := by
  obtain ⟨⟨id, generator⟩, hgenerate, rfl⟩ := Option.map_eq_some_iff.mp h
  obtain ⟨-, hgenerate⟩ := Option.ite_none_right_eq_some.mp hgenerate
  cases hgenerate
  rfl

section Started
variable (m : ConnectionManager μ κ ρ) (id : ConnectionId)

theorem sound_started : (m.started id).Sound := by
  have hruns : ∃ as, Transition.run Connection.step (.start : Connection μ κ ρ) as = some .start :=
    ⟨[], rfl⟩
  unfold started
  cases m.accepting
  · constructor <;> simp [TaskState.none, hruns]
  · constructor <;> simp [TaskState.new, hruns]

theorem gone_started (h : (m.started id).task.hold = false) : (m.started id).Gone := by
  unfold started at h ⊢
  cases haccepting : m.accepting with
  | true => simp [haccepting, TaskState.new] at h
  | false => exact .inl rfl

@[simp] theorem sent_started : (m.started id).sent = false :=
  rfl

theorem life_started (h : m.accepting) : (m.started id).life ≠ .refused := by
  simp [started, h]

end Started

/-- Dropping a `Connection` changes nothing, or a handle. -/
theorem dropConnection_eq (m : ConnectionManager μ κ ρ) (k : Option Nat) :
    m.dropConnection k = m ∨ ∃ i u, m.spawns[i]? = some u ∧
      m.dropConnection k = m.setSpawn i { u with handle := false } := by
  unfold dropConnection
  split
  next i u h => exact .inr ⟨i, u, h, rfl⟩
  next => exact .inl rfl

section Frame
variable (m : ConnectionManager μ κ ρ) (k : Option Nat)

@[simp] theorem dropConnection_connections :
    (m.dropConnection k).connections = m.connections := by
  unfold dropConnection; split <;> rfl

@[simp] theorem dropConnection_spawning : (m.dropConnection k).spawning = m.spawning := by
  unfold dropConnection; split <;> rfl

@[simp] theorem dropConnection_stopPc : (m.dropConnection k).stopPc = m.stopPc := by
  unfold dropConnection; split <;> rfl

@[simp] theorem dropConnection_workerPc : (m.dropConnection k).workerPc = m.workerPc := by
  unfold dropConnection; split <;> rfl

@[simp] theorem dropConnection_notices : (m.dropConnection k).notices = m.notices := by
  unfold dropConnection; split <;> rfl

@[simp] theorem dropConnection_log : (m.dropConnection k).log = m.log := by
  unfold dropConnection; split <;> rfl

end Frame

/-- The connections after a step: none is lost, and each has evolved. -/
def Follows (m m' : ConnectionManager μ κ ρ) : Prop :=
  ∀ (i : Nat) (u : SpawnCall μ κ ρ), m.spawns[i]? = some u →
    ∃ v, m'.spawns[i]? = some v ∧ u.Evolves v

theorem Follows.of_eq (h : m'.spawns = m.spawns) : Follows m m' :=
  fun _ u hu => ⟨u, h ▸ hu, .refl u⟩

theorem Follows.of_set (hu : m.spawns[i]? = some u) (hv : u.Evolves v)
    (h : m'.spawns = (m.setSpawn i v).spawns) : Follows m m' := by
  intro j w hw
  rw [h, getElem?_setSpawn hu]
  split
  next hj =>
    subst hj
    obtain rfl : u = w := Option.some.inj (hu.symm.trans hw)
    exact ⟨v, rfl, hv⟩
  next => exact ⟨w, hw, .refl w⟩

theorem Follows.of_drop {k : Option Nat} (h : m'.spawns = (m.dropConnection k).spawns) :
    Follows m m' := by
  rcases dropConnection_eq m k with heq | ⟨i, u, hu, heq⟩
  · exact .of_eq (h.trans (congrArg _ heq))
  · exact .of_set hu (.task u u.task false rfl) (h.trans (congrArg _ heq))

/-- The steps of the connection workers. -/
def Action.ofWorker : Action μ κ ρ → Bool
  | .poll _ | .conn .. | .connStop .. | .connExit _ | .finish _ => true
  | _ => false

/-- A step of a connection worker changes its connection, and may send its notice. -/
structure Worked (m m' : ConnectionManager μ κ ρ) (i : Nat) (u v : SpawnCall μ κ ρ)
    (new : List (ConnectionId × Bool)) : Prop where
  before : m.spawns[i]? = some u
  evolves : u.Evolves v
  hold : v.task.hold = u.task.hold
  notice : new.map Prod.fst = if v.sent && !u.sent then [u.id] else []
  after : m' = { m.setSpawn i v with notices := m.notices ++ new }

theorem worked_of_step (ha : a.ofWorker) (h : m.step a = some m') :
    ∃ i u v new, Worked m m' i u v new := by
  cases a with
  | poll i =>
      obtain ⟨u, hu, h⟩ := Option.bind_eq_some_iff.mp h
      simp only [poll, Option.ite_none_right_eq_some, Option.some.injEq] at h
      obtain ⟨hlife, rfl⟩ := h
      exact ⟨i, u, _, [], hu, .poll hlife, rfl, by simp [SpawnCall.sent], by simp [setSpawn]⟩
  | conn i b =>
      obtain ⟨u, hu, h⟩ := Option.bind_eq_some_iff.mp h
      simp only [connStep, Option.ite_none_right_eq_some] at h
      obtain ⟨⟨hlife, hb⟩, h⟩ := h
      obtain ⟨conn, hconn, rfl⟩ := Option.map_eq_some_iff.mp h
      have hnot := SpawnCall.not_sent_of_step u.task hconn (by rintro rfl; cases hb)
      exact ⟨i, u, _, [], hu, .conn hlife rfl hconn, rfl, by simp [hnot], by simp [setSpawn]⟩
  | connStop i src =>
      obtain ⟨u, hu, h⟩ := Option.bind_eq_some_iff.mp h
      simp only [connStop, Option.ite_none_right_eq_some] at h
      obtain ⟨hlife, h⟩ := h
      obtain ⟨task, htask, h⟩ := Option.bind_eq_some_iff.mp h
      obtain ⟨conn, hconn, rfl⟩ := Option.map_eq_some_iff.mp h
      obtain ⟨hcontext, hhold, -⟩ := TaskState.waitForStop_frame htask
      have hnot := SpawnCall.not_sent_of_step task hconn nofun
      exact ⟨i, u, _, [], hu, .conn hlife hcontext hconn, hhold, by simp [hnot], by simp [setSpawn]⟩
  | connExit i =>
      obtain ⟨u, hu, h⟩ := Option.bind_eq_some_iff.mp h
      unfold connExit at h
      split at h
      next disconnected hlife hpc =>
        obtain ⟨conn, hconn, rfl⟩ := Option.map_eq_some_iff.mp h
        refine ⟨i, u, _, [(u.id, disconnected)], hu, .conn hlife (Eq.refl u.task.context) hconn,
          rfl, ?_, by simp⟩
        simp only [Connection.step, Connection.exit, hpc, Option.some.injEq] at hconn
        simp [SpawnCall.sent, hpc, ← hconn]
      next => cases h
  | finish i =>
      obtain ⟨u, hu, h⟩ := Option.bind_eq_some_iff.mp h
      unfold finish at h
      split at h <;> cases h
      next disconnected hlife hpc =>
        exact ⟨i, u, _, [], hu, .finish hpc, rfl, by simp [SpawnCall.sent], by simp [setSpawn]⟩
  | _ => cases ha

/-! ## The invariant -/

/-- The notices that the worker has not acted on, oldest first. -/
def flight (m : ConnectionManager μ κ ρ) : List ConnectionId :=
  match m.workerPc with
  | .remove id => id :: m.notices.map Prod.fst
  | .select | .left | .ended => m.notices.map Prod.fst

/-- The `stop` call is closing connection `i` and has not seen its context go. -/
def StopPc.closing (i : Nat) : StopPc → Bool
  | .close j | .closeTakeHold j | .closeWait j => j = i
  | .stop | .takeHold | .wait | .drain | .closed _ => false

structure Roster (m : ConnectionManager μ κ ρ) : Prop where
  generator : m.generator.next = m.spawns.length
  ids : ∀ (i : Nat) (u : SpawnCall μ κ ρ), m.spawns[i]? = some u → u.id = ⟨i⟩
  sound : ∀ (i : Nat) (u : SpawnCall μ κ ρ), m.spawns[i]? = some u → u.Sound
  mapped : ∀ id i, m.connections.lookup id = some i → id = ⟨i⟩
  exclusive : m.spawning ≠ none → m.stopPc = none
  flight : ∀ id ∈ m.flight, ∃ u, m.spawns[id.value]? = some u ∧ u.sent
  hold : ∀ (i : Nat) (u : SpawnCall μ κ ρ), m.spawns[i]? = some u → u.task.hold = false →
    u.Gone ∨ m.stopPc = some (.closeWait i)
  /-- Where a connection is that still serves its client. -/
  accounted : ∀ (i : Nat) (u : SpawnCall μ κ ρ), m.spawns[i]? = some u →
    u.Gone ∨ m.spawning = some i ∨ m.connections.lookup u.id = some i ∨ ∃ pc, m.stopPc = some pc ∧ pc.closing i

namespace Roster

theorem start (accepted : Bool) (stopAll : List Unit) :
    Roster (ConnectionManager.start accepted stopAll : ConnectionManager μ κ ρ) where
  generator := rfl
  ids := by simp [ConnectionManager.start]
  sound := by simp [ConnectionManager.start]
  mapped := by simp [ConnectionManager.start, AList.lookup_empty]
  exclusive := fun _ => rfl
  flight := by cases accepted <;> simp [ConnectionManager.start, ConnectionManager.flight]
  hold := by simp [ConnectionManager.start]
  accounted := by simp [ConnectionManager.start]

theorem setSpawn (hm : Roster m) (hu : m.spawns[i]? = some u) (hv : u.Evolves v)
    (hhold : v.task.hold = false → u.task.hold = false ∨ m.stopPc = some (.closeWait i)) :
    Roster (m.setSpawn i v) := by
  have hget := getElem?_setSpawn hu v
  refine { hm with generator := ?_, ids := ?_, sound := ?_, flight := ?_, hold := ?_,
                   accounted := ?_ }
  · simpa [ConnectionManager.setSpawn] using hm.generator
  · intro j w hw
    rw [hget] at hw
    split at hw
    next h =>
      cases hw
      rw [hv.same, h]
      exact hm.ids i u hu
    next => exact hm.ids j w hw
  · intro j w hw
    rw [hget] at hw
    split at hw
    next => cases hw; exact hv.sound (hm.sound i u hu)
    next => exact hm.sound j w hw
  · intro id hid
    obtain ⟨w, hw, hsent⟩ := hm.flight id hid
    by_cases h : id.value = i
    · subst h
      obtain rfl : u = w := Option.some.inj (hu.symm.trans hw)
      exact ⟨v, by rw [hget, if_pos rfl], hv.sent hsent⟩
    · exact ⟨w, by rw [hget, if_neg h, hw], hsent⟩
  · intro j w hw hfalse
    rw [hget] at hw
    split at hw
    next h =>
      cases hw
      subst h
      rcases hhold hfalse with hfalse | hwait
      · exact (hm.hold j u hu hfalse).imp_left fun hgone => (hv.gone hgone).1
      · exact .inr hwait
    next => exact hm.hold j w hw hfalse
  · intro j w hw
    rw [hget] at hw
    split at hw
    next h =>
      cases hw
      subst h
      rw [hv.same]
      exact (hm.accounted j u hu).imp (fun hgone => (hv.gone hgone).1) id
    next => exact hm.accounted j w hw

theorem dropConnection (hm : Roster m) (k : Option Nat) : Roster (m.dropConnection k) := by
  rcases dropConnection_eq m k with h | ⟨i, u, hu, h⟩
  · exact h.symm ▸ hm
  · exact h.symm ▸ hm.setSpawn hu (.task u u.task false rfl) .inl

/-- Two connections with one id are the same. -/
theorem eq_of_id (hm : Roster m) (hu : m.spawns[i]? = some u) (hv : m.spawns[j]? = some v)
    (h : u.id = v.id) : i = j := by
  rw [hm.ids i u hu, hm.ids j v hv] at h
  exact ConnectionId.mk.inj h

/-! ## Spawning -/

theorem spawn (hm : Roster m) (hquiet : m.quiet) (h : m.spawn = some m') : Roster m' := by
  have hstop : m.stopPc = none := by simp_all [quiet]
  have hnone : m.spawning = none := by simp_all [quiet]
  obtain rfl := eq_of_spawn h
  refine ⟨?_, ?_, ?_, hm.mapped, fun _ => hstop, ?_, ?_, ?_⟩
  · simp [hm.generator]
  · intro j w hw
    rcases List.getElem?_concat_eq_some hw with ⟨hw, -⟩ | ⟨rfl, rfl⟩
    · exact hm.ids j w hw
    · exact congrArg ConnectionId.mk hm.generator
  · intro j w hw
    rcases List.getElem?_concat_eq_some hw with ⟨hw, -⟩ | ⟨rfl, rfl⟩
    · exact hm.sound j w hw
    · exact sound_started m _
  · intro id hid
    obtain ⟨w, hw, hsent⟩ := hm.flight id hid
    exact ⟨w, List.getElem?_append_of_some hw _, hsent⟩
  · intro j w hw hfalse
    rcases List.getElem?_concat_eq_some hw with ⟨hw, -⟩ | ⟨rfl, rfl⟩
    · exact hm.hold j w hw hfalse
    · exact .inl (gone_started m _ hfalse)
  · intro j w hw
    rcases List.getElem?_concat_eq_some hw with ⟨hw, -⟩ | ⟨rfl, rfl⟩
    · apply (hm.accounted j w hw).imp_right
      rintro (h | h | ⟨pc, hpc, -⟩)
      · simp [hnone] at h
      · exact .inr (.inl h)
      · simp [hstop] at hpc
    · exact .inr (.inl rfl)

theorem insertEntry (hm : Roster m) (hi : m.spawning = some i) (hu : m.spawns[i]? = some u) :
    Roster { m with spawning := none, connections := m.connections.insert u.id i } := by
  have hstop := hm.exclusive (by simp [hi])
  refine { hm with mapped := ?_, exclusive := fun _ => hstop, accounted := ?_ }
  · intro id j hj
    by_cases hid : id = u.id
    · subst hid
      obtain rfl : i = j := by simpa using hj
      exact hm.ids i u hu
    · exact hm.mapped id j (by simpa [AList.lookup_insert_ne hid] using hj)
  · intro j w hw
    by_cases hid : w.id = u.id
    · obtain rfl := hm.eq_of_id hw hu hid
      have hj : (m.connections.insert u.id j).lookup w.id = some j := by
        rw [hid, AList.lookup_insert]
      exact .inr (.inr (.inl hj))
    · apply (hm.accounted j w hw).imp_right
      rintro (h | h | h)
      · obtain rfl : i = j := Option.some.inj (hi.symm.trans h)
        obtain rfl : u = w := Option.some.inj (hu.symm.trans hw)
        exact absurd rfl hid
      · exact .inr (.inl (by simpa [AList.lookup_insert_ne hid] using h))
      · exact .inr (.inr h)

theorem insert (hm : Roster m) (h : m.insert = some m') : Roster m' := by
  obtain ⟨i, hi, h⟩ := Option.bind_eq_some_iff.mp h
  obtain ⟨u, hu, rfl⟩ := Option.map_eq_some_iff.mp h
  obtain ⟨v, hv, hfollows⟩ :=
    Follows.of_drop (k := m.connections.lookup u.id) rfl i u hu
  have hinsert := (hm.dropConnection (m.connections.lookup u.id)).insertEntry (by simpa using hi) hv
  rw [hfollows.same, dropConnection_connections] at hinsert
  exact { hinsert with }

/-- A notice is sent. -/
theorem notice (hm : Roster m) {id : ConnectionId} {disconnected : Bool}
    (hsent : ∃ u, m.spawns[id.value]? = some u ∧ u.sent) :
    Roster { m with notices := m.notices ++ [(id, disconnected)] } := by
  refine { hm with flight := fun id' hid' => ?_ }
  have hmem : id' ∈ m.flight ∨ id' = id := by
    unfold ConnectionManager.flight at hid' ⊢
    cases hpc : m.workerPc <;> simp_all [or_assoc]
  rcases hmem with hmem | rfl
  · exact hm.flight id' hmem
  · exact hsent

theorem recv (hm : Roster m) (h : m.recv = some m') : Roster m' := by
  unfold ConnectionManager.recv at h
  split at h <;> cases h
  next id disconnected notices hpc hnotices =>
    refine { hm with flight := fun id' hid' => hm.flight id' ?_ }
    simpa [ConnectionManager.flight, hpc, hnotices] using hid'

theorem worked {new : List (ConnectionId × Bool)} (hm : Roster m) (h : Worked m m' i u v new) :
    Roster m' := by
  have hset := hm.setSpawn h.before h.evolves fun hfalse => .inl (h.hold ▸ hfalse)
  have hnew := h.notice
  rw [h.after]
  split at hnew
  next hsent =>
    -- The notice names the connection, which has now sent it.
    obtain ⟨⟨id, disconnected⟩, rfl, rfl⟩ : ∃ x, new = [x] ∧ x.1 = u.id := by
      obtain ⟨x, rest, rfl, hx, hrest⟩ := List.map_eq_cons_iff.mp hnew
      exact ⟨x, by rw [List.map_eq_nil_iff.mp hrest], hx⟩
    refine hset.notice ⟨v, ?_, by simp_all⟩
    rw [hm.ids i u h.before, getElem?_setSpawn h.before, if_pos rfl]
  next =>
    rw [List.map_eq_nil_iff.mp hnew, List.append_nil]
    exact hset

/-! ## The manager's worker -/

theorem removeEntry (hm : Roster m) (hpc : m.workerPc = .remove id) :
    Roster { m with workerPc := .select, connections := m.connections.erase id } := by
  have hflight : m.flight = id :: m.notices.map Prod.fst := by
    simp [ConnectionManager.flight, hpc]
  refine { hm with mapped := ?_, flight := ?_, accounted := ?_ }
  · intro id' j hj
    by_cases hid : id' = id
    · subst hid
      simp [AList.lookup_erase] at hj
    · exact hm.mapped id' j (by simpa [AList.lookup_erase_ne hid] using hj)
  · exact fun id' hid' => hm.flight id' (hflight ▸ List.mem_cons_of_mem _ hid')
  · intro j w hw
    by_cases hid : w.id = id
    · -- The connection that is removed has sent its notice.
      obtain ⟨u, hu, hsent⟩ := hm.flight id (hflight ▸ List.mem_cons_self)
      obtain rfl : j = id.value := by rw [← hid, hm.ids j w hw]
      obtain rfl : u = w := Option.some.inj (hu.symm.trans hw)
      exact .inl (SpawnCall.gone_of_sent hsent)
    · refine (hm.accounted j w hw).imp_right (.imp_right (.imp_left fun h => ?_))
      simpa [AList.lookup_erase_ne hid] using h

theorem remove (hm : Roster m) (h : m.remove = some m') : Roster m' := by
  unfold ConnectionManager.remove at h
  split at h <;> cases h
  next id hpc =>
    have hremove :=
      (hm.dropConnection (m.connections.lookup id)).removeEntry (by simpa using hpc)
    rw [dropConnection_connections] at hremove
    exact { hremove with }

/-! ## Stopping -/

/-- `stop` goes on, and closes the same connection as before if any. -/
theorem goto {pc : StopPc} (hm : Roster m) (pc' : StopPc) (hpc : m.stopPc = some pc)
    (hclosing : ∀ i, pc.closing i → pc'.closing i ∨
      ∀ u : SpawnCall μ κ ρ, m.spawns[i]? = some u → u.Gone)
    (hwait : ∀ i, pc = .closeWait i → ∀ u : SpawnCall μ κ ρ, m.spawns[i]? = some u → u.Gone) :
    Roster { m with stopPc := some pc' } := by
  refine { hm with exclusive := fun hspawn => ?_, hold := fun i u hu hfalse => ?_,
                   accounted := fun i u hu => ?_ }
  · simp [hm.exclusive hspawn] at hpc
  · rcases hm.hold i u hu hfalse with hgone | h
    · exact .inl hgone
    · exact .inl (hwait i (Option.some.inj (hpc.symm.trans h)) u hu)
  · rcases hm.accounted i u hu with h | h | h | ⟨pc₁, h, hi⟩
    · exact .inl h
    · exact .inr (.inl h)
    · exact .inr (.inr (.inl h))
    · obtain rfl : pc = pc₁ := Option.some.inj (hpc.symm.trans h)
      rcases hclosing i hi with hi | hgone
      · exact .inr (.inr (.inr ⟨pc', rfl, hi⟩))
      · exact .inl (hgone u hu)

theorem stopStep {pc : StopPc} (hm : Roster m) (hpc : m.stopPc = some pc)
    (h : m.stopStep pc = some m') : Roster m' := by
  cases pc with
  | stop =>
      obtain ⟨worker, -, rfl⟩ := Option.map_eq_some_iff.mp h
      exact { hm.goto .takeHold hpc nofun nofun with }
  | takeHold =>
      simp only [ConnectionManager.stopStep, Option.some.injEq] at h
      subst h
      split
      · exact { hm.goto .wait hpc nofun nofun with }
      · exact { hm.goto .drain hpc nofun nofun with }
  | wait =>
      simp only [ConnectionManager.stopStep, Option.ite_none_right_eq_some, Option.some.injEq] at h
      exact h.2 ▸ hm.goto _ hpc nofun nofun
  | drain =>
      simp only [ConnectionManager.stopStep, Option.ite_none_right_eq_some, Option.some.injEq] at h
      obtain ⟨-, rfl⟩ := h
      refine { hm with exclusive := fun _ => rfl, hold := fun i u hu hfalse => ?_,
                       accounted := fun i u hu => ?_ }
      · exact (hm.hold i u hu hfalse).imp_right fun h => by simp [hpc] at h
      · refine (hm.accounted i u hu).imp_right (.imp_right (.imp_right ?_))
        rintro ⟨pc, h, hi⟩
        cases hpc.symm.trans h
        cases hi
  | close i =>
      obtain ⟨u, hu, h⟩ := Option.bind_eq_some_iff.mp h
      obtain ⟨task, htask, rfl⟩ := Option.map_eq_some_iff.mp h
      obtain ⟨hcontext, -, hhold⟩ := TaskState.sendStop_frame htask
      exact (hm.setSpawn hu (.task u task u.handle hcontext) fun h => .inl (hhold ▸ h)).goto _ hpc
        (fun j hj => .inl hj) nofun
  | closeTakeHold i =>
      obtain ⟨u, hu, rfl⟩ := Option.map_eq_some_iff.mp h
      have htask : u.Evolves { u with task := u.task.takeHold } := .task u _ u.handle rfl
      dsimp only
      split
      · have hwait := hm.goto (.closeWait i) hpc (fun j hj => .inl hj) nofun
        exact hwait.setSpawn hu htask fun _ => .inr rfl
      next hhold =>
        -- The hold was taken before, so the connection is gone already.
        have hgone : u.Gone := by
          refine (hm.hold i u hu (by simpa using hhold)).resolve_right fun h => ?_
          cases hpc.symm.trans h
        have hclosed := hm.goto (.closed i) hpc (fun j hj => .inr fun w hw => ?_) nofun
        · exact hclosed.setSpawn hu htask fun _ => .inl (by simpa using hhold)
        · obtain rfl : i = j := by simpa [StopPc.closing] using hj
          exact Option.some.inj (hu.symm.trans hw) ▸ hgone
  | closeWait i =>
      obtain ⟨u, hu, h⟩ := Option.bind_eq_some_iff.mp h
      simp only [Option.ite_none_right_eq_some, Option.some.injEq] at h
      obtain ⟨hreleased, rfl⟩ := h
      have hgone : ∀ w : SpawnCall μ κ ρ, m.spawns[i]? = some w → w.Gone := fun w hw => by
        obtain rfl : u = w := Option.some.inj (hu.symm.trans hw)
        exact (hm.sound i u hu).gone hreleased
      refine hm.goto _ hpc (fun j hj => .inr ?_) fun j hj => ?_
      · obtain rfl : i = j := by simpa [StopPc.closing] using hj
        exact hgone
      · cases hj
        exact hgone
  | closed i =>
      simp only [ConnectionManager.stopStep, Option.some.injEq] at h
      subst h
      have hpc' : (m.dropConnection (some i)).stopPc = some (.closed i) := by simpa using hpc
      exact (hm.dropConnection (some i)).goto _ hpc' nofun nofun

theorem drain (hm : Roster m) (hpc : m.stopPc = some .drain) (h : m.drain id = some m') :
    Roster m' := by
  obtain ⟨i, hi, rfl⟩ := Option.map_eq_some_iff.mp h
  refine { hm with mapped := ?_, exclusive := fun hspawn => ?_, hold := fun j w hw hfalse => ?_,
                   accounted := fun j w hw => ?_ }
  · intro id' j hj
    by_cases hid : id' = id
    · subst hid
      simp [AList.lookup_erase] at hj
    · exact hm.mapped id' j (by simpa [AList.lookup_erase_ne hid] using hj)
  · simp [hm.exclusive hspawn] at hpc
  · exact (hm.hold j w hw hfalse).imp_right fun h => by simp [hpc] at h
  · rcases hm.accounted j w hw with h | h | h | ⟨pc, h, hj⟩
    · exact .inl h
    · exact .inr (.inl h)
    · by_cases hid : w.id = id
      · rw [hid, hi] at h
        cases h
        exact .inr (.inr (.inr ⟨_, rfl, by simp [StopPc.closing]⟩))
      · exact .inr (.inr (.inl (by simpa [AList.lookup_erase_ne hid] using h)))
    · cases hpc.symm.trans h
      cases hj

theorem step (hm : Roster m) (h : m.step a = some m') : Roster m' := by
  by_cases ha : a.ofWorker
  · obtain ⟨i, u, v, new, hw⟩ := worked_of_step ha h
    exact hm.worked hw
  cases a with
  | poll | conn | connStop | connExit | finish => exact absurd rfl ha
  | spawn =>
      obtain ⟨hquiet, h⟩ := Option.ite_none_right_eq_some.mp h
      exact hm.spawn hquiet h
  | insert => exact hm.insert h
  | recv => exact hm.recv h
  | remove => exact hm.remove h
  | waitForStop src =>
      simp only [ConnectionManager.step, ConnectionManager.waitForStop,
        Option.ite_none_right_eq_some] at h
      obtain ⟨hpc, h⟩ := h
      obtain ⟨worker, -, rfl⟩ := Option.map_eq_some_iff.mp h
      exact { hm with flight := by simpa [ConnectionManager.flight, hpc] using hm.flight }
  | exit =>
      simp only [ConnectionManager.step, ConnectionManager.exit, Option.ite_none_right_eq_some,
        Option.some.injEq] at h
      obtain ⟨hpc, rfl⟩ := h
      exact { hm with flight := by simpa [ConnectionManager.flight, hpc] using hm.flight }
  | beginStop =>
      simp only [ConnectionManager.step, Option.ite_none_right_eq_some, Option.some.injEq] at h
      obtain ⟨hquiet, rfl⟩ := h
      have hstop : m.stopPc = none := by simp_all [quiet]
      have hspawn : m.spawning = none := by simp_all [quiet]
      refine { hm with exclusive := fun h => absurd hspawn h, hold := fun i u hu hfalse => ?_,
                       accounted := fun i u hu => ?_ }
      · exact (hm.hold i u hu hfalse).imp_right fun h => by simp [hstop] at h
      · refine (hm.accounted i u hu).imp_right (.imp_right (.imp_right ?_))
        rintro ⟨pc, h, -⟩
        simp [hstop] at h
  | stop =>
      obtain ⟨pc, hpc, h⟩ := Option.bind_eq_some_iff.mp h
      exact hm.stopStep hpc h
  | drain id =>
      simp only [ConnectionManager.step, Option.ite_none_right_eq_some] at h
      exact hm.drain h.1 h.2
  | refuse | stopAll =>
      cases h
      exact { hm with }

end Roster

/-- With the map drained, every connection has left its loop. -/
theorem Roster.gone_of_drained (hm : Roster m) (hpc : m.stopPc = some .drain)
    (hempty : m.connections.entries.isEmpty) (hu : m.spawns[i]? = some u) : u.Gone := by
  have hnil : m.connections = ∅ := AList.ext (List.isEmpty_iff.mp hempty)
  rcases hm.accounted i u hu with hgone | hspawn | hmap | ⟨pc, hclose, hclosing⟩
  · exact hgone
  · have hnone := hm.exclusive (by simp [hspawn])
    simp [hpc] at hnone
  · simp [hnil, AList.lookup_empty] at hmap
  · cases hpc.symm.trans hclose
    cases hclosing

theorem roster_of_reachable (h : (system μ κ ρ).Reachable m) : Roster m :=
  h.invariant (fun _ ⟨accepted, stopAll, hm⟩ => hm ▸ .start accepted stopAll)
    fun _ _ _ _ hi hs => hi.step hs

/-- The connections of a manager keep their books like any others. -/
theorem ledger_of_reachable (h : (system μ κ ρ).Reachable m) (hu : m.spawns[i]? = some u) :
    ∃ as, Connection.Ledger as u.conn := by
  obtain ⟨as, has⟩ := ((roster_of_reachable h).sound i u hu).runs
  exact ⟨as, Connection.ledger_of_run has⟩

/-! ## Stopped connections -/

theorem follows_of_step (h : m.step a = some m') : Follows m m' := by
  by_cases ha : a.ofWorker
  · obtain ⟨i, u, v, new, hw⟩ := worked_of_step ha h
    exact .of_set hw.before hw.evolves (by rw [hw.after])
  cases a with
  | poll | conn | connStop | connExit | finish => exact absurd rfl ha
  | spawn =>
      obtain ⟨-, h⟩ := Option.ite_none_right_eq_some.mp h
      obtain rfl := eq_of_spawn h
      intro i u hu
      exact ⟨u, List.getElem?_append_of_some hu _, .refl u⟩
  | insert =>
      obtain ⟨i, -, h⟩ := Option.bind_eq_some_iff.mp h
      obtain ⟨u, -, rfl⟩ := Option.map_eq_some_iff.mp h
      exact .of_drop rfl
  | remove =>
      simp only [step, remove] at h
      split at h <;> cases h
      exact .of_drop rfl
  | recv =>
      simp only [step, recv] at h
      split at h <;> cases h
      exact .of_eq rfl
  | waitForStop src =>
      simp only [step, waitForStop, Option.ite_none_right_eq_some] at h
      obtain ⟨worker, -, rfl⟩ := Option.map_eq_some_iff.mp h.2
      exact .of_eq rfl
  | exit | beginStop =>
      simp only [step, exit, Option.ite_none_right_eq_some, Option.some.injEq] at h
      exact h.2 ▸ .of_eq rfl
  | drain id =>
      simp only [step, Option.ite_none_right_eq_some] at h
      obtain ⟨i, -, rfl⟩ := Option.map_eq_some_iff.mp h.2
      exact .of_eq rfl
  | refuse | stopAll =>
      cases h
      exact .of_eq rfl
  | stop =>
      obtain ⟨pc, -, h⟩ := Option.bind_eq_some_iff.mp h
      cases pc with
      | stop =>
          obtain ⟨worker, -, rfl⟩ := Option.map_eq_some_iff.mp h
          exact .of_eq rfl
      | takeHold =>
          cases h
          exact .of_eq rfl
      | wait | drain =>
          simp only [stopStep, Option.ite_none_right_eq_some, Option.some.injEq] at h
          exact h.2 ▸ .of_eq rfl
      | close i =>
          obtain ⟨u, hu, h⟩ := Option.bind_eq_some_iff.mp h
          obtain ⟨task, htask, rfl⟩ := Option.map_eq_some_iff.mp h
          exact .of_set hu (.task u task u.handle (TaskState.sendStop_frame htask).1) rfl
      | closeTakeHold i =>
          obtain ⟨u, hu, rfl⟩ := Option.map_eq_some_iff.mp h
          exact .of_set hu (.task u u.task.takeHold u.handle rfl) rfl
      | closeWait i =>
          obtain ⟨u, -, h⟩ := Option.bind_eq_some_iff.mp h
          simp only [Option.ite_none_right_eq_some, Option.some.injEq] at h
          exact h.2 ▸ .of_eq rfl
      | closed i =>
          cases h
          exact .of_drop rfl

/-- A connection that is gone stays so, and writes nothing any more. -/
theorem gone_of_run {as : List (Action μ κ ρ)} (h : Transition.run step m as = some m')
    (hu : m.spawns[i]? = some u) (hgone : u.Gone) :
    ∃ v, m'.spawns[i]? = some v ∧ v.id = u.id ∧ v.Gone ∧ v.conn.wire = u.conn.wire := by
  refine Transition.run_invariant (I := fun m => ∃ v, m.spawns[i]? = some v ∧ v.id = u.id ∧
    v.Gone ∧ v.conn.wire = u.conn.wire) ?_ h ⟨u, hu, rfl, hgone, rfl⟩
  rintro m a m' ⟨v, hv, hid, hgone, hwire⟩ hs
  obtain ⟨w, hw, hevolves⟩ := follows_of_step hs i v hv
  obtain ⟨hgone', hwire'⟩ := hevolves.gone hgone
  exact ⟨w, hw, hevolves.same.trans hid, hgone', hwire'.trans hwire⟩

/-- Behind its loop, or never started, a connection handles no request. -/
theorem SpawnCall.Sound.handling (hs : u.Sound) (h : u.Gone) : u.conn.pc.handling = [] := by
  rcases h with hlife | hover
  · rw [hs.fresh (by simp [hlife]) (by simp [hlife])]
    rfl
  · cases hpc : u.conn.pc <;> simp_all [Connection.Pc.departed, Connection.Pc.handling]

/-- When `stop` returns, every connection worker that was ever started has left its
loop, whatever the runtime and the other tasks did meanwhile. From then on none of
them handles a request or writes anything. -/
theorem stop_leaves_none (h : (system μ κ ρ).Reachable m) (hpc : m.stopPc = some .drain)
    (hret : m.step .stop = some m') :
    m'.stopPc = none ∧ (∀ u ∈ m'.spawns, u.Gone) ∧
    ∀ as m'', Transition.run step m' as = some m'' → ∀ (i : Nat) (u : SpawnCall μ κ ρ),
      m'.spawns[i]? = some u → ∃ v, m''.spawns[i]? = some v ∧ v.id = u.id ∧ v.Gone ∧
        v.conn.pc.handling = [] ∧ v.conn.wire = u.conn.wire := by
  have hm := roster_of_reachable h
  have hm' : (system μ κ ρ).Reachable m' := h.step (a := .stop) hret
  simp only [step, hpc, Option.bind_some, stopStep, Option.ite_none_right_eq_some,
    Option.some.injEq] at hret
  obtain ⟨hempty, rfl⟩ := hret
  have hgone : ∀ u ∈ m.spawns, u.Gone := by
    intro u hu
    obtain ⟨i, hi⟩ := List.mem_iff_getElem?.mp hu
    rcases hm.accounted i u hi with hgone | hspawn | hmap | ⟨pc, hclose, hi⟩
    · exact hgone
    · simp [hm.exclusive (by simp [hspawn])] at hpc
    · have hnil : m.connections = ∅ := AList.ext (List.isEmpty_iff.mp hempty)
      simp [hnil, AList.lookup_empty] at hmap
    · cases hpc.symm.trans hclose
      cases hi
  refine ⟨rfl, hgone, fun as m'' hrun i u hu => ?_⟩
  obtain ⟨v, hv, hid, hgone', hwire⟩ := gone_of_run hrun hu (hgone u (List.mem_of_getElem? hu))
  have hsound := (roster_of_reachable (hm'.run hrun)).sound i v hv
  exact ⟨v, hv, hid, hgone', hsound.handling hgone', hwire⟩

/-- A client sends a request and is served; then the server stops. -/
def stopRun : List (Action Nat Nat Nat) :=
  [.spawn, .insert, .poll 0, .conn 0 (.next (.message 7)), .conn 0 (.respond 70),
    .conn 0 (.send .ok), .conn 0 (.flushResponse .ok), .beginStop, .stop, .stop,
    .waitForStop .stop, .exit, .stop, .drain ⟨0⟩, .stop, .stop, .connStop 0 .stop, .connExit 0,
    .finish 0, .stop, .stop]

theorem stop_leaves_none_stopRun :
    ∃ m m' : ConnectionManager Nat Nat Nat,
      Transition.run step (start true []) stopRun = some m ∧ m.step .stop = some m' ∧
      m'.spawns.length = 1 ∧ ∀ u ∈ m'.spawns, u.Gone := by
  obtain ⟨m, m', hm, hpc, hret, hlen⟩ :
      ∃ m m' : ConnectionManager Nat Nat Nat,
        Transition.run step (start true []) stopRun = some m ∧ m.stopPc = some .drain ∧
        m.step .stop = some m' ∧ m'.spawns.length = 1 := ⟨_, _, rfl, rfl, rfl, rfl⟩
  exact ⟨m, m', hm, hret, hlen,
    (stop_leaves_none ⟨_, stopRun, ⟨_, _, rfl⟩, hm⟩ hpc hret).2.1⟩

end ConnectionManager
