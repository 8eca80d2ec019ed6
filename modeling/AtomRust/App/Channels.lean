-- SUMMARY: When the sessions of a connection keep apart: the channels that the SETUP requests resolve to decide it, over every run.
import AtomRust.App.Carrier
import AtomRust.Net.Merge

/-!
# Channels

A session keeps the channels that its SETUP request resolved to. The server gives
none away itself, so two sessions of one connection share a channel just when their
requests do, as any two requests without an `interleaved` parameter.
-/

open Media (RtpMuxers Video)
open App (ClientRequest Frame SendInterleaved SessionSetupTarget)

/-! ## The manager's sessions -/

namespace Session
variable {V : Video} {s : Session V}

theorem live_eq_false_iff : s.live = false ↔ s.Ended := by
  unfold live Ended
  cases s.life <;> simp

theorem live_setupAndStart (kind : SessionSetupTarget) (muxer : V.RtpMuxer) (accepted : Bool)
    (stopAll : List Unit) : (setupAndStart kind muxer accepted stopAll).live = accepted := by
  cases accepted <;> rfl

end Session

namespace SessionManager
variable {V : Video} {m m' : SessionManager V} {a : Action V} {i : Nat} {u v : SetupCall V}

theorem Follows.live {n : Nat} (h : Follows u v n) (hlive : v.session.live) : u.session.live := by
  by_contra hnot
  obtain ⟨as, has, -⟩ := h.run
  have hended := (Session.live_eq_false_iff.mp (Bool.eq_false_iff.mpr hnot)).run has
  simp [Session.live_eq_false_iff.mpr hended.1] at hlive

theorem setups_of_setup {sample : Nat} {kind : Session.SessionSetupTarget} {muxer : V.RtpMuxer}
    (h : m.step (.setup sample kind muxer) = some m') :
    ∃ u : SetupCall V, u.session.live = m.accepting ∧ m'.setups = m.setups ++ [u] := by
  simp only [step, Option.ite_none_right_eq_some, Option.some.injEq] at h
  obtain ⟨-, rfl⟩ := h
  exact ⟨_, Session.live_setupAndStart kind muxer m.accepting m.stopAll, rfl⟩

end SessionManager

/-! ## Messages of a connection -/

namespace Connection
variable {μ κ ρ : Type} {conn conn' : Connection μ κ ρ} {P : μ → Prop}

/-- `P` holds of all messages that are on the queue, at hand or handed over. -/
structure All (P : μ → Prop) (conn : Connection μ κ ρ) : Prop where
  queue : ∀ message ∈ conn.queue, P message
  taking : ∀ message ∈ conn.pc.taking, P message
  wire : ∀ message, .media message ∈ conn.wire → P message

theorem All.start : All P (start : Connection μ κ ρ) := ⟨nofun, nofun, nofun⟩

theorem All.enqueue (h : All P conn) {message : μ} (hmessage : P message) :
    All P (conn.enqueue message) := by
  refine ⟨fun m hm => ?_, h.taking, h.wire⟩
  rcases List.mem_append.mp hm with hm | hm
  · exact h.queue m hm
  · exact List.mem_singleton.mp hm ▸ hmessage

theorem All.step {a : Action μ κ ρ} (h : All P conn) (ha : a.accepts = none)
    (hstep : conn.step a = some conn') : All P conn' := by
  cases effect_of_step hstep with
  | enqueued heq => cases ha
  | taken pc hqueue heq =>
      subst heq
      have hall : ∀ message ∈ _ :: _, P message := hqueue ▸ h.queue
      refine ⟨fun m hm => hall m (List.mem_cons_of_mem _ hm), fun m hm => ?_, h.wire⟩
      exact List.mem_singleton.mp hm ▸ hall _ List.mem_cons_self
  | @fed _ message _ next pc hnext heq =>
      subst heq
      have hmessage : P message := h.taking message (by simp [pc, Pc.taking])
      refine ⟨h.queue, fun m hm => ?_, fun m hm => ?_⟩
      · rcases hnext with rfl | ⟨_, rfl⟩ <;> cases hm
      · rcases List.mem_cons.mp hm with hm | hm
        · cases hm
          exact hmessage
        · exact h.wire m hm
  | flushed _ heq | sent _ heq =>
      subst heq
      exact ⟨h.queue, by simp [Pc.taking, note], fun m hm => h.wire m (by simpa [note] using hm)⟩
  | drained _ heq | requested _ heq | responded _ heq | broken _ heq =>
      subst heq
      exact ⟨h.queue, by simp [Pc.taking], h.wire⟩
  | ignored _ heq => exact heq ▸ h
  | ended _ heq =>
      subst heq
      exact ⟨by simp, by simp [Pc.taking], h.wire⟩

end Connection

/-! ## Sessions that keep apart -/

namespace Carrier
variable {V : Video} {B : RtpMuxers V} {s s' : Carrier V B} {a : Action V B} {i : Nat}
  {channel : UInt8}

/-- No two live sessions of the connection send on one channel. -/
def Exclusive (s : Carrier V B) : Prop :=
  ∀ channel i j, s.uses channel i → s.uses channel j → i = j

/-- A SETUP request that starts a session resolves to channels on which no live
session of the connection sends. -/
def Fresh [Rtsp.Crate] (s : Carrier V B) : Action V B → Prop
  | .setup .. => ∀ request transport, s.conn.pc = .handle request →
      request.selected = some transport → s.manager.accepting →
      ∀ channel, (SessionSetupTarget.channels (Transport.resolvedChannel transport)).carries
        channel → ∀ i, s.uses channel i = false
  | _ => True

/-- Every session has its entry. -/
def Hosted (s : Carrier V B) : Prop := s.targets.length = s.manager.setups.length

theorem uses_iff : s.uses channel i ↔
    ∃ u target, s.manager.setups[i]? = some u ∧ u.session.live ∧ s.target i = some target ∧
      target.carries channel := by
  unfold uses
  cases s.manager.setups[i]? <;> cases s.target i <;> simp

theorem lt_of_uses (h : s.uses channel i) : i < s.manager.setups.length := by
  obtain ⟨u, -, hu, -⟩ := uses_iff.mp h
  exact (List.getElem?_eq_some_iff.mp hu).1

theorem carries_frame (target : SendInterleaved) (message : Media.RtpBuf) :
    target.carries (target.frame message).1 := by
  cases message <;> simp [SendInterleaved.carries, SendInterleaved.frame]

section Steps
variable [Rtsp.Crate]

/-- The ways in which a step leads from `s` to `s'`. -/
inductive Effect (s s' : Carrier V B) : Action V B → Prop where
  | setup {sample : Nat} {mediaInfo : Option (Option (MediaInfo B.StreamInfo))}
      {builder : Except B.Error B.Builder} (request : ClientRequest) (transport : Rtsp.Transport)
      (u : SessionManager.SetupCall V) (pc : s.conn.pc = .handle request)
      (selected : request.selected = some transport)
      (live : u.session.live = s.manager.accepting)
      (setups : s'.manager.setups = s.manager.setups ++ [u])
      (targets : s'.targets = s.targets ++
        [some (SessionSetupTarget.channels (Transport.resolvedChannel transport))])
      (conn : s'.conn = s.conn) : Effect s s' (.setup sample mediaInfo builder)
  | elsewhere {sample : Nat} {kind : Session.SessionSetupTarget} {muxer : V.RtpMuxer}
      (u : SessionManager.SetupCall V) (setups : s'.manager.setups = s.manager.setups ++ [u])
      (targets : s'.targets = s.targets ++ [none]) (conn : s'.conn = s.conn) :
      Effect s s' (.setupElsewhere sample kind muxer)
  /-- Session `i` puts a message on the queue. -/
  | sent {i : Nat} {channel : UInt8} {payload : List UInt8} (manager : SessionManager.Action V)
      (hsets : manager.sets = false) (hmanager : s.manager.step manager = some s'.manager)
      (targets : s'.targets = s.targets) (uses : s.uses channel i)
      (conn : s'.conn = s.conn.enqueue
        { channel, payload, session := i, users := s.users channel }) :
      Effect s s' (.trySend i)
  | managed {a : Action V B} (manager : SessionManager.Action V) (hsets : manager.sets = false)
      (hmanager : s.manager.step manager = some s'.manager) (targets : s'.targets = s.targets)
      (conn : s'.conn = s.conn) (ha : ∀ t : Carrier V B, t.Fresh a) : Effect s s' a
  | connected {a : Action V B} (manager : s'.manager = s.manager) (targets : s'.targets = s.targets)
      (b : Connection.Action Frame ClientRequest App.Reply) (hb : b.accepts = none)
      (hconn : s.conn.step b = some s'.conn) (ha : ∀ t : Carrier V B, t.Fresh a) : Effect s s' a

theorem effect_of_trySend (h : s.trySend i = some s') : Effect s s' (.trySend i) := by
  obtain ⟨target, htarget, h⟩ := Option.bind_eq_some_iff.mp h
  obtain ⟨u, hu, h⟩ := Option.bind_eq_some_iff.mp h
  obtain ⟨manager, hmanager, h⟩ := Option.map_eq_some_iff.mp h
  obtain ⟨t, ht, -⟩ := SessionManager.session_step hu hmanager
  split at h
  next message rest hpc hok =>
    subst h
    have hlive : u.session.live := by
      have hrunning := (Session.Loop.step rfl ht).running
      simp [Session.live, hrunning]
    exact .sent _ rfl hmanager rfl
      (uses_iff.mpr ⟨u, target, hu, hlive, htarget, carries_frame target message⟩) rfl
  next =>
    subst h
    exact .managed _ rfl hmanager rfl rfl fun _ => trivial

theorem effect_of_step (h : s.step a = some s') : Effect s s' a := by
  cases a with
  | setup sample mediaInfo builder =>
      simp only [step, setup] at h
      split at h
      next request hpc hcall =>
        split at h
        next sessionSetup _ hhandle =>
          obtain ⟨manager, hmanager, rfl⟩ := Option.map_eq_some_iff.mp h
          obtain ⟨transport, hselected, htarget⟩ := App.target_of_handleSetup hhandle
          obtain ⟨u, hlive, setups⟩ := SessionManager.setups_of_setup hmanager
          exact .setup request transport u hpc hselected hlive setups (by rw [htarget]) rfl
        next => cases h
      next => cases h
  | returns =>
      obtain ⟨⟨i, transport⟩, -, h⟩ := Option.bind_eq_some_iff.mp h
      obtain ⟨result, -, h⟩ := Option.bind_eq_some_iff.mp h
      obtain ⟨conn, hconn, rfl⟩ := Option.map_eq_some_iff.mp h
      exact .connected rfl rfl _ rfl hconn fun _ => trivial
  | answers reply =>
      simp only [step, answers] at h
      split at h
      next =>
        obtain ⟨conn, hconn, rfl⟩ := Option.map_eq_some_iff.mp h
        exact .connected rfl rfl _ rfl hconn fun _ => trivial
      next => cases h
  | setupElsewhere sample kind muxer =>
      obtain ⟨manager, hmanager, rfl⟩ := Option.map_eq_some_iff.mp h
      obtain ⟨u, -, setups⟩ := SessionManager.setups_of_setup hmanager
      exact .elsewhere u setups rfl rfl
  | trySend i => exact effect_of_trySend h
  | manager b =>
      simp only [step] at h
      split at h
      next hb =>
        obtain ⟨manager, hmanager, rfl⟩ := Option.map_eq_some_iff.mp h
        have hsets : b.sets = false := by
          cases b <;> first | rfl | cases hb
        exact .managed b hsets hmanager rfl rfl fun _ => trivial
      next => cases h
  | conn b =>
      simp only [step] at h
      split at h
      next hb =>
        obtain ⟨conn, hconn, rfl⟩ := Option.map_eq_some_iff.mp h
        have haccepts : b.accepts = none := by
          cases b <;> first | rfl | cases hb
        exact .connected rfl rfl b haccepts hconn fun _ => trivial
      next => cases h

/-! ### The parts -/

/-- The manager takes a step of its own, or none. -/
theorem manager_of_step (h : s.step a = some s') :
    s'.manager = s.manager ∨ ∃ b, s.manager.step b = some s'.manager := by
  cases effect_of_step h with
  | setup =>
      simp only [step, setup] at h
      split at h
      next =>
        split at h
        next =>
          obtain ⟨manager, hmanager, rfl⟩ := Option.map_eq_some_iff.mp h
          exact .inr ⟨_, hmanager⟩
        next => cases h
      next => cases h
  | elsewhere =>
      obtain ⟨manager, hmanager, rfl⟩ := Option.map_eq_some_iff.mp h
      exact .inr ⟨_, hmanager⟩
  | sent b _ hmanager | managed b _ hmanager => exact .inr ⟨b, hmanager⟩
  | connected hmanager => exact .inl hmanager

/-- So does the connection. -/
theorem conn_of_step (h : s.step a = some s') :
    s'.conn = s.conn ∨ ∃ b, s.conn.step b = some s'.conn := by
  cases effect_of_step h with
  | setup _ _ _ _ _ _ _ _ hconn | elsewhere _ _ _ hconn | managed _ _ _ _ hconn =>
      exact .inl hconn
  | sent =>
      obtain ⟨target, -, h⟩ := Option.bind_eq_some_iff.mp h
      obtain ⟨u, -, h⟩ := Option.bind_eq_some_iff.mp h
      obtain ⟨manager, -, h⟩ := Option.map_eq_some_iff.mp h
      split at h
      next hok =>
        subst h
        exact .inr ⟨.enqueue _, if_pos hok⟩
      next =>
        subst h
        exact .inl rfl
  | connected _ _ b _ hconn => exact .inr ⟨b, hconn⟩

/-- What is proved of the session manager holds in a carrier. -/
theorem manager_of_reachable (h : (system V B).Reachable s) :
    (SessionManager.system V).Reachable s.manager := by
  refine h.project (f := Carrier.manager) ?_ fun _ _ _ => manager_of_step
  rintro _ ⟨accepted, stopAll, rfl⟩
  exact ⟨accepted, stopAll, rfl⟩

/-- And so does what is proved of connections. -/
theorem ledger_of_reachable (h : (system V B).Reachable s) :
    ∃ as, Connection.Ledger as s.conn := by
  obtain ⟨s₀, as, ⟨accepted, stopAll, rfl⟩, hrun⟩ := h
  obtain ⟨bs, hbs⟩ := Transition.run_project (f := Carrier.conn) (fun _ _ _ => conn_of_step) hrun
  exact ⟨bs, Connection.ledger_of_run hbs⟩

/-! ### Entries -/

theorem hosted_of_reachable (h : (system V B).Reachable s) : s.Hosted := by
  refine h.invariant (I := Hosted) ?_ ?_
  · rintro s ⟨accepted, stopAll, rfl⟩
    rfl
  · intro s a s' _ hs hstep
    unfold Hosted at hs ⊢
    cases effect_of_step hstep with
    | setup _ _ u _ _ _ setups targets | elsewhere u setups targets => simp [setups, targets, hs]
    | sent _ hsets hmanager targets | managed _ hsets hmanager targets =>
        rw [targets, SessionManager.setups_length_of_step hmanager hsets, hs]
    | connected manager targets => rw [targets, manager, hs]

end Steps

theorem target_of_eq (h : s'.targets = s.targets) (i : Nat) : s'.target i = s.target i := by
  rw [target, target, h]

theorem lt_of_target {target : SendInterleaved} (h : s.target i = some target) :
    i < s.targets.length := by
  by_contra hnot
  simp [Carrier.target, List.getElem?_eq_none (Nat.le_of_not_lt hnot)] at h

/-- A session that is not new does not begin to use a channel. -/
theorem uses_of_managed (hs : s.Hosted) {manager : SessionManager.Action V}
    (hmanager : s.manager.step manager = some s'.manager) (htargets : s'.targets = s.targets)
    (h : s'.uses channel i) : s.uses channel i := by
  obtain ⟨v, target, hv, hlive, htarget, hcarries⟩ := uses_iff.mp h
  rw [target_of_eq htargets] at htarget
  have hlt : i < s.manager.setups.length := hs ▸ lt_of_target htarget
  have hu : s.manager.setups[i]? = some s.manager.setups[i] := List.getElem?_eq_getElem hlt
  obtain ⟨w, hw, hfollows⟩ := (SessionManager.effect_of_step hmanager).follows hu
  obtain rfl : v = w := Option.some.inj (hv.symm.trans hw)
  exact uses_iff.mpr ⟨_, target, hu, hfollows.live hlive, htarget, hcarries⟩

/-- After a new entry, the old sessions use the channels that they used. -/
theorem uses_append (hs : s.Hosted) {u : SessionManager.SetupCall V}
    {target : Option SendInterleaved} (setups : s'.manager.setups = s.manager.setups ++ [u])
    (targets : s'.targets = s.targets ++ [target]) :
    s'.uses channel i ↔ s.uses channel i ∨ i = s.manager.setups.length ∧ u.session.live ∧
      target.any fun target => target.carries channel := by
  have hs : s.targets.length = s.manager.setups.length := hs
  rcases Nat.lt_trichotomy i s.manager.setups.length with hlt | rfl | hlt
  · have hne : i ≠ s.manager.setups.length := Nat.ne_of_lt hlt
    simp [uses, Carrier.target, setups, targets, List.getElem?_append_left hlt,
      List.getElem?_append_left (hs ▸ hlt : i < s.targets.length), hne]
  · have hnone : s.targets[s.manager.setups.length]? = none :=
      List.getElem?_eq_none (Nat.le_of_eq hs)
    have hnew : (s.targets ++ [target])[s.manager.setups.length]? = some target := by
      rw [← hs, List.getElem?_concat_length]
    simp [uses, Carrier.target, setups, targets, hnone, hnew]
  · have hle : s'.manager.setups.length ≤ i := by
      rw [setups, List.length_append]
      exact hlt
    have hle' : s.manager.setups.length ≤ i := Nat.le_of_lt hlt
    simp [uses, List.getElem?_eq_none hle, List.getElem?_eq_none hle', Nat.ne_of_gt hlt]

/-! ### Runs -/

theorem Exclusive.of_uses (hs : s.Exclusive)
    (h : ∀ channel i, s'.uses channel i → s.uses channel i) : s'.Exclusive :=
  fun channel i j hi hj => hs channel i j (h channel i hi) (h channel j hj)

/-- One step keeps the sessions apart just when a SETUP request finds its channels
free. -/
theorem exclusive_step_iff [Rtsp.Crate] (hhosted : s.Hosted) (hs : s.Exclusive)
    (hstep : s.step a = some s') : s'.Exclusive ↔ s.Fresh a := by
  cases effect_of_step hstep with
  | setup request transport u pc selected live setups targets =>
      have huses : ∀ channel i, s'.uses channel i ↔ s.uses channel i ∨
          i = s.manager.setups.length ∧ s.manager.accepting ∧
            (SessionSetupTarget.channels (Transport.resolvedChannel transport)).carries
              channel := by
        intro channel i
        have happend : s'.uses channel i ↔ _ := uses_append hhosted setups targets
        simpa [live] using happend
      constructor
      · intro hexclusive request' transport' pc' selected' haccepting channel hcarries i
        obtain rfl : request = request' := by simpa [pc] using pc'
        obtain rfl : transport = transport' := by simpa [selected] using selected'
        by_contra hi
        have hold : s.uses channel i := by simpa using hi
        have heq := hexclusive channel i _ ((huses channel i).mpr (.inl hold))
          ((huses channel _).mpr (.inr ⟨rfl, haccepting, hcarries⟩))
        exact Nat.lt_irrefl _ (heq ▸ lt_of_uses hold)
      · intro hfresh channel i j hi hj
        have hfree := hfresh request transport pc selected
        rcases (huses channel i).mp hi with hi | ⟨rfl, haccepting, hcarries⟩ <;>
          rcases (huses channel j).mp hj with hj | ⟨rfl, haccepting', hcarries'⟩
        · exact hs channel i j hi hj
        · simp [hfree haccepting' channel hcarries' i] at hi
        · simp [hfree haccepting channel hcarries j] at hj
        · rfl
  | elsewhere u setups targets =>
      have huses : ∀ channel i, s'.uses channel i → s.uses channel i := by
        intro channel i h
        simpa using (uses_append hhosted setups targets).mp h
      exact iff_of_true (hs.of_uses huses) trivial
  | sent _ _ hmanager targets =>
      exact iff_of_true (hs.of_uses fun _ _ => uses_of_managed hhosted hmanager targets) trivial
  | managed _ _ hmanager targets _ ha =>
      exact iff_of_true (hs.of_uses fun _ _ => uses_of_managed hhosted hmanager targets) (ha s)
  | connected manager targets _ _ _ ha =>
      refine iff_of_true (hs.of_uses fun channel i h => ?_) (ha s)
      rwa [uses, manager, target_of_eq targets] at h

/-- The sender was the only live session on the frame's channel. -/
def Attributed (frame : Frame) : Prop := frame.users = [frame.session]

theorem users_eq (hhosted : s.Hosted) (hs : s.Exclusive) (h : s.uses channel i) :
    s.users channel = [i] := by
  have hlt : i < s.targets.length := hhosted ▸ lt_of_uses h
  refine List.perm_singleton.mp ((List.perm_ext_iff_of_nodup ?_ ?_).mpr fun j => ?_)
  · exact List.nodup_range.filter _
  · exact List.nodup_singleton i
  · simp only [users, List.mem_filter, List.mem_range, List.mem_singleton]
    constructor
    · exact fun hj => hs channel j i hj.2 h
    · rintro rfl
      exact ⟨hlt, h⟩

theorem attributed_step [Rtsp.Crate] (hhosted : s.Hosted) (hs : s.Exclusive)
    (hall : s.conn.All Attributed) (hstep : s.step a = some s') : s'.conn.All Attributed := by
  cases effect_of_step hstep with
  | setup _ _ _ _ _ _ _ _ conn | elsewhere _ _ _ conn | managed _ _ _ _ conn => exact conn ▸ hall
  | sent _ _ _ _ uses conn =>
      rw [conn]
      exact hall.enqueue (users_eq hhosted hs uses)
  | connected _ _ _ hb hconn => exact hall.step hb hconn

/-- All along a run the live sessions of a connection keep apart just when each SETUP
request that starts one resolves to channels that none of them uses. Then every frame
that is handed to the client was put on the queue when its sender was the only live
session on its channel. -/
theorem channels_exclusive_iff [Rtsp.Crate] {s₀ : Carrier V B} {as : List (Action V B)}
    (h₀ : (system V B).init s₀) (hrun : Transition.run step s₀ as = some s) :
    ((∀ bs t, bs <+: as → Transition.run step s₀ bs = some t → t.Exclusive) ↔
      ∀ bs a t, bs ++ [a] <+: as → Transition.run step s₀ bs = some t → t.Fresh a) ∧
    ((∀ bs t, bs <+: as → Transition.run step s₀ bs = some t → t.Exclusive) →
      ∀ frame, .media frame ∈ s.conn.wire → Attributed frame) := by
  have hstart : s₀.Exclusive ∧ s₀.conn.All Attributed := by
    obtain ⟨accepted, stopAll, rfl⟩ := h₀
    exact ⟨fun channel i j hi => absurd (lt_of_uses hi) (Nat.not_lt_zero i), .start⟩
  constructor
  · refine (system V B).run_forall_iff h₀ hstart.1 ?_ hrun
    intro t a t' hreach ht hstep
    exact exclusive_step_iff (hosted_of_reachable hreach) ht hstep
  · intro hexclusive
    have hall : ∀ bs t, Transition.run step s₀ bs = some t → bs <+: as → t.conn.All Attributed := by
      refine Transition.run_history
        (I := fun bs (t : Carrier V B) => bs <+: as → t.conn.All Attributed) (fun _ => hstart.2) ?_
      intro bs t a t' ht hI ha hbs
      have hprev : bs <+: as := (List.prefix_append bs [a]).trans hbs
      have hreach : (system V B).Reachable t := ⟨s₀, bs, h₀, ht⟩
      exact attributed_step (hosted_of_reachable hreach) (hexclusive bs t hprev ht) (hI hprev) ha
    exact (hall as s hrun (List.prefix_refl as)).wire

/-! ### Two sessions -/

section First
attribute [local instance] Rtsp.Crate.first

/-- A SETUP request with one candidate transport, over TCP. -/
def setupRequest (parameters : List Rtsp.Parameter) : ClientRequest where
  request :=
    { method := .setup, uri := "/camera", require := none, range := none, session := none }
  transport := some [{ lower := some .tcp, parameters }]

/-- The request is read and a session set up for it. -/
def setupRun (sample i : Nat) (parameters : List Rtsp.Parameter) :
    List (Action .counting countingMuxers) :=
  [.conn (.next (.message (setupRequest parameters))),
    .setup sample (some (some (.fromStreamInfo ()))) (.ok (0 : UInt16)), .manager (.register i),
    .returns, .conn (.send .ok), .conn (.flushResponse .ok)]

/-- The client asks for channels of its own for each session. -/
def apartRun : List (Action .counting countingMuxers) :=
  setupRun 10000000 0 [.unicast, .interleaved (.range 0 1)] ++
    setupRun 10000001 1 [.unicast, .interleaved (.range 2 3)]

theorem channels_exclusive_iff_apartRun :
    ∃ s, Transition.run step (start true []) apartRun = some s ∧
      s.targets.map (Option.map SendInterleaved.rtpChannel) = [some 0, some 2] ∧
      (((∀ bs t, bs <+: apartRun → Transition.run step (start true []) bs = some t →
          t.Exclusive) ↔
        ∀ bs a t, bs ++ [a] <+: apartRun → Transition.run step (start true []) bs = some t →
          t.Fresh a) ∧
      ((∀ bs t, bs <+: apartRun → Transition.run step (start true []) bs = some t →
          t.Exclusive) →
        ∀ frame, .media frame ∈ s.conn.wire → Attributed frame)) := by
  obtain ⟨s, hrun, htargets⟩ : ∃ s, Transition.run step (start true []) apartRun = some s ∧
      s.targets.map (Option.map SendInterleaved.rtpChannel) = [some 0, some 2] := ⟨_, rfl, rfl⟩
  exact ⟨s, hrun, htargets, channels_exclusive_iff ⟨true, [], rfl⟩ hrun⟩

/-- The client leaves the choice of the channels to the server, both times. -/
def sharedRun : List (Action .counting countingMuxers) :=
  setupRun 10000000 0 [.unicast] ++ setupRun 10000001 1 [.unicast]

theorem not_exclusive_sharedRun :
    ∃ s, Transition.run step (start true []) sharedRun = some s ∧ s.uses 0 0 ∧ s.uses 0 1 ∧
      ¬ s.Exclusive := by
  obtain ⟨s, hrun, h₀, h₁⟩ : ∃ s, Transition.run step (start true []) sharedRun = some s ∧
      s.uses 0 0 ∧ s.uses 0 1 := ⟨_, rfl, by decide, by decide⟩
  exact ⟨s, hrun, h₀, h₁, fun h => absurd (h 0 0 1 h₀ h₁) (by decide)⟩

end First

end Carrier
