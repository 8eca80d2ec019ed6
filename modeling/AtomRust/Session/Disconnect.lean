-- SUMMARY: When a session notices that the connection it was set up on has ended.
import AtomRust.Session.Registry

/-!
# Disconnects

The connection's worker drops the receiver of its queue as it ends, and a
session hears of it only when it next tries to send there. A session that plays
does so at the next keyframe at the latest; one that was set up and never played
does not send, and goes on for as long as the source does.
-/

open Media (RtpBuf StreamState Video)
open List (getElem?_set_of_some)

namespace SessionManager
variable {V : Video} {m m' : SessionManager V} {i : Nat} {u : SetupCall V}

/-- From `m` on, the worker of session `i` takes `n` steps at most. It can
always take the next one until it has sent its notice, which is then in the
manager's channel or acted on. -/
def Departs (m : SessionManager V) (i n : Nat) : Prop :=
  ∀ as m', Transition.run step m as = some m' → ∃ v : SetupCall V, m'.setups[i]? = some v ∧
    as.countP (Action.ofWorker i) ≤ n ∧ Reported m' i v ∧
    (v.session.stopped = false →
      ∃ b : Session.Action V, b.ofWorker ∧ (m'.step (.session i b)).isSome)

/-- Every frame yields at least one message. -/
def Fruitful (V : Video) : Prop :=
  ∀ muxer packet, ∃ buf bufs, (V.mux muxer packet).2 = some (buf :: bufs)

theorem packet_eq_some {packet : V.Packet} {s s' : Session V}
    (h : s.step (.packet (.ok packet)) = some s') : s.life = .running ∧
      s' = { s with worker := s.worker.onPacket (.ok packet), log := s.muxLog packet ++ s.log } := by
  cases Session.effect_of_step h with
  | packet hlife _ heq => exact ⟨hlife, heq⟩

/-! ## Sessions that play -/

/-- A playing worker that gets a keyframe when nobody reads the queue is on its
way out. -/
theorem leaving_of_playing {packet : V.Packet} {s s' : Session V} (hmux : Fruitful V)
    (hrx : s.mediaRx = false) (hkey : V.isKey packet) (hplay : s.worker.state = .playing)
    (h : s.step (.packet (.ok packet)) = some s') : s'.Leaving := by
  obtain ⟨hlife, rfl⟩ := packet_eq_some h
  obtain ⟨buf, bufs, hbufs⟩ := hmux s.worker.muxer packet
  have hskip : s.worker.skips packet = false := by simp [Session.Worker.skips, hkey]
  cases hneed : s.worker.needStreamState <;>
    simp [Session.Leaving, hlife, hrx, Session.Worker.onPacket, hskip, Session.Worker.mux, hneed,
      hbufs, Session.Worker.afterMux, hplay, Session.Worker.sendNext]

theorem departs_of_leaving (hm : (system V).Reachable m) (hu : m.setups[i]? = some u)
    (hleave : u.session.Leaving) : Departs m i u.session.distance := by
  intro as m' h
  have hm' := hm.run h
  obtain ⟨v, hv, hf⟩ := run_session h hu
  obtain ⟨bs, hbs, hcount⟩ := hf.run
  obtain ⟨hleave', hdistance⟩ := hleave.run hbs
  refine ⟨v, hv, by omega, (notified_of_reachable hm').sent i v hv, fun hstopped => ?_⟩
  obtain ⟨b, hb, hs⟩ :=
    hleave'.enabled (Session.sound_of_reachable (session_of_reachable hm' hv)) hstopped
  obtain ⟨s, hs⟩ := Option.isSome_iff_exists.mp hs
  obtain ⟨m₁, h₁, -⟩ := exists_step_session (ofSession_of_ofWorker hb) hv hs
  exact ⟨b, hb, by simp [h₁]⟩

/-! ## Sessions that do not -/

/-- The worker waits for what comes, and has nothing to send. -/
structure Listening (s : Session V) : Prop where
  life : s.life = .running
  pc : s.worker.pc = .select
  ready : s.worker.state = .ready
  need : s.worker.needStreamState = false

namespace Listening
variable {s s' : Session V}

theorem packet (hmux : Fruitful V) (packet : V.Packet) (hs : Listening s) :
    ∃ s', s.step (.packet (.ok packet)) = some s' ∧ Listening s' := by
  obtain ⟨buf, bufs, hbufs⟩ := hmux s.worker.muxer packet
  have hworker : s.worker.onPacket (.ok packet) =
      { s.worker with muxer := (V.mux s.worker.muxer packet).1, pc := .select } := by
    simp [Session.Worker.onPacket, Session.Worker.skips, Session.Worker.resume_of_ready hs.ready,
      Session.Worker.mux, hs.ready, hs.need, hbufs, Session.Worker.afterMux]
  refine ⟨{ s with worker := s.worker.onPacket (.ok packet), log := s.muxLog packet ++ s.log },
    ?_, ?_⟩
  · simp [Session.step, Session.packet, Session.event, hs.life, Session.Worker.step, hs.pc]
  · rw [hworker]
    exact ⟨hs.life, rfl, hs.ready, hs.need⟩

theorem of_reply {st : StreamState} {bufs : List RtpBuf} (hlife : s.life = .running)
    (hpc : s.worker.pc = .reply st (some bufs)) (hready : s.worker.state = .ready) :
    ∃ s', s.step .reply = some s' ∧ Listening s' := by
  refine ⟨{ s with
    worker := { s.worker with needStreamState := false }.afterMux (some bufs)
    streamStates := s.streamStates ++ [st]
    askers := [] }.note (.replied s.askers st), ?_, ?_⟩
  · simp [Session.step, Session.reply, hpc, Session.event, hlife, Session.Worker.step]
  · constructor <;> simp [Session.note, hlife, Session.Worker.afterMux, hready]

/-- In the Ready state a frame leads back to the `select!`, past the answer to a
request if there is one. -/
theorem of_packet {packet : V.Packet} (hmux : Fruitful V) (hready : s.worker.state = .ready)
    (h : s.step (.packet (.ok packet)) = some s') :
    ∃ bs t, (∀ b ∈ bs, Session.Action.ofWorker b) ∧ Transition.run Session.step s' bs = some t ∧
      Listening t := by
  obtain ⟨hlife, rfl⟩ := packet_eq_some h
  obtain ⟨buf, bufs, hbufs⟩ := hmux s.worker.muxer packet
  have hskip : s.worker.skips packet = false := by simp [Session.Worker.skips, hready]
  have hresume := Session.Worker.resume_of_ready hready
  cases hneed : s.worker.needStreamState with
  | false =>
      refine ⟨[], _, nofun, rfl, hlife, ?_, ?_, ?_⟩ <;>
        simp [Session.Worker.onPacket, hskip, hresume, Session.Worker.mux, hneed, hbufs,
          Session.Worker.afterMux, hready]
  | true =>
      have hpc' : (s.worker.onPacket (.ok packet)).pc =
          .reply (V.streamState (V.mux s.worker.muxer packet).1) (some (buf :: bufs)) := by
        simp [Session.Worker.onPacket, hskip, hresume, Session.Worker.mux, hneed, hbufs]
      have hready' : (s.worker.onPacket (.ok packet)).state = .ready := by simp [hready]
      obtain ⟨t, ht, hlisten⟩ := of_reply (s := { s with
        worker := s.worker.onPacket (.ok packet)
        log := s.muxLog packet ++ s.log }) hlife hpc' hready'
      exact ⟨[.reply], t, by simp [Session.Action.ofWorker],
        (Transition.run_singleton _ _).trans ht, hlisten⟩

end Listening

theorem not_departs_of_ready {packet : V.Packet} (hmux : Fruitful V)
    (hu : m.setups[i]? = some u) (hready : u.session.worker.state = .ready)
    (h : m.step (.session i (.packet (.ok packet))) = some m') (n : Nat) : ¬ Departs m' i n := by
  intro hdeparts
  obtain ⟨s, hs, hu'⟩ := session_step hu h
  obtain ⟨bs, t, hbs, hrun, hlisten⟩ := Listening.of_packet hmux hready hs
  obtain ⟨t', hrun', -⟩ :=
    Transition.exists_run_replicate (fun _ ht => Listening.packet hmux packet ht) (n + 1) hlisten
  have hown : ∀ b ∈ bs ++ List.replicate (n + 1) (.packet (.ok packet)), ofSession b := by
    intro b hb
    rcases List.mem_append.mp hb with hb | hb
    · exact ofSession_of_ofWorker (hbs b hb)
    · rw [List.eq_of_mem_replicate hb]
      rfl
  obtain ⟨m₁, h₁, -⟩ :=
    exists_run_session hown hu' (Transition.run_append_eq_some.mpr ⟨t, hrun, hrun'⟩)
  obtain ⟨v, -, hcount, -⟩ := hdeparts _ m₁ h₁
  rw [List.countP_map, List.countP_append, List.countP_replicate] at hcount
  simp [Action.ofWorker, Session.Action.ofWorker] at hcount
  omega

/-! ## The keyframe after a disconnect -/

/-- A session whose connection has ended leaves at the next keyframe exactly if
it was playing. -/
theorem departs_iff {packet : V.Packet} (hmux : Fruitful V) (hm : (system V).Reachable m)
    (hu : m.setups[i]? = some u) (hrx : u.session.mediaRx = false) (hkey : V.isKey packet)
    (h : m.step (.session i (.packet (.ok packet))) = some m') :
    (∃ n, Departs m' i n) ↔ u.session.worker.state = .playing := by
  constructor
  · rintro ⟨n, hn⟩
    by_contra hplay
    have hready : u.session.worker.state = .ready := by
      cases hs : u.session.worker.state <;> simp_all
    exact not_departs_of_ready hmux hu hready h n hn
  · intro hplay
    obtain ⟨s, hs, hu'⟩ := session_step hu h
    have hleave := leaving_of_playing hmux hrx hkey hplay hs
    exact ⟨_, departs_of_leaving (hm.step (a := .session i (.packet (.ok packet))) h) hu' hleave⟩

/-- The client sends SETUP and disconnects before PLAY. -/
def neverPlayed : List (Action .counting) :=
  [.setup 10000000 .rtpTcp (0 : UInt16), .register 0, .session 0 .poll, .session 0 .closeMedia]

/-- The client disconnects while it plays. -/
def played : List (Action .counting) :=
  [.setup 10000000 .rtpTcp (0 : UInt16), .register 0, .session 0 .poll,
    .find (.generate 10000000) (.play none), .session 0 (.call 0), .session 0 (.call 0),
    .session 0 (.call 0), .session 0 .takeControl, .session 0 (.packet (.ok true)),
    .session 0 .reply, .session 0 (.call 0), .session 0 (.call 0), .session 0 .takeControl,
    .session 0 .closeMedia]

theorem departs_iff_played :
    ∃ m m' u, Transition.run step (start true []) played = some m ∧ m.setups[0]? = some u ∧
      Transition.run step m [.session 0 (.packet (.ok true))] = some m' ∧
      u.session.worker.state = .playing ∧
      ((∃ n, Departs (V := .counting) m' 0 n) ↔ u.session.worker.state = .playing) := by
  obtain ⟨m, m', u, hm, hu, h, hrx, hplay⟩ :
      ∃ m m' u, Transition.run step (start (V := .counting) true []) played = some m ∧
        m.setups[0]? = some u ∧
        Transition.run step m [.session 0 (.packet (.ok true))] = some m' ∧
        u.session.mediaRx = false ∧ u.session.worker.state = .playing :=
    ⟨_, _, _, rfl, rfl, rfl, rfl, rfl⟩
  have hs := (Transition.run_singleton m _).symm.trans h
  exact ⟨m, m', u, hm, hu, h, hplay,
    departs_iff (fun _ _ => ⟨_, _, rfl⟩) ⟨_, played, ⟨_, _, rfl⟩, hm⟩ hu hrx rfl hs⟩

theorem not_departs_neverPlayed :
    ∃ m m' u, (system .counting).Reachable m ∧ m.setups[0]? = some u ∧
      u.session.mediaRx = false ∧ m.step (.session 0 (.packet (.ok true))) = some m' ∧
      ∀ n, ¬ Departs m' 0 n := by
  obtain ⟨m, m', u, hm, hu, h, hrx, hready⟩ :
      ∃ m m' u, Transition.run step (start (V := .counting) true []) neverPlayed = some m ∧
        m.setups[0]? = some u ∧
        Transition.run step m [.session 0 (.packet (.ok true))] = some m' ∧
        u.session.mediaRx = false ∧ u.session.worker.state = .ready :=
    ⟨_, _, _, rfl, rfl, rfl, rfl, rfl⟩
  have hs := (Transition.run_singleton m _).symm.trans h
  have hreach : (system .counting).Reachable m := ⟨_, neverPlayed, ⟨_, _, rfl⟩, hm⟩
  exact ⟨m, m', u, hreach, hu, hrx, hs,
    not_departs_of_ready (fun _ _ => ⟨_, _, rfl⟩) hu hready hs⟩

end SessionManager
