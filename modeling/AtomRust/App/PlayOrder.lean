-- SUMMARY: A connection carries no media of a session before a PLAY request for it was answered with 200, and a refused one does not start it.
import AtomRust.App.Link

/-!
# The order of answers and media

The session may enqueue media as soon as it has taken the `Play` message, and the
response to the PLAY request is made after that. The connection's worker keeps
them in order: it is the task in which the handler runs, so it takes nothing from
the queue before the response is flushed. `Granted` follows a sent `Play` message
along this way, from the call to the flushed response or to the end of the
connection.
-/

open Media (Video)
open Session (CallPc Occurrence Outcome)
open App (Answer Interleaved Request Response)

namespace Link
variable {V : Video} {l l' : Link V} {a : Action V} {s : Session V} {c : Nat}
  {conn : Connection Interleaved Request Answer}

/-- The handler has made this answer. -/
def Given (l : Link V) (answer : Answer) : Prop :=
  l.conn.pc = .send answer ∨ .response answer ∈ l.conn.wire

/-- The queue or the connection's worker holds this message. -/
def Coming (l : Link V) (message : Interleaved) : Prop :=
  message ∈ l.conn.queue ∨ ∃ rounds, l.conn.pc = .feed message rounds

/-- How far call `c`, which has sent `Play`, is from its answer. -/
inductive Granted (l : Link V) (c : Nat) : Prop where
  | awaited (call : l.call = some c)
  | sending (answer : Answer) (call : answer.call = some c) (pc : l.conn.pc = .send answer)
  | flushing (answer : Answer) (call : answer.call = some c) (pc : l.conn.pc = .flushResponse)
      (wire : .response answer ∈ l.conn.wire)
  | written (answer : Answer) (call : answer.call = some c)
      (wire : [.flushed, .response answer].Sublist l.conn.wire)
  | left {disconnected : Bool} (pc : l.conn.pc = .left disconnected)
  | ended {disconnected : Bool} (pc : l.conn.pc = .ended disconnected)

/-- A 200 response to a PLAY request that started the session. -/
structure Plays (answer : Answer) (id : SessionId) : Prop where
  method : answer.request.method = .play
  session : answer.request.session = some id
  call : answer.call.isSome
  status : answer.response.status = .ok

structure Inv (l : Link V) : Prop where
  session : (Session.system V).Reachable l.session
  /-- A call of `play` that has not returned is the one that the handler waits
  for. -/
  awaited : ∀ (c : Nat) pc, l.session.calls[c]? = some pc → pc.active → pc.isPlay → l.call = some c
  handling : ∀ c, l.call = some c → ∃ request r pc, l.conn.pc = .handle request ∧
    App.handle request = .call l.id r ∧ l.session.calls[c]? = some pc ∧ pc.isPlay = r.isPlay
  given : ∀ answer c, l.Given answer → answer.call = some c → ∃ r outcome,
    App.handle answer.request = .call l.id r ∧
      l.session.calls[c]? = some (.returned outcome) ∧ outcome.isPlay = r.isPlay ∧
      answer.response = App.finish answer.request (some outcome)
  granted : ∀ c, .sentPlay c ∈ l.session.log → l.Granted c
  coming : ∀ message, l.Coming message → message.own → ∃ c, .sentPlay c ∈ l.session.log
  written : ∀ newer message older, l.conn.wire = newer ++ .media message :: older → message.own →
    ∃ answer, Plays answer l.id ∧ [.flushed, .response answer].Sublist older

/-- Nothing new comes from a connection that takes nothing from its queue. -/
theorem Coming.of_subset {message : Interleaved} (h : Coming { l with conn } message)
    (hqueue : conn.queue ⊆ l.conn.queue)
    (hpc : ∀ message rounds, conn.pc ≠ .feed message rounds) : l.Coming message := by
  rcases h with hmem | ⟨rounds, hfeed⟩
  · exact .inl (hqueue hmem)
  · exact absurd hfeed (hpc message rounds)

theorem inv_of_init (h : l.Init) : Inv l := by
  obtain ⟨target, muxer, accepted, stopAll, hs⟩ := h.session
  obtain ⟨request, hpc, -, -⟩ := h.handling
  have hwire : ∀ sent ∈ l.conn.wire, _ := h.wire
  refine ⟨.init ⟨target, muxer, accepted, stopAll, hs⟩, ?_, ?_, ?_, ?_, ?_, ?_⟩
  · intro c pc hc
    simp [hs, Session.setupAndStart] at hc
  · intro c hc
    simp [h.call] at hc
  · intro answer c hgiven hc
    rcases hgiven with hgiven | hgiven
    · simp [hpc] at hgiven
    · simp [(h.wire _ hgiven).2 answer rfl] at hc
  · intro c hc
    simp [hs, Session.setupAndStart] at hc
  · intro message hcoming hown
    rcases hcoming with hmem | ⟨rounds, hfeed⟩
    · simp [h.queue message hmem] at hown
    · simp [hpc] at hfeed
  · intro newer message older hw hown
    have hmem : .media message ∈ l.conn.wire := by simp [hw]
    simp [(h.wire _ hmem).1 message rfl] at hown

namespace Inv

/-! ## Steps of the session -/

/-- The session takes a step, and the call that the handler waits for is `call`
from now on: a new one if a call of `play` begins. -/
theorem onSession {b : Session.Action V} {call : Option Nat} (hi : Inv l)
    (h : l.session.step b = some s)
    (hcall : call = l.call ∧ (∀ request, b = .find request → request.isPlay = false) ∨
      l.call = none ∧ call = some l.session.calls.length ∧ ∃ request r, b = .find r ∧
        l.conn.pc = .handle request ∧ App.handle request = .call l.id r) :
    Inv { l with session := s, call } := by
  have hcalls := Session.Calls.step h
  have hkeep : ∀ {c}, l.call = some c → call = some c := by
    intro c hc
    rcases hcall with ⟨rfl, -⟩ | ⟨hnone, -⟩
    · exact hc
    · simp [hnone] at hc
  refine ⟨hi.session.step h, ?_, ?_, ?_, ?_, ?_, hi.written⟩
  · intro c next hc hactive hplay
    rcases hcalls.origin hc with ⟨pc, hpc, rfl | hadvance⟩ | ⟨r, rfl, rfl, rfl⟩
    · exact hkeep (hi.awaited c _ hpc hactive hplay)
    · exact hkeep (hi.awaited c pc hpc hadvance.active (hadvance.isPlay ▸ hplay))
    · rcases hcall with ⟨-, hr⟩ | ⟨-, hnew, -⟩
      · exact absurd hplay (by simp [CallPc.isPlay, hr r rfl])
      · exact hnew
  · intro c hc
    have hold : l.call = some c → ∃ request r pc, l.conn.pc = .handle request ∧
        App.handle request = .call l.id r ∧ s.calls[c]? = some pc ∧ pc.isPlay = r.isPlay := by
      intro hc
      obtain ⟨request, r, pc, hhandle, hr, hpc, hplay⟩ := hi.handling c hc
      obtain ⟨next, hnext, rfl | hadvance⟩ := hcalls.moved hpc
      · exact ⟨request, r, next, hhandle, hr, hnext, hplay⟩
      · exact ⟨request, r, next, hhandle, hr, hnext, hadvance.isPlay.trans hplay⟩
    rcases hcall with ⟨rfl, -⟩ | ⟨-, rfl, request, r, rfl, hhandle, hr⟩
    · exact hold hc
    · obtain rfl : l.session.calls.length = c := Option.some.inj hc
      cases hcalls with
      | find calls _ => exact ⟨request, r, .lock r, hhandle, hr, by simp [calls], rfl⟩
      | other _ ha => exact absurd rfl (ha r)
  · intro answer c hgiven hc
    obtain ⟨r, outcome, hr, hpc, hplay, hresponse⟩ := hi.given answer c hgiven hc
    obtain ⟨next, hnext, rfl | hadvance⟩ := hcalls.moved hpc
    · exact ⟨r, outcome, hr, hnext, hplay, hresponse⟩
    · cases hadvance.active
  · intro c hc
    rcases hcalls.sentPlay hc with hc | ⟨pc, next, st, hpc, -, hadvance, hplayed⟩
    · cases hi.granted c hc with
      | awaited hcall => exact .awaited (hkeep hcall)
      | sending answer hcall hpc => exact .sending answer hcall hpc
      | flushing answer hcall hpc hwire => exact .flushing answer hcall hpc hwire
      | written answer hcall hwire => exact .written answer hcall hwire
      | left hpc => exact .left hpc
      | ended hpc => exact .ended hpc
    · refine .awaited (hkeep (hi.awaited c pc hpc hadvance.active ?_))
      exact hadvance.isPlay ▸ hplayed.isPlay
  · intro message hcoming hown
    obtain ⟨c, hc⟩ := hi.coming message hcoming hown
    exact ⟨c, hcalls.log.subset hc⟩

/-! ## Steps of the connection -/

theorem call_eq_none (hi : Inv l) (h : ∀ request, l.conn.pc ≠ .handle request) : l.call = none := by
  cases hcall : l.call with
  | none => rfl
  | some c =>
      obtain ⟨request, _, _, hpc, _⟩ := hi.handling c hcall
      exact absurd hpc (h request)

/-- While no request is handled, every `Play` message sent has its answer. -/
theorem settled (hi : Inv l) (hpc : l.conn.pc.idle) (h : l.Granted c) :
    ∃ answer : Answer, answer.call = some c ∧
      [.flushed, .response answer].Sublist l.conn.wire := by
  have hne : ∀ pc, pc.idle = false → l.conn.pc ≠ pc := by
    rintro pc hbusy rfl
    simp [hbusy] at hpc
  cases h with
  | awaited hcall => simp [hi.call_eq_none fun request => hne _ rfl] at hcall
  | sending answer _ h => exact absurd h (hne _ rfl)
  | flushing answer _ h => exact absurd h (hne _ rfl)
  | written answer hcall hwire => exact ⟨answer, hcall, hwire⟩
  | left h => exact absurd h (hne _ rfl)
  | ended h => exact absurd h (hne _ rfl)

/-- The answer of a call that has sent `Play` is a 200. -/
theorem plays (hi : Inv l) {answer : Answer} (hcall : answer.call = some c)
    (hc : .sentPlay c ∈ l.session.log) (hgiven : l.Given answer) : Plays answer l.id := by
  obtain ⟨r, outcome, hr, hpc, hplay, hresponse⟩ := hi.given answer c hgiven hcall
  obtain ⟨st, pc, hpc', hplayed⟩ := (Session.started_of_reachable hi.session).granted c hc
  obtain rfl : .returned outcome = pc := Option.some.inj (hpc.symm.trans hpc')
  obtain rfl : outcome = .played st := by simpa [CallPc.Played] using hplayed
  cases r with
  | teardown => cases hplay
  | play range =>
      obtain ⟨hmethod, hsession⟩ := App.play_of_handle hr
      exact ⟨hmethod, hsession, by simp [hcall], by rw [hresponse]; rfl⟩

/-- The connection takes a step, and the session does not. -/
theorem frame (new : List (Connection.Sent Interleaved Answer)) (hi : Inv l)
    (hcall : conn.pc = l.conn.pc ∨ ∀ request, l.conn.pc ≠ .handle request)
    (hwire : conn.wire = new ++ l.conn.wire)
    (hgiven : ∀ answer, conn.pc = .send answer ∨ .response answer ∈ new → l.Given answer)
    (hgranted : ∀ c, l.Granted c → Granted { l with conn } c)
    (hcoming : ∀ message, Coming { l with conn } message → message.own →
      ∃ c, .sentPlay c ∈ l.session.log)
    (hnew : new.length ≤ 1)
    (hwritten : ∀ message, .media message ∈ new → message.own →
      ∃ answer, Plays answer l.id ∧ [.flushed, .response answer].Sublist l.conn.wire) :
    Inv { l with conn } := by
  refine ⟨hi.session, hi.awaited, ?_, ?_, fun c hc => hgranted c (hi.granted c hc), hcoming, ?_⟩
  · intro c hc
    rcases hcall with hpc | hpc
    · obtain ⟨request, r, pc, hhandle, h⟩ := hi.handling c hc
      exact ⟨request, r, pc, hpc.trans hhandle, h⟩
    · simp [hi.call_eq_none hpc] at hc
  · intro answer c h hc
    refine hi.given answer c ?_ hc
    rcases h with h | h
    · exact hgiven answer (.inl h)
    · rw [hwire] at h
      rcases List.mem_append.mp h with h | h
      · exact hgiven answer (.inr h)
      · exact .inr h
  · intro newer message older h hown
    change conn.wire = _ at h
    rw [hwire] at h
    cases new with
    | nil => exact hi.written newer message older h hown
    | cons sent new =>
        obtain rfl : new = [] :=
          List.length_eq_zero_iff.mp (Nat.le_zero.mp (Nat.le_of_succ_le_succ hnew))
        cases newer with
        | nil =>
            obtain ⟨rfl, rfl⟩ := List.cons.inj h
            exact hwritten message List.mem_cons_self hown
        | cons _ newer => exact hi.written newer message older (List.cons.inj h).2 hown

/-- The worker of an idle connection moves on within its loop. -/
theorem onIdle (new : List (Connection.Sent Interleaved Answer)) (hi : Inv l)
    (hpc : l.conn.pc.idle) (hwire : conn.wire = new ++ l.conn.wire)
    (hnew : new = [] ∨ new = [.flushed] ∨ ∃ message rounds, l.conn.pc = .feed message rounds ∧
      new = [.media message])
    (hpc' : ∀ answer, conn.pc ≠ .send answer)
    (hcoming : ∀ message, Coming { l with conn } message → l.Coming message) :
    Inv { l with conn } := by
  have hbusy : ∀ request, l.conn.pc ≠ .handle request := by
    intro request h
    simp [h, Connection.Pc.idle] at hpc
  refine hi.frame new (.inr hbusy) hwire ?_ ?_ ?_ ?_ ?_
  · rintro answer (h | h)
    · exact absurd h (hpc' answer)
    · rcases hnew with rfl | rfl | ⟨_, _, _, rfl⟩ <;> simp at h
  · intro c hgranted
    obtain ⟨answer, hcall, hsub⟩ := hi.settled hpc hgranted
    exact .written answer hcall (hwire ▸ hsub.trans (List.sublist_append_right _ _))
  · intro message h
    exact hi.coming message (hcoming message h)
  · rcases hnew with rfl | rfl | ⟨_, _, _, rfl⟩ <;> simp
  · intro message hmem hown
    rcases hnew with rfl | rfl | ⟨message', rounds, hfeed, rfl⟩
    · cases hmem
    · simp at hmem
    · obtain rfl : message = message' := by simpa using hmem
      obtain ⟨c, hc⟩ := hi.coming message (.inr ⟨rounds, hfeed⟩) hown
      obtain ⟨answer, hcall, hsub⟩ := hi.settled hpc (hi.granted c hc)
      exact ⟨answer, hi.plays hcall hc (.inr (hsub.subset (by simp))), hsub⟩

theorem onConnection {b : Connection.Action Interleaved Request Answer} (hi : Inv l)
    (h : l.conn.step b = some conn) (hb : ∀ answer, b ≠ .respond answer)
    (hown : ∀ message, b = .enqueue message → message.own → ∃ c, .sentPlay c ∈ l.session.log) :
    Inv { l with conn } := by
  cases Connection.effect_of_step h with
  | @enqueued message heq =>
      subst heq
      refine hi.frame [] (.inl rfl) rfl ?_ ?_ ?_ (by simp) (fun _ => nofun)
      · rintro answer (h | h)
        · exact .inl h
        · cases h
      · intro c hgranted
        cases hgranted with
        | awaited hcall => exact .awaited hcall
        | sending answer hcall hpc => exact .sending answer hcall hpc
        | flushing answer hcall hpc hwire => exact .flushing answer hcall hpc hwire
        | written answer hcall hwire => exact .written answer hcall hwire
        | left hpc => exact .left hpc
        | ended hpc => exact .ended hpc
      · intro message' hcoming ho
        rcases hcoming with hmem | hfeed
        · rcases List.mem_append.mp hmem with hmem | hmem
          · exact hi.coming message' (.inl hmem) ho
          · obtain rfl := List.mem_singleton.mp hmem
            exact hown message' rfl ho
        · exact hi.coming message' (.inr hfeed) ho
  | @taken _ message rounds queue pc hqueue heq =>
      subst heq
      refine hi.onIdle [] ?_ rfl (.inl rfl) (fun _ => nofun) ?_
      · rcases pc with pc | pc <;> simp [pc, Connection.Pc.idle]
      · rintro message' (hmem | ⟨rounds', hfeed⟩)
        · exact .inl (hqueue ▸ List.mem_cons_of_mem _ hmem)
        · obtain ⟨rfl, -⟩ : message = message' ∧ _ := by simpa using hfeed
          exact .inl (hqueue ▸ List.mem_cons_self)
  | @fed _ message rounds next pc hnext heq =>
      subst heq
      have hne : ∀ pc : Connection.Pc Interleaved Request Answer,
          (∀ rounds, pc ≠ .tryRecv rounds) → pc ≠ .flush → next ≠ pc := by
        rintro pc htry hflush rfl
        rcases hnext with hnext | ⟨rounds, hnext⟩
        · exact hflush hnext
        · exact htry rounds hnext
      exact hi.onIdle [.media message] (by simp [pc, Connection.Pc.idle]) rfl
        (.inr (.inr ⟨message, rounds, pc, rfl⟩)) (fun answer => hne _ nofun nofun)
        fun _ h => h.of_subset (List.Subset.refl _) fun _ _ => hne _ nofun nofun
  | drained pc heq =>
      subst heq
      exact hi.onIdle [] (by simp [pc, Connection.Pc.idle]) rfl (.inl rfl) (fun _ => nofun)
        fun _ h => h.of_subset (List.Subset.refl _) fun _ _ => nofun
  | flushed pc heq =>
      subst heq
      have hcoming : ∀ message, Coming { l with conn :=
          ({ l.conn with pc := .select } : Connection _ _ _).note .flushed } message →
          l.Coming message :=
        fun _ h => h.of_subset (List.Subset.refl _) fun _ _ => nofun
      rcases pc with pc | pc
      · exact hi.onIdle [.flushed] (by simp [pc, Connection.Pc.idle]) rfl (.inr (.inl rfl))
          (fun _ => nofun) hcoming
      · -- The response that was handed over is now written.
        refine hi.frame [.flushed] (.inr (by simp [pc])) rfl (by simp [Connection.note]) ?_
          (fun message h => hi.coming message (hcoming message h)) (by simp) (by simp)
        intro c hgranted
        cases hgranted with
        | awaited hcall => simp [hi.call_eq_none (by simp [pc])] at hcall
        | sending _ _ h | left h | ended h => simp [pc] at h
        | flushing answer hcall _ hwire =>
            exact .written answer hcall (.cons_cons _ (List.singleton_sublist.mpr hwire))
        | written answer hcall hwire => exact .written answer hcall (.cons _ hwire)
  | requested pc heq =>
      subst heq
      exact hi.onIdle [] (by simp [pc, Connection.Pc.idle]) rfl (.inl rfl) (fun _ => nofun)
        fun _ h => h.of_subset (List.Subset.refl _) fun _ _ => nofun
  | ignored pc heq =>
      subst heq
      exact hi
  | responded => exact absurd rfl (hb _)
  | @sent _ answer pc heq =>
      subst heq
      refine hi.frame [.response answer] (.inr (by simp [pc])) rfl ?_ ?_ ?_ (by simp)
        (by simp)
      · rintro answer' (h | h)
        · cases h
        · obtain rfl : answer' = answer := by simpa using h
          exact .inl pc
      · intro c hgranted
        cases hgranted with
        | awaited hcall => simp [hi.call_eq_none (by simp [pc])] at hcall
        | flushing _ _ h | left h | ended h => simp [pc] at h
        | sending answer' hcall h =>
            obtain rfl : answer = answer' := by simpa [pc] using h
            exact .flushing answer hcall rfl List.mem_cons_self
        | written answer' hcall hwire => exact .written answer' hcall (.cons _ hwire)
      · intro message h
        exact hi.coming message (h.of_subset (List.Subset.refl _) fun _ _ => nofun)
  | broken pc heq =>
      subst heq
      refine hi.frame [] (.inr pc) rfl (by simp) (fun c _ => .left rfl) ?_ (by simp)
        (fun _ => nofun)
      intro message h
      exact hi.coming message (h.of_subset (List.Subset.refl _) fun _ _ => nofun)
  | ended pc heq =>
      subst heq
      refine hi.frame [] (.inr (by simp [pc])) rfl (by simp) (fun c _ => .ended rfl) ?_
        (by simp) (fun _ => nofun)
      intro message h
      exact hi.coming message (h.of_subset (List.nil_subset _) fun _ _ => nofun)

/-! ## Steps of both -/

/-- The handler answers: without a call of the session, or after it returned. -/
theorem answer {request : Request} {response : Response} (hi : Inv l)
    (hrequest : l.conn.pc = .handle request)
    (hreturned : ∀ c, l.call = some c → ∃ outcome, l.session.calls[c]? = some (.returned outcome) ∧
      response = App.finish request (some outcome))
    (h : l.answer request response = some l') : Inv l' := by
  obtain ⟨conn, hconn, rfl⟩ := Option.map_eq_some_iff.mp h
  obtain ⟨-, -, rfl⟩ := Connection.respond_eq_some.mp hconn
  refine ⟨hi.session, ?_, nofun, ?_, ?_, ?_, hi.written⟩
  · intro c pc hc hactive hplay
    obtain ⟨outcome, hpc, -⟩ := hreturned c (hi.awaited c pc hc hactive hplay)
    obtain rfl : pc = .returned outcome := Option.some.inj (hc.symm.trans hpc)
    cases hactive
  · intro answer c hgiven hc
    rcases hgiven with hgiven | hgiven
    · obtain rfl := Connection.Pc.send.inj hgiven
      obtain ⟨outcome, hpc, hresponse⟩ := hreturned c hc
      obtain ⟨request', r, pc, hpc', hr, hget, hplay⟩ := hi.handling c hc
      obtain rfl : request = request' := Connection.Pc.handle.inj (hrequest.symm.trans hpc')
      obtain rfl : pc = .returned outcome := Option.some.inj (hget.symm.trans hpc)
      exact ⟨r, outcome, hr, hpc, hplay, hresponse⟩
    · exact hi.given answer c (.inr hgiven) hc
  · intro c hc
    cases hi.granted c hc with
    | awaited hcall => exact .sending ⟨request, l.call, response⟩ hcall rfl
    | written answer hcall hwire => exact .written answer hcall hwire
    | sending _ _ hpc | flushing _ _ hpc | left hpc | ended hpc => simp [hrequest] at hpc
  · rintro message (hmem | ⟨rounds, hfeed⟩) hown
    · exact hi.coming message (.inl hmem) hown
    · cases hfeed

theorem request_eq_some {request : Request} :
    l.request = some request ↔ l.conn.pc = .handle request := by
  unfold Link.request
  split
  next hpc => simp [hpc]
  next hpc => exact ⟨nofun, fun h => absurd h (hpc request)⟩

theorem trySend (hi : Inv l) (h : l.trySend = some l') : Inv l' := by
  obtain ⟨s, hs, rfl⟩ := Option.map_eq_some_iff.mp h
  have hsession : Inv { l with session := s } := hi.onSession hs (.inl ⟨rfl, nofun⟩)
  split
  next message rest hpc hok =>
    refine hsession.onConnection (b := .enqueue (l.target.message message)) (by
      simp [Connection.step, hok]) (fun _ => nofun) fun _ _ _ => ?_
    -- A session that sends is playing.
    have hstarted := Session.started_of_reachable hi.session
    obtain ⟨c, hc⟩ := hstarted.playing (hstarted.sending message rest hpc)
    have htook := (Session.paired_of_reachable hi.session).tookPlay c hc
    exact ⟨c, (Session.Calls.step hs).log.subset (htook.subset (by simp))⟩
  next => exact hsession

theorem lookup (hi : Inv l) (h : l.lookup = some l') : Inv l' := by
  unfold Link.lookup at h
  split at h
  next id r hhandle hcall =>
    obtain ⟨request, hrequest, hr⟩ := Option.map_eq_some_iff.mp hhandle
    split at h
    next hid =>
      obtain ⟨s, hs, rfl⟩ := Option.map_eq_some_iff.mp h
      exact hi.onSession hs
        (.inr ⟨hcall, rfl, request, r, rfl, request_eq_some.mp hrequest, hid ▸ hr⟩)
    next => cases h
  next => cases h

theorem returns (hi : Inv l) (h : l.returns = some l') : Inv l' := by
  unfold Link.returns at h
  split at h
  next request outcome hrequest hcalls =>
    refine hi.answer (request_eq_some.mp hrequest) (fun c hc => ⟨outcome, ?_, rfl⟩) h
    rw [hc] at hcalls
    exact hcalls
  next => cases h

theorem passes {outcome : Option Outcome} {elsewhere : Response} (hi : Inv l)
    (h : l.passes outcome elsewhere = some l') : Inv l' := by
  unfold Link.passes at h
  split at h
  next request hrequest hcall =>
    have hanswer : ∀ response, l.answer request response = some l' → Inv l' := fun response =>
      hi.answer (request_eq_some.mp hrequest) fun c hc => by simp [hcall] at hc
    split at h
    · exact hanswer _ h
    · split at h
      · exact hanswer _ h
      · cases h
    · exact hanswer _ h
  next => cases h

theorem exit (hi : Inv l) (h : l.exit = some l') : Inv l' := by
  obtain ⟨conn, hconn, h⟩ := Option.bind_eq_some_iff.mp h
  obtain ⟨s, hs, rfl⟩ := Option.map_eq_some_iff.mp h
  have hconnection : Inv { l with conn } := hi.onConnection hconn (fun _ => nofun) nofun
  exact hconnection.onSession hs (.inl ⟨rfl, nofun⟩)

theorem step (hi : Inv l) (h : l.step a = some l') : Inv l' := by
  cases a with
  | session b =>
      simp only [Link.step] at h
      split at h
      next hb =>
        obtain ⟨s, hs, rfl⟩ := Option.map_eq_some_iff.mp h
        refine hi.onSession hs (.inl ⟨rfl, ?_⟩)
        rintro request rfl
        simpa [ofSession] using hb
      next => cases h
  | conn b =>
      simp only [Link.step] at h
      split at h
      next hb =>
        obtain ⟨conn, hconn, rfl⟩ := Option.map_eq_some_iff.mp h
        refine hi.onConnection hconn ?_ ?_
        · rintro answer rfl
          cases hb
        · rintro message rfl hown
          simp [ofConnection, hown] at hb
      next => cases h
  | trySend => exact hi.trySend h
  | lookup => exact hi.lookup h
  | returns => exact hi.returns h
  | passes outcome elsewhere => exact hi.passes h
  | exit => exact hi.exit h

end Inv

theorem inv_of_reachable (h : (system V).Reachable l) : Inv l :=
  h.invariant (fun _ => inv_of_init) fun _ _ _ _ hi hs => hi.step hs

/-! ## The order on the wire -/

/-- A step of a link is a step of its session, or none. -/
theorem session_of_step (h : l.step a = some l') :
    l'.session = l.session ∨ ∃ b, l.session.step b = some l'.session := by
  have hanswer : ∀ {request response}, l.answer request response = some l' →
      l'.session = l.session := by
    intro request response h
    obtain ⟨conn, -, rfl⟩ := Option.map_eq_some_iff.mp h
    rfl
  cases a with
  | session b =>
      simp only [step] at h
      split at h
      · obtain ⟨s, hs, rfl⟩ := Option.map_eq_some_iff.mp h
        exact .inr ⟨b, hs⟩
      · cases h
  | conn b =>
      simp only [step] at h
      split at h
      · obtain ⟨conn, -, rfl⟩ := Option.map_eq_some_iff.mp h
        exact .inl rfl
      · cases h
  | trySend =>
      obtain ⟨s, hs, rfl⟩ := Option.map_eq_some_iff.mp h
      split <;> exact .inr ⟨_, hs⟩
  | lookup =>
      simp only [step, lookup] at h
      split at h
      · split at h
        · obtain ⟨s, hs, rfl⟩ := Option.map_eq_some_iff.mp h
          exact .inr ⟨_, hs⟩
        · cases h
      · cases h
  | returns =>
      simp only [step, returns] at h
      split at h
      · exact .inl (hanswer h)
      · cases h
  | passes outcome elsewhere =>
      simp only [step, passes] at h
      split at h
      · split at h
        · exact .inl (hanswer h)
        · split at h
          · exact .inl (hanswer h)
          · cases h
        · exact .inl (hanswer h)
      · cases h
  | exit =>
      obtain ⟨conn, -, h⟩ := Option.bind_eq_some_iff.mp h
      obtain ⟨s, hs, rfl⟩ := Option.map_eq_some_iff.mp h
      exact .inr ⟨_, hs⟩

/-- Before any media of the session is handed to the outbound writer, a 200
response to a PLAY request for it is handed over and flushed. A call whose
request is answered with an error has sent no `Play` message, and the session
comes to the Playing state only by taking the message of a call that returns a
stream state. -/
theorem play_precedes_media (h : (system V).Reachable l) :
    (∀ newer message older, l.conn.wire = newer ++ .media message :: older → message.own →
      ∃ answer, Plays answer l.id ∧ [.flushed, .response answer].Sublist older) ∧
    (∀ answer c, l.Given answer → answer.call = some c → answer.response.status ≠ .ok →
      .sentPlay c ∉ l.session.log ∧ .tookPlay c ∉ l.session.log) ∧
    ∀ a l', l.step a = some l' → l.session.worker.state ≠ .playing →
      l'.session.worker.state = .playing →
      ∃ c st pc, l'.session.log = .tookPlay c :: l.session.log ∧
        l'.session.calls[c]? = some pc ∧ CallPc.Played st pc := by
  have hi := inv_of_reachable h
  have htook : ∀ {s : Session V}, (Session.system V).Reachable s → ∀ c, .tookPlay c ∈ s.log →
      .sentPlay c ∈ s.log := fun hs c hc =>
    ((Session.paired_of_reachable hs).tookPlay c hc).subset (by simp)
  refine ⟨hi.written, fun answer c hgiven hcall hstatus => ?_, fun a l' ha hready hplay => ?_⟩
  · have hsent : .sentPlay c ∉ l.session.log := fun hc =>
      hstatus (hi.plays hcall hc hgiven).status
    exact ⟨hsent, fun hc => hsent (htook hi.session c hc)⟩
  · rcases session_of_step ha with heq | ⟨b, hb⟩
    · exact absurd (heq ▸ hplay) hready
    · obtain ⟨c, hlog⟩ := (Session.playing_of_step hb hplay).resolve_left hready
      have hs := hi.session.step hb
      obtain ⟨st, pc, hpc, hplayed⟩ := (Session.started_of_reachable hs).granted c
        (htook hs c (by simp [hlog]))
      exact ⟨c, st, pc, hlog, hpc, hplayed⟩

/-- A PLAY request for the range `range`. -/
def playRequest (range : Option Session.Range) : Request where
  method := .play
  uri := "rtsp://localhost/camera"
  require := none
  range := range.map .ok
  session := some ⟨"10000000"⟩

/-- A client has just set up a session. -/
def setUp : Link .counting where
  id := ⟨"10000000"⟩
  target := { rtpChannel := 0, rtcpChannel := 1 }
  session := .setupAndStart .rtpTcp (0 : UInt16) true []
  conn := { (Connection.start : Connection Interleaved Request Answer) with
    pc := .handle { playRequest none with method := .setup, session := none } }
  call := none

/-- It asks for a range that is refused, and then for the live stream. A packet of
the session is in the queue before the response to the second request is made. -/
def earlyMedia : List (Action .counting) :=
  [.session .poll, .passes none .ok, .conn (.send .ok), .conn (.flushResponse .ok),
    .conn (.next (.message (playRequest (some ⟨none, none⟩)))), .lookup, .session (.call 0),
    .session (.call 0), .returns, .conn (.send .ok), .conn (.flushResponse .ok),
    .conn (.next (.message (playRequest none))), .lookup, .session (.call 1), .session (.call 1),
    .session (.call 1), .session .takeControl, .session (.packet (.ok true)), .session .reply,
    .session (.call 1), .session (.call 1), .session .takeControl, .session (.packet (.ok true)),
    .trySend, .session (.call 1), .returns, .conn (.send .ok), .conn (.flushResponse .ok),
    .conn .recv, .conn (.feed .ok)]

theorem play_precedes_media_earlyMedia :
    ∃ l message older refused, Transition.run step setUp earlyMedia = some l ∧
      l.conn.wire = .media message :: older ∧ message.payload = Media.stamp 1 ∧
      (∃ answer, Plays answer l.id ∧ [.flushed, .response answer].Sublist older) ∧
      .response refused ∈ older ∧ refused.response.status = .headerFieldNotValid ∧
      Occurrence.sentPlay 0 ∉ (l : Link .counting).session.log := by
  obtain ⟨l, message, older, refused, hl, hwire, hpayload, hown, hmem, hcall, hstatus⟩ :
      ∃ l message older refused, Transition.run step setUp earlyMedia = some l ∧
        l.conn.wire = .media message :: older ∧ message.payload = Media.stamp 1 ∧
        message.own = true ∧ older[3]? = some (.response refused) ∧ refused.call = some 0 ∧
        refused.response.status = .headerFieldNotValid :=
    ⟨_, _, _, _, rfl, rfl, rfl, rfl, rfl, rfl, rfl⟩
  have hmem := List.mem_of_getElem? hmem
  have hinit : Init setUp :=
    ⟨⟨_, _, _, _, rfl⟩, ⟨_, rfl, rfl, rfl⟩, rfl, by simp [setUp, Connection.start],
      by simp [setUp, Connection.start]⟩
  obtain ⟨hmedia, hrefused, -⟩ := play_precedes_media ⟨setUp, earlyMedia, hinit, hl⟩
  exact ⟨l, message, older, refused, hl, hwire, hpayload, hmedia [] message older hwire hown, hmem,
    hstatus, (hrefused refused 0 (.inr (by simp [hwire, hmem])) hcall (by simp [hstatus])).1⟩

end Link
