-- SUMMARY: What a query for the media info returns, by how many answers wait in the receiver of the delegate.
import AtomRust.Source.Catalog

/-!
# Queries for the media info

Every query is answered to all delegates, and a delegate's receiver collects the
answers to everybody's queries from the moment it subscribes. It holds
`maxQueuedInfo` of them; past that the next read reports a loss, which
`query_media_info` returns as `None`.
-/

namespace Source
variable {σ : Type} {s : Source σ} {d : Delegate σ} {r : Option (MediaInfo σ)}

theorem WorkerPc.alive_of_running {pc : WorkerPc} (h : pc.running) : pc.alive := by
  cases pc <;> first | rfl | cases h

/-- While the worker is alive, only an overrun receiver makes a query fail. -/
theorem Completes.cases (h : s.Completes d r) (hs : s.Uniform) (halive : s.workerPc.alive) :
    r = some (.fromStreamInfo s.streamInfo) ∧
        s.mediaInfo.length ≤ d.mediaInfoRx + maxQueuedInfo ∨
      r = none ∧ d.mediaInfoRx + maxQueuedInfo < s.mediaInfo.length := by
  have hr := h halive
  split at hr
  next hrecv =>
    obtain ⟨hget, hlength⟩ := Broadcast.of_recv_value hrecv
    exact .inl ⟨by rw [hr, hs _ (List.mem_of_getElem? hget)], hlength⟩
  next hrecv => exact .inr ⟨hr, Broadcast.of_recv_lagged hrecv⟩
  next => exact hr.elim

end Source

namespace SourceManager
variable {σ δ ε : Type} {m m' : SourceManager σ δ ε} {a : Action σ δ ε} {i c : Nat}
  {u v : RegisterCall σ δ ε} {d d' : Source.Delegate σ} {r : Option (MediaInfo σ)}

theorem uniform_of_reachable (h : (system σ δ ε).Reachable m) :
    ∀ (i : Nat) (u : RegisterCall σ δ ε), m.registers[i]? = some u → u.source.Uniform := by
  refine h.invariant (I := fun m => ∀ (i : Nat) (u : RegisterCall σ δ ε),
    m.registers[i]? = some u → u.source.Uniform) ?_ ?_
  · rintro m ⟨accepted, stopAll, rfl⟩ i u hu
    simp [start] at hu
  · intro m a m' _ hm hs i v hv
    have hfollows := (stepped_of_step hs).follows
    rcases hfollows.new i v hv with ⟨u, hu⟩ | ⟨-, -, hfresh⟩
    · obtain ⟨w, hw, hevolves⟩ := hfollows.old i u hu
      obtain rfl : v = w := Option.some.inj (hv.symm.trans hw)
      exact hevolves.source.uniform (hm i u hu)
    · simp [Source.Uniform, hfresh.mediaInfo]

/-- A query that completes while the worker is running returns the media info of the
source if at most `maxQueuedInfo` answers wait in the receiver of the delegate, and
`None` if more do. -/
theorem query_completes_iff (h : (system σ δ ε).Reachable m) (hstep : m.step a = some m')
    (hu : m.registers[i]? = some u) (hd : u.source.delegates[c]? = some d)
    (hv : m'.registers[i]? = some v) (hd' : v.source.delegates[c]? = some d')
    (hcomplete : d'.answers = r :: d.answers) (hrunning : v.source.workerPc.running) :
    (r = some (.fromStreamInfo u.source.streamInfo) ↔
      u.source.mediaInfo.length ≤ d.mediaInfoRx + Source.maxQueuedInfo) ∧
    (r = none ↔ d.mediaInfoRx + Source.maxQueuedInfo < u.source.mediaInfo.length) := by
  obtain ⟨w, hw, ⟨hevolves, -, -, -⟩⟩ := (stepped_of_step hstep).follows.old i u hu
  obtain rfl : v = w := Option.some.inj (hv.symm.trans hw)
  obtain ⟨e, he, hanswers⟩ := hevolves.delegates c d hd
  obtain rfl : d' = e := Option.some.inj (hd'.symm.trans he)
  have hr : u.source.Completes d r := by
    rcases hanswers with hsame | ⟨r', hr', hcompletes⟩
    · simp [hcomplete] at hsame
    · obtain rfl : r = r' := (List.cons.inj (hcomplete.symm.trans hr')).1
      exact hcompletes
  have huniform := uniform_of_reachable h i u hu
  have halive := Source.WorkerPc.alive_of_running (hevolves.running hrunning)
  rcases hr.cases huniform halive with ⟨rfl, hlength⟩ | ⟨rfl, hlength⟩
  · exact ⟨iff_of_true rfl hlength, iff_of_false nofun (by omega)⟩
  · exact ⟨iff_of_false nofun (by omega), iff_of_true rfl hlength⟩

/-- `n` clients send SETUP at the same time, and the worker answers them all. -/
def crowdRun (n : Nat) : List (Action Nat Nat Nat) :=
  [.register "/camera" 5, .source 0 .poll, .advance 0 (.ok 7)] ++
    (List.range n).flatMap (fun c => [.subscribe "/camera", .source 0 (.delegate c)]) ++
    (List.range n).map (fun c => .source 0 (.query c)) ++
    List.replicate n (.source 0 .takeControl)

/-- The query of the first client returns. -/
def answered : Action Nat Nat Nat := .source 0 (.recv 0)

theorem query_completes_iff_crowdRun :
    ∃ (m m' : SourceManager Nat Nat Nat) (u : RegisterCall Nat Nat Nat)
        (d d' : Source.Delegate Nat) (r : Option (MediaInfo Nat)),
      Transition.run step (start true []) (crowdRun 16) = some m ∧ m.step answered = some m' ∧
      d'.answers = r :: d.answers ∧ u.source.mediaInfo.length = 16 ∧
      (r = some (.fromStreamInfo u.source.streamInfo) ↔
        u.source.mediaInfo.length ≤ d.mediaInfoRx + Source.maxQueuedInfo) := by
  obtain ⟨m, m', u, v, d, d', r, hrun, hstep, hu, hd, hv, hd', hcomplete, hrunning, hlength⟩ :
      ∃ (m m' : SourceManager Nat Nat Nat) (u v : RegisterCall Nat Nat Nat)
          (d d' : Source.Delegate Nat) (r : Option (MediaInfo Nat)),
        Transition.run step (start true []) (crowdRun 16) = some m ∧ m.step answered = some m' ∧
        m.registers[0]? = some u ∧ u.source.delegates[0]? = some d ∧
        m'.registers[0]? = some v ∧ v.source.delegates[0]? = some d' ∧
        d'.answers = r :: d.answers ∧ v.source.workerPc.running ∧
        u.source.mediaInfo.length = 16 :=
    ⟨_, _, _, _, _, _, _, rfl, rfl, rfl, rfl, rfl, rfl, rfl, rfl, rfl⟩
  exact ⟨m, m', u, d, d', r, hrun, hstep, hcomplete, hlength,
    (query_completes_iff ⟨_, crowdRun 16, ⟨_, _, rfl⟩, hrun⟩ hstep hu hd hv hd' hcomplete
      hrunning).1⟩

/-- With one client more, its query fails although the source is running. -/
theorem not_answered_crowdRun :
    ∃ (m m' : SourceManager Nat Nat Nat) (v : RegisterCall Nat Nat Nat) (d' : Source.Delegate Nat),
      Transition.run step (start true []) (crowdRun 17) = some m ∧ m.step answered = some m' ∧
      m'.registers[0]? = some v ∧ v.source.workerPc.running ∧
      v.source.delegates[0]? = some d' ∧ d'.answers = [none] :=
  ⟨_, _, _, _, rfl, rfl, rfl, rfl, rfl, rfl⟩

end SourceManager
