-- SUMMARY: From the camera's callbacks to the sensors: the detection and rate channels, and the two publishers that read them.
import AtomRust.Base.Broadcast
import AtomRust.App.ObjectSensors
import AtomRust.Libcam.RateReports
import AtomRust.Pipeline.Detections

/-!
# Reports

The camera's callbacks put detections and frame rates on broadcast channels, and
`run_mqtt_publish` and `run_mqtt_rate_publish` take them from there to the same client. A
channel keeps few values, and a publisher may be held up by the client for as long as
the broker does not answer, so it does not get everything. What it gets comes in order,
and it always gets to what was sent last.
-/

open Broadcast (Received Subscriber buffered)
open ObjectSensors (OtherSensor Outcome)

namespace Reports

/-- `LibCamContext::MAX_QUEUED_DETECTIONS`. -/
def maxQueuedDetections : Nat := 5

/-- `broadcast::channel(1)`, for either rate. -/
def maxQueuedRates : Nat := 1

/-- The stream that a rate is about. -/
inductive Stream where
  | lowres
  | h264
  deriving DecidableEq

/-- The sensor that shows the rate of a stream. -/
def Stream.sensor : Stream → OtherSensor
  | .lowres => .framecountObjdet
  | .h264 => .framecountH264

/-- The next statement of `run_mqtt_rate_publish`. -/
inductive RatePc where
  /-- The `select!`. -/
  | select
  /-- `mqtt.publish`. -/
  | publish (stream : Stream) (rate : Rate)
  /-- The `await` of call `c`. -/
  | await (c : Nat)
  | returned

end Reports

open Reports (RatePc Stream maxQueuedDetections maxQueuedRates)

structure Reports (S F : Type) where
  camera : LibCamCallback S F
  /-- The camera and all its senders are dropped. -/
  closed : Bool
  /-- `run_mqtt_publish`, and the client. -/
  sensors : ObjectSensors F
  detrx : Subscriber (List (Detection F))
  ratePc : RatePc
  /-- `lowres_rate` and `h264_rate`. -/
  rateRx : Stream → Subscriber Rate

namespace Reports
variable {S F : Type}

/-- The rates that a stream sent. -/
def sentRates (camera : LibCamCallback S F) : Stream → List Rate
  | .lowres => camera.lowresRateTx
  | .h264 => camera.h264RateTx

/-- The camera may have been running for any time. -/
def start (camera : LibCamCallback S F) (objname : String) : Reports S F where
  camera := camera
  closed := false
  sensors := .start objname
  detrx := .join camera.detectionTx
  ratePc := .select
  rateRx stream := .join (sentRates camera stream)

def setRateRx (s : Reports S F) (stream : Stream) (rx : Subscriber Rate) : Reports S F :=
  { s with rateRx := Function.update s.rateRx stream rx }

/-! ## The steps -/

def onSensors (s : Reports S F) (a : ObjectSensors.Action F) : Option (Reports S F) :=
  (s.sensors.step a).map fun sensors => { s with sensors }

/-- `detrx.recv()` completes. `order` is how the summary is gone through. -/
def receive (s : Reports S F) (order : List (Σ _ : String, UInt32)) : Option (Reports S F) :=
  match s.detrx.recv (buffered maxQueuedDetections) s.camera.detectionTx with
  | some (.value dets, detrx) => { s with detrx }.onSensors (.receive (.detections dets) order)
  | some (.lagged skipped, detrx) => { s with detrx }.onSensors (.receive (.lagged skipped) order)
  | none => if s.closed then s.onSensors (.receive .closed order) else none

/-- It does not in time. `timeout` looks at the channel before it looks at the clock. -/
def timeout (s : Reports S F) (order : List (Σ _ : String, UInt32)) : Option (Reports S F) :=
  match s.detrx.recv (buffered maxQueuedDetections) s.camera.detectionTx with
  | some _ => none
  | none => if s.closed then none else s.onSensors (.receive .timeout order)

/-- `lowres_rate.recv()` or `h264_rate.recv()`. -/
def receiveRate (s : Reports S F) (stream : Stream) : Option (Reports S F) :=
  match s.ratePc, (s.rateRx stream).recv (buffered maxQueuedRates) (sentRates s.camera stream) with
  | .select, some (.value rate, rx) =>
      some ({ s with ratePc := .publish stream rate }.setRateRx stream rx)
  | .select, some (.lagged _, rx) => some (s.setRateRx stream rx)
  | .select, none => if s.closed then some { s with ratePc := .returned } else none
  | _, _ => none

/-- `run_mqtt_rate_publish` goes on. `json` is what `serde_json` makes of an `f32`. -/
def advanceRate (json : ℚ → Json) (s : Reports S F) : Option (Reports S F) :=
  match s.ratePc with
  | .publish stream rate =>
      ({ s with ratePc := .await s.sensors.client.calls.length }).onSensors
        (.other stream.sensor (json rate.value) "" "")
  | .await c =>
      match s.sensors.client.calls[c]?.map HAMQTTClient.PublishCall.pc with
      | some (.returned _) => some { s with ratePc := .select }
      | _ => none
  | .select | .returned => none

/-- What the sensors do without these channels. The third publisher has sensors of its
own. -/
def ofSensors : ObjectSensors.Action F → Bool
  | .receive .. => false
  | .other sensor .. => sensor.name ≠ Stream.lowres.sensor.name &&
      sensor.name ≠ Stream.h264.sensor.name
  | .advance | .client _ => true

inductive Action (S F : Type) where
  | h264 (f : H264Frame S)
  | lowres (f : LowresFrame F)
  | close
  | receive (order : List (Σ _ : String, UInt32))
  | timeout (order : List (Σ _ : String, UInt32))
  | receiveRate (stream : Stream)
  | advanceRate
  | sensors (a : ObjectSensors.Action F)

def step (json : ℚ → Json) (s : Reports S F) : Action S F → Option (Reports S F)
  | .h264 f =>
      if s.closed then none
      else some { s with camera := (s.camera.callbackH264 I64.wrap f).run }
  | .lowres f => if s.closed then none else some { s with camera := s.camera.callbackLowres f }
  | .close => some { s with closed := true }
  | .receive order => s.receive order
  | .timeout order => s.timeout order
  | .receiveRate stream => s.receiveRate stream
  | .advanceRate => s.advanceRate json
  | .sensors a => if ofSensors a then s.onSensors a else none

/-- The runs of the camera and its two publishers. -/
def system (json : ℚ → Json) (S F : Type) : Transition.System (Reports S F) (Action S F) where
  init s := ∃ camera objname, s = start camera objname
  step := step json

/-! ## The channels -/

variable {json : ℚ → Json} {s s' : Reports S F} {a : Action S F}

theorem callbackH264_detectionTx (c : LibCamCallback S F) (f : H264Frame S) :
    (c.callbackH264 I64.wrap f).run.detectionTx = c.detectionTx := by
  have hfind : (LibCamCallback.findStream { c with lastFrame := f.monoMillis } f).detectionTx =
      c.detectionTx := by
    unfold LibCamCallback.findStream
    split <;> rfl
  have hsend : ∀ c' : LibCamCallback S F,
      (c'.sendPacket I64.wrap f).run.detectionTx = c'.detectionTx := by
    intro c'
    unfold LibCamCallback.sendPacket
    split <;> rfl
  exact (hsend _).trans hfind

theorem callbackH264_rateTx (c : LibCamCallback S F) (f : H264Frame S) :
    (c.callbackH264 I64.wrap f).run.lowresRateTx = c.lowresRateTx ∧
      ∃ rates, (c.callbackH264 I64.wrap f).run.h264RateTx = c.h264RateTx ++ rates := by
  obtain ⟨c₁, hsame, heq⟩ := LibCamCallback.callbackH264_eq c f
  rw [heq]
  exact ⟨hsame.lowresRateTx, _, congrArg (· ++ _) hsame.h264RateTx⟩

/-- The detections of a frame that are sent. -/
def detectionsOf (c : LibCamCallback S F) (f : LowresFrame F) : List (List (Detection F)) :=
  if c.lowres.tflite then f.detected.toList.filter fun dets => !dets.isEmpty else []

theorem callbackLowres_detectionTx (c : LibCamCallback S F) (f : LowresFrame F) :
    (c.callbackLowres f).detectionTx = c.detectionTx ++ detectionsOf c f := by
  have htflite : (c.reportLowres f.clock).lowres.tflite = c.lowres.tflite := rfl
  unfold LibCamCallback.callbackLowres LibCamCallback.sendDetections
  split
  next det dets hready hdetected =>
    rw [htflite] at hready
    simp [detectionsOf, hready, hdetected, LibCamCallback.reportLowres]
  next hnot =>
    rw [htflite] at hnot
    have hnone : detectionsOf c f = [] := by
      unfold detectionsOf
      split
      next hready =>
        rcases hdetected : f.detected with _ | (_ | ⟨det, dets⟩)
        · rfl
        · rfl
        · exact absurd hdetected (hnot det dets hready)
      next => rfl
    rw [hnone, List.append_nil]
    rfl

theorem callbackLowres_rateTx (c : LibCamCallback S F) (f : LowresFrame F) :
    (c.callbackLowres f).h264RateTx = c.h264RateTx ∧
      ∃ rates, (c.callbackLowres f).lowresRateTx = c.lowresRateTx ++ rates := by
  have hsame := LibCamCallback.sameRates_callbackLowres c f
  exact ⟨hsame.h264RateTx, _, hsame.lowresRateTx⟩

theorem nonempty_of_mem_detectionsOf {c : LibCamCallback S F} {f : LowresFrame F}
    {dets : List (Detection F)} (h : dets ∈ detectionsOf c f) : dets ≠ [] := by
  unfold detectionsOf at h
  split at h
  · simpa using (List.mem_filter.mp h).2
  · cases h

/-! ## What is published -/

/-- What was published under a name, oldest first. -/
def published (s : ObjectSensors F) (name : String) : List Json :=
  (s.client.said.filter fun e => e.1 = name).map Prod.snd

/-- A sensor shows what was published last. -/
theorem shown_eq_getLast? (s : ObjectSensors F) (name : String) :
    s.shown name = (published s name).getLast? := by
  unfold ObjectSensors.shown published
  induction s.client.said using List.reverseRecOn with
  | nil => rfl
  | append_singleton said e ih =>
      obtain ⟨name', value⟩ := e
      rw [List.reverse_concat, List.lookup_cons, List.filter_append, List.map_append]
      by_cases hname : name = name'
      · simp [hname]
      · have hne : (name == name') = false := beq_eq_false_iff_ne.mpr hname
        simp [hne, Ne.symm hname, ih]

theorem published_of_said {t t' : ObjectSensors F} {name' : String} {value : Json}
    (h : t'.client.said = t.client.said ++ [(name', value)]) (name : String) :
    published t' name = published t name ++ if name' = name then [value] else [] := by
  unfold published
  rw [h, List.filter_append, List.map_append]
  by_cases hname : name' = name <;> simp [hname]

/-- The names of the object sensors. -/
def IsObject (name : String) : Prop := "objdet_".toList <+: name.toList

theorem client_of_receive {t t' : ObjectSensors F} {outcome : Outcome F}
    {order : List (Σ _ : String, UInt32)} (h : t.receive outcome order = some t') :
    t'.client = t.client ∧ t'.outcomes = outcome :: t.outcomes := by
  unfold ObjectSensors.receive at h
  split at h
  · cases h; exact ⟨rfl, rfl⟩
  · cases h; exact ⟨rfl, rfl⟩
  · split at h
    · cases h; exact ⟨rfl, rfl⟩
    · cases h
  · split at h
    · cases h; exact ⟨rfl, rfl⟩
    · cases h
  · cases h

/-- `run_mqtt_publish` publishes under the names of the object sensors. -/
theorem published_of_advance {t t' : ObjectSensors F} (hinv : t.Inv) (h : t.advance = some t')
    {name : String} (hname : ¬ IsObject name) :
    published t' name = published t name ∧ t'.outcomes = t.outcomes := by
  unfold ObjectSensors.advance at h
  split at h
  next =>
    cases h
    exact ⟨rfl, rfl⟩
  next name' value rest hpc =>
    cases h
    have hcurrent := hinv.current
    simp only [ObjectSensors.Current, hpc] at hcurrent
    obtain ⟨outcome, -, done, hperm, -⟩ := hcurrent
    have hmem : (name', value) ∈ outcome.values := hperm.mem_iff.mp (by simp)
    have hobject : IsObject name' :=
      ObjectSensors.prefix_of_mem_sensors (ObjectSensors.name_mem_sensors hmem)
    have hne : name' ≠ name := by
      rintro rfl
      exact hname hobject
    have hsaid := ObjectSensors.said_publish t.client t.objname name' (.num value) "" ""
    refine ⟨?_, rfl⟩
    rw [published_of_said (t := t) hsaid, if_neg hne, List.append_nil]
  next =>
    split at h
    · cases h; exact ⟨rfl, rfl⟩
    · cases h
  next => cases h
  next => cases h

/-- What the sensors do without these channels is none of the rates' business. -/
theorem published_of_ofSensors {t t' : ObjectSensors F} {b : ObjectSensors.Action F}
    (hinv : t.Inv) (hb : ofSensors b) (h : t.step b = some t') (stream : Stream) :
    published t' stream.sensor.name = published t stream.sensor.name ∧
      t'.outcomes = t.outcomes := by
  cases b with
  | receive => cases hb
  | advance => exact published_of_advance hinv h (ObjectSensors.other_not_sensor stream.sensor)
  | other sensor value deviceClass unitOfMeasurement =>
      cases h
      have hsaid := ObjectSensors.said_publish t.client t.objname sensor.name value deviceClass
        unitOfMeasurement
      have hne : sensor.name ≠ stream.sensor.name := by
        simp only [ofSensors, Bool.and_eq_true, decide_eq_true_eq] at hb
        cases stream with
        | lowres => exact hb.1
        | h264 => exact hb.2
      refine ⟨?_, rfl⟩
      rw [published_of_said (t := t) hsaid, if_neg hne, List.append_nil]
  | client b =>
      obtain ⟨hclient, h⟩ := Option.ite_none_right_eq_some.mp h
      obtain ⟨m, hm, rfl⟩ := Option.map_eq_some_iff.mp h
      refine ⟨?_, rfl⟩
      unfold published
      rw [ObjectSensors.said_of_client hclient hm]

/-! ## The invariant -/

def received? : Outcome F → Option (List (Detection F))
  | .detections dets => some dets
  | .timeout | .lagged _ | .closed => none

/-- The lists of detections that `run_mqtt_publish` got, oldest first. -/
def received (s : Reports S F) : List (List (Detection F)) :=
  (s.sensors.outcomes.filterMap received?).reverse

/-- The rate of the stream that is about to be published. -/
def pending (json : ℚ → Json) (s : Reports S F) (stream : Stream) : List Json :=
  match s.ratePc with
  | .publish stream' rate => if stream' = stream then [json rate.value] else []
  | .select | .await _ | .returned => []

structure Inv (json : ℚ → Json) (s : Reports S F) : Prop where
  sensors : s.sensors.Inv
  detrx : s.detrx.Follows (buffered maxQueuedDetections) s.camera.detectionTx
  nonempty : ∀ dets ∈ s.camera.detectionTx.drop s.detrx.joined, dets ≠ []
  received : s.received = s.detrx.values
  rateRx : ∀ stream, (s.rateRx stream).Follows (buffered maxQueuedRates) (sentRates s.camera stream)
  published : ∀ stream, published s.sensors stream.sensor.name ++ s.pending json stream =
    (s.rateRx stream).values.map fun rate => json rate.value

namespace Inv

theorem start (camera : LibCamCallback S F) (objname : String) :
    Inv json (start camera objname) where
  sensors := .start objname
  detrx := Subscriber.follows_join _ _
  nonempty := by
    intro dets hdets
    simp [Reports.start, Subscriber.join, Broadcast.subscribe] at hdets
  received := rfl
  rateRx := fun _ => Subscriber.follows_join _ _
  published := fun _ => rfl

/-- The camera goes on. -/
theorem camera {c : LibCamCallback S F} (hi : s.Inv json)
    (hdetections : ∃ detections, c.detectionTx = s.camera.detectionTx ++ detections ∧
      ∀ dets ∈ detections, dets ≠ [])
    (hlowres : ∃ rates, c.lowresRateTx = s.camera.lowresRateTx ++ rates)
    (hh264 : ∃ rates, c.h264RateTx = s.camera.h264RateTx ++ rates) :
    Inv json { s with camera := c } := by
  obtain ⟨detections, heq, hnonempty⟩ := hdetections
  obtain ⟨rates, hlowres⟩ := hlowres
  obtain ⟨rates', hh264⟩ := hh264
  refine { hi with detrx := ?_, nonempty := ?_, rateRx := ?_ }
  · rw [heq]
    exact hi.detrx.send detections
  · rw [heq, List.drop_append]
    intro dets hdets
    rcases List.mem_append.mp hdets with hdets | hdets
    · exact hi.nonempty dets hdets
    · exact hnonempty dets (List.mem_of_mem_drop hdets)
  · intro stream
    cases stream with
    | lowres =>
        simp only [sentRates, hlowres]
        exact (hi.rateRx .lowres).send rates
    | h264 =>
        simp only [sentRates, hh264]
        exact (hi.rateRx .h264).send rates'

/-- `run_mqtt_publish` gets an outcome. -/
theorem onReceive {detrx : Subscriber (List (Detection F))} {outcome : Outcome F}
    {order : List (Σ _ : String, UInt32)} (hi : s.Inv json)
    (hfollows : detrx.Follows (buffered maxQueuedDetections) s.camera.detectionTx)
    (hjoined : detrx.joined = s.detrx.joined)
    (hvalues : detrx.values = s.detrx.values ++ (received? outcome).toList)
    (h : { s with detrx }.onSensors (.receive outcome order) = some s') : s'.Inv json := by
  obtain ⟨t, ht, rfl⟩ := Option.map_eq_some_iff.mp h
  obtain ⟨hclient, houtcomes⟩ := client_of_receive ht
  refine
    { sensors := hi.sensors.step ht
      detrx := hfollows
      nonempty := by simpa only [hjoined] using hi.nonempty
      received := ?_
      rateRx := hi.rateRx
      published := ?_ }
  · have hreceived := hi.received
    unfold Reports.received at hreceived ⊢
    rw [houtcomes, hvalues, ← hreceived, List.filterMap_cons]
    cases received? outcome with
    | none => simp
    | some dets => simp
  · intro stream
    have hpublished := hi.published stream
    unfold Reports.published at hpublished ⊢
    rw [hclient]
    exact hpublished

theorem receive {order : List (Σ _ : String, UInt32)} (hi : s.Inv json)
    (h : s.receive order = some s') : s'.Inv json := by
  unfold Reports.receive at h
  split at h
  next dets detrx hrecv =>
    have hvalues : detrx.values = s.detrx.values ++ (received? (.detections dets)).toList :=
      Subscriber.values_recv hrecv
    exact hi.onReceive (hi.detrx.recv hrecv) (Subscriber.joined_recv hrecv) hvalues h
  next skipped detrx hrecv =>
    have hvalues : detrx.values = s.detrx.values ++
        (received? (.lagged skipped : Outcome F)).toList := Subscriber.values_recv hrecv
    exact hi.onReceive (hi.detrx.recv hrecv) (Subscriber.joined_recv hrecv) hvalues h
  next =>
    obtain ⟨-, h⟩ := Option.ite_none_right_eq_some.mp h
    exact hi.onReceive hi.detrx rfl (List.append_nil _).symm h

theorem timeout {order : List (Σ _ : String, UInt32)} (hi : s.Inv json)
    (h : s.timeout order = some s') : s'.Inv json := by
  unfold Reports.timeout at h
  split at h
  · cases h
  · obtain ⟨-, h⟩ := Option.ite_none_left_eq_some.mp h
    exact hi.onReceive hi.detrx rfl (List.append_nil _).symm h

/-- A receiver of rates moves on. -/
theorem setRateRx {rx : Subscriber Rate} {ratePc : RatePc} {stream : Stream} (hi : s.Inv json)
    (hfollows : rx.Follows (buffered maxQueuedRates) (sentRates s.camera stream))
    (hpublished : ∀ stream', Reports.published s.sensors stream'.sensor.name ++
        { s with ratePc }.pending json stream' =
      (Function.update s.rateRx stream rx stream').values.map fun rate => json rate.value) :
    ({ s with ratePc }.setRateRx stream rx).Inv json := by
  refine { hi with rateRx := fun stream' => ?_, published := hpublished }
  simp only [Reports.setRateRx]
  by_cases hstream : stream' = stream
  · subst hstream
    rwa [Function.update_self]
  · rw [Function.update_of_ne hstream]
    exact hi.rateRx stream'

theorem receiveRate {stream : Stream} (hi : s.Inv json) (h : s.receiveRate stream = some s') :
    s'.Inv json := by
  unfold Reports.receiveRate at h
  split at h
  next rate rx hpc hrecv =>
    cases h
    apply hi.setRateRx ((hi.rateRx stream).recv hrecv)
    intro stream'
    have hpublished := hi.published stream'
    simp only [pending, hpc, List.append_nil] at hpublished
    by_cases hstream : stream' = stream
    · subst hstream
      rw [Function.update_self, Subscriber.values_recv hrecv, List.map_append, ← hpublished]
      simp [pending, Received.value?]
    · rw [Function.update_of_ne hstream, ← hpublished]
      simp [pending, Ne.symm hstream]
  next skipped rx hpc hrecv =>
    cases h
    apply hi.setRateRx ((hi.rateRx stream).recv hrecv)
    intro stream'
    have hpublished := hi.published stream'
    by_cases hstream : stream' = stream
    · subst hstream
      rw [Function.update_self, Subscriber.values_recv hrecv]
      simpa [Received.value?] using hpublished
    · rw [Function.update_of_ne hstream]
      exact hpublished
  next hpc hrecv =>
    obtain ⟨-, h⟩ := Option.ite_none_right_eq_some.mp h
    cases h
    refine { hi with published := fun stream' => ?_ }
    have hpublished := hi.published stream'
    simp only [pending, hpc] at hpublished
    exact hpublished
  next => cases h

theorem advanceRate (hi : s.Inv json) (h : s.advanceRate json = some s') : s'.Inv json := by
  unfold Reports.advanceRate at h
  split at h
  next stream rate hpc =>
    obtain ⟨t, ht, rfl⟩ := Option.map_eq_some_iff.mp h
    have hsensors := hi.sensors.step ht
    cases ht
    refine { hi with sensors := hsensors, published := fun stream' => ?_ }
    have hpublished := hi.published stream'
    have hsaid := ObjectSensors.said_publish s.sensors.client s.sensors.objname
      stream.sensor.name (json rate.value) "" ""
    have hnames : stream.sensor.name = stream'.sensor.name ↔ stream = stream' := by
      cases stream <;> cases stream' <;> decide
    simp only [pending, hpc] at hpublished
    rw [published_of_said (t := s.sensors) hsaid, ← hpublished]
    simp [pending, hnames]
  next c hpc =>
    split at h
    · cases h
      refine { hi with published := fun stream' => ?_ }
      have hpublished := hi.published stream'
      simp only [pending, hpc] at hpublished
      exact hpublished
    · cases h
  next => cases h
  next => cases h

theorem step (hi : s.Inv json) (h : s.step json a = some s') : s'.Inv json := by
  cases a with
  | h264 f =>
      obtain ⟨-, h⟩ := Option.ite_none_left_eq_some.mp h
      cases h
      obtain ⟨hlowres, hh264⟩ := callbackH264_rateTx s.camera f
      apply hi.camera
      · exact ⟨[], by rw [callbackH264_detectionTx, List.append_nil], by simp⟩
      · exact ⟨[], by rw [hlowres, List.append_nil]⟩
      · exact hh264
  | lowres f =>
      obtain ⟨-, h⟩ := Option.ite_none_left_eq_some.mp h
      cases h
      obtain ⟨hh264, hlowres⟩ := callbackLowres_rateTx s.camera f
      apply hi.camera
      · exact ⟨_, callbackLowres_detectionTx s.camera f, fun _ => nonempty_of_mem_detectionsOf⟩
      · exact hlowres
      · exact ⟨[], by rw [hh264, List.append_nil]⟩
  | close =>
      cases h
      exact { hi with }
  | receive order => exact hi.receive h
  | timeout order => exact hi.timeout h
  | receiveRate stream => exact hi.receiveRate h
  | advanceRate => exact hi.advanceRate h
  | sensors b =>
      obtain ⟨hb, h⟩ := Option.ite_none_right_eq_some.mp h
      obtain ⟨t, ht, rfl⟩ := Option.map_eq_some_iff.mp h
      have hframe := published_of_ofSensors hi.sensors hb ht
      refine { hi with sensors := hi.sensors.step ht, received := ?_, published := ?_ }
      · have hreceived := hi.received
        unfold Reports.received at hreceived ⊢
        rw [(hframe .lowres).2]
        exact hreceived
      · intro stream
        rw [(hframe stream).1]
        exact hi.published stream

end Inv

theorem inv_of_reachable (h : (system json S F).Reachable s) : s.Inv json := by
  refine h.invariant ?_ fun s a s' _ hs => hs.step
  rintro s ⟨camera, objname, rfl⟩
  exact .start camera objname

/-! ## What the sensors show -/

/-- With nothing left to read, the sensors show the last outcome. -/
theorem Inv.shows {outcome : Outcome F} (hi : s.Inv json) (hpc : s.sensors.pc = .recv)
    (houtcome : s.sensors.latest = some outcome) : s.sensors.Shows outcome := by
  have hcurrent := hi.sensors.current
  simp only [ObjectSensors.Current, hpc] at hcurrent
  exact (hcurrent outcome houtcome).shows

/-- What the sensors do by themselves they do here. -/
theorem run_sensors {as : List (ObjectSensors.Action F)} (has : ∀ a ∈ as, ofSensors a)
    {t : ObjectSensors F} (h : Transition.run ObjectSensors.step s.sensors as = some t) :
    Transition.run (step json) s (as.map .sensors) = some { s with sensors := t } := by
  induction as generalizing s with
  | nil =>
      cases h
      rfl
  | cons a as ih =>
      obtain ⟨t', ha, h⟩ := Transition.run_cons_eq_some.mp h
      refine Transition.run_cons_eq_some.mpr ⟨{ s with sensors := t' }, ?_, ?_⟩
      · simp [step, has a List.mem_cons_self, onSensors, ha]
      · exact ih (s := { s with sensors := t' }) (fun b hb => has b (List.mem_cons_of_mem _ hb)) h

/-- A frame with detections. -/
def detectedFrame (dets : List (Detection F)) : LowresFrame F where
  clock := { timeToReport := 0, rate := 0, tick := 0, reset := 0 }
  detected := some dets

theorem exists_detected (json : ℚ → Json) (det : Detection F) (dets : List (Detection F)) :
    ∃ s, (system json S F).Reachable s ∧ s.sensors.pc = .recv ∧
      s.received = [det :: dets] ∧ s.sensors.latest = some (.detections (det :: dets)) ∧
      s.detrx.recv (buffered maxQueuedDetections) s.camera.detectionTx = none := by
  let order := (Summarize.summarizeDetections (det :: dets)).entries
  let s₀ : Reports S F := start (.new 30 true 0 0) "camera"
  let s₁ : Reports S F := { s₀ with
    camera := s₀.camera.callbackLowres (detectedFrame (det :: dets)) }
  let detrx : Subscriber (List (Detection F)) := ⟨0, 1, [(det :: dets, 0)]⟩
  let s₂ : Reports S F := { s₁ with
    detrx
    sensors := { s₁.sensors with
      pc := .publish (ObjectSensors.counts (det :: dets) order)
      outcomes := [.detections (det :: dets)] } }
  have hframe : step json s₀ (.lowres (detectedFrame (det :: dets))) = some s₁ := rfl
  have hsent : s₁.camera.detectionTx = [det :: dets] := rfl
  have hrecv : s₁.detrx.recv (buffered maxQueuedDetections) s₁.camera.detectionTx =
      some (.value (det :: dets), detrx) := by
    rw [hsent]
    have hcursor : s₁.detrx.cursor = ([] : List (List (Detection F))).length := rfl
    exact Subscriber.recv_next (Broadcast.buffered_pos _) hcursor _
  have hreceive : step json s₁ (.receive order) = some s₂ := by
    simp only [step, receive, hrecv, onSensors]
    have houtcome : ObjectSensors.step s₁.sensors (.receive (.detections (det :: dets)) order) =
        some s₂.sensors := if_pos (List.Perm.refl order)
    rw [houtcome]
    rfl
  obtain ⟨as, t, hrun, hpc, houtcomes, hquiet⟩ :=
    ObjectSensors.exists_run_recv (s := s₂.sensors) rfl rfl
  have hof : ∀ a ∈ as, ofSensors a := by
    intro a ha
    obtain rfl | ⟨b, rfl⟩ := hquiet a ha
    · rfl
    · rfl
  have hreach : (system json S F).Reachable { s₂ with sensors := t } :=
    ⟨s₀, .lowres (detectedFrame (det :: dets)) :: .receive order :: as.map .sensors,
      ⟨_, _, rfl⟩, Transition.run_cons_eq_some.mpr ⟨s₁, hframe,
        Transition.run_cons_eq_some.mpr ⟨s₂, hreceive, run_sensors hof hrun⟩⟩⟩
  refine ⟨_, hreach, hpc, ?_, ?_, ?_⟩
  · unfold received
    rw [houtcomes]
    rfl
  · unfold ObjectSensors.latest
    rw [houtcomes]
    rfl
  · exact Subscriber.recv_eq_none.mpr (Nat.le_refl 1)

/-- The sensors show how many of the rows are above the threshold, and how many of these
are labelled as each group. -/
structure ShowsRows (s : Reports S F) (R : F32 F) (stage : TFLiteStage F)
    (rows : List (TFLiteStage.Row F)) : Prop where
  total : s.sensors.shown "objdet_total_objects" = some (.num (rows.countP (stage.counts R)))
  person : s.sensors.shown "objdet_person" =
    some (.num (TFLiteStage.rowsOf R stage rows ["person"] % 2 ^ 32))
  vehicle : s.sensors.shown "objdet_vehicle" =
    some (.num (TFLiteStage.rowsOf R stage rows Summarize.vehicleClasses % 2 ^ 32))
  animal : s.sensors.shown "objdet_animal" =
    some (.num (TFLiteStage.rowsOf R stage rows Summarize.animalClasses % 2 ^ 32))

/-- Once the publisher has worked through the detections that `detect` made of a frame,
the sensors count the rows of the tensors. -/
theorem shows_rows {R : F32 F} {stage : TFLiteStage F} {rgbBytes : List UInt8}
    {outputs : Tflite.Outputs F} {raw : F} {rest : List F} {dets : List (Detection F)}
    (h : (system json S F).Reachable s) (hpc : s.sensors.pc = .recv)
    (hlatest : s.sensors.latest = some (.detections dets))
    (hdetect : stage.detect R rgbBytes = .ok dets)
    (hread : stage.readOutputs rgbBytes = .ok outputs)
    (hcount : outputs.rawNumDetections = raw :: rest) :
    s.ShowsRows R stage (TFLiteStage.rows outputs (R.toUsize raw)) := by
  have hshows := (inv_of_reachable h).shows hpc hlatest
  obtain ⟨dets', hdetect', hlength, hclasses⟩ := TFLiteStage.exists_detections (R := R) hread hcount
  obtain rfl := Except.ok.inj (hdetect.symm.trans hdetect')
  refine ⟨?_, ?_, ?_, ?_⟩
  · rw [hshows.total, ← hlength]
    rfl
  · rw [hshows.person, ← hclasses ["person"]]
    rfl
  · rw [hshows.vehicle, ← hclasses Summarize.vehicleClasses]
    rfl
  · rw [hshows.animal, ← hclasses Summarize.animalClasses]
    rfl

/-- One row, of a class that has no label. -/
def oneRow : TFLiteStage.Row ℚ where
  ymin := 1 / 4
  xmin := 1 / 4
  ymax := 1 / 2
  xmax := 1 / 2
  classNum := 0
  score := 1

theorem shows_rows_one :
    ∃ s, (system (fun _ => .num 0) Unit ℚ).Reachable s ∧
      s.sensors.shown "objdet_total_objects" = some (.num 1) ∧
      s.sensors.shown "objdet_person" = some (.num 0) := by
  let stage := TFLiteStage.single [1 / 4, 1 / 4, 1 / 2, 1 / 2]
  let outputs := TFLiteStage.singleOutputs [1 / 4, 1 / 4, 1 / 2, 1 / 2]
  have hread : stage.readOutputs [] = .ok outputs := TFLiteStage.readOutputs_single _
  have hone : TFLiteStage.rationals.toUsize 1 = 1 := by decide +kernel
  have hrows : TFLiteStage.rows outputs 1 = [oneRow] := rfl
  have hcounts : stage.counts TFLiteStage.rationals oneRow = true := by decide +kernel
  have hdetect : stage.detect TFLiteStage.rationals [] =
      .ok [stage.detection TFLiteStage.rationals oneRow] := by
    rw [TFLiteStage.detect_rows hread rfl, hone, hrows, List.filter_singleton, hcounts]
    rfl
  obtain ⟨s, hs, hpc, -, hlatest, -⟩ :=
    exists_detected (S := Unit) (fun _ => .num 0) (stage.detection TFLiteStage.rationals oneRow) []
  have hshows := shows_rows hs hpc hlatest hdetect hread rfl
  rw [hone, hrows] at hshows
  refine ⟨s, hs, hshows.total.trans ?_, hshows.person.trans ?_⟩
  · rw [List.countP_singleton, hcounts]
    rfl
  · have hnone : TFLiteStage.rowsOf TFLiteStage.rationals stage [oneRow] ["person"] = 0 := by
      decide +kernel
    rw [hnone]
    rfl

/-- The rates of a stream reach its sensor. -/
structure ShowsRates (json : ℚ → Json) (s : Reports S F) (stream : Stream) : Prop where
  /-- What was published is a part of what was sent, in the same order, each once. -/
  ordered : ∃ rates : List Rate, rates.Sublist ((sentRates s.camera stream).drop
      (s.rateRx stream).joined) ∧
    published s.sensors stream.sensor.name = rates.map fun rate => json rate.value
  /-- A rate that was passed over is not the last one. -/
  passed : ∀ rate i, (s.rateRx stream).joined ≤ i → i < (s.rateRx stream).cursor →
    (sentRates s.camera stream)[i]? = some rate → (rate, i) ∉ (s.rateRx stream).read →
    i + 1 < (sentRates s.camera stream).length
  /-- With nothing left to read, the sensor shows the last one. -/
  current : s.ratePc = .select →
    (s.rateRx stream).recv (buffered maxQueuedRates) (sentRates s.camera stream) = none →
    (s.rateRx stream).joined < (sentRates s.camera stream).length →
    s.sensors.shown stream.sensor.name =
      (sentRates s.camera stream).getLast?.map fun rate => json rate.value

theorem shows_rates (h : (system json S F).Reachable s) (stream : Stream) :
    s.ShowsRates json stream := by
  have hi := inv_of_reachable h
  have hpublished := hi.published stream
  have hfollows := hi.rateRx stream
  constructor
  · have hprefix : published s.sensors stream.sensor.name <+:
        (s.rateRx stream).values.map fun rate => json rate.value := ⟨_, hpublished⟩
    obtain ⟨n, hn⟩ : ∃ n, published s.sensors stream.sensor.name =
        ((s.rateRx stream).values.map fun rate => json rate.value).take n :=
      ⟨_, List.prefix_iff_eq_take.mp hprefix⟩
    rw [← List.map_take] at hn
    exact ⟨_, (List.take_sublist _ _).trans hfollows.values_sublist, hn⟩
  · intro rate i hle hlt hrate hmem
    have hover := hfollows.passed rate i hle hlt hrate hmem
    have hpos := Broadcast.buffered_pos maxQueuedRates
    omega
  · intro hpc hnone hjoined
    simp only [pending, hpc, List.append_nil] at hpublished
    rw [shown_eq_getLast?, hpublished, List.getLast?_map]
    congr 1
    exact hfollows.getLast? (Broadcast.buffered_pos _) (Subscriber.recv_eq_none.mp hnone) hjoined

/-- A frame that comes a second after the last report. -/
def secondFrame : LowresFrame F where
  clock :=
    { timeToReport := 1000000000, rate := 1000000000, tick := 1000000000, reset := 1000000000 }
  detected := none

theorem exists_rate (json : ℚ → Json) :
    ∃ s rate, (system json S F).Reachable s ∧ s.ratePc = .select ∧
      sentRates s.camera .lowres = [rate] ∧ (s.rateRx .lowres).joined = 0 ∧
      (s.rateRx .lowres).recv (buffered maxQueuedRates) (sentRates s.camera .lowres) = none := by
  let s₀ : Reports S F := start (.new 30 true 0 0) "camera"
  let s₁ : Reports S F := { s₀ with camera := s₀.camera.callbackLowres secondFrame }
  let rate : Rate := s₀.camera.lowres.reporter.rate 1000000000
  let rx : Subscriber Rate := ⟨0, 1, [(rate, 0)]⟩
  let s₂ : Reports S F := { s₁ with ratePc := .publish .lowres rate }.setRateRx .lowres rx
  have hdue : s₀.camera.lowres.reporter.isTimeToReport 1000000000 = true :=
    (RateReporter.isTimeToReport_iff (r := s₀.camera.lowres.reporter) rfl 1000000000).mpr
      (show 0 + 999999968 ≤ 1000000000 by decide)
  have hsent : s₁.camera.lowresRateTx = [rate] := by
    have hrates : (s₀.camera.lowres.reporter.frame (secondFrame (F := F)).clock).2 = [rate] :=
      if_pos hdue
    exact congrArg ([] ++ ·) hrates
  have hframe : step json s₀ (.lowres secondFrame) = some s₁ := rfl
  have hrecv : (s₁.rateRx .lowres).recv (buffered maxQueuedRates)
      (sentRates s₁.camera .lowres) = some (.value rate, rx) := by
    simp only [sentRates, hsent]
    have hcursor : (s₁.rateRx .lowres).cursor = ([] : List Rate).length := rfl
    exact Subscriber.recv_next (Broadcast.buffered_pos _) hcursor rate
  have hreceive : step json s₁ (.receiveRate .lowres) = some s₂ := by
    have hpc : s₁.ratePc = .select := rfl
    simp only [step, receiveRate, hpc, hrecv]
    rfl
  refine ⟨_, rate, ⟨s₀, [.lowres secondFrame, .receiveRate .lowres, .advanceRate,
    .sensors (.client (.call 0 true)), .advanceRate], ⟨_, _, rfl⟩,
    Transition.run_cons_eq_some.mpr ⟨s₁, hframe, Transition.run_cons_eq_some.mpr ⟨s₂, hreceive,
      rfl⟩⟩⟩, rfl, hsent, rfl, ?_⟩
  rw [Subscriber.recv_eq_none]
  exact (congrArg List.length hsent).le

theorem shows_rates_second :
    ∃ s rate, (system (fun _ => .num 0) Unit Unit).Reachable s ∧
      sentRates s.camera .lowres = [rate] ∧
      s.sensors.shown "framecount_objdet" = some (.num 0) := by
  obtain ⟨s, rate, hs, hpc, hsent, hjoined, hnone⟩ :=
    exists_rate (S := Unit) (F := Unit) (fun _ => .num 0)
  have hshown := (shows_rates hs .lowres).current hpc hnone (by simp [hjoined, hsent])
  rw [hsent] at hshown
  exact ⟨s, rate, hs, hsent, hshown⟩

end Reports
