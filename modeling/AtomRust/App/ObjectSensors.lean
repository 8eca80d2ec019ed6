-- SUMMARY: `run_mqtt_publish`: what the object sensors show after each outcome of the detection channel.
import AtomRust.Hamqtt.Announced
import AtomRust.Pipeline.Summarize

/-!
# Object sensors

`run_mqtt_publish` waits for the detection channel, and publishes what it gets under
four names, one call of `HAMQTTClient::publish` after the other. The client is shared
with the publishers of the frame rates and of the system's state, whose calls come in
between.

MQTT keeps the last value of a name, so a sensor shows the value of the latest call for
it.
-/

open Summarize (animalClasses groups members summarizeDetections vehicleClasses)

/-! ## The publishers -/

namespace HAMQTTClient

/-- The names and values of all calls of `publish`, oldest first. -/
def said (m : HAMQTTClient) : List (String × Json) := m.calls.map fun u => (u.name, u.value)

end HAMQTTClient

namespace ObjectSensors

/-- What `timeout(.., detrx.recv())` returns. -/
inductive Outcome (F : Type) where
  | detections (dets : List (Detection F))
  | timeout
  | lagged (skipped : Nat)
  | closed

/-- The next statement of `run_mqtt_publish`. -/
inductive Pc where
  /-- `detrx.recv()`. -/
  | recv
  /-- `mqtt.publish` with the first of these, and so on. -/
  | publish (rest : List (String × Nat))
  /-- The `await` of call `c`. -/
  | await (c : Nat) (rest : List (String × Nat))
  | returned

/-- What `run_mqtt_rate_publish` and `run_periodic_mqtt_publish` publish. -/
inductive OtherSensor where
  | framecountObjdet
  | framecountH264
  | temperatureCpu
  | loadCpu
  | wifiRxBitrate
  | wifiTxBitrate
  | wifiSignal
  | uptime
  | memFree
  | diskAvailable
  | netTx (interface : String)
  | netRx (interface : String)

def OtherSensor.name : OtherSensor → String
  | .framecountObjdet => "framecount_objdet"
  | .framecountH264 => "framecount_h264"
  | .temperatureCpu => "temperature_cpu"
  | .loadCpu => "load_cpu"
  | .wifiRxBitrate => "wifi_rx_bitrate"
  | .wifiTxBitrate => "wifi_tx_bitrate"
  | .wifiSignal => "wifi_signal"
  | .uptime => "uptime"
  | .memFree => "mem_free"
  | .diskAvailable => "disk_available"
  | .netTx interface => "net_" ++ interface ++ "_tx"
  | .netRx interface => "net_" ++ interface ++ "_rx"

end ObjectSensors

open ObjectSensors (OtherSensor Outcome Pc)

structure ObjectSensors (F : Type) where
  objname : String
  client : HAMQTTClient
  pc : Pc
  /-- A ghost: what was received, newest first. -/
  outcomes : List (Outcome F)

namespace ObjectSensors
variable {F : Type}

def start (objname : String) : ObjectSensors F where
  objname
  client := .new
  pc := .recv
  outcomes := []

/-- What is published when detections were received. `order` is how the summary is gone
through. -/
def counts (dets : List (Detection F)) (order : List (Σ _ : String, UInt32)) :
    List (String × Nat) :=
  ("objdet_total_objects", dets.length) :: order.map fun e => ("objdet_" ++ e.1, e.2.toNat)

/-- What is published when nothing was. -/
def noCounts (order : List (Σ _ : String, UInt32)) : List (String × Nat) :=
  ("objdet_total_objects", 0) :: order.map fun e => ("objdet_" ++ e.1, 0)

/-- `detrx.recv()` completes, or does not in time. -/
def receive (s : ObjectSensors F) (outcome : Outcome F) (order : List (Σ _ : String, UInt32)) :
    Option (ObjectSensors F) :=
  let s' := { s with outcomes := outcome :: s.outcomes }
  match s.pc, outcome with
  | .recv, .lagged _ => some s'
  | .recv, .closed => some { s' with pc := .returned }
  | .recv, .detections dets =>
      if order.Perm (summarizeDetections dets).entries then
        some { s' with pc := .publish (counts dets order) }
      else none
  | .recv, .timeout =>
      if order.Perm (summarizeDetections ([] : List (Detection F))).entries then
        some { s' with pc := .publish (noCounts order) }
      else none
  | _, _ => none

/-- `run_mqtt_publish` goes on. -/
def advance (s : ObjectSensors F) : Option (ObjectSensors F) :=
  match s.pc with
  | .publish [] => some { s with pc := .recv }
  | .publish ((name, value) :: rest) =>
      (s.client.step (.publish s.objname name (.num value) "" "")).map fun client =>
        { s with client, pc := .await s.client.calls.length rest }
  | .await c rest =>
      match s.client.calls[c]?.map HAMQTTClient.PublishCall.pc with
      | some (.returned _) => some { s with pc := .publish rest }
      | _ => none
  | .recv | .returned => none

/-- What the client does without a new call. -/
def ofClient : HAMQTTClient.Action → Bool
  | .publish .. => false
  | .call .. | .setConnected _ | .connectedCallback => true

inductive Action (F : Type) where
  | receive (outcome : Outcome F) (order : List (Σ _ : String, UInt32))
  | advance
  /-- Another publisher calls `publish`. -/
  | other (sensor : OtherSensor) (value : Json) (deviceClass unitOfMeasurement : String)
  | client (a : HAMQTTClient.Action)

def step (s : ObjectSensors F) : Action F → Option (ObjectSensors F)
  | .receive outcome order => s.receive outcome order
  | .advance => s.advance
  | .other sensor value deviceClass unitOfMeasurement =>
      (s.client.step (.publish s.objname sensor.name value deviceClass unitOfMeasurement)).map
        fun client => { s with client }
  | .client a => if ofClient a then (s.client.step a).map fun client => { s with client } else none

/-- The runs of the publishers. -/
def system (F : Type) : Transition.System (ObjectSensors F) (Action F) where
  init s := ∃ objname, s = start objname
  step := step

/-! ## What the sensors show -/

/-- The value of the latest call for `name`. -/
def shown (s : ObjectSensors F) (name : String) : Option Json := s.client.said.reverse.lookup name

/-- The latest outcome that is not a loss. -/
def latest (s : ObjectSensors F) : Option (Outcome F) :=
  s.outcomes.find? fun
    | .detections _ | .timeout => true
    | .lagged _ | .closed => false

/-- The detections of an outcome; a timeout has none. -/
def Outcome.dets : Outcome F → List (Detection F)
  | .detections dets => dets
  | .timeout | .lagged _ | .closed => []

/-- How many detections of an outcome are of these classes. -/
def Outcome.count (outcome : Outcome F) (classes : List String) : Nat :=
  outcome.dets.countP fun det => det.className ∈ classes

/-- The values of an outcome. -/
def Outcome.values (outcome : Outcome F) : List (String × Nat) :=
  ("objdet_total_objects", outcome.dets.length) ::
    groups.map fun group => ("objdet_" ++ group, members group outcome.dets % 2 ^ 32)

def sensors : List String :=
  ["objdet_total_objects", "objdet_person", "objdet_animal", "objdet_vehicle"]

/-- Every sensor shows what the outcome says. -/
structure Shows (s : ObjectSensors F) (outcome : Outcome F) : Prop where
  total : s.shown "objdet_total_objects" = some (.num outcome.dets.length)
  person : s.shown "objdet_person" = some (.num (outcome.count ["person"] % 2 ^ 32))
  vehicle : s.shown "objdet_vehicle" = some (.num (outcome.count vehicleClasses % 2 ^ 32))
  animal : s.shown "objdet_animal" = some (.num (outcome.count animalClasses % 2 ^ 32))
  sum : outcome.count ["person"] + outcome.count vehicleClasses + outcome.count animalClasses ≤
    outcome.dets.length

variable {s s' : ObjectSensors F} {a : Action F} {outcome : Outcome F}
  {dets : List (Detection F)} {order : List (Σ _ : String, UInt32)} {rest : List (String × Nat)}
  {m m' : HAMQTTClient}

theorem members_person (dets : List (Detection F)) :
    members "person" dets = dets.countP fun det => det.className ∈ ["person"] := by
  simp only [members, Summarize.keyOf_person, List.mem_singleton]

theorem members_vehicle (dets : List (Detection F)) :
    members "vehicle" dets = dets.countP fun det => det.className ∈ vehicleClasses := by
  simp only [members, Summarize.keyOf_vehicle]

theorem members_animal (dets : List (Detection F)) :
    members "animal" dets = dets.countP fun det => det.className ∈ animalClasses := by
  simp only [members, Summarize.keyOf_animal]

/-! ## What is published for an outcome -/

/-- The entries of a summary, in some order: one for each group. -/
theorem entries_perm (dets : List (Detection F)) :
    (summarizeDetections dets).entries.Perm
      (groups.map fun group => ⟨group, UInt32.ofNat (members group dets)⟩) := by
  apply List.lookup_ext (summarizeDetections dets).nodupKeys
  · simp [List.NodupKeys, List.keys, groups]
  · intro group count
    have hlookup := Summarize.lookup_summarizeDetections dets group
    rw [AList.lookup] at hlookup
    rw [hlookup]
    by_cases hgroup : group ∈ groups
    · simp only [groups, List.mem_cons, List.not_mem_nil, or_false] at hgroup
      rcases hgroup with rfl | rfl | rfl <;> simp [groups]
    · have hnone : (groups.map fun group => (⟨group, UInt32.ofNat (members group dets)⟩ :
          Σ _ : String, UInt32)).dlookup group = none := by
        apply List.dlookup_eq_none.mpr
        simpa [List.keys, Function.comp_def] using hgroup
      rw [hnone, if_neg hgroup]

theorem counts_perm (h : order.Perm (summarizeDetections dets).entries) :
    (counts dets order).Perm (Outcome.detections dets).values := by
  refine List.Perm.cons _ ?_
  have hmap := (h.trans (entries_perm dets)).map fun e => ("objdet_" ++ e.1, e.2.toNat)
  simpa [Outcome.dets, Function.comp_def] using hmap

theorem noCounts_perm (h : order.Perm (summarizeDetections ([] : List (Detection F))).entries) :
    (noCounts order).Perm (Outcome.timeout : Outcome F).values := by
  refine List.Perm.cons _ ?_
  have hmap := (h.trans (entries_perm [])).map fun e => ("objdet_" ++ e.1, 0)
  simpa [Outcome.dets, members, Function.comp_def] using hmap

theorem values_nodup (outcome : Outcome F) : (outcome.values.map Prod.fst).Nodup := by
  simp [Outcome.values, groups]

theorem name_mem_sensors {name : String} {value : Nat}
    (h : (name, value) ∈ outcome.values) : name ∈ sensors := by
  have hkeys : name ∈ outcome.values.map Prod.fst := List.mem_map_of_mem h
  simpa [Outcome.values, groups, sensors] using hkeys

/-! ## Steps of the client -/

theorem said_publish (m : HAMQTTClient) (objectId name : String) (value : Json)
    (deviceClass unitOfMeasurement : String) :
    (m.publish objectId name value deviceClass unitOfMeasurement).said =
      m.said ++ [(name, value)] := by
  simp [HAMQTTClient.said, HAMQTTClient.publish]

/-- A call that goes on keeps its name and its value. -/
theorem said_of_client {a : HAMQTTClient.Action} (ha : ofClient a) (h : m.step a = some m') :
    m'.said = m.said := by
  cases a with
  | publish => cases ha
  | setConnected connected | connectedCallback =>
      cases h
      rfl
  | call c accepted =>
      obtain ⟨u, hu, hadvance⟩ := Option.bind_eq_some_iff.mp h
      obtain ⟨⟨pc, hcalls, -⟩, -⟩ := (HAMQTTClient.effect_of_advance hadvance).frame
      have hsame : m.said[c]? = some (u.name, u.value) := by
        simp [HAMQTTClient.said, hu]
      rw [HAMQTTClient.said, hcalls, List.map_set]
      exact List.set_eq_self_of_some hsame

/-- The names of the other publishers are none of these. -/
theorem other_not_sensor (sensor : OtherSensor) : ¬ "objdet_".toList <+: sensor.name.toList := by
  cases sensor with
  | netTx interface | netRx interface => simp [OtherSensor.name]
  | _ => decide

/-- A new call only changes what its own sensor shows. -/
theorem shown_of_said {name : String} {value : Json}
    (h : s'.client.said = s.client.said ++ [(name, value)]) (name' : String) :
    s'.shown name' = if name' = name then some value else s.shown name' := by
  rw [shown, h, List.reverse_concat, List.lookup_cons]
  by_cases hname : name' = name
  · simp [hname]
  · have hne : (name' == name) = false := beq_eq_false_iff_ne.mpr hname
    simp only [hne, if_neg hname, shown]

/-! ## How far the publisher is -/

/-- Of the values of the outcome, `rest` are still to be published; the sensors show the
others. -/
def Published (s : ObjectSensors F) (outcome : Outcome F) (rest : List (String × Nat)) : Prop :=
  ∃ done, (done ++ rest).Perm outcome.values ∧ ∀ e ∈ done, s.shown e.1 = some (.num e.2)

/-- What the next statement says about the latest outcome. -/
def Current (s : ObjectSensors F) : Prop :=
  match s.pc with
  | .recv | .returned => ∀ outcome, s.latest = some outcome → s.Published outcome []
  | .publish rest | .await _ rest =>
      ∃ outcome, s.latest = some outcome ∧ s.Published outcome rest

theorem Published.congr (h : s.Published outcome rest)
    (hshown : ∀ name ∈ sensors, s'.shown name = s.shown name) : s'.Published outcome rest := by
  obtain ⟨done, hperm, hdone⟩ := h
  refine ⟨done, hperm, fun e he => ?_⟩
  have hmem : e ∈ outcome.values := hperm.mem_iff.mp (List.mem_append_left rest he)
  rw [hshown e.1 (name_mem_sensors hmem)]
  exact hdone e he

/-- One more value is published. -/
theorem Published.publish {name : String} {value : Nat}
    (h : s.Published outcome ((name, value) :: rest))
    (hsaid : s'.client.said = s.client.said ++ [(name, .num value)]) :
    s'.Published outcome rest := by
  obtain ⟨done, hperm, hdone⟩ := h
  refine ⟨done ++ [(name, value)], by simpa using hperm, fun e he => ?_⟩
  rw [shown_of_said hsaid]
  rcases List.mem_append.mp he with he | he
  · have hnodup := (hperm.map Prod.fst).nodup_iff.mpr (values_nodup outcome)
    simp only [List.map_append, List.map_cons, List.nodup_append, List.mem_cons] at hnodup
    have hne : e.1 ≠ name := hnodup.2.2 e.1 (List.mem_map_of_mem he) name (.inl rfl)
    rw [if_neg hne]
    exact hdone e he
  · obtain rfl := List.mem_singleton.mp he
    exact if_pos rfl

theorem Current.congr (h : s.Current) (hpc : s'.pc = s.pc) (houtcomes : s'.outcomes = s.outcomes)
    (hshown : ∀ name ∈ sensors, s'.shown name = s.shown name) : s'.Current := by
  unfold Current latest at h ⊢
  rw [hpc, houtcomes]
  cases hs : s.pc with
  | recv | returned =>
      simp only [hs] at h ⊢
      exact fun outcome houtcome => (h outcome houtcome).congr hshown
  | publish rest | await c rest =>
      simp only [hs] at h ⊢
      obtain ⟨outcome, houtcome, hpublished⟩ := h
      exact ⟨outcome, houtcome, hpublished.congr hshown⟩

theorem Current.receive (h : s.Current) (hstep : s.receive outcome order = some s') :
    s'.Current := by
  unfold ObjectSensors.receive at hstep
  split at hstep
  next hpc =>
    cases hstep
    simp only [Current, hpc] at h ⊢
    exact h
  next hpc =>
    cases hstep
    simp only [Current, hpc] at h ⊢
    exact h
  next dets _ =>
    split at hstep
    next horder =>
      cases hstep
      exact ⟨.detections dets, rfl, [], counts_perm horder, by simp⟩
    next => cases hstep
  next =>
    split at hstep
    next horder =>
      cases hstep
      exact ⟨.timeout, rfl, [], noCounts_perm horder, by simp⟩
    next => cases hstep
  next => cases hstep

theorem Current.advance (h : s.Current) (hstep : s.advance = some s') : s'.Current := by
  unfold ObjectSensors.advance at hstep
  split at hstep
  next hpc =>
    cases hstep
    simp only [Current, hpc] at h ⊢
    obtain ⟨outcome, houtcome, hpublished⟩ := h
    rintro outcome' houtcome'
    obtain rfl : outcome = outcome' := Option.some.inj (houtcome.symm.trans houtcome')
    exact hpublished
  next name value rest hpc =>
    cases hstep
    simp only [Current, hpc] at h ⊢
    obtain ⟨outcome, houtcome, hpublished⟩ := h
    exact ⟨outcome, houtcome, hpublished.publish (said_publish ..)⟩
  next c rest hpc =>
    split at hstep
    · cases hstep
      simp only [Current, hpc] at h ⊢
      exact h
    · cases hstep
  next => cases hstep
  next => cases hstep

theorem prefix_of_mem_sensors {name : String} (h : name ∈ sensors) :
    "objdet_".toList <+: name.toList := by
  have hall : ∀ name ∈ sensors, "objdet_".toList <+: name.toList := by decide
  exact hall name h

/-- The invariant of the publishers. -/
structure Inv (s : ObjectSensors F) : Prop where
  current : s.Current
  names : ∀ e ∈ s.client.said, "objdet_".toList <+: e.1.toList → e.1 ∈ sensors

namespace Inv

theorem start (objname : String) : Inv (ObjectSensors.start objname : ObjectSensors F) := by
  constructor
  · rintro outcome houtcome
    cases houtcome
  · simp [ObjectSensors.start, HAMQTTClient.new, HAMQTTClient.said]

/-- A call of `publish` for a name that is not another sensor's. -/
theorem names_concat {said : List (String × Json)} {name : String} {value : Json}
    (h : ∀ e ∈ said, "objdet_".toList <+: e.1.toList → e.1 ∈ sensors)
    (hname : "objdet_".toList <+: name.toList → name ∈ sensors) :
    ∀ e ∈ said ++ [(name, value)], "objdet_".toList <+: e.1.toList → e.1 ∈ sensors := by
  intro e he
  rcases List.mem_append.mp he with he | he
  · exact h e he
  · obtain rfl := List.mem_singleton.mp he
    exact hname

theorem names_receive (h : s.Inv) (hstep : s.receive outcome order = some s') :
    ∀ e ∈ s'.client.said, "objdet_".toList <+: e.1.toList → e.1 ∈ sensors := by
  have hclient : s'.client = s.client := by
    unfold ObjectSensors.receive at hstep
    split at hstep
    · cases hstep; rfl
    · cases hstep; rfl
    · split at hstep <;> cases hstep; rfl
    · split at hstep <;> cases hstep; rfl
    · cases hstep
  rw [hclient]
  exact h.names

theorem names_advance (h : s.Inv) (hstep : s.advance = some s') :
    ∀ e ∈ s'.client.said, "objdet_".toList <+: e.1.toList → e.1 ∈ sensors := by
  unfold ObjectSensors.advance at hstep
  split at hstep
  next =>
    cases hstep
    exact h.names
  next name value rest hpc =>
    have hcurrent := h.current
    simp only [Current, hpc] at hcurrent
    obtain ⟨outcome, -, done, hperm, -⟩ := hcurrent
    have hmem : (name, value) ∈ outcome.values :=
      hperm.mem_iff.mp (List.mem_append_right done List.mem_cons_self)
    have hsaid := said_publish s.client s.objname name (.num value) "" ""
    cases hstep
    rw [hsaid]
    exact names_concat h.names fun _ => name_mem_sensors hmem
  next =>
    split at hstep <;> cases hstep
    exact h.names
  next => cases hstep
  next => cases hstep

theorem step (h : s.Inv) (hstep : s.step a = some s') : s'.Inv := by
  cases a with
  | receive outcome order => exact ⟨h.current.receive hstep, h.names_receive hstep⟩
  | advance => exact ⟨h.current.advance hstep, h.names_advance hstep⟩
  | other sensor value deviceClass unitOfMeasurement =>
      cases hstep
      have hsaid := said_publish s.client s.objname sensor.name value deviceClass unitOfMeasurement
      refine ⟨h.current.congr rfl rfl fun name hname => ?_, ?_⟩
      · have hne : name ≠ sensor.name := by
          rintro rfl
          exact other_not_sensor sensor (prefix_of_mem_sensors hname)
        rw [shown_of_said hsaid, if_neg hne]
      · rw [hsaid]
        exact names_concat h.names fun hprefix => absurd hprefix (other_not_sensor sensor)
  | client a =>
      simp only [ObjectSensors.step] at hstep
      split at hstep
      next ha =>
        obtain ⟨client, hclient, rfl⟩ := Option.map_eq_some_iff.mp hstep
        have hsaid := said_of_client ha hclient
        refine ⟨h.current.congr rfl rfl fun name _ => ?_, by rw [hsaid]; exact h.names⟩
        simp only [shown, hsaid]
      next => cases hstep

end Inv

theorem inv_of_reachable (h : (system F).Reachable s) : s.Inv := by
  refine h.invariant ?_ fun s a s' _ hs => hs.step
  rintro s ⟨objname, rfl⟩
  exact .start objname

/-- All values of the outcome are published. -/
theorem Published.shows (h : s.Published outcome []) : s.Shows outcome := by
  obtain ⟨done, hperm, hdone⟩ := h
  rw [List.append_nil] at hperm
  have hvalue : ∀ e ∈ outcome.values, s.shown e.1 = some (.num e.2) := fun e he =>
    hdone e (hperm.mem_iff.mpr he)
  simp only [Outcome.values, groups, List.map_cons, List.map_nil, List.mem_cons, List.not_mem_nil,
    or_false, forall_eq_or_imp, forall_eq] at hvalue
  obtain ⟨htotal, hperson, hanimal, hvehicle⟩ := hvalue
  have hsum := Summarize.members_le outcome.dets
  rw [members_person] at hperson hsum
  rw [members_vehicle] at hvehicle hsum
  rw [members_animal] at hanimal hsum
  exact ⟨htotal, hperson, hvehicle, hanimal, hsum⟩

/-- While `run_mqtt_publish` waits for the channel, the sensors show what the latest
outcome says, each group modulo 2^32. A loss changes nothing, and no other sensor of its
kind is ever published. -/
theorem shows_latest (h : (system F).Reachable s) :
    (s.pc = .recv → ∀ outcome, s.latest = some outcome → s.Shows outcome) ∧
    (∀ skipped order s', s.step (.receive (.lagged skipped) order) = some s' →
      s'.latest = s.latest ∧ ∀ name, s'.shown name = s.shown name) ∧
    (∀ e ∈ s.client.said, "objdet_".toList <+: e.1.toList → e.1 ∈ sensors) := by
  have hinv := inv_of_reachable h
  refine ⟨fun hpc outcome houtcome => ?_, fun skipped order s' hstep => ?_, hinv.names⟩
  · have hcurrent := hinv.current
    simp only [Current, hpc] at hcurrent
    exact (hcurrent outcome houtcome).shows
  · cases hpc : s.pc with
    | recv =>
        simp only [step, receive, hpc] at hstep
        cases hstep
        exact ⟨rfl, fun _ => rfl⟩
    | publish | await | returned => simp [step, receive, hpc] at hstep

/-! ### A list and its outcome -/

/-- A new call of a client that is not connected returns at once. -/
theorem exists_step_returned {c : Nat} {u : HAMQTTClient.PublishCall} (hu : m.calls[c]? = some u)
    (hpc : u.pc = .isConnected) (hconnected : m.connected = false) :
    ∃ m', m.step (.call c true) = some m' ∧
      m'.calls[c]?.map HAMQTTClient.PublishCall.pc = some (.returned (.ok ())) ∧
      m'.connected = false := by
  refine ⟨m.goto c u (.returned (.ok ())), ?_, ?_, hconnected⟩
  · simp [HAMQTTClient.step, HAMQTTClient.advance, hu, hpc, hconnected]
  · simp [HAMQTTClient.goto, List.getElem?_set_of_some hu]

/-- Whatever is left to publish gets published, if only because nobody is connected. -/
theorem exists_run_recv (hpc : s.pc = .publish rest) (hconnected : s.client.connected = false) :
    ∃ as s', Transition.run step s as = some s' ∧ s'.pc = .recv ∧ s'.outcomes = s.outcomes ∧
      ∀ a ∈ as, a = .advance ∨ ∃ b, a = .client b := by
  induction rest generalizing s with
  | nil =>
      refine ⟨[.advance], { s with pc := .recv }, ?_, rfl, rfl, by simp⟩
      rw [Transition.run_singleton]
      simp only [step, advance, hpc]
  | cons e rest ih =>
      obtain ⟨name, value⟩ := e
      let c := s.client.calls.length
      let called := s.client.publish s.objname name (.num value) "" ""
      obtain ⟨client, hclient, hreturned, hdisconnected⟩ :=
        exists_step_returned (m := called) (c := c) (List.getElem?_concat_length ..) rfl hconnected
      obtain ⟨as, s', hrun, hrecv, houtcomes, hquiet⟩ :=
        ih (s := { s with client, pc := .publish rest }) rfl hdisconnected
      refine ⟨.advance :: .client (.call c true) :: .advance :: as, s', ?_, hrecv, houtcomes,
        by simpa using hquiet⟩
      have h₁ : s.step .advance = some { s with client := called, pc := .await c rest } := by
        simp only [step, advance, hpc]
        rfl
      have h₂ : step { s with client := called, pc := .await c rest } (.client (.call c true)) =
          some { s with client, pc := .await c rest } := by
        simp only [step, ofClient, if_true, hclient, Option.map_some]
      have h₃ : step { s with client, pc := .await c rest } .advance =
          some { s with client, pc := .publish rest } := by
        simp only [step, advance, hreturned]
      exact Transition.run_cons_eq_some.mpr ⟨_, h₁, Transition.run_cons_eq_some.mpr ⟨_, h₂,
        Transition.run_cons_eq_some.mpr ⟨_, h₃, hrun⟩⟩⟩

theorem exists_processed (dets : List (Detection F)) :
    ∃ s, (system F).Reachable s ∧ s.pc = .recv ∧ s.latest = some (.detections dets) := by
  let order := (summarizeDetections dets).entries
  let received : ObjectSensors F :=
    { (start "camera" : ObjectSensors F) with
      pc := .publish (counts dets order)
      outcomes := [.detections dets] }
  have hreceive : step (start "camera") (.receive (.detections dets) order) = some received :=
    if_pos (List.Perm.refl order)
  obtain ⟨as, s', hrun, hpc, houtcomes, -⟩ := exists_run_recv (s := received) rfl rfl
  refine ⟨s', ⟨start "camera", .receive (.detections dets) order :: as, ⟨"camera", rfl⟩,
    Transition.run_cons_eq_some.mpr ⟨received, hreceive, hrun⟩⟩, hpc, ?_⟩
  rw [latest, houtcomes]
  rfl

def person : Detection Unit where
  xmin := 0
  ymin := 0
  xmax := 10
  ymax := 10
  score := ()
  className := "person"

theorem shows_latest_couple :
    ∃ s, (system Unit).Reachable s ∧ s.latest = some (.detections [person, person]) ∧
      s.shown "objdet_person" = some (.num 2) := by
  obtain ⟨s, hs, hpc, hlatest⟩ := exists_processed [person, person]
  have hshows := (shows_latest hs).1 hpc _ hlatest
  exact ⟨s, hs, hlatest, hshows.person⟩

/-- A crowd of 2^32 is nobody. -/
theorem not_shown_crowd :
    ∃ (dets : List (Detection Unit)) (s : ObjectSensors Unit), (system Unit).Reachable s ∧
      s.pc = .recv ∧ s.latest = some (.detections dets) ∧
      dets.countP (fun det => det.className ∈ ["person"]) = 2 ^ 32 ∧
      s.shown "objdet_person" = some (.num 0) := by
  have hcount : ∀ n, (List.replicate n person).countP
      (fun det => det.className ∈ ["person"]) = n := by
    intro n
    simp [List.countP_replicate, person]
  obtain ⟨n, hn⟩ : ∃ n, n = 2 ^ 32 := ⟨_, rfl⟩
  obtain ⟨s, hs, hpc, hlatest⟩ := exists_processed (List.replicate n person)
  have hcurrent := (inv_of_reachable hs).current
  simp only [Current, hpc] at hcurrent
  have hperson := (hcurrent _ hlatest).shows.person
  rw [Outcome.count, Outcome.dets, hcount, hn, Nat.mod_self] at hperson
  exact ⟨_, s, hs, hpc, hlatest, (hcount n).trans hn, hperson⟩

end ObjectSensors
