-- SUMMARY: `HAMQTTClient`: `publish` step by step, with the set of announced sensors that all calls and the connected callback share.
import Mathlib.Data.Finset.Erase
import Mathlib.Data.Finset.Insert
import AtomRust.Base.Transition

/-!
# The Home Assistant client

The client library is not part of this repository. Whether it is connected, when it
runs the connected callback, and whether a configuration message is accepted is up to
the environment.

`log` is a ghost that records, newest first, the changes of the announced set and the
messages that were handed to the library. Poisoned locks are left out: no code panics
while it holds one.
-/

/-- `serde_json::Value`, as far as it is used. -/
inductive Json where
  | str (s : String)
  | num (n : Nat)
  | obj (fields : List (String × Json))

namespace Mqtt

inductive QoS where
  | qos0
  | qos1
  deriving DecidableEq

/-- `mqtt::Message`. -/
structure Message where
  topic : String
  payload : Json
  retained : Bool
  qos : QoS

end Mqtt

namespace HAMQTTClient

def expireAfterSecs : Nat := 120

/-- The next statement of a `publish` call. -/
inductive Pc where
  /-- `self.mqtt.is_connected()`. -/
  | isConnected
  /-- `announced.insert(uniqueid.clone())`. -/
  | insert
  /-- `self.mqtt.publish(msg)`, with the configuration. -/
  | sendConfig
  /-- Its `await`. -/
  | awaitConfig
  /-- `announced.remove(&uniqueid)`. -/
  | remove
  /-- `self.mqtt.publish(state_msg)`. -/
  | sendState
  | returned (result : Except Unit Unit)

/-- A `publish` call. -/
structure PublishCall where
  objectId : String
  name : String
  value : Json
  deviceClass : String
  unitOfMeasurement : String
  pc : Pc

/-- An entry of the log. -/
inductive Record where
  /-- Call `c` inserted the sensor, which was not there. -/
  | inserted (id : String) (c : Nat)
  /-- Call `c` removed it. -/
  | removed (id : String) (c : Nat)
  /-- The connected callback ran. -/
  | cleared
  /-- Call `c` handed its configuration to the library. -/
  | config (c : Nat) (msg : Mqtt.Message)
  /-- The configuration of call `c` was accepted. -/
  | accepted (c : Nat)
  /-- Call `c` handed its state to the library. -/
  | state (c : Nat) (msg : Mqtt.Message)

end HAMQTTClient

open HAMQTTClient (Pc PublishCall Record)

structure HAMQTTClient where
  topicPrefix : String
  connected : Bool
  announced : Finset String
  calls : List PublishCall
  log : List Record

namespace HAMQTTClient

/-- `HAMQTTClient::new`. -/
def new : HAMQTTClient where
  topicPrefix := "homeassistant"
  connected := false
  announced := ∅
  calls := []
  log := []

def note (m : HAMQTTClient) (r : Record) : HAMQTTClient := { m with log := r :: m.log }

/-! ## The messages -/

def component : String := "sensor"

def PublishCall.uniqueid (u : PublishCall) : String := u.objectId ++ "_" ++ u.name

def stateTopic (m : HAMQTTClient) (u : PublishCall) : String :=
  m.topicPrefix ++ "/" ++ component ++ "/" ++ u.uniqueid ++ "/state"

def configTopic (m : HAMQTTClient) (u : PublishCall) : String :=
  m.topicPrefix ++ "/" ++ component ++ "/" ++ u.uniqueid ++ "/config"

def configMessage (m : HAMQTTClient) (u : PublishCall) : Mqtt.Message where
  topic := m.configTopic u
  payload := .obj <|
    [("name", .str u.name),
      ("value_template", .str ("\x7b\x7b value_json." ++ u.name ++ " \x7d\x7d")),
      ("state_topic", .str (m.stateTopic u)),
      ("device", .obj [("identifiers", .str u.objectId), ("name", .str u.objectId)]),
      ("unique_id", .str u.uniqueid),
      ("expire_after", .num expireAfterSecs)] ++
    (if u.deviceClass.isEmpty then [] else [("device_class", .str u.deviceClass)]) ++
    (if u.unitOfMeasurement.isEmpty then []
      else [("unit_of_measurement", .str u.unitOfMeasurement)])
  retained := true
  qos := .qos1

def stateMessage (m : HAMQTTClient) (u : PublishCall) : Mqtt.Message where
  topic := m.stateTopic u
  payload := .obj [(u.name, u.value)]
  retained := false
  qos := .qos0

/-! ## The calls -/

/-- A new call of `publish`. -/
def publish (m : HAMQTTClient) (objectId name : String) (value : Json)
    (deviceClass unitOfMeasurement : String) : HAMQTTClient :=
  let u : PublishCall :=
    { objectId, name, value, deviceClass, unitOfMeasurement, pc := .isConnected }
  { m with calls := m.calls ++ [u] }

/-- Call `c` goes on at `pc`. -/
def goto (m : HAMQTTClient) (c : Nat) (u : PublishCall) (pc : Pc) : HAMQTTClient :=
  { m with calls := m.calls.set c { u with pc } }

/-- The next step of call `c`. `accepted` is the outcome of its configuration message. -/
def advance (m : HAMQTTClient) (c : Nat) (u : PublishCall) (accepted : Bool) :
    Option HAMQTTClient :=
  match u.pc with
  | .isConnected =>
      if m.connected then some (m.goto c u .insert) else some (m.goto c u (.returned (.ok ())))
  | .insert =>
      if u.uniqueid ∈ m.announced then some (m.goto c u .sendState)
      else
        some ({ m.goto c u .sendConfig with
          announced := insert u.uniqueid m.announced }.note (.inserted u.uniqueid c))
  | .sendConfig => some ((m.goto c u .awaitConfig).note (.config c (m.configMessage u)))
  | .awaitConfig =>
      if accepted then some ((m.goto c u .sendState).note (.accepted c))
      else some (m.goto c u .remove)
  | .remove =>
      some ({ m.goto c u (.returned (.error ())) with
        announced := m.announced.erase u.uniqueid }.note (.removed u.uniqueid c))
  | .sendState =>
      -- The result is dropped, and nobody waits for it.
      some ((m.goto c u (.returned (.ok ()))).note (.state c (m.stateMessage u)))
  | .returned _ => none

/-! ## The system -/

inductive Action where
  | publish (objectId name : String) (value : Json) (deviceClass unitOfMeasurement : String)
  /-- Call `c` goes on. -/
  | call (c : Nat) (accepted : Bool)
  /-- The library connects, or loses the connection. -/
  | setConnected (connected : Bool)
  /-- The library runs the connected callback. -/
  | connectedCallback

def step (m : HAMQTTClient) : Action → Option HAMQTTClient
  | .publish objectId name value deviceClass unitOfMeasurement =>
      some (m.publish objectId name value deviceClass unitOfMeasurement)
  | .call c accepted => m.calls[c]?.bind fun u => m.advance c u accepted
  | .setConnected connected => some { m with connected }
  | .connectedCallback => some ({ m with announced := ∅ }.note .cleared)

/-- The runs of a client. -/
def system : Transition.System HAMQTTClient Action where
  init m := m = new
  step := step

end HAMQTTClient
