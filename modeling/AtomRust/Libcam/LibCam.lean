-- SUMMARY: `LibCamCallback`: the two camera callbacks, with the timestamps that they give to packets and the rates that they send.
import AtomRust.Libcam.TimeReporter
import AtomRust.Pipeline.Summarize

/-!
# The camera callbacks

libcamlite and ffmpeg are not part of this repository: what `analyze` and
`StreamInfo::from_params` return for a frame comes with the frame, and so do the
detections of the inference stage and the readings of the clock. A broadcast channel is
the list of the values sent on it.

The arithmetic on timestamps is over `i64`, with the operation that makes an `i64` of a
result as a parameter: `wrap` is the release build, and `check` stops at an overflow.
The locks are left out: nothing panics under them as long as `detect` does not.
-/

namespace I64

def wrap (x : ℤ) : Id ℤ := Int.bmod x (2 ^ 64)

def check (x : ℤ) : Option ℤ := if -2 ^ 63 ≤ x ∧ x < 2 ^ 63 then some x else none

end I64

/-- The readings of the clock in one callback, of which the second and the fourth are
taken at the end of a window. -/
structure Readings where
  timeToReport : ℕ
  rate : ℕ
  tick : ℕ
  reset : ℕ

/-- What a callback does with its reporter, and the rates that it sends. -/
def RateReporter.frame (r : RateReporter) (c : Readings) : RateReporter × List Rate :=
  (r.tick c.tick c.reset, if r.isTimeToReport c.timeToReport then [r.rate c.rate] else [])

/-- `media::Packet`. Its timebase is a microsecond. -/
structure Packet where
  data : List UInt8
  isKey : Bool
  pts : ℤ
  dts : ℤ
  duration : ℤ

structure H264State where
  reporter : RateReporter
  /-- `stream` is not null. -/
  stream : Bool
  firstTsUs : Option ℤ
  lastPtsUs : ℤ
  frameDurationUs : ℤ

structure LowresState where
  reporter : RateReporter
  /-- There is an inference stage. -/
  tflite : Bool

structure LibCamCallback (S F : Type) where
  h264 : H264State
  lowres : LowresState
  streamTx : List S
  packetTx : List Packet
  detectionTx : List (List (Detection F))
  lowresRateTx : List Rate
  h264RateTx : List Rate
  lastFrame : ℕ

/-- A call of `callbackH264`. -/
structure H264Frame (S : Type) where
  bytes : List UInt8
  timestampUs : ℤ
  keyframe : Bool
  monoMillis : ℕ
  /-- `analyze` would find the stream. -/
  analyzed : Bool
  /-- `StreamInfo::from_params` of it, with `none` for an error. -/
  streamInfo : Option S
  clock : Readings

/-- A call of `callbackLowres`. -/
structure LowresFrame (F : Type) where
  clock : Readings
  /-- What `detect` returns, with `none` for an error. -/
  detected : Option (List (Detection F))

/-! ## Timestamps -/

namespace H264State
variable {m : Type → Type} [Monad m]

/-- A frame that is not beyond the last `pts` is corrected. -/
def correct (i64 : ℤ → m ℤ) (st : H264State) (elapsed : ℤ) : m ℤ :=
  if elapsed ≤ st.lastPtsUs then i64 (st.lastPtsUs + st.frameDurationUs) else pure elapsed

/-- The first timestamp, which is that of this frame if there was none before. -/
def first (st : H264State) (timestampUs : ℤ) : ℤ := st.firstTsUs.getD timestampUs

/-- The `pts` of a frame. -/
def stamp (i64 : ℤ → m ℤ) (st : H264State) (timestampUs : ℤ) : m (ℤ × H264State) := do
  let elapsed ← i64 (timestampUs - st.first timestampUs)
  let pts ← st.correct i64 elapsed
  return (pts, { st with firstTsUs := some (st.first timestampUs), lastPtsUs := pts })

end H264State

/-! ## The callbacks -/

namespace LibCamCallback
variable {S F : Type} {m : Type → Type} [Monad m]

/-- `LibCamCallback::new`. -/
def new (framerate : UInt8) (tflite : Bool) (nowH264 nowLowres : ℕ) : LibCamCallback S F where
  h264 :=
    { reporter := .new 1 nowH264
      stream := false
      firstTsUs := none
      lastPtsUs := -1
      frameDurationUs := 1000000 / (max framerate.toNat 1 : ℕ) }
  lowres := { reporter := .new 1 nowLowres, tflite }
  streamTx := []
  packetTx := []
  detectionTx := []
  lowresRateTx := []
  h264RateTx := []
  lastFrame := 0

/-- The frames are looked at until the stream is known. -/
def findStream (c : LibCamCallback S F) (f : H264Frame S) : LibCamCallback S F :=
  if !c.h264.stream && f.analyzed then
    { c with
      h264 := { c.h264 with stream := true }
      streamTx := c.streamTx ++ f.streamInfo.toList }
  else c

def packet (f : H264Frame S) (pts duration : ℤ) : Packet where
  data := f.bytes
  isKey := f.keyframe
  pts := pts
  dts := pts
  duration := duration

/-- Once it is, they are sent. -/
def sendPacket (i64 : ℤ → m ℤ) (c : LibCamCallback S F) (f : H264Frame S) :
    m (LibCamCallback S F) :=
  if c.h264.stream then do
    let stamped ← c.h264.stamp i64 f.timestampUs
    return { c with
      h264 := stamped.2
      packetTx := c.packetTx ++ [packet f stamped.1 c.h264.frameDurationUs] }
  else pure c

def reportH264 (c : LibCamCallback S F) (clock : Readings) : LibCamCallback S F :=
  let (reporter, rates) := c.h264.reporter.frame clock
  { c with h264 := { c.h264 with reporter }, h264RateTx := c.h264RateTx ++ rates }

def callbackH264 (i64 : ℤ → m ℤ) (c : LibCamCallback S F) (f : H264Frame S) :
    m (LibCamCallback S F) := do
  let c ← (findStream { c with lastFrame := f.monoMillis } f).sendPacket i64 f
  return c.reportH264 f.clock

def reportLowres (c : LibCamCallback S F) (clock : Readings) : LibCamCallback S F :=
  let (reporter, rates) := c.lowres.reporter.frame clock
  { c with lowres := { c.lowres with reporter }, lowresRateTx := c.lowresRateTx ++ rates }

/-- An empty list of detections is not sent. -/
def sendDetections (c : LibCamCallback S F) (f : LowresFrame F) : LibCamCallback S F :=
  match c.lowres.tflite, f.detected with
  | true, some (det :: dets) => { c with detectionTx := c.detectionTx ++ [det :: dets] }
  | _, _ => c

def callbackLowres (c : LibCamCallback S F) (f : LowresFrame F) : LibCamCallback S F :=
  (c.reportLowres f.clock).sendDetections f

end LibCamCallback
