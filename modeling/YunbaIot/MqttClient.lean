import YunbaIot.MqttDeserialize
import YunbaIot.MqttSerialize
import YunbaIot.MqttTransport

/-! MQTTClient.c over an arbitrary network: the packet reader and writer, one round of
`cycle`, and the calls of an application. The trace records what the outside sees; the
buffers are memories of their own, so a store past the end of one shows in its log. -/
namespace YunbaIot.MqttClient
open FreeRtosTimer MqttTransport MqttPacket MqttDeserialize MqttSerialize

def failure : Int := -1
def success : Int := 0
theorem failureNotSuccess : failure ≠ success := by decide

structure Client where
  nextPacketid : UInt64
  commandTimeoutMs : UInt64
  bufSize : Nat
  readbufSize : Nat
  buf : Memory
  readbuf : Memory
  keepAliveInterval : UInt32
  pingOutstanding : Bool
  isconnected : Nat
  failConnCount : UInt8
  pingTimer : Timer

/- What a message handler is given; `none` where the deserializer assigned nothing. -/
structure Message where
  dup : Nat
  qos : Nat
  retained : Nat
  id : Option UInt64
  topicName : Option (List UInt8)
  payload : Option (List UInt8)
  deriving DecidableEq, Repr

inductive Event where
  | received (packet : List UInt8)
  | sendPacket (packet transmitted : List UInt8) (rc : Int)
  | message (m : Message)
  | extMessage (cmd status : UInt8) (payload : List UInt8)
  | threadStart
  | clientInit
  | disconnected
  deriving DecidableEq, Repr

/- `times` are the coming answers of system_get_time, `stack` is what an uninitialised
packet id on the stack holds. -/
structure St (τ : Type) where
  client : Client
  wire : Wire τ
  times : List UInt32
  stack : UInt64
  trace : List Event

structure Outcome (τ : Type) where
  rc : Int
  timer : Timer
  st : St τ

variable {τ : Type}

/- The client and its buffers as the linker leaves them. -/
def St.static (wire : Wire τ) : St τ where
  client := ⟨0,0,0,0,.ofList [],.ofList [],0,false,0,0,timerInit⟩
  wire := wire
  times := []
  stack := 0
  trace := []

def St.setClock (st : St τ) (clock : List Tick) : St τ := { st with wire := { st.wire with clock := clock } }
def St.log (st : St τ) (e : Event) : St τ := { st with trace := st.trace ++ [e] }
def St.fill (st : St τ) (off : Nat) (bs : List UInt8) : St τ :=
  { st with client := { st.client with readbuf := st.client.readbuf.store off bs } }
def St.emit (st : St τ) (bs : List UInt8) : St τ :=
  { st with client := { st.client with buf := st.client.buf.store 0 bs } }
def St.armPing (st : St τ) (seconds : UInt32) : St τ :=
  let armed := timerCountdown seconds st.wire.clock
  { st.setClock armed.clock with client := { st.client with pingTimer := armed.timer } }

/-! Sending -/

structure SendLoop (τ : Type) where
  rc : Int
  sent : Nat
  transmitted : List UInt8
  timer : Timer
  wire : Wire τ

/- The while loop of sendPacket. Each round offers `length` bytes from &c->buf[sent],
also when some of the packet is already out. Every check that finds the timer running
uses up a reading of the clock, which bounds the rounds. -/
def sendLoop (net : Network τ) (byte : Nat → UInt8) (length : Nat) : Nat → SendLoop τ → SendLoop τ
  | 0, s => s
  | fuel+1, s =>
    if s.sent < length then
      let check := timerIsExpired s.timer s.wire.clock
      if check.expired then { s with timer := check.timer, wire := { s.wire with clock := check.clock } }
      else
        let left := timerLeftMs check.timer check.clock
        let offered := Memory.slice byte s.sent length
        let w := net.mqttwrite offered left.ms { s.wire with clock := left.clock }
        let out := s.transmitted ++ offered.take w.1.taken
        if w.1.rc < 0 then ⟨w.1.rc,s.sent,out,left.timer,w.2⟩
        else sendLoop net byte length fuel ⟨w.1.rc,s.sent + w.1.rc.toNat,out,left.timer,w.2⟩
    else s

def sendRun (net : Network τ) (length : Nat) (timer : Timer) (st : St τ) : SendLoop τ :=
  sendLoop net st.client.buf.byte length (st.wire.clock.length + 1) ⟨failure,0,[],timer,st.wire⟩

def sendPacket (net : Network τ) (length : Nat) (timer : Timer) (st : St τ) : Outcome τ :=
  let s := sendRun net length timer st
  let packet := Memory.slice st.client.buf.byte 0 length
  let st := { st with wire := s.wire }
  if s.sent = length then
    ⟨success,s.timer,(st.armPing st.client.keepAliveInterval).log (.sendPacket packet s.transmitted success)⟩
  else ⟨failure,s.timer,st.log (.sendPacket packet s.transmitted failure)⟩

/- What every sender does with a serializer's result: nothing goes out unless the packet
has a length. -/
def sendSerialized (net : Network τ) (packet : Serialized) (timer : Timer) (st : St τ) : Outcome τ :=
  let st := st.emit packet.written
  if packet.rc ≤ 0 then ⟨failure,timer,st⟩ else sendPacket net packet.rc.toNat timer st

/-! Reading -/

-- mqttread with what is left of a timer as its timeout
structure Asked (τ : Type) where
  result : ReadResult
  timer : Timer
  wire : Wire τ

def ask (net : Network τ) (len : Nat) (timer : Timer) (wire : Wire τ) : Asked τ :=
  let left := timerLeftMs timer wire.clock
  let r := net.mqttread len left.ms { wire with clock := left.clock }
  ⟨r.1,left.timer,r.2⟩

def decodePacket (net : Network τ) (ms : UInt32) (wire : Wire τ) : Decoded (Wire τ) :=
  mqttPacketDecode (oneByte net ms) wire

def acceptPacket (total : Nat) (timer : Timer) (st : St τ) : Outcome τ :=
  ⟨MqttHeader.type (st.client.readbuf.byte 0),timer,
    st.log (.received (Memory.slice st.client.readbuf.byte 0 total))⟩

/- readPacket from the length field on, with the header byte in readbuf[0]. The result
of decodePacket is not looked at. -/
def readRest (net : Network τ) (timer : Timer) (st : St τ) : Outcome τ :=
  let left := timerLeftMs timer st.wire.clock
  let d := decodePacket net left.ms { st.wire with clock := left.clock }
  let lenBytes := mqttPacketEncode d.value
  let len := 1 + lenBytes.length
  let st := { st.fill 1 lenBytes with wire := d.source }
  if 0 < d.value then
    let body := ask net d.value left.timer st.wire
    let st := { st.fill len body.result.stored with wire := body.wire }
    if body.result.rc ≠ d.value then ⟨failure,body.timer,st⟩
    else acceptPacket (len + d.value) body.timer st
  else acceptPacket (len + d.value) left.timer st

def readPacket (net : Network τ) (timer : Timer) (st : St τ) : Outcome τ :=
  let head := ask net 1 timer st.wire
  let st := { st.fill 0 head.result.stored with wire := head.wire }
  if head.result.rc ≠ 1 then ⟨failure,head.timer,st⟩ else readRest net head.timer st

/-! One round of cycle -/

def deliverMessage (m : Message) (st : St τ) : St τ := st.log (.message m)

def deliverextMessage (out : ExtendedcmdOut) (st : St τ) : St τ :=
  match out.cmd, out.status, out.payload, out.payloadlen with
  | some cmd, some status, some payload, some len =>
    st.log (.extMessage cmd status (Memory.slice st.client.readbuf.byte payload len))
  | _, _, _, _ => st

def pingSent (st : St τ) : St τ :=
  { st with client := { st.client with pingOutstanding := true, failConnCount := 0 } }

def pingFailed (st : St τ) : St τ :=
  let count := st.client.failConnCount
  let st := { st with client := { st.client with failConnCount := count + 1 } }
  if 2 < count then st.log .threadStart else st.armPing 20

def keepalive (net : Network τ) (st : St τ) : Int × St τ :=
  if st.client.keepAliveInterval = 0 then (success, st)
  else
    let check := timerIsExpired st.client.pingTimer st.wire.clock
    let st := { st.setClock check.clock with client := { st.client with pingTimer := check.timer } }
    if check.expired then
      let armed := timerCountdownMs 1000 st.wire.clock
      let sent := sendSerialized net (mqttSerializePingreq st.client.bufSize) armed.timer (st.setClock armed.clock)
      (sent.rc, if sent.rc = success then pingSent sent.st else pingFailed sent.st)
    else (failure, st)

-- `exit` is the goto that skips keepalive.
structure Handled (τ : Type) where
  rc : Int
  exit : Bool
  timer : Timer
  st : St τ

-- `connack_rc` starts as 255
def connackCode (out : ConnackOut) : Int := if out.rc = 1 then (out.connackRc.getD 255).toNat else failure

def handleConnack (timer : Timer) (st : St τ) : Handled τ :=
  let rc := connackCode (mqttDeserializeConnack st.client.readbuf.byte st.client.readbufSize)
  let st := if rc = success then { st with client := { st.client with isconnected := 1 } } else st
  ⟨rc,false,timer,st⟩

def handlePuback (timer : Timer) (st : St τ) : Handled τ :=
  let out := mqttDeserializeAck st.client.readbuf.byte st.client.readbufSize
  ⟨if out.rc ≠ 1 then failure else success,false,timer,st⟩

def handleSuback (timer : Timer) (st : St τ) : Handled τ :=
  let out := mqttDeserializeSuback st.client.readbuf.byte 1 st.client.readbufSize
  let grantedQoS : Int := match out.granted with
    | [] => -1
    | code :: _ => code.toNat
  ⟨if out.rc = 1 then grantedQoS else success,false,timer,st⟩

def publishMessage (byte : Nat → UInt8) (out : PublishOut) : Message where
  dup := out.dup.getD 0
  qos := out.qos.getD 0
  retained := out.retained.getD 0
  id := out.packetid
  topicName := out.topicData.map (fun off => Memory.slice byte off (out.topicLen.getD 0))
  payload := out.payload.map (fun off =>
    Memory.slice byte off (UInt32.ofInt (out.payloadlen.getD 0)).toNat)

def publishAck (bufSize qos : Nat) (id : UInt64) : Serialized :=
  if qos = 1 then mqttSerializeAck bufSize MsgType.puback.code 0 id
  else if qos = 2 then mqttSerializeAck bufSize MsgType.pubrec.code 0 id
  else ⟨0,[]⟩

/- Delivery stands inside the branch for an acknowledged quality of service. -/
def handlePublish (net : Network τ) (timer : Timer) (st : St τ) : Handled τ :=
  let byte := st.client.readbuf.byte
  let out := mqttDeserializePublish byte st.client.readbufSize
  if out.rc ≠ 1 then ⟨success,true,timer,st⟩
  else
    let msg := publishMessage byte out
    if msg.qos ≠ 0 then
      let sent := sendSerialized net (publishAck st.client.bufSize msg.qos (msg.id.getD st.stack)) timer st
      ⟨sent.rc,false,sent.timer,deliverMessage msg sent.st⟩
    else ⟨success,false,timer,st⟩

/- The PUBREC and PUBREL cases, which differ in the type of the answer. -/
def answerAck (net : Network τ) (answer : MsgType) (timer : Timer) (st : St τ) : Handled τ :=
  let out := mqttDeserializeAck st.client.readbuf.byte st.client.readbufSize
  if out.rc ≠ 1 then ⟨failure,true,timer,st⟩
  else
    let ack := mqttSerializeAck st.client.bufSize answer.code 0 (out.packetid.getD st.stack)
    let sent := sendSerialized net ack timer st
    if sent.rc ≠ success then ⟨failure,true,sent.timer,sent.st⟩ else ⟨sent.rc,false,sent.timer,sent.st⟩

def handlePubrec (net : Network τ) (timer : Timer) (st : St τ) : Handled τ := answerAck net .pubrel timer st
def handlePubrel (net : Network τ) (timer : Timer) (st : St τ) : Handled τ := answerAck net .pubcomp timer st

def handlePingresp (timer : Timer) (st : St τ) : Handled τ :=
  ⟨success,false,timer,{ st with client := { st.client with pingOutstanding := false, failConnCount := 0 } }⟩

def handleExtcmd (timer : Timer) (st : St τ) : Handled τ :=
  let out := mqttDeserializeExtendedcmd st.client.readbuf.byte st.client.readbufSize
  if out.rc ≠ 1 then ⟨success,true,timer,st⟩ else ⟨success,false,timer,deliverextMessage out st⟩

def handle (net : Network τ) (packetType : Nat) (timer : Timer) (st : St τ) : Handled τ :=
  match MsgType.ofCode packetType with
  | some .connack => handleConnack timer st
  | some .puback => handlePuback timer st
  | some .suback => handleSuback timer st
  | some .publish => handlePublish net timer st
  | some .pubrec => handlePubrec net timer st
  | some .pubrel => handlePubrel net timer st
  | some .pingresp => handlePingresp timer st
  | some .extcmd => handleExtcmd timer st
  | _ => ⟨success,false,timer,st⟩

-- `unsigned short packet_type`
def packetType (rc : Int) : Nat := (rc % 65536).toNat

theorem packetTypeByte (b : UInt8) : packetType (MqttHeader.type b) = MqttHeader.type b := by
  have nibble := MqttHeader.typeBound b
  unfold packetType
  omega

def cycle (net : Network τ) (timer : Timer) (st : St τ) : Outcome τ :=
  let p := readPacket net timer st
  let type := packetType p.rc
  let h := handle net type p.timer p.st
  let st := if h.exit then h.st else (keepalive net h.st).2
  ⟨if h.rc = success then type else h.rc,h.timer,st⟩

def waitforLoop (net : Network τ) (type : MsgType) : Nat → Outcome τ → Outcome τ
  | 0, o => o
  | fuel+1, o =>
    let check := timerIsExpired o.timer o.st.wire.clock
    let st := o.st.setClock check.clock
    if check.expired then ⟨o.rc,check.timer,st⟩
    else
      let c := cycle net check.timer st
      if c.rc = type.code then c else waitforLoop net type fuel c

def waitfor (net : Network τ) (type : MsgType) (timer : Timer) (st : St τ) : Outcome τ :=
  waitforLoop net type (st.wire.clock.length + 1) ⟨failure,timer,st⟩

/-! Application calls. The mutex around each is held for the whole call. -/

def mqttClientInit (commandTimeoutMs : UInt32) (sendbuf : Memory) (sendbufSize : Nat) (readbuf : Memory)
    (readbufSize : Nat) (st : St τ) : St τ :=
  let client := { st.client with
    commandTimeoutMs := commandTimeoutMs.toUInt64, buf := sendbuf, bufSize := sendbufSize,
    readbuf := readbuf, readbufSize := readbufSize, isconnected := 0, pingOutstanding := false,
    nextPacketid := 1, failConnCount := 0, pingTimer := timerInit }
  { st with client := client }.log .clientInit

def commandTimer (st : St τ) : Armed := timerCountdownMs st.client.commandTimeoutMs.toUInt32 st.wire.clock

def getNextPacketId (st : St τ) : UInt64 × St τ :=
  let id := (st.times.headD 0).toUInt64
  (id, { st with client := { st.client with nextPacketid := id }, times := st.times.tail })

def awaitConnack (net : Network τ) (timer : Timer) (st : St τ) : Int × St τ :=
  let w := waitfor net .connack timer st
  if w.rc = MsgType.connack.code then
    (connackCode (mqttDeserializeConnack w.st.client.readbuf.byte w.st.client.readbufSize), w.st)
  else (failure, w.st)

def sendConnect (net : Network τ) (options : Option ConnectData) (st : St τ) : Outcome τ :=
  let armed := commandTimer st
  let st := st.setClock armed.clock
  let options := options.getD ConnectData.initializer
  let st := { st with client := { st.client with keepAliveInterval := options.keepAliveInterval.toUInt32 } }
  let st := st.armPing st.client.keepAliveInterval
  sendSerialized net (mqttSerializeConnect st.client.bufSize options) armed.timer st

def mqttConnect (net : Network τ) (options : Option ConnectData) (block : Bool) (st : St τ) : Int × St τ :=
  if st.client.isconnected ≠ 0 then (failure, st)
  else
    let sent := sendConnect net options st
    if block then
      let done := if sent.rc ≠ success then (sent.rc, sent.st) else awaitConnack net sent.timer sent.st
      if done.1 = success then (done.1, { done.2 with client := { done.2.client with isconnected := 1 } })
      else done
    else (sent.rc, sent.st)

def mqttSubscribe (net : Network τ) (topicFilter : CString) (qos : Nat) (st : St τ) : Int × St τ :=
  if st.client.isconnected = 0 then (failure, st)
  else
    let armed := commandTimer st
    let id := getNextPacketId (st.setClock armed.clock)
    let packet := mqttSerializeSubscribe id.2.client.bufSize 0 id.1 [⟨⟨some topicFilter,none⟩,qos⟩]
    let sent := sendSerialized net packet armed.timer id.2
    (sent.rc, sent.st)

def sendUnsubscribe (net : Network τ) (topicFilter : CString) (st : St τ) : Outcome τ :=
  let armed := commandTimer st
  let id := getNextPacketId (st.setClock armed.clock)
  let packet := mqttSerializeUnsubscribe id.2.client.bufSize 0 id.1 [⟨some topicFilter,none⟩]
  sendSerialized net packet armed.timer id.2

-- `rc` stays that of sendPacket where MQTTDeserialize_unsuback refuses
def awaitUnsuback (net : Network τ) (rc : Int) (timer : Timer) (st : St τ) : Int × St τ :=
  let w := waitfor net .unsuback timer st
  if w.rc = MsgType.unsuback.code then
    let out := mqttDeserializeUnsuback w.st.client.readbuf.byte w.st.client.readbufSize
    (if out.rc = 1 then 0 else rc, w.st)
  else (failure, w.st)

def mqttUnsubscribe (net : Network τ) (topicFilter : CString) (st : St τ) : Int × St τ :=
  if st.client.isconnected = 0 then (failure, st)
  else
    let sent := sendUnsubscribe net topicFilter st
    if sent.rc ≠ success then (sent.rc, sent.st) else awaitUnsuback net sent.rc sent.timer sent.st

structure Publication where
  qos : Nat
  retained : Nat
  id : UInt64
  payload : List UInt8

def mqttPublish (net : Network τ) (topicName : CString) (message : Publication) (st : St τ) : Int × St τ :=
  if st.client.isconnected = 0 then (failure, st)
  else
    let armed := commandTimer st
    let st := st.setClock armed.clock
    let id := if message.qos = 1 ∨ message.qos = 2 then getNextPacketId st else (message.id, st)
    let packet := mqttSerializePublish id.2.client.bufSize 0 message.qos message.retained id.1
      ⟨some topicName,none⟩ message.payload
    let sent := sendSerialized net packet armed.timer id.2
    (sent.rc, sent.st)

def mqttExtendedCmd (net : Network τ) (cmd : UInt8) (payload : List UInt8) (qos retained : Nat) (st : St τ) :
    Int × St τ :=
  let armed := commandTimer st
  let st := st.setClock armed.clock
  if st.client.isconnected = 0 then (failure, st)
  else
    let id := if qos = 1 ∨ qos = 2 then getNextPacketId st else (0, st)
    let packet := mqttSerializeExtendedcmd id.2.client.bufSize 0 qos retained id.1 cmd payload
    let sent := sendSerialized net packet armed.timer id.2
    (sent.rc, sent.st)

def mqttDisconnect (net : Network τ) (st : St τ) : Int × St τ :=
  let armed := commandTimer st
  let sent := sendSerialized net (mqttSerializeDisconnect st.client.bufSize) armed.timer
    (st.setClock armed.clock)
  (sent.rc, { sent.st with client := { sent.st.client with isconnected := 0 } }.log .disconnected)

end YunbaIot.MqttClient
