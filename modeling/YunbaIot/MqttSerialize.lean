import YunbaIot.MqttPacket

/-! The serializers the client calls. `written` are the bytes put behind the buffer
pointer, in order from buf[0]; `rc` is the returned length or error. A packet type, a flag
or a QoS is cut to its bit field. -/
namespace YunbaIot.MqttSerialize
open MqttPacket

structure Serialized where
  rc : Int
  written : List UInt8
  deriving DecidableEq, Repr

def done (written : List UInt8) : Serialized := ⟨written.length,written⟩
def tooShort : Serialized := ⟨bufferTooShort,[]⟩

def mqttSerializeZero (buflen : Int) (packettype : Nat) : Serialized :=
  if buflen < 2 then tooShort
  else done (MqttHeader.byte packettype 0 0 0 :: mqttPacketEncode 0)

def mqttSerializeDisconnect (buflen : Int) : Serialized := mqttSerializeZero buflen MsgType.disconnect.code
def mqttSerializePingreq (buflen : Int) : Serialized := mqttSerializeZero buflen MsgType.pingreq.code

def mqttSerializeAck (buflen : Int) (packettype dup : Nat) (packetid : UInt64) : Serialized :=
  if buflen < 4 then tooShort
  else
    let qos := if packettype = MsgType.pubrel.code then 1 else 0
    done (MqttHeader.byte packettype dup qos 0 :: mqttPacketEncode 8 ++ writeInt64 packetid)

def mqttSerializePuback (buflen : Int) (packetid : UInt64) : Serialized :=
  mqttSerializeAck buflen MsgType.puback.code 0 packetid
def mqttSerializePubrel (buflen : Int) (dup : Nat) (packetid : UInt64) : Serialized :=
  mqttSerializeAck buflen MsgType.pubrel.code dup packetid
def mqttSerializePubcomp (buflen : Int) (packetid : UInt64) : Serialized :=
  mqttSerializeAck buflen MsgType.pubcomp.code 0 packetid

def qosBits (qos : Int) : Nat := (qos % 4).toNat

def mqttSerializePublishLength (qos : Int) (topicName : MqttString) (payloadlen : Nat) : Nat :=
  let len := 2 + mqttstrlen topicName + payloadlen
  if 0 < qos then len + 8 else len

def mqttSerializePublish (buflen : Int) (dup : Nat) (qos : Int) (retained : Nat) (packetid : UInt64)
    (topicName : MqttString) (payload : List UInt8) : Serialized :=
  let remLen := mqttSerializePublishLength qos topicName payload.length
  if buflen < mqttPacketLen remLen then tooShort
  else done (MqttHeader.byte MsgType.publish.code dup (qosBits qos) retained :: mqttPacketEncode remLen ++
    writeMqttString topicName ++ (if 0 < qos then writeInt64 packetid else []) ++ payload)

structure TopicRequest where
  filter : MqttString
  qos : Int

def mqttSerializeSubscribeLength (topics : List TopicRequest) : Nat :=
  topics.foldl (fun len t => len + (2 + mqttstrlen t.filter + 1)) 8

def mqttSerializeSubscribe (buflen : Int) (dup : Nat) (packetid : UInt64) (topics : List TopicRequest) : Serialized :=
  let remLen := mqttSerializeSubscribeLength topics
  if buflen < mqttPacketLen remLen then tooShort
  else done (MqttHeader.byte MsgType.subscribe.code dup 1 0 :: mqttPacketEncode remLen ++
    writeInt64 packetid ++ topics.flatMap (fun t => writeMqttString t.filter ++ [UInt8.ofInt t.qos]))

def mqttSerializeUnsubscribeLength (filters : List MqttString) : Nat :=
  filters.foldl (fun len f => len + (2 + mqttstrlen f)) 8

def mqttSerializeUnsubscribe (buflen : Int) (dup : Nat) (packetid : UInt64) (filters : List MqttString) :
    Serialized :=
  let remLen := mqttSerializeUnsubscribeLength filters
  if buflen < mqttPacketLen remLen then tooShort
  else done (MqttHeader.byte MsgType.unsubscribe.code dup 1 0 :: mqttPacketEncode remLen ++
    writeInt64 packetid ++ filters.flatMap writeMqttString)

def mqttSerializeExtendedcmdLength (qos : Int) (paramLen : Nat) : Nat :=
  let len := 1 + paramLen + 2
  if 0 < qos then len + 8 else len

def mqttSerializeExtendedcmd (buflen : Int) (dup : Nat) (qos : Int) (retained : Nat) (packetid : UInt64)
    (cmd : UInt8) (payload : List UInt8) : Serialized :=
  let remLen := mqttSerializeExtendedcmdLength qos payload.length
  if buflen < mqttPacketLen remLen then tooShort
  else done (MqttHeader.byte MsgType.extcmd.code dup (qosBits qos) retained :: mqttPacketEncode remLen ++
    (if 0 < qos then writeInt64 packetid else []) ++ [cmd] ++ writeInt payload.length ++ payload)

structure WillOptions where
  topicName : MqttString
  message : MqttString
  retained : UInt8
  qos : UInt8
  deriving DecidableEq

structure ConnectData where
  mqttVersion : UInt8
  clientID : MqttString
  keepAliveInterval : UInt16
  cleansession : UInt8
  willFlag : UInt8
  will : WillOptions
  username : MqttString
  password : MqttString
  deriving DecidableEq

def ConnectData.initializer : ConnectData :=
  ⟨4,.initializer,60,1,0,⟨.initializer,.initializer,0,0⟩,.initializer,.initializer⟩

def present (s : MqttString) : Bool := s.cstring.isSome || s.lenstring.isSome

def mqttSerializeConnectLength (options : ConnectData) : Nat :=
  let len := if options.mqttVersion = 3 ∨ options.mqttVersion = 0x13 then 12
    else if options.mqttVersion = 4 then 10 else 0
  let len := len + (mqttstrlen options.clientID + 2)
  let len := if options.willFlag ≠ 0 then
    len + (mqttstrlen options.will.topicName + 2 + mqttstrlen options.will.message + 2) else len
  let len := if present options.username then len + (mqttstrlen options.username + 2) else len
  if present options.password then len + (mqttstrlen options.password + 2) else len

def connectFlags (options : ConnectData) : UInt8 :=
  let will := options.willFlag ≠ 0
  UInt8.ofNat (options.cleansession.toNat % 2 * 2 +
    (if will then 4 + options.will.qos.toNat % 4 * 8 + options.will.retained.toNat % 2 * 32 else 0) +
    (if present options.password then 64 else 0) + (if present options.username then 128 else 0))

def protocolMqtt : CString := ⟨[77,81,84,84],by simp⟩
def protocolMqisdp : CString := ⟨[77,81,73,115,100,112],by simp⟩

def protocolHeader (version : UInt8) : List UInt8 :=
  if version = 4 then writeCString protocolMqtt ++ [4]
  else if version = 0x13 then writeCString protocolMqisdp ++ [0x13]
  else writeCString protocolMqisdp ++ [3]

def mqttSerializeConnect (buflen : Int) (options : ConnectData) : Serialized :=
  let len := mqttSerializeConnectLength options
  if buflen < mqttPacketLen len then tooShort
  else done (MqttHeader.byte MsgType.connect.code 0 0 0 :: mqttPacketEncode len ++
    protocolHeader options.mqttVersion ++ [connectFlags options] ++
    writeInt options.keepAliveInterval.toNat ++ writeMqttString options.clientID ++
    (if options.willFlag ≠ 0 then
      writeMqttString options.will.topicName ++ writeMqttString options.will.message else []) ++
    (if present options.username then writeMqttString options.username else []) ++
    (if present options.password then writeMqttString options.password else []))

end YunbaIot.MqttSerialize
