import YunbaIot.MqttDeserialize
import YunbaIot.MqttSerialize

/-! The half of the packet library a server uses. Outputs, loads and stores are shown as
those of the client's half. -/
namespace YunbaIot.MqttServer
open MqttPacket MqttDeserialize MqttSerialize

/-! Topic lists -/

-- what readMQTTLenString assigned of one MQTTString
structure Slot where
  len : Option Nat
  data : Option Nat
  deriving DecidableEq, Repr

def slot (r : LenStringRead) : Slot := ⟨r.len,r.data⟩

def slotBytes (byte : Nat → UInt8) (s : Slot) : Option (List UInt8) :=
  s.data.map fun start => Memory.slice byte start (s.len.getD 0)

/- `filters` and `requestedQoSs` hold what was stored at [0], [1], ... of the caller's
arrays, also past `count` and past the arrays. -/
structure TopicsOut where
  rc : Int
  dup : Option Nat
  packetid : Option UInt64
  count : Option Nat
  filters : List Slot
  requestedQoSs : List UInt8
  reads : List Nat
  deriving DecidableEq, Repr

structure Topics where
  rc : Int
  count : Nat
  filters : List Slot
  requestedQoSs : List UInt8
  cursor : Cursor

/- The while loop of both topic-list deserializers; `withQoS` is the one of SUBSCRIBE.
Every round moves the cursor, and a goto exit leaves rc as it was before the loop. -/
def topicsLoop (byte : Nat → UInt8) (withQoS : Bool) (enddata : Nat) : Nat → Topics → Topics
  | 0, t => { t with rc := 1 }
  | left+1, t =>
    if t.cursor.pos < enddata then
      let filter := readMqttLenString byte t.cursor enddata
      let t := { t with filters := t.filters ++ [slot filter], cursor := filter.cursor }
      if filter.rc = 0 then t
      else if withQoS then
        if enddata ≤ t.cursor.pos then t
        else
          let qos := readChar byte t.cursor
          topicsLoop byte withQoS enddata left { t with
            requestedQoSs := t.requestedQoSs ++ [qos.1], count := t.count + 1, cursor := qos.2 }
      else topicsLoop byte withQoS enddata left { t with count := t.count + 1 }
    else { t with rc := 1 }

def deserializeTopics (byte : Nat → UInt8) (type : MsgType) (otherType : Int) (withQoS : Bool) : TopicsOut :=
  let header := readChar byte ⟨0,[]⟩
  if MqttHeader.type header.1 ≠ type.code then ⟨otherType,none,none,none,[],[],header.2.reads⟩
  else
    let rem := remainingLength byte header.2
    let enddata := rem.curdata.pos + rem.mylen
    let id := readInt byte rem.curdata
    let out := topicsLoop byte withQoS enddata (enddata - id.2.pos) ⟨rem.rc,0,[],[],id.2⟩
    ⟨out.rc,some (MqttHeader.dup header.1),some (UInt64.ofNat id.1),some out.count,out.filters,out.requestedQoSs,
      out.cursor.reads⟩

def mqttDeserializeSubscribe (byte : Nat → UInt8) (_maxcount _buflen : Nat) : TopicsOut :=
  deserializeTopics byte .subscribe (-1) true
def mqttDeserializeUnsubscribe (byte : Nat → UInt8) (_maxcount _len : Nat) : TopicsOut :=
  deserializeTopics byte .unsubscribe 0 false

/-! Acknowledgements of topic lists -/

-- uint64_t passed as int
def toInt (packetid : UInt64) : Int := packetid.toUInt32.toInt32.toInt

def mqttSerializeSuback (buflen : Int) (packetid : UInt64) (grantedQoSs : List Int) : Serialized :=
  if buflen < 2 + grantedQoSs.length then tooShort
  else done (MqttHeader.byte MsgType.suback.code 0 0 0 :: mqttPacketEncode (2 + grantedQoSs.length) ++
    writeSigned (toInt packetid) ++ grantedQoSs.map UInt8.ofInt)

def mqttSerializeUnsuback (buflen : Int) (packetid : UInt64) : Serialized :=
  if buflen < 2 then tooShort
  else done (MqttHeader.byte MsgType.unsuback.code 0 0 0 :: mqttPacketEncode 2 ++ writeSigned (toInt packetid))

/-! CONNECT and CONNACK -/

def mqttSerializeConnack (buflen : Int) (connackRc : UInt8) (sessionPresent : Nat) : Serialized :=
  if buflen < 2 then tooShort
  else done (MqttHeader.byte MsgType.connack.code 0 0 0 :: mqttPacketEncode 2 ++
    [UInt8.ofNat (sessionPresent % 2 * 128),connackRc])

namespace ConnectFlags

def cleansession (b : UInt8) : Nat := b.toNat / 2 % 2
def will (b : UInt8) : Nat := b.toNat / 4 % 2
def willQoS (b : UInt8) : Nat := b.toNat / 8 % 4
def willRetain (b : UInt8) : Nat := b.toNat / 32 % 2
def password (b : UInt8) : Nat := b.toNat / 64 % 2
def username (b : UInt8) : Nat := b.toNat / 128

end ConnectFlags

structure ConnectOut where
  rc : Int
  cleansession : Option Nat
  keepAliveInterval : Option Nat
  clientID : Option Slot
  willFlag : Option Nat
  willQoS : Option Nat
  willRetained : Option Nat
  willTopicName : Option Slot
  willMessage : Option Slot
  username : Option Slot
  password : Option Slot
  cursor : Cursor
  deriving DecidableEq, Repr

def ConnectOut.untouched (cursor : Cursor) : ConnectOut :=
  ⟨0,none,none,none,none,none,none,none,none,none,none,cursor⟩

/- memcmp over as many bytes as the shorter of name and string has. -/
def protocolMatches (byte : Nat → UInt8) (len data : Nat) (name : List UInt8) : Bool :=
  Memory.slice byte data (min name.length len) = name.take (min name.length len)

def mqttPacketCheckVersion (byte : Nat → UInt8) (len data : Nat) (version : UInt8) : Bool :=
  version = 3 && protocolMatches byte len data protocolMqisdp.bytes ||
    version = 4 && protocolMatches byte len data protocolMqtt.bytes

def readCredentials (byte : Nat → UInt8) (enddata : Nat) (flags : UInt8) (out : ConnectOut) : ConnectOut :=
  if ConnectFlags.username flags = 0 then
    if ConnectFlags.password flags = 0 then { out with rc := 1 } else out
  else if enddata < out.cursor.pos + 3 then out
  else
    let username := readMqttLenString byte out.cursor enddata
    let out := { out with username := some (slot username), cursor := username.cursor }
    if username.rc = 0 then out
    else if ConnectFlags.password flags = 0 then { out with rc := 1 }
    else if enddata < out.cursor.pos + 3 then out
    else
      let password := readMqttLenString byte out.cursor enddata
      let out := { out with password := some (slot password), cursor := password.cursor }
      if password.rc = 0 then out else { out with rc := 1 }

def readWill (byte : Nat → UInt8) (enddata : Nat) (flags : UInt8) (out : ConnectOut) : ConnectOut :=
  let out := { out with willFlag := some (ConnectFlags.will flags) }
  if ConnectFlags.will flags = 0 then readCredentials byte enddata flags out
  else
    let topicName := readMqttLenString byte out.cursor enddata
    let out := { out with
      willQoS := some (ConnectFlags.willQoS flags), willRetained := some (ConnectFlags.willRetain flags),
      willTopicName := some (slot topicName), cursor := topicName.cursor }
    if topicName.rc = 0 then out
    else
      let message := readMqttLenString byte out.cursor enddata
      let out := { out with willMessage := some (slot message), cursor := message.cursor }
      if message.rc = 0 then out else readCredentials byte enddata flags out

def readConnectFields (byte : Nat → UInt8) (enddata : Nat) (curdata : Cursor) : ConnectOut :=
  let flags := readChar byte curdata
  let keepAlive := readInt byte flags.2
  let clientID := readMqttLenString byte keepAlive.2 enddata
  let out := { ConnectOut.untouched clientID.cursor with
    cleansession := some (ConnectFlags.cleansession flags.1), keepAliveInterval := some keepAlive.1,
    clientID := some (slot clientID) }
  if clientID.rc = 0 then out else readWill byte enddata flags.1 out

/- Of the remaining length only the number of its bytes is used; the packet ends at `len`.
The loads of memcmp, inside the protocol name, are left out of `cursor`. -/
def mqttDeserializeConnect (byte : Nat → UInt8) (len : Nat) : ConnectOut :=
  let header := readChar byte ⟨0,[]⟩
  if MqttHeader.type header.1 ≠ MsgType.connect.code then .untouched header.2
  else
    let protocol := readMqttLenString byte (remainingLength byte header.2).curdata len
    if protocol.rc = 0 ∨ len < protocol.cursor.pos then .untouched protocol.cursor
    else
      let version := readChar byte protocol.cursor
      if mqttPacketCheckVersion byte (protocol.len.getD 0) (protocol.data.getD 0) version.1 then
        readConnectFields byte len version.2
      else .untouched version.2

end YunbaIot.MqttServer
