import YunbaIot.MqttPacket
import YunbaIot.MqttTransport

/-! The packet library's own readers: MQTTPacket_read on a callback that blocks, and
MQTTPacket_readnb, which keeps its place in an MQTTTransport from one call to the next. -/
namespace YunbaIot.MqttReadnb
open MqttPacket MqttTransport

/- -1 for an error, 0 for call again, else the number of bytes read. -/
structure Getfn (σ : Type) where
  call : Nat → σ → ReadResult × σ
  fits : ∀ count s, (call count s).1.stored.length ≤ count
  answers : ∀ count s, (call count s).1.rc = -1 ∨ (call count s).1.rc = (call count s).1.stored.length

variable {σ : Type}

def getchar (getfn : Getfn σ) (s : σ) : Option UInt8 × σ :=
  let r := getfn.call 1 s
  (if r.1.rc = 1 then r.1.stored.head? else none,r.2)

structure ReadOut (σ : Type) where
  rc : Int
  buf : Memory
  source : σ

def mqttPacketRead (getfn : Getfn σ) (buflen : Int) (buf : Memory) (s : σ) : ReadOut σ :=
  let header := getfn.call 1 s
  let buf := buf.store 0 header.1.stored
  if header.1.rc ≠ 1 then ⟨-1,buf,header.2⟩
  else
    let length := mqttPacketDecode (getchar getfn) header.2
    let buf := buf.store 1 (mqttPacketEncode length.value)
    let len := 1 + (mqttPacketEncode length.value).length
    if buflen < length.value + len then ⟨-1,buf,length.source⟩
    else
      let rest := getfn.call length.value length.source
      let buf := buf.store len rest.1.stored
      if rest.1.rc ≠ length.value then ⟨-1,buf,rest.2⟩
      else ⟨MqttHeader.type (buf.byte 0),buf,rest.2⟩

structure Transport (σ : Type) where
  sck : σ
  multiplier : Nat
  remLen : Nat
  len : Nat
  state : Nat

structure DecodenbOut (σ : Type) where
  rc : Int
  trp : Transport σ

/- The do-while loop: `left` is what ++len leaves of the four length bytes. -/
def decodenbLoop (getfn : Getfn σ) : Nat → Transport σ → DecodenbOut σ
  | 0, trp => ⟨-1,{ trp with len := trp.len + 1 }⟩
  | left+1, trp =>
    let r := getfn.call 1 trp.sck
    let trp := { trp with len := trp.len + 1, sck := r.2 }
    if r.1.rc = -1 then ⟨-1,trp⟩
    else
      match r.1.stored with
      | [] => ⟨0,trp⟩
      | c :: _ =>
        let trp := { trp with
          remLen := trp.remLen + (c &&& 127).toNat * trp.multiplier, multiplier := trp.multiplier * 128 }
        if c &&& 128 ≠ 0 then decodenbLoop getfn left trp else ⟨trp.len,trp⟩

def mqttPacketDecodenb (getfn : Getfn σ) (trp : Transport σ) : DecodenbOut σ :=
  let trp := if trp.len = 0 then { trp with multiplier := 1, remLen := 0 } else trp
  decodenbLoop getfn (maxRemainingLengthBytes - trp.len) trp

structure ReadnbOut (σ : Type) where
  rc : Int
  buf : Memory
  trp : Transport σ

-- the label exit with rc = -1
def exit (buf : Memory) (trp : Transport σ) : ReadnbOut σ := ⟨-1,buf,{ trp with state := 0 }⟩

def readnbBody (getfn : Getfn σ) (buf : Memory) (trp : Transport σ) : ReadnbOut σ :=
  let r := getfn.call trp.remLen trp.sck
  let buf := buf.store trp.len r.1.stored
  let trp := { trp with sck := r.2 }
  if r.1.rc = -1 then exit buf trp
  else if r.1.rc = 0 then ⟨0,buf,trp⟩
  else
    let trp := { trp with remLen := trp.remLen - r.1.stored.length, len := trp.len + r.1.stored.length }
    if trp.remLen ≠ 0 then ⟨0,buf,trp⟩
    else ⟨MqttHeader.type (buf.byte 0),buf,{ trp with state := 0 }⟩

def readnbLength (getfn : Getfn σ) (buflen : Int) (buf : Memory) (trp : Transport σ) : ReadnbOut σ :=
  let d := mqttPacketDecodenb getfn trp
  if d.rc = -1 then exit buf d.trp
  else if d.rc = 0 then ⟨0,buf,d.trp⟩
  else
    let buf := buf.store 1 (mqttPacketEncode d.trp.remLen)
    let trp := { d.trp with len := 1 + (mqttPacketEncode d.trp.remLen).length }
    if buflen < trp.remLen + trp.len then exit buf trp
    else readnbBody getfn buf { trp with state := trp.state + 1 }

def readnbHeader (getfn : Getfn σ) (buflen : Int) (buf : Memory) (trp : Transport σ) : ReadnbOut σ :=
  let r := getfn.call 1 trp.sck
  let buf := buf.store 0 r.1.stored
  let trp := { trp with sck := r.2 }
  if r.1.rc = -1 then exit buf trp
  else if r.1.rc = 0 then ⟨0,buf,trp⟩
  else readnbLength getfn buflen buf { trp with len := 0, state := trp.state + 1 }

/- The switch over state; each case falls through to the next. -/
def mqttPacketReadnb (getfn : Getfn σ) (buflen : Int) (buf : Memory) (trp : Transport σ) : ReadnbOut σ :=
  if trp.state = 1 then readnbLength getfn buflen buf trp
  else if trp.state = 2 then readnbBody getfn buf trp
  else readnbHeader getfn buflen buf { trp with state := 0 }

/- Calls until one returns non-zero, n of them at most. -/
def poll (getfn : Getfn σ) (buflen : Int) (buf : Memory) (trp : Transport σ) : Nat → ReadnbOut σ
  | 0 => ⟨0,buf,trp⟩
  | n+1 =>
    let r := poll getfn buflen buf trp n
    if r.rc = 0 then mqttPacketReadnb getfn buflen r.buf r.trp else r

end YunbaIot.MqttReadnb
