import YunbaIot.ControlPacket

/-! The serializers that compute their length before they write. Each writes a frame whose
length field counts exactly the bytes behind it, or nothing. -/
namespace YunbaIot.SelfFraming
open MqttPacket MqttSerialize ControlPacket

inductive Request where
  | publish (dup : Nat) (qos : Int) (retained : Nat) (packetid : UInt64) (topicName : MqttString)
      (payload : List UInt8)
  | subscribe (dup : Nat) (packetid : UInt64) (topics : List TopicRequest)
  | unsubscribe (dup : Nat) (packetid : UInt64) (filters : List MqttString)
  | extendedcmd (dup : Nat) (qos : Int) (retained : Nat) (packetid : UInt64) (cmd : UInt8) (payload : List UInt8)
  | connect (options : ConnectData)

def Request.serialize (buflen : Int) : Request → Serialized
  | .publish dup qos retained packetid topicName payload =>
    mqttSerializePublish buflen dup qos retained packetid topicName payload
  | .subscribe dup packetid topics => mqttSerializeSubscribe buflen dup packetid topics
  | .unsubscribe dup packetid filters => mqttSerializeUnsubscribe buflen dup packetid filters
  | .extendedcmd dup qos retained packetid cmd payload =>
    mqttSerializeExtendedcmd buflen dup qos retained packetid cmd payload
  | .connect options => mqttSerializeConnect buflen options

/- The length each serializer computes for itself. -/
def Request.remaining : Request → Nat
  | .publish _ qos _ _ topicName payload => mqttSerializePublishLength qos topicName payload.length
  | .subscribe _ _ topics => mqttSerializeSubscribeLength topics
  | .unsubscribe _ _ filters => mqttSerializeUnsubscribeLength filters
  | .extendedcmd _ qos _ _ _ payload => mqttSerializeExtendedcmdLength qos payload.length
  | .connect options => mqttSerializeConnectLength options

/- What stands behind the client id of a CONNECT. -/
def optionalFields (options : ConnectData) : List MqttString :=
  (if options.willFlag ≠ 0 then [options.will.topicName,options.will.message] else []) ++
    ((if present options.username then [options.username] else []) ++
      (if present options.password then [options.password] else []))

def Request.strings : Request → List MqttString
  | .publish _ _ _ _ topicName _ => [topicName]
  | .subscribe _ _ topics => topics.map TopicRequest.filter
  | .unsubscribe _ _ filters => filters
  | .extendedcmd .. => []
  | .connect options => options.clientID :: optionalFields options

structure Request.WellFormed (r : Request) : Prop where
  single : ∀ s ∈ r.strings, Single s
  version : ∀ options, r = .connect options →
    options.mqttVersion = 3 ∨ options.mqttVersion = 4 ∨ options.mqttVersion = 0x13

/-! The frames -/

def publishBody (qos : Int) (packetid : UInt64) (topicName : MqttString) (payload : List UInt8) : List UInt8 :=
  writeMqttString topicName ++ ((if 0 < qos then writeInt64 packetid else []) ++ payload)
def topicsBytes (topics : List TopicRequest) : List UInt8 :=
  topics.flatMap fun t => writeMqttString t.filter ++ [UInt8.ofInt t.qos]
def filtersBytes (filters : List MqttString) : List UInt8 := filters.flatMap writeMqttString
def extendedcmdBody (qos : Int) (packetid : UInt64) (cmd : UInt8) (payload : List UInt8) : List UInt8 :=
  (if 0 < qos then writeInt64 packetid else []) ++ (cmd :: (writeInt payload.length ++ payload))

def connectBody (options : ConnectData) : List UInt8 :=
  protocolHeader options.mqttVersion ++ (connectFlags options :: (writeInt options.keepAliveInterval.toNat ++
    filtersBytes (options.clientID :: optionalFields options)))

def Request.frame : Request → Frame
  | .publish dup qos retained packetid topicName payload =>
    ⟨MqttHeader.byte MsgType.publish.code dup (qosBits qos) retained,publishBody qos packetid topicName payload⟩
  | .subscribe dup packetid topics =>
    ⟨MqttHeader.byte MsgType.subscribe.code dup 1 0,writeInt64 packetid ++ topicsBytes topics⟩
  | .unsubscribe dup packetid filters =>
    ⟨MqttHeader.byte MsgType.unsubscribe.code dup 1 0,writeInt64 packetid ++ filtersBytes filters⟩
  | .extendedcmd dup qos retained packetid cmd payload =>
    ⟨MqttHeader.byte MsgType.extcmd.code dup (qosBits qos) retained,extendedcmdBody qos packetid cmd payload⟩
  | .connect options => ⟨MqttHeader.byte MsgType.connect.code 0 0 0,connectBody options⟩

theorem topicsLength {topics : List TopicRequest} (single : ∀ t ∈ topics, Single t.filter) (n : Nat) :
    topics.foldl (fun len t => len + (2 + mqttstrlen t.filter + 1)) n = n + (topicsBytes topics).length := by
  induction topics generalizing n with
  | nil => rfl
  | cons t topics ih =>
    have rest := ih (fun u inside => single u (List.mem_cons_of_mem _ inside)) (n + (2 + mqttstrlen t.filter + 1))
    have first := writeMqttStringLength (single t (List.mem_cons_self ..))
    simp only [List.foldl_cons, rest]
    simp only [topicsBytes, List.flatMap_cons, List.length_append, List.length_singleton, first]
    omega

theorem filtersLength {filters : List MqttString} (single : ∀ f ∈ filters, Single f) (n : Nat) :
    filters.foldl (fun len f => len + (2 + mqttstrlen f)) n = n + (filtersBytes filters).length := by
  induction filters generalizing n with
  | nil => rfl
  | cons f filters ih =>
    have rest := ih (fun u inside => single u (List.mem_cons_of_mem _ inside)) (n + (2 + mqttstrlen f))
    have first := writeMqttStringLength (single f (List.mem_cons_self ..))
    simp only [List.foldl_cons, rest]
    simp only [filtersBytes, List.flatMap_cons, List.length_append, first]
    omega

theorem idLength (qos : Int) (packetid : UInt64) :
    (if 0 < qos then writeInt64 packetid else []).length = if 0 < qos then 8 else 0 := by
  split <;> rfl

theorem protocolLength {version : UInt8} (known : version = 3 ∨ version = 4 ∨ version = 0x13) :
    (if version = 3 ∨ version = 0x13 then 12 else if version = 4 then 10 else 0) =
      (protocolHeader version).length + 3 := by
  rcases known with rfl | rfl | rfl <;> rfl

theorem remainingCounts {r : Request} (h : r.WellFormed) : r.remaining = r.frame.body.length := by
  cases r with
  | publish dup qos retained packetid topicName payload =>
    have topic := writeMqttStringLength (h.single topicName (List.mem_singleton_self _))
    simp only [Request.remaining, Request.frame, publishBody, mqttSerializePublishLength, List.length_append, topic,
      idLength]
    split <;> omega
  | subscribe dup packetid topics =>
    have single : ∀ t ∈ topics, Single t.filter := fun t inside => h.single _ (List.mem_map_of_mem inside)
    simp only [Request.remaining, Request.frame, mqttSerializeSubscribeLength, topicsLength single, List.length_append,
      writeInt64Length]
  | unsubscribe dup packetid filters =>
    have single : ∀ f ∈ filters, Single f := h.single
    simp only [Request.remaining, Request.frame, mqttSerializeUnsubscribeLength, filtersLength single,
      List.length_append, writeInt64Length]
  | extendedcmd dup qos retained packetid cmd payload =>
    simp only [Request.remaining, Request.frame, extendedcmdBody, mqttSerializeExtendedcmdLength, List.length_append,
      List.length_cons, idLength, writeIntLength]
    split <;> omega
  | connect options =>
    have protocol := protocolLength (h.version options rfl)
    have each : ∀ s ∈ options.clientID :: optionalFields options, (writeMqttString s).length = 2 + mqttstrlen s :=
      fun s inside => writeMqttStringLength (h.single s inside)
    simp only [Request.remaining, Request.frame, connectBody, mqttSerializeConnectLength, protocol, List.length_append,
      List.length_cons, writeIntLength, filtersBytes, List.flatMap_cons]
    by_cases willing : options.willFlag ≠ 0 <;> cases user : present options.username <;>
      cases pass : present options.password <;>
      simp only [optionalFields, willing, user, pass, ne_eq, not_false_eq_true, if_true, if_false,
        Bool.false_eq_true, List.nil_append, List.cons_append, List.forall_mem_cons, List.flatMap_cons,
        List.flatMap_nil, List.length_append, List.length_nil, Nat.add_zero] at each ⊢ <;> omega

/- What a serializer writes where there is room: its own length goes into the length field. -/
def Request.packet (r : Request) : List UInt8 := r.frame.header :: (mqttPacketEncode r.remaining ++ r.frame.body)

theorem serializePacket (r : Request) (buflen : Int) :
    r.serialize buflen = if buflen < mqttPacketLen r.remaining then tooShort else done r.packet := by
  unfold Request.packet
  cases r with
  | publish dup qos retained packetid topicName payload =>
    simp only [Request.serialize, mqttSerializePublish, Request.remaining, Request.frame, publishBody,
      List.append_assoc, List.cons_append]
    rfl
  | subscribe dup packetid topics =>
    simp only [Request.serialize, mqttSerializeSubscribe, Request.remaining, Request.frame, topicsBytes,
      List.append_assoc, List.cons_append]
    rfl
  | unsubscribe dup packetid filters =>
    simp only [Request.serialize, mqttSerializeUnsubscribe, Request.remaining, Request.frame, filtersBytes,
      List.append_assoc, List.cons_append]
    rfl
  | extendedcmd dup qos retained packetid cmd payload =>
    simp only [Request.serialize, mqttSerializeExtendedcmd, Request.remaining, Request.frame, extendedcmdBody,
      List.append_assoc, List.cons_append, List.nil_append]
    rfl
  | connect options =>
    have fields : filtersBytes (options.clientID :: optionalFields options) = writeMqttString options.clientID ++
        ((if options.willFlag ≠ 0 then
            writeMqttString options.will.topicName ++ writeMqttString options.will.message else []) ++
          ((if present options.username then writeMqttString options.username else []) ++
            (if present options.password then writeMqttString options.password else []))) := by
      simp only [filtersBytes, optionalFields, List.flatMap_cons, List.flatMap_append]
      split <;> split <;> split <;> simp
    simp only [Request.serialize, mqttSerializeConnect, Request.remaining, Request.frame, connectBody, fields,
      List.append_assoc, List.cons_append, List.nil_append]

/- Every serializer is the one that writes its frame. -/
theorem serializeFrame {r : Request} (h : r.WellFormed) (buflen : Int) : r.serialize buflen = r.frame.serialize buflen := by
  rw [serializePacket, Request.packet, remainingCounts h]
  rfl

/-! What a serializer leaves in the buffer -/

/- Nothing, or a packet inside the buffer whose length field, read back, counts the rest. -/
inductive SelfFramed (buflen : Int) (out : Serialized) : Prop where
  | refused (rc : out.rc ≤ 0) (nothing : out.written = [])
  | packet (n k : Nat) (rc : out.rc = n) (inside : (n : Int) ≤ buflen) (exact : out.written.length = n)
      (counts : 1 + k ≤ n)
      (decodes : ∀ byte reads, Memory.Holds byte 0 out.written →
        mqttPacketDecodeBuf byte ⟨1,reads⟩ = ⟨k,n - 1 - k,(Cursor.mk 1 reads).advance k⟩)

theorem frameSelfFramed {f : Frame} (bound : f.body.length < lengthLimit) (buflen : Int) :
    SelfFramed buflen (f.serialize buflen) := by
  have estimate := estimateCovers bound
  have size := bytesLength f
  unfold Frame.serialize
  split
  · exact .refused (by decide) rfl
  · refine .packet f.bytes.length (mqttPacketEncode f.body.length).length rfl (by omega) rfl (by omega) ?_
    intro byte reads there
    obtain ⟨_,rest⟩ := there
    obtain ⟨length,_⟩ := Memory.holdsAppend.mp rest
    rw [MqttDeserialize.decodeBufHolds bound length]
    congr 1
    omega

/-- Whatever the arguments, a length-computing serializer leaves the buffer alone or leaves
one self-framing packet in it. -/
theorem serializersSelfFramed {r : Request} (h : r.WellFormed) (bound : r.remaining < lengthLimit) (buflen : Int) :
    SelfFramed buflen (r.serialize buflen) := by
  rw [serializeFrame h]
  rw [remainingCounts h] at bound
  exact frameSelfFramed bound buflen

def wideSubscribe : Request :=
  .subscribe 0 7 [⟨⟨none,some [0x61,0x2f,0x23]⟩,1⟩,⟨⟨some ⟨[0x62],by simp⟩,none⟩,2⟩]

theorem wideSelfFramed : SelfFramed 22 (wideSubscribe.serialize 22) := by
  have length : wideSubscribe.remaining = 18 := rfl
  have bound : wideSubscribe.remaining < lengthLimit := by
    rw [length, lengthLimit]
    omega
  refine serializersSelfFramed ⟨fun s inside => ?_,fun options same => by cases same⟩ bound 22
  simp only [wideSubscribe, Request.strings, List.map_cons, List.map_nil, List.mem_cons, List.not_mem_nil, or_false]
    at inside
  rcases inside with rfl | rfl
  · exact Or.inl rfl
  · exact Or.inr rfl

end YunbaIot.SelfFraming
