import YunbaIot.Polling

/-! MQTTPacket_readnb polled until it returns, against MQTTPacket_read: where the two agree
on a packet and where the poll misses it. -/
namespace YunbaIot.NonblockingRead
open MqttPacket MqttTransport Framing MqttReadnb Schedule Polling

/-! Every call spends some of the schedule, unless it asks for nothing -/

theorem decodenbLoopSpends (left : Nat) (t : Transport (List Answer)) :
    weight (decodenbLoop scheduled left t).trp.sck ≤ weight t.sck ∧
      ((decodenbLoop scheduled left t).rc ≠ -1 → t.sck ≠ [] →
        weight (decodenbLoop scheduled left t).trp.sck < weight t.sck) := by
  induction left generalizing t with
  | zero => exact ⟨Nat.le_refl _,fun some => absurd rfl some⟩
  | succ left ih =>
    obtain ⟨atMost,less⟩ := answerWeight 1 t.sck
    have once := less Nat.one_pos
    have later : ∀ t' : Transport (List Answer), t'.sck = (answer 1 t.sck).2 →
        weight (decodenbLoop scheduled left t').trp.sck ≤ weight (answer 1 t.sck).2 :=
      fun t' same => same ▸ (ih t').1
    unfold decodenbLoop
    dsimp only [scheduled]
    split
    · exact ⟨atMost,fun _ => once⟩
    · split
      · exact ⟨atMost,fun _ => once⟩
      · split
        · exact ⟨Nat.le_trans (later _ rfl) atMost,fun _ some => Nat.lt_of_le_of_lt (later _ rfl) (once some)⟩
        · exact ⟨atMost,fun _ => once⟩

theorem readnbBodySpends (buf : Memory) (t : Transport (List Answer)) :
    weight (readnbBody scheduled buf t).trp.sck ≤ weight t.sck ∧
      (0 < t.remLen → t.sck ≠ [] → weight (readnbBody scheduled buf t).trp.sck < weight t.sck) := by
  have spent : (readnbBody scheduled buf t).trp.sck = (answer t.remLen t.sck).2 := by
    unfold readnbBody
    dsimp only
    split
    · rfl
    · split
      · rfl
      · split <;> rfl
  rw [spent]
  exact answerWeight t.remLen t.sck

theorem readnbLengthSpends (buflen : Int) (buf : Memory) (t : Transport (List Answer)) :
    weight (readnbLength scheduled buflen buf t).trp.sck ≤ weight t.sck ∧
      ((readnbLength scheduled buflen buf t).rc ≠ -1 → t.sck ≠ [] →
        weight (readnbLength scheduled buflen buf t).trp.sck < weight t.sck) := by
  obtain ⟨atMost,less⟩ : weight (mqttPacketDecodenb scheduled t).trp.sck ≤ weight t.sck ∧
      ((mqttPacketDecodenb scheduled t).rc ≠ -1 → t.sck ≠ [] →
        weight (mqttPacketDecodenb scheduled t).trp.sck < weight t.sck) := by
    unfold mqttPacketDecodenb
    split <;> exact decodenbLoopSpends _ _
  have later : ∀ (buf : Memory) (t' : Transport (List Answer)), t'.sck = (mqttPacketDecodenb scheduled t).trp.sck →
      weight (readnbBody scheduled buf t').trp.sck ≤ weight (mqttPacketDecodenb scheduled t).trp.sck :=
    fun buf t' same => same ▸ (readnbBodySpends buf t').1
  unfold readnbLength
  dsimp only
  split
  · exact ⟨atMost,fun some => absurd rfl some⟩
  · rename_i read
    split
    · exact ⟨atMost,fun _ => less read⟩
    · split
      · exact ⟨atMost,fun some => absurd rfl some⟩
      · exact ⟨Nat.le_trans (later _ _ rfl) atMost,fun _ some => Nat.lt_of_le_of_lt (later _ _ rfl) (less read some)⟩

theorem readnbSpends (buflen : Int) (buf : Memory) (t : Transport (List Answer)) (asks : t.state = 2 → 0 < t.remLen)
    (more : t.sck ≠ []) (going : (mqttPacketReadnb scheduled buflen buf t).rc ≠ -1) :
    weight (mqttPacketReadnb scheduled buflen buf t).trp.sck < weight t.sck := by
  unfold mqttPacketReadnb at going ⊢
  by_cases one : t.state = 1
  · rw [if_pos one] at going ⊢
    exact (readnbLengthSpends buflen buf t).2 going more
  · rw [if_neg one] at going ⊢
    by_cases two : t.state = 2
    · rw [if_pos two]
      exact (readnbBodySpends buf t).2 (asks two) more
    · rw [if_neg two]
      have less := (answerWeight 1 t.sck).2 Nat.one_pos more
      have later : ∀ (buf : Memory) (t' : Transport (List Answer)), t'.sck = (answer 1 t.sck).2 →
          weight (readnbLength scheduled buflen buf t').trp.sck ≤ weight (answer 1 t.sck).2 :=
        fun buf t' same => same ▸ (readnbLengthSpends buflen buf t').1
      unfold readnbHeader
      dsimp only [scheduled]
      split
      · exact less
      · split
        · exact less
        · exact Nat.lt_of_le_of_lt (later _ _ rfl) less

/-! Polling -/

section Poll
variable {p : WirePacket} {buflen : Int} {buf₀ : Memory} {t₀ : Transport (List Answer)}

theorem pollStays {k n : Nat} (before : k ≤ n) (ended : (poll scheduled buflen buf₀ t₀ k).rc ≠ 0) :
    poll scheduled buflen buf₀ t₀ n = poll scheduled buflen buf₀ t₀ k := by
  induction before with
  | refl => rfl
  | step later ih =>
    rw [poll, ih, if_neg ended]

/- The packet was complete after an earlier call, or the last call left one of the outcomes. -/
theorem pollOutcome (carries : Carries p t₀.sck) (start : t₀.state ≠ 1 ∧ t₀.state ≠ 2) (n : Nat) :
    Outcome p buflen buf₀ t₀.sck (poll scheduled buflen buf₀ t₀ n) ∨
      ∃ k < n, Complete p buflen buf₀ t₀.sck (poll scheduled buflen buf₀ t₀ k) := by
  induction n with
  | zero => exact Or.inl (.waiting rfl (.header start rfl rfl rfl))
  | succ n ih =>
    rcases ih with last | ⟨k,before,complete⟩
    · cases last with
      | waiting rc place =>
        refine Or.inl ?_
        rw [poll, if_pos rc]
        exact readnbOutcome carries place
      | failed rc why =>
        refine Or.inl ?_
        rw [poll, if_neg (by omega)]
        exact .failed rc why
      | complete whole => exact Or.inr ⟨n,Nat.lt_succ_self n,whole⟩
    · exact Or.inr ⟨k,Nat.lt_succ_of_lt before,complete⟩

/- Bytes of the packet are still to come. -/
def Unfinished (p : WirePacket) (answers : List Answer) (t : Transport (List Answer)) : Prop :=
  (supplied answers).length < p.bytes.length + (supplied t.sck).length

theorem bytesLength (p : WirePacket) : p.bytes.length = 1 + p.field.length + p.body.length := by
  simp only [WirePacket.bytes, List.length_cons, List.length_append]
  omega

/- A reader that waits has not had the whole packet, unless the packet has no body. -/
theorem waitingUnfinished {buf : Memory} {answers : List Answer} {t : Transport (List Answer)}
    (place : At p buflen buf₀ answers buf t) (some : p.body ≠ [] ∨ Oversize p buflen) : Unfinished p answers t := by
  have size := bytesLength p
  unfold Unfinished
  cases place with
  | header state consumed calls buffer =>
    rw [consumed]
    omega
  | length f r state field begun few buffer =>
    have split := congrArg List.length field.split
    have more := List.length_pos_iff.mpr field.more
    rw [List.length_append] at split
    rw [field.consumed]
    simp only [List.length_cons, List.length_append]
    omega
  | body b r state body fits patient =>
    have nonempty : p.body ≠ [] := some.resolve_right fits
    have more := List.length_pos_iff.mpr (body.more.resolve_left nonempty)
    have split := congrArg List.length body.split
    rw [List.length_append] at split
    rw [body.consumed]
    simp only [List.length_cons, List.length_append]
    omega

theorem unfinishedAsks {buf : Memory} {answers : List Answer} {t : Transport (List Answer)}
    (place : At p buflen buf₀ answers buf t) (left : Unfinished p answers t) : t.state = 2 → 0 < t.remLen := by
  have size := bytesLength p
  unfold Unfinished at left
  intro inside
  cases place with
  | header state consumed calls buffer => exact absurd inside state.2
  | length f r state field begun few buffer => omega
  | body b r state body fits patient =>
    have split := congrArg List.length body.split
    rw [List.length_append] at split
    rw [body.consumed] at left
    simp only [List.length_cons, List.length_append] at left
    rw [body.remLen]
    omega

structure Pending (p : WirePacket) (buflen : Int) (buf₀ : Memory) (answers : List Answer)
    (out : ReadnbOut (List Answer)) : Prop where
  rc : out.rc = 0
  place : At p buflen buf₀ answers out.buf out.trp
  left : Unfinished p answers out.trp

/- A packet that the schedule brings is not waited for without end. -/
theorem pendingEnds (buflen : Int) (buf₀ : Memory) (brought : p.bytes <+: supplied t₀.sck) :
    ∃ n, ¬ Pending p buflen buf₀ t₀.sck (poll scheduled buflen buf₀ t₀ n) := by
  by_contra always
  have pending : ∀ n, Pending p buflen buf₀ t₀.sck (poll scheduled buflen buf₀ t₀ n) := by
    intro n
    by_contra ended
    exact always ⟨n,ended⟩
  have spent : ∀ n, weight (poll scheduled buflen buf₀ t₀ n).trp.sck + n ≤ weight t₀.sck := by
    intro n
    induction n with
    | zero => exact Nat.le_refl _
    | succ n ih =>
      obtain ⟨rc,place,left⟩ := pending n
      have next : poll scheduled buflen buf₀ t₀ (n+1) = mqttPacketReadnb scheduled buflen
          (poll scheduled buflen buf₀ t₀ n).buf (poll scheduled buflen buf₀ t₀ n).trp := by
        rw [poll, if_pos rc]
      have more : (poll scheduled buflen buf₀ t₀ n).trp.sck ≠ [] := by
        intro silent
        have size := brought.length_le
        unfold Unfinished at left
        rw [silent] at left
        simp only [supplied, List.length_nil] at left
        omega
      have going := (pending (n+1)).rc
      rw [next] at going
      have less := readnbSpends buflen (poll scheduled buflen buf₀ t₀ n).buf (poll scheduled buflen buf₀ t₀ n).trp
        (unfinishedAsks place left) more (by omega)
      rw [next]
      omega
  have bound := spent (weight t₀.sck + 1)
  omega

/-! The two readers -/

structure Refines (p : WirePacket) (buflen : Int) (buf₀ : Memory) (t₀ : Transport (List Answer)) : Prop where
  type : ∀ n, (poll scheduled buflen buf₀ t₀ n).rc ≠ 0 →
    (poll scheduled buflen buf₀ t₀ n).rc = (mqttPacketRead blocking buflen buf₀ (some (supplied t₀.sck))).rc
  buffer : ∀ n, 0 < (poll scheduled buflen buf₀ t₀ n).rc → (poll scheduled buflen buf₀ t₀ n).buf.byte =
    (mqttPacketRead blocking buflen buf₀ (some (supplied t₀.sck))).buf.byte
  returns : ∀ n, p.bytes.length + (supplied (poll scheduled buflen buf₀ t₀ n).trp.sck).length ≤
    (supplied t₀.sck).length → (poll scheduled buflen buf₀ t₀ n).rc ≠ 0

/- The packet does not come, or does not fit, or it has a body, a type, and at most four
calls for its length field. -/
def Meets (p : WirePacket) (buflen : Int) (answers : List Answer) : Prop :=
  p.bytes <+: supplied answers → Oversize p buflen ∨
    p.body ≠ [] ∧ fieldCalls p answers ≤ 4 ∧ MqttHeader.type p.header ≠ 0

/- A packet the schedule does not bring: both readers end in an error, if they end. -/
theorem cutRefines (carries : Carries p t₀.sck) (start : t₀.state ≠ 1 ∧ t₀.state ≠ 2)
    (cut : ¬ p.bytes <+: supplied t₀.sck) : Refines p buflen buf₀ t₀ := by
  have part := carries.resolve_left cut
  have short : (supplied t₀.sck).length < p.bytes.length := by
    by_contra long
    have whole := part.eq_of_length_le (by omega)
    exact cut (whole ▸ List.prefix_refl _)
  have read := readCut p buflen buf₀ part short
  have failed : ∀ n, (poll scheduled buflen buf₀ t₀ n).rc ≠ 0 → (poll scheduled buflen buf₀ t₀ n).rc = -1 := by
    intro n ended
    have incomplete : ∀ out, ¬ Complete p buflen buf₀ t₀.sck out :=
      fun out whole => cut (whole.consumed ▸ List.prefix_append ..)
    rcases pollOutcome carries start n with last | ⟨k,_,complete⟩
    · cases last with
      | waiting rc place => exact absurd rc ended
      | failed rc why => exact rc
      | complete whole => exact absurd whole (incomplete _)
    · exact absurd complete (incomplete _)
  refine ⟨fun n ended => (failed n ended).trans read.symm,fun n positive => ?_,fun n all => by omega⟩
  have error := failed n (by omega)
  omega

theorem completeRefines {k : Nat} (typed : MqttHeader.type p.header ≠ 0)
    (whole : Complete p buflen buf₀ t₀.sck (poll scheduled buflen buf₀ t₀ k)) :
    (poll scheduled buflen buf₀ t₀ k).rc ≠ 0 ∧
      (poll scheduled buflen buf₀ t₀ k).rc = (mqttPacketRead blocking buflen buf₀ (some (supplied t₀.sck))).rc ∧
      (poll scheduled buflen buf₀ t₀ k).buf.byte =
        (mqttPacketRead blocking buflen buf₀ (some (supplied t₀.sck))).buf.byte := by
  have read := (readWhole p buflen buf₀ (supplied (poll scheduled buflen buf₀ t₀ k).trp.sck)).2 whole.fits
  rw [← whole.consumed] at read
  refine ⟨?_,whole.rc.trans read.1.symm,whole.buffer.trans read.2.symm⟩
  rw [whole.rc]
  omega

theorem oversizeRefines (carries : Carries p t₀.sck) (start : t₀.state ≠ 1 ∧ t₀.state ≠ 2)
    (brought : p.bytes <+: supplied t₀.sck) (large : Oversize p buflen) : Refines p buflen buf₀ t₀ := by
  obtain ⟨behind,stream⟩ := brought
  have read := (readWhole p buflen buf₀ behind).1 large
  rw [stream] at read
  have outcome : ∀ n, (poll scheduled buflen buf₀ t₀ n).rc = 0 ∧
      Unfinished p t₀.sck (poll scheduled buflen buf₀ t₀ n).trp ∨ (poll scheduled buflen buf₀ t₀ n).rc = -1 := by
    intro n
    rcases pollOutcome carries start n with last | ⟨k,_,complete⟩
    · cases last with
      | waiting rc place => exact Or.inl ⟨rc,waitingUnfinished place (Or.inr large)⟩
      | failed rc why => exact Or.inr rc
      | complete whole => exact absurd large whole.fits
    · exact absurd large complete.fits
  refine ⟨fun n ended => ?_,fun n positive => ?_,fun n all => ?_⟩
  · rcases outcome n with ⟨rc,_⟩ | rc
    · exact absurd rc ended
    · exact rc.trans read.symm
  · rcases outcome n with ⟨rc,_⟩ | rc <;> omega
  · rcases outcome n with ⟨_,left⟩ | rc
    · unfold Unfinished at left
      omega
    · omega

theorem fittingRefines (carries : Carries p t₀.sck) (start : t₀.state ≠ 1 ∧ t₀.state ≠ 2)
    (brought : p.bytes <+: supplied t₀.sck) (fits : ¬ Oversize p buflen) (nonempty : p.body ≠ [])
    (patient : fieldCalls p t₀.sck ≤ 4) (typed : MqttHeader.type p.header ≠ 0) : Refines p buflen buf₀ t₀ := by
  have outcome : ∀ n, (poll scheduled buflen buf₀ t₀ n).rc = 0 ∧
      Unfinished p t₀.sck (poll scheduled buflen buf₀ t₀ n).trp ∨
        Complete p buflen buf₀ t₀.sck (poll scheduled buflen buf₀ t₀ n) := by
    intro n
    rcases pollOutcome carries start n with last | ⟨k,before,complete⟩
    · cases last with
      | waiting rc place => exact Or.inl ⟨rc,waitingUnfinished place (Or.inl nonempty)⟩
      | failed rc why =>
        rcases why with large | long | empty | cut
        · exact absurd large fits
        · omega
        · exact absurd empty nonempty
        · exact absurd brought cut
      | complete whole => exact Or.inr whole
    · rw [pollStays (Nat.le_of_lt before) (completeRefines typed complete).1]
      exact Or.inr complete
  refine ⟨fun n ended => ?_,fun n positive => ?_,fun n all => ?_⟩
  · rcases outcome n with ⟨rc,_⟩ | whole
    · exact absurd rc ended
    · exact (completeRefines typed whole).2.1
  · rcases outcome n with ⟨rc,_⟩ | whole
    · omega
    · exact (completeRefines typed whole).2.2
  · rcases outcome n with ⟨_,left⟩ | whole
    · unfold Unfinished at left
      omega
    · exact (completeRefines typed whole).1

/- Polling that refines the blocking reader came to an end, and can only have ended well. -/
theorem refinesMeets (carries : Carries p t₀.sck) (start : t₀.state ≠ 1 ∧ t₀.state ≠ 2)
    (refines : Refines p buflen buf₀ t₀) : Meets p buflen t₀.sck := by
  intro brought
  by_cases large : Oversize p buflen
  · exact Or.inl large
  · have ended : ∀ k, Complete p buflen buf₀ t₀.sck (poll scheduled buflen buf₀ t₀ k) →
        p.body ≠ [] ∧ fieldCalls p t₀.sck ≤ 4 ∧ MqttHeader.type p.header ≠ 0 := by
      intro k whole
      refine ⟨whole.nonempty,whole.patient,?_⟩
      have size := congrArg List.length whole.consumed
      rw [List.length_append] at size
      have nonzero := refines.returns k (by omega)
      rw [whole.rc] at nonzero
      omega
    obtain ⟨n,stops⟩ := pendingEnds buflen buf₀ brought
    refine Or.inr ?_
    rcases pollOutcome carries start n with last | ⟨k,_,complete⟩
    · cases last with
      | waiting rc place =>
        have all : ¬ Unfinished p t₀.sck (poll scheduled buflen buf₀ t₀ n).trp := fun left => stops ⟨rc,place,left⟩
        unfold Unfinished at all
        exact absurd rc (refines.returns n (by omega))
      | failed rc why =>
        have same := refines.type n (by omega)
        obtain ⟨behind,stream⟩ := brought
        have read := ((readWhole p buflen buf₀ behind).2 large).1
        rw [stream, ← same, rc] at read
        omega
      | complete whole => exact ended n whole
    · exact ended k complete

/-- Polling MQTTPacket_readnb gives what MQTTPacket_read gives exactly when the packet does not
come or does not fit, or it has a body and a type and its length field is through in four calls. -/
theorem readnbRefines (carries : Carries p t₀.sck) (start : t₀.state ≠ 1 ∧ t₀.state ≠ 2) :
    Refines p buflen buf₀ t₀ ↔ Meets p buflen t₀.sck := by
  constructor
  · exact refinesMeets carries start
  · intro meets
    by_cases brought : p.bytes <+: supplied t₀.sck
    · by_cases large : Oversize p buflen
      · exact oversizeRefines carries start brought large
      · obtain ⟨nonempty,patient,typed⟩ := (meets brought).resolve_left large
        exact fittingRefines carries start brought large nonempty patient typed
    · exact cutRefines carries start brought

end Poll

def letterPacket : WirePacket := ⟨0x30,[3],[0,1,0x61],by decide,by decide,by decide⟩
def emptyPacket : WirePacket := ⟨0xd0,[0],[],by decide,by decide,by decide⟩
def fresh (answers : List Answer) : Transport (List Answer) := ⟨answers,0,0,0,0⟩

/- One call again before the header, in the length field and in the body. -/
def patientAnswers : List Answer :=
  [.again,.bytes 0x30 [],.again,.bytes 3 [0,1],.again,.bytes 0x61 []]

theorem letterRefines : Refines letterPacket 16 (Memory.ofList []) (fresh patientAnswers) :=
  (readnbRefines (Or.inl (by decide)) ⟨by decide,by decide⟩).mpr
    fun _ => Or.inr ⟨by decide,by decide,by decide⟩

/- Four times call again before the one length byte, and a packet without a body. -/
def waitingAnswers : List Answer :=
  [.bytes 0x30 [],.again,.again,.again,.again,.bytes 3 [0,1,0x61]]
def emptyAnswers : List Answer := [.bytes 0xd0 [0]]

theorem packetsMissed :
    ¬ Refines letterPacket 16 (Memory.ofList []) (fresh waitingAnswers) ∧
      ¬ Refines emptyPacket 16 (Memory.ofList []) (fresh emptyAnswers) := by
  constructor
  · intro refines
    have failed : (poll scheduled 16 (Memory.ofList []) (fresh waitingAnswers) 5).rc = -1 := by decide
    have read : (mqttPacketRead blocking 16 (Memory.ofList []) (some (supplied waitingAnswers))).rc = 3 := by decide
    have same := refines.type 5 (by rw [failed]; decide)
    rw [failed] at same
    exact absurd (same.trans read) (by decide)
  · intro refines
    have silent : (poll scheduled 16 (Memory.ofList []) (fresh emptyAnswers) 1).rc = 0 := by decide
    exact refines.returns 1 (by decide) silent

end YunbaIot.NonblockingRead
