import YunbaIot.Schedule

/-! One packet read by polling MQTTPacket_readnb. Between two calls the reader stands before
the header byte, inside the length field or inside the body. -/
namespace YunbaIot.Polling
open MqttPacket MqttTransport Framing MqttReadnb Schedule

/- The schedule brings the packet, or fails or falls silent inside it. -/
def Carries (p : WirePacket) (answers : List Answer) : Prop :=
  p.bytes <+: supplied answers ∨ supplied answers <+: p.bytes

theorem carriesNext {p : WirePacket} {answers : List Answer} {taken ahead left next : List UInt8}
    (carries : Carries p answers) (packet : p.bytes = taken ++ left) (stream : supplied answers = taken ++ ahead)
    (part : next <+: ahead) (short : next.length ≤ left.length) : next <+: left := by
  unfold Carries at carries
  rw [packet, stream, List.prefix_append_right_inj, List.prefix_append_right_inj] at carries
  rcases carries with h | h
  · exact List.prefix_of_prefix_length_le part h short
  · exact part.trans h

/- The calls that the length field takes: its bytes and the answers to call again among them. -/
def fieldCalls (p : WirePacket) (answers : List Answer) : Nat :=
  p.field.length + (waits (1 + p.field.length) answers - waits 1 answers)

/-! The length field -/

section Field
variable (p : WirePacket) (answers : List Answer)

structure InField (f r : List UInt8) (t : Transport (List Answer)) : Prop where
  split : p.field = f ++ r
  more : r ≠ []
  consumed : supplied answers = p.header :: (f ++ supplied t.sck)
  value : t.remLen = Base128.value f
  multiplier : t.multiplier = 128 ^ f.length
  counted : t.sck ≠ [] → t.len + r.length + waits r.length t.sck = fieldCalls p answers

inductive Decoding (d : DecodenbOut (List Answer)) : Prop where
  | waiting (f r : List UInt8) (rc : d.rc = 0) (field : InField p answers f r d.trp) (begun : 0 < d.trp.len)
      (few : d.trp.len ≤ 4)
  | failed (rc : d.rc = -1) (why : 4 < fieldCalls p answers ∨ ¬ p.bytes <+: supplied answers)
  | whole (rc : d.rc = d.trp.len) (begun : 0 < d.trp.len) (length : d.trp.remLen = p.body.length)
      (consumed : supplied answers = p.header :: (p.field ++ supplied d.trp.sck)) (patient : fieldCalls p answers ≤ 4)

variable {p answers}

/- What the schedule still supplies when it fails is nothing. -/
theorem cutShort {taken left : List UInt8} (packet : p.bytes = taken ++ left) (more : left ≠ [])
    (stream : supplied answers = taken) : ¬ p.bytes <+: supplied answers := by
  intro whole
  have size := whole.length_le
  rw [packet, stream, List.length_append] at size
  have positive := List.length_pos_iff.mpr more
  omega

theorem InField.packet {f r : List UInt8} {t : Transport (List Answer)} (field : InField p answers f r t) :
    p.bytes = p.header :: f ++ (r ++ p.body) := by
  rw [WirePacket.bytes, field.split]
  simp

/- A byte of the length field arrives: it is the next one, and the field goes on or is whole. -/
theorem byteArrives (carries : Carries p answers) {f r : List UInt8} {b c : UInt8} {bs : List UInt8}
    {rest : List Answer} {t : Transport (List Answer)} (field : InField p answers f (c :: r) t)
    (offered : t.sck = .bytes b bs :: rest) :
    b = c ∧ supplied answers = p.header :: (f ++ [c] ++ supplied (push bs rest)) ∧
      t.len + 1 + r.length + waits r.length (push bs rest) = fieldCalls p answers := by
  have stream := field.consumed
  have counted := field.counted (by simp [offered])
  rw [offered] at stream counted
  have whole : supplied answers = p.header :: f ++ supplied (.bytes b bs :: rest) := stream
  have same : [b] <+: c :: (r ++ p.body) := carriesNext carries field.packet whole (by simp [supplied]) (by simp)
  have equal : b = c := by simpa using same
  refine ⟨equal,?_,?_⟩
  · rw [stream, suppliedPush, ← equal]
    simp [supplied]
  · simp only [List.length_cons, waits] at counted
    rw [waitsPush]
    omega

/- The reader behind one more byte of the length field. -/
def byteTaken (b : UInt8) (ahead : List Answer) (t : Transport (List Answer)) : Transport (List Answer) :=
  ⟨ahead,t.multiplier * 128,t.remLen + (b &&& 127).toNat * t.multiplier,t.len + 1,t.state⟩

theorem byteDecodes (carries : Carries p answers) {f r : List UInt8} {b c : UInt8} {bs : List UInt8}
    {rest : List Answer} {t : Transport (List Answer)} (field : InField p answers f (c :: r) t)
    (offered : t.sck = .bytes b bs :: rest) (room : t.len + 1 ≤ 4) :
    (b &&& 128 ≠ 0 → InField p answers (f ++ [b]) r (byteTaken b (push bs rest) t)) ∧
      (¬ b &&& 128 ≠ 0 → Decoding p answers ⟨(t.len + 1 : Nat),byteTaken b (push bs rest) t⟩) := by
  obtain ⟨rfl,stream,counted⟩ := byteArrives carries field offered
  have split : p.field = f ++ [b] ++ r := by rw [field.split]; simp
  have ended := p.ended
  rw [field.split] at ended
  have goes := Base128.continuesBefore ended
  have value : t.remLen + (b &&& 127).toNat * t.multiplier = Base128.value (f ++ [b]) := by
    rw [Base128.valueSnoc, lowBits, field.value, field.multiplier]
  have multiplier : t.multiplier * 128 = 128 ^ (f ++ [b]).length := by
    rw [field.multiplier, List.length_append, List.length_singleton, Nat.pow_succ]
  constructor
  · intro more
    exact ⟨split,goes.mp ((continues b).mp more),stream,value,multiplier,fun _ => counted⟩
  · intro ends
    have last : r = [] := by
      by_contra some
      exact ends ((continues b).mpr (goes.mpr some))
    subst last
    rw [List.append_nil] at split
    simp only [List.length_nil, waits] at counted
    refine .whole rfl (Nat.succ_pos _) ?_ ?_ (by omega)
    · exact value.trans (split ▸ p.counts)
    · rw [split]
      exact stream

/- An answer without a byte: the schedule is over, or it says to call again. -/
theorem silenceDecodes {f r : List UInt8} {t : Transport (List Answer)} {rest : List Answer}
    (field : InField p answers f r t) (silent : t.sck = rest ∧ rest = [] ∨ t.sck = .again :: rest)
    (room : t.len + 1 ≤ 4) : Decoding p answers ⟨0,{ t with len := t.len + 1, sck := rest }⟩ := by
  have stream : supplied t.sck = supplied rest := by
    rcases silent with ⟨same,_⟩ | again
    · rw [same]
    · rw [again]
      rfl
  have consumed : supplied answers = p.header :: (f ++ supplied rest) := stream ▸ field.consumed
  have counted (some : rest ≠ []) : t.len + 1 + r.length + waits r.length rest = fieldCalls p answers := by
    rcases silent with ⟨_,none⟩ | again
    · exact absurd none some
    · have before := field.counted (by simp [again])
      have positive := List.length_pos_iff.mpr field.more
      obtain ⟨n,size⟩ := Nat.exists_eq_add_one_of_ne_zero positive.ne'
      rw [again, size, waits] at before
      rw [size]
      omega
  exact .waiting f r rfl ⟨field.split,field.more,consumed,field.value,field.multiplier,counted⟩ (Nat.succ_pos _) room

/- All four calls are made and the field goes on. -/
theorem spentDecodes {f r : List UInt8} {t u : Transport (List Answer)} (field : InField p answers f r t)
    (spent : t.len = 4) : Decoding p answers ⟨-1,u⟩ := by
  refine .failed rfl ?_
  have positive := List.length_pos_iff.mpr field.more
  cases silent : t.sck with
  | nil =>
    have stream : supplied answers = p.header :: f := by simpa [silent, supplied] using field.consumed
    exact Or.inr (cutShort field.packet (by simp [field.more]) stream)
  | cons next rest =>
    have counted := field.counted (by simp [silent])
    exact Or.inl (by omega)

theorem decodenbLoopDecodes (carries : Carries p answers) (left : Nat) {f r : List UInt8}
    {t : Transport (List Answer)} (field : InField p answers f r t) (room : t.len + left = 4) :
    Decoding p answers (decodenbLoop scheduled left t) := by
  induction left generalizing f r t with
  | zero => exact spentDecodes field room
  | succ left ih =>
    cases r with
    | nil => exact absurd rfl field.more
    | cons c r =>
      unfold decodenbLoop
      match offered : t.sck with
      | [] =>
        have call : scheduled.call 1 [] = (⟨[],0⟩,[]) := rfl
        simp only [call]
        rw [if_neg (by decide)]
        exact silenceDecodes field (Or.inl ⟨offered,rfl⟩) (by omega)
      | .error :: rest =>
        have call : scheduled.call 1 (.error :: rest) = (⟨[],-1⟩,rest) := rfl
        simp only [call, if_true]
        have stream : supplied answers = p.header :: f := by simpa [offered, supplied] using field.consumed
        exact .failed rfl (Or.inr (cutShort field.packet (by simp) stream))
      | .again :: rest =>
        have call : scheduled.call 1 (.again :: rest) = (⟨[],0⟩,rest) := rfl
        simp only [call]
        rw [if_neg (by decide)]
        exact silenceDecodes field (Or.inr offered) (by omega)
      | .bytes b bs :: rest =>
        have call : scheduled.call 1 (.bytes b bs :: rest) = (⟨[b],1⟩,push bs rest) := rfl
        simp only [call]
        rw [if_neg (by decide)]
        obtain ⟨goes,ends⟩ := byteDecodes carries field offered (by omega)
        by_cases more : b &&& 128 ≠ 0
        · rw [if_pos more]
          exact ih (goes more) (by dsimp only; omega)
        · rw [if_neg more]
          exact ends more

theorem decodenbLoopState (left : Nat) (t : Transport (List Answer)) :
    (decodenbLoop scheduled left t).trp.state = t.state := by
  induction left generalizing t with
  | zero => rfl
  | succ left ih =>
    unfold decodenbLoop
    dsimp only
    split
    · rfl
    · split
      · rfl
      · split
        · exact ih _
        · rfl

end Field

/-! Where a call leaves the reader -/

section Calls
variable (p : WirePacket) (buflen : Int) (buf₀ : Memory) (answers : List Answer)

/- The packet as far as the reader has it in the buffer. -/
def partly (b : List UInt8) : List UInt8 := p.header :: (mqttPacketEncode p.body.length ++ b)

structure InBody (b r : List UInt8) (buf : Memory) (t : Transport (List Answer)) : Prop where
  split : p.body = b ++ r
  more : p.body = [] ∨ r ≠ []
  consumed : supplied answers = p.header :: (p.field ++ b ++ supplied t.sck)
  remLen : t.remLen = r.length
  len : t.len = (partly p b).length
  buffer : buf.byte = (buf₀.store 0 (partly p b)).byte

inductive At (buf : Memory) (t : Transport (List Answer)) : Prop where
  | header (state : t.state ≠ 1 ∧ t.state ≠ 2) (consumed : supplied t.sck = supplied answers)
      (calls : fieldCalls p t.sck = fieldCalls p answers) (buffer : buf.byte = buf₀.byte)
  | length (f r : List UInt8) (state : t.state = 1) (field : InField p answers f r t) (begun : 0 < t.len)
      (few : t.len ≤ 4) (buffer : buf.byte = (buf₀.store 0 [p.header]).byte)
  | body (b r : List UInt8) (state : t.state = 2) (body : InBody p buf₀ answers b r buf t)
      (fits : ¬ Oversize p buflen) (patient : fieldCalls p answers ≤ 4)

structure Complete (out : ReadnbOut (List Answer)) : Prop where
  rc : out.rc = MqttHeader.type p.header
  fits : ¬ Oversize p buflen
  patient : fieldCalls p answers ≤ 4
  nonempty : p.body ≠ []
  consumed : supplied answers = p.bytes ++ supplied out.trp.sck
  buffer : out.buf.byte = landed p buf₀

inductive Outcome (out : ReadnbOut (List Answer)) : Prop where
  | waiting (rc : out.rc = 0) (place : At p buflen buf₀ answers out.buf out.trp)
  | failed (rc : out.rc = -1) (why : Oversize p buflen ∨ 4 < fieldCalls p answers ∨ p.body = [] ∨
      ¬ p.bytes <+: supplied answers)
  | complete (whole : Complete p buflen buf₀ answers out)

variable {p buflen buf₀ answers}

theorem InBody.packet {b r : List UInt8} {buf : Memory} {t : Transport (List Answer)}
    (body : InBody p buf₀ answers b r buf t) : p.bytes = p.header :: (p.field ++ b) ++ r := by
  rw [WirePacket.bytes, body.split]
  simp

/- An answer without a byte leaves the reader inside the body where it was. -/
theorem bodyWaits {b r : List UInt8} {buf : Memory} {t : Transport (List Answer)} {rest : List Answer}
    (body : InBody p buf₀ answers b r buf t) (same : supplied rest = supplied t.sck) :
    InBody p buf₀ answers b r (buf.store t.len []) { t with sck := rest } where
  split := body.split
  more := body.more
  consumed := by rw [same]; exact body.consumed
  remLen := body.remLen
  len := body.len
  buffer := by rw [Memory.storeNil]; exact body.buffer

/- Bytes that arrive are the next ones of the body, and land behind those before them. -/
structure Advanced (p : WirePacket) (buf₀ : Memory) (answers : List Answer) (b r got : List UInt8) (buf : Memory)
    (ahead : List Answer) : Prop where
  part : got <+: r
  consumed : supplied answers = p.header :: (p.field ++ (b ++ got) ++ supplied ahead)
  buffer : buf.byte = (buf₀.store 0 (partly p (b ++ got))).byte

theorem bodyAdvances (carries : Carries p answers) {b r : List UInt8} {buf : Memory} {t : Transport (List Answer)}
    (body : InBody p buf₀ answers b r buf t) {c : UInt8} {cs : List UInt8} {rest : List Answer}
    (offered : t.sck = .bytes c cs :: rest) :
    Advanced p buf₀ answers b r ((c :: cs).take r.length) (buf.store t.len ((c :: cs).take r.length))
      (push ((c :: cs).drop r.length) rest) := by
  have stream := body.consumed
  have ahead : supplied t.sck = (c :: cs).take r.length ++ ((c :: cs).drop r.length ++ supplied rest) := by
    rw [← List.append_assoc, List.take_append_drop, offered]
    rfl
  have whole : supplied answers = p.header :: (p.field ++ b) ++ supplied t.sck := by rw [stream]; rfl
  refine ⟨?_,?_,?_⟩
  · refine carriesNext carries body.packet whole ?_ (List.length_take_le ..)
    rw [ahead]
    exact List.prefix_append ..
  · rw [stream, ahead, suppliedPush]
    simp
  · have place : t.len = 0 + (partly p b).length := by rw [body.len, Nat.zero_add]
    have stored := Memory.storeBehind body.buffer place ((c :: cs).take r.length)
    rw [stored]
    simp [partly]

/- Some bytes of the rest arrive: the packet is whole, or the reader stands further on. -/
theorem bodyBytes (carries : Carries p answers) (fits : ¬ Oversize p buflen) (patient : fieldCalls p answers ≤ 4)
    {b r : List UInt8} {buf : Memory} {t : Transport (List Answer)} (state : t.state = 2)
    (body : InBody p buf₀ answers b r buf t) (unread : r ≠ []) {c : UInt8} {cs : List UInt8} {rest : List Answer}
    (offered : t.sck = .bytes c cs :: rest) :
    let got := (c :: cs).take r.length
    let buf := buf.store t.len got
    let ahead : Transport (List Answer) :=
      ⟨push ((c :: cs).drop r.length) rest,t.multiplier,t.remLen - got.length,t.len + got.length,t.state⟩
    Outcome p buflen buf₀ answers
      (if ahead.remLen ≠ 0 then ⟨0,buf,ahead⟩ else ⟨MqttHeader.type (buf.byte 0),buf,{ ahead with state := 0 }⟩) := by
  intro got buf ahead
  obtain ⟨⟨left,next⟩,stream,buffer⟩ := bodyAdvances carries body offered
  have split : p.body = b ++ got ++ left := by rw [body.split, List.append_assoc, next]
  have remaining : ahead.remLen = left.length := by
    have size : got.length + left.length = r.length := by rw [← List.length_append, next]
    have whole : t.remLen - got.length = left.length := by
      rw [body.remLen]
      omega
    exact whole
  by_cases more : left = []
  · subst more
    rw [if_neg (by rw [remaining]; exact fun h => h rfl)]
    rw [List.append_nil] at split
    have landing : buf.byte = landed p buf₀ := by
      rw [buffer, ← split]
      rfl
    refine .complete ⟨?_,fits,patient,?_,?_,landing⟩
    · rw [landing]
      rfl
    · rw [body.split]
      simp [unread]
    · rw [stream, ← split]
      rfl
  · rw [if_pos (by rw [remaining]; exact fun h => more (List.length_eq_zero_iff.mp h))]
    have len : t.len + got.length = (partly p (b ++ got)).length := by
      rw [body.len]
      simp only [partly, List.length_cons, List.length_append]
      omega
    exact .waiting rfl (.body (b ++ got) left state ⟨split,Or.inr more,stream,remaining,len,buffer⟩ fits patient)

theorem bodyOutcome (carries : Carries p answers) (fits : ¬ Oversize p buflen) (patient : fieldCalls p answers ≤ 4)
    {b r : List UInt8} {buf : Memory} {t : Transport (List Answer)} (state : t.state = 2)
    (body : InBody p buf₀ answers b r buf t) : Outcome p buflen buf₀ answers (readnbBody scheduled buf t) := by
  unfold readnbBody
  match offered : t.sck with
  | [] =>
    have call : scheduled.call t.remLen [] = (⟨[],0⟩,[]) := rfl
    simp only [call]
    exact .waiting rfl (.body b r state (bodyWaits body (by rw [offered])) fits patient)
  | .error :: rest =>
    have call : scheduled.call t.remLen (.error :: rest) = (⟨[],-1⟩,rest) := rfl
    simp only [call, if_true]
    refine .failed rfl (Or.inr (Or.inr ?_))
    have stream : supplied answers = p.header :: (p.field ++ b) := by simpa [offered, supplied] using body.consumed
    exact body.more.imp_right fun some => cutShort body.packet some stream
  | .again :: rest =>
    have call : scheduled.call t.remLen (.again :: rest) = (⟨[],0⟩,rest) := rfl
    simp only [call]
    exact .waiting rfl (.body b r state (bodyWaits body (by rw [offered]; rfl)) fits patient)
  | .bytes c cs :: rest =>
    have call : scheduled.call t.remLen (.bytes c cs :: rest) =
      (⟨(c :: cs).take r.length,((c :: cs).take r.length).length⟩,push ((c :: cs).drop r.length) rest) := by
      rw [body.remLen]
      rfl
    simp only [call]
    by_cases none : r = []
    · -- nothing is asked for, and the answer 0 means to call again
      subst none
      simp only [List.length_nil, List.take_zero, List.drop_zero]
      rw [if_neg (by decide), if_pos Int.natCast_zero]
      exact .waiting rfl (.body b [] state (bodyWaits body (by rw [offered]; rfl)) fits patient)
    · have some : 0 < ((c :: cs).take r.length).length := by
        have positive := List.length_pos_iff.mpr none
        rw [List.length_take, List.length_cons]
        omega
      rw [if_neg (by omega), if_neg (by omega)]
      exact bodyBytes carries fits patient state body none offered

/- The length field is read, its value put back into the buffer and compared with the size. -/
theorem lengthOutcome (carries : Carries p answers) {buf : Memory} {t : Transport (List Answer)} (state : t.state = 1)
    (buffer : buf.byte = (buf₀.store 0 [p.header]).byte)
    (decoding : Decoding p answers (mqttPacketDecodenb scheduled t))
    (kept : (mqttPacketDecodenb scheduled t).trp.state = t.state) :
    Outcome p buflen buf₀ answers (readnbLength scheduled buflen buf t) := by
  unfold readnbLength
  generalize mqttPacketDecodenb scheduled t = d at decoding kept
  cases decoding with
  | waiting f r rc field begun few =>
    simp only [rc]
    exact .waiting rfl (.length f r (kept.trans state) field begun few buffer)
  | failed rc why =>
    simp only [rc, if_true]
    exact .failed rfl (by rcases why with h | h; exacts [Or.inr (Or.inl h),Or.inr (Or.inr (Or.inr h))])
  | whole rc begun length consumed patient =>
    simp only [rc]
    rw [if_neg (by omega), if_neg (by omega), length]
    split
    · rename_i large
      exact .failed rfl (Or.inl large)
    · rename_i fits
      have behind : (1 : Nat) = 0 + [p.header].length := rfl
      have opened := Memory.storeBehind buffer behind (mqttPacketEncode p.body.length)
      refine bodyOutcome (b := []) (r := p.body) carries fits patient (by dsimp only; omega) ?_
      refine ⟨rfl,Classical.em _,?_,rfl,?_,?_⟩
      · rw [List.append_nil]
        exact consumed
      · simp [partly, Nat.add_comm]
      · rw [opened]
        simp [partly]

/- A length field that is begun, on a reader that has asked nothing of it. -/
theorem decodenbBegins (carries : Carries p answers) {t : Transport (List Answer)} (fresh : t.len = 0)
    (field : InField p answers [] p.field { t with multiplier := 1, remLen := 0 }) :
    Decoding p answers (mqttPacketDecodenb scheduled t) ∧ (mqttPacketDecodenb scheduled t).trp.state = t.state := by
  unfold mqttPacketDecodenb
  rw [if_pos fresh]
  refine ⟨decodenbLoopDecodes carries _ field ?_,decodenbLoopState _ _⟩
  simp only [fresh, maxRemainingLengthBytes]

theorem decodenbResumes (carries : Carries p answers) {f r : List UInt8} {t : Transport (List Answer)}
    (field : InField p answers f r t) (begun : 0 < t.len) (few : t.len ≤ 4) :
    Decoding p answers (mqttPacketDecodenb scheduled t) ∧ (mqttPacketDecodenb scheduled t).trp.state = t.state := by
  unfold mqttPacketDecodenb
  rw [if_neg (by omega)]
  refine ⟨decodenbLoopDecodes carries _ field ?_,decodenbLoopState _ _⟩
  simp only [maxRemainingLengthBytes]
  omega

/- The first byte offered is the header; the field comes behind it, with the calls it takes. -/
theorem headerCarried (carries : Carries p answers) {b : UInt8} {bs : List UInt8} {rest : List Answer}
    (consumed : supplied (.bytes b bs :: rest) = supplied answers)
    (calls : fieldCalls p (.bytes b bs :: rest) = fieldCalls p answers) :
    b = p.header ∧ supplied answers = p.header :: supplied (push bs rest) ∧
      p.field.length + waits p.field.length (push bs rest) = fieldCalls p answers := by
  have packet : p.bytes = [] ++ p.bytes := rfl
  have whole : supplied answers = [] ++ supplied (.bytes b bs :: rest) := consumed.symm
  have first : [b] <+: p.bytes := carriesNext carries packet whole (by simp [supplied]) (by simp [WirePacket.bytes])
  have same : b = p.header := by simpa [WirePacket.bytes] using first
  refine ⟨same,?_,?_⟩
  · rw [← consumed, suppliedPush, ← same]
    rfl
  · rw [← calls, waitsPush, fieldCalls]
    simp [waits, Nat.add_comm 1]

theorem headerOutcome (carries : Carries p answers) {buf : Memory} {t : Transport (List Answer)} (state : t.state = 0)
    (consumed : supplied t.sck = supplied answers) (calls : fieldCalls p t.sck = fieldCalls p answers)
    (buffer : buf.byte = buf₀.byte) : Outcome p buflen buf₀ answers (readnbHeader scheduled buflen buf t) := by
  have untouched : (buf.store 0 []).byte = buf₀.byte := (Memory.storeNil buf 0).trans buffer
  unfold readnbHeader
  match offered : t.sck with
  | [] =>
    have call : scheduled.call 1 [] = (⟨[],0⟩,[]) := rfl
    simp only [call]
    rw [offered] at consumed calls
    exact .waiting rfl (.header (by simp [state]) consumed calls untouched)
  | .error :: rest =>
    have call : scheduled.call 1 (.error :: rest) = (⟨[],-1⟩,rest) := rfl
    simp only [call, if_true]
    have stream : supplied answers = [] := by rw [← consumed, offered]; rfl
    have packet : p.bytes = [] ++ p.bytes := rfl
    exact .failed rfl (Or.inr (Or.inr (Or.inr (cutShort packet (by simp [WirePacket.bytes]) stream))))
  | .again :: rest =>
    have call : scheduled.call 1 (.again :: rest) = (⟨[],0⟩,rest) := rfl
    simp only [call]
    rw [offered] at consumed calls
    have same : fieldCalls p rest = fieldCalls p (.again :: rest) := by
      simp only [fieldCalls, waits, Nat.add_comm 1, Nat.zero_add]
      omega
    exact .waiting rfl (.header (by simp [state]) consumed (same.trans calls) untouched)
  | .bytes b bs :: rest =>
    have call : scheduled.call 1 (.bytes b bs :: rest) = (⟨[b],1⟩,push bs rest) := rfl
    simp only [call]
    rw [if_neg (by decide), if_neg (by decide)]
    rw [offered] at consumed calls
    obtain ⟨same,stream,counted⟩ := headerCarried carries consumed calls
    have nonempty : p.field ≠ [] := Base128.terminatedNonempty p.ended
    let fresh : Transport (List Answer) := ⟨push bs rest,t.multiplier,t.remLen,0,t.state + 1⟩
    have field : InField p answers [] p.field { fresh with multiplier := 1, remLen := 0 } :=
      ⟨rfl,nonempty,stream,rfl,rfl,fun _ => by simpa [fresh] using counted⟩
    have landed : (buf.store 0 [b]).byte = (buf₀.store 0 [p.header]).byte := by
      rw [same]
      simp only [Memory.store, buffer]
    have begun : fresh.state = 1 := by simp [fresh, state]
    obtain ⟨decoding,kept⟩ := decodenbBegins carries rfl field
    exact lengthOutcome carries begun landed decoding kept

/-- One call, from wherever the reader stands. -/
theorem readnbOutcome (carries : Carries p answers) {buf : Memory} {t : Transport (List Answer)}
    (place : At p buflen buf₀ answers buf t) :
    Outcome p buflen buf₀ answers (mqttPacketReadnb scheduled buflen buf t) := by
  unfold mqttPacketReadnb
  cases place with
  | header state consumed calls buffer =>
    rw [if_neg state.1, if_neg state.2]
    exact headerOutcome carries rfl consumed calls buffer
  | length f r state field begun few buffer =>
    rw [if_pos state]
    obtain ⟨decoding,kept⟩ := decodenbResumes carries field begun few
    exact lengthOutcome carries state buffer decoding kept
  | body b r state body fits patient =>
    rw [if_neg (by omega), if_pos state]
    exact bodyOutcome carries fits patient state body

end Calls

end YunbaIot.Polling
