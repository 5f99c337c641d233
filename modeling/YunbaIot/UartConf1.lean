import YunbaIot.UartDriver

/-! What the calls of the driver do to CONF1, whose fields belong to UART_SetFlowCtrl and to
UART_IntrConfig: the mask of the second clears the fields of the first and none of its own. -/
namespace YunbaIot.UartConf1
open BitField UartDriver

/- An interrupt source that has a threshold. -/
structure IntrSource where
  ena : Word
  thresh : UartIntrConf → BitVec 8
  thrhd : Field 32

def rxTimeOut : IntrSource := ⟨uartRxfifoToutIntEna,UartIntrConf.uartRxTimeOutIntrThresh,uartRxToutThrhd⟩
def rxFifoFull : IntrSource := ⟨uartRxfifoFullIntEna,UartIntrConf.uartRxFifoFullIntrThresh,uartRxfifoFullThrhd⟩
def txFifoEmpty : IntrSource := ⟨uartTxfifoEmptyIntEna,UartIntrConf.uartTxFifoEmptyIntrThresh,uartTxfifoEmptyThrhd⟩

def intrSources : List IntrSource := [rxTimeOut,rxFifoFull,txFifoEmpty]

-- a field of CONF1 and what a configuration asks to be in it
structure Part where
  field : Field 32
  asked : UartIntrConf → Word

def IntrSource.part (s : IntrSource) : Part :=
  ⟨s.thrhd,fun conf => if conf.enables s.ena then (s.thresh conf).setWidth 32 else 0⟩

/- The enable bit of the time-out comes with its interrupt. -/
def rxToutEn : Part := ⟨⟨1,31,by decide⟩,fun conf => if conf.enables uartRxfifoToutIntEna then 1 else 0⟩

def parts : List Part := [rxTimeOut.part,rxToutEn,rxFifoFull.part,txFifoEmpty.part]

structure Bounded (conf : UartIntrConf) : Prop where
  thresholds : ∀ s ∈ intrSources, s.thresh conf ≤ 0x7f

def flowBits : Word := uartRxFlowThrhd.mask ||| uartRxFlowEn

/- What is to hold of two calls in a row from a state of the registers. -/
structure Composes (uartNo : UartPort) (first last : UartIntrConf) (p : Peripherals) : Prop where
  thresholds : ∀ s ∈ intrSources, last.enables s.ena →
    s.thrhd.get (readPeriReg (uartConf1 uartNo) (uartIntrConfig uartNo last p)) = (s.thresh last).setWidth 32
  flow : readPeriReg (uartConf1 uartNo) (uartIntrConfig uartNo last p) &&& flowBits =
    readPeriReg (uartConf1 uartNo) p &&& flowBits
  twice : uartIntrConfig uartNo last (uartIntrConfig uartNo first p) = uartIntrConfig uartNo last p

/- The bits that are there already are among those asked for, and those that the earlier call
asks for are there or asked for again. -/
structure Covered (conf1 intEna : Word) (first last : UartIntrConf) : Prop where
  thresholds : ∀ s ∈ intrSources, last.enables s.ena → Within (s.thrhd.get conf1) ((s.thresh last).setWidth 32)
  earlier : ∀ part ∈ parts, Within (part.asked first) (part.field.get conf1 ||| part.asked last)
  enabled : Within (first.uartIntrEnMask &&& ~~~uartIntrMask) (intEna ||| last.uartIntrEnMask)

/-! What a call writes -/

def askedFields (conf : UartIntrConf) : List (Field 32 × Word) := parts.map fun part => (part.field,part.asked conf)

def conf1Asked (conf : UartIntrConf) : Word := Field.added (askedFields conf)

theorem seven {x : BitVec 8} (small : x ≤ 0x7f) : x.setWidth 32 &&& 0x7F = x.setWidth 32 := by
  have bound : x.toNat ≤ 127 := small
  apply BitVec.eq_of_toNat_eq
  rw [BitVec.toNat_and, BitVec.toNat_setWidth]
  have low : (0x7F : Word).toNat = 2 ^ 7 - 1 := rfl
  rw [low, Nat.and_two_pow_sub_one_eq_mod]
  omega

theorem sourceBits : ∀ s ∈ intrSources, s.thrhd.bits = 0x7F := by
  unfold intrSources
  simp only [List.forall_mem_cons]
  exact ⟨rfl,rfl,rfl,nofun⟩

theorem threshFits {conf : UartIntrConf} (bounded : Bounded conf) {s : IntrSource} (member : s ∈ intrSources) :
    Within ((s.thresh conf).setWidth 32) s.thrhd.bits := by
  rw [sourceBits s member]
  exact seven (bounded.thresholds s member)

theorem partsCases {part : Part} (among : part ∈ parts) :
    part = rxToutEn ∨ ∃ s ∈ intrSources, part = s.part := by
  simp only [parts,List.mem_cons,List.not_mem_nil,or_false] at among
  rcases among with rfl | rfl | rfl | rfl
  · exact Or.inr ⟨rxTimeOut,by simp [intrSources],rfl⟩
  · exact Or.inl rfl
  · exact Or.inr ⟨rxFifoFull,by simp [intrSources],rfl⟩
  · exact Or.inr ⟨txFifoEmpty,by simp [intrSources],rfl⟩

theorem askedFits {conf : UartIntrConf} (bounded : Bounded conf) :
    ∀ a ∈ askedFields conf, Within a.2 a.1.bits := by
  intro a member
  obtain ⟨part,among,rfl⟩ := List.mem_map.mp member
  rcases partsCases among with rfl | ⟨s,known,rfl⟩
  · unfold rxToutEn
    dsimp only
    split
    · exact withinRefl 1
    · exact withinZero 1
  · unfold IntrSource.part
    dsimp only
    split
    · exact threshFits bounded known
    · exact withinZero s.thrhd.bits

theorem partsApart : parts.Pairwise fun a b => a.field.mask &&& b.field.mask = 0#32 := by
  decide

/- Each part reads back as it is asked. -/
theorem askedGet {conf : UartIntrConf} (bounded : Bounded conf) {part : Part} (among : part ∈ parts) :
    part.field.get (conf1Asked conf) = part.asked conf := by
  have apart : (askedFields conf).Pairwise fun a b => a.1.mask &&& b.1.mask = 0#32 := by
    unfold askedFields
    rw [List.pairwise_map]
    exact partsApart
  exact Field.getOwn (askedFits bounded) apart (List.mem_map_of_mem among)

theorem askedWithin {conf : UartIntrConf} (bounded : Bounded conf) (x : Word) :
    Within (conf1Asked conf) x ↔ ∀ part ∈ parts, Within (part.asked conf) (part.field.get x) := by
  rw [conf1Asked, Field.addedWithin (askedFits bounded), askedFields, List.forall_mem_map]

theorem flowApart : ∀ part ∈ parts, part.field.get flowBits = 0#32 ∧ part.field.get (~~~flowBits) = part.field.bits := by
  decide

theorem askedFlow {conf : UartIntrConf} (bounded : Bounded conf) : Within (conf1Asked conf) (~~~flowBits) := by
  rw [askedWithin bounded]
  intro part among
  rw [(flowApart part among).2]
  exact askedFits bounded _ (List.mem_map_of_mem among)

theorem registersApart (n : UartPort) :
    uartConf1 n ≠ uartIntClr n ∧ uartConf1 n ≠ uartIntEna n ∧ uartIntEna n ≠ uartIntClr n := by
  cases n <;> decide

theorem regValAsked {conf : UartIntrConf} (bounded : Bounded conf) (x : Word) :
    (((x ||| if conf.enables uartRxfifoToutIntEna then
      ((conf.uartRxTimeOutIntrThresh.setWidth 32 &&& uartRxToutThrhd.bits) <<< uartRxToutThrhd.shift) ||| uartRxToutEn
      else 0) ||| if conf.enables uartRxfifoFullIntEna then
      (conf.uartRxFifoFullIntrThresh.setWidth 32 &&& uartRxfifoFullThrhd.bits) <<< uartRxfifoFullThrhd.shift else 0) |||
      if conf.enables uartTxfifoEmptyIntEna then
      (conf.uartTxFifoEmptyIntrThresh.setWidth 32 &&& uartTxfifoEmptyThrhd.bits) <<< uartTxfifoEmptyThrhd.shift else 0) =
      x ||| conf1Asked conf := by
  have tout : _ &&& _ = _ := threshFits bounded (s := rxTimeOut) (by simp [intrSources])
  have full : _ &&& _ = _ := threshFits bounded (s := rxFifoFull) (by simp [intrSources])
  have empty : _ &&& _ = _ := threshFits bounded (s := txFifoEmpty) (by simp [intrSources])
  have shifted : ∀ (e : Bool) (v : Word) (n : Nat), (if e then v else 0) <<< n = if e then v <<< n else 0 := by
    intro e v n
    cases e <;> simp
  have both : ∀ (e : Bool) (v v' : Word),
      (if e then v ||| v' else 0) = (if e then v else 0) ||| (if e then v' else 0) := by
    intro e v v'
    cases e <;> simp
  simp only [rxTimeOut,rxFifoFull,txFifoEmpty] at tout full empty
  rw [tout, full, empty]
  simp only [conf1Asked,askedFields,parts,List.map_cons,List.map_nil,Field.added,IntrSource.part,rxToutEn,
    shifted,both,BitVec.or_zero,BitVec.or_assoc]
  rfl

theorem intrConfigEq {conf : UartIntrConf} (bounded : Bounded conf) (n : UartPort) (p : Peripherals) :
    uartIntrConfig n conf p =
      writePeriReg (uartIntEna n) ((readPeriReg (uartIntEna n) p &&& ~~~uartIntrMask) ||| conf.uartIntrEnMask)
        (writePeriReg (uartConf1 n) ((readPeriReg (uartConf1 n) p &&& ~~~flowBits) ||| conf1Asked conf)
          (writePeriReg (uartIntClr n) uartIntrMask p)) := by
  obtain ⟨conf1Clr,conf1Ena,enaClr⟩ := registersApart n
  unfold uartIntrConfig uartClearIntrStatus clearPeriRegMask setPeriRegMask
  dsimp only
  rw [regValAsked bounded, readOther conf1Clr, readSame, writeTwice, readOther conf1Ena.symm, readOther enaClr]
  rfl

theorem conf1After {conf : UartIntrConf} (bounded : Bounded conf) (n : UartPort) (p : Peripherals) :
    readPeriReg (uartConf1 n) (uartIntrConfig n conf p) =
      (readPeriReg (uartConf1 n) p &&& ~~~flowBits) ||| conf1Asked conf := by
  rw [intrConfigEq bounded, readOther (registersApart n).2.1, readSame]

theorem intEnaAfter {conf : UartIntrConf} (bounded : Bounded conf) (n : UartPort) (p : Peripherals) :
    readPeriReg (uartIntEna n) (uartIntrConfig n conf p) =
      (readPeriReg (uartIntEna n) p &&& ~~~uartIntrMask) ||| conf.uartIntrEnMask := by
  rw [intrConfigEq bounded, readSame]

theorem partAfter {conf : UartIntrConf} (bounded : Bounded conf) {part : Part} (among : part ∈ parts) (x : Word) :
    part.field.get ((x &&& ~~~flowBits) ||| conf1Asked conf) = part.field.get x ||| part.asked conf := by
  rw [Field.getOr, Field.getClear _ (flowApart part among).1, askedGet bounded among]

theorem partMember {s : IntrSource} (member : s ∈ intrSources) : s.part ∈ parts := by
  simp only [intrSources,List.mem_cons,List.not_mem_nil,or_false] at member
  rcases member with rfl | rfl | rfl
  · exact List.mem_cons_self ..
  · exact List.mem_cons_of_mem _ (List.mem_cons_of_mem _ (List.mem_cons_self ..))
  · exact List.mem_cons_of_mem _ (List.mem_cons_of_mem _ (List.mem_cons_of_mem _ (List.mem_cons_self ..)))

/- The threshold of an enabled source is the one asked for where only bits of it were there. -/
theorem threshAfter {conf : UartIntrConf} (bounded : Bounded conf) {s : IntrSource} (member : s ∈ intrSources)
    (enabled : conf.enables s.ena) (n : UartPort) (p : Peripherals) :
    s.thrhd.get (readPeriReg (uartConf1 n) (uartIntrConfig n conf p)) = (s.thresh conf).setWidth 32 ↔
      Within (s.thrhd.get (readPeriReg (uartConf1 n) p)) ((s.thresh conf).setWidth 32) := by
  have after := partAfter bounded (partMember member) (readPeriReg (uartConf1 n) p)
  simp only [IntrSource.part,if_pos enabled] at after
  rw [conf1After bounded, after, orWithin]

theorem flowAfter {conf : UartIntrConf} (bounded : Bounded conf) (n : UartPort) (p : Peripherals) :
    readPeriReg (uartConf1 n) (uartIntrConfig n conf p) &&& flowBits = 0 := by
  rw [conf1After bounded, clearedAway]
  exact withinNot (askedFlow bounded)

theorem twiceAfter {first last : UartIntrConf} (fits : Bounded first) (fits' : Bounded last) (n : UartPort)
    (p : Peripherals) : uartIntrConfig n last (uartIntrConfig n first p) = uartIntrConfig n last p ↔
      (∀ part ∈ parts, Within (part.asked first) (part.field.get (readPeriReg (uartConf1 n) p) ||| part.asked last)) ∧
      Within (first.uartIntrEnMask &&& ~~~uartIntrMask) (readPeriReg (uartIntEna n) p ||| last.uartIntrEnMask) := by
  have conf1 : ((((readPeriReg (uartConf1 n) p &&& ~~~flowBits) ||| conf1Asked first) &&& ~~~flowBits) |||
      conf1Asked last = (readPeriReg (uartConf1 n) p &&& ~~~flowBits) ||| conf1Asked last) ↔
      ∀ part ∈ parts, Within (part.asked first) (part.field.get (readPeriReg (uartConf1 n) p) ||| part.asked last) := by
    rw [againWithin, askedFlow fits, askedWithin fits]
    refine forall_congr' fun part => forall_congr' fun among => ?_
    rw [Field.getOr, askedGet fits' among]
  rw [← conf1, ← againWithin]
  constructor
  · intro same
    have one := congrArg (readPeriReg (uartConf1 n)) same
    have two := congrArg (readPeriReg (uartIntEna n)) same
    rw [conf1After fits', conf1After fits, conf1After fits'] at one
    rw [intEnaAfter fits', intEnaAfter fits, intEnaAfter fits'] at two
    exact ⟨one,two⟩
  · rintro ⟨one,two⟩
    obtain ⟨conf1Clr,conf1Ena,enaClr⟩ := registersApart n
    rw [intrConfigEq fits' n (uartIntrConfig n first p), conf1After fits, intEnaAfter fits, one, two,
      intrConfigEq fits' n p, intrConfigEq fits n p]
    -- what the first call wrote is written again in each of the three registers
    rw [writeComm enaClr.symm, writeComm conf1Clr.symm, writeTwice, writeComm conf1Ena, writeTwice, writeTwice]

theorem composesCovered {first last : UartIntrConf} (fits : Bounded first) (fits' : Bounded last) (n : UartPort)
    (p : Peripherals) : Composes n first last p ↔ readPeriReg (uartConf1 n) p &&& flowBits = 0 ∧
      Covered (readPeriReg (uartConf1 n) p) (readPeriReg (uartIntEna n) p) first last := by
  constructor
  · rintro ⟨thresholds,flow,twice⟩
    obtain ⟨earlier,enabled⟩ := (twiceAfter fits fits' n p).mp twice
    rw [flowAfter fits'] at flow
    exact ⟨flow.symm,fun s member on => (threshAfter fits' member on n p).mp (thresholds s member on),earlier,enabled⟩
  · rintro ⟨flow,thresholds,earlier,enabled⟩
    refine ⟨fun s member on => (threshAfter fits' member on n p).mpr (thresholds s member on),?_,
      (twiceAfter fits fits' n p).mpr ⟨earlier,enabled⟩⟩
    rw [flowAfter fits', flow]

/-! UART_SetFlowCtrl and UART_ParamConfig -/

/- Registers of which nothing is in CONF1 and INT_ENA of the port. -/
def Aside (n : UartPort) (reg : Word) : Prop := uartConf1 n ≠ reg ∧ uartIntEna n ≠ reg

-- the two registers are as they were
structure Keeps (n : UartPort) (p q : Peripherals) : Prop where
  conf1 : readPeriReg (uartConf1 n) q = readPeriReg (uartConf1 n) p
  intEna : readPeriReg (uartIntEna n) q = readPeriReg (uartIntEna n) p

theorem Keeps.trans {n : UartPort} {p q r : Peripherals} (h : Keeps n p q) (k : Keeps n q r) : Keeps n p r :=
  ⟨k.conf1.trans h.conf1,k.intEna.trans h.intEna⟩

theorem writeKeeps {n : UartPort} {reg : Word} (aside : Aside n reg) (value : Word) (p : Peripherals) :
    Keeps n p (writePeriReg reg value p) :=
  ⟨readOther aside.1 value p,readOther aside.2 value p⟩

theorem pinKeeps {n : UartPort} {pin : Word} (aside : Aside n pin) (func : Word) (p : Peripherals) :
    Keeps n p (pinFuncSelect pin func p) :=
  (writeKeeps aside _ _).trans (writeKeeps aside _ _)

theorem conf0Aside (n : UartPort) : Aside n (uartConf0 n) := by
  cases n <;> exact ⟨by decide,by decide⟩

/- CONF1 after UART_SetFlowCtrl -/
def flowCtrlConf1 (flowCtrl : UartHwFlowCtrl) (rxThresh : BitVec 8) (conf1 : Word) : Word :=
  if flowCtrl.asks .rts then uartRxFlowThrhd.put conf1 (rxThresh.setWidth 32) ||| uartRxFlowEn
  else conf1 &&& ~~~uartRxFlowEn

theorem flowCtrlReads (n : UartPort) (flowCtrl : UartHwFlowCtrl) (rxThresh : BitVec 8) (p : Peripherals) :
    readPeriReg (uartConf1 n) (uartSetFlowCtrl n flowCtrl rxThresh p) =
      flowCtrlConf1 flowCtrl rxThresh (readPeriReg (uartConf1 n) p) ∧
    readPeriReg (uartIntEna n) (uartSetFlowCtrl n flowCtrl rxThresh p) = readPeriReg (uartIntEna n) p := by
  have pins : Aside n periphsIoMuxMtckU ∧ Aside n periphsIoMuxMtdoU := by
    cases n <;> exact ⟨⟨by decide,by decide⟩,⟨by decide,by decide⟩⟩
  have cts : ∀ q, Keeps n q (if flowCtrl.asks .cts then
      setPeriRegMask (uartConf0 n) uartTxFlowEn (pinFuncSelect periphsIoMuxMtckU funcUart0Cts q)
      else clearPeriRegMask (uartConf0 n) uartTxFlowEn q) := by
    intro q
    split
    · exact (pinKeeps pins.1 funcUart0Cts q).trans (writeKeeps (conf0Aside n) _ _)
    · exact writeKeeps (conf0Aside n) _ _
  have pin := pinKeeps pins.2 funcU0rts p
  have other := (registersApart n).2.1.symm
  unfold uartSetFlowCtrl flowCtrlConf1
  dsimp only
  rw [(cts _).conf1, (cts _).intEna]
  split
  · unfold setPeriRegMask setPeriRegBits
    rw [readSame, readSame, readOther other, readOther other, pin.conf1, pin.intEna]
    exact ⟨rfl,rfl⟩
  · unfold clearPeriRegMask
    rw [readSame, readOther other]
    exact ⟨rfl,rfl⟩

theorem paramConfigReads (rom : Rom) (n : UartPort) (config : UartConfig) (p : Peripherals) :
    readPeriReg (uartConf1 n) (uartParamConfig rom n config p) =
      flowCtrlConf1 config.flowCtrl config.uartRxFlowThresh (readPeriReg (uartConf1 n) p) ∧
    readPeriReg (uartIntEna n) (uartParamConfig rom n config p) = readPeriReg (uartIntEna n) p := by
  have pins : Keeps n p (uartPins n p) := by
    cases n with
    | uart1 => exact pinKeeps ⟨by decide,by decide⟩ funcU1txdBk p
    | uart0 =>
      have txd : Aside .uart0 periphsIoMuxU0txdU := ⟨by decide,by decide⟩
      have rxd : Aside .uart0 periphsIoMuxU0rxdU := ⟨by decide,by decide⟩
      exact ((writeKeeps txd _ p).trans (pinKeeps rxd funcU0rxd _)).trans (pinKeeps txd funcU0txd _)
  have baud : ∀ q, Keeps n q (uartSetBaudrate rom n config.baudRate q) := by
    intro q
    have clkdiv : Aside n (uartClkdiv n) := by
      cases n <;> exact ⟨by decide,by decide⟩
    exact ⟨rom.elsewhere _ _ _ _ clkdiv.1 (conf0Aside n).1,rom.elsewhere _ _ _ _ clkdiv.2 (conf0Aside n).2⟩
  have last : ∀ value q, Keeps n q (uartResetFifo n (writePeriReg (uartConf0 n) value q)) := by
    intro value q
    exact ((writeKeeps (conf0Aside n) value q).trans (writeKeeps (conf0Aside n) _ _)).trans
      (writeKeeps (conf0Aside n) _ _)
  unfold uartParamConfig
  dsimp only
  rw [(last _ _).conf1, (last _ _).intEna, (baud _).conf1, (baud _).intEna, (flowCtrlReads n _ _ _).1,
    (flowCtrlReads n _ _ _).2, pins.conf1, pins.intEna]
  exact ⟨rfl,rfl⟩

theorem coveredParts {conf1 conf1' : Word} (same : ∀ part ∈ parts, part.field.get conf1' = part.field.get conf1)
    {intEna : Word} {first last : UartIntrConf} (covered : Covered conf1 intEna first last) :
    Covered conf1' intEna first last := by
  refine ⟨fun s member on => ?_,fun part among => ?_,covered.enabled⟩
  · have kept : s.thrhd.get conf1' = s.thrhd.get conf1 := same s.part (partMember member)
    rw [kept]
    exact covered.thresholds s member on
  · rw [same part among]
    exact covered.earlier part among

/- After UART_SetFlowCtrl nothing of the flow control is in CONF1 only where it is not asked for and
no threshold is there from before. -/
theorem flowCtrlCovered (flowCtrl : UartHwFlowCtrl) (rxThresh : BitVec 8) (conf1 intEna : Word)
    (first last : UartIntrConf) :
    (flowCtrlConf1 flowCtrl rxThresh conf1 &&& flowBits = 0 ∧
      Covered (flowCtrlConf1 flowCtrl rxThresh conf1) intEna first last) ↔
    flowCtrl.asks .rts = false ∧ conf1 &&& uartRxFlowThrhd.mask = 0 ∧ Covered conf1 intEna first last := by
  unfold flowCtrlConf1
  cases rts : flowCtrl.asks .rts with
  | true =>
    have set : ¬ uartRxFlowEn &&& flowBits = 0 := by decide
    rw [if_pos rfl, BitVec.and_or_distrib_right]
    constructor
    · rintro ⟨clear,_⟩
      exact absurd (BitVec.or_eq_zero_iff.mp clear).2 set
    · rintro ⟨off,_⟩
      cases off
  | false =>
    have apart : ∀ part ∈ parts, part.field.get uartRxFlowEn = 0#32 := by decide
    have same : ∀ part ∈ parts, part.field.get (conf1 &&& ~~~uartRxFlowEn) = part.field.get conf1 :=
      fun part among => Field.getClear _ (apart part among) conf1
    have rest : ~~~uartRxFlowEn &&& flowBits = uartRxFlowThrhd.mask := by decide
    rw [if_neg Bool.false_ne_true, BitVec.and_assoc, rest]
    constructor
    · rintro ⟨clear,covered⟩
      exact ⟨rfl,clear,coveredParts (fun part among => (same part among).symm) covered⟩
    · rintro ⟨_,clear,covered⟩
      exact ⟨clear,coveredParts same covered⟩

/- From any state of the registers, also where UART_SetFlowCtrl or UART_ParamConfig left it, the
calls compose exactly where CONF1 holds nothing of the flow control and no other bits than are
asked for. -/
theorem intrConfigComposes (rom : Rom) (n : UartPort) (config : UartConfig) {first last : UartIntrConf}
    (fits : Bounded first) (fits' : Bounded last) (p : Peripherals) :
    let conf1 := readPeriReg (uartConf1 n) p
    let covered := Covered conf1 (readPeriReg (uartIntEna n) p) first last
    let off := config.flowCtrl.asks .rts = false ∧ conf1 &&& uartRxFlowThrhd.mask = 0
    (Composes n first last p ↔ conf1 &&& flowBits = 0 ∧ covered) ∧
    (Composes n first last (uartSetFlowCtrl n config.flowCtrl config.uartRxFlowThresh p) ↔ off ∧ covered) ∧
    (Composes n first last (uartParamConfig rom n config p) ↔ off ∧ covered) := by
  dsimp only
  obtain ⟨flowConf1,flowEna⟩ := flowCtrlReads n config.flowCtrl config.uartRxFlowThresh p
  obtain ⟨paramConf1,paramEna⟩ := paramConfigReads rom n config p
  refine ⟨composesCovered fits fits' n p,?_,?_⟩
  · rw [composesCovered fits fits', flowConf1, flowEna, flowCtrlCovered, and_assoc]
  · rw [composesCovered fits fits', paramConf1, paramEna, flowCtrlCovered, and_assoc]

/- What the ROM does to the registers. -/
def romDivModify : Rom where
  uartDivModify uartNo divisor p := uartResetFifo uartNo (writePeriReg (uartClkdiv uartNo) divisor p)
  elsewhere uartNo divisor p reg clkdiv conf0 := by
    have fifo := readOther conf0
    have divided := readOther clkdiv divisor p
    unfold uartResetFifo setPeriRegMask clearPeriRegMask
    exact ((fifo _ _).trans (fifo _ _)).trans divided

theorem initBounded : Bounded uartInitIntr := ⟨by decide⟩

theorem initComposes :
    Composes .uart0 uartInitIntr uartInitIntr (uartParamConfig romDivModify .uart0 uartInitConfig fun _ => 0) :=
  (intrConfigComposes romDivModify .uart0 uartInitConfig initBounded initBounded fun _ => 0).2.2.mpr
    ⟨by decide,⟨by decide,by decide,by decide⟩⟩

-- UART_RX_TimeOutIntrThresh is 5, then 2, and RTS is asked for in between
def rtsConfig : UartConfig := { uartInitConfig with flowCtrl := .rts }
def slowIntr : UartIntrConf := { uartInitIntr with uartRxTimeOutIntrThresh := 5 }

/- The threshold holds the bits of both, the flow control is gone, and the earlier call is still
to be seen after the last. -/
theorem earlierThresholdStays :
    let p := uartParamConfig romDivModify .uart0 rtsConfig (uartIntrConfig .uart0 slowIntr fun _ => 0)
    let last := uartIntrConfig .uart0 uartInitIntr p
    Bounded slowIntr ∧ Bounded uartInitIntr ∧ ¬ Composes .uart0 slowIntr uartInitIntr p ∧
      uartRxToutThrhd.get (readPeriReg (uartConf1 .uart0) last) = 7 ∧
      readPeriReg (uartConf1 .uart0) p &&& flowBits = 0x00F80000 ∧
      readPeriReg (uartConf1 .uart0) last &&& flowBits = 0 ∧
      uartIntrConfig .uart0 uartInitIntr (uartIntrConfig .uart0 slowIntr fun _ => 0) ≠
        uartIntrConfig .uart0 uartInitIntr fun _ => 0 := by
  refine ⟨⟨by decide⟩,initBounded,fun composes => ?_,by decide,by decide,by decide,fun same => ?_⟩
  · exact absurd composes.flow (by decide)
  · exact absurd (congrFun same (uartConf1 .uart0)) (by decide)

end YunbaIot.UartConf1
