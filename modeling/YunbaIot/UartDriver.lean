import Mathlib.Logic.Function.Basic
import YunbaIot.BitField

/-! driver/uart.c over the registers of the chip. A register holds what was written last, which is
so of those that are read back here. -/
namespace YunbaIot.UartDriver
open BitField

abbrev Word := BitVec 32

abbrev Peripherals := Word → Word

def readPeriReg (reg : Word) (p : Peripherals) : Word := p reg
def writePeriReg (reg value : Word) (p : Peripherals) : Peripherals := Function.update p reg value
def clearPeriRegMask (reg mask : Word) (p : Peripherals) : Peripherals :=
  writePeriReg reg (readPeriReg reg p &&& ~~~mask) p
def setPeriRegMask (reg mask : Word) (p : Peripherals) : Peripherals :=
  writePeriReg reg (readPeriReg reg p ||| mask) p
def setPeriRegBits (reg : Word) (f : Field 32) (value : Word) (p : Peripherals) : Peripherals :=
  writePeriReg reg (f.put (readPeriReg reg p) value) p

@[simp] theorem readSame (reg value : Word) (p : Peripherals) :
    readPeriReg reg (writePeriReg reg value p) = value := by
  unfold readPeriReg writePeriReg
  rw [Function.update_self]

theorem readOther {reg reg' : Word} (apart : reg ≠ reg') (value : Word) (p : Peripherals) :
    readPeriReg reg (writePeriReg reg' value p) = readPeriReg reg p := by
  unfold readPeriReg writePeriReg
  rw [Function.update_of_ne apart]

@[simp] theorem writeTwice (reg value value' : Word) (p : Peripherals) :
    writePeriReg reg value (writePeriReg reg value' p) = writePeriReg reg value p := by
  unfold writePeriReg
  rw [Function.update_idem]

theorem writeComm {reg reg' : Word} (apart : reg ≠ reg') (value value' : Word) (p : Peripherals) :
    writePeriReg reg value (writePeriReg reg' value' p) = writePeriReg reg' value' (writePeriReg reg value p) := by
  unfold writePeriReg
  rw [Function.update_comm apart]

/-! pin_mux_register.h -/

def periphsIoMux : Word := 0x60000800
def periphsIoMuxMtckU : Word := periphsIoMux + 0x08
def periphsIoMuxMtdoU : Word := periphsIoMux + 0x10
def periphsIoMuxU0rxdU : Word := periphsIoMux + 0x14
def periphsIoMuxU0txdU : Word := periphsIoMux + 0x18
def periphsIoMuxGpio2U : Word := periphsIoMux + 0x38
def funcUart0Cts : Word := 4
def funcU0rts : Word := 4
def funcU0rxd : Word := 0
def funcU0txd : Word := 0
def funcU1txdBk : Word := 2

def pinPullupDis (pin : Word) (p : Peripherals) : Peripherals := clearPeriRegMask pin 0x80 p
def pinFuncSelect (pin func : Word) (p : Peripherals) : Peripherals :=
  let p := clearPeriRegMask pin (0x13 <<< 4) p
  setPeriRegMask pin ((((func &&& 4) <<< 2) ||| (func &&& 3)) <<< 4) p

/-! uart_register.h -/

inductive UartPort where
  | uart0
  | uart1
  deriving DecidableEq, Repr

def UartPort.number : UartPort → Word
  | .uart0 => 0
  | .uart1 => 1

def regUartBase (i : UartPort) : Word := 0x60000000 + i.number * 0xf00
def uartIntEna (i : UartPort) : Word := regUartBase i + 0xC
def uartIntClr (i : UartPort) : Word := regUartBase i + 0x10
def uartClkdiv (i : UartPort) : Word := regUartBase i + 0x14
def uartConf0 (i : UartPort) : Word := regUartBase i + 0x20
def uartConf1 (i : UartPort) : Word := regUartBase i + 0x24

def uartRxfifoToutIntEna : Word := 1 <<< 8
def uartFrmErrIntEna : Word := 1 <<< 3
def uartTxfifoEmptyIntEna : Word := 1 <<< 1
def uartRxfifoFullIntEna : Word := 1 <<< 0
def uartIntrMask : Word := 0x1ff

def uartTxfifoRst : Word := 1 <<< 18
def uartRxfifoRst : Word := 1 <<< 17
def uartTxFlowEn : Word := 1 <<< 15
def uartParityEn : Word := 1 <<< 1
def uartStopBitNumS : Nat := 4
def uartBitNumS : Nat := 2

def uartRxToutEn : Word := 1 <<< 31
def uartRxToutThrhd : Field 32 := ⟨0x7F,24,by decide⟩
def uartRxFlowEn : Word := 1 <<< 23
def uartRxFlowThrhd : Field 32 := ⟨0x7F,16,by decide⟩
def uartTxfifoEmptyThrhd : Field 32 := ⟨0x7F,8,by decide⟩
def uartRxfifoFullThrhd : Field 32 := ⟨0x7F,0,by decide⟩

/-! uart.h -/

inductive UartWordLength where
  | bits5
  | bits6
  | bits7
  | bits8
  deriving DecidableEq, Repr

def UartWordLength.value : UartWordLength → Word
  | .bits5 => 0
  | .bits6 => 1
  | .bits7 => 2
  | .bits8 => 3

inductive UartStopBits where
  | one
  | oneAndHalf
  | two
  deriving DecidableEq, Repr

def UartStopBits.value : UartStopBits → Word
  | .one => 1
  | .oneAndHalf => 2
  | .two => 3

inductive UartParityMode where
  | none
  | even
  | odd
  deriving DecidableEq, Repr

def UartParityMode.value : UartParityMode → Word
  | .none => 2
  | .even => 0
  | .odd => 1

inductive UartHwFlowCtrl where
  | none
  | rts
  | cts
  | ctsRts
  deriving DecidableEq, Repr

def UartHwFlowCtrl.value : UartHwFlowCtrl → Word
  | .none => 0
  | .rts => 1
  | .cts => 2
  | .ctsRts => 3

def UartHwFlowCtrl.asks (flowCtrl other : UartHwFlowCtrl) : Bool := flowCtrl.value &&& other.value ≠ 0

/- Any rate may be added to those that uart.h lists, but none is zero. -/
structure UartConfig where
  uartInverseMask : Word
  baudRate : Word
  dataBits : UartWordLength
  parity : UartParityMode
  stopBits : UartStopBits
  flowCtrl : UartHwFlowCtrl
  uartRxFlowThresh : BitVec 8
  divisor : baudRate ≠ 0

structure UartIntrConf where
  uartIntrEnMask : Word
  uartRxTimeOutIntrThresh : BitVec 8
  uartTxFifoEmptyIntrThresh : BitVec 8
  uartRxFifoFullIntrThresh : BitVec 8
  deriving DecidableEq, Repr

def UartIntrConf.enables (conf : UartIntrConf) (ena : Word) : Bool := conf.uartIntrEnMask &&& ena ≠ 0

/-! uart.c -/

/- uart_div_modify is in the ROM: it sets the divisor of the port and resets its queues, which is
done in CLKDIV and CONF0. -/
structure Rom where
  uartDivModify : UartPort → Word → Peripherals → Peripherals
  elsewhere : ∀ uartNo divisor p reg, reg ≠ uartClkdiv uartNo → reg ≠ uartConf0 uartNo →
    uartDivModify uartNo divisor p reg = p reg

def uartClkFreq : Word := 80 * 1000000

def uartSetBaudrate (rom : Rom) (uartNo : UartPort) (baudRate : Word) (p : Peripherals) : Peripherals :=
  rom.uartDivModify uartNo (uartClkFreq / baudRate) p

def uartSetFlowCtrl (uartNo : UartPort) (flowCtrl : UartHwFlowCtrl) (rxThresh : BitVec 8) (p : Peripherals) :
    Peripherals :=
  let p := if flowCtrl.asks .rts then
      let p := pinFuncSelect periphsIoMuxMtdoU funcU0rts p
      let p := setPeriRegBits (uartConf1 uartNo) uartRxFlowThrhd (rxThresh.setWidth 32) p
      setPeriRegMask (uartConf1 uartNo) uartRxFlowEn p
    else clearPeriRegMask (uartConf1 uartNo) uartRxFlowEn p
  if flowCtrl.asks .cts then
    let p := pinFuncSelect periphsIoMuxMtckU funcUart0Cts p
    setPeriRegMask (uartConf0 uartNo) uartTxFlowEn p
  else clearPeriRegMask (uartConf0 uartNo) uartTxFlowEn p

def uartResetFifo (uartNo : UartPort) (p : Peripherals) : Peripherals :=
  let p := setPeriRegMask (uartConf0 uartNo) (uartRxfifoRst ||| uartTxfifoRst) p
  clearPeriRegMask (uartConf0 uartNo) (uartRxfifoRst ||| uartTxfifoRst) p

def uartClearIntrStatus (uartNo : UartPort) (clrMask : Word) (p : Peripherals) : Peripherals :=
  writePeriReg (uartIntClr uartNo) clrMask p

/- The head of UART_ParamConfig. -/
def uartPins (uartNo : UartPort) (p : Peripherals) : Peripherals :=
  match uartNo with
  | .uart1 => pinFuncSelect periphsIoMuxGpio2U funcU1txdBk p
  | .uart0 =>
    let p := pinPullupDis periphsIoMuxU0txdU p
    let p := pinFuncSelect periphsIoMuxU0rxdU funcU0rxd p
    pinFuncSelect periphsIoMuxU0txdU funcU0txd p

def uartParamConfig (rom : Rom) (uartNo : UartPort) (config : UartConfig) (p : Peripherals) : Peripherals :=
  let p := uartPins uartNo p
  let p := uartSetFlowCtrl uartNo config.flowCtrl config.uartRxFlowThresh p
  let p := uartSetBaudrate rom uartNo config.baudRate p
  let p := writePeriReg (uartConf0 uartNo)
    ((if config.parity = .none then 0 else uartParityEn ||| config.parity.value) |||
      (config.stopBits.value <<< uartStopBitNumS) ||| (config.dataBits.value <<< uartBitNumS) |||
      (if config.flowCtrl.asks .cts then uartTxFlowEn else 0) ||| config.uartInverseMask) p
  uartResetFifo uartNo p

/- The mask clears the two fields of the flow control; the three that follow are added to what
CONF1 holds. -/
def uartIntrConfig (uartNo : UartPort) (conf : UartIntrConf) (p : Peripherals) : Peripherals :=
  let p := uartClearIntrStatus uartNo uartIntrMask p
  let regVal := readPeriReg (uartConf1 uartNo) p &&& ~~~(uartRxFlowThrhd.mask ||| uartRxFlowEn)
  let regVal := regVal ||| if conf.enables uartRxfifoToutIntEna then
    ((conf.uartRxTimeOutIntrThresh.setWidth 32 &&& uartRxToutThrhd.bits) <<< uartRxToutThrhd.shift) ||| uartRxToutEn
    else 0
  let regVal := regVal ||| if conf.enables uartRxfifoFullIntEna then
    (conf.uartRxFifoFullIntrThresh.setWidth 32 &&& uartRxfifoFullThrhd.bits) <<< uartRxfifoFullThrhd.shift else 0
  let regVal := regVal ||| if conf.enables uartTxfifoEmptyIntEna then
    (conf.uartTxFifoEmptyIntrThresh.setWidth 32 &&& uartTxfifoEmptyThrhd.bits) <<< uartTxfifoEmptyThrhd.shift else 0
  let p := writePeriReg (uartConf1 uartNo) regVal p
  let p := clearPeriRegMask (uartIntEna uartNo) uartIntrMask p
  setPeriRegMask (uartIntEna uartNo) conf.uartIntrEnMask p

/- What uart_init_new configures. -/
def uartInitConfig : UartConfig := ⟨0,74880,.bits8,.none,.one,.none,120,by decide⟩
def uartInitIntr : UartIntrConf :=
  ⟨uartRxfifoToutIntEna ||| uartFrmErrIntEna ||| uartRxfifoFullIntEna ||| uartTxfifoEmptyIntEna,2,20,10⟩

end YunbaIot.UartDriver
