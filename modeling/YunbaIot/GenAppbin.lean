import YunbaIot.Segments

/-! gen_appbin.py, the tool that puts the sections of a program together into the image that is
flashed: a header, a segment for each section, padding and a checksum, and the instruction rom
where the boot mode wants it. A write that fails ends the tool. -/
namespace YunbaIot.GenAppbin

def textAddress : Nat := 0x40100000
def checksumInit : UInt8 := 0xEF
def binMagicFlash : UInt8 := 0xE9
def binMagicIrom : UInt8 := 0xEA

-- any other boot mode is treated as 0
inductive BootMode where
  | zero
  | one
  | two
  deriving DecidableEq, Repr

structure Args where
  bootMode : BootMode
  flashMode : Nat
  flashClkDiv : Nat
  flashSizeMap : Nat

def Args.byte2 (args : Args) : UInt8 := UInt8.ofNat (args.flashMode &&& 0xff)
def Args.byte3 (args : Args) : UInt8 := UInt8.ofNat ((args.flashSizeMap <<< 4 ||| args.flashClkDiv) &&& 0xff)

/- What nm says of call_user_start, _data_start and _rodata_start. -/
structure Symbols where
  entryAddr : Nat
  dataStartAddr : Nat
  rodataStartAddr : Nat

structure Sections where
  irom0text : List UInt8
  text : List UInt8
  data : List UInt8
  rodata : List UInt8

/- The file that is written, and the variables of the module. -/
structure Tool where
  flash : List UInt8
  chkSum : UInt8
  blocks : Nat

def writeFile (data : List UInt8) (t : Tool) : Tool := { t with flash := t.flash ++ data }

/- for loop in range(len(data_bin)): chk_sum ^= ord(data_bin[loop]) -/
def xorBytes (chkSum : UInt8) (dataBin : List UInt8) : UInt8 := dataBin.foldl (fun c b => c ^^^ b) chkSum

-- struct.pack of an 'I' fails for a number of more than 32 bits
def packI (n : Nat) : Option (List UInt8) := if n < 2 ^ 32 then some (Segments.word n) else none

/- (n + 3) & ~3 and (n + 15) & ~15 -/
def alignUp (unit n : Nat) : Nat := (n + (unit - 1)) / unit * unit

/- A section and its padding, each byte of both in the checksum where one is needed. -/
def writeSection (dataBin : List UInt8) (tmpLen : Nat) (needChk : Bool) (t : Tool) : Tool :=
  let t := writeFile dataBin t
  let t := if needChk then { t with chkSum := xorBytes t.chkSum dataBin } else t
  let tmpLen := tmpLen - dataBin.length
  if tmpLen ≠ 0 then
    let dataBin := List.replicate tmpLen 0
    let t := writeFile dataBin t
    if needChk then { t with chkSum := xorBytes t.chkSum dataBin } else t
  else t

def combineBin (dataBin : List UInt8) (startOffsetAddr : Nat) (needChk : Bool) (t : Tool) : Option Tool :=
  let dataLen := dataBin.length
  if dataLen ≠ 0 then do
    let tmpLen := if needChk then alignUp 4 dataLen else alignUp 16 dataLen
    let addr ← packI startOffsetAddr
    let size ← packI tmpLen
    let t := writeSection dataBin tmpLen needChk (writeFile (addr ++ size) t)
    some { t with blocks := t.blocks + 1 }
  else some t

/- struct.pack('<BBBBI',...) -/
def packHeader (magic count byte2 byte3 : UInt8) (entryAddr : Nat) : Option (List UInt8) :=
  (packI entryAddr).map fun entry => [magic,count,byte2,byte3] ++ entry

/- The last byte of a line of 16 is the checksum. -/
def writeChecksum (t : Tool) : Tool :=
  let sumSize := t.flash.length + 1
  let sumSize := 16 - (0xf &&& sumSize)
  let t := if sumSize ≠ 0 then writeFile (List.replicate sumSize 0) t else t
  writeFile [t.chkSum] t

def crcBit (crc : UInt32) : UInt32 := if crc &&& 1 = 1 then crc >>> 1 ^^^ 0xEDB88320 else crc >>> 1

def crcByte (crc : UInt32) (b : UInt8) : UInt32 := (crcBit^[8]) (crc ^^^ b.toUInt32)

/- binascii.crc32, a number of 32 bits with its sign. -/
def crc32 (bytes : List UInt8) : Int :=
  ((bytes.foldl crcByte 0xFFFFFFFF ^^^ 0xFFFFFFFF).toNat : Int).bmod (2 ^ 32)

def crcTail (crc : Int) : List UInt8 :=
  let allBinCrc := if crc < 0 then crc.natAbs - 1 else crc.natAbs + 1
  [allBinCrc &&& 0xFF,(allBinCrc &&& 0xFF00) >>> 8,(allBinCrc &&& 0xFF0000) >>> 16,
    (allBinCrc &&& 0xFF000000) >>> 24].map UInt8.ofNat

/- The image up to and with the checksum. -/
def flashImage (byte2 byte3 : UInt8) (sym : Symbols) (sec : Sections) (t : Tool) : Option Tool := do
  let head ← packHeader binMagicFlash 3 byte2 byte3 sym.entryAddr
  let t ← combineBin sec.text textAddress true (writeFile head t)
  let t ← combineBin sec.data sym.dataStartAddr true t
  let t ← combineBin sec.rodata sym.rodataStartAddr true t
  some (writeChecksum t)

def genAppbin (args : Args) (sym : Symbols) (sec : Sections) : Option (List UInt8) := do
  let t : Tool := ⟨[],checksumInit,0⟩
  let t ← if args.bootMode = .two then do
      let head ← packHeader binMagicIrom 4 args.byte2 args.byte3 sym.entryAddr
      combineBin sec.irom0text 0 false (writeFile head t)
    else some t
  let t ← flashImage args.byte2 args.byte3 sym sec t
  let t := if args.bootMode = .one then
      writeFile sec.irom0text (writeFile (List.replicate (0x10000 - t.flash.length) 0xFF) t)
    else t
  let t := if args.bootMode = .one ∨ args.bootMode = .two then writeFile (crcTail (crc32 t.flash)) t else t
  some t.flash

end YunbaIot.GenAppbin
