import YunbaIot.Block
import YunbaIot.NorFlash

/-! esp_spiffs.c, between the file system and the flash: the access functions that widen what
is read or written to whole words of the chip, and the buffers of a mounted file system. -/
namespace YunbaIot.EspSpiffs
open Block

def flashUnitSize : UInt32 := 4
def spiffsOk : Int := 0
def spiffsErrNotConfigured : Int := -10024

/- fs.cfg.log_page_size. A file system is only mounted when twice as much could be allocated. -/
structure LogPage where
  size : UInt32
  bound : size.toNat + 8 < 4294967296

/- The flash driver: the chip, the results of its functions, and what a write that fails leaves. -/
structure SpiFlash where
  chip : List UInt8
  readRes : Int
  writeRes : Int
  partWritten : List UInt8
  deriving DecidableEq, Repr

-- a read that fails may have filled the buffer as well
def spiFlashRead (f : SpiFlash) (srcAddr : UInt32) (des : List UInt8) (size : UInt32) : Defined (Int × List UInt8) := do
  let des ← memcpy des 0 (NorFlash.window f.chip srcAddr.toNat size.toNat)
  pure (f.readRes,des)

def spiFlashWrite (f : SpiFlash) (desAddr : UInt32) (src : List UInt8) (size : UInt32) : Defined (Int × SpiFlash) := do
  let data ← bytesAt src 0 size.toNat
  pure (f.writeRes,{ f with chip := if f.writeRes = 0 then NorFlash.andAt f.chip desAddr.toNat data else f.partWritten })

def alignedAddr (addr : UInt32) : UInt32 := addr &&& -flashUnitSize
def alignedSize (size : UInt32) : UInt32 := ((size + (flashUnitSize - 1)) &&& -flashUnitSize) + flashUnitSize

/- `stack` is what lies where tmp_buf is put, `p` the buffer of the caller. -/
def espSpiffsReadwrite (page : LogPage) (stack : Nat → UInt8) (addr size : UInt32) (p : List UInt8) (write : Bool)
    (f : SpiFlash) : Defined (Int × List UInt8 × SpiFlash) :=
  if page.size < size then pure (spiffsErrNotConfigured,p,f)
  else do
    let tmpBuf := (List.range (page.size + flashUnitSize * 2).toNat).map stack
    let (res,tmpBuf) ← spiFlashRead f (alignedAddr addr) tmpBuf (alignedSize size)
    if res ≠ 0 then pure (res,p,f)
    else if !write then do
      let bytes ← bytesAt tmpBuf (addr - alignedAddr addr).toNat size.toNat
      let p ← memcpy p 0 bytes
      pure (spiffsOk,p,f)
    else do
      let bytes ← bytesAt p 0 size.toNat
      let tmpBuf ← memcpy tmpBuf (addr - alignedAddr addr).toNat bytes
      let (res,f) ← spiFlashWrite f (alignedAddr addr) tmpBuf (alignedSize size)
      if res ≠ 0 then pure (res,p,f) else pure (spiffsOk,p,f)

def espSpiffsRead (page : LogPage) (stack : Nat → UInt8) (addr size : UInt32) (dst : List UInt8) (f : SpiFlash) :
    Defined (Int × List UInt8 × SpiFlash) := espSpiffsReadwrite page stack addr size dst false f

def espSpiffsWrite (page : LogPage) (stack : Nat → UInt8) (addr size : UInt32) (src : List UInt8) (f : SpiFlash) :
    Defined (Int × List UInt8 × SpiFlash) := espSpiffsReadwrite page stack addr size src true f

/-! The buffers -/

/- The three static pointers, NULL or a block by its number, the blocks of the heap that are
theirs, and whether a block was released that was not allocated. -/
structure Mount where
  workBuf : Option Nat
  fdBuf : Option Nat
  cacheBuf : Option Nat
  allocated : List Nat
  next : Nat
  releasedTwice : Bool
  mounted : Bool
  deriving DecidableEq, Repr

def malloc (room : Bool) (m : Mount) : Option Nat × Mount :=
  if room then (some m.next,{ m with allocated := m.next :: m.allocated, next := m.next + 1 }) else (none,m)

def free (p : Option Nat) (m : Mount) : Mount :=
  match p with
  | none => m
  | some block =>
    if block ∈ m.allocated then { m with allocated := m.allocated.erase block } else { m with releasedTwice := true }

/- What the allocations and SPIFFS_mount come to; it returns 0 or -1. -/
structure Outcome where
  work : Bool
  fd : Bool
  cache : Bool
  mount : Bool
  deriving DecidableEq, Repr

def renewWork (room : Bool) (m : Mount) : Mount :=
  let m := if m.workBuf ≠ none then { free m.workBuf m with workBuf := none } else m
  let (block,m) := malloc room m
  { m with workBuf := block }

def renewFd (room : Bool) (m : Mount) : Mount :=
  let m := if m.fdBuf ≠ none then { free m.fdBuf m with fdBuf := none } else m
  let (block,m) := malloc room m
  { m with fdBuf := block }

def renewCache (room : Bool) (m : Mount) : Mount :=
  let m := if m.cacheBuf ≠ none then { free m.cacheBuf m with cacheBuf := none } else m
  let (block,m) := malloc room m
  { m with cacheBuf := block }

def spiffsMount (succeeds : Bool) (m : Mount) : Int × Mount := (if succeeds then 0 else -1,{ m with mounted := succeeds })

def espSpiffsInit (o : Outcome) (m : Mount) : Int × Mount :=
  if m.mounted then (-1, m)
  else
    let m := renewWork o.work m
    if m.workBuf = none then (-1, m)
    else
      let m := renewFd o.fd m
      if m.fdBuf = none then (-1, free m.workBuf m)
      else
        let m := renewCache o.cache m
        if m.cacheBuf = none then (-1, free m.fdBuf (free m.workBuf m))
        else
          let (ret,m) := spiffsMount o.mount m
          if ret = -1 then (ret, free m.cacheBuf (free m.fdBuf (free m.workBuf m))) else (ret, m)

/- SPIFFS_format uses none of the buffers' pointers here. -/
def espSpiffsDeinit (m : Mount) : Mount :=
  if m.mounted then
    let m := { m with mounted := false }
    free m.cacheBuf (free m.fdBuf (free m.workBuf m))
  else m

end YunbaIot.EspSpiffs
