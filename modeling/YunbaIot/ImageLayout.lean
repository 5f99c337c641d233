import YunbaIot.GenAppbin
import Mathlib.Data.List.Forall2

/-! The layout of the image gen_appbin.py writes: which segments are in it, where they are read
again, and where the instruction rom begins. -/
namespace YunbaIot.ImageLayout
open GenAppbin Segments

/-! Sections and their segments -/

structure Part where
  start : Nat
  bytes : List UInt8

def parts (sym : Symbols) (sec : Sections) : List Part :=
  [⟨textAddress,sec.text⟩,⟨sym.dataStartAddr,sec.data⟩,⟨sym.rodataStartAddr,sec.rodata⟩]

def iromPart (sec : Sections) : Part := ⟨0,sec.irom0text⟩

/- An empty section has nothing to load. -/
def present (ps : List Part) : List Part := ps.filter fun p => p.bytes ≠ []

def unitOf (needChk : Bool) : Nat := if needChk then 4 else 16

def segmentOf (unit : Nat) (p : Part) : Segment :=
  ⟨p.start,p.bytes ++ List.replicate (alignUp unit p.bytes.length - p.bytes.length) 0⟩

def written (unit : Nat) (p : Part) : List Segment := if p.bytes = [] then [] else [segmentOf unit p]

/- What struct.pack takes for the words of the segment. -/
def Loadable (unit : Nat) (p : Part) : Prop :=
  p.bytes = [] ∨ p.start < 2 ^ 32 ∧ alignUp unit p.bytes.length < 2 ^ 32

instance (unit : Nat) (p : Part) : Decidable (Loadable unit p) := by unfold Loadable; infer_instance

theorem alignUpAbove {unit : Nat} (some : 0 < unit) (n : Nat) : n ≤ alignUp unit n := by
  have division := Nat.div_add_mod (n + (unit - 1)) unit
  have rest := Nat.mod_lt (n + (unit - 1)) some
  rw [alignUp, Nat.mul_comm]
  omega

theorem unitPositive (needChk : Bool) : 0 < unitOf needChk := by cases needChk <;> decide

theorem segmentLength {unit : Nat} (some : 0 < unit) (p : Part) :
    (segmentOf unit p).data.length = alignUp unit p.bytes.length := by
  have above := alignUpAbove some p.bytes.length
  simp [segmentOf]
  omega

theorem xorAppend (c : UInt8) (as bs : List UInt8) : xorBytes c (as ++ bs) = xorBytes (xorBytes c as) bs :=
  List.foldl_append

theorem sectionWritten (dataBin : List UInt8) (tmpLen : Nat) (needChk : Bool) (t : Tool) :
    writeSection dataBin tmpLen needChk t =
      ⟨t.flash ++ (dataBin ++ List.replicate (tmpLen - dataBin.length) 0),
        if needChk then xorBytes t.chkSum (dataBin ++ List.replicate (tmpLen - dataBin.length) 0) else t.chkSum,
        t.blocks⟩ := by
  unfold writeSection
  dsimp only
  by_cases none : tmpLen - dataBin.length = 0
  · cases needChk <;> simp [none,writeFile]
  · cases needChk <;> simp [none,writeFile,xorAppend]

theorem packed {n : Nat} (small : n < 2 ^ 32) : packI n = some (word n) := if_pos small

theorem unpacked {n : Nat} (large : ¬ n < 2 ^ 32) : packI n = none := if_neg large

theorem segmentEncoded {unit : Nat} (some : 0 < unit) (p : Part) : encode (segmentOf unit p) =
    word p.start ++ word (alignUp unit p.bytes.length) ++ (segmentOf unit p).data := by
  rw [encode, segmentLength some]
  rfl

/- combine_bin appends the segment of a section that is not empty. -/
theorem combined (p : Part) (needChk : Bool) (t : Tool) : combineBin p.bytes p.start needChk t =
    if Loadable (unitOf needChk) p then
      some ⟨t.flash ++ (written (unitOf needChk) p).flatMap encode,
        if needChk then xorBytes t.chkSum ((written (unitOf needChk) p).flatMap Segment.data) else t.chkSum,
        t.blocks + (written (unitOf needChk) p).length⟩
    else none := by
  by_cases empty : p.bytes = []
  · cases needChk <;> simp [combineBin,Loadable,written,empty,xorBytes]
  · have size : p.bytes.length ≠ 0 := fun none => empty (List.length_eq_zero_iff.mp none)
    have encoded := segmentEncoded (unitPositive needChk) p
    have units : (if needChk then alignUp 4 p.bytes.length else alignUp 16 p.bytes.length) =
        alignUp (unitOf needChk) p.bytes.length := by cases needChk <;> rfl
    unfold combineBin
    dsimp only
    rw [if_pos size, units]
    by_cases address : p.start < 2 ^ 32
    · by_cases fits : alignUp (unitOf needChk) p.bytes.length < 2 ^ 32
      · have loadable : Loadable (unitOf needChk) p := Or.inr ⟨address,fits⟩
        rw [if_pos loadable]
        rw [packed address, packed fits]
        simp [sectionWritten,written,empty,encoded,writeFile]
        simp [segmentOf]
      · have large : ¬ Loadable (unitOf needChk) p := fun loadable => fits (loadable.resolve_left empty).2
        rw [if_neg large, packed address, unpacked fits]
        rfl
    · have far : ¬ Loadable (unitOf needChk) p := fun loadable => address (loadable.resolve_left empty).1
      rw [if_neg far, unpacked address]
      rfl

/-! The image up to the checksum -/

def segmentsOf (ps : List Part) : List Segment := ps.flatMap (written 4)

theorem segmentsPresent (ps : List Part) : segmentsOf ps = (present ps).map (segmentOf 4) := by
  induction ps with
  | nil => rfl
  | cons p later ih =>
    unfold segmentsOf present at ih ⊢
    by_cases empty : p.bytes = [] <;> simp [written,empty,ih]

def combineParts (ps : List Part) (t : Tool) : Option Tool :=
  ps.foldlM (fun t p => combineBin p.bytes p.start true t) t

def afterParts (ps : List Part) (t : Tool) : Tool :=
  ⟨t.flash ++ (segmentsOf ps).flatMap encode,xorBytes t.chkSum ((segmentsOf ps).flatMap Segment.data),
    t.blocks + (segmentsOf ps).length⟩

theorem partsWritten {ps : List Part} (loadable : ∀ p ∈ ps, Loadable 4 p) (t : Tool) :
    combineParts ps t = some (afterParts ps t) := by
  induction ps generalizing t with
  | nil => simp [combineParts,afterParts,segmentsOf,xorBytes]
  | cons p later ih =>
    obtain ⟨first,others⟩ := List.forall_mem_cons.mp loadable
    have one := combined p true t
    simp only [show unitOf true = 4 from rfl,if_pos first,if_true] at one
    have rest := ih others
    unfold combineParts at rest ⊢
    rw [List.foldlM_cons, one]
    refine (rest _).trans ?_
    simp [afterParts,segmentsOf,xorAppend,Nat.add_assoc]

theorem partsRefused {ps : List Part} (large : ¬ ∀ p ∈ ps, Loadable 4 p) (t : Tool) : combineParts ps t = none := by
  induction ps generalizing t with
  | nil => exact absurd (fun _ inside => nomatch inside) large
  | cons p later ih =>
    have one := combined p true t
    simp only [show unitOf true = 4 from rfl,if_true] at one
    unfold combineParts at ih ⊢
    rw [List.foldlM_cons, one]
    by_cases first : Loadable 4 p
    · rw [if_pos first]
      exact ih (fun others => large (List.forall_mem_cons.mpr ⟨first,others⟩)) _
    · rw [if_neg first]
      rfl

/- The zeros in front of the checksum. -/
def padding (length : Nat) : Nat := 16 - (length + 1) % 16

theorem checksumWritten (t : Tool) : writeChecksum t =
    { t with flash := t.flash ++ List.replicate (padding t.flash.length) 0 ++ [t.chkSum] } := by
  have mask : 0xf &&& (t.flash.length + 1) = (t.flash.length + 1) % 16 := by
    rw [Nat.and_comm]
    exact Nat.and_two_pow_sub_one_eq_mod _ 4
  have some : 16 - (t.flash.length + 1) % 16 ≠ 0 := by omega
  unfold writeChecksum
  dsimp only
  rw [mask, if_pos some]
  rfl

theorem paddedLength (length : Nat) : (length + padding length + 1) % 16 = 0 := by
  unfold padding
  omega

/- Every number of the image is one of 32 bits. -/
structure Packable (sym : Symbols) (sec : Sections) : Prop where
  entry : sym.entryAddr < 2 ^ 32
  loadable : ∀ p ∈ parts sym sec, Loadable 4 p

def headOf (magic count byte2 byte3 : UInt8) (entryAddr : Nat) : List UInt8 := [magic,count,byte2,byte3] ++ word entryAddr

theorem headPacked (magic count byte2 byte3 : UInt8) {entryAddr : Nat} (small : entryAddr < 2 ^ 32) :
    packHeader magic count byte2 byte3 entryAddr = some (headOf magic count byte2 byte3 entryAddr) := by
  rw [packHeader, packed small]
  rfl

def bodyOf (byte2 byte3 : UInt8) (sym : Symbols) (sec : Sections) : List UInt8 :=
  headOf binMagicFlash 3 byte2 byte3 sym.entryAddr ++ (segmentsOf (parts sym sec)).flatMap encode

def checksumOf (segments : List Segment) : UInt8 := xorBytes checksumInit (segments.flatMap Segment.data)

theorem imageParts (byte2 byte3 : UInt8) (sym : Symbols) (sec : Sections) (t : Tool) :
    flashImage byte2 byte3 sym sec t = (packHeader binMagicFlash 3 byte2 byte3 sym.entryAddr).bind fun head =>
      (combineParts (parts sym sec) (writeFile head t)).map writeChecksum := by
  simp [flashImage,combineParts,parts,Option.map_eq_bind,Option.bind_assoc]

/- The image behind what the file holds already. -/
def imageOf (byte2 byte3 : UInt8) (sym : Symbols) (sec : Sections) (before : List UInt8) : List UInt8 :=
  let body := before ++ bodyOf byte2 byte3 sym sec
  body ++ List.replicate (padding body.length) 0 ++ [checksumOf (segmentsOf (parts sym sec))]

theorem imageWritten (byte2 byte3 : UInt8) {sym : Symbols} {sec : Sections} (packable : Packable sym sec) (t : Tool)
    (fresh : t.chkSum = checksumInit) :
    (flashImage byte2 byte3 sym sec t).map Tool.flash = some (imageOf byte2 byte3 sym sec t.flash) := by
  rw [imageParts, headPacked _ _ _ _ packable.entry, Option.bind_some, partsWritten packable.loadable]
  simp [checksumWritten,afterParts,writeFile,imageOf,bodyOf,checksumOf,fresh]

theorem imageRefused (byte2 byte3 : UInt8) {sym : Symbols} {sec : Sections} (large : ¬ Packable sym sec) (t : Tool) :
    flashImage byte2 byte3 sym sec t = none := by
  rw [imageParts]
  by_cases entry : sym.entryAddr < 2 ^ 32
  · rw [headPacked _ _ _ _ entry, Option.bind_some, partsRefused fun loadable => large ⟨entry,loadable⟩]
    rfl
  · rw [packHeader, unpacked entry]
    rfl

/-! Reading the image again -/

def readHeader (magic : UInt8) (bytes : List UInt8) : Option (Nat × List UInt8) :=
  if bytes.head? = some magic ∧ 8 ≤ bytes.length then some ((bytes.getD 1 0).toNat,bytes.drop 8) else none

/- A header, and as many segments as it says. -/
def readImage (magic : UInt8) (bytes : List UInt8) : Option (List Segment × List UInt8) := do
  let (count,rest) ← readHeader magic bytes
  readMany count rest

/- A segment at the address of the section, with its bytes and zeros behind them. -/
structure Carries (s : Segment) (p : Part) : Prop where
  address : s.address = p.start
  data : ∃ zeros, s.data = p.bytes ++ List.replicate zeros 0

/- What is left behind the segments is zeros, the checksum of their data and the tail. -/
def Closed (bytes tail : List UInt8) (segments : List Segment) : Prop :=
  ∃ zeros, readImage binMagicFlash bytes =
    some (segments,List.replicate zeros 0 ++ [checksumOf segments] ++ tail)

def Laid (sym : Symbols) (sec : Sections) (flash : List UInt8) : Prop :=
  ∃ segments, Closed flash [] segments ∧ List.Forall₂ Carries segments (present (parts sym sec)) ∧
    flash.length % 16 = 0

/- The image with the instruction rom in front, its header counting the segments of both, and
four bytes behind the checksum. -/
def LaidIrom (sym : Symbols) (sec : Sections) (flash : List UInt8) : Prop :=
  ∃ count rest irom inner segments crc, readHeader binMagicIrom flash = some (count,rest) ∧
    read rest = some (irom,inner) ∧ Closed inner crc segments ∧ crc.length = 4 ∧ count = segments.length + 1 ∧
    List.Forall₂ Carries (irom :: segments) (present (iromPart sec :: parts sym sec)) ∧ (flash.length - 4) % 16 = 0

theorem headRead (magic count byte2 byte3 : UInt8) (entryAddr : Nat) (rest : List UInt8) :
    readHeader magic (headOf magic count byte2 byte3 entryAddr ++ rest) = some (count.toNat,rest) := by
  have length := wordLength entryAddr
  have behind : (word entryAddr ++ rest).drop 4 = rest := List.drop_left' length
  simp [readHeader,headOf,behind]

theorem carried (unit : Nat) (ps : List Part) : List.Forall₂ Carries (ps.map (segmentOf unit)) ps := by
  induction ps with
  | nil => exact .nil
  | cons p later ih => exact .cons ⟨rfl,_,rfl⟩ ih

theorem fitsLoadable {unit : Nat} (some : 0 < unit) {p : Part} (loadable : Loadable unit p) (full : p.bytes ≠ []) :
    Fits (segmentOf unit p) := by
  obtain ⟨address,size⟩ := loadable.resolve_left full
  exact ⟨address,(segmentLength some p).symm ▸ size⟩

theorem presentAll {ps : List Part} (full : ∀ p ∈ ps, p.bytes ≠ []) : present ps = ps :=
  List.filter_eq_self.mpr fun p inside => decide_eq_true (full p inside)

theorem segmentsAll {ps : List Part} (full : ∀ p ∈ ps, p.bytes ≠ []) : segmentsOf ps = ps.map (segmentOf 4) := by
  rw [segmentsPresent, presentAll full]

theorem presentFull {ps : List Part} (count : (present ps).length = ps.length) : ∀ p ∈ ps, p.bytes ≠ [] :=
  fun p inside => of_decide_eq_true (List.length_filter_eq_length_iff.mp count p inside)

/- The three sections, none empty, are read again as the segments the header counts. -/
theorem bodyRead (byte2 byte3 : UInt8) {sym : Symbols} {sec : Sections} (packable : Packable sym sec)
    (full : ∀ p ∈ parts sym sec, p.bytes ≠ []) (rest : List UInt8) :
    readImage binMagicFlash (bodyOf byte2 byte3 sym sec ++ rest) = some ((parts sym sec).map (segmentOf 4),rest) := by
  have fits : ∀ s ∈ (parts sym sec).map (segmentOf 4), Fits s := by
    intro s inside
    obtain ⟨p,there,rfl⟩ := List.mem_map.mp inside
    exact fitsLoadable (by decide) (packable.loadable p there) (full p there)
  have three : (3 : UInt8).toNat = ((parts sym sec).map (segmentOf 4)).length := rfl
  rw [bodyOf, segmentsAll full, List.append_assoc, readImage, headRead, three]
  exact (Option.bind_some ..).trans (readManyExact fits rest)

/-! The boot modes -/

def start : Tool := ⟨[],checksumInit,0⟩

def closed (file : List UInt8) : List UInt8 := file ++ crcTail (crc32 file)

theorem crcLength (crc : Int) : (crcTail crc).length = 4 := rfl

theorem genZero (args : Args) (sym : Symbols) (sec : Sections) : genAppbin { args with bootMode := .zero } sym sec =
    (flashImage args.byte2 args.byte3 sym sec start).map Tool.flash := by
  simp [genAppbin,Option.map_eq_bind,Args.byte2,Args.byte3,start]

theorem genOne (args : Args) (sym : Symbols) (sec : Sections) : genAppbin { args with bootMode := .one } sym sec =
    ((flashImage args.byte2 args.byte3 sym sec start).map Tool.flash).map fun image =>
      closed (image ++ List.replicate (0x10000 - image.length) 0xFF ++ sec.irom0text) := by
  simp [genAppbin,Option.map_eq_bind,Option.bind_assoc,Args.byte2,Args.byte3,start,closed,writeFile]

theorem genTwo (args : Args) (sym : Symbols) (sec : Sections) : genAppbin { args with bootMode := .two } sym sec =
    (packHeader binMagicIrom 4 args.byte2 args.byte3 sym.entryAddr).bind fun head =>
      (combineBin sec.irom0text 0 false (writeFile head start)).bind fun t =>
        ((flashImage args.byte2 args.byte3 sym sec t).map Tool.flash).map closed := by
  simp [genAppbin,Option.map_eq_bind,Option.bind_assoc,Args.byte2,Args.byte3,start,closed,writeFile]

theorem zeroRefused (args : Args) {sym : Symbols} {sec : Sections} (large : ¬ Packable sym sec) :
    genAppbin { args with bootMode := .zero } sym sec = none := by
  rw [genZero, imageRefused _ _ large]
  rfl

theorem zeroWritten (args : Args) {sym : Symbols} {sec : Sections} (packable : Packable sym sec) :
    genAppbin { args with bootMode := .zero } sym sec = some (imageOf args.byte2 args.byte3 sym sec []) := by
  rw [genZero, imageWritten _ _ packable start rfl]
  rfl

def AllPresent (sym : Symbols) (sec : Sections) : Prop := ∀ p ∈ parts sym sec, p.bytes ≠ []

theorem imageLength (byte2 byte3 : UInt8) (sym : Symbols) (sec : Sections) (before : List UInt8) :
    (imageOf byte2 byte3 sym sec before).length % 16 = 0 := by
  have padded := paddedLength (before ++ bodyOf byte2 byte3 sym sec).length
  simp only [imageOf,List.length_append,List.length_replicate,List.length_singleton] at padded ⊢
  exact padded

/- Behind what comes first the image is closed with zeros and the checksum. -/
theorem imageClosed (byte2 byte3 : UInt8) {sym : Symbols} {sec : Sections} (packable : Packable sym sec)
    (full : AllPresent sym sec) (before tail : List UInt8) : ∃ image,
    imageOf byte2 byte3 sym sec before ++ tail = before ++ image ∧
      Closed image tail ((parts sym sec).map (segmentOf 4)) := by
  have found := bodyRead byte2 byte3 packable full
  rw [← segmentsAll full] at found ⊢
  refine ⟨_,?_,_,found (List.replicate (padding (before ++ bodyOf byte2 byte3 sym sec).length) 0 ++
    [checksumOf (segmentsOf (parts sym sec))] ++ tail)⟩
  simp [imageOf]

theorem zeroLaid (args : Args) {sym : Symbols} {sec : Sections} (packable : Packable sym sec)
    (full : AllPresent sym sec) : Laid sym sec (imageOf args.byte2 args.byte3 sym sec []) := by
  obtain ⟨image,same,closed⟩ := imageClosed args.byte2 args.byte3 packable full [] []
  rw [List.append_nil, List.nil_append] at same
  refine ⟨_,same ▸ closed,?_,imageLength ..⟩
  rw [presentAll full]
  exact carried 4 _

theorem imageStarts (byte2 byte3 : UInt8) (sym : Symbols) (sec : Sections) (before tail : List UInt8) :
    ∃ rest, imageOf byte2 byte3 sym sec before ++ tail =
      before ++ (headOf binMagicFlash 3 byte2 byte3 sym.entryAddr ++ rest) := by
  simp [imageOf,bodyOf]

theorem headCount {magic count byte2 byte3 : UInt8} {entryAddr : Nat} {rest tail : List UInt8}
    {segments : List Segment} (same : magic = binMagicFlash)
    (image : Closed (headOf magic count byte2 byte3 entryAddr ++ rest) tail segments) : segments.length = count.toNat := by
  subst same
  obtain ⟨zeros,found⟩ := image
  rw [readImage, headRead] at found
  exact readManyLength found

theorem zeroFull (args : Args) {sym : Symbols} {sec : Sections}
    (laid : Laid sym sec (imageOf args.byte2 args.byte3 sym sec [])) : AllPresent sym sec := by
  obtain ⟨segments,image,carries,_⟩ := laid
  have three : segments.length = 3 := by
    obtain ⟨rest,starts⟩ := imageStarts args.byte2 args.byte3 sym sec [] []
    rw [List.append_nil, List.nil_append] at starts
    exact headCount rfl (starts ▸ image)
  exact presentFull (carries.length_eq.symm.trans three)

/- What comes before the image in boot mode 2. -/
def iromFront (args : Args) (sym : Symbols) (sec : Sections) : List UInt8 :=
  headOf binMagicIrom 4 args.byte2 args.byte3 sym.entryAddr ++ (written 16 (iromPart sec)).flatMap encode

theorem twoWritten (args : Args) {sym : Symbols} {sec : Sections} (packable : Packable sym sec)
    (loadable : Loadable 16 (iromPart sec)) : genAppbin { args with bootMode := .two } sym sec =
      some (closed (imageOf args.byte2 args.byte3 sym sec (iromFront args sym sec))) := by
  have irom := combined (iromPart sec) false
  simp only [show unitOf false = 16 from rfl,if_pos loadable,Bool.false_eq_true,if_false] at irom
  have head := headPacked binMagicIrom 4 args.byte2 args.byte3 packable.entry
  rw [genTwo, head, Option.bind_some]
  refine (congrArg (Option.bind · _) (irom _)).trans ?_
  rw [Option.bind_some, imageWritten _ _ packable _ rfl]
  simp [iromFront,writeFile,start]

theorem twoRefused (args : Args) {sym : Symbols} {sec : Sections}
    (large : ¬ (Packable sym sec ∧ Loadable 16 (iromPart sec))) :
    genAppbin { args with bootMode := .two } sym sec = none := by
  have irom := combined (iromPart sec) false
  simp only [show unitOf false = 16 from rfl] at irom
  rw [genTwo]
  cases packHeader binMagicIrom 4 args.byte2 args.byte3 sym.entryAddr with
  | none => rfl
  | some head =>
    refine (congrArg (Option.bind · _) (irom _)).trans ?_
    by_cases loadable : Loadable 16 (iromPart sec)
    · have refused (t : Tool) := imageRefused args.byte2 args.byte3 (fun packable => large ⟨packable,loadable⟩) t
      simp [loadable,refused]
    · simp [loadable]

theorem twoLaid (args : Args) {sym : Symbols} {sec : Sections} (packable : Packable sym sec)
    (loadable : Loadable 16 (iromPart sec)) (full : AllPresent sym sec) (irom : sec.irom0text ≠ []) :
    LaidIrom sym sec (closed (imageOf args.byte2 args.byte3 sym sec (iromFront args sym sec))) := by
  let file := imageOf args.byte2 args.byte3 sym sec (iromFront args sym sec)
  obtain ⟨image,same,ends⟩ := imageClosed args.byte2 args.byte3 packable full (iromFront args sym sec)
    (crcTail (crc32 file))
  have one : (written 16 (iromPart sec)).flatMap encode = encode (segmentOf 16 (iromPart sec)) := by
    have full : (iromPart sec).bytes ≠ [] := irom
    rw [written, if_neg full]
    simp
  have parted : closed file = headOf binMagicIrom 4 args.byte2 args.byte3 sym.entryAddr ++
      (encode (segmentOf 16 (iromPart sec)) ++ image) := by
    rw [closed, same, iromFront, one, List.append_assoc]
  have found := readExact (fitsLoadable (by decide) loadable irom) image
  have length := imageLength args.byte2 args.byte3 sym sec (iromFront args sym sec)
  refine ⟨4,_,_,image,_,_,parted ▸ headRead ..,found,ends,crcLength _,rfl,?_,?_⟩
  · have all : ∀ p ∈ iromPart sec :: parts sym sec, p.bytes ≠ [] := List.forall_mem_cons.mpr ⟨irom,full⟩
    rw [presentAll all]
    exact .cons ⟨rfl,_,rfl⟩ (carried 4 _)
  · simpa [closed,crcLength] using length

theorem twoFull (args : Args) {sym : Symbols} {sec : Sections}
    (laid : LaidIrom sym sec (closed (imageOf args.byte2 args.byte3 sym sec (iromFront args sym sec)))) :
    sec.irom0text ≠ [] ∧ AllPresent sym sec := by
  obtain ⟨count,rest,irom,inner,segments,crc,head,_,_,_,counted,carries,_⟩ := laid
  have four : count = 4 := by
    rw [closed, imageOf, iromFront] at head
    simp only [List.append_assoc] at head
    rw [headRead] at head
    cases head
    rfl
  have all := presentFull (carries.length_eq.symm.trans (congrArg Nat.succ (by omega : segments.length = 3)))
  exact List.forall_mem_cons.mp all

/-- The images of boot modes 0 and 2 are read again as their sections, with the counts of their
headers, exactly if no section is empty or a number is too large for the tool. -/
theorem layoutExact (args : Args) (sym : Symbols) (sec : Sections) :
    ((∀ flash, genAppbin { args with bootMode := .zero } sym sec = some flash → Laid sym sec flash) ↔
      ¬ Packable sym sec ∨ AllPresent sym sec) ∧
    ((∀ flash, genAppbin { args with bootMode := .two } sym sec = some flash → LaidIrom sym sec flash) ↔
      ¬ (Packable sym sec ∧ Loadable 16 (iromPart sec)) ∨ sec.irom0text ≠ [] ∧ AllPresent sym sec) := by
  constructor
  · by_cases packable : Packable sym sec
    · simp only [zeroWritten args packable,Option.some.injEq,forall_eq',packable,not_true_eq_false,false_or]
      exact ⟨zeroFull args,zeroLaid args packable⟩
    · simp [zeroRefused args packable,packable]
  · by_cases packable : Packable sym sec ∧ Loadable 16 (iromPart sec)
    · simp only [twoWritten args packable.1 packable.2,Option.some.injEq,forall_eq',packable,and_self,
        not_true_eq_false,false_or]
      exact ⟨twoFull args,fun full => twoLaid args packable.1 packable.2 full.2 full.1⟩
    · simp [twoRefused args packable,packable]

/- A program without initialised data: two segments follow the header that counts three. -/
def noData : Sections := ⟨[],[0x12,0xC1,0xF0],[],[0x79]⟩

theorem dataMissing : ¬ ∀ (args : Args) sym sec flash,
    genAppbin { args with bootMode := .zero } sym sec = some flash → Laid sym sec flash := by
  intro every
  let sym : Symbols := ⟨0x40100004,0x3FFE8000,0x3FFE8010⟩
  have packable : Packable sym noData := ⟨by decide,by decide⟩
  have full := zeroFull ⟨.zero,0,0,0⟩ (every ⟨.zero,0,0,0⟩ sym noData _ (zeroWritten _ packable))
  exact full ⟨0x3FFE8000,[]⟩ (by simp [parts,noData,sym]) rfl

/-! Where the instruction rom begins in boot mode 1 -/

/- The rom from 0x10000 on, up to the four bytes of the crc. -/
def Placed (irom flash : List UInt8) : Prop :=
  ∃ front crc, front.length = 0x10000 ∧ crc.length = 4 ∧ flash = front ++ irom ++ crc

def segmentSize (bytes : List UInt8) : Nat := if bytes = [] then 0 else 8 + alignUp 4 bytes.length

/- The header and the segments. -/
def bodyLength (sec : Sections) : Nat := 8 + segmentSize sec.text + segmentSize sec.data + segmentSize sec.rodata

theorem writtenLength (p : Part) : ((written 4 p).flatMap encode).length = segmentSize p.bytes := by
  by_cases empty : p.bytes = []
  · simp [written,segmentSize,empty]
  · simp [written,segmentSize,empty,segmentLength (by decide : 0 < 4),Nat.add_comm]

theorem bodySize (byte2 byte3 : UInt8) (sym : Symbols) (sec : Sections) :
    (bodyOf byte2 byte3 sym sec).length = bodyLength sec := by
  have text := writtenLength ⟨textAddress,sec.text⟩
  have data := writtenLength ⟨sym.dataStartAddr,sec.data⟩
  have rodata := writtenLength ⟨sym.rodataStartAddr,sec.rodata⟩
  simp only [bodyOf,headOf,segmentsOf,parts,List.flatMap_cons,List.flatMap_nil,List.flatMap_append,List.length_append,
    text,data,rodata,wordLength,bodyLength]
  simp only [List.length_cons,List.length_nil]
  omega

/- The image leaves room up to 0x10000. -/
theorem imageShort (byte2 byte3 : UInt8) (sym : Symbols) (sec : Sections) :
    (imageOf byte2 byte3 sym sec []).length ≤ 0x10000 ↔ bodyLength sec < 0xFFFF := by
  have size := bodySize byte2 byte3 sym sec
  simp only [imageOf,List.nil_append,List.length_append,List.length_replicate,List.length_singleton,size,padding]
  omega

def romBehind (image irom : List UInt8) : List UInt8 :=
  closed (image ++ List.replicate (0x10000 - image.length) 0xFF ++ irom)

theorem oneWritten (args : Args) {sym : Symbols} {sec : Sections} (packable : Packable sym sec) :
    genAppbin { args with bootMode := .one } sym sec =
      some (romBehind (imageOf args.byte2 args.byte3 sym sec []) sec.irom0text) := by
  rw [genOne, imageWritten _ _ packable start rfl]
  rfl

theorem oneRefused (args : Args) {sym : Symbols} {sec : Sections} (large : ¬ Packable sym sec) :
    genAppbin { args with bootMode := .one } sym sec = none := by
  rw [genOne, imageRefused _ _ large]
  rfl

theorem romPlaced {image : List UInt8} (irom : List UInt8) :
    Placed irom (romBehind image irom) ↔ image.length ≤ 0x10000 := by
  constructor
  · intro placed
    obtain ⟨front,crc,starts,four,same⟩ := placed
    have length := congrArg List.length same
    simp only [romBehind,closed,List.length_append,List.length_replicate,crcLength,starts,four] at length
    omega
  · intro short
    refine ⟨image ++ List.replicate (0x10000 - image.length) 0xFF,_,?_,crcLength _,rfl⟩
    rw [List.length_append, List.length_replicate]
    omega

/-- In boot mode 1 the rom begins at 0x10000 exactly if the image before it leaves room, or there
is no rom, or the tool fails. -/
theorem romExact (args : Args) (sym : Symbols) (sec : Sections) :
    (∀ flash, genAppbin { args with bootMode := .one } sym sec = some flash →
      sec.irom0text = [] ∨ Placed sec.irom0text flash) ↔
    ¬ Packable sym sec ∨ sec.irom0text = [] ∨ bodyLength sec < 0xFFFF := by
  by_cases packable : Packable sym sec
  · simp only [oneWritten args packable,Option.some.injEq,forall_eq',packable,not_true_eq_false,false_or,romPlaced,
      imageShort]
  · simp [oneRefused args packable,packable]

/- A program of 64 KiB of text, and one byte of rom. -/
theorem romBeyond : ¬ ∀ (args : Args) sym sec flash,
    genAppbin { args with bootMode := .one } sym sec = some flash → sec.irom0text = [] ∨ Placed sec.irom0text flash := by
  intro every
  obtain ⟨text,size⟩ : ∃ text : List UInt8, text.length = 0x10000 := ⟨List.replicate 0x10000 0,List.length_replicate⟩
  let sec : Sections := ⟨[0x12],text,[0],[0]⟩
  let sym : Symbols := ⟨0x40100004,0x3FFE8000,0x3FFE8010⟩
  have packable : Packable sym sec := by
    refine ⟨by decide,?_⟩
    simp [parts,sym,sec,Loadable,alignUp,textAddress,size]
  have placed := every ⟨.one,0,0,0⟩ sym sec _ (oneWritten _ packable)
  have short := (imageShort _ _ sym sec).mp ((romPlaced _).mp (placed.resolve_left (List.cons_ne_nil _ _)))
  have full : text ≠ [] := fun empty => by simp [empty] at size
  simp [bodyLength,segmentSize,sec,alignUp,full,size] at short

end YunbaIot.ImageLayout
