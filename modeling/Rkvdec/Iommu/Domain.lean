import Rkvdec.Basic
import Rkvdec.Lib.Bitmap

/-! The Rockchip IOMMU domain: a two-level page table over a 32-bit IOVA space, and the three
bitmaps that say which page numbers are handed out and where each hand-out begins and ends. -/
namespace Rkvdec.Iommu

def pdEntries : Nat := 1024
def ptEntries : Nat := 1024
def pageSize : Nat := 4096
def iovaPages : Nat := 2 ^ 20

def ptePageValid : BitVec 32 := 1
def ptePageReadable : BitVec 32 := 2
def ptePageWritable : BitVec 32 := 4

/-- `RKIOMMU_DOMAIN`. A page table is the map from its index to its entry; `none` is a directory
slot whose table is not allocated yet. -/
structure Domain where
  isAv1d : Bool
  pd : Nat → BitVec 32
  pts : Nat → Option (Nat → BitVec 32)
  ptPhys : Nat → BitVec 32
  iovaBitmap : Bitmap
  iovaStartBitmap : Bitmap
  iovaEndBitmap : Bitmap

/-- `RkIommuDomainCreateAv1d`, once its allocations have succeeded: page 0 is reserved. -/
def domainCreateAv1d : Domain where
  isAv1d := true
  pd := fun _ => 0
  pts := fun _ => none
  ptPhys := fun _ => 0
  iovaBitmap := Bitmap.zero.set 0
  iovaStartBitmap := Bitmap.zero.set 0
  iovaEndBitmap := Bitmap.zero.set 1

def rcbPage : Nat := 0xFFF00000 / pageSize
def rcbCount : Nat := 0x00100000 / pageSize

/-- `RkIommuDomainCreateVdec`, once its allocations have succeeded: page 0 and the RCB-SRAM
range `0xFFF00000..0xFFFFFFFF` are reserved. -/
def domainCreateVdec : Domain where
  isAv1d := false
  pd := fun _ => 0
  pts := fun _ => none
  ptPhys := fun _ => 0
  iovaBitmap := (Bitmap.zero.set 0).setRange rcbPage rcbCount
  iovaStartBitmap := (Bitmap.zero.set 0).set rcbPage
  iovaEndBitmap := (Bitmap.zero.set 1).set (rcbPage + rcbCount)

/-- The directory entry for a page table at `ptPhys`. -/
def encodeDte (isAv1d : Bool) (ptPhys : BitVec 32) : BitVec 32 :=
  if isAv1d then (ptPhys &&& 0xffffffc0#32) ||| 1 else ptPhys ||| 1

/-- The page-table entry for a page: the v2 format keeps the address and the r/w bits, the AV1D
format packs a 40-bit address and has no readable bit. -/
def encodePte (isAv1d : Bool) (pagePhys : BitVec 64) (flags : BitVec 32) : BitVec 32 :=
  if isAv1d then
    let lo := (pagePhys &&& 0xfffff000#64).setWidth 32
    let hi8 := ((pagePhys >>> 32) &&& 0xff#64).setWidth 32
    let pte := lo ||| (hi8 <<< 28) ||| ptePageValid
    if flags &&& ptePageWritable ≠ 0 then pte ||| ptePageWritable else pte
  else
    (pagePhys &&& 0xfffff000#64).setWidth 32 |||
      (flags &&& (ptePageReadable ||| ptePageWritable)) ||| ptePageValid

namespace Domain

/-- The entry the walker reads for page number `p`; an absent table reads as invalid. -/
def pte (d : Domain) (p : Nat) : BitVec 32 :=
  match d.pts (p / ptEntries) with
  | none => 0
  | some pt => pt (p % ptEntries)

/-- Scan the bits of one bitmap word downwards. `inl base` is the lowest bit of a finished run,
`inr run` the length of the run that reaches the word's lowest bit. -/
def scanWord (word : BitVec 64) (w pageCount : Nat) : Nat → Nat → Nat ⊕ Nat
  | 0, run => .inr run
  | b + 1, run =>
    if word.getLsbD b then scanWord word w pageCount b 0
    else if run + 1 = pageCount then .inl (w * 64 + b)
    else scanWord word w pageCount b (run + 1)

/-- Scan the bitmap top-down, carrying the current run of clear bits across words. -/
def scanWords (bm : Bitmap) (pageCount : Nat) : Nat → Nat → Option Nat
  | 0, _ => none
  | w + 1, run =>
    match scanWord (bm.word w) w pageCount 64 run with
    | .inl base => some base
    | .inr run => scanWords bm pageCount w run

/-- `RkIommuAllocIova`. -/
def allocIova (d : Domain) (pageCount : Nat) : NtStatus × Nat × Domain :=
  match scanWords d.iovaBitmap pageCount (iovaPages / 64) 0 with
  | none => (.insufficientResources, 0, d)
  | some base =>
    (.success, base * pageSize,
      { d with
        iovaBitmap := d.iovaBitmap.setRange base pageCount
        iovaStartBitmap := d.iovaStartBitmap.set base
        iovaEndBitmap := d.iovaEndBitmap.set (base + pageCount) })

/-- `RkIommuFreeIova`: silently does nothing unless the range starts an allocation. -/
def freeIova (d : Domain) (iova pageCount : Nat) : Domain :=
  if iovaPages * pageSize ≤ iova then d
  else if iova % pageSize ≠ 0 then d
  else
    let startPage := iova / pageSize
    -- `RK_IOMMU_IOVA_PAGES - PageCount` is a 32-bit unsigned subtraction.
    if pageCount = 0 ∨ (iovaPages + 2 ^ 32 - pageCount) % 2 ^ 32 < startPage then d
    else if d.iovaStartBitmap.test startPage = false then d
    else
      { d with
        iovaBitmap := d.iovaBitmap.clearRange startPage pageCount
        iovaStartBitmap := d.iovaStartBitmap.clear startPage
        iovaEndBitmap := d.iovaEndBitmap.clear (startPage + pageCount) }

/-- Store `v` into `Pts[pdi][pti]`, when that table exists. -/
def setPte (d : Domain) (pdi pti : Nat) (v : BitVec 32) : Domain :=
  match d.pts pdi with
  | none => d
  | some pt => { d with pts := Function.update d.pts pdi (some (Function.update pt pti v)) }

/-- The page loop of `RkIommuUnmapAt`, from page `i` on with `n` pages to go. -/
def unmapFrom (iova : Nat) : Nat → Nat → Domain → Domain
  | _, 0, d => d
  | i, n + 1, d =>
    let firstPdi := iova / 2 ^ 22 % 1024
    let firstPti := iova / 2 ^ 12 % 1024
    let pdi := firstPdi + (firstPti + i) / ptEntries
    let pti := (firstPti + i) % ptEntries
    if pdEntries ≤ pdi then d
    else unmapFrom iova (i + 1) n (d.setPte pdi pti 0)

/-- `RkIommuUnmapAt`. -/
def unmapAt (d : Domain) (iova pageCount : Nat) : Domain :=
  unmapFrom iova 0 pageCount d

/-- Allocate the page table of directory slot `pdi` unless it is there, with `alloc` what
`AllocPageBelow4G` answers. The result says whether the table exists. -/
def ensurePt (d : Domain) (pdi : Nat) (alloc : Option (BitVec 32)) : Bool × Domain :=
  match d.pts pdi with
  | some _ => (true, d)
  | none =>
    match alloc with
    | none => (false, { d with ptPhys := Function.update d.ptPhys pdi 0 })
    | some phys =>
      (true, { d with
        ptPhys := Function.update d.ptPhys pdi phys
        pts := Function.update d.pts pdi (some fun _ => 0)
        pd := Function.update d.pd pdi (encodeDte d.isAv1d phys) })

/-- The page loop of `RkIommuMapAt`, from page `i` on with `n` pages to go. -/
def mapFrom (iova : Nat) (physAddr : BitVec 64) (flags : BitVec 32)
    (alloc : Nat → Option (BitVec 32)) : Nat → Nat → Domain → NtStatus × Domain
  | _, 0, d => (.success, d)
  | i, n + 1, d =>
    let firstPdi := iova / 2 ^ 22 % 1024
    let firstPti := iova / 2 ^ 12 % 1024
    let pdi := firstPdi + (firstPti + i) / ptEntries
    let pti := (firstPti + i) % ptEntries
    if pdEntries ≤ pdi then
      (.invalidParameter, if 0 < i then d.unmapAt iova i else d)
    else
      match d.ensurePt pdi (alloc i) with
      | (false, d) => (.insufficientResources, if 0 < i then d.unmapAt iova i else d)
      | (true, d) =>
        let pagePhys := physAddr + BitVec.ofNat 64 (i * pageSize)
        mapFrom iova physAddr flags alloc (i + 1) n
          (d.setPte pdi pti (encodePte d.isAv1d pagePhys flags))

/-- `RkIommuMapAt`; `alloc i` is the page-table allocation made for page `i`, if one is needed. -/
def mapAt (d : Domain) (iova : Nat) (physAddr : BitVec 64) (pageCount : Nat) (flags : BitVec 32)
    (alloc : Nat → Option (BitVec 32)) : NtStatus × Domain :=
  mapFrom iova physAddr flags alloc 0 pageCount d

end Domain

/-- A page frame number of a locked MDL; its byte address fits the 64-bit `PHYSICAL_ADDRESS`. -/
structure Pfn where
  val : Nat
  addressable : val * pageSize < 2 ^ 64

/-- `(ULONG64)pfn << PAGE_SHIFT`. -/
def Pfn.phys (pfn : Pfn) : BitVec 64 := BitVec.ofNat 64 pfn.val <<< 12

/-- `RkMppBufferUsageBitstreamInput`. -/
def usageBitstreamInput : Nat := 1

/-- The PTE flags `MapMdl` asks for: the vdec driver maps bitstream input read-only, the AV1D
driver maps everything read+write whatever the role. -/
def pteFlags (isAv1d : Bool) (role : Nat) : BitVec 32 :=
  if isAv1d then ptePageReadable ||| ptePageWritable
  else if role ≠ usageBitstreamInput then ptePageReadable ||| ptePageWritable
  else ptePageReadable

namespace Domain

/-- Undo a partial `MapMdl`: clear the `i` pages mapped so far and return the whole range. -/
def rollback (d : Domain) (baseIova i pageCount : Nat) : Domain :=
  (if 0 < i then d.unmapAt baseIova i else d).freeIova baseIova pageCount

/-- The page loop of `RkIommuMapMdl`, at page `i` with the remaining frames. -/
def mapPages (baseIova pageCount : Nat) (flags : BitVec 32) (alloc : Nat → Option (BitVec 32)) :
    Nat → List Pfn → Domain → NtStatus × Domain
  | _, [], d => (.success, d)
  | i, pfn :: pfns, d =>
    if pfn.phys >>> 32 ≠ 0 then (.invalidParameter, d.rollback baseIova i pageCount)
    else
      match d.mapAt (baseIova + i * pageSize) pfn.phys 1 flags (fun _ => alloc i) with
      | (.success, d) => mapPages baseIova pageCount flags alloc (i + 1) pfns d
      | (status, d) => (status, d.rollback baseIova i pageCount)

/-- `RkIommuMapMdl` under the domain lock: the status, the IOVA on success, and the domain.
`alloc i` is what the page-table allocation for page `i` answers, if one is needed. -/
def mapMdl (d : Domain) (pfns : List Pfn) (role : Nat) (alloc : Nat → Option (BitVec 32)) :
    NtStatus × Nat × Domain :=
  if pfns.length = 0 then (.invalidParameter, 0, d)
  else
    match d.allocIova pfns.length with
    | (.success, baseIova, d) =>
      match mapPages baseIova pfns.length (pteFlags d.isAv1d role) alloc 0 pfns d with
      | (.success, d) => (.success, baseIova, d)
      | (status, d) => (status, 0, d)
    | (status, _, d) => (status, 0, d)

/-- The forward scan of the end bitmap in `RkIommuUnmapMdl`, from page `pg` with `n` to try. -/
def scanEnd (bm : Bitmap) : Nat → Nat → Option Nat
  | _, 0 => none
  | pg, n + 1 => if bm.test pg then some pg else scanEnd bm (pg + 1) n

/-- `RkIommuUnmapMdl` under the domain lock. -/
def unmapMdl (d : Domain) (iova : Nat) : NtStatus × Domain :=
  if iovaPages * pageSize ≤ iova then (.invalidParameter, d)
  else if iova % pageSize ≠ 0 then (.invalidParameter, d)
  else
    let startPage := iova / pageSize
    if d.iovaStartBitmap.test startPage = false then (.invalidParameter, d)
    else
      -- The end marker of the last page is bit `iovaPages`, hence the inclusive bound.
      match scanEnd d.iovaEndBitmap (startPage + 1) (iovaPages - startPage) with
      | none => (.invalidParameter, d)
      | some pg =>
        let pageCount := pg - startPage
        (.success, (d.unmapAt iova pageCount).freeIova iova pageCount)

end Domain

end Rkvdec.Iommu
