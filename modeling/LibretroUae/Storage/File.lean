import LibretroUae.Lib.Image
import Mathlib.Algebra.BigOperators.Group.Finset.Basic
import Mathlib.Logic.Function.Basic

/-!
# LibretroUae.Storage.File

**Files, windows on them and VHD views.** A zfile is a physical file, a file in memory, a
window on another one or the virtual disk in a VHD file. A window keeps an offset into the
outermost parent, whose seek position it shares with all other windows.

A parent has no parent itself, since `zfile_fopen_parent` goes up to the root; so a read or a
seek of a parent is one of a file of its own (`ownFread`). What a read stores goes into the
memory behind its destination, which is an image. Sizes and positions are below `2^63`.
-/

namespace LibretroUae.Storage

open Lib Lib.Image

inductive Fault
  | divide
  | outsideHeader
  deriving DecidableEq, Repr

/-! ### The data -/

/-- A physical file and its position. -/
structure HostFile where
  image : Image
  length : Nat
  pos : Nat

inductive Whence
  | set
  | cur
  | fromEnd

/-- `struct zfile_vhd`. -/
structure ZfileVhd where
  virtsize : Nat
  vhdBamoffset : Nat
  vhdBlocksize : Nat
  vhdHeader : Image
  vhdHeaderSize : Nat
  vhdSectormap : Image
  vhdSectormapblock : Int
  vhdBitmapsize : Nat

/-- `struct zfile`; with `userdata` its reader is `vhd_fread`. -/
structure Zfile where
  f : Option HostFile
  data : Option Image
  dataseek : Bool
  size : Nat
  seek : Nat
  parent : Option Nat
  offset : Nat
  userdata : Option ZfileVhd
  useparent : Bool

/-- `zfile_create`. -/
def Zfile.created : Zfile := ⟨none, none, false, 0, 0, none, 0, none, false⟩

/-- The zfiles that were made. -/
structure Files where
  zfile : Nat → Zfile
  next : Nat

def Files.set (fs : Files) (i : Nat) (z : Zfile) : Files :=
  { fs with zfile := Function.update fs.zfile i z }

/-- One more zfile. -/
def Files.add (fs : Files) (z : Zfile) : Files :=
  ⟨Function.update fs.zfile fs.next z, fs.next + 1⟩

/-! ### Seeking -/

def HostFile.fseek (h : HostFile) (offset : Int) (mode : Whence) : Int × HostFile :=
  let target : Int := match mode with
    | .set => offset
    | .cur => h.pos + offset
    | .fromEnd => h.length + offset
  if target < 0 then (-1, h) else (0, { h with pos := target.toNat })

/-- Does the zfile keep its own seek position? -/
def Zfile.ownSeek (z : Zfile) : Bool := z.data.isSome || z.dataseek || (z.parent.isSome && z.useparent)

def zfileFseek (z : Zfile) (offset : Int) (mode : Whence) : Int × Zfile :=
  if z.ownSeek then
    let target : Int := match mode with
      | .set => offset
      | .cur => z.seek + offset
      | .fromEnd => z.size + offset
    if target < 0 then (1, { z with seek := 0 })
    else if target > z.size then (1, { z with seek := z.size })
    else (0, { z with seek := target.toNat })
  else
    match z.f with
    | some f => ((f.fseek offset mode).1, { z with f := some (f.fseek offset mode).2 })
    | none => (-1, z)

def zfileFtell (z : Zfile) : Nat :=
  if z.data.isSome || z.dataseek || z.parent.isSome then z.seek else z.f.elim 0 HostFile.pos

/-! ### Reading -/

/-- `fread` to `at'` in the memory `b`. -/
def HostFile.fread (h : HostFile) (b : Image) (at' l1 l2 : Nat) : Image × Nat × HostFile :=
  let got := min (l1 * l2) (h.length - h.pos)
  (b.blit at' (h.image.slice h.pos got), got / l1, { h with pos := h.pos + got })

/-- The items of `l1` bytes that are inside of the size. -/
def itemsInside (size seek l1 l2 : Nat) : Nat :=
  if seek + l1 * l2 > size then (if l1 ≠ 0 then (size - seek) / l1 else 0) else l2

/-- `zfile_fread` of a file in memory or a physical one. -/
def ownFread (z : Zfile) (b : Image) (at' l1 l2 : Nat) : Image × Nat × Zfile :=
  match z.data with
  | some data =>
    let l2 := itemsInside z.size z.seek l1 l2
    (b.blit at' (data.slice (z.offset + z.seek) (l1 * l2)), l2, { z with seek := z.seek + l1 * l2 })
  | none =>
    match z.f with
    | some f =>
      let (b, ret, f) := f.fread b at' l1 l2
      (b, ret, { z with f := some f })
    | none => (b, 0, z)

/-! ### The reader of a VHD view -/

/-- What a read of a VHD view works on: the view, the parent and the memory. -/
structure VhdRead where
  vhd : ZfileVhd
  zp : Zfile
  b : Image

def int32 (v : Nat) : Int := (BitVec.ofNat 32 v).toInt

def zeros : List Byte := List.replicate 512 0

/-- The sector bitmap at `sectormapblock`, if it is not the one that was read last. -/
def readSectormap (st : VhdRead) (sectormapblock : Int) : Bool × VhdRead :=
  if st.vhd.vhdSectormapblock = sectormapblock then (true, st)
  else
    let (map, ret, zp) := ownFread (zfileFseek st.zp sectormapblock .set).2 st.vhd.vhdSectormap 0 1 512
    if ret ≠ 512 then (false, { st with zp, vhd := { st.vhd with vhdSectormap := map } })
    else (true, { st with
      zp, vhd := { st.vhd with vhdSectormap := map, vhdSectormapblock := sectormapblock } })

def bitSet (sectormap : Image) (bits : Nat) : Bool := (sectormap (bits / 8 % 512)).getLsbD (7 - bits % 8)

/-- The sector `bits` of an allocated block, to `at'`. -/
def readAllocated (st : VhdRead) (at' sectoroffset bits : Nat) : Bool × VhdRead :=
  let (ok, st) := readSectormap st (int32 (sectoroffset * 512 + bits / 8 / 512 * 512))
  if ok = false then (false, st)
  else if bitSet st.vhd.vhdSectormap bits then
    let block := int32 (sectoroffset * 512 + st.vhd.vhdBitmapsize + bits * 512)
    let (b, ret, zp) := ownFread (zfileFseek st.zp block .set).2 st.b at' 1 512
    (decide (ret = 512), { st with b, zp })
  else (true, { st with b := st.b.blit at' zeros })

/-- A turn of the loop of `vhd_fread2`; `false` stops it. -/
def vhdSector (st : VhdRead) (at' offset : Nat) : Except Fault (Bool × VhdRead) :=
  if st.vhd.vhdBlocksize = 0 then .error .divide
  else
    let bamoffset := (offset / st.vhd.vhdBlocksize * 4 + st.vhd.vhdBamoffset) % 2 ^ 32
    if st.vhd.vhdHeaderSize < bamoffset + 4 then .error .outsideHeader
    else
      let sectoroffset := st.vhd.vhdHeader.getLong bamoffset
      if sectoroffset = 0xffffffff then .ok (true, { st with b := st.b.blit at' zeros })
      else if st.vhd.vhdBlocksize / 512 = 0 then .error .divide
      else .ok (readAllocated st at' sectoroffset (offset / 512 % (st.vhd.vhdBlocksize / 512)))

/-- The loop of `vhd_fread2` over sectors; the last number is that of the bytes read. -/
def vhdLoop : Nat → VhdRead → Nat → Nat → Nat → Except Fault (Nat × VhdRead)
  | 0, st, _, _, read => .ok (read, st)
  | n + 1, st, at', offset, read => do
    let (ok, st) ← vhdSector st at' offset
    if ok then vhdLoop n st (at' + 512) (offset + 512) (read + 512) else return (read, st)

def vhdFread2 (st : VhdRead) (offset len : Nat) : Except Fault (Nat × VhdRead) :=
  if offset % 512 ≠ 0 then .ok (0, st)
  else if len % 512 ≠ 0 then .ok (0, st)
  else vhdLoop (len / 512) st 0 offset 0

/-- What an unaligned read works on; sectors go through a buffer, which is the memory of `st`. -/
structure Unaligned where
  st : VhdRead
  data : Image
  seek : Nat
  out : Nat

/-- The sector at `offset` through the buffer; `s` bytes from `skip` on go to `len`. -/
def throughBuffer (u : Unaligned) (offset skip s len : Nat) : Except Fault Unaligned := do
  let (_, st) ← vhdFread2 u.st offset 512
  return ⟨st, u.data.blit len (st.b.slice skip s), u.seek + s, u.out + s⟩

/-- The loop of `vhd_fread`: `size` bytes more. The destination is the same in each turn. -/
def unalignedLoop : Nat → Unaligned → Nat → Nat → Except Fault Unaligned
  | 0, u, _, _ => .ok u
  | n + 1, u, len, size => do
    let s := min size 512
    unalignedLoop n (← throughBuffer u u.seek 0 s len) len (size - s)

def vhdUnaligned (u : Unaligned) (size : Nat) : Except Fault Unaligned := do
  if u.seek % 512 ≠ 0 then
    let s := 512 - u.seek % 512
    let u ← throughBuffer u (u.seek - u.seek % 512) (512 - s) s 0
    unalignedLoop ((size + 511) / 512) u s size
  else unalignedLoop ((size + 511) / 512) u 0 size

/-- `vhd_fread`, with what is on the stack where its buffer is. -/
def vhdFread (tmp : Image) (z zp : Zfile) (vhd : ZfileVhd) (b : Image) (l1 l2 : Nat) :
    Except Fault (Image × Nat × Zfile × Zfile) :=
  let size := l1 * l2
  if l1 = 0 ∨ l2 = 0 then .ok (b, 0, z, zp)
  else if z.seek % 512 ≠ 0 ∨ size % 512 ≠ 0 then do
    let u ← vhdUnaligned ⟨⟨vhd, zp, tmp⟩, b, z.seek, 0⟩ size
    return (u.data, u.out, { z with seek := u.seek, userdata := some u.st.vhd }, u.st.zp)
  else do
    let (out, st) ← vhdFread2 ⟨vhd, zp, b⟩ z.seek size
    return (st.b, out / l1, { z with seek := z.seek + out, userdata := some st.vhd }, st.zp)

/-! ### Reading any zfile -/

/-- `zfile_fread` of a window: the position of the parent is set for each read. -/
def windowFread (fs : Files) (i p : Nat) (b : Image) (l1 l2 : Nat) : Image × Nat × Files :=
  let z := fs.zfile i
  let l2 := itemsInside z.size z.seek l1 l2
  let (b, ret, zp) := ownFread (zfileFseek (fs.zfile p) (z.seek + z.offset : Nat) .set).2 b 0 l1 l2
  (b, ret, (fs.set p zp).set i { z with seek := z.seek + l1 * ret })

/-- `zfile_fread` to the memory `b`; `tmp` is what is on the stack. -/
def zfileFread (fs : Files) (tmp b : Image) (l1 l2 i : Nat) : Except Fault (Image × Nat × Files) :=
  let z := fs.zfile i
  match z.parent with
  | some p =>
    match z.userdata with
    | some vhd => do
      let (b, ret, z, zp) ← vhdFread tmp z (fs.zfile p) vhd b l1 l2
      return (b, ret, (fs.set p zp).set i z)
    | none =>
      if z.data.isNone && z.useparent then .ok (windowFread fs i p b l1 l2)
      else
        let (b, ret, z) := ownFread z b 0 l1 l2
        .ok (b, ret, fs.set i z)
  | none =>
    let (b, ret, z) := ownFread z b 0 l1 l2
    .ok (b, ret, fs.set i z)

/-! ### Opening -/

/-- The loop of `zfile_fopen_parent`: up to the root, with the offsets on the way. -/
def climb (fs : Files) : Nat → Nat → Nat → Nat × Nat
  | 0, z, offset => (z, offset)
  | n + 1, z, offset =>
    match (fs.zfile z).parent with
    | none => (z, offset)
    | some p => climb fs n p (offset + (fs.zfile z).offset)

/-- The zfile that `zfile_fopen_parent` makes. -/
def zfileFopenParent (fs : Files) (z offset size : Nat) : Zfile :=
  { Zfile.created with
    size
    offset := (climb fs fs.next z offset).2
    parent := some (climb fs fs.next z offset).1
    useparent := true }

/-- `vhd_checksum`: the bytes without the checksum itself. -/
def vhdChecksum (p : Image) (offset : Nat) : Nat :=
  2 ^ 32 - 1 - ∑ i ∈ Finset.range 512, if offset ≤ i ∧ i < offset + 4 then 0 else (p i).toNat

/-- 512 bytes at `offset` of the zfile `i`, and whether they could be read. -/
def readSectorAt (fs : Files) (tmp b : Image) (i : Nat) (offset : Nat) :
    Except Fault (Image × Bool × Files) := do
  let fs := fs.set i (zfileFseek (fs.zfile i) offset .set).2
  let (b, ret, fs) ← zfileFread fs tmp b 1 512 i
  return (b, decide (ret = 512), fs)

/-- The header of a VHD file and its type. -/
def isVhdHeader (p : Image) : Bool :=
  p.getLong 8 % 4 = 2 && p.getLong 12 / 2 ^ 16 = 1 && (p.getLong 60 = 2 || p.getLong 60 = 3) &&
    p.getLong 64 ≠ 0 && vhdChecksum p 64 = p.getLong 64

def isDynamicHeader (p : Image) : Bool :=
  vhdChecksum p 36 = p.getLong 36 && p.getLong 24 / 2 ^ 16 = 1

/-- `vhd_virtsize` of the header. -/
def virtsizeOf (p : Image) : Nat := p.getLong 48 * 2 ^ 32 + p.getLong 52

/-- The view that `vhd` makes. -/
def vhdView (fs : Files) (z : Nat) (vhd : ZfileVhd) : Files :=
  fs.add { zfileFopenParent fs z 0 vhd.virtsize with
    useparent := false
    dataseek := true
    userdata := some vhd }

/-- The bytes of the table of blocks, in whole sectors. -/
def bamsizeOf (virtsize blocksize : Nat) : Nat :=
  ((virtsize + blocksize - 1) / blocksize * 4 + 511) / 512 * 512

/-- The rest of `vhd` for a dynamic file; `p` is the sector at `vhd_bamoffset`. -/
def vhdDynamic (fs : Files) (tmp : Image) (i virtsize : Nat) (p : Image) :
    Except Fault (Nat × Files) :=
  if isDynamicHeader p = false then .ok (i, fs)
  else if p.getLong 32 = 0 then .error .divide
  else
    let blocksize := p.getLong 32
    let bamoffset := p.getLong 20
    let bamsize := bamsizeOf virtsize blocksize % 2 ^ 32
    let size := (bamoffset + bamsize) % 2 ^ 32
    do
      let fs := fs.set i (zfileFseek (fs.zfile i) 0 .set).2
      let (header, ret, fs) ← zfileFread fs tmp tmp 1 size i
      if ret ≠ size then return (i, fs)
      else return (fs.next, vhdView fs i ⟨virtsize, bamoffset, blocksize, header, size, tmp, -1,
        (blocksize / (8 * 512) + 511) / 512 * 512⟩)

/-- The part of `vhd` behind the check of the header, which is `p`. -/
def vhdType (fs : Files) (tmp : Image) (i fsize : Nat) (p : Image) : Except Fault (Nat × Files) :=
  if p.getLong 60 = 3 then
    if p.getLong 20 = 0 ∨ p.getLong 20 ≥ fsize then .ok (i, fs)
    else do
      let (p', ok, fs) ← readSectorAt fs tmp p i (p.getLong 20)
      if ok = false then return (i, fs) else vhdDynamic fs tmp i (virtsizeOf p) p'
  else .ok (fs.next, vhdView fs i ⟨virtsizeOf p, 0, 0, tmp, 0, tmp, 0, 0⟩)

/-- `vhd`: the zfile `i` itself, or a view of the disk in it. -/
def vhd (fs : Files) (tmp : Image) (i : Nat) : Except Fault (Nat × Files) := do
  let z := (zfileFseek (fs.zfile i) 0 .fromEnd).2
  let fsize := zfileFtell z
  let (p, ok, fs) ← readSectorAt (fs.set i z) tmp tmp i 0
  if ok = false ∨ isVhdHeader p = false then return (i, fs)
  else
    let (p2, ok, fs) ← readSectorAt fs tmp tmp i (fsize - 512)
    if ok = false ∨ p.slice 0 512 ≠ p2.slice 0 512 then return (i, fs)
    else vhdType fs tmp i fsize p

end LibretroUae.Storage
