import LibretroUae.Hardfile.Target

/-!
# LibretroUae.Hardfile.Vhd

**Dynamic VHD images.** `vhdCreate` makes an image without any block, `hdfOpen2` reads
header and block table of a target file, `vhdRead` and `vhdWrite` go through the virtual
disk sector by sector. A sector lies in a block; a block that is allocated starts with a
bitmap of its sectors. Writing to a block that is not allocated puts it over the footer
and the footer behind it.
-/

namespace LibretroUae.Hardfile

open Lib Lib.Image

/-! ### Opening -/

/-- `vhd_checksum` of the 512 bytes at `p`, without the four at `offset` if there is one. -/
def vhdChecksum (m : Image) (offset : Option Nat) : Nat :=
  let sum := ∑ i ∈ Finset.range 512,
    if offset.any fun o => o ≤ i ∧ i < o + 4 then 0 else (m i).toNat
  2 ^ 32 - 1 - sum % 2 ^ 32

/-- The image that starts at byte `p`. -/
def at' (m : Image) (p : Nat) : Image := fun i => m (p + i)

/-- A whole number of sectors. -/
def roundUp512 (n : Nat) : Nat := (n + 511) / 512 * 512

/-- The fields of the footer that say that a target file is a VHD image, at most. -/
def vhdType (tmp : Image) : Option HfdType :=
  if tmp.getLong 8 % 4 ≠ 2 then none
  else if tmp.getLong (8 + 4) / 2 ^ 16 ≠ 1 then none
  else
    let hfdType := tmp.getLong 0x3c
    let v := tmp.getLong 0x40
    if v = 0 ∨ vhdChecksum tmp (some 0x40) ≠ v then none
    else if hfdType = 2 then some .vhdFixed
    else if hfdType = 3 then some .vhdDynamic
    else none

/-- `hdf_open_2` of a target file for the configured block size, `none` if it cannot be
opened. A file that is no VHD image is a plain hardfile. -/
def hdfOpen2 (blocksize : Nat) (t : Target) : Option HardFile :=
  let vhd : Vhd := ⟨fun _ => 0, 0, 0, 0, 0, fun _ => 0, 0, 0⟩
  let plain : HardFile := ⟨t, blocksize, t.physsize, none, 0, false, false, .plain, vhd⟩
  if (hdfReadTarget t 0 512).length ≠ 512 then some plain
  else
    let tmp := t.disk
    match vhdType tmp with
    | none => some plain
    | some hfdType =>
      let tmp2 := hdfReadTarget t (t.physsize - 512) 512
      if tmp2.length ≠ 512 then none
      else if tmp2 ≠ tmp.slice 0 512 then some plain
      else
        let virtsize := tmp.getLong 0x30 * 2 ^ 32 + tmp.getLong 0x34
        let footerblock := t.physsize - 512
        match hfdType with
        | .plain => some plain
        | .vhdFixed =>
          some { plain with virtsize, hfdType := .vhdFixed, vhd := { vhd with footerblock } }
        | .vhdDynamic =>
          let bamoffset := tmp.getLong 0x14
          if bamoffset = 0 ∨ t.physsize ≤ bamoffset then none
          else if (hdfReadTarget t bamoffset 512).length ≠ 512 then none
          else
            let tmp := at' t.disk bamoffset
            if vhdChecksum tmp (some 0x24) ≠ tmp.getLong 0x24 then none
            else if tmp.getLong 0x18 / 2 ^ 16 ≠ 1 then none
            else
              let blocksize := tmp.getLong 0x20
              let bamoffset := tmp.getLong 0x14
              let bamsize := roundUp512 ((virtsize + blocksize - 1) / blocksize * 4) % 2 ^ 32
              let size := (bamoffset + bamsize) % 2 ^ 32
              if (hdfReadTarget t 0 size).length ≠ size then none
              else
                let bitmapsize := roundUp512 (blocksize / (8 * 512))
                some { plain with
                  virtsize, hfdType := .vhdDynamic
                  vhd := ⟨t.disk, bamoffset, bamsize, blocksize, bitmapsize, fun _ => 0,
                    2 ^ 64 - 1, footerblock⟩ }

/-! ### Reading -/

/-- Where the entry of a sector's block stands in the header. -/
def bamEntry (v : Vhd) (offset : Nat) : Nat :=
  (offset / v.blocksize * 4 + v.bamoffset) % 2 ^ 32

/-- The number of a sector in its block. -/
def bitmapoffsetbits (v : Vhd) (offset : Nat) : Nat := offset / 512 % (v.blocksize / 512)

/-- The sector of the bitmap that holds the bit of a sector. -/
def sectormapOf (v : Vhd) (sectoroffset offset : Nat) : Nat :=
  sectoroffset * 512 + bitmapoffsetbits v offset / 8 / 512 * 512

/-- The place of a sector's data. -/
def dataOf (v : Vhd) (sectoroffset offset : Nat) : Nat :=
  sectoroffset * 512 + v.bitmapsize + bitmapoffsetbits v offset * 512

/-- The bit of a sector in the cached bitmap. -/
def bitIndex (v : Vhd) (offset : Nat) : Nat := bitmapoffsetbits v offset / 8 % 512

def bitMask (v : Vhd) (offset : Nat) : Byte := (1 : Byte) <<< (7 - bitmapoffsetbits v offset % 8)

/-- Reads the bitmap sector at `sectormapblock` unless it is the cached one. A short read
changes the cache but not its place. -/
def readSectormap (h : HardFile) (sectormapblock : Nat) : Bool × HardFile :=
  if h.vhd.sectormapblock = sectormapblock then (true, h)
  else
    let bs := hdfReadTarget h.target sectormapblock 512
    let sectormap := h.vhd.sectormap.blit 0 bs
    if bs.length ≠ 512 then (false, { h with vhd := { h.vhd with sectormap } })
    else (true, { h with vhd := { h.vhd with sectormap, sectormapblock } })

/-- One turn of the loop of `vhd_read`: the bytes of the sector at `offset`. -/
def vhdReadSector (h : HardFile) (offset : Nat) : Option (List Byte) × HardFile :=
  let sectoroffset := h.vhd.header.getLong (bamEntry h.vhd offset)
  if sectoroffset = unallocated then (some (List.replicate 512 0), h)
  else
    match readSectormap h (sectormapOf h.vhd sectoroffset offset) with
    | (false, h) => (none, h)
    | (true, h) =>
      if h.vhd.sectormap (bitIndex h.vhd offset) &&& bitMask h.vhd offset ≠ 0 then
        let bs := hdfReadTarget h.target (dataOf h.vhd sectoroffset offset) 512
        if bs.length ≠ 512 then (none, h) else (some bs, h)
      else (some (List.replicate 512 0), h)

/-- A loop over sectors that collects the bytes of each turn and stops at a failed one. -/
def readLoop {σ : Type} (turn : σ → Nat → Option (List Byte) × σ) :
    Nat → σ → Nat → List Byte × σ
  | 0, h, _ => ([], h)
  | sectors + 1, h, offset =>
    match turn h offset with
    | (none, h) => ([], h)
    | (some bs, h) =>
      let (rest, h) := readLoop turn sectors h (offset + 512)
      (bs ++ rest, h)

/-- `vhd_read`: the bytes read; their number is the result. -/
def vhdRead (h : HardFile) (offset len : Nat) : List Byte × HardFile :=
  if offset % 512 ≠ 0 then ([], h)
  else if len % 512 ≠ 0 then ([], h)
  else readLoop vhdReadSector (len / 512) h offset

/-! ### Writing -/

/-- `vhd_write_enlarge`: a new block for the entry at `bamoffset`. -/
def vhdWriteEnlarge (h : HardFile) (bamoffset : Nat) : Bool × HardFile :=
  let v := h.vhd
  let len := v.blocksize + v.bitmapsize + 512
  let target := hdfResizeTarget h.target (h.target.physsize + len - 512)
  -- add footer (same as 512 byte header)
  let buf := List.replicate (len - 512) 0 ++ v.header.slice 0 512
  let (written, target) := hdfWriteTarget target v.footerblock buf
  if written ≠ len then (false, { h with target })
  else
    -- write new offset to BAM
    let header := v.header.putLong bamoffset (v.footerblock / 512 % 2 ^ 32)
    let (written, target) := hdfWriteTarget target v.bamoffset (header.slice v.bamoffset v.bamsize)
    if written ≠ v.bamsize then (false, { h with target, vhd := { v with header } })
    else
      let footerblock := v.footerblock + len - 512
      (true, { h with target, vhd := { v with header, footerblock } })

/-- The part of a turn of `vhd_write` for a sector whose block is allocated. -/
def vhdWriteSector (h : HardFile) (sectoroffset offset : Nat) (data : List Byte) :
    Bool × HardFile :=
  let sectormapblock := sectormapOf h.vhd sectoroffset offset
  match readSectormap h sectormapblock with
  | (false, h) => (false, h)
  | (true, h) =>
    -- write data
    let (written, target) := hdfWriteTarget h.target (dataOf h.vhd sectoroffset offset) data
    let h := { h with target }
    if written ≠ 512 then (false, h)
    else
      let old := h.vhd.sectormap (bitIndex h.vhd offset)
      if old &&& bitMask h.vhd offset = 0 then
        -- no, we need to mark it allocated and write the modified bitmap back to the disk
        let sectormap := h.vhd.sectormap.blit (bitIndex h.vhd offset) [old ||| bitMask h.vhd offset]
        let h := { h with vhd := { h.vhd with sectormap } }
        let (written, target) := hdfWriteTarget h.target sectormapblock (sectormap.slice 0 512)
        let h := { h with target }
        if written ≠ 512 then (false, h) else (true, h)
      else (true, h)

/-- What a turn of the loop of `vhd_write` did. -/
inductive Turn (σ : Type)
  | failed (h : σ)
  /-- A new block was made, the sector is still to be written. -/
  | enlarged (h : σ)
  | written (h : σ)

def vhdWriteTurn (h : HardFile) (offset : Nat) (data : List Byte) : Turn HardFile :=
  let bamoffset := bamEntry h.vhd offset
  let sectoroffset := h.vhd.header.getLong bamoffset
  if sectoroffset = unallocated then
    match vhdWriteEnlarge h bamoffset with
    | (false, h) => .failed h
    | (true, h) => .enlarged h
  else
    match vhdWriteSector h sectoroffset offset data with
    | (false, h) => .failed h
    | (true, h) => .written h

/-- A loop over the sectors of `data`: the bytes written. -/
def writeLoop {σ : Type} (turn : σ → Nat → List Byte → Turn σ) :
    Nat → σ → Nat → List Byte → Option (Nat × σ)
  | 0, h, _, data => if data.isEmpty then some (0, h) else none
  | fuel + 1, h, offset, data =>
    if data.isEmpty then some (0, h)
    else
      match turn h offset (data.take 512) with
      | .failed h => some (0, h)
      | .enlarged h => writeLoop turn fuel h offset data
      | .written h =>
        (writeLoop turn fuel h (offset + 512) (data.drop 512)).map fun r => (512 + r.1, r.2)

/-- `vhd_write`: the number of bytes written. A turn either makes a new block or writes a
sector, so that twice the number of sectors is enough. -/
def vhdWrite (h : HardFile) (offset : Nat) (data : List Byte) : Option (Nat × HardFile) :=
  if offset % 512 ≠ 0 then some (0, h)
  else if data.length % 512 ≠ 0 then some (0, h)
  else writeLoop vhdWriteTurn (2 * (data.length / 512)) h offset data

/-! ### Creating -/

/-- Writes each list of bytes at its place. -/
def writeAll (m : Image) (rows : List (Nat × List Byte)) : Image :=
  rows.foldl (fun m row => m.blit row.1 row.2) m

/-- What a new image takes from its surroundings: time, geometry and identifier. -/
structure Stamp where
  time : Nat
  cyl : Nat
  head : Nat
  tracksec : Nat
  guid : Nat → Byte

/-- The block size of a new image of `size` bytes. -/
def newBlocksize (size : Nat) : Nat :=
  if size ≥ 10 * 1024 * 1024 * 1024 then 2 * 1024 * 1024 else 512 * 1024

/-- The entries of its block table. -/
def batentrysize (size : Nat) : Nat := (size + newBlocksize size - 1) / newBlocksize size % 2 ^ 32

/-- "conectix", the cookie of the header. -/
def cookie : List Byte := [0x63, 0x6f, 0x6e, 0x65, 0x63, 0x74, 0x69, 0x78]

/-- "cxsparse", the cookie of the dynamic header. -/
def dynamicCookie : List Byte := [0x63, 0x78, 0x73, 0x70, 0x61, 0x72, 0x73, 0x65]

/-- The size of the disk, high longword first. -/
def sizeBytes (size : Nat) : List Byte := longBytes (size / 2 ^ 32) ++ longBytes size

/-- The header block before its checksum. -/
def headerRows (stamp : Stamp) (size : Nat) : List (Nat × List Byte) :=
  [(0, cookie), (0x0b, [2]), (0x0d, [1]), (0x16, [2]), (0x18, longBytes stamp.time),
   -- "vpc " and "Wi2k"
   (0x1c, [0x76, 0x70, 0x63, 0x20]), (0x21, [5]), (0x24, [0x57, 0x69, 0x32, 0x6b]),
   (0x28, sizeBytes size), (0x30, sizeBytes size),
   (0x38, [.ofNat 8 (stamp.cyl / 2 ^ 8), .ofNat 8 stamp.cyl, .ofNat 8 stamp.head,
     .ofNat 8 stamp.tracksec]),
   (0x3f, [3]), (0x44, (List.range 16).map stamp.guid)]

/-- The dynamic header before its checksum. -/
def dynamicRows (size : Nat) : List (Nat × List Byte) :=
  [(0, dynamicCookie), (8, List.replicate 8 0xff), (0x16, [0x06]), (0x19, [1]),
   (0x1c, longBytes (batentrysize size)), (0x20, longBytes (newBlocksize size))]

/-- A block with its checksum at `p`. -/
def withChecksum (b : Image) (p : Nat) : Image := b.blit p (longBytes (vhdChecksum b none))

/-- `vhd_create` with no dostype: the new file and its size. -/
def vhdCreate (stamp : Stamp) (size : Nat) : Image × Nat :=
  let batsize := roundUp512 (batentrysize size * 4)
  let header := (withChecksum (writeAll (fun _ => 0) (headerRows stamp size)) 0x40).slice 0 512
  let dynamic := (withChecksum (writeAll (fun _ => 0) (dynamicRows size)) 0x24).slice 0 1024
  let bat := List.replicate (batentrysize size * 4) 0xff ++
    List.replicate (batsize - batentrysize size * 4) 0
  let zf : Image := fun _ => 0
  let zf := zf.blit 0 header
  let zf := zf.blit (512 + 1024 + batsize) header
  let zf := zf.blit 512 dynamic
  let zf := zf.blit (512 + 1024) bat
  (zf, 512 + 1024 + batsize + 512)

end LibretroUae.Hardfile
