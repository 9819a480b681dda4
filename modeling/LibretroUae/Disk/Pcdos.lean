import LibretroUae.Disk.RoundTrip

/-!
# LibretroUae.Disk.Pcdos

PC tracks: `decode_pcdos` writes one as MFM and `drive_write_pcdos` reads it back.

Every byte is a word of its own here. The encoder emits a preamble and then the sectors, each
with two groups of three sync words, which are the words whose clocks are wrong on purpose. The
reader looks for a group, and the mark behind it says whether a header or data follows.
-/

namespace LibretroUae.Disk

open LibretroUae.Lib

/-! ### The encoder -/

/-- `mfmencodetable`. -/
def mfmencodetable : List Byte :=
  [0x2a, 0x29, 0x24, 0x25, 0x12, 0x11, 0x14, 0x15, 0x4a, 0x49, 0x44, 0x45, 0x52, 0x51, 0x54, 0x55]

/-- `dos_encode_byte`. -/
def dosEncodeByte (byte : Byte) : Word :=
  let high := mfmencodetable.getD (byte >>> 4).toNat 0
  let low := mfmencodetable.getD (byte &&& 15).toNat 0
  let word := (high.setWidth 16 <<< 8) ||| low.setWidth 16
  word ||| (if word &&& (256 ||| 64) ≠ 0 then 0 else 128)

/-- A word of `mfmcoder`, behind a word that ends in the bit `prevbit`. -/
def dosWord (prevbit : Bool) (byte : Byte) : Word :=
  let word := dosEncodeByte byte
  word ||| (if prevbit ∨ word &&& 0x4000 ≠ 0 then 0 else 0x8000)

/-- `dest[-1] & 1`. -/
def endBit (w : Word) : Bool := w &&& 1 ≠ 0

/-- `mfmcoder`, behind the word `last`. -/
def mfmcoder : Word → List Byte → List Word
  | _, [] => []
  | last, byte :: bytes =>
    dosWord (endBit last) byte :: mfmcoder (dosWord (endBit last) byte) bytes

/-- The fields of a drive with an `ADF_PCDOS` image, `FLOPPY_WRITE_LEN` and the track's `offs`. -/
structure PcDrive where
  writeLen : Nat
  numSecs : Nat
  ddhd : Nat
  cyl : Nat
  side : Nat
  offs : Nat

/-- The 512 bytes that `read_floppy_data` supplies for a sector. -/
structure PcSector where
  data : List Byte
  length_data : data.length = 512

namespace PcDrive

variable (drv : PcDrive) (getCrc16 : List Byte → Word) (stale : Nat → Byte)

/-- `tracklen / 2`. -/
def tracklen : Nat := 12500 / 2

/-- The preamble: its first word, the encoded bytes and the three words with `0xc2`. -/
def preamble : List Word :=
  0x9254 :: ((((mfmcoder 0x9254 (List.replicate 40 0x4e ++ List.replicate 12 0 ++
    [0xc2, 0xc2, 0xc2, 0xfc] ++ List.replicate 40 0x4e)).set 52 0x5224).set 53 0x5224).set 54
      0x5224)

/-- `secbuf[12..19]` of sector `i`. -/
def headerBytes (i : Nat) : List Byte :=
  [0xa1, 0xa1, 0xa1, 0xfe, BitVec.ofNat 8 drv.cyl, BitVec.ofNat 8 drv.side,
    BitVec.ofNat 8 (1 + i), 2]

/-- `secbuf[56..571]`. -/
def dataBytes (s : PcSector) : List Byte := [0xa1, 0xa1, 0xa1, 0xfb] ++ s.data

/-- `len`, where it is positive. -/
def fillLen : Nat := (tracklen - 96) / drv.numSecs - 574 / drv.ddhd

/-- `secbuf[574..]`, of which the `memset` may fill only a part. -/
def gapBytes : List Byte :=
  (List.range (76 / drv.ddhd)).map fun k => if k < drv.fillLen then 0x4e else stale k

/-- `secbuf` of sector `i`. -/
def sectorBytes (i : Nat) (s : PcSector) : List Byte :=
  List.replicate 12 0 ++ drv.headerBytes i ++ be16 (getCrc16 (drv.headerBytes i)) ++
    List.replicate 22 0x4e ++ List.replicate 12 0 ++ dataBytes s ++
    be16 (getCrc16 (dataBytes s)) ++ drv.gapBytes stale

/-- The sync words of a sector. -/
def syncWords (ws : List Word) : List Word :=
  (((((ws.set 12 0x4489).set 13 0x4489).set 14 0x4489).set 56 0x4489).set 57 0x4489).set 58 0x4489

/-- The loop of `decode_pcdos` over the sectors from number `i` on, behind the word `last`. -/
def sectorsWords : Nat → Word → List PcSector → List Word
  | _, _, [] => []
  | i, last, s :: ss =>
    let ws := syncWords (mfmcoder last (drv.sectorBytes getCrc16 stale i s))
    ws ++ sectorsWords (i + 1) (ws.getLastD last) ss

/-- `decode_pcdos`, of a track with the given sectors. `stale` is what was in `secbuf` behind the
bytes it fills, `old` what was in `bigmfmbuf`. -/
def decodePcdos (secs : List PcSector) (old : Track) : Track := fun k =>
  let ws := preamble ++ drv.sectorsWords getCrc16 stale 0 (preamble.getLastD 0) secs
  if k < ws.length then ws.getD k 0 else if k < tracklen then 0x9254 else old k

end PcDrive

/-! ### The reader -/

/-- `mfmdecode`: the data bits of a word. -/
def mfmdecode (mbuf : Track) (p : Nat) (shift : Fin 16) : Byte :=
  let mfm := getmfmword mbuf p shift &&& 0x5555
  (List.range 8).foldl
    (fun out i => (out >>> 1) ||| (if mfm >>> (2 * i) &&& 1 ≠ 0 then 0x80 else 0)) 0

/-- `n` bytes from `p` on. -/
def mfmBytes (mbuf : Track) (shift : Fin 16) (p n : Nat) : List Byte :=
  (List.range n).map fun i => mfmdecode mbuf (p + i) shift

/-- `(mfmdecode (&mbuf, shift) << 8) | mfmdecode (&mbuf, shift)`. -/
def mfmCrc (mbuf : Track) (shift : Fin 16) (p : Nat) : Word :=
  word16 (mfmdecode mbuf p shift) (mfmdecode mbuf (p + 1) shift)

/-- How a turn of the reader's loop ends: with `continue`, the sector number being the last
header's if there still is one, or with the data of a sector. -/
inductive Turn
  | next (sector : Option Nat)
  | data (sector : Nat) (bytes : List Byte)

namespace PcDrive

variable (drv : PcDrive) (getCrc16 : List Byte → Word)

/-- `fwlen`. -/
def fwlen : Nat := drv.writeLen * drv.ddhd

/-- `mend`. -/
def mend : Nat := 2 * drv.fwlen - 518

/-- A turn of the loop of `drive_write_pcdos` up to the count of the sector, with where it leaves
off; none where the function returns -1. `sizeof sectable` is 96. -/
def turn (mbuf : Track) (p : Nat) (shift : Fin 16) (sector : Option Nat) :
    Option (Turn × Nat × Fin 16) := do
  let (q, s) ← seekSync mbuf drv.mend p shift
  -- the bits passed, a header with too long a gap behind it being forgotten on the way
  let mfmcount := 16 * (q - p) + s.val - shift.val
  let sector := if mfmcount / 16 ≥ 43 then none else sector
  let r ← skipSync mbuf drv.mend q s
  if r - q < 3 then return (.next sector, r, s)
  let mark := mfmdecode mbuf r s
  if mark = 0xfe then
    let tmp := [0xa1, 0xa1, 0xa1, mark] ++ mfmBytes mbuf s (r + 1) 4
    let cyl := (mfmdecode mbuf (r + 1) s).toNat
    let head := (mfmdecode mbuf (r + 2) s).toNat
    let sector := (mfmdecode mbuf (r + 3) s).toNat
    let size := (mfmdecode mbuf (r + 4) s).toNat
    if getCrc16 tmp ≠ mfmCrc mbuf s (r + 5) ∨ cyl ≠ drv.cyl ∨ head ≠ drv.side ∨ size ≠ 2 ∨
        sector < 1 ∨ sector > drv.numSecs ∨ sector ≥ 96 then none
    else return (.next (some (sector - 1)), r + 35, s)
  else if mark ≠ 0xfb ∧ mark ≠ 0xfa then return (.next sector, r + 1, s)
  else match sector with
    | none => return (.next none, r + 1, s)
    | some n =>
      let bytes := mfmBytes mbuf s (r + 1) 512
      if getCrc16 ([0xa1, 0xa1, 0xa1, 0xfb] ++ bytes) ≠ mfmCrc mbuf s (r + 513) then
        return (.next sector, r + 515, s)
      else return (.data n bytes, r + 515, s)

end PcDrive

/-- `secwritten`, `sectable` and the image. -/
structure PcWritten where
  secwritten : Nat
  sectable : Nat → Bool
  image : Nat → Byte

/-- Writing a sector that is not marked yet. -/
def PcWritten.write (w : PcWritten) (offs sector : Nat) (bytes : List Byte) : PcWritten :=
  if w.sectable sector then w
  else
    { secwritten := w.secwritten + 1
      sectable := Function.update w.sectable sector true
      image := storeBytes w.image (offs + sector * 512) bytes }

namespace PcDrive

variable {drv : PcDrive} {getCrc16 : List Byte → Word} {mbuf : Track} {p p' : Nat}
  {shift shift' : Fin 16} {sector : Option Nat} {t : Turn}

/-- Every turn goes on. -/
theorem turn_some (h : drv.turn getCrc16 mbuf p shift sector = some (t, p', shift')) :
    p < drv.mend ∧ p < p' := by
  unfold turn at h
  cases hseek : seekSync mbuf drv.mend p shift with
  | none => simp [hseek] at h
  | some x =>
    obtain ⟨q, s⟩ := x
    obtain ⟨hle, hsync⟩ := seekSync_some hseek
    cases hskip : skipSync mbuf drv.mend q s with
    | none => simp [hseek, hskip] at h
    | some r =>
      obtain ⟨hlt, hr, -⟩ := skipSync_some hskip hsync
      refine ⟨by omega, ?_⟩
      simp only [hseek, hskip, bind, Option.bind, pure] at h
      split_ifs at h
      all_goals try split at h
      all_goals simp only [Option.some.injEq, Prod.mk.injEq] at h
      all_goals omega

/-- The loop of `drive_write_pcdos` with its return value, where none stands for -1. -/
def writeLoop (drv : PcDrive) (getCrc16 : List Byte → Word) (count : Bool) (mbuf : Track) (p : Nat)
    (shift : Fin 16) (sector : Option Nat) (seccnt : Nat) (w : PcWritten) :
    Option Nat × PcWritten :=
  if seccnt < drv.numSecs then
    match h : drv.turn getCrc16 mbuf p shift sector with
    | none => (none, w)
    | some (.next sector', p', shift') =>
      have := turn_some h
      writeLoop drv getCrc16 count mbuf p' shift' sector' seccnt w
    | some (.data n bytes, p', shift') =>
      have := turn_some h
      if count ∧ w.sectable n then (some w.secwritten, w)
      else writeLoop drv getCrc16 count mbuf p' shift' none (seccnt + 1) (w.write drv.offs n bytes)
  else (some w.secwritten, w)
termination_by drv.mend - p

/-- `drive_write_pcdos` on a track buffer and an image. -/
def writePcdos (drv : PcDrive) (getCrc16 : List Byte → Word) (count : Bool) (mbuf : Track)
    (image : Nat → Byte) : Option Nat × PcWritten :=
  writeLoop drv getCrc16 count (doubled drv.fwlen mbuf) 0 0 none 0
    { secwritten := 0, sectable := fun _ => false, image }

end PcDrive

end LibretroUae.Disk
