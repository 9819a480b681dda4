import LibretroUae.Lib.Image

/-!
# LibretroUae.Hardfile.Target

**Hardfiles and their target files.** The target file of the platform is a byte array
that can be resized: reads and writes transfer what lies inside it. The bytes that the
image holds behind its end are those that the file gets when it is extended, so nothing
is known of them. This is an idealised file: the one of `hardfile_unix.c` goes through a cache,
stops the program at offsets that are no multiple of the block size, and is not resized.

A hardfile is a target file with what the emulator keeps in memory about it: the virtual
RDB in front of it, the flags for scrambled contents and, for a VHD image, a copy of
header and block table, one cached sector of a bitmap and the place of the footer.
-/

namespace LibretroUae.Hardfile

open Lib Lib.Image

/-! ### The target file -/

structure Target where
  disk : Image
  physsize : Nat
  driveEmpty : Bool
  readonly : Bool
  dangerous : Bool

/-- The bytes that `hdf_read_target` delivers; their number is its result. -/
def hdfReadTarget (t : Target) (offset len : Nat) : List Byte :=
  if t.driveEmpty then [] else t.disk.slice offset (min len (t.physsize - offset))

/-- The bytes of `buf` that `hdf_write_target` can write at `offset`. -/
def writable (t : Target) (offset : Nat) (buf : List Byte) : List Byte :=
  if t.driveEmpty ∨ t.readonly ∨ t.dangerous then [] else buf.take (t.physsize - offset)

/-- `hdf_write_target`: the number of bytes written, and the file after that. -/
def hdfWriteTarget (t : Target) (offset : Nat) (buf : List Byte) : Nat × Target :=
  ((writable t offset buf).length, { t with disk := t.disk.blit offset (writable t offset buf) })

def hdfResizeTarget (t : Target) (newsize : Nat) : Target := { t with physsize := newsize }

/-- A file that can be read and written. -/
structure Target.Usable (t : Target) : Prop where
  driveEmpty : t.driveEmpty = false
  readonly : t.readonly = false
  dangerous : t.dangerous = false

theorem hdfReadTarget_of_le {t : Target} {offset len : Nat} (h : t.driveEmpty = false)
    (hle : offset + len ≤ t.physsize) : hdfReadTarget t offset len = t.disk.slice offset len := by
  rw [hdfReadTarget, h, if_neg (by decide), Nat.min_eq_left (by omega)]

theorem hdfWriteTarget_of_le {t : Target} {offset : Nat} {buf : List Byte} (h : t.Usable)
    (hle : offset + buf.length ≤ t.physsize) :
    hdfWriteTarget t offset buf = (buf.length, { t with disk := t.disk.blit offset buf }) := by
  have hall : writable t offset buf = buf := by
    rw [writable, h.driveEmpty, h.readonly, h.dangerous, if_neg (by decide),
      List.take_of_length_le (by omega)]
  rw [hdfWriteTarget, hall]

/-! ### Hardfiles -/

inductive HfdType
  | plain
  | vhdFixed
  | vhdDynamic
  deriving DecidableEq, Repr

/-- What is kept in memory of a dynamic VHD image. -/
structure Vhd where
  /-- Copy of the file up to the end of the block table. -/
  header : Image
  bamoffset : Nat
  bamsize : Nat
  blocksize : Nat
  bitmapsize : Nat
  /-- The cached sector of a bitmap and its place in the file. -/
  sectormap : Image
  sectormapblock : Nat
  footerblock : Nat

structure HardFile where
  target : Target
  /-- Block size of the configuration. -/
  blocksize : Nat
  /-- Size of the disk behind the virtual RDB. The source's `virtsize` is `fullSize`: it
  grows by the size of the RDB when there is one. -/
  virtsize : Nat
  virtualRdb : Option Image
  virtualSize : Nat
  byteswap : Bool
  adide : Bool
  hfdType : HfdType
  vhd : Vhd

/-- The size of the disk with its virtual RDB. -/
def HardFile.fullSize (h : HardFile) : Nat := h.virtsize + h.virtualSize

/-- The value of a `uae_u32` entry that points to no block. -/
def unallocated : Nat := 0xffffffff

end LibretroUae.Hardfile
