import LibretroUae.Lib.Image
import LibretroUae.Lib.Loop
import LibretroUae.Disk.ImageTracks
import LibretroUae.Disk.Mfm
import Mathlib.Data.List.GetD

/-!
# LibretroUae.Disk.RawTrack

**Raw tracks of extended disk files.** `drive_write_ext2` records the length of a track in its
header entry and stores the words of the buffer, high byte first; `drive_fill_bigbuf` reads them
back. A track that is longer than its slot is recorded with its own length, and what is stored
then does not start at the first word. The first track of a Kickstart disk is read back shorter
than it is, since `read_floppy_data` makes up the disk's first sector there.

The memory behind words is that of a host with the low byte first.
-/

namespace LibretroUae.Disk

open Lib Lib.Image
open ImageTracks (DriveFiletype)

/-- `MAXMFMBUF`. -/
def maxmfmbuf : Nat := 0x4000 * 2

/-- `image_tracktype`. -/
inductive TrackType
  | amigados
  | raw
  | raw1
  | pcdos
  | diskspare
  | none
  deriving DecidableEq

/-- `trackid` of an extended disk file. Its length is a 16-bit field, and its data is behind the
header entries. -/
structure Ext2Track where
  type : TrackType
  offs : Nat
  len : Nat
  len_lt : len < 2 ^ 16
  bitlen : Nat
  track : Nat
  sync : Word
  revolutions : Nat
  behindHeader : 8 + 4 + 12 * (track + 1) ≤ offs

/-- A disk file. -/
structure DiskFile where
  image : Image
  length : Nat

/-- `zfile_fseek` and `zfile_fwrite`. -/
def DiskFile.write (f : DiskFile) (off : Nat) (bs : List Byte) : DiskFile :=
  ⟨f.image.blit off bs, if bs = [] then f.length else max f.length (off + bs.length)⟩

/-- `zfile_fseek` and `zfile_fread`. -/
def DiskFile.read (f : DiskFile) (off len : Nat) : List Byte :=
  f.image.slice off (min len (f.length - off))

/-! ### Words in memory -/

/-- The bytes of words in memory. -/
def memoryBytes (buf : Nat → Word) : Image := fun j =>
  if j % 2 = 0 then byteAt (buf (j / 2)) 0 else byteAt (buf (j / 2)) 8

/-- `256 * *data + *(data + 1)`. -/
def swapWord (m : Image) (i : Nat) : Word := word16 (m (2 * i)) (m (2 * i + 1))

/-! ### Writing -/

/-- The place of the header entry of a track. -/
def headerAt (track : Nat) : Nat := 8 + 4 + (2 + 2 + 4 + 4) * track

/-- Update the track header. -/
def diskfileUpdate (diskfile : DiskFile) (ti : Ext2Track) (len : Nat) : DiskFile × Ext2Track :=
  let ti := { ti with revolutions := 1, bitlen := len, type := .raw }
  let buf := [0, 0, 0, 1] ++ longBytes ti.len ++ longBytes ti.bitlen
  let diskfile := diskfile.write (headerAt ti.track) buf
  if ti.len > (len + 7) / 8 then (diskfile.write ti.offs (List.replicate ti.len 0), ti)
  else (diskfile, ti)

/-- `bigmfmbufw` after the loop. -/
def swapWords (bigmfmbuf : Nat → Word) (offset n : Nat) (bigmfmbufw : Nat → Word) : Nat → Word :=
  loop (fun i w => Function.update w ((i + offset) % maxmfmbuf)
    (swapWord (memoryBytes bigmfmbuf) ((i + offset) % maxmfmbuf))) n bigmfmbufw

/-- Write a raw track to the disk file. -/
def driveWriteExt2 (bigmfmbuf bigmfmbufw : Nat → Word) (diskfile : DiskFile) (ti : Ext2Track)
    (tracklen : Nat) : DiskFile × Ext2Track :=
  let len := (tracklen + 7) / 8
  let offset := if len > ti.len then (len - ti.len) / 2 else 0
  let len := if len > ti.len then ti.len else len
  let (diskfile, ti) := diskfileUpdate diskfile ti tracklen
  let bigmfmbufw := swapWords bigmfmbuf offset (ti.len / 2) bigmfmbufw
  (diskfile.write ti.offs ((memoryBytes bigmfmbufw).slice 0 len), ti)

/-! ### Reading -/

/-- What is taken off the length of the first track of a Kickstart disk. -/
def kickGap (filetype : DriveFiletype) (track : Nat) : Nat :=
  if track ≠ 0 then 0
  else if filetype = .kick then 512
  else if filetype = .skick then 1024
  else 0

/-- `"KICK"` and `"KICKSUP0"`. -/
def kickSign : DriveFiletype → List Byte
  | .kick => [0x4b, 0x49, 0x43, 0x4b]
  | .skick => [0x4b, 0x49, 0x43, 0x4b, 0x53, 0x55, 0x50, 0x30]
  | _ => []

/-- `read_floppy_data` from sector 0 to a track buffer; none where it reads more than the buffer
has room for. -/
def readFloppyData (diskfile : DiskFile) (filetype : DriveFiletype) (track offs len : Nat)
    (dst : Image) : Option Image :=
  if len = 0 then some dst
  else
    let gap := kickGap filetype track
    let dst := if gap ≠ 0 then
        (dst.blit 0 (List.replicate (min len 512) 0)).blit 0 (kickSign filetype)
      else dst
    -- a length below zero is taken for a size
    let size := if gap ≤ len then len - gap else 2 ^ 64 + len - gap
    let bs := diskfile.read offs size
    if bs.length > 2 * maxmfmbuf then none else some (dst.blit 0 bs)

/-- The branch of `drive_fill_bigbuf` for `writetrackdata`: the track length and the buffer. -/
def fillWritten (filetype : DriveFiletype) (diskfile : DiskFile) (ti : Ext2Track)
    (bigmfmbuf : Nat → Word) : Option (Nat × (Nat → Word)) := do
  let tracklen := ti.bitlen
  let m ← readFloppyData diskfile filetype ti.track ti.offs ((ti.bitlen + 7) / 8)
    (memoryBytes bigmfmbuf)
  return (tracklen, fun i => if i < (tracklen + 15) / 16 then swapWord m i else bigmfmbuf i)

/-- The branch for raw tracks, which only extended disk files have. -/
def fillRaw (diskfile : DiskFile) (ti : Ext2Track) (bigmfmbuf : Nat → Word) :
    Nat × (Nat → Word) :=
  let baseOffset := if ti.type = .raw then 0 else 1
  let tracklen := ti.bitlen + 16 * baseOffset
  let bigmfmbuf := Function.update bigmfmbuf 0 ti.sync
  let m := (memoryBytes bigmfmbuf).blit (2 * baseOffset)
    (diskfile.read ti.offs ((ti.bitlen + 7) / 8))
  (tracklen, fun i =>
    if baseOffset ≤ i ∧ i < (tracklen + 15) / 16 then swapWord m i else bigmfmbuf i)

/-- A write of a track is confined to its header entry and its slot, records no more bits than the
slot has, and is read back. -/
structure WritesTrack (filetype : DriveFiletype) (bigmfmbuf : Nat → Word) (diskfile : DiskFile)
    (ti : Ext2Track) (tracklen : Nat) (r : DiskFile × Ext2Track) : Prop where
  confined : ∀ j, ¬ (headerAt ti.track ≤ j ∧ j < headerAt ti.track + 12) →
    ¬ (ti.offs ≤ j ∧ j < ti.offs + ti.len) → r.1.image j = diskfile.image j
  length : r.1.length ≤ max diskfile.length (ti.offs + ti.len)
  recorded : r.1.image.getLong (headerAt ti.track + 8) = r.2.bitlen % 2 ^ 32
  bitlen : r.2.bitlen ≤ 8 * ti.len
  readWritten : ∀ stale : Nat → Word, ∃ len buf,
    fillWritten filetype r.1 r.2 stale = some (len, buf) ∧ min tracklen (8 * ti.len) ≤ len ∧
      ∀ k < min tracklen (8 * ti.len), bitAt buf k = bitAt bigmfmbuf k
  readRaw : ∀ stale : Nat → Word, min tracklen (8 * ti.len) ≤ (fillRaw r.1 r.2 stale).1 ∧
    ∀ k < min tracklen (8 * ti.len), bitAt (fillRaw r.1 r.2 stale).2 k = bitAt bigmfmbuf k

/-- The bit of the sector that is made up for a Kickstart disk. -/
def kickBit (k : Nat) : Bool :=
  ((kickSign .kick ++ List.replicate 508 0).getD (k / 8) 0).getMsbD (k % 8)

/-- What is read back of the first track of a Kickstart disk is the whole track: it is shorter than
what is taken off and the rest of the file has room in the buffer, or it happens to be the sector
that is made up. -/
def ReadsWhole (filetype : DriveFiletype) (bigmfmbuf : Nat → Word) (diskfile : DiskFile)
    (ti : Ext2Track) (tracklen : Nat) : Prop :=
  kickGap filetype ti.track ≠ 0 → tracklen ≠ 0 →
    ((tracklen + 7) / 8 < kickGap filetype ti.track ∧
      diskfile.length ≤ ti.offs + 2 * maxmfmbuf) ∨
    (filetype = .kick ∧ (tracklen + 7) / 8 = 512 ∧
      ∀ k < tracklen, bitAt bigmfmbuf k = kickBit k)

variable {bigmfmbuf bigmfmbufw : Nat → Word} {diskfile : DiskFile} {ti : Ext2Track}
  {tracklen : Nat} {filetype : DriveFiletype}

/-- The words of the loop, where the track starts at the first word. -/
theorem swapWords_apply {n x : Nat} (hx : x < maxmfmbuf) (hn : x < n) :
    swapWords bigmfmbuf 0 n bigmfmbufw x = swapWord (memoryBytes bigmfmbuf) x := by
  induction n with
  | zero => exact absurd hn (Nat.not_lt_zero _)
  | succ n ih =>
    rw [swapWords, loop_succ, Nat.add_zero]
    by_cases hsame : x = n % maxmfmbuf
    · rw [← hsame, Function.update_self]
    · rw [Function.update_of_ne hsame]
      refine ih (lt_of_le_of_ne (Nat.le_of_lt_succ hn) ?_)
      rintro rfl
      exact hsame (Nat.mod_eq_of_lt hx).symm

/-- A word in memory, and the same word with its bytes swapped. -/
theorem swapWord_memoryBytes (buf : Nat → Word) (i : Nat) :
    swapWord (memoryBytes buf) i = word16 (byteAt (buf i) 0) (byteAt (buf i) 8) := by
  have h0 : 2 * i % 2 = 0 := by omega
  have h1 : ¬ (2 * i + 1) % 2 = 0 := by omega
  have hd0 : 2 * i / 2 = i := by omega
  have hd1 : (2 * i + 1) / 2 = i := by omega
  simp only [swapWord, memoryBytes, h0, h1, hd0, hd1, if_true, if_false]

theorem byteAt_swapWord (buf : Nat → Word) (i : Nat) :
    byteAt (swapWord (memoryBytes buf) i) 0 = byteAt (buf i) 8 ∧
      byteAt (swapWord (memoryBytes buf) i) 8 = byteAt (buf i) 0 := by
  have h := be16_word16 (byteAt (buf i) 0) (byteAt (buf i) 8)
  rw [← swapWord_memoryBytes, be16, List.cons.injEq, List.cons.injEq] at h
  exact ⟨h.2.1, h.1⟩

/-- The high byte of a word has its first eight bits, and the low byte the others. -/
theorem getMsbD_word16 (b1 b0 : Byte) {k : Nat} (hk : k < 16) :
    (word16 b1 b0).getMsbD k = if k < 8 then b1.getMsbD k else b0.getMsbD (k - 8) := by
  have hbytes := be16_word16 b1 b0
  rw [be16, List.cons.injEq, List.cons.injEq] at hbytes
  have h1 : ∀ j < 8, b1.getLsbD j = (word16 b1 b0).getLsbD (8 + j) := by
    intro j hj
    have hbit := congrArg (BitVec.getLsbD · j) hbytes.1
    simp only [byteAt, BitVec.getLsbD_setWidth, BitVec.getLsbD_ushiftRight, hj, decide_true,
      Bool.true_and] at hbit
    exact hbit.symm
  have h0 : ∀ j < 8, b0.getLsbD j = (word16 b1 b0).getLsbD j := by
    intro j hj
    have hbit := congrArg (BitVec.getLsbD · j) hbytes.2.1
    simp only [byteAt, BitVec.getLsbD_setWidth, BitVec.getLsbD_ushiftRight, hj, decide_true,
      Bool.true_and, Nat.zero_add] at hbit
    exact hbit.symm
  rw [BitVec.getMsbD_eq_getLsbD]
  split_ifs with h8
  · rw [BitVec.getMsbD_eq_getLsbD, h1 _ (by omega)]
    have hidx : 8 + (8 - 1 - k) = 16 - 1 - k := by omega
    simp [hk, h8, hidx]
  · rw [BitVec.getMsbD_eq_getLsbD, h0 _ (by omega)]
    have hidx : 8 - 1 - (k - 8) = 16 - 1 - k := by omega
    have hlt : k - 8 < 8 := by omega
    simp [hk, hlt, hidx]

/-- What is read back: the bytes of the buffer, high byte first. -/
theorem bitAt_swapWord {m : Image} {buf : Nat → Word} {n k : Nat} (hk : k < 8 * n)
    (hm : ∀ j < n, m j = if j % 2 = 0 then byteAt (buf (j / 2)) 8 else byteAt (buf (j / 2)) 0) :
    (swapWord m (k / 16)).getMsbD (k % 16) = bitAt buf k := by
  have hlt : k % 16 < 16 := Nat.mod_lt _ (by omega)
  have hsplit : buf (k / 16) = word16 (byteAt (buf (k / 16)) 8) (byteAt (buf (k / 16)) 0) :=
    (word16_byteAt _).symm
  rw [bitAt, hsplit, swapWord, getMsbD_word16 _ _ hlt, getMsbD_word16 _ _ hlt]
  split_ifs with h8
  · have heven : 2 * (k / 16) % 2 = 0 := by omega
    have hhalf : 2 * (k / 16) / 2 = k / 16 := by omega
    rw [hm _ (by omega), if_pos heven, hhalf]
  · have hodd : ¬ (2 * (k / 16) + 1) % 2 = 0 := by omega
    have hhalf : (2 * (k / 16) + 1) / 2 = k / 16 := by omega
    rw [hm _ (by omega), if_neg hodd, hhalf]

theorem getElem_memoryBytes_swapWords {n len j : Nat} (hlen : len ≤ 2 * n)
    (hn : n ≤ maxmfmbuf) (hj : j < len) :
    memoryBytes (swapWords bigmfmbuf 0 n bigmfmbufw) j =
      if j % 2 = 0 then byteAt (bigmfmbuf (j / 2)) 8 else byteAt (bigmfmbuf (j / 2)) 0 := by
  have hword := @swapWords_apply bigmfmbuf bigmfmbufw n (j / 2) (by omega) (by omega)
  obtain ⟨h0, h8⟩ := byteAt_swapWord bigmfmbuf (j / 2)
  rw [memoryBytes, hword, h0, h8]

theorem diskfileUpdate_track (diskfile : DiskFile) (ti : Ext2Track) (len : Nat) :
    (diskfileUpdate diskfile ti len).2 = { ti with revolutions := 1, bitlen := len, type := .raw } := by
  simp only [diskfileUpdate]
  split_ifs <;> rfl

theorem write_apply_of_not {f : DiskFile} {off j : Nat} {bs : List Byte}
    (h : ¬ (off ≤ j ∧ j < off + bs.length)) : (f.write off bs).image j = f.image j := by
  change f.image.blit off bs j = f.image j
  rw [blit, if_neg h]

theorem length_write_le (f : DiskFile) (off : Nat) (bs : List Byte) :
    (f.write off bs).length ≤ max f.length (off + bs.length) := by
  rw [DiskFile.write]
  simp only
  split_ifs
  · exact Nat.le_max_left _ _
  · exact le_rfl

/-- What the header update leaves alone, and what it records. -/
theorem diskfileUpdate_spec (diskfile : DiskFile) (ti : Ext2Track) (len : Nat) :
    (∀ j, ¬ (headerAt ti.track ≤ j ∧ j < headerAt ti.track + 12) →
      ¬ (ti.offs ≤ j ∧ j < ti.offs + ti.len) →
      (diskfileUpdate diskfile ti len).1.image j = diskfile.image j) ∧
    (diskfileUpdate diskfile ti len).1.length ≤ max diskfile.length (ti.offs + ti.len) ∧
    (diskfileUpdate diskfile ti len).1.image.getLong (headerAt ti.track + 8) = len % 2 ^ 32 := by
  have hbehind := ti.behindHeader
  have hheader : headerAt ti.track = 12 + 12 * ti.track := rfl
  have hbuf : ([0, 0, 0, 1] ++ longBytes ti.len ++ longBytes len).length = 12 := by simp
  have hrecorded : (diskfile.write (headerAt ti.track) ([0, 0, 0, 1] ++ longBytes ti.len ++
      longBytes len)).image.getLong (headerAt ti.track + 8) = len % 2 ^ 32 := by
    have hsplit := blit_append diskfile.image (headerAt ti.track)
      ([0, 0, 0, 1] ++ longBytes ti.len) (longBytes len)
    rw [DiskFile.write, ← hsplit]
    exact getLong_putLong _ _ _
  have hlength : (diskfile.write (headerAt ti.track) ([0, 0, 0, 1] ++ longBytes ti.len ++
      longBytes len)).length ≤ max diskfile.length (ti.offs + ti.len) :=
    (length_write_le _ _ _).trans (by rw [hbuf]; omega)
  simp only [diskfileUpdate]
  split_ifs
  · refine ⟨fun j h1 h2 => ?_, ?_, ?_⟩
    · rw [write_apply_of_not (by rwa [List.length_replicate]), write_apply_of_not (by rwa [hbuf])]
    · exact (length_write_le _ _ _).trans (max_le hlength
        (by rw [List.length_replicate]; exact Nat.le_max_right _ _))
    · rw [← hrecorded]
      exact (agree_blit (.inl (by omega))).getLong
  · exact ⟨fun j h1 h2 => write_apply_of_not (by rwa [hbuf]), hlength, hrecorded⟩

/-- A bit of a swapped word in memory. -/
theorem getMsbD_swapWord (m : Image) (k : Nat) :
    (swapWord m (k / 16)).getMsbD (k % 16) = (m (k / 8)).getMsbD (k % 8) := by
  rw [swapWord, getMsbD_word16 _ _ (Nat.mod_lt _ (by omega))]
  split_ifs with h8
  · have hbyte : 2 * (k / 16) = k / 8 := by omega
    have hbit : k % 16 = k % 8 := by omega
    rw [hbyte, hbit]
  · have hbyte : 2 * (k / 16) + 1 = k / 8 := by omega
    have hbit : k % 16 - 8 = k % 8 := by omega
    rw [hbyte, hbit]

/-- The bytes of a track that are in the file come back, over any memory. -/
theorem read_bytes {f : DiskFile} {buf : Nat → Word} {dst : Image} {offs n size : Nat}
    (hsize : n ≤ size) (hlen : offs + n ≤ f.length)
    (hf : ∀ j < n, f.image (offs + j) =
      if j % 2 = 0 then byteAt (buf (j / 2)) 8 else byteAt (buf (j / 2)) 0) {j : Nat} (hj : j < n) :
    dst.blit 0 (f.read offs size) j =
      if j % 2 = 0 then byteAt (buf (j / 2)) 8 else byteAt (buf (j / 2)) 0 := by
  rw [DiskFile.read, blit_slice_apply, if_pos (by omega), Nat.sub_zero]
  exact hf j hj

/-! ### The first track of a Kickstart disk -/

section Kick

variable {f : DiskFile} {dst m : Image} {track offs n : Nat}

theorem kickGap_cases (filetype : DriveFiletype) (track : Nat) :
    kickGap filetype track = 0 ∨ (filetype = .kick ∧ kickGap filetype track = 512) ∨
      (filetype = .skick ∧ kickGap filetype track = 1024) := by
  rw [kickGap]
  split_ifs with htrack hkick hskick
  · exact .inl rfl
  · exact .inr (.inl ⟨hkick, rfl⟩)
  · exact .inr (.inr ⟨hskick, rfl⟩)
  · exact .inl rfl

theorem kickGap_kick (hgap : kickGap .kick track ≠ 0) : kickGap .kick track = 512 := by
  rcases kickGap_cases .kick track with hzero | ⟨-, h512⟩ | ⟨hskick, -⟩
  · exact absurd hzero hgap
  · exact h512
  · cases hskick

/-- Where nothing is taken off, or more than there is, all of the track is read. -/
theorem readFloppyData_whole (dst : Image) (hn : n ≤ 2 * maxmfmbuf)
    (hgap : kickGap filetype track = 0 ∨ n = 0 ∨
      n < kickGap filetype track ∧ f.length ≤ offs + 2 * maxmfmbuf) :
    ∃ (dst' : Image) (size : Nat), n ≤ size ∧ readFloppyData f filetype track offs n dst =
      some (if n = 0 then dst else dst'.blit 0 (f.read offs size)) := by
  have hcases := kickGap_cases filetype track
  rw [readFloppyData]
  dsimp only
  generalize kickGap filetype track = gap at *
  by_cases hzero : n = 0
  · exact ⟨dst, n, Nat.le_refl n, by rw [if_pos hzero, if_pos hzero]⟩
  have hmax : maxmfmbuf = 32768 := rfl
  have hroom : ¬ (f.read offs (if gap ≤ n then n - gap else 2 ^ 64 + n - gap)).length >
      2 * maxmfmbuf := by
    rw [DiskFile.read, length_slice]
    split_ifs <;> omega
  refine ⟨if gap ≠ 0 then
      (dst.blit 0 (List.replicate (min n 512) 0)).blit 0 (kickSign filetype) else dst,
    if gap ≤ n then n - gap else 2 ^ 64 + n - gap, ?_, ?_⟩
  · split_ifs <;> omega
  · rw [if_neg hzero, if_neg hzero, if_neg hroom]

/-- What is read where more than there is was taken off has room in the buffer. -/
theorem readFloppyData_room (hn : n ≠ 0) (hlt : n < kickGap filetype track)
    (h : readFloppyData f filetype track offs n dst = some m) :
    f.length ≤ offs + 2 * maxmfmbuf := by
  have hcases := kickGap_cases filetype track
  have hmax : maxmfmbuf = 32768 := rfl
  rw [readFloppyData, if_neg hn] at h
  dsimp only at h
  rw [if_neg (Nat.not_le_of_lt hlt), DiskFile.read, length_slice] at h
  by_contra hlong
  rw [if_pos (by omega)] at h
  cases h

/-- Of a track as long as what is taken off nothing is read. -/
theorem readFloppyData_made (f : DiskFile) (offs : Nat) (dst : Image) (hgap : kickGap filetype track = 512) :
    ∃ m, readFloppyData f filetype track offs 512 dst = some m := by
  rw [readFloppyData, if_neg (by decide)]
  dsimp only
  rw [hgap, if_pos (Nat.le_refl 512), Nat.sub_self, DiskFile.read, Nat.zero_min, slice_zero,
    if_neg (by decide)]
  exact ⟨_, rfl⟩

/-- Behind what is read the buffer has the sector that is made up, and what it had before. -/
theorem readFloppyData_behind (hgap : kickGap filetype track ≠ 0)
    (hle : kickGap filetype track ≤ n)
    (h : readFloppyData f filetype track offs n dst = some m) {j : Nat}
    (hj : n - kickGap filetype track ≤ j) :
    m j = if j < 512 then (kickSign filetype ++ List.replicate 508 0).getD j 0 else dst j := by
  have hcases := kickGap_cases filetype track
  have hsign : (kickSign filetype).length ≤ 8 := by cases filetype <;> decide
  have hfour : 4 ≤ (kickSign filetype).length := by
    rcases hcases with hzero | ⟨hkick, -⟩ | ⟨hskick, -⟩
    · exact absurd hzero hgap
    · rw [hkick]
      decide
    · rw [hskick]
      decide
  rw [readFloppyData, if_neg (by omega)] at h
  dsimp only at h
  rw [if_pos hle, if_pos hgap] at h
  split_ifs at h
  obtain rfl := Option.some.inj h
  have hlen : (f.read offs (n - kickGap filetype track)).length ≤ j := by
    rw [DiskFile.read, length_slice]
    omega
  have hmin : min n 512 = 512 := by omega
  rw [blit_of_ge (by omega), hmin]
  simp only [blit, Nat.zero_le, true_and, Nat.zero_add, Nat.sub_zero, List.length_replicate]
  by_cases hin : j < (kickSign filetype).length
  · rw [if_pos hin, if_pos (by omega), List.getD_append _ _ _ _ hin]
  · rw [if_neg hin]
    split_ifs with h512
    · have hrest : j - (kickSign filetype).length < 508 := by omega
      rw [List.getD_append_right _ _ _ _ (by omega), List.getD_replicate _ h512,
        List.getD_replicate _ hrest]
    · rfl

end Kick

/-- What `fillWritten` makes of the bytes. -/
theorem fillWritten_eq_some {stale buf : Nat → Word} {len : Nat} :
    fillWritten filetype diskfile ti stale = some (len, buf) ↔
      ∃ m, readFloppyData diskfile filetype ti.track ti.offs ((ti.bitlen + 7) / 8)
          (memoryBytes stale) = some m ∧ len = ti.bitlen ∧
        buf = fun i => if i < (ti.bitlen + 15) / 16 then swapWord m i else stale i := by
  rw [fillWritten]
  cases readFloppyData diskfile filetype ti.track ti.offs ((ti.bitlen + 7) / 8)
      (memoryBytes stale) with
  | none => simp
  | some m =>
    simp only [bind, Option.bind, pure, Option.some.injEq, Prod.mk.injEq, exists_eq_left']
    exact and_congr eq_comm eq_comm

/-- A track that fits is written and read back. -/
theorem writesTrack_of_fits (heven : ti.len % 2 = 0) (hfits : tracklen ≤ 8 * ti.len)
    (hwhole : ReadsWhole filetype bigmfmbuf diskfile ti tracklen) :
    WritesTrack filetype bigmfmbuf diskfile ti tracklen
      (driveWriteExt2 bigmfmbuf bigmfmbufw diskfile ti tracklen) := by
  have hnot : ¬ (tracklen + 7) / 8 > ti.len := by omega
  have hbehind := ti.behindHeader
  have hmax := ti.len_lt
  have hheader : headerAt ti.track = 12 + 12 * ti.track := rfl
  obtain ⟨hconfined, hlength, hrecorded⟩ := diskfileUpdate_spec diskfile ti tracklen
  have htrack := diskfileUpdate_track diskfile ti tracklen
  simp only [driveWriteExt2, if_neg hnot]
  generalize diskfileUpdate diskfile ti tracklen = u at hconfined hlength hrecorded htrack ⊢
  obtain ⟨file, ti'⟩ := u
  obtain rfl : ti' = { ti with revolutions := 1, bitlen := tracklen, type := .raw } := htrack
  simp only at hconfined hlength hrecorded ⊢
  generalize hw : swapWords bigmfmbuf 0 (ti.len / 2) bigmfmbufw = w
  have hbytes : ((memoryBytes w).slice 0 ((tracklen + 7) / 8)).length = (tracklen + 7) / 8 :=
    length_slice ..
  have hdata : ∀ j < (tracklen + 7) / 8,
      (file.write ti.offs ((memoryBytes w).slice 0 ((tracklen + 7) / 8))).image (ti.offs + j) =
        if j % 2 = 0 then byteAt (bigmfmbuf (j / 2)) 8 else byteAt (bigmfmbuf (j / 2)) 0 := by
    intro j hj
    change (file.image.blit ti.offs _) (ti.offs + j) = _
    rw [blit_slice_apply, if_pos (by omega), Nat.add_sub_cancel_left, Nat.zero_add, ← hw]
    exact @getElem_memoryBytes_swapWords _ _ (ti.len / 2) ((tracklen + 7) / 8) j (by omega)
      (by simp only [maxmfmbuf]; omega) hj
  have hend : tracklen ≠ 0 → ti.offs + (tracklen + 7) / 8 ≤
      (file.write ti.offs ((memoryBytes w).slice 0 ((tracklen + 7) / 8))).length := by
    intro hpos
    have hne : (memoryBytes w).slice 0 ((tracklen + 7) / 8) ≠ [] := by
      intro hnil
      rw [hnil, List.length_nil] at hbytes
      omega
    rw [DiskFile.write, if_neg hne, hbytes]
    exact Nat.le_max_right _ _
  have hwritten : (file.write ti.offs ((memoryBytes w).slice 0 ((tracklen + 7) / 8))).length ≤
      max diskfile.length (ti.offs + ti.len) := by
    refine (length_write_le _ _ _).trans (max_le hlength ?_)
    rw [hbytes]
    omega
  have hmaxbuf : maxmfmbuf = 32768 := rfl
  refine ⟨fun j h1 h2 => ?_, hwritten, ?_, hfits, fun stale => ?_, fun stale => ?_⟩
  · rw [write_apply_of_not (by omega)]
    exact hconfined j h1 h2
  · rw [← hrecorded]
    exact (agree_blit (.inl (by omega))).getLong
  · generalize file.write ti.offs ((memoryBytes w).slice 0 ((tracklen + 7) / 8)) = f at *
    by_cases hkick : kickGap filetype ti.track ≠ 0 ∧ tracklen ≠ 0 ∧
        kickGap filetype ti.track ≤ (tracklen + 7) / 8
    · -- the sector that is made up
      obtain ⟨hgap, hpos, hle⟩ := hkick
      obtain ⟨hft, hn, hsame⟩ := (hwhole hgap hpos).resolve_left fun h => by omega
      subst hft
      have hgap512 := kickGap_kick hgap
      obtain ⟨m, hm⟩ := readFloppyData_made f ti.offs (memoryBytes stale) hgap512
      refine ⟨tracklen, _, fillWritten_eq_some.mpr ⟨m, hn ▸ hm, rfl, rfl⟩, Nat.min_le_left _ _,
        fun k hk => ?_⟩
      have hk' : k < tracklen := lt_of_lt_of_le hk (Nat.min_le_left _ _)
      have hbehind := readFloppyData_behind (j := k / 8) hgap (hgap512 ▸ Nat.le_refl 512) hm
        (by omega)
      have hin : k / 16 < (tracklen + 15) / 16 := by omega
      rw [bitAt, if_pos hin, getMsbD_swapWord, hbehind, if_pos (by omega), hsame k hk', kickBit]
    · -- nothing is taken off, or the length wraps around and the rest of the file is read
      have hgap : kickGap filetype ti.track = 0 ∨ (tracklen + 7) / 8 = 0 ∨
          (tracklen + 7) / 8 < kickGap filetype ti.track ∧ f.length ≤ ti.offs + 2 * maxmfmbuf := by
        by_cases hzero : kickGap filetype ti.track = 0
        · exact .inl hzero
        · refine .inr ?_
          by_cases hpos : tracklen = 0
          · exact .inl (by omega)
          · have hlt : (tracklen + 7) / 8 < kickGap filetype ti.track :=
              Nat.lt_of_not_le fun hle => hkick ⟨hzero, hpos, hle⟩
            obtain hshort | ⟨hft, hn, -⟩ := hwhole hzero hpos
            · exact .inr ⟨hlt, by omega⟩
            · have hgap512 := kickGap_kick (hft ▸ hzero)
              rw [hft] at hlt
              omega
      obtain ⟨dst', size, hsize, hread⟩ :=
        readFloppyData_whole (memoryBytes stale) (by omega) hgap
      refine ⟨tracklen, _, fillWritten_eq_some.mpr ⟨_, hread, rfl, rfl⟩, Nat.min_le_left _ _,
        fun k hk => ?_⟩
      have hk' : k < tracklen := lt_of_lt_of_le hk (Nat.min_le_left _ _)
      have hin : k / 16 < (tracklen + 15) / 16 := by omega
      rw [bitAt, if_pos hin, if_neg (show ¬ (tracklen + 7) / 8 = 0 by omega)]
      exact bitAt_swapWord (by omega) fun j hj => read_bytes hsize (hend (by omega)) hdata hj
  · refine ⟨Nat.min_le_left _ _, fun k hk => ?_⟩
    have hk' : k < tracklen := lt_of_lt_of_le hk (Nat.min_le_left _ _)
    have hin : k / 16 < (tracklen + 15) / 16 := by omega
    rw [fillRaw, bitAt]
    simp only [if_true, Nat.mul_zero, Nat.add_zero, Nat.zero_le, true_and, if_pos hin]
    exact bitAt_swapWord (by omega) fun j hj => read_bytes (Nat.le_refl _) (hend (by omega)) hdata hj

/-- The write makes the file no shorter. -/
theorem le_length_driveWriteExt2 :
    diskfile.length ≤ (driveWriteExt2 bigmfmbuf bigmfmbufw diskfile ti tracklen).1.length := by
  have hgrows : ∀ (f : DiskFile) (off : Nat) (bs : List Byte),
      f.length ≤ (f.write off bs).length := by
    intro f off bs
    rw [DiskFile.write]
    dsimp only
    split_ifs
    · exact Nat.le_refl _
    · exact Nat.le_max_left _ _
  have hupdate : diskfile.length ≤ (diskfileUpdate diskfile ti tracklen).1.length := by
    simp only [diskfileUpdate]
    split_ifs
    · exact (hgrows _ _ _).trans (hgrows _ _ _)
    · exact hgrows _ _ _
  exact hupdate.trans (hgrows _ _ _)

/-- **Raw tracks.** A write does what it should exactly if the track fits into its slot and what is
read back of the first track of a Kickstart disk is whole. -/
theorem writesTrack_iff (heven : ti.len % 2 = 0) :
    WritesTrack filetype bigmfmbuf diskfile ti tracklen
      (driveWriteExt2 bigmfmbuf bigmfmbufw diskfile ti tracklen) ↔
    tracklen ≤ 8 * ti.len ∧ ReadsWhole filetype bigmfmbuf diskfile ti tracklen := by
  refine ⟨fun h => ?_, fun h => writesTrack_of_fits heven h.1 h.2⟩
  have hgrown := @le_length_driveWriteExt2 bigmfmbuf bigmfmbufw diskfile ti tracklen
  have htrack : (driveWriteExt2 bigmfmbuf bigmfmbufw diskfile ti tracklen).2 =
      { ti with revolutions := 1, bitlen := tracklen, type := .raw } := by
    simp only [driveWriteExt2, diskfileUpdate_track]
  generalize driveWriteExt2 bigmfmbuf bigmfmbufw diskfile ti tracklen = r at h hgrown htrack
  obtain ⟨f, ti'⟩ := r
  obtain rfl : ti' = { ti with revolutions := 1, bitlen := tracklen, type := .raw } := htrack
  have hfits : tracklen ≤ 8 * ti.len := h.bitlen
  refine ⟨hfits, fun hgap hpos => ?_⟩
  have hread : ∀ stale : Nat → Word, ∃ m,
      readFloppyData f filetype ti.track ti.offs ((tracklen + 7) / 8) (memoryBytes stale) =
        some m ∧ ∀ k < tracklen, (m (k / 8)).getMsbD (k % 8) = bitAt bigmfmbuf k := by
    intro stale
    obtain ⟨len, buf, hfill, -, hbits⟩ := h.readWritten stale
    obtain ⟨m, hm, -, rfl⟩ := fillWritten_eq_some.mp hfill
    refine ⟨m, hm, fun k hk => ?_⟩
    have hbit := hbits k (by omega)
    rw [bitAt, if_pos (by dsimp only; omega), getMsbD_swapWord] at hbit
    exact hbit
  by_cases hlt : (tracklen + 7) / 8 < kickGap filetype ti.track
  · -- the length wraps around, so the file has to end inside the buffer
    obtain ⟨m, hm, -⟩ := hread fun _ => 0
    exact .inl ⟨hlt, hgrown.trans (readFloppyData_room (by omega) hlt hm)⟩
  · have hle := Nat.le_of_not_lt hlt
    by_cases hmade : filetype = .kick ∧ (tracklen + 7) / 8 = 512
    · obtain ⟨rfl, hn⟩ := hmade
      refine .inr ⟨rfl, hn, fun k hk => ?_⟩
      obtain ⟨m, hm, hbits⟩ := hread fun _ => 0
      have hgap512 := kickGap_kick hgap
      rw [← hbits k hk, readFloppyData_behind (j := k / 8) hgap hle hm (by omega),
        if_pos (by omega), kickBit]
    · -- the last bit is what the buffer had before
      have hlast : 512 ≤ (tracklen - 1) / 8 := by
        rcases kickGap_cases filetype ti.track with hzero | ⟨hkick, hg⟩ | ⟨-, hg⟩
        · exact absurd hzero hgap
        · have hne : (tracklen + 7) / 8 ≠ 512 := fun hn => hmade ⟨hkick, hn⟩
          omega
        · omega
      have hstale : ∀ stale : Nat → Word, (memoryBytes stale ((tracklen - 1) / 8)).getMsbD
          ((tracklen - 1) % 8) = bitAt bigmfmbuf (tracklen - 1) := by
        intro stale
        obtain ⟨m, hm, hbits⟩ := hread stale
        rw [← hbits (tracklen - 1) (by omega),
          readFloppyData_behind (j := (tracklen - 1) / 8) hgap hle hm (by omega),
          if_neg (by omega)]
      have hzero := hstale fun _ => 0
      have hones := hstale fun _ => 0xffff
      have hmod : (tracklen - 1) % 8 < 8 := Nat.mod_lt _ (by decide)
      rw [← hzero, memoryBytes, memoryBytes] at hones
      generalize (tracklen - 1) % 8 = i at hones hmod
      split_ifs at hones
      · exact absurd hones (by revert i; decide)
      · exact absurd hones (by revert i; decide)

/-- The first track of a file with one track, and a slot of four bytes. -/
def tinyTrack : Ext2Track where
  type := .raw
  offs := 24
  len := 4
  len_lt := by decide
  bitlen := 32
  track := 0
  sync := 0
  revolutions := 1
  behindHeader := by decide

theorem writesTrack_tiny : WritesTrack .ext2 (fun _ => 0x4489) ⟨fun _ => 0, 28⟩ tinyTrack 30
    (driveWriteExt2 (fun _ => 0x4489) (fun _ => 0) ⟨fun _ => 0, 28⟩ tinyTrack 30) ↔
    30 ≤ 8 * tinyTrack.len ∧ ReadsWhole .ext2 (fun _ => 0x4489) ⟨fun _ => 0, 28⟩ tinyTrack 30 :=
  writesTrack_iff rfl

/-- A track of 33 bits in a slot of 32 is recorded with 33. -/
theorem oversized_track_recorded : ¬ WritesTrack .ext2 (fun _ => 0x4489) ⟨fun _ => 0, 28⟩
    tinyTrack 33 (driveWriteExt2 (fun _ => 0x4489) (fun _ => 0) ⟨fun _ => 0, 28⟩ tinyTrack 33) :=
  fun h => absurd h.bitlen (by decide)

end LibretroUae.Disk
