import LibretroUae.Lib.Bytes

/-!
# LibretroUae.SaveState.Chunks

**The chunks of a savestate.** A chunk is a name, a size, flags and data, padded with one to four
zeros. Compressed data is written behind its length, and the size is written again afterwards.

The compressor is not part of the program: it is a stream that may end its output early.
-/

namespace LibretroUae.SaveState

open Lib

-- for looking names up in lists of them
scoped instance lawfulBEq_name : LawfulBEq (List Byte) := inferInstance

/-! ### Files -/

structure ZFile where
  bytes : List Byte
  pos : Nat
  deriving DecidableEq, Repr

namespace ZFile

/-- `zfile_fwrite`. -/
def write (data : List Byte) (f : ZFile) : ZFile :=
  ⟨f.bytes.takeD f.pos 0 ++ (data ++ f.bytes.drop (f.pos + data.length)), f.pos + data.length⟩

/-- `zfile_fread` of single bytes. -/
def read (n : Nat) (f : ZFile) : List Byte × ZFile :=
  let data := (f.bytes.drop f.pos).take n
  (data, { f with pos := f.pos + data.length })

def seek (pos : Nat) (f : ZFile) : ZFile := { f with pos }

def seekEnd (f : ZFile) : ZFile := { f with pos := f.bytes.length }

/-- `zfile_ftell32`. -/
def ftell32 (f : ZFile) : Nat := min f.pos 0x7fffffff

end ZFile

/-! ### Compression -/

/-- The compressor: what `deflate` makes of its input, what `inflate` has put out when it was given
so much of a stream, and whether it goes on then. -/
structure Zlib where
  deflate : List Byte → List Byte
  inflated : List Byte → List Byte
  going : List Byte → Bool

/-- What is known of it. -/
structure Zlib.Correct (z : Zlib) : Prop where
  nonempty : ∀ data, z.deflate data ≠ []
  whole : ∀ data, z.inflated (z.deflate data) = data
  part : ∀ data read, read <+: z.deflate data → z.inflated read <+: data
  going : ∀ data read, read <+: z.deflate data → read ≠ z.deflate data → z.going read = true

/-- `zfile_zcompress`; `init` says whether `deflateInit_` succeeds. -/
def zfileZcompress (z : Zlib) (init : Bool) (src : List Byte) (f : ZFile) : ZFile × Nat :=
  if !init then (f, 0)
  else (f.write (z.deflate src), (z.deflate src).length)

/-- The loop of `zfile_zuncompress`, with what was read of the stream. -/
def zuncompressLoop (z : Zlib) (dstsize srcsize : Nat) : Nat → List Byte → ZFile → List Byte × ZFile
  | 0, read, f => (z.inflated read, f)
  | fuel + 1, read, f =>
    if !z.going read || dstsize ≤ (z.inflated read).length then (z.inflated read, f)
    else
      let left := srcsize - read.length
      if left = 0 then (z.inflated read, f)
      else
        let (data, f) := f.read (min left 4096)
        if data = [] then (z.inflated read, f)
        else zuncompressLoop z dstsize srcsize fuel (read ++ data) f

/-- `zfile_zuncompress`: the bytes that were put out. -/
def zfileZuncompress (z : Zlib) (dstsize srcsize : Nat) (f : ZFile) : List Byte × ZFile :=
  let (out, f) := zuncompressLoop z dstsize srcsize (srcsize + 1) [] f
  (out.take dstsize, f)

/-! ### Writing -/

/-- A chunk to be written, and whether the compressor can be started for it. -/
structure Chunk where
  name : List Byte
  data : List Byte
  compress : Bool
  init : Bool
  deriving DecidableEq, Repr

def word (n : Nat) : List Byte := be32 (BitVec.ofNat 32 n)

def padding (len : Nat) : List Byte := List.replicate (4 - len % 4) 0

/-- `save_chunk`. -/
def saveChunk (z : Zlib) (c : Chunk) (f : ZFile) : ZFile :=
  let f := f.write c.name
  let pos := f.ftell32
  let f := f.write (word (c.data.length + 4 + 4 + 4))
  let f := f.write (word (if c.compress then 1 else 0))
  if c.compress then
    let opos := f.ftell32
    let f := f.write (word c.data.length)
    let (f, len) := zfileZcompress z c.init c.data f
    if 0 < len then
      let f := ((f.seek pos).write (word (len + 4 + 4 + 4 + 4))).seekEnd
      f.write (padding len)
    else
      -- The flags that are written here are not where the flags are.
      let f := (f.seek opos).write (word 0)
      (f.write c.data).write (padding c.data.length)
  else (f.write c.data).write (padding c.data.length)

/-! ### Reading -/

/-- What `restore_chunk` returns: the memory is left out for chunks that are loaded directly. -/
structure Restored where
  name : List Byte
  totallen : Nat
  filepos : Nat
  mem : Option (List Byte)
  deriving DecidableEq, Repr

/-- Bytes of a name. -/
def ascii (s : List Char) : List Byte := s.map fun c => BitVec.ofNat 8 c.toNat

/-- The chunks that are loaded during the reset. -/
def ramNames : List (List Byte) :=
  ["CRAM", "BRAM", "FRAM", "ZRAM", "FRA2", "ZRA2", "FRA3", "ZRA3", "FRA4", "ZRA4", "ZCRM", "PRAM",
    "A3K1", "A3K2", "BORO"].map fun s => ascii s.toList

/-- A word that was read, with zeros for what was not there. -/
def wordOf (bytes : List Byte) : Nat :=
  (word32 (bytes.getD 0 0) (bytes.getD 1 0) (bytes.getD 2 0) (bytes.getD 3 0)).toNat

/-- `restore_u32 () - 4 - 4 - 4` as a length. -/
def sizeOf12 (bytes : List Byte) : Nat :=
  (BitVec.ofNat 32 (wordOf bytes) - 12).toInt.toNat

/-- `restore_chunk`; nothing at the end of the file. -/
def restoreChunk (z : Zlib) (f : ZFile) : Option Restored × ZFile :=
  let (name, f) := f.read 4
  if name.length ≠ 4 then (none, f)
  else
    let (size, f) := f.read 4
    if size.length ≠ 4 then (none, f)
    else
      let len := sizeOf12 size
      if len = 0 then (some ⟨name, 0, f.ftell32, none⟩, f)
      else
        let (flags, f) := f.read 4
        if flags.length ≠ 4 then (none, f)
        else
          let packed := wordOf flags % 2 = 1
          let (total, f) := if packed then f.read 4 else ([], f)
          let totallen := if packed then wordOf total else len
          -- A packed chunk holds a length, so its size is 4 at least.
          let len := if packed then len - 4 else len
          let filepos := if packed then f.ftell32 - 12 else f.ftell32 - 8
          let (mem, f) :=
            if name ∈ ramNames then (none, f.seek (f.pos + len))
            else if packed then
              let (out, f) := zfileZuncompress z totallen len f
              (some (out.takeD (totallen + 100) 0), f)
            else
              let (out, f) := f.read len
              (some (out.takeD (totallen + 100) 0), f)
          let (_, f) := f.read (4 - len % 4)
          (some ⟨name, totallen, filepos, mem⟩, f)

/-- `restore_ram`: what is put into the memory. -/
def restoreRam (z : Zlib) (filepos : Nat) (f : ZFile) : List Byte :=
  let (size, f) := (f.seek filepos).read 4
  let (flags, f) := f.read 4
  if wordOf flags % 2 = 1 then
    let (full, f) := f.read 4
    (zfileZuncompress z (wordOf full) (sizeOf12 size - 4) f).1
  else (f.read (sizeOf12 size)).1

/-- `restore_chunk` again and again, and where it stops; the fuel is the length of the file. -/
def restoreChunks (z : Zlib) : Nat → ZFile → List Restored × ZFile
  | 0, f => ([], f)
  | fuel + 1, f =>
    match restoreChunk z f with
    | (none, f) => ([], f)
    | (some r, f) =>
      let (rs, f) := restoreChunks z fuel f
      (r :: rs, f)

/-- All chunks, behind one another. -/
def saveChunks (z : Zlib) (cs : List Chunk) : ZFile := cs.foldl (fun f c => saveChunk z c f) ⟨[], 0⟩

end LibretroUae.SaveState
