import Mathlib.Data.List.TakeDrop
import LibretroUae.SaveState.Chunks

/-!
# LibretroUae.SaveState.ChunkStream

**Chunks come back in order.** A chunk is read back, and the next one is found, where the compressor
could be started and its output does not end before the last piece of the stream is read.
-/

namespace LibretroUae.SaveState

open Lib

/-! ### Files -/

namespace ZFile

theorem takeD_beyond (a : List Byte) (n : Nat) :
    a.takeD (a.length + n) 0 = a ++ List.replicate n 0 := by
  induction a with
  | nil => rw [List.length_nil, Nat.zero_add, List.takeD_nil, List.nil_append]
  | cons x a ih =>
    rw [List.length_cons, Nat.add_right_comm, List.takeD, List.headD_cons, List.tail_cons, ih]
    rfl

/-- A file that stands between `before` and `rest`. -/
def between (before rest : List Byte) : ZFile := ⟨before ++ rest, before.length⟩

theorem write_end (before data : List Byte) :
    (between before []).write data = between (before ++ data) [] := by
  have htake : (before ++ []).takeD before.length 0 = before :=
    List.takeD_left before [] 0
  have hdrop : (before ++ []).drop (before.length + data.length) = [] :=
    List.drop_eq_nil_of_le (by rw [List.append_nil]; omega)
  rw [between, write, htake, hdrop, between, List.append_nil, List.append_nil]
  dsimp only
  rw [List.length_append, List.append_nil]

/-- Writing over as many bytes. -/
theorem write_over (before old rest : List Byte) {data : List Byte}
    (h : data.length = old.length) :
    (between before (old ++ rest)).write data = between (before ++ data) rest := by
  have htake : (before ++ (old ++ rest)).takeD before.length 0 = before :=
    List.takeD_left before _ 0
  have hdrop : (before ++ (old ++ rest)).drop (before.length + data.length) = rest := by
    rw [← List.append_assoc, h, ← List.length_append, List.drop_left]
  rw [between, write, htake, hdrop, between, List.append_assoc, List.length_append]

theorem read_between (before data rest : List Byte) {n : Nat} (hn : n = data.length) :
    (between before (data ++ rest)).read n = (data, between (before ++ data) rest) := by
  rw [between, read]
  dsimp only
  rw [List.drop_left, hn, List.take_left, between, List.append_assoc, List.length_append]

theorem read_none (before : List Byte) (n : Nat) :
    (between before []).read n = ([], between before []) := by
  rw [between, read]
  dsimp only
  rw [List.drop_left, List.take_nil]
  rfl

theorem seek_between (before data rest : List Byte) {n : Nat} (hn : n = data.length) :
    (between before (data ++ rest)).seek ((between before (data ++ rest)).pos + n) =
      between (before ++ data) rest := by
  rw [between, seek, between, List.append_assoc, List.length_append, hn]

theorem ftell32_between {before rest : List Byte} (h : before.length < 2 ^ 31) :
    (between before rest).ftell32 = before.length := by
  change min before.length _ = before.length
  omega

end ZFile

open ZFile

/-! ### What a chunk looks like -/

/-- The data of a chunk as it is stored. -/
def stored (z : Zlib) (c : Chunk) : List Byte :=
  if c.compress then z.deflate c.data else c.data

/-- What stands before the data. -/
def header (z : Zlib) (c : Chunk) : List Byte :=
  if c.compress then
    word ((z.deflate c.data).length + 16) ++ (word 1 ++ word c.data.length)
  else word (c.data.length + 12) ++ word 0

def encoded (z : Zlib) (c : Chunk) : List Byte :=
  c.name ++ (header z c ++ (stored z c ++ padding (stored z c).length))

structure Chunk.WellFormed (c : Chunk) : Prop where
  name : c.name.length = 4
  nonempty : 1 ≤ c.data.length
  small : c.data.length < 2 ^ 31 - 16

/-- The chunks that come back: the compressor could be started, its stream has a size, and, where the
stream is read on the way, no piece of it but the last one makes the output whole. -/
structure Chunk.Kept (z : Zlib) (c : Chunk) : Prop where
  init : c.compress = true → c.init = true
  size : c.compress = true → (z.deflate c.data).length + 16 < 2 ^ 31
  last : c.compress = true → c.name ∉ ramNames → ∀ n, n % 4096 = 0 →
    n < (z.deflate c.data).length → z.inflated ((z.deflate c.data).take n) ≠ c.data

/-- Where positions matter, they fit. -/
def Chunk.Placed (c : Chunk) (pos : Nat) : Prop :=
  c.compress = true ∨ c.name ∈ ramNames → pos + 16 < 2 ^ 31

theorem length_word (n : Nat) : (word n).length = 4 := rfl

theorem wordOf_word {n : Nat} (hn : n < 2 ^ 32) : wordOf (word n) = n := by
  have hword : wordOf (word n) = (BitVec.ofNat 32 n).toNat :=
    congrArg BitVec.toNat (word32_byteAt (BitVec.ofNat 32 n))
  rw [hword, BitVec.toNat_ofNat, Nat.mod_eq_of_lt hn]

theorem sizeOf12_word {n : Nat} (hn : n < 2 ^ 31) (h12 : 12 ≤ n) : sizeOf12 (word n) = n - 12 := by
  have hsub : BitVec.ofNat 32 n - 12 = BitVec.ofNat 32 (n - 12) := by
    have h : n = (n - 12) + 12 := by omega
    rw [h, BitVec.ofNat_add, Nat.add_sub_cancel]
    exact BitVec.add_sub_cancel _ _
  rw [sizeOf12, wordOf_word (by omega), hsub, BitVec.toInt_eq_toNat_of_lt, BitVec.toNat_ofNat,
    Nat.mod_eq_of_lt (by omega), Int.toNat_natCast]
  rw [BitVec.toNat_ofNat, Nat.mod_eq_of_lt (by omega)]
  omega

theorem saveChunk_encoded (z : Zlib) (hz : z.Correct) {c : Chunk} (hform : c.WellFormed)
    (hk : c.Kept z) (before : List Byte) (hplaced : c.Placed before.length) :
    saveChunk z c (between before []) = between (before ++ encoded z c) [] := by
  cases hcompress : c.compress with
  | false =>
    have hno : ¬false = true := Bool.false_ne_true
    simp only [saveChunk, hcompress, if_neg hno, write_end, encoded, header, stored,
      List.append_assoc]
  | true =>
    have hname : (before ++ c.name).length < 2 ^ 31 := by
      have hpos := hplaced (.inl hcompress)
      rw [List.length_append, hform.name]
      omega
    have hpos : 0 < (z.deflate c.data).length := List.length_pos_iff.mpr (hz.nonempty c.data)
    have hover : ((between (before ++ c.name ++ word (c.data.length + 4 + 4 + 4) ++ word 1 ++
        word c.data.length ++ z.deflate c.data) []).seek (before ++ c.name).length) =
        between (before ++ c.name) (word (c.data.length + 4 + 4 + 4) ++ (word 1 ++
          (word c.data.length ++ z.deflate c.data))) := by
      simp only [between, seek, List.append_assoc, List.append_nil]
    have hend : ∀ a b : List Byte, (between a b).seekEnd = between (a ++ b) [] := by
      intro a b
      simp only [between, seekEnd, List.append_nil]
    simp only [saveChunk, hcompress, if_true, hk.init hcompress, zfileZcompress, Bool.not_true,
      if_neg Bool.false_ne_true, write_end, if_pos hpos, ftell32_between hname, hover,
      write_over _ _ _ ((length_word _).trans (length_word _).symm), hend]
    simp only [encoded, header, stored, hcompress, if_true, List.append_assoc]

/-! ### Decompression -/

/-- The loop puts out the data, whichever piece makes the output whole. -/
theorem zuncompressLoop_spec (z : Zlib) (hz : z.Correct) {c : Chunk} (rest : List Byte)
    (fuel n : Nat) (before : List Byte) (hn : n ≤ (z.deflate c.data).length)
    (hpiece : n % 4096 = 0 ∨ n = (z.deflate c.data).length)
    (hfuel : (z.deflate c.data).length < fuel + n) :
    ∃ m, m ≤ (z.deflate c.data).length ∧ (m % 4096 = 0 ∨ m = (z.deflate c.data).length) ∧
      z.inflated ((z.deflate c.data).take m) = c.data ∧
      zuncompressLoop z c.data.length (z.deflate c.data).length fuel ((z.deflate c.data).take n)
          (between (before ++ (z.deflate c.data).take n) ((z.deflate c.data).drop n ++ rest)) =
        (c.data,
          between (before ++ (z.deflate c.data).take m) ((z.deflate c.data).drop m ++ rest)) := by
  induction fuel generalizing n with
  | zero => omega
  | succ fuel ih =>
    rw [zuncompressLoop]
    by_cases hwhole : z.inflated ((z.deflate c.data).take n) = c.data
    · refine ⟨n, hn, hpiece, hwhole, ?_⟩
      rw [hwhole, if_pos]
      rw [Bool.or_eq_true]
      exact .inr (decide_eq_true (Nat.le_refl _))
    · have hlt : n < (z.deflate c.data).length := by
        refine Nat.lt_of_le_of_ne hn fun heq => hwhole ?_
        rw [heq, List.take_length, hz.whole]
      have hpart := List.take_prefix n (z.deflate c.data)
      have hproper : (z.deflate c.data).take n ≠ z.deflate c.data := by
        intro heq
        have hlength := congrArg List.length heq
        rw [List.length_take] at hlength
        omega
      have hshort : (z.inflated ((z.deflate c.data).take n)).length < c.data.length := by
        have hstart := hz.part c.data _ hpart
        exact Nat.lt_of_le_of_ne hstart.length_le fun heq => hwhole (hstart.eq_of_length heq)
      have hread : ((z.deflate c.data).take n).length = n := by
        rw [List.length_take]
        omega
      have hgo : ¬(!z.going ((z.deflate c.data).take n) ||
          decide (c.data.length ≤ (z.inflated ((z.deflate c.data).take n)).length)) = true := by
        rw [hz.going c.data _ hpart hproper]
        simp only [Bool.not_true, Bool.false_or, decide_eq_true_eq]
        omega
      rw [if_neg hgo]
      dsimp only
      rw [hread, if_neg (by omega)]
      -- The next piece.
      have hpieces : (z.deflate c.data).drop n =
          ((z.deflate c.data).drop n).take (min ((z.deflate c.data).length - n) 4096) ++
            (z.deflate c.data).drop (n + min ((z.deflate c.data).length - n) 4096) := by
        rw [← List.drop_drop, List.take_append_drop]
      have hlen : (((z.deflate c.data).drop n).take
          (min ((z.deflate c.data).length - n) 4096)).length =
            min ((z.deflate c.data).length - n) 4096 := by
        rw [List.length_take, List.length_drop]
        omega
      have hnext : (z.deflate c.data).take n ++
          ((z.deflate c.data).drop n).take (min ((z.deflate c.data).length - n) 4096) =
            (z.deflate c.data).take (n + min ((z.deflate c.data).length - n) 4096) :=
        List.take_add.symm
      have hsome : ((z.deflate c.data).drop n).take (min ((z.deflate c.data).length - n) 4096) ≠
          [] := by
        intro hnil
        rw [hnil, List.length_nil] at hlen
        omega
      rw [hpieces, List.append_assoc, read_between _ _ _ hlen.symm]
      dsimp only
      rw [if_neg hsome, List.append_assoc, hnext]
      exact ih _ (by omega) (by omega) (by omega)

theorem zfileZuncompress_spec (z : Zlib) (hz : z.Correct) (c : Chunk) (before rest : List Byte) :
    ∃ m, m ≤ (z.deflate c.data).length ∧ (m % 4096 = 0 ∨ m = (z.deflate c.data).length) ∧
      z.inflated ((z.deflate c.data).take m) = c.data ∧
      zfileZuncompress z c.data.length (z.deflate c.data).length
          (between before (z.deflate c.data ++ rest)) =
        (c.data,
          between (before ++ (z.deflate c.data).take m) ((z.deflate c.data).drop m ++ rest)) := by
  obtain ⟨m, hm, hpiece, hinflated, hloop⟩ :=
    zuncompressLoop_spec z hz (c := c) rest ((z.deflate c.data).length + 1) 0 before (Nat.zero_le _)
      (.inl rfl) (by omega)
  rw [List.take_zero, List.append_nil, List.drop_zero] at hloop
  refine ⟨m, hm, hpiece, hinflated, ?_⟩
  rw [zfileZuncompress, hloop]
  dsimp only
  rw [List.take_length]

/-- The stream is read to its end if only its last piece makes the output whole. -/
theorem zfileZuncompress_whole (z : Zlib) (hz : z.Correct) {c : Chunk} (hk : c.Kept z)
    (hcompress : c.compress = true) (hram : c.name ∉ ramNames) (before rest : List Byte) :
    zfileZuncompress z c.data.length (z.deflate c.data).length
        (between before (z.deflate c.data ++ rest)) =
      (c.data, between (before ++ z.deflate c.data) rest) := by
  obtain ⟨m, hm, hpiece, hinflated, hread⟩ := zfileZuncompress_spec z hz c before rest
  have hend : m = (z.deflate c.data).length := by
    by_contra hne
    exact hk.last hcompress hram m (hpiece.resolve_right hne) (Nat.lt_of_le_of_ne hm hne) hinflated
  rw [hread, hend, List.take_length, List.drop_length, List.nil_append]

/-! ### Reading a chunk -/

/-- What comes back of a chunk that was found at `filepos`. -/
def returned (c : Chunk) (filepos : Nat) : Restored :=
  ⟨c.name, c.data.length, filepos,
    if c.name ∈ ramNames then none else some (c.data ++ List.replicate 100 0)⟩

theorem length_padding (len : Nat) : (padding len).length = 4 - len % 4 := List.length_replicate

theorem restoreChunk_encoded (z : Zlib) (hz : z.Correct) {c : Chunk} (hform : c.WellFormed)
    (hk : c.Kept z) (before rest : List Byte) (hplaced : c.Placed before.length) :
    ∃ filepos, restoreChunk z (between before (encoded z c ++ rest)) =
        (some (returned c filepos), between (before ++ encoded z c) rest) ∧
      (c.name ∈ ramNames → filepos = before.length + 4) := by
  have hpos := hform.nonempty
  have hsmall := hform.small
  have hname4 := hform.name
  cases hcompress : c.compress with
  | false =>
    have hlength : c.data.length + 12 < 2 ^ 31 := by omega
    have hflag : ¬wordOf (word 0) % 2 = 1 := by rw [wordOf_word (by decide)]; decide
    have hat : c.name ∈ ramNames →
        (between (before ++ c.name ++ word (c.data.length + 12) ++ word 0)
          (c.data ++ (padding c.data.length ++ rest))).ftell32 - 8 = before.length + 4 := by
      intro hram
      have hfits := hplaced (.inr hram)
      rw [ftell32_between]
      · simp only [List.length_append, length_word, hname4]
        omega
      · simp only [List.length_append, length_word, hname4]
        omega
    refine ⟨_, ?_, hat⟩
    have hne : ¬c.data.length + 12 - 12 = 0 := by omega
    have hsub : c.data.length + 12 - 12 = c.data.length := Nat.add_sub_cancel _ _
    simp only [encoded, header, stored, hcompress, if_neg Bool.false_ne_true, List.append_assoc]
    simp only [restoreChunk, read_between _ _ _ hname4.symm, hname4, ne_eq, not_true_eq_false,
      if_false, read_between _ _ _ (length_word _).symm, length_word,
      sizeOf12_word hlength (by omega : 12 ≤ c.data.length + 12), if_neg hflag, hsub]
    rw [if_neg (by omega)]
    by_cases hram : c.name ∈ ramNames
    · simp only [if_pos hram, seek_between _ _ _ rfl,
        read_between _ _ _ (length_padding c.data.length).symm, returned, List.append_assoc]
    · simp only [if_neg hram, read_between _ _ _ rfl,
        read_between _ _ _ (length_padding c.data.length).symm, takeD_beyond, returned,
        List.append_assoc]
  | true =>
    have hlength := hk.size hcompress
    have hfits := hplaced (.inl hcompress)
    have hdeflated := List.length_pos_iff.mpr (hz.nonempty c.data)
    have hflag : wordOf (word 1) % 2 = 1 := by rw [wordOf_word (by decide)]
    have hat : (between (before ++ c.name ++ word ((z.deflate c.data).length + 16) ++ word 1 ++
        word c.data.length) (z.deflate c.data ++ (padding (z.deflate c.data).length ++
          rest))).ftell32 - 12 = before.length + 4 := by
      rw [ftell32_between]
      · simp only [List.length_append, length_word, hname4]
        omega
      · simp only [List.length_append, length_word, hname4]
        omega
    refine ⟨_, ?_, fun _ => hat⟩
    have htotal : wordOf (word c.data.length) = c.data.length := wordOf_word (by omega)
    have hsub : (z.deflate c.data).length + 16 - 12 - 4 = (z.deflate c.data).length := by omega
    simp only [encoded, header, stored, hcompress, if_true, List.append_assoc]
    simp only [restoreChunk, read_between _ _ _ hname4.symm, hname4, ne_eq, not_true_eq_false,
      if_false, read_between _ _ _ (length_word _).symm, length_word,
      sizeOf12_word hlength (by omega : 12 ≤ (z.deflate c.data).length + 16), if_pos hflag, hsub,
      htotal]
    rw [if_neg (by omega)]
    by_cases hram : c.name ∈ ramNames
    · simp only [if_pos hram, seek_between _ _ _ rfl,
        read_between _ _ _ (length_padding (z.deflate c.data).length).symm, returned,
        List.append_assoc]
    · simp only [if_neg hram, zfileZuncompress_whole z hz hk hcompress hram,
        read_between _ _ _ (length_padding (z.deflate c.data).length).symm, takeD_beyond, returned,
        List.append_assoc]

theorem restoreRam_encoded (z : Zlib) (hz : z.Correct) {c : Chunk} (hform : c.WellFormed)
    (hk : c.Kept z) (before rest : List Byte) (f : ZFile)
    (hf : f.bytes = before ++ (encoded z c ++ rest)) :
    restoreRam z (before.length + 4) f = c.data := by
  have hname4 := hform.name
  have hseek : ∀ tail, encoded z c = c.name ++ tail →
      f.seek (before.length + 4) = between (before ++ c.name) (tail ++ rest) := by
    intro tail htail
    rw [seek, between, hf, htail, List.length_append, hname4]
    simp only [List.append_assoc]
  cases hcompress : c.compress with
  | false =>
    have hlength : c.data.length + 12 < 2 ^ 31 := by
      have hsmall := hform.small
      omega
    have hflag : ¬wordOf (word 0) % 2 = 1 := by rw [wordOf_word (by decide)]; decide
    rw [restoreRam, hseek _ rfl]
    simp only [header, stored, hcompress, if_neg Bool.false_ne_true, List.append_assoc]
    simp only [read_between _ _ _ (length_word _).symm, if_neg hflag,
      sizeOf12_word hlength (by omega : 12 ≤ c.data.length + 12), Nat.add_sub_cancel,
      read_between _ _ _ rfl]
  | true =>
    have hlength := hk.size hcompress
    have hflag : wordOf (word 1) % 2 = 1 := by rw [wordOf_word (by decide)]
    have htotal : wordOf (word c.data.length) = c.data.length :=
      wordOf_word (by have := hform.small; omega)
    have hsub : (z.deflate c.data).length + 16 - 12 - 4 = (z.deflate c.data).length := by omega
    obtain ⟨m, -, -, -, hread⟩ := zfileZuncompress_spec z hz c
      (before ++ c.name ++ word ((z.deflate c.data).length + 16) ++ word 1 ++ word c.data.length)
      (padding (z.deflate c.data).length ++ rest)
    simp only [List.append_assoc] at hread
    rw [restoreRam, hseek _ rfl]
    simp only [header, stored, hcompress, if_true, List.append_assoc]
    simp only [read_between _ _ _ (length_word _).symm, if_pos hflag,
      sizeOf12_word hlength (by omega : 12 ≤ (z.deflate c.data).length + 16), hsub, htotal,
      List.append_assoc, hread]

/-! ### Streams of chunks -/

/-- What comes back of a chunk in the file `f`. -/
structure Comes (z : Zlib) (f : ZFile) (c : Chunk) (r : Restored) : Prop where
  name : r.name = c.name
  totallen : r.totallen = c.data.length
  loaded : c.name ∉ ramNames → ∃ mem, r.mem = some mem ∧ mem.take r.totallen = c.data
  ram : c.name ∈ ramNames → restoreRam z r.filepos f = c.data

/-- The length of the file. -/
def streamLength (z : Zlib) (cs : List Chunk) : Nat := (cs.map fun c => (encoded z c).length).sum

theorem length_stream (z : Zlib) (cs : List Chunk) :
    (cs.flatMap (encoded z)).length = streamLength z cs := List.length_flatMap

theorem streamLength_cons (z : Zlib) (c : Chunk) (cs : List Chunk) :
    streamLength z (c :: cs) = (encoded z c).length + streamLength z cs := by
  rw [streamLength, List.map_cons, List.sum_cons, streamLength]

theorem length_le_stream (z : Zlib) {cs : List Chunk} (hform : ∀ c ∈ cs, c.WellFormed) :
    cs.length ≤ streamLength z cs := by
  induction cs with
  | nil => exact Nat.zero_le _
  | cons c cs ih =>
    have hname := (hform c List.mem_cons_self).name
    have hrest := ih fun d hd => hform d (List.mem_cons_of_mem c hd)
    rw [streamLength_cons, List.length_cons, encoded, List.length_append]
    omega

/-- Where positions matter, they fit, for chunks that are written from `pos` on. -/
def AllPlaced (z : Zlib) : Nat → List Chunk → Prop
  | _, [] => True
  | pos, c :: cs => c.Placed pos ∧ AllPlaced z (pos + (encoded z c).length) cs

theorem saveChunks_stream (z : Zlib) (hz : z.Correct) (cs : List Chunk)
    (hform : ∀ c ∈ cs, c.WellFormed) (hk : ∀ c ∈ cs, c.Kept z) (before : List Byte)
    (hplaced : AllPlaced z before.length cs) :
    cs.foldl (fun f c => saveChunk z c f) (between before []) =
      between (before ++ cs.flatMap (encoded z)) [] := by
  induction cs generalizing before with
  | nil => rw [List.foldl_nil, List.flatMap_nil, List.append_nil]
  | cons c cs ih =>
    obtain ⟨hfirst, hrest⟩ := hplaced
    rw [← List.length_append] at hrest
    rw [List.foldl_cons, saveChunk_encoded z hz (hform c List.mem_cons_self)
      (hk c List.mem_cons_self) before hfirst,
      ih (fun d hd => hform d (List.mem_cons_of_mem c hd))
        (fun d hd => hk d (List.mem_cons_of_mem c hd)) _ hrest,
      List.flatMap_cons, List.append_assoc]

/-- The chunks from some place of the file on, each with the place that it was found at. -/
theorem restoreChunks_stream (z : Zlib) (hz : z.Correct) (cs : List Chunk)
    (hform : ∀ c ∈ cs, c.WellFormed) (hk : ∀ c ∈ cs, c.Kept z) (f : ZFile) (before : List Byte)
    (hf : f.bytes = before ++ cs.flatMap (encoded z)) (hplaced : AllPlaced z before.length cs)
    (fuel : Nat) (hfuel : cs.length < fuel) :
    ∃ rs, restoreChunks z fuel (between before (cs.flatMap (encoded z))) =
        (rs, between f.bytes []) ∧ List.Forall₂ (Comes z f) cs rs := by
  induction cs generalizing before fuel with
  | nil =>
    rw [List.flatMap_nil, List.append_nil] at hf
    cases fuel with
    | zero => exact absurd hfuel (Nat.not_lt_zero _)
    | succ fuel =>
      refine ⟨[], ?_, .nil⟩
      rw [List.flatMap_nil, restoreChunks, restoreChunk, read_none, hf]
      rfl
  | cons c cs ih =>
    rw [List.flatMap_cons] at hf ⊢
    cases fuel with
    | zero => exact absurd hfuel (Nat.not_lt_zero _)
    | succ fuel =>
      have hc := hform c List.mem_cons_self
      have hkept := hk c List.mem_cons_self
      obtain ⟨hfirst, hrest⟩ := hplaced
      rw [← List.length_append] at hrest
      obtain ⟨filepos, hreturned, hfilepos⟩ :=
        restoreChunk_encoded z hz hc hkept before (cs.flatMap (encoded z)) hfirst
      obtain ⟨rs, hrs, hcomes⟩ := ih (fun d hd => hform d (List.mem_cons_of_mem c hd))
        (fun d hd => hk d (List.mem_cons_of_mem c hd)) (before ++ encoded z c)
        (hf.trans (List.append_assoc ..).symm) hrest fuel (Nat.lt_of_succ_lt_succ hfuel)
      refine ⟨returned c filepos :: rs, ?_, .cons ?_ hcomes⟩
      · rw [restoreChunks, hreturned]
        dsimp only
        rw [hrs]
      · refine ⟨rfl, rfl, fun hload => ?_, fun hram => ?_⟩
        · refine ⟨c.data ++ List.replicate 100 0, if_neg hload, ?_⟩
          exact List.take_left
        · change restoreRam z filepos f = c.data
          rw [hfilepos hram]
          exact restoreRam_encoded z hz hc hkept before _ f hf

/-- What was saved is restored, in order and to the end of the file. -/
theorem chunks_kept (z : Zlib) (hz : z.Correct) (cs : List Chunk)
    (hform : ∀ c ∈ cs, c.WellFormed) (hk : ∀ c ∈ cs, c.Kept z)
    (hplaced : AllPlaced z 0 cs) :
    ∃ rs, restoreChunks z ((saveChunks z cs).bytes.length + 1) ((saveChunks z cs).seek 0) =
        (rs, (saveChunks z cs).seekEnd) ∧ List.Forall₂ (Comes z (saveChunks z cs)) cs rs := by
  have hsave : saveChunks z cs = between (cs.flatMap (encoded z)) [] :=
    saveChunks_stream z hz cs hform hk [] hplaced
  have hbytes : (saveChunks z cs).bytes = cs.flatMap (encoded z) := by
    rw [hsave, between, List.append_nil]
  have hlength : (saveChunks z cs).bytes.length = streamLength z cs := by
    rw [hbytes, length_stream]
  obtain ⟨rs, hrs, hcomes⟩ := restoreChunks_stream z hz cs hform hk (saveChunks z cs) [] hbytes
    hplaced ((saveChunks z cs).bytes.length + 1) (by
      have := length_le_stream z hform
      omega)
  refine ⟨rs, ?_, hcomes⟩
  have hstart : (saveChunks z cs).seek 0 = between [] (cs.flatMap (encoded z)) := by
    rw [seek, hbytes, between, List.nil_append, List.length_nil]
  have hend : (saveChunks z cs).seekEnd = between (saveChunks z cs).bytes [] := by
    rw [seekEnd, between, List.append_nil]
  rw [hstart, hrs, hend]

/-! ### A compressor -/

/-- Marks each byte, and the end. -/
def markDeflate (data : List Byte) : List Byte := data.flatMap (fun b => [1, b]) ++ [0]

def markInflated : List Byte → List Byte
  | 1 :: b :: rest => b :: markInflated rest
  | _ => []

def markGoing : List Byte → Bool
  | 0 :: _ => false
  | 1 :: _ :: rest => markGoing rest
  | _ => true

def markZlib : Zlib := ⟨markDeflate, markInflated, markGoing⟩

theorem markZlib_part (data read : List Byte) (h : read <+: markDeflate data) :
    markInflated read <+: data ∧ (read ≠ markDeflate data → markGoing read = true) := by
  induction data generalizing read with
  | nil =>
    match read with
    | [] => exact ⟨List.prefix_rfl, fun _ => rfl⟩
    | a :: rest =>
      obtain ⟨ha, hrest⟩ := List.cons_prefix_cons.mp h
      rw [ha, List.prefix_nil.mp hrest]
      exact ⟨List.prefix_rfl, fun hne => absurd rfl hne⟩
  | cons x data ih =>
    have hcons : markDeflate (x :: data) = 1 :: x :: markDeflate data := rfl
    rw [hcons] at h ⊢
    match read with
    | [] => exact ⟨List.nil_prefix, fun _ => rfl⟩
    | [a] =>
      obtain ⟨ha, -⟩ := List.cons_prefix_cons.mp h
      rw [ha]
      exact ⟨List.nil_prefix, fun _ => rfl⟩
    | a :: b :: rest =>
      obtain ⟨ha, htail⟩ := List.cons_prefix_cons.mp h
      obtain ⟨hb, hrest⟩ := List.cons_prefix_cons.mp htail
      obtain ⟨hpart, hgoing⟩ := ih rest hrest
      rw [ha, hb]
      refine ⟨List.cons_prefix_cons.mpr ⟨rfl, hpart⟩, fun hne => hgoing fun heq => hne ?_⟩
      rw [heq]

theorem markZlib_correct : markZlib.Correct where
  nonempty := fun _ => List.append_ne_nil_of_right_ne_nil _ (List.cons_ne_nil _ _)
  whole := fun data => by
    induction data with
    | nil => rfl
    | cons x data ih => exact congrArg (x :: ·) ih
  part := fun data read h => (markZlib_part data read h).1
  going := fun data read h => (markZlib_part data read h).2

/-- A stored chunk, a compressed one that is loaded later, and one that is read on the way. -/
def threeChunks : List Chunk :=
  [⟨ascii ['A', 'S', 'F', ' '], [1, 2, 3], false, true⟩,
    ⟨ascii ['C', 'R', 'A', 'M'], [0, 0, 7], true, true⟩,
    ⟨ascii ['C', 'P', 'U', ' '], [5, 0], true, true⟩]

theorem chunks_kept_three : ∃ rs,
    restoreChunks markZlib ((saveChunks markZlib threeChunks).bytes.length + 1)
        ((saveChunks markZlib threeChunks).seek 0) =
          (rs, (saveChunks markZlib threeChunks).seekEnd) ∧
      List.Forall₂ (Comes markZlib (saveChunks markZlib threeChunks)) threeChunks rs := by
  refine chunks_kept markZlib markZlib_correct threeChunks (fun c hc => ?_) (fun c hc => ?_)
    ⟨nofun, fun _ => by decide, fun _ => by decide, trivial⟩
  · rcases List.mem_cons.mp hc with rfl | hlater
    · exact ⟨rfl, by decide, by decide⟩
    rcases List.mem_cons.mp hlater with rfl | hlast
    · exact ⟨rfl, by decide, by decide⟩
    · obtain rfl := List.mem_singleton.mp hlast
      exact ⟨rfl, by decide, by decide⟩
  · rcases List.mem_cons.mp hc with rfl | hlater
    · exact ⟨nofun, nofun, nofun⟩
    rcases List.mem_cons.mp hlater with rfl | hlast
    · exact ⟨fun _ => rfl, fun _ => by decide, fun _ hram => absurd (by decide) hram⟩
    · obtain rfl := List.mem_singleton.mp hlast
      refine ⟨fun _ => rfl, fun _ => by decide, fun _ _ n hn hlt => ?_⟩
      change n < 5 at hlt
      obtain rfl : n = 0 := by omega
      decide

/-- A chunk that the compressor could not be started for. -/
def unstarted : List Chunk := [⟨ascii ['A', 'S', 'F', ' '], [1, 2, 3, 4], true, false⟩]

/-- Where the compressor cannot be started, the flags still say that the data is compressed. -/
theorem unstarted_lost : markZlib.Correct ∧ (∀ c ∈ unstarted, c.WellFormed) ∧
    ¬∃ rs, restoreChunks markZlib ((saveChunks markZlib unstarted).bytes.length + 1)
        ((saveChunks markZlib unstarted).seek 0) = (rs, (saveChunks markZlib unstarted).seekEnd) ∧
      List.Forall₂ (Comes markZlib (saveChunks markZlib unstarted)) unstarted rs := by
  refine ⟨markZlib_correct, fun c hc => ?_, ?_⟩
  · obtain rfl := List.mem_singleton.mp hc
    exact ⟨rfl, by decide, by decide⟩
  · rintro ⟨rs, hrs, hcomes⟩
    have hfirst : (restoreChunks markZlib ((saveChunks markZlib unstarted).bytes.length + 1)
        ((saveChunks markZlib unstarted).seek 0)).1.head?.map Restored.totallen = some 0 := by
      decide
    rw [hrs] at hfirst
    cases hcomes with
    | cons hc _ =>
      change some _ = some 0 at hfirst
      rw [hc.totallen] at hfirst
      cases hfirst

end LibretroUae.SaveState
