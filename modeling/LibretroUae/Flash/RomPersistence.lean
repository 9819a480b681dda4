import LibretroUae.Flash.RomBuffer
import LibretroUae.Storage.File

/-!
# LibretroUae.Flash.RomPersistence

**The backing file.** The chip remembers the first and the last byte that changed, and
`flash_free` writes what is between them, or everything up to the last one where the chip is every
other byte. Bytes that are still in the page buffer are not written.
-/

namespace LibretroUae.Flash

open Lib Lib.Image Storage

/-- `zfile_fwrite` of a physical file. -/
def fwrite (f : HostFile) (bs : List Byte) : HostFile :=
  ⟨f.image.blit f.pos bs, if bs = [] then f.length else max f.length (f.pos + bs.length),
    f.pos + bs.length⟩

/-- The loops that write every other byte of the memory; `gap` is skipped in the file. -/
def writeEveryOther (rom : Image) (gap n : Nat) (f : HostFile) : HostFile :=
  loop (fun i f => ((fwrite f [rom (i * 2)]).fseek gap .cur).2) n f

namespace FlashromData

/-- The end of what is written: the last change, rounded up. -/
def flushEnd (fd : FlashromData) : Nat :=
  let last := (fd.lastwriteoffset + 1 + 511) / 512 * 512
  if last > fd.allocsize then fd.allocsize else last

/-- The place of the first byte in the file. -/
def oddStart (fd : FlashromData) : Nat := if fd.flags.everyOtherByteOdd then 1 else 0

def flashFree (fd : FlashromData) (zf : HostFile) : HostFile :=
  if fd.modified then
    if fd.flags.everyOtherByte then
      writeEveryOther fd.rom 1 fd.flushEnd
        (zf.fseek fd.oddStart .set).2
    else if fd.flags.skipEveryOtherByte then
      writeEveryOther fd.rom 0 (fd.flushEnd / 2) (zf.fseek 0 .set).2
    else
      let msize := min zf.pos 0x7fffffff
      if msize > fd.lastwriteoffset then
        fwrite (zf.fseek fd.firstwriteoffset .set).2
          (fd.rom.slice fd.firstwriteoffset (fd.lastwriteoffset - fd.firstwriteoffset + 1))
      else fwrite (zf.fseek 0 .set).2 (fd.rom.slice 0 (fd.lastwriteoffset + 1))
  else zf

/-! ### The layout of the file -/

/-- The number of bytes in the file. -/
def fileBytes (fd : FlashromData) : Nat :=
  if fd.flags.everyOtherByte ∨ fd.flags.skipEveryOtherByte then (fd.allocsize + 1) / 2
  else fd.allocsize

/-- The place of a byte in the file. -/
def filePos (fd : FlashromData) (i : Nat) : Nat :=
  if fd.flags.everyOtherByte then fd.oddStart + 2 * i else i

/-- The file holds the memory. -/
def LaidOut (fd : FlashromData) (rom : Image) (f : HostFile) : Prop :=
  ∀ i < fd.fileBytes, f.image (fd.filePos i) = rom (i * fd.otherByteMult) ∧ fd.filePos i < f.length

/-- The file `f'` holds the memory, and is like `f` elsewhere. -/
structure Persisted (fd : FlashromData) (rom : Image) (f f' : HostFile) : Prop where
  bytes : fd.LaidOut rom f'
  others : ∀ p, (∀ i < fd.fileBytes, p ≠ fd.filePos i) → f'.image p = f.image p
  length : f'.length = f.length

/-- The last byte has its pair, where the chip is every other byte of the memory only. -/
def Paired (fd : FlashromData) : Prop :=
  fd.flags.everyOtherByte = false → fd.flags.skipEveryOtherByte = true → fd.allocsize % 2 = 0

instance (fd : FlashromData) : Decidable fd.Paired := inferInstanceAs (Decidable (_ → _ → _))

/-- What `flash_free` writes is inside the memory, where the chip is every other byte of the file. -/
def FlushStays (fd : FlashromData) : Prop :=
  fd.modified = true → fd.flags.everyOtherByte = true → (fd.flushEnd - 1) * 2 < fd.allocsize

instance (fd : FlashromData) : Decidable fd.FlushStays := inferInstanceAs (Decidable (_ → _ → _))

/-- The call erases a sector that goes beyond the memory, where the chip is the whole memory. -/
def Overhangs (fd : FlashromData) : FlashCall → Prop
  | .write addr v => fd.Selects addr ∧ fd.state = 6 ∧ v = 0x30 ∧ fd.otherByteMult = 1 ∧
      ∃ i < fd.sectorsize, fd.allocsize ≤ fd.sectorOf (fd.chipAddr addr) + i ∧
        fd.rom (fd.sectorOf (fd.chipAddr addr) + i) ≠ 0xff
  | .read _ => False

/-- No call of a run erases beyond the memory. -/
def StaysInside : FlashromData → List FlashCall → Prop
  | _, [] => True
  | fd, c :: cs => ¬ fd.Overhangs c ∧ StaysInside (fd.call c) cs

/-! ### What is tracked -/

/-- What differs from the memory `rom` is between the first and the last change, and what is in
the page buffer is of the chip. -/
structure Tracked (rom : Image) (fd : FlashromData) : Prop where
  changed : ∀ j, fd.rom j ≠ rom j →
    fd.modified ∧ fd.firstwriteoffset ≤ j ∧ j ≤ fd.lastwriteoffset
  ordered : fd.modified → fd.firstwriteoffset ≤ fd.lastwriteoffset
  inside : fd.otherByteMult = 1 → fd.modified → fd.lastwriteoffset < fd.allocsize
  fresh : fd.modified = false → fd.lastwriteoffset = 0
  buffered : ∀ p i, fd.lastpagewrite = some p → fd.mpage i → p + i < fd.allocsize

variable {rom : Image} {fd fd' : FlashromData} {zf : HostFile} {a addr n : Nat} {v : Byte}

theorem tracked_setmodified (h : Tracked rom fd) (hin : fd.otherByteMult = 1 → a < fd.allocsize) :
    Tracked rom ({ fd with rom := Function.update fd.rom a v }.setmodified a) := by
  have hfirst : ∀ x : Nat, (if a < x then a else x) = min a x := by
    intro x
    split_ifs <;> omega
  have hlast : ∀ x : Nat, (if a > x then a else x) = max a x := by
    intro x
    split_ifs <;> omega
  refine ⟨fun j hj => ?_, fun _ => ?_, fun h1 _ => ?_, fun hm => absurd hm (by simp [setmodified]),
    h.buffered⟩
  · simp only [setmodified, hfirst, hlast] at hj ⊢
    by_cases hja : j = a
    · subst hja
      exact ⟨trivial, Nat.min_le_left _ _, Nat.le_max_left _ _⟩
    · rw [Function.update_of_ne hja] at hj
      obtain ⟨-, h1, h2⟩ := h.changed j hj
      exact ⟨trivial, (Nat.min_le_right _ _).trans h1, h2.trans (Nat.le_max_right _ _)⟩
  · simp only [setmodified, hfirst, hlast]
    exact (Nat.min_le_left _ _).trans (Nat.le_max_left _ _)
  · have ha := hin h1
    simp only [setmodified, hlast]
    refine max_lt ha ?_
    by_cases hm : fd.modified = true
    · exact h.inside h1 hm
    · rw [h.fresh (by simpa using hm)]
      exact Nat.zero_lt_of_lt ha

theorem tracked_store (h : Tracked rom fd)
    (hin : fd.otherByteMult = 1 → fd.rom a ≠ v → a < fd.allocsize) :
    Tracked rom (fd.store a v) := by
  rw [store]
  split_ifs with hne
  · exact tracked_setmodified h fun h1 => hin h1 hne
  · exact h

/-- A byte taken by a chip without pages. -/
theorem tracked_plain (h : Tracked rom fd) (hplain : fd.flags.parallelEeprom = false)
    (ha : a < fd.allocsize) : Tracked rom (fd.writeflash a v) := by
  rw [writeflash, if_pos hplain]
  simp only
  have hbusy : Tracked rom { fd with state := 100 } := ⟨h.1, h.2, h.3, h.4, h.5⟩
  split_ifs with hw hne hm hm
  · exact tracked_setmodified hbusy fun _ => ha
  · exact absurd rfl hm
  · have hsame : Function.update fd.rom a v = fd.rom := by
      rw [← not_not.mp hne, Function.update_eq_self]
    have hset := tracked_setmodified (v := v) hbusy fun _ => ha
    simp only [hsame] at hset
    exact hset
  · exact hbusy
  · exact hbusy

theorem tracked_writeflash (h : Tracked rom fd) (ha : a < fd.allocsize) :
    Tracked rom (fd.writeflash a v) := by
  by_cases hplain : fd.flags.parallelEeprom = false
  · exact tracked_plain h hplain ha
  rw [writeflash, if_neg hplain]
  have hturned : Tracked rom (fd.turnPage a) ∧ (fd.turnPage a).lastpagewrite = some (fd.pageOf a) ∧
      (fd.turnPage a).allocsize = fd.allocsize ∧ (fd.turnPage a).pagesize = fd.pagesize := by
    rw [turnPage]
    split_ifs with hlast
    · exact ⟨⟨h.1, h.2, h.3, h.4, fun p i _ hm => absurd hm (by simp)⟩, rfl, rfl, rfl⟩
    · exact ⟨h, not_not.mp hlast, rfl, rfl⟩
  obtain ⟨ht, hlast, halloc, hpages⟩ := hturned
  generalize fd.turnPage a = t at ht hlast halloc hpages ⊢
  simp only
  split_ifs
  · refine ⟨ht.1, ht.2, ht.3, ht.4, fun p i hp hm => ?_⟩
    simp only [bufferByte, hpages, Function.update_apply] at hp hm ⊢
    split_ifs at hm with hi
    · obtain rfl := Option.some.inj (hlast.symm.trans hp)
      rw [hi, pageOf, Nat.sub_add_cancel (Nat.mod_le _ _), halloc]
      exact ha
    · exact ht.buffered p i hp hm
  · exact ⟨ht.1, ht.2, ht.3, ht.4, ht.5⟩

/-- The loop of an erase; the bytes it sets are of the chip, or are set already. -/
theorem tracked_eraseBytes (h : Tracked rom fd)
    (hin : fd.otherByteMult = 1 → ∀ i < n, fd.rom (addr + i) ≠ 0xff → addr + i < fd.allocsize) :
    Tracked rom (fd.eraseBytes addr n) := by
  induction n with
  | zero => exact h
  | succ n ih =>
    have herased := erased_eraseBytes fd addr n
    have htracked := ih fun h1 i hi => hin h1 i (Nat.lt_succ_of_lt hi)
    rw [eraseBytes_succ]
    refine tracked_store htracked fun h1 hne => ?_
    rw [herased.chip.otherByteMult] at h1
    rw [herased.chip.otherByteMult, h1, Nat.mul_one] at hne ⊢
    rw [herased.chip.allocsize]
    refine hin h1 n (Nat.lt_succ_self n) fun hff => hne ?_
    rw [herased.rom, hff]
    exact ite_self _

/-- What is committed is of the chip. -/
theorem tracked_commitPage (hp : fd.Paged) (h : Tracked rom fd) : Tracked rom fd.commitPage := by
  rw [commitPage]
  split_ifs with hc
  · obtain ⟨p, hlast⟩ := Option.isSome_iff_exists.mp (hp.some hc.2)
    refine (loop_induct (P := fun n s => Tracked rom s ∧ s.lastpagewrite = some p) ?_
      fun i s _ hs => ?_).1
    · exact ⟨⟨h.1, h.2, h.3, h.4, h.5⟩, hlast⟩
    · obtain ⟨ht, hl⟩ := hs
      rw [commitByte]
      split_ifs with hm
      · have hstored := tracked_store (v := s.page i) ht fun _ _ => ht.buffered p i hl hm
        obtain ⟨modified, first, last, heq⟩ := store_spec s (p + i) (s.page i)
        rw [hl, Option.getD_some]
        rw [heq] at hstored ⊢
        refine ⟨⟨hstored.1, hstored.2, hstored.3, hstored.4, fun q j hq hj => ?_⟩, hl⟩
        simp only [Function.update_apply] at hj
        split_ifs at hj
        exact ht.buffered q j hq hj
      · exact ⟨ht, hl⟩
  · exact h

theorem tracked_command (h : Tracked rom fd) (haddr : addr * fd.otherByteMult < fd.allocsize)
    (hinside : fd.state = 6 → v = 0x30 → fd.otherByteMult = 1 → ∀ i < fd.sectorsize,
      fd.rom (fd.sectorOf addr + i) ≠ 0xff → fd.sectorOf addr + i < fd.allocsize) :
    Tracked rom (fd.command addr v).1 := by
  by_cases htake : fd.state = 7 ∨ fd.state = 8
  · rw [command_taken htake]
    exact tracked_writeflash h haddr
  · have hcases := @command_cases fd addr v htake
    generalize (fd.command addr v).1 = fd' at hcases ⊢
    cases hcases with
    | forgotten | decoded | enabled | disabled => exact ⟨h.1, h.2, h.3, h.4, h.5⟩
    | chipErased =>
      have hchip := @tracked_eraseBytes rom fd 0 fd.allocsize h fun _ i hi _ => by
        rwa [Nat.zero_add]
      exact ⟨hchip.1, hchip.2, hchip.3, hchip.4, hchip.5⟩
    | sectorErased h6 hv =>
      have hsector : Tracked rom (fd.eraseSector addr) := by
        rw [eraseSector]
        split_ifs
        · exact tracked_eraseBytes h (hinside h6 hv)
        · exact h
      exact ⟨hsector.1, hsector.2, hsector.3, hsector.4, hsector.5⟩
    | byte =>
      have hzero : Tracked rom { fd with state := 0 } := ⟨h.1, h.2, h.3, h.4, h.5⟩
      exact tracked_writeflash hzero haddr

theorem tracked_answer (h : Tracked rom fd) (addr : Nat) : Tracked rom (fd.answer addr).1 := by
  rw [answer]
  split_ifs <;> exact ⟨h.1, h.2, h.3, h.4, h.5⟩

theorem tracked_call (hp : fd.Paged) (h : Tracked rom fd) {c : FlashCall} (hinside : ¬ fd.Overhangs c) :
    Tracked rom (fd.call c) := by
  cases c with
  | write addr v =>
    rw [call, flashWrite]
    split_ifs with hselects
    · refine tracked_command h (chipAddr_lt hselects) fun h6 hv h1 i hi hff => ?_
      by_contra hout
      exact hinside ⟨hselects, h6, hv, h1, i, hi, Nat.le_of_not_lt hout, hff⟩
    · exact h
  | read addr =>
    rw [call, flashRead]
    split_ifs
    · exact tracked_answer (tracked_commitPage hp h) _
    · exact h

/-! ### Writing the file -/

/-- The loops, after `n` bytes. -/
structure Flushed (f : HostFile) (rom : Image) (gap n : Nat) (f' : HostFile) : Prop where
  pos : f'.pos = f.pos + n * (gap + 1)
  written : ∀ i < n, f'.image (f.pos + i * (gap + 1)) = rom (i * 2)
  kept : ∀ p, (∀ i < n, p ≠ f.pos + i * (gap + 1)) → f'.image p = f.image p
  length : (∀ i < n, f.pos + i * (gap + 1) < f.length) → f'.length = f.length

theorem fwrite_one (f : HostFile) (b : Byte) (gap : Nat) :
    ((fwrite f [b]).fseek gap .cur).2 =
      ⟨Function.update f.image f.pos b, max f.length (f.pos + 1), f.pos + 1 + gap⟩ := by
  have hnot : ¬ ((f.pos + 1 : Nat) : Int) + (gap : Int) < 0 := by omega
  have himage : f.image.blit f.pos [b] = Function.update f.image f.pos b := by
    funext p
    rw [blit, Function.update_apply, List.length_singleton]
    by_cases hp : p = f.pos
    · subst hp
      simp
    · rw [if_neg hp, if_neg]
      omega
  simp only [HostFile.fseek, fwrite, List.length_singleton, if_neg hnot, himage]
  rfl

theorem flushed_writeEveryOther (f : HostFile) (rom : Image) (gap n : Nat) :
    Flushed f rom gap n (writeEveryOther rom gap n f) := by
  refine loop_induct (P := Flushed f rom gap) ?_ fun n s _ h => ?_
  · exact ⟨by simp, fun i hi => absurd hi (Nat.not_lt_zero i), fun _ _ => rfl, fun _ => rfl⟩
  · rw [fwrite_one, h.pos]
    refine ⟨?_, fun i hi => ?_, fun p hp => ?_, fun hlen => ?_⟩
    · simp only
      rw [Nat.succ_mul]
      omega
    · simp only [Function.update_apply]
      by_cases hin : i = n
      · rw [hin, if_pos rfl]
      · have hlt : i < n := by omega
        rw [if_neg, h.written i hlt]
        intro heq
        exact hin (Nat.eq_of_mul_eq_mul_right (Nat.succ_pos gap) (Nat.add_left_cancel heq))
    · simp only [Function.update_apply]
      rw [if_neg (hp n (Nat.lt_succ_self n))]
      exact h.kept p fun i hi => hp i (Nat.lt_succ_of_lt hi)
    · simp only
      rw [h.length fun i hi => hlen i (Nat.lt_succ_of_lt hi)]
      exact Nat.max_eq_left (hlen n (Nat.lt_succ_self n))

theorem fseek_set (f : HostFile) (offset : Nat) :
    (f.fseek offset .set).2 = { f with pos := offset } := by
  have hnot : ¬ (offset : Int) < 0 := by omega
  simp only [HostFile.fseek, if_neg hnot]
  rfl

/-- Everything that changed is before the end of what is written. -/
theorem lt_flushEnd (h : Tracked rom fd) {i : Nat} (hne : fd.rom (i * 2) ≠ rom (i * 2))
    (hi : i < fd.allocsize) : i < fd.flushEnd := by
  obtain ⟨-, -, hlast⟩ := h.changed _ hne
  simp only [flushEnd]
  split_ifs <;> omega

theorem lt_half_flushEnd (h : Tracked rom fd) (heven : fd.allocsize % 2 = 0) {i : Nat}
    (hne : fd.rom (i * 2) ≠ rom (i * 2)) (hi : i * 2 < fd.allocsize) : i < fd.flushEnd / 2 := by
  obtain ⟨-, -, hlast⟩ := h.changed _ hne
  simp only [flushEnd]
  split_ifs <;> omega

theorem flushEnd_le (fd : FlashromData) : fd.flushEnd ≤ fd.allocsize := by
  simp only [flushEnd]
  split_ifs <;> omega

/-- Where nothing changed the file holds the memory already. -/
theorem laidOut_unmodified (h : Tracked rom fd) (hm : ¬ fd.modified) (hlaid : fd.LaidOut rom zf) :
    fd.LaidOut fd.rom zf := by
  intro i hi
  obtain ⟨himage, hlt⟩ := hlaid i hi
  refine ⟨?_, hlt⟩
  rw [himage]
  by_contra hne
  exact hm (h.changed _ (Ne.symm hne)).1

/-- Every other byte is written as far as anything changed. -/
theorem persisted_flushed (hlaid : fd.LaidOut rom zf) {pos gap n : Nat} {f' : HostFile}
    (hf : Flushed { zf with pos := pos } fd.rom gap n f')
    (hpos : ∀ i, fd.filePos i = pos + i * (gap + 1)) (hmult : fd.otherByteMult = 2)
    (hn : n ≤ fd.fileBytes)
    (hcover : ∀ i < fd.fileBytes, fd.rom (i * 2) ≠ rom (i * 2) → i < n) :
    Persisted fd fd.rom zf f' := by
  have hlength : f'.length = zf.length := hf.length fun i hi => by
    have hlt := (hlaid i (lt_of_lt_of_le hi hn)).2
    rwa [hpos] at hlt
  refine ⟨fun i hi => ?_, fun p hp => ?_, hlength⟩
  · obtain ⟨himage, hlt⟩ := hlaid i hi
    rw [hlength]
    refine ⟨?_, hlt⟩
    rw [hmult] at himage ⊢
    rw [hpos] at himage ⊢
    by_cases hin : i < n
    · exact hf.written i hin
    · have hsame : fd.rom (i * 2) = rom (i * 2) := by
        by_contra hne
        exact hin (hcover i hi hne)
      rw [hsame, ← himage]
      refine hf.kept _ fun k hk heq => hin ?_
      rwa [Nat.eq_of_mul_eq_mul_right (Nat.succ_pos gap) (Nat.add_left_cancel heq)]
  · refine hf.kept p fun i hi => ?_
    rw [← hpos]
    exact hp i (lt_of_lt_of_le hi hn)

/-- The bytes from one to another are written, and everything that changed is among them. -/
theorem persisted_range (hplain : fd.otherByteMult = 1) (hpos : ∀ i, fd.filePos i = i)
    (hlaid : fd.LaidOut rom zf) {first n : Nat} (hn : first + n ≤ fd.fileBytes)
    (hcover : ∀ j, fd.rom j ≠ rom j → first ≤ j ∧ j < first + n) :
    Persisted fd fd.rom zf (fwrite { zf with pos := first } (fd.rom.slice first n)) := by
  have hblit : ∀ p, (fwrite { zf with pos := first } (fd.rom.slice first n)).image p =
      if first ≤ p ∧ p < first + n then fd.rom p else zf.image p := by
    intro p
    exact blit_slice_same zf.image fd.rom first n p
  have hlength : (fwrite { zf with pos := first } (fd.rom.slice first n)).length = zf.length := by
    simp only [fwrite, length_slice]
    split_ifs with hnil
    · rfl
    · refine Nat.max_eq_left ?_
      have hpos' : 0 < n := by
        refine Nat.pos_of_ne_zero ?_
        rintro rfl
        exact hnil rfl
      have hlast := (hlaid (first + n - 1) (by omega)).2
      rw [hpos] at hlast
      omega
  refine ⟨fun i hi => ?_, fun p hp => ?_, hlength⟩
  · obtain ⟨himage, hlt⟩ := hlaid i hi
    rw [hlength]
    refine ⟨?_, hlt⟩
    rw [hpos, hplain, Nat.mul_one] at himage ⊢
    rw [hblit]
    split_ifs with hin
    · rfl
    · rw [himage]
      by_contra hne
      exact hin (hcover i (Ne.symm hne))
  · rw [hblit, if_neg]
    rintro ⟨-, hlt⟩
    refine hp p (by omega) ?_
    rw [hpos]

theorem fseek_zero (f : HostFile) : (f.fseek 0 .set).2 = { f with pos := 0 } := fseek_set f 0

/-- A chip that is every other byte of the memory, and of the file. -/
theorem flashFree_everyOther (h : Tracked rom fd) (hm : fd.modified = true)
    (he : fd.flags.everyOtherByte = true) (hflush : fd.FlushStays) (hlaid : fd.LaidOut rom zf) :
    Persisted fd fd.rom zf (fd.flashFree zf) := by
  have hbytes : fd.fileBytes = (fd.allocsize + 1) / 2 := by rw [fileBytes, if_pos (.inl he)]
  have hend := hflush hm he
  rw [flashFree, if_pos hm, if_pos he, fseek_set]
  refine persisted_flushed hlaid (flushed_writeEveryOther _ _ _ _) (fun i => ?_) ?_ ?_
    fun i hi hne => ?_
  · rw [filePos, if_pos he, Nat.mul_comm]
  · rw [otherByteMult, if_pos (.inr he)]
  · omega
  · exact lt_flushEnd h hne (by omega)

/-- A chip that is every other byte of the memory only. -/
theorem flashFree_skip (h : Tracked rom fd) (hm : fd.modified = true)
    (he : fd.flags.everyOtherByte = false) (hs : fd.flags.skipEveryOtherByte = true)
    (hpaired : fd.Paired) (hlaid : fd.LaidOut rom zf) :
    Persisted fd fd.rom zf (fd.flashFree zf) := by
  have heven := hpaired he hs
  have he' : ¬ fd.flags.everyOtherByte = true := by simp [he]
  have hbytes : fd.fileBytes = (fd.allocsize + 1) / 2 := by rw [fileBytes, if_pos (.inr hs)]
  have hle := flushEnd_le fd
  rw [flashFree, if_pos hm, if_neg he', if_pos hs, fseek_zero]
  refine persisted_flushed hlaid (flushed_writeEveryOther _ _ _ _) (fun i => ?_) ?_ ?_
    fun i hi hne => ?_
  · rw [filePos, if_neg he', Nat.zero_add, Nat.zero_add, Nat.mul_one]
  · rw [otherByteMult, if_pos (.inl hs)]
  · omega
  · exact lt_half_flushEnd h heven hne (by omega)

/-- A chip that is the whole memory. -/
theorem flashFree_whole (h : Tracked rom fd) (hm : fd.modified = true)
    (he : fd.flags.everyOtherByte = false) (hs : fd.flags.skipEveryOtherByte = false)
    (hlaid : fd.LaidOut rom zf) : Persisted fd fd.rom zf (fd.flashFree zf) := by
  have he' : ¬ fd.flags.everyOtherByte = true := by simp [he]
  have hs' : ¬ fd.flags.skipEveryOtherByte = true := by simp [hs]
  have hbytes : fd.fileBytes = fd.allocsize := by rw [fileBytes, if_neg (not_or.mpr ⟨he', hs'⟩)]
  have hplain : fd.otherByteMult = 1 := by
    rw [otherByteMult, if_neg]
    exact not_or.mpr ⟨hs', he'⟩
  have hpos : ∀ i, fd.filePos i = i := fun i => by rw [filePos, if_neg he']
  have hinside := h.inside hplain hm
  have hordered := h.ordered hm
  rw [flashFree, if_pos hm, if_neg he', if_neg hs']
  simp only
  split_ifs
  · rw [fseek_set]
    refine persisted_range hplain hpos hlaid (by omega) fun j hne => ?_
    obtain ⟨-, h1, h2⟩ := h.changed j hne
    omega
  · rw [fseek_zero]
    refine persisted_range hplain hpos hlaid (by omega) fun j hne => ?_
    obtain ⟨-, h1, h2⟩ := h.changed j hne
    omega

/-- `flash_free` makes the file hold the memory. -/
theorem persisted_flashFree (h : Tracked rom fd) (hpaired : fd.Paired) (hflush : fd.FlushStays)
    (hlaid : fd.LaidOut rom zf) : Persisted fd fd.rom zf (fd.flashFree zf) := by
  by_cases hm : fd.modified = true
  · cases he : fd.flags.everyOtherByte
    · cases hs : fd.flags.skipEveryOtherByte
      · exact flashFree_whole h hm he hs hlaid
      · exact flashFree_skip h hm he hs hpaired hlaid
    · exact flashFree_everyOther h hm he hflush hlaid
  · rw [flashFree, if_neg hm]
    exact ⟨laidOut_unmodified h hm hlaid, fun _ _ => rfl, rfl⟩

/-! ### Runs -/

theorem call_chip (hp : fd.Paged) (c : FlashCall) : SameChip fd (fd.call c) := by
  cases c with
  | write addr v =>
    rw [call, flashWrite]
    split_ifs
    · exact command_chip fd _ v
    · exact .refl fd
  | read addr =>
    rw [call, flashRead]
    split_ifs
    · obtain ⟨hchip, -⟩ := commitPage_spec hp
      refine hchip.trans ?_
      rw [answer]
      split_ifs <;> exact ⟨rfl, rfl, rfl, rfl, rfl⟩
    · exact .refl fd

/-- After a read nothing is pending. -/
theorem not_pending_read (hp : fd.Paged) {addr : BitVec 32} (h : fd.Selects addr) :
    ¬ (fd.call (.read addr)).Pending := by
  obtain ⟨-, -, -, hclean, -⟩ := commitPage_spec hp
  rintro ⟨hm, -⟩
  rw [call, flashRead, if_pos h, answer] at hm
  split_ifs at hm <;> exact absurd (hclean.symm.trans hm) (by decide)

theorem tracked_calls {cs : List FlashCall} : ∀ {fd g : FlashromData}, Tracked rom fd → fd.Paged →
    Follows fd g → fd.KeepsPages cs → fd.StaysInside cs →
    Tracked rom (fd.calls cs) ∧ SameChip fd (fd.calls cs) := by
  induction cs with
  | nil => exact fun h _ _ _ _ => ⟨h, .refl _⟩
  | cons c cs ih =>
    intro fd g h hp hf hkeeps hstays
    obtain ⟨hnext, hpaged⟩ := follows_call hp hf hkeeps.1
    obtain ⟨htracked, hchip⟩ :=
      ih (tracked_call hp h hstays.1) hpaged hnext hkeeps.2 hstays.2
    exact ⟨htracked, (call_chip hp c).trans hchip⟩

theorem tracked_new (rom : Image) (flashsize allocsize : Nat) (mfgcode devcode : Byte)
    (flags : FlashromFlags) :
    Tracked rom (flashNew rom flashsize allocsize mfgcode devcode flags) :=
  ⟨fun _ hne => absurd rfl hne, fun hm => absurd hm (by simp [flashNew]),
    fun _ hm => absurd hm (by simp [flashNew]), fun _ => rfl,
    fun p _ hp => absurd hp (by simp [flashNew])⟩

theorem SameChip.fileBytes (h : SameChip fd fd') : fd'.fileBytes = fd.fileBytes := by
  rw [FlashromData.fileBytes, h.flags, h.allocsize, FlashromData.fileBytes]

theorem SameChip.filePos (h : SameChip fd fd') (i : Nat) : fd'.filePos i = fd.filePos i := by
  rw [FlashromData.filePos, FlashromData.filePos, oddStart, oddStart, h.flags]

theorem SameChip.laidOut (h : SameChip fd fd') : fd'.LaidOut rom zf ↔ fd.LaidOut rom zf := by
  simp only [LaidOut, h.fileBytes, h.filePos, h.otherByteMult]

theorem SameChip.persisted (h : SameChip fd fd') {zf' : HostFile} (hp : Persisted fd' rom zf zf') :
    Persisted fd rom zf zf' := by
  refine ⟨h.laidOut.mp hp.bytes, fun p hout => hp.others p fun i hi => ?_, hp.length⟩
  rw [h.fileBytes] at hi
  rw [h.filePos]
  exact hout i hi

/-- The flags of a chip with pages. -/
def pageFlags : FlashromFlags := ⟨false, false, true, false, false⟩

/-- A chip of 32 KB with pages, and its file. -/
def pageRom : FlashromData := flashNew (fun _ => 0xff) 32768 32768 0x1f 0xdc pageFlags

def pageFile : HostFile := ⟨fun _ => 0xff, 32768, 0⟩

theorem laidOut_pageFile : pageRom.LaidOut (fun _ => 0xff) pageFile := fun _ hi => ⟨rfl, hi⟩

end FlashromData

end LibretroUae.Flash
