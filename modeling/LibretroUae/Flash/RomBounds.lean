import LibretroUae.Flash.RomPersistence

/-!
# LibretroUae.Flash.RomBounds

**The bytes that are used.** Every address is checked before it is used, but an erase and
`flash_free` count up from there: a chip erase runs over as many bytes as the memory has and then
doubles them where the chip is every other byte, a sector may end behind the memory, and the flush
doubles a bound that already counts bytes of the memory. All other accesses are inside.
-/

namespace LibretroUae.Flash

open Lib Lib.Image Storage

namespace FlashromData

/-! ### The indexes into `rom` -/

def writeflashIndexes (fd : FlashromData) (a : Nat) : List Nat :=
  if fd.flags.parallelEeprom = false ∧ fd.writeprot ≤ 0 then [a] else []

def eraseIndexes (fd : FlashromData) (addr n : Nat) : List Nat :=
  (List.range n).map fun i => (addr + i) * fd.otherByteMult

def sectorIndexes (fd : FlashromData) (addr : Nat) : List Nat :=
  if fd.sectorOf addr < fd.allocsize then fd.eraseIndexes (fd.sectorOf addr) fd.sectorsize else []

/-- The bytes that `flash_write` uses behind the check of the address, along `decode`. -/
def commandIndexes (fd : FlashromData) (addr : Nat) (v : Byte) : List Nat :=
  if fd.state = 7 ∨ fd.state = 8 then fd.writeflashIndexes (addr * fd.otherByteMult)
  else if v = 0xf0 ∧ fd.state > 0 ∧ fd.state < 7 then []
  else
    let s := unlock addr v (fd.state, false)
    if addr = 0x5555 ∧ s.1 = 2 ∧ v = 0xa0 then []
    else if addr = 0x5555 ∧ s.1 = 6 ∧ v = 0x20 then []
    else
      let s := prepareErase addr v s
      if addr = 0x5555 ∧ s.1 = 6 ∧ v = 0x10 then fd.eraseIndexes 0 fd.allocsize
      else if s.1 = 6 ∧ v = 0x30 then fd.sectorIndexes addr
      else if s.2 = false ∧ fd.flags.parallelEeprom then
        fd.writeflashIndexes (addr * fd.otherByteMult)
      else []

/-- The bytes a commit of the page buffer uses. -/
def commitIndexes (fd : FlashromData) : List Nat :=
  if fd.flags.parallelEeprom ∧ fd.pagemodified then
    ((List.range fd.pagesize).filter (fd.mpage ·)).map (fd.lastpagewrite.getD 0 + ·)
  else []

/-- The byte an answer uses. -/
def answerIndexes (fd : FlashromData) (addr : Nat) : List Nat :=
  if fd.state = 3 ∨ fd.state ≥ 200 then [] else [addr * fd.otherByteMult]

def callIndexes (fd : FlashromData) : FlashCall → List Nat
  | .write addr v => if fd.Selects addr then fd.commandIndexes (fd.chipAddr addr) v else []
  | .read addr =>
    if fd.Selects addr then fd.commitIndexes ++ fd.commitPage.answerIndexes (fd.chipAddr addr)
    else []

/-- The bytes that `flash_free` uses; there may be no file. -/
def freeIndexes (fd : FlashromData) : Option HostFile → List Nat
  | none => []
  | some zf =>
    if fd.modified then
      if fd.flags.everyOtherByte then (List.range fd.flushEnd).map (· * 2)
      else if fd.flags.skipEveryOtherByte then (List.range (fd.flushEnd / 2)).map (· * 2)
      else if min zf.pos 0x7fffffff > fd.lastwriteoffset then
        List.range' fd.firstwriteoffset (fd.lastwriteoffset - fd.firstwriteoffset + 1)
      else List.range (fd.lastwriteoffset + 1)
    else []

/-- The bytes of a run of calls and of the `flash_free` after it. -/
def runIndexes (fd : FlashromData) (zf : Option HostFile) : List FlashCall → List Nat
  | [] => fd.freeIndexes zf
  | c :: cs => fd.callIndexes c ++ (fd.call c).runIndexes zf cs

variable {fd fd' : FlashromData} {a addr n : Nat} {v : Byte}

/-- What a write uses, by the state. -/
theorem commandIndexes_eq (fd : FlashromData) (addr : Nat) (v : Byte) : fd.commandIndexes addr v =
    if fd.state = 7 ∨ fd.state = 8 then fd.writeflashIndexes (addr * fd.otherByteMult)
    else if addr = 0x5555 ∧ fd.state = 6 ∧ v = 0x10 then fd.eraseIndexes 0 fd.allocsize
    else if fd.state = 6 ∧ v = 0x30 then fd.sectorIndexes addr
    else [] := by
  have hpage : fd.flags.parallelEeprom = true → ∀ a, fd.writeflashIndexes a = [] := by
    intro hp a
    rw [writeflashIndexes, if_neg]
    rintro ⟨h, -⟩
    exact absurd (hp.symm.trans h) (by decide)
  rw [commandIndexes]
  by_cases htake : fd.state = 7 ∨ fd.state = 8
  · rw [if_pos htake, if_pos htake]
  rw [if_neg htake, if_neg htake]
  by_cases hf0 : v = 0xf0 ∧ fd.state > 0 ∧ fd.state < 7
  · have h10 : ¬ v = 0x10 := by
      rw [hf0.1]
      decide
    have h30 : ¬ v = 0x30 := by
      rw [hf0.1]
      decide
    rw [if_pos hf0]
    simp only [h10, h30, and_false, if_false]
  rw [if_neg hf0]
  simp only
  obtain ⟨hprep, hunlock⟩ | ⟨s', hdec, hprep⟩ := prepareErase_decodes addr v fd.state
  · rw [hprep, hunlock]
    simp only [true_and]
    by_cases ha0 : addr = 0x5555 ∧ fd.state = 2 ∧ v = 0xa0
    · have h6 : ¬ fd.state = 6 := by omega
      rw [if_pos ha0]
      simp only [h6, false_and, and_false, if_false]
    rw [if_neg ha0]
    by_cases h20 : addr = 0x5555 ∧ fd.state = 6 ∧ v = 0x20
    · have h10 : ¬ v = 0x10 := by
        rw [h20.2.2]
        decide
      have h30 : ¬ v = 0x30 := by
        rw [h20.2.2]
        decide
      rw [if_pos h20]
      simp only [h10, h30, and_false, if_false]
    rw [if_neg h20]
    by_cases h10 : addr = 0x5555 ∧ fd.state = 6 ∧ v = 0x10
    · rw [if_pos h10, if_pos h10]
    rw [if_neg h10, if_neg h10]
    by_cases h30 : fd.state = 6 ∧ v = 0x30
    · rw [if_pos h30, if_pos h30]
    rw [if_neg h30, if_neg h30]
    split_ifs with hp
    · exact hpage hp _
    · rfl
  · have hv := decodes_byte hdec
    rw [hprep]
    simp only [hv, and_false, if_false, Bool.true_eq_false, false_and]

/-! ### Nothing else is used -/

theorem erased_rom (h : Erased fd addr n fd') {j : Nat} (hj : j ∉ fd.eraseIndexes addr n) :
    fd'.rom j = fd.rom j := by
  rw [h.rom, if_neg]
  rintro ⟨i, hi, rfl⟩
  exact hj (List.mem_map_of_mem (List.mem_range.mpr hi))

theorem writeflash_rom {j : Nat} (hj : j ∉ fd.writeflashIndexes a) :
    (fd.writeflash a v).rom j = fd.rom j := by
  rw [writeflashIndexes] at hj
  by_cases hplain : fd.flags.parallelEeprom = false
  · obtain ⟨modified, first, last, heq⟩ := writeflash_plain hplain a v
    rw [heq]
    simp only
    split_ifs with hw
    · rw [if_pos ⟨hplain, hw⟩] at hj
      exact Function.update_of_ne (fun h => hj (List.mem_singleton.mpr h)) _ _
    · rfl
  · rw [writeflash, if_neg hplain]
    simp only [turnPage, bufferByte]
    split_ifs <;> rfl

theorem command_rom {j : Nat} (hj : j ∉ fd.commandIndexes addr v) :
    (fd.command addr v).1.rom j = fd.rom j := by
  rw [commandIndexes_eq] at hj
  by_cases htake : fd.state = 7 ∨ fd.state = 8
  · rw [if_pos htake] at hj
    rw [command_taken htake]
    exact writeflash_rom hj
  · have hcases := @command_cases fd addr v htake
    rw [if_neg htake] at hj
    generalize (fd.command addr v).1 = fd' at hcases ⊢
    cases hcases with
    | forgotten | decoded | enabled | disabled => rfl
    | chipErased h6 ha hv =>
      rw [if_pos ⟨ha, h6, hv⟩] at hj
      exact erased_rom (erased_eraseBytes fd 0 fd.allocsize) hj
    | sectorErased h6 hv =>
      have hne : ¬ (addr = 0x5555 ∧ fd.state = 6 ∧ v = 0x10) := by
        rintro ⟨-, -, rfl⟩
        exact absurd hv (by decide)
      rw [if_neg hne, if_pos ⟨h6, hv⟩, sectorIndexes] at hj
      change (fd.eraseSector addr).rom j = fd.rom j
      rw [eraseSector]
      split_ifs at hj ⊢
      · exact erased_rom (erased_eraseBytes fd _ _) hj
      · rfl
    | byte hp =>
      have hzero : j ∉ ({ fd with state := 0 } : FlashromData).writeflashIndexes
          (addr * fd.otherByteMult) := by
        rw [writeflashIndexes, if_neg]
        · exact List.not_mem_nil
        · rintro ⟨h, -⟩
          exact absurd (hp.symm.trans h) (by decide)
      exact writeflash_rom hzero

theorem commitPage_rom {j : Nat} (hj : j ∉ fd.commitIndexes) : fd.commitPage.rom j = fd.rom j := by
  rw [commitPage]
  rw [commitIndexes] at hj
  split_ifs at hj ⊢
  · refine (loop_induct (P := fun _ (s : FlashromData) => s.rom j = fd.rom j ∧
      s.lastpagewrite = fd.lastpagewrite ∧ ∀ i, s.mpage i = true → fd.mpage i = true) ?_ fun i s hi hs => ?_).1
    · exact ⟨rfl, rfl, fun _ h => h⟩
    · obtain ⟨hrom, hlast, hmpage⟩ := hs
      rw [commitByte]
      split_ifs with hm
      · obtain ⟨modified, first, last, heq⟩ :=
          store_spec s (s.lastpagewrite.getD 0 + i) (s.page i)
        rw [heq]
        refine ⟨?_, hlast, fun k hk => ?_⟩
        · refine (Function.update_of_ne (fun h => hj ?_) _ _).trans hrom
          rw [h, hlast]
          exact List.mem_map_of_mem
            (List.mem_filter.mpr ⟨List.mem_range.mpr hi, hmpage i hm⟩)
        · simp only [Function.update_apply] at hk
          split_ifs at hk
          exact hmpage k hk
      · exact ⟨hrom, hlast, hmpage⟩
  · rfl

/-- A call changes no byte but those it uses. -/
theorem call_rom (c : FlashCall) {j : Nat} (hj : j ∉ fd.callIndexes c) :
    (fd.call c).rom j = fd.rom j := by
  cases c with
  | write addr v =>
    rw [call, flashWrite]
    rw [callIndexes] at hj
    split_ifs at hj ⊢
    · exact command_rom hj
    · rfl
  | read addr =>
    rw [call, flashRead]
    rw [callIndexes] at hj
    split_ifs at hj ⊢
    · have hanswer (s : FlashromData) (a : Nat) : (s.answer a).1.rom = s.rom := by
        rw [answer]
        split_ifs <;> rfl
      rw [hanswer]
      exact commitPage_rom fun h => hj (List.mem_append_left _ h)
    · rfl

theorem calls_rom (zf : Option HostFile) {j : Nat} : ∀ (cs : List FlashCall) {fd : FlashromData},
    j ∉ fd.runIndexes zf cs → (fd.calls cs).rom j = fd.rom j
  | [], _, _ => rfl
  | c :: cs, fd, hj => by
    rw [runIndexes, List.mem_append, not_or] at hj
    exact (calls_rom zf cs hj.2).trans (call_rom c hj.1)

/-! ### What the bounds rest on -/

/-- The changes are inside the memory, and so are the bytes of the page buffer. -/
structure Bounded (fd : FlashromData) : Prop where
  alloc : 0 < fd.allocsize
  sector : 0 < fd.sectorsize
  last : fd.lastwriteoffset < fd.allocsize
  ordered : fd.modified → fd.firstwriteoffset ≤ fd.lastwriteoffset
  buffered : ∀ p i, fd.lastpagewrite = some p → fd.mpage i → p + i < fd.allocsize
  some : fd.pagemodified → fd.lastpagewrite.isSome

theorem bounded_setmodified (h : Bounded fd) (ha : a < fd.allocsize) :
    Bounded ({ fd with rom := Function.update fd.rom a v }.setmodified a) := by
  have hlast : (if a > fd.lastwriteoffset then a else fd.lastwriteoffset) < fd.allocsize := by
    split_ifs
    · exact ha
    · exact h.last
  refine ⟨h.alloc, h.sector, hlast, fun _ => ?_, h.buffered, h.some⟩
  simp only [setmodified]
  split_ifs <;> omega

theorem bounded_store (h : Bounded fd) (ha : a < fd.allocsize) : Bounded (fd.store a v) := by
  rw [store]
  split_ifs
  · exact bounded_setmodified h ha
  · exact h

theorem bounded_eraseBytes (h : Bounded fd)
    (hin : ∀ i < n, (addr + i) * fd.otherByteMult < fd.allocsize) :
    Bounded (fd.eraseBytes addr n) := by
  induction n with
  | zero => exact h
  | succ n ih =>
    have herased := erased_eraseBytes fd addr n
    rw [eraseBytes_succ]
    refine bounded_store (ih fun i hi => hin i (Nat.lt_succ_of_lt hi)) ?_
    rw [herased.chip.otherByteMult, herased.chip.allocsize]
    exact hin n (Nat.lt_succ_self n)

theorem bounded_writeflash (h : Bounded fd) (ha : a < fd.allocsize) :
    Bounded (fd.writeflash a v) := by
  by_cases hplain : fd.flags.parallelEeprom = false
  · rw [writeflash, if_pos hplain]
    simp only
    have hbusy : Bounded { fd with state := 100 } := ⟨h.1, h.2, h.3, h.4, h.5, h.6⟩
    split_ifs with hw hne hm hm
    · exact bounded_setmodified hbusy ha
    · exact absurd rfl hm
    · have hsame : Function.update fd.rom a v = fd.rom := by
        rw [← not_not.mp hne, Function.update_eq_self]
      have hset := bounded_setmodified (v := v) hbusy ha
      simp only [hsame] at hset
      exact hset
    · exact hbusy
    · exact hbusy
  · rw [writeflash, if_neg hplain]
    have hturned : Bounded (fd.turnPage a) ∧
        (fd.turnPage a).lastpagewrite = Option.some (fd.pageOf a) ∧
        (fd.turnPage a).allocsize = fd.allocsize ∧ (fd.turnPage a).pagesize = fd.pagesize := by
      rw [turnPage]
      split_ifs with hlast
      · exact ⟨⟨h.1, h.2, h.3, h.4, fun p i _ hm => absurd hm (by simp), fun _ => rfl⟩, rfl, rfl,
          rfl⟩
      · exact ⟨h, not_not.mp hlast, rfl, rfl⟩
    obtain ⟨ht, hlast, halloc, hpages⟩ := hturned
    generalize fd.turnPage a = t at ht hlast halloc hpages ⊢
    simp only
    split_ifs
    · refine ⟨ht.1, ht.2, ht.3, ht.4, fun p i hp hm => ?_, fun _ => by rw [bufferByte, hlast]; rfl⟩
      simp only [bufferByte, hpages, Function.update_apply] at hp hm ⊢
      split_ifs at hm with hi
      · obtain rfl := Option.some.inj (hlast.symm.trans hp)
        rw [hi, pageOf, Nat.sub_add_cancel (Nat.mod_le _ _), halloc]
        exact ha
      · exact ht.buffered p i hp hm
    · exact ⟨ht.1, ht.2, ht.3, ht.4, ht.5, ht.6⟩

/-- A commit uses bytes of the memory only. -/
theorem commitIndexes_lt (h : Bounded fd) : ∀ i ∈ fd.commitIndexes, i < fd.allocsize := by
  intro i hi
  rw [commitIndexes] at hi
  split_ifs at hi with hc
  · obtain ⟨p, hlast⟩ := Option.isSome_iff_exists.mp (h.some hc.2)
    rw [hlast, Option.getD_some, List.mem_map] at hi
    obtain ⟨j, hj, rfl⟩ := hi
    exact h.buffered p j hlast (List.mem_filter.mp hj).2
  · exact absurd hi List.not_mem_nil

theorem bounded_commitPage (h : Bounded fd) : Bounded fd.commitPage ∧ SameChip fd fd.commitPage := by
  rw [commitPage]
  split_ifs with hc
  · obtain ⟨p, hlast⟩ := Option.isSome_iff_exists.mp (h.some hc.2)
    have hloop : Bounded (loop commitByte fd.pagesize { fd with pagemodified := false }) ∧
        SameChip fd (loop commitByte fd.pagesize { fd with pagemodified := false }) ∧
        (loop commitByte fd.pagesize { fd with pagemodified := false }).lastpagewrite =
          Option.some p := by
      refine loop_induct
        (P := fun _ s => Bounded s ∧ SameChip fd s ∧ s.lastpagewrite = Option.some p) ?_
        fun i s _ hs => ?_
      · exact ⟨⟨h.1, h.2, h.3, h.4, h.5, fun hm => absurd hm (by simp)⟩,
          ⟨rfl, rfl, rfl, rfl, rfl⟩, hlast⟩
      · obtain ⟨hb, hchip, hl⟩ := hs
        rw [commitByte]
        split_ifs with hm
        · have hstored := bounded_store (v := s.page i) hb (hb.buffered p i hl hm)
          obtain ⟨modified, first, last, heq⟩ := store_spec s (p + i) (s.page i)
          rw [hl, Option.getD_some]
          rw [heq] at hstored ⊢
          refine ⟨⟨hstored.1, hstored.2, hstored.3, hstored.4, fun q j hq hj => ?_, hstored.6⟩,
            ⟨hchip.1, hchip.2, hchip.3, hchip.4, hchip.5⟩, hl⟩
          simp only [Function.update_apply] at hj
          split_ifs at hj
          exact hb.buffered q j hq hj
        · exact ⟨hb, hchip, hl⟩
    exact ⟨hloop.1, hloop.2.1⟩
  · exact ⟨h, .refl fd⟩

theorem bounded_answer (h : Bounded fd) (addr : Nat) : Bounded (fd.answer addr).1 := by
  rw [answer]
  split_ifs <;> exact ⟨h.1, h.2, h.3, h.4, h.5, h.6⟩

/-- A command that uses bytes of the memory only keeps the bounds. -/
theorem bounded_command (h : Bounded fd) (haddr : addr * fd.otherByteMult < fd.allocsize)
    (hin : ∀ i ∈ fd.commandIndexes addr v, i < fd.allocsize) : Bounded (fd.command addr v).1 := by
  by_cases htake : fd.state = 7 ∨ fd.state = 8
  · rw [command_taken htake]
    exact bounded_writeflash h haddr
  · have hcases := @command_cases fd addr v htake
    rw [commandIndexes_eq, if_neg htake] at hin
    generalize (fd.command addr v).1 = fd' at hcases ⊢
    cases hcases with
    | forgotten | decoded | enabled | disabled => exact ⟨h.1, h.2, h.3, h.4, h.5, h.6⟩
    | chipErased h6 ha hv =>
      rw [if_pos ⟨ha, h6, hv⟩] at hin
      have hchip : Bounded (fd.eraseBytes 0 fd.allocsize) := bounded_eraseBytes h fun i hi =>
        hin _ (List.mem_map_of_mem (List.mem_range.mpr hi))
      exact ⟨hchip.1, hchip.2, hchip.3, hchip.4, hchip.5, hchip.6⟩
    | sectorErased h6 hv =>
      have hne : ¬ (addr = 0x5555 ∧ fd.state = 6 ∧ v = 0x10) := by
        rintro ⟨-, -, rfl⟩
        exact absurd hv (by decide)
      rw [if_neg hne, if_pos ⟨h6, hv⟩, sectorIndexes] at hin
      have hsector : Bounded (fd.eraseSector addr) := by
        rw [eraseSector]
        split_ifs with hlt
        · rw [if_pos hlt] at hin
          exact bounded_eraseBytes h fun i hi =>
            hin _ (List.mem_map_of_mem (List.mem_range.mpr hi))
        · exact h
      exact ⟨hsector.1, hsector.2, hsector.3, hsector.4, hsector.5, hsector.6⟩
    | byte =>
      have hzero : Bounded { fd with state := 0 } := ⟨h.1, h.2, h.3, h.4, h.5, h.6⟩
      exact bounded_writeflash hzero haddr

theorem bounded_call (h : Bounded fd) {c : FlashCall}
    (hin : ∀ i ∈ fd.callIndexes c, i < fd.allocsize) :
    Bounded (fd.call c) ∧ SameChip fd (fd.call c) := by
  cases c with
  | write addr v =>
    rw [call, flashWrite]
    rw [callIndexes] at hin
    split_ifs at hin ⊢ with hselects
    · exact ⟨bounded_command h (chipAddr_lt hselects) hin, command_chip fd _ v⟩
    · exact ⟨h, .refl fd⟩
  | read addr =>
    rw [call, flashRead]
    split_ifs
    · obtain ⟨hcommit, hchip⟩ := bounded_commitPage h
      refine ⟨bounded_answer hcommit _, hchip.trans ?_⟩
      rw [answer]
      split_ifs <;> exact ⟨rfl, rfl, rfl, rfl, rfl⟩
    · exact ⟨h, .refl fd⟩

/-! ### What goes beyond the memory -/

/-- The call erases the chip where it is every other byte, or a sector that ends behind the
memory. -/
def ErasesBeyond (fd : FlashromData) : FlashCall → Prop
  | .write addr v => fd.Selects addr ∧ fd.state = 6 ∧
      (fd.chipAddr addr = 0x5555 ∧ v = 0x10 ∧ fd.otherByteMult = 2 ∨
        v = 0x30 ∧ fd.sectorOf (fd.chipAddr addr) < fd.allocsize ∧
          fd.allocsize ≤ (fd.sectorOf (fd.chipAddr addr) + (fd.sectorsize - 1)) * fd.otherByteMult)
  | .read _ => False

instance (fd : FlashromData) : (c : FlashCall) → Decidable (fd.ErasesBeyond c)
  | .write _ _ => inferInstanceAs (Decidable (_ ∧ _))
  | .read _ => inferInstanceAs (Decidable False)

/-- The flush doubles a bound beyond the middle of the memory. -/
def FlushesBeyond (fd : FlashromData) (zf : Option HostFile) : Prop :=
  zf.isSome ∧ fd.modified ∧ fd.flags.everyOtherByte ∧ fd.allocsize ≤ (fd.flushEnd - 1) * 2

/-- No call of a run erases beyond the memory, and the flush after it stays inside too. -/
def StaysWithin (fd : FlashromData) (zf : Option HostFile) : List FlashCall → Prop
  | [] => ¬ fd.FlushesBeyond zf
  | c :: cs => ¬ fd.ErasesBeyond c ∧ (fd.call c).StaysWithin zf cs

theorem otherByteMult_cases (fd : FlashromData) : fd.otherByteMult = 1 ∨ fd.otherByteMult = 2 := by
  rw [otherByteMult]
  split_ifs
  · exact .inr rfl
  · exact .inl rfl

theorem eraseIndexes_lt (fd : FlashromData) {addr n k : Nat} (hn : 0 < n) :
    (∀ i ∈ fd.eraseIndexes addr n, i < k) ↔ (addr + (n - 1)) * fd.otherByteMult < k := by
  constructor
  · intro h
    exact h _ (List.mem_map_of_mem (List.mem_range.mpr (by omega)))
  · intro h i hi
    obtain ⟨j, hj, rfl⟩ := List.mem_map.mp hi
    have hle : addr + j ≤ addr + (n - 1) := by
      have := List.mem_range.mp hj
      omega
    exact lt_of_le_of_lt (Nat.mul_le_mul_right _ hle) h

/-- A call stays inside unless it erases beyond the memory. -/
theorem callIndexes_lt (h : Bounded fd) (c : FlashCall) :
    (∀ i ∈ fd.callIndexes c, i < fd.allocsize) ↔ ¬ fd.ErasesBeyond c := by
  cases c with
  | read addr =>
    refine iff_of_true ?_ id
    rw [callIndexes]
    split_ifs with hselects
    · intro i hi
      rcases List.mem_append.mp hi with hi | hi
      · exact commitIndexes_lt h i hi
      · rw [answerIndexes] at hi
        split_ifs at hi
        · exact absurd hi List.not_mem_nil
        · obtain rfl := List.mem_singleton.mp hi
          rw [(bounded_commitPage h).2.otherByteMult]
          exact chipAddr_lt hselects
    · exact fun i hi => absurd hi List.not_mem_nil
  | write addr v =>
    rw [callIndexes, ErasesBeyond]
    by_cases hselects : fd.Selects addr
    · have haddr := chipAddr_lt hselects
      rw [if_pos hselects, commandIndexes_eq]
      by_cases htake : fd.state = 7 ∨ fd.state = 8
      · have h6 : ¬ fd.state = 6 := by omega
        rw [if_pos htake]
        refine iff_of_true (fun i hi => ?_) (fun hb => h6 hb.2.1)
        rw [writeflashIndexes] at hi
        split_ifs at hi
        · rwa [List.mem_singleton.mp hi]
        · exact absurd hi List.not_mem_nil
      rw [if_neg htake]
      by_cases hchip : fd.chipAddr addr = 0x5555 ∧ fd.state = 6 ∧ v = 0x10
      · rw [if_pos hchip, eraseIndexes_lt fd h.alloc, Nat.zero_add]
        -- the address is selected, so there is more than one byte
        have hmult : (fd.allocsize - 1) * fd.otherByteMult < fd.allocsize ↔
            ¬ fd.otherByteMult = 2 := by
          rw [hchip.1] at haddr
          rcases fd.otherByteMult_cases with hm | hm <;> rw [hm] at haddr ⊢ <;> omega
        rw [hmult]
        simp [hselects, hchip]
      rw [if_neg hchip]
      by_cases hsector : fd.state = 6 ∧ v = 0x30
      · have h10 : ¬ v = 0x10 := by
          rw [hsector.2]
          decide
        rw [if_pos hsector, sectorIndexes]
        by_cases hlt : fd.sectorOf (fd.chipAddr addr) < fd.allocsize
        · rw [if_pos hlt, eraseIndexes_lt fd h.sector, ← not_le]
          simp [hselects, hsector, hlt]
        · rw [if_neg hlt]
          refine iff_of_true (fun i hi => absurd hi List.not_mem_nil) ?_
          rintro ⟨-, -, ⟨-, hv, -⟩ | ⟨-, hl, -⟩⟩
          · exact h10 hv
          · exact hlt hl
      · rw [if_neg hsector]
        refine iff_of_true (fun i hi => absurd hi List.not_mem_nil) ?_
        rintro ⟨-, h6, ⟨ha, hv, -⟩ | ⟨hv, -⟩⟩
        · exact hchip ⟨ha, h6, hv⟩
        · exact hsector ⟨h6, hv⟩
    · rw [if_neg hselects]
      exact iff_of_true (fun i hi => absurd hi List.not_mem_nil) (fun hb => hselects hb.1)

theorem flushEnd_pos (h : Bounded fd) : 0 < fd.flushEnd := by
  have := h.alloc
  rw [flushEnd]
  split_ifs <;> omega

theorem double_lt_iff {n k : Nat} (hn : 0 < n) :
    (∀ i ∈ (List.range n).map (· * 2), i < k) ↔ (n - 1) * 2 < k := by
  constructor
  · intro h
    exact h _ (List.mem_map_of_mem (List.mem_range.mpr (by omega)))
  · intro h i hi
    obtain ⟨j, hj, rfl⟩ := List.mem_map.mp hi
    have := List.mem_range.mp hj
    omega

/-- The flush stays inside unless it doubles too far. -/
theorem freeIndexes_lt (h : Bounded fd) (zf : Option HostFile) :
    (∀ i ∈ fd.freeIndexes zf, i < fd.allocsize) ↔ ¬ fd.FlushesBeyond zf := by
  have hlast := h.last
  cases zf with
  | none =>
    exact iff_of_true (fun i hi => absurd hi List.not_mem_nil) (fun hb => absurd hb.1 (by simp))
  | some f =>
    rw [freeIndexes, FlushesBeyond]
    by_cases hm : fd.modified = true
    · rw [if_pos hm]
      by_cases hevery : fd.flags.everyOtherByte = true
      · rw [if_pos hevery, double_lt_iff (flushEnd_pos h), ← not_le]
        simp [hm, hevery]
      · rw [if_neg hevery]
        refine iff_of_true (fun i hi => ?_) (fun hb => hevery hb.2.2.1)
        split_ifs at hi
        · obtain ⟨j, hj, rfl⟩ := List.mem_map.mp hi
          have hj := List.mem_range.mp hj
          have hend := fd.flushEnd_le
          omega
        · have hi := List.mem_range'_1.mp hi
          have hordered := h.ordered hm
          omega
        · have hi := List.mem_range.mp hi
          omega
    · rw [if_neg hm]
      exact iff_of_true (fun i hi => absurd hi List.not_mem_nil) (fun hb => hm hb.2.1)

/-- A run stays inside unless one of its calls, or the flush, goes beyond the memory. -/
theorem runIndexes_lt {cs : List FlashCall} (zf : Option HostFile) : ∀ {fd : FlashromData},
    Bounded fd → ((∀ i ∈ fd.runIndexes zf cs, i < fd.allocsize) ↔ fd.StaysWithin zf cs) := by
  induction cs with
  | nil => exact fun h => freeIndexes_lt h zf
  | cons c cs ih =>
    intro fd h
    rw [runIndexes, StaysWithin, List.forall_mem_append, callIndexes_lt h c]
    refine and_congr_right (fun hstay => ?_)
    obtain ⟨hnext, hchip⟩ := bounded_call h ((callIndexes_lt h c).mpr hstay)
    rw [← hchip.allocsize]
    exact ih hnext

theorem bounded_new (rom : Image) {flashsize allocsize : Nat} (hsize : 0 < allocsize)
    (mfgcode devcode : Byte) (flags : FlashromFlags) :
    Bounded (flashNew rom flashsize allocsize mfgcode devcode flags) := by
  refine ⟨hsize, ?_, hsize, fun hm => absurd hm (by simp [flashNew]),
    fun p i hp => absurd hp (by simp [flashNew]), fun hm => absurd hm (by simp [flashNew])⟩
  simp only [flashNew]
  split_ifs <;> decide

/-- **The bytes that are used.** In a run of calls and the `flash_free` after it every index into
`rom` is inside the memory just when no call erases the chip where it is every other byte or a
sector that ends behind the memory, and the flush does not double a bound beyond the middle. No
byte changes but those at these indexes. -/
theorem flash_inside_iff (rom : Image) (flashsize allocsize : Nat) (mfgcode devcode : Byte)
    (flags : FlashromFlags) (zf : Option HostFile) (cs : List FlashCall)
    (hpow : ∃ k, flashsize = 2 ^ k) (hsize : flashsize ≤ allocsize) :
    let fd := flashNew rom flashsize allocsize mfgcode devcode flags
    ((∀ i ∈ fd.runIndexes zf cs, i < allocsize) ↔ fd.StaysWithin zf cs) ∧
      ∀ j, j ∉ fd.runIndexes zf cs → (fd.calls cs).rom j = rom j := by
  obtain ⟨k, rfl⟩ := hpow
  have hpos := Nat.two_pow_pos k
  exact ⟨runIndexes_lt zf (bounded_new rom (by omega) mfgcode devcode flags),
    fun _ hj => calls_rom zf cs hj⟩

theorem flash_inside_page :
    ((∀ i ∈ pageRom.runIndexes (some pageFile) [.write 0 0, .read 0], i < 32768) ↔
      pageRom.StaysWithin (some pageFile) [.write 0 0, .read 0]) ∧
      ∀ j, j ∉ pageRom.runIndexes (some pageFile) [.write 0 0, .read 0] →
        (pageRom.calls [.write 0 0, .read 0]).rom j = 0xff := by
  unfold pageRom
  exact flash_inside_iff (fun _ => 0xff) 32768 32768 0x1f 0xdc pageFlags (some pageFile)
    [.write 0 0, .read 0] ⟨15, by decide⟩ (by decide)

/-- A chip of every other byte that fills its memory. -/
def otherFlags : FlashromFlags := ⟨true, false, false, false, false⟩

/-- The chip is unlocked twice and erased. -/
def eraseCalls : List FlashCall :=
  [.write 0xaaaa 0xaa, .write 0x5554 0x55, .write 0xaaaa 0x80, .write 0xaaaa 0xaa,
    .write 0x5554 0x55, .write 0xaaaa 0x10]

/-- The erase of a chip of every other byte goes beyond the memory. -/
theorem chip_erase_beyond : ¬ ∀ (rom : Image) (flashsize allocsize : Nat) (mfgcode devcode : Byte)
    (flags : FlashromFlags) (zf : Option HostFile) (cs : List FlashCall),
    (∃ k, flashsize = 2 ^ k) → flashsize ≤ allocsize →
      ∀ i ∈ (flashNew rom flashsize allocsize mfgcode devcode flags).runIndexes zf cs,
        i < allocsize := by
  intro h
  have hrun := h (fun _ => 0) 131072 131072 0x01 0x20 otherFlags none eraseCalls ⟨17, by decide⟩
    (by decide)
  have hstays := (runIndexes_lt none (bounded_new (fun _ => 0) (by decide : 0 < 131072) 0x01 0x20
    otherFlags)).mp hrun
  exact hstays.2.2.2.2.2.1 (by decide)

end FlashromData

end LibretroUae.Flash
