import LibretroUae.Flash.Rom

/-!
# LibretroUae.Flash.RomBuffer

**The page buffer.** A chip without it stores a byte at once: that is what the memory should hold
once everything is committed. The buffered chip follows it, with the bytes of the page laid over
the memory, as long as no page is dropped for another one.
-/

namespace LibretroUae.Flash

open Lib Lib.Image

namespace FlashromData

/-! ### The chip without a buffer -/

/-- A byte is stored at once. -/
def program (fd : FlashromData) (a : Nat) (v : Byte) : FlashromData :=
  { fd with
    state := if fd.flags.parallelEeprom then 8 else 100
    rom := if fd.writeprot ≤ 0 then Function.update fd.rom a v else fd.rom }

def directCall (fd : FlashromData) : FlashCall → FlashromData
  | .write addr v =>
    if fd.Selects addr then
      (fd.decode (·.program (fd.chipAddr addr * fd.otherByteMult) v) (fd.chipAddr addr) v).1
    else fd
  | .read addr => if fd.Selects addr then (fd.answer (fd.chipAddr addr)).1 else fd

/-- The calls, on the chip without a buffer. -/
def directCalls (fd : FlashromData) (cs : List FlashCall) : FlashromData := cs.foldl directCall fd

/-! ### The page over the memory -/

/-- A byte of the memory is in the page buffer. -/
def Buffered (fd : FlashromData) (j : Nat) : Prop :=
  fd.pagemodified ∧ fd.lastpagewrite = some (fd.pageOf j) ∧ fd.mpage (j % fd.pagesize)

instance (fd : FlashromData) (j : Nat) : Decidable (fd.Buffered j) :=
  inferInstanceAs (Decidable (_ ∧ _))

/-- The memory with the page over it. -/
def committed (fd : FlashromData) : Image := fun j =>
  if fd.Buffered j then fd.page (j % fd.pagesize) else fd.rom j

/-- Bytes of the page buffer differ from the memory. -/
def Pending (fd : FlashromData) : Prop :=
  fd.pagemodified ∧ ∃ i < fd.pagesize, fd.mpage i ∧
    fd.page i ≠ fd.rom (fd.lastpagewrite.getD 0 + i)

instance (fd : FlashromData) : Decidable fd.Pending := inferInstanceAs (Decidable (_ ∧ _))

/-- The write goes to another page while bytes of the page buffer are pending. -/
def DropsPage (fd : FlashromData) : FlashCall → Prop
  | .write addr _ => fd.Selects addr ∧ fd.Pending ∧
      fd.lastpagewrite ≠ some (fd.pageOf (fd.chipAddr addr * fd.otherByteMult))
  | .read _ => False

instance (fd : FlashromData) : (c : FlashCall) → Decidable (fd.DropsPage c)
  | .write _ _ => inferInstanceAs (Decidable (_ ∧ _))
  | .read _ => inferInstanceAs (Decidable False)

/-- What holds of the page buffer after any calls. -/
structure Paged (fd : FlashromData) : Prop where
  pagesize : 0 < fd.pagesize
  parallel : fd.pagemodified → fd.flags.parallelEeprom ∧ fd.state = 8
  page : ∀ p, fd.lastpagewrite = some p → p % fd.pagesize = 0
  some : fd.pagemodified → fd.lastpagewrite.isSome
  clean : fd.pagemodified = false → ∀ i < fd.pagesize, fd.mpage i = false

/-- The chip without a buffer does the same, and holds what is committed. -/
structure Follows (fd g : FlashromData) : Prop where
  chip : SameChip fd g
  state : g.state = fd.state
  writeprot : g.writeprot = fd.writeprot
  rom : g.rom = fd.committed

variable {fd fd' g : FlashromData} {a addr : Nat} {v : Byte}

theorem committed_of_not (h : ¬ fd.pagemodified) : fd.committed = fd.rom :=
  funext fun _ => if_neg fun hb => h hb.1

theorem committed_of_not_pending (hp : fd.Paged) (h : ¬ fd.Pending) : fd.committed = fd.rom := by
  funext j
  rw [committed]
  split_ifs with hb
  · obtain ⟨hm, hlast, hmp⟩ := hb
    by_contra hne
    refine h ⟨hm, j % fd.pagesize, Nat.mod_lt _ hp.pagesize, hmp, ?_⟩
    rwa [hlast, Option.getD_some, pageOf, Nat.sub_add_cancel (Nat.mod_le _ _)]
  · rfl

theorem pageOf_mod (fd : FlashromData) (a : Nat) : fd.pageOf a % fd.pagesize = 0 := by
  rw [pageOf, ← Nat.div_mul_self_eq_mod_sub_self, Nat.mul_mod_left]

theorem pageOf_eq_iff {p : Nat} (hpos : 0 < fd.pagesize) (hp : p % fd.pagesize = 0) (j : Nat) :
    fd.pageOf j = p ↔ p ≤ j ∧ j < p + fd.pagesize := by
  obtain ⟨q, rfl⟩ := Nat.dvd_of_mod_eq_zero hp
  have hdiv := Nat.div_add_mod j fd.pagesize
  have hlt := Nat.mod_lt j hpos
  have hpage : fd.pageOf j = fd.pagesize * (j / fd.pagesize) := by
    rw [pageOf]
    omega
  rw [hpage]
  constructor
  · intro heq
    omega
  · rintro ⟨hle, hlt'⟩
    have hq : j / fd.pagesize = q := Nat.div_eq_of_lt_le (by rwa [Nat.mul_comm]) (by
      rw [Nat.add_mul, Nat.one_mul, Nat.mul_comm]
      exact hlt')
    rw [hq]

/-! ### Committing -/

/-- The loop of the commit, after `n` bytes of the page at `p`. -/
structure Committing (fd : FlashromData) (p n : Nat) (s : FlashromData) : Prop where
  chip : SameChip fd s
  state : s.state = fd.state
  writeprot : s.writeprot = fd.writeprot
  last : s.lastpagewrite = some p
  page : s.page = fd.page
  clean : s.pagemodified = false
  mpage : ∀ i, s.mpage i = if i < n then false else fd.mpage i
  rom : ∀ j, s.rom j =
    if p ≤ j ∧ j < p + n ∧ fd.mpage (j - p) then fd.page (j - p) else fd.rom j

theorem committing_round {p n : Nat} {s : FlashromData} (h : Committing fd p n s) :
    Committing fd p (n + 1) (commitByte n s) := by
  have hsame : s.mpage n = fd.mpage n := by rw [h.mpage, if_neg (Nat.lt_irrefl n)]
  have hmpage : ∀ i, (if i < n + 1 then false else fd.mpage i) =
      if i = n then false else s.mpage i := by
    intro i
    rw [h.mpage]
    split_ifs <;> first | rfl | omega
  have hrom : ∀ j, (if p ≤ j ∧ j < p + (n + 1) ∧ fd.mpage (j - p) then fd.page (j - p)
      else fd.rom j) = if j = p + n ∧ fd.mpage n then fd.page n else s.rom j := by
    intro j
    rw [h.rom]
    by_cases hj : j = p + n
    · subst hj
      simp
    · have hlt : j < p + (n + 1) ↔ j < p + n := by omega
      rw [if_neg (fun hc : j = p + n ∧ _ => hj hc.1)]
      simp only [hlt]
  rw [commitByte, hsame]
  split_ifs with hm
  · obtain ⟨modified, first, last, heq⟩ := store_spec s (p + n) (fd.page n)
    rw [h.last, h.page, Option.getD_some, heq]
    refine ⟨⟨h.chip.1, h.chip.2, h.chip.3, h.chip.4, h.chip.5⟩, h.state, h.writeprot, h.last, h.page,
      h.clean, fun i => ?_, fun j => ?_⟩
    · rw [hmpage]
      exact Function.update_apply ..
    · rw [hrom]
      simp only [hm, and_true, Function.update_apply]
  · refine ⟨h.chip, h.state, h.writeprot, h.last, h.page, h.clean, fun i => ?_, fun j => ?_⟩
    · rw [hmpage]
      split_ifs with hi
      · rw [hi, hsame]
        exact Bool.eq_false_of_not_eq_true hm
      · rfl
    · rw [hrom, if_neg fun hc => hm hc.2]

/-- A commit makes the memory what is committed, and leaves nothing in the buffer. -/
theorem commitPage_spec (hp : fd.Paged) :
    SameChip fd fd.commitPage ∧ fd.commitPage.state = fd.state ∧
      fd.commitPage.writeprot = fd.writeprot ∧ fd.commitPage.pagemodified = false ∧
      fd.commitPage.rom = fd.committed ∧ fd.commitPage.Paged := by
  rw [commitPage]
  split_ifs with h
  · obtain ⟨p, hlast⟩ := Option.isSome_iff_exists.mp (hp.some h.2)
    have hpage := hp.page p hlast
    have hloop : Committing fd p fd.pagesize
        (loop commitByte fd.pagesize { fd with pagemodified := false }) := by
      refine loop_induct (P := Committing fd p) ?_ fun i s _ hs => committing_round hs
      refine ⟨⟨rfl, rfl, rfl, rfl, rfl⟩, rfl, rfl, hlast, rfl, rfl, fun i => by simp, fun j => ?_⟩
      rw [if_neg]
      omega
    generalize loop commitByte fd.pagesize { fd with pagemodified := false } = s at hloop ⊢
    have hpages := hloop.chip.pagesize
    refine ⟨hloop.chip, hloop.state, hloop.writeprot, hloop.clean, funext fun j => ?_,
      ⟨hpages ▸ hp.pagesize, ?_, fun q hq => ?_, ?_, fun _ i hi => ?_⟩⟩
    · have hin := pageOf_eq_iff hp.pagesize hpage j
      rw [hloop.rom, committed]
      by_cases hb : fd.pageOf j = p
      · obtain ⟨h1, h2⟩ := hin.mp hb
        have hmod : j % fd.pagesize = j - p := by
          have hle := Nat.mod_le j fd.pagesize
          rw [pageOf] at hb
          omega
        simp only [Buffered, h1, h2, h.2, hlast, hb, hmod, true_and]
      · rw [if_neg fun hc => hb (hin.mpr ⟨hc.1, hc.2.1⟩), if_neg]
        rintro ⟨-, hlast', -⟩
        exact hb (Option.some.inj (hlast'.symm.trans hlast))
    · exact fun hm => absurd (hloop.clean.symm.trans hm) (by decide)
    · rw [hpages, ← Option.some.inj (hloop.last.symm.trans hq)]
      exact hpage
    · exact fun hm => absurd (hloop.clean.symm.trans hm) (by decide)
    · rw [hloop.mpage, if_pos (hpages ▸ hi)]
  · have hclean : fd.pagemodified = false :=
      Bool.eq_false_of_not_eq_true fun hm => h ⟨(hp.parallel hm).1, hm⟩
    exact ⟨.refl fd, rfl, rfl, hclean, (committed_of_not (by simp [hclean])).symm, hp⟩

/-! ### The buffered chip follows -/

/-- With an empty buffer only the memory counts. -/
theorem Follows.of_clean (h : fd.pagemodified = false) (hchip : SameChip fd g)
    (hstate : g.state = fd.state) (hwriteprot : g.writeprot = fd.writeprot)
    (hrom : g.rom = fd.rom) : Follows fd g :=
  ⟨hchip, hstate, hwriteprot, hrom.trans (committed_of_not (by simp [h])).symm⟩

theorem Paged.of_clean (hp : fd.Paged) (hpages : fd'.pagesize = fd.pagesize)
    (hclean : fd'.pagemodified = false) (hlast : fd'.lastpagewrite = fd.lastpagewrite)
    (hmpage : fd'.mpage = fd.mpage) (h : fd.pagemodified = false) : fd'.Paged := by
  refine ⟨hpages ▸ hp.pagesize, fun hm => ?_, fun p hlp => ?_, fun hm => ?_, fun _ i hi => ?_⟩
  · exact absurd (hclean.symm.trans hm) (by decide)
  · rw [hpages]
    exact hp.page p (hlast ▸ hlp)
  · exact absurd (hclean.symm.trans hm) (by decide)
  · rw [hmpage]
    exact hp.clean h i (hpages ▸ hi)

/-- A read, behind the commit. -/
theorem follows_answer (hp : fd.Paged) (hclean : fd.pagemodified = false) (h : Follows fd g)
    (addr : Nat) : Follows (fd.answer addr).1 (g.answer addr).1 ∧ (fd.answer addr).1.Paged := by
  have hrom := h.rom.trans (committed_of_not (by simp [hclean]))
  have hkeep : ∀ s : Nat, Follows { fd with state := s } { g with state := s } ∧
      Paged { fd with state := s } := fun s =>
    ⟨.of_clean hclean ⟨h.chip.1, h.chip.2, h.chip.3, h.chip.4, h.chip.5⟩ rfl h.writeprot hrom,
      hp.of_clean rfl hclean rfl rfl hclean⟩
  simp only [answer, h.state]
  split_ifs
  all_goals first | exact ⟨h, hp⟩ | exact hkeep _

theorem turnPage_spec (hp : fd.Paged) (hkeep : fd.Pending → fd.lastpagewrite = some (fd.pageOf a)) :
    (fd.turnPage a).committed = fd.committed ∧ SameChip fd (fd.turnPage a) ∧
      (fd.turnPage a).Paged ∧ (fd.turnPage a).lastpagewrite = some (fd.pageOf a) := by
  rw [turnPage]
  split_ifs with hlast
  · refine ⟨?_, ⟨rfl, rfl, rfl, rfl, rfl⟩, ⟨hp.pagesize, fun hm => ?_, fun p hlp => ?_, fun _ => rfl,
      fun _ _ _ => rfl⟩, rfl⟩
    · rw [committed_of_not_pending hp fun h => hlast (hkeep h), committed_of_not (by simp)]
    · exact absurd hm (by simp)
    · obtain rfl := Option.some.inj hlp
      exact pageOf_mod fd a
  · exact ⟨rfl, .refl fd, hp, not_not.mp hlast⟩

/-- A byte of the page the buffer is turned to. -/
theorem committed_buffered (hp : fd.Paged) (hlast : fd.lastpagewrite = some (fd.pageOf a)) :
    (fd.bufferByte a v).committed = Function.update fd.committed a v := by
  funext j
  rw [Function.update_apply]
  by_cases hj : j = a
  · subst hj
    rw [if_pos rfl, committed, if_pos ⟨rfl, hlast, Function.update_self ..⟩]
    exact Function.update_self ..
  · rw [if_neg hj, committed, committed]
    by_cases hpage : fd.pageOf j = fd.pageOf a
    · -- another byte of the same page
      have hne : j % fd.pagesize ≠ a % fd.pagesize := by
        intro hmod
        have h1 := Nat.mod_le j fd.pagesize
        have h2 := Nat.mod_le a fd.pagesize
        rw [pageOf, pageOf] at hpage
        omega
      have hbuffered : (fd.bufferByte a v).Buffered j ↔ fd.Buffered j := by
        simp only [bufferByte, Buffered, pageOf, Function.update_of_ne hne, true_and]
        refine ⟨fun ⟨h1, h2⟩ => ⟨?_, h1, h2⟩, fun ⟨_, h1, h2⟩ => ⟨h1, h2⟩⟩
        by_contra hm
        rw [hp.clean (Bool.eq_false_of_not_eq_true hm) _ (Nat.mod_lt _ hp.pagesize)] at h2
        exact absurd h2 (by decide)
      exact if_congr hbuffered (Function.update_of_ne hne ..) rfl
    · have hother : ¬ fd.lastpagewrite = some (fd.pageOf j) := fun hlast' =>
        hpage (Option.some.inj (hlast'.symm.trans hlast))
      rw [if_neg fun hb : fd.Buffered j => hother hb.2.1,
        if_neg fun hb : (fd.bufferByte a v).Buffered j => hother hb.2.1]
      rfl

/-- A byte, taken by a chip that drops no page. -/
theorem follows_writeflash (hp : fd.Paged) (h : Follows fd g)
    (hkeep : fd.Pending → fd.lastpagewrite = some (fd.pageOf a)) :
    Follows (fd.writeflash a v) (g.program a v) ∧ (fd.writeflash a v).Paged := by
  have hflags := h.chip.flags
  by_cases hpar : fd.flags.parallelEeprom = false
  · have hclean : fd.pagemodified = false :=
      Bool.eq_false_of_not_eq_true fun hm => absurd ((hp.parallel hm).1.symm.trans hpar) (by decide)
    have hrom := h.rom.trans (committed_of_not (by simp [hclean]))
    obtain ⟨modified, first, last, heq⟩ := writeflash_plain hpar a v
    rw [heq, program, hflags, hpar, hrom, h.writeprot]
    exact ⟨.of_clean hclean ⟨h.chip.1, h.chip.2, h.chip.3, h.chip.4, rfl⟩ rfl rfl rfl,
      hp.of_clean rfl hclean rfl rfl hclean⟩
  · obtain ⟨hcommitted, hchip, hpaged, hlast⟩ := turnPage_spec hp hkeep
    have hturned : (fd.turnPage a).writeprot = fd.writeprot := by
      rw [turnPage]
      split_ifs <;> rfl
    have hpar' : fd.flags.parallelEeprom = true := by simpa using hpar
    rw [writeflash, if_neg hpar, program, hflags, hpar', h.writeprot, h.rom, ← hcommitted,
      ← hturned]
    generalize fd.turnPage a = t at hcommitted hchip hpaged hlast hturned ⊢
    have hchip' : SameChip t g := hchip.symm.trans h.chip
    have hpage : t.pageOf a = fd.pageOf a := by rw [pageOf, pageOf, hchip.pagesize]
    simp only [if_true]
    by_cases hw : t.writeprot ≤ 0
    · rw [if_pos hw, if_pos hw]
      refine ⟨⟨⟨hchip'.1, hchip'.2, hchip'.3, hchip'.4, hchip.flags.symm⟩, rfl, rfl, ?_⟩, ?_⟩
      · exact (committed_buffered hpaged (hlast.trans (congrArg some hpage.symm))).symm
      · refine ⟨hpaged.pagesize, fun _ => ⟨?_, rfl⟩, hpaged.page, fun _ => ?_, fun hm => ?_⟩
        · exact (congrArg _ hchip.flags).trans hpar'
        · exact Option.isSome_iff_exists.mpr ⟨_, hlast⟩
        · exact absurd hm (by simp [bufferByte])
    · rw [if_neg hw, if_neg hw]
      refine ⟨⟨⟨hchip'.1, hchip'.2, hchip'.3, hchip'.4, hchip.flags.symm⟩, rfl, rfl, rfl⟩, ?_⟩
      · refine ⟨hpaged.pagesize, fun _ => ⟨?_, rfl⟩, hpaged.page, hpaged.some, hpaged.clean⟩
        exact (congrArg _ hchip.flags).trans hpar'

theorem follows_erased {fd' g' : FlashromData} (hp : fd.Paged) (hclean : fd.pagemodified = false)
    (h : Follows fd g) {n : Nat} (herased : Erased fd addr n fd') (herased' : Erased g addr n g') :
    Follows { fd' with state := 200 } { g' with state := 200 } ∧ Paged { fd' with state := 200 } := by
  have hclean' := herased.pagemodified.trans hclean
  have hchip : SameChip fd' g' := (herased.chip.symm.trans h.chip).trans herased'.chip
  refine ⟨.of_clean hclean' ⟨hchip.1, hchip.2, hchip.3, hchip.4, hchip.5⟩ rfl ?_ (funext fun j => ?_),
    hp.of_clean herased.chip.pagesize hclean' herased.lastpagewrite herased.mpage hclean⟩
  · exact (herased'.writeprot.trans h.writeprot).trans herased.writeprot.symm
  · change g'.rom j = fd'.rom j
    rw [herased'.rom, herased.rom, h.chip.otherByteMult, h.rom, committed_of_not (by simp [hclean])]

/-- A write of the decoder. -/
theorem follows_decode (hp : fd.Paged) (h : Follows fd g)
    (hkeep : fd.Pending → fd.lastpagewrite = some (fd.pageOf a)) :
    Follows (fd.decode (·.writeflash a v) addr v).1 (g.decode (·.program a v) addr v).1 ∧
      (fd.decode (·.writeflash a v) addr v).1.Paged := by
  by_cases htake : fd.state = 7 ∨ fd.state = 8
  · rw [decode, decode, h.state, if_pos htake, if_pos htake]
    exact follows_writeflash hp h hkeep
  -- nothing is buffered while no byte is taken
  have hclean : fd.pagemodified = false :=
    Bool.eq_false_of_not_eq_true fun hm => htake (.inr (hp.parallel hm).2)
  have hrom := h.rom.trans (committed_of_not (by simp [hclean]))
  have hkeep' : ∀ (s : Nat) (w : Int), Follows { fd with state := s, writeprot := w }
      { g with state := s, writeprot := w } ∧ Paged { fd with state := s, writeprot := w } :=
    fun s w => ⟨.of_clean hclean ⟨h.chip.1, h.chip.2, h.chip.3, h.chip.4, h.chip.5⟩ rfl rfl hrom,
      hp.of_clean rfl hclean rfl rfl hclean⟩
  have hstate : ∀ s : Nat, Follows { fd with state := s } { g with state := s } ∧
      Paged { fd with state := s } := fun s =>
    ⟨.of_clean hclean ⟨h.chip.1, h.chip.2, h.chip.3, h.chip.4, h.chip.5⟩ rfl h.writeprot hrom,
      hp.of_clean rfl hclean rfl rfl hclean⟩
  have hsector : Follows { fd.eraseSector addr with state := 200 }
      { g.eraseSector addr with state := 200 } ∧ Paged { fd.eraseSector addr with state := 200 } := by
    have hsame : g.sectorOf addr = fd.sectorOf addr := by
      rw [sectorOf, sectorOf, h.chip.sectorsize]
    rw [eraseSector, eraseSector, hsame, h.chip.allocsize, h.chip.sectorsize]
    split_ifs
    · exact follows_erased hp hclean h (erased_eraseBytes ..) (erased_eraseBytes ..)
    · exact hstate 200
  have hchip : Follows { fd.eraseBytes 0 fd.allocsize with state := 200 }
      { g.eraseBytes 0 g.allocsize with state := 200 } ∧
      Paged { fd.eraseBytes 0 fd.allocsize with state := 200 } := by
    rw [h.chip.allocsize]
    exact follows_erased hp hclean h (erased_eraseBytes ..) (erased_eraseBytes ..)
  have hbyte : ∀ s : Nat, Follows ({ fd with state := s }.writeflash a v)
      ({ g with state := s }.program a v) ∧ ({ fd with state := s }.writeflash a v).Paged :=
    fun s => follows_writeflash (hstate s).2 (hstate s).1 fun hpend =>
      absurd (hclean.symm.trans hpend.1) (by decide)
  have hparallel : g.flags.parallelEeprom = fd.flags.parallelEeprom := by rw [h.chip.flags]
  rw [decode, decode, h.state, if_neg htake, if_neg htake]
  generalize unlock addr v (fd.state, false) = s
  simp only
  generalize prepareErase addr v s = s'
  rw [hparallel]
  split_ifs
  all_goals first
    | exact hstate _
    | exact hkeep' _ _
    | exact hchip
    | exact hsector
    | exact hbyte _

/-- A call that drops no page. -/
theorem follows_call (hp : fd.Paged) (h : Follows fd g) {c : FlashCall} (hkeep : ¬ fd.DropsPage c) :
    Follows (fd.call c) (g.directCall c) ∧ (fd.call c).Paged := by
  cases c with
  | write addr v =>
    rw [call, flashWrite, directCall, if_congr (h.chip.selects addr) rfl rfl, h.chip.chipAddr,
      h.chip.otherByteMult]
    split_ifs with hselects
    · refine follows_decode hp h fun hpend => ?_
      by_contra hne
      exact hkeep ⟨hselects, hpend, hne⟩
    · exact ⟨h, hp⟩
  | read addr =>
    rw [call, flashRead, directCall, if_congr (h.chip.selects addr) rfl rfl, h.chip.chipAddr]
    split_ifs with hselects
    · obtain ⟨hchip, hstate, hwriteprot, hclean, hrom, hpaged⟩ := commitPage_spec hp
      have hfollows : Follows fd.commitPage g := .of_clean hclean (hchip.symm.trans h.chip)
        (h.state.trans hstate.symm) (h.writeprot.trans hwriteprot.symm) (h.rom.trans hrom.symm)
      have hanswer := follows_answer hpaged hclean hfollows (fd.chipAddr addr)
      exact hanswer
    · exact ⟨h, hp⟩

/-- No call of a run drops a page. -/
def KeepsPages : FlashromData → List FlashCall → Prop
  | _, [] => True
  | fd, c :: cs => ¬ fd.DropsPage c ∧ KeepsPages (fd.call c) cs

instance decidableKeepsPages : (fd : FlashromData) → (cs : List FlashCall) →
    Decidable (fd.KeepsPages cs)
  | _, [] => isTrue trivial
  | fd, c :: cs =>
    have := decidableKeepsPages (fd.call c) cs
    inferInstanceAs (Decidable (¬ fd.DropsPage c ∧ (fd.call c).KeepsPages cs))

/-- The buffered chip follows through any calls that drop no page. -/
theorem follows_calls {cs : List FlashCall} : ∀ {fd g : FlashromData}, fd.Paged → Follows fd g →
    fd.KeepsPages cs → Follows (fd.calls cs) (g.directCalls cs) ∧ (fd.calls cs).Paged := by
  induction cs with
  | nil => exact fun hp h _ => ⟨h, hp⟩
  | cons c cs ih =>
    intro fd g hp h hkeeps
    obtain ⟨hnext, hpaged⟩ := follows_call hp h hkeeps.1
    exact ih hpaged hnext hkeeps.2

theorem paged_new (rom : Image) (flashsize allocsize : Nat) (mfgcode devcode : Byte)
    (flags : FlashromFlags) : (flashNew rom flashsize allocsize mfgcode devcode flags).Paged := by
  refine ⟨?_, fun hm => absurd hm (by simp [flashNew]), fun p hlp => absurd hlp (by simp [flashNew]),
    fun hm => absurd hm (by simp [flashNew]), fun _ _ _ => rfl⟩
  simp only [flashNew]
  split_ifs <;> decide

theorem follows_new (rom : Image) (flashsize allocsize : Nat) (mfgcode devcode : Byte)
    (flags : FlashromFlags) : Follows (flashNew rom flashsize allocsize mfgcode devcode flags)
      (flashNew rom flashsize allocsize mfgcode devcode flags) :=
  .of_clean rfl (.refl _) rfl rfl rfl

end FlashromData

end LibretroUae.Flash
