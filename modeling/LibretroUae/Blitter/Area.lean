import LibretroUae.Lib.Loop

/-!
# LibretroUae.Blitter.Area

**Area blits.** `blitter_dofast` and `blitter_dofast_desc` do a blit at once, in the order the
chip does it: the words of A, B and C are fetched, the last word is stored, and only then the
next one is combined. A channel is used when its local pointer is not null. The reference asks
the control bits for every word instead.
-/

namespace LibretroUae.Blitter

open Lib

/-! ### Registers -/

/-- What the words of a blit read and change. -/
structure BltRegs where
  bltadat : UInt16
  bltbdat : UInt16
  bltcdat : UInt16
  bltddat : UInt16
  bltaold : UInt16
  bltbold : UInt16
  bltbhold : UInt16
  blitzero : Bool
  deriving DecidableEq, Repr

structure BltPtrs where
  bltapt : UInt32
  bltbpt : UInt32
  bltcpt : UInt32
  bltdpt : UInt32
  deriving DecidableEq, Repr

/-- The control registers of a blit. Modulos are signed, and are added modulo 2³². -/
structure BltCon where
  bltcon0 : UInt16
  bltcon1 : UInt16
  bltafwm : UInt16
  bltalwm : UInt16
  bltamod : UInt32
  bltbmod : UInt32
  bltcmod : UInt32
  bltdmod : UInt32
  hblitsize : Nat
  vblitsize : Nat
  blitfill : Bool
  blitife : Bool
  deriving DecidableEq, Repr

namespace BltCon

variable (c : BltCon)

def mt : UInt8 := c.bltcon0.toUInt8
def ashift : UInt32 := (c.bltcon0 >>> 12).toUInt32
def bshift : UInt32 := (c.bltcon1 >>> 12).toUInt32
def blitcha : Bool := c.bltcon0 &&& 0x800 ≠ 0
def blitchb : Bool := c.bltcon0 &&& 0x400 ≠ 0
def blitchc : Bool := c.bltcon0 &&& 0x200 ≠ 0
def blitchd : Bool := c.bltcon0 &&& 0x100 ≠ 0

/-- `BLTFC`. -/
def fillCarry : Bool := c.bltcon1 &&& 4 ≠ 0

end BltCon

/-! ### Words -/

/-- A bit of a minterm takes a source or its complement. -/
def select (positive : Bool) (src : UInt32) : UInt32 := if positive then src else ~~~src

/-- `blit_func`: the minterms of a logic function. -/
def blitFunc (srca srcb srcc : UInt32) (mt : UInt8) : UInt32 :=
  (List.range 8).foldl (fun acc k =>
    if mt.toNat.testBit k then
      acc ||| (select (k.testBit 2) srca &&& select (k.testBit 1) srcb &&&
        select (k.testBit 0) srcc)
    else acc) 0

/-- An entry of `blit_filltable`: a byte filled from a carry, and the carry after it. -/
def blitFilltable (d : UInt8) (ife fc : Bool) : UInt8 × Bool :=
  ([1, 2, 4, 8, 16, 32, 64, 128] : List UInt8).foldl (fun (data, fc) fillmask =>
    (if fc then (if ife then data ||| fillmask else data ^^^ fillmask) else data,
      if data &&& fillmask ≠ 0 then !fc else fc)) (d, fc)

/-- Fills a word, low byte first. -/
def fillWord (ife fc : Bool) (d : UInt16) : UInt16 × Bool :=
  let low := blitFilltable d.toUInt8 ife fc
  let high := blitFilltable (d >>> 8).toUInt8 ife low.2
  (low.1.toUInt16 + (high.1.toUInt16 <<< 8), high.2)

def BltCon.fill (c : BltCon) (fc : Bool) (d : UInt16) : UInt16 × Bool :=
  if c.blitfill then fillWord c.blitife fc d else (d, fc)

/-- A word shifted together with the one before it. -/
def shiftIn (desc : Bool) (old dat : UInt16) (shift : UInt32) : UInt32 :=
  if desc then ((dat.toUInt32 <<< 16) ||| old.toUInt32) >>> (16 - shift)
  else ((old.toUInt32 <<< 16) ||| dat.toUInt32) >>> shift

/-- Moves a pointer in the direction of a blit. -/
def advance (desc : Bool) (ptr d : UInt32) : UInt32 := if desc then ptr - d else ptr + d

/-- `blit_masktable` while a blit runs. -/
def blitMasktable (c : BltCon) (i : Nat) : UInt16 :=
  let mask := if i = 0 then c.bltafwm else 0xffff
  if i = c.hblitsize - 1 then mask &&& c.bltalwm else mask

/-! ### The fast blits -/

section

variable {M : Type} (wget : M → UInt32 → UInt16) (wput : M → UInt32 → UInt16 → M)

/-- The registers, the memory, and the locals of the loops. -/
structure Fast (M : Type) where
  regs : BltRegs
  mem : M
  bltadatptr : UInt32
  bltbdatptr : UInt32
  bltcdatptr : UInt32
  bltddatptr : UInt32
  blitahold : UInt32
  blitbhold : UInt32
  blitfc : Bool
  dstp : UInt32
  dodst : Bool

namespace Fast

variable (desc : Bool) (c : BltCon)

def fetchA (i : Nat) (s : Fast M) : Fast M :=
  let s := if s.bltadatptr ≠ 0 then
    { s with regs := { s.regs with bltadat := wget s.mem s.bltadatptr }
             bltadatptr := advance desc s.bltadatptr 2 }
  else s
  let bltadat := s.regs.bltadat &&& blitMasktable c i
  { s with blitahold := shiftIn desc s.regs.bltaold bltadat c.ashift
           regs := { s.regs with bltaold := bltadat } }

def fetchB (s : Fast M) : Fast M :=
  if s.bltbdatptr ≠ 0 then
    let bltbdat := wget s.mem s.bltbdatptr
    { s with blitbhold := shiftIn desc s.regs.bltbold bltbdat c.bshift
             regs := { s.regs with bltbold := bltbdat, bltbdat }
             bltbdatptr := advance desc s.bltbdatptr 2 }
  else s

/-- In descending mode the word also goes to the data of B. -/
def fetchC (s : Fast M) : Fast M :=
  if s.bltcdatptr ≠ 0 then
    let bltcdat := wget s.mem s.bltcdatptr
    let bltbdat := if desc then bltcdat else s.regs.bltbdat
    { s with regs := { s.regs with bltcdat, bltbdat }
             bltcdatptr := advance desc s.bltcdatptr 2 }
  else s

/-- Stores the word before. -/
def store (s : Fast M) : Fast M :=
  if s.dodst then { s with mem := wput s.mem s.dstp s.regs.bltddat } else s

def combine (s : Fast M) : Fast M :=
  let d := (blitFunc s.blitahold s.blitbhold s.regs.bltcdat.toUInt32 c.mt).toUInt16
  let filled := c.fill s.blitfc d
  { s with regs := { s.regs with bltddat := filled.1, blitzero := s.regs.blitzero && filled.1 == 0 }
           blitfc := filled.2 }

def target (s : Fast M) : Fast M :=
  if s.bltddatptr ≠ 0 then
    { s with dodst := true, dstp := s.bltddatptr, bltddatptr := advance desc s.bltddatptr 2 }
  else s

/-- The inner loop. -/
def word (i : Nat) (s : Fast M) : Fast M :=
  target desc (combine c (store wput (fetchC wget desc (fetchB wget desc c (fetchA wget desc c i s)))))

/-- The end of a row. -/
def addMod (ptr mod : UInt32) : UInt32 := if ptr ≠ 0 then advance desc ptr mod else ptr

/-- The outer loop. -/
def row (_ : Nat) (s : Fast M) : Fast M :=
  let s := loop (word wget wput desc c) c.hblitsize { s with blitfc := c.fillCarry }
  { s with bltadatptr := addMod desc s.bltadatptr c.bltamod
           bltbdatptr := addMod desc s.bltbdatptr c.bltbmod
           bltcdatptr := addMod desc s.bltcdatptr c.bltcmod
           bltddatptr := addMod desc s.bltddatptr c.bltdmod }

end Fast

/-- The size of a channel in memory: what its pointer moves by. -/
def BltCon.span (c : BltCon) (mod : UInt32) : UInt32 :=
  (.ofNat c.hblitsize * 2 + mod) * .ofNat c.vblitsize

/-- The registers, pointers and memory after a blit. -/
structure Blitted (M : Type) where
  regs : BltRegs
  ptrs : BltPtrs
  mem : M

/-- What the two fast blits have in common. -/
def dofast (desc : Bool) (c : BltCon) (regs : BltRegs) (p : BltPtrs) (mem : M) : Blitted M :=
  let move := fun (enabled : Bool) ptr mod =>
    if enabled then advance desc ptr (c.span mod) else ptr
  let start : Fast M :=
    { regs, mem
      bltadatptr := if c.blitcha then p.bltapt else 0
      bltbdatptr := if c.blitchb then p.bltbpt else 0
      bltcdatptr := if c.blitchc then p.bltcpt else 0
      bltddatptr := if c.blitchd then p.bltdpt else 0
      blitahold := 0, blitbhold := regs.bltbhold.toUInt32, blitfc := false
      dstp := 0, dodst := false }
  let s := Fast.store wput (loop (Fast.row wget wput desc c) c.vblitsize start)
  { regs := { s.regs with bltbhold := s.blitbhold.toUInt16 }
    ptrs := ⟨move c.blitcha p.bltapt c.bltamod, move c.blitchb p.bltbpt c.bltbmod,
      move c.blitchc p.bltcpt c.bltcmod, move c.blitchd p.bltdpt c.bltdmod⟩
    mem := s.mem }

/-- `blitter_dofast`, where no function was generated for the minterm. -/
def blitterDofast := dofast wget wput false

/-- `blitter_dofast_desc`, where no function was generated for the minterm. -/
def blitterDofastDesc := dofast wget wput true

/-! ### The reference -/

/-- The registers, pointers and memory, and where the last word is still to be stored. -/
structure Ref (M : Type) where
  regs : BltRegs
  ptrs : BltPtrs
  mem : M
  blitfc : Bool
  pending : Option UInt32

namespace Ref

variable (desc : Bool) (c : BltCon)

def fetchA (s : Ref M) : Ref M :=
  if c.blitcha then
    { s with regs := { s.regs with bltadat := wget s.mem s.ptrs.bltapt }
             ptrs := { s.ptrs with bltapt := advance desc s.ptrs.bltapt 2 } }
  else s

/-- The word of B is shifted when it is fetched. -/
def fetchB (s : Ref M) : Ref M :=
  if c.blitchb then
    let dat := wget s.mem s.ptrs.bltbpt
    { s with regs := { s.regs with bltbdat := dat, bltbold := dat
                                   bltbhold := (shiftIn desc s.regs.bltbold dat c.bshift).toUInt16 }
             ptrs := { s.ptrs with bltbpt := advance desc s.ptrs.bltbpt 2 } }
  else s

def fetchC (s : Ref M) : Ref M :=
  if c.blitchc then
    { s with regs := { s.regs with bltcdat := wget s.mem s.ptrs.bltcpt }
             ptrs := { s.ptrs with bltcpt := advance desc s.ptrs.bltcpt 2 } }
  else s

def store (s : Ref M) : Ref M :=
  match s.pending with
  | none => s
  | some ptr => { s with mem := wput s.mem ptr s.regs.bltddat }

/-- `blitter_doblit`. -/
def doblit (first last : Bool) (s : Ref M) : Ref M :=
  let bltadat := if first then s.regs.bltadat &&& c.bltafwm else s.regs.bltadat
  let bltadat := if last then bltadat &&& c.bltalwm else bltadat
  let blitahold := shiftIn desc s.regs.bltaold bltadat c.ashift
  let d := (blitFunc blitahold s.regs.bltbhold.toUInt32 s.regs.bltcdat.toUInt32 c.mt).toUInt16
  let filled := c.fill s.blitfc d
  { s with regs := { s.regs with bltaold := bltadat, bltddat := filled.1
                                 blitzero := s.regs.blitzero && filled.1 == 0 }
           blitfc := filled.2 }

def target (s : Ref M) : Ref M :=
  if c.blitchd then
    { s with pending := some s.ptrs.bltdpt
             ptrs := { s.ptrs with bltdpt := advance desc s.ptrs.bltdpt 2 } }
  else s

def word (i : Nat) (s : Ref M) : Ref M :=
  target desc c (doblit desc c (i = 0) (i = c.hblitsize - 1)
    (store wput (fetchC wget desc c (fetchB wget desc c (fetchA wget desc c s)))))

def row (_ : Nat) (s : Ref M) : Ref M :=
  let s := loop (word wget wput desc c) c.hblitsize { s with blitfc := c.fillCarry }
  let move := fun (enabled : Bool) ptr mod => if enabled then advance desc ptr mod else ptr
  { s with ptrs := ⟨move c.blitcha s.ptrs.bltapt c.bltamod, move c.blitchb s.ptrs.bltbpt c.bltbmod,
      move c.blitchc s.ptrs.bltcpt c.bltcmod, move c.blitchd s.ptrs.bltdpt c.bltdmod⟩ }

end Ref

/-- The word-by-word blitter. -/
def reference (desc : Bool) (c : BltCon) (regs : BltRegs) (p : BltPtrs) (mem : M) : Blitted M :=
  let s := Ref.store wput (loop (Ref.row wget wput desc c) c.vblitsize ⟨regs, p, mem, false, none⟩)
  ⟨s.regs, s.ptrs, s.mem⟩

end

end LibretroUae.Blitter
