import LibretroUae.Lib.Ring
import Mathlib.Data.List.Basic

/-!
# LibretroUae.Keyboard.Buffer

**The keyboard buffer** (`keybuf.c`). Key codes go into a ring of 256 slots and the keyboard
microcontroller takes them out. Pasted text is a second source: `keys_available` lets one key event
of it through every fourth scanline, and `get_next_key` turns the event into codes and records them
before it takes the oldest code from the ring.

`xmalloc` and `xfree` of the text are the list `keyinject`, whose empty list is the null pointer.
The copy of a code to the DraCo keyboard controller (`inputdevice_draco_key`) is not modelled: it
does not come back to this buffer.
-/

namespace LibretroUae.Keyboard

open LibretroUae.Lib

/-- A key code: the scan code rotated left, so that bit 0 says release. A C `int`. -/
abbrev Code := BitVec 32

/-! ### Text to scan codes -/

/-- A row of `kbtable`. -/
structure KbTab where
  ascii : BitVec 8
  code : BitVec 8
  qual : BitVec 8
  deriving DecidableEq

def plain (c : Char) (code : BitVec 8) : KbTab := ⟨BitVec.ofNat 8 c.toNat, code, 0x00⟩

def shifted (c : Char) (code : BitVec 8) : KbTab := ⟨BitVec.ofNat 8 c.toNat, code, 0x60⟩

def kbtable : List KbTab := [
  shifted '~' 0x00, shifted '!' 0x01, shifted '@' 0x02, shifted '#' 0x03, shifted '$' 0x04,
  shifted '%' 0x05, shifted '^' 0x06, shifted '&' 0x07, shifted '*' 0x08, shifted '(' 0x09,
  shifted ')' 0x0a, shifted '_' 0x0b, shifted '+' 0x0c, shifted '|' 0x0d,
  -- the backquote, and the backslash at the end of the row
  ⟨0x60, 0x00, 0x00⟩, plain '1' 0x01, plain '2' 0x02, plain '3' 0x03, plain '4' 0x04,
  plain '5' 0x05, plain '6' 0x06, plain '7' 0x07, plain '8' 0x08, plain '9' 0x09,
  plain '0' 0x0a, plain '-' 0x0b, plain '=' 0x0c, ⟨0x5c, 0x0d, 0x00⟩,
  -- tabulator and line feed
  ⟨0x09, 0x42, 0x00⟩, ⟨0x0a, 0x44, 0x00⟩,
  -- braces, colon and double quote; brackets, semicolon and single quote
  ⟨0x7b, 0x1a, 0x60⟩, ⟨0x7d, 0x1b, 0x60⟩, shifted ':' 0x29, ⟨0x22, 0x2b, 0x60⟩,
  ⟨0x5b, 0x1a, 0x00⟩, ⟨0x5d, 0x1b, 0x00⟩, plain ';' 0x29, ⟨0x27, 0x2b, 0x00⟩,
  shifted '<' 0x38, shifted '>' 0x39, shifted '?' 0x3a,
  plain ',' 0x38, plain '.' 0x39, plain '/' 0x3a,
  plain ' ' 0x40,
  plain 'q' 0x10, plain 'w' 0x11, plain 'e' 0x12, plain 'r' 0x13, plain 't' 0x14,
  plain 'y' 0x15, plain 'u' 0x16, plain 'i' 0x17, plain 'o' 0x18, plain 'p' 0x19,
  plain 'a' 0x20, plain 's' 0x21, plain 'd' 0x22, plain 'f' 0x23, plain 'g' 0x24,
  plain 'h' 0x25, plain 'j' 0x26, plain 'k' 0x27, plain 'l' 0x28,
  plain 'z' 0x31, plain 'x' 0x32, plain 'c' 0x33, plain 'v' 0x34, plain 'b' 0x35,
  plain 'n' 0x36, plain 'm' 0x37,
  shifted 'Q' 0x10, shifted 'W' 0x11, shifted 'E' 0x12, shifted 'R' 0x13, shifted 'T' 0x14,
  shifted 'Y' 0x15, shifted 'U' 0x16, shifted 'I' 0x17, shifted 'O' 0x18, shifted 'P' 0x19,
  shifted 'A' 0x20, shifted 'S' 0x21, shifted 'D' 0x22, shifted 'F' 0x23, shifted 'G' 0x24,
  shifted 'H' 0x25, shifted 'J' 0x26, shifted 'K' 0x27, shifted 'L' 0x28,
  shifted 'Z' 0x31, shifted 'X' 0x32, shifted 'C' 0x33, shifted 'V' 0x34, shifted 'B' 0x35,
  shifted 'N' 0x36, shifted 'M' 0x37]

/-- The row of a character; the space key stands for a character without one. -/
def kbLookup (key : BitVec 8) : KbTab :=
  (kbtable.find? (fun k => k.ascii == key)).getD ⟨0, 0x40, 0x00⟩

/-- A key event has a qualifier key with it. -/
def KbTab.qualified (k : KbTab) : Bool := k.qual &&& 0x7f ≠ 0

/-- `(v << 1) | (v >> 7)` -/
def rotate (v : Code) : Code := v <<< 1 ||| v.sshiftRight 7

/-- The codes of a key event in the order `keytoscancode` records them: the qualifier goes down
first and comes up last. -/
def KbTab.scanCodes (k : KbTab) (release : Bool) : List Code :=
  let mask : Code := if release then 0x80 else 0x00
  let v := rotate (k.code.setWidth 32 ||| mask)
  let q := k.qual.setWidth 32 ||| mask
  if release then
    v :: (if q &&& 0x7f ≠ 0 then [rotate q] else [])
  else
    (if q &&& 0x7f ≠ 0 then [rotate q] else []) ++ [v]

/-! ### The buffer -/

/-- The preferences and globals the buffer looks at. -/
structure Prefs where
  pauseEmulation : Bool := false
  /-- `cs_compatible == CP_DRACO` -/
  draco : Bool := false
  keyboardConnected : Bool := true
  keySwapHack : Int := 0
  keySwapHack2 : Bool := false
  turboEmulation : Bool := false

/-- A DraCo without an Amiga keyboard. -/
def Prefs.unplugged (p : Prefs) : Bool := p.draco && !p.keyboardConnected

/-- The size of `keybuf`. -/
theorem keybufSize_pos : 0 < 256 := by decide

structure KeyBuf where
  keybuf : Ring Code 256
  keyinject : List (BitVec 8)
  keyinjectPrevious : BitVec 8
  /-- The key that was injected last is still down. -/
  keyinjectState : Bool
  keyinjectDo : Bool
  ignoreNextRelease : Bool
  delayedReleasedCode : Code
  delayedReleasedTime : Nat
  /-- The static variables of `can_inject`. -/
  ovpos : Int
  cnt : Nat

/-- `keybuf_init` -/
def keybufInit (s : KeyBuf) : KeyBuf :=
  { s with
    keybuf := .empty s.keybuf.slots keybufSize_pos
    keyinject := []
    delayedReleasedCode := -1
    delayedReleasedTime := 0 }

/-- `keyswap` -/
def keyswap (k1 k2 : Code) (c : Code × Code) : Code × Code :=
  let (kcd, kc) := c
  if kcd &&& 0x7f = k1 then
    let kcd := k2 ||| (kcd &&& 0x80)
    (kcd, kcd <<< 1 ||| kcd.sshiftRight 7)
  else if kcd &&& 0x7f = k2 then
    let kcd := k1 ||| (kcd &&& 0x80)
    (kcd, kcd <<< 1 ||| kcd.sshiftRight 7)
  else (kcd, kc)

/-- The scan code of a key code, with the release bit in bit 7. -/
def scanCode (kc : Code) : Code := kc <<< 7 ||| kc.sshiftRight 1

/-- The two key swaps of `record_key_direct`. -/
def swapKeys (p : Prefs) (kc : Code) : Code × Code :=
  let c := (scanCode kc, kc)
  let c := if p.keySwapHack2 then keyswap 0x0d 0x0c c else c
  if p.keySwapHack = 2 then keyswap 0x2b 0x0d c else c

/-- What `record_key` leaves: the buffer, the value returned, and the code it stored. -/
structure Recorded where
  buf : KeyBuf
  ret : Nat
  stored : Option Code

/-- The end of `record_key_direct`. -/
def store (kc : Code) (s : KeyBuf) : Recorded :=
  if s.keybuf.isFull then ⟨s, 0, none⟩
  else ⟨{ s with keybuf := s.keybuf.push kc }, 1, some kc⟩

def recordKeyDirect (p : Prefs) (kc : Code) (direct : Bool) (s : KeyBuf) : Recorded :=
  if p.unplugged then ⟨s, 1, none⟩
  else if direct then store kc s
  else
    let (kcd, kc) := swapKeys p kc
    if s.ignoreNextRelease then
      if kcd &&& 0x80 ≠ 0 then ⟨{ s with ignoreNextRelease := false }, 0, none⟩
      else store kc { s with ignoreNextRelease := false }
    else store kc s

def recordKey (p : Prefs) (kc : Code) (direct : Bool) (s : KeyBuf) : Recorded :=
  if p.pauseEmulation then ⟨s, 0, none⟩ else recordKeyDirect p kc direct s

/-- A call of `record_key`: the code it stored, and what stood against storing one. -/
structure Offer where
  stored : Option Code
  /-- The ring had no free slot. -/
  full : Bool
  /-- The code was the release that `keybuf_ignore_next_release` asked to drop. -/
  asked : Bool

/-- The next release is to be dropped, and the code is one that may be. -/
def KeyBuf.asked (s : KeyBuf) (kc : Code) (direct : Bool) : Bool :=
  !direct && s.ignoreNextRelease && decide (scanCode kc &&& 0x80 ≠ 0)

def offer (p : Prefs) (kc : Code) (direct : Bool) (s : KeyBuf) : Offer where
  stored := (recordKey p kc direct s).stored
  full := s.keybuf.isFull
  asked := s.asked kc direct

/-- Records codes one after the other. -/
def recordAll (p : Prefs) : List Code → KeyBuf → KeyBuf × List Offer
  | [], s => (s, [])
  | kc :: kcs, s =>
    let (s', offers) := recordAll p kcs (recordKey p kc false s).buf
    (s', offer p kc false s :: offers)

/-- `keytoscancode` -/
def keytoscancode (p : Prefs) (key : BitVec 8) (release : Bool) (s : KeyBuf) :
    KeyBuf × List Offer :=
  recordAll p ((kbLookup key).scanCodes release) s

/-- `can_inject` -/
def canInject (vpos : Int) (s : KeyBuf) : KeyBuf × Bool :=
  if s.ovpos = vpos then (s, false)
  else if s.cnt + 1 < 4 then ({ s with ovpos := vpos, cnt := s.cnt + 1 }, false)
  else ({ s with ovpos := vpos, cnt := 0, keyinjectDo := true }, true)

/-- Text is left, or its last key is still down. -/
def KeyBuf.injecting (s : KeyBuf) : Bool := !s.keyinject.isEmpty || s.keyinjectState

/-- `keys_available` -/
def keysAvailable (vpos : Int) (s : KeyBuf) : KeyBuf × Bool :=
  let val := !s.keybuf.isEmpty
  let (s, can) := canInject vpos s
  (s, if can && s.injecting then true else val)

/-- The injection of `get_next_key`. -/
def injectKey (p : Prefs) (s : KeyBuf) : KeyBuf × List Offer :=
  if s.keyinjectDo then
    if s.keyinjectState then
      keytoscancode p s.keyinjectPrevious true
        { s with keyinjectDo := false, keyinjectState := false }
    else
      match s.keyinject with
      | [] => ({ s with keyinjectDo := false }, [])
      | key :: rest =>
        keytoscancode p key false
          { s with
            keyinjectDo := false
            keyinject := rest
            keyinjectPrevious := key
            keyinjectState := true }
  else (s, [])

/-- The release that warp mode sends by itself. -/
def delayRelease (p : Prefs) (vpos : Int) (key : Code) (s : KeyBuf) : KeyBuf :=
  let s := { s with delayedReleasedTime := 0 }
  if p.turboEmulation && key &&& 0x01 = 0 && (key.sshiftRight 1).slt 0x60 then
    let (s, val) := keysAvailable vpos s
    if val then s
    else { s with delayedReleasedCode := key ||| 0x01, delayedReleasedTime := 5 }
  else s

/-- `assert (kpb_first != kpb_last)` -/
inductive Fault where
  | assertion
  deriving DecidableEq

/-- `get_next_key`: the key with the buffer, and the calls of `record_key` on the way. -/
def getNextKey (p : Prefs) (vpos : Int) (s : KeyBuf) :
    Except Fault (Code × KeyBuf × List Offer) :=
  let (s, offers) := injectKey p s
  if s.keybuf.isEmpty then .error .assertion
  else
    let key := s.keybuf.front
    .ok (key, delayRelease p vpos key { s with keybuf := s.keybuf.pop }, offers)

/-- `keybuf_vsync` -/
def keybufVsync (p : Prefs) (s : KeyBuf) : KeyBuf × List Offer :=
  if 0 < s.delayedReleasedTime then
    let s := { s with delayedReleasedTime := s.delayedReleasedTime - 1 }
    if s.delayedReleasedTime = 0 then
      ((recordKey p s.delayedReleasedCode false s).buf, [offer p s.delayedReleasedCode false s])
    else (s, [])
  else (s, [])

/-- `keybuf_inject` -/
def keybufInject (txt : List (BitVec 8)) (s : KeyBuf) : KeyBuf :=
  let newbuf := txt.filter (fun c => kbtable.any (fun k => k.ascii == c))
  if newbuf.isEmpty then s else { s with keyinject := newbuf }

/-! ### Runs -/

inductive Input where
  | record (kc : Code) (direct : Bool)
  | inject (txt : List (BitVec 8))
  | ignoreNextRelease
  | vsync
  /-- `keys_available` alone. -/
  | poll (vpos : Int)
  /-- `get_next_key` when `keys_available` says so. -/
  | consume (vpos : Int)

/-- The buffer with its history. -/
structure Session where
  buf : KeyBuf
  offers : List Offer
  delivered : List Code

def Session.start (s : KeyBuf) : Session := ⟨keybufInit s, [], []⟩

/-- The codes that went into the ring. -/
def accepted (offers : List Offer) : List Code := offers.filterMap Offer.stored

def step (t : Session) (i : Prefs × Input) : Except Fault Session :=
  let (p, input) := i
  match input with
  | .record kc direct =>
    .ok { t with
      buf := (recordKey p kc direct t.buf).buf
      offers := t.offers ++ [offer p kc direct t.buf] }
  | .inject txt => .ok { t with buf := keybufInject txt t.buf }
  | .ignoreNextRelease => .ok { t with buf := { t.buf with ignoreNextRelease := true } }
  | .vsync =>
    let (s, offers) := keybufVsync p t.buf
    .ok { t with buf := s, offers := t.offers ++ offers }
  | .poll vpos => .ok { t with buf := (keysAvailable vpos t.buf).1 }
  | .consume vpos =>
    let (s, val) := keysAvailable vpos t.buf
    if val then do
      let (key, s, offers) ← getNextKey p vpos s
      return ⟨s, t.offers ++ offers, t.delivered ++ [key]⟩
    else .ok { t with buf := s }

def run (t : Session) (is : List (Prefs × Input)) : Except Fault Session := is.foldlM step t

end LibretroUae.Keyboard
