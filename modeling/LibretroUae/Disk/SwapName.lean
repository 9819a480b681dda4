import Mathlib.Data.List.Basic
import Mathlib.Tactic.Common

/-!
# LibretroUae.Disk.SwapName

**The next disk of a set** (`disk_prevnext_name`). The number of a disk is looked for in its name,
as "(disk 2)", as "disk2" or as the last character before the extension, and counted up or down
until the name of an existing file comes out. Counting down starts over from nine.

A name is its characters in front of the terminating zero. The name inside an archive, which the
function starts with, is a parameter beside the name it was called with. A number that does not fit
an `int` has no meaning in C and is a number here.
-/

namespace LibretroUae.SwapName

abbrev Name := List Char

/-- `s[i]`, the terminating zero included. -/
def chr (s : Name) (i : Nat) : Char := (s[i]?).getD (Char.ofNat 0)

def digits : List Char := ['0', '1', '2', '3', '4', '5', '6', '7', '8', '9']

/-- `_istdigit` -/
def istdigit (c : Char) : Bool := digits.contains c

def isLowercase (c : Char) : Bool := 97 ≤ c.toNat && c.toNat ≤ 122

def isCapital (c : Char) : Bool := 65 ≤ c.toNat && c.toNat ≤ 90

def lowerChar (c : Char) : Char := if isCapital c then Char.ofNat (c.toNat + 32) else c

/-- `to_lower` -/
def toLower (s : Name) : Name := s.map lowerChar

/-- `_tstoi (s + i)` -/
def tstoi (s : Name) (i : Nat) : Nat :=
  ((s.drop i).takeWhile istdigit).foldl (fun n c => 10 * n + (c.toNat - 48)) 0

def matchesAt (s pat : Name) (i : Nat) : Bool :=
  pat.zipIdx.all fun (c, j) => chr s (i + j) == c

/-- `_tcsstr (s + ps, pat)` as an index of `s`. -/
def tcsstr (s pat : Name) (ps : Nat) : Option Nat :=
  (List.range s.length).find? fun i => decide (ps ≤ i) && matchesAt s pat i

/-- `_tcsrchr (s, c)` -/
def tcsrchr (s : Name) (c : Char) : Option Nat :=
  (List.range s.length).reverse.find? fun i => chr s i == c

/-! ### The number in the name -/

/-- The index of a number behind the next `pat`. -/
def numberAt (imgl pat : Name) (ps : Nat) : Option Nat :=
  match tcsstr imgl pat ps with
  | some p => if istdigit (chr imgl (p + pat.length)) then some (p + pat.length) else none
  | none => none

def isSeparator (c : Char) : Bool := c == '_' || c == '-' || c == ' '

/-- The character before the extension, with its number. -/
def extSlot (img imgl : Name) : Option (Nat × Int) :=
  match tcsrchr imgl '.' with
  | none => none
  | some ext =>
    let last := chr imgl (ext - 1)
    let letter : Int := (last.toNat : Int) - 97 + 1
    if ext < 4 then none
    -- name_<non numeric character>x.ext
    else if chr imgl (ext - 3) == '_' && !istdigit (chr imgl (ext - 2)) && istdigit last then
      some (ext - 1, tstoi imgl (ext - 1))
    -- name_x.ext, name-x.ext, name x.ext
    else if isSeparator (chr imgl (ext - 2)) && istdigit last then
      some (ext - 1, tstoi imgl (ext - 1))
    -- name_a.ext, name-a.ext, name a .ext
    else if isSeparator (chr imgl (ext - 2)) && isLowercase last then some (ext - 1, letter)
    -- nameA.ext
    else if isLowercase (chr img (ext - 2)) && isCapital (chr img (ext - 1)) then
      some (ext - 1, letter)
    -- namex.ext
    else if !istdigit (chr img (ext - 2)) && istdigit last then
      some (ext - 1, (last.toNat : Int) - 48)
    else none

def diskParen : Name := ['(', 'd', 'i', 's', 'k', ' ']

def diskWord : Name := ['d', 'i', 's', 'k']

/-- The loop over the name: the places of the numbers, each with its number, and `gotone`. `room`
is `MAX_DISKENTRIES - 1 - cnt`; the loop breaks before it sets `gotone` when the room is gone. -/
def scan (img imgl : Name) : Nat → Bool → Nat → List (Nat × Int) × Bool
  | 0, gotone, _ => ([], gotone)
  | room + 1, gotone, ps =>
    match numberAt imgl diskParen ps with
    | some q =>
      let (slots, gotone) := scan img imgl room (if room = 0 then gotone else true) q
      ((q, tstoi imgl q) :: slots, gotone)
    | none =>
      if gotone then ([], true)
      else
        match numberAt imgl diskWord ps with
        | some q =>
          let (slots, gotone) := scan img imgl room (if room = 0 then gotone else true) q
          ((q, tstoi imgl q) :: slots, gotone)
        | none => ((extSlot img imgl).toList, false)

def parse (img : Name) : List (Nat × Int) × Bool := scan img (toLower img) 3 false 0

/-! ### The search -/

/-- The character for a number in place of a digit or a letter. -/
def mark (num : Nat) (c : Char) : Char :=
  if istdigit c then Char.ofNat (48 + num)
  else Char.ofNat ((num - 1) + if isCapital c then 65 else 97)

/-- Writes a number to every place. -/
def writeNum (slots : List Nat) (num : Nat) (img : Name) : Name :=
  img.mapIdx fun i c => if i ∈ slots then mark num c else c

/-- The name without its last `[…]` tags that exists. -/
def stripTags (zfileExists : Name → Bool) (img : Name) : Option Name :=
  match tcsrchr img '.' with
  | none => none
  | some ext =>
    if ext = 0 then none
    else if chr img (ext - 1) ≠ ']' then none
    else
      match _ht : tcsrchr img '[' with
      | none => none
      | some t =>
        if zfileExists (img.take t) then some (img.take t) else stripTags zfileExists (img.take t)
  termination_by img.length
  decreasing_by
    have ht : t < img.length := by
      have hmem := List.mem_of_find?_eq_some _ht
      simpa using hmem
    simp only [List.length_take]
    omega

inductive Dir where
  | prev | next
  deriving DecidableEq

def Dir.toInt : Dir → Int
  | prev => -1
  | next => 1

/-- The number after a step: nine and zero wrap. -/
def stepNum (num : Int) (dir : Dir) : Int :=
  let num := num + dir.toInt
  if num = 9 then 1 else if num = 0 then 9 else num

/-- What a pass through the body comes to: the end with the name and `ret`, or `goto retry`. -/
inductive Pass where
  | done (img : Name) (ret : Int)
  | retry (img : Name) (num : Int) (wrapped : Nat)

/-- The first number of the direction: `'1'`, and `dir < 0` adds 8. -/
def Dir.first : Dir → Nat
  | prev => 9
  | next => 1

/-- No name was found: the first name of the direction once, and again from `retry` when counting
down. -/
def wrapAround (zfileExists : Name → Bool) (old : Name) (dir : Dir) (slots : List Nat) (img : Name)
    (num : Int) (wrapped : Nat) : Pass :=
  let (img, wrapped) :=
    if wrapped = 0 then (writeNum slots dir.first img, wrapped + 1) else (img, wrapped)
  if zfileExists img then .done img (-1)
  else if dir = .prev && wrapped < 2 then .retry img num wrapped
  else .done old 0

/-- The name with the number written to it, and with tags removed. -/
def tryName (zfileExists : Name → Bool) (old : Name) (dir : Dir) (slots : List Nat) (gotone : Bool)
    (img : Name) (num : Int) (wrapped : Nat) : Pass :=
  if zfileExists img then .done img 1
  else
    match if gotone then stripTags zfileExists img else none with
    | some img => .done img 1
    | none => wrapAround zfileExists old dir slots img num wrapped

/-- From `retry` on. -/
def pass (zfileExists : Name → Bool) (old : Name) (dir : Dir) (img : Name) (num : Int)
    (wrapped : Nat) : Pass :=
  let (found, gotone) := parse img
  let slots := found.map Prod.fst
  let num := (found.getLast?.map Prod.snd).getD num
  if num ≤ 0 || num ≥ 19 then .done img 0
  else if num + dir.toInt > 9 then .done img 0
  else
    let num := stepNum num dir
    tryName zfileExists old dir slots gotone (writeNum slots num.toNat img) num wrapped

/-- `fuel` passes from `retry` on. -/
def search (zfileExists : Name → Bool) (old : Name) (dir : Dir) :
    Nat → Name → Int → Nat → Option (Name × Int)
  | 0, _, _, _ => none
  | fuel + 1, img, num, wrapped =>
    match pass zfileExists old dir img num wrapped with
    | .done img ret => some (img, ret)
    | .retry img num wrapped => search zfileExists old dir fuel img num wrapped

/-- `disk_prevnext_name` from the name in the archive on. -/
def diskPrevnextName (zfileExists : Name → Bool) (old : Name) (dir : Dir) (fuel : Nat)
    (img : Name) : Option (Name × Int) :=
  search zfileExists old dir fuel img (-1) 0

end LibretroUae.SwapName
