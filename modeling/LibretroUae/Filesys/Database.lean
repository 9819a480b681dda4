import LibretroUae.Filesys.Locks

/-!
# LibretroUae.Filesys.Database

**The metadata database of a directory.** What the host cannot represent of an Amiga file (its
protection bits, its comment, a name of its own) is kept in records of one file. The inodes
remember which record is theirs, and `fsdb_dir_writeback` brings the file up to date with those
that are dirty, all from a copy of the file made before it starts.

The file has only whole records of 600 bytes, so offsets count records here, and a string is
the bytes before its NUL.
-/

namespace LibretroUae.Filesys

open Lib

/-! ### The data -/

/-- A record of the file. -/
structure DbRecord where
  valid : Bool
  mode : UInt32
  aname : List UInt8
  nname : List UInt8
  comment : List UInt8
  deriving DecidableEq, Repr

/-- `a_inode`, as far as the database goes; `nname` is the part after the last separator. -/
structure DbAino where
  uniq : UInt32
  aname : List UInt8
  nname : List UInt8
  comment : Option (List UInt8)
  amigaosMode : UInt32
  vfso : Bool
  hasDbentry : Bool
  needsDbentry : Bool
  dirty : Bool
  deleted : Bool
  dbOffset : Nat
  deriving DecidableEq, Repr

/-- A directory: its database file, whether making one is turned off, and its children. -/
structure DbDir where
  file : Option (List DbRecord)
  noUaefsdb : Bool
  children : List DbAino
  deriving DecidableEq, Repr

def DbDir.records (d : DbDir) : List DbRecord := d.file.getD []

def fibfScript : UInt32 := 64
def fibfExecute : UInt32 := 2

/-! ### Reading -/

/-- `aino_from_buf`. -/
def ainoFromBuf (uniq : UInt32) (r : DbRecord) (off : Nat) : DbAino where
  uniq := uniq
  aname := r.aname
  nname := r.nname
  comment := if r.comment = [] then none else some r.comment
  amigaosMode := r.mode
  vfso := false
  hasDbentry := true
  needsDbentry := false
  dirty := false
  deleted := false
  dbOffset := off

/-- The first record that meets a test, as an inode. -/
def DbDir.lookup (d : DbDir) (uniq : UInt32) (p : DbRecord → Bool) : Option DbAino :=
  (d.records.findIdx? p).bind fun i => d.records[i]?.map fun r => ainoFromBuf uniq r i

/-- `fsdb_lookup_aino_aname`. -/
def fsdbLookupAinoAname (d : DbDir) (uniq : UInt32) (aname : List UInt8) : Option DbAino :=
  d.lookup uniq fun r => r.valid && r.aname == aname

/-- `fsdb_lookup_aino_nname`. -/
def fsdbLookupAinoNname (d : DbDir) (uniq : UInt32) (nname : List UInt8) : Option DbAino :=
  d.lookup uniq fun r => r.valid && r.nname == nname

/-! ### Writing -/

/-- `fsdb_mode_representable_p`. -/
def fsdbModeRepresentable (vfso : Bool) (amigaosMode : UInt32) : Bool :=
  let mask := amigaosMode ^^^ 15
  if vfso then true
  else if mask &&& fibfScript ≠ 0 then false
  else if mask &&& 15 = 15 then true
  else if mask &&& fibfExecute = 0 then false
  else if mask &&& fibfRead = 0 then false
  else mask &&& 15 = fibfRead ||| fibfExecute

/-- `needs_dbentry`. -/
def DbAino.needs (c : DbAino) : Bool :=
  if c.deleted then false
  else if !fsdbModeRepresentable c.vfso c.amigaosMode || c.comment.isSome then true
  else c.nname != c.aname

/-- The record that `write_aino` writes. -/
def DbAino.record (c : DbAino) : DbRecord where
  valid := c.needsDbentry
  mode := c.amigaosMode
  aname := c.aname.take 256
  nname := c.nname.take 256
  comment := (c.comment.getD []).take 80

/-- Writes a record at a position; what lies between the end and the position is zero. -/
def putRecord (f : List DbRecord) (i : Nat) (r : DbRecord) : List DbRecord :=
  if i < f.length then f.set i r
  else f ++ List.replicate (i - f.length) ⟨false, 0, [], [], []⟩ ++ [r]

/-- The first record with an Amiga name, valid or not. -/
def slotOf (snapshot : List DbRecord) (aname : List UInt8) : Option Nat :=
  snapshot.findIdx? fun r => r.aname == aname

/-- Where a dirty child is written: over its record, over one with its name, or at the end. -/
def DbAino.position (c : DbAino) (snapshot f : List DbRecord) : Nat :=
  if c.hasDbentry then c.dbOffset else (slotOf snapshot c.aname).getD f.length

/-- A child after it was written there. -/
def DbAino.written (c : DbAino) (i : Nat) : DbAino :=
  { c with dirty := false, dbOffset := i, hasDbentry := c.needsDbentry }

/-- The last loop of `fsdb_dir_writeback`. -/
def writeChildren (snapshot : List DbRecord) :
    List DbRecord → List DbAino → List DbRecord × List DbAino
  | f, [] => (f, [])
  | f, c :: cs =>
    if c.dirty then
      let i := c.position snapshot f
      let done := writeChildren snapshot (putRecord f i c.record) cs
      (done.1, c.written i :: done.2)
    else
      let done := writeChildren snapshot f cs
      (done.1, c :: done.2)

/-- The first pass of `fsdb_dir_writeback` over a child. -/
def DbAino.firstPass (c : DbAino) : DbAino :=
  { c with needsDbentry := c.needs, dirty := c.dirty && (c.needs || c.hasDbentry) }

/-- `fsdb_dir_writeback`. -/
def fsdbDirWriteback (d : DbDir) : DbDir :=
  let children := d.children.map DbAino.firstPass
  if !children.any DbAino.needsDbentry then { d with file := none, children }
  else if !children.any DbAino.dirty then { d with children }
  else if d.file = none ∧ d.noUaefsdb = true then
    { d with children := children.map fun c =>
               { c with dirty := false, hasDbentry := false, needsDbentry := false } }
  else
    let done := writeChildren d.records d.records children
    { d with file := some done.1, children := done.2 }

/-! ### What happens to a directory -/

/-- A child that is not in the database yet. -/
def newDbAino (uniq : UInt32) (aname nname : List UInt8) (mode : UInt32) (dirty : Bool) : DbAino where
  uniq := uniq
  aname := aname
  nname := nname
  comment := none
  amigaosMode := mode
  vfso := false
  hasDbentry := false
  needsDbentry := false
  dirty := dirty
  deleted := false
  dbOffset := 0

/-- Changes of a child, children found on the host, made, or read from the database, and
children that are looked up, deleted and flushed from the cache. -/
inductive DbEvent
  | change (uniq : UInt32) (aname nname : List UInt8) (mode : UInt32)
    (comment : Option (List UInt8))
  | found (uniq : UInt32) (aname nname : List UInt8) (mode : UInt32)
  | created (uniq : UInt32) (aname nname : List UInt8)
  | lookupAname (uniq : UInt32) (aname : List UInt8)
  | lookupNname (uniq : UInt32) (nname : List UInt8)
  | front (uniq : UInt32)
  | writeback
  | delete (uniq : UInt32)
  | dispose (uniq : UInt32)
  deriving DecidableEq, Repr

namespace DbDir

/-- Changes one child. -/
def modify (d : DbDir) (uniq : UInt32) (f : DbAino → DbAino) : DbDir :=
  { d with children := d.children.map fun c => if c.uniq = uniq then f c else c }

/-- `init_child_aino_tree`: a new child goes first. -/
def add (d : DbDir) (c : DbAino) : DbDir := { d with children := c :: d.children }

/-- Takes a child out of the list. -/
def drop (d : DbDir) (uniq : UInt32) : DbDir :=
  { d with children := d.children.filter fun c => c.uniq ≠ uniq }

end DbDir

/-- A child after its name, protection bits or comment were changed. -/
def DbAino.changed (c : DbAino) (aname nname : List UInt8) (mode : UInt32)
    (comment : Option (List UInt8)) : DbAino :=
  { c with aname, nname, amigaosMode := mode, comment, dirty := true }

/-- `delete_aino`, up to the writeback. -/
def DbAino.doomed (c : DbAino) : DbAino := { c with dirty := true, deleted := true }

/-- The directory as `fsdb_dir_writeback` leaves it, when it is called. -/
def DbEvent.written (e : DbEvent) (d : DbDir) : Option DbDir :=
  match e with
  | .writeback => some (fsdbDirWriteback d)
  | .delete uniq => some (fsdbDirWriteback (d.modify uniq DbAino.doomed))
  | .dispose uniq =>
    if d.children.any fun c => c.uniq = uniq && c.dirty then some (fsdbDirWriteback d) else none
  | _ => none

def DbDir.step (d : DbDir) (e : DbEvent) : DbDir :=
  match e with
  | .change uniq aname nname mode comment =>
    d.modify uniq fun c => c.changed aname nname mode comment
  | .found uniq aname nname mode => d.add (newDbAino uniq aname nname mode false)
  | .created uniq aname nname => d.add (newDbAino uniq aname nname 0 true)
  | .lookupAname uniq aname => ((fsdbLookupAinoAname d uniq aname).map d.add).getD d
  | .lookupNname uniq nname => ((fsdbLookupAinoNname d uniq nname).map d.add).getD d
  | .front uniq =>
    { d with children := (d.children.filter fun c => c.uniq = uniq) ++
               d.children.filter fun c => c.uniq ≠ uniq }
  | .writeback => (e.written d).getD d
  | .delete uniq => ((e.written d).getD d).drop uniq
  | .dispose uniq => ((e.written d).getD d).drop uniq

/-! ### What the environment promises -/

/-- A record that belongs to a child. -/
def Owned (children : List DbAino) (i : Nat) : Prop :=
  ∃ c ∈ children, c.hasDbentry = true ∧ c.dbOffset = i

instance (children : List DbAino) (i : Nat) : Decidable (Owned children i) :=
  inferInstanceAs (Decidable (∃ c ∈ children, c.hasDbentry = true ∧ c.dbOffset = i))

/-- No other child has the name, and no other file in the database. -/
def DbDir.NameFree (d : DbDir) (uniq : UInt32) (aname nname : List UInt8) : Prop :=
  (∀ c ∈ d.children, c.uniq ≠ uniq → c.aname ≠ aname ∧ c.nname ≠ nname) ∧
    ∀ x ∈ d.records.zipIdx, x.1.valid = true → ¬ Owned d.children x.2 → x.1.nname ≠ nname

def DbDir.FreshUniq (d : DbDir) (uniq : UInt32) : Prop := ∀ c ∈ d.children, c.uniq ≠ uniq

/-- Names are not used twice, and only children are changed and taken away. -/
def DbEvent.Legal (d : DbDir) : DbEvent → Prop
  | .change uniq aname nname _ _ =>
    (∃ c ∈ d.children, c.uniq = uniq) ∧ d.NameFree uniq aname nname
  | .found uniq aname nname _ => d.FreshUniq uniq ∧ d.NameFree uniq aname nname
  | .created uniq aname nname => d.FreshUniq uniq ∧ d.NameFree uniq aname nname
  | .lookupAname uniq aname => d.FreshUniq uniq ∧ ∀ c ∈ d.children, c.aname ≠ aname
  | .lookupNname uniq nname => d.FreshUniq uniq ∧ ∀ c' ∈ fsdbLookupAinoNname d uniq nname,
    ∀ c ∈ d.children, c.aname ≠ c'.aname
  | .front uniq => ∃ c ∈ d.children, c.uniq = uniq
  | .writeback => True
  | .delete uniq => ∃ c ∈ d.children, c.uniq = uniq
  | .dispose uniq => ∃ c ∈ d.children, c.uniq = uniq

instance (d : DbDir) (uniq : UInt32) (aname nname : List UInt8) :
    Decidable (d.NameFree uniq aname nname) :=
  inferInstanceAs (Decidable (_ ∧ _))

instance (d : DbDir) (uniq : UInt32) : Decidable (d.FreshUniq uniq) :=
  inferInstanceAs (Decidable (∀ c ∈ d.children, c.uniq ≠ uniq))

instance DbEvent.decidableLegal (d : DbDir) : (e : DbEvent) → Decidable (e.Legal d)
  | .change uniq aname nname _ _ =>
    inferInstanceAs (Decidable ((∃ c ∈ d.children, c.uniq = uniq) ∧ d.NameFree uniq aname nname))
  | .found uniq aname nname _ =>
    inferInstanceAs (Decidable (d.FreshUniq uniq ∧ d.NameFree uniq aname nname))
  | .created uniq aname nname =>
    inferInstanceAs (Decidable (d.FreshUniq uniq ∧ d.NameFree uniq aname nname))
  | .lookupAname uniq aname =>
    inferInstanceAs (Decidable (d.FreshUniq uniq ∧ ∀ c ∈ d.children, c.aname ≠ aname))
  | .lookupNname uniq nname =>
    inferInstanceAs (Decidable (d.FreshUniq uniq ∧ ∀ c' ∈ fsdbLookupAinoNname d uniq nname,
      ∀ c ∈ d.children, c.aname ≠ c'.aname))
  | .front uniq => inferInstanceAs (Decidable (∃ c ∈ d.children, c.uniq = uniq))
  | .writeback => inferInstanceAs (Decidable True)
  | .delete uniq => inferInstanceAs (Decidable (∃ c ∈ d.children, c.uniq = uniq))
  | .dispose uniq => inferInstanceAs (Decidable (∃ c ∈ d.children, c.uniq = uniq))

def dbMachine : Machine DbDir DbEvent Empty where
  legal := fun d e => e.Legal d
  step := fun d e => .ok (d.step e)

instance (d : DbDir) (e : DbEvent) : Decidable (dbMachine.legal d e) :=
  inferInstanceAs (Decidable (e.Legal d))

/-! ### What the database is for -/

/-- A record says of a child what there is to say. -/
structure DbRecord.Holds (r : DbRecord) (c : DbAino) : Prop where
  valid : r.valid = true
  mode : r.mode = c.amigaosMode
  aname : r.aname = c.aname
  nname : r.nname = c.nname
  comment : c.comment = if r.comment = [] then none else some r.comment

/-- Every child that needs a record has one, the only one of its file, and is read back from it;
no two children share a record. -/
structure DbDir.Kept (d : DbDir) : Prop where
  kept : ∀ c ∈ d.children, c.deleted = false → c.needs = true → c.hasDbentry = true ∧
    ∃ r, d.records[c.dbOffset]? = some r ∧ r.Holds c ∧
      (∀ (i : Nat) (r' : DbRecord), d.records[i]? = some r' → r'.valid = true →
        r'.nname = c.nname → i = c.dbOffset) ∧
      ∀ uniq, fsdbLookupAinoNname d uniq c.nname = some (ainoFromBuf uniq r c.dbOffset)
  slots : ∀ a ∈ d.children, ∀ b ∈ d.children, a.hasDbentry = true → b.hasDbentry = true →
    a.dbOffset = b.dbOffset → a.uniq = b.uniq

/-- A directory whose children were not looked at yet: the file has one record for a name. -/
structure DbDir.Start (d : DbDir) : Prop where
  noUaefsdb : d.noUaefsdb = false
  children : d.children = []
  single : ∀ (i j : Nat) (r r' : DbRecord), d.records[i]? = some r → d.records[j]? = some r' →
    r.valid = true → r'.valid = true → r.nname = r'.nname → i = j

end LibretroUae.Filesys
