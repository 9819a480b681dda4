import LibretroUae.Storage.File
import LibretroUae.Lib.Machine

/-!
# LibretroUae.Storage.Windows

**Windows on files.** Beside the zfiles stands what each of them shows: the bytes of a file,
the part of another zfile's view that a window was opened on, or the virtual disk in what a
VHD file shows. In a run that opens no window on a VHD view, every window reads its part of
that view, whatever is done to other zfiles in between.

A window on a VHD view is one on the file below, since it climbs past the view.
-/

namespace LibretroUae.Storage

open Lib Lib.Image

/-! ### Views and runs -/

/-- The size of the sector bitmap in front of a block. -/
def bitmapBytes (blocksize : Nat) : Nat := ((blocksize / 512 + 7) / 8 + 511) / 512 * 512

/-- The virtual disk in the VHD file `m`. -/
def virtualDisk (m : Image) : Image := fun k =>
  if m.getLong 60 = 3 then
    let header := m.getLong 16 * 2 ^ 32 + m.getLong 20
    let blocksize := m.getLong (header + 32)
    let table := m.getLong (header + 16) * 2 ^ 32 + m.getLong (header + 20)
    let block := m.getLong (table + k / blocksize * 4)
    let sector := k % blocksize / 512
    if block = 0xffffffff then 0
    else if (m (block * 512 + sector / 8)).getLsbD (7 - sector % 8) then
      m (block * 512 + bitmapBytes blocksize + k % blocksize)
    else 0
  else m k

/-- The zfiles and what each of them shows. -/
structure State where
  files : Files
  views : Nat → Image

inductive Op
  | openFile (image : Image) (length : Nat)
  | openData (data : Image) (size : Nat)
  | openWindow (z offset size : Nat)
  | openVhd (z : Nat) (tmp : Image)
  | seek (z : Nat) (offset : Int) (mode : Whence)
  | read (z l1 l2 : Nat) (tmp b : Image)

/-- The zfile that an operation works on. -/
def Op.on : Op → Option Nat
  | .openFile _ _ | .openData _ _ | .openWindow _ _ _ => none
  | .openVhd z _ | .seek z _ _ | .read z _ _ _ _ => some z

/-- One more zfile, which shows `view`. -/
def State.add (s : State) (z : Zfile) (view : Image) : State :=
  ⟨s.files.add z, Function.update s.views s.files.next view⟩

def step (s : State) : Op → Except Fault State
  | .openFile image length =>
    .ok (s.add { Zfile.created with f := some ⟨image, length, 0⟩, size := length } image)
  | .openData data size => .ok (s.add { Zfile.created with data := some data, size } data)
  | .openWindow z offset size =>
    .ok (s.add (zfileFopenParent s.files z offset size) fun k => s.views z (offset + k))
  | .openVhd z tmp => do
    let (_, files) ← vhd s.files tmp z
    return ⟨files, Function.update s.views s.files.next (virtualDisk (s.views z))⟩
  | .seek z offset mode =>
    .ok { s with files := s.files.set z (zfileFseek (s.files.zfile z) offset mode).2 }
  | .read z l1 l2 tmp b => do
    let (_, _, files) ← zfileFread s.files tmp b l1 l2 z
    return { s with files }

/-- Operations are on zfiles that are there, and a window is inside of the one it is on. -/
def Allowed (s : State) : Op → Prop
  | .openFile _ _ | .openData _ _ => True
  | .openWindow z offset size => z < s.files.next ∧ offset + size ≤ (s.files.zfile z).size
  | .openVhd z _ | .seek z _ _ | .read z _ _ _ _ => z < s.files.next

/-- No window is opened on a VHD view. -/
def NotOnVhd (s : State) : Op → Prop
  | .openWindow z _ _ => (s.files.zfile z).userdata = none
  | _ => True

/-- Runs that may open windows on anything. -/
def fileMachine : Machine State Op Fault where
  legal := Allowed
  step := step

/-- Runs that open no window on a VHD view. -/
def windowMachine : Machine State Op Fault where
  legal := fun s op => Allowed s op ∧ NotOnVhd s op
  step := step

/-- No zfiles. -/
def State.empty : State := ⟨⟨fun _ => Zfile.created, 0⟩, fun _ _ => 0⟩

/-- Is the zfile a window? -/
def Zfile.IsWindow (z : Zfile) : Prop := z.parent.isSome = true ∧ z.userdata = none

/-- The window `i` reads what it shows: whole items inside of its size, from its position on,
which only its own operations move. -/
structure ReadsView (s : State) (i : Nat) : Prop where
  read : ∀ (tmp b : Image) (l1 l2 : Nat), ∃ ret files,
    zfileFread s.files tmp b l1 l2 i = .ok (b.blit 0 ((s.views i).slice (s.files.zfile i).seek
      (l1 * min l2 (((s.files.zfile i).size - (s.files.zfile i).seek) / l1))), ret, files) ∧
    (l1 ≠ 0 → ret = min l2 (((s.files.zfile i).size - (s.files.zfile i).seek) / l1)) ∧
    (files.zfile i).seek = (s.files.zfile i).seek +
      l1 * min l2 (((s.files.zfile i).size - (s.files.zfile i).seek) / l1) ∧
    (files.zfile i).seek ≤ (s.files.zfile i).size
  stays : ∀ op s', Allowed s op → step s op = .ok s' → op.on ≠ some i →
    (s'.files.zfile i).seek = (s.files.zfile i).seek

/-! ### The invariant -/

/-- A file of its own with these bytes. -/
structure Root (z : Zfile) (content : Image) : Prop where
  parent : z.parent = none
  offset : z.offset = 0
  kind : (z.data = none ∧ z.dataseek = false ∧
      ∃ f, z.f = some f ∧ f.image = content ∧ f.length = z.size) ∨
    (z.data = some content ∧ z.seek ≤ z.size)

/-- What a zfile is, and that it shows what is noted for it. -/
inductive Shown (fs : Files) (views : Nat → Image) (i : Nat) : Prop
  | root (h : Root (fs.zfile i) (views i)) (user : (fs.zfile i).userdata = none)
  | window (p : Nat) (parent : (fs.zfile i).parent = some p) (inside : p < fs.next)
      (root : Root (fs.zfile p) (views p)) (data : (fs.zfile i).data = none)
      (user : (fs.zfile i).userdata = none) (useparent : (fs.zfile i).useparent = true)
      (seek : (fs.zfile i).seek ≤ (fs.zfile i).size)
      (room : (fs.zfile i).offset + (fs.zfile i).size ≤ (fs.zfile p).size)
      (view : ∀ k < (fs.zfile i).size, views i k = views p ((fs.zfile i).offset + k))
  | vhd (p : Nat) (parent : (fs.zfile i).parent = some p) (inside : p < fs.next)
      (root : Root (fs.zfile p) (views p)) (user : (fs.zfile i).userdata.isSome = true)

def Inv (s : State) : Prop := ∀ i < s.files.next, Shown s.files s.views i

/-- What reading or seeking does to the zfile itself. -/
structure SameZfile (z z' : Zfile) : Prop where
  parent : z'.parent = z.parent
  data : z'.data = z.data
  offset : z'.offset = z.offset
  size : z'.size = z.size
  useparent : z'.useparent = z.useparent
  user : z'.userdata.isSome = z.userdata.isSome
  seek : z.userdata = none → z.seek ≤ z.size → z'.seek ≤ z'.size

/-- A step on the zfile `i`: of the others only files of their own are touched, which keep
their bytes. -/
structure Moved (fs fs' : Files) (i : Nat) : Prop where
  next : fs'.next = fs.next
  others : ∀ j, j ≠ i → (fs.zfile j).parent ≠ none → fs'.zfile j = fs.zfile j
  roots : ∀ j content, Root (fs.zfile j) content →
    Root (fs'.zfile j) content ∧ (fs'.zfile j).size = (fs.zfile j).size ∧
      (fs'.zfile j).userdata = (fs.zfile j).userdata
  self : (fs.zfile i).parent ≠ none → SameZfile (fs.zfile i) (fs'.zfile i)

variable {s s' : State} {fs fs' fs'' : Files} {z z' : Zfile} {i p : Nat} {content b tmp : Image}

theorem SameZfile.refl (z : Zfile) : SameZfile z z := ⟨rfl, rfl, rfl, rfl, rfl, rfl, fun _ h => h⟩

theorem SameZfile.trans {z'' : Zfile} (h : SameZfile z z') (h' : SameZfile z' z'') :
    SameZfile z z'' := by
  refine ⟨h'.parent.trans h.parent, h'.data.trans h.data, h'.offset.trans h.offset,
    h'.size.trans h.size, h'.useparent.trans h.useparent, h'.user.trans h.user,
    fun hu hs => h'.seek ?_ (h.seek hu hs)⟩
  rw [← Option.isNone_iff_eq_none, ← Option.not_isSome, h.user, hu]
  rfl

theorem Moved.refl (fs : Files) (i : Nat) : Moved fs fs i :=
  ⟨rfl, fun _ _ _ => rfl, fun _ _ h => ⟨h, rfl, rfl⟩, fun _ => SameZfile.refl _⟩

theorem Moved.trans (h : Moved fs fs' i) (h' : Moved fs' fs'' i) :
    Moved fs fs'' i := by
  refine ⟨h'.next.trans h.next, fun j hj hp => ?_, fun j content hr => ?_, fun hp => ?_⟩
  · have heq := h.others j hj hp
    exact (h'.others j hj (by rw [heq]; exact hp)).trans heq
  · obtain ⟨hr₁, hsize, huser⟩ := h.roots j content hr
    obtain ⟨hr₂, hsize', huser'⟩ := h'.roots j content hr₁
    exact ⟨hr₂, hsize'.trans hsize, huser'.trans huser⟩
  · have hsame := h.self hp
    exact hsame.trans (h'.self (by rw [hsame.parent]; exact hp))

/-! ### Reading files of their own -/

theorem itemsInside_le {size seek : Nat} (h : seek ≤ size) (l1 l2 : Nat) :
    seek + l1 * itemsInside size seek l1 l2 ≤ size := by
  rw [itemsInside]
  split_ifs with hover hzero
  · have hdiv := Nat.mul_div_le (size - seek) l1
    omega
  · omega
  · omega

/-- The items inside of the size are as many as fit. -/
theorem itemsInside_eq {size seek : Nat} (h : seek ≤ size) {l1 : Nat} (hl1 : l1 ≠ 0) (l2 : Nat) :
    itemsInside size seek l1 l2 = min l2 ((size - seek) / l1) := by
  have hpos := Nat.pos_of_ne_zero hl1
  rw [itemsInside]
  split_ifs with hover
  · refine (Nat.min_eq_right ?_).symm
    refine Nat.div_le_of_le_mul ?_
    omega
  · refine (Nat.min_eq_left ?_).symm
    rw [Nat.le_div_iff_mul_le hpos, Nat.mul_comm]
    omega

theorem mul_itemsInside {size seek : Nat} (h : seek ≤ size) (l1 l2 : Nat) :
    l1 * itemsInside size seek l1 l2 = l1 * min l2 ((size - seek) / l1) := by
  by_cases hl1 : l1 = 0
  · rw [hl1, Nat.zero_mul, Nat.zero_mul]
  · rw [itemsInside_eq h hl1]

theorem Root.same (h : Root z content) (hf : z'.f = z.f) (hsize : z'.size = z.size)
    (hparent : z'.parent = z.parent) (hoffset : z'.offset = z.offset) (hdata : z'.data = z.data)
    (hseek : z'.dataseek = z.dataseek) (hle : z.data = some content → z'.seek ≤ z'.size) :
    Root z' content := by
  refine ⟨hparent.trans h.parent, hoffset.trans h.offset, ?_⟩
  rcases h.kind with ⟨hd, hs, f, hf', himage, hlength⟩ | ⟨hd, -⟩
  · exact .inl ⟨hdata.trans hd, hseek.trans hs, f, hf.trans hf', himage, hlength.trans hsize.symm⟩
  · exact .inr ⟨hdata.trans hd, hle hd⟩

/-- The position of a file of its own. -/
def Zfile.position (z : Zfile) : Nat := if z.data.isSome then z.seek else z.f.elim 0 HostFile.pos

theorem HostFile.fseek_bytes (f : HostFile) (offset : Int) (mode : Whence) :
    (f.fseek offset mode).2.image = f.image ∧ (f.fseek offset mode).2.length = f.length := by
  unfold HostFile.fseek
  dsimp only
  split_ifs <;> exact ⟨rfl, rfl⟩

theorem zfileFseek_host {f : HostFile} (hown : z.ownSeek = false) (hf : z.f = some f) (offset : Int)
    (mode : Whence) : (zfileFseek z offset mode).2 = { z with f := some (f.fseek offset mode).2 } := by
  unfold zfileFseek
  rw [if_neg (by rw [hown]; decide)]
  split
  · rename_i f' hf'
    obtain rfl := Option.some.inj (hf.symm.trans hf')
    rfl
  · rename_i hnone
    exact absurd (hf.symm.trans hnone) (by simp)

theorem zfileFseek_own (hown : z.ownSeek = true) (offset : Int) (mode : Whence) :
    ∃ seek ≤ z.size, (zfileFseek z offset mode).2 = { z with seek } := by
  unfold zfileFseek
  rw [if_pos hown]
  dsimp only
  split_ifs
  · exact ⟨0, Nat.zero_le _, rfl⟩
  · exact ⟨z.size, Nat.le_refl _, rfl⟩
  · exact ⟨_, by omega, rfl⟩

theorem zfileFseek_own_set (hown : z.ownSeek = true) {pos : Nat} (hpos : pos ≤ z.size) :
    (zfileFseek z pos .set).2 = { z with seek := pos } := by
  have hlow : ¬ (pos : Int) < 0 := by omega
  have hhigh : ¬ (pos : Int) > z.size := by omega
  unfold zfileFseek
  rw [if_pos hown]
  dsimp only
  rw [if_neg hlow, if_neg hhigh]
  rfl

theorem Root.ownSeek_host (h : Root z content) (hdata : z.data = none) (hseek : z.dataseek = false) :
    z.ownSeek = false := by
  simp [Zfile.ownSeek, hdata, hseek, h.parent]

theorem ownSeek_data (hdata : z.data = some content) : z.ownSeek = true := by
  simp [Zfile.ownSeek, hdata]

theorem ownFread_host {f : HostFile} (hdata : z.data = none) (hf : z.f = some f) (b : Image)
    (at' l1 l2 : Nat) : ownFread z b at' l1 l2 = ((f.fread b at' l1 l2).1, (f.fread b at' l1 l2).2.1,
      { z with f := some (f.fread b at' l1 l2).2.2 }) := by
  unfold ownFread
  split
  · rename_i d hd
    exact absurd (hdata.symm.trans hd) (by simp)
  · split
    · rename_i f' hf'
      obtain rfl := Option.some.inj (hf.symm.trans hf')
      rfl
    · rename_i hnone
      exact absurd (hf.symm.trans hnone) (by simp)

theorem ownFread_data (hdata : z.data = some content) (b : Image) (at' l1 l2 : Nat) :
    ownFread z b at' l1 l2 =
      (b.blit at' (content.slice (z.offset + z.seek) (l1 * itemsInside z.size z.seek l1 l2)),
        itemsInside z.size z.seek l1 l2,
        { z with seek := z.seek + l1 * itemsInside z.size z.seek l1 l2 }) := by
  unfold ownFread
  split
  · rename_i d hd
    obtain rfl := Option.some.inj (hdata.symm.trans hd)
    rfl
  · rename_i hnone
    exact absurd (hdata.symm.trans hnone) (by simp)

/-- A seek moves only the position. -/
theorem Root.fseek (h : Root z content) (offset : Int) (mode : Whence) :
    Root (zfileFseek z offset mode).2 content ∧ (zfileFseek z offset mode).2.size = z.size ∧
      (zfileFseek z offset mode).2.userdata = z.userdata := by
  rcases h.kind with ⟨hdata, hdataseek, f, hf, himage, hlength⟩ | ⟨hdata, hseek⟩
  · obtain ⟨himage', hlength'⟩ := f.fseek_bytes offset mode
    rw [zfileFseek_host (h.ownSeek_host hdata hdataseek) hf]
    exact ⟨⟨h.parent, h.offset, .inl ⟨hdata, hdataseek, (f.fseek offset mode).2, rfl,
      himage'.trans himage, hlength'.trans hlength⟩⟩, rfl, rfl⟩
  · obtain ⟨seek, hle, heq⟩ := zfileFseek_own (ownSeek_data hdata) offset mode
    rw [heq]
    exact ⟨⟨h.parent, h.offset, .inr ⟨hdata, hle⟩⟩, rfl, rfl⟩

/-- A seek to a place inside goes there. -/
theorem Root.fseek_set (h : Root z content) (pos : Nat) (hpos : pos ≤ z.size) :
    (zfileFseek z pos .set).2.position = pos := by
  rcases h.kind with ⟨hdata, hdataseek, f, hf, -, -⟩ | ⟨hdata, -⟩
  · rw [zfileFseek_host (h.ownSeek_host hdata hdataseek) hf]
    have hlow : ¬ (pos : Int) < 0 := by omega
    have hfseek : (f.fseek pos .set).2.pos = pos := by
      unfold HostFile.fseek
      dsimp only
      rw [if_neg hlow]
      rfl
    simp only [Zfile.position, hdata, Option.isSome_none, Bool.false_eq_true, if_false, Option.elim,
      hfseek]
  · rw [zfileFseek_own_set (ownSeek_data hdata) hpos]
    simp only [Zfile.position, hdata, Option.isSome_some, if_true]

/-- A read keeps the bytes. -/
theorem Root.fread (h : Root z content) (b : Image) (at' l1 l2 : Nat) :
    Root (ownFread z b at' l1 l2).2.2 content ∧ (ownFread z b at' l1 l2).2.2.size = z.size ∧
      (ownFread z b at' l1 l2).2.2.userdata = z.userdata := by
  rcases h.kind with ⟨hdata, hdataseek, f, hf, himage, hlength⟩ | ⟨hdata, hseek⟩
  · rw [ownFread_host hdata hf]
    exact ⟨⟨h.parent, h.offset, .inl ⟨hdata, hdataseek, (f.fread b at' l1 l2).2.2, rfl, himage,
      hlength⟩⟩, rfl, rfl⟩
  · rw [ownFread_data hdata]
    exact ⟨⟨h.parent, h.offset, .inr ⟨hdata, itemsInside_le hseek l1 l2⟩⟩, rfl, rfl⟩

/-- A read of bytes that are there stores them. -/
theorem Root.fread_inside (h : Root z content) (b : Image) (at' l1 n : Nat)
    (hroom : z.position + l1 * n ≤ z.size) :
    (ownFread z b at' l1 n).1 = b.blit at' (content.slice z.position (l1 * n)) ∧
      (l1 ≠ 0 → (ownFread z b at' l1 n).2.1 = n) := by
  rcases h.kind with ⟨hdata, hdataseek, f, hf, himage, hlength⟩ | ⟨hdata, hseek⟩
  · have hpos : z.position = f.pos := by simp [Zfile.position, hdata, hf]
    have hgot : min (l1 * n) (f.length - f.pos) = l1 * n := by omega
    rw [ownFread_host hdata hf, HostFile.fread, hgot, himage, hpos]
    exact ⟨rfl, fun hl1 => Nat.mul_div_cancel_left _ (Nat.pos_of_ne_zero hl1)⟩
  · have hpos : z.position = z.seek := by simp [Zfile.position, hdata]
    rw [hpos] at hroom ⊢
    have hitems : itemsInside z.size z.seek l1 n = n := by
      rw [itemsInside, if_neg (by omega)]
    rw [ownFread_data hdata, hitems, h.offset, Nat.zero_add]
    exact ⟨rfl, fun _ => rfl⟩

/-! ### What operations on other zfiles leave alone -/

/-- A file of its own keeps its bytes. -/
def KeepsRoot (z z' : Zfile) : Prop := ∀ content, Root z content →
  Root z' content ∧ z'.size = z.size ∧ z'.userdata = z.userdata

theorem KeepsRoot.refl (z : Zfile) : KeepsRoot z z := fun _ h => ⟨h, rfl, rfl⟩

theorem KeepsRoot.trans {z'' : Zfile} (h : KeepsRoot z z') (h' : KeepsRoot z' z'') :
    KeepsRoot z z'' := by
  intro content hr
  obtain ⟨hr₁, hsize, huser⟩ := h content hr
  obtain ⟨hr₂, hsize', huser'⟩ := h' content hr₁
  exact ⟨hr₂, hsize'.trans hsize, huser'.trans huser⟩

theorem keepsRoot_fseek (z : Zfile) (offset : Int) (mode : Whence) :
    KeepsRoot z (zfileFseek z offset mode).2 := fun _ h => h.fseek offset mode

theorem keepsRoot_fread (z : Zfile) (b : Image) (at' l1 l2 : Nat) :
    KeepsRoot z (ownFread z b at' l1 l2).2.2 := fun _ h => h.fread b at' l1 l2

theorem zfileFseek_same (z : Zfile) (offset : Int) (mode : Whence) :
    SameZfile z (zfileFseek z offset mode).2 := by
  by_cases hown : z.ownSeek = true
  · obtain ⟨seek, hle, heq⟩ := zfileFseek_own hown offset mode
    rw [heq]
    exact ⟨rfl, rfl, rfl, rfl, rfl, rfl, fun _ _ => hle⟩
  · unfold zfileFseek
    rw [if_neg hown]
    split
    · exact ⟨rfl, rfl, rfl, rfl, rfl, rfl, fun _ h => h⟩
    · exact SameZfile.refl z

theorem Files.set_self (fs : Files) (i : Nat) (z : Zfile) : (fs.set i z).zfile i = z := by
  simp only [Files.set, Function.update_self]

theorem Files.set_ne (fs : Files) {i j : Nat} (z : Zfile) (h : j ≠ i) :
    (fs.set i z).zfile j = fs.zfile j := by
  simp only [Files.set, Function.update_of_ne h]

/-- A file of its own moves. -/
theorem Moved.ofRoot (hroot : Root (fs.zfile p) content) (h : KeepsRoot (fs.zfile p) z') (i : Nat) :
    Moved fs (fs.set p z') i := by
  have hne : ∀ j, (fs.zfile j).parent ≠ none → j ≠ p := by
    rintro j hj rfl
    exact hj hroot.parent
  refine ⟨rfl, fun j _ hj => fs.set_ne z' (hne j hj), fun j content' hr => ?_, fun hi => ?_⟩
  · by_cases hjp : j = p
    · rw [hjp] at hr ⊢
      rw [fs.set_self]
      exact h content' hr
    · rw [fs.set_ne z' hjp]
      exact ⟨hr, rfl, rfl⟩
  · rw [fs.set_ne z' (hne i hi)]
    exact SameZfile.refl _

/-- A window or a VHD view moves. -/
theorem Moved.ofSelf (hparent : (fs.zfile i).parent ≠ none) (h : SameZfile (fs.zfile i) z') :
    Moved fs (fs.set i z') i := by
  refine ⟨rfl, fun j hj _ => fs.set_ne z' hj, fun j content hr => ?_, fun _ => ?_⟩
  · have hji : j ≠ i := by
      rintro rfl
      exact hparent hr.parent
    rw [fs.set_ne z' hji]
    exact ⟨hr, rfl, rfl⟩
  · rw [fs.set_self]
    exact h

/-- Both move. -/
theorem Moved.ofBoth {zp' : Zfile} (hroot : Root (fs.zfile p) content)
    (hparent : (fs.zfile i).parent ≠ none) (hp : KeepsRoot (fs.zfile p) zp')
    (h : SameZfile (fs.zfile i) z') : Moved fs ((fs.set p zp').set i z') i := by
  have hne : i ≠ p := by
    rintro rfl
    exact hparent hroot.parent
  have hsame : (fs.set p zp').zfile i = fs.zfile i := fs.set_ne zp' hne
  refine (Moved.ofRoot hroot hp i).trans (Moved.ofSelf ?_ ?_)
  · rw [hsame]
    exact hparent
  · rw [hsame]
    exact h

/-! ### The reader of a VHD view -/

variable {st st' : VhdRead} {u u' : Unaligned}

theorem readSectormap_keeps (st : VhdRead) (sectormapblock : Int) :
    KeepsRoot st.zp (readSectormap st sectormapblock).2.zp := by
  have hmoved := (keepsRoot_fseek st.zp sectormapblock .set).trans
    (keepsRoot_fread _ st.vhd.vhdSectormap 0 1 512)
  rw [readSectormap]
  split_ifs
  · exact KeepsRoot.refl _
  · dsimp only
    split_ifs <;> exact hmoved

theorem readAllocated_keeps (st : VhdRead) (at' sectoroffset bits : Nat) :
    KeepsRoot st.zp (readAllocated st at' sectoroffset bits).2.zp := by
  have hmap := readSectormap_keeps st (int32 (sectoroffset * 512 + bits / 8 / 512 * 512))
  rw [readAllocated]
  dsimp only
  split_ifs
  · exact hmap
  · exact hmap.trans ((keepsRoot_fseek _ _ _).trans (keepsRoot_fread _ _ _ _ _))
  · exact hmap

theorem vhdSector_keeps {at' offset : Nat} {ok : Bool} (h : vhdSector st at' offset = .ok (ok, st')) :
    KeepsRoot st.zp st'.zp := by
  rw [vhdSector] at h
  dsimp only at h
  split_ifs at h
  · cases h
    exact KeepsRoot.refl _
  · have hread := Except.ok.inj h
    have hst : (readAllocated st at' _ _).2 = st' := congrArg Prod.snd hread
    rw [← hst]
    exact readAllocated_keeps _ _ _ _

theorem vhdLoop_keeps (n : Nat) {at' offset read ret : Nat}
    (h : vhdLoop n st at' offset read = .ok (ret, st')) : KeepsRoot st.zp st'.zp := by
  induction n generalizing st at' offset read with
  | zero =>
    cases h
    exact KeepsRoot.refl _
  | succ n ih =>
    rw [vhdLoop] at h
    obtain ⟨⟨ok, st₁⟩, hsector, h⟩ := ok_of_bind h
    dsimp only at h
    split_ifs at h
    · exact (vhdSector_keeps hsector).trans (ih h)
    · cases h
      exact vhdSector_keeps hsector

theorem vhdFread2_keeps {offset len ret : Nat} (h : vhdFread2 st offset len = .ok (ret, st')) :
    KeepsRoot st.zp st'.zp := by
  rw [vhdFread2] at h
  split_ifs at h
  · cases h
    exact KeepsRoot.refl _
  · cases h
    exact KeepsRoot.refl _
  · exact vhdLoop_keeps _ h

theorem throughBuffer_keeps {offset skip n len : Nat}
    (h : throughBuffer u offset skip n len = .ok u') : KeepsRoot u.st.zp u'.st.zp := by
  rw [throughBuffer] at h
  obtain ⟨⟨ret, st⟩, hread, h⟩ := ok_of_bind h
  cases h
  exact vhdFread2_keeps hread

theorem unalignedLoop_keeps (n : Nat) {len size : Nat} (h : unalignedLoop n u len size = .ok u') :
    KeepsRoot u.st.zp u'.st.zp := by
  induction n generalizing u size with
  | zero =>
    cases h
    exact KeepsRoot.refl _
  | succ n ih =>
    rw [unalignedLoop] at h
    obtain ⟨u₁, hthrough, h⟩ := ok_of_bind h
    exact (throughBuffer_keeps hthrough).trans (ih h)

theorem vhdUnaligned_keeps {size : Nat} (h : vhdUnaligned u size = .ok u') :
    KeepsRoot u.st.zp u'.st.zp := by
  rw [vhdUnaligned] at h
  split_ifs at h
  · obtain ⟨u₁, hthrough, h⟩ := ok_of_bind h
    exact (throughBuffer_keeps hthrough).trans (unalignedLoop_keeps _ h)
  · exact unalignedLoop_keeps _ h

theorem vhdFread_keeps {zp zp' : Zfile} {vhd : ZfileVhd} {l1 l2 ret : Nat} {b' : Image}
    (hvhd : z.userdata = some vhd) (h : vhdFread tmp z zp vhd b l1 l2 = .ok (b', ret, z', zp')) :
    SameZfile z z' ∧ KeepsRoot zp zp' := by
  have hsome : ∀ (seek : Nat) (vhd' : ZfileVhd), SameZfile z { z with seek, userdata := some vhd' } :=
    fun seek vhd' => ⟨rfl, rfl, rfl, rfl, rfl, by rw [hvhd]; rfl, fun hnone => by
      rw [hvhd] at hnone
      cases hnone⟩
  rw [vhdFread] at h
  dsimp only at h
  split_ifs at h
  · cases h
    exact ⟨SameZfile.refl z, KeepsRoot.refl zp⟩
  · obtain ⟨u, hread, h⟩ := ok_of_bind h
    cases h
    exact ⟨hsome _ _, vhdUnaligned_keeps hread⟩
  · obtain ⟨⟨out, st⟩, hread, h⟩ := ok_of_bind h
    cases h
    exact ⟨hsome _ _, vhdFread2_keeps hread⟩

/-! ### Operations on a zfile that shows its view -/

/-- Items of a window come from its part of the file below. -/
theorem windowFread_spec (views : Nat → Image) (root : Root (fs.zfile p) (views p))
    (seek : (fs.zfile i).seek ≤ (fs.zfile i).size)
    (room : (fs.zfile i).offset + (fs.zfile i).size ≤ (fs.zfile p).size)
    (view : ∀ k < (fs.zfile i).size, views i k = views p ((fs.zfile i).offset + k))
    (b : Image) (l1 l2 : Nat) :
    ∃ ret zp', windowFread fs i p b l1 l2 =
      (b.blit 0 ((views i).slice (fs.zfile i).seek
          (l1 * itemsInside (fs.zfile i).size (fs.zfile i).seek l1 l2)), ret,
        (fs.set p zp').set i { fs.zfile i with
          seek := (fs.zfile i).seek +
            l1 * itemsInside (fs.zfile i).size (fs.zfile i).seek l1 l2 }) ∧
      (l1 ≠ 0 → ret = itemsInside (fs.zfile i).size (fs.zfile i).seek l1 l2) ∧
      KeepsRoot (fs.zfile p) zp' := by
  have hinside := itemsInside_le seek l1 l2
  generalize hn : itemsInside (fs.zfile i).size (fs.zfile i).seek l1 l2 = n at hinside ⊢
  have hseek : (fs.zfile i).seek + (fs.zfile i).offset ≤ (fs.zfile p).size := by omega
  obtain ⟨hroot, hsize, -⟩ := root.fseek ((fs.zfile i).seek + (fs.zfile i).offset : Nat) .set
  have hpos := root.fseek_set _ hseek
  obtain ⟨hbytes, hret⟩ := hroot.fread_inside b 0 l1 n (by rw [hpos, hsize]; omega)
  have hslice : (views p).slice ((fs.zfile i).seek + (fs.zfile i).offset) (l1 * n) =
      (views i).slice (fs.zfile i).seek (l1 * n) := by
    refine List.map_congr_left fun k hk => ?_
    have hlt := List.mem_range.mp hk
    rw [view _ (by omega)]
    congr 1
    omega
  refine ⟨_, _, ?_, hret, (keepsRoot_fseek _ ((fs.zfile i).seek + (fs.zfile i).offset : Nat)
    .set).trans (keepsRoot_fread _ b 0 l1 n)⟩
  rw [windowFread]
  dsimp only
  rw [hn]
  refine Prod.ext ?_ (Prod.ext rfl ?_)
  · rw [hbytes, hpos, hslice]
  · dsimp only
    by_cases hl1 : l1 = 0
    · rw [hl1, Nat.zero_mul, Nat.zero_mul]
    · rw [hret hl1]

theorem zfileFread_window (parent : (fs.zfile i).parent = some p)
    (user : (fs.zfile i).userdata = none) (data : (fs.zfile i).data = none)
    (useparent : (fs.zfile i).useparent = true) (tmp b : Image) (l1 l2 : Nat) :
    zfileFread fs tmp b l1 l2 i = .ok (windowFread fs i p b l1 l2) := by
  rw [zfileFread]
  simp only [parent, user, data, useparent, Option.isNone_none, Bool.and_self, if_true]

theorem zfileFread_root (parent : (fs.zfile i).parent = none) (tmp b : Image) (l1 l2 : Nat) :
    zfileFread fs tmp b l1 l2 i = .ok ((ownFread (fs.zfile i) b 0 l1 l2).1,
      (ownFread (fs.zfile i) b 0 l1 l2).2.1, fs.set i (ownFread (fs.zfile i) b 0 l1 l2).2.2) := by
  rw [zfileFread]
  simp only [parent]

theorem Shown.fseek_moved {views : Nat → Image} (h : Shown fs views i) (offset : Int)
    (mode : Whence) : Moved fs (fs.set i (zfileFseek (fs.zfile i) offset mode).2) i := by
  cases h with
  | root h _ => exact Moved.ofRoot h (keepsRoot_fseek _ offset mode) i
  | window p parent _ _ _ _ _ _ _ _ =>
    exact Moved.ofSelf (by rw [parent]; exact Option.some_ne_none p) (zfileFseek_same _ offset mode)
  | vhd p parent _ _ _ =>
    exact Moved.ofSelf (by rw [parent]; exact Option.some_ne_none p) (zfileFseek_same _ offset mode)

theorem Shown.fread_moved {views : Nat → Image} (h : Shown fs views i) {b' : Image} {l1 l2 ret : Nat}
    (hread : zfileFread fs tmp b l1 l2 i = .ok (b', ret, fs')) : Moved fs fs' i := by
  cases h with
  | root h _ =>
    rw [zfileFread_root h.parent] at hread
    cases hread
    exact Moved.ofRoot h (keepsRoot_fread _ b 0 l1 l2) i
  | window p parent _ root data user useparent seek room view =>
    rw [zfileFread_window parent user data useparent] at hread
    obtain ⟨ret', zp', heq, -, hkeeps⟩ := windowFread_spec _ root seek room view b l1 l2
    simp only [heq, Except.ok.injEq, Prod.mk.injEq] at hread
    obtain ⟨-, -, rfl⟩ := hread
    refine Moved.ofBoth root (by rw [parent]; exact Option.some_ne_none p) hkeeps ?_
    exact ⟨rfl, rfl, rfl, rfl, rfl, rfl, fun _ _ => itemsInside_le seek l1 l2⟩
  | vhd p parent _ root user =>
    obtain ⟨vhd, hvhd⟩ := Option.isSome_iff_exists.mp user
    rw [zfileFread] at hread
    simp only [parent, hvhd] at hread
    obtain ⟨⟨b₁, ret₁, z₁, zp₁⟩, hfread, hread⟩ := ok_of_bind hread
    cases hread
    obtain ⟨hsame, hkeeps⟩ := vhdFread_keeps hvhd hfread
    exact Moved.ofBoth root (by rw [parent]; exact Option.some_ne_none p) hkeeps hsame

theorem Shown.of_moved {views : Nat → Image} {j : Nat} (h : Shown fs views j) (hm : Moved fs fs' i) :
    Shown fs' views j := by
  have hsame : (fs.zfile j).parent ≠ none → SameZfile (fs.zfile j) (fs'.zfile j) := by
    intro hparent
    by_cases hji : j = i
    · exact hji ▸ hm.self (hji ▸ hparent)
    · rw [hm.others j hji hparent]
      exact SameZfile.refl _
  cases h with
  | root h user =>
    obtain ⟨hroot, -, huser⟩ := hm.roots j _ h
    exact .root hroot (huser.trans user)
  | window p parent inside root data user useparent seek room view =>
    have hj := hsame (by rw [parent]; exact Option.some_ne_none p)
    obtain ⟨hroot, hsize, -⟩ := hm.roots p _ root
    refine .window p (hj.parent.trans parent) (hm.next ▸ inside) hroot (hj.data.trans data) ?_
      (hj.useparent.trans useparent) (hj.seek user seek) ?_ fun k hk => ?_
    · rw [← Option.isNone_iff_eq_none, ← Option.not_isSome, hj.user, user]
      rfl
    · rw [hj.offset, hj.size, hsize]
      exact room
    · rw [hj.offset]
      exact view k (hj.size ▸ hk)
  | vhd p parent inside root user =>
    have hj := hsame (by rw [parent]; exact Option.some_ne_none p)
    exact .vhd p (hj.parent.trans parent) (hm.next ▸ inside) (hm.roots p _ root).1
      (hj.user.trans user)

theorem Inv.of_moved {views : Nat → Image} (h : Inv ⟨fs, views⟩) (hm : Moved fs fs' i) :
    Inv ⟨fs', views⟩ := fun j hj => (h j (hm.next ▸ hj)).of_moved hm

/-! ### Opening -/

theorem Files.add_new (fs : Files) (z : Zfile) : (fs.add z).zfile fs.next = z := by
  simp only [Files.add, Function.update_self]

theorem Files.add_old (fs : Files) (z : Zfile) {j : Nat} (h : j < fs.next) :
    (fs.add z).zfile j = fs.zfile j := by
  simp only [Files.add, Function.update_of_ne (Nat.ne_of_lt h)]

/-- What is there still shows the same when there is more. -/
theorem Shown.congr {views views' : Nat → Image} {j : Nat} (h : Shown fs views j)
    (hj : j < fs.next) (hnext : fs.next ≤ fs'.next)
    (hzfile : ∀ k < fs.next, fs'.zfile k = fs.zfile k) (hviews : ∀ k < fs.next, views' k = views k) :
    Shown fs' views' j := by
  cases h with
  | root h user =>
    refine .root ?_ ?_
    · rw [hzfile j hj, hviews j hj]
      exact h
    · rw [hzfile j hj]
      exact user
  | window p parent inside root data user useparent seek room view =>
    have hz := hzfile j hj
    refine .window p (hz ▸ parent) (Nat.lt_of_lt_of_le inside hnext) ?_ (hz ▸ data) (hz ▸ user)
      (hz ▸ useparent) (hz ▸ seek) ?_ fun k hk => ?_
    · rw [hzfile p inside, hviews p inside]
      exact root
    · rw [hz, hzfile p inside]
      exact room
    · rw [hviews j hj, hviews p inside, hz]
      exact view k (hz ▸ hk)
  | vhd p parent inside root user =>
    refine .vhd p (hzfile j hj ▸ parent) (Nat.lt_of_lt_of_le inside hnext) ?_ (hzfile j hj ▸ user)
    rw [hzfile p inside, hviews p inside]
    exact root

theorem Inv.add (h : Inv s) (z : Zfile) (view : Image)
    (hnew : Shown (s.add z view).files (s.add z view).views s.files.next) : Inv (s.add z view) := by
  intro j hj
  rcases Nat.lt_succ_iff_lt_or_eq.mp hj with hlt | rfl
  · refine (h j hlt).congr hlt (Nat.le_succ _) (fun k hk => s.files.add_old z hk) fun k hk => ?_
    exact Function.update_of_ne (Nat.ne_of_lt hk) view s.views
  · exact hnew

/-- Going up from a file of its own stays there. -/
theorem climb_root {z : Nat} (hz : z < fs.next) (parent : (fs.zfile z).parent = none)
    (offset : Nat) : climb fs fs.next z offset = (z, offset) := by
  obtain ⟨n, hn⟩ : ∃ n, fs.next = n + 1 := ⟨fs.next - 1, by omega⟩
  rw [hn, climb, parent]

/-- Going up from another zfile ends at the file below. -/
theorem climb_view {z : Nat} (hz : z < fs.next) (parent : (fs.zfile z).parent = some p)
    (inside : p < fs.next) (root : Root (fs.zfile p) content) (offset : Nat) :
    climb fs fs.next z offset = (p, offset + (fs.zfile z).offset) := by
  obtain ⟨n, hn⟩ : ∃ n, fs.next = n + 2 := by
    have hne : z ≠ p := by
      rintro rfl
      rw [root.parent] at parent
      cases parent
    exact ⟨fs.next - 2, by omega⟩
  rw [hn, climb, parent]
  dsimp only
  rw [climb, root.parent]

/-- A window on anything but a VHD view shows its part of what that shows. -/
theorem Inv.openWindow (h : Inv s) {z offset size : Nat} (hz : z < s.files.next)
    (hinside : offset + size ≤ (s.files.zfile z).size) (hplain : (s.files.zfile z).userdata = none) :
    Inv (s.add (zfileFopenParent s.files z offset size) fun k => s.views z (offset + k)) := by
  have hold : ∀ k < s.files.next, Function.update s.views s.files.next
      (fun k => s.views z (offset + k)) k = s.views k := fun k hk => by
    rw [Function.update_of_ne (Nat.ne_of_lt hk)]
  have hnew : ∀ p, (climb s.files s.files.next z offset).1 = p → p < s.files.next →
      Root (s.files.zfile p) (s.views p) →
      (climb s.files s.files.next z offset).2 + size ≤ (s.files.zfile p).size →
      (∀ k < size, s.views z (offset + k) =
        s.views p ((climb s.files s.files.next z offset).2 + k)) →
      Inv (s.add (zfileFopenParent s.files z offset size) fun k => s.views z (offset + k)) := by
    intro p hp hlt hroot hroom hview
    refine h.add _ _ ?_
    have hz' := s.files.add_new (zfileFopenParent s.files z offset size)
    have hp' := s.files.add_old (zfileFopenParent s.files z offset size) hlt
    refine .window p ?_ (Nat.lt_succ_of_lt hlt) ?_ ?_ ?_ ?_ ?_ ?_ ?_
    · exact (congrArg Zfile.parent hz').trans (congrArg some hp)
    · change Root ((s.files.add _).zfile p) (Function.update s.views s.files.next _ p)
      rw [hp', hold p hlt]
      exact hroot
    · exact congrArg Zfile.data hz'
    · exact congrArg Zfile.userdata hz'
    · exact congrArg Zfile.useparent hz'
    · change ((s.files.add _).zfile s.files.next).seek ≤ ((s.files.add _).zfile s.files.next).size
      rw [hz']
      exact Nat.zero_le _
    · change ((s.files.add _).zfile s.files.next).offset + ((s.files.add _).zfile s.files.next).size ≤
        ((s.files.add _).zfile p).size
      rw [hz', hp']
      exact hroom
    · intro k hk
      change Function.update s.views s.files.next (fun k => s.views z (offset + k)) s.files.next k =
        Function.update s.views s.files.next _ p (((s.files.add _).zfile s.files.next).offset + k)
      rw [hz', Function.update_self, hold p hlt]
      refine hview k ?_
      have hsize : ((s.files.add (zfileFopenParent s.files z offset size)).zfile
        s.files.next).size = size := congrArg Zfile.size hz'
      exact hsize ▸ hk
  cases h z hz with
  | root hroot user =>
    have hclimb := climb_root hz hroot.parent offset
    refine hnew z (by rw [hclimb]) hz hroot (by rw [hclimb]; exact hinside) fun k _ => ?_
    rw [hclimb]
  | window p parent inside root data user useparent seek room view =>
    have hclimb := climb_view hz parent inside root offset
    refine hnew p (by rw [hclimb]) inside root ?_ fun k hk => ?_
    · rw [hclimb]
      dsimp only
      omega
    · rw [hclimb, view (offset + k) (by omega)]
      congr 1
      dsimp only
      omega
  | vhd p parent inside root user =>
    rw [hplain] at user
    cases user

/-- What `vhd` leaves: the zfile moved, and maybe one more view. -/
def Looked (fs fs' : Files) (i : Nat) : Prop :=
  ∃ fs₁, Moved fs fs₁ i ∧ (fs' = fs₁ ∨ ∃ v, fs' = vhdView fs₁ i v)

theorem Moved.looked (h : Moved fs fs' i) : Looked fs fs' i := ⟨fs', h, .inl rfl⟩

theorem Moved.looked_trans (h : Moved fs fs' i) (h' : Looked fs' fs'' i) : Looked fs fs'' i := by
  obtain ⟨fs₁, hm, hview⟩ := h'
  exact ⟨fs₁, h.trans hm, hview⟩

theorem readSectorAt_moved {views : Nat → Image} (h : Shown fs views i) {offset : Nat} {b' : Image}
    {ok : Bool} (hread : readSectorAt fs tmp b i offset = .ok (b', ok, fs')) : Moved fs fs' i := by
  have hseek := h.fseek_moved offset .set
  rw [readSectorAt] at hread
  obtain ⟨⟨b₁, ret, fs₁⟩, hfread, hread⟩ := ok_of_bind hread
  cases hread
  exact hseek.trans ((h.of_moved hseek).fread_moved hfread)

theorem vhdDynamic_looked {views : Nat → Image} (h : Shown fs views i) {virtsize k : Nat}
    {header : Image} (hvhd : vhdDynamic fs tmp i virtsize header = .ok (k, fs')) :
    Looked fs fs' i := by
  have hseek := h.fseek_moved 0 .set
  rw [vhdDynamic] at hvhd
  split_ifs at hvhd
  · cases hvhd
    exact (Moved.refl fs i).looked
  · obtain ⟨⟨b₁, ret, fs₁⟩, hfread, hvhd⟩ := ok_of_bind hvhd
    have hmoved := hseek.trans ((h.of_moved hseek).fread_moved hfread)
    dsimp only at hvhd
    split_ifs at hvhd
    · cases hvhd
      exact hmoved.looked
    · cases hvhd
      exact ⟨fs₁, hmoved, .inr ⟨_, rfl⟩⟩

theorem vhdType_looked {views : Nat → Image} (h : Shown fs views i) {fsize k : Nat}
    {header : Image} (hvhd : vhdType fs tmp i fsize header = .ok (k, fs')) : Looked fs fs' i := by
  rw [vhdType] at hvhd
  split_ifs at hvhd
  · cases hvhd
    exact (Moved.refl fs i).looked
  · obtain ⟨⟨b₁, ok, fs₁⟩, hread, hvhd⟩ := ok_of_bind hvhd
    have hmoved := readSectorAt_moved h hread
    dsimp only at hvhd
    split_ifs at hvhd
    · cases hvhd
      exact hmoved.looked
    · exact hmoved.looked_trans (vhdDynamic_looked (h.of_moved hmoved) hvhd)
  · cases hvhd
    exact ⟨fs, Moved.refl fs i, .inr ⟨_, rfl⟩⟩

theorem vhd_looked {views : Nat → Image} (h : Shown fs views i) {k : Nat}
    (hvhd : vhd fs tmp i = .ok (k, fs')) : Looked fs fs' i := by
  have hseek := h.fseek_moved 0 .fromEnd
  rw [vhd] at hvhd
  obtain ⟨⟨b₁, ok₁, fs₁⟩, hread₁, hvhd⟩ := ok_of_bind hvhd
  have hmoved₁ := hseek.trans (readSectorAt_moved (h.of_moved hseek) hread₁)
  dsimp only at hvhd
  split_ifs at hvhd
  · cases hvhd
    exact hmoved₁.looked
  · obtain ⟨⟨b₂, ok₂, fs₂⟩, hread₂, hvhd⟩ := ok_of_bind hvhd
    have hmoved₂ := hmoved₁.trans (readSectorAt_moved (h.of_moved hmoved₁) hread₂)
    dsimp only at hvhd
    split_ifs at hvhd
    · cases hvhd
      exact hmoved₂.looked
    · exact hmoved₂.looked_trans (vhdType_looked (h.of_moved hmoved₂) hvhd)

/-- A VHD view is one of the file below. -/
theorem Inv.openVhd (h : Inv s) {z : Nat} (hz : z < s.files.next) (v : ZfileVhd) (view : Image) :
    Inv ⟨vhdView s.files z v, Function.update s.views s.files.next view⟩ := by
  obtain ⟨p, hp, inside, root⟩ : ∃ p, (climb s.files s.files.next z 0).1 = p ∧ p < s.files.next ∧
      Root (s.files.zfile p) (s.views p) := by
    cases h z hz with
    | root hroot user => exact ⟨z, by rw [climb_root hz hroot.parent], hz, hroot⟩
    | window p parent inside root data user useparent seek room view =>
      exact ⟨p, by rw [climb_view hz parent inside root], inside, root⟩
    | vhd p parent inside root user =>
      exact ⟨p, by rw [climb_view hz parent inside root], inside, root⟩
  refine h.add _ view ?_
  have hz' := s.files.add_new { zfileFopenParent s.files z 0 v.virtsize with
    useparent := false, dataseek := true, userdata := some v }
  refine .vhd p ?_ (Nat.lt_succ_of_lt inside) ?_ ?_
  · exact (congrArg Zfile.parent hz').trans (congrArg some hp)
  · change Root ((s.files.add _).zfile p) (Function.update s.views s.files.next _ p)
    rw [s.files.add_old _ inside, Function.update_of_ne (Nat.ne_of_lt inside)]
    exact root
  · exact congrArg (fun z : Zfile => z.userdata.isSome) hz'

/-! ### A dynamic VHD file -/

theorem ok_bind {α β : Type} (a : α) (f : α → Except Fault β) : (Except.ok a >>= f) = f a := rfl

theorem Files.set_set (fs : Files) (i : Nat) (z z' : Zfile) : (fs.set i z).set i z' = fs.set i z' := by
  simp only [Files.set, Function.update_idem]

/-- Reading a file of its own from `pos` on. -/
theorem Root.zfileFread_at (hroot : Root (fs.zfile i) content) (tmp b : Image) (pos n : Nat)
    (hroom : pos + n ≤ (fs.zfile i).size) :
    ∃ z', Root z' content ∧ z'.size = (fs.zfile i).size ∧ z'.userdata = (fs.zfile i).userdata ∧
      zfileFread (fs.set i (zfileFseek (fs.zfile i) pos .set).2) tmp b 1 n i =
        .ok (b.blit 0 (content.slice pos n), n, fs.set i z') := by
  obtain ⟨hseek, hsize, huser⟩ := hroot.fseek pos .set
  have hpos := hroot.fseek_set pos (by omega)
  obtain ⟨hroot', hsize', huser'⟩ := hseek.fread b 0 1 n
  obtain ⟨hbytes, hret⟩ := hseek.fread_inside b 0 1 n
    (by rw [hpos, hsize, Nat.one_mul]; exact hroom)
  refine ⟨_, hroot', hsize'.trans hsize, huser'.trans huser, ?_⟩
  rw [zfileFread_root (by rw [Files.set_self]; exact hseek.parent), Files.set_self, hbytes,
    hret (Nat.succ_ne_zero 0), hpos, Nat.one_mul, Files.set_set]

theorem Root.readSectorAt_eq (hroot : Root (fs.zfile i) content) (tmp b : Image) (pos : Nat)
    (hroom : pos + 512 ≤ (fs.zfile i).size) :
    ∃ z', Root z' content ∧ z'.size = (fs.zfile i).size ∧ z'.userdata = (fs.zfile i).userdata ∧
      readSectorAt fs tmp b i pos = .ok (b.blit 0 (content.slice pos 512), true, fs.set i z') := by
  obtain ⟨z', hroot', hsize, huser, hread⟩ := hroot.zfileFread_at tmp b pos 512 hroom
  refine ⟨z', hroot', hsize, huser, ?_⟩
  rw [readSectorAt, hread]
  rfl

/-- The bytes in memory are those of the file. -/
theorem slice_stored (m b : Image) (pos n : Nat) :
    (b.blit 0 (m.slice pos n)).slice 0 n = m.slice pos n := by
  have hslice := slice_blit b 0 (m.slice pos n)
  rwa [length_slice] at hslice

theorem agree_stored (m b : Image) (n : Nat) : Agree m (b.blit 0 (m.slice 0 n)) 0 n :=
  agree_of_slice (slice_stored m b 0 n)

/-- The bytes of a sector, from the first on. -/
theorem agree_sector (m b : Image) (pos n : Nat) :
    Agree (fun k => m (pos + k)) (b.blit 0 (m.slice pos n)) 0 n := by
  refine agree_of_slice ((slice_stored m b pos n).trans ?_)
  rw [slice, slice]
  simp only [Nat.zero_add]

section Headers

variable {m m' : Image} (h : Agree m m' 0 512)
include h

theorem vhdChecksum_congr (offset : Nat) : vhdChecksum m' offset = vhdChecksum m offset := by
  refine congrArg (2 ^ 32 - 1 - ·) (Finset.sum_congr rfl fun k hk => ?_)
  rw [h k (Nat.zero_le k) (by simpa using Finset.mem_range.mp hk)]

theorem getLong_congr {j : Nat} (hj : j + 4 ≤ 512) : m'.getLong j = m.getLong j :=
  (h.mono (Nat.zero_le j) (by omega)).getLong

theorem isVhdHeader_congr : isVhdHeader m' = isVhdHeader m := by
  rw [isVhdHeader, isVhdHeader, vhdChecksum_congr h, getLong_congr h (show 8 + 4 ≤ 512 by decide),
    getLong_congr h (show 12 + 4 ≤ 512 by decide), getLong_congr h (show 60 + 4 ≤ 512 by decide),
    getLong_congr h (show 64 + 4 ≤ 512 by decide)]

theorem isDynamicHeader_congr : isDynamicHeader m' = isDynamicHeader m := by
  rw [isDynamicHeader, isDynamicHeader, vhdChecksum_congr h,
    getLong_congr h (show 36 + 4 ≤ 512 by decide), getLong_congr h (show 24 + 4 ≤ 512 by decide)]

theorem virtsizeOf_congr : virtsizeOf m' = virtsizeOf m := by
  rw [virtsizeOf, virtsizeOf, getLong_congr h (show 48 + 4 ≤ 512 by decide),
    getLong_congr h (show 52 + 4 ≤ 512 by decide)]

end Headers

/-- The end of a file of its own is at its size. -/
theorem Root.ftell_end (hroot : Root z content) :
    zfileFtell (zfileFseek z 0 .fromEnd).2 = z.size := by
  rcases hroot.kind with ⟨hdata, hdataseek, f, hf, -, hlength⟩ | ⟨hdata, -⟩
  · rw [zfileFseek_host (hroot.ownSeek_host hdata hdataseek) hf]
    have hend : (f.fseek 0 .fromEnd).2.pos = f.length := by
      have hlow : ¬ (f.length : Int) + 0 < 0 := by omega
      unfold HostFile.fseek
      dsimp only
      rw [if_neg hlow]
      dsimp only
      omega
    simp [zfileFtell, hdata, hdataseek, hroot.parent, hend, hlength]
  · have hlow : ¬ (z.size : Int) + 0 < 0 := by omega
    have hhigh : ¬ (z.size : Int) + 0 > z.size := by omega
    have hend : (zfileFseek z 0 .fromEnd).2 = { z with seek := z.size } := by
      unfold zfileFseek
      rw [if_pos (ownSeek_data hdata)]
      dsimp only
      rw [if_neg hlow, if_neg hhigh]
      simp
    rw [hend]
    simp [zfileFtell, hdata]

/-- What `vhd` does to a file of its own. -/
theorem Root.vhd_eq (hroot : Root (fs.zfile i) content) (hsize : 512 ≤ (fs.zfile i).size) (tmp : Image) :
    ∃ z₁ z₂, Root z₂ content ∧ z₂.size = (fs.zfile i).size ∧ z₂.userdata = (fs.zfile i).userdata ∧
      vhd fs tmp i =
        if isVhdHeader content = false then .ok (i, fs.set i z₁)
        else if content.slice 0 512 ≠ content.slice ((fs.zfile i).size - 512) 512 then
          .ok (i, fs.set i z₂)
        else vhdType (fs.set i z₂) tmp i (fs.zfile i).size (tmp.blit 0 (content.slice 0 512)) := by
  obtain ⟨hend, hsize₀, huser₀⟩ := hroot.fseek 0 .fromEnd
  have hroot₀ : Root ((fs.set i (zfileFseek (fs.zfile i) 0 .fromEnd).2).zfile i) content := by
    rw [Files.set_self]
    exact hend
  obtain ⟨z₁, hroot₁, hsize₁, huser₁, hread₁⟩ := hroot₀.readSectorAt_eq tmp tmp 0
    (by rw [Files.set_self, hsize₀]; exact hsize)
  rw [Files.set_self] at hsize₁ huser₁
  rw [Files.set_set] at hread₁
  have hroot₁' : Root ((fs.set i z₁).zfile i) content := by
    rw [Files.set_self]
    exact hroot₁
  obtain ⟨z₂, hroot₂, hsize₂, huser₂, hread₂⟩ := hroot₁'.readSectorAt_eq tmp tmp
    ((fs.zfile i).size - 512) (by rw [Files.set_self, hsize₁, hsize₀]; omega)
  rw [Files.set_self] at hsize₂ huser₂
  rw [Files.set_set] at hread₂
  have hp := agree_stored content tmp 512
  have hfirst := slice_stored content tmp 0 512
  have hlast := slice_stored content tmp ((fs.zfile i).size - 512) 512
  refine ⟨z₁, z₂, hroot₂, hsize₂.trans (hsize₁.trans hsize₀),
    huser₂.trans (huser₁.trans huser₀), ?_⟩
  rw [vhd, hroot.ftell_end, hread₁, ok_bind]
  dsimp only
  rw [isVhdHeader_congr hp]
  have hread : ∀ {P : Prop}, (true = false ∨ P) ↔ P := fun {P} =>
    ⟨fun h => h.resolve_left (by decide), .inr⟩
  by_cases hheader : isVhdHeader content = false
  · rw [if_pos (hread.mpr hheader), if_pos hheader]
    rfl
  · rw [if_neg (mt hread.mp hheader), if_neg hheader, hread₂, ok_bind]
    dsimp only
    simp only [hfirst, hlast]
    by_cases hsame : content.slice 0 512 ≠ content.slice ((fs.zfile i).size - 512) 512
    · rw [if_pos (hread.mpr hsame), if_pos hsame]
      rfl
    · rw [if_neg (mt hread.mp hsame), if_neg hsame]

/-- A file of `size` bytes that `vhd` takes for a dynamic one, with its table inside. -/
structure DynamicFile (m : Image) (size : Nat) : Prop where
  sector : 512 ≤ size
  header : isVhdHeader m = true
  footer : m.slice 0 512 = m.slice (size - 512) 512
  dynamic : m.getLong 60 = 3
  headerAt : m.getLong 20 ≠ 0 ∧ m.getLong 20 + 512 ≤ size
  dynamicHeader : isDynamicHeader (fun k => m (m.getLong 20 + k)) = true
  blocksize : m.getLong (m.getLong 20 + 32) ≠ 0
  table : m.getLong (m.getLong 20 + 20) +
    bamsizeOf (virtsizeOf m) (m.getLong (m.getLong 20 + 32)) ≤ min size (2 ^ 32 - 1)

/-- What the view of a dynamic file works with. -/
def dynamicVhd (m tmp : Image) : ZfileVhd :=
  let blocksize := m.getLong (m.getLong 20 + 32)
  let bamoffset := m.getLong (m.getLong 20 + 20)
  let size := bamoffset + bamsizeOf (virtsizeOf m) blocksize
  ⟨virtsizeOf m, bamoffset, blocksize, tmp.blit 0 (m.slice 0 size), size, tmp, -1,
    (blocksize / (8 * 512) + 511) / 512 * 512⟩

/-- `vhd` makes a view of a dynamic file. -/
theorem Root.vhd_dynamic (hroot : Root (fs.zfile i) content)
    (hfile : DynamicFile content (fs.zfile i).size) (tmp : Image) :
    ∃ z', Root z' content ∧ z'.size = (fs.zfile i).size ∧
      vhd fs tmp i = .ok (fs.next, vhdView (fs.set i z') i (dynamicVhd content tmp)) := by
  obtain ⟨z₁, z₂, hroot₂, hsize₂, -, hvhd⟩ := hroot.vhd_eq hfile.sector tmp
  have hroot₂' : Root ((fs.set i z₂).zfile i) content := by
    rw [Files.set_self]
    exact hroot₂
  generalize hp : tmp.blit 0 (content.slice 0 512) = p at hvhd
  have hagree : Agree content p 0 512 := hp ▸ agree_stored content tmp 512
  obtain ⟨z₃, hroot₃, hsize₃, -, hread₃⟩ := hroot₂'.readSectorAt_eq tmp p
    (content.getLong 20) (by rw [Files.set_self, hsize₂]; exact hfile.headerAt.2)
  rw [Files.set_set] at hread₃
  rw [Files.set_self] at hsize₃
  have hagree' := agree_sector content p (content.getLong 20) 512
  generalize p.blit 0 (content.slice (content.getLong 20) 512) = p' at hread₃ hagree'
  have hroot₃' : Root ((fs.set i z₃).zfile i) content := by
    rw [Files.set_self]
    exact hroot₃
  have hbs : p'.getLong 32 = content.getLong (content.getLong 20 + 32) :=
    getLong_congr hagree' (show 32 + 4 ≤ 512 by decide)
  have hbam : p'.getLong 20 = content.getLong (content.getLong 20 + 20) :=
    getLong_congr hagree' (show 20 + 4 ≤ 512 by decide)
  have htable := hfile.table
  have hmod : bamsizeOf (virtsizeOf content) (content.getLong (content.getLong 20 + 32)) % 2 ^ 32 =
      bamsizeOf (virtsizeOf content) (content.getLong (content.getLong 20 + 32)) :=
    Nat.mod_eq_of_lt (by omega)
  have hsum : (content.getLong (content.getLong 20 + 20) +
      bamsizeOf (virtsizeOf content) (content.getLong (content.getLong 20 + 32))) % 2 ^ 32 =
      content.getLong (content.getLong 20 + 20) +
        bamsizeOf (virtsizeOf content) (content.getLong (content.getLong 20 + 32)) :=
    Nat.mod_eq_of_lt (by omega)
  obtain ⟨z₄, hroot₄, hsize₄, -, hread₄⟩ := hroot₃'.zfileFread_at tmp tmp 0
    (content.getLong (content.getLong 20 + 20) +
      bamsizeOf (virtsizeOf content) (content.getLong (content.getLong 20 + 32)))
    (by rw [Files.set_self, hsize₃, hsize₂]; omega)
  rw [Files.set_self, Files.set_set, Nat.cast_zero] at hread₄
  rw [Files.set_self] at hsize₄
  have hheader : ¬ isVhdHeader content = false := by rw [hfile.header]; decide
  have hdynamic : ¬ isDynamicHeader p' = false := by
    rw [isDynamicHeader_congr hagree', hfile.dynamicHeader]
    decide
  have htype : p.getLong 60 = 3 :=
    (getLong_congr hagree (show 60 + 4 ≤ 512 by decide)).trans hfile.dynamic
  have hat : p.getLong 20 = content.getLong 20 :=
    getLong_congr hagree (show 20 + 4 ≤ 512 by decide)
  have hplace : ¬ (content.getLong 20 = 0 ∨ content.getLong 20 ≥ (fs.zfile i).size) := by
    have hlt := hfile.headerAt
    omega
  refine ⟨z₄, hroot₄, hsize₄.trans (hsize₃.trans hsize₂), ?_⟩
  rw [hvhd, if_neg hheader, if_neg (not_not.mpr hfile.footer), vhdType, if_pos htype, hat,
    if_neg hplace, hread₃, ok_bind]
  dsimp only
  rw [if_neg (by decide), vhdDynamic, if_neg hdynamic, hbs, if_neg hfile.blocksize, hbam,
    virtsizeOf_congr hagree]
  dsimp only
  rw [hmod, hsum, Files.set_self, Files.set_set, hread₄, ok_bind]
  dsimp only
  rw [if_neg (not_not.mpr rfl), Files.set_set]
  rfl

/-! ### Runs -/

/-- The part of the invariant for `openVhd`. -/
theorem Inv.looked (h : Inv s) {z : Nat} (hz : z < s.files.next) (view : Image)
    (hlooked : Looked s.files fs' z) : Inv ⟨fs', Function.update s.views s.files.next view⟩ := by
  obtain ⟨fs₁, hmoved, hview⟩ := hlooked
  have h₁ : Inv ⟨fs₁, s.views⟩ := Inv.of_moved h hmoved
  rcases hview with rfl | ⟨v, rfl⟩
  · intro j hj
    have hlt : j < s.files.next := hmoved.next ▸ hj
    refine (h₁ j hj).congr hj (Nat.le_refl _) (fun _ _ => rfl) fun k hk => ?_
    exact Function.update_of_ne (Nat.ne_of_lt (hmoved.next ▸ hk)) view s.views
  · have hopen := h₁.openVhd (hmoved.next ▸ hz : z < fs₁.next) v view
    rw [hmoved.next] at hopen
    exact hopen

theorem step_inv (h : Inv s) {op : Op} (hallowed : Allowed s op) (hplain : NotOnVhd s op)
    (hstep : step s op = .ok s') : Inv s' := by
  cases op with
  | openFile image length =>
    cases hstep
    refine h.add _ image (.root ⟨?_, ?_, .inl ⟨?_, ?_, ⟨image, length, 0⟩, ?_, ?_, ?_⟩⟩ ?_)
    all_goals simp [State.add, s.files.add_new, Zfile.created]
  | openData data size =>
    cases hstep
    refine h.add _ data (.root ⟨?_, ?_, .inr ⟨?_, ?_⟩⟩ ?_)
    all_goals simp [State.add, s.files.add_new, Zfile.created]
  | openWindow z offset size =>
    cases hstep
    exact h.openWindow hallowed.1 hallowed.2 hplain
  | openVhd z tmp =>
    obtain ⟨⟨k, files⟩, hvhd, hstep⟩ := ok_of_bind hstep
    cases hstep
    exact h.looked hallowed _ (vhd_looked (h z hallowed) hvhd)
  | seek z offset mode =>
    cases hstep
    exact Inv.of_moved h ((h z hallowed).fseek_moved offset mode)
  | read z l1 l2 tmp b =>
    obtain ⟨⟨b', ret, files⟩, hread, hstep⟩ := ok_of_bind hstep
    cases hstep
    exact Inv.of_moved h ((h z hallowed).fread_moved hread)

/-- Operations on other zfiles leave the position of a window. -/
theorem step_stays (h : Inv s) (hi : i < s.files.next) (hwindow : (s.files.zfile i).IsWindow)
    {op : Op} (hallowed : Allowed s op) (hstep : step s op = .ok s') (hon : op.on ≠ some i) :
    (s'.files.zfile i).seek = (s.files.zfile i).seek := by
  have hparent : (s.files.zfile i).parent ≠ none := fun hnone => by
    have hsome := hwindow.1
    rw [hnone] at hsome
    cases hsome
  have hother : ∀ {z : Nat} {fs : Files}, op.on = some z → Moved s.files fs z →
      (fs.zfile i).seek = (s.files.zfile i).seek := fun hz hm => by
    rw [hm.others i (fun heq => hon (heq ▸ hz)) hparent]
  cases op with
  | openFile image length =>
    cases hstep
    rw [State.add, s.files.add_old _ hi]
  | openData data size =>
    cases hstep
    rw [State.add, s.files.add_old _ hi]
  | openWindow z offset size =>
    cases hstep
    rw [State.add, s.files.add_old _ hi]
  | openVhd z tmp =>
    obtain ⟨⟨k, files⟩, hvhd, hstep⟩ := ok_of_bind hstep
    cases hstep
    obtain ⟨fs₁, hmoved, rfl | ⟨v, rfl⟩⟩ := vhd_looked (h z hallowed) hvhd
    · exact hother rfl hmoved
    · change ((vhdView fs₁ z v).zfile i).seek = _
      rw [vhdView, fs₁.add_old _ (hmoved.next ▸ hi)]
      exact hother rfl hmoved
  | seek z offset mode =>
    cases hstep
    exact hother rfl ((h z hallowed).fseek_moved offset mode)
  | read z l1 l2 tmp b =>
    obtain ⟨⟨b', ret, files⟩, hread, hstep⟩ := ok_of_bind hstep
    cases hstep
    exact hother rfl ((h z hallowed).fread_moved hread)

theorem Inv.readsView (h : Inv s) (hi : i < s.files.next) (hwindow : (s.files.zfile i).IsWindow) :
    ReadsView s i := by
  refine ⟨fun tmp b l1 l2 => ?_, fun op s' => step_stays h hi hwindow⟩
  cases h i hi with
  | root hroot user =>
    have hsome := hwindow.1
    rw [hroot.parent] at hsome
    cases hsome
  | window p parent inside root data user useparent seek room view =>
    obtain ⟨ret, zp', hread, hret, -⟩ := windowFread_spec _ root seek room view b l1 l2
    have hbytes := mul_itemsInside seek l1 l2
    have hwhole := itemsInside_le seek l1 l2
    rw [hbytes] at hread hwhole
    refine ⟨ret, _, (zfileFread_window parent user data useparent tmp b l1 l2).trans
      (congrArg _ hread), fun hl1 => ?_, ?_, ?_⟩
    · rw [hret hl1, itemsInside_eq seek hl1]
    · rw [Files.set_self]
    · rw [Files.set_self]
      exact hwhole
  | vhd p parent inside root user =>
    rw [hwindow.2] at user
    cases user

theorem inv_reachable (h : windowMachine.Reachable State.empty s) : Inv s :=
  h.induct (fun hs hlegal hstep => step_inv hs hlegal.1 hlegal.2 hstep)
    fun i hi => absurd hi (Nat.not_lt_zero i)

/-- In every run that opens no window on a VHD view, windows read what they show. -/
theorem windows_read_views (hreach : windowMachine.Reachable State.empty s) {i : Nat}
    (hi : i < s.files.next) (hwindow : (s.files.zfile i).IsWindow) : ReadsView s i :=
  (inv_reachable hreach).readsView hi hwindow

theorem windows_read_views_nested : ∃ s, windowMachine.Reachable State.empty s ∧ ReadsView s 2 := by
  have hreach : windowMachine.Reachable State.empty _ :=
    ⟨[.openFile (fun _ => 0) 1024, .openWindow 0 100 50, .openWindow 1 10 20],
      .cons ⟨trivial, trivial⟩ rfl (.cons ⟨⟨by decide, by decide⟩, rfl⟩ rfl
        (.cons ⟨⟨by decide, by decide⟩, rfl⟩ rfl (.nil _)))⟩
  exact ⟨_, hreach, windows_read_views hreach (by decide) ⟨rfl, rfl⟩⟩

/-- A dynamic VHD file of two sectors, the second the footer, the header of the table and the
table; its only block is not allocated. -/
def tinyVhd : Image := fun i =>
  ([0xff, 0xff, 0xff, 0xff, 0, 0, 0, 0, 0, 0, 0, 2, 0, 1, 0, 0, 0, 0, 0, 0, 0, 0, 2, 0, 0, 1, 0, 0,
    0, 0, 0, 0, 0, 0x20, 0, 0, 0xff, 0xff, 0xf8, 0x71, 0, 0, 0, 0, 0, 0, 0, 0, 0, 0, 0, 0, 0, 0, 2, 0,
    0, 0, 0, 0, 0, 0, 0, 3, 0xff, 0xff, 0xf8, 0x71] : List Byte).getD (i % 512) 0

theorem tinyVhd_dynamic : DynamicFile tinyVhd 1024 := by
  refine ⟨by decide, by decide +kernel, ?_, by decide, by decide, by decide +kernel, by decide, by decide⟩
  refine List.map_congr_left fun k _ => ?_
  have hmod : (0 + k) % 512 = (1024 - 512 + k) % 512 := by omega
  rw [tinyVhd, tinyVhd, hmod]

theorem tinyVhd_first : tinyVhd 0 = 0xff ∧ virtualDisk tinyVhd 0 = 0 := by
  refine ⟨by decide, by decide +kernel⟩

/-- A window on the virtual disk in a VHD file reads the file. -/
theorem window_on_vhd_reads_file : ∃ s, fileMachine.Reachable State.empty s ∧ 2 < s.files.next ∧
    (s.files.zfile 2).IsWindow ∧ s.views 2 = (fun k => virtualDisk tinyVhd (0 + k)) ∧
    ¬ ReadsView s 2 := by
  obtain ⟨s₁, hstep₁, hnext, hroot, hsize, hview⟩ : ∃ s₁,
      step State.empty (.openFile tinyVhd 1024) = .ok s₁ ∧ s₁.files.next = 1 ∧
      Root (s₁.files.zfile 0) tinyVhd ∧ (s₁.files.zfile 0).size = 1024 ∧ s₁.views 0 = tinyVhd :=
    ⟨_, rfl, rfl, ⟨rfl, rfl, .inl ⟨rfl, rfl, _, rfl, rfl, rfl⟩⟩, rfl, rfl⟩
  obtain ⟨z', hroot', hsize', hvhd⟩ :=
    hroot.vhd_dynamic (hsize.symm ▸ tinyVhd_dynamic) (fun _ => 0)
  rw [hsize] at hsize'
  obtain ⟨s₂, hstep₂, hnext₂, hzfile, hview₂, hparent, hoffset, hwide⟩ : ∃ s₂,
      step s₁ (.openVhd 0 fun _ => 0) = .ok s₂ ∧ s₂.files.next = 2 ∧ s₂.files.zfile 0 = z' ∧
      s₂.views 1 = virtualDisk tinyVhd ∧ (s₂.files.zfile 1).parent = some 0 ∧
      (s₂.files.zfile 1).offset = 0 ∧ (s₂.files.zfile 1).size = 512 := by
    have hset : ((s₁.files.set 0 z').zfile 0).parent = none := by
      rw [Files.set_self]
      exact hroot'.parent
    have hin : 0 < (s₁.files.set 0 z').next := hnext ▸ Nat.zero_lt_one
    have hclimb := climb_root hin hset 0
    have hnew := (s₁.files.set 0 z').add_new { zfileFopenParent (s₁.files.set 0 z') 0 0
      (dynamicVhd tinyVhd fun _ => 0).virtsize with
        useparent := false
        dataseek := true
        userdata := some (dynamicVhd tinyVhd fun _ => 0) }
    have hold := (s₁.files.set 0 z').add_old { zfileFopenParent (s₁.files.set 0 z') 0 0
      (dynamicVhd tinyVhd fun _ => 0).virtsize with
        useparent := false
        dataseek := true
        userdata := some (dynamicVhd tinyVhd fun _ => 0) } (j := 0) (hnext ▸ Nat.zero_lt_one)
    have hone : (s₁.files.set 0 z').next = 1 := hnext
    rw [hone] at hnew
    refine ⟨_, by rw [step, hvhd]; rfl, congrArg (· + 1) hnext, hold.trans (Files.set_self _ _ _),
      ?_, ?_, ?_, ?_⟩
    · change Function.update s₁.views s₁.files.next (virtualDisk (s₁.views 0)) 1 = _
      rw [hnext, Function.update_self, hview]
    · exact (congrArg Zfile.parent hnew).trans (congrArg (fun r : Nat × Nat => some r.1) hclimb)
    · exact (congrArg Zfile.offset hnew).trans (congrArg Prod.snd hclimb)
    · exact (congrArg Zfile.size hnew).trans (show virtsizeOf tinyVhd = 512 by decide)
  have hroot₂ : Root (s₂.files.zfile 0) tinyVhd := hzfile ▸ hroot'
  have hin : 1 < s₂.files.next := hnext₂ ▸ Nat.one_lt_two
  have hclimb := climb_view hin hparent (hnext₂ ▸ Nat.zero_lt_two) hroot₂ 0
  have hnew := s₂.files.add_new (zfileFopenParent s₂.files 1 0 512)
  have hold := s₂.files.add_old (zfileFopenParent s₂.files 1 0 512) (j := 0)
    (hnext₂ ▸ Nat.zero_lt_two)
  rw [hnext₂] at hnew
  have hviews : (s₂.add (zfileFopenParent s₂.files 1 0 512) fun k => s₂.views 1 (0 + k)).views 2 =
      fun k => virtualDisk tinyVhd (0 + k) := by
    change Function.update s₂.views s₂.files.next _ 2 = _
    rw [hnext₂, Function.update_self, hview₂]
  refine ⟨s₂.add (zfileFopenParent s₂.files 1 0 512) fun k => s₂.views 1 (0 + k), ?_,
    ?_, ?_, hviews, ?_⟩
  · exact ⟨[.openFile tinyVhd 1024, .openVhd 0 fun _ => 0, .openWindow 1 0 512],
      .cons trivial hstep₁ (.cons (show 0 < s₁.files.next from hnext ▸ Nat.zero_lt_one) hstep₂ (.cons
        ⟨show 1 < s₂.files.next from hnext₂ ▸ Nat.one_lt_two,
          show 0 + 512 ≤ (s₂.files.zfile 1).size from hwide.symm ▸ Nat.le_refl 512⟩ rfl (.nil _)))⟩
  · change 2 < s₂.files.next + 1
    omega
  · change Zfile.IsWindow ((s₂.files.add _).zfile 2)
    rw [hnew]
    exact ⟨rfl, rfl⟩
  · intro hreads
    obtain ⟨ret, files, hread, -⟩ := hreads.read (fun _ => 0) (fun _ => 0) 1 1
    generalize hs₃ : (s₂.add (zfileFopenParent s₂.files 1 0 512) fun k => s₂.views 1 (0 + k)) = s₃
      at hread hviews
    have hzero : s₃.files.zfile 0 = z' := hs₃ ▸ hold.trans hzfile
    have htwo : s₃.files.zfile 2 = zfileFopenParent s₂.files 1 0 512 := hs₃ ▸ hnew
    have hoffset₃ : (s₃.files.zfile 2).offset = 0 := by
      rw [htwo]
      exact (congrArg Prod.snd hclimb).trans ((Nat.zero_add _).trans hoffset)
    have hseek₃ : (s₃.files.zfile 2).seek = 0 := htwo ▸ rfl
    have hsize₃ : (s₃.files.zfile 2).size = 512 := htwo ▸ rfl
    obtain ⟨ret', zp', hfile, -⟩ := windowFread_spec (i := 2) (fun _ => tinyVhd)
      (show Root (s₃.files.zfile 0) tinyVhd from hzero ▸ hroot') (by rw [hseek₃]; exact Nat.zero_le _)
      (by rw [hoffset₃, hsize₃, hzero, hsize']; decide)
      (fun k _ => by rw [hoffset₃, Nat.zero_add]) (fun _ => 0) 1 1
    rw [zfileFread_window (p := 0) (by rw [htwo]; exact congrArg (fun r : Nat × Nat => some r.1) hclimb)
      (htwo ▸ rfl) (htwo ▸ rfl) (htwo ▸ rfl), hfile, hseek₃, hsize₃, hviews] at hread
    have hbytes := congrFun (congrArg Prod.fst (Except.ok.inj hread)) 0
    have hbyte : ∀ m : Image, blit (fun _ => 0) 0 (m.slice 0 1) 0 = m 0 := fun m => by
      simp [blit, slice]
    obtain ⟨hfirst, hvirtual⟩ := tinyVhd_first
    rw [show 1 * itemsInside 512 0 1 1 = 1 by decide,
      show 1 * min 1 ((512 - 0) / 1) = 1 by decide] at hbytes
    dsimp only at hbytes
    rw [hbyte, hbyte, hfirst, Nat.zero_add, hvirtual] at hbytes
    revert hbytes
    decide

end LibretroUae.Storage
