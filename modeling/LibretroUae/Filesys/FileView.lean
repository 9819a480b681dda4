import LibretroUae.Filesys.FileHandles
import Mathlib.Data.List.Basic
import Mathlib.Logic.Function.Basic

/-!
# LibretroUae.Filesys.FileView

**A handle is a file of bytes with a position.** What a packet may do to it, when the handlers keep
to that, and what transfers in chunks come to.
-/

namespace LibretroUae.Filesys

/-! ### Files of bytes -/

/-- A handle as its client sees it. -/
structure Handle where
  file : Nat
  pos : Nat
  write : Bool
  deriving DecidableEq

/-- What clients see of a unit. -/
structure FileView where
  contents : List HostFile
  handles : UInt32 → Option Handle
  writeprotected : Bool

def IoReply.Failed : IoReply → Prop
  | .failed _ => True
  | _ => False

/-- Something that the host does for a transfer fails. -/
def HostTransfer.Fails (host : HostTransfer) : Prop :=
  host.seek = false ∨ host.allocated = false ∨ none ∈ host.calls

/-- How much one call is asked for. -/
def HostTransfer.chunk (host : HostTransfer) (size : Nat) : Nat :=
  if host.validAddress size && host.indirect then trapDataExtraSize else size

/-- Some of the bytes that can be moved are, and no call that was made failed. -/
structure HostTransfer.Moves (host : HostTransfer) (limit n : Nat) : Prop where
  le : n ≤ limit
  calls : ∀ j, j * host.chunk limit < limit → j * host.chunk limit ≤ n → host.calls[j]? ≠ some none

namespace FileView

def content (v : FileView) (file : Nat) : HostFile := v.contents[file]?.getD []

def move (v : FileView) (fh : UInt32) (h : Handle) (pos : Nat) : FileView :=
  { v with handles := Function.update v.handles fh (some { h with pos }) }

def setContent (v : FileView) (file : Nat) (f : HostFile) : FileView :=
  { v with contents := v.contents.set file f }

/-- A seek is rejected, or moves the handle into the file. -/
def Seeks (v : FileView) (fh : UInt32) (pos mode : Int) (host : HostSeek) (reply : Handle → IoReply)
    (r : IoReply) (v' : FileView) : Prop :=
  match v.handles fh with
  | none => r.Failed ∧ v' = v
  | some h =>
    let target := ((whenceOf mode).base (v.content h.file).length h.pos : Int) + pos
    (r.Failed ∧ v' = v ∧ (target < 0 ∨ (v.content h.file).length < target ∨ host.seek = false ∨
        IoUnit.maxFileSize32 < h.pos)) ∨
      0 ≤ target ∧ target ≤ (v.content h.file).length ∧ r = reply h ∧
        v' = v.move fh h target.toNat

/-- What a packet may do. -/
def Step (v : FileView) (r : IoReply) (v' : FileView) : IoEvent → Prop
  | .find kind target _ =>
    (r.Failed ∧ v' = v) ∨ ∃ fh file write, r = .opened fh ∧ v.handles fh = none ∧
      v'.handles = Function.update v.handles fh (some ⟨file, 0, write⟩) ∧
      v'.writeprotected = v.writeprotected ∧
      (target = some file ∧ file < v.contents.length ∧
          v'.contents = (if kind = .output then v.contents.set file [] else v.contents) ∨
        target = none ∧ kind ≠ .input ∧ file = v.contents.length ∧
          v'.contents = v.contents ++ [[]])
  | .fileEnd fh => r = .done ∧ v' = { v with handles := Function.update v.handles fh none }
  | .read fh size host =>
    match v.handles fh with
    | none => r.Failed ∧ v' = v
    | some h =>
      let f := v.content h.file
      (r.Failed ∧ v' = v ∧ host.Fails) ∨ ∃ n, host.Moves (min size.toNat (f.length - h.pos)) n ∧
        r = .read ((f.drop h.pos).take n) ∧ v' = v.move fh h (h.pos + n)
  | .write fh data host =>
    match v.handles fh with
    | none => r.Failed ∧ v' = v
    | some h =>
      let f := v.content h.file
      ∃ n, n ≤ data.length ∧
        (r.Failed ∧ v' = v.setContent h.file (f.overwrite h.pos (data.take n)) ∧
            (host.Fails ∨ v.writeprotected = true ∨ h.write = false) ∨
          host.Moves data.length n ∧ r = .written n ∧
            v' = (v.setContent h.file (f.overwrite h.pos (data.take n))).move fh h (h.pos + n))
  | .seek fh pos mode host => v.Seeks fh pos mode host (fun h => .position h.pos) r v'
  | .seek64 p host =>
    v.Seeks p.arg1 (p.quad p.arg2) p.arg3.toInt32.toInt host (fun h => .stored p.arg4 h.pos) r v'
  | .changeFilePosition64 fh pos mode host => v.Seeks fh pos mode host (fun _ => .done) r v'
  | .getFilePosition64 fh =>
    v' = v ∧ match v.handles fh with
      | none => r.Failed
      | some h => r = .position h.pos
  | .shorten file n => r = .done ∧ v' = v.setContent file ((v.content file).take n)

/-- Runs of packets with their replies. -/
inductive Run : FileView → List IoEvent → List IoReply → FileView → Prop
  | nil (v : FileView) : Run v [] [] v
  | cons {v v' v'' : FileView} {e : IoEvent} {es : List IoEvent} {r : IoReply}
      {rs : List IoReply} : Step v r v' e → Run v' es rs v'' → Run v (e :: es) (r :: rs) v''

end FileView

def IoKey.handle (k : IoKey) : Handle := ⟨k.aino, k.filePos.toNat, k.fdWrite⟩

namespace IoUnit

def view (u : IoUnit) : FileView where
  contents := u.files.map IoFile.content
  handles := fun fh => (u.lookupKey fh).map IoKey.handle
  writeprotected := u.writeprotected

/-! ### When it works -/

/-- A seek from the position of a handle needs the descriptor to be there, and one that is made
needs the host to tell the new position. -/
def SeekCareful (u : IoUnit) (fh : UInt32) (pos mode : Int) (host : HostSeek) : Prop :=
  ∀ k, u.lookupKey fh = some k →
    seekTarget k (u.content k.aino).length pos (whenceOf mode) ≤ (u.content k.aino).length →
      host.seek = true → (whenceOf mode = .cur → k.fdPos = k.filePos) ∧
        (0 ≤ seekTarget k (u.content k.aino).length pos (whenceOf mode) → host.tell = true)

instance (u : IoUnit) (fh : UInt32) (pos mode : Int) (host : HostSeek) :
    Decidable (u.SeekCareful fh pos mode host) :=
  decidable_of_iff (∀ k ∈ u.lookupKey fh,
    seekTarget k (u.content k.aino).length pos (whenceOf mode) ≤ (u.content k.aino).length →
      host.seek = true → (whenceOf mode = .cur → k.fdPos = k.filePos) ∧
        (0 ≤ seekTarget k (u.content k.aino).length pos (whenceOf mode) → host.tell = true))
    Iff.rfl

def Careful (u : IoUnit) : IoEvent → Prop
  | .find kind target opened =>
    (∀ k ∈ u.keys, k.uniq ≠ u.keyUniq + 1) ∧
      (kind = .write → opened = true → ∀ file, target = some file → u.content file = [])
  | .read fh size host =>
    ∀ k, u.lookupKey fh = some k → host.seek = true →
      host.validAddress (readSize (u.content k.aino) k size.toNat) = true → none ∉ host.calls
  | .write _ data host =>
    host.validAddress data.length = true → host.indirect = true → data.length < 2147483648
  | .seek fh pos mode host => u.SeekCareful fh pos mode host
  | .seek64 p host =>
    p.quad p.arg7 = p.quad p.arg2 ∧ p.arg3 = p.arg4 ∧
      u.SeekCareful p.arg1 (p.quad p.arg2) p.arg3.toInt32.toInt host
  | .changeFilePosition64 fh pos mode host => u.SeekCareful fh pos mode host
  | _ => True

instance (u : IoUnit) : (e : IoEvent) → Decidable (u.Careful e)
  | .find kind target opened => decidable_of_iff ((∀ k ∈ u.keys, k.uniq ≠ u.keyUniq + 1) ∧
      (kind = .write → opened = true → ∀ file ∈ target, u.content file = [])) Iff.rfl
  | .read fh size host => decidable_of_iff (∀ k ∈ u.lookupKey fh, host.seek = true →
      host.validAddress (readSize (u.content k.aino) k size.toNat) = true → none ∉ host.calls)
      Iff.rfl
  | .write _ data host => inferInstanceAs (Decidable (host.validAddress data.length = true →
      host.indirect = true → data.length < 2147483648))
  | .seek fh pos mode host => inferInstanceAs (Decidable (u.SeekCareful fh pos mode host))
  | .seek64 p host => inferInstanceAs (Decidable (p.quad p.arg7 = p.quad p.arg2 ∧
      p.arg3 = p.arg4 ∧ u.SeekCareful p.arg1 (p.quad p.arg2) p.arg3.toInt32.toInt host))
  | .changeFilePosition64 fh pos mode host =>
    inferInstanceAs (Decidable (u.SeekCareful fh pos mode host))
  | .fileEnd _ | .getFilePosition64 _ | .shorten .. => .isTrue trivial

/-- Every packet of a run is. -/
def CarefulRun (u : IoUnit) : List IoEvent → Prop
  | [] => True
  | e :: es => u.Careful e ∧ (u.step e).1.CarefulRun es

instance CarefulRun.decidable :
    (u : IoUnit) → (es : List IoEvent) → Decidable (u.CarefulRun es)
  | _, [] => .isTrue trivial
  | u, e :: es =>
    have := CarefulRun.decidable (u.step e).1 es
    inferInstanceAs (Decidable (u.Careful e ∧ (u.step e).1.CarefulRun es))

/-- Handles have different numbers, and positions that are not negative. -/
structure KeysSound (keys : List IoKey) : Prop where
  nonneg : ∀ k ∈ keys, 0 ≤ k.filePos
  distinct : (keys.map IoKey.uniq).Nodup

def Positions (u : IoUnit) : Prop := KeysSound u.keys

end IoUnit

/-! ### Bytes -/

theorem hostMove_le {asked available n : Nat} {call : Option Nat}
    (h : hostMove asked available call = some n) : n ≤ asked ∧ n ≤ available := by
  obtain ⟨m, -, rfl⟩ := Option.map_eq_some_iff.mp h
  omega

theorem head_ne_none {calls : List (Option Nat)} {asked available n : Nat}
    (h : hostMove asked available (calls.headD (some maxTransfer)) = some n) :
    calls[0]? ≠ some none := by
  intro hnone
  rw [List.headD_eq_head?_getD, List.head?_eq_getElem?, hnone] at h
  cases h

theorem none_mem_of_head {calls : List (Option Nat)} {asked available : Nat}
    (h : hostMove asked available (calls.headD (some maxTransfer)) = none) : none ∈ calls := by
  cases calls with
  | nil => cases h
  | cons call calls => exact Option.map_eq_none_iff.mp h ▸ List.mem_cons_self

theorem length_padded (f : HostFile) (pos : Nat) :
    ((f ++ List.replicate (pos - f.length) 0).take pos).length = pos := by
  rw [List.length_take, List.length_append, List.length_replicate]
  omega

theorem overwrite_nil (f : HostFile) (pos : Nat) : f.overwrite pos [] = f := if_pos rfl

/-- Writing two pieces one behind the other is writing both at once. -/
theorem overwrite_overwrite (f : HostFile) (pos : Nat) (d d' : List UInt8) :
    (f.overwrite pos d).overwrite (pos + d.length) d' = f.overwrite pos (d ++ d') := by
  by_cases hd : d = []
  · subst hd
    rw [overwrite_nil, List.length_nil, Nat.add_zero, List.nil_append]
  by_cases hd' : d' = []
  · subst hd'
    rw [overwrite_nil, List.append_nil]
  have hfirst : f.overwrite pos d = (f ++ List.replicate (pos - f.length) 0).take pos ++ d ++
      f.drop (pos + d.length) := if_neg hd
  have hlength : pos + d.length ≤ (f.overwrite pos d).length := by
    rw [hfirst, List.length_append, List.length_append, length_padded]
    omega
  have hboth : d ++ d' ≠ [] := fun h => hd (List.append_eq_nil_iff.mp h).1
  rw [HostFile.overwrite, if_neg hd', Nat.sub_eq_zero_of_le hlength, List.replicate_zero,
    List.append_nil, HostFile.overwrite, if_neg hd, HostFile.overwrite, if_neg hboth]
  have htake : pos + d.length =
      ((f ++ List.replicate (pos - f.length) 0).take pos ++ d).length := by
    rw [List.length_append, length_padded]
  rw [htake, List.take_left, ← List.drop_drop, List.drop_left, List.drop_drop, ← htake,
    List.length_append, Nat.add_assoc, List.append_assoc _ d d']

namespace IoUnit

theorem chunk_pos : 0 < trapDataExtraSize := by decide

section

variable {f : HostFile} {pos size n : Nat} {calls : List (Option Nat)}

theorem readChunks_fails (hsize : size ≠ 0)
    (hmove : hostMove (min size trapDataExtraSize) (f.length - pos)
      (calls.headD (some maxTransfer)) = none) :
    readChunks f pos size calls = ([], false) := by
  rw [readChunks, dif_neg hsize]
  simp only [hmove]

theorem readChunks_short (hsize : size ≠ 0)
    (hmove : hostMove (min size trapDataExtraSize) (f.length - pos)
      (calls.headD (some maxTransfer)) = some n) (hshort : n < min size trapDataExtraSize) :
    readChunks f pos size calls = ((f.drop pos).take n, true) := by
  rw [readChunks, dif_neg hsize]
  simp only [hmove, if_pos hshort]

theorem readChunks_full (hsize : size ≠ 0)
    (hmove : hostMove (min size trapDataExtraSize) (f.length - pos)
      (calls.headD (some maxTransfer)) = some (min size trapDataExtraSize)) :
    readChunks f pos size calls =
      ((f.drop pos).take (min size trapDataExtraSize) ++
        (readChunks f (pos + min size trapDataExtraSize) (size - min size trapDataExtraSize)
          calls.tail).1,
        (readChunks f (pos + min size trapDataExtraSize) (size - min size trapDataExtraSize)
          calls.tail).2) := by
  rw [readChunks, dif_neg hsize]
  simp only [hmove, if_neg (Nat.lt_irrefl _)]

/-- Only the first call was made when less than a chunk was moved. -/
theorem call_zero {limit j : Nat} (hn : n < trapDataExtraSize ∨ limit ≤ trapDataExtraSize)
    (hlimit : j * trapDataExtraSize < limit) (hj : j * trapDataExtraSize ≤ n) : j = 0 := by
  have hchunk := chunk_pos
  have hbound : j * trapDataExtraSize < 1 * trapDataExtraSize := by omega
  have hone := Nat.lt_of_mul_lt_mul_right hbound
  omega

/-- What a chunked read delivers. -/
structure ReadChunks (f : HostFile) (pos size : Nat) (calls : List (Option Nat))
    (r : List UInt8 × Bool) : Prop where
  bytes : r.1 = (f.drop pos).take r.1.length
  le : r.1.length ≤ min size (f.length - pos)
  works : none ∉ calls → r.2 = true
  made : r.2 = true → ∀ j, j * trapDataExtraSize < min size (f.length - pos) →
    j * trapDataExtraSize ≤ r.1.length → calls[j]? ≠ some none

theorem readChunks_spec (f : HostFile) (pos size : Nat) (calls : List (Option Nat)) :
    ReadChunks f pos size calls (readChunks f pos size calls) := by
  have hchunk := chunk_pos
  induction size using Nat.strongRecOn generalizing pos calls with
  | ind size ih =>
    by_cases hsize : size = 0
    · subst hsize
      rw [readChunks, dif_pos rfl]
      exact ⟨rfl, Nat.zero_le _, fun _ => rfl, fun _ j hj => by omega⟩
    cases hmove : hostMove (min size trapDataExtraSize) (f.length - pos)
        (calls.headD (some maxTransfer)) with
    | none =>
      rw [readChunks_fails hsize hmove]
      exact ⟨rfl, Nat.zero_le _, fun hok => absurd (none_mem_of_head hmove) hok, nofun⟩
    | some n =>
      obtain ⟨hasked, havailable⟩ := hostMove_le hmove
      have hlength : ((f.drop pos).take n).length = n :=
        List.length_take_of_le (List.length_drop ▸ havailable)
      by_cases hshort : n < min size trapDataExtraSize
      · rw [readChunks_short hsize hmove hshort]
        refine ⟨by rw [hlength], by rw [hlength]; omega, fun _ => rfl, fun _ j hlimit hj => ?_⟩
        rw [hlength] at hj
        obtain rfl := call_zero (.inl (by omega)) hlimit hj
        exact head_ne_none hmove
      obtain rfl : n = min size trapDataExtraSize :=
        Nat.le_antisymm hasked (Nat.le_of_not_lt hshort)
      obtain ⟨hbytes, hle, hworks, hmade⟩ := ih (size - min size trapDataExtraSize) (by omega)
        (pos + min size trapDataExtraSize) calls.tail
      rw [readChunks_full hsize hmove]
      refine ⟨?_, ?_, fun hok => hworks fun hin => hok (List.mem_of_mem_tail hin),
        fun hok j hlimit hj => ?_⟩
      · dsimp only
        rw [List.length_append, hlength, List.take_add, List.drop_drop, ← hbytes]
      · rw [List.length_append, hlength]
        omega
      · rw [List.length_append, hlength] at hj
        cases j with
        | zero => exact head_ne_none hmove
        | succ j =>
          have hnext : (j + 1) * trapDataExtraSize = j * trapDataExtraSize + trapDataExtraSize :=
            Nat.succ_mul _ _
          have hcall := hmade hok j (by omega) (by omega)
          rwa [List.getElem?_tail] at hcall

theorem writeChunks_fails {write : Bool} {data : List UInt8} (hdata : data ≠ [])
    (hmove : hostMove (min data.length trapDataExtraSize) (min data.length trapDataExtraSize)
      (if write then calls.headD (some maxTransfer) else none) = none) :
    writeChunks write f pos data calls = (f, 0, false) := by
  rw [writeChunks, dif_neg hdata]
  simp only [hmove]

theorem writeChunks_short {write : Bool} {data : List UInt8} (hdata : data ≠ [])
    (hmove : hostMove (min data.length trapDataExtraSize) (min data.length trapDataExtraSize)
      (if write then calls.headD (some maxTransfer) else none) = some n)
    (hshort : n < min data.length trapDataExtraSize) :
    writeChunks write f pos data calls = (f.overwrite pos (data.take n), n, true) := by
  rw [writeChunks, dif_neg hdata]
  simp only [hmove, if_pos hshort]

theorem writeChunks_full {write : Bool} {data : List UInt8} (hdata : data ≠ [])
    (hmove : hostMove (min data.length trapDataExtraSize) (min data.length trapDataExtraSize)
      (if write then calls.headD (some maxTransfer) else none) =
        some (min data.length trapDataExtraSize)) :
    writeChunks write f pos data calls =
      let n := min data.length trapDataExtraSize
      let rest := writeChunks write (f.overwrite pos (data.take n)) (pos + n) (data.drop n)
        calls.tail
      (rest.1, n + rest.2.1, rest.2.2) := by
  rw [writeChunks, dif_neg hdata]
  simp only [hmove, if_neg (Nat.lt_irrefl _)]

/-- What a chunked write leaves. -/
structure WriteChunks (write : Bool) (f : HostFile) (pos : Nat) (data : List UInt8)
    (calls : List (Option Nat)) (r : HostFile × Nat × Bool) : Prop where
  content : r.1 = f.overwrite pos (data.take r.2.1)
  le : r.2.1 ≤ data.length
  works : write = true → none ∉ calls → r.2.2 = true
  made : r.2.2 = true → ∀ j, j * trapDataExtraSize < data.length →
    j * trapDataExtraSize ≤ r.2.1 → calls[j]? ≠ some none

theorem writable_of_move {write : Bool} {asked available : Nat}
    (h : hostMove asked available (if write then calls.headD (some maxTransfer) else none) =
      some n) :
    write = true ∧ hostMove asked available (calls.headD (some maxTransfer)) = some n := by
  cases write with
  | false => cases h
  | true => exact ⟨rfl, h⟩

theorem unwritable_of_move {write : Bool} {asked available : Nat}
    (h : hostMove asked available (if write then calls.headD (some maxTransfer) else none) = none) :
    write = false ∨ none ∈ calls := by
  cases write with
  | false => exact .inl rfl
  | true => exact .inr (none_mem_of_head h)

theorem writeChunks_spec (write : Bool) (f : HostFile) (pos : Nat) (data : List UInt8)
    (calls : List (Option Nat)) :
    WriteChunks write f pos data calls (writeChunks write f pos data calls) := by
  have hchunk := chunk_pos
  induction hsize : data.length using Nat.strongRecOn generalizing f pos data calls with
  | ind size ih =>
    by_cases hdata : data = []
    · subst hdata
      rw [writeChunks, dif_pos rfl]
      exact ⟨(overwrite_nil f pos).symm, Nat.zero_le _, fun _ _ => rfl, fun _ j hj =>
        absurd hj (Nat.not_lt_zero _)⟩
    have hpos := List.length_pos_iff.mpr hdata
    cases hmove : hostMove (min data.length trapDataExtraSize) (min data.length trapDataExtraSize)
        (if write then calls.headD (some maxTransfer) else none) with
    | none =>
      rw [writeChunks_fails hdata hmove]
      refine ⟨?_, Nat.zero_le _, fun hwrite hok => ?_, nofun⟩
      · dsimp only
        rw [List.take_zero, overwrite_nil]
      · rcases unwritable_of_move hmove with hno | hin
        · exact absurd hwrite (hno ▸ Bool.false_ne_true)
        · exact absurd hin hok
    | some n =>
      obtain ⟨hwrite, hhead⟩ := writable_of_move hmove
      obtain ⟨hasked, -⟩ := hostMove_le hmove
      by_cases hshort : n < min data.length trapDataExtraSize
      · rw [writeChunks_short hdata hmove hshort]
        refine ⟨rfl, by dsimp only; omega, fun _ _ => rfl, fun _ j hlimit hj => ?_⟩
        dsimp only at hj
        obtain rfl := call_zero (.inl (by omega)) hlimit hj
        exact head_ne_none hhead
      obtain rfl : n = min data.length trapDataExtraSize :=
        Nat.le_antisymm hasked (Nat.le_of_not_lt hshort)
      have htaken : (data.take (min data.length trapDataExtraSize)).length =
          min data.length trapDataExtraSize := List.length_take_of_le (Nat.min_le_left _ _)
      obtain ⟨hcontent, hle, hworks, hmade⟩ := ih _ (by rw [List.length_drop]; omega)
        (f.overwrite pos (data.take (min data.length trapDataExtraSize)))
        (pos + min data.length trapDataExtraSize) (data.drop (min data.length trapDataExtraSize))
        calls.tail rfl
      rw [List.length_drop] at hle hmade
      rw [writeChunks_full hdata hmove]
      refine ⟨?_, ?_, fun hw hok => hworks hw fun hin => hok (List.mem_of_mem_tail hin),
        fun hok j hlimit hj => ?_⟩
      · dsimp only
        have hboth := overwrite_overwrite f pos (data.take (min data.length trapDataExtraSize))
        rw [htaken] at hboth
        rw [hcontent, hboth, List.take_add]
      · dsimp only
        omega
      · dsimp only at hj
        cases j with
        | zero => exact head_ne_none hhead
        | succ j =>
          have hnext : (j + 1) * trapDataExtraSize = j * trapDataExtraSize + trapDataExtraSize :=
            Nat.succ_mul _ _
          have hcall := hmade hok j (by omega) (by omega)
          rwa [List.getElem?_tail] at hcall

end

end IoUnit

end LibretroUae.Filesys
