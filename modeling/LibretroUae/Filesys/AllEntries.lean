import LibretroUae.Filesys.ExamineAll
import Mathlib.Tactic.IntervalCases

/-!
# LibretroUae.Filesys.AllEntries

**Every entry once, inside the buffer.** A record that is written begins where the last one
ends, and is only written when it fits; so the records of a call form a chain in the buffer.
What a listing has not delivered yet is in the slot that its identifier leads to, and the
identifiers of different listings differ, as long as fewer than 2³¹ were given out: a negative
one would ask for a new slot.
-/

namespace LibretroUae.Filesys

open Lib Lib.Image

/-! ### Sizes -/

theorem le_align4 (n : Nat) : n ≤ align4 n := by
  rw [align4]
  omega

section

variable {type exp : Nat} {e : ExAllEntry} {m m' : Image}

/-- The longwords of a record are at the indices of its fixed part. -/
theorem exallRows_index (h1 : 1 ≤ type) (h8 : type ≤ 8) :
    (exallRows type exp e).map Prod.fst = List.range (headerSize type / 4) := by
  interval_cases type <;> rfl

theorem headerSize_eq (h1 : 1 ≤ type) (h8 : type ≤ 8) :
    headerSize type = headerSize type / 4 * 4 := by
  interval_cases type <;> rfl

theorem exallRow_inside (h1 : 1 ≤ type) (h8 : type ≤ 8) {row : Nat × Nat}
    (hrow : row ∈ exallRows type exp e) : row.1 * 4 + 4 ≤ headerSize type := by
  have hindex := List.mem_map_of_mem (f := Prod.fst) hrow
  rw [exallRows_index h1 h8, List.mem_range] at hindex
  have hsize := headerSize_eq h1 h8
  omega

theorem name_inside (h1 : 1 ≤ type) :
    headerSize type + e.aname.length + 1 ≤ recordSize type e := by
  have hname := le_align4 (e.aname.length + 1)
  have hboth := le_align4 (align4 (e.aname.length + 1) + (e.comment.length + 1))
  rw [recordSize, stringsSize, if_pos h1]
  split_ifs <;> omega

theorem comment_inside (h6 : 6 ≤ type) :
    headerSize type + e.aname.length + 1 + (e.comment.length + 1) ≤ recordSize type e := by
  have hname := le_align4 (e.aname.length + 1)
  have hboth := le_align4 (align4 (e.aname.length + 1) + (e.comment.length + 1))
  rw [recordSize, stringsSize, if_pos h6, if_pos (by omega)]
  omega

theorem four_le_headerSize (type : Nat) : 4 ≤ headerSize type := by
  simp only [headerSize, Nat.add_assoc]
  exact Nat.le_add_right _ _

/-! ### One record -/

/-- A record at an address, except for the link to the next. -/
structure RecordAt (m : Image) (type exp : Nat) (e : ExAllEntry) : Prop where
  fields : ∀ row ∈ exallRows type exp e, row.1 ≠ 0 →
    m.getLong (exp + row.1 * 4) = row.2 % 2 ^ 32
  name : m.slice (exp + headerSize type) (e.aname.length + 1) = e.aname ++ [0]
  comment : 6 ≤ type → m.slice (exp + headerSize type + e.aname.length + 1)
    (e.comment.length + 1) = e.comment ++ [0]

theorem RecordAt.agree (h : RecordAt m type exp e) (h1 : 1 ≤ type) (h8 : type ≤ 8)
    (hagree : m.Agree m' (exp + 4) (recordSize type e - 4)) : RecordAt m' type exp e := by
  have hheader := four_le_headerSize type
  have hname := name_inside (e := e) h1
  refine ⟨fun row hrow hne => ?_, ?_, fun h6 => ?_⟩
  · have hinside := exallRow_inside h1 h8 hrow
    rw [(hagree.mono (by omega) (by omega)).getLong]
    exact h.fields row hrow hne
  · rw [(hagree.mono (by omega) (by omega)).slice]
    exact h.name
  · have hcomment := comment_inside (e := e) h6
    rw [(hagree.mono (by omega) (by omega)).slice]
    exact h.comment h6

/-- The strings of a record are written behind its fixed part. -/
theorem agree_putStrings (h1 : 1 ≤ type) {off len : Nat}
    (h : off + len ≤ exp + headerSize type ∨ exp + recordSize type e ≤ off) :
    m.Agree (putStrings m type exp e) off len := by
  have hname := name_inside (e := e) h1
  rw [putStrings]
  split_ifs with h6
  · have hcomment := comment_inside (e := e) h6
    refine ((agree_blit ?_).trans (agree_blit ?_)).trans (agree_blit ?_) <;>
      simp only [List.length_append, List.length_singleton] <;> omega
  · refine agree_blit ?_
    simp only [List.length_append, List.length_singleton]
    omega

theorem slice_putStrings_name :
    (putStrings m type exp e).slice (exp + headerSize type) (e.aname.length + 1) =
      e.aname ++ [0] := by
  have hlength : e.aname.length + 1 = (e.aname ++ [0]).length := by simp
  rw [putStrings]
  split_ifs with h6
  · rw [(agree_blit (.inl (by omega))).slice, (agree_blit (.inl (by omega))).slice, hlength,
      slice_blit]
  · rw [hlength, slice_blit]

theorem slice_putStrings_comment (h6 : 6 ≤ type) :
    (putStrings m type exp e).slice (exp + headerSize type + e.aname.length + 1)
      (e.comment.length + 1) = e.comment ++ [0] := by
  have hlength : e.comment.length + 1 = (e.comment ++ [0]).length := by simp
  rw [putStrings, if_pos h6, hlength, slice_blit]

/-- The record as `exalldo` writes it, with its link. -/
theorem recordAt_write (h1 : 1 ≤ type) (h8 : type ≤ 8) :
    RecordAt (putStrings (m.putLongs exp (exallRows type exp e)) type exp e) type exp e ∧
      (putStrings (m.putLongs exp (exallRows type exp e)) type exp e).getLong exp =
        (exp + recordSize type e) % 2 ^ 32 := by
  have hnodup : ((exallRows type exp e).map Prod.fst).Nodup := by
    rw [exallRows_index h1 h8]
    exact List.nodup_range
  have hrow : ∀ row ∈ exallRows type exp e,
      (putStrings (m.putLongs exp (exallRows type exp e)) type exp e).getLong (exp + row.1 * 4) =
        row.2 % 2 ^ 32 := by
    intro row hrow
    have hinside := exallRow_inside h1 h8 hrow
    rw [(agree_putStrings h1 (.inl (by omega))).getLong, getLong_putLongs, field_of_mem hnodup hrow]
    rfl
  refine ⟨⟨fun row hr _ => hrow row hr, slice_putStrings_name,
    fun h6 => slice_putStrings_comment h6⟩, ?_⟩
  have hlink : (0, exp + recordSize type e) ∈ exallRows type exp e :=
    List.mem_filterMap.mpr ⟨(0, 0, exp + recordSize type e), List.mem_cons_self,
      if_pos (Nat.zero_le type)⟩
  simpa only [Nat.zero_mul, Nat.add_zero] using hrow _ hlink

end

/-! ### The records of a call -/

/-- Records one after another, linked to what follows the last one. -/
def OpenChain (m : Image) (type : Nat) : Nat → List ExAllEntry → Nat → Prop
  | exp, [], stop => exp = stop
  | exp, e :: rest, stop => RecordAt m type exp e ∧ m.getLong exp = exp + recordSize type e ∧
    OpenChain m type (exp + recordSize type e) rest stop

/-- Records one after another inside a buffer, the last one without a link; their strings are
inside the records. -/
def Filled (m : Image) (type stop : Nat) : Nat → List ExAllEntry → Prop
  | _, [] => True
  | exp, e :: rest => RecordAt m type exp e ∧
    headerSize type + e.aname.length + 1 ≤ recordSize type e ∧
    (6 ≤ type → headerSize type + e.aname.length + 1 + (e.comment.length + 1) ≤
      recordSize type e) ∧
    exp + recordSize type e ≤ stop ∧
    m.getLong exp = (if rest = [] then 0 else exp + recordSize type e) ∧
    Filled m type stop (exp + recordSize type e) rest

section

variable {type exp stop : Nat} {e : ExAllEntry} {es : List ExAllEntry} {m m' : Image}

theorem OpenChain.le (h : OpenChain m type exp es stop) : exp + es.length * 4 ≤ stop := by
  induction es generalizing exp with
  | nil => exact Nat.le_of_eq h
  | cons e es ih =>
    have hrest := ih h.2.2
    have hheader := four_le_headerSize type
    rw [recordSize] at hrest
    rw [List.length_cons]
    omega

theorem OpenChain.agree (h : OpenChain m type exp es stop) (h1 : 1 ≤ type) (h8 : type ≤ 8)
    (hagree : m.Agree m' exp (stop - exp)) : OpenChain m' type exp es stop := by
  induction es generalizing exp with
  | nil => exact h
  | cons e es ih =>
    obtain ⟨hrecord, hlink, hrest⟩ := h
    have hle := hrest.le
    have hheader := four_le_headerSize type
    have hsize : headerSize type ≤ recordSize type e := Nat.le_add_left _ _
    refine ⟨hrecord.agree h1 h8 (hagree.mono (by omega) (by omega)), ?_,
      ih hrest (hagree.mono (by omega) (by omega))⟩
    rw [(hagree.mono (Nat.le_refl _) (by omega)).getLong, hlink]

theorem OpenChain.followNext (h : OpenChain m type exp es stop) :
    followNext m exp es.length = stop := by
  induction es generalizing exp with
  | nil => exact h
  | cons e es ih =>
    rw [List.length_cons, Filesys.followNext, h.2.1]
    exact ih h.2.2

theorem OpenChain.append (h : OpenChain m type exp es stop) (hrecord : RecordAt m type stop e)
    (hlink : m.getLong stop = stop + recordSize type e) :
    OpenChain m type exp (es ++ [e]) (stop + recordSize type e) := by
  induction es generalizing exp with
  | nil =>
    obtain rfl : exp = stop := h
    exact ⟨hrecord, hlink, rfl⟩
  | cons a es ih => exact ⟨h.1, h.2.1, ih h.2.2⟩

/-- The last link is cleared. -/
theorem OpenChain.filled {limit : Nat} (h : OpenChain m type exp es stop) (h1 : 1 ≤ type)
    (h8 : type ≤ 8) (hstop : stop ≤ limit) :
    exp ≤ Filesys.followNext m exp (es.length - 1) ∧
      (es ≠ [] → Filesys.followNext m exp (es.length - 1) + 4 ≤ stop) ∧
      Filled (m.putLong (Filesys.followNext m exp (es.length - 1)) 0) type limit exp es := by
  induction es generalizing exp with
  | nil => exact ⟨Nat.le_refl _, fun hne => absurd rfl hne, trivial⟩
  | cons e es ih =>
    obtain ⟨hrecord, hlink, hrest⟩ := h
    have hle := hrest.le
    have hheader := four_le_headerSize type
    have hsize : headerSize type ≤ recordSize type e := Nat.le_add_left _ _
    cases es with
    | nil =>
      refine ⟨Nat.le_refl _, fun _ => ?_, ?_, name_inside h1, comment_inside, by omega, ?_, trivial⟩
      · change exp + 4 ≤ stop
        omega
      · exact hrecord.agree h1 h8 (agree_putLong (.inr (Nat.le_refl _)))
      · exact getLong_putLong m exp 0
    | cons a es =>
      obtain ⟨hge, hend, hfilled⟩ := ih hrest
      have hsame : Filesys.followNext m exp ((e :: a :: es).length - 1) =
          Filesys.followNext m (exp + recordSize type e) ((a :: es).length - 1) := by
        rw [List.length_cons, Nat.add_sub_cancel, List.length_cons, Filesys.followNext, hlink,
          Nat.add_sub_cancel]
      rw [hsame]
      refine ⟨by omega, fun _ => hend (List.cons_ne_nil _ _), ?_, name_inside h1, comment_inside,
        by omega, ?_, hfilled⟩
      · exact hrecord.agree h1 h8 (agree_putLong (.inl (by omega)))
      · rw [(agree_putLong (.inl (by omega))).getLong, hlink, if_neg (List.cons_ne_nil _ _)]

theorem Filled.agree {limit : Nat} (h : Filled m type limit exp es) (h1 : 1 ≤ type)
    (h8 : type ≤ 8) (hexp : exp ≤ limit) (hagree : m.Agree m' exp (limit - exp)) :
    Filled m' type limit exp es := by
  induction es generalizing exp with
  | nil => trivial
  | cons e es ih =>
    obtain ⟨hrecord, hname, hcomment, hend, hlink, hrest⟩ := h
    have hheader := four_le_headerSize type
    have hsize : headerSize type ≤ recordSize type e := Nat.le_add_left _ _
    refine ⟨hrecord.agree h1 h8 (hagree.mono (by omega) (by omega)), hname, hcomment, hend, ?_,
      ih hrest hend (hagree.mono (by omega) (by omega))⟩
    rw [(hagree.mono (Nat.le_refl _) (by omega)).getLong, hlink]

end

/-! ### One entry -/

/-- The records of a call so far, as the control block counts them. -/
structure Partial (m : Image) (c : ExAllCall) (es : List ExAllEntry) (stop : Nat) : Prop where
  chain : OpenChain m c.type c.exalldata es stop
  inside : stop ≤ c.limit
  count : m.getLong c.control = es.length

section

variable {c : ExAllCall} {m m' : Image} {es : List ExAllEntry} {e : ExAllEntry} {stop : Nat}

theorem Partial.fits_iff (h : Partial m c es stop) (hc : c.Sound) :
    (c.exalldata + c.exalldatasize + 2 ^ 32 - followNext m c.exalldata (m.getLong c.control)) %
      2 ^ 32 < recordSize c.type e ↔ c.limit < stop + recordSize c.type e := by
  have hle := h.chain.le
  have hinside := h.inside
  have hlimit := hc.limit
  rw [h.count, h.chain.followNext]
  rw [ExAllCall.limit] at hinside ⊢
  have hmod : (c.exalldata + c.exalldatasize + 2 ^ 32 - stop) % 2 ^ 32 =
      c.exalldata + c.exalldatasize - stop := by omega
  rw [hmod]
  omega

/-- An entry that fits is added. -/
theorem Partial.exalldo (h : Partial m c es stop) (hc : c.Sound)
    (hfits : stop + recordSize c.type e ≤ c.limit) :
    ∃ m', Filesys.exalldo m c e = some m' ∧
      Partial m' c (es ++ [e]) (stop + recordSize c.type e) ∧
      ∀ off len, c.Away off len → m.Agree m' off len := by
  have hle := h.chain.le
  have hlimit := hc.limit
  have hsize : c.limit = c.exalldata + c.exalldatasize := rfl
  have happart := hc.apart
  rw [Filesys.exalldo]
  dsimp only
  rw [if_neg (mt (h.fits_iff hc).mp (by omega)), h.count, h.chain.followNext]
  obtain ⟨hrecord, hlink⟩ := @recordAt_write c.type stop e m hc.type_pos hc.type_le
  have hwrite : ∀ off len, off + len ≤ stop ∨ stop + recordSize c.type e ≤ off →
      m.Agree (putStrings (m.putLongs stop (exallRows c.type stop e)) c.type stop e) off len := by
    intro off len hoff
    have hheader : headerSize c.type ≤ recordSize c.type e := Nat.le_add_left _ _
    refine (agree_putLongs (n := headerSize c.type / 4) (fun row hrow => ?_) ?_).trans
      (agree_putStrings hc.type_pos (by omega))
    · have hinside := exallRow_inside hc.type_pos hc.type_le hrow
      omega
    · omega
  generalize putStrings (m.putLongs stop (exallRows c.type stop e)) c.type stop e = w at *
  have hcount : w.getLong c.control = es.length := by
    rw [(hwrite c.control 4 (by omega)).getLong, h.count]
  have hchain := h.chain.agree hc.type_pos hc.type_le (hwrite _ _ (by omega))
  have hall := hchain.append hrecord (by rw [hlink, Nat.mod_eq_of_lt (by omega)])
  refine ⟨_, rfl, ⟨?_, hfits, ?_⟩, fun off len haway => ?_⟩
  · exact hall.agree hc.type_pos hc.type_le (agree_putLong (by omega))
  · rw [getLong_putLong, hcount, List.length_append, List.length_singleton,
      Nat.mod_eq_of_lt (by omega)]
  · have hoff := haway.1
    have hoff' := haway.2
    exact (hwrite off len (by omega)).trans (agree_putLong (by omega))

end

/-! ### The loop -/

section

variable {lookup : List Byte → Option ExAllEntry} {c : ExAllCall} {m : Image}
  {es : List ExAllEntry} {stop : Nat}

/-- What the loop of `action_examine_all_do` leaves: the entries it delivered and the names left,
the first of which did not fit. -/
structure LoopDone (lookup : List Byte → Option ExAllEntry) (c : ExAllCall)
    (todo : List (List Byte)) (k : ExAllKey) (exallid : UInt32) (m : Image)
    (es : List ExAllEntry) (r : Bool × ExAllKey × UInt32 × Image) : Prop where
  entries : ∃ (names : List (List Byte)) (delivered : List ExAllEntry),
    List.Forall₂ (fun n e => lookup n = some e) names delivered ∧
    todo = names ++ (r.2.1.fn.toList ++ r.2.1.dirhandle.getD []) ∧
    ∃ stop, Partial r.2.2.2 c (es ++ delivered) stop ∧
      ∀ n e, r.2.1.fn = some n → lookup n = some e → c.limit < stop + recordSize c.type e
  opened : r.2.1.dirhandle ≠ none
  more : r.1 = true → r.2.1.fn ≠ none
  finished : r.1 = false → r.2.1.fn = none ∧ r.2.1.dirhandle = some []
  given : exallid.toNat ≤ r.2.2.1.toNat ∧ r.2.2.1.toNat ≤ exallid.toNat + todo.length
  id : r.1 = true → exallid.toNat ≤ r.2.1.id.toNat ∧ r.2.1.id.toNat < r.2.2.1.toNat ∧
    r.2.2.2.getLong (c.control + 4) = r.2.1.id.toNat
  away : ∀ off len, c.Away off len → m.Agree r.2.2.2 off len

theorem examineAllLoop_some {name : List Byte} {rest : List (List Byte)} {k : ExAllKey}
    {exallid : UInt32} {e : ExAllEntry} {m' : Image} (he : lookup name = some e)
    (hm' : exalldo (m.putLong (c.control + 4) exallid.toNat) c e = some m') :
    examineAllLoop lookup c (name :: rest) k exallid m =
      examineAllLoop lookup c rest { k with id := exallid } (exallid + 1) m' := by
  rw [examineAllLoop, he]
  dsimp only
  rw [hm', Option.elim_some]

theorem examineAllLoop_none {name : List Byte} {rest : List (List Byte)} {k : ExAllKey}
    {exallid : UInt32} {e : ExAllEntry} (he : lookup name = some e)
    (hfull : exalldo (m.putLong (c.control + 4) exallid.toNat) c e = none) :
    examineAllLoop lookup c (name :: rest) k exallid m =
      (true, { k with id := exallid, dirhandle := some rest, fn := some name }, exallid + 1,
        m.putLong (c.control + 4) exallid.toNat) := by
  rw [examineAllLoop, he]
  dsimp only
  rw [hfull, Option.elim_none]

theorem examineAllLoop_done (hc : c.Sound) {todo : List (List Byte)} {k : ExAllKey}
    {exallid : UInt32} (hvalid : ∀ n ∈ todo, ∃ e, lookup n = some e)
    (hbound : exallid.toNat + todo.length < 2 ^ 31) (h : Partial m c es stop) :
    LoopDone lookup c todo k exallid m es (examineAllLoop lookup c todo k exallid m) := by
  induction todo generalizing k exallid m es stop with
  | nil =>
    have hr : examineAllLoop lookup c [] k exallid m =
        (false, { k with dirhandle := some [], fn := none }, exallid, m) := rfl
    rw [hr]
    refine ⟨⟨[], [], .nil, rfl, stop, ?_, fun _ _ hfn => (nomatch hfn)⟩, Option.some_ne_none _,
      fun hmore => (nomatch hmore), fun _ => ⟨rfl, rfl⟩, ⟨Nat.le_refl _, Nat.le_add_right _ _⟩,
      fun hmore => (nomatch hmore), fun _ _ _ => Agree.refl _ _ _⟩
    rwa [List.append_nil]
  | cons name rest ih =>
    obtain ⟨⟨e, he⟩, hrest⟩ := List.forall_mem_cons.mp hvalid
    have happart := hc.apart
    have hlimit := hc.limit
    have hsize : c.limit = c.exalldata + c.exalldatasize := rfl
    have hid := exallid.toNat_lt
    rw [List.length_cons] at hbound
    have hnext : (exallid + 1).toNat = exallid.toNat + 1 := by
      rw [UInt32.toNat_add, UInt32.toNat_one, Nat.mod_eq_of_lt (by omega)]
    have haway : ∀ off len, c.Away off len →
        m.Agree (m.putLong (c.control + 4) exallid.toNat) off len := fun off len hoff =>
      agree_putLong (hoff.1.imp (fun _ => by omega) (fun _ => by omega))
    have hput : (m.putLong (c.control + 4) exallid.toNat).getLong (c.control + 4) =
        exallid.toNat := by
      rw [getLong_putLong, Nat.mod_eq_of_lt hid]
    have hpart : Partial (m.putLong (c.control + 4) exallid.toNat) c es stop := by
      have hle := h.chain.le
      have hinside := h.inside
      refine ⟨h.chain.agree hc.type_pos hc.type_le (agree_putLong (by omega)), hinside, ?_⟩
      rw [(agree_putLong (by omega)).getLong, h.count]
    by_cases hfits : stop + recordSize c.type e ≤ c.limit
    · obtain ⟨m', hm', hpart', haway'⟩ := hpart.exalldo hc hfits
      rw [examineAllLoop_some he hm']
      have hdone : LoopDone lookup c rest { k with id := exallid } (exallid + 1) m' (es ++ [e]) _ :=
        ih hrest (by omega) hpart'
      obtain ⟨names, delivered, hall, htodo, stop', hlast, hfull⟩ := hdone.entries
      rw [List.append_assoc, List.singleton_append] at hlast
      refine ⟨⟨name :: names, e :: delivered, .cons he hall, ?_, stop', hlast, hfull⟩,
        hdone.opened, hdone.more, hdone.finished, ?_, fun hmore => ?_,
        fun off len hoff => ((haway off len hoff).trans (haway' off len hoff)).trans
          (hdone.away off len hoff)⟩
      · exact congrArg (name :: ·) htodo
      · have hgiven := hdone.given
        rw [List.length_cons]
        omega
      · obtain ⟨hge, hlt, hcontrol⟩ := hdone.id hmore
        exact ⟨by omega, hlt, hcontrol⟩
    · have hfull : exalldo (m.putLong (c.control + 4) exallid.toNat) c e = none := by
        rw [Filesys.exalldo]
        dsimp only
        exact if_pos ((hpart.fits_iff hc).mpr (by omega))
      rw [examineAllLoop_none he hfull]
      refine ⟨⟨[], [], .nil, rfl, stop, ?_, ?_⟩, Option.some_ne_none _,
        fun _ => Option.some_ne_none _, fun hmore => (nomatch hmore), ?_,
        fun _ => ⟨Nat.le_refl _, ?_, hput⟩, haway⟩
      · rwa [List.append_nil]
      · rintro n e' ⟨⟩ he'
        obtain rfl := Option.some.inj (he.symm.trans he')
        omega
      · rw [hnext, List.length_cons]
        omega
      · change exallid.toNat < (exallid + 1).toNat
        omega

end

/-! ### A call -/

section

variable {lookup : List Byte → Option ExAllEntry} {c : ExAllCall} {m : Image}
  {es : List ExAllEntry} {stop : Nat}

/-- The records of a call, once the last link is cleared. -/
theorem Partial.clearLast (h : Partial m c es stop) (hc : c.Sound) :
    Filled (Filesys.clearLast m c) c.type c.limit c.exalldata es ∧
      ∀ off len, off + len ≤ c.exalldata ∨ c.limit ≤ off →
        m.Agree (Filesys.clearLast m c) off len := by
  obtain ⟨hge, hend, hfilled⟩ := h.chain.filled hc.type_pos hc.type_le h.inside
  have hpos := hc.exalldata
  have hsize := hc.size
  have hinside := h.inside
  have hlimit : c.limit = c.exalldata + c.exalldatasize := rfl
  rw [Filesys.clearLast, h.count, if_neg (by omega)]
  refine ⟨hfilled, fun off len hoff => agree_putLong ?_⟩
  cases es with
  | nil =>
    change off + len ≤ c.exalldata ∨ c.exalldata + 4 ≤ off
    omega
  | cons e es =>
    have hend := hend (List.cons_ne_nil _ _)
    omega

theorem modify_slot {exalls : List ExAllKey} {i : Nat} {k : ExAllKey} (h : exalls[i]? = some k)
    (f : ExAllKey → ExAllKey) : exalls.modify i f = exalls.set i (f k) := by
  refine List.ext_getElem? fun j => ?_
  obtain ⟨hi, -⟩ := List.getElem?_eq_some_iff.mp h
  rw [List.getElem?_modify, List.getElem?_set]
  split_ifs with hij
  · rw [← hij, h]
    rfl
  · exact Option.map_id_apply

/-- What a call leaves: its records, its slot, and where the listing goes on. The identifiers it
gave are from `low` on. -/
structure RunDone (lookup : List Byte → Option ExAllEntry) (exalls : List ExAllKey) (low : Nat)
    (m : Image) (c : ExAllCall) (i : Nat) (todo : List (List Byte)) (u' : ExAllUnit) (m' : Image)
    (reply : ExAllReply) (k : ExAllKey) (es : List ExAllEntry) : Prop where
  slots : u'.exalls = exalls.set i k
  given : low ≤ u'.exallid.toNat ∧ u'.exallid.toNat ≤ low + todo.length
  filled : Filled m' c.type c.limit c.exalldata es
  count : m'.getLong c.control = es.length
  entries : ∃ names rest, List.Forall₂ (fun n e => lookup n = some e) names es ∧
    todo = names ++ rest ∧
    (reply = .done ∧ (∃ left, k.dirhandle = some left ∧ rest = k.fn.toList ++ left) ∧
        low ≤ k.id.toNat ∧ k.id.toNat < u'.exallid.toNat ∧
        m'.getLong (c.control + 4) = k.id.toNat ∨
      reply = .failed .noMoreEntries ∧ rest = [] ∧ k.id = 0 ∧ k.fn = none)
  away : ∀ off len, c.Away off len → m.Agree m' off len

theorem examineAllRun_done {u : ExAllUnit} {i : Nat} {k : ExAllKey} {left : List (List Byte)}
    (hc : c.Sound) (hslot : u.exalls[i]? = some k) (hleft : k.dirhandle = some left)
    (hvalid : ∀ n ∈ k.fn.toList ++ left, ∃ e, lookup n = some e)
    (hfirst : ∀ n e, (k.fn.toList ++ left).head? = some n → lookup n = some e →
      recordSize c.type e ≤ c.exalldatasize)
    (hbound : u.exallid.toNat + (k.fn.toList ++ left).length < 2 ^ 31)
    (hcount : m.getLong c.control = 0) :
    ∃ u' m' reply k' es, examineAllRun lookup u m c i = .ok (u', m', reply) ∧
      RunDone lookup u.exalls u.exallid.toNat m c i (k.fn.toList ++ left) u' m' reply k' es := by
  have hstart : Partial m c [] c.exalldata := ⟨rfl, Nat.le_add_right _ _, hcount⟩
  have hdone := examineAllLoop_done (k := k) hc hvalid hbound hstart
  rw [examineAllRun, hslot]
  dsimp only
  rw [hleft]
  dsimp only
  generalize examineAllLoop lookup c (k.fn.toList ++ left) k u.exallid m = r at hdone
  obtain ⟨more, k', exallid, m'⟩ := r
  obtain ⟨names, es, hall, htodo, stop, hpart, hfull⟩ := hdone.entries
  rw [List.nil_append] at hpart
  obtain ⟨hfilled, hcleared⟩ := hpart.clearLast hc
  have happart := hc.apart
  have hlimit : c.limit = c.exalldata + c.exalldatasize := rfl
  have hboth := (hcleared c.control 8 (by omega))
  have hcounted : (Filesys.clearLast m' c).getLong c.control = es.length := by
    rw [(hboth.mono (Nat.le_refl _) (by omega)).getLong, hpart.count]
  have haway : ∀ off len, c.Away off len → m.Agree (Filesys.clearLast m' c) off len :=
    fun off len hoff => (hdone.away off len hoff).trans (hcleared off len hoff.2)
  dsimp only at *
  cases more with
  | true =>
    obtain ⟨n, hn⟩ := Option.ne_none_iff_exists'.mp (hdone.more rfl)
    obtain ⟨rest, hrest⟩ := Option.ne_none_iff_exists'.mp hdone.opened
    rw [hrest] at htodo
    -- The first name has a record, since the buffer is large enough for it.
    have hne : es ≠ [] := by
      rintro rfl
      obtain rfl := List.forall₂_nil_right_iff.mp hall
      have hstop : c.exalldata = stop := hpart.chain
      have hhead : (k.fn.toList ++ left).head? = some n := by rw [htodo, hn]; rfl
      obtain ⟨e, he⟩ := hvalid n (List.mem_of_head? hhead)
      have hfits := hfirst n e hhead he
      have hover := hfull n e hn he
      omega
    have hlength := List.length_pos_of_ne_nil hne
    obtain ⟨hge, hlt, hid⟩ := hdone.id rfl
    refine ⟨{ u.put i k' with exallid }, _, _, k', es, ?_, ⟨rfl, hdone.given, hfilled, hcounted, ⟨names, _, hall, htodo,
      .inl ⟨rfl, ⟨rest, hrest, rfl⟩, hge, hlt, ?_⟩⟩, haway⟩⟩
    · rw [if_neg (by decide), if_neg (by rw [hpart.count]; omega)]
    · rw [(hboth.mono (by omega) (by omega)).getLong, hid]
  | false =>
    obtain ⟨hfn, hrest⟩ := hdone.finished rfl
    rw [hfn, hrest] at htodo
    refine ⟨_, _, _, { k' with id := 0, dirhandle := none, fn := none }, es, if_pos rfl,
      ⟨?_, hdone.given, ?_, ?_, ⟨names, [], hall, htodo, .inr ⟨rfl, rfl, rfl, rfl⟩⟩, ?_⟩⟩
    · obtain ⟨hi, -⟩ := List.getElem?_eq_some_iff.mp hslot
      refine (modify_slot (List.getElem?_set_self hi) _).trans ?_
      rw [List.set_set]
    · exact hfilled.agree hc.type_pos hc.type_le (by omega) (agree_putLong (by omega))
    · rw [← hcounted]
      exact (agree_putLong (by omega)).getLong
    · exact fun off len hoff => (haway off len hoff).trans
        (agree_putLong (hoff.1.imp (fun _ => by omega) (fun _ => by omega)))

/-- A call first clears the number of entries. -/
theorem clear_entries (m : Image) (c : ExAllCall) :
    (m.putLong c.control 0).getLong c.control = 0 ∧
      (m.putLong c.control 0).getLong (c.control + 4) = m.getLong (c.control + 4) ∧
      ∀ off len, c.Away off len → m.Agree (m.putLong c.control 0) off len :=
  ⟨getLong_putLong m c.control 0, (agree_putLong (.inr (Nat.le_refl _))).getLong,
    fun _ _ hoff => agree_putLong (hoff.1.imp_right fun _ => by omega)⟩

/-- A call after the listing has ended. -/
theorem actionExamineAll_ended {u : ExAllUnit} (hc : c.Sound)
    (hend : m.getLong (c.control + 4) = exallEnd.toNat) :
    ∃ m', actionExamineAll lookup u m c = .ok (u, m', .failed .noMoreEntries) ∧
      m'.getLong c.control = 0 ∧ ∀ off len, c.Away off len → m.Agree m' off len := by
  obtain ⟨hcount, hsame, haway⟩ := clear_entries m c
  have hnone : Partial (m.putLong c.control 0) c [] c.exalldata :=
    ⟨rfl, Nat.le_add_right _ _, hcount⟩
  obtain ⟨-, hcleared⟩ := hnone.clearLast hc
  have hpos := hc.type_pos
  have hle := hc.type_le
  have happart := hc.apart
  have hlimit : c.limit = c.exalldata + c.exalldatasize := rfl
  rw [actionExamineAll]
  dsimp only
  rw [if_neg (by omega), hsame, hend, UInt32.ofNat_toNat, if_pos rfl]
  refine ⟨_, rfl, ?_, fun off len hoff => ?_⟩
  · rw [if_pos rfl, (agree_putLong (.inl (Nat.le_refl _))).getLong,
      (hcleared _ _ (by omega)).getLong, hcount]
  · rw [if_pos rfl]
    exact ((haway off len hoff).trans (hcleared off len hoff.2)).trans
      (agree_putLong (hoff.1.imp (fun _ => by omega) (fun _ => by omega)))

/-- An identifier that was given out leads to its slot. -/
theorem getexall_slot {u : ExAllUnit} {i control : Nat} {k : ExAllKey}
    (hslot : u.exalls[i]? = some k)
    (hunique : ∀ j k', u.exalls[j]? = some k' → k'.id = k.id → j = i) (hne : k.id ≠ 0)
    (hlt : k.id.toNat < 2 ^ 31) : u.getexall control k.id = some (u, i) := by
  rw [ExAllUnit.getexall, if_neg (by omega), if_pos hne, Option.map_eq_some_iff]
  refine ⟨i, ?_, rfl⟩
  obtain ⟨hi, hk⟩ := List.getElem?_eq_some_iff.mp hslot
  refine List.findIdx?_eq_some_iff_getElem.mpr ⟨hi, by rw [hk]; exact beq_self_eq_true _,
    fun j hj => ?_⟩
  have hother := mt (hunique j _ (List.getElem?_eq_getElem (by omega))) (by omega)
  simpa using hother

/-- A listing that is given up frees its slot. -/
theorem actionExamineAllEnd_slot {u : ExAllUnit} {i control : Nat} {k : ExAllKey}
    (hid : m.getLong (control + 4) = k.id.toNat)
    (hslots : u.getexall control k.id = some (u, i)) :
    actionExamineAllEnd u m control = (u.release i, .done) := by
  rw [actionExamineAllEnd, hid, UInt32.ofNat_toNat, hslots]
  rfl

/-- A call that goes on with a listing. -/
theorem actionExamineAll_next {u : ExAllUnit} {i : Nat} {k : ExAllKey} {left : List (List Byte)}
    (hc : c.Sound) (hslot : u.exalls[i]? = some k) (hleft : k.dirhandle = some left)
    (hunique : ∀ j k', u.exalls[j]? = some k' → k'.id = k.id → j = i)
    (hne : k.id ≠ 0) (hid : m.getLong (c.control + 4) = k.id.toNat)
    (hgiven : k.id.toNat < u.exallid.toNat)
    (hvalid : ∀ n ∈ k.fn.toList ++ left, ∃ e, lookup n = some e)
    (hfirst : ∀ n e, (k.fn.toList ++ left).head? = some n → lookup n = some e →
      recordSize c.type e ≤ c.exalldatasize)
    (hbound : u.exallid.toNat + (k.fn.toList ++ left).length < 2 ^ 31) :
    ∃ u' m' reply k' es, actionExamineAll lookup u m c = .ok (u', m', reply) ∧
      RunDone lookup u.exalls u.exallid.toNat m c i (k.fn.toList ++ left) u' m' reply k' es := by
  obtain ⟨hcount, hsame, haway⟩ := clear_entries m c
  have hpos := hc.type_pos
  have hle := hc.type_le
  obtain ⟨u', m', reply, k', es, hrun, hdone⟩ :=
    examineAllRun_done hc hslot hleft hvalid hfirst hbound hcount
  have hend : k.id ≠ exallEnd := fun heq => by
    rw [heq] at hgiven
    have hlarge : exallEnd.toNat = 0xde1111ad := rfl
    omega
  refine ⟨u', m', reply, k', es, ?_, { hdone with
    away := fun off len hoff => (haway off len hoff).trans (hdone.away off len hoff) }⟩
  rw [actionExamineAll]
  dsimp only
  rw [if_neg (by omega), hsame, hid, UInt32.ofNat_toNat, if_neg hend, if_pos hne,
    getexall_slot hslot hunique hne (by omega)]
  exact hrun

/-- A call that starts a listing takes a free slot. -/
theorem actionExamineAll_first {u : ExAllUnit} {names : List (List Byte)}
    (hc : c.Sound) (hopened : c.opened = some names) (hid : m.getLong (c.control + 4) = 0)
    (hfree : ∃ k ∈ u.exalls, k.id = 0) (hempty : ∀ k ∈ u.exalls, k.id = 0 → k.fn = none)
    (hvalid : ∀ n ∈ names, ∃ e, lookup n = some e)
    (hfirst : ∀ n e, names.head? = some n → lookup n = some e →
      recordSize c.type e ≤ c.exalldatasize)
    (hbound : u.exallid.toNat + 1 + names.length < 2 ^ 31) :
    ∃ i k, u.exalls[i]? = some k ∧ k.id = 0 ∧
      ∃ u' m' reply k' es, actionExamineAll lookup u m c = .ok (u', m', reply) ∧
        RunDone lookup u.exalls (u.exallid.toNat + 1) m c i names u' m' reply k' es := by
  obtain ⟨hcount, hsame, haway⟩ := clear_entries m c
  have hpos := hc.type_pos
  have hle := hc.type_le
  have hnext : u.nextExallid.toNat = u.exallid.toNat + 1 := by
    have hsucc : (u.exallid + 1).toNat = u.exallid.toNat + 1 := by
      rw [UInt32.toNat_add, UInt32.toNat_one, Nat.mod_eq_of_lt (by omega)]
    have hlarge : exallEnd.toNat = 0xde1111ad := rfl
    rw [ExAllUnit.nextExallid, if_neg fun heq => ?_, hsucc]
    rw [heq] at hsucc
    omega
  obtain ⟨i, hfind⟩ : ∃ i, u.exalls.findIdx? (fun k => k.id == 0) = some i := by
    obtain ⟨k, hk, hzero⟩ := hfree
    refine Option.isSome_iff_exists.mp ?_
    rw [List.findIdx?_isSome]
    exact List.any_eq_true.mpr ⟨k, hk, beq_iff_eq.mpr hzero⟩
  obtain ⟨hi, hzero, -⟩ := List.findIdx?_eq_some_iff_getElem.mp hfind
  have hslot := List.getElem?_eq_getElem hi
  generalize u.exalls[i] = k at hslot hzero
  have hzero : k.id = 0 := beq_iff_eq.mp hzero
  let k' : ExAllKey := ⟨u.nextExallid, some names, k.fn, c.control⟩
  let u' : ExAllUnit := ⟨u.exalls.set i k', u.nextExallid⟩
  have hslots : u.getexall c.control 0xffffffff = some (⟨u.exalls.set i
      { k with id := u.nextExallid, control := c.control }, u.nextExallid⟩, i) := by
    rw [ExAllUnit.getexall, if_pos (by decide), hfind, Option.map_some, modify_slot hslot]
  have hfn : k.fn = none := hempty k (List.mem_of_getElem? hslot) hzero
  have htodo : k'.fn.toList ++ names = names := by
    change k.fn.toList ++ names = names
    rw [hfn]
    rfl
  have hslot' : u'.exalls[i]? = some k' := List.getElem?_set_self hi
  obtain ⟨u'', m', reply, k'', es, hrun, hdone⟩ :=
    examineAllRun_done (u := u') (m := (m.putLong c.control 0).putLong (c.control + 4)
      u.nextExallid.toNat) hc hslot' rfl (htodo.symm ▸ hvalid) (htodo.symm ▸ hfirst)
      (by rw [htodo, hnext]; exact hbound)
      (by rw [(agree_putLong (.inl (Nat.le_refl _))).getLong, hcount])
  rw [htodo, hnext] at hdone
  refine ⟨i, k, hslot, hzero, u'', m', reply, k'', es, ?_, { hdone with
    slots := hdone.slots.trans (List.set_set k')
    away := fun off len hoff => ((haway off len hoff).trans (agree_putLong
      (hoff.1.imp (fun _ => by omega) (fun _ => by omega)))).trans (hdone.away off len hoff) }⟩
  rw [actionExamineAll]
  dsimp only
  rw [if_neg (by omega), hsame, hid, if_neg (by decide), if_neg (by decide), hslots]
  dsimp only
  rw [hopened]
  dsimp only
  rw [modify_slot (List.getElem?_set_self hi), List.set_set, List.getElem?_set_self hi]
  exact hrun

end

end LibretroUae.Filesys
