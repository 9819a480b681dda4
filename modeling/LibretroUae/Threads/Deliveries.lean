import LibretroUae.Threads.CommPipe

/-!
# LibretroUae.Threads.Deliveries

**What is sent is received.** Whatever the order in which the statements of the two threads come,
the values leave the pipe as they were written: what has been sent is what has been received, then
what the reader holds, what the ring holds and what the writer holds. The two never wait for each
other at the same time, and a reader is left asleep only with fewer than `chunks` values, none of
them to be passed on at once.

All of it is carried by one invariant, `Inv`. A statement changes little of the state, and most
clauses are about one thread's place in the code and one thing that the other can do there.
-/

namespace LibretroUae.Threads

open LibretroUae.Lib (Ring)

variable {α : Type} {size : Nat} {noBuffer : α → Bool} {chunks : Nat}

theorem level_eq (r : Ring α size) : level r = r.count := by
  have hfirst := r.first_lt
  have hlast := r.last_lt
  rw [level, Ring.count]
  split_ifs with hle
  · have hsum : ((r.first : Int) - r.last + size).toNat = (r.first - r.last) + size := by omega
    rw [hsum, Nat.add_mod_right, Nat.mod_eq_of_lt (by omega)]
  · have hsum : ((r.first : Int) - r.last + size).toNat = r.first + size - r.last := by omega
    rw [hsum, Nat.mod_eq_of_lt (by omega)]

/-- What holds between any two statements. -/
structure Inv (noBuffer : α → Bool) (chunks : Nat) (p : CommPipe α size) : Prop where
  /-- One of the two has the lock, or nobody. -/
  mutex : p.lock + p.writer.holds + p.reader.holds = 1
  /-- A sleeping reader is marked, or about to be woken, or woken. -/
  readerWake : p.readerWaiting.toNat + p.writer.posts + p.readerWait = p.reader.asleep
  writerWake : p.writerWaiting.toNat + p.reader.posts + p.writerWait = p.writer.asleep
  alerted : p.writer.alerted = true → p.readerWaiting = true
  wakes : ∀ data, p.reader = .wake data → p.writerWaiting = true
  /-- The writer only writes where there is room, and it sleeps until there is. -/
  room : p.writer.needsRoom = true → p.ring.isFull = false
  roomAsleep : p.writer.asleep = 1 → (p.writerWaiting = false → p.ring.isFull = false) ∧
    (p.writerWaiting = true → p.reader.moved = false → p.ring.isFull = true)
  roomMoved : p.reader.moved = true → p.ring.isFull = false
  /-- The reader only reads where there is a value, and there is when it is woken. -/
  filled : p.reader.needsValue = true → p.ring.isEmpty = false
  filledAsleep : p.reader.asleep = 1 → p.readerWaiting = false → p.ring.isEmpty = false
  filledMoved : p.writer.moved = true → p.ring.isEmpty = false
  emptied : p.reader = .setWaiting → p.ring.contents = []
  crammed : ∀ data, p.writer = .setWaiting data → p.ring.isFull = true
  stored : ∀ locked data, p.writer = .move locked data → p.ring.slots p.ring.first = data
  held : ∀ data, p.reader = .move data → p.ring.front = data
  /-- The reader sleeps over a few values that may wait. -/
  buffered : p.readerWaiting = true → p.writer.moved = false →
    p.ring.count < chunks ∧ ∀ x ∈ p.ring.contents, noBuffer x = false
  bufferedBut : p.readerWaiting = true → ∀ locked data,
    p.writer = .check locked data ∨ p.writer = .count locked data →
      p.ring.count ≤ chunks ∧ ∀ x ∈ p.ring.contents, noBuffer x = true → noBuffer data = true
  sent : p.sent = p.received ++ p.reader.hand ++ p.ring.contents ++ p.writer.hand

theorem inv_initCommPipe (slots : Nat → α) (h : 0 < size) :
    Inv noBuffer chunks (initCommPipe slots h) := by
  constructor <;> simp [initCommPipe, Writer.holds, Reader.holds, Writer.asleep, Reader.asleep,
    Writer.posts, Reader.posts, Writer.alerted, Writer.needsRoom, Writer.moved, Reader.moved,
    Reader.needsValue, Reader.hand, Writer.hand]

/-! ### Alone at the ring -/

/-- While the reader is at the ring the writer is not. -/
theorem Inv.writer_away {p : CommPipe α size} (h : Inv noBuffer chunks p)
    (hholds : p.reader.holds = 1) (hasleep : p.reader.asleep = 0) :
    p.readerWaiting = false ∧ p.writer.moved = false ∧ (∀ data, p.writer ≠ .setWaiting data) ∧
      ∀ locked data, p.writer ≠ .move locked data := by
  have hmutex := h.mutex
  have hwake := h.readerWake
  have halerted := h.alerted
  rw [hholds] at hmutex
  rw [hasleep] at hwake
  have hwaiting : p.readerWaiting = false := Bool.toNat_eq_zero.mp (by omega)
  refine ⟨hwaiting, ?_⟩
  cases hwriter : p.writer <;>
    simp_all [Writer.holds, Writer.moved, Writer.alerted, Writer.posts]

/-- While the writer is at the ring the reader is not. -/
theorem Inv.reader_away {p : CommPipe α size} (h : Inv noBuffer chunks p)
    (hholds : p.writer.holds = 1 ∨ p.writer.alerted = true) :
    p.reader.moved = false ∧ p.reader ≠ .setWaiting ∧ ∀ data, p.reader ≠ .move data := by
  have hmutex := h.mutex
  have hwake := h.readerWake
  have halerted := h.alerted
  cases hreader : p.reader <;>
    simp_all [Reader.holds, Reader.moved, Reader.asleep]

/-! ### Statements of the reader -/

theorem semWait_some {sem sem' : Nat} (h : semWait sem = some sem') : sem = sem' + 1 := by
  rw [semWait] at h
  split_ifs at h with hzero
  have heq := Option.some.inj h
  omega

theorem Inv.reader (hchunks : 0 < chunks) {p q : CommPipe α size} (h : Inv noBuffer chunks p)
    (hstep : readerStep p = some q) : Inv noBuffer chunks q := by
  have haway := h.writer_away
  obtain ⟨ring, lock, readerWait, writerWait, writerWaiting, readerWaiting, writer, reader, sent,
    received⟩ := p
  obtain ⟨mutex, readerWake, writerWake, alerted, wakes, room, roomAsleep, roomMoved, filled,
    filledAsleep, filledMoved, emptied, crammed, stored, held, buffered, bufferedBut, hsent⟩ := h
  cases reader with
  | idle => cases hstep
  | lock =>
    obtain ⟨sem, hsem, rfl⟩ := Option.map_eq_some_iff.mp hstep
    obtain rfl := semWait_some hsem
    exact ⟨by simp only [Reader.holds] at mutex ⊢; omega, readerWake, writerWake, alerted, nofun,
      room, roomAsleep, nofun, nofun, nofun, filledMoved, nofun, crammed, stored, nofun, buffered,
      bufferedBut, hsent⟩
  | testEmpty =>
    cases hempty : ring.isEmpty with
    | true =>
      simp only [readerStep, hempty, if_true] at hstep
      obtain rfl := Option.some.inj hstep
      exact ⟨mutex, readerWake, writerWake, alerted, nofun, room, roomAsleep, nofun, nofun, nofun,
        filledMoved, fun _ => Ring.isEmpty_iff.mp hempty, crammed, stored, nofun, buffered,
        bufferedBut, hsent⟩
    | false =>
      simp only [readerStep, hempty, Bool.false_eq_true, if_false] at hstep
      obtain rfl := Option.some.inj hstep
      exact ⟨mutex, readerWake, writerWake, alerted, nofun, room, roomAsleep, nofun,
        fun _ => hempty, nofun, filledMoved, nofun, crammed, stored, nofun, buffered, bufferedBut,
        hsent⟩
  | setWaiting =>
    obtain rfl := Option.some.inj hstep
    have hnil : ring.contents = [] := emptied rfl
    have hzero : ring.count = 0 := by rw [← Ring.length_contents, hnil, List.length_nil]
    obtain ⟨hwaiting, -⟩ := haway rfl rfl
    obtain rfl : readerWaiting = false := hwaiting
    refine ⟨mutex, ?_, writerWake, fun _ => rfl, nofun, room, roomAsleep, nofun, nofun, nofun,
      filledMoved, nofun, crammed, stored, nofun, fun _ _ => ?_, fun _ _ _ _ => ?_, hsent⟩
    · simp only [Bool.toNat_false, Bool.toNat_true, Reader.asleep] at readerWake ⊢
      omega
    · exact ⟨hzero ▸ hchunks, fun x hx => absurd (hnil ▸ hx) List.not_mem_nil⟩
    · exact ⟨hzero ▸ Nat.zero_le _, fun x hx => absurd (hnil ▸ hx) List.not_mem_nil⟩
  | unlockEmpty =>
    obtain rfl := Option.some.inj hstep
    exact ⟨by simp only [Reader.holds] at mutex ⊢; omega, readerWake, writerWake, alerted, nofun,
      room, roomAsleep, nofun, nofun, filledAsleep, filledMoved, nofun, crammed, stored, nofun,
      buffered, bufferedBut, hsent⟩
  | sleep =>
    obtain ⟨sem, hsem, rfl⟩ := Option.map_eq_some_iff.mp hstep
    obtain rfl := semWait_some hsem
    simp only [Reader.asleep] at readerWake
    have hwaiting : readerWaiting = false := Bool.toNat_eq_zero.mp (by omega)
    exact ⟨mutex, by simp only [Reader.asleep]; omega, writerWake, alerted, nofun, room,
      roomAsleep, nofun, fun _ => filledAsleep rfl hwaiting, nofun, filledMoved, nofun, crammed,
      stored, nofun, buffered, bufferedBut, hsent⟩
  | relock =>
    obtain ⟨sem, hsem, rfl⟩ := Option.map_eq_some_iff.mp hstep
    obtain rfl := semWait_some hsem
    exact ⟨by simp only [Reader.holds] at mutex ⊢; omega, readerWake, writerWake, alerted, nofun,
      room, roomAsleep, nofun, fun _ => filled rfl, nofun, filledMoved, nofun, crammed, stored,
      nofun, buffered, bufferedBut, hsent⟩
  | take =>
    obtain rfl := Option.some.inj hstep
    exact ⟨mutex, readerWake, writerWake, alerted, nofun, room, roomAsleep, nofun,
      fun _ => filled rfl, nofun, filledMoved, nofun, crammed, stored,
      fun _ hdata => Reader.move.inj hdata, buffered, bufferedBut, hsent⟩
  | move data =>
    obtain rfl := Option.some.inj hstep
    obtain ⟨hwaiting, hmoved, hset, hmove⟩ := haway rfl rfl
    have hfilled : ring.isEmpty = false := filled rfl
    have hroom := Ring.isFull_pop hfilled
    refine ⟨mutex, readerWake, writerWake, alerted, nofun, fun _ => hroom,
      fun _ => ⟨fun _ => hroom, fun _ => nofun⟩, fun _ => hroom, nofun, nofun,
      fun h => absurd (hmoved.symm.trans h) nofun, nofun, fun _ h => absurd h (hset _),
      fun _ _ h => absurd h (hmove _ _), nofun, fun h => absurd (hwaiting.symm.trans h) nofun,
      fun h => absurd (hwaiting.symm.trans h) nofun, ?_⟩
    rw [hsent, Ring.contents_pop hfilled, held data rfl]
    simp only [Reader.hand, List.append_nil, List.append_assoc, List.cons_append, List.nil_append]
  | check data =>
    cases writerWaiting with
    | true =>
      obtain rfl := Option.some.inj hstep
      exact ⟨mutex, readerWake, writerWake, alerted, fun _ _ => rfl, room, roomAsleep,
        fun _ => roomMoved rfl, nofun, nofun, filledMoved, nofun, crammed, stored, nofun, buffered,
        bufferedBut, hsent⟩
    | false =>
      obtain rfl := Option.some.inj hstep
      exact ⟨mutex, readerWake, writerWake, alerted, nofun, room,
        fun h => ⟨(roomAsleep h).1, nofun⟩, nofun, nofun, nofun, filledMoved, nofun, crammed,
        stored, nofun, buffered, bufferedBut, hsent⟩
  | wake data =>
    obtain rfl := Option.some.inj hstep
    obtain rfl : writerWaiting = true := wakes data rfl
    refine ⟨mutex, readerWake, ?_, alerted, nofun, room,
      fun _ => ⟨fun _ => roomMoved rfl, nofun⟩, nofun, nofun,
      nofun, filledMoved, nofun, crammed, stored, nofun, buffered, bufferedBut, hsent⟩
    simp only [Bool.toNat_false, Bool.toNat_true, Reader.posts] at writerWake ⊢
    omega
  | post data =>
    obtain rfl := Option.some.inj hstep
    refine ⟨mutex, readerWake, ?_, alerted, nofun, room, roomAsleep, nofun, nofun, nofun,
      filledMoved, nofun, crammed, stored, nofun, buffered, bufferedBut, hsent⟩
    simp only [Reader.posts] at writerWake ⊢
    omega
  | unlock data =>
    obtain rfl := Option.some.inj hstep
    refine ⟨by simp only [Reader.holds] at mutex ⊢; omega, readerWake, writerWake, alerted, nofun,
      room, roomAsleep, nofun, nofun, nofun, filledMoved, nofun, crammed, stored, nofun, buffered,
      bufferedBut, ?_⟩
    rw [hsent]
    simp only [Reader.hand, List.append_nil]

/-! ### Statements of the writer -/

theorem isFull_of_count_lt {r : Ring α size} (h : r.count < chunks) (hsize : chunks < size) :
    r.isFull = false := by
  rw [← Bool.not_eq_true, Ring.isFull_iff]
  omega

theorem Inv.writer (hsize : chunks < size) {p q : CommPipe α size} (h : Inv noBuffer chunks p)
    (hstep : writerStep noBuffer chunks p = some q) : Inv noBuffer chunks q := by
  have haway := h.reader_away
  obtain ⟨ring, lock, readerWait, writerWait, writerWaiting, readerWaiting, writer, reader, sent,
    received⟩ := p
  obtain ⟨mutex, readerWake, writerWake, alerted, wakes, room, roomAsleep, roomMoved, filled,
    filledAsleep, filledMoved, emptied, crammed, stored, held, buffered, bufferedBut, hsent⟩ := h
  cases writer with
  | idle => cases hstep
  | entered data =>
    cases readerWaiting with
    | true =>
      obtain rfl := Option.some.inj hstep
      have hroom := isFull_of_count_lt (buffered rfl rfl).1 hsize
      exact ⟨mutex, readerWake, writerWake, fun _ => rfl, wakes, fun _ => hroom, nofun, roomMoved,
        filled, filledAsleep, nofun, emptied, nofun, nofun, held, buffered, nofun, hsent⟩
    | false =>
      obtain rfl := Option.some.inj hstep
      exact ⟨mutex, readerWake, writerWake, nofun, wakes, nofun, nofun, roomMoved, filled,
        filledAsleep, nofun, emptied, nofun, nofun, held, nofun, nofun, hsent⟩
  | lock data =>
    obtain ⟨sem, hsem, rfl⟩ := Option.map_eq_some_iff.mp hstep
    obtain rfl := semWait_some hsem
    exact ⟨by simp only [Writer.holds] at mutex ⊢; omega, readerWake, writerWake, nofun, wakes,
      nofun, nofun, roomMoved, filled, filledAsleep, nofun, emptied, nofun, nofun, held, buffered,
      fun _ _ _ h => absurd h (by simp), hsent⟩
  | testFull data =>
    cases hfull : ring.isFull with
    | true =>
      simp only [writerStep, hfull, if_true] at hstep
      obtain rfl := Option.some.inj hstep
      exact ⟨mutex, readerWake, writerWake, nofun, wakes, nofun, nofun, roomMoved, filled,
        filledAsleep, nofun, emptied, fun _ _ => hfull, nofun, held, buffered, fun _ _ _ => nofun,
        hsent⟩
    | false =>
      simp only [writerStep, hfull, Bool.false_eq_true, if_false] at hstep
      obtain rfl := Option.some.inj hstep
      exact ⟨mutex, readerWake, writerWake, nofun, wakes, fun _ => hfull, nofun, roomMoved, filled,
        filledAsleep, nofun, emptied, nofun, nofun, held, buffered, fun _ _ _ => nofun, hsent⟩
  | setWaiting data =>
    obtain rfl := Option.some.inj hstep
    refine ⟨mutex, readerWake, ?_, nofun, fun _ _ => rfl, nofun,
      fun _ => ⟨nofun, fun _ _ => crammed data rfl⟩, roomMoved, filled, filledAsleep, nofun,
      emptied, nofun, nofun, held, buffered, fun _ _ _ => nofun, hsent⟩
    simp only [Writer.asleep, Bool.toNat_true] at writerWake ⊢
    omega
  | unlockFull data =>
    obtain rfl := Option.some.inj hstep
    exact ⟨by simp only [Writer.holds] at mutex ⊢; omega, readerWake, writerWake, nofun, wakes,
      nofun, roomAsleep, roomMoved, filled, filledAsleep, nofun, emptied, nofun, nofun, held,
      buffered, fun _ _ _ => nofun, hsent⟩
  | sleep data =>
    obtain ⟨sem, hsem, rfl⟩ := Option.map_eq_some_iff.mp hstep
    obtain rfl := semWait_some hsem
    simp only [Writer.asleep] at writerWake
    have hwaiting : writerWaiting = false := Bool.toNat_eq_zero.mp (by omega)
    exact ⟨mutex, readerWake, by simp only [Writer.asleep]; omega, nofun, wakes,
      fun _ => (roomAsleep rfl).1 hwaiting, nofun, roomMoved, filled, filledAsleep, nofun, emptied,
      nofun, nofun, held, buffered, fun _ _ _ => nofun, hsent⟩
  | relock data =>
    obtain ⟨sem, hsem, rfl⟩ := Option.map_eq_some_iff.mp hstep
    obtain rfl := semWait_some hsem
    exact ⟨by simp only [Writer.holds, Bool.toNat_true] at mutex ⊢; omega, readerWake, writerWake,
      nofun, wakes, fun _ => room rfl, nofun, roomMoved, filled, filledAsleep, nofun, emptied,
      nofun, nofun, held, buffered, fun _ _ _ => nofun, hsent⟩
  | put locked data =>
    obtain rfl := Option.some.inj hstep
    obtain ⟨-, -, hmove⟩ := haway (by cases locked <;> simp [Writer.holds, Writer.alerted])
    refine ⟨mutex, readerWake, writerWake, alerted, wakes, fun _ => room rfl, nofun, roomMoved,
      filled, filledAsleep, nofun, ?_, nofun, fun _ _ hdata => ?_, fun _ h => absurd h (hmove _),
      ?_, fun _ _ _ => nofun, ?_⟩
    · rwa [Ring.contents_store]
    · exact (Ring.store_first ring data).trans (Writer.move.inj hdata).2
    · rwa [Ring.contents_store, Ring.count_store]
    · rwa [Ring.contents_store]
  | move locked data =>
    obtain rfl := Option.some.inj hstep
    obtain ⟨hmoved, hwaiting, hmove⟩ :=
      haway (by cases locked <;> simp [Writer.holds, Writer.alerted])
    have hcontents := Ring.contents_advance (room rfl)
    rw [stored locked data rfl] at hcontents
    have hfilled : ring.advance.isEmpty = false := by
      rw [← Bool.not_eq_true, Ring.isEmpty_iff, hcontents]
      exact List.append_ne_nil_of_right_ne_nil _ (List.cons_ne_nil _ _)
    have hcount : ring.advance.count = ring.count + 1 := by
      rw [← Ring.length_contents, hcontents, List.length_append, Ring.length_contents]
      rfl
    refine ⟨mutex, readerWake, writerWake, alerted, wakes, nofun, nofun,
      fun h => absurd (hmoved.symm.trans h) nofun, fun _ => hfilled, fun _ _ => hfilled,
      fun _ => hfilled, fun h => absurd h hwaiting, nofun, nofun, fun _ h => absurd h (hmove _),
      nofun, fun h _ d hd => ?_, ?_⟩
    · obtain ⟨hlt, hall⟩ := buffered h rfl
      obtain rfl : data = d := by simp at hd; exact hd.2
      refine ⟨hcount ▸ hlt, fun x hx hurgent => ?_⟩
      rcases List.mem_append.mp (hcontents ▸ hx) with hold | hnew
      · exact absurd ((hall x hold).symm.trans hurgent) nofun
      · exact List.mem_singleton.mp hnew ▸ hurgent
    · rw [hsent, hcontents]
      simp only [Writer.hand, List.append_nil, List.append_assoc]
  | check locked data =>
    cases readerWaiting with
    | true =>
      obtain rfl := Option.some.inj hstep
      refine ⟨mutex, readerWake, writerWake, fun _ => rfl, wakes, nofun, nofun, roomMoved, filled,
        filledAsleep, filledMoved, emptied, nofun, nofun, held, nofun, fun h l d hd => ?_, hsent⟩
      obtain ⟨-, rfl⟩ : locked = l ∧ data = d := by simpa using hd
      exact bufferedBut rfl locked data (Or.inl rfl)
    | false =>
      obtain rfl := Option.some.inj hstep
      cases locked with
      | true =>
        exact ⟨mutex, readerWake, writerWake, nofun, wakes, nofun, nofun, roomMoved, filled,
          filledAsleep, nofun, emptied, nofun, nofun, held, nofun, nofun, hsent⟩
      | false => cases alerted rfl
  | count locked data =>
    obtain rfl : readerWaiting = true := alerted rfl
    obtain ⟨hle, hall⟩ := bufferedBut rfl locked data (Or.inr rfl)
    by_cases hfew : (noBuffer data || decide (chunks ≤ level ring)) = true
    · simp only [writerStep, hfew, if_true] at hstep
      obtain rfl := Option.some.inj hstep
      exact ⟨mutex, readerWake, writerWake, fun _ => rfl, wakes, nofun, nofun, roomMoved, filled,
        filledAsleep, fun _ => filledMoved rfl, emptied, nofun, nofun, held, nofun,
        fun _ _ _ => nofun, hsent⟩
    · simp only [writerStep, hfew] at hstep
      obtain rfl := Option.some.inj hstep
      simp only [Bool.or_eq_true, decide_eq_true_eq, not_or, Bool.not_eq_true, level_eq] at hfew
      have hlt : ring.count < chunks := Nat.lt_of_not_le hfew.2
      have hnone : ∀ x ∈ ring.contents, noBuffer x = false := fun x hx =>
        Bool.eq_false_iff.mpr fun hurgent => absurd (hfew.1.symm.trans (hall x hx hurgent)) nofun
      cases locked with
      | true =>
        exact ⟨mutex, readerWake, writerWake, nofun, wakes, nofun, nofun, roomMoved, filled,
          filledAsleep, nofun, emptied, nofun, nofun, held, fun _ _ => ⟨hlt, hnone⟩,
          fun _ _ _ => nofun, hsent⟩
      | false =>
        exact ⟨mutex, readerWake, writerWake, nofun, wakes, nofun, nofun, roomMoved, filled,
          filledAsleep, nofun, emptied, nofun, nofun, held, fun _ _ => ⟨hlt, hnone⟩,
          fun _ _ _ => nofun, hsent⟩
  | wake locked =>
    obtain rfl := Option.some.inj hstep
    obtain rfl : readerWaiting = true := alerted rfl
    refine ⟨mutex, ?_, writerWake, nofun, wakes, nofun, nofun, roomMoved, filled,
      fun _ _ => filledMoved rfl, nofun, emptied, nofun, nofun, held, nofun, nofun, hsent⟩
    simp only [Bool.toNat_false, Bool.toNat_true, Writer.posts] at readerWake ⊢
    omega
  | post locked =>
    obtain rfl := Option.some.inj hstep
    cases locked with
    | true =>
      refine ⟨mutex, ?_, writerWake, nofun, wakes, nofun, nofun, roomMoved, filled, filledAsleep,
        nofun, emptied, nofun, nofun, held, buffered, fun _ _ _ => nofun, hsent⟩
      simp only [Writer.posts] at readerWake
      simp only [Writer.posts_woken]
      omega
    | false =>
      refine ⟨mutex, ?_, writerWake, nofun, wakes, nofun, nofun, roomMoved, filled, filledAsleep,
        nofun, emptied, nofun, nofun, held, buffered, fun _ _ _ => nofun, hsent⟩
      simp only [Writer.posts] at readerWake
      simp only [Writer.posts_woken]
      omega
  | unlock =>
    obtain rfl := Option.some.inj hstep
    exact ⟨by simp only [Writer.holds] at mutex ⊢; omega, readerWake, writerWake, nofun, wakes,
      nofun, nofun, roomMoved, filled, filledAsleep, nofun, emptied, nofun, nofun, held, buffered,
      fun _ _ _ => nofun, hsent⟩

/-! ### Runs -/

theorem Inv.step (hchunks : 0 < chunks) (hsize : chunks < size) {p q : CommPipe α size}
    (h : Inv noBuffer chunks p) {act : Act α} (hstep : step noBuffer chunks p act = some q) :
    Inv noBuffer chunks q := by
  cases act with
  | writer => exact h.writer hsize hstep
  | reader => exact h.reader hchunks hstep
  | write data =>
    cases hwriter : p.writer with
    | idle =>
      simp only [Threads.step, hwriter] at hstep
      obtain rfl := Option.some.inj hstep
      obtain ⟨mutex, readerWake, writerWake, alerted, wakes, room, roomAsleep, roomMoved, filled,
        filledAsleep, filledMoved, emptied, crammed, stored, held, buffered, bufferedBut,
        hsent⟩ := h
      rw [hwriter] at mutex readerWake writerWake buffered hsent
      refine ⟨mutex, readerWake, writerWake, nofun, wakes, nofun, nofun, roomMoved, filled,
        filledAsleep, nofun, emptied, nofun, nofun, held, buffered, fun _ _ _ => nofun, ?_⟩
      rw [hsent]
      simp only [Writer.hand, List.append_nil]
    | _ => simp [Threads.step, hwriter] at hstep
  | read =>
    cases hreader : p.reader with
    | idle =>
      simp only [Threads.step, hreader] at hstep
      obtain rfl := Option.some.inj hstep
      obtain ⟨mutex, readerWake, writerWake, alerted, wakes, room, roomAsleep, roomMoved, filled,
        filledAsleep, filledMoved, emptied, crammed, stored, held, buffered, bufferedBut,
        hsent⟩ := h
      rw [hreader] at mutex readerWake writerWake roomAsleep hsent
      exact ⟨mutex, readerWake, writerWake, alerted, nofun, room, roomAsleep, nofun, nofun, nofun,
        filledMoved, nofun, crammed, stored, nofun, buffered, bufferedBut, hsent⟩
    | _ => simp [Threads.step, hreader] at hstep

theorem Inv.run (hchunks : 0 < chunks) (hsize : chunks < size) {acts : List (Act α)} :
    ∀ {p q : CommPipe α size}, Inv noBuffer chunks p → run noBuffer chunks p acts = some q →
      Inv noBuffer chunks q := by
  induction acts with
  | nil =>
    intro p q h hrun
    exact Option.some.inj hrun ▸ h
  | cons act acts ih =>
    intro p q h hrun
    obtain ⟨p', hstep, hrest⟩ := Option.bind_eq_some_iff.mp hrun
    exact ih (h.step hchunks hsize hstep) hrest

/-- The values that an order of acts writes. -/
def written (acts : List (Act α)) : List α :=
  acts.filterMap fun
    | .write data => some data
    | _ => none

theorem written_cons (act : Act α) (acts : List (Act α)) :
    written (act :: acts) = written [act] ++ written acts :=
  @List.filterMap_append _ _ [act] acts _

theorem sent_writerStep {p q : CommPipe α size} (h : writerStep noBuffer chunks p = some q) :
    q.sent = p.sent := by
  unfold writerStep at h
  split at h
  all_goals first
    | obtain ⟨sem, -, rfl⟩ := Option.map_eq_some_iff.mp h; rfl
    | obtain rfl := Option.some.inj h; rfl
    | cases h

theorem sent_readerStep {p q : CommPipe α size} (h : readerStep p = some q) :
    q.sent = p.sent := by
  unfold readerStep at h
  split at h
  all_goals first
    | obtain ⟨sem, -, rfl⟩ := Option.map_eq_some_iff.mp h; rfl
    | obtain rfl := Option.some.inj h; rfl
    | cases h

theorem sent_step {p q : CommPipe α size} {act : Act α}
    (h : step noBuffer chunks p act = some q) : q.sent = p.sent ++ written [act] := by
  cases act with
  | writer => exact (sent_writerStep h).trans (List.append_nil _).symm
  | reader => exact (sent_readerStep h).trans (List.append_nil _).symm
  | write data =>
    cases hwriter : p.writer with
    | idle =>
      simp only [step, hwriter] at h
      obtain rfl := Option.some.inj h
      rfl
    | _ => simp [step, hwriter] at h
  | read =>
    cases hreader : p.reader with
    | idle =>
      simp only [step, hreader] at h
      obtain rfl := Option.some.inj h
      exact (List.append_nil _).symm
    | _ => simp [step, hreader] at h

theorem sent_run {acts : List (Act α)} : ∀ {p q : CommPipe α size},
    run noBuffer chunks p acts = some q → q.sent = p.sent ++ written acts := by
  induction acts with
  | nil =>
    intro p q h
    obtain rfl := Option.some.inj h
    exact (List.append_nil _).symm
  | cons act acts ih =>
    intro p q h
    obtain ⟨p', hstep, hrest⟩ := Option.bind_eq_some_iff.mp h
    rw [ih hrest, sent_step hstep, List.append_assoc, ← written_cons]

/-- In any order that the statements of the two threads can come in, the values that are written
are those that have been read, those on their way, and no others, each once and in their order. -/
theorem commPipe_fifo (noBuffer : α → Bool) (slots : Nat → α) (hchunks : 0 < chunks)
    (hsize : chunks < size) (acts : List (Act α)) (p : CommPipe α size)
    (hrun : run noBuffer chunks (initCommPipe slots (Nat.lt_trans hchunks hsize)) acts = some p) :
    written acts = p.received ++ p.reader.hand ++ p.ring.contents ++ p.writer.hand := by
  rw [← ((inv_initCommPipe slots _).run hchunks hsize hrun).sent, sent_run hrun]
  rfl

theorem commPipe_fifo_wakes : ∃ (acts : List (Act Nat)) (p : CommPipe Nat 2),
    run (fun _ => false) 1 (initCommPipe (fun _ => 0) (by decide)) acts = some p ∧
    p.received = [7] ∧
    written acts = p.received ++ p.reader.hand ++ p.ring.contents ++ p.writer.hand :=
  ⟨[.read] ++ List.replicate 4 .reader ++ [.write 7] ++ List.replicate 7 .writer ++
    List.replicate 6 .reader, _, rfl, rfl,
    commPipe_fifo (fun _ => false) (fun _ => 0) Nat.zero_lt_one Nat.one_lt_two _ _ rfl⟩

/-- Is the writer in a call, before a semaphore that has not been posted. -/
def WriterWaits (noBuffer : α → Bool) (chunks : Nat) (p : CommPipe α size) : Prop :=
  p.writer ≠ .idle ∧ writerStep noBuffer chunks p = none

def ReaderWaits (p : CommPipe α size) : Prop :=
  p.reader ≠ .idle ∧ readerStep p = none

/-- A thread before the lock waits for the other one only if that has it. -/
theorem semWait_eq_none {sem : Nat} : semWait sem = none ↔ sem = 0 := by
  rw [semWait]
  split_ifs with hzero
  · exact iff_of_true rfl hzero
  · exact iff_of_false nofun hzero

theorem writerWaits_cases {p : CommPipe α size} (h : WriterWaits noBuffer chunks p) :
    p.writer.holds = 0 ∧ (p.lock = 0 ∧ p.writer.asleep = 0 ∨
      p.writerWait = 0 ∧ p.writer.asleep = 1) := by
  obtain ⟨hidle, hnone⟩ := h
  cases hwriter : p.writer <;>
    simp_all [writerStep, semWait_eq_none, Writer.holds, Writer.asleep]

theorem readerWaits_cases {p : CommPipe α size} (h : ReaderWaits p) :
    p.reader.holds = 0 ∧ (p.lock = 0 ∧ p.reader.asleep = 0 ∨
      p.readerWait = 0 ∧ p.reader.asleep = 1) := by
  obtain ⟨hidle, hnone⟩ := h
  cases hreader : p.reader <;>
    simp_all [readerStep, semWait_eq_none, Reader.holds, Reader.asleep]

theorem Writer.of_asleep {w : Writer α} (h : w.asleep = 1) : w.posts = 0 ∧ w.moved = false := by
  cases w <;> first | exact ⟨rfl, rfl⟩ | cases h

theorem Reader.of_asleep {r : Reader α} (h : r.asleep = 1) : r.posts = 0 ∧ r.moved = false := by
  cases r <;> first | exact ⟨rfl, rfl⟩ | cases h

/-- A writer that has to wait while nobody has the lock sleeps before a full pipe. -/
theorem Inv.writer_waits {p : CommPipe α size} (h : Inv noBuffer chunks p)
    (hw : WriterWaits noBuffer chunks p) (hfree : p.reader.holds = 0) (hposts : p.reader.posts = 0)
    (hmoved : p.reader.moved = false) : p.writer.asleep = 1 ∧ p.ring.isFull = true := by
  have hmutex := h.mutex
  have hwake := h.writerWake
  obtain ⟨hholds, ⟨hlock, -⟩ | ⟨hwait, hasleep⟩⟩ := writerWaits_cases hw
  · omega
  · have hwaiting : p.writerWaiting = true := Bool.toNat_eq_one.mp (by omega)
    exact ⟨hasleep, (h.roomAsleep hasleep).2 hwaiting hmoved⟩

/-- A reader that has to wait while nobody has the lock sleeps over few values. -/
theorem Inv.reader_waits {p : CommPipe α size} (h : Inv noBuffer chunks p)
    (hr : ReaderWaits p) (hfree : p.writer.holds = 0) (hposts : p.writer.posts = 0)
    (hmoved : p.writer.moved = false) : p.reader.asleep = 1 ∧
      p.ring.count < chunks ∧ ∀ x ∈ p.ring.contents, noBuffer x = false := by
  have hmutex := h.mutex
  have hwake := h.readerWake
  obtain ⟨hholds, ⟨hlock, -⟩ | ⟨hwait, hasleep⟩⟩ := readerWaits_cases hr
  · omega
  · have hwaiting : p.readerWaiting = true := Bool.toNat_eq_one.mp (by omega)
    exact ⟨hasleep, h.buffered hwaiting hmoved⟩

theorem Inv.not_both_wait (hsize : chunks < size) {p : CommPipe α size}
    (h : Inv noBuffer chunks p) (hw : WriterWaits noBuffer chunks p) : ¬ ReaderWaits p := by
  intro hr
  have hmutex := h.mutex
  obtain ⟨hwholds, hwcases⟩ := writerWaits_cases hw
  obtain ⟨hrholds, hrcases⟩ := readerWaits_cases hr
  obtain ⟨hwposts, hwmoved⟩ := @Writer.of_asleep _ p.writer (by omega)
  obtain ⟨hrposts, hrmoved⟩ := @Reader.of_asleep _ p.reader (by omega)
  have hfull := (h.writer_waits hw hrholds hrposts hrmoved).2
  have hfew := (h.reader_waits hr hwholds hwposts hwmoved).2.1
  rw [isFull_of_count_lt hfew hsize] at hfull
  cases hfull

/-- One of the two can always go on, and none is left asleep over what it waits for: the reader
sleeps over fewer than `chunks` values, none of which is to be passed on at once, and the writer
before a full pipe. -/
theorem commPipe_awake (noBuffer : α → Bool) (slots : Nat → α) (hchunks : 0 < chunks)
    (hsize : chunks < size) (acts : List (Act α)) (p : CommPipe α size)
    (hrun : run noBuffer chunks (initCommPipe slots (Nat.lt_trans hchunks hsize)) acts = some p) :
    (WriterWaits noBuffer chunks p → ¬ ReaderWaits p) ∧
    (ReaderWaits p → p.writer = .idle →
      p.ring.count < chunks ∧ ∀ x ∈ p.ring.contents, noBuffer x = false) ∧
    (WriterWaits noBuffer chunks p → p.reader = .idle → p.ring.isFull = true) := by
  have h := (inv_initCommPipe slots _).run hchunks hsize hrun
  refine ⟨h.not_both_wait hsize, fun hr hidle => ?_, fun hw hidle => ?_⟩
  · exact (h.reader_waits hr (by rw [hidle]; rfl) (by rw [hidle]; rfl) (by rw [hidle]; rfl)).2
  · exact (h.writer_waits hw (by rw [hidle]; rfl) (by rw [hidle]; rfl) (by rw [hidle]; rfl)).2

theorem commPipe_awake_full : ∃ p : CommPipe Nat 2,
    WriterWaits (fun _ => false) 1 p ∧ p.reader = .idle ∧ p.ring.isFull = true := by
  have hrun : run (fun _ => false) 1 (initCommPipe (fun _ => 0) Nat.two_pos)
    ([.write 7] ++ List.replicate 7 .writer ++ [.write 8] ++ List.replicate 5 .writer) =
      some _ := rfl
  have hawake := commPipe_awake _ _ Nat.zero_lt_one Nat.one_lt_two _ _ hrun
  have hfull := hawake.2.2 ⟨nofun, rfl⟩ rfl
  refine ⟨_, ?_, ?_, hfull⟩
  · exact ⟨nofun, rfl⟩
  · rfl

end LibretroUae.Threads
