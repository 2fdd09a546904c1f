import Mysnips.LogStream

/-! Runs of the logger. As long as no flush is overtaken between its two peeks, the
file is a beginning of the logged stream in every state. Calls and flushes that are
not interrupted complete, so a run can bring the buffer to where a flush is
overtaken; the bytes up to the end of the array are then skipped. -/
namespace Mysnips.Log
open Machine Memory RingSlots Transition SpscQueue

variable {n : Nat} {content data : List UInt8} {s s' : State}

/-- The runs in which no flush is overtaken between its two peeks. -/
def steadyLogs (n : Nat) : System State Action :=
  (logs n).restrict fun s action => action = .flush → ¬ Overtaken s.queue s.flusher

theorem Valid.start (small : n ≤ 30) (begins : (logs n).initial s) : Valid n s [] 0 0 := by
  obtain ⟨data, length, rfl⟩ := begins
  have power : 2 ^ n ≤ 2 ^ 30 := Nat.pow_le_pow_right (by decide) small
  have whole : data.length = 1 * 2 ^ n := by rw [length, Nat.one_mul]
  have sized : Sized (init data n 1) := ⟨small, whole, show data.length < 2 ^ 32 by omega⟩
  have count : int32 (2 ^ n) = ((2 ^ n : Nat) : Int) := by
    have cast : ((2 : Int) ^ n) = ((2 ^ n : Nat) : Int) := (Int.natCast_pow 2 n).symm
    rw [cast, int32_eq (by omega) (by omega)]
  refine ⟨⟨sized, rfl, show 0 < 2 ^ 64 by decide, Nat.le_refl _, Nat.zero_le _, nofun⟩, rfl, rfl,
    ⟨rfl, rfl⟩, ⟨rfl, rfl⟩, ?_, ?_⟩
  · rw [count]
    exact Int.natCast_nonneg _
  · rw [count]
    simp only [init]
    omega

theorem reachable_valid (small : n ≤ 30) (reached : (steadyLogs n).Reachable s) :
    ∃ content reserved popped, Valid n s content reserved popped := by
  apply reached.invariant (P := fun s => ∃ content reserved popped, Valid n s content reserved popped)
  · exact fun s begins => ⟨[], 0, 0, .start small begins⟩
  · rintro s action s' _ ⟨content, reserved, popped, valid⟩ moved
    obtain ⟨apart, moved⟩ := System.restrict_next.mp moved
    cases action with
    | logWrite2 data =>
      simp only [logs] at moved
      split at moved
      · rename_i called
        cases moved
        have writing := valid.writing
        rw [called.1] at writing
        obtain ⟨logged, none⟩ := writing
        have short : data.length ≤ 2 ^ s.queue.capLog2 := by
          rw [valid.size]
          exact Nat.not_lt.mp called.2
        exact ⟨content, reserved, popped,
          { valid with writing := ⟨by rw [logged], short, none⟩ }⟩
      · cases moved
    | write =>
      obtain ⟨content', reserved', valid'⟩ := valid.write moved
      exact ⟨content', reserved', popped, valid'⟩
    | flush =>
      obtain ⟨popped', valid'⟩ := valid.flush (apart rfl) moved
      exact ⟨content, reserved, popped', valid'⟩

/-! ### Uninterrupted calls -/

/-- A step of `log_write2` is never held back. -/
private theorem steady_write (reached : (steadyLogs n).Reachable s) (moved : write s = some s') :
    (steadyLogs n).Reachable s' :=
  reached.step (a := .write) (System.restrict_next.mpr ⟨nofun, moved⟩)

/-- The copying loop of a call completes. -/
private theorem loop_completes (small : n ≤ 30) (k : Nat) {i : Nat}
    (reached : (steadyLogs n).Reachable s) (left : i + k = data.length)
    (pushes : s.writer = .push (multiPushLoop (data.map asItem) data.length s.queue.tail i))
    (fits : s.queue.tail + data.length < 2 ^ 64) :
    ∃ items, (steadyLogs n).Reachable
      { s with queue := { s.queue with items, tail := s.queue.tail + data.length }, writer := .idle } := by
  induction k generalizing s i with
  | zero =>
    have last : multiPushLoop (data.map asItem) data.length s.queue.tail i =
        .multiPushStoreTail (some (data.map asItem)) (s.queue.tail + data.length) := by
      rw [multiPushLoop, if_neg (by omega), add64_eq fits]
    refine ⟨s.queue.items, steady_write reached ?_⟩
    simp [write, pushes, last, produce]
  | succ k ih =>
    obtain ⟨content, reserved, popped, valid⟩ := reachable_valid small reached
    have more : i < data.length := by omega
    have here : multiPushLoop (data.map asItem) data.length s.queue.tail i =
        .multiPushStoreItem (data.map asItem) data.length s.queue.tail i := by
      rw [multiPushLoop, if_pos more]
    have writing := valid.writing
    rw [pushes, here] at writing
    obtain ⟨_, _, _, _, _, _, _, _, ready⟩ := writing
    have item : (data.map asItem)[i]? = some (asItem (data.get ⟨i, more⟩)) := by
      rw [List.getElem?_map, List.getElem?_eq_getElem more]
      rfl
    obtain ⟨items, stored, _⟩ := valid.holds.storeNext ready item
    have sum : add64 s.queue.tail i = s.queue.tail + i := add64_eq (by omega)
    have copied : produce s.queue (.multiPushStoreItem (data.map asItem) data.length s.queue.tail i) =
        some ({ s.queue with items },
          multiPushLoop (data.map asItem) data.length s.queue.tail (i + 1), []) := by
      rw [produce, item, Option.bind_eq_bind, Option.bind_some, sum, stored]
      rfl
    have next : (steadyLogs n).Reachable { s with
        queue := { s.queue with items }
        writer := .push (multiPushLoop (data.map asItem) data.length s.queue.tail (i + 1)) } :=
      steady_write reached (by simp [write, pushes, here, copied, loop_busy])
    obtain ⟨items', completed⟩ := ih next (by omega) rfl fits
    exact ⟨items', completed⟩

/-- A call of `log_write2` that the semaphore lets through completes. -/
theorem write_completes (small : n ≤ 30) (reached : (steadyLogs n).Reachable s)
    (idle : s.writer = .idle) (nonempty : 0 < data.length) (enough : data.length ≤ s.sem)
    (fits : s.queue.tail + data.length + 1 < 2 ^ 64) :
    ∃ items, (steadyLogs n).Reachable
      { s with
        queue := { s.queue with items, tail := s.queue.tail + data.length }
        sem := s.sem - data.length
        logged := s.logged ++ data } := by
  obtain ⟨content, reserved, popped, valid⟩ := reachable_valid small reached
  have holds := valid.holds
  have kept := holds.items
  have room := holds.room
  have power := holds.toSized.pow_le
  have nonneg := valid.nonneg
  have semaphore := valid.semaphore
  have free : s.queue.tail + data.length ≤ s.queue.head + 2 ^ s.queue.capLog2 := by omega
  have size := valid.size
  have called : (steadyLogs n).Reachable { s with writer := .wait data, logged := s.logged ++ data } := by
    refine reached.step (a := .logWrite2 data) (System.restrict_next.mpr ⟨nofun, ?_⟩)
    exact if_pos ⟨idle, by rw [← size]; omega⟩
  have waited : (steadyLogs n).Reachable { s with
      sem := s.sem - data.length
      writer := .push (.multiPushLoadHead (some (data.map asItem)) data.length)
      logged := s.logged ++ data } := by
    refine steady_write called ?_
    have length : int32 data.length = data.length := int32_eq (by omega) (by omega)
    have rest : int32 (s.sem - data.length) = s.sem - data.length := int32_eq (by omega) (by omega)
    simp only [write, semaphoreWait, length, rest, if_pos (show (data.length : Int) > 0 by omega),
      if_neg (show ¬ s.sem < data.length by omega), Option.bind_eq_bind, Option.bind_some]
  have loadedHead : (steadyLogs n).Reachable { s with
      sem := s.sem - data.length
      writer := .push (.multiPushLoadTail (some (data.map asItem)) data.length s.queue.head)
      logged := s.logged ++ data } := steady_write waited (by simp [write, produce])
  have loadedTail : (steadyLogs n).Reachable { s with
      sem := s.sem - data.length
      writer := .push (multiPushLoop (data.map asItem) data.length s.queue.tail 0)
      logged := s.logged ++ data } := by
    refine steady_write loadedHead ?_
    have limit : sub64 uint64Max data.length = 2 ^ 64 - 1 - data.length :=
      sub64_eq (show data.length ≤ 2 ^ 64 - 1 by omega) (by decide)
    have granted : produce s.queue
        (.multiPushLoadTail (some (data.map asItem)) data.length s.queue.head) =
        some (s.queue, multiPushLoop (data.map asItem) data.length s.queue.tail 0, []) := by
      simp only [produce, holds.used_eq kept room, holds.toSized.cap_eq, limit,
        add32_eq (show s.queue.tail - s.queue.head + data.length < 2 ^ 32 by omega),
        if_neg (show ¬ s.queue.tail - s.queue.head + data.length > 2 ^ s.queue.capLog2 by omega),
        if_pos (show s.queue.tail < 2 ^ 64 - 1 - data.length by omega)]
    simp [write, granted, loop_busy]
  obtain ⟨items, completed⟩ := loop_completes small data.length loadedTail (Nat.zero_add _) rfl
    (show s.queue.tail + data.length < 2 ^ 64 by omega)
  refine ⟨items, ?_⟩
  rw [idle]
  exact completed

/-- A step of the flush thread that is not the second peek is never held back. -/
private theorem steady_flush (reached : (steadyLogs n).Reachable s)
    (apart : ¬ Overtaken s.queue s.flusher) (moved : flush s = some s') :
    (steadyLogs n).Reachable s' :=
  reached.step (a := .flush) (System.restrict_next.mpr ⟨fun _ => apart, moved⟩)

/-- The pop of all that is there completes. -/
private theorem pop_completes {k : Nat} (reached : (steadyLogs n).Reachable s)
    (popping : s.flusher = .pop (.multiPopLoadHead false k) k)
    (used : uint32 (sub64 s.queue.tail s.queue.head) = k)
    (sum : add64 s.queue.head k = s.queue.tail) (below : s.queue.head ≤ sub64 uint64Max k) :
    (steadyLogs n).Reachable
      { s with queue := { s.queue with head := s.queue.tail }, flusher := .signal k } := by
  have loadedHead : (steadyLogs n).Reachable
      { s with flusher := .pop (.multiPopLoadTail false k s.queue.head) k } := by
    refine steady_flush reached (by rw [popping]; exact id) ?_
    simp [flush, consume, popping]
  have loadedTail : (steadyLogs n).Reachable
      { s with flusher := .pop (.multiPopStoreHead [] k s.queue.tail) k } := by
    refine steady_flush loadedHead id ?_
    have granted : consume s.queue (.multiPopLoadTail false k s.queue.head) =
        some (s.queue, .multiPopStoreHead [] k s.queue.tail, []) := by
      simp only [consume, used, sum, if_neg (Nat.lt_irrefl k), if_pos below, Bool.false_eq_true,
        if_false]
    simp [flush, granted]
  refine steady_flush loadedTail id ?_
  simp [flush, consume]

/-- A flush of bytes in one piece completes. -/
theorem flush_completes (small : n ≤ 30) (reached : (steadyLogs n).Reachable s)
    (idle : s.flusher = .peek0) (pending : s.queue.head < s.queue.tail)
    (unbroken : s.queue.tail - s.queue.head ≤ straight s.queue) :
    ∃ file, (steadyLogs n).Reachable
      { s with
        queue := { s.queue with head := s.queue.tail }
        sem := s.sem + (s.queue.tail - s.queue.head : Nat)
        file } := by
  obtain ⟨content, reserved, popped, valid⟩ := reachable_valid small reached
  have holds := valid.holds
  have kept := holds.items
  have room := holds.room
  have fits := holds.fits
  have power := holds.toSized.pow_le
  have nonneg := valid.nonneg
  have semaphore := valid.semaphore
  obtain ⟨k, distance⟩ : ∃ k, k = s.queue.tail - s.queue.head := ⟨_, rfl⟩
  rw [← distance] at unbroken ⊢
  have positive : 0 < k := by omega
  have kSmall : k < 2 ^ 31 := by omega
  have semLow : -2 ^ 31 ≤ s.sem + k := by omega
  have semHigh : s.sem + k < 2 ^ 31 := by omega
  have below : s.queue.head ≤ sub64 uint64Max k := by
    rw [sub64_eq (show k ≤ 2 ^ 64 - 1 by omega) (by decide)]
    omega
  have sum : add64 s.queue.head k = s.queue.tail := by
    rw [add64_eq (by omega)]
    omega
  have length : straight s.queue = 2 ^ s.queue.capLog2 - s.queue.head % 2 ^ s.queue.capLog2 := rfl
  have read : load s.queue.items (s.queue.head % 2 ^ s.queue.capLog2) k =
      some ((content.drop s.queue.head).take k) :=
    holds.load_bytes valid.bytes (Nat.le_refl _) (by omega) (by omega)
  have used : uint32 (sub64 s.queue.tail s.queue.head) = k := by
    rw [holds.used_eq kept room, distance]
  have amount : ofInt (k : Int) = k := ofInt_natCast (by omega)
  have total : int32 ((k : Int) + 0) = k := by
    rw [Int.add_zero]
    exact int32_natCast kSmall
  have signalled : semaphoreSignal s.sem k = some (s.sem + k) := by
    rw [semaphoreSignal, if_pos (Int.natCast_pos.mpr positive), int32_eq semLow semHigh]
  obtain ⟨first, found⟩ := holds.toSized.peek0_spec kept room
  obtain ⟨second, _⟩ := holds.toSized.peek1_spec kept room
  rw [← distance, Nat.min_eq_left unbroken] at first
  rw [← distance, Nat.sub_eq_zero_of_le unbroken] at second
  have found := found pending
  rw [slot, valid.bytes, Nat.one_mul] at found
  have nothing : osWrite s.queue.items (SpscQueue.peek1 s.queue).1 0 = some [] := by
    rcases peek1_ptr s.queue with none | start
    · rw [none]
      rfl
    · rw [start]
      exact load_eq (Nat.zero_le _)
  have peeked : (steadyLogs n).Reachable { s with
      flusher := .peek1 (some (s.queue.head % 2 ^ s.queue.capLog2)) k } := by
    refine steady_flush reached (by rw [idle]; exact id) ?_
    simp only [flush, idle, first, found]
  have whole : (steadyLogs n).Reachable { s with
      flusher := .write1 (some (s.queue.head % 2 ^ s.queue.capLog2)) k
        (SpscQueue.peek1 s.queue).1 0 } := by
    refine steady_flush peeked ?_ ?_
    · rintro ⟨_, more⟩
      exact absurd (distance ▸ more) (Nat.not_lt.mpr unbroken)
    · simp only [flush, second, Int.natCast_zero, total, if_pos (Int.natCast_pos.mpr positive)]
  have wrote : (steadyLogs n).Reachable { s with
      flusher := .write2 k (SpscQueue.peek1 s.queue).1 0
      file := s.file ++ (content.drop s.queue.head).take k } := by
    refine steady_flush whole id ?_
    simp only [flush, osWrite, amount, read, Option.bind_eq_bind, Option.bind_some]
  have wroteAll : (steadyLogs n).Reachable { s with
      flusher := .pop (.multiPopLoadHead false k) k
      file := s.file ++ (content.drop s.queue.head).take k ++ [] } := by
    refine steady_flush wrote id ?_
    have zero : ofInt 0 = 0 := rfl
    simp only [flush, zero, nothing, total, Option.bind_eq_bind, Option.bind_some,
      if_pos (Int.natCast_nonneg k), Int.toNat_natCast, ge_iff_le]
  have popped := pop_completes wroteAll rfl used sum below
  refine ⟨s.file ++ (content.drop s.queue.head).take k ++ [], steady_flush popped id ?_⟩
  simp only [flush, signalled, idle, Option.bind_eq_bind, Option.bind_some]

/-- The file is a beginning of the bytes taken in, which are a beginning of those logged. -/
theorem Valid.file_prefix {reserved popped : Nat} (valid : Valid n s content reserved popped) :
    s.file <+: s.logged := by
  have logged : content <+: s.logged := by
    have writing := valid.writing
    cases writer : s.writer with
    | idle =>
      rw [writer] at writing
      rw [writing.1]
    | wait data =>
      rw [writer] at writing
      rw [writing.1]
      exact List.prefix_append _ _
    | push producer =>
      rw [writer] at writing
      obtain ⟨data, given, _⟩ := writing
      rw [given]
      exact List.prefix_append _ _
  have written : ∃ k, s.file = content.take k := by
    have flushing := valid.flushing
    cases flusher : s.flusher with
    | peek0 =>
      rw [flusher] at flushing
      exact ⟨_, flushing.1⟩
    | peek1 ptr1 num1 =>
      rw [flusher] at flushing
      exact ⟨_, flushing.1⟩
    | write1 ptr1 num1 ptr2 num2 =>
      rw [flusher] at flushing
      exact ⟨_, flushing.1⟩
    | write2 num1 ptr2 num2 =>
      rw [flusher] at flushing
      obtain ⟨_, k1, k2, _, _, _, _, _, written⟩ := flushing
      exact ⟨_, written⟩
    | pop consumer total =>
      rw [flusher] at flushing
      obtain ⟨_, k, _, _, _, written, _⟩ := flushing
      exact ⟨_, written⟩
    | signal total =>
      rw [flusher] at flushing
      exact ⟨_, flushing.1⟩
  obtain ⟨k, written⟩ := written
  rw [written]
  exact (List.take_prefix _ _).trans logged

/-- As long as no flush is overtaken, the file is at every moment a beginning of the stream
of the bytes passed to `log_write2`. -/
theorem file_is_prefix_while_not_overtaken (small : n ≤ 30)
    (reached : (steadyLogs n).Reachable s) : s.file <+: s.logged := by
  obtain ⟨content, reserved, popped, valid⟩ := reachable_valid small reached
  exact valid.file_prefix

/-- Two bytes are logged and flushed in a buffer of two bytes. -/
theorem file_is_prefix_while_not_overtaken_applies :
    ∃ s, (steadyLogs 1).Reachable s ∧ s.file = [97, 98] ∧ s.file <+: s.logged := by
  have begins : (steadyLogs 1).initial ⟨init [0, 0] 1 1, 2, .idle, .peek0, [], []⟩ :=
    ⟨[0, 0], rfl, by decide⟩
  have replayed : (steadyLogs 1).replay ⟨init [0, 0] 1 1, 2, .idle, .peek0, [], []⟩
      ([.logWrite2 [97, 98]] ++ List.replicate 6 .write ++ List.replicate 4 .flush) =
        some ⟨⟨[97, 98], 1, 1, 0, 2⟩, 0, .idle, .pop (.multiPopLoadHead false 2) 2, [97, 98],
          [97, 98]⟩ := by decide +kernel
  have reached := (System.Reachable.start begins).replay _ replayed
  exact ⟨_, reached, rfl, file_is_prefix_while_not_overtaken (by decide) reached⟩

/-- An idle buffer of the default size, from which one byte has been flushed and whose next
flush has made its first peek. -/
private theorem flush_begun : ∃ items, (steadyLogs 16).Reachable
    ⟨⟨items, 1, 16, 1, 1⟩, 65536, .idle, .peek1 none 0, [97], [97]⟩ := by
  obtain ⟨memory, size⟩ : ∃ memory : List UInt8, memory.length = 2 ^ 16 :=
    ⟨List.replicate (2 ^ 16) 0, List.length_replicate⟩
  have begun : (steadyLogs 16).Reachable ⟨init memory 16 1, 65536, .idle, .peek0, [], []⟩ :=
    System.Reachable.start ⟨memory, size, by rw [show int32 (2 ^ 16) = 65536 by decide]⟩
  obtain ⟨items, wrote⟩ := write_completes (by decide) begun rfl
    (show 0 < [(97 : UInt8)].length by decide) (show (1 : Int) ≤ 65536 by decide)
    (show 0 + 1 + 1 < 2 ^ 64 by decide)
  have wrote : (steadyLogs 16).Reachable
      ⟨⟨items, 1, 16, 0, 1⟩, 65535, .idle, .peek0, [97], []⟩ := wrote
  obtain ⟨file, flushed⟩ := flush_completes (by decide) wrote rfl (show 0 < 1 by decide)
    (show 1 - 0 ≤ 2 ^ 16 - 0 % 2 ^ 16 by decide)
  have flushed : (steadyLogs 16).Reachable
      ⟨⟨items, 1, 16, 1, 1⟩, 65536, .idle, .peek0, [97], file⟩ := flushed
  obtain ⟨content, _, _, valid⟩ := reachable_valid (by decide) flushed
  have written : file = content.take 1 := valid.flushing.1
  have taken : [97] = content := valid.writing.1
  rw [← taken] at written
  cases written
  exact ⟨items, steady_flush flushed id rfl⟩

/-- With the default buffer size, a call of `log_write2` that fills the buffer between the
two peeks of a flush makes it write the last byte of the call right behind what was flushed
before. -/
theorem overtaken_flush_skips_bytes :
    ∃ s, (logs 16).Reachable s ∧ s.logged = 97 :: (List.replicate 65535 98 ++ [99]) ∧
      s.file = [97, 99] ∧ ¬ s.file <+: s.logged := by
  obtain ⟨items, begun⟩ := flush_begun
  obtain ⟨data, given⟩ : ∃ data : List UInt8, data = List.replicate 65535 98 ++ [99] := ⟨_, rfl⟩
  have length : data.length = 65536 := by
    rw [given, List.length_append, List.length_replicate, List.length_singleton]
  obtain ⟨memory, wrote⟩ := write_completes (by decide) begun rfl (show 0 < data.length by omega)
    (show (data.length : Int) ≤ 65536 by omega) (show 1 + data.length + 1 < 2 ^ 64 by omega)
  have wrote : (steadyLogs 16).Reachable ⟨⟨memory, 1, 16, 1, 1 + data.length⟩,
      65536 - (data.length : Int), .idle, .peek1 none 0, 97 :: data, [97]⟩ := wrote
  rw [length] at wrote
  obtain ⟨content, _, _, valid⟩ := reachable_valid (by decide) wrote
  have taken : 97 :: data = content := valid.writing.1
  -- the last byte of the call is at the start of the array
  have last : load memory 0 1 = some [99] := by
    have read : load memory (65536 % 2 ^ 16) 1 = some ((content.drop 65536).take 1) :=
      valid.holds.load_bytes rfl (show 1 ≤ 65536 by decide) (show 65536 + 1 ≤ 1 + 65536 by decide)
        (show 65536 % 2 ^ 16 + 1 ≤ 2 ^ 16 by decide)
    have front : (97 :: List.replicate 65535 (98 : UInt8)).length = 65536 := by
      rw [List.length_cons, List.length_replicate]
    have rest : content.drop 65536 = [99] := by
      rw [← taken, given, ← List.cons_append, ← front, List.drop_left]
    rw [rest] at read
    exact read
  obtain ⟨number, start⟩ := valid.holds.toSized.peek1_spec valid.holds.items valid.holds.room
  have number : (SpscQueue.peek1 ⟨memory, 1, 16, 1, 1 + 65536⟩).2 =
      (1 + 65536 - 1 - (2 ^ 16 - 1 % 2 ^ 16) : Nat) := number
  have second : SpscQueue.peek1 ⟨memory, 1, 16, 1, 1 + 65536⟩ = (some 0, 1) :=
    Prod.ext (start (show 2 ^ 16 - 1 % 2 ^ 16 < 1 + 65536 - 1 by decide)) (number.trans (by decide))
  have reached := wrote.of_restrict
  have peeked : (logs 16).Reachable ⟨⟨memory, 1, 16, 1, 1 + 65536⟩, 65536 - (65536 : Nat), .idle,
      .write1 none 0 (some 0) 1, 97 :: data, [97]⟩ := by
    refine reached.step (a := .flush) ?_
    simp only [logs, flush, second]
    rfl
  have first : (logs 16).Reachable ⟨⟨memory, 1, 16, 1, 1 + 65536⟩, 65536 - (65536 : Nat), .idle,
      .write2 0 (some 0) 1, 97 :: data, [97]⟩ := peeked.step (a := .flush) rfl
  have wroteLast : (logs 16).Reachable ⟨⟨memory, 1, 16, 1, 1 + 65536⟩, 65536 - (65536 : Nat), .idle,
      .pop (.multiPopLoadHead false 1) 1, 97 :: data, [97, 99]⟩ := by
    refine first.step (a := .flush) ?_
    have amount : ofInt 1 = 1 := rfl
    simp only [logs, flush, osWrite, amount, last, Option.bind_eq_bind, Option.bind_some]
    rfl
  refine ⟨_, wroteLast, by rw [given], rfl, ?_⟩
  simp only [given]
  rintro ⟨rest, same⟩
  have second : ([97, 99] ++ rest : List UInt8)[1]? = some 98 := by
    rw [same]
    rfl
  exact absurd second (by simp)

end Mysnips.Log
