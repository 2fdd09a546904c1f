import Mysnips.Log
import Mysnips.SpscQueuePeek

/-! The file as the logged stream. The semaphore counts the free bytes of the buffer
that no call has reserved and no flush still owes, so a push is never refused; and
the flush thread writes the bytes between the head and the tail in two pieces. The
pieces fit together only if the second peek, which loads the tail again, does not
find it past the end of the array when the first one had stopped before that end. -/
namespace Mysnips.Log
open Machine Memory RingSlots Transition SpscQueue

variable {n : Nat} {q q' : Queue} {content data : List UInt8} {s s' : State}

/-! ### The invariant -/

/-- The push of a call of `log_write2` is for `data`, and will not be refused. -/
def Carries (q : Queue) (data : List UInt8) : Producer → Prop
  | .multiPushLoadHead arr _ => arr = some (data.map asItem)
  | .multiPushLoadTail arr num head =>
    arr = some (data.map asItem) ∧ q.tail + num ≤ head + 2 ^ q.capLog2
  | .multiPushStoreItem arr _ _ _ => arr = data.map asItem
  | .multiPushStoreTail arr _ => arr = some (data.map asItem)
  | _ => False

/-- The logged bytes are those taken in and those of the call under way, for which
`reserved` bytes have been taken from the semaphore. -/
def Writing (q : Queue) (logged content : List UInt8) (reserved : Nat) : Writer → Prop
  | .idle => logged = content ∧ reserved = 0
  | .wait data => logged = content ++ data ∧ data.length ≤ 2 ^ q.capLog2 ∧ reserved = 0
  | .push producer =>
    ∃ data, logged = content ++ data ∧ reserved = data.length ∧ Carries q data producer ∧
      Producing q producer

/-- A piece of the array with the `k` bytes from an index on. -/
def Piece (q : Queue) (start : Nat) (ptr : Option Nat) (k : Nat) : Prop :=
  0 < k → ptr = some (start % 2 ^ q.capLog2) ∧ start % 2 ^ q.capLog2 + k ≤ 2 ^ q.capLog2

/-- The file has the bytes up to the head, and those written by the flush under way;
`popped` bytes have left the queue and are still owed to the semaphore. -/
def Flushing (q : Queue) (file content : List UInt8) (popped : Nat) : Flusher → Prop
  | .peek0 => file = content.take q.head ∧ popped = 0
  | .peek1 ptr1 num1 =>
    file = content.take q.head ∧ popped = 0 ∧
      ∃ seen, q.head ≤ seen ∧ seen ≤ q.tail ∧ num1 = (min (seen - q.head) (straight q) : Nat) ∧
        (q.head < seen → ptr1 = some (q.head % 2 ^ q.capLog2))
  | .write1 ptr1 num1 ptr2 num2 =>
    file = content.take q.head ∧ popped = 0 ∧
      ∃ k1 k2 : Nat, num1 = k1 ∧ num2 = k2 ∧ 0 < k1 + k2 ∧ q.head + k1 + k2 ≤ q.tail ∧
        Piece q q.head ptr1 k1 ∧ Piece q (q.head + k1) ptr2 k2
  | .write2 num1 ptr2 num2 =>
    popped = 0 ∧ ∃ k1 k2 : Nat, num1 = k1 ∧ num2 = k2 ∧ 0 < k1 + k2 ∧
      q.head + k1 + k2 ≤ q.tail ∧ Piece q (q.head + k1) ptr2 k2 ∧ file = content.take (q.head + k1)
  | .pop consumer total =>
    popped = 0 ∧ ∃ k : Nat, total = k ∧ 0 < k ∧ q.head + k ≤ q.tail ∧
      file = content.take (q.head + k) ∧
      (consumer = .multiPopLoadHead false k ∨ consumer = .multiPopLoadTail false k q.head ∨
        consumer = .multiPopStoreHead [] k (q.head + k))
  | .signal total => file = content.take q.head ∧ 0 < popped ∧ total = popped

/-- The invariant of the two threads on a buffer of `2 ^ n` bytes that has taken in
`content`. -/
structure Valid (n : Nat) (s : State) (content : List UInt8) (reserved popped : Nat) : Prop where
  holds : Holds s.queue (content.map asItem)
  size : s.queue.capLog2 = n
  bytes : s.queue.itemSize = 1
  writing : Writing s.queue s.logged content reserved s.writer
  flushing : Flushing s.queue s.file content popped s.flusher
  nonneg : 0 ≤ s.sem
  semaphore : s.sem + reserved + popped + s.queue.tail = s.queue.head + (2 ^ s.queue.capLog2 : Nat)

/-- The part of the invariant that is not about the file: what the queue holds, and how the
semaphore counts. -/
structure Taking (n : Nat) (s : State) (content : List UInt8) (reserved popped : Nat) : Prop where
  holds : Holds s.queue (content.map asItem)
  size : s.queue.capLog2 = n
  bytes : s.queue.itemSize = 1
  writing : Writing s.queue s.logged content reserved s.writer
  nonneg : 0 ≤ s.sem
  semaphore : s.sem + reserved + popped + s.queue.tail = s.queue.head + (2 ^ s.queue.capLog2 : Nat)

section Parts

variable {reserved popped : Nat}

theorem Valid.taking (valid : Valid n s content reserved popped) :
    Taking n s content reserved popped :=
  ⟨valid.holds, valid.size, valid.bytes, valid.writing, valid.nonneg, valid.semaphore⟩

theorem Taking.valid (taking : Taking n s content reserved popped)
    (flushing : Flushing s.queue s.file content popped s.flusher) :
    Valid n s content reserved popped :=
  ⟨taking.holds, taking.size, taking.bytes, taking.writing, flushing, taking.nonneg,
    taking.semaphore⟩

end Parts

/-! ### The writer's steps -/

/-- The file is not affected while the writer adds bytes. -/
theorem Flushing.rely {file : List UInt8} {popped : Nat} {flusher : Flusher}
    (added : List UInt8) (known : Flushing q file content popped flusher) (count : content.length = q.tail)
    (items : q.head ≤ q.tail) (head : q'.head = q.head) (tail : q.tail ≤ q'.tail)
    (capLog2 : q'.capLog2 = q.capLog2) : Flushing q' file (content ++ added) popped flusher := by
  have same : ∀ k, k ≤ q.tail → (content ++ added).take k = content.take k := by
    intro k within
    exact List.take_append_of_le_length (by omega)
  have sameStraight : straight q' = straight q := by rw [straight, straight, head, capLog2]
  have piece : ∀ {start ptr k}, Piece q start ptr k → Piece q' start ptr k := by
    intro start ptr k
    rw [Piece, Piece, capLog2]
    exact id
  cases flusher with
  | peek0 => rwa [Flushing, head, same _ items]
  | peek1 ptr1 num1 =>
    obtain ⟨written, owed, seen, low, high, first⟩ := known
    rw [Flushing, head, same _ items, sameStraight, capLog2]
    exact ⟨written, owed, seen, low, by omega, first⟩
  | write1 ptr1 num1 ptr2 num2 =>
    obtain ⟨written, owed, k1, k2, n1, n2, some, below, piece1, piece2⟩ := known
    rw [Flushing, head, same _ items]
    exact ⟨written, owed, k1, k2, n1, n2, some, by omega, piece piece1, piece piece2⟩
  | write2 num1 ptr2 num2 =>
    obtain ⟨owed, k1, k2, n1, n2, some, below, piece2, written⟩ := known
    rw [Flushing, head]
    exact ⟨owed, k1, k2, n1, n2, some, by omega, piece piece2, by rwa [same _ (by omega)]⟩
  | pop consumer total =>
    obtain ⟨owed, k, n, some, below, written, called⟩ := known
    rw [Flushing, head]
    exact ⟨owed, k, n, some, by omega, by rwa [same _ (by omega)], called⟩
  | signal total => rwa [Flushing, head, same _ items]

/-- The copying loop carries the same bytes. -/
private theorem Carries.loop (num tail i : Nat) :
    Carries q data (multiPushLoop (data.map asItem) num tail i) := by
  rw [multiPushLoop]
  split <;> exact rfl

theorem loop_busy (arr : List Item) (num tail i : Nat) :
    multiPushLoop arr num tail i ≠ .idle := by
  rw [multiPushLoop]
  split <;> exact Producer.noConfusion

/-- A step of the push of a call: it goes on without moving the tail, or takes in all
the bytes. -/
theorem Carries.step {producer producer' : Producer} {events : List Event}
    {taken : List Item} (holds : Holds q taken) (known : Producing q producer)
    (carries : Carries q data producer) (room : q.tail + data.length ≤ q.head + 2 ^ q.capLog2)
    (moved : produce q producer = some (q', producer', events)) :
    (producer' ≠ .idle ∧ Carries q' data producer' ∧ q'.tail = q.tail ∧ events = []) ∨
      (producer' = .idle ∧ q'.tail = q.tail + data.length ∧
        events = [.push (data.map asItem) true]) := by
  cases producer with
  | multiPushLoadHead arr num =>
    obtain ⟨items, rfl, rfl, _⟩ := known
    cases carries
    cases moved
    rw [List.length_map]
    exact Or.inl ⟨Producer.noConfusion, ⟨rfl, room⟩, rfl, rfl⟩
  | multiPushLoadTail arr num head =>
    obtain ⟨⟨items, rfl, rfl, short, _⟩, low, high⟩ := known
    obtain ⟨given, granted⟩ := carries
    cases given
    have small := holds.toSized.pow_le
    have kept := holds.items
    simp only [produce, holds.used_eq (show head ≤ q.tail by omega) high, holds.toSized.cap_eq,
      add32_eq (show q.tail - head + (data.map asItem).length < 2 ^ 32 by omega),
      if_neg (show ¬ q.tail - head + (data.map asItem).length > 2 ^ q.capLog2 by omega)] at moved
    split at moved
    · cases moved
      exact Or.inl ⟨loop_busy _ _ _ _, .loop _ _ _, rfl, rfl⟩
    · cases moved
  | multiPushStoreItem arr num tail i =>
    cases carries
    simp only [produce, Option.bind_eq_bind, Option.bind_eq_some_iff] at moved
    obtain ⟨src, _, queue, stored, same⟩ := moved
    have frame : queue.tail = q.tail := by
      rw [storeItem] at stored
      split at stored
      · simp only [Option.bind_eq_bind, Option.bind_eq_some_iff] at stored
        obtain ⟨items, _, given⟩ := stored
        cases given
        rfl
      · cases stored
    cases same
    exact Or.inl ⟨loop_busy _ _ _ _, .loop _ _ _, frame, rfl⟩
  | multiPushStoreTail arr newTail =>
    obtain ⟨items, rfl, next, _⟩ := known
    cases carries
    cases moved
    rw [List.length_map] at next
    exact Or.inr ⟨rfl, next, rfl⟩
  | _ => exact absurd carries id

/-- Every step of `log_write2`, which takes in the bytes of the call or none. -/
theorem Taking.write {reserved popped : Nat} (valid : Taking n s content reserved popped)
    (moved : Log.write s = some s') : ∃ added reserved',
      Taking n s' (content ++ added) reserved' popped ∧ s'.flusher = s.flusher ∧
        s'.file = s.file ∧ s'.queue.head = s.queue.head ∧ s.queue.tail ≤ s'.queue.tail ∧
          s'.queue.capLog2 = s.queue.capLog2 := by
  have holds := valid.holds
  have kept := holds.items
  have nonneg := valid.nonneg
  have semaphore := valid.semaphore
  have writing := valid.writing
  have small := holds.toSized.pow_le
  rw [Log.write] at moved
  cases writer : s.writer with
  | idle => simp [writer] at moved
  | wait data =>
    rw [writer] at writing
    obtain ⟨logged, short, rfl⟩ := writing
    simp only [writer, Option.bind_eq_bind, Option.bind_eq_some_iff] at moved
    obtain ⟨sem, waited, same⟩ := moved
    rw [int32_eq (by omega) (by omega), semaphoreWait] at waited
    split at waited
    · split at waited
      · cases waited
      · rename_i enough
        have difference : int32 (s.sem - data.length) = s.sem - data.length :=
          int32_eq (by omega) (by omega)
        cases same
        rw [difference] at waited
        cases waited
        refine ⟨[], data.length, ?_, rfl, rfl, rfl, Nat.le_refl _, rfl⟩
        rw [List.append_nil]
        refine { valid with writing := ?_, nonneg := ?_, semaphore := ?_ }
        · refine ⟨data, logged, rfl, rfl, data.map asItem, rfl, (List.length_map _).symm, by omega, ?_⟩
          intro src member
          obtain ⟨byte, _, rfl⟩ := List.mem_map.mp member
          exact valid.bytes.symm
        · simp only
          omega
        · simp only
          omega
    · cases waited
  | push producer =>
    rw [writer] at writing
    obtain ⟨data, logged, rfl, carries, producing⟩ := writing
    simp only [writer, Option.bind_eq_bind, Option.bind_eq_some_iff] at moved
    obtain ⟨⟨queue, producer', events⟩, produced, same⟩ := moved
    cases same
    have spec := produce_spec holds producing produced
    have sameHead := spec.head
    have sameCap := spec.shape.1
    have fresh := spec.holds
    rcases carries.step holds producing (by omega) produced with
      ⟨busy, carries', tail, nothing⟩ | ⟨done, tail, all⟩
    · simp only [nothing, accepted, List.flatMap_nil, List.append_nil] at fresh
      refine ⟨[], data.length, ?_, rfl, rfl, sameHead, spec.tail, sameCap⟩
      rw [List.append_nil]
      refine ⟨fresh, sameCap.trans valid.size, spec.shape.2.trans valid.bytes, ?_, nonneg, ?_⟩
      · simp only [if_neg busy]
        exact ⟨data, logged, rfl, carries', spec.known⟩
      · simp only [sameHead, sameCap, tail]
        omega
    · simp only [all, accepted, List.flatMap_cons, List.flatMap_nil, List.append_nil,
        ← List.map_append] at fresh
      refine ⟨data, 0, ?_, rfl, rfl, sameHead, spec.tail, sameCap⟩
      refine ⟨fresh, sameCap.trans valid.size, spec.shape.2.trans valid.bytes, ?_, nonneg, ?_⟩
      · simp only [if_pos done]
        exact ⟨logged, rfl⟩
      · simp only [sameHead, sameCap, tail]
        omega

theorem Valid.write {reserved popped : Nat} (valid : Valid n s content reserved popped)
    (moved : Log.write s = some s') :
    ∃ content' reserved', Valid n s' content' reserved' popped := by
  have count := valid.holds.count
  rw [List.length_map] at count
  obtain ⟨added, reserved', taking, flusher, file, head, tail, capLog2⟩ := valid.taking.write moved
  refine ⟨content ++ added, reserved', taking.valid ?_⟩
  rw [flusher, file]
  exact valid.flushing.rely added count valid.holds.items head tail capLog2

/-! ### The flush thread's steps -/

/-- What the writer knows holds on while the flush thread moves `head`. -/
theorem Writing.rely {logged : List UInt8} {reserved : Nat} {writer : Writer}
    (known : Writing q logged content reserved writer) (advanced : q.head ≤ q'.head)
    (same : { q with head := q'.head } = q') : Writing q' logged content reserved writer := by
  have tail : q'.tail = q.tail := by rw [← same]
  have capLog2 : q'.capLog2 = q.capLog2 := by rw [← same]
  cases writer with
  | idle => exact known
  | wait data => rwa [Writing, capLog2]
  | push producer =>
    obtain ⟨data, given, count, carries, producing⟩ := known
    refine ⟨data, given, count, ?_, producing.rely advanced same⟩
    cases producer <;> first | exact carries | rwa [Carries, tail, capLog2]

/-- Writing a piece appends its bytes. -/
private theorem Piece.written {start k : Nat} {ptr : Option Nat} {appended : List UInt8}
    (piece : Piece q start ptr k) (holds : Holds q (content.map asItem)) (bytes : q.itemSize = 1)
    (low : q.head ≤ start) (high : start + k ≤ q.tail)
    (wrote : osWrite q.items ptr k = some appended) : appended = (content.drop start).take k := by
  rcases Nat.eq_zero_or_pos k with rfl | positive
  · have length : appended.length = 0 := by
      cases ptr with
      | none =>
        cases wrote
        rfl
      | some off => exact load_length wrote
    rw [List.eq_nil_of_length_eq_zero length, List.take_zero]
  · obtain ⟨rfl, inside⟩ := piece positive
    rw [osWrite, holds.load_bytes bytes low high inside] at wrote
    cases wrote
    rfl

/-- `spsc_queue_peek_0` stopped before the end of the array, and the tail is past that
end by now. -/
def Overtaken (q : Queue) : Flusher → Prop
  | .peek1 _ num1 => num1 < straight q ∧ straight q < q.tail - q.head
  | _ => False

instance (q : Queue) : (flusher : Flusher) → Decidable (Overtaken q flusher)
  | .peek1 _ _ => inferInstanceAs (Decidable (_ ∧ _))
  | .peek0 => inferInstanceAs (Decidable False)
  | .write1 _ _ _ _ => inferInstanceAs (Decidable False)
  | .write2 _ _ _ => inferInstanceAs (Decidable False)
  | .pop _ _ => inferInstanceAs (Decidable False)
  | .signal _ => inferInstanceAs (Decidable False)

/-- The two pieces that a flush finds fit together, unless it is overtaken. -/
private theorem pieces_fit {seen : Nat} {ptr1 : Option Nat} {num1 : Int} (holds : Holds q (content.map asItem))
    (low : q.head ≤ seen) (high : seen ≤ q.tail)
    (first : num1 = (min (seen - q.head) (straight q) : Nat))
    (found : q.head < seen → ptr1 = some (q.head % 2 ^ q.capLog2))
    (apart : ¬ Overtaken q (.peek1 ptr1 num1)) :
    ∃ k1 k2 : Nat, num1 = k1 ∧ (SpscQueue.peek1 q).2 = k2 ∧ k1 + k2 ≤ 2 ^ q.capLog2 ∧
      q.head + k1 + k2 ≤ q.tail ∧ Piece q q.head ptr1 k1 ∧
      Piece q (q.head + k1) (SpscQueue.peek1 q).1 k2 := by
  have kept := holds.items
  have room := holds.room
  have below := Nat.mod_lt q.head (Nat.two_pow_pos q.capLog2)
  obtain ⟨second, start⟩ := holds.toSized.peek1_spec kept room
  simp only [Overtaken, first] at apart
  have length : straight q = 2 ^ q.capLog2 - q.head % 2 ^ q.capLog2 := rfl
  refine ⟨min (seen - q.head) (straight q), q.tail - q.head - straight q, first, second, by omega,
    by omega, fun positive => ⟨found (by omega), by omega⟩, fun positive => ?_⟩
  -- a second piece starts at the start of the array, where the first one has ended
  have ended : q.head + min (seen - q.head) (straight q) =
      2 ^ q.capLog2 * (q.head / 2 ^ q.capLog2) + 2 ^ q.capLog2 := by
    have parts := Nat.div_add_mod q.head (2 ^ q.capLog2)
    omega
  rw [ended, ← Nat.mul_succ, Nat.mul_mod_right]
  exact ⟨start (by omega), by omega⟩

/-- Appending the next bytes to a beginning of the stream. -/
private theorem take_extend (content : List UInt8) (start k : Nat) :
    content.take start ++ (content.drop start).take k = content.take (start + k) :=
  (List.take_add).symm

/-- The pop of `k` bytes without a destination. -/
def Popping (q : Queue) (k : Nat) (consumer : Consumer) : Prop :=
  consumer = .multiPopLoadHead false k ∨ consumer = .multiPopLoadTail false k q.head ∨
    consumer = .multiPopStoreHead [] k (q.head + k)

/-- A step of the pop: it goes on, or moves the head behind the bytes. -/
theorem Popping.step {k : Nat} {consumer consumer' : Consumer} {events : List Event}
    {taken : List Item} (popping : Popping q k consumer) (holds : Holds q taken)
    (below : q.head + k ≤ q.tail) (moved : consume q consumer = some (q', consumer', events)) :
    (consumer' ≠ .idle ∧ Popping q k consumer' ∧ q' = q ∧ events = []) ∨
      (consumer' = .idle ∧ q' = { q with head := q.head + k } ∧ events = [.pop k [] true]) := by
  have fits := holds.fits
  rcases popping with rfl | rfl | rfl
  · cases moved
    exact .inl ⟨by simp, .inr (.inl rfl), rfl, rfl⟩
  · have sum : add64 q.head k = q.head + k := add64_eq (by omega)
    simp only [consume, holds.used_eq holds.items holds.room, sum,
      if_neg (show ¬ q.tail - q.head < k by omega)] at moved
    split at moved
    · cases moved
      exact .inl ⟨by simp, .inr (.inr rfl), rfl, rfl⟩
    · cases moved
  · cases moved
    exact .inr ⟨rfl, rfl, rfl⟩

/-- The head moves behind bytes that are owed from then on. -/
theorem Taking.release {reserved k : Nat} (taking : Taking n s content reserved 0)
    (below : s.queue.head + k ≤ s.queue.tail) (flusher : Flusher) :
    Taking n { s with queue := { s.queue with head := s.queue.head + k }, flusher } content
      reserved k := by
  have holds := taking.holds
  have room := holds.room
  have semaphore := taking.semaphore
  have released : Holds { s.queue with head := s.queue.head + k } (content.map asItem) :=
    { toSized := ⟨holds.capacity, holds.whole, holds.small⟩
      count := holds.count
      fits := holds.fits
      items := below
      room := by simp only; omega
      stored := fun low high => holds.stored (Nat.le_of_add_right_le low) high }
  refine ⟨released, taking.size, taking.bytes, ?_, taking.nonneg, ?_⟩
  · exact taking.writing.rely (Nat.le_add_right _ _) rfl
  · simp only
    omega

/-- What is owed goes back to the semaphore. -/
theorem Taking.signal {reserved popped : Nat} (taking : Taking n s content reserved popped)
    (positive : 0 < popped) (flusher : Flusher) :
    semaphoreSignal s.sem popped = some (s.sem + popped) ∧
      Taking n { s with sem := s.sem + popped, flusher } content reserved 0 := by
  have kept := taking.holds.items
  have small := taking.holds.toSized.pow_le
  have nonneg := taking.nonneg
  have semaphore := taking.semaphore
  constructor
  · rw [semaphoreSignal, if_pos (by omega), int32_eq (by omega) (by omega)]
  · refine { taking with nonneg := ?_, semaphore := ?_ }
    · simp only
      omega
    · simp only
      omega

/-- The head after a pop without a destination. -/
private theorem Valid.pop {reserved popped : Nat} {consumer consumer' : Consumer} {total : Int}
    {events : List Event} (valid : Valid n s content reserved popped)
    (flusher : s.flusher = .pop consumer total)
    (moved : consume s.queue consumer = some (q', consumer', events)) :
    ∃ popped', Valid n { s with queue := q', flusher :=
      if consumer' = .idle then .signal total else .pop consumer' total } content reserved popped' := by
  have flushing := valid.flushing
  rw [flusher] at flushing
  obtain ⟨rfl, k, rfl, some, below, written, called⟩ := flushing
  rcases Popping.step called valid.holds below moved with
    ⟨busy, called', rfl, -⟩ | ⟨done, rfl, -⟩
  · rw [if_neg busy]
    exact ⟨0, { valid with flushing := ⟨rfl, k, rfl, some, below, written, called'⟩ }⟩
  · rw [if_pos done]
    exact ⟨k, (valid.taking.release below _).valid ⟨written, some, rfl⟩⟩

/-- Every step of the flush thread, unless it is overtaken. -/
theorem Valid.flush {reserved popped : Nat} (valid : Valid n s content reserved popped)
    (apart : ¬ Overtaken s.queue s.flusher) (moved : Log.flush s = some s') :
    ∃ popped', Valid n s' content reserved popped' := by
  have holds := valid.holds
  have kept := holds.items
  have room := holds.room
  have small := holds.toSized.pow_le
  have flushing := valid.flushing
  rw [Log.flush] at moved
  cases flusher : s.flusher with
  | peek0 =>
    rw [flusher] at flushing
    obtain ⟨written, owed⟩ := flushing
    obtain ⟨number, found⟩ := holds.toSized.peek0_spec kept room
    rw [slot, valid.bytes, Nat.one_mul] at found
    simp only [flusher] at moved
    cases moved
    exact ⟨popped, { valid with flushing :=
      ⟨written, owed, s.queue.tail, kept, Nat.le_refl _, number, found⟩ }⟩
  | peek1 ptr1 num1 =>
    rw [flusher] at flushing apart
    obtain ⟨written, owed, seen, low, high, first, found⟩ := flushing
    obtain ⟨k1, k2, n1, n2, total, below, piece1, piece2⟩ :=
      pieces_fit holds low high first found apart
    simp only [flusher, n1, n2, int32_eq (show -2 ^ 31 ≤ (k1 : Int) + k2 by omega) (by omega)] at moved
    split at moved
    · cases moved
      exact ⟨popped, { valid with flushing :=
        ⟨written, owed, k1, k2, rfl, rfl, by omega, below, piece1, piece2⟩ }⟩
    · cases moved
      exact ⟨popped, { valid with flushing := ⟨written, owed⟩ }⟩
  | write1 ptr1 num1 ptr2 num2 =>
    rw [flusher] at flushing
    obtain ⟨written, owed, k1, k2, rfl, rfl, some, below, piece1, piece2⟩ := flushing
    have length : ofInt (k1 : Int) = k1 := by rw [ofInt_eq (by omega) (by omega), Int.toNat_natCast]
    simp only [flusher, length, Option.bind_eq_bind, Option.bind_eq_some_iff] at moved
    obtain ⟨bytes, wrote, same⟩ := moved
    cases same
    refine ⟨popped, { valid with flushing := ⟨owed, k1, k2, rfl, rfl, some, below, piece2, ?_⟩ }⟩
    rw [written, piece1.written holds valid.bytes (Nat.le_refl _) (by omega) wrote, take_extend]
  | write2 num1 ptr2 num2 =>
    rw [flusher] at flushing
    obtain ⟨owed, k1, k2, rfl, rfl, some, below, piece2, written⟩ := flushing
    have length : ofInt (k2 : Int) = k2 := by rw [ofInt_eq (by omega) (by omega), Int.toNat_natCast]
    have total : int32 ((k1 : Int) + k2) = (k1 + k2 : Nat) := by
      rw [int32_eq (by omega) (by omega), Int.natCast_add]
    simp only [flusher, length, total, Option.bind_eq_bind, Option.bind_eq_some_iff] at moved
    obtain ⟨bytes, wrote, same⟩ := moved
    have within : s.queue.head + (k1 + k2) ≤ s.queue.tail := by omega
    rw [if_pos (by omega)] at same
    cases same
    refine ⟨popped, { valid with flushing := ⟨owed, k1 + k2, rfl, some, within, ?_, Or.inl rfl⟩ }⟩
    rw [written, piece2.written holds valid.bytes (Nat.le_add_right _ _) below wrote, take_extend,
      Nat.add_assoc]
  | pop consumer total =>
    simp only [flusher, Option.bind_eq_bind, Option.bind_eq_some_iff] at moved
    obtain ⟨⟨queue, consumer', events⟩, consumed, same⟩ := moved
    cases same
    exact valid.pop flusher consumed
  | signal total =>
    rw [flusher] at flushing
    obtain ⟨written, some, rfl⟩ := flushing
    simp only [flusher, Option.bind_eq_bind, Option.bind_eq_some_iff] at moved
    obtain ⟨sem, signalled, same⟩ := moved
    obtain ⟨granted, taking⟩ := valid.taking.signal some .peek0
    rw [granted] at signalled
    cases signalled
    cases same
    exact ⟨0, taking.valid ⟨written, rfl⟩⟩

end Mysnips.Log
