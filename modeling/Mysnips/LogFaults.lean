import Mysnips.LogAccounts

/-! The threads of the logger do not fail. The pieces that the two peeks find are inside the
array, also when the flush is overtaken, so they can be read; the push and the pop find what they
need; and the counts are not negative. What is left to stop a call of `log_write2` is the
semaphore, or an index at the end of its range. -/
namespace Mysnips.Log
open Machine Memory Transition SpscQueue

variable {n reserved popped : Nat} {q q' : Queue} {content : List UInt8} {s s' : State}

/-- A piece that can be read. -/
def Inside (q : Queue) (ptr : Option Nat) (num : Int) : Prop :=
  ∃ k : Nat, num = k ∧ ptr.getD 0 + k ≤ 2 ^ q.capLog2 ∧ (ptr = none → k = 0)

/-- The pieces of a flush can be read. -/
def Readable (q : Queue) : Flusher → Prop
  | .peek1 ptr1 num1 => Inside q ptr1 num1
  | .write1 ptr1 num1 ptr2 num2 => Inside q ptr1 num1 ∧ Inside q ptr2 num2
  | .write2 _ ptr2 num2 => Inside q ptr2 num2
  | _ => True

theorem Readable.rely {flusher : Flusher} (readable : Readable q flusher)
    (capLog2 : q'.capLog2 = q.capLog2) : Readable q' flusher := by
  have inside : ∀ {ptr num}, Inside q ptr num → Inside q' ptr num := by
    intro ptr num
    rw [Inside, Inside, capLog2]
    exact id
  cases flusher with
  | peek1 ptr1 num1 => exact inside readable
  | write1 ptr1 num1 ptr2 num2 => exact ⟨inside readable.1, inside readable.2⟩
  | write2 num1 ptr2 num2 => exact inside readable
  | _ => trivial

theorem Inside.reads {ptr : Option Nat} {num : Int} (inside : Inside q ptr num)
    (holds : Holds q (content.map asItem)) (bytes : q.itemSize = 1) :
    ∃ data, osWrite q.items ptr (ofInt num) = some data := by
  obtain ⟨k, rfl, within, null⟩ := inside
  have small := holds.toSized.pow_le
  have whole := holds.whole
  rw [bytes, Nat.one_mul] at whole
  have amount : ofInt (k : Int) = k := ofInt_natCast (by omega)
  rw [amount]
  cases ptr with
  | none => exact ⟨[], if_pos (null rfl)⟩
  | some off => exact ⟨_, load_eq (by rw [whole]; exact within)⟩

/-- What the first peek finds. -/
theorem inside_peek0 (holds : Holds q (content.map asItem)) (bytes : q.itemSize = 1) :
    Inside q (SpscQueue.peek0 q).1 (SpscQueue.peek0 q).2 := by
  have room := holds.room
  have below := Nat.mod_lt q.head (Nat.two_pow_pos q.capLog2)
  have length : straight q = 2 ^ q.capLog2 - q.head % 2 ^ q.capLog2 := rfl
  obtain ⟨number, found⟩ := holds.toSized.peek0_spec holds.items room
  refine ⟨_, number, ?_⟩
  rcases Nat.eq_or_lt_of_le holds.items with empty | more
  · simp [(peeks_empty empty).1, empty]
  · rw [found more, RingSlots.slot, bytes, Nat.one_mul, Option.getD_some]
    exact ⟨by omega, by simp⟩

/-- What the second peek finds. -/
theorem inside_peek1 (holds : Holds q (content.map asItem)) :
    Inside q (SpscQueue.peek1 q).1 (SpscQueue.peek1 q).2 := by
  have room := holds.room
  obtain ⟨number, start⟩ := holds.toSized.peek1_spec holds.items room
  refine ⟨_, number, ?_⟩
  have kept := holds.items
  rcases peek1_ptr q with none | first
  · have nothing : ¬ straight q < q.tail - q.head := by
      intro more
      rw [start more] at none
      cases none
    rw [none, Option.getD_none]
    exact ⟨by omega, fun _ => by omega⟩
  · rw [first, Option.getD_some]
    exact ⟨by omega, by simp⟩

theorem Readable.flush (readable : Readable s.queue s.flusher)
    (accounted : Accounted n s content reserved popped) (moved : Log.flush s = some s') :
    Readable s'.queue s'.flusher := by
  rw [Log.flush] at moved
  cases flusher : s.flusher with
  | peek0 =>
    simp only [flusher] at moved
    cases moved
    exact inside_peek0 accounted.holds accounted.bytes
  | peek1 ptr1 num1 =>
    rw [flusher] at readable
    simp only [flusher] at moved
    split at moved
    · cases moved
      exact ⟨readable, inside_peek1 accounted.holds⟩
    · cases moved
      trivial
  | write1 ptr1 num1 ptr2 num2 =>
    rw [flusher] at readable
    simp only [flusher, Option.bind_eq_bind, Option.bind_eq_some_iff] at moved
    obtain ⟨data, -, same⟩ := moved
    cases same
    exact readable.2
  | write2 num1 ptr2 num2 =>
    simp only [flusher, Option.bind_eq_bind, Option.bind_eq_some_iff] at moved
    obtain ⟨data, -, same⟩ := moved
    split at same
    · cases same
      trivial
    · cases same
  | pop consumer total =>
    simp only [flusher, Option.bind_eq_bind, Option.bind_eq_some_iff] at moved
    obtain ⟨result, -, same⟩ := moved
    cases same
    simp only
    split <;> trivial
  | signal total =>
    simp only [flusher, Option.bind_eq_bind, Option.bind_eq_some_iff] at moved
    obtain ⟨sem, -, same⟩ := moved
    cases same
    trivial

theorem reachable_readable (small : n ≤ 30) (reached : (logs n).Reachable s) :
    Readable s.queue s.flusher := by
  apply reached.invariant (P := fun s => Readable s.queue s.flusher)
  · rintro s ⟨data, -, rfl⟩
    trivial
  · intro s action s' before readable moved
    obtain ⟨content, reserved, popped, accounted⟩ := reachable_accounted small before
    cases action with
    | logWrite2 data =>
      obtain ⟨-, rest⟩ := Option.ite_none_right_eq_some.mp moved
      cases rest
      exact readable
    | write =>
      obtain ⟨_, _, -, flusher, -, -, -, capLog2⟩ := accounted.toTaking.write moved
      rw [flusher]
      exact readable.rely capLog2
    | flush => exact readable.flush accounted moved

/-! ### The steps that are there -/

/-- The flush thread goes on from every state. -/
theorem flush_enabled (small : n ≤ 30) (reached : (logs n).Reachable s) :
    ∃ s', flush s = some s' := by
  obtain ⟨content, reserved, popped, accounted⟩ := reachable_accounted small reached
  have readable := reachable_readable small reached
  have owing := accounted.owing
  have holds := accounted.holds
  have room := holds.room
  have power := holds.toSized.pow_le
  rw [flush]
  cases flusher : s.flusher with
  | peek0 => exact ⟨_, rfl⟩
  | peek1 ptr1 num1 =>
    simp only
    split <;> exact ⟨_, rfl⟩
  | write1 ptr1 num1 ptr2 num2 =>
    rw [flusher] at readable
    obtain ⟨data, wrote⟩ := readable.1.reads holds accounted.bytes
    simp only [wrote, Option.bind_eq_bind, Option.bind_some]
    exact ⟨_, rfl⟩
  | write2 num1 ptr2 num2 =>
    rw [flusher] at readable owing
    obtain ⟨data, wrote⟩ := Inside.reads readable holds accounted.bytes
    obtain ⟨-, k1, k2, rfl, rfl, some, below⟩ := owing
    have total : int32 ((k1 : Int) + k2) = (k1 + k2 : Nat) := by
      rw [int32_eq (by omega) (by omega), Int.natCast_add]
    simp only [wrote, total, Option.bind_eq_bind, Option.bind_some]
    exact ⟨_, if_pos (Int.natCast_nonneg _)⟩
  | pop consumer total =>
    rw [flusher] at owing
    obtain ⟨-, k, -, some, below, popping⟩ := owing
    have fits := holds.fits
    have stepped : ∃ result, consume s.queue consumer = .some result := by
      rcases popping with rfl | rfl | rfl
      · exact ⟨_, rfl⟩
      · have limit : sub64 uint64Max k = 2 ^ 64 - 1 - k :=
          sub64_eq (show k ≤ 2 ^ 64 - 1 by omega) (by decide)
        simp only [consume, holds.used_eq holds.items room, limit,
          if_neg (show ¬ s.queue.tail - s.queue.head < k by omega),
          if_pos (show s.queue.head ≤ 2 ^ 64 - 1 - k by omega), Bool.false_eq_true, if_false]
        exact ⟨_, rfl⟩
      · exact ⟨_, rfl⟩
    obtain ⟨result, consumed⟩ := stepped
    simp only [consumed, Option.bind_eq_bind, Option.bind_some]
    exact ⟨_, rfl⟩
  | signal total =>
    rw [flusher] at owing
    obtain ⟨some, rfl⟩ := owing
    obtain ⟨signalled, -⟩ := accounted.toTaking.signal some .peek0
    simp only [signalled, Option.bind_eq_bind, Option.bind_some]
    exact ⟨_, rfl⟩

/-- A call of `log_write2` goes on, unless the semaphore holds it back. -/
theorem write_enabled (small : n ≤ 30) (reached : (logs n).Reachable s)
    (fits : s.queue.tail + 2 ^ n < 2 ^ 64 - 1) (busy : s.writer ≠ .idle)
    (free : ∀ data, s.writer = .wait data → 0 < data.length ∧ data.length ≤ s.sem) :
    ∃ s', write s = some s' := by
  obtain ⟨content, reserved, popped, accounted⟩ := reachable_accounted small reached
  have holds := accounted.holds
  have power := holds.toSized.pow_le
  have size := accounted.size
  have writing := accounted.writing
  have semaphore := accounted.semaphore
  have nonneg := accounted.nonneg
  have kept := holds.items
  rw [size] at semaphore power
  rw [write]
  cases writer : s.writer with
  | idle => exact absurd writer busy
  | wait data =>
    rw [writer] at writing
    obtain ⟨-, short, -⟩ := writing
    rw [size] at short
    obtain ⟨some, enough⟩ := free data writer
    have length : int32 data.length = data.length := int32_eq (by omega) (by omega)
    simp only [length, semaphoreWait, if_pos (show (data.length : Int) > 0 by omega),
      if_neg (show ¬ s.sem < data.length by omega), Option.bind_eq_bind, Option.bind_some]
    exact ⟨_, rfl⟩
  | push producer =>
    rw [writer] at writing
    obtain ⟨data, -, rfl, carries, producing⟩ := writing
    have stepped : ∃ result, produce s.queue producer = some result := by
      cases producer with
      | multiPushLoadHead arr num => exact ⟨_, rfl⟩
      | multiPushLoadTail arr num head =>
        obtain ⟨⟨items, rfl, rfl, -⟩, low, high⟩ := producing
        obtain ⟨given, granted⟩ := carries
        cases given
        rw [List.length_map] at granted
        rw [size] at granted high
        have limit : sub64 uint64Max data.length = 2 ^ 64 - 1 - data.length :=
          sub64_eq (show data.length ≤ 2 ^ 64 - 1 by omega) (by decide)
        simp only [produce, holds.used_eq (show head ≤ s.queue.tail by omega) (by rw [size]; exact high),
          holds.toSized.cap_eq, size, List.length_map, limit,
          add32_eq (show s.queue.tail - head + data.length < 2 ^ 32 by omega),
          if_neg (show ¬ s.queue.tail - head + data.length > 2 ^ n by omega),
          if_pos (show s.queue.tail < 2 ^ 64 - 1 - data.length by omega)]
        exact ⟨_, rfl⟩
      | multiPushStoreItem arr num tail i =>
        obtain ⟨rfl, rfl, more, last, ready⟩ := producing
        obtain ⟨items, stored, -⟩ := holds.storeNext ready (List.getElem?_eq_getElem more)
        have sum : add64 s.queue.tail i = s.queue.tail + i := add64_eq (by omega)
        rw [produce, List.getElem?_eq_getElem more, Option.bind_eq_bind, Option.bind_some, sum, stored]
        exact ⟨_, rfl⟩
      | multiPushStoreTail arr newTail => exact ⟨_, rfl⟩
      | _ => exact absurd carries id
    obtain ⟨result, produced⟩ := stepped
    simp only [produced, Option.bind_eq_bind, Option.bind_some]
    exact ⟨_, rfl⟩

/-- What the semaphore lets through is not empty, and there are as many permits. -/
theorem write_waited (small : n ≤ 30) (reached : (logs n).Reachable s) {data : List UInt8}
    (waits : s.writer = .wait data) (moved : write s = some s') :
    0 < data.length ∧ data.length ≤ s.sem := by
  obtain ⟨content, reserved, popped, accounted⟩ := reachable_accounted small reached
  have power := accounted.holds.toSized.pow_le
  have writing := accounted.writing
  have size := accounted.size
  rw [waits] at writing
  obtain ⟨-, short, -⟩ := writing
  rw [size] at short power
  have length : int32 data.length = data.length := int32_eq (by omega) (by omega)
  simp only [write, waits, length, semaphoreWait, Option.bind_eq_bind, Option.bind_eq_some_iff] at moved
  obtain ⟨sem, waited, -⟩ := moved
  obtain ⟨some, waited⟩ := Option.ite_none_right_eq_some.mp waited
  obtain ⟨enough, -⟩ := Option.ite_none_left_eq_some.mp waited
  omega

/-! ### The length of a flush -/

/-- The most steps until the flush thread leaves the buffer. -/
def Flusher.steps : Flusher → Nat
  | .peek0 => 8
  | .peek1 _ _ => 7
  | .write1 _ _ _ _ => 6
  | .write2 _ _ _ => 5
  | .pop (.multiPopLoadHead _ _) _ => 4
  | .pop (.multiPopLoadTail _ _ _) _ => 3
  | .pop _ _ => 2
  | .signal _ => 1

theorem Flusher.steps_pos (flusher : Flusher) : 0 < flusher.steps := by
  cases flusher with
  | pop consumer total => cases consumer <;> simp [steps]
  | _ => simp [steps]

/-- Each step of the flush thread brings it nearer to the end of the flush. -/
theorem flush_nearer (small : n ≤ 30) (reached : (logs n).Reachable s) (moved : flush s = some s') :
    s'.flusher = .peek0 ∨ s'.flusher.steps < s.flusher.steps := by
  obtain ⟨content, reserved, popped, accounted⟩ := reachable_accounted small reached
  have owing := accounted.owing
  rw [flush] at moved
  cases flusher : s.flusher with
  | peek0 =>
    simp only [flusher] at moved
    cases moved
    exact .inr (by simp [Flusher.steps])
  | peek1 ptr1 num1 =>
    simp only [flusher] at moved
    split at moved
    · cases moved
      exact .inr (by simp [Flusher.steps])
    · cases moved
      exact .inl rfl
  | write1 ptr1 num1 ptr2 num2 =>
    simp only [flusher, Option.bind_eq_bind, Option.bind_eq_some_iff] at moved
    obtain ⟨data, -, same⟩ := moved
    cases same
    exact .inr (by simp [Flusher.steps])
  | write2 num1 ptr2 num2 =>
    simp only [flusher, Option.bind_eq_bind, Option.bind_eq_some_iff] at moved
    obtain ⟨data, -, same⟩ := moved
    split at same
    · cases same
      exact .inr (by simp [Flusher.steps])
    · cases same
  | pop consumer total =>
    rw [flusher] at owing
    obtain ⟨-, k, -, -, below, popping⟩ := owing
    simp only [flusher, Option.bind_eq_bind, Option.bind_eq_some_iff] at moved
    obtain ⟨⟨queue, consumer', events⟩, consumed, same⟩ := moved
    cases same
    refine .inr ?_
    rcases popping with rfl | rfl | rfl
    · cases consumed
      simp [Flusher.steps]
    · rcases Popping.step (.inr (.inl rfl)) accounted.holds below consumed with
        ⟨busy, popping', -, -⟩ | ⟨done, -, -⟩
      · simp only [consume] at consumed
        split at consumed
        · cases consumed
          exact absurd rfl busy
        · split at consumed
          · cases consumed
            simp [Flusher.steps]
          · cases consumed
      · simp [done, Flusher.steps]
    · cases consumed
      simp [Flusher.steps]
  | signal total =>
    simp only [flusher, Option.bind_eq_bind, Option.bind_eq_some_iff] at moved
    obtain ⟨sem, -, same⟩ := moved
    cases same
    exact .inl rfl

/-! ### A flush of all that is there -/

/-- The flush is of all that is in the buffer. -/
def Draining (q : Queue) : Flusher → Prop
  | .peek0 => True
  | .peek1 _ num1 => num1 = (min (q.tail - q.head) (straight q) : Nat)
  | .write1 _ num1 _ num2 | .write2 num1 _ num2 => num1 + num2 = (q.tail - q.head : Nat)
  | .pop _ total => total = (q.tail - q.head : Nat)
  | .signal _ => q.head = q.tail

/-- While nobody logs, a flush empties the buffer. -/
theorem Draining.flush (draining : Draining s.queue s.flusher)
    (accounted : Accounted n s content reserved popped) (moved : Log.flush s = some s') :
    Draining s'.queue s'.flusher ∧ (s'.flusher = .peek0 → s'.queue.head = s'.queue.tail) := by
  have owing := accounted.owing
  have holds := accounted.holds
  have kept := holds.items
  have room := holds.room
  have power := holds.toSized.pow_le
  rw [Log.flush] at moved
  cases flusher : s.flusher with
  | peek0 =>
    simp only [flusher] at moved
    cases moved
    exact ⟨(holds.toSized.peek0_spec kept room).1, by simp⟩
  | peek1 ptr1 num1 =>
    rw [flusher] at draining
    have first : num1 = (min (s.queue.tail - s.queue.head) (straight s.queue) : Nat) := draining
    have second := (holds.toSized.peek1_spec kept room).1
    have total : num1 + (SpscQueue.peek1 s.queue).2 = (s.queue.tail - s.queue.head : Nat) := by omega
    simp only [flusher] at moved
    rw [total, int32_natCast (by omega)] at moved
    split at moved
    · cases moved
      exact ⟨total, by simp⟩
    · cases moved
      exact ⟨trivial, fun _ => by simp only; omega⟩
  | write1 ptr1 num1 ptr2 num2 =>
    rw [flusher] at draining
    simp only [flusher, Option.bind_eq_bind, Option.bind_eq_some_iff] at moved
    obtain ⟨data, -, same⟩ := moved
    cases same
    exact ⟨draining, by simp⟩
  | write2 num1 ptr2 num2 =>
    rw [flusher] at draining
    have total : num1 + num2 = (s.queue.tail - s.queue.head : Nat) := draining
    simp only [flusher, Option.bind_eq_bind, Option.bind_eq_some_iff] at moved
    obtain ⟨data, -, same⟩ := moved
    rw [total, int32_natCast (by omega)] at same
    split at same
    · cases same
      exact ⟨rfl, by simp⟩
    · cases same
  | pop consumer total =>
    rw [flusher] at draining owing
    have all : total = (s.queue.tail - s.queue.head : Nat) := draining
    obtain ⟨-, k, count, -, below, popping⟩ := owing
    simp only [flusher, Option.bind_eq_bind, Option.bind_eq_some_iff] at moved
    obtain ⟨⟨queue, consumer', events⟩, consumed, same⟩ := moved
    cases same
    rcases popping.step holds below consumed with ⟨busy, -, rfl, -⟩ | ⟨done, rfl, -⟩
    · simp only [if_neg busy]
      exact ⟨all, by simp⟩
    · simp only [if_pos done]
      exact ⟨show s.queue.head + k = s.queue.tail by omega, by simp⟩
  | signal total =>
    rw [flusher] at draining
    simp only [flusher, Option.bind_eq_bind, Option.bind_eq_some_iff] at moved
    obtain ⟨sem, -, same⟩ := moved
    cases same
    exact ⟨trivial, fun _ => draining⟩

end Mysnips.Log
