import Mysnips.LogRuns

/-! Where the bytes of a buffer are. In every run, also where a flush is overtaken, the count
of the semaphore, the bytes in the queue, those that a call has acquired and not yet pushed
and those that the flush thread has popped and not yet signalled make up the capacity. A
push therefore finds room and a pop finds bytes, and their results, which nobody looks at,
are true. -/
namespace Mysnips.Log
open Machine Memory RingSlots Transition SpscQueue

variable {n reserved popped : Nat} {q q' : Queue} {content : List UInt8} {s s' : State}

/-- The bytes that `log_write2` has acquired and not yet pushed. -/
def Writer.acquired : Writer → Nat
  | .push (.multiPushLoadHead _ num) => num
  | .push (.multiPushLoadTail _ num _) => num
  | .push (.multiPushStoreItem _ num _ _) => num
  | .push (.multiPushStoreTail arr _) => (arr.getD []).length
  | _ => 0

/-- The bytes that the flush thread has popped and not yet signalled. -/
def Flusher.owed : Flusher → Int
  | .signal total => total
  | _ => 0

/-- No call among these results has returned `false`. -/
def Succeed (events : List Event) : Prop :=
  (∀ arr, .push arr false ∉ events) ∧ ∀ num arr, .pop num arr false ∉ events

/-- The bytes of a flush are in the queue until they are popped, and are owed from then on. -/
def Owing (q : Queue) (popped : Nat) : Flusher → Prop
  | .peek0 => popped = 0
  | .peek1 _ num1 => popped = 0 ∧ ∃ seen, q.head ≤ seen ∧ seen ≤ q.tail ∧
      num1 = (min (seen - q.head) (straight q) : Nat)
  | .write1 _ num1 _ num2 | .write2 num1 _ num2 =>
    popped = 0 ∧ ∃ k1 k2 : Nat, num1 = k1 ∧ num2 = k2 ∧ 0 < k1 + k2 ∧ q.head + k1 + k2 ≤ q.tail
  | .pop consumer total =>
    popped = 0 ∧ ∃ k : Nat, total = k ∧ 0 < k ∧ q.head + k ≤ q.tail ∧ Popping q k consumer
  | .signal total => 0 < popped ∧ total = popped

/-- The invariant of every run. -/
structure Accounted (n : Nat) (s : State) (content : List UInt8) (reserved popped : Nat) : Prop
    extends Taking n s content reserved popped where
  owing : Owing s.queue popped s.flusher

theorem Writing.acquired_eq {logged : List UInt8} {writer : Writer}
    (writing : Writing q logged content reserved writer) : writer.acquired = reserved := by
  cases writer with
  | idle => exact writing.2.symm
  | wait data => exact writing.2.2.symm
  | push producer =>
    obtain ⟨data, -, rfl, carries, known⟩ := writing
    cases producer with
    | multiPushLoadHead arr num =>
      obtain ⟨items, rfl, rfl, -⟩ := known
      cases carries
      exact List.length_map _
    | multiPushLoadTail arr num head =>
      obtain ⟨⟨items, rfl, rfl, -⟩, -⟩ := known
      obtain ⟨given, -⟩ := carries
      cases given
      exact List.length_map _
    | multiPushStoreItem arr num tail i =>
      obtain ⟨rfl, -⟩ := known
      cases carries
      exact List.length_map _
    | multiPushStoreTail arr newTail =>
      cases carries
      exact List.length_map _
    | _ => exact absurd carries id

theorem Owing.owed_eq {flusher : Flusher} (owing : Owing q popped flusher) :
    flusher.owed = popped := by
  cases flusher with
  | peek0 =>
    cases owing
    rfl
  | peek1 ptr1 num1 =>
    obtain ⟨rfl, -⟩ := owing
    rfl
  | write1 ptr1 num1 ptr2 num2 =>
    obtain ⟨rfl, -⟩ := owing
    rfl
  | write2 num1 ptr2 num2 =>
    obtain ⟨rfl, -⟩ := owing
    rfl
  | pop consumer total =>
    obtain ⟨rfl, -⟩ := owing
    rfl
  | signal total => exact owing.2

/-! ### The steps -/

/-- What a flush has counted stays in the queue while the writer adds bytes. -/
theorem Owing.rely {flusher : Flusher} (owing : Owing q popped flusher) (head : q'.head = q.head)
    (tail : q.tail ≤ q'.tail) (capLog2 : q'.capLog2 = q.capLog2) : Owing q' popped flusher := by
  have sameStraight : straight q' = straight q := by rw [straight, straight, head, capLog2]
  cases flusher with
  | peek0 => exact owing
  | peek1 ptr1 num1 =>
    obtain ⟨none, seen, low, high, first⟩ := owing
    rw [Owing, head, sameStraight]
    exact ⟨none, seen, low, by omega, first⟩
  | write1 ptr1 num1 ptr2 num2 =>
    obtain ⟨none, k1, k2, n1, n2, some, below⟩ := owing
    rw [Owing, head]
    exact ⟨none, k1, k2, n1, n2, some, by omega⟩
  | write2 num1 ptr2 num2 =>
    obtain ⟨none, k1, k2, n1, n2, some, below⟩ := owing
    rw [Owing, head]
    exact ⟨none, k1, k2, n1, n2, some, by omega⟩
  | pop consumer total =>
    obtain ⟨none, k, count, some, below, popping⟩ := owing
    rw [Owing, head]
    refine ⟨none, k, count, some, by omega, ?_⟩
    rw [Popping, head]
    exact popping
  | signal total => exact owing

theorem Accounted.write (accounted : Accounted n s content reserved popped)
    (moved : Log.write s = some s') :
    ∃ content' reserved', Accounted n s' content' reserved' popped := by
  obtain ⟨added, reserved', taking, flusher, -, head, tail, capLog2⟩ := accounted.toTaking.write moved
  refine ⟨content ++ added, reserved', taking, ?_⟩
  rw [flusher]
  exact accounted.owing.rely head tail capLog2

/-- What two peeks find is not more than what is in the queue. -/
private theorem peeks_below {seen : Nat} {num1 : Int} (holds : Holds q (content.map asItem))
    (low : q.head ≤ seen) (high : seen ≤ q.tail)
    (first : num1 = (min (seen - q.head) (straight q) : Nat)) :
    ∃ k1 k2 : Nat, num1 = k1 ∧ (SpscQueue.peek1 q).2 = k2 ∧ k1 + k2 ≤ 2 ^ q.capLog2 ∧
      q.head + k1 + k2 ≤ q.tail := by
  have room := holds.room
  obtain ⟨second, -⟩ := holds.toSized.peek1_spec holds.items room
  exact ⟨min (seen - q.head) (straight q), q.tail - q.head - straight q, first, second, by omega,
    by omega⟩

theorem Accounted.flush (accounted : Accounted n s content reserved popped)
    (moved : Log.flush s = some s') : ∃ popped', Accounted n s' content reserved popped' := by
  have holds := accounted.holds
  have kept := holds.items
  have room := holds.room
  have small := holds.toSized.pow_le
  have owing := accounted.owing
  have taking := accounted.toTaking
  rw [Log.flush] at moved
  cases flusher : s.flusher with
  | peek0 =>
    rw [flusher] at owing
    obtain ⟨number, -⟩ := holds.toSized.peek0_spec kept room
    simp only [flusher] at moved
    cases moved
    exact ⟨popped, { taking with },
      owing, s.queue.tail, kept, Nat.le_refl _, number⟩
  | peek1 ptr1 num1 =>
    rw [flusher] at owing
    obtain ⟨none, seen, low, high, first⟩ := owing
    obtain ⟨k1, k2, n1, n2, total, below⟩ := peeks_below holds low high first
    simp only [flusher, n1, n2, int32_eq (show -2 ^ 31 ≤ (k1 : Int) + k2 by omega) (by omega)] at moved
    split at moved
    · cases moved
      exact ⟨popped, { taking with }, none, k1, k2, rfl, rfl, by omega, below⟩
    · cases moved
      exact ⟨popped, { taking with }, none⟩
  | write1 ptr1 num1 ptr2 num2 =>
    rw [flusher] at owing
    simp only [flusher, Option.bind_eq_bind, Option.bind_eq_some_iff] at moved
    obtain ⟨bytes, -, same⟩ := moved
    cases same
    exact ⟨popped, { taking with }, owing⟩
  | write2 num1 ptr2 num2 =>
    rw [flusher] at owing
    obtain ⟨none, k1, k2, rfl, rfl, some, below⟩ := owing
    have total : int32 ((k1 : Int) + k2) = (k1 + k2 : Nat) := by
      rw [int32_eq (by omega) (by omega), Int.natCast_add]
    simp only [flusher, total, Option.bind_eq_bind, Option.bind_eq_some_iff] at moved
    obtain ⟨bytes, -, same⟩ := moved
    rw [if_pos (by omega)] at same
    cases same
    exact ⟨popped, { taking with }, none, k1 + k2, rfl, some, by simp only; omega, .inl rfl⟩
  | pop consumer total =>
    rw [flusher] at owing
    obtain ⟨rfl, k, rfl, some, below, popping⟩ := owing
    simp only [flusher, Option.bind_eq_bind, Option.bind_eq_some_iff] at moved
    obtain ⟨⟨queue, consumer', events⟩, consumed, same⟩ := moved
    cases same
    rcases popping.step holds below consumed with ⟨busy, popping', rfl, -⟩ | ⟨done, rfl, -⟩
    · simp only [if_neg busy]
      exact ⟨0, { taking with }, rfl, k, rfl, some, below, popping'⟩
    · simp only [if_pos done]
      exact ⟨k, taking.release below _, some, rfl⟩
  | signal total =>
    rw [flusher] at owing
    obtain ⟨some, rfl⟩ := owing
    simp only [flusher, Option.bind_eq_bind, Option.bind_eq_some_iff] at moved
    obtain ⟨sem, signalled, same⟩ := moved
    obtain ⟨granted, after⟩ := taking.signal some .peek0
    rw [granted] at signalled
    cases signalled
    cases same
    exact ⟨0, after, rfl⟩

/-! ### Every run -/

theorem reachable_accounted (small : n ≤ 30) (reached : (logs n).Reachable s) :
    ∃ content reserved popped, Accounted n s content reserved popped := by
  apply reached.invariant (P := fun s => ∃ content reserved popped, Accounted n s content reserved popped)
  · intro s begins
    have flusher : s.flusher = .peek0 := by
      obtain ⟨data, -, rfl⟩ := begins
      rfl
    refine ⟨[], 0, 0, (Valid.start small begins).taking, ?_⟩
    rw [flusher]
    rfl
  · rintro s action s' _ ⟨content, reserved, popped, accounted⟩ moved
    cases action with
    | logWrite2 data =>
      obtain ⟨⟨idle, short⟩, rest⟩ := Option.ite_none_right_eq_some.mp moved
      cases rest
      have writing := accounted.writing
      rw [idle] at writing
      obtain ⟨logged, none⟩ := writing
      have short : data.length ≤ 2 ^ s.queue.capLog2 := by
        rw [accounted.size]
        exact Nat.not_lt.mp short
      exact ⟨content, reserved, popped,
        { accounted with writing := ⟨by rw [logged], short, none⟩ }⟩
    | write =>
      obtain ⟨content', reserved', after⟩ := accounted.write moved
      exact ⟨content', reserved', popped, after⟩
    | flush =>
      obtain ⟨popped', after⟩ := accounted.flush moved
      exact ⟨content, reserved, popped', after⟩

/-- In every run, the parts make up the capacity of the buffer, and the pushes and pops whose
results are not looked at succeed. -/
theorem log_writes_never_dropped (small : n ≤ 30) (reached : (logs n).Reachable s) :
    (s.queue.head ≤ s.queue.tail ∧ 0 ≤ s.sem ∧
      s.sem + (s.queue.tail - s.queue.head : Nat) + s.writer.acquired + s.flusher.owed =
        (2 ^ n : Nat)) ∧
    (∀ producer q' producer' events, s.writer = .push producer →
      produce s.queue producer = some (q', producer', events) → Succeed events) ∧
    ∀ consumer total q' consumer' events, s.flusher = .pop consumer total →
      consume s.queue consumer = some (q', consumer', events) → Succeed events := by
  obtain ⟨content, reserved, popped, accounted⟩ := reachable_accounted small reached
  have kept := accounted.holds.items
  have nonneg := accounted.nonneg
  have semaphore := accounted.semaphore
  rw [accounted.size] at semaphore
  refine ⟨⟨kept, nonneg, ?_⟩, ?_, ?_⟩
  · rw [accounted.writing.acquired_eq, accounted.owing.owed_eq]
    omega
  · intro producer q' producer' events pushing produced
    have writing := accounted.writing
    rw [pushing] at writing
    obtain ⟨data, -, rfl, carries, known⟩ := writing
    have room : s.queue.tail + data.length ≤ s.queue.head + 2 ^ s.queue.capLog2 := by
      rw [accounted.size]
      omega
    rcases carries.step accounted.holds known room produced with ⟨-, -, -, rfl⟩ | ⟨-, -, rfl⟩
    · exact ⟨by simp, by simp⟩
    · exact ⟨by simp, by simp⟩
  · intro consumer total q' consumer' events popping consumed
    have owing := accounted.owing
    rw [popping] at owing
    obtain ⟨-, k, -, -, below, called⟩ := owing
    rcases called.step accounted.holds below consumed with ⟨-, -, -, rfl⟩ | ⟨-, -, rfl⟩
    · exact ⟨by simp, by simp⟩
    · exact ⟨by simp, by simp⟩

/-- A call that has acquired two bytes while two others are popped and not yet signalled. -/
theorem log_writes_never_dropped_applies : ∃ s, (logs 2).Reachable s ∧ s.writer.acquired = 2 ∧
    s.flusher.owed = 2 ∧ s.queue.tail = s.queue.head ∧ s.sem = 0 := by
  have begun : (logs 2).Reachable ⟨init [0, 0, 0, 0] 2 1, 4, .idle, .peek0, [], []⟩ :=
    .start ⟨[0, 0, 0, 0], rfl, by decide⟩
  obtain ⟨s, reached, checked⟩ := begun.replay_check
    ([.logWrite2 [97, 98]] ++ List.replicate 6 .write ++ List.replicate 7 .flush ++
      [.logWrite2 [99, 100], .write])
    (fun s => s.writer.acquired = 2 && s.flusher.owed = 2 && s.queue.tail = s.queue.head)
    (by decide +kernel)
  simp only [Bool.and_eq_true, decide_eq_true_eq] at checked
  obtain ⟨⟨acquired, owed⟩, empty⟩ := checked
  have parts := (log_writes_never_dropped (by decide) reached).1.2.2
  rw [acquired, owed, empty, Nat.sub_self] at parts
  refine ⟨s, reached, acquired, owed, empty, ?_⟩
  omega

end Mysnips.Log
