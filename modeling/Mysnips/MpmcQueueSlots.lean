import Mysnips.MpmcQueue
import Mysnips.RingSlots

/-! The cells of the multiple-producer multiple-consumer queue over the whole range of
its 64-bit counters. `item_addr` takes an index as an `int` and reduces that `int` as an
unsigned number, so an index is displaced by an amount that changes at every multiple
of `2 ^ 31`. A window of indices across such a multiple keeps its cells apart only if
the size of the queue divides the change. -/
namespace Mysnips.MpmcQueue
open Machine RingSlots Transition

/-! ### The index as an unsigned number -/

/-- How far the indices of one lap of `2 ^ 31` are displaced. -/
def displacement (lap : Nat) : Int :=
  if lap % 2 = 0 then -(lap * 2 ^ 31 : Nat) else 2 ^ 64 - 2 ^ 31 - (lap * 2 ^ 31 : Nat)

/-- The change of the displacement from one lap to the next one, as the number that
the size has to divide. -/
def wrap (lap : Nat) : Nat := if lap % 2 = 1 then 2 ^ 64 - 2 ^ 32 else 2 ^ 64

theorem index_displaced (index : Nat) :
    (ofInt (int32 index) : Int) = index + displacement (index / 2 ^ 31) := by
  have low : (index : Int) % 2 ^ 32 < 2 ^ 31 ↔ index / 2 ^ 31 % 2 = 0 := by omega
  have bmod : int32 index = if (index : Int) % 2 ^ 32 < 2 ^ 31 then (index : Int) % 2 ^ 32
      else (index : Int) % 2 ^ 32 - 2 ^ 32 := rfl
  rw [ofInt, bmod, displacement]
  by_cases even : index / 2 ^ 31 % 2 = 0
  · rw [if_pos even, if_pos (low.mpr even)]
    omega
  · rw [if_neg even, if_neg (fun less => even (low.mp less))]
    omega

theorem displacement_succ (lap : Nat) :
    displacement (lap + 1) - displacement lap = if lap % 2 = 0 then (wrap (lap + 1) : Int)
      else -(wrap (lap + 1) : Int) := by
  unfold displacement wrap
  rcases Nat.mod_two_eq_zero_or_one lap with even | odd
  · simp only [even, show (lap + 1) % 2 = 1 by omega, if_true, if_false, Nat.one_ne_zero]
    omega
  · simp only [odd, show (lap + 1) % 2 = 0 by omega, if_true, if_false, Nat.one_ne_zero,
      Nat.zero_ne_one]
    omega

/-! ### Cells -/

/-- The array is whole and small enough for an `int`. -/
structure Laid (q : Queue) : Prop where
  positive : 0 < q.cell
  nonempty : 1 ≤ q.size
  small : q.cell * q.size < 2 ^ 31

theorem Laid.of_init {arr : List UInt8} {cell : Nat} {q : Queue} (created : init arr cell = some q)
    (length : arr.length < 2 ^ 31) (nonempty : 1 ≤ q.size) : Laid q := by
  rw [init] at created
  split at created
  · rename_i divides
    cases created
    have whole : cell * (arr.length / cell) = arr.length :=
      Nat.mul_div_cancel' (Nat.dvd_of_mod_eq_zero divides)
    refine ⟨?_, nonempty, by rw [whole]; exact length⟩
    rcases Nat.eq_zero_or_pos cell with rfl | positive
    · simp at nonempty
    · exact positive
  · cases created

variable {q : Queue}

theorem Laid.size_lt (laid : Laid q) : q.size < 2 ^ 31 :=
  Nat.lt_of_le_of_lt (Nat.le_mul_of_pos_left _ laid.positive) laid.small

theorem Laid.itemAddr_eq (laid : Laid q) (index : Nat) :
    itemAddr q index = q.cell * (ofInt (int32 index) % q.size) :=
  itemAddr_exact laid.nonempty (Nat.lt_trans laid.small (by decide)) index

/-- Two indices share a cell when their displaced indices have the same remainder. -/
theorem Laid.itemAddr_inj (laid : Laid q) {i j : Nat} : itemAddr q i = itemAddr q j ↔
    (i + displacement (i / 2 ^ 31)) % q.size = (j + displacement (j / 2 ^ 31)) % q.size := by
  rw [laid.itemAddr_eq, laid.itemAddr_eq, Nat.mul_right_inj (Nat.ne_of_gt laid.positive), ← index_displaced,
    ← index_displaced]
  omega

/-- The indices of one window have each a cell of their own. -/
structure DistinctCells (q : Queue) (low : Nat) : Prop where
  cells : ∀ {i}, low ≤ i → i < low + q.size → ∃ c < q.size, itemAddr q i = q.cell * c
  distinct : ∀ {i j}, low ≤ i → i < low + q.size → low ≤ j → j < low + q.size →
    itemAddr q i = itemAddr q j → i = j

/-- Without a multiple of `2 ^ 31` behind its first index a window is displaced alike;
with one, it has a border there. -/
theorem Laid.distinctCells_iff (laid : Laid q) (low : Nat) :
    DistinctCells q low ↔ low / 2 ^ 31 = (low + q.size - 1) / 2 ^ 31 ∨
      q.size ∣ wrap ((low + q.size - 1) / 2 ^ 31) := by
  have cells : ∀ {i}, low ≤ i → i < low + q.size → ∃ c < q.size, itemAddr q i = q.cell * c :=
    fun _ _ => ⟨_, Nat.mod_lt _ laid.nonempty, laid.itemAddr_eq _⟩
  have small := laid.size_lt
  have nonempty := laid.nonempty
  by_cases together : low / 2 ^ 31 = (low + q.size - 1) / 2 ^ 31
  · refine ⟨fun _ => Or.inl together, fun _ => ⟨cells, fun lowI highI lowJ highJ same => ?_⟩⟩
    rename_i i j
    rw [laid.itemAddr_inj, show i / 2 ^ 31 = low / 2 ^ 31 by omega,
      show j / 2 ^ 31 = low / 2 ^ 31 by omega] at same
    exact displaced_inj _ lowI highI lowJ highJ same
  -- the window crosses one multiple, since it is shorter than a lap
  obtain ⟨lap, next⟩ : ∃ lap, (low + q.size - 1) / 2 ^ 31 = lap + 1 :=
    Nat.exists_eq_succ_of_ne_zero (by omega)
  have moved : ∀ i, low ≤ i → i < low + q.size → (i : Int) + displacement (i / 2 ^ 31) =
      displaced ((lap + 1) * 2 ^ 31) (displacement lap) (displacement (lap + 1)) i := by
    intro i lowI highI
    rw [displaced]
    split
    · rw [show i / 2 ^ 31 = lap by omega]
    · rw [show i / 2 ^ 31 = lap + 1 by omega]
  have divides : (q.size : Int) ∣ displacement (lap + 1) - displacement lap ↔
      q.size ∣ wrap (lap + 1) := by
    rw [displacement_succ]
    split
    · exact Int.natCast_dvd_natCast
    · rw [Int.dvd_neg]
      exact Int.natCast_dvd_natCast
  have before : low < (lap + 1) * 2 ^ 31 := by omega
  have behind : (lap + 1) * 2 ^ 31 < low + q.size := by omega
  rw [next, or_iff_right (by omega), ← divides, ← displaced_inj_iff before behind]
  constructor
  · intro distinct i j lowI highI lowJ highJ same
    apply distinct.distinct lowI highI lowJ highJ
    rw [laid.itemAddr_inj, moved i lowI highI, moved j lowJ highJ]
    exact same
  · intro injective
    refine ⟨cells, fun lowI highI lowJ highJ same => ?_⟩
    rw [laid.itemAddr_inj, moved _ lowI highI, moved _ lowJ highJ] at same
    exact injective lowI highI lowJ highJ same

/-! ### Runs -/

section Runs

variable {Thread : Type}

/-- No step moves the cells. -/
private theorem advance_layout {thread : Thread} {spurious : Bool} {q q' : Queue} {pc pc' : Pc}
    {events : List (Event Thread)} (advanced : advance thread spurious q pc = some (q', pc', events)) :
    q'.size = q.size ∧ q'.cell = q.cell := by
  cases pc with
  | copyIn src index =>
    obtain ⟨base, _, taken⟩ := Option.bind_eq_some_iff.mp advanced
    cases taken
    exact ⟨rfl, rfl⟩
  | copyOut index =>
    obtain ⟨dst, _, taken⟩ := Option.bind_eq_some_iff.mp advanced
    cases taken
    exact ⟨rfl, rfl⟩
  | _ => grind [advance]

variable [DecidableEq Thread] {s s' : State Thread}

private theorem next_layout {action : Action Thread}
    (moved : (queues Thread).next s action = some s') :
    s'.queue.size = s.queue.size ∧ s'.queue.cell = s.queue.cell := by
  cases action with
  | tryPush thread src =>
    simp only [queues] at moved
    split at moved
    · cases moved
      exact ⟨rfl, rfl⟩
    · cases moved
  | tryPop thread =>
    simp only [queues] at moved
    split at moved
    · cases moved
      exact ⟨rfl, rfl⟩
    · cases moved
  | step thread spurious =>
    obtain ⟨⟨queue, pc, events⟩, advanced, taken⟩ := Option.bind_eq_some_iff.mp moved
    cases taken
    exact advance_layout advanced

/-- An index keeps its address in every run. -/
private theorem replay_itemAddr {actions : List (Action Thread)}
    (replayed : (queues Thread).replay s actions = some s') (index : Nat) :
    itemAddr s'.queue index = itemAddr s.queue index := by
  have layout : s'.queue.size = s.queue.size ∧ s'.queue.cell = s.queue.cell := by
    refine System.replay_invariant (M := queues Thread)
      (P := fun t => t.queue.size = s.queue.size ∧ t.queue.cell = s.queue.cell) ?_ ⟨rfl, rfl⟩
      replayed
    intro t action _ t' ⟨size, cell⟩ moved
    obtain ⟨size', cell'⟩ := next_layout moved
    exact ⟨size'.trans size, cell'.trans cell⟩
  rw [itemAddr, itemAddr, layout.1, layout.2]

end Runs

/-- Over the whole range of the counters. An index has the same address in every run, and
a window of `size` indices has as many cells exactly when it has no multiple of `2 ^ 31`
behind its first index, or the size divides `2 ^ 64 - 2 ^ 32` or `2 ^ 64`, whichever the
`int` skips there. -/
theorem window_has_distinct_cells_iff {arr : List UInt8} {cell : Nat} {q : Queue}
    (created : init arr cell = some q) (length : arr.length < 2 ^ 31) (nonempty : 1 ≤ q.size)
    (low : Nat) :
    (∀ (Thread : Type) [DecidableEq Thread] (s s' : State Thread) (actions : List (Action Thread)),
      s.queue = q → (queues Thread).replay s actions = some s' →
        ∀ index, itemAddr s'.queue index = itemAddr q index) ∧
      (DistinctCells q low ↔ low / 2 ^ 31 = (low + q.size - 1) / 2 ^ 31 ∨
        q.size ∣ wrap ((low + q.size - 1) / 2 ^ 31)) := by
  refine ⟨?_, (Laid.of_init created length nonempty).distinctCells_iff low⟩
  rintro Thread _ s s' actions rfl replayed index
  exact replay_itemAddr replayed index

/-- Four cells stay apart where the counter passes `2 ^ 32`. -/
theorem window_has_distinct_cells_iff_applies :
    DistinctCells ⟨0, 0, 0, 0, 4, 2, [0, 0, 0, 0, 0, 0, 0, 0]⟩ (2 ^ 32 - 2) := by
  have created : init [0, 0, 0, 0, 0, 0, 0, 0] 2 =
      some ⟨0, 0, 0, 0, 4, 2, [0, 0, 0, 0, 0, 0, 0, 0]⟩ := rfl
  exact (window_has_distinct_cells_iff created (by decide) (by decide) _).2.mpr
    (Or.inr (by decide))

/-- In a queue of three items the indices `2 ^ 32 - 1` and `2 ^ 32` share a cell. -/
theorem three_cells_collide : ∃ (arr : List UInt8) (cell : Nat) (q : Queue),
    init arr cell = some q ∧ arr.length < 2 ^ 31 ∧ 1 ≤ q.size ∧
    2 ^ 32 - 1 + q.size ≤ 2 ^ 64 - 1 ∧ itemAddr q (2 ^ 32 - 1) = 0 ∧ itemAddr q (2 ^ 32) = 0 ∧
    ¬ DistinctCells q (2 ^ 32 - 1) := by
  refine ⟨[0, 0, 0], 1, ⟨0, 0, 0, 0, 3, 1, [0, 0, 0]⟩, rfl, by decide, by decide, by decide,
    by decide, by decide, fun apart => ?_⟩
  have same := apart.distinct (i := 2 ^ 32 - 1) (j := 2 ^ 32) (by decide) (by decide) (by decide)
    (by decide) (by decide)
  exact absurd same (by decide)

end Mysnips.MpmcQueue
