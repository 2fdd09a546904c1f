import Mysnips.BuddyAllocCoalescing

/-! When `buddy_malloc` fails. The search looks for a linked block that is large enough, and
since vacant halves are never left apart, a block that no live one meets lies inside a
linked one: the call returns `NULL` exactly when there is no block to return. -/
namespace Mysnips.BuddyAlloc
open LinkedList DyadicTiling PowersOfTwo Transition

variable {pool : Buddy} {s s' : Session} {chain : Nat → List Nat}

/-- A length is rounded up to the least power of two that is not below it, nor below the smallest
block size. -/
theorem normalizeLen_least {len : Nat} (positive : 0 < len) (small : len ≤ 2 ^ 12) :
    ∃ k, normalizeLen len = 2 ^ k ∧ ∀ m, k ≤ m ↔ max len minBlockSize ≤ 2 ^ m := by
  refine ⟨_, normalizeLen_pow positive (Nat.le_trans small (by decide)), fun m => ?_⟩
  rw [Nat.max_le, ceilLog_le_iff positive, Nat.max_le, Nat.pow_le_pow_iff_right (by decide),
    and_comm]

/-- There is a block of the pool for a length: of the normalized size, aligned to it, and without a
byte of a live block. -/
def Session.Room (s : Session) (len : Nat) : Prop :=
  ∃ ptr k, normalizeLen len = 2 ^ k ∧ s.Clear ptr k

/-- The live blocks of a session after a block was added: in the list, and in the bit trees. -/
structure Session.Adds (s : Session) (ptr size : Nat) (s' : Session) : Prop where
  live : s'.live = (ptr, size) :: s.live
  fresh : (ptr, size) ∉ s.live
  marked : ∀ block k, minBlockLog2 ≤ k → k ≤ maxBlockLog2 → 2 ^ k ∣ block → s.buddy.base ≤ block →
    block + 2 ^ k ≤ poolEnd s.buddy →
      (isAllocated s'.buddy block (2 ^ k) = some true ↔
        (block = ptr ∧ 2 ^ k = size) ∨ isAllocated s.buddy block (2 ^ k) = some true)

/-- A refused call: there was no room. -/
theorem no_room (valid : s.Valid pool chain) {len : Nat}
    (short : ∀ c ∈ vacant chain, 2 ^ c.level < normalizeLen len) : ¬ s.Room len := by
  rintro ⟨ptr, k, size, clear⟩
  obtain ⟨c, free, low, high⟩ := clear_inside_vacant valid clear
  have less := short c free
  omega

/-- The block of a call that was served. -/
theorem clear_of_served {blk : Block} {b : Buddy} {chain' : Nat → List Nat}
    (valid : s.Valid pool chain) (same : area b = area s.buddy) (fresh : blk ∉ s.taken)
    (working : Working b chain' (insert blk s.taken)) : s.Clear blk.start blk.level := by
  have admitted := working.tiling.admitted blk (Or.inr (Or.inl rfl))
  rw [same] at admitted
  obtain ⟨first, last⟩ :=
    (admits_iff valid.working.placed admitted.bottom admitted.top admitted.aligned).mp admitted
  exact ⟨admitted.top, admitted.aligned, first, last, taken_apart valid fresh working⟩

/-- The pool of a session does not move. -/
theorem poolEnd_eq (valid : s.Valid pool chain) {chain' : Nat → List Nat}
    (valid' : s'.Valid pool chain') :
    s'.buddy.base = s.buddy.base ∧ poolEnd s'.buddy = poolEnd s.buddy := by
  obtain ⟨base, count⟩ := pool_of_area valid'.working.placed valid.working.placed
    (valid'.area.trans valid.area.symm)
  rw [poolEnd, poolEnd, base, count]
  exact ⟨rfl, rfl⟩

/-- The bit trees after a block was added to the live ones. -/
theorem adds_of_live {chain' : Nat → List Nat} {ptr size : Nat} (valid : s.Valid pool chain)
    (valid' : s'.Valid pool chain') (live : s'.live = (ptr, size) :: s.live) :
    s.Adds ptr size s' := by
  obtain ⟨base, ends⟩ := poolEnd_eq valid valid'
  refine ⟨live, ?_, fun block k low high aligned first last => ?_⟩
  · have distinct := valid'.distinct
    rw [live] at distinct
    exact (List.nodup_cons.mp distinct).1
  · have before := (valid_tilesPool valid).marked block k low high aligned first last
    have after := (valid_tilesPool valid').marked block k low high aligned (base ▸ first)
      (ends ▸ last)
    rw [before, after, live]
    simp only [List.mem_cons, Prod.mk.injEq, Option.some.injEq, decide_eq_true_eq]

/-- In every reachable state of a session `buddy_malloc` returns `NULL` exactly when the length is
refused or there is no room for it, and changes nothing then; otherwise the block that it returns,
of the least size that the length needs, becomes live and no other. -/
theorem malloc_null_iff_no_room {base size : Nat} {heap : Heap} (region : Region base size)
    (started : startup base size heap = some (some pool)) (reached : (sessions pool).Reachable s)
    (len : Nat) : ∃ s' ptr, s.perform (.malloc len) = some s' ∧
      malloc s.buddy len = some (s'.buddy, ptr) ∧
      (ptr = 0 ↔ len = 0 ∨ maxBlockSize < len ∨ ¬ s.Room len) ∧
      (ptr = 0 → s'.buddy = s.buddy ∧ s'.live = s.live) ∧
      (ptr ≠ 0 → ∃ k, normalizeLen len = 2 ^ k ∧ (∀ m, k ≤ m ↔ max len minBlockSize ≤ 2 ^ m) ∧
        s.Clear ptr k ∧ s.Adds ptr (2 ^ k) s') := by
  obtain ⟨chain, valid⟩ := reachable_valid region started reached
  obtain ⟨s', chain', performed, valid'⟩ := valid.malloc len
  rcases malloc_spec valid.working valid.marks len with
    ⟨refused, why⟩ | ⟨b, chain'', blk, served, sameArea, positive, small, exact, fresh, working, -⟩
  · have after : s' = { s with issued := (0, len) :: s.issued } := by
      simp only [Session.perform, refused, Option.bind_eq_bind, Option.bind_some, if_true,
        Option.some.injEq] at performed
      exact performed.symm
    subst after
    refine ⟨_, 0, performed, refused, iff_of_true rfl ?_, fun _ => ⟨rfl, rfl⟩,
      fun nonnull => absurd rfl nonnull⟩
    rcases why with zero | large | short
    · exact .inl zero
    · exact .inr (.inl large)
    · exact .inr (.inr (no_room valid short))
  · have admitted := working.tiling.admitted blk (Or.inr (Or.inl rfl))
    have nonnull := start_ne_null working.placed admitted
    have clear := clear_of_served valid sameArea fresh working
    have after : s' = ⟨b, (blk.start, 2 ^ blk.level) :: s.live, (blk.start, len) :: s.issued⟩ := by
      simp only [Session.perform, served, Option.bind_eq_bind, Option.bind_some, if_neg nonnull,
        Option.some.injEq, exact] at performed
      exact performed.symm
    refine ⟨s', blk.start, performed, by rw [served, after], ?_, fun null => absurd null nonnull,
      fun _ => ?_⟩
    · refine iff_of_false nonnull ?_
      rintro (zero | large | full)
      · omega
      · exact absurd large (Nat.not_lt.mpr small)
      · exact full ⟨blk.start, blk.level, exact, clear⟩
    · obtain ⟨k, least, minimal⟩ := normalizeLen_least positive small
      have level : k = blk.level := Nat.pow_right_injective (Nat.le_refl 2) (least.symm.trans exact)
      subst level
      exact ⟨blk.level, exact, minimal, clear, adds_of_live valid valid' (by rw [after])⟩

/-- A pool of three pages that are all in use. -/
theorem malloc_null_iff_no_room_applies :
    ∃ pool s, startup 4096 16384 (fun _ => ⟨0, 0⟩) = some (some pool) ∧
      (sessions pool).Reachable s ∧ s.live = [(16384, 4096), (12288, 4096), (8192, 4096)] ∧
      ¬ s.Room 16 := by
  have run : ((startup 4096 16384 (fun _ => ⟨0, 0⟩)).bind fun started => started.bind fun pool =>
      ((sessions pool).replay ⟨pool, [], []⟩ [.malloc 4096, .malloc 3000, .malloc 2049]).map
        fun s => (s.live, (malloc s.buddy 16).map Prod.snd)) =
          some ([(16384, 4096), (12288, 4096), (8192, 4096)], some 0) := by decide
  obtain ⟨_, started, withStart⟩ := Option.bind_eq_some_iff.mp run
  obtain ⟨pool, rfl, withPool⟩ := Option.bind_eq_some_iff.mp withStart
  obtain ⟨s, replayed, result⟩ := Option.map_eq_some_iff.mp withPool
  obtain ⟨live, null⟩ := Prod.mk.inj result
  have reached := (System.Reachable.start (M := sessions pool) rfl).replay _ replayed
  obtain ⟨s', ptr, -, served, refused, -⟩ :=
    malloc_null_iff_no_room ⟨by decide, by decide⟩ started reached 16
  rw [served] at null
  rcases refused.mp (Option.some.inj null) with zero | large | full
  · cases zero
  · exact absurd large (by decide)
  · exact ⟨pool, s, started, reached, live, full⟩

end Mysnips.BuddyAlloc
