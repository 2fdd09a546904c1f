import Mysnips.HttpServerClients

/-! The output buffer at the level of its cells. `malloc` gives a block of the size asked for, with
anything in it, or nothing; sizes are 64-bit words. A copy that leaves a block is a fault (`none`),
and so is an `int` that overflows. The operations here are those that the server model uses on
whole bytes, and they agree with it while the texts fit. -/
namespace Mysnips.HttpServer
open HttpParse Machine Memory

/-- `malloc`: no object is larger than `PTRDIFF_MAX`. -/
structure Malloc where
  give : Nat → Option (List UInt8)
  length : ∀ n cells, give n = some cells → cells.length = n
  object : ∀ n cells, give n = some cells → n < 2 ^ 63

/-- The sizes that there is memory for. -/
def Malloc.finds (m : Malloc) (n : Nat) : Bool := (m.give n).isSome

/-- `struct iobuf` with the cells of its memory. -/
structure OutputBuf where
  data : Option (List UInt8)
  used : Nat

namespace OutputBuf

def size (b : OutputBuf) : Nat :=
  match b.data with
  | none => 0
  | some cells => cells.length

/-- The bytes in use. -/
def contents (b : OutputBuf) : List UInt8 :=
  match b.data with
  | none => []
  | some cells => cells.take b.used

/-- The bytes in use lie in the memory, which is an object. -/
structure Valid (b : OutputBuf) : Prop where
  used_le : b.used ≤ b.size
  object : b.size < 2 ^ 63

/-- `ensure_free_space`: the returned value and the buffer. -/
def ensureFreeSpace (m : Malloc) (b : OutputBuf) (min : Nat) : Option (Bool × OutputBuf) :=
  match b.data with
  | none =>
    match m.give 512 with
    | none => some (false, b)
    | some cells => some (true, ⟨some cells, 0⟩)
  | some cells =>
    if sub64 cells.length b.used < min then
      let newSize := mul64 2 cells.length
      let newSize := if sub64 newSize b.used < min then add64 b.used min else newSize
      match m.give newSize with
      | none => some (false, b)
      | some newCells => do
        let bytes ← load cells 0 b.used
        let newCells ← store newCells 0 bytes
        some (true, ⟨some newCells, b.used⟩)
    else some (true, b)

/-- `http_server_append_output`, on the buffer of the client. -/
def appendOutput (m : Malloc) (b : OutputBuf) (data : List UInt8) : Option (Bool × OutputBuf) :=
  if data = [] then some (true, b)
  else do
    let (ok, b) ← b.ensureFreeSpace m data.length
    if !ok then some (false, b)
    else do
      let cells ← store (← b.data) b.used data
      some (true, ⟨some cells, add64 b.used data.length⟩)

/-- `INT_MAX`. -/
def intMax : Nat := 2 ^ 31 - 1

/-- `vsnprintf` into `n` cells from an offset: the text is cut where it does not fit, and a
terminator is written unless there is no room at all. -/
def vsnprintf (cells : List UInt8) (off n : Nat) (text : List UInt8) : Option (List UInt8) :=
  if n = 0 then some cells else store cells off (text.take (n - 1) ++ [0])

/-- `vsnprintf` behind the bytes in use. -/
def format (b : OutputBuf) (text : List UInt8) : Option OutputBuf :=
  match b.data with
  | none => some b
  | some cells => do
    some ⟨some (← vsnprintf cells b.used (sub64 cells.length b.used) text), b.used⟩

/-- `http_server_append_output_format_2`, on the buffer of the client and the formatted text. The
length of a text that has no `int` is reported as negative. -/
def appendOutputFormat (m : Malloc) (b : OutputBuf) (text : List UInt8) :
    Option (Bool × OutputBuf) := do
  let n := text.length
  let b ← b.format text
  if intMax < n then some (false, b)
  else if sub64 b.size b.used ≤ add64 n 1 then
    -- `n+1` is an `int`
    if n = intMax then none
    else do
      let (ok, b) ← b.ensureFreeSpace m (n + 1)
      if !ok then some (false, b)
      else do
        let b ← b.format text
        some (true, { b with used := add64 b.used n })
  else some (true, { b with used := add64 b.used n })

/-! ## Growth -/

/-- Where there is no memory yet, at most the first block is asked for; and the size that is asked
for is a word. -/
def Room (b : OutputBuf) (min : Nat) : Prop :=
  (b.data = none → min ≤ 512) ∧ b.used + min < 2 ^ 64

/-- What `ensure_free_space` is to do with any `malloc`. -/
def Ensures (b : OutputBuf) (min : Nat) (result : Option (Bool × OutputBuf)) : Prop :=
  ∃ ok b', result = some (ok, b') ∧ b'.Valid ∧ b'.used = b.used ∧ b'.contents = b.contents ∧
    (ok = true → b'.data ≠ none ∧ min ≤ b'.size - b'.used)

theorem size_some {b : OutputBuf} {cells : List UInt8} (held : b.data = some cells) :
    b.size = cells.length := by
  rw [size, held]

theorem contents_some {b : OutputBuf} {cells : List UInt8} (held : b.data = some cells) :
    b.contents = cells.take b.used := by
  rw [contents, held]

theorem Valid.used_of_none {b : OutputBuf} (valid : b.Valid) (none : b.data = none) : b.used = 0 := by
  have bound := valid.used_le
  rw [size, none] at bound
  exact Nat.le_zero.mp bound

theorem Valid.contents_length {b : OutputBuf} (valid : b.Valid) : b.contents.length = b.used := by
  have bound := valid.used_le
  cases held : b.data with
  | none => rw [contents, held, valid.used_of_none held, List.length_nil]
  | some cells =>
    rw [size_some held] at bound
    rw [contents_some held, List.length_take, Nat.min_eq_left bound]

/-- The size of a block that has grown. -/
def grown (size used min : Nat) : Nat := if 2 * size - used < min then used + min else 2 * size

theorem le_grown {size used : Nat} (min : Nat) (inside : used ≤ size) : used + min ≤ grown size used min := by
  unfold grown
  split
  · exact Nat.le_refl _
  · omega

/-- A buffer with memory, where the size that is asked for is a word: the bytes in use are copied
into a larger block. -/
theorem ensureFreeSpace_memory (m : Malloc) {b : OutputBuf} (valid : b.Valid) {min : Nat}
    (word : b.used + min < 2 ^ 64) {cells : List UInt8} (held : b.data = some cells) :
    b.ensureFreeSpace m min =
      if cells.length - b.used < min then
        match m.give (grown cells.length b.used min) with
        | none => some (false, b)
        | some newCells => some (true, ⟨some (cells.take b.used ++ newCells.drop b.used), b.used⟩)
      else some (true, b) := by
  have used := valid.used_le
  have object := valid.object
  rw [size_some held] at used object
  have doubled : mul64 2 cells.length = 2 * cells.length := mul64_eq (by omega)
  unfold ensureFreeSpace
  rw [held]
  simp only
  rw [sub64_eq used (by omega), doubled, sub64_eq (by omega) (by omega), add64_eq word, ← grown]
  split
  · cases given : m.give (grown cells.length b.used min) with
    | none => rfl
    | some newCells =>
      have enough := le_grown min used
      rw [← m.length _ _ given] at enough
      have taken : (cells.take b.used).length = b.used := by
        rw [List.length_take, Nat.min_eq_left used]
      simp only
      rw [load_eq (by omega), List.drop_zero, Option.bind_eq_bind, Option.bind_some,
        store_eq (by omega), taken, List.take_zero, List.nil_append, Nat.zero_add]
      rfl
  · rfl

/-- Where the size that is asked for is a word, the bytes in use are kept, and only the first
block can be too small. -/
theorem ensureFreeSpace_keeps (m : Malloc) {b : OutputBuf} (valid : b.Valid) {min : Nat}
    (word : b.used + min < 2 ^ 64) :
    ∃ ok b', b.ensureFreeSpace m min = some (ok, b') ∧ b'.Valid ∧ b'.used = b.used ∧
      b'.contents = b.contents ∧
      (ok = true → b'.data ≠ none ∧
        ((b.data = none → min ≤ 512) → min ≤ b'.size - b'.used)) ∧
      (ok = false → b' = b) := by
  cases held : b.data with
  | none =>
    have nothing : b.contents = [] := by rw [contents, held]
    unfold ensureFreeSpace
    rw [held]
    cases given : m.give 512 with
    | none => exact ⟨false, b, rfl, valid, rfl, rfl, fun wrong => (by cases wrong), fun _ => rfl⟩
    | some cells =>
      have length := m.length _ _ given
      refine ⟨true, ⟨some cells, 0⟩, rfl, ⟨Nat.zero_le _, ?_⟩, (valid.used_of_none held).symm, ?_,
        fun _ => ⟨by simp, ?_⟩, fun wrong => (by cases wrong)⟩
      · rw [size_some rfl, length]
        decide
      · rw [contents_some rfl, nothing]
        rfl
      · intro first
        rw [size_some rfl, length]
        exact first rfl
  | some cells =>
    have used := valid.used_le
    rw [size_some held] at used
    rw [ensureFreeSpace_memory m valid word held]
    by_cases short : cells.length - b.used < min
    · rw [if_pos short]
      cases given : m.give (grown cells.length b.used min) with
      | none =>
        exact ⟨false, b, rfl, valid, rfl, rfl, fun wrong => (by cases wrong), fun _ => rfl⟩
      | some newCells =>
        have enough := le_grown min used
        have newObject := m.object _ _ given
        rw [← m.length _ _ given] at enough newObject
        have taken : (cells.take b.used).length = b.used := by
          rw [List.length_take, Nat.min_eq_left used]
        have whole : (cells.take b.used ++ newCells.drop b.used).length = newCells.length := by
          rw [List.length_append, taken, List.length_drop]
          omega
        refine ⟨true, _, rfl, ⟨?_, ?_⟩, rfl, ?_, fun _ => ⟨by simp, ?_⟩, fun wrong => (by cases wrong)⟩
        · rw [size_some rfl, whole]
          exact Nat.le_trans (Nat.le_add_right _ _) enough
        · rw [size_some rfl, whole]
          exact newObject
        · rw [contents_some rfl, contents_some held]
          exact List.take_left' taken
        · intro _
          rw [size_some rfl, whole]
          exact Nat.le_sub_of_add_le (by rw [Nat.add_comm]; exact enough)
    · rw [if_neg short]
      refine ⟨true, b, rfl, valid, rfl, rfl, fun _ => ⟨by simp [held], fun _ => ?_⟩, fun _ => rfl⟩
      rw [size_some held]
      omega

theorem ensureFreeSpace_ensures (m : Malloc) {b : OutputBuf} (valid : b.Valid) {min : Nat}
    (room : b.Room min) : b.Ensures min (b.ensureFreeSpace m min) := by
  obtain ⟨first, word⟩ := room
  obtain ⟨ok, b', result, valid', used, contents, space, -⟩ := ensureFreeSpace_keeps m valid word
  exact ⟨ok, b', result, valid', used, contents, fun given => ⟨(space given).1, (space given).2 first⟩⟩

/-- A `malloc` that always finds memory. -/
def plentiful : Malloc where
  give n := if n < 2 ^ 63 then some (List.replicate n 0) else none
  length n cells given := by
    split at given
    · cases given
      exact List.length_replicate
    · cases given
  object n cells given := by
    split at given
    · assumption
    · cases given

theorem plentiful_give {n : Nat} (small : n < 2 ^ 63) :
    plentiful.give n = some (List.replicate n 0) := by
  unfold plentiful
  simp only
  rw [if_pos small]

/-- Where the size that is asked for is no word, it wraps around and the copy leaves the new
block. -/
theorem ensureFreeSpace_wraps {b : OutputBuf} (valid : b.Valid) {min : Nat} (word : min < 2 ^ 64)
    (wraps : 2 ^ 64 ≤ b.used + min) : b.ensureFreeSpace plentiful min = none := by
  have used := valid.used_le
  have object := valid.object
  cases held : b.data with
  | none =>
    rw [valid.used_of_none held] at wraps
    omega
  | some cells =>
    rw [size_some held] at used object
    have doubled : mul64 2 cells.length = 2 * cells.length := mul64_eq (by omega)
    have wrapped : add64 b.used min = b.used + min - 2 ^ 64 := by
      unfold add64
      omega
    have small : b.used + min - 2 ^ 64 < 2 ^ 63 := by omega
    unfold ensureFreeSpace
    rw [held]
    simp only
    rw [sub64_eq used (by omega), if_pos (by omega), doubled, sub64_eq (by omega) (by omega),
      if_pos (by omega), wrapped, plentiful_give small]
    simp only
    rw [load_eq (by omega), Option.bind_eq_bind, Option.bind_some, store, if_neg]
    · rfl
    · rw [List.length_take, List.length_drop, List.length_replicate]
      omega

theorem ensureFreeSpace_iff {b : OutputBuf} (valid : b.Valid) {min : Nat} (word : min < 2 ^ 64) :
    (∀ m, b.Ensures min (b.ensureFreeSpace m min)) ↔ b.Room min := by
  constructor
  · intro ensures
    obtain ⟨ok, b', result, -, -, -, space⟩ := ensures plentiful
    constructor
    · intro none
      unfold ensureFreeSpace at result
      rw [none, plentiful_give (by decide)] at result
      simp only [Option.some.injEq, Prod.mk.injEq] at result
      obtain ⟨rfl, rfl⟩ := result
      have room := (space rfl).2
      rwa [size_some rfl, List.length_replicate] at room
    · by_contra wraps
      rw [ensureFreeSpace_wraps valid word (Nat.not_lt.mp wraps)] at result
      cases result
  · exact fun room m => ensureFreeSpace_ensures m valid room

/-! ## Appending -/

/-- What an append is to do: all of the bytes are behind the ones before, or nothing changes. -/
def Appends (b : OutputBuf) (bytes : List UInt8) (result : Option (Bool × OutputBuf)) : Prop :=
  ∃ ok b', result = some (ok, b') ∧ b'.Valid ∧
    b'.contents = if ok then b.contents ++ bytes else b.contents

theorem appendOutput_appends (m : Malloc) {b : OutputBuf} (valid : b.Valid) {data : List UInt8}
    (object : data.length < 2 ^ 63) (first : b.data = none → data.length ≤ 512) :
    b.Appends data (b.appendOutput m data) := by
  have used := valid.used_le
  have small := valid.object
  unfold appendOutput
  by_cases nothing : data = []
  · rw [if_pos nothing]
    exact ⟨true, b, rfl, valid, by rw [nothing, List.append_nil, if_pos rfl]⟩
  · obtain ⟨ok, b', ensured, valid', sameUsed, sameContents, space⟩ :=
      ensureFreeSpace_ensures m valid ⟨first, by omega⟩
    rw [if_neg nothing, ensured, Option.bind_eq_bind, Option.bind_some]
    cases ok with
    | false => exact ⟨false, b', rfl, valid', sameContents⟩
    | true =>
      obtain ⟨memory, room⟩ := space rfl
      obtain ⟨cells, held⟩ := Option.ne_none_iff_exists'.mp memory
      have used' := valid'.used_le
      have object' := valid'.object
      rw [size_some held] at room used' object'
      have taken : (cells.take b'.used).length = b'.used := by
        rw [List.length_take, Nat.min_eq_left used']
      simp only [held, Bool.not_true, Bool.false_eq_true, if_false, Option.bind_eq_bind]
      rw [Option.bind_some, store_eq (by omega), Option.bind_some, add64_eq (by omega)]
      have whole : (cells.take b'.used ++ data ++ cells.drop (b'.used + data.length)).length =
          cells.length := by
        rw [List.length_append, List.length_append, taken, List.length_drop]
        omega
      refine ⟨true, _, rfl, ⟨?_, ?_⟩, ?_⟩
      · rw [size_some rfl, whole]
        simp only
        omega
      · rw [size_some rfl, whole]
        exact object'
      · rw [if_pos rfl, contents_some rfl, ← sameContents, contents_some held]
        exact List.take_left' (by rw [List.length_append, taken])

/-- More than the first block has room for is written past its end. -/
theorem appendOutput_overrun {b : OutputBuf} (released : b.data = none) {data : List UInt8}
    (long : 512 < data.length) : b.appendOutput plentiful data = none := by
  have nonempty : data ≠ [] := by
    rintro rfl
    exact absurd long (by decide)
  unfold appendOutput ensureFreeSpace
  rw [if_neg nonempty, released, plentiful_give (by decide)]
  simp only [Option.bind_eq_bind, Option.bind_some, Bool.not_true, Bool.false_eq_true, if_false]
  rw [store, if_neg (by rw [List.length_replicate]; omega)]
  rfl

theorem appendOutput_iff {b : OutputBuf} (valid : b.Valid) {data : List UInt8}
    (object : data.length < 2 ^ 63) :
    (∀ m, b.Appends data (b.appendOutput m data)) ↔ (b.data = none → data.length ≤ 512) := by
  constructor
  · intro appends released
    by_contra long
    obtain ⟨ok, b', result, -, -⟩ := appends plentiful
    rw [appendOutput_overrun released (by omega)] at result
    cases result
  · exact fun first m => appendOutput_appends m valid object first

/-- `vsnprintf` keeps the bytes in use, and the whole text is behind them if it fits with its
terminator. -/
theorem format_spec {b : OutputBuf} (valid : b.Valid) (text : List UInt8) :
    ∃ b', b.format text = some b' ∧ b'.Valid ∧ b'.used = b.used ∧ b'.size = b.size ∧
      (b'.data = none ↔ b.data = none) ∧ b'.contents = b.contents ∧
      (text.length < b.size - b.used →
        ({ b' with used := b.used + text.length } : OutputBuf).contents = b.contents ++ text) := by
  have used := valid.used_le
  have object := valid.object
  unfold format
  cases held : b.data with
  | none =>
    refine ⟨b, rfl, valid, rfl, rfl, by rw [held], rfl, fun fits => ?_⟩
    have nothing : b.size = 0 := by rw [size, held]
    omega
  | some cells =>
    rw [size_some held] at used object
    simp only [size_some held, contents_some held]
    rw [sub64_eq used (by omega)]
    unfold vsnprintf
    by_cases full : cells.length - b.used = 0
    · rw [if_pos full, Option.bind_eq_bind, Option.bind_some]
      exact ⟨_, rfl, ⟨used, object⟩, rfl, rfl, by simp, rfl, fun fits => by omega⟩
    · have written : (text.take (cells.length - b.used - 1) ++ [0]).length ≤ cells.length - b.used := by
        rw [List.length_append, List.length_take, List.length_singleton]
        omega
      have taken : (cells.take b.used).length = b.used := by
        rw [List.length_take, Nat.min_eq_left used]
      obtain ⟨newCells, stored⟩ : ∃ newCells,
          store cells b.used (text.take (cells.length - b.used - 1) ++ [0]) = some newCells :=
        ⟨_, store_eq (by omega)⟩
      have length := store_length stored
      rw [if_neg full, stored, Option.bind_eq_bind, Option.bind_some]
      rw [store_eq (by omega)] at stored
      cases stored
      refine ⟨_, rfl, ⟨?_, ?_⟩, rfl, ?_, by simp, ?_, fun fits => ?_⟩
      · rw [size_some rfl, length]
        exact used
      · rw [size_some rfl, length]
        exact object
      · rw [size_some rfl, length]
      · rw [contents_some rfl, List.append_assoc]
        exact List.take_left' taken
      · have whole : text.take (cells.length - b.used - 1) = text :=
          List.take_of_length_le (by omega)
        rw [contents_some rfl, whole, List.append_assoc, List.append_assoc, ← List.append_assoc]
        exact List.take_left' (by rw [List.length_append, taken])

/-- The first block holds the text and its terminator (or the text has no `int` length), and the
length that is asked for is an `int`. A text of 512 bytes whose last byte is its own terminator
fits too. -/
def FormatRoom (b : OutputBuf) (text : List UInt8) : Prop :=
  (b.data = none → text.length + 1 ≤ 512 ∨ intMax < text.length ∨
    (text.length = 512 ∧ text.getLast? = some 0)) ∧
  (text.length = intMax → intMax + 1 < b.size - b.used)

theorem appendOutputFormat_appends (m : Malloc) {b : OutputBuf} (valid : b.Valid)
    {text : List UInt8} (first : b.data = none → text.length + 1 ≤ 512 ∨ intMax < text.length)
    (counted : text.length = intMax → intMax + 1 < b.size - b.used) :
    b.Appends text (b.appendOutputFormat m text) := by
  obtain ⟨b₁, formatted, valid₁, used₁, size₁, none₁, contents₁, fits₁⟩ := format_spec valid text
  have used := valid₁.used_le
  have object := valid₁.object
  have limit : intMax = 2147483647 := rfl
  unfold appendOutputFormat
  simp only
  rw [formatted, Option.bind_eq_bind, Option.bind_some, sub64_eq used (by omega)]
  by_cases negative : intMax < text.length
  · rw [if_pos negative]
    exact ⟨false, b₁, rfl, valid₁, contents₁⟩
  rw [if_neg negative, add64_eq (by omega)]
  by_cases short : b₁.size - b₁.used ≤ text.length + 1
  · have next : text.length ≠ intMax := by
      intro last
      have far := counted last
      omega
    have room : b₁.Room (text.length + 1) :=
      ⟨fun none => (first (none₁.mp none)).resolve_right negative, by omega⟩
    obtain ⟨ok, b₂, ensured, valid₂, used₂, contents₂, space⟩ :=
      ensureFreeSpace_ensures m valid₁ room
    rw [if_pos short, if_neg next, ensured, Option.bind_eq_bind, Option.bind_some]
    cases ok with
    | false => exact ⟨false, b₂, rfl, valid₂, contents₂.trans contents₁⟩
    | true =>
      have room := (space rfl).2
      obtain ⟨b₃, formatted₃, valid₃, used₃, size₃, -, -, fits₃⟩ := format_spec valid₂ text
      have object₃ := valid₃.object
      simp only [Bool.not_true, Bool.false_eq_true, if_false]
      rw [formatted₃, Option.bind_some, used₃, add64_eq (by omega)]
      refine ⟨true, _, rfl, ⟨?_, object₃⟩, ?_⟩
      · change b₂.used + text.length ≤ b₃.size
        omega
      · rw [if_pos rfl, fits₃ (by omega), contents₂, contents₁]
  · rw [if_neg short, used₁, add64_eq (by omega)]
    refine ⟨true, _, rfl, ⟨?_, object⟩, ?_⟩
    · change b.used + text.length ≤ b₁.size
      omega
    · rw [if_pos rfl, fits₁ (by omega)]

/-- Without memory a long text is cut to the first block, but all of its length counts as used. -/
theorem appendOutputFormat_cut (m : Malloc) {b : OutputBuf} (valid : b.Valid) {text cells : List UInt8}
    (none : b.data = none) (long : 512 ≤ text.length) (counted : text.length < intMax)
    (given : m.give 512 = some cells) :
    b.appendOutputFormat m text = some (true, ⟨some (text.take 511 ++ [0]), text.length⟩) := by
  have empty := valid.used_of_none none
  have limit : intMax = 2147483647 := rfl
  have length := m.length _ _ given
  have size : b.size = 0 := by rw [OutputBuf.size, none]
  have unchanged : b.format text = some b := by rw [format, none]
  have ensured : b.ensureFreeSpace m (text.length + 1) = some (true, ⟨some cells, 0⟩) := by
    rw [ensureFreeSpace, none]
    simp only [given]
  have cut : (⟨some cells, 0⟩ : OutputBuf).format text = some ⟨some (text.take 511 ++ [0]), 0⟩ := by
    have written : (text.take 511 ++ [0]).length = 512 := by
      rw [List.length_append, List.length_take, List.length_singleton]
      omega
    rw [format]
    simp only
    have index : 512 - 0 - 1 = 511 := rfl
    rw [sub64_eq (Nat.zero_le _) (by omega), length, vsnprintf, if_neg (by decide), index,
      store_eq (by omega), List.take_zero, List.nil_append, Nat.zero_add, written,
      List.drop_of_length_le (by omega), List.append_nil]
    rfl
  unfold appendOutputFormat
  simp only
  rw [unchanged, Option.bind_eq_bind, Option.bind_some, if_neg (by omega), size, empty,
    sub64_eq (Nat.le_refl _) (by decide), if_pos (Nat.zero_le _), if_neg (by omega), ensured,
    Option.bind_eq_bind, Option.bind_some]
  simp only [Bool.not_true, Bool.false_eq_true, if_false]
  rw [cut, Option.bind_some]
  change some (true, (⟨some (text.take 511 ++ [0]), add64 0 text.length⟩ : OutputBuf)) = _
  rw [add64_eq (by omega), Nat.zero_add]

theorem appendOutputFormat_cut_iff (m : Malloc) {b : OutputBuf} (valid : b.Valid)
    {text cells : List UInt8} (none : b.data = none) (long : 512 ≤ text.length)
    (counted : text.length < intMax) (given : m.give 512 = some cells) :
    b.Appends text (b.appendOutputFormat m text) ↔ text.length = 512 ∧ text.getLast? = some 0 := by
  have before : b.contents = [] := by rw [contents, none]
  have written : (text.take 511 ++ [0]).length = 512 := by
    rw [List.length_append, List.length_take, List.length_singleton]
    omega
  rw [appendOutputFormat_cut m valid none long counted given]
  constructor
  · rintro ⟨ok, b', result, valid', same⟩
    cases result
    have bound := valid'.used_le
    rw [size_some rfl, written] at bound
    have whole : text.length = 512 := Nat.le_antisymm bound long
    rw [if_pos rfl, before, List.nil_append, contents_some rfl, whole,
      List.take_of_length_le (Nat.le_of_eq written)] at same
    refine ⟨whole, ?_⟩
    rw [← same]
    exact List.getLast?_concat
  · rintro ⟨whole, last⟩
    obtain ⟨front, rfl⟩ := List.getLast?_eq_some_iff.mp last
    have lengthFront : front.length = 511 := by
      rw [List.length_append, List.length_singleton] at whole
      omega
    rw [List.take_left' lengthFront, whole]
    refine ⟨true, _, rfl, ⟨?_, ?_⟩, ?_⟩
    · rw [size_some rfl, whole]
    · rw [size_some rfl, whole]
      decide
    · rw [if_pos rfl, before, List.nil_append, contents_some rfl,
        List.take_of_length_le (Nat.le_of_eq whole)]

theorem appendOutputFormat_iff {b : OutputBuf} (valid : b.Valid) (text : List UInt8) :
    (∀ m, b.Appends text (b.appendOutputFormat m text)) ↔ b.FormatRoom text := by
  have limit : intMax = 2147483647 := rfl
  have overflow : text.length = intMax → b.size - b.used ≤ intMax + 1 →
      ∀ m, b.appendOutputFormat m text = none := by
    intro last short m
    obtain ⟨b₁, formatted, valid₁, used₁, size₁, -, -, -⟩ := format_spec valid text
    have used := valid₁.used_le
    have object := valid₁.object
    unfold appendOutputFormat
    simp only
    rw [formatted, Option.bind_eq_bind, Option.bind_some, if_neg (by omega),
      sub64_eq used (by omega), add64_eq (by omega), if_pos (by omega), if_pos last]
  constructor
  · intro appends
    refine ⟨fun none => ?_, fun last => ?_⟩
    · by_contra outside
      have size : b.size = 0 := by rw [OutputBuf.size, none]
      by_cases last : text.length = intMax
      · obtain ⟨ok, b', result, -⟩ := appends plentiful
        rw [overflow last (by omega)] at result
        cases result
      · have exact := (appendOutputFormat_cut_iff plentiful valid none (by omega) (by omega)
          (plentiful_give (by decide))).mp (appends plentiful)
        exact outside (.inr (.inr exact))
    · by_contra short
      obtain ⟨ok, b', result, -⟩ := appends plentiful
      rw [overflow last (by omega)] at result
      cases result
  · rintro ⟨first, counted⟩ m
    by_cases corner : b.data = none ∧ text.length = 512 ∧ text.getLast? = some 0
    · obtain ⟨none, whole, last⟩ := corner
      cases given : m.give 512 with
      | some cells =>
        exact (appendOutputFormat_cut_iff m valid none (by omega) (by omega) given).mpr ⟨whole, last⟩
      | none =>
        -- Without a first block the text is refused, whatever its length.
        have size : b.size = 0 := by rw [OutputBuf.size, none]
        have unchanged : b.format text = some b := by rw [format, none]
        have refused : b.ensureFreeSpace m (text.length + 1) = some (false, b) := by
          rw [ensureFreeSpace, none]
          simp only [given]
        refine ⟨false, b, ?_, valid, rfl⟩
        unfold appendOutputFormat
        simp only
        rw [unchanged, Option.bind_eq_bind, Option.bind_some, if_neg (by omega), size,
          valid.used_of_none none, sub64_eq (Nat.le_refl _) (by decide), if_pos (Nat.zero_le _),
          if_neg (by omega), refused]
        rfl
    · apply appendOutputFormat_appends m valid _ counted
      intro none
      rcases first none with fits | negative | whole
      · exact .inl fits
      · exact .inr negative
      · exact absurd ⟨none, whole⟩ corner

/-! ## The buffer of the server model -/

/-- The buffer as the server model has it. -/
def toIoBuf (b : OutputBuf) : IoBuf :=
  ⟨b.data.map fun cells => ⟨cells.length, cells.take b.used⟩⟩

theorem ensureFreeSpace_refines (m : Malloc) {b : OutputBuf} (valid : b.Valid) {min : Nat}
    (word : b.used + min < 2 ^ 64) :
    HttpServer.ensureFreeSpace m.finds b.toIoBuf min =
      match b.ensureFreeSpace m min with
      | some (true, b') => b'.toIoBuf.block
      | _ => none := by
  cases held : b.data with
  | none =>
    unfold HttpServer.ensureFreeSpace ensureFreeSpace toIoBuf Malloc.finds
    rw [held]
    cases given : m.give 512 with
    | none => rfl
    | some cells =>
      have length := m.length _ _ given
      simp [length]
  | some cells =>
    have used := valid.used_le
    rw [size_some held] at used
    have taken : (cells.take b.used).length = b.used := by
      rw [List.length_take, Nat.min_eq_left used]
    rw [ensureFreeSpace_memory m valid word held]
    unfold HttpServer.ensureFreeSpace toIoBuf Malloc.finds
    rw [held]
    simp only [Option.map_some, taken]
    rw [← grown]
    split
    · cases given : m.give (grown cells.length b.used min) with
      | none => rfl
      | some newCells =>
        have length := m.length _ _ given
        have enough := le_grown min used
        rw [← length] at enough
        have whole : (cells.take b.used ++ newCells.drop b.used).length = newCells.length := by
          rw [List.length_append, taken, List.length_drop]
          omega
        simp only [Option.isSome_some, if_true, Option.map_some, whole, List.take_left' taken, length]
    · simp only [held, Option.map_some]

/-- Appending to the cells is appending in the server model. -/
theorem appendOutput_refines (m : Malloc) {b : OutputBuf} (valid : b.Valid) {data : List UInt8}
    (object : data.length < 2 ^ 63) {s : Server} {ci pi : Nat}
    (held : (s.cs ci).output = b.toIoBuf) (entry : (s.cs ci).pitem = some pi) :
    HttpServer.appendOutput m.finds s ci data =
      match b.appendOutput m data with
      | none => .error .outOfBounds
      | some (false, _) => .ok (false, s)
      | some (true, b') => .ok (true,
          if data = [] then s
          else (s.setClient ci { s.cs ci with output := b'.toIoBuf }).setPollout pi true) := by
  have used := valid.used_le
  have small := valid.object
  unfold HttpServer.appendOutput appendOutput
  by_cases nothing : data = []
  · rw [if_pos nothing, if_pos nothing]
    simp only [if_pos nothing]
  · have word : b.used + data.length < 2 ^ 64 := by omega
    obtain ⟨ok, b', ensured, valid', -, -, memory, -⟩ := ensureFreeSpace_keeps m valid word
    rw [if_neg nothing, if_neg nothing]
    simp only
    rw [held, ensureFreeSpace_refines m valid word, ensured]
    cases ok with
    | false => rfl
    | true =>
      obtain ⟨cells, cellsHeld⟩ := Option.ne_none_iff_exists'.mp (memory rfl).1
      have used' := valid'.used_le
      have object' := valid'.object
      rw [size_some cellsHeld] at used' object'
      have taken : (cells.take b'.used).length = b'.used := by
        rw [List.length_take, Nat.min_eq_left used']
      simp only [toIoBuf, cellsHeld, Option.map_some, Option.bind_eq_bind, Option.bind_some,
        Bool.not_true, Bool.false_eq_true, if_false, Block.append, taken, entry, if_neg nothing]
      by_cases fits : b'.used + data.length ≤ cells.length
      · have whole : (cells.take b'.used ++ data ++ cells.drop (b'.used + data.length)).length =
            cells.length := by
          rw [List.length_append, List.length_append, taken, List.length_drop]
          omega
        have front : (cells.take b'.used ++ data ++ cells.drop (b'.used + data.length)).take
            (b'.used + data.length) = cells.take b'.used ++ data :=
          List.take_left' (by rw [List.length_append, taken])
        rw [if_pos fits, store_eq fits, Option.bind_some, add64_eq (by omega)]
        simp only [Option.map_some, whole, front]
        rfl
      · rw [if_neg fits, store, if_neg fits]
        rfl

/-- The server model sees the size and the bytes in use. -/
theorem toIoBuf_congr {b b' : OutputBuf} (none : b'.data = none ↔ b.data = none)
    (size : b'.size = b.size) (contents : b'.contents = b.contents) : b'.toIoBuf = b.toIoBuf := by
  unfold toIoBuf
  cases held : b.data with
  | none =>
    rw [none.mpr held]
    rfl
  | some cells =>
    obtain ⟨cells', held'⟩ := Option.ne_none_iff_exists'.mp
      (none.not.mpr (by rw [held]; exact Option.some_ne_none cells))
    rw [size_some held, size_some held'] at size
    rw [contents_some held, contents_some held'] at contents
    rw [held', Option.map_some, Option.map_some, size, contents]

theorem toIoBuf_size (b : OutputBuf) : b.toIoBuf.size = b.size := by
  unfold toIoBuf IoBuf.size size
  cases b.data with
  | none => rfl
  | some cells => rfl

theorem toIoBuf_bytes (b : OutputBuf) : b.toIoBuf.bytes = b.contents := by
  unfold toIoBuf IoBuf.bytes contents
  cases b.data with
  | none => rfl
  | some cells => rfl

/-- A buffer with memory, seen as the block of the server model. -/
theorem toIoBuf_block {b : OutputBuf} (memory : b.data ≠ none) :
    b.toIoBuf.block = some ⟨b.size, b.contents⟩ := by
  obtain ⟨cells, held⟩ := Option.ne_none_iff_exists'.mp memory
  rw [toIoBuf, held, size_some held, contents_some held]
  rfl

theorem toIoBuf_written {b b' : OutputBuf} {used : Nat} {text : List UInt8} (memory : b'.data ≠ none)
    (size : b'.size = b.size)
    (contents : ({ b' with used := used } : OutputBuf).contents = b.contents ++ text) :
    ({ b' with used := used } : OutputBuf).toIoBuf = ⟨some ⟨b.size, b.contents ++ text⟩⟩ := by
  have block := toIoBuf_block (b := { b' with used := used }) memory
  rw [contents] at block
  rw [← size]
  exact congrArg IoBuf.mk block

/-- The last step of a formatted append in the server model, where the text and its terminator
fit. -/
theorem format_written {b : OutputBuf} (valid : b.Valid) {text : List UInt8}
    (fits : b.used + text.length + 1 ≤ b.size) {s : Server} {ci pi : Nat}
    (entry : (s.cs ci).pitem = some pi) :
    ∃ s', (if text = [] then Except.ok (true, s.setClient ci
          { s.cs ci with output := ⟨some ⟨b.size, b.contents⟩⟩ })
        else do
          let block ← (Block.mk b.size b.contents).format text
          match (s.cs ci).pitem with
          | none => .error Fault.nullPointer
          | some pi => .ok (true,
              (s.setClient ci { s.cs ci with output := ⟨some block⟩ }).setPollout pi true)) =
        .ok (true, s') ∧ (s'.cs ci).output = ⟨some ⟨b.size, b.contents ++ text⟩⟩ := by
  by_cases nothing : text = []
  · rw [if_pos nothing, nothing, List.append_nil]
    exact ⟨_, rfl, by simp⟩
  · have appended : (Block.mk b.size b.contents).format text =
        .ok ⟨b.size, b.contents ++ text⟩ := by
      unfold Block.format
      rw [valid.contents_length, if_pos fits]
    rw [if_neg nothing, appended, entry]
    exact ⟨_, rfl, by simp⟩

/-- Formatting into the cells is formatting in the server model, where the first block is large
enough and the length asked for is an `int`. -/
theorem appendOutputFormat_refines (m : Malloc) {b : OutputBuf} (valid : b.Valid)
    {text : List UInt8} (first : b.data = none → text.length + 1 ≤ 512)
    (counted : text.length < intMax) {s : Server} {ci pi : Nat}
    (held : (s.cs ci).output = b.toIoBuf) (entry : (s.cs ci).pitem = some pi) :
    ∃ ok b' s', b.appendOutputFormat m text = some (ok, b') ∧
      HttpServer.appendOutputFormat m.finds s ci text = .ok (ok, s') ∧
      (s'.cs ci).output = b'.toIoBuf := by
  obtain ⟨b₁, formatted, valid₁, used₁, size₁, none₁, contents₁, fits₁⟩ := format_spec valid text
  have used := valid₁.used_le
  have object := valid₁.object
  have limit : intMax = 2147483647 := rfl
  have same := toIoBuf_congr none₁ size₁ contents₁
  unfold appendOutputFormat HttpServer.appendOutputFormat
  simp only
  rw [formatted, Option.bind_eq_bind, Option.bind_some, sub64_eq used (by omega),
    if_neg (by omega), add64_eq (by omega), held, IoBuf.used, toIoBuf_size, toIoBuf_bytes,
    valid.contents_length]
  by_cases short : b₁.size - b₁.used ≤ text.length + 1
  · have word : b₁.used + (text.length + 1) < 2 ^ 64 := by omega
    obtain ⟨ok, b₂, ensured, valid₂, used₂, contents₂, space, kept⟩ :=
      ensureFreeSpace_keeps m valid₁ word
    rw [if_pos short, if_neg (by omega), if_pos (by omega), ← same,
      ensureFreeSpace_refines m valid₁ word, ensured, Option.bind_eq_bind, Option.bind_some]
    cases ok with
    | false =>
      refine ⟨false, b₂, s, rfl, rfl, ?_⟩
      rw [kept rfl, same, held]
    | true =>
      obtain ⟨memory, large⟩ := space rfl
      have room := large fun none => first (none₁.mp none)
      obtain ⟨b₃, formatted₃, valid₃, used₃, size₃, none₃, contents₃, fits₃⟩ := format_spec valid₂ text
      have used₂' := valid₂.used_le
      have object₂ := valid₂.object
      have fits : b₂.used + text.length + 1 ≤ b₂.size := by omega
      obtain ⟨s', done, output⟩ := format_written valid₂ fits entry
      simp only [Bool.not_true, Bool.false_eq_true, if_false, toIoBuf_block memory]
      rw [formatted₃, Option.bind_some, used₃, add64_eq (by omega)]
      refine ⟨true, _, s', rfl, done, ?_⟩
      rw [output, toIoBuf_written (none₃.not.mpr memory) size₃ (fits₃ (by omega))]
  · have memory : b.data ≠ none := by
      intro none
      have nothing : b.size = 0 := by rw [OutputBuf.size, none]
      omega
    have fits : b.used + text.length + 1 ≤ b.size := by omega
    obtain ⟨s', done, output⟩ := format_written valid fits entry
    rw [if_neg short, if_neg (by omega), toIoBuf_block memory, used₁, add64_eq (by omega)]
    refine ⟨true, _, s', rfl, done, ?_⟩
    rw [output, toIoBuf_written (none₁.not.mpr memory) size₁ (fits₁ (by omega))]

/-- Where the text is cut, the server model ends: the buffer counts more than the memory has. -/
theorem appendOutputFormat_overcounts (m : Malloc) {b : OutputBuf} (released : b.data = none)
    (found : m.finds 512 = true) {text : List UInt8} (long : 512 ≤ text.length) {s : Server} {ci : Nat}
    (held : (s.cs ci).output = b.toIoBuf) :
    HttpServer.appendOutputFormat m.finds s ci text = .error .overcounted := by
  have empty : b.toIoBuf.block = none := by rw [toIoBuf, released]; rfl
  have nonempty : text ≠ [] := by
    rintro rfl
    exact absurd long (by decide)
  unfold HttpServer.appendOutputFormat HttpServer.ensureFreeSpace
  simp only [held, IoBuf.size, IoBuf.used, empty, Nat.zero_sub, ge_iff_le, Nat.zero_le, if_true,
    found, if_neg nonempty]
  unfold Block.format
  rw [if_neg (by rw [List.length_nil]; dsimp only; omega)]
  rfl

/-- No call of the server writes past the memory of the output or counts more than it has, whatever
`malloc` gives, exactly where the first block is large enough. -/
theorem server_output_whole_iff {b : OutputBuf} (valid : b.Valid) {s : Server} {ci pi : Nat}
    (held : (s.cs ci).output = b.toIoBuf) (entry : (s.cs ci).pitem = some pi) :
    (∀ data : List UInt8, data.length < 2 ^ 63 →
      ((∀ m : Malloc, ∃ ok s', HttpServer.appendOutput m.finds s ci data = .ok (ok, s')) ↔
        (b.data = none → data.length ≤ 512))) ∧
      ∀ text : List UInt8, text.length < intMax →
        ((∀ m : Malloc, ∃ ok s', HttpServer.appendOutputFormat m.finds s ci text = .ok (ok, s')) ↔
          (b.data = none → text.length + 1 ≤ 512)) := by
  refine ⟨fun data object => ⟨fun writes => ?_, fun first m => ?_⟩,
    fun text counted => ⟨fun writes released => ?_, fun first m => ?_⟩⟩
  · intro released
    by_contra long
    obtain ⟨ok, s', ran⟩ := writes plentiful
    rw [appendOutput_refines plentiful valid object held entry,
      appendOutput_overrun released (by omega)] at ran
    cases ran
  · obtain ⟨ok, b', appended, -, -⟩ := appendOutput_appends m valid object first
    rw [appendOutput_refines m valid object held entry, appended]
    cases ok with
    | false => exact ⟨_, _, rfl⟩
    | true => exact ⟨_, _, rfl⟩
  · by_contra long
    obtain ⟨ok, s', ran⟩ := writes plentiful
    have found : plentiful.finds 512 = true := by rw [Malloc.finds, plentiful_give (by decide)]; rfl
    rw [appendOutputFormat_overcounts plentiful released found (by omega) held] at ran
    cases ran
  · obtain ⟨ok, b', s', -, ran, -⟩ := appendOutputFormat_refines m valid first counted held entry
    exact ⟨ok, s', ran⟩

/-- With any `malloc` the space is there, and the plain and the formatted bytes are appended,
exactly where the first block is large enough and the lengths are words. -/
theorem output_growth_iff {b : OutputBuf} (valid : b.Valid) :
    (∀ min < 2 ^ 64, (∀ m, b.Ensures min (b.ensureFreeSpace m min)) ↔ b.Room min) ∧
      (∀ data : List UInt8, data.length < 2 ^ 63 →
        ((∀ m, b.Appends data (b.appendOutput m data)) ↔ (b.data = none → data.length ≤ 512))) ∧
      ∀ text : List UInt8, (∀ m, b.Appends text (b.appendOutputFormat m text)) ↔ b.FormatRoom text :=
  ⟨fun _ word => ensureFreeSpace_iff valid word, fun _ object => appendOutput_iff valid object,
    appendOutputFormat_iff valid⟩

/-- A buffer that `socket_output` has drained and released. -/
def drained : OutputBuf := ⟨none, 0⟩

theorem drained_valid : drained.Valid := ⟨Nat.le_refl 0, by decide⟩

theorem output_growth_iff_drained :
    (∀ min < 2 ^ 64, (∀ m, drained.Ensures min (drained.ensureFreeSpace m min)) ↔ drained.Room min) ∧
      (∀ data : List UInt8, data.length < 2 ^ 63 →
        ((∀ m, drained.Appends data (drained.appendOutput m data)) ↔
          (drained.data = none → data.length ≤ 512))) ∧
      ∀ text : List UInt8,
        (∀ m, drained.Appends text (drained.appendOutputFormat m text)) ↔ drained.FormatRoom text :=
  output_growth_iff drained_valid

end OutputBuf

/-- A header of more than 512 bytes. -/
def longHeader : List UInt8 := ascii "X:" ++ List.replicate 600 'a'.toUInt8

/-- A status is set and sent, and then the program gets another request. -/
def statusSent : List Action :=
  [.wait, inputOn 0 [.client 5] .again,
    inputOn 1 [] (.data (ascii "GET / HTTP/1.1\r\n\r\n") .again), .round (fun _ => true),
    .setStatus 0 200 (fun _ => true), .wait,
    .processIo { poll := some (fun i => ⟨i = 0, i = 1⟩), accepts := [.client 6],
                 sends := fun _ => .accepted 17 .again },
    inputOn 2 [] (.data (ascii "GET / HTTP/1.1\r\n\r\n") .again), .round (fun _ => true)]

/-- A drained buffer gets 512 bytes however many are needed: in a run of the server the next long
header is written past its end. -/
theorem output_growth_ignores_minimum :
    ¬ (∀ m, OutputBuf.drained.Ensures 600 (OutputBuf.drained.ensureFreeSpace m 600)) ∧
      ¬ (∀ m, OutputBuf.drained.Appends longHeader (OutputBuf.drained.appendOutput m longHeader)) ∧
      ∃ st, (system fourClients).Reachable st ∧ (st.server.cs 0).state = .header ∧
        (st.server.cs 0).output = {} ∧
        appendHeader 4 (fun _ => true) st.server 0 longHeader = .error .outOfBounds := by
  have length : longHeader.length = 602 := by decide +kernel
  refine ⟨?_, ?_, ?_⟩
  · rw [OutputBuf.ensureFreeSpace_iff OutputBuf.drained_valid (by decide)]
    exact fun room => absurd (room.1 rfl) (by decide)
  · rw [OutputBuf.appendOutput_iff OutputBuf.drained_valid (by rw [length]; decide), length]
    exact fun room => absurd (room rfl) (by decide)
  · obtain ⟨st, reached, passed⟩ := start_reaches fourClients statusSent
      (fun st => (st.server.cs 0).state == .header && (st.server.cs 0).output == {} &&
        match appendHeader 4 (fun _ => true) st.server 0 longHeader with
        | .error fault => fault == .outOfBounds
        | .ok _ => false) (by decide +kernel)
    simp only [Bool.and_eq_true, beq_iff_eq] at passed
    obtain ⟨⟨state, output⟩, stopped⟩ := passed
    refine ⟨st, reached, state, output, ?_⟩
    split at stopped
    · next fault result => rw [result, eq_of_beq stopped]
    · cases stopped

end Mysnips.HttpServer
