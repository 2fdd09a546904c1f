import Mathlib.Logic.Function.Basic
import Mysnips.HttpParse
import Mysnips.Memory

/-! Markdown files of the static file server. `send_file_md` reads a file into a buffer that
starts with 1024 bytes. Where these are full it asks for a larger block, but goes on with the
old pointer and the old capacity: the next read is one of no bytes, which looks like the end of
the file, and the pointer leads nowhere if the block has moved. The heap and the results of
`malloc`, `realloc` and `read` are inputs. -/
namespace Mysnips.HttpMarkdown
open HttpParse Memory

/-- The blocks of the heap by their addresses, and an address behind them. A byte that has not
been written is not there. -/
structure Heap where
  blocks : Nat → Option (List (Option UInt8))
  next : Nat

inductive Fault where
  | dangling
  | outOfBounds
  deriving DecidableEq, Repr

/-- What `realloc` does. -/
inductive Realloc where
  | fails
  | inPlace
  | moves
  deriving DecidableEq, Repr

/-- What the system answers. A read that does not fail has a number of bytes to give, of which it
gives no more than it is asked for and than there are, and one at least if it can. -/
structure Answers where
  malloc : Bool
  realloc : Realloc
  read : Nat → Option Nat

/-- What `open` finds under the name of a file. -/
inductive File where
  | missing
  | unreadable
  | special
  | regular (content : List UInt8)
  deriving DecidableEq, Repr

inductive Call where
  | setStatus (status : Nat)
  | appendHeader (header : List UInt8)
  | appendMarkupAsHtml (str : List (Option UInt8)) (nohtml : Bool)
  | sendResponse
  deriving DecidableEq, Repr

/-- A call of `read`: how large the block is that it reads into, if there is one, from where on
and how much. -/
structure Request where
  block : Option Nat
  offset : Nat
  asked : Nat
  deriving DecidableEq, Repr

/-- The local variables of `send_file_md`, the heap and the reads so far. -/
structure Loading where
  heap : Heap
  buffer : Nat
  size : Nat
  capacity : Nat
  requests : List Request

/-- What `send_file_md` returns, and what it has done. -/
structure Response where
  found : Bool
  calls : List Call
  requests : List Request
  deriving DecidableEq, Repr

def Heap.malloc (heap : Heap) (size : Nat) : Heap × Nat :=
  (⟨Function.update heap.blocks heap.next (some (List.replicate size none)), heap.next + 1⟩,
    heap.next)

/-- `realloc` to a larger size. -/
def Heap.realloc (heap : Heap) (address size : Nat) (how : Realloc) :
    Except Fault (Heap × Option Nat) :=
  match heap.blocks address with
  | none => .error .dangling
  | some cells =>
    let larger := some (cells ++ List.replicate (size - cells.length) none)
    match how with
    | .fails => .ok (heap, none)
    | .inPlace => .ok ({ heap with blocks := Function.update heap.blocks address larger }, some address)
    | .moves =>
      .ok (⟨Function.update (Function.update heap.blocks address none) heap.next larger,
        heap.next + 1⟩, some heap.next)

/-- Bytes are written to a block. -/
def Heap.write (heap : Heap) (address offset : Nat) (bytes : List UInt8) : Except Fault Heap :=
  match heap.blocks address with
  | none => .error .dangling
  | some cells =>
    match store cells offset (bytes.map some) with
    | none => .error .outOfBounds
    | some cells => .ok { heap with blocks := Function.update heap.blocks address (some cells) }

/-- What is read through a pointer and a length. -/
def Heap.text (heap : Heap) (address length : Nat) : Except Fault (List (Option UInt8)) :=
  match heap.blocks address with
  | none => .error .dangling
  | some cells =>
    match load cells 0 length with
    | none => .error .outOfBounds
    | some str => .ok str

def Heap.free (heap : Heap) (address : Nat) : Except Fault Heap :=
  match heap.blocks address with
  | none => .error .dangling
  | some _ => .ok { heap with blocks := Function.update heap.blocks address none }

/-- How many bytes a read gives. -/
def transfer (want asked left : Nat) : Nat := min (max want 1) (min asked left)

theorem drop_shorter {want asked : Nat} {rest : List UInt8}
    (more : ¬ transfer want asked rest.length = 0) :
    (rest.drop (transfer want asked rest.length)).length < rest.length := by
  have le : transfer want asked rest.length ≤ rest.length :=
    Nat.le_trans (Nat.min_le_right ..) (Nat.min_le_right ..)
  rw [List.length_drop]
  omega

/-- The read that the loop makes is put on record. -/
def Loading.request (s : Loading) : Loading :=
  { s with requests := s.requests ++
      [⟨(s.heap.blocks s.buffer).map List.length, s.size, s.capacity - s.size⟩] }

/-- What the loop does with a full buffer, and whether it goes on. -/
def grow (answers : Answers) (s : Loading) : Except Fault (Loading × Bool) :=
  if s.size = s.capacity then do
    let (heap, temp) ← s.heap.realloc s.buffer (2 * s.capacity) answers.realloc
    .ok ({ s with heap }, temp.isSome)
  else .ok (s, true)

/-- The loop that reads a file, and whether it has failed. -/
def readLoop (answers : Answers) (count : Nat) (s : Loading) (rest : List UInt8) :
    Except Fault (Loading × Bool) := do
  let (s, grown) ← grow answers s
  if grown = false then .ok (s, true)
  else
    let s := s.request
    match answers.read count with
    | none => .ok (s, true)
    | some want =>
      let num := transfer want (s.capacity - s.size) rest.length
      if num = 0 then .ok (s, false)
      else
        let heap ← s.heap.write s.buffer s.size (rest.take num)
        readLoop answers (count + 1) { s with heap, size := s.size + num } (rest.drop num)
termination_by rest.length
decreasing_by exact drop_shorter (by assumption)

/-- The end of `send_file_md` for a file that was opened. -/
def respond (heap : Heap) (buffer : Option Nat) (size : Nat) (fail : Bool) :
    Except Fault (List Call) :=
  if fail then .ok [.setStatus 500, .sendResponse]
  else do
    let str ← match buffer with
      | none => .ok []
      | some buffer => heap.text buffer size
    .ok [.setStatus 200, .appendHeader (ascii "Content-Type: text/html"),
      .appendMarkupAsHtml str false, .sendResponse]

/-- `send_file_md`. -/
def sendFileMd (answers : Answers) (heap : Heap) : File → Except Fault Response
  | .missing | .special => .ok ⟨false, [], []⟩
  | .unreadable => .ok ⟨true, [.setStatus 500, .sendResponse], []⟩
  | .regular content =>
    if answers.malloc then do
      let (heap, buffer) := heap.malloc (1 <<< 10)
      let (s, fail) ← readLoop answers 0 ⟨heap, buffer, 0, 1 <<< 10, []⟩ content
      let calls ← respond s.heap (some s.buffer) s.size fail
      let _ ← s.heap.free s.buffer
      .ok ⟨true, calls, s.requests⟩
    else do
      let calls ← respond heap none 0 false
      .ok ⟨true, calls, []⟩

/-- The allocations succeed, and the reads deliver what is in the file. -/
structure Delivers (answers : Answers) : Prop where
  malloc : answers.malloc = true
  realloc : answers.realloc ≠ .fails
  read : ∀ n, answers.read n ≠ none

/-- A read stays inside the block that it reads into. -/
def Request.Inside (request : Request) : Prop :=
  ∃ length, request.block = some length ∧ request.offset + request.asked ≤ length

/-- The whole file is rendered, and it is read into allocated memory. -/
def RendersWhole (answers : Answers) (heap : Heap) (content : List UInt8) : Prop :=
  ∃ response, sendFileMd answers heap (.regular content) = .ok response ∧
    .appendMarkupAsHtml (content.map some) false ∈ response.calls ∧
    ∀ request ∈ response.requests, request.Inside

/-! ## The loop -/

/-- The buffer has its first size, and holds what was read so far. -/
structure Filled (content : List UInt8) (s : Loading) (rest : List UInt8) : Prop where
  capacity : s.capacity = 1 <<< 10
  split : content = content.take s.size ++ rest
  size : s.size ≤ content.length
  room : s.size ≤ 1 <<< 10
  fresh : s.buffer ≠ s.heap.next
  cells : ∃ cells, s.heap.blocks s.buffer = some cells ∧ cells.length = 1 <<< 10 ∧
    cells.take s.size = (content.take s.size).map some
  requests : ∀ request ∈ s.requests, request.Inside

section Loop

variable {answers : Answers} {content rest : List UInt8} {s : Loading} {count want : Nat}

theorem Filled.rest_eq (filled : Filled content s rest) : rest = content.drop s.size := by
  have split := filled.split
  nth_rewrite 1 [← List.take_append_drop s.size content] at split
  exact (List.append_cancel_left split).symm

/-- A read of the loop is one into the buffer. -/
theorem Filled.request (filled : Filled content s rest) : Filled content s.request rest := by
  obtain ⟨cells, held, long, same⟩ := filled.cells
  refine ⟨filled.capacity, filled.split, filled.size, filled.room, filled.fresh, filled.cells, ?_⟩
  intro request member
  rcases List.mem_append.mp member with earlier | last
  · exact filled.requests request earlier
  · rw [List.mem_singleton.mp last]
    refine ⟨cells.length, by rw [held]; rfl, ?_⟩
    have room := filled.room
    simp only [filled.capacity, long]
    omega

/-- What a read gives is behind what was read before. -/
theorem Filled.write (filled : Filled content s rest) {num : Nat} (asked : s.size + num ≤ 1 <<< 10)
    (some : num ≤ rest.length) :
    ∃ heap, s.heap.write s.buffer s.size (rest.take num) = .ok heap ∧
      Filled content { s with heap, size := s.size + num } (rest.drop num) := by
  obtain ⟨cells, held, long, same⟩ := filled.cells
  have given : ((rest.take num).map Option.some).length = num := by
    rw [List.length_map, List.length_take, Nat.min_eq_left some]
  have inside : s.size + ((rest.take num).map Option.some).length ≤ cells.length := by
    rw [given, long]
    exact asked
  have behind := filled.rest_eq
  have total : s.size + rest.length = content.length := by
    rw [behind, List.length_drop]
    have size := filled.size
    omega
  have size : s.size + num ≤ content.length := by omega
  have taken : content.take (s.size + num) = content.take s.size ++ rest.take num := by
    rw [List.take_add, behind]
  unfold Heap.write
  simp only [held, store_eq inside]
  refine ⟨_, rfl, filled.capacity, ?_, size, asked, filled.fresh, ?_, filled.requests⟩
  · show content = content.take (s.size + num) ++ rest.drop num
    rw [taken, List.append_assoc, List.take_append_drop]
    exact filled.split
  · refine ⟨_, Function.update_self .., ?_, ?_⟩
    · rw [← long]
      exact store_length (store_eq inside)
    · have before : (cells.take s.size).length = s.size := by
        rw [List.length_take, long]
        exact Nat.min_eq_left filled.room
      show List.take (s.size + num) _ = (content.take (s.size + num)).map Option.some
      rw [taken, List.map_append, ← same]
      refine List.take_left' ?_
      rw [List.length_append, before, given]

theorem grow_small (filled : Filled content s rest) (small : s.size ≠ 1 <<< 10) :
    grow answers s = .ok (s, true) := if_neg fun full => small (full.trans filled.capacity)

/-- A round of the loop where the buffer is not full: the end of the file is seen, or some more
of it is read. -/
theorem readLoop_small (delivers : Delivers answers) (filled : Filled content s rest)
    (small : s.size ≠ 1 <<< 10) :
    (rest = [] ∧ readLoop answers count s rest = .ok (s.request, false)) ∨
    ∃ s' rest', readLoop answers count s rest = readLoop answers (count + 1) s' rest' ∧
      Filled content s' rest' ∧ rest'.length < rest.length := by
  obtain ⟨want, given⟩ := Option.ne_none_iff_exists'.mp (delivers.read count)
  have room := filled.room
  have capacity : s.request.capacity - s.request.size = 1 <<< 10 - s.size := by
    rw [← filled.capacity]
    rfl
  rw [readLoop, grow_small filled small]
  simp only [bind, Except.bind, Bool.true_eq_false, if_false, given]
  by_cases more : transfer want (s.request.capacity - s.request.size) rest.length = 0
  · rw [if_pos more]
    refine .inl ⟨List.eq_nil_of_length_eq_zero ?_, rfl⟩
    rw [capacity, transfer] at more
    omega
  · rw [if_neg more]
    have asked : s.request.size + transfer want (s.request.capacity - s.request.size) rest.length ≤
        1 <<< 10 := by
      have size : s.request.size = s.size := rfl
      rw [capacity, transfer, size]
      omega
    have some : transfer want (s.request.capacity - s.request.size) rest.length ≤ rest.length :=
      Nat.le_trans (Nat.min_le_right ..) (Nat.min_le_right ..)
    obtain ⟨heap, written, filled'⟩ := filled.request.write asked some
    rw [written]
    exact .inr ⟨_, _, rfl, filled', drop_shorter more⟩

/-- The loop gets to the end of the file or to that of the buffer. -/
theorem readLoop_fills (delivers : Delivers answers) (filled : Filled content s rest) :
    (∃ s', readLoop answers count s rest = .ok (s', false) ∧ Filled content s' [] ∧
      s'.size ≠ 1 <<< 10) ∨
    ∃ count' s' rest', readLoop answers count s rest = readLoop answers count' s' rest' ∧
      Filled content s' rest' ∧ s'.size = 1 <<< 10 := by
  induction long : rest.length using Nat.strong_induction_on generalizing count s rest with
  | _ length ih =>
  by_cases full : s.size = 1 <<< 10
  · exact .inr ⟨count, s, rest, rfl, filled, full⟩
  rcases @readLoop_small answers content rest s count delivers filled full with
    ⟨rfl, ended⟩ | ⟨s', rest', goesOn, filled', shorter⟩
  · exact .inl ⟨s.request, ended, filled.request, full⟩
  · rw [goesOn]
    exact ih rest'.length (long ▸ shorter) filled' rfl

/-- With a full buffer the loop asks for no bytes, and ends. -/
theorem readLoop_ends {s' : Loading} (delivers : Delivers answers)
    (grown : grow answers s = .ok (s', true)) (full : s'.size = s'.capacity) :
    readLoop answers count s rest = .ok (s'.request, false) := by
  obtain ⟨want, given⟩ := Option.ne_none_iff_exists'.mp (delivers.read count)
  have nothing : transfer want (s'.request.capacity - s'.request.size) rest.length = 0 := by
    have asked : s'.request.capacity - s'.request.size = 0 :=
      Nat.sub_eq_zero_of_le (Nat.le_of_eq full.symm)
    rw [asked, transfer, Nat.zero_min, Nat.min_zero]
  rw [readLoop, grown]
  simp only [bind, Except.bind, Bool.true_eq_false, if_false, given]
  rw [if_pos nothing]

/-- A full buffer that is enlarged where it is has what was read. -/
theorem readLoop_inPlace (delivers : Delivers answers) (filled : Filled content s rest)
    (full : s.size = 1 <<< 10) (stays : answers.realloc = .inPlace) :
    ∃ s', readLoop answers count s rest = .ok (s', false) ∧ s'.size = 1 <<< 10 ∧
      s'.heap.text s'.buffer s'.size = .ok ((content.take (1 <<< 10)).map some) ∧
      (∃ heap, s'.heap.free s'.buffer = .ok heap) ∧ ∀ request ∈ s'.requests, request.Inside := by
  obtain ⟨cells, held, long, same⟩ := filled.cells
  have size : s.size = s.capacity := full.trans filled.capacity.symm
  let larger := cells ++ List.replicate (2 * s.capacity - cells.length) none
  let heap : Heap := { s.heap with blocks := Function.update s.heap.blocks s.buffer (some larger) }
  have grown : grow answers s = .ok ({ s with heap }, true) := by
    unfold grow Heap.realloc
    rw [if_pos size, held, stays]
    rfl
  have block : heap.blocks s.buffer = some larger := Function.update_self ..
  refine ⟨_, readLoop_ends delivers grown size, full, ?_, ?_, ?_⟩
  · show heap.text s.buffer s.size = _
    have inside : 0 + s.size ≤ larger.length := by
      rw [List.length_append, long, full]
      omega
    unfold Heap.text
    rw [block]
    simp only [load_eq inside, List.drop_zero]
    rw [List.take_append_of_le_length (by omega), same, full]
  · show ∃ freed, heap.free s.buffer = .ok freed
    unfold Heap.free
    rw [block]
    exact ⟨_, rfl⟩
  · intro request member
    rcases List.mem_append.mp member with earlier | last
    · exact filled.requests request earlier
    · rw [List.mem_singleton.mp last]
      refine ⟨larger.length, congrArg (Option.map List.length) block, ?_⟩
      show s.size + (s.capacity - s.size) ≤ larger.length
      rw [List.length_append, long, full, filled.capacity]
      omega

/-- Where a full buffer is moved, the loop ends with a pointer to where it was. -/
theorem readLoop_moves (delivers : Delivers answers) (filled : Filled content s rest)
    (full : s.size = 1 <<< 10) (moves : answers.realloc = .moves) :
    ∃ s', readLoop answers count s rest = .ok (s', false) ∧ s'.heap.blocks s'.buffer = none := by
  obtain ⟨cells, held, long, same⟩ := filled.cells
  have size : s.size = s.capacity := full.trans filled.capacity.symm
  let larger := cells ++ List.replicate (2 * s.capacity - cells.length) none
  let heap : Heap := ⟨Function.update (Function.update s.heap.blocks s.buffer none) s.heap.next
    (some larger), s.heap.next + 1⟩
  have grown : grow answers s = .ok ({ s with heap }, true) := by
    unfold grow Heap.realloc
    rw [if_pos size, held, moves]
    rfl
  refine ⟨_, readLoop_ends delivers grown size, ?_⟩
  show heap.blocks s.buffer = none
  exact (Function.update_of_ne filled.fresh ..).trans (Function.update_self ..)

end Loop

section Render

variable {answers : Answers} {heap : Heap} {content : List UInt8}

/-- What the loop starts with. -/
theorem filled_first (heap : Heap) (content : List UInt8) :
    Filled content ⟨(heap.malloc (1 <<< 10)).1, (heap.malloc (1 <<< 10)).2, 0, 1 <<< 10, []⟩ content where
  capacity := rfl
  split := rfl
  size := Nat.zero_le _
  room := Nat.zero_le _
  fresh := (Nat.lt_succ_self heap.next).ne
  cells := ⟨_, Function.update_self .., List.length_replicate, rfl⟩
  requests := List.forall_mem_nil _

/-- How `send_file_md` ends once the loop has ended without a failure. -/
theorem sendFileMd_loaded {s : Loading} (delivers : Delivers answers)
    (loaded : readLoop answers 0 ⟨(heap.malloc (1 <<< 10)).1, (heap.malloc (1 <<< 10)).2, 0, 1 <<< 10,
      []⟩ content = .ok (s, false)) :
    sendFileMd answers heap (.regular content) =
      match s.heap.text s.buffer s.size with
      | .error fault => .error fault
      | .ok str =>
        match s.heap.free s.buffer with
        | .error fault => .error fault
        | .ok _ => .ok ⟨true, [.setStatus 200, .appendHeader (ascii "Content-Type: text/html"),
          .appendMarkupAsHtml str false, .sendResponse], s.requests⟩ := by
  simp only [Heap.malloc] at loaded
  simp only [sendFileMd, Heap.malloc, delivers.malloc, if_true, loaded, bind, Except.bind, respond,
    Bool.false_eq_true, if_false]
  cases s.heap.text s.buffer s.size with
  | error fault => rfl
  | ok str =>
    cases s.heap.free s.buffer with
    | error fault => rfl
    | ok heap => rfl

/-- What is rendered if the loop leaves a pointer to the text. -/
theorem rendersWhole_iff {s : Loading} {str : List (Option UInt8)} (delivers : Delivers answers)
    (loaded : readLoop answers 0 ⟨(heap.malloc (1 <<< 10)).1, (heap.malloc (1 <<< 10)).2, 0, 1 <<< 10,
      []⟩ content = .ok (s, false))
    (text : s.heap.text s.buffer s.size = .ok str) (freed : ∃ heap, s.heap.free s.buffer = .ok heap)
    (inside : ∀ request ∈ s.requests, request.Inside) :
    RendersWhole answers heap content ↔ str = content.map some := by
  obtain ⟨freed, done⟩ := freed
  unfold RendersWhole
  rw [sendFileMd_loaded delivers loaded, text]
  simp only [done, Except.ok.injEq, exists_eq_left']
  refine ⟨fun rendered => ?_, fun same => ⟨?_, inside⟩⟩
  · simpa [eq_comm] using rendered.1
  · simp [same]

/-- A file that does not fill the buffer is rendered. -/
theorem short_rendersWhole (delivers : Delivers answers) (short : content.length < 1024) :
    RendersWhole answers heap content := by
  rcases @readLoop_fills answers content content _ 0 delivers (filled_first heap content) with
    ⟨s, loaded, filled, -⟩ | ⟨count, s, rest, -, filled, full⟩
  · obtain ⟨cells, held, long, taken⟩ := filled.cells
    have size : s.size = content.length := by
      have behind := congrArg List.length filled.rest_eq
      have le := filled.size
      rw [List.length_nil, List.length_drop] at behind
      omega
    have text : s.heap.text s.buffer s.size = .ok (content.map some) := by
      have inside : 0 + s.size ≤ cells.length := by
        rw [long, Nat.zero_add]
        exact filled.room
      unfold Heap.text
      rw [held]
      simp only [load_eq inside, List.drop_zero]
      rw [taken, size, List.take_length]
    have freed : ∃ heap, s.heap.free s.buffer = .ok heap := by
      unfold Heap.free
      rw [held]
      exact ⟨_, rfl⟩
    exact (rendersWhole_iff delivers loaded text freed filled.requests).mpr rfl
  · have least := filled.size
    rw [full] at least
    exact absurd short (Nat.not_lt.mpr least)

/-- A file that fills the buffer. -/
theorem readLoop_full (delivers : Delivers answers) (least : 1024 ≤ content.length) :
    ∃ count s rest, readLoop answers 0 ⟨(heap.malloc (1 <<< 10)).1, (heap.malloc (1 <<< 10)).2, 0,
      1 <<< 10, []⟩ content = readLoop answers count s rest ∧ Filled content s rest ∧
      s.size = 1 <<< 10 := by
  rcases @readLoop_fills answers content content _ 0 delivers (filled_first heap content) with
    ⟨s, -, filled, small⟩ | full
  · have behind := congrArg List.length filled.rest_eq
    rw [List.length_nil, List.length_drop] at behind
    have room := filled.room
    exact absurd (by omega) small
  · exact full

/-- Of a file that fills the buffer, no more than that is rendered where the buffer stays. -/
theorem full_rendersWhole_iff (delivers : Delivers answers) (least : 1024 ≤ content.length)
    (stays : answers.realloc = .inPlace) :
    RendersWhole answers heap content ↔ content.length = 1024 := by
  obtain ⟨count, s, rest, same, filled, full⟩ := @readLoop_full answers heap content delivers least
  obtain ⟨s', loaded, size, text, freed, inside⟩ :=
    @readLoop_inPlace answers content rest s count delivers filled full stays
  rw [rendersWhole_iff delivers (same.trans loaded) text freed inside]
  constructor
  · intro all
    have lengths := congrArg List.length all
    simp only [List.length_map, List.length_take] at lengths
    omega
  · intro exactly
    have all : content.take (1 <<< 10) = content := List.take_of_length_le (Nat.le_of_eq exactly)
    rw [all]

/-- Where the buffer moves, what is rendered is not allocated any more. -/
theorem full_dangling (delivers : Delivers answers) (least : 1024 ≤ content.length)
    (moves : answers.realloc = .moves) :
    sendFileMd answers heap (.regular content) = .error .dangling := by
  obtain ⟨count, s, rest, same, filled, full⟩ := @readLoop_full answers heap content delivers least
  obtain ⟨s', loaded, lost⟩ :=
    @readLoop_moves answers content rest s count delivers filled full moves
  have dangling : s'.heap.text s'.buffer s'.size = .error .dangling := by
    unfold Heap.text
    rw [lost]
  rw [sendFileMd_loaded delivers (same.trans loaded), dangling]

end Render

/-- For all files and all that the system answers, the whole file is rendered if and only if it
is shorter than the first buffer, or just fills it and the buffer does not move. -/
theorem renders_whole_iff_buffer_suffices {answers : Answers} (delivers : Delivers answers)
    (heap : Heap) (content : List UInt8) :
    RendersWhole answers heap content ↔
      content.length < 1024 ∨ (content.length = 1024 ∧ answers.realloc = .inPlace) := by
  by_cases short : content.length < 1024
  · exact ⟨fun _ => .inl short, fun _ => short_rendersWhole delivers short⟩
  have least := Nat.not_lt.mp short
  cases how : answers.realloc with
  | fails => exact absurd how delivers.realloc
  | inPlace =>
    rw [full_rendersWhole_iff delivers least how]
    simp [short]
  | moves =>
    have not_sent : ¬ RendersWhole answers heap content := by
      rintro ⟨response, sent, -⟩
      rw [full_dangling delivers least how] at sent
      cases sent
    simp [not_sent, short]

/-- What the system answers where it gives seven bytes at a time. -/
def sevens (realloc : Realloc) : Answers := ⟨true, realloc, fun _ => some 7⟩

theorem sevens_deliver {realloc : Realloc} (succeeds : realloc ≠ .fails) : Delivers (sevens realloc) :=
  ⟨rfl, succeeds, fun _ => Option.some_ne_none 7⟩

/-- A file of a thousand bytes, and one that just fills the buffer. -/
theorem renders_whole_iff_buffer_suffices_applies :
    RendersWhole (sevens .moves) ⟨fun _ => none, 0⟩ (List.replicate 1000 'a'.toUInt8) ∧
    RendersWhole (sevens .inPlace) ⟨fun _ => none, 0⟩ (List.replicate 1024 'a'.toUInt8) :=
  ⟨(renders_whole_iff_buffer_suffices (sevens_deliver (by decide)) _ _).mpr
      (.inl (by rw [List.length_replicate]; decide)),
    (renders_whole_iff_buffer_suffices (sevens_deliver (by decide)) _ _).mpr
      (.inr ⟨List.length_replicate, rfl⟩)⟩

/-- The last byte of a file of 1025 bytes is not rendered, and a file of 1024 bytes is rendered
from freed memory where the buffer moves. -/
theorem files_beyond_the_buffer :
    ¬ RendersWhole (sevens .inPlace) ⟨fun _ => none, 0⟩ (List.replicate 1025 'a'.toUInt8) ∧
    sendFileMd (sevens .moves) ⟨fun _ => none, 0⟩ (.regular (List.replicate 1024 'a'.toUInt8)) =
      .error .dangling := by
  constructor
  · rw [full_rendersWhole_iff (sevens_deliver (by decide)) (by rw [List.length_replicate]; decide) rfl,
      List.length_replicate]
    decide
  · exact full_dangling (sevens_deliver (by decide)) (by rw [List.length_replicate]) rfl

end Mysnips.HttpMarkdown
