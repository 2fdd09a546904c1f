import Mysnips.HeapBlocks
import Mysnips.Memory

/-! The listing of a directory in `misc/file.c`. `listFiles` keeps the paths of all files in one
pool, and each file points to its path and to the name inside it. When the pool grows, it may move,
and the pointers move with it. What the system says of files and directories is an input, and so is
which allocations succeed. A pointer that leaves its block is a fault (`none`), as is one that is
used or freed after its block, or that is null.

The code for POSIX asks `queryFile` for the file that it has found, and `queryFile` sets the two
pointers of the file to null. So `listFiles` works with the code for Windows only. -/
namespace Mysnips.Files
open HeapBlocks
open Memory (ascii)

abbrev Path : Type := List UInt8

/-- `'/'`. -/
def pathSep : UInt8 := '/'.toUInt8

/-- Which of the two branches of the code is compiled. -/
inductive Platform where
  | posix
  | windows
  deriving DecidableEq, Repr

/-- The fields of a `File` that `queryFile` fills in. -/
structure Stat where
  dir : Bool
  size : Nat
  timeCreate : Int
  timeModify : Int
  timeAccess : Int
  deriving DecidableEq, Repr

/-- A file in a directory. Its data comes with its name from `FindNextFile` only; `readdir` gives
the name. -/
structure Found where
  name : Path
  data : Stat
  deriving DecidableEq, Repr

/-- The system: what a directory holds, and what `stat` or `FindFirstFile` say of a file. Names are
strings. `PATH_MAX` is the size of the buffer of a directory. -/
structure FileSystem where
  platform : Platform
  pathMax : Nat
  readdir : Path → Option (List Found)
  stat : Path → Option Stat
  plain : ∀ path files, readdir path = some files → ∀ file ∈ files, 0 ∉ file.name

/-- A pointer into a pool. -/
structure Pointer where
  block : Nat
  offset : Nat
  deriving DecidableEq, Repr

/-- `File`. -/
structure File where
  stat : Stat
  path : Pointer
  name : Pointer
  deriving DecidableEq, Repr

/-- What is written to `errmsg`, which is cut off where it does not fit. An empty path writes
nothing. -/
abbrev Error : Type := Option (List UInt8)

/-- A `File` while its pointers lead into the buffer of a directory, or nowhere. -/
structure Query where
  stat : Stat
  path : Option Nat
  name : Option Nat
  deriving DecidableEq, Repr

/-- `queryFile`. -/
def queryFile (fs : FileSystem) (path : Path) : Except Error Query :=
  match fs.stat path with
  | some stat => .ok ⟨stat, none, none⟩
  | none => .error (some (ascii "Failed to query for additional file information"))

/-- `Directory`: the path in its buffer, with a separator at its end, and the files to come. -/
structure Directory where
  buffer : Path
  files : List Found
  deriving DecidableEq

/-- `openDirectory`. Windows gets the path with a separator and a `*`. -/
def openDirectory (fs : FileSystem) (path : Path) : Except Error Directory :=
  if path.length = 0 then .error none
  else if path.length ≥ fs.pathMax then .error (some (ascii "Path is too long"))
  else if path.getLast? ≠ some pathSep ∧ path.length + 1 ≥ fs.pathMax then
    .error (some (ascii "Path is too long"))
  else
    let buffer := if path.getLast? ≠ some pathSep then path ++ [pathSep] else path
    if fs.platform = .windows ∧ buffer.length + 1 ≥ fs.pathMax then
      .error (some (ascii "Internal buffer is too small"))
    else
      match fs.readdir path with
      | some files => .ok ⟨buffer, files⟩
      | none => .error (some (ascii "Couldn't open directory '" ++ path ++ ascii "'"))

/-- `nextFile`, for a name that does not start with a dot. It has the path and the name lead into the
buffer; on POSIX, what comes back is what `queryFile` makes of the same `File`. -/
def nextFile (fs : FileSystem) (buffer : Path) (next : Found) : Except Error Query :=
  if buffer.length + next.name.length ≥ fs.pathMax then
    .error (some (ascii "File path is too long"))
  else
    match fs.platform with
    | .windows => .ok ⟨next.data, some 0, some buffer.length⟩
    | .posix => queryFile fs (buffer ++ next.name)

/-- The variables of `listFiles`: `list`, the pool, of which the first bytes are in use, and the
heap. -/
structure Listing where
  heap : Heap
  array : Option Nat
  capacity : Nat
  items : List File
  pool : Option Nat
  text : List UInt8
  poolCapacity : Nat

/-- The variables before the loop. -/
def Listing.empty (heap : Heap) : Listing := ⟨heap, none, 0, [], none, [], 0⟩

/-- Room for one more item, if there is memory for it. -/
def reserveItem (ok : Nat → Bool) (l : Listing) : Option (Listing × Bool) :=
  if l.items.length = l.capacity then do
    let (heap, tmp) ← l.heap.realloc ok l.array
    match tmp with
    | none => some ({ l with heap }, false)
    | some array => some ({ l with heap, array, capacity := max 8 (2 * l.capacity) }, true)
  else some (l, true)

/-- `p - pool + tmp`. -/
def Pointer.relocate (pool : Option Nat) (tmp : Nat) (p : Pointer) : Option Pointer :=
  if pool = some p.block then some ⟨tmp, p.offset⟩ else none

def File.relocate (pool : Option Nat) (tmp : Nat) (file : File) : Option File := do
  some { file with path := ← file.path.relocate pool tmp, name := ← file.name.relocate pool tmp }

/-- Room in the pool for a path of `plen` bytes, if there is memory for it. -/
def reservePath (ok : Nat → Bool) (l : Listing) (plen : Nat) : Option (Listing × Bool) :=
  if l.text.length + plen + 1 > l.poolCapacity then do
    let poolCapacity := max (l.text.length + plen + 1) (2 * l.poolCapacity)
    let (heap, tmp) ← l.heap.realloc ok l.pool
    match tmp with
    | none => some ({ l with heap }, false)
    | some tmp =>
      let items ← l.items.mapM (File.relocate l.pool tmp)
      some ({ l with heap, items, pool := some tmp, poolCapacity }, true)
  else some (l, true)

/-- The path behind the other paths in the pool, and its item. -/
def storeFile (l : Listing) (stat : Stat) (path : Path) (nameAt : Nat) : Option Listing := do
  let block ← l.pool
  if l.text.length + path.length + 1 ≤ l.poolCapacity ∧ l.items.length < l.capacity then
    some { l with
      text := l.text ++ path ++ [0]
      items := l.items ++ [⟨stat, ⟨block, l.text.length⟩, ⟨block, l.text.length + nameAt⟩⟩] }
  else none

/-- The body of the loop of `listFiles`, with what the buffer of the directory holds. A file for
which there is no memory is left out. -/
def addFile (ok : Nat → Bool) (l : Listing) (buffer : Path) (file : Query) : Option Listing := do
  let (l, room) ← reserveItem ok l
  if room then
    let pathAt ← file.path
    let path := buffer.drop pathAt
    let (l, room) ← reservePath ok l path.length
    if room then storeFile l file.stat path ((← file.name) - pathAt) else some l
  else some l

/-- The loop of `listFiles`, with the one of `nextFile`, which passes over the names that start
with a dot. The error of a file ends the loop like the end of the directory. -/
def listLoop (fs : FileSystem) (ok : Nat → Bool) (buffer : Path) :
    List Found → Listing → Option Listing
  | [], l => some l
  | next :: files, l =>
    if next.name.head? = some '.'.toUInt8 then listLoop fs ok buffer files l
    else
      match nextFile fs buffer next with
      | .error _ => some l
      | .ok file => do listLoop fs ok buffer files (← addFile ok l (buffer ++ next.name) file)

/-- `listFiles`. -/
def listFiles (fs : FileSystem) (ok : Nat → Bool) (heap : Heap) (path : Path) :
    Option (Except Error Listing) :=
  match openDirectory fs path with
  | .error e => some (.error e)
  | .ok dir => do
    let l ← listLoop fs ok dir.buffer dir.files (.empty heap)
    if l.items.length = 0 then
      let heap ← l.heap.free l.array
      let heap ← heap.free l.pool
      some (.ok { l with heap, array := none, pool := none, text := [] })
    else some (.ok l)

/-- The string to which a pointer leads. -/
def readString (text : List UInt8) (offset : Nat) : Option Path :=
  if 0 ∈ text.drop offset then some ((text.drop offset).takeWhile (· ≠ 0)) else none

/-- A file with its path and its name as strings. -/
structure Entry where
  stat : Stat
  path : Option Path
  name : Option Path
  deriving DecidableEq, Repr

def Listing.entries (l : Listing) : List Entry :=
  l.items.map fun file =>
    ⟨file.stat, readString l.text file.path.offset, readString l.text file.name.offset⟩

/-- The files of a directory up to the first one of which the system says nothing, or whose path is
too long. -/
def found (fs : FileSystem) (buffer : Path) : List Found → List Entry
  | [] => []
  | next :: files =>
    if next.name.head? = some '.'.toUInt8 then found fs buffer files
    else
      match nextFile fs buffer next with
      | .error _ => []
      | .ok file => ⟨file.stat, some (buffer ++ next.name), some next.name⟩ :: found fs buffer files

/-! ### Strings in the pool -/

theorem readString_append {text s : List UInt8} {offset : Nat} (read : readString text offset = some s)
    (more : List UInt8) : readString (text ++ more) offset = some s := by
  rw [readString] at read ⊢
  split at read
  · rename_i terminated
    cases read
    have inside : offset ≤ text.length := by
      by_contra outside
      rw [List.drop_eq_nil_of_le (by omega)] at terminated
      cases terminated
    rw [List.drop_append_of_le_length inside, if_pos (List.mem_append_left _ terminated)]
    obtain ⟨before, after, split⟩ := List.append_of_mem terminated
    rw [split, List.append_assoc, List.cons_append]
    simp [List.takeWhile_append]
  · cases read

/-- A string that has just been stored. -/
theorem readString_stored (text front : List UInt8) {s : List UInt8} (plain : 0 ∉ s) :
    readString (text ++ (front ++ s) ++ [0]) (text.length + front.length) = some s := by
  have split : text ++ (front ++ s) ++ [0] = (text ++ front) ++ (s ++ [0]) := by simp
  rw [readString, split, ← List.length_append, List.drop_left, if_pos (by simp)]
  have all : ∀ c ∈ s, (decide (c ≠ 0)) = true := by
    intro c member
    have other : c ≠ 0 := fun zero => plain (zero ▸ member)
    simpa using other
  rw [List.takeWhile_append_of_pos all]
  simp

/-! ### The pool -/

/-- The file that a file becomes when the pool moves. -/
def File.moved (tmp : Nat) (file : File) : File :=
  ⟨file.stat, ⟨tmp, file.path.offset⟩, ⟨tmp, file.name.offset⟩⟩

theorem relocate_all {pool : Option Nat} (tmp : Nat) {items : List File}
    (pointing : ∀ file ∈ items, pool = some file.path.block ∧ pool = some file.name.block) :
    items.mapM (File.relocate pool tmp) = some (items.map (File.moved tmp)) := by
  induction items with
  | nil => rfl
  | cons file items ih =>
    obtain ⟨path, name⟩ := pointing file List.mem_cons_self
    have one : file.relocate pool tmp = some (file.moved tmp) := by
      rw [File.relocate, Pointer.relocate, Pointer.relocate, if_pos path, if_pos name]
      rfl
    rw [List.mapM_cons, one, ih fun other member => pointing other (List.mem_cons_of_mem _ member)]
    rfl

/-- The invariant of the loop: the blocks are live, all pointers lead into the pool, and the strings
to which they lead are those of the files. -/
structure Holds (l : Listing) (base : Multiset Nat) (files : List Entry) : Prop where
  live : l.heap.live = block l.array + (block l.pool + base)
  pointing : ∀ file ∈ l.items, l.pool = some file.path.block ∧ l.pool = some file.name.block
  first : ∀ file ∈ l.items.head?, file.path.offset = 0
  start : l.items = [] → l.text = []
  reads : l.entries = files
  strings : ∀ file ∈ files, file.path.isSome ∧ file.name.isSome
  fits : l.text.length ≤ l.poolCapacity
  unallocated : l.pool = none → l.poolCapacity = 0
  unreserved : l.array = none → l.capacity = 0
  room : l.items.length ≤ l.capacity

section Loop

variable {ok : Nat → Bool} {l : Listing} {base : Multiset Nat} {files : List Entry}

theorem reserveItem_holds (ok : Nat → Bool) (holds : Holds l base files) : ∃ l' room,
    reserveItem ok l = some (l', room) ∧ Holds l' base files ∧
      (room = true → l'.items.length < l'.capacity) ∧ ((∀ i, ok i = true) → room = true) := by
  have room := holds.room
  rw [reserveItem]
  by_cases full : l.items.length = l.capacity
  · obtain ⟨heap, tmp, given, live, granted⟩ := @realloc_live ok _ _ _ holds.live
    rw [if_pos full, given]
    cases tmp with
    | none =>
      refine ⟨_, _, rfl, { holds with live := live }, by simp, fun all => ?_⟩
      cases granted (all _)
    | some array =>
      refine ⟨_, _, rfl, { holds with live := live, unreserved := by simp, room := ?_ }, fun _ => ?_, fun _ => rfl⟩
      · simp only
        omega
      · simp only
        omega
  · rw [if_neg full]
    exact ⟨l, true, rfl, holds, fun _ => by omega, fun _ => rfl⟩

theorem entries_moved (l : Listing) (tmp : Nat) (heap : Heap) (pool : Option Nat) (poolCapacity : Nat) :
    Listing.entries { l with heap, items := l.items.map (File.moved tmp), pool, poolCapacity } =
      l.entries := by
  simp only [Listing.entries, List.map_map]
  exact List.map_congr_left fun file _ => rfl

theorem reservePath_holds (ok : Nat → Bool) (plen : Nat) (holds : Holds l base files)
    (inside : l.items.length < l.capacity) : ∃ l' room,
    reservePath ok l plen = some (l', room) ∧ Holds l' base files ∧
      l'.items.length < l'.capacity ∧
      (room = true → l'.text.length + plen + 1 ≤ l'.poolCapacity) ∧
      ((∀ i, ok i = true) → room = true) := by
  rw [reservePath]
  by_cases full : l.text.length + plen + 1 > l.poolCapacity
  · have pool : l.heap.live = block l.pool + (block l.array + base) := by
      rw [holds.live, add_left_comm]
    obtain ⟨heap, tmp, given, live, granted⟩ := @realloc_live ok _ _ _ pool
    rw [if_pos full, given]
    cases tmp with
    | none =>
      refine ⟨_, _, rfl, { holds with live := ?_ }, inside, by simp, fun all => ?_⟩
      · rw [live, add_left_comm]
        rfl
      · cases granted (all _)
    | some tmp =>
      simp only [Option.bind_eq_bind, Option.bind_some, relocate_all tmp holds.pointing]
      refine ⟨_, _, rfl, ?_, ?_, fun _ => ?_, fun _ => rfl⟩
      · refine { holds with live := ?_, pointing := ?_, first := ?_, start := ?_, reads := ?_, fits := ?_, unallocated := by simp, room := ?_ }
        · rw [live, add_left_comm]
          rfl
        · intro file member
          obtain ⟨before, -, rfl⟩ := List.mem_map.mp member
          exact ⟨rfl, rfl⟩
        · intro file head
          simp only [List.head?_map, Option.mem_def, Option.map_eq_some_iff] at head
          obtain ⟨before, head, rfl⟩ := head
          exact holds.first before head
        · intro none
          exact holds.start (List.map_eq_nil_iff.mp none)
        · rw [entries_moved]
          exact holds.reads
        · have fits := holds.fits
          simp only
          omega
        · rw [List.length_map]
          exact holds.room
      · rw [List.length_map]
        exact inside
      · simp only
        omega
  · rw [if_neg full]
    exact ⟨l, true, rfl, holds, inside, fun _ => by omega, fun _ => rfl⟩

/-- The new file behind the others. -/
theorem storeFile_holds (stat : Stat) {buffer name : Path} (holds : Holds l base files)
    (plain : 0 ∉ buffer ++ name) (inside : l.items.length < l.capacity)
    (room : l.text.length + (buffer ++ name).length + 1 ≤ l.poolCapacity) : ∃ l',
    storeFile l stat (buffer ++ name) buffer.length = some l' ∧
      Holds l' base (files ++ [⟨stat, some (buffer ++ name), some name⟩]) := by
  obtain ⟨block, pool⟩ : ∃ block, l.pool = some block := by
    cases pool : l.pool with
    | none =>
      have nothing := holds.unallocated pool
      omega
    | some block => exact ⟨block, rfl⟩
  rw [storeFile, pool, Option.bind_eq_bind, Option.bind_some, if_pos ⟨room, inside⟩]
  refine ⟨_, rfl, ?_⟩
  have plainName : 0 ∉ name := fun member => plain (List.mem_append_right _ member)
  refine { holds with live := ?_, pointing := ?_, first := ?_, start := by simp, reads := ?_, strings := ?_, fits := ?_, unallocated := by simp, room := ?_ }
  · rw [holds.live, pool]
  · intro file member
    rcases List.mem_append.mp member with before | new
    · rw [← pool]
      exact holds.pointing file before
    · cases List.mem_singleton.mp new
      exact ⟨rfl, rfl⟩
  · intro file head
    cases items : l.items with
    | nil =>
      simp only [items, List.nil_append, List.head?_cons, Option.mem_def, Option.some.injEq] at head
      subst head
      simp only [holds.start items, List.length_nil]
    | cons other items' =>
      simp only [items, List.cons_append, List.head?_cons, Option.mem_def, Option.some.injEq] at head
      subst head
      exact holds.first other (by rw [items]; rfl)
  · simp only [Listing.entries, List.map_append, List.map_cons, List.map_nil]
    congr 1
    · rw [← holds.reads, Listing.entries]
      apply List.map_congr_left
      intro file member
      have strings : (readString l.text file.path.offset).isSome ∧
          (readString l.text file.name.offset).isSome := by
        refine holds.strings ⟨file.stat, readString l.text file.path.offset,
          readString l.text file.name.offset⟩ ?_
        rw [← holds.reads]
        exact List.mem_map_of_mem member
      obtain ⟨path, path_eq⟩ := Option.isSome_iff_exists.mp strings.1
      obtain ⟨name', name_eq⟩ := Option.isSome_iff_exists.mp strings.2
      rw [List.append_assoc, readString_append path_eq, readString_append name_eq, path_eq, name_eq]
    · have path := readString_stored l.text [] plain
      have name := readString_stored l.text buffer plainName
      rw [List.nil_append, List.length_nil, Nat.add_zero] at path
      rw [path, name]
  · intro file member
    rcases List.mem_append.mp member with before | new
    · exact holds.strings file before
    · cases List.mem_singleton.mp new
      exact ⟨rfl, rfl⟩
  · simp only [List.length_append, List.length_singleton] at room ⊢
    omega
  · simp only [List.length_append, List.length_singleton]
    omega

theorem addFile_holds (ok : Nat → Bool) (stat : Stat) {buffer name : Path} (holds : Holds l base files)
    (plain : 0 ∉ buffer ++ name) : ∃ l' new,
    addFile ok l (buffer ++ name) ⟨stat, some 0, some buffer.length⟩ = some l' ∧
      Holds l' base (files ++ new) ∧ new.Sublist [⟨stat, some (buffer ++ name), some name⟩] ∧
      ((∀ i, ok i = true) → new = [⟨stat, some (buffer ++ name), some name⟩]) := by
  obtain ⟨l₁, room₁, reserved, holds₁, inside, granted₁⟩ := reserveItem_holds ok holds
  rw [addFile, reserved, Option.bind_eq_bind, Option.bind_some]
  cases room₁ with
  | false =>
    refine ⟨l₁, [], rfl, by rwa [List.append_nil], List.nil_sublist _, fun all => ?_⟩
    cases granted₁ all
  | true =>
    obtain ⟨l₂, room₂, reserved₂, holds₂, inside₂, room, granted₂⟩ :=
      reservePath_holds ok (buffer ++ name).length holds₁ (inside rfl)
    simp only [if_true, Option.bind_eq_bind, Option.bind_some, List.drop_zero, Nat.sub_zero, reserved₂]
    cases room₂ with
    | false =>
      refine ⟨l₂, [], rfl, by rwa [List.append_nil], List.nil_sublist _, fun all => ?_⟩
      cases granted₂ all
    | true =>
      obtain ⟨l', stored, holds'⟩ := storeFile_holds stat holds₂ plain inside₂ (room rfl)
      exact ⟨l', _, stored, holds', List.Sublist.refl _, fun _ => rfl⟩

/-- Windows says what it says of a file together with its name. -/
theorem nextFile_windows {fs : FileSystem} (windows : fs.platform = .windows) {buffer : Path}
    {next : Found} {file : Query} (named : nextFile fs buffer next = .ok file) :
    file = ⟨file.stat, some 0, some buffer.length⟩ := by
  rw [nextFile, windows] at named
  split at named <;> cases named
  rfl

/-- On POSIX, a file has lost its pointers. -/
theorem nextFile_posix {fs : FileSystem} (posix : fs.platform = .posix) {buffer : Path}
    {next : Found} {file : Query} (named : nextFile fs buffer next = .ok file) : file.path = none := by
  simp only [nextFile, posix, queryFile] at named
  split at named
  · cases named
  · split at named <;> cases named
    rfl

/-- What the loop adds is found in the directory, in its order, and is all of it unless memory runs
out. -/
theorem listLoop_holds {fs : FileSystem} (windows : fs.platform = .windows) (ok : Nat → Bool)
    {buffer : Path} {nexts : List Found} (holds : Holds l base files) (plain : 0 ∉ buffer)
    (plainNames : ∀ next ∈ nexts, 0 ∉ next.name) :
    ∃ l' new, listLoop fs ok buffer nexts l = some l' ∧ Holds l' base (files ++ new) ∧
      new.Sublist (found fs buffer nexts) ∧
      ((∀ i, ok i = true) → new = found fs buffer nexts) := by
  induction nexts generalizing l files with
  | nil =>
    exact ⟨l, [], rfl, by rwa [List.append_nil], List.nil_sublist _, fun _ => rfl⟩
  | cons next nexts ih =>
    have plainRest : ∀ next ∈ nexts, 0 ∉ next.name :=
      fun other member => plainNames other (List.mem_cons_of_mem _ member)
    rw [listLoop, found]
    by_cases hidden : next.name.head? = some '.'.toUInt8
    · rw [if_pos hidden, if_pos hidden]
      exact ih holds plainRest
    · rw [if_neg hidden, if_neg hidden]
      cases named : nextFile fs buffer next with
      | error e => exact ⟨l, [], rfl, by rwa [List.append_nil], List.nil_sublist _, fun _ => rfl⟩
      | ok file =>
        have plainPath : 0 ∉ buffer ++ next.name := by
          rw [List.mem_append]
          exact fun either => either.elim plain (plainNames next List.mem_cons_self)
        obtain ⟨l₁, new₁, added, holds₁, sub₁, all₁⟩ := addFile_holds ok file.stat holds plainPath
        rw [← nextFile_windows windows named] at added
        obtain ⟨l', new, looped, holds', sub, all⟩ := ih holds₁ plainRest
        refine ⟨l', new₁ ++ new, ?_, by rwa [← List.append_assoc], ?_, fun granted => ?_⟩
        · simp only [added, Option.bind_eq_bind, Option.bind_some]
          exact looped
        · exact sub₁.append sub
        · rw [all₁ granted, all granted]
          rfl

/-- On POSIX the loop comes to a null pointer at the first file for which there is memory. As long as
there is none, it adds nothing. -/
theorem listLoop_posix {fs : FileSystem} (posix : fs.platform = .posix) (ok : Nat → Bool)
    (buffer : Path) (nexts : List Found) (heap : Heap) :
    ((∃ i < (found fs buffer nexts).length, ok (heap.attempts + i) = true) →
      listLoop fs ok buffer nexts (.empty heap) = none) ∧
    ((∀ i < (found fs buffer nexts).length, ok (heap.attempts + i) = false) →
      ∃ heap', listLoop fs ok buffer nexts (.empty heap) = some (.empty heap') ∧
        heap'.live = heap.live) := by
  induction nexts generalizing heap with
  | nil => exact ⟨by simp [found], fun _ => ⟨heap, rfl, rfl⟩⟩
  | cons next nexts ih =>
    rw [listLoop, found]
    by_cases hidden : next.name.head? = some '.'.toUInt8
    · rw [if_pos hidden, if_pos hidden]
      exact ih heap
    · rw [if_neg hidden, if_neg hidden]
      cases named : nextFile fs buffer next with
      | error e => exact ⟨by simp, fun _ => ⟨heap, rfl, rfl⟩⟩
      | ok file =>
        have lost := nextFile_posix posix named
        by_cases granted : ok heap.attempts = true
        · have stops : addFile ok (.empty heap) (buffer ++ next.name) file = none := by
            simp [addFile, reserveItem, Listing.empty, Heap.realloc, Heap.free, Heap.malloc, granted, lost]
          refine ⟨fun _ => by simp only [stops, Option.bind_eq_bind, Option.bind_none], fun none => ?_⟩
          have refused := none 0 (Nat.zero_lt_succ _)
          rw [Nat.add_zero, granted] at refused
          cases refused
        · have skips : addFile ok (.empty heap) (buffer ++ next.name) file =
              some (.empty heap.refuse) := by
            simp [addFile, reserveItem, Listing.empty, Heap.realloc, Heap.free, granted]
          obtain ⟨stops, adds⟩ := ih heap.refuse
          have later : ∀ i, heap.attempts + (i + 1) = heap.refuse.attempts + i := by
            intro i
            show heap.attempts + (i + 1) = heap.attempts + 1 + i
            omega
          simp only [skips, Option.bind_eq_bind, Option.bind_some, List.length_cons]
          constructor
          · rintro ⟨i, inside, given⟩
            cases i with
            | zero => exact absurd given granted
            | succ i => exact stops ⟨i, by omega, later i ▸ given⟩
          · intro none
            exact adds fun i inside => later i ▸ none (i + 1) (by omega)

end Loop

/-! ### The listing -/

theorem openDirectory_plain {fs : FileSystem} {path : Path} {dir : Directory} (plain : 0 ∉ path)
    (opened : openDirectory fs path = .ok dir) : 0 ∉ dir.buffer ∧ ∀ file ∈ dir.files, 0 ∉ file.name := by
  have separator : (0 : UInt8) ≠ pathSep := by decide
  have plainBuffer : 0 ∉ if path.getLast? ≠ some pathSep then path ++ [pathSep] else path := by
    split
    · rw [List.mem_append, List.mem_singleton]
      exact fun either => either.elim plain separator
    · exact plain
  simp only [openDirectory] at opened
  generalize (if path.getLast? ≠ some pathSep then path ++ [pathSep] else path) = buffer
    at opened plainBuffer
  split at opened
  · cases opened
  split at opened
  · cases opened
  split at opened
  · cases opened
  split at opened
  · cases opened
  cases files : fs.readdir path with
  | none =>
    simp only [files] at opened
    cases opened
  | some files' =>
    simp only [files] at opened
    cases opened
    exact ⟨plainBuffer, fs.plain path files' files⟩

/-- A listing, with the blocks that it holds besides those that were there before, and the files
that it shows. -/
structure Listed (l : Listing) (base : Multiset Nat) (files : List Entry) : Prop where
  live : l.heap.live = block l.array + (block l.pool + base)
  pointing : ∀ file ∈ l.items, l.pool = some file.path.block ∧ l.pool = some file.name.block
  first : ∀ file ∈ l.items.head?, file.path.offset = 0
  reads : l.entries = files
  strings : ∀ file ∈ files, file.path.isSome ∧ file.name.isSome
  nothing : l.items = [] → l.array = none ∧ l.pool = none
  kept : l.items ≠ [] → l.array.isSome

/-- A listing without a file. -/
theorem Listed.empty {heap : Heap} {base : Multiset Nat} (live : heap.live = base) :
    Listed (.empty heap) base [] :=
  ⟨by simp [Listing.empty, live], by simp [Listing.empty], by simp [Listing.empty], rfl, by simp,
    fun _ => ⟨rfl, rfl⟩, fun some => absurd rfl some⟩

/-- What `listFiles` gives on Windows where the directory can be opened. -/
theorem listFiles_windows {fs : FileSystem} (windows : fs.platform = .windows) (ok : Nat → Bool)
    (heap : Heap) {path : Path} {dir : Directory} (plain : 0 ∉ path)
    (opened : openDirectory fs path = .ok dir) :
    ∃ l files, listFiles fs ok heap path = some (.ok l) ∧ Listed l heap.live files ∧
      files.Sublist (found fs dir.buffer dir.files) ∧
      ((∀ i, ok i = true) → files = found fs dir.buffer dir.files) := by
  obtain ⟨plainBuffer, plainNames⟩ := openDirectory_plain plain opened
  have begins : Holds (.empty heap) heap.live [] :=
    ⟨by simp [Listing.empty], by simp [Listing.empty], by simp [Listing.empty], fun _ => rfl, rfl,
      by simp, Nat.le_refl 0, fun _ => rfl, fun _ => rfl, Nat.le_refl 0⟩
  obtain ⟨l, new, looped, holds, sub, all⟩ := listLoop_holds windows ok begins plainBuffer plainNames
  rw [List.nil_append] at holds
  simp only [listFiles, opened, looped, Option.bind_eq_bind, Option.bind_some]
  by_cases none : l.items.length = 0
  · obtain ⟨heap₁, freed₁, live₁, -⟩ := free_live holds.live
    obtain ⟨heap₂, freed₂, live₂, -⟩ := free_live live₁
    have empty := List.eq_nil_of_length_eq_zero none
    have nothing : new = [] := by
      rw [← holds.reads, Listing.entries, empty]
      rfl
    rw [if_pos none, freed₁, Option.bind_some, freed₂]
    refine ⟨_, [], rfl, ?_, List.nil_sublist _, fun granted => ?_⟩
    · refine ⟨by simpa using live₂, ?_, ?_, ?_, by simp, fun _ => ⟨rfl, rfl⟩, ?_⟩
      · simp [empty]
      · simp [empty]
      · simp [Listing.entries, empty]
      · simp [empty]
    · rw [← all granted, nothing]
  · rw [if_neg none]
    refine ⟨l, new, rfl, ⟨holds.live, holds.pointing, holds.first, holds.reads, holds.strings, ?_, ?_⟩,
      sub, all⟩
    · intro empty
      rw [empty] at none
      exact absurd rfl none
    · intro some
      by_contra array
      have capacity := holds.unreserved (Option.not_isSome_iff_eq_none.mp array)
      have room := holds.room
      omega

/-- For no file of the directory does `listFiles` get the memory of an item. -/
def Starved (fs : FileSystem) (ok : Nat → Bool) (heap : Heap) (dir : Directory) : Prop :=
  ∀ i < (found fs dir.buffer dir.files).length, ok (heap.attempts + i) = false

theorem Starved.none {fs : FileSystem} {ok : Nat → Bool} {heap : Heap} {dir : Directory}
    (starved : Starved fs ok heap dir) (granted : ∀ i, ok i = true) :
    found fs dir.buffer dir.files = [] := by
  by_contra some
  have refused := starved 0 (List.length_pos_iff.mpr some)
  rw [granted] at refused
  cases refused

/-- What `listFiles` gives on POSIX where the directory can be opened. -/
theorem listFiles_posix {fs : FileSystem} (posix : fs.platform = .posix) (ok : Nat → Bool)
    (heap : Heap) {path : Path} {dir : Directory} (opened : openDirectory fs path = .ok dir) :
    (¬ Starved fs ok heap dir → listFiles fs ok heap path = none) ∧
    (Starved fs ok heap dir → ∃ heap', listFiles fs ok heap path = some (.ok (.empty heap')) ∧
      heap'.live = heap.live) := by
  obtain ⟨stops, adds⟩ := listLoop_posix posix ok dir.buffer dir.files heap
  constructor
  · intro fed
    simp only [Starved, not_forall, Bool.not_eq_false] at fed
    obtain ⟨i, inside, granted⟩ := fed
    simp only [listFiles, opened, stops ⟨i, inside, granted⟩, Option.bind_eq_bind, Option.bind_none]
  · intro starved
    obtain ⟨heap', looped, live⟩ := adds starved
    refine ⟨heap', ?_, live⟩
    simp only [listFiles, opened, looped, Option.bind_eq_bind, Option.bind_some]
    rfl

def sampleFound : List Found :=
  [⟨ascii ".", ⟨true, 0, 0, 0, 0⟩⟩, ⟨ascii "aa", ⟨false, 2, 0, 0, 0⟩⟩,
    ⟨ascii "b", ⟨false, 1, 0, 0, 0⟩⟩, ⟨ascii "sub", ⟨true, 0, 0, 0, 0⟩⟩]

/-- A directory with a hidden file, two other files and a directory. -/
def sampleFiles (platform : Platform) : FileSystem where
  platform
  pathMax := 4096
  readdir path :=
    if path = ascii "d" then some sampleFound
    else if path = ascii "d/sub" then
      some [⟨ascii "..", ⟨true, 0, 0, 0, 0⟩⟩, ⟨ascii "c", ⟨false, 3, 0, 0, 0⟩⟩]
    else none
  stat path :=
    if path = ascii "d" ∨ path = ascii "d/sub" then some ⟨true, 0, 0, 0, 0⟩
    else some ⟨false, path.length, 0, 0, 0⟩
  plain path files listed := by
    split at listed
    · cases listed
      decide +kernel
    · split at listed
      · cases listed
        decide +kernel
      · cases listed

/-- A heap without blocks. -/
def noBlocks : Heap := ⟨0, 0, Multiset.nodup_zero, by simp⟩

end Mysnips.Files
