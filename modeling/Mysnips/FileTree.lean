import Mathlib.Data.List.TakeWhile
import Mathlib.Tactic.Abel
import Mysnips.FileList

/-! The tree of files in `misc/file.c`. `listSubtree` lists a directory and, down to a depth, the
directories in it; the nodes of the directories are in an array that `malloc` returns, so that a
field that `listSubtree` does not write is not there. The tree keeps the pool of each listing
through the path of its first file, and loses the array of its items. -/
namespace Mysnips.Files
open HeapBlocks
open Memory (ascii)

/-- `FileTree`, with the nodes and the files in its arrays and what its pool holds. The two counts
are the lengths of the arrays. -/
inductive FileTree where
  | node (info head : Option File) (dirs files : Option Nat) (subtrees : List FileTree)
      (entries : List File) (text : List UInt8) (loaded error : Bool)

/-- A node that has no files. -/
def FileTree.bare (info : Option File) (error : Bool) : FileTree :=
  .node info none none none [] [] [] false error

/-- `free`, of a pool. -/
def freePath (heap : Heap) (file : File) : Option Heap :=
  if file.path.offset = 0 then heap.free (some file.path.block) else none

/-- `freeFileList`. -/
def freeFileList (heap : Heap) (list : Listing) : Option Heap :=
  match list.items with
  | [] => heap.free list.array
  | file :: _ => do (← freePath heap file).free list.array

/-- The loop of `listSubtree` over the listed files, which are put into two arrays. -/
def scan (listSubtree : Option File → Path → Heap → Option (FileTree × Heap)) (text : List UInt8) :
    List File → Heap → Option (List FileTree × List File × Heap)
  | [], heap => some ([], [], heap)
  | file :: items, heap =>
    if file.stat.dir then do
      let (subtree, heap) ← listSubtree (some file) (← readString text file.path.offset) heap
      let (subtrees, entries, heap) ← scan listSubtree text items heap
      some (subtree :: subtrees, entries, heap)
    else do
      let (subtrees, entries, heap) ← scan listSubtree text items heap
      some (subtrees, file :: entries, heap)

/-- `listSubtree`, on a node in which `info` is there already or not. -/
def listSubtree (fs : FileSystem) (ok : Nat → Bool) : (depth : Nat) → Option File → Path → Heap →
    Option (FileTree × Heap)
  | 0, info, _, heap => some (.bare info false, heap)
  | depth + 1, info, dir, heap => do
    match ← listFiles fs ok heap dir with
    | .error _ => some (.bare info true, heap)
    | .ok list =>
      let (heap, dirs) := list.heap.malloc ok
      if dirs.isNone then some (.bare info true, ← freeFileList heap list)
      else
        let (heap, files) := heap.malloc ok
        if files.isNone then
          let heap ← heap.free dirs
          some (.bare info true, ← freeFileList heap list)
        else
          let (subtrees, entries, heap) ← scan (listSubtree fs ok depth) list.text list.items heap
          some (.node info list.items.head? dirs files subtrees entries list.text true false, heap)

mutual

/-- `freeFileTree`. A pointer that was never written is a fault. -/
def freeFileTree (heap : Heap) : FileTree → Option Heap
  | .node _ head dirs files subtrees _ _ _ _ => do
    let heap ← freeFileTrees heap subtrees
    let heap ← freePath heap (← head)
    (← heap.free dirs).free files

/-- The loop of `freeFileTree`. -/
def freeFileTrees (heap : Heap) : List FileTree → Option Heap
  | [] => some heap
  | subtree :: subtrees => do freeFileTrees (← freeFileTree heap subtree) subtrees

end

/-! ### What a tree shows -/

/-- The files below a directory, as far as they are known. -/
inductive Snapshot where
  | unlisted
  | failed
  | listed (dirs : List (Entry × Snapshot)) (files : List Entry)

def File.entry (text : List UInt8) (file : File) : Entry :=
  ⟨file.stat, readString text file.path.offset, readString text file.name.offset⟩

def FileTree.info : FileTree → Option File
  | .node info _ _ _ _ _ _ _ _ => info

mutual

/-- What is read from a tree. -/
def FileTree.view : FileTree → Snapshot
  | .node _ _ _ _ subtrees entries text loaded error =>
    if error then .failed
    else if loaded then .listed (viewAll text subtrees) (entries.map (File.entry text))
    else .unlisted

def FileTree.viewAll (text : List UInt8) : List FileTree → List (Entry × Snapshot)
  | [] => []
  | subtree :: subtrees =>
    match subtree.info with
    | some file => (file.entry text, subtree.view) :: viewAll text subtrees
    | none => viewAll text subtrees

end

/-- What the file system has below a directory, down to a depth. -/
def snapshot (fs : FileSystem) : (depth : Nat) → Path → Snapshot
  | 0, _ => .unlisted
  | depth + 1, path =>
    match openDirectory fs path with
    | .error _ => .failed
    | .ok dir =>
      let all := found fs dir.buffer dir.files
      .listed ((all.filter (·.stat.dir)).map fun entry =>
        (entry, snapshot fs depth (entry.path.getD []))) (all.filter fun entry => !entry.stat.dir)

/-- Above the depth, no directory is empty, and none lies at the depth. -/
def Filled (fs : FileSystem) : (depth : Nat) → Path → Prop
  | 0, _ => False
  | depth + 1, path => ∃ dir, openDirectory fs path = .ok dir ∧ found fs dir.buffer dir.files ≠ [] ∧
      ∀ entry ∈ found fs dir.buffer dir.files, entry.stat.dir = true →
        Filled fs depth (entry.path.getD [])

/-! ### The blocks of a tree -/

mutual

/-- The blocks that a tree leads to. -/
def FileTree.owned : FileTree → Multiset Nat
  | .node _ head dirs files subtrees _ _ _ _ =>
    ownedAll subtrees + (block (head.map (·.path.block)) + (block dirs + block files))

def FileTree.ownedAll : List FileTree → Multiset Nat
  | [] => 0
  | subtree :: subtrees => subtree.owned + ownedAll subtrees

end

mutual

/-- The directories of a tree in which there is a file. -/
def FileTree.listings : FileTree → Nat
  | .node _ head _ _ subtrees _ _ _ _ => head.toList.length + listingsAll subtrees

def FileTree.listingsAll : List FileTree → Nat
  | [] => 0
  | subtree :: subtrees => subtree.listings + listingsAll subtrees

end

mutual

/-- Each node has a first file. -/
def FileTree.complete : FileTree → Prop
  | .node _ head _ _ subtrees _ _ _ _ => head.isSome ∧ completeAll subtrees

def FileTree.completeAll : List FileTree → Prop
  | [] => True
  | subtree :: subtrees => subtree.complete ∧ completeAll subtrees

end

mutual

/-- The path of the first file of each node is at the start of its pool. -/
def FileTree.rooted : FileTree → Prop
  | .node _ head _ _ subtrees _ _ _ _ => (∀ file ∈ head, file.path.offset = 0) ∧ rootedAll subtrees

def FileTree.rootedAll : List FileTree → Prop
  | [] => True
  | subtree :: subtrees => subtree.rooted ∧ rootedAll subtrees

end

mutual

/-- `freeFileTree` gives back the blocks of a tree, each once, exactly where each node has a first
file. -/
theorem free_exact {heap : Heap} {rest : Multiset Nat} : (tree : FileTree) →
    (live : heap.live = tree.owned + rest) → (rooted : tree.rooted) →
    (tree.complete → ∃ heap', freeFileTree heap tree = some heap' ∧ heap'.live = rest) ∧
      (¬ tree.complete → freeFileTree heap tree = none)
  | .node info head dirs files subtrees entries text loaded error, live, rooted => by
    simp only [FileTree.owned, FileTree.rooted] at live rooted
    rw [add_assoc] at live
    obtain ⟨freed, stuck⟩ := freeAll_exact subtrees live rooted.2
    simp only [FileTree.complete, freeFileTree]
    constructor
    · rintro ⟨some, all⟩
      obtain ⟨file, rfl⟩ := Option.isSome_iff_exists.mp some
      obtain ⟨heap₁, done₁, live₁⟩ := freed all
      rw [Option.map_some, add_assoc] at live₁
      obtain ⟨heap₂, done₂, live₂, -⟩ := free_live live₁
      rw [add_assoc] at live₂
      obtain ⟨heap₃, done₃, live₃, -⟩ := free_live live₂
      obtain ⟨heap₄, done₄, live₄, -⟩ := free_live live₃
      refine ⟨heap₄, ?_, live₄⟩
      simp only [done₁, freePath, rooted.1 file rfl, if_true, done₂, done₃, done₄, Option.bind_eq_bind,
        Option.bind_some]
    · intro incomplete
      by_cases all : FileTree.completeAll subtrees
      · have none : head = none := by
          by_contra some
          exact incomplete ⟨Option.isSome_iff_ne_none.mpr some, all⟩
        obtain ⟨heap₁, done₁, -⟩ := freed all
        simp only [done₁, none, Option.bind_eq_bind, Option.bind_some, Option.bind_none]
      · simp only [stuck all, Option.bind_eq_bind, Option.bind_none]

theorem freeAll_exact {heap : Heap} {rest : Multiset Nat} : (trees : List FileTree) →
    (live : heap.live = FileTree.ownedAll trees + rest) → (rooted : FileTree.rootedAll trees) →
    (FileTree.completeAll trees → ∃ heap', freeFileTrees heap trees = some heap' ∧ heap'.live = rest) ∧
      (¬ FileTree.completeAll trees → freeFileTrees heap trees = none)
  | [], live, _ => by
    simp only [FileTree.ownedAll, zero_add] at live
    exact ⟨fun _ => ⟨heap, rfl, live⟩, fun incomplete => absurd trivial incomplete⟩
  | tree :: trees, live, rooted => by
    simp only [FileTree.ownedAll, FileTree.rootedAll] at live rooted
    rw [add_assoc] at live
    obtain ⟨freed, stuck⟩ := free_exact tree live rooted.1
    simp only [FileTree.completeAll, freeFileTrees]
    by_cases complete : tree.complete
    · obtain ⟨heap₁, done₁, live₁⟩ := freed complete
      obtain ⟨freedAll, stuckAll⟩ := freeAll_exact trees live₁ rooted.2
      simp only [done₁, Option.bind_eq_bind, Option.bind_some]
      exact ⟨fun all => freedAll all.2, fun incomplete => stuckAll fun all => incomplete ⟨complete, all⟩⟩
    · simp only [stuck complete, Option.bind_eq_bind, Option.bind_none]
      exact ⟨fun all => absurd all.1 complete, fun _ => trivial⟩

end

/-! ### The blocks and the view of a listed tree -/

theorem readString_plain {text path : List UInt8} {offset : Nat}
    (read : readString text offset = some path) : 0 ∉ path := by
  rw [readString] at read
  split at read
  · cases read
    intro member
    have other := List.mem_takeWhile_imp member
    simp at other
  · cases read

theorem freeFileList_freed {l : Listing} {heap : Heap} {base rest : Multiset Nat} {files : List Entry}
    (listed : Listed l base files) (live : heap.live = block l.array + (block l.pool + rest)) :
    ∃ heap', freeFileList heap l = some heap' ∧ heap'.live = rest := by
  rw [freeFileList]
  cases items : l.items with
  | nil =>
    obtain ⟨array, pool⟩ := listed.nothing items
    rw [array, pool] at live
    exact ⟨heap, by simp [array, Heap.free], by simpa using live⟩
  | cons file items' =>
    have start : file.path.offset = 0 := listed.first file (by rw [items]; rfl)
    obtain ⟨pool, -⟩ := listed.pointing file (by rw [items]; exact List.mem_cons_self)
    rw [add_left_comm, pool] at live
    obtain ⟨heap₁, done₁, live₁, -⟩ := free_live live
    obtain ⟨heap₂, done₂, live₂, -⟩ := free_live live₁
    refine ⟨heap₂, ?_, live₂⟩
    simp only [freePath, start, if_true, done₁, done₂, Option.bind_eq_bind, Option.bind_some]

/-- What is known of a tree that was listed: which blocks it holds besides those that were there
before and those that are lost, and what it shows where memory does not run out. -/
structure Grown (granted : Prop) (tree : FileTree) (before after : Heap) (shows : Snapshot)
    (filled : Prop) : Prop where
  rooted : tree.rooted
  blocks : ∃ lost : Multiset Nat, lost.card = tree.listings ∧
    after.live = tree.owned + (lost + before.live)
  view : granted → tree.view = shows
  complete : granted → (tree.complete ↔ filled)

section Listing

variable {fs : FileSystem} {ok : Nat → Bool}

theorem scan_grown {sub : Option File → Path → Heap → Option (FileTree × Heap)} {text : List UInt8}
    {shows : Path → Snapshot} {filled : Path → Prop} {granted : Prop}
    (items : List File) (heap : Heap)
    (each : items ≠ [] → ∀ info path heap, 0 ∉ path → ∃ tree heap',
      sub info path heap = some (tree, heap') ∧ tree.info = info ∧
        Grown granted tree heap heap' (shows path) (filled path))
    (strings : ∀ file ∈ items, (readString text file.path.offset).isSome) :
    ∃ subtrees heap', scan sub text items heap =
        some (subtrees, items.filter fun file => !file.stat.dir, heap') ∧
      FileTree.rootedAll subtrees ∧
      (∃ lost : Multiset Nat, lost.card = FileTree.listingsAll subtrees ∧
        heap'.live = FileTree.ownedAll subtrees + (lost + heap.live)) ∧
      (granted → FileTree.viewAll text subtrees = (items.filter (·.stat.dir)).map fun file =>
        (file.entry text, shows ((file.entry text).path.getD []))) ∧
      (granted → (FileTree.completeAll subtrees ↔ ∀ file ∈ items, file.stat.dir = true →
        filled ((file.entry text).path.getD []))) := by
  induction items generalizing heap with
  | nil =>
    exact ⟨[], heap, rfl, trivial, ⟨0, rfl, by simp [FileTree.ownedAll]⟩, fun _ => rfl,
      fun _ => by simp [FileTree.completeAll]⟩
  | cons file items ih =>
    have others : ∀ file ∈ items, (readString text file.path.offset).isSome :=
      fun other member => strings other (List.mem_cons_of_mem _ member)
    have each := each (List.cons_ne_nil file items)
    have ih := fun heap => ih heap (fun _ => each) others
    rw [scan]
    by_cases dir : file.stat.dir = true
    · obtain ⟨path, read⟩ := Option.isSome_iff_exists.mp (strings file List.mem_cons_self)
      have shown : (file.entry text).path.getD [] = path := by
        rw [File.entry, read]
        rfl
      obtain ⟨tree, heap₁, listed, info, rooted₁, ⟨lost₁, card₁, live₁⟩, view₁, complete₁⟩ :=
        each (some file) path heap (readString_plain read)
      obtain ⟨subtrees, heap', scanned, rooted, ⟨lost, card, live⟩, view, complete⟩ := ih heap₁
      refine ⟨tree :: subtrees, heap', ?_, ⟨rooted₁, rooted⟩, ⟨lost₁ + lost, ?_, ?_⟩, fun all => ?_,
        fun all => ?_⟩
      · simp only [dir, if_true, read, listed, scanned, Option.bind_eq_bind, Option.bind_some]
        rw [List.filter_cons_of_neg (by simp [dir])]
      · rw [Multiset.card_add, card₁, card, FileTree.listingsAll]
      · rw [live, live₁, FileTree.ownedAll]
        abel
      · rw [FileTree.viewAll, info, view all, view₁ all,
          List.filter_cons_of_pos (p := fun file : File => file.stat.dir) dir, List.map_cons, shown]
      · rw [FileTree.completeAll, complete₁ all, complete all, List.forall_mem_cons, shown]
        simp [dir]
    · obtain ⟨subtrees, heap', scanned, rooted, blocks, view, complete⟩ := ih heap
      refine ⟨subtrees, heap', ?_, rooted, blocks, fun all => ?_, fun all => ?_⟩
      · simp only [dir, scanned, Option.bind_eq_bind, Option.bind_some]
        rw [List.filter_cons_of_pos (by simp [dir])]
        rfl
      · rw [view all, List.filter_cons_of_neg (p := fun file : File => file.stat.dir) dir]
      · rw [complete all, List.forall_mem_cons]
        simp [dir]

/-- A tree without files. -/
theorem Grown.bare {granted : Prop} {info : Option File} {error : Bool} {before after : Heap}
    {shows : Snapshot} {filled : Prop} (live : after.live = before.live)
    (view : granted → (FileTree.bare info error).view = shows ∧ ¬ filled) :
    Grown granted (.bare info error) before after shows filled := by
  refine ⟨⟨by simp, trivial⟩, ⟨0, rfl, ?_⟩, fun all => (view all).1, fun all => ?_⟩
  · simp [FileTree.bare, FileTree.owned, FileTree.ownedAll, live]
  · simp [FileTree.bare, FileTree.complete, (view all).2]

/-- Filtering the files of a listing is filtering what they show. -/
theorem entries_filter (text : List UInt8) (items : List File) (p : Bool → Bool) :
    (items.filter fun file => p file.stat.dir).map (File.entry text) =
      (items.map (File.entry text)).filter fun entry => p entry.stat.dir := by
  rw [List.filter_map]
  rfl

theorem dirs_filter (text : List UInt8) (items : List File) (shows : Path → Snapshot) :
    ((items.filter (·.stat.dir)).map fun file =>
        (file.entry text, shows ((file.entry text).path.getD []))) =
      ((items.map (File.entry text)).filter (·.stat.dir)).map fun entry =>
        (entry, shows (entry.path.getD [])) := by
  have filtered := entries_filter text items fun d => d
  rw [← filtered, List.map_map]
  rfl

/-- The node of a directory that was listed. -/
theorem listed_grown {depth : Nat} {info : Option File} {dir : Path} {heap : Heap}
    {directory : Directory} {l : Listing} {files : List Entry}
    (opened : openDirectory fs dir = .ok directory) (listed : listFiles fs ok heap dir = some (.ok l))
    (holds : Listed l heap.live files)
    (all : (∀ i, ok i = true) → files = found fs directory.buffer directory.files)
    (each : l.items ≠ [] → ∀ info path heap, 0 ∉ path → ∃ tree heap',
      listSubtree fs ok depth info path heap = some (tree, heap') ∧ tree.info = info ∧
        Grown (∀ i, ok i = true) tree heap heap' (snapshot fs depth path) (Filled fs depth path)) :
    ∃ tree heap', listSubtree fs ok (depth + 1) info dir heap = some (tree, heap') ∧
      tree.info = info ∧ Grown (∀ i, ok i = true) tree heap heap' (snapshot fs (depth + 1) dir)
        (Filled fs (depth + 1) dir) := by
  rw [listSubtree, snapshot, Filled]
  simp only [opened, listed, Option.bind_eq_bind, Option.bind_some]
  have live₁ := malloc_live ok l.heap
  cases dirs : (l.heap.malloc ok).2 with
  | none =>
    rw [dirs, block_none, zero_add, holds.live] at live₁
    obtain ⟨heap', freed, live⟩ := freeFileList_freed holds live₁
    refine ⟨.bare info true, heap', ?_, rfl, .bare live fun granted => ?_⟩
    · simp only [Option.isNone_none, if_true, freed, Option.bind_some]
    · rw [malloc_granted (granted _)] at dirs
      cases dirs
  | some d =>
    have live₂ := malloc_live ok (l.heap.malloc ok).1
    rw [live₁, dirs] at live₂
    cases filesBlock : ((l.heap.malloc ok).1.malloc ok).2 with
    | none =>
      rw [filesBlock, block_none, zero_add, holds.live] at live₂
      obtain ⟨heap₁, freed₁, live₃, -⟩ := free_live live₂
      obtain ⟨heap', freed, live⟩ := freeFileList_freed holds live₃
      refine ⟨.bare info true, heap', ?_, rfl, .bare live fun granted => ?_⟩
      · simp only [Option.isNone_some, Bool.false_eq_true, if_false, Option.isNone_none, if_true,
          freed₁, freed, Option.bind_some]
      · rw [malloc_granted (granted _)] at filesBlock
        cases filesBlock
    | some f =>
      rw [filesBlock] at live₂
      have strings : ∀ file ∈ l.items, (readString l.text file.path.offset).isSome := by
        intro file member
        refine (holds.strings (file.entry l.text) ?_).1
        rw [← holds.reads]
        exact List.mem_map_of_mem member
      obtain ⟨subtrees, heap', scanned, rooted, ⟨lost, card, live⟩, view, complete⟩ :=
        scan_grown l.items ((l.heap.malloc ok).1.malloc ok).1 each strings
      refine ⟨.node info l.items.head? (some d) (some f) subtrees
        (l.items.filter fun file => !file.stat.dir) l.text true false, heap', ?_, rfl, ?_⟩
      · simp only [Option.isNone_some, Bool.false_eq_true, if_false, scanned, Option.bind_some]
      · refine ⟨⟨holds.first, rooted⟩, ⟨lost + block l.array, ?_, ?_⟩, fun granted => ?_,
          fun granted => ?_⟩
        · have array : (block l.array).card = l.items.head?.toList.length := by
            cases items : l.items with
            | nil => rw [(holds.nothing items).1]; rfl
            | cons file items' =>
              obtain ⟨b, some⟩ := Option.isSome_iff_exists.mp (holds.kept (by simp [items]))
              rw [some]
              rfl
          rw [Multiset.card_add, card, array, FileTree.listings, Nat.add_comm]
        · have pool : block (l.items.head?.map (·.path.block)) = block l.pool := by
            cases items : l.items with
            | nil => rw [(holds.nothing items).2]; rfl
            | cons file items' =>
              rw [(holds.pointing file (by rw [items]; exact List.mem_cons_self)).1]
              rfl
          rw [live, live₂, holds.live, FileTree.owned, pool]
          abel
        · rw [FileTree.view]
          simp only [Bool.false_eq_true, if_false, if_true]
          rw [view granted, ← all granted, ← holds.reads, entries_filter l.text l.items fun d => !d,
            dirs_filter]
          rfl
        · have same : l.items.map (File.entry l.text) = found fs directory.buffer directory.files :=
            holds.reads.trans (all granted)
          have first : l.items.head?.isSome ↔ found fs directory.buffer directory.files ≠ [] := by
            rw [← same]
            cases l.items <;> simp
          have inside : (∀ file ∈ l.items, file.stat.dir = true →
              Filled fs depth ((file.entry l.text).path.getD [])) ↔
              ∀ entry ∈ found fs directory.buffer directory.files, entry.stat.dir = true →
                Filled fs depth (entry.path.getD []) := by
            rw [← same, List.forall_mem_map]
            exact Iff.rfl
          rw [FileTree.complete, complete granted, first, inside]
          simp only [Except.ok.injEq, exists_eq_left']

/-- The directory is listed, or need not be. -/
def Lists (fs : FileSystem) (ok : Nat → Bool) (depth : Nat) (heap : Heap) (path : Path) : Prop :=
  fs.platform = .windows ∨ depth = 0 ∨ ∀ dir, openDirectory fs path = .ok dir → Starved fs ok heap dir

/-- Where the directory is listed, `listSubtree` does not fail, whatever memory it gets. -/
theorem listSubtree_grown (ok : Nat → Bool) (depth : Nat) (info : Option File) (dir : Path) (heap : Heap)
    (plain : 0 ∉ dir) (lists : Lists fs ok depth heap dir) : ∃ tree heap',
    listSubtree fs ok depth info dir heap = some (tree, heap') ∧ tree.info = info ∧
      Grown (∀ i, ok i = true) tree heap heap' (snapshot fs depth dir) (Filled fs depth dir) := by
  induction depth generalizing info dir heap with
  | zero => exact ⟨_, _, rfl, rfl, .bare rfl fun _ => ⟨rfl, id⟩⟩
  | succ depth ih =>
    cases opened : openDirectory fs dir with
    | error e =>
      rw [listSubtree, snapshot, Filled]
      simp only [listFiles, opened, Option.bind_eq_bind, Option.bind_some]
      exact ⟨_, _, rfl, rfl, .bare rfl fun _ => ⟨rfl, by simp⟩⟩
    | ok directory =>
      cases platform : fs.platform with
      | windows =>
        obtain ⟨l, files, listed, holds, -, all⟩ := listFiles_windows platform ok heap plain opened
        exact listed_grown opened listed holds all fun _ info path heap plain =>
          ih info path heap plain (.inl platform)
      | posix =>
        have starved : Starved fs ok heap directory := by
          rcases lists with windows | none | starved
          · cases platform.symm.trans windows
          · cases none
          · exact starved directory opened
        obtain ⟨heap', listed, live⟩ := (listFiles_posix platform ok heap opened).2 starved
        refine listed_grown opened listed (Listed.empty live) (fun granted => ?_) fun some =>
          absurd rfl some
        exact (starved.none granted).symm

/-- `listSubtree` fails where it looks at a path that is null. -/
theorem listSubtree_isSome_iff (ok : Nat → Bool) (depth : Nat) (info : Option File) (dir : Path) (heap : Heap)
    (plain : 0 ∉ dir) :
    (listSubtree fs ok depth info dir heap).isSome ↔ Lists fs ok depth heap dir := by
  refine ⟨fun some => ?_, fun lists => ?_⟩
  · by_contra fails
    simp only [Lists, not_or, not_forall] at fails
    obtain ⟨other, positive, directory, opened, fed⟩ := fails
    obtain ⟨depth, rfl⟩ := Nat.exists_eq_succ_of_ne_zero positive
    have posix : fs.platform = .posix := by
      cases platform : fs.platform with
      | windows => exact absurd platform other
      | posix => rfl
    simp [listSubtree, (listFiles_posix posix ok heap opened).1 fed] at some
  · obtain ⟨tree, heap', listed, -⟩ := listSubtree_grown ok depth info dir heap plain lists
    rw [listed]
    rfl

end Listing

end Mysnips.Files
