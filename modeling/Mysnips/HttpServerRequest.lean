import Mysnips.HttpServer

/-! What a round of `http_server_wait_request` does, and the bounds of the body it
hands out. The length of a request is the sum of its head and its declared body, and
the sum is a `size_t`: where it does not wrap around, the body lies in the input. -/
namespace Mysnips.HttpServer
open HttpParse Transition
open Memory (ascii)

/-- `find` finds the first place of a text that is not empty. -/
theorem find_eq_some_iff {hay needle : List UInt8} {i : Nat} : find hay needle = some i ↔
    needle ≠ [] ∧ needle <+: hay.drop i ∧ ∀ j < i, ¬ needle <+: hay.drop j := by
  induction hay generalizing i with
  | nil =>
    rw [find, List.drop_nil, List.prefix_nil]
    constructor
    · nofun
    · rintro ⟨nonempty, empty, -⟩
      exact absurd empty nonempty
  | cons c rest ih =>
    rw [find]
    split
    · next here =>
      have starts := List.isPrefixOf_iff_prefix.mp here.2
      constructor
      · rintro ⟨⟩
        exact ⟨here.1, starts, nofun⟩
      · rintro ⟨-, -, first⟩
        cases i with
        | zero => rfl
        | succ i => exact absurd starts (first 0 (Nat.succ_pos i))
    · next absent =>
      have later : needle ≠ [] → ¬ needle <+: c :: rest := fun nonempty starts =>
        absent ⟨nonempty, List.isPrefixOf_iff_prefix.mpr starts⟩
      rw [Option.map_eq_some_iff]
      constructor
      · rintro ⟨j, found, rfl⟩
        obtain ⟨nonempty, starts, first⟩ := ih.mp found
        refine ⟨nonempty, starts, fun k before => ?_⟩
        cases k with
        | zero => exact later nonempty
        | succ k => exact first k (Nat.lt_of_succ_lt_succ before)
      · rintro ⟨nonempty, starts, first⟩
        cases i with
        | zero => exact absurd starts (later nonempty)
        | succ i =>
          exact ⟨i, ih.mpr ⟨nonempty, starts, fun k before => first (k + 1) (Nat.succ_lt_succ before)⟩, rfl⟩

/-- What is found lies inside. -/
theorem find_inside {hay needle : List UInt8} {i : Nat} (found : find hay needle = some i) :
    i + needle.length ≤ hay.length := by
  obtain ⟨nonempty, starts, -⟩ := find_eq_some_iff.mp found
  have positive := List.length_pos_iff.mpr nonempty
  have within := starts.length_le
  rw [List.length_drop] at within
  omega

/-- More input does not move the first place of a text. -/
theorem find_append {hay needle : List UInt8} {i : Nat} (more : List UInt8)
    (found : find hay needle = some i) : find (hay ++ more) needle = some i := by
  have inside := find_inside found
  obtain ⟨nonempty, starts, first⟩ := find_eq_some_iff.mp found
  refine find_eq_some_iff.mpr ⟨nonempty, ?_, fun j before earlier => first j before ?_⟩
  · rw [List.drop_append_of_le_length (by omega)]
    exact starts.trans (List.prefix_append ..)
  · -- The text is found further on, so that it fits into what was there before.
    rw [List.drop_append_of_le_length (by omega)] at earlier
    apply List.prefix_of_prefix_length_le earlier (List.prefix_append ..)
    rw [List.length_drop]
    omega

/-- The input that makes a request complete. -/
theorem examine_complete {input : List UInt8} {r : Request} {headLen total : Nat}
    (examined : examine input = .ok (.complete r headLen total)) :
    ∃ i r₀ length, find input headEnd = some i ∧ headLen = i + 4 ∧
      parseRequestHead (input.take headLen) = some (.ok r₀) ∧
      contentLength (input.take headLen) r₀ = .ok (.inl length) ∧
      r = { r₀ with content := ⟨headLen, length⟩ } ∧ total = Machine.add64 headLen length ∧
      total ≤ input.length ∧ ¬ (r₀.major ≠ 1 ∨ (r₀.minor ≠ 0 ∧ r₀.minor ≠ 1)) := by
  unfold examine at examined
  cases found : find input headEnd with
  | none =>
    rw [found] at examined
    cases examined
  | some i =>
    rw [found] at examined
    simp only at examined
    cases parsed : parseRequestHead (input.take (i + 4)) with
    | none =>
      rw [parsed] at examined
      cases examined
    | some result =>
      rw [parsed] at examined
      cases result with
      | incomplete | badMethod | badVersion | badHeader => cases examined
      | ok r₀ =>
        simp only at examined
        split at examined
        · cases examined
        · rename_i version
          obtain ⟨length, known, rest⟩ := bind_ok examined
          cases length with
          | inr status => cases rest
          | inl length =>
            simp only at rest
            split at rest
            · cases rest
            · rename_i enough
              cases rest
              exact ⟨i, r₀, length, rfl, rfl, parsed, known, rfl, rfl, by omega, version⟩

/-- The server after a client was popped. -/
def popped (max : Nat) (s : Server) : Server :=
  let ci := s.qdata s.qhead
  let s := s.dequeue max
  (s.record (.popped ci (s.cs ci).state)).setClient ci { s.cs ci with state := .popped }

/-- The server after a request was handed out for a popped client. -/
def delivered (s : Server) (ci : Nat) (r : Request) (headLen total : Nat) : Server :=
  let c := s.cs ci
  (s.setClient ci { c with state := .status, minor := r.minor, connheader := .unspecified,
                           requestLength := total }).record
    (.delivered ci (c.gen ||| (ci <<< 16)) (c.input.bytes.take headLen)
      (r.content.bytes c.input.bytes))

/-- The outcomes of a round: a refusal, a wait for the rest of the body, or a request. -/
theorem waitRound_cases {max : Nat} {alloc : Nat → Bool} {s s' : Server}
    {result : Option (Nat × Request)} (ran : waitRound max alloc s = .ok (s', result)) :
    0 < s.qused ∧
      let ci := s.qdata s.qhead
      let input := (s.cs ci).input.bytes
      (∃ minor status, examine input = .ok (.refused minor status) ∧ result = none ∧
          sendBasicResponseAndClose max alloc (popped max s) ci minor status = .ok s') ∨
        (examine input = .ok .incomplete ∧ result = none ∧
          s' = (popped max s).record (.deferred ci)) ∨
        ∃ r headLen total, examine input = .ok (.complete r headLen total) ∧
          (s.cs ci).gen < 2 ^ 16 - 1 ∧ result = some ((s.cs ci).gen ||| (ci <<< 16), r) ∧
          s' = delivered (popped max s) ci r headLen total := by
  obtain ⟨⟨s₁, ci⟩, pop, rest⟩ := bind_ok ran
  unfold popClient at pop
  split at pop
  · rename_i nonempty
    cases pop
    refine ⟨nonempty, ?_⟩
    obtain ⟨verdict, examined, rest⟩ := bind_ok rest
    simp only at examined
    cases verdict with
    | refused minor status =>
      obtain ⟨s₂, sent, done⟩ := bind_ok rest
      cases done
      exact .inl ⟨minor, status, examined, rfl, sent⟩
    | incomplete =>
      cases rest
      exact .inr (.inl ⟨examined, rfl, rfl⟩)
    | complete r headLen total =>
      simp only at rest
      split at rest
      · cases rest
      · rename_i small
        cases rest
        refine .inr (.inr ⟨r, headLen, total, examined, not_not.mp small, rfl, ?_⟩)
        simp [delivered, popped, Server.setClient, Server.record]
  · cases pop

private theorem closeClient_error {max ci : Nat} {s : Server} {fault : Fault}
    (stopped : closeClient max s ci = .error fault) :
    fault = .nullPointer ∨ fault = .outOfBounds := by
  unfold closeClient at stopped
  split at stopped
  · cases stopped
    exact .inl rfl
  · split at stopped
    · cases stopped
      exact .inr rfl
    · cases stopped

private theorem appendOutputFormat_error {alloc : Nat → Bool} {s : Server} {ci : Nat}
    {text : List UInt8} {fault : Fault} (stopped : appendOutputFormat alloc s ci text = .error fault) :
    fault = .nullPointer ∨ fault = .overcounted := by
  unfold appendOutputFormat at stopped
  simp only at stopped
  split at stopped
  · cases stopped
  · split at stopped
    · cases stopped
    · rcases bind_error stopped with full | ⟨m, -, rest⟩
      · unfold Block.format at full
        split at full
        · cases full
        · cases full
          exact .inr rfl
      · split at rest
        · cases rest
          exact .inl rfl
        · cases rest

private theorem contentLength_error {head : List UInt8} {r : Request} {fault : Fault}
    (stopped : contentLength head r = .error fault) : fault = .unfinished := by
  unfold contentLength at stopped
  split at stopped
  · cases stopped
  · split at stopped
    · cases stopped
      rfl
    · split at stopped
      · cases stopped
      · split at stopped <;> cases stopped

private theorem examine_noHeadEnd {input : List UInt8} (stopped : examine input = .error .noHeadEnd) :
    find input headEnd = none := by
  unfold examine at stopped
  split at stopped
  · assumption
  · simp only at stopped
    split at stopped
    · cases stopped
    · split at stopped
      · cases stopped
      · rcases bind_error stopped with unknown | ⟨length, -, rest⟩
        · cases contentLength_error unknown
        · cases length with
          | inr status => cases rest
          | inl length =>
            simp only at rest
            split at rest <;> cases rest
    · cases stopped

private theorem sendBasicResponseAndClose_error {max ci minor : Nat} {alloc : Nat → Bool}
    {s : Server} {status : Int} {fault : Fault}
    (stopped : sendBasicResponseAndClose max alloc s ci minor status = .error fault) :
    fault = .badMinor ∨ fault = .nullPointer ∨ fault = .outOfBounds ∨ fault = .overcounted := by
  rcases bind_error stopped with bad | ⟨text, -, rest⟩
  · split at bad
    · cases bad
    · split at bad
      · cases bad
      · cases bad
        exact .inl rfl
  · rcases bind_error rest with full | ⟨⟨ok, s₁⟩, -, rest⟩
    · rcases appendOutputFormat_error full with null | cut
      · exact .inr (.inl null)
      · exact .inr (.inr (.inr cut))
    · simp only at rest
      split at rest
      · rcases closeClient_error rest with null | outside
        · exact .inr (.inl null)
        · exact .inr (.inr (.inl outside))
      · cases rest

/-- The assertion of a round fails only where the client popped has no request head. -/
theorem waitRound_noHeadEnd {max : Nat} {alloc : Nat → Bool} {s : Server}
    (stopped : waitRound max alloc s = .error .noHeadEnd) :
    0 < s.qused ∧ find (s.cs (s.qdata s.qhead)).input.bytes headEnd = none := by
  rcases bind_error stopped with empty | ⟨⟨s₁, ci⟩, pop, rest⟩
  · unfold popClient at empty
    split at empty <;> cases empty
  · unfold popClient at pop
    split at pop
    · rename_i nonempty
      cases pop
      rcases bind_error rest with unread | ⟨verdict, -, rest⟩
      · exact ⟨nonempty, examine_noHeadEnd unread⟩
      · cases verdict with
        | refused minor status =>
          rcases bind_error rest with refused | ⟨s₂, -, done⟩
          · rcases sendBasicResponseAndClose_error refused with bad | bad | bad | bad <;> cases bad
          · cases done
        | incomplete => cases rest
        | complete r headLen total =>
          simp only at rest
          split at rest <;> cases rest
    · cases pop

/-- A request is handed out with its body inside the input, and with its length
recorded, exactly when the sum of its head and its declared body does not wrap
around. -/
theorem body_inside_input_iff {max handle : Nat} {alloc : Nat → Bool} {s s' : Server} {r : Request}
    (returned : waitRound max alloc s = .ok (s', some (handle, r))) :
    ∃ ci i r₀ length, ci = s.qdata s.qhead ∧ find (s.cs ci).input.bytes headEnd = some i ∧
      parseRequestHead ((s.cs ci).input.bytes.take (i + 4)) = some (.ok r₀) ∧
      contentLength ((s.cs ci).input.bytes.take (i + 4)) r₀ = .ok (.inl length) ∧
      r.content = ⟨i + 4, length⟩ ∧
      ((i + 4 + r.content.size ≤ (s'.cs ci).input.used ∧
          (s'.cs ci).requestLength = i + 4 + r.content.size) ↔ i + 4 + length < 2 ^ 64) := by
  obtain ⟨-, ⟨_, _, _, none, _⟩ | ⟨_, none, _⟩ | ⟨r', headLen, total, examined, -, same, after⟩⟩ :=
    waitRound_cases returned
  · cases none
  · cases none
  · cases same
    obtain ⟨i, r₀, length, found, rfl, parsed, known, rfl, sum, enough, -⟩ := examine_complete examined
    refine ⟨_, i, r₀, length, rfl, found, parsed, known, rfl, ?_⟩
    have input : (s'.cs (s.qdata s.qhead)).input = (s.cs (s.qdata s.qhead)).input := by
      simp [after, delivered, popped]
    have recorded : (s'.cs (s.qdata s.qhead)).requestLength = total := by
      simp [after, delivered]
    rw [input, recorded, sum, IoBuf.used, Machine.add64]
    rw [sum, Machine.add64] at enough
    constructor
    · rintro ⟨-, same⟩
      have whole : (i + 4 + length) % 2 ^ 64 = i + 4 + length := same
      have below := Nat.mod_lt (i + 4 + length) (Nat.two_pow_pos 64)
      omega
    · intro fits
      rw [Nat.mod_eq_of_lt fits] at enough ⊢
      exact ⟨enough, rfl⟩

/-- A server with one client, waiting in the queue with the given input. -/
def oneQueued (input : String) : Server :=
  { ncs := 1
    cs := fun _ => { state := .queued, pitem := some 1, input := ⟨some ⟨512, ascii input⟩⟩ }
    qused := 1 }

/-- The content of the request that a round returns, with the used bytes of the input
and the recorded length of the request. -/
def bounds (result : Except Fault (Server × Option (Nat × Request))) :
    Option (Slice × Nat × Nat) := do
  let (s, request) ← result.toOption
  let (_, r) ← request
  return (r.content, (s.cs 0).input.used, (s.cs 0).requestLength)

private theorem bounds_some {result : Except Fault (Server × Option (Nat × Request))}
    {content : Slice} {used total : Nat} (known : bounds result = some (content, used, total)) :
    ∃ s handle r, result = .ok (s, some (handle, r)) ∧ r.content = content ∧
      (s.cs 0).input.used = used ∧ (s.cs 0).requestLength = total := by
  cases result with
  | error fault => cases known
  | ok result =>
    obtain ⟨s, request⟩ := result
    cases request with
    | none => cases known
    | some request =>
      cases known
      exact ⟨s, request.1, request.2, rfl, rfl, rfl, rfl⟩

/-- A request with a body of two bytes. -/
theorem body_inside_input_of_post :
    ∃ s' handle r, waitRound 1 (fun _ => true)
        (oneQueued "POST / HTTP/1.1\r\nContent-Length: 2\r\n\r\nok") =
        .ok (s', some (handle, r)) ∧
      38 + r.content.size ≤ (s'.cs 0).input.used ∧
      (s'.cs 0).requestLength = 38 + r.content.size := by
  have known : bounds (waitRound 1 (fun _ => true)
      (oneQueued "POST / HTTP/1.1\r\nContent-Length: 2\r\n\r\nok")) = some (⟨38, 2⟩, 40, 40) := by
    decide +kernel
  obtain ⟨s', handle, r, returned, content, -, -⟩ := bounds_some known
  obtain ⟨ci, i, r₀, length, rfl, -, -, -, content', bounded⟩ := body_inside_input_iff returned
  cases content.symm.trans content'
  exact ⟨s', handle, r, returned, bounded.mpr (by decide)⟩

/-- With a declared length of `2 ^ 64 - 2` the sum wraps around to less than the head: the
request is handed out with a body that no input holds. -/
theorem wrapped_length_passes :
    ∃ s' handle r, waitRound 1 (fun _ => true)
        (oneQueued "POST / HTTP/1.1\r\nContent-Length: 18446744073709551614\r\n\r\n") =
        .ok (s', some (handle, r)) ∧
      r.content = ⟨57, 2 ^ 64 - 2⟩ ∧ (s'.cs 0).input.used = 57 ∧
      (s'.cs 0).requestLength = 55 ∧ ¬ 57 + r.content.size ≤ (s'.cs 0).input.used := by
  have known : bounds (waitRound 1 (fun _ => true)
      (oneQueued "POST / HTTP/1.1\r\nContent-Length: 18446744073709551614\r\n\r\n")) =
      some (⟨57, 2 ^ 64 - 2⟩, 57, 55) := by decide +kernel
  obtain ⟨s', handle, r, returned, content, used, total⟩ := bounds_some known
  refine ⟨s', handle, r, returned, content, used, total, ?_⟩
  rw [content, used]
  decide

end Mysnips.HttpServer
