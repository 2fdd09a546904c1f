import Mysnips.HttpPath

/-! The static file server of the HTTP module. A request path is sanitized, the mount
prefix is cut off its text, and what is left is appended to the served directory.
The cut keeps to the directory exactly when the prefix ends where a component of
the resolved path ends. -/
namespace Mysnips.HttpStatic
open HttpPath

/-- The size of the path buffers, `1<<10`. -/
def bufferSize : Nat := 1 <<< 10

/-- What `serve_static_dir` does for a request. -/
inductive Call where
  | setStatus (status : Nat)
  | sendResponse
  | sendFile (file : List UInt8)
  | sendFileMd (file : List UInt8)
  | sendDirListing (fullpath : List UInt8)
  deriving DecidableEq, Repr

/-- The name that a call opens. -/
def Call.opened : Call → Option (List UInt8)
  | sendFile file => some file
  | sendFileMd file => some file
  | sendDirListing fullpath => some fullpath
  | _ => none

/-- `send_dir_listing`: the calls it makes, and whether it replied. -/
def sendDirListing (replies : Call → Bool) (dir path : List UInt8) : Bool × List Call :=
  if dir.length + path.length ≥ bufferSize then (true, [.setStatus 500, .sendResponse])
  else (replies (.sendDirListing (dir ++ path)), [.sendDirListing (dir ++ path)])

/-- The name ends in `.md`. -/
def isMarkdown (tmp : List UInt8) : Bool :=
  tmp.length > 3 && tmp[tmp.length - 3]? == some '.'.toUInt8 &&
    tmp[tmp.length - 2]? == some 'm'.toUInt8 && tmp[tmp.length - 1]? == some 'd'.toUInt8

/-- The end of `serve_static_dir`: a file first, then a listing where one is allowed,
then 404. -/
def reply (replies : Call → Bool) (dir rest : List UInt8) (dirListing : Bool) (file : Call) :
    List Call :=
  let listed :=
    if !replies file && dirListing then sendDirListing replies dir rest else (replies file, [])
  file :: listed.2 ++ (if listed.1 then [] else [.setStatus 404, .sendResponse])

/-- `serve_static_dir`: its result and the calls it makes, where `replies` says which of
them find something to send. A failed assertion has no result. -/
def serveStaticDir (replies : Call → Bool) (dir : List UInt8) (pathPrefix : Option (List UInt8))
    (path : List UInt8) (dirListing convertMd : Bool) : Option (Bool × List Call) :=
  let cut := pathPrefix.getD []
  if ¬ cut.length < bufferSize then none
  else
    match sanitizePath path bufferSize with
    | none => some (false, [])
    | some clean =>
      -- `strncmp`: neither string has a terminator among the bytes compared
      if cut.length > 0 ∧ (clean.length < cut.length ∨ clean.take cut.length ≠ cut) then
        some (false, [])
      else
        let rest := clean.drop cut.length
        let tmp := dir ++ rest
        if tmp.length ≥ bufferSize then some (true, [.setStatus 500, .sendResponse])
        else
          let file := if convertMd && isMarkdown tmp then .sendFileMd tmp else .sendFile tmp
          some (true, reply replies dir rest dirListing file)

/-- The name is the directory or lies below it: what follows the directory is empty
or starts with `/`, and no component of it is `..`. -/
def Contained (dir name : List UInt8) : Prop :=
  ∃ rest, name = dir ++ rest ∧ (rest = [] ∨ rest.head? = some pathSep) ∧
    dotDot ∉ rest.splitOn pathSep

/-- The prefix ends where a component of the resolved path ends. -/
def EndsComponent (path cut : List UInt8) : Prop :=
  ∃ comps k, splitPathComponents path maxComps false = some comps ∧ cut = render (comps.take k)

/-- A listing opens the directory and the path together. -/
private theorem sendDirListing_opened {replies : Call → Bool} {dir path name : List UInt8}
    {call : Call} (made : call ∈ (sendDirListing replies dir path).2)
    (opens : call.opened = some name) : name = dir ++ path := by
  unfold sendDirListing at made
  split at made
  · simp only [List.mem_cons, List.not_mem_nil, or_false] at made
    rcases made with rfl | rfl <;> cases opens
  · cases List.mem_singleton.mp made
    cases opens
    rfl

private theorem reply_opened {replies : Call → Bool} {dir rest name : List UInt8}
    {dirListing : Bool} {file call : Call} (made : call ∈ reply replies dir rest dirListing file)
    (opens : call.opened = some name) : call = file ∨ name = dir ++ rest := by
  simp only [reply] at made
  rcases List.mem_append.mp made with early | late
  · rcases List.mem_cons.mp early with rfl | listed
    · exact .inl rfl
    · by_cases lists : (!replies file && dirListing) = true
      · rw [if_pos lists] at listed
        exact .inr (sendDirListing_opened listed opens)
      · rw [if_neg lists] at listed
        cases listed
  · have status : ∀ replied : Bool,
        call ∈ (if replied then [] else [Call.setStatus 404, .sendResponse]) →
          call = .setStatus 404 ∨ call = .sendResponse := by
      intro replied
      cases replied <;> simp
    rcases status _ late with rfl | rfl <;> cases opens

/-- Every name that is opened is the directory followed by the sanitized path without
the prefix. -/
private theorem opened_eq {replies : Call → Bool} {dir path : List UInt8}
    {pathPrefix : Option (List UInt8)} {dirListing convertMd returned : Bool} {calls : List Call}
    (served : serveStaticDir replies dir pathPrefix path dirListing convertMd =
      some (returned, calls)) {call : Call} (made : call ∈ calls) {name : List UInt8}
    (opens : call.opened = some name) :
    ∃ rest, sanitizePath path bufferSize = some (pathPrefix.getD [] ++ rest) ∧
      name = dir ++ rest := by
  simp only [serveStaticDir] at served
  split at served
  · cases served
  · cases sanitized : sanitizePath path bufferSize with
    | none =>
      rw [sanitized] at served
      cases served
      cases made
    | some clean =>
      rw [sanitized] at served
      simp only at served
      split at served
      · cases served
        cases made
      · rename_i short
        have whole : pathPrefix.getD [] ++ clean.drop (pathPrefix.getD []).length = clean := by
          by_cases empty : (pathPrefix.getD []).length > 0
          · have taken : clean.take (pathPrefix.getD []).length = pathPrefix.getD [] := by
              by_contra different
              exact short ⟨empty, .inr different⟩
            nth_rewrite 1 [← taken]
            exact List.take_append_drop _ _
          · rw [List.eq_nil_of_length_eq_zero (Nat.eq_zero_of_not_pos empty)]
            rfl
        refine ⟨clean.drop (pathPrefix.getD []).length, by rw [whole], ?_⟩
        split at served
        · cases served
          simp only [List.mem_cons, List.not_mem_nil, or_false] at made
          rcases made with rfl | rfl <;> cases opens
        · cases served
          rcases reply_opened made opens with rfl | named
          · split at opens <;> cases opens <;> rfl
          · exact named

/-- What a server that opens something opens is contained in its directory exactly
when the prefix ends where a component of the resolved path ends. -/
theorem static_names_contained_iff {replies : Call → Bool} {dir path : List UInt8}
    {pathPrefix : Option (List UInt8)} {dirListing convertMd returned : Bool} {calls : List Call}
    (served : serveStaticDir replies dir pathPrefix path dirListing convertMd =
      some (returned, calls)) (reaches : ∃ call ∈ calls, call.opened.isSome) :
    (∀ call ∈ calls, ∀ name, call.opened = some name → Contained dir name) ↔
      EndsComponent path (pathPrefix.getD []) := by
  constructor
  · intro contained
    obtain ⟨call, made, some⟩ := reaches
    obtain ⟨name, opens⟩ := Option.isSome_iff_exists.mp some
    obtain ⟨rest, sanitized, named⟩ := opened_eq served made opens
    obtain ⟨comps, split, clean, resolved⟩ := sanitizePath_eq sanitized
    obtain ⟨rest', named', boundary, -⟩ := contained call made name opens
    have same : rest = rest' := List.append_cancel_left (named.symm.trans named')
    obtain ⟨k, cut⟩ := cut_between_components resolved clean.symm (same ▸ boundary)
    exact ⟨comps, k, split, cut⟩
  · rintro ⟨comps, k, split, cut⟩ call made name opens
    obtain ⟨rest, sanitized, named⟩ := opened_eq served made opens
    obtain ⟨comps', split', clean, resolved⟩ := sanitizePath_eq sanitized
    cases split.symm.trans split'
    have remaining : rest = render (comps.drop k) := by
      have whole : render comps = render (comps.take k) ++ render (comps.drop k) := by
        rw [render, render, render, ← List.flatMap_append, List.take_append_drop]
      rw [whole, cut] at clean
      exact List.append_cancel_left clean
    have kept : ∀ c ∈ comps.drop k, Resolved c :=
      fun c member => resolved c (List.mem_of_mem_drop member)
    refine ⟨rest, named, ?_, ?_⟩
    · rw [remaining]
      cases comps.drop k with
      | nil => exact .inl rfl
      | cons c comps => exact .inr rfl
    · have components : rest.splitOn pathSep = [] :: comps.drop k := by
        rw [remaining]
        exact splitOn_render List.not_mem_nil kept
      rw [components]
      intro member
      rcases List.mem_cons.mp member with empty | component
      · exact absurd empty (by decide)
      · exact (kept _ component).notDotDot rfl

/-- A file below the mount point. -/
theorem static_names_contained_below_mount :
    serveStaticDir (fun _ => true) "/srv/www".toUTF8.toList (some "/static".toUTF8.toList)
        "/static/x/../a.txt".toUTF8.toList false false =
        some (true, [.sendFile "/srv/www/a.txt".toUTF8.toList]) ∧
      Contained "/srv/www".toUTF8.toList "/srv/www/a.txt".toUTF8.toList := by
  have served : serveStaticDir (fun _ => true) "/srv/www".toUTF8.toList
      (some "/static".toUTF8.toList) "/static/x/../a.txt".toUTF8.toList false false =
      some (true, [.sendFile "/srv/www/a.txt".toUTF8.toList]) := by decide +kernel
  refine ⟨served, ?_⟩
  have ends : EndsComponent "/static/x/../a.txt".toUTF8.toList
      ((some "/static".toUTF8.toList).getD []) :=
    ⟨["static".toUTF8.toList, "a.txt".toUTF8.toList], 1, by decide +kernel, by decide +kernel⟩
  exact (static_names_contained_iff served ⟨_, List.mem_singleton_self _, rfl⟩).mpr ends _
    (List.mem_singleton_self _) _ rfl

/-- The prefix `/static` is cut off the component `static..`, and the `..` that is left
leads out of the directory. -/
theorem cut_component_escapes :
    serveStaticDir (fun _ => true) "/srv/www/".toUTF8.toList (some "/static".toUTF8.toList)
        "/static../secret".toUTF8.toList false false =
        some (true, [.sendFile "/srv/www/../secret".toUTF8.toList]) ∧
      ¬ Contained "/srv/www/".toUTF8.toList "/srv/www/../secret".toUTF8.toList := by
  refine ⟨by decide +kernel, ?_⟩
  rintro ⟨rest, named, -, components⟩
  have cut : "/srv/www/../secret".toUTF8.toList =
      "/srv/www/".toUTF8.toList ++ "../secret".toUTF8.toList := by decide +kernel
  cases List.append_cancel_left (named.symm.trans cut)
  exact components (by decide +kernel)

end Mysnips.HttpStatic
