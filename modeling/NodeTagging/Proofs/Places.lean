import Mathlib.Data.List.TakeWhile
import NodeTagging.Installation

/-!
# Where a file and its siblings lie

A path and the path with something appended to it lie in the same directory, unless the path ends in
a step that is none of its own: nothing, `.` or `..`. Then the longer path lies below the shorter
one. So for a path that its siblings do not lie in, the directory of the path is the location of all
but its last step (`exists_location_eq`).

A path that was resolved takes only steps down, so its directory leads to it in any case
(`directory_prefix`).
-/

namespace NodeTagging.Path

/-! ### The last step -/

theorem exists_last_step (cs : List Char) :
    ∃ last, '/' ∉ last ∧ (cs = last ∨ ∃ front, cs = front ++ '/' :: last) := by
  induction cs with
  | nil => exact ⟨[], List.not_mem_nil, .inl rfl⟩
  | cons c cs ih =>
    obtain ⟨last, hlast, rfl | ⟨front, rfl⟩⟩ := ih
    · by_cases hc : c = '/'
      · exact ⟨cs, hlast, .inr ⟨[], by rw [hc]; rfl⟩⟩
      · exact ⟨c :: cs, by simp [hlast, Ne.symm hc], .inl rfl⟩
    · exact ⟨last, hlast, .inr ⟨c :: front, rfl⟩⟩

section Directory

variable {path : String} {front last : List Char}

theorem dropWhile_eq_nil_of_not_mem (h : '/' ∉ last) :
    (last.reverse.dropWhile (· = '/')).dropWhile (· ≠ '/') = [] := by
  refine List.dropWhile_eq_nil_iff.2 fun c hc => ?_
  have hmem : c ∈ last := List.mem_reverse.1 ((List.dropWhile_suffix _).subset hc)
  simpa using ne_of_mem_of_not_mem hmem h

/-- The directory of a path of one step is the one that the path is seen from. -/
theorem directory_of_step (hlast : '/' ∉ last) (h : path.toList = last) : directory path = "." := by
  rw [directory, h]
  cases last with
  | nil => rfl
  | cons c cs =>
    obtain ⟨hc, hcs⟩ := not_or.1 (List.mem_cons.not.1 hlast)
    simp only [dropWhile_eq_nil_of_not_mem hcs]
    exact if_neg (Ne.symm hc)

/-- The directory of a path is what stands before its last step, with the slash if that is all. -/
theorem directory_of_front (hlast : '/' ∉ last) (hne : last ≠ [])
    (h : path.toList = front ++ '/' :: last) :
    directory path =
      if front = [] then "/" else if front = ['/'] then "//" else String.ofList front := by
  rw [directory, h]
  cases front with
  | nil =>
    rw [List.nil_append]
    simp only [dropWhile_eq_nil_of_not_mem hlast]
    rfl
  | cons c front =>
    -- There is no slash to drop at the end, as the last step is not empty.
    have hslashes : (front ++ '/' :: last).reverse.dropWhile (· = '/') =
        last.reverse ++ '/' :: front.reverse := by
      rw [List.reverse_append, List.reverse_cons, List.append_assoc, List.singleton_append]
      cases hrev : last.reverse with
      | nil => exact absurd (List.reverse_eq_nil_iff.1 hrev) hne
      | cons d ds =>
        have hd : d ∈ last := List.mem_reverse.1 (hrev ▸ List.mem_cons_self)
        rw [List.cons_append, List.dropWhile_cons_of_neg]
        simpa using ne_of_mem_of_not_mem hd hlast
    have hstep : (last.reverse ++ '/' :: front.reverse).dropWhile (· ≠ '/') =
        '/' :: front.reverse := by
      rw [List.dropWhile_append_of_pos]
      · simp
      · intro d hd
        simpa using ne_of_mem_of_not_mem (List.mem_reverse.1 hd) hlast
    rw [List.cons_append]
    simp only [hslashes, hstep]
    simp

end Directory

/-! ### The way to a location -/

/-- Whether the way that a path takes begins at the top, and the steps that it begins with, last
    first. -/
def origin (workingDirectory : String) (absolute : Bool) : Bool × List String :=
  if absolute then (true, [])
  else (isAbsolute (workingDirectory ++ "/"),
    (rawSteps workingDirectory).foldl (advance (isAbsolute (workingDirectory ++ "/"))) [])

theorem rawSteps_append_slash (before after : String) :
    rawSteps (before ++ "/" ++ after) = rawSteps before ++ rawSteps after := by
  have hchars : (before ++ "/" ++ after).toList = before.toList ++ '/' :: after.toList := by
    simp
  rw [rawSteps, hchars, List.splitOn_append_cons_self, List.map_append]
  rfl

theorem isAbsolute_append_slash (before after : String) :
    isAbsolute (before ++ "/" ++ after) = isAbsolute (before ++ "/") := by
  cases h : before.toList <;> simp [isAbsolute, h]

theorem location_eq_foldl (workingDirectory path : String) :
    location workingDirectory path =
      ((rawSteps path).foldl (advance (origin workingDirectory (isAbsolute path)).1)
        (origin workingDirectory (isAbsolute path)).2).reverse := by
  rw [location, under]
  split
  · next habsolute => rw [steps, habsolute, origin, if_pos rfl]
  · next hrelative =>
    rw [steps, isAbsolute_append_slash, rawSteps_append_slash, List.foldl_append, origin,
      if_neg hrelative]

theorem rawSteps_of_not_mem {path : String} (h : '/' ∉ path.toList) : rawSteps path = [path] := by
  rw [rawSteps, List.splitOn_eq_singleton h, List.map_singleton, String.ofList_toList]

theorem isAbsolute_of_not_mem {path : String} (h : '/' ∉ path.toList) :
    isAbsolute path = false := by
  refine Bool.eq_false_iff.2 fun habsolute => h ?_
  exact List.mem_of_head? (by simpa [isAbsolute] using habsolute)

theorem location_top (workingDirectory : String) : location workingDirectory "/" = [] := by
  have hsteps : rawSteps "/" = ["", ""] := rfl
  have habsolute : isAbsolute "/" = true := rfl
  rw [location_eq_foldl, hsteps, habsolute]
  rfl

theorem location_double_slash (workingDirectory : String) :
    location workingDirectory "//" = [] := by
  have hsteps : rawSteps "//" = ["", "", ""] := rfl
  have habsolute : isAbsolute "//" = true := rfl
  rw [location_eq_foldl, hsteps, habsolute]
  rfl

/-- Where the steps before the last one lead, last first. -/
def wayAlong (workingDirectory front : String) : List String :=
  (rawSteps front).foldl (advance (origin workingDirectory (isAbsolute (front ++ "/"))).1)
    (origin workingDirectory (isAbsolute (front ++ "/"))).2

theorem location_append_step (workingDirectory front : String) {step : String}
    (hstep : '/' ∉ step.toList) :
    location workingDirectory (front ++ "/" ++ step) =
      (advance (origin workingDirectory (isAbsolute (front ++ "/"))).1
        (wayAlong workingDirectory front) step).reverse := by
  rw [location_eq_foldl, rawSteps_append_slash, rawSteps_of_not_mem hstep,
    isAbsolute_append_slash, List.foldl_append]
  rfl

theorem location_directory_of_front {path : String} {front last : List Char} (hlast : '/' ∉ last)
    (hne : last ≠ []) (h : path.toList = front ++ '/' :: last) (workingDirectory : String) :
    location workingDirectory (directory path) =
      (wayAlong workingDirectory (String.ofList front)).reverse := by
  rw [directory_of_front hlast hne h]
  split
  · next hfront =>
    subst hfront
    rw [location_top]
    rfl
  · split
    · next hfront =>
      subst hfront
      rw [location_double_slash]
      rfl
    · next hfront _ =>
      have habsolute :
          isAbsolute (String.ofList front ++ "/") = isAbsolute (String.ofList front) := by
        cases front with
        | nil => exact absurd rfl hfront
        | cons c front => simp [isAbsolute]
      rw [location_eq_foldl, wayAlong, habsolute]

/-- The last step of a path decides where it leads from its directory, and an appended text belongs
    to that step. -/
theorem exists_way (workingDirectory path : String) : ∃ absolute way last,
    location workingDirectory path = (advance absolute way last).reverse ∧
    (∀ suffix : String, '/' ∉ suffix.toList → location workingDirectory (path ++ suffix) =
      (advance absolute way (last ++ suffix)).reverse) ∧
    (last ≠ "" → location workingDirectory (directory path) = way.reverse) := by
  obtain ⟨last, hlast, h | ⟨front, h⟩⟩ := exists_last_step path.toList
  · -- A path of one step is seen from the working directory, as is its directory.
    subst h
    have hone {step : String} (hstep : '/' ∉ step.toList) :
        location workingDirectory step =
          (advance (origin workingDirectory false).1
            (origin workingDirectory false).2 step).reverse := by
      rw [location_eq_foldl, rawSteps_of_not_mem hstep, isAbsolute_of_not_mem hstep]
      rfl
    refine ⟨_, _, path, hone hlast, fun suffix hsuffix => hone (by simp [hlast, hsuffix]),
      fun _ => ?_⟩
    rw [directory_of_step hlast rfl, hone (by decide)]
    rfl
  · have hpath : path = String.ofList front ++ "/" ++ String.ofList last :=
      String.toList_injective (by simp [h])
    have hstep : '/' ∉ (String.ofList last).toList := by simpa using hlast
    refine ⟨(origin workingDirectory (isAbsolute (String.ofList front ++ "/"))).1,
      wayAlong workingDirectory (String.ofList front), String.ofList last, ?_,
      fun suffix hsuffix => ?_, fun hne => ?_⟩
    · rw [hpath, location_append_step _ _ hstep]
    · rw [hpath, String.append_assoc, location_append_step _ _ (by simp [hlast, hsuffix])]
    · refine location_directory_of_front hlast ?_ h workingDirectory
      rintro rfl
      exact hne rfl

section Advance

variable {absolute : Bool} {way : List String} {step : String}

theorem advance_stay (h : step = "" ∨ step = ".") : advance absolute way step = way := by
  simp [advance, h]

theorem advance_up (top : String) (above : List String) :
    advance absolute (top :: above) ".." = if top = ".." then ".." :: top :: above else above := by
  simp [advance]

theorem advance_down (h : step ∉ ["", ".", ".."]) : advance absolute way step = step :: way := by
  simp only [List.mem_cons, List.not_mem_nil, or_false, not_or] at h
  simp [advance, h]

end Advance

/-- A step that a long text is appended to is one down. -/
theorem append_not_mem {suffix : String} (hlong : 2 < suffix.length) (last : String) :
    last ++ suffix ∉ ["", ".", ".."] := by
  intro hmem
  have hlength : 2 < (last ++ suffix).length := by
    rw [String.length_append]
    omega
  simp only [List.mem_cons, List.not_mem_nil, or_false] at hmem
  rcases hmem with heq | heq | heq <;> rw [heq] at hlength <;> revert hlength <;> decide

/-- If a sibling of a path does not lie in it, then the path lies right in its directory. -/
theorem exists_location_eq {workingDirectory path suffix : String} (hslash : '/' ∉ suffix.toList)
    (hlong : 2 < suffix.length)
    (h : ¬ location workingDirectory path <+: location workingDirectory (path ++ suffix)) :
    ∃ step, location workingDirectory path =
      location workingDirectory (directory path) ++ [step] := by
  obtain ⟨absolute, way, last, hpath, hsiblings, hdirectory⟩ := exists_way workingDirectory path
  -- The suffix is too long for the last step of the sibling to be one of those that stay or go up.
  rw [hsiblings suffix hslash, advance_down (append_not_mem hlong last), List.reverse_cons, hpath]
    at h
  rw [hpath]
  -- Unless the last step is one down, the path leads to a place on the way to its sibling.
  by_cases hdown : last ∉ ["", ".", ".."]
  · rw [advance_down hdown, List.reverse_cons, hdirectory fun hempty => hdown (by simp [hempty])]
    exact ⟨last, rfl⟩
  · simp only [List.mem_cons, List.not_mem_nil, or_false, not_not] at hdown
    rcases hdown with rfl | rfl | rfl
    · rw [advance_stay (.inl rfl)] at h
      exact absurd (List.prefix_append _ _) h
    · rw [advance_stay (.inr rfl)] at h
      exact absurd (List.prefix_append _ _) h
    · rw [hdirectory (by decide)]
      cases way with
      | nil =>
        cases absolute with
        | true => exact absurd List.nil_prefix h
        | false => exact ⟨"..", rfl⟩
      | cons top above =>
        rw [advance_up] at h ⊢
        split at h
        · next htop => exact ⟨"..", by rw [if_pos htop, List.reverse_cons]⟩
        · rw [List.reverse_cons, List.append_assoc] at h
          exact absurd (List.prefix_append _ _) h

/-- If a sibling of a path does not lie in it, then the sibling lies right in the directory of the
    path. -/
theorem exists_location_append_eq {workingDirectory path suffix : String}
    (hslash : '/' ∉ suffix.toList) (hlong : 2 < suffix.length)
    (h : ¬ location workingDirectory path <+: location workingDirectory (path ++ suffix)) :
    ∃ step, location workingDirectory (path ++ suffix) =
      location workingDirectory (directory path) ++ [step] := by
  obtain ⟨absolute, way, last, hpath, hsiblings, hdirectory⟩ := exists_way workingDirectory path
  have hsibling := hsiblings suffix hslash
  rw [advance_down (append_not_mem hlong last), List.reverse_cons] at hsibling
  have hlast : last ≠ "" := by
    rintro rfl
    rw [hsibling, hpath, advance_stay (.inl rfl)] at h
    exact absurd (List.prefix_append _ _) h
  exact ⟨last ++ suffix, by rw [hsibling, hdirectory hlast]⟩

/-! ### Resolved paths -/

theorem not_mem_of_mem_splitOn {cs part : List Char} (h : part ∈ cs.splitOn '/') : '/' ∉ part := by
  induction cs generalizing part with
  | nil =>
    rw [List.splitOn_nil, List.mem_singleton] at h
    rw [h]
    exact List.not_mem_nil
  | cons c cs ih =>
    rw [List.splitOn_cons_eq_if_modifyHead] at h
    split at h
    · rcases List.mem_cons.1 h with rfl | h
      · exact List.not_mem_nil
      · exact ih h
    · next hc =>
      cases hparts : cs.splitOn '/' with
      | nil => exact absurd hparts (List.splitOn_ne_nil _ _)
      | cons first others =>
        rw [hparts, List.modifyHead_cons] at h
        rw [hparts] at ih
        rcases List.mem_cons.1 h with rfl | h
        · have hfirst := ih List.mem_cons_self
          simp only [List.mem_cons, not_or]
          exact ⟨fun heq => hc (by simp [← heq]), hfirst⟩
        · exact ih (List.mem_cons_of_mem first h)

/-- A step down: none that stays where it is or goes up. -/
def IsProper (step : String) : Prop :=
  step ∉ ["", ".", ".."] ∧ '/' ∉ step.toList

/-- Whatever is written, from the top every step is one down or takes one back. -/
theorem proper_of_mem_advance {step : String} {place : List String} (hslash : '/' ∉ step.toList)
    (hplace : ∀ s ∈ place, IsProper s) : ∀ s ∈ advance true place step, IsProper s := by
  by_cases hdown : step ∉ ["", ".", ".."]
  · rw [advance_down hdown]
    exact List.forall_mem_cons.2 ⟨⟨hdown, hslash⟩, hplace⟩
  · simp only [List.mem_cons, List.not_mem_nil, or_false, not_not] at hdown
    rcases hdown with rfl | rfl | rfl
    · rwa [advance_stay (.inl rfl)]
    · rwa [advance_stay (.inr rfl)]
    · cases place with
      | nil => exact fun s hs => absurd hs List.not_mem_nil
      | cons top above =>
        have htop : top ≠ ".." := fun heq => (hplace top List.mem_cons_self).1 (by simp [heq])
        rw [advance_up, if_neg htop]
        exact fun s hs => hplace s (List.mem_cons_of_mem top hs)

theorem proper_of_mem_foldl {written place : List String}
    (hwritten : ∀ step ∈ written, '/' ∉ step.toList) (hplace : ∀ step ∈ place, IsProper step) :
    ∀ step ∈ written.foldl (advance true) place, IsProper step := by
  induction written generalizing place with
  | nil => exact hplace
  | cons step written ih =>
    exact ih (fun s hs => hwritten s (List.mem_cons_of_mem step hs))
      (proper_of_mem_advance (hwritten step List.mem_cons_self) hplace)

/-- From the top, a path takes only steps down. -/
theorem proper_of_mem_steps {path : String} (h : isAbsolute path = true) :
    ∀ step ∈ steps path, IsProper step := by
  intro step hstep
  rw [steps, List.mem_reverse, h] at hstep
  refine proper_of_mem_foldl (fun s hs => ?_) (fun _ hs => absurd hs List.not_mem_nil) step hstep
  obtain ⟨part, hpart, rfl⟩ := List.mem_map.1 hs
  rw [String.toList_ofList]
  exact not_mem_of_mem_splitOn hpart

theorem exists_ofLocation_eq (above : List String) (last : String) :
    ∃ front, ofLocation (above ++ [last]) = front ++ "/" ++ last := by
  induction above with
  | nil => exact ⟨"", by simp [ofLocation, joinSteps]⟩
  | cons step above ih =>
    obtain ⟨front, hfront⟩ := ih
    refine ⟨"/" ++ step ++ front, ?_⟩
    rw [ofLocation, joinSteps] at hfront
    rw [ofLocation, joinSteps, List.cons_append, String.intercalate_cons_of_ne_nil (by simp)]
    simp only [String.append_assoc] at hfront ⊢
    rw [hfront]

/-- The directory of the path of a location leads to it. -/
theorem directory_ofLocation_prefix {place : List String} (h : ∀ step ∈ place, IsProper step)
    (workingDirectory : String) :
    location workingDirectory (directory (ofLocation place)) <+:
      location workingDirectory (ofLocation place) := by
  rcases List.eq_nil_or_concat place with rfl | ⟨above, last, rfl⟩
  · have htop : directory (ofLocation []) = ofLocation [] := rfl
    simp [htop]
  · rw [List.concat_eq_append] at h ⊢
    obtain ⟨hdown, hslash⟩ := h last (by simp)
    obtain ⟨front, hfront⟩ := exists_ofLocation_eq above last
    have hne : last.toList ≠ [] := by
      intro hnil
      rw [String.toList_eq_nil_iff] at hnil
      simp [hnil] at hdown
    have hchars : (front ++ "/" ++ last).toList = front.toList ++ '/' :: last.toList := by simp
    rw [hfront, location_append_step _ _ hslash, advance_down hdown, List.reverse_cons,
      location_directory_of_front hslash hne hchars, String.ofList_toList]
    exact List.prefix_append _ _

theorem isAbsolute_directory {path : String} (h : isAbsolute path = true) :
    isAbsolute (directory path) = true := by
  cases hchars : path.toList with
  | nil => simp [isAbsolute, hchars] at h
  | cons c cs =>
    obtain rfl : c = '/' := by simpa [isAbsolute, hchars] using h
    rw [directory, hchars]
    simp only
    split
    · decide
    · split
      · decide
      · simp [isAbsolute]

/-- The directory of a resolved path leads to it. -/
theorem directory_prefix {base : String} (h : isAbsolute base = true)
    (workingDirectory workingDirectory' path : String) :
    location workingDirectory (directory (resolve workingDirectory' base path)) <+:
      location workingDirectory (resolve workingDirectory' base path) := by
  refine directory_ofLocation_prefix (proper_of_mem_steps ?_) workingDirectory
  have hbase : isAbsolute (under workingDirectory' base) = true := by rwa [under, if_pos h]
  rw [under]
  split
  · assumption
  · cases hchars : (under workingDirectory' base).toList with
    | nil => simp [isAbsolute, hchars] at hbase
    | cons c cs => simpa [isAbsolute, hchars] using hbase

end NodeTagging.Path
