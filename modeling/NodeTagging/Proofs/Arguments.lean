import NodeTagging.CommandLine.Invocation

/-!
# How arguments are taken apart

A list of arguments is read from left to right in *groups*: a flag alone, or the word that announces
the place of the configuration together with the place. What an argument means depends on all those
before it, since a place may look like a flag. No group is the beginning of another one, so there is
at most one way to take a list apart, and one longest beginning that can be taken apart at all.

* `eq_of_prefix`: two groups that begin the same list are equal;
* `exists_spelling_append`, `prefix_of_spelling_prefix`: every list is groups and a rest that no
  group begins, and all groups that it can begin with are among them;
* `readFrom_spelling_append`: groups are read one by one, whatever follows;
* `arguments_are_read_iff_grouped`: arguments are accepted exactly if they are groups, and then each
  part of the invocation is told by the groups; otherwise the first argument of the rest is refused.
-/

namespace NodeTagging

/-! ### Groups -/

/-- The words that are read alone. -/
def flagWords : List String :=
  ["--dump", "-v", "--verbose", "-h", "--help"]

/-- The words that announce the place of the configuration. -/
def placeWords : List String :=
  ["-c", "--config"]

/-- Arguments that are read together. -/
inductive ArgumentGroup where
  /-- A flag. -/
  | flag (word : String) (hword : word ∈ flagWords)
  /-- The place of the configuration after the word that announces it. -/
  | place (word value : String) (hword : word ∈ placeWords) (hvalue : value ≠ "")

namespace ArgumentGroup

/-- The first argument of a group. -/
def word : ArgumentGroup → String
  | flag word _ => word
  | place word _ _ _ => word

/-- The place that a group gives. -/
def value? : ArgumentGroup → Option String
  | flag _ _ => none
  | place _ value _ _ => some value

/-- The arguments of a group. -/
def spelling (g : ArgumentGroup) : List String :=
  g.word :: g.value?.toList

theorem not_mem_placeWords_of_flag {word : String} (h : word ∈ flagWords) : word ∉ placeWords := by
  revert word
  decide

/-- Two groups that begin the same arguments are equal. -/
theorem eq_of_prefix {g g' : ArgumentGroup} {arguments : List String}
    (h : g.spelling <+: arguments) (h' : g'.spelling <+: arguments) : g = g' := by
  obtain ⟨rest, rfl⟩ := h
  obtain ⟨rest', hrest⟩ := h'
  cases g with
  | flag word hword =>
    cases g' with
    | flag word' hword' =>
      obtain rfl : word' = word := (List.cons.inj hrest).1
      rfl
    | place word' value' hword' _ =>
      obtain rfl : word' = word := (List.cons.inj hrest).1
      exact absurd hword' (not_mem_placeWords_of_flag hword)
  | place word value hword _ =>
    cases g' with
    | flag word' hword' =>
      obtain rfl : word' = word := (List.cons.inj hrest).1
      exact absurd hword (not_mem_placeWords_of_flag hword')
    | place word' value' _ _ =>
      obtain ⟨rfl, hvalues⟩ : word' = word ∧ _ := List.cons.inj hrest
      obtain rfl : value' = value := (List.cons.inj hvalues).1
      rfl

end ArgumentGroup

/-- The arguments of groups, one group after another. -/
def spelling (groups : List ArgumentGroup) : List String :=
  groups.flatMap ArgumentGroup.spelling

/-- The arguments do not begin with a group. -/
def Ungrouped (arguments : List String) : Prop :=
  ∀ g : ArgumentGroup, ¬ g.spelling <+: arguments

theorem ungrouped_nil : Ungrouped [] :=
  fun _ h => absurd (List.prefix_nil.1 h) (List.cons_ne_nil _ _)

theorem spelling_cons (g : ArgumentGroup) (groups : List ArgumentGroup) :
    spelling (g :: groups) = g.spelling ++ spelling groups :=
  List.flatMap_cons

/-- All arguments are groups and a rest. -/
theorem exists_spelling_append (arguments : List String) :
    ∃ groups rest, spelling groups ++ rest = arguments ∧ Ungrouped rest := by
  induction h : arguments.length using Nat.strongRecOn generalizing arguments with
  | ind n ih =>
    by_cases hgroup : Ungrouped arguments
    · exact ⟨[], arguments, rfl, hgroup⟩
    · obtain ⟨g, after, rfl⟩ : ∃ g : ArgumentGroup, g.spelling <+: arguments := by
        simpa [Ungrouped] using hgroup
      have hshorter : after.length < n := by
        rw [← h, List.length_append, ArgumentGroup.spelling, List.length_cons]
        omega
      obtain ⟨groups, rest, rfl, hrest⟩ := ih _ hshorter after rfl
      exact ⟨g :: groups, rest, by rw [spelling_cons, List.append_assoc], hrest⟩

/-- Groups that arguments begin with are the first of those before the rest. -/
theorem prefix_of_spelling_prefix {groups groups' : List ArgumentGroup} {rest : List String}
    (hrest : Ungrouped rest) (h : spelling groups' <+: spelling groups ++ rest) :
    groups' <+: groups := by
  induction groups' generalizing groups with
  | nil => exact List.nil_prefix
  | cons g' groups' ih =>
    rw [spelling_cons] at h
    have hfirst : g'.spelling <+: spelling groups ++ rest := (List.prefix_append _ _).trans h
    cases groups with
    | nil => exact absurd hfirst (hrest g')
    | cons g groups =>
      rw [spelling_cons, List.append_assoc] at h hfirst
      obtain rfl : g = g' := ArgumentGroup.eq_of_prefix (List.prefix_append _ _) hfirst
      exact (List.prefix_append_right_inj [g]).2 (ih ((List.prefix_append_right_inj _).1 h))

/-- There is at most one way to take arguments apart. -/
theorem spelling_injective {groups groups' : List ArgumentGroup}
    (h : spelling groups = spelling groups') : groups = groups' := by
  have hfront {gs gs' : List ArgumentGroup} (heq : spelling gs = spelling gs') : gs <+: gs' :=
    prefix_of_spelling_prefix ungrouped_nil ⟨[], congrArg (· ++ []) heq⟩
  have hlength := List.IsPrefix.length_le (hfront h.symm)
  exact List.IsPrefix.eq_of_length_le (hfront h) hlength

/-! ### Reading -/

/-- How an argument is refused that no group begins with. -/
def UsageError.ofWord (word : String) : UsageError :=
  if word ∈ placeWords then .missingConfig else .unknownOption word

namespace Invocation

variable (locate : String → String)

/-- The invocation after one group more. -/
def add (i : Invocation) (g : ArgumentGroup) : Invocation where
  config := (g.value?.map locate).getD i.config
  dump := i.dump || g.word ∈ ["--dump"]
  verbose := i.verbose || g.word ∈ ["-v", "--verbose"]
  help := i.help || g.word ∈ ["-h", "--help"]

theorem readFrom_cons (i : Invocation) (word : String) (rest : List String) :
    readFrom locate i (word :: rest) =
      match Switch.ofArgument? word with
      | none => .error (.unknownOption word)
      | some .dump => readFrom locate { i with dump := true } rest
      | some .verbose => readFrom locate { i with verbose := true } rest
      | some .help => readFrom locate { i with help := true } rest
      | some .config =>
        match rest with
        | [] => .error .missingConfig
        | value :: rest =>
          if value = "" then .error .missingConfig
          else readFrom locate { i with config := locate value } rest := by
  exact readFrom.eq_def locate i (word :: rest)

theorem readFrom_spelling_cons (i : Invocation) (g : ArgumentGroup) (rest : List String) :
    readFrom locate i (g.spelling ++ rest) = readFrom locate (i.add locate g) rest := by
  cases g with
  | flag word hword =>
    simp only [flagWords, List.mem_cons, List.not_mem_nil, or_false] at hword
    rcases hword with rfl | rfl | rfl | rfl | rfl <;>
      simp [ArgumentGroup.spelling, ArgumentGroup.word, ArgumentGroup.value?, readFrom_cons,
        Switch.ofArgument?, add]
  | place word value hword hvalue =>
    simp only [placeWords, List.mem_cons, List.not_mem_nil, or_false] at hword
    rcases hword with rfl | rfl <;>
      simp [ArgumentGroup.spelling, ArgumentGroup.word, ArgumentGroup.value?, readFrom_cons,
        Switch.ofArgument?, add, hvalue]

/-- Groups are read one by one, whatever follows. -/
theorem readFrom_spelling_append (i : Invocation) (groups : List ArgumentGroup)
    (rest : List String) :
    readFrom locate i (spelling groups ++ rest) =
      readFrom locate (groups.foldl (add locate) i) rest := by
  induction groups generalizing i with
  | nil => rfl
  | cons g groups ih =>
    rw [spelling_cons, List.append_assoc, readFrom_spelling_cons, ih, List.foldl_cons]

/-- Where no group begins, the first argument is refused. -/
theorem readFrom_of_ungrouped (i : Invocation) {word : String} {rest : List String}
    (h : Ungrouped (word :: rest)) :
    readFrom locate i (word :: rest) = .error (.ofWord word) := by
  have hflag : word ∉ flagWords := fun hword =>
    h (.flag word hword) (List.prefix_append [word] rest)
  by_cases hplace : word ∈ placeWords
  · have hswitch : Switch.ofArgument? word = some .config := by
      simp only [placeWords, List.mem_cons, List.not_mem_nil, or_false] at hplace
      rcases hplace with rfl | rfl <;> rfl
    rw [UsageError.ofWord, if_pos hplace, readFrom_cons, hswitch]
    cases rest with
    | nil => rfl
    | cons value rest =>
      by_cases hvalue : value = ""
      · exact if_pos hvalue
      · -- The word and the value make a group.
        exact absurd (List.prefix_append [word, value] rest) (h (.place word value hplace hvalue))
  · have hswitch : Switch.ofArgument? word = none := by
      simp only [flagWords, placeWords, List.mem_cons, List.not_mem_nil, or_false, not_or] at *
      simp [Switch.ofArgument?, hplace, hflag]
    rw [UsageError.ofWord, if_neg hplace, readFrom_cons, hswitch]

/-! ### What groups say -/

variable {locate} (groups : List ArgumentGroup) (i : Invocation)

/-- A part of the invocation that some words turn on is on if it was before, or if one of them is
    the first argument of a group. -/
theorem foldl_add_flag (part : Invocation → Bool) {words : List String}
    (hpart : ∀ i g, part (add locate i g) = (part i || g.word ∈ words)) :
    part (groups.foldl (add locate) i) ↔ part i ∨ ∃ w ∈ words, w ∈ groups.map (·.word) := by
  induction groups generalizing i with
  | nil => simp
  | cons g groups ih =>
    rw [List.foldl_cons, ih, hpart, Bool.or_eq_true, decide_eq_true_iff, or_assoc]
    refine or_congr_right ⟨?_, ?_⟩
    · rintro (hfirst | ⟨w, hw, hlater⟩)
      · exact ⟨g.word, hfirst, List.mem_cons_self⟩
      · exact ⟨w, hw, List.mem_cons_of_mem _ hlater⟩
    · rintro ⟨w, hw, hmem⟩
      rcases List.mem_cons.1 hmem with rfl | hlater
      · exact .inl hw
      · exact .inr ⟨w, hw, hlater⟩

/-- Of several places the last one counts. -/
theorem config_foldl_add :
    (groups.foldl (add locate) i).config =
      ((groups.filterMap (·.value?)).getLast?.map locate).getD i.config := by
  induction groups generalizing i with
  | nil => rfl
  | cons g groups ih =>
    rw [List.foldl_cons, ih, List.filterMap_cons]
    cases hvalue : g.value? with
    | none => simp [add, hvalue]
    | some value =>
      rw [List.getLast?_cons, Option.map_some, Option.getD_some]
      cases (groups.filterMap (·.value?)).getLast? with
      | none => simp [add, hvalue]
      | some last => rfl

/-! ### Whole lists -/

section Read

variable (workingDirectory base : String)

/-- The invocation of groups. -/
theorem read_spelling :
    read workingDirectory base (spelling groups) =
      .ok (groups.foldl (add (Path.resolve workingDirectory base))
        { config := Path.join base Config.defaultFile }) := by
  rw [read, ← List.append_nil (spelling groups), readFrom_spelling_append, readFrom]

theorem read_of_ungrouped {word : String} {rest : List String} (h : Ungrouped (word :: rest)) :
    read workingDirectory base (spelling groups ++ word :: rest) = .error (.ofWord word) := by
  rw [read, readFrom_spelling_append, readFrom_of_ungrouped _ _ h]

theorem exists_read_iff {arguments : List String} :
    (∃ i, read workingDirectory base arguments = .ok i) ↔
      ∃ groups, spelling groups = arguments := by
  constructor
  · rintro ⟨i, hread⟩
    obtain ⟨groups, rest, rfl, hrest⟩ := exists_spelling_append arguments
    cases rest with
    | nil => exact ⟨groups, (List.append_nil _).symm⟩
    | cons word rest =>
      rw [read_of_ungrouped groups workingDirectory base hrest] at hread
      cases hread
  · rintro ⟨groups, rfl⟩
    exact ⟨_, read_spelling groups workingDirectory base⟩

end Read

end Invocation

/-- Arguments are accepted exactly if they can be taken apart into flags and announced places, and
    there is only one way to do so. Then a flag counts if one of its words stands anywhere but as a
    place, and the place of the configuration is the last one that is given. Otherwise the argument
    is refused that stands after the longest beginning that can be taken apart. -/
theorem arguments_are_read_iff_grouped (workingDirectory base : String) (arguments : List String) :
    ((∃ i, Invocation.read workingDirectory base arguments = .ok i) ↔
      ∃ groups, spelling groups = arguments) ∧
    (∀ groups, spelling groups = arguments →
      (∀ groups', spelling groups' = arguments → groups' = groups) ∧
      ∃ i, Invocation.read workingDirectory base arguments = .ok i ∧
        (i.dump ↔ "--dump" ∈ groups.map (·.word)) ∧
        (i.verbose ↔ "-v" ∈ groups.map (·.word) ∨ "--verbose" ∈ groups.map (·.word)) ∧
        (i.help ↔ "-h" ∈ groups.map (·.word) ∨ "--help" ∈ groups.map (·.word)) ∧
        i.config = ((groups.filterMap (·.value?)).getLast?.map
          (Path.resolve workingDirectory base)).getD (Path.join base Config.defaultFile)) ∧
    ((¬ ∃ groups, spelling groups = arguments) →
      ∃ groups word rest, spelling groups ++ word :: rest = arguments ∧
        Ungrouped (word :: rest) ∧
        (∀ groups', spelling groups' <+: arguments → groups' <+: groups) ∧
        Invocation.read workingDirectory base arguments = .error (.ofWord word)) := by
  refine ⟨Invocation.exists_read_iff workingDirectory base, ?_, fun hnone => ?_⟩
  · rintro groups rfl
    refine ⟨fun _ => spelling_injective, _,
      Invocation.read_spelling groups workingDirectory base, ?_, ?_, ?_,
      Invocation.config_foldl_add groups _⟩
    · exact (Invocation.foldl_add_flag groups _ Invocation.dump fun _ _ => rfl).trans (by simp)
    · exact (Invocation.foldl_add_flag groups _ Invocation.verbose fun _ _ => rfl).trans (by simp)
    · exact (Invocation.foldl_add_flag groups _ Invocation.help fun _ _ => rfl).trans (by simp)
  · obtain ⟨groups, rest, rfl, hrest⟩ := exists_spelling_append arguments
    cases rest with
    | nil => exact absurd ⟨groups, (List.append_nil _).symm⟩ hnone
    | cons word rest =>
      exact ⟨groups, word, rest, rfl, hrest, fun _ => prefix_of_spelling_prefix hrest,
        Invocation.read_of_ungrouped groups workingDirectory base hrest⟩

/-- After the word that announces a place, even a flag is a place, and the flag after it counts. -/
example : Invocation.read "/" "/work" ["-c", "--help", "--dump", "--config", "-v"] =
    .ok { config := "/work/-v", dump := true } := by
  rfl

end NodeTagging
