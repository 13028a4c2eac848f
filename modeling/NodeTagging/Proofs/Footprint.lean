import NodeTagging.Proofs.Atomicity

/-!
# The footprint of an installation

An installation makes directories on the ways to its files. Whatever else it changes lies at or
below the places and the paths beside them, so everywhere else a location holds what it held, or a
directory that was missing on the way to a file (`Framed`). Once all files are staged, the
directories on the way to each of them are there, and they stay.

* `node?_fill_eq`, `node?_storeDirectory`, `makeDirectories_eq_ok`: what making directories makes;
* `ends_install_framed`: the footprint.
-/

namespace NodeTagging

open FileTree

/-! ### Directories that are made -/

namespace FileTree

variable {t t' t'' : FileTree} {place q : Location} {workingDirectory path : String}

theorem mem_above_iff : q ∈ above place ↔ q <+: place ∧ q ≠ place := by
  rw [above, List.mem_map]
  constructor
  · rintro ⟨n, hn, rfl⟩
    refine ⟨List.take_prefix n place, fun heq => ?_⟩
    have hlength := congrArg List.length heq
    rw [List.length_take, min_eq_left (List.mem_range.1 hn).le] at hlength
    exact (List.mem_range.1 hn).ne hlength
  · rintro ⟨hleads, hne⟩
    refine ⟨q.length, List.mem_range.2 ?_, (List.prefix_iff_eq_take.1 hleads).symm⟩
    exact lt_of_le_of_ne hleads.length_le fun hlength => hne (hleads.eq_of_length hlength)

/-- What is above a place that lies right in a directory is that directory and what is above it. -/
theorem mem_above_append_singleton_iff {step : String} :
    q ∈ above (place ++ [step]) ↔ q <+: place := by
  rw [mem_above_iff]
  constructor
  · rintro ⟨hleads, hne⟩
    exact (List.prefix_concat_iff.1 hleads).resolve_left hne
  · intro hleads
    refine ⟨hleads.trans (List.prefix_append _ _), ?_⟩
    rintro rfl
    have hlength := hleads.length_le
    rw [List.length_append, List.length_singleton] at hlength
    omega

/-- Where nothing is, a directory is made. -/
theorem node?_fill_eq {places : List Location} :
    (t.fill places).node? q = if t.node? q = none ∧ q ∈ places then some .directory
      else t.node? q := by
  induction places generalizing t with
  | nil => simp [fill]
  | cons p places ih =>
    rw [fill, List.foldl_cons, ← fill, ih]
    by_cases hp : (t.node? p).isSome
    · rw [if_pos hp]
      by_cases hq : q = p
      · subst hq
        simp [Option.isSome_iff_ne_none.1 hp]
      · simp [hq]
    · have hne : p ≠ [] := by
        rintro rfl
        exact hp rfl
      rw [if_neg hp, node?_put hne]
      by_cases hq : q = p
      · subst hq
        simp [Option.not_isSome_iff_eq_none.1 hp]
      · simp [hq]

/-- A directory is stored with those that lead to it. -/
theorem node?_storeDirectory :
    (t.storeDirectory place).node? q = if t.node? q = none ∧ q <+: place then some .directory
      else t.node? q := by
  have hmem : q ∈ above place ++ [place] ↔ q <+: place := by
    rw [List.mem_append, List.mem_singleton, mem_above_iff]
    by_cases hq : q = place
    · simp [hq]
    · simp [hq]
  rw [storeDirectory, node?_fill_eq]
  simp only [hmem]

/-- Directories are made where there is no file on the way. -/
theorem makeDirectories_eq_ok (h : t.makeDirectories workingDirectory path = .ok t') :
    t' = t.storeDirectory (Path.location workingDirectory path) ∧
      ∀ q, q <+: Path.location workingDirectory path → t'.node? q = some .directory := by
  rw [makeDirectories] at h
  split at h
  · simp at h
  next hplace =>
  split at h
  · simp at h
  next hblocked =>
  obtain rfl := Except.ok.inj h
  refine ⟨rfl, fun q hq => ?_⟩
  -- Neither at the place nor above it is a file.
  have hfile : (t.text? q).isSome = false := by
    by_cases heq : q = Path.location workingDirectory path
    · rw [heq]
      simpa using hplace
    · rw [isBlocked, List.any_eq_true, not_exists] at hblocked
      simpa [mem_above_iff.2 ⟨hq, heq⟩] using hblocked q
  rw [node?_storeDirectory]
  cases hnode : t.node? q with
  | none => simp [hq]
  | some node =>
    cases node with
    | directory => simp
    | file text => simp [text?, hnode] at hfile

/-! ### What stays -/

/-- A location holds what it held, or a directory that was missing on a way. -/
def LeavesAt (ways : Location → Prop) (t t' : FileTree) (q : Location) : Prop :=
  t'.node? q = t.node? q ∨ ways q ∧ t.node? q = none ∧ t'.node? q = some .directory

variable {ways : Location → Prop}

theorem LeavesAt.trans (h : LeavesAt ways t t' q) (h' : LeavesAt ways t' t'' q) :
    LeavesAt ways t t'' q := by
  rcases h with hsame | ⟨hway, hnone, hmade⟩
  · rw [LeavesAt, hsame] at h'
    exact h'
  · rcases h' with hsame' | ⟨-, hnone', -⟩
    · exact .inr ⟨hway, hnone, hsame'.trans hmade⟩
    · simp [hmade] at hnone'

/-- What is there stays. -/
theorem LeavesAt.node?_eq_some (h : LeavesAt ways t t' q) {node : FileNode}
    (hnode : t.node? q = some node) : t'.node? q = some node := by
  rcases h with hsame | ⟨-, hnone, -⟩
  · rw [hsame, hnode]
  · simp [hnode] at hnone

theorem leavesAt_storeDirectory (h : ∀ q, q <+: place → ways q) :
    LeavesAt ways t (t.storeDirectory place) q := by
  rw [LeavesAt, node?_storeDirectory]
  split
  next hmade => exact .inr ⟨h q hmade.2, hmade.1, rfl⟩
  next => exact .inl rfl

end FileTree

namespace Installation

open Sandbox

variable {α : Type} {workingDirectory : String} {paths : List String} {p q : String}

/-! ### The frame -/

/-- The location is on the way to one of the paths. -/
def OnTheWay (workingDirectory : String) (paths : List String) (place : Location) : Prop :=
  ∃ p ∈ paths, place ∈ above (Path.location workingDirectory p)

instance (place : Location) : Decidable (OnTheWay workingDirectory paths place) :=
  inferInstanceAs (Decidable (∃ p ∈ paths, _))

/-- Neither the location nor one above it is a place or beside one. -/
def Outside (workingDirectory : String) (paths : List String) (place : Location) : Prop :=
  ∀ p ∈ touched paths, ¬ Path.location workingDirectory p <+: place

/-- Outside of the places, at most directories were made on the ways to them. -/
def Framed (workingDirectory : String) (paths : List String) (w w' : World) : Prop :=
  w.workingDirectory = workingDirectory → w'.workingDirectory = workingDirectory ∧
    ∀ place, Outside workingDirectory paths place →
      LeavesAt (OnTheWay workingDirectory paths) w.tree w'.tree place

instance : IsPreorder World (Framed workingDirectory paths) where
  refl w hw := ⟨hw, fun _ _ => .inl rfl⟩
  trans w w' w'' h h' hw := by
    obtain ⟨hw', hframe⟩ := h hw
    obtain ⟨hw'', hframe'⟩ := h' hw'
    exact ⟨hw'', fun place hplace => (hframe place hplace).trans (hframe' place hplace)⟩

theorem framed_of_tree_eq {w w' : World} (htree : w'.tree = w.tree)
    (hdirectory : w'.workingDirectory = w.workingDirectory) :
    Framed workingDirectory paths w w' :=
  fun hw => ⟨hdirectory.trans hw, fun _ _ => .inl (by rw [htree])⟩

/-- A call keeps the frame if its effect changes nothing outside. -/
theorem framed_update {call : Call} {change : World → Except FileError FileTree}
    (h : ∀ w t, w.workingDirectory = workingDirectory → change w = .ok t →
      ∀ place, Outside workingDirectory paths place →
        LeavesAt (OnTheWay workingDirectory paths) w.tree t place) :
    Keeps (Framed workingDirectory paths) (update call change) := by
  intro w
  refine ends_update (fun w' hchange hdirectory _ _ hw => ?_)
    fun _ w' _ htree hdirectory _ _ => framed_of_tree_eq htree hdirectory
  exact ⟨hdirectory.trans hw, h w w'.tree hw hchange⟩

theorem framed_isPresent (path : String) :
    Keeps (Framed workingDirectory paths) (Host.isPresent path : Sandbox Bool) :=
  fun _ => ends_query (fun _ _ _ htree hdirectory _ _ => framed_of_tree_eq htree hdirectory)
    fun _ _ _ htree hdirectory _ _ => framed_of_tree_eq htree hdirectory

theorem framed_remove (hq : q ∈ touched paths) :
    Keeps (Framed workingDirectory paths) (Host.remove q : Sandbox Unit) := by
  refine framed_update fun w t hw hchange place hplace => .inl ?_
  obtain ⟨hplain, rfl | ⟨rfl, -⟩⟩ := remove_eq_ok (hw ▸ hchange)
  · have hne : Path.location workingDirectory q ≠ [] := by
      intro hnil
      rw [hnil] at hplain
      exact hplain rfl
    rw [node?_prune hne, if_neg (hplace q hq)]
  · rfl

theorem framed_writeText (hq : q ∈ touched paths) (text : String) :
    Keeps (Framed workingDirectory paths) (Host.writeText q text : Sandbox Unit) := by
  refine framed_update fun w t hw hchange place hplace => .inl ?_
  rw [(node?_writeText (hw ▸ hchange) place).2, if_neg]
  rintro rfl
  exact hplace q hq List.prefix_rfl

section Separate

variable (hseparate : Separate workingDirectory (touched paths))

include hseparate

theorem framed_rename (hp : p ∈ touched paths) (hq : q ∈ touched paths) (hne : p ≠ q) :
    Keeps (Framed workingDirectory paths) (Host.rename p q : Sandbox Unit) := by
  refine framed_update fun w t hw hchange place hplace => .inl ?_
  obtain ⟨rfl, -, -⟩ := rename_eq_ok (hw ▸ hchange)
  rw [node?_move_of_not_below (hseparate.apart hp hq hne) (hplace q hq), if_neg (hplace p hp)]

/-- A step of a journal removes a place or moves to it what was moved aside. -/
theorem framed_perform {step : UndoStep} (hstep : step.path ∈ paths) :
    Keeps (Framed workingDirectory paths) (step.perform : Sandbox Unit) := by
  cases step with
  | restore path =>
    exact framed_rename hseparate (asidePath_mem_touched hstep) (self_mem_touched hstep)
      asidePath_ne_self
  | discard path => exact framed_remove (self_mem_touched hstep)

theorem framed_undo {journal : Journal} (hjournal : ∀ step ∈ journal, step.path ∈ paths) :
    Keeps (Framed workingDirectory paths) (undo journal : Sandbox (List (String × String))) := by
  induction journal with
  | nil => exact keeps_pure _
  | cons step earlier ih =>
    obtain ⟨hstep, hearlier⟩ := List.forall_mem_cons.1 hjournal
    refine keeps_bind (keeps_tryCatch ?_ fun e => keeps_pure _) fun failed => ?_
    · exact keeps_bind (framed_perform hseparate hstep) fun _ => keeps_pure _
    · exact keeps_bind (ih hearlier) fun others => keeps_pure _

end Separate

theorem framed_removeEach {doomed : List String} (hdoomed : doomed ⊆ touched paths) :
    Keeps (Framed workingDirectory paths) (removeEach doomed : Sandbox Unit) := by
  induction doomed with
  | nil => exact keeps_pure ()
  | cons p doomed ih =>
    obtain ⟨hp, hdoomed⟩ := List.cons_subset.1 hdoomed
    exact keeps_bind (framed_remove hp) fun _ => ih hdoomed

/-! ### The ways -/

/-- The directories on the way to a path are there. -/
def Led (workingDirectory path : String) (t : FileTree) : Prop :=
  ∀ place ∈ above (Path.location workingDirectory path), t.node? place = some .directory

section Ways

variable (hseparate : Separate workingDirectory (touched paths))

include hseparate

theorem outside_of_mem_above (hp : p ∈ paths) {place : Location}
    (hplace : place ∈ above (Path.location workingDirectory p)) :
    Outside workingDirectory paths place := by
  intro x hx hleads
  obtain ⟨habove, hne⟩ := mem_above_iff.1 hplace
  by_cases hxp : x = p
  · rw [hxp] at hleads
    exact hne (habove.eq_of_length_le hleads.length_le)
  · exact (hseparate.apart hx (self_mem_touched hp) hxp).1 (hleads.trans habove)

theorem mem_above_location_iff (hp : p ∈ paths) {place : Location} :
    place ∈ above (Path.location workingDirectory p) ↔
      place <+: Path.location workingDirectory (Path.directory p) := by
  obtain ⟨step, h⟩ := exists_location_eq_directory hseparate hp
  rw [h, mem_above_append_singleton_iff]

theorem Framed.led {w w' : World} (h : Framed workingDirectory paths w w')
    (hw : w.workingDirectory = workingDirectory) (hp : p ∈ paths)
    (hled : Led workingDirectory p w.tree) : Led workingDirectory p w'.tree :=
  fun place hplace => ((h hw).2 place (outside_of_mem_above hseparate hp hplace)).node?_eq_some
    (hled place hplace)

theorem ends_makeDirectories_led {w : World} (hw : w.workingDirectory = workingDirectory)
    (hp : p ∈ paths) :
    Ends (Host.makeDirectories (Path.directory p)) w
      (fun _ w' => Framed workingDirectory paths w w' ∧ Led workingDirectory p w'.tree)
      fun _ => Framed workingDirectory paths w := by
  refine ends_update (fun w' hchange hdirectory _ _ => ?_)
    fun _ w' _ htree hdirectory _ _ => framed_of_tree_eq htree hdirectory
  obtain ⟨htree, hmade⟩ := makeDirectories_eq_ok (hw ▸ hchange)
  refine ⟨fun _ => ⟨hdirectory.trans hw, fun place _ => ?_⟩,
    fun place hplace => hmade place ((mem_above_location_iff hseparate hp).1 hplace)⟩
  rw [htree]
  exact leavesAt_storeDirectory fun q hq => ⟨p, hp, (mem_above_location_iff hseparate hp).2 hq⟩

end Ways

/-! ### Installing -/

theorem ends_abandonStaging_framed {returns : α → World → Prop} {staged : List String}
    (hstaged : staged ⊆ touched paths) (e : Failure) (w : World) :
    Ends (abandonStaging staged e) w returns fun _ => Framed workingDirectory paths w :=
  (framed_removeEach hstaged).ends_bind (refl_of _ w) (fun _ _ h => ends_throw h) fun _ _ h => h

section Installing

variable (hseparate : Separate workingDirectory (touched paths))

include hseparate

/-- Once the files are staged, the directories on the ways to them are there. -/
theorem ends_stage_framed {staged : List String} {files : List GeneratedFile} {w : World}
    (hw : w.workingDirectory = workingDirectory) (hfiles : ∀ a ∈ files, a.path ∈ paths)
    (hstaged : staged ⊆ touched paths) :
    Ends (stage staged files) w
      (fun _ w' => Framed workingDirectory paths w w' ∧
        ∀ a ∈ files, Led workingDirectory a.path w'.tree)
      fun _ => Framed workingDirectory paths w := by
  induction files generalizing w staged with
  | nil => exact ends_pure ⟨refl_of _ w, fun _ h => absurd h List.not_mem_nil⟩
  | cons a files ih =>
    obtain ⟨ha, hfiles⟩ := List.forall_mem_cons.1 hfiles
    have hstaged' : staged ++ [stagedPath a.path] ⊆ touched paths :=
      List.append_subset.2
        ⟨hstaged, List.cons_subset.2 ⟨stagedPath_mem_touched ha, List.nil_subset _⟩⟩
    have hwrite : Keeps (Framed workingDirectory paths)
        (tryCatch (Host.writeText (stagedPath a.path) a.content)
          (abandonStaging (staged ++ [stagedPath a.path])) : Sandbox Unit) :=
      keeps_tryCatch (framed_writeText (stagedPath_mem_touched ha) _)
        fun e w => ends_abandonStaging_framed hstaged' e w
    rw [stage]
    refine ends_bind (ends_tryCatch ((ends_makeDirectories_led hseparate hw ha).imp ?_ ?_))
    · rintro - w₁ ⟨hframe₁, hled₁⟩
      refine hwrite.ends_bind (refl_of _ w₁) (fun _ w₂ hframe₂ => ?_)
        fun _ _ => trans_of _ hframe₁
      have hframe := trans_of _ hframe₁ hframe₂
      refine (ih (hframe hw).1 hfiles hstaged').imp ?_ fun _ _ => trans_of _ hframe
      -- The way to the file stays while the others are staged.
      rintro - w₃ ⟨hframe₃, hrest⟩
      refine ⟨trans_of _ hframe hframe₃, List.forall_mem_cons.2 ⟨?_, hrest⟩⟩
      exact (trans_of _ hframe₂ hframe₃).led hseparate (hframe₁ hw).1 ha hled₁
    · intro e w₁ hframe₁
      exact (ends_abandonStaging_framed hstaged e w₁).imp (fun _ _ => id)
        fun _ _ => trans_of _ hframe₁

theorem framed_abandonInstall {staged : List String} {journal : Journal}
    (hstaged : staged ⊆ touched paths) (hjournal : ∀ step ∈ journal, step.path ∈ paths)
    (path : String) (e : Failure) :
    Keeps (Framed workingDirectory paths) (abandonInstall staged journal path e : Sandbox α) :=
  keeps_bind (framed_undo hseparate hjournal) fun _ =>
    keeps_bind (framed_removeEach hstaged) fun _ => keeps_throw _

theorem framed_setAside (hp : p ∈ paths) :
    Keeps (Framed workingDirectory paths) (setAside p : Sandbox Bool) := by
  refine keeps_bind (framed_isPresent p) fun present => ?_
  cases present with
  | true =>
    exact keeps_bind (framed_rename hseparate (self_mem_touched hp) (asidePath_mem_touched hp)
      asidePath_ne_self.symm) fun _ => keeps_pure true
  | false => exact keeps_pure false

theorem ends_moveIntoPlace_framed {staged : List String} {journal : Journal}
    {rest : List GeneratedFile} (w : World) (hstaged : staged ⊆ touched paths)
    (hjournal : ∀ step ∈ journal, step.path ∈ paths) (hrest : ∀ a ∈ rest, a.path ∈ paths) :
    Ends (moveIntoPlace staged journal rest) w
      (fun journal' w' => Framed workingDirectory paths w w' ∧
        ∀ step ∈ journal', step.path ∈ paths)
      fun _ => Framed workingDirectory paths w := by
  induction rest generalizing journal w with
  | nil => exact ends_pure ⟨refl_of _ w, hjournal⟩
  | cons a rest ih =>
    obtain ⟨ha, hrest⟩ := List.forall_mem_cons.1 hrest
    have hrestore : ∀ step ∈ UndoStep.restore a.path :: journal, step.path ∈ paths :=
      List.forall_mem_cons.2 ⟨ha, hjournal⟩
    have hdiscard : ∀ step ∈ UndoStep.discard a.path :: journal, step.path ∈ paths :=
      List.forall_mem_cons.2 ⟨ha, hjournal⟩
    have hplace {journal₀ : Journal} (h : ∀ step ∈ journal₀, step.path ∈ paths) :
        Keeps (Framed workingDirectory paths)
          (tryCatch (Host.rename (stagedPath a.path) a.path)
            (abandonInstall staged journal₀ a.path) : Sandbox Unit) :=
      keeps_tryCatch (framed_rename hseparate (stagedPath_mem_touched ha) (self_mem_touched ha)
        stagedPath_ne_self) (framed_abandonInstall hseparate hstaged h a.path)
    have haside : Keeps (Framed workingDirectory paths)
        (tryCatch (setAside a.path) (abandonInstall staged journal a.path)) :=
      keeps_tryCatch (framed_setAside hseparate ha)
        (framed_abandonInstall hseparate hstaged hjournal a.path)
    rw [moveIntoPlace]
    refine haside.ends_bind (refl_of _ w) (fun replaced w₁ hframe₁ => ?_) fun _ _ h => h
    cases replaced with
    | true =>
      refine (hplace hrestore).ends_bind hframe₁ (fun _ w₂ hframe₂ => ?_) fun _ _ h => h
      exact (ih w₂ hrestore hrest).imp (fun _ _ h => ⟨trans_of _ hframe₂ h.1, h.2⟩)
        fun _ _ => trans_of _ hframe₂
    | false =>
      refine (hplace hjournal).ends_bind hframe₁ (fun _ w₂ hframe₂ => ?_) fun _ _ h => h
      exact (ih w₂ hdiscard hrest).imp (fun _ _ h => ⟨trans_of _ hframe₂ h.1, h.2⟩)
        fun _ _ => trans_of _ hframe₂

end Installing

/-- Outside of the places an installation makes at most directories on the ways to them, and if it
    returns, they are all there. -/
theorem ends_install_framed {files : List GeneratedFile} {w : World}
    (hseparate : Separate w.workingDirectory (touched (files.map (·.path)))) :
    Ends (install files) w
      (fun _ w' => Framed w.workingDirectory (files.map (·.path)) w w' ∧
        ∀ a ∈ files, Led w.workingDirectory a.path w'.tree)
      fun _ => Framed w.workingDirectory (files.map (·.path)) w := by
  have hfiles : ∀ a ∈ files, a.path ∈ files.map (·.path) := fun a ha => List.mem_map_of_mem ha
  rw [install, map_stagedPath]
  refine ends_bind ((ends_stage_framed hseparate rfl hfiles (List.nil_subset _)).imp ?_
    fun _ _ h => h)
  rintro - w₁ ⟨hframe₁, hled₁⟩
  refine ends_bind ((ends_moveIntoPlace_framed hseparate w₁ stagedPaths_subset
    (fun _ h => absurd h List.not_mem_nil) hfiles).imp ?_ fun _ _ => trans_of _ hframe₁)
  rintro journal w₂ ⟨hframe₂, hjournal⟩
  refine (framed_removeEach (Journal.backups_subset hjournal)).ends_bind hframe₂
    (fun _ w₃ hframe₃ => ?_) fun _ _ => trans_of _ hframe₁
  exact ends_pure ⟨trans_of _ hframe₁ hframe₃,
    fun a ha => hframe₃.led hseparate (hframe₁ rfl).1 (hfiles a ha) (hled₁ a ha)⟩

end Installation

end NodeTagging
