import NodeTagging.Proofs.Atomicity

/-!
# An undisturbed installation

If no call is interrupted, a call fails only where the disk refuses it, and that is rarely: a file
can always be moved to a place where nothing or another file is, and it can be removed. So as long
as no directory is at a place, the only move that may be refused is that of an earlier file aside,
in whose way a directory may be. What was done until then can be undone without fail, and nothing
fails afterwards: an undisturbed installation that fails leaves every place as it was
(`ends_install_undisturbed`).

* `Succeeds`: a computation does not fail, which sharpens what is known of its end
  (`Ends.of_succeeds`);
* `Undisturbed`: files are being moved into place on a host whose calls are not interrupted, and
  every step of the journal is sure to succeed.
-/

namespace NodeTagging

open FileTree

/-! ### Calls that succeed -/

namespace Sandbox

variable {α : Type} {x : Sandbox α} {w : World} {returns returns' : α → World → Prop}
  {fails fails' : Failure → World → Prop}

/-- The computation does not fail. -/
def Succeeds (x : Sandbox α) (w : World) : Prop :=
  Ends x w (fun _ _ => True) fun _ _ => False

theorem Succeeds.exists_run (h : Succeeds x w) : ∃ a w', x.run.run w = (.ok a, w') := by
  rw [Succeeds, Ends] at h
  rcases hx : x.run.run w with ⟨_ | a, w'⟩
  · rw [hx] at h
    exact h.elim
  · exact ⟨a, w', rfl⟩

/-- What is known of the failures of a computation that does not fail is of no concern. -/
theorem Ends.of_succeeds (h : Ends x w returns fails) (hx : Succeeds x w) :
    Ends x w returns fails' :=
  (h.and hx).imp (fun _ _ h => h.1) fun _ _ h => h.2.elim

/-- A computation that succeeds unless something is so fails only if it is so. -/
theorem Ends.unless {P : Prop} (h : Ends x w returns fails) (hx : ¬ P → Succeeds x w) :
    Ends x w returns fun _ _ => P := by
  by_cases hP : P
  · exact h.imp (fun _ _ => id) fun _ _ _ => hP
  · exact h.of_succeeds (hx hP)

theorem succeeds_perform {call : Call} {effect : World → Except FileError (α × FileTree)}
    {result : α × FileTree} (hcalm : w.schedule = .calm) (heffect : effect w = .ok result) :
    Succeeds (perform call effect) w := by
  have hrun : (perform call effect).run.run w = perform call effect w := rfl
  rw [Succeeds, Ends, hrun, perform, hcalm, heffect]
  exact trivial

theorem succeeds_query {call : Call} {look : World → Except FileError α} {a : α}
    (hcalm : w.schedule = .calm) (hlook : look w = .ok a) : Succeeds (query call look) w :=
  succeeds_perform hcalm (by rw [hlook]; rfl)

theorem succeeds_update {call : Call} {change : World → Except FileError FileTree}
    {tree : FileTree} (hcalm : w.schedule = .calm) (hchange : change w = .ok tree) :
    Succeeds (update call change) w :=
  succeeds_perform hcalm (by rw [hchange]; rfl)

end Sandbox

/-- There is a file. -/
def FileTree.View.HasFile (v : View) : Prop :=
  ∃ text, v.here = some (.file text)

theorem FileTree.View.hasFile_of_isSome {v : View} (h : v.here.isSome)
    (hplain : v.here ≠ some .directory) : v.HasFile := by
  obtain ⟨node, hnode⟩ := Option.isSome_iff_exists.1 h
  cases node with
  | directory => exact absurd hnode hplain
  | file text => exact ⟨text, hnode⟩

section Calls

open Sandbox

variable {below : Location} {w : World} {path source target : String}

theorem succeeds_isPresent (hcalm : w.schedule = .calm) :
    Succeeds (Host.isPresent path) w :=
  succeeds_query hcalm rfl

theorem succeeds_readText (hcalm : w.schedule = .calm) (h : (w.look below path).HasFile) :
    Succeeds (Host.readText path) w := by
  obtain ⟨text, hfile⟩ := h
  rw [World.look, view_here] at hfile
  have hread : w.tree.readText w.workingDirectory path = .ok text := by
    rw [FileTree.readText]
    simp only [hfile]
  exact succeeds_query hcalm hread

/-- A file can be moved to where no directory is. -/
theorem succeeds_rename (hcalm : w.schedule = .calm) (hsource : (w.look below source).HasFile)
    (htarget : (w.look below target).here ≠ some .directory) :
    Succeeds (Host.rename source target) w := by
  obtain ⟨text, hfile⟩ := hsource
  rw [World.look, view_here] at hfile htarget
  have hmoved : w.tree.rename w.workingDirectory source target = .ok
      (w.tree.move (Path.location w.workingDirectory source)
        (Path.location w.workingDirectory target)) := by
    rw [FileTree.rename]
    simp only [hfile]
  exact succeeds_update hcalm hmoved

theorem succeeds_remove (hcalm : w.schedule = .calm) (h : (w.look below path).HasFile) :
    Succeeds (Host.remove path) w := by
  obtain ⟨text, hfile⟩ := h
  rw [World.look, view_here] at hfile
  have hremoved : w.tree.remove w.workingDirectory path =
      .ok (w.tree.prune (Path.location w.workingDirectory path)) := by
    rw [FileTree.remove]
    simp only [hfile]
  exact succeeds_update hcalm hremoved

end Calls

namespace Installation

open Sandbox

variable {paths : List String} {below : Location} {old : String → View} {journal : Journal}
  {step : UndoStep} {a : GeneratedFile} {rest : List GeneratedFile} {lost : List Call}
  {changed : List String} {w w' : World}

/-! ### Undoing without fail -/

/-- A step is sure to succeed: there is a file to be moved back or removed, and no directory in the
    way. -/
def UndoStep.Sure (below : Location) (w : World) : UndoStep → Prop
  | .restore path => (w.look below path).HasFile ∧ (w.look below (asidePath path)).HasFile
  | .discard path => (w.look below path).HasFile

theorem UndoStep.Sure.of_reaches (h : step.Sure below w)
    (hreach : Reaches below (touched paths) lost changed w w') (hstep : step.path ∈ paths)
    (hself : step.path ∉ changed) (haside : asidePath step.path ∉ changed) :
    step.Sure below w' := by
  have hplace : (w.look below step.path).HasFile → (w'.look below step.path).HasFile := by
    rw [hreach.same step.path (self_mem_touched hstep) hself]
    exact id
  have hmoved : (w.look below (asidePath step.path)).HasFile →
      (w'.look below (asidePath step.path)).HasFile := by
    rw [hreach.same (asidePath step.path) (asidePath_mem_touched hstep) haside]
    exact id
  cases step with
  | restore path => exact ⟨hplace h.1, hmoved h.2⟩
  | discard path => exact hplace h

theorem succeeds_perform_step (hcalm : w.schedule = .calm) (h : step.Sure below w) :
    Succeeds step.perform w := by
  cases step with
  | restore path =>
    obtain ⟨⟨text, hfile⟩, haside⟩ := h
    exact succeeds_rename hcalm haside (by simp [hfile])
  | discard path => exact succeeds_remove hcalm h

/-- If every step is sure to succeed, no call fails. -/
theorem ends_undo_of_sure (hcalm : w.schedule = .calm)
    (hseparate : Separate w.workingDirectory (touched paths))
    (hclear : ∀ q ∈ touched paths, (w.look below q).Clear below)
    (hjournal : ∀ step ∈ journal, step.path ∈ paths) (hnodup : (journal.map UndoStep.path).Nodup)
    (hready : ∀ step ∈ journal, step.Ready below old w)
    (hsure : ∀ step ∈ journal, step.Sure below w) :
    Ends (undo journal) w (fun _ w' => w'.failed = w.failed) fun _ _ => False := by
  induction journal generalizing w with
  | nil => exact ends_pure rfl
  | cons step earlier ih =>
    have hstep := hjournal step List.mem_cons_self
    have hearlier : ∀ s ∈ earlier, s.path ∈ paths :=
      fun s hs => hjournal s (List.mem_cons_of_mem step hs)
    obtain ⟨hnew, hnodup⟩ := List.nodup_cons.1 hnodup
    -- What the step changes is of no concern to the steps before it.
    have hother : ∀ s ∈ earlier, s.path ∉ Journal.changed [step] ∧
        asidePath s.path ∉ Journal.changed [step] := by
      refine fun s hs => Journal.not_mem_changed hseparate (by simpa using hstep) (hearlier s hs) ?_
      intro hmem
      rw [List.map_singleton, List.mem_singleton] at hmem
      exact hnew (hmem ▸ List.mem_map_of_mem hs)
    have hattempt : Ends (tryCatch (do step.perform; pure []) fun e => pure [(step.path, e.reason)])
        w (fun _ w₁ => Reaches below (touched paths) [] (Journal.changed [step]) w w₁)
        fun _ _ => False := by
      refine ends_tryCatch (ends_bind (((ends_perform_step hseparate hclear hstep
        (hready step List.mem_cons_self)).of_succeeds
          (succeeds_perform_step hcalm (hsure step List.mem_cons_self))).imp ?_ fun _ _ => id))
      exact fun _ w₁ h => ends_pure h.1
    rw [undo]
    refine ends_bind (hattempt.imp (fun _ w₁ hreach => ?_) fun _ _ => id)
    have hrest := ih (hreach.schedule.trans hcalm) (hreach.workingDirectory ▸ hseparate)
      (hreach.clear hclear) hearlier hnodup
      (fun s hs => (hready s (List.mem_cons_of_mem step hs)).of_reaches hreach (hearlier s hs)
        (hother s hs).2)
      fun s hs => (hsure s (List.mem_cons_of_mem step hs)).of_reaches hreach (hearlier s hs)
        (hother s hs).1 (hother s hs).2
    refine ends_bind (hrest.imp (fun _ w₂ hnone => ends_pure ?_) fun _ _ => id)
    rw [hnone, hreach.failed, List.append_nil]

/-! ### Moving into place -/

/-- The files are being moved into place on a host whose calls are not interrupted. -/
structure Undisturbed (below : Location) (paths : List String) (old : String → View)
    (journal : Journal) (rest : List GeneratedFile) (w : World) : Prop
    extends Midway below paths old journal rest w where
  /-- No call is interrupted. -/
  calm : w.schedule = .calm
  /-- Every step of the journal is sure to succeed. -/
  sure : ∀ step ∈ journal, step.Sure below w
  /-- At no place was a directory. -/
  plain : ∀ p ∈ paths, (old p).here ≠ some .directory

/-- There is a directory where a file is to be moved aside. -/
def Obstructed (paths : List String) (old : String → View) : Prop :=
  ∃ p ∈ paths, (old (asidePath p)).here = some .directory

namespace Undisturbed

/-- A call without effect changes nothing. -/
theorem of_lost (h : Undisturbed below paths old journal rest w)
    (hreach : Reaches below (touched paths) lost [] w w') :
    Undisturbed below paths old journal rest w' :=
  { h.toMidway.of_lost hreach with
    calm := hreach.schedule.trans h.calm
    sure := fun step hstep => (h.sure step hstep).of_reaches hreach (h.ready step hstep).1
      List.not_mem_nil List.not_mem_nil
    plain := h.plain }

/-- Undoing the journal puts every path back. -/
theorem ends_undo (h : Undisturbed below paths old journal rest w) :
    Ends (undo journal) w
      (fun _ w' => w'.workingDirectory = w.workingDirectory ∧
        ∀ p ∈ paths, w'.look below p = old p)
      fun _ _ => False := by
  have hquiet := ends_undo_of_sure h.calm h.separate h.clear
    (fun step hstep => (h.ready step hstep).1) (List.nodup_append.1 h.nodup).1
    (fun step hstep => (h.ready step hstep).2) h.sure
  refine (h.toMidway.ends_undo.and hquiet).imp ?_ fun _ _ h => h.1
  rintro reported w' ⟨⟨lost, changed, hreach, -, hback⟩, hnone⟩
  -- No call has failed, so no path is stuck.
  have hlost : lost = [] := by
    rw [hreach.failed] at hnone
    exact List.append_right_eq_self.1 hnone
  refine ⟨hreach.workingDirectory, fun p hp => ((hback p hp).resolve_left ?_).self⟩
  simp [hlost, RollbackFailed]

/-- After a call that has failed, every path is put back. -/
theorem ends_abandonInstall {α : Type} {returns : α → World → Prop} {call : Call} {path : String}
    {e : Failure} (h : Undisturbed below paths old journal rest w)
    (hreach : Reaches below (touched paths) [call] [] w w') :
    Ends (abandonInstall (paths.map stagedPath) journal path e) w' returns
      (fun _ w'' => ∀ p ∈ paths, w''.look below p = old p) := by
  have hseparate := (h.of_lost hreach).separate
  rw [abandonInstall]
  refine ends_bind ((h.of_lost hreach).ends_undo.imp ?_ fun _ _ => False.elim)
  rintro unrestored w₁ ⟨hdirectory, hback⟩
  -- Removing the staged files touches no path.
  have hkept {lost : List Call} {w₂ : World}
      (hremoved : Reaches below (touched paths) lost (paths.map stagedPath) w₁ w₂) :
      ∀ p ∈ paths, w₂.look below p = old p := by
    intro p hp
    rw [hremoved.same p (self_mem_touched hp), hback p hp]
    intro hmem
    obtain ⟨q, hq, heq⟩ := List.mem_map.1 hmem
    exact stagedPath_ne h.separate hp hq heq
  refine ends_bind ((ends_removeEach below (hdirectory ▸ hseparate) stagedPaths_subset).imp ?_ ?_)
  · exact fun _ w₂ hremoved => ends_throw (hkept hremoved)
  · rintro e' w₂ ⟨-, x, -, hremoved⟩
    exact hkept hremoved

/-- What was at the place of the next file is out of the way, and if it was moved aside it is a
    file. Only a directory that it was to replace can keep it from being moved. -/
theorem ends_setAside (h : Undisturbed below paths old journal (a :: rest) w) :
    Ends (setAside a.path) w
      (fun replaced w' => (w'.look below a.path).here = none ∧
        (replaced = true → (w'.look below (asidePath a.path)).HasFile))
      fun _ _ => (old (asidePath a.path)).here = some .directory := by
  have ha := self_mem_touched h.mem_paths
  have hold : w.look below a.path = old a.path := h.kept _ h.mem_paths h.not_mem_journal
  have hlooked : Ends (Host.isPresent a.path) w
      (fun present w₁ => present = (w.look below a.path).here.isSome ∧
        Reaches below (touched paths) [] [] w w₁) fun _ _ => False :=
    (ends_isPresent (ne_empty h.separate h.mem_paths) (fun _ hreach₁ => ⟨rfl, hreach₁⟩)
      fun _ _ _ _ => trivial).of_succeeds (succeeds_isPresent h.calm)
  rw [setAside]
  refine ends_bind (hlooked.imp ?_ fun _ _ => False.elim)
  rintro present w₁ ⟨hpresent, hreach₁⟩
  have h₁ := h.of_lost hreach₁
  have hsame : w₁.look below a.path = w.look below a.path :=
    hreach₁.same _ ha List.not_mem_nil
  cases present with
  | false =>
    refine ends_pure ⟨?_, fun hf => by simp at hf⟩
    rw [hsame]
    exact Option.not_isSome_iff_eq_none.1 (Bool.eq_false_iff.1 hpresent.symm)
  | true =>
    have hfile : (w₁.look below a.path).HasFile := by
      rw [hsame]
      exact View.hasFile_of_isSome hpresent.symm (hold ▸ h.plain _ h.mem_paths)
    have hmove : Ends (Host.rename a.path (asidePath a.path)) w₁
        (fun _ w₂ => w₂.look below (asidePath a.path) = w₁.look below a.path ∧
          w₂.look below a.path = .absent)
        fun _ _ => (old (asidePath a.path)).here = some .directory := by
      refine (ends_rename h₁.separate ha (asidePath_mem_touched h.mem_paths)
        asidePath_ne_self.symm h₁.clear (fun _ _ hmoved hgone => ⟨hmoved, hgone⟩)
        fun _ _ _ _ => trivial).unless ?_
      rw [← h₁.beside _ h.mem_paths h.not_mem_journal]
      exact succeeds_rename h₁.calm hfile
    refine ends_bind (hmove.imp ?_ fun _ _ => id)
    rintro - w₂ ⟨hmoved, hgone⟩
    refine ends_pure ⟨by rw [hgone]; rfl, fun _ => ?_⟩
    rw [hmoved]
    exact hfile

theorem not_mem_siblings (h : Undisturbed below paths old journal (a :: rest) w)
    (hstep : step ∈ journal) :
    step.path ∉ siblings a.path ∧ asidePath step.path ∉ siblings a.path := by
  have hpath := (h.ready step hstep).1
  have hne := h.ne_of_mem_journal hstep
  constructor
  · intro hmem
    exact ne_of_mem_siblings h.separate hpath h.mem_paths hne hmem rfl
  · intro hmem
    simp only [siblings, List.mem_cons, List.not_mem_nil, or_false] at hmem
    rcases hmem with heq | heq | heq
    · exact asidePath_ne h.separate h.mem_paths hpath heq
    · exact stagedPath_ne_asidePath heq.symm
    · exact hne (asidePath_injective heq)

/-- One file is moved into place, and there is a step for it; or every path is put back, as a
    directory was in the way. -/
theorem ends_step {returns : Journal → World → Prop}
    (h : Undisturbed below paths old journal (a :: rest) w)
    (hnext : ∀ step w', Undisturbed below paths old (step :: journal) rest w' →
      Ends (moveIntoPlace (paths.map stagedPath) (step :: journal) rest) w' returns
        fun _ w'' => Obstructed paths old ∧ ∀ p ∈ paths, w''.look below p = old p) :
    Ends (moveIntoPlace (paths.map stagedPath) journal (a :: rest)) w returns
      fun _ w'' => Obstructed paths old ∧ ∀ p ∈ paths, w''.look below p = old p := by
  -- Nothing is in the way of the staged file any more, so it comes to its place.
  have hplace {w₁ : World} {step : UndoStep} {journal₀ : Journal} (hpath : step.path = a.path)
      (hreach₁ : Reaches below (touched paths) [] [a.path, asidePath a.path] w w₁)
      (h₁ : Midway below paths old (step :: journal) rest w₁)
      (hfree : (w₁.look below a.path).here = none)
      (hmoved : step = .restore a.path → (w₁.look below (asidePath a.path)).HasFile) :
      Ends (do
          tryCatch (Host.rename (stagedPath a.path) a.path)
            (abandonInstall (paths.map stagedPath) journal₀ a.path)
          moveIntoPlace (paths.map stagedPath) (step :: journal) rest) w₁ returns
        fun _ w'' => Obstructed paths old ∧ ∀ p ∈ paths, w''.look below p = old p := by
    have hstaged : w₁.look below (stagedPath a.path) = .ofFile below a.content := by
      rw [hreach₁.same _ (stagedPath_mem_touched h.mem_paths)]
      · exact (h.staged a List.mem_cons_self).2
      · simp [stagedPath_ne_self, stagedPath_ne_asidePath]
    have hsucceeds : Succeeds (Host.rename (stagedPath a.path) a.path) w₁ :=
      succeeds_rename (hreach₁.schedule.trans h.calm) ⟨a.content, by rw [hstaged]; rfl⟩
        (by simp [hfree])
    refine ends_bind (ends_tryCatch (((h₁.ends_place hpath h.mem_paths).of_succeeds hsucceeds).imp
      ?_ fun _ _ => False.elim))
    rintro - w₂ ⟨hreach₂, hplaced, -, h₂⟩
    have hreach := (hreach₁.trans hreach₂).mono (show _ ⊆ siblings a.path by simp [siblings])
    have hfile : (w₂.look below a.path).HasFile := ⟨a.content, by rw [hplaced, hstaged]; rfl⟩
    refine hnext step w₂ { h₂ with
      calm := hreach.schedule.trans h.calm
      sure := fun s hs => ?_
      plain := h.plain }
    rcases List.mem_cons.1 hs with rfl | hs
    · cases s with
      | restore path =>
        obtain rfl : path = a.path := hpath
        refine ⟨hfile, ?_⟩
        rw [hreach₂.same _ (asidePath_mem_touched h.mem_paths)]
        · exact hmoved rfl
        · simp [asidePath_ne_self, stagedPath_ne_asidePath.symm]
      | discard path =>
        obtain rfl : path = a.path := hpath
        exact hfile
    · obtain ⟨hself, haside⟩ := h.not_mem_siblings hs
      exact (h.sure s hs).of_reaches hreach (h.ready s hs).1 hself haside
  rw [moveIntoPlace]
  refine ends_bind (ends_tryCatch ((h.toMidway.ends_setAside.and h.ends_setAside).imp ?_ ?_))
  · rintro replaced w₁ ⟨⟨hreach₁, h₁, -⟩, hfree, hmoved⟩
    cases replaced with
    | true => exact hplace rfl hreach₁ h₁ hfree fun _ => hmoved rfl
    | false => exact hplace rfl hreach₁ h₁ hfree fun heq => UndoStep.noConfusion heq
  · rintro e w₁ ⟨⟨call, hreach₁, -⟩, hblocked⟩
    exact (h.ends_abandonInstall hreach₁).imp (fun _ _ => id)
      fun _ _ hback => ⟨⟨a.path, h.mem_paths, hblocked⟩, hback⟩

/-- All files are moved into place, or every path is put back, as a directory was in the way. -/
theorem ends_moveIntoPlace (h : Undisturbed below paths old journal rest w) :
    Ends (moveIntoPlace (paths.map stagedPath) journal rest) w
      (fun journal' w' => Undisturbed below paths old journal' [] w')
      fun _ w' => Obstructed paths old ∧ ∀ p ∈ paths, w'.look below p = old p := by
  induction rest generalizing journal w with
  | nil => exact ends_pure h
  | cons a rest ih => exact h.ends_step fun step w₁ h₁ => ih h₁

end Undisturbed

/-! ### Removing what was moved aside -/

theorem succeeds_removeEach {tracked doomed : List String} (below : Location)
    (hcalm : w.schedule = .calm) (hseparate : Separate w.workingDirectory tracked)
    (hdoomed : doomed ⊆ tracked) (hnodup : doomed.Nodup)
    (hfiles : ∀ p ∈ doomed, (w.look below p).HasFile) :
    Succeeds (removeEach doomed) w := by
  induction doomed generalizing w with
  | nil => exact ends_pure trivial
  | cons p doomed ih =>
    obtain ⟨hp, hdoomed⟩ := List.cons_subset.1 hdoomed
    obtain ⟨hnew, hnodup⟩ := List.nodup_cons.1 hnodup
    have hremove : Ends (Host.remove p) w (fun _ w₁ => Reaches below tracked [] [p] w w₁)
        fun _ _ => False :=
      (ends_remove hseparate hp (fun _ hreach _ => hreach) fun _ _ _ _ => trivial).of_succeeds
        (succeeds_remove hcalm (hfiles p List.mem_cons_self))
    rw [removeEach]
    refine ends_bind (hremove.imp (fun _ w₁ hreach => ?_) fun _ _ => id)
    refine ih (hreach.schedule.trans hcalm) (hreach.workingDirectory ▸ hseparate) hdoomed hnodup
      fun q hq => ?_
    have hother : q ∉ [p] := by
      rw [List.mem_singleton]
      exact ne_of_mem_of_not_mem hq hnew
    rw [hreach.same q (hdoomed hq) hother]
    exact hfiles q (List.mem_cons_of_mem p hq)

theorem Journal.nodup_backups (h : (journal.map UndoStep.path).Nodup) : journal.backups.Nodup := by
  refine (List.nodup_reverse.2 h.of_map).filterMap fun s s' x hs hs' => ?_
  cases s with
  | discard path => simp at hs
  | restore path =>
    cases s' with
    | discard path' => simp at hs'
    | restore path' =>
      obtain rfl := Option.some.inj hs
      exact congrArg UndoStep.restore (asidePath_injective (Option.some.inj hs').symm)

/-- What was moved aside is removed without fail. -/
theorem Undisturbed.succeeds_removeBackups (h : Undisturbed below paths old journal rest w) :
    Succeeds (removeEach journal.backups) w := by
  refine succeeds_removeEach below h.calm h.separate
    (Journal.backups_subset fun step hstep => (h.ready step hstep).1)
    (Journal.nodup_backups (List.nodup_append.1 h.nodup).1) fun x hx => ?_
  obtain ⟨path, hstep, rfl⟩ := Journal.mem_backups_iff.1 hx
  exact (h.sure _ hstep).2

/-! ### Installing -/

/-- An undisturbed installation puts every file in its place, or every place is as it was. -/
theorem ends_install_undisturbed {files : List GeneratedFile} (hcalm : w.schedule = .calm)
    (hseparate : Separate w.workingDirectory (touched (files.map (·.path))))
    (hclear : ∀ q ∈ touched (files.map (·.path)), (w.look below q).Clear below)
    (hplain : ∀ p ∈ files.map (·.path), (w.look below p).here ≠ some .directory) :
    Ends (install files) w
      (fun _ w' => w'.workingDirectory = w.workingDirectory ∧ w'.schedule = .calm ∧
        ∀ a ∈ files, w'.look below a.path = .ofFile below a.content)
      fun _ w' => w'.workingDirectory = w.workingDirectory ∧
        ∀ p ∈ files.map (·.path), w'.look below p = w.look below p := by
  have hended : Ends (install files) w (fun _ w' => w'.schedule = .calm)
      fun _ w' => ∀ p ∈ files.map (·.path), w'.look below p = w.look below p := by
    rw [install, map_stagedPath]
    refine ends_bind ((ends_stage hseparate hclear (fun a ha => List.mem_map_of_mem ha)
      (nodup_paths hseparate) (List.nil_subset _)).imp ?_ ?_)
    · rintro - w₁ ⟨hreach₁, hstaged⟩
      rw [map_stagedPath] at hreach₁
      have hundisturbed : Undisturbed below (files.map (·.path)) (w.look below) [] files w₁ :=
        { Midway.of_staged hseparate hclear hreach₁ hstaged with
          calm := hreach₁.schedule.trans hcalm
          sure := fun _ h => absurd h List.not_mem_nil
          plain := hplain }
      refine ends_bind (hundisturbed.ends_moveIntoPlace.imp (fun journal w₂ h₂ => ?_)
        fun _ _ => And.right)
      refine ends_bind (((ends_removeBackups below h₂.separate fun step hstep =>
        (h₂.ready step hstep).1).of_succeeds h₂.succeeds_removeBackups).imp ?_ fun _ _ => id)
      exact fun _ w₃ h₃ => ends_pure (h₃.1.schedule.trans h₂.calm)
    · rintro e w₁ ⟨-, lost, hreach, -⟩ p hp
      exact hreach.same p (self_mem_touched hp) (not_mem_stagedPaths hseparate hp)
  refine ((ends_install below hseparate hclear).and hended).imp ?_ ?_
  · rintro places w' ⟨⟨-, hdirectory, hplaced⟩, hquiet⟩
    exact ⟨hdirectory, hquiet, hplaced⟩
  · rintro e w' ⟨⟨lost, changed, hreach, -⟩, hsame⟩
    exact ⟨hreach.workingDirectory, hsame⟩

end Installation

end NodeTagging
