import NodeTagging.Proofs.Staging

/-!
# Files are installed as one unit

However calls fail, an installation either puts every file in its place or puts every place back
(`install_is_atomic`). While the files are moved into place, the journal says of every place how to
put it back, and the files that are still to be moved are staged (`Midway`). A step that succeeds
keeps this up, and from a host of which it holds, undoing the journal leads back.

* `ends_moveIntoPlace`: all files are moved into place, or the places are put back;
* `ends_abandonInstall`: how the places are put back after a failure, and that nothing is left
  beside them unless a call failed that cleans up (`Cleared`).
-/

namespace NodeTagging.Installation

open FileTree Sandbox

variable {paths : List String} {p q workingDirectory : String}

/-! ### Moving into place -/

section Moving

variable {α : Type} {below : Location} {old : String → View} {journal : Journal}
  {step : UndoStep} {a : GeneratedFile} {rest : List GeneratedFile} {lost : List Call}
  {changed : List String} {w w' w'' : World}

/-- The files are being moved into place: the journal is ready to be undone, and the rest of the
    files is staged. -/
structure Midway (below : Location) (paths : List String) (old : String → View)
    (journal : Journal) (rest : List GeneratedFile) (w : World) : Prop where
  /-- The places lie apart. -/
  separate : Separate w.workingDirectory (touched paths)
  /-- Nothing lies below a file. -/
  clear : ∀ q ∈ touched paths, (w.look below q).Clear below
  /-- Every step of the journal puts its path back. -/
  ready : ∀ step ∈ journal, step.path ∈ paths ∧ step.Ready below old w
  /-- The other paths are as they were. -/
  kept : ∀ p ∈ paths, p ∉ journal.map UndoStep.path → w.look below p = old p
  /-- From the other paths nothing was moved aside. -/
  beside : ∀ p ∈ paths, p ∉ journal.map UndoStep.path →
    w.look below (asidePath p) = old (asidePath p)
  /-- The files to be moved are staged. -/
  staged : ∀ a ∈ rest, a.path ∈ paths ∧ w.look below (stagedPath a.path) = .ofFile below a.content
  /-- Every path is about one file or one step. -/
  nodup : (journal.map UndoStep.path ++ rest.map (·.path)).Nodup

namespace Midway

/-- What keeps the journal ready and the rest of the files staged. -/
theorem of_reaches (h : Midway below paths old journal rest w)
    (hreach : Reaches below (touched paths) lost changed w w')
    (hkept : ∀ p ∈ paths, p ∈ changed → p ∈ journal.map UndoStep.path)
    (hstaged : ∀ a ∈ rest, stagedPath a.path ∉ changed)
    (haside : ∀ p ∈ paths, asidePath p ∉ changed) :
    Midway below paths old journal rest w' where
  separate := hreach.workingDirectory ▸ h.separate
  clear := hreach.clear h.clear
  ready step hstep := by
    obtain ⟨hpath, hready⟩ := h.ready step hstep
    exact ⟨hpath, hready.of_reaches hreach hpath (haside step.path hpath)⟩
  kept p hp hnot := by
    rw [hreach.same p (self_mem_touched hp) fun hmem => hnot (hkept p hp hmem)]
    exact h.kept p hp hnot
  beside p hp hnot := by
    rw [hreach.same _ (asidePath_mem_touched hp) (haside p hp)]
    exact h.beside p hp hnot
  staged a ha := by
    obtain ⟨hpath, hstaged'⟩ := h.staged a ha
    refine ⟨hpath, ?_⟩
    rw [hreach.same _ (stagedPath_mem_touched hpath) (hstaged a ha), hstaged']
  nodup := h.nodup

/-- A call without effect changes nothing. -/
theorem of_lost (h : Midway below paths old journal rest w)
    (hreach : Reaches below (touched paths) lost [] w w') :
    Midway below paths old journal rest w' :=
  h.of_reaches hreach (fun _ _ hmem => absurd hmem List.not_mem_nil)
    (fun _ _ => List.not_mem_nil) fun _ _ => List.not_mem_nil

theorem mem_paths (h : Midway below paths old journal (a :: rest) w) : a.path ∈ paths :=
  (h.staged a List.mem_cons_self).1

/-- The path of the next file is that of no step and no later file. -/
theorem nodup_cons (h : Midway below paths old journal (a :: rest) w) :
    (a.path :: (journal.map UndoStep.path ++ rest.map (·.path))).Nodup :=
  List.nodup_middle.1 h.nodup

theorem ne_of_mem_journal (h : Midway below paths old journal (a :: rest) w)
    (hstep : step ∈ journal) : step.path ≠ a.path := by
  intro heq
  refine (List.nodup_cons.1 h.nodup_cons).1 (List.mem_append_left _ ?_)
  exact heq ▸ List.mem_map_of_mem hstep

theorem ne_of_mem_rest (h : Midway below paths old journal (a :: rest) w) {b : GeneratedFile}
    (hb : b ∈ rest) : b.path ≠ a.path := by
  intro heq
  refine (List.nodup_cons.1 h.nodup_cons).1 (List.mem_append_right _ ?_)
  exact heq ▸ List.mem_map_of_mem hb

theorem not_mem_journal (h : Midway below paths old journal (a :: rest) w) :
    a.path ∉ journal.map UndoStep.path :=
  fun hmem => (List.nodup_cons.1 h.nodup_cons).1 (List.mem_append_left _ hmem)

/-- The next file gets a step of the journal when what was at its place is out of the way. -/
theorem record (h : Midway below paths old journal (a :: rest) w)
    (hreach : Reaches below (touched paths) [] changed w w')
    (hchanged : changed ⊆ [a.path, asidePath a.path])
    (hpath : step.path = a.path) (hready : step.Ready below old w') :
    Midway below paths old (step :: journal) rest w' where
  separate := hreach.workingDirectory ▸ h.separate
  clear := hreach.clear h.clear
  ready s hs := by
    rcases List.mem_cons.1 hs with rfl | hs
    · exact ⟨hpath ▸ h.mem_paths, hready⟩
    · obtain ⟨hspath, hsready⟩ := h.ready s hs
      refine ⟨hspath, hsready.of_reaches hreach hspath fun hmem => ?_⟩
      rcases List.mem_pair.1 (hchanged hmem) with heq | heq
      · exact asidePath_ne h.separate h.mem_paths hspath heq
      · exact h.ne_of_mem_journal hs (asidePath_injective heq)
  kept p hp hnot := by
    obtain ⟨hne, hnot⟩ := not_or.1 (List.mem_cons.not.1 hnot)
    rw [hreach.same p (self_mem_touched hp), h.kept p hp hnot]
    intro hmem
    rcases List.mem_pair.1 (hchanged hmem) with heq | heq
    · exact hne (heq.trans hpath.symm)
    · exact asidePath_ne h.separate hp h.mem_paths heq.symm
  beside p hp hnot := by
    obtain ⟨hne, hnot⟩ := not_or.1 (List.mem_cons.not.1 hnot)
    rw [hreach.same _ (asidePath_mem_touched hp), h.beside p hp hnot]
    intro hmem
    rcases List.mem_pair.1 (hchanged hmem) with heq | heq
    · exact asidePath_ne h.separate h.mem_paths hp heq
    · exact hne ((asidePath_injective heq).trans hpath.symm)
  staged b hb := by
    obtain ⟨hbpath, hstaged⟩ := h.staged b (List.mem_cons_of_mem a hb)
    refine ⟨hbpath, ?_⟩
    rw [hreach.same _ (stagedPath_mem_touched hbpath), hstaged]
    intro hmem
    rcases List.mem_pair.1 (hchanged hmem) with heq | heq
    · exact stagedPath_ne h.separate h.mem_paths hbpath heq
    · exact stagedPath_ne_asidePath heq
  nodup := by
    rw [List.map_cons, hpath]
    exact h.nodup_cons

end Midway

/-! ### Giving up -/

/-- A failure that reports paths reports those that could not be put back. -/
def Reports (paths : List String) (lost : List Call) (e : Failure) : Prop :=
  ∀ path reason unrestored, e = .problem (.installFailed path reason unrestored) →
    ∀ p, p ∈ unrestored.map Prod.fst ↔ p ∈ paths ∧ RollbackFailed lost p

/-- Every path is as it was, unless it could not be put back, and those are reported. -/
def PutBack (below : Location) (paths : List String) (old : String → View) (lost : List Call)
    (e : Failure) (w : World) : Prop :=
  (∀ p ∈ paths, RollbackFailed lost p ∨ w.look below p = old p) ∧ Reports paths lost e

/-- Unless one of the calls failed that put the places back and remove the staged files, nothing is
    left beside the places. -/
def Cleared (below : Location) (paths : List String) (old : String → View) (lost : List Call)
    (w : World) : Prop :=
  (∀ p ∈ paths, ¬ RollbackFailed lost p ∧ .remove (stagedPath p) ∉ lost) →
    ∀ p ∈ paths, PutBackAt below old w p ∧ w.look below (stagedPath p) = .absent

/-- A run that was given up has put every path back and removed what it staged, if it could. -/
def GivenUp (below : Location) (paths : List String) (old : String → View) (w : World)
    (e : Failure) (w' : World) : Prop :=
  ∃ lost changed, Reaches below (touched paths) lost changed w w' ∧
    PutBack below paths old lost e w' ∧ Cleared below paths old lost w'

theorem GivenUp.of_reaches {e : Failure} (h : GivenUp below paths old w' e w'')
    (hreach : Reaches below (touched paths) [] changed w w') : GivenUp below paths old w e w'' := by
  obtain ⟨lost, changed', hreach', hback⟩ := h
  exact ⟨lost, changed ++ changed', hreach.trans hreach', hback⟩

theorem rollbackFailed_append_iff {lost' : List Call} :
    RollbackFailed (lost ++ lost') p ↔ RollbackFailed lost p ∨ RollbackFailed lost' p := by
  simp only [RollbackFailed, List.mem_append]
  tauto

/-- Undoing the journal puts every path back but those that it reports. -/
theorem Midway.ends_undo (h : Midway below paths old journal rest w) :
    Ends (undo journal) w
      (fun reported w' => ∃ lost changed, Reaches below (touched paths) lost changed w w' ∧
        (∀ p, p ∈ reported.map Prod.fst ↔ p ∈ paths ∧ RollbackFailed lost p) ∧
        ∀ p ∈ paths, RollbackFailed lost p ∨ PutBackAt below old w' p)
      (fun _ _ => False) := by
  have hjournal : ∀ step ∈ journal, step.path ∈ paths := fun step hstep => (h.ready step hstep).1
  refine (Installation.ends_undo h.separate h.clear hjournal (List.nodup_append.1 h.nodup).1
    fun step hstep => (h.ready step hstep).2).imp ?_ fun _ _ => id
  rintro reported w' ⟨stuck, hstuck, hreported, hreach, hback⟩
  refine ⟨_, _, hreach, fun p => ?_, fun p hp => ?_⟩
  · rw [hreported, rollbackFailed_calls_iff]
    refine ⟨fun hmem => ⟨?_, hmem⟩, And.right⟩
    obtain ⟨step, hstep, rfl⟩ := List.mem_map.1 hmem
    exact hjournal step (hstuck hstep)
  · -- A path is as it was because no step is about it, or because its step is not stuck.
    rw [rollbackFailed_calls_iff]
    by_cases hmem : p ∈ journal.map UndoStep.path
    · obtain ⟨step, hstep, rfl⟩ := List.mem_map.1 hmem
      by_cases hfree : step ∈ stuck
      · exact .inl (List.mem_map_of_mem hfree)
      · exact .inr (hback step hstep hfree)
    · obtain ⟨hself, haside⟩ := Journal.not_mem_changed h.separate hjournal hp hmem
      refine .inr ⟨?_, .inr ?_⟩
      · rw [hreach.same p (self_mem_touched hp) hself]
        exact h.kept p hp hmem
      · rw [hreach.same _ (asidePath_mem_touched hp) haside]
        exact h.beside p hp hmem

/-- Staging changes no place. -/
theorem not_mem_stagedPaths (hseparate : Separate workingDirectory (touched paths))
    (hp : p ∈ paths) : p ∉ paths.map stagedPath := by
  intro hmem
  obtain ⟨q, hq, heq⟩ := List.mem_map.1 hmem
  exact stagedPath_ne hseparate hp hq heq

theorem asidePath_not_mem_stagedPaths : asidePath p ∉ paths.map stagedPath := by
  intro hmem
  obtain ⟨q, -, heq⟩ := List.mem_map.1 hmem
  exact stagedPath_ne_asidePath heq

/-- After a call that has failed, the journal is undone and the staged files are removed. -/
theorem Midway.ends_abandonInstall {returns : α → World → Prop} {call : Call} {path : String}
    {e : Failure} (h : Midway below paths old journal rest w)
    (hreach : Reaches below (touched paths) [call] [] w w')
    (hcall : ∀ p ∈ paths, ¬ RollbackFailed [call] p) :
    Ends (abandonInstall (paths.map stagedPath) journal path e) w' returns
      (GivenUp below paths old w) := by
  rw [abandonInstall]
  refine ends_bind ((h.of_lost hreach).ends_undo.imp ?_ fun _ _ => False.elim)
  rintro unrestored w₁ ⟨lost, changed, hundone, hreported, hback⟩
  have hseparate : Separate w₁.workingDirectory (touched paths) :=
    hundone.workingDirectory ▸ (h.of_lost hreach).separate
  -- Removing the staged files touches no path, and nothing that was moved aside.
  have hkept {last : List Call} {w₂ : World}
      (hremoved : Reaches below (touched paths) last (paths.map stagedPath) w₁ w₂) :
      ∀ p ∈ paths, RollbackFailed ([call] ++ lost ++ last) p ∨ PutBackAt below old w₂ p := by
    intro p hp
    rw [rollbackFailed_append_iff, rollbackFailed_append_iff]
    refine (hback p hp).imp (fun hfailed => .inl (.inr hfailed)) fun hput => ?_
    exact hput.of_reaches hremoved hp (not_mem_stagedPaths hseparate hp)
      asidePath_not_mem_stagedPaths
  refine ends_bind (((ends_removeEach below hseparate stagedPaths_subset).and
    (ends_removeEach_absent hseparate stagedPaths_subset
      (hundone.clear (h.of_lost hreach).clear))).imp ?_ ?_)
  · rintro _ w₂ ⟨hremoved, hgone⟩
    refine ends_throw ⟨_, _, (hreach.trans hundone).trans hremoved,
      ⟨fun p hp => (hkept hremoved p hp).imp_right PutBackAt.self, ?_⟩, fun hclean p hp => ?_⟩
    · intro _ _ _ he p
      rw [← (Problem.installFailed.inj (Failure.problem.inj he)).2.2, hreported p]
      refine and_congr_right fun hp => ?_
      rw [List.append_nil, rollbackFailed_append_iff, or_iff_right (hcall p hp)]
    · exact ⟨(hkept hremoved p hp).resolve_left (hclean p hp).1,
        (hgone _ (List.mem_map_of_mem hp)).1⟩
  · rintro e' w₂ ⟨⟨hraw, x, hx, hremoved⟩, -⟩
    obtain ⟨q, hq, rfl⟩ := List.mem_map.1 hx
    refine ⟨_, _, (hreach.trans hundone).trans hremoved,
      ⟨fun p hp => (hkept hremoved p hp).imp_right PutBackAt.self,
        fun _ _ _ he => absurd he (hraw _)⟩, fun hclean => ?_⟩
    exact absurd (List.mem_append_right _ (List.mem_singleton_self _)) (hclean q hq).2

/-! ### Steps -/

theorem rollbackFailed_singleton_iff {call : Call} :
    RollbackFailed [call] p ↔ call = .rename (asidePath p) p ∨ call = .remove p := by
  simp only [RollbackFailed, List.mem_singleton, eq_comm]

/-- What was at the place of the next file is moved out of the way, or nothing was there. -/
theorem Midway.ends_setAside (h : Midway below paths old journal (a :: rest) w) :
    Ends (setAside a.path) w
      (fun replaced w' =>
        Reaches below (touched paths) [] [a.path, asidePath a.path] w w' ∧
        Midway below paths old
          ((if replaced then .restore a.path else .discard a.path) :: journal) rest w' ∧
        (replaced = false → Midway below paths old journal (a :: rest) w'))
      (fun _ w' => ∃ call, Reaches below (touched paths) [call] [] w w' ∧
        ∀ p ∈ paths, ¬ RollbackFailed [call] p) := by
  have ha := self_mem_touched h.mem_paths
  rw [setAside]
  refine ends_bind (ends_isPresent (ne_empty h.separate h.mem_paths) (fun w₁ hreach₁ => ?_)
    fun e w₁ _ hreach₁ => ⟨_, hreach₁, fun p _ => by simp [rollbackFailed_singleton_iff]⟩)
  have h₁ := h.of_lost hreach₁
  have hold : w.look below a.path = old a.path := h.kept _ h.mem_paths h.not_mem_journal
  cases hpresent : (w.look below a.path).here.isSome with
  | false =>
    have habsent : old a.path = .absent := by
      rw [← hold]
      have hnone := Option.not_isSome_iff_eq_none.1 (Bool.eq_false_iff.1 hpresent)
      exact World.look_eq_absent hnone (h.clear _ ha)
    refine ends_pure ⟨hreach₁.mono (List.nil_subset _), ?_, fun _ => h₁⟩
    exact h.record hreach₁ (List.nil_subset _) rfl
      ⟨habsent, h₁.beside _ h.mem_paths h.not_mem_journal⟩
  | true =>
    -- The journal grows only once the move has its effect.
    refine ends_bind (ends_rename h₁.separate ha (asidePath_mem_touched h.mem_paths)
      asidePath_ne_self.symm h₁.clear (fun w₂ hreach₂ hmoved _ => ?_)
      fun e w₂ _ hreach₂ => ⟨_, hreach₁.trans hreach₂, fun p hp => ?_⟩)
    · have hreach := hreach₁.trans hreach₂
      refine ends_pure ⟨hreach, h.record hreach (List.Subset.refl _) rfl ?_,
        fun hf => by simp at hf⟩
      exact hmoved.trans ((h₁.kept _ h.mem_paths h.not_mem_journal))
    · rw [rollbackFailed_singleton_iff]
      rintro (hcall | hcall)
      · exact asidePath_ne h.separate h.mem_paths hp (Call.rename.inj hcall).1.symm
      · exact Call.noConfusion hcall

/-- The staged file is moved to its place, for which there is a step. -/
theorem Midway.ends_place (h : Midway below paths old (step :: journal) rest w)
    (hpath : step.path = p) (ha : p ∈ paths) :
    Ends (Host.rename (stagedPath p) p) w
      (fun _ w' => Reaches below (touched paths) [] [stagedPath p, p] w w' ∧
        w'.look below p = w.look below (stagedPath p) ∧ w'.look below (stagedPath p) = .absent ∧
        Midway below paths old (step :: journal) rest w')
      (fun _ w' => ∃ call, Reaches below (touched paths) [call] [] w w' ∧
        ∀ p ∈ paths, ¬ RollbackFailed [call] p) := by
  subst hpath
  refine ends_rename h.separate (stagedPath_mem_touched ha) (self_mem_touched ha)
    stagedPath_ne_self h.clear (fun w' hreach hmoved hgone => ⟨hreach, hmoved, hgone, ?_⟩)
    fun e w' _ hreach => ⟨_, hreach, fun p hp => ?_⟩
  · -- The move changes a path that has a step, and no other staged file nor one moved aside.
    refine h.of_reaches hreach (fun p hp hmem => ?_) (fun b hb hmem => ?_) fun q hq hmem => ?_
    · rcases List.mem_pair.1 hmem with heq | heq
      · exact absurd heq.symm (stagedPath_ne h.separate hp ha)
      · exact heq ▸ List.mem_cons_self
    · rcases List.mem_pair.1 hmem with heq | heq
      · exact (List.nodup_cons.1 h.nodup).1 (List.mem_append_right _
          (List.mem_map.2 ⟨b, hb, stagedPath_injective heq⟩))
      · exact stagedPath_ne h.separate ha (h.staged b hb).1 heq
    · rcases List.mem_pair.1 hmem with heq | heq
      · exact stagedPath_ne_asidePath heq.symm
      · exact asidePath_ne h.separate ha hq heq
  · rw [rollbackFailed_singleton_iff]
    rintro (hcall | hcall)
    · exact stagedPath_ne_asidePath (Call.rename.inj hcall).1
    · exact Call.noConfusion hcall

/-- One file is moved into place, and there is a step for it; or every place is put back. -/
theorem Midway.ends_step {returns : Journal → World → Prop}
    (h : Midway below paths old journal (a :: rest) w)
    (hnext : ∀ step w', step.path = a.path → Midway below paths old (step :: journal) rest w' →
      Reaches below (touched paths) [] (siblings a.path) w w' →
      w'.look below a.path = .ofFile below a.content ∧
        w'.look below (stagedPath a.path) = .absent →
      Ends (moveIntoPlace (paths.map stagedPath) (step :: journal) rest) w' returns
        (GivenUp below paths old w')) :
    Ends (moveIntoPlace (paths.map stagedPath) journal (a :: rest)) w returns
      (GivenUp below paths old w) := by
  have hstaged : stagedPath a.path ∉ [a.path, asidePath a.path] := by
    simp [stagedPath_ne_self, stagedPath_ne_asidePath]
  -- Until the staged file is in its place, the journal is that of a file that is still to be moved
  -- unless something was moved aside.
  have hplace {w₁ : World} {step : UndoStep} {journal₀ : Journal} {rest₀ : List GeneratedFile}
      (hpath : step.path = a.path)
      (hreach₁ : Reaches below (touched paths) [] [a.path, asidePath a.path] w w₁)
      (h₀ : Midway below paths old journal₀ rest₀ w₁)
      (h₁ : Midway below paths old (step :: journal) rest w₁) :
      Ends (do
          tryCatch (Host.rename (stagedPath a.path) a.path)
            (abandonInstall (paths.map stagedPath) journal₀ a.path)
          moveIntoPlace (paths.map stagedPath) (step :: journal) rest) w₁ returns
        (GivenUp below paths old w) := by
    refine ends_bind (ends_tryCatch ((h₁.ends_place hpath h.mem_paths).imp ?_ ?_))
    · rintro - w₂ ⟨hreach₂, hplaced, hgone, h₂⟩
      have hreach := hreach₁.trans hreach₂
      refine (hnext step w₂ hpath h₂ (hreach.mono (by simp [siblings])) ⟨?_, hgone⟩).imp
        (fun _ _ => id) fun _ _ hup => hup.of_reaches hreach
      rw [hplaced, hreach₁.same _ (stagedPath_mem_touched h.mem_paths) hstaged]
      exact (h.staged a List.mem_cons_self).2
    · rintro e w₂ ⟨call, hreach₂, hcall⟩
      exact (h₀.ends_abandonInstall hreach₂ hcall).imp (fun _ _ => id)
        fun _ _ hup => hup.of_reaches hreach₁
  rw [moveIntoPlace]
  refine ends_bind (ends_tryCatch (h.ends_setAside.imp ?_ ?_))
  · rintro replaced w₁ ⟨hreach₁, h₁, hfresh⟩
    cases replaced with
    | true => exact hplace rfl hreach₁ h₁ h₁
    | false => exact hplace rfl hreach₁ (hfresh rfl) h₁
  · rintro e w₁ ⟨call, hreach₁, hcall⟩
    exact h.ends_abandonInstall hreach₁ hcall

/-- All files are moved into place and there is a step for each of them, or every place is put
    back. -/
theorem Midway.ends_moveIntoPlace (h : Midway below paths old journal rest w) :
    Ends (moveIntoPlace (paths.map stagedPath) journal rest) w
      (fun journal' w' => Midway below paths old journal' [] w' ∧
        journal.map UndoStep.path ++ rest.map (·.path) ⊆ journal'.map UndoStep.path ∧
        Reaches below (touched paths) [] (touched (rest.map (·.path))) w w' ∧
        ∀ a ∈ rest, w'.look below a.path = .ofFile below a.content ∧
          w'.look below (stagedPath a.path) = .absent)
      (GivenUp below paths old w) := by
  induction rest generalizing journal w with
  | nil =>
    exact ends_pure ⟨h, by simp, .refl w, fun _ hmem => absurd hmem List.not_mem_nil⟩
  | cons a rest ih =>
    -- No later file touches the place, nor what is beside it.
    have hlater {x : String} (hx : x ∈ siblings a.path) : x ∉ touched (rest.map (·.path)) := by
      intro hmem
      obtain ⟨q, hq, hmem⟩ := List.mem_flatMap.1 hmem
      obtain ⟨b, hb, rfl⟩ := List.mem_map.1 hq
      exact disjoint_siblings h.separate h.mem_paths (h.staged b (List.mem_cons_of_mem a hb)).1
        (h.ne_of_mem_rest hb).symm hx hmem
    refine h.ends_step fun step w₁ hpath h₁ hreach₁ hplaced => (ih h₁).imp ?_ fun _ _ => id
    rintro journal' w₂ ⟨h₂, hcovered, hreach₂, hrest⟩
    refine ⟨h₂, ?_, hreach₁.trans hreach₂, fun b hb => ?_⟩
    · rw [List.map_cons, hpath] at hcovered
      exact List.Subset.trans List.perm_middle.subset hcovered
    rcases List.mem_cons.1 hb with rfl | hb
    · rw [hreach₂.same _ (self_mem_touched h.mem_paths) (hlater (by simp [siblings])),
        hreach₂.same _ (stagedPath_mem_touched h.mem_paths) (hlater (by simp [siblings]))]
      exact hplaced
    · exact hrest b hb

end Moving

/-! ### Installing -/

section Installing

variable {files : List GeneratedFile} {w w' : World}

theorem Journal.mem_backups_iff {journal : Journal} {x : String} :
    x ∈ journal.backups ↔ ∃ path, .restore path ∈ journal ∧ x = asidePath path := by
  simp only [Journal.backups, List.mem_filterMap, List.mem_reverse]
  constructor
  · rintro ⟨step, hstep, hx⟩
    cases step with
    | restore path => exact ⟨path, hstep, (Option.some.inj hx).symm⟩
    | discard path => simp at hx
  · rintro ⟨path, hstep, rfl⟩
    exact ⟨_, hstep, rfl⟩

theorem Journal.backups_subset {journal : Journal}
    (hjournal : ∀ step ∈ journal, step.path ∈ paths) :
    journal.backups ⊆ touched paths := by
  intro x hx
  obtain ⟨p, hstep, rfl⟩ := mem_backups_iff.1 hx
  exact asidePath_mem_touched (hjournal _ hstep)

/-- What was moved aside lies at no place. -/
theorem ends_removeBackups {journal : Journal} (below : Location)
    (hseparate : Separate w.workingDirectory (touched paths))
    (hjournal : ∀ step ∈ journal, step.path ∈ paths) :
    Ends (removeEach journal.backups) w
      (fun _ w' => Reaches below (touched paths) [] journal.backups w w' ∧
        ∀ p ∈ paths, w'.look below p = w.look below p)
      (fun _ w' => (∃ p ∈ paths,
          Reaches below (touched paths) [.remove (asidePath p)] journal.backups w w') ∧
        ∀ p ∈ paths, w'.look below p = w.look below p) := by
  have hbackups : ∀ x ∈ journal.backups, ∃ p ∈ paths, x = asidePath p := by
    intro x hx
    obtain ⟨p, hstep, rfl⟩ := Journal.mem_backups_iff.1 hx
    exact ⟨p, hjournal _ hstep, rfl⟩
  have hsame {lost : List Call} {w' : World}
      (hreach : Reaches below (touched paths) lost journal.backups w w') :
      ∀ p ∈ paths, w'.look below p = w.look below p := by
    refine fun p hp => hreach.same p (self_mem_touched hp) fun hmem => ?_
    obtain ⟨q, hq, heq⟩ := hbackups p hmem
    exact asidePath_ne hseparate hp hq heq.symm
  refine (ends_removeEach below hseparate (Journal.backups_subset hjournal)).imp
    (fun _ w' hreach => ⟨hreach, hsame hreach⟩) ?_
  rintro e w' ⟨-, x, hx, hreach⟩
  obtain ⟨p, hp, rfl⟩ := hbackups x hx
  exact ⟨⟨p, hp, hreach⟩, hsame hreach⟩

theorem map_stagedPath (files : List GeneratedFile) :
    (files.map fun a => stagedPath a.path) = (files.map (·.path)).map stagedPath := by
  rw [List.map_map]
  rfl

/-- When all files are staged, nothing is to be undone yet. -/
theorem Midway.of_staged {below : Location}
    (hseparate : Separate w.workingDirectory (touched (files.map (·.path))))
    (hclear : ∀ q ∈ touched (files.map (·.path)), (w.look below q).Clear below)
    (hreach : Reaches below (touched (files.map (·.path))) []
      ((files.map (·.path)).map stagedPath) w w')
    (hstaged : ∀ a ∈ files, w'.look below (stagedPath a.path) = .ofFile below a.content) :
    Midway below (files.map (·.path)) (w.look below) [] files w' where
  separate := hreach.workingDirectory ▸ hseparate
  clear := hreach.clear hclear
  ready _ h := absurd h List.not_mem_nil
  kept p hp _ := hreach.same p (self_mem_touched hp) (not_mem_stagedPaths hseparate hp)
  beside _ hp _ := hreach.same _ (asidePath_mem_touched hp) asidePath_not_mem_stagedPaths
  staged a ha := ⟨List.mem_map_of_mem ha, hstaged a ha⟩
  nodup := nodup_paths hseparate

/-- All files are in place when the installation ends, or every place is put back. -/
theorem ends_install (below : Location)
    (hseparate : Separate w.workingDirectory (touched (files.map (·.path))))
    (hclear : ∀ q ∈ touched (files.map (·.path)), (w.look below q).Clear below) :
    Ends (install files) w
      (fun places w' => places = files.map (·.path) ∧ w'.workingDirectory = w.workingDirectory ∧
        ∀ a ∈ files, w'.look below a.path = .ofFile below a.content)
      (fun e w' => ∃ lost changed,
        Reaches below (touched (files.map (·.path))) lost changed w w' ∧
          (((∃ a ∈ files, lost = [.remove (asidePath a.path)]) ∧
              ∀ a ∈ files, w'.look below a.path = .ofFile below a.content) ∨
            PutBack below (files.map (·.path)) (w.look below) lost e w')) := by
  have hfiles : ∀ a ∈ files, a.path ∈ files.map (·.path) := fun a ha => List.mem_map_of_mem ha
  rw [install, map_stagedPath]
  refine ends_bind ((ends_stage hseparate hclear hfiles (nodup_paths hseparate)
    (List.nil_subset _)).imp ?_ ?_)
  · rintro - w₁ ⟨hreach₁, hstaged⟩
    rw [map_stagedPath] at hreach₁
    refine ends_bind ((Midway.of_staged hseparate hclear hreach₁ hstaged).ends_moveIntoPlace.imp
      ?_ ?_)
    · rintro journal w₂ ⟨h₂, -, hreach₂, hplaced⟩
      have hreach := hreach₁.trans hreach₂
      refine ends_bind ((ends_removeBackups below h₂.separate
        fun step hstep => (h₂.ready step hstep).1).imp ?_ ?_)
      · rintro - w₃ ⟨hreach₃, hsame⟩
        refine ends_pure ⟨rfl, (hreach.trans hreach₃).workingDirectory, fun a ha => ?_⟩
        rw [hsame _ (hfiles a ha), (hplaced a ha).1]
      · rintro e w₃ ⟨⟨p, hp, hreach₃⟩, hsame⟩
        obtain ⟨a, ha, rfl⟩ := List.mem_map.1 hp
        refine ⟨_, _, hreach.trans hreach₃, .inl ⟨⟨a, ha, rfl⟩, fun b hb => ?_⟩⟩
        rw [hsame _ (hfiles b hb), (hplaced b hb).1]
    · rintro e w₂ ⟨lost, changed, hreach₂, hback, -⟩
      exact ⟨lost, _, hreach₁.trans hreach₂, .inr hback⟩
  · rintro e w₁ ⟨hnone, lost, hreach, -⟩
    refine ⟨lost, _, hreach, .inr ⟨fun p hp => .inr ?_, fun _ _ _ he => absurd he (hnone _ _ _)⟩⟩
    exact hreach.same p (self_mem_touched hp) (not_mem_stagedPaths hseparate hp)

/-! ### Atomicity -/

/-- A file is at its place. -/
def InPlace (workingDirectory : String) (t : FileTree) (a : GeneratedFile) : Prop :=
  t.node? (Path.location workingDirectory a.path) = some (.file a.content)

/-- A path leads to the same in both trees, and so does every path into it if the first tree is one
    of files and directories. -/
def Unchanged (workingDirectory : String) (t t' : FileTree) (path : String) : Prop :=
  t'.node? (Path.location workingDirectory path) =
      t.node? (Path.location workingDirectory path) ∧
    (t.WellFormed → ∀ below, t'.node? (Path.location workingDirectory path ++ below) =
      t.node? (Path.location workingDirectory path ++ below))

theorem inPlace_of_look {below : Location} {a : GeneratedFile}
    (hdirectory : w'.workingDirectory = w.workingDirectory)
    (h : w'.look below a.path = .ofFile below a.content) :
    InPlace w.workingDirectory w'.tree a := by
  rw [InPlace, ← view_here below, ← hdirectory, ← World.look, h, View.ofFile]

/-- An installation is atomic, whichever of its calls have no effect: if it returns, every file is
    in its place. If it fails, either every file is in its place nevertheless, and all that failed is
    the removal of a file that was moved aside; or every place is as it was, unless the very call
    failed that puts it back, and a failure to install names the places of which this is so.

    The places may be anywhere in any tree, as long as neither they nor their siblings lie in one
    another. -/
theorem install_is_atomic (files : List GeneratedFile) (w : World)
    (hseparate : Separate w.workingDirectory (touched (files.map (·.path)))) :
    Ends (install files) w
      (fun places w' => places = files.map (·.path) ∧
        ∀ a ∈ files, InPlace w.workingDirectory w'.tree a)
      (fun e w' => ∃ lost, w'.failed = w.failed ++ lost ∧
        (((∃ a ∈ files, lost = [.remove (asidePath a.path)]) ∧
            ∀ a ∈ files, InPlace w.workingDirectory w'.tree a) ∨
          (∀ a ∈ files, RollbackFailed lost a.path ∨
              Unchanged w.workingDirectory w.tree w'.tree a.path) ∧
            Reports (files.map (·.path)) lost e)) := by
  have hends (below : Location) := ends_install below hseparate
  simp only [Ends] at hends ⊢
  generalize (install files : Sandbox (List String)).run.run w = ended at hends ⊢
  obtain ⟨e | places, w'⟩ := ended
  · obtain ⟨lost, changed, hreach, -⟩ := hends [] fun _ _ => clear_nil _
    refine ⟨lost, hreach.failed, ?_⟩
    by_cases hplaced : (∃ a ∈ files, lost = [.remove (asidePath a.path)]) ∧
        ∀ a ∈ files, InPlace w.workingDirectory w'.tree a
    · exact .inl hplaced
    -- The calls that failed are the same for all locations below.
    have hback : ∀ below, (∀ q ∈ touched (files.map (·.path)), (w.look below q).Clear below) →
        (∀ p ∈ files.map (·.path), RollbackFailed lost p ∨ w'.look below p = w.look below p) ∧
          Reports (files.map (·.path)) lost e := by
      intro below hclear
      obtain ⟨lost', changed', hreach', hended⟩ := hends below hclear
      have hlost : lost' = lost := List.append_cancel_left (hreach'.failed.symm.trans hreach.failed)
      subst hlost
      refine hended.resolve_left fun h => hplaced ⟨h.1, fun a ha => ?_⟩
      exact inPlace_of_look hreach.workingDirectory (h.2 a ha)
    refine .inr ⟨fun a ha => ?_, (hback [] fun _ _ => clear_nil _).2⟩
    by_cases hfailed : RollbackFailed lost a.path
    · exact .inl hfailed
    have hsame (below : Location)
        (hclear : ∀ q ∈ touched (files.map (·.path)), (w.look below q).Clear below) :
        w'.tree.view below (Path.location w.workingDirectory a.path) =
          w.tree.view below (Path.location w.workingDirectory a.path) := by
      have hlook := ((hback below hclear).1 a.path (List.mem_map_of_mem ha)).resolve_left hfailed
      rwa [World.look, World.look, hreach.workingDirectory] at hlook
    refine .inr ⟨?_, fun hwell below => ?_⟩
    · rw [← view_here [], ← view_here [], hsame [] fun _ _ => clear_nil _]
    · rw [← view_below, ← view_below, hsame below fun _ _ => clear_of_wellFormed hwell below _]
  · obtain ⟨hplaces, hdirectory, hplaced⟩ := hends [] fun _ _ => clear_nil _
    exact ⟨hplaces, fun a ha => inPlace_of_look hdirectory (hplaced a ha)⟩

end Installing

namespace Sample

/-- Two generated files. -/
def files : List GeneratedFile :=
  [⟨.markers, "out/markers.rs", "new markers"⟩, ⟨.dispatcher, "out/dispatcher.rs", "new dispatcher"⟩]

-- Irreducible, so that a run on this host is evaluated only where it is asked for.
/-- A host with an earlier version of the first file, on which the second one cannot be moved into
    place, nor the first one moved back. -/
@[irreducible] def world : World where
  tree := FileTree.empty.store ["work", "out", "markers.rs"] "old markers"
  workingDirectory := "/work"
  schedule _ call :=
    if call = .rename "out/dispatcher.rs.tmp" "out/dispatcher.rs" ∨
        call = .rename "out/markers.rs.bak" "out/markers.rs" then some (.error "interrupted")
    else none

theorem separate_files : Separate world.workingDirectory (touched (files.map (·.path))) := by
  decide +kernel

theorem failed_world : world.failed = [] := by
  rw [world]

theorem ended_install :
    ((install files : Sandbox (List String)).run.run world).1 =
        .error (.problem (.installFailed "out/dispatcher.rs" "interrupted"
          [("out/markers.rs", "interrupted")])) ∧
      ((install files : Sandbox (List String)).run.run world).2.failed =
        [.rename "out/dispatcher.rs.tmp" "out/dispatcher.rs",
          .rename "out/markers.rs.bak" "out/markers.rs"] := by
  decide +kernel

end Sample

/-- When the second file cannot be moved into place and the first one not back, the place of the
    second one is as it was, and the first one is reported. -/
theorem install_is_atomic_when_interrupted :
    Separate Sample.world.workingDirectory (touched (Sample.files.map (·.path))) ∧
      ((install Sample.files : Sandbox (List String)).run.run Sample.world).1 =
        .error (.problem (.installFailed "out/dispatcher.rs" "interrupted"
          [("out/markers.rs", "interrupted")])) ∧
      Unchanged Sample.world.workingDirectory Sample.world.tree
        ((install Sample.files : Sandbox (List String)).run.run Sample.world).2.tree
        "out/dispatcher.rs" := by
  obtain ⟨herror, hfailed⟩ := Sample.ended_install
  refine ⟨Sample.separate_files, herror, ?_⟩
  obtain ⟨lost, hlost, hended⟩ := (install_is_atomic Sample.files Sample.world
    Sample.separate_files).fails_of_run herror
  rw [hfailed, Sample.failed_world, List.nil_append] at hlost
  subst hlost
  rcases hended with ⟨⟨a, -, hremove⟩, -⟩ | ⟨hback, -⟩
  · simp at hremove
  · have hdispatcher := hback ⟨.dispatcher, "out/dispatcher.rs", "new dispatcher"⟩
      (by simp [Sample.files])
    refine hdispatcher.resolve_left ?_
    simp [RollbackFailed, asidePath]

end NodeTagging.Installation
