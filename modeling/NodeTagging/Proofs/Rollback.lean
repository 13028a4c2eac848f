import Mathlib.Data.List.Nodup
import NodeTagging.Installation
import NodeTagging.Proofs.Outcome

/-!
# Undoing a journal

A journal is undone step by step, newest first. A step that fails is passed over and its path is
reported; every other step puts its path back as it was, whatever becomes of the steps after it
(`ends_undo`). So the reported paths are those of the steps that failed, which can be told from the
calls that had no effect (`rollbackFailed_calls_iff`).
-/

namespace NodeTagging.Installation

open FileTree Sandbox

/-! ### Paths -/

/-- The paths that installing a file touches: its own and those of its siblings. -/
def siblings (path : String) : List String :=
  [path, stagedPath path, asidePath path]

/-- The paths that installing files at the given paths touches. -/
def touched (paths : List String) : List String :=
  paths.flatMap siblings

variable {paths : List String} {p q workingDirectory : String}

theorem self_mem_touched (h : p ∈ paths) : p ∈ touched paths :=
  List.mem_flatMap.2 ⟨p, h, by simp [siblings]⟩

theorem stagedPath_mem_touched (h : p ∈ paths) : stagedPath p ∈ touched paths :=
  List.mem_flatMap.2 ⟨p, h, by simp [siblings]⟩

theorem asidePath_mem_touched (h : p ∈ paths) : asidePath p ∈ touched paths :=
  List.mem_flatMap.2 ⟨p, h, by simp [siblings]⟩

theorem stagedPath_injective (h : stagedPath p = stagedPath q) : p = q :=
  String.append_left_inj _ |>.1 h

theorem asidePath_injective (h : asidePath p = asidePath q) : p = q :=
  String.append_left_inj _ |>.1 h

theorem stagedPath_ne_asidePath : stagedPath p ≠ asidePath q := by
  intro h
  -- The one ends with a `p`, the other with a `k`.
  have hlast := congrArg (fun s => s.toList.getLast?) h
  simp [stagedPath, asidePath] at hlast

theorem stagedPath_ne_self : stagedPath p ≠ p := by
  intro h
  have hlength := congrArg String.length h
  simp [stagedPath] at hlength

theorem asidePath_ne_self : asidePath p ≠ p := by
  intro h
  have hlength := congrArg String.length h
  simp [asidePath] at hlength

section Separate

variable (hseparate : Separate workingDirectory (touched paths))

include hseparate

theorem nodup_touched : (touched paths).Nodup :=
  hseparate.imp fun hapart heq => hapart.ne (congrArg (Path.location workingDirectory) heq)

theorem nodup_paths : paths.Nodup := by
  have hacross := (List.nodup_flatMap.1 (nodup_touched hseparate)).2
  refine hacross.imp fun hdisjoint heq => ?_
  subst heq
  exact hdisjoint List.mem_cons_self List.mem_cons_self

/-- No two paths have a sibling in common. -/
theorem disjoint_siblings (hp : p ∈ paths) (hq : q ∈ paths) (hne : p ≠ q) :
    (siblings p).Disjoint (siblings q) := by
  have hacross : paths.Pairwise fun p q => (siblings p).Disjoint (siblings q) :=
    (List.nodup_flatMap.1 (nodup_touched hseparate)).2
  have : Std.Symm fun p q => (siblings p).Disjoint (siblings q) :=
    ⟨fun _ _ h _ hp hq => h hq hp⟩
  exact List.Pairwise.forall hacross hp hq hne

/-- No path is a sibling of another one. -/
theorem ne_of_mem_siblings (hp : p ∈ paths) (hq : q ∈ paths) (hne : p ≠ q) {x : String}
    (hx : x ∈ siblings q) : x ≠ p := by
  rintro rfl
  exact disjoint_siblings hseparate hp hq hne List.mem_cons_self hx

theorem stagedPath_ne (hp : p ∈ paths) (hq : q ∈ paths) : stagedPath q ≠ p := by
  by_cases hne : p = q
  · rw [hne]
    exact stagedPath_ne_self
  · exact ne_of_mem_siblings hseparate hp hq hne (by simp [siblings])

theorem asidePath_ne (hp : p ∈ paths) (hq : q ∈ paths) : asidePath q ≠ p := by
  by_cases hne : p = q
  · rw [hne]
    exact asidePath_ne_self
  · exact ne_of_mem_siblings hseparate hp hq hne (by simp [siblings])

end Separate

/-! ### Steps -/

/-- The call that a step makes. -/
def UndoStep.call : UndoStep → Call
  | .restore path => .rename (asidePath path) path
  | .discard path => .remove path

/-- The call that puts a path back is among the given calls. -/
def RollbackFailed (lost : List Call) (path : String) : Prop :=
  .rename (asidePath path) path ∈ lost ∨ .remove path ∈ lost

theorem rollbackFailed_calls_iff {stuck : List UndoStep} :
    RollbackFailed (stuck.map UndoStep.call) p ↔ p ∈ stuck.map UndoStep.path := by
  constructor
  · rintro (h | h)
    · obtain ⟨step, hstep, hcall⟩ := List.mem_map.1 h
      refine List.mem_map.2 ⟨step, hstep, ?_⟩
      cases step with
      | restore path => exact (Call.rename.inj hcall).2
      | discard path => simp [UndoStep.call] at hcall
    · obtain ⟨step, hstep, hcall⟩ := List.mem_map.1 h
      refine List.mem_map.2 ⟨step, hstep, ?_⟩
      cases step with
      | restore path => simp [UndoStep.call] at hcall
      | discard path => exact Call.remove.inj hcall
  · intro h
    obtain ⟨step, hstep, rfl⟩ := List.mem_map.1 h
    cases step with
    | restore path => exact .inl (List.mem_map_of_mem hstep)
    | discard path => exact .inr (List.mem_map_of_mem hstep)

section Undo

variable {below : Location} {w : World} {old : String → View}

/-- A step puts its path back if it is performed: what is to be moved back is what was there, and
    where a new file is to be removed there was nothing, so nothing was moved aside either. -/
def UndoStep.Ready (below : Location) (old : String → View) (w : World) : UndoStep → Prop
  | .restore path => w.look below (asidePath path) = old path
  | .discard path => old path = .absent ∧ w.look below (asidePath path) = old (asidePath path)

/-- A path is as it was, and nothing is left of what was moved aside from it. -/
structure PutBackAt (below : Location) (old : String → View) (w : World) (path : String) :
    Prop where
  /-- The path is as it was. -/
  self : w.look below path = old path
  /-- The path for what is moved aside is as it was, or nothing is there. -/
  aside : w.look below (asidePath path) = .absent ∨
    w.look below (asidePath path) = old (asidePath path)

/-- A step puts its path back, or it fails and has no effect. -/
theorem ends_perform_step {step : UndoStep}
    (hseparate : Separate w.workingDirectory (touched paths))
    (hclear : ∀ q ∈ touched paths, (w.look below q).Clear below) (hstep : step.path ∈ paths)
    (hready : step.Ready below old w) :
    Ends step.perform w
      (fun _ w' => Reaches below (touched paths) [] [step.path, asidePath step.path] w w' ∧
        PutBackAt below old w' step.path)
      (fun _ w' => Reaches below (touched paths) [step.call] [] w w') := by
  have hself := self_mem_touched hstep
  cases step with
  | restore path =>
    refine ends_rename hseparate (asidePath_mem_touched hstep) hself asidePath_ne_self hclear
      (fun w' hreach hmoved hgone => ⟨hreach.mono (by simp [UndoStep.path]), ?_, .inl hgone⟩)
      fun _ _ _ hreach => hreach
    exact hmoved.trans hready
  | discard path =>
    refine ends_remove hseparate hself
      (fun w' hreach hgone => ⟨hreach.mono (by simp [UndoStep.path]), ?_, .inr ?_⟩)
      fun _ _ _ hreach => hreach
    · exact (hgone (hclear path hself)).trans hready.1.symm
    · rw [hreach.same _ (asidePath_mem_touched hstep)
        (List.mem_singleton.not.2 asidePath_ne_self)]
      exact hready.2

/-- A step that fails is passed over, and its path is reported. -/
theorem ends_attempt {step : UndoStep} (hseparate : Separate w.workingDirectory (touched paths))
    (hclear : ∀ q ∈ touched paths, (w.look below q).Clear below) (hstep : step.path ∈ paths)
    (hready : step.Ready below old w) :
    Ends (tryCatch (do step.perform; pure []) fun e => pure [(step.path, e.reason)]) w
      (fun reported w' =>
        (reported = [] ∧ PutBackAt below old w' step.path ∧
          Reaches below (touched paths) [] [step.path, asidePath step.path] w w') ∨
        ((∃ reason, reported = [(step.path, reason)]) ∧
          Reaches below (touched paths) [step.call] [] w w'))
      (fun _ _ => False) := by
  refine ends_tryCatch (ends_bind ((ends_perform_step hseparate hclear hstep hready).imp ?_ ?_))
  · rintro - w' ⟨hreach, hback⟩
    exact ends_pure (.inl ⟨rfl, hback, hreach⟩)
  · intro e w' hreach
    exact ends_pure (.inr ⟨⟨e.reason, rfl⟩, hreach⟩)

/-- The paths whose views a journal changes when it is undone. -/
def Journal.changed (journal : Journal) : List String :=
  journal.flatMap fun step => [step.path, asidePath step.path]

/-- A path that no step of a journal is about keeps its view, and so does what was moved aside from
    it. -/
theorem Journal.not_mem_changed (hseparate : Separate workingDirectory (touched paths))
    {journal : Journal} (hjournal : ∀ step ∈ journal, step.path ∈ paths) (hp : p ∈ paths)
    (hnot : p ∉ journal.map UndoStep.path) :
    p ∉ Journal.changed journal ∧ asidePath p ∉ Journal.changed journal := by
  have hother {step : UndoStep} (hstep : step ∈ journal) : p ≠ step.path := by
    rintro rfl
    exact hnot (List.mem_map_of_mem hstep)
  constructor
  · intro hmem
    obtain ⟨step, hstep, hmem⟩ := List.mem_flatMap.1 hmem
    rcases List.mem_pair.1 hmem with heq | heq
    · exact hother hstep heq
    · exact asidePath_ne hseparate hp (hjournal step hstep) heq.symm
  · intro hmem
    obtain ⟨step, hstep, hmem⟩ := List.mem_flatMap.1 hmem
    rcases List.mem_pair.1 hmem with heq | heq
    · exact asidePath_ne hseparate (hjournal step hstep) hp heq
    · exact hother hstep (asidePath_injective heq)

/-- Other steps stay ready. -/
theorem UndoStep.Ready.of_reaches {lost : List Call} {changed : List String} {w' : World}
    {step : UndoStep} (h : step.Ready below old w)
    (hreach : Reaches below (touched paths) lost changed w w') (hstep : step.path ∈ paths)
    (haside : asidePath step.path ∉ changed) : step.Ready below old w' := by
  have hsame := hreach.same (asidePath step.path) (asidePath_mem_touched hstep) haside
  cases step with
  | restore path => exact hsame.trans h
  | discard path => exact ⟨h.1, hsame.trans h.2⟩

/-- What is put back stays so. -/
theorem PutBackAt.of_reaches {lost : List Call} {changed : List String} {w' : World}
    (h : PutBackAt below old w p) (hreach : Reaches below (touched paths) lost changed w w')
    (hp : p ∈ paths) (hself : p ∉ changed) (haside : asidePath p ∉ changed) :
    PutBackAt below old w' p where
  self := (hreach.same p (self_mem_touched hp) hself).trans h.self
  aside := by
    rw [hreach.same (asidePath p) (asidePath_mem_touched hp) haside]
    exact h.aside

/-- A journal of steps that are ready is undone to its end. The reported paths are those of some
    *stuck* steps, which had no effect; every other step has put its path back. -/
theorem ends_undo {journal : Journal} (hseparate : Separate w.workingDirectory (touched paths))
    (hclear : ∀ q ∈ touched paths, (w.look below q).Clear below)
    (hjournal : ∀ step ∈ journal, step.path ∈ paths) (hnodup : (journal.map UndoStep.path).Nodup)
    (hready : ∀ step ∈ journal, step.Ready below old w) :
    Ends (undo journal) w
      (fun reported w' => ∃ stuck : List UndoStep, stuck ⊆ journal ∧
        reported.map Prod.fst = stuck.map UndoStep.path ∧
        Reaches below (touched paths) (stuck.map UndoStep.call) (Journal.changed journal) w w' ∧
        ∀ step ∈ journal, step ∉ stuck → PutBackAt below old w' step.path)
      (fun _ _ => False) := by
  induction journal generalizing w with
  | nil =>
    exact ends_pure ⟨[], List.Subset.refl [], rfl, .refl w, fun _ h => absurd h List.not_mem_nil⟩
  | cons step earlier ih =>
    have hstep := hjournal step List.mem_cons_self
    have hearlier : ∀ s ∈ earlier, s.path ∈ paths :=
      fun s hs => hjournal s (List.mem_cons_of_mem step hs)
    obtain ⟨hnew, hnodup⟩ := List.nodup_cons.1 hnodup
    -- What a step has changed is of no concern to the steps before it.
    have hother : ∀ s ∈ earlier, asidePath s.path ∉ [step.path, asidePath step.path] := by
      intro s hs hmem
      rcases List.mem_pair.1 hmem with heq | heq
      · exact asidePath_ne hseparate hstep (hearlier s hs) heq
      · exact hnew (asidePath_injective heq ▸ List.mem_map_of_mem hs)
    have hrest {w' : World} {lost : List Call} {changed : List String}
        (hreach : Reaches below (touched paths) lost changed w w')
        (hchanged : changed ⊆ [step.path, asidePath step.path]) :=
      ih (hreach.workingDirectory ▸ hseparate) (hreach.clear hclear) hearlier hnodup
        fun s hs => (hready s (List.mem_cons_of_mem step hs)).of_reaches hreach (hearlier s hs)
          fun hmem => hother s hs (hchanged hmem)
    rw [undo]
    refine ends_bind ((ends_attempt hseparate hclear hstep
      (hready step List.mem_cons_self)).imp ?_ fun _ _ => id)
    rintro reported w₁ (⟨rfl, hback, hreach⟩ | ⟨⟨reason, rfl⟩, hreach⟩)
    · -- The step has put its path back, and the steps before it are about other paths.
      refine ends_bind ((hrest hreach (List.Subset.refl _)).imp ?_ fun _ _ => id)
      rintro others w₂ ⟨stuck, hstuck, hothers, hreach', hback'⟩
      refine ends_pure ⟨stuck, List.subset_cons_of_subset step hstuck, hothers,
        hreach.trans hreach', fun s hs hfree => ?_⟩
      rcases List.mem_cons.1 hs with rfl | hs
      · have hkept := Journal.not_mem_changed hseparate hearlier hstep hnew
        exact hback.of_reaches hreach' hstep hkept.1 hkept.2
      · exact hback' s hs hfree
    · -- The step is stuck.
      refine ends_bind ((hrest hreach (List.nil_subset _)).imp ?_ fun _ _ => id)
      rintro others w₂ ⟨stuck, hstuck, hothers, hreach', hback'⟩
      refine ends_pure ⟨step :: stuck, List.cons_subset_cons step hstuck,
        congrArg (step.path :: ·) hothers,
        (hreach.trans hreach').mono (List.subset_append_right _ _), fun s hs hfree => ?_⟩
      obtain ⟨hne, hfree⟩ := not_or.1 (List.mem_cons.not.1 hfree)
      exact hback' s ((List.mem_cons.1 hs).resolve_left hne) hfree

end Undo

end NodeTagging.Installation
