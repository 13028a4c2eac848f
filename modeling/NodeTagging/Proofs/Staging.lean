import NodeTagging.Proofs.Places
import NodeTagging.Proofs.Rollback

/-!
# Files are staged beside their places

Staging touches no place. Its calls reach the paths beside the places, and directories on the way to
them, which no place is on (`not_prefix_directory`). So if it succeeds all files are staged, and if
it fails every place is as it was, and what was staged is removed again (`ends_stage`, `Swept`).
-/

namespace NodeTagging.Installation

open FileTree Sandbox

variable {paths : List String} {p q workingDirectory : String}

/-! ### Removing -/

section Removing

variable {tracked doomed : List String} {below : Location} {w : World}

/-- Files are removed up to the first that is not. -/
theorem ends_removeEach (below : Location) (hseparate : Separate w.workingDirectory tracked)
    (hdoomed : doomed ⊆ tracked) :
    Ends (removeEach doomed) w (fun _ w' => Reaches below tracked [] doomed w w')
      (fun e w' => Raw e ∧ ∃ p ∈ doomed, Reaches below tracked [.remove p] doomed w w') := by
  induction doomed generalizing w with
  | nil => exact ends_pure (.refl w)
  | cons p doomed ih =>
    obtain ⟨hp, hdoomed⟩ := List.cons_subset.1 hdoomed
    rw [removeEach]
    refine ends_bind (ends_remove hseparate hp
      (fun w₁ (hreach : Reaches below tracked [] [p] w w₁) _ => ?_) fun e w₁ hraw hreach => ?_)
    · refine (ih (hreach.workingDirectory ▸ hseparate) hdoomed).imp ?_ ?_
      · exact fun _ w₂ hrest => hreach.trans hrest
      · rintro e w₂ ⟨hraw, q, hq, hrest⟩
        exact ⟨hraw, q, List.mem_cons_of_mem p hq, hreach.trans hrest⟩
    · exact ⟨hraw, p, List.mem_cons_self, hreach.mono (by simp)⟩

/-- If all files are removed, nothing is left of them, and none of them was a directory. -/
theorem ends_removeEach_absent (hseparate : Separate w.workingDirectory tracked)
    (hdoomed : doomed ⊆ tracked) (hclear : ∀ q ∈ tracked, (w.look below q).Clear below) :
    Ends (removeEach doomed) w
      (fun _ w' => ∀ p ∈ doomed,
        w'.look below p = .absent ∧ (w.look below p).here ≠ some .directory)
      fun _ _ => True := by
  induction doomed generalizing w with
  | nil => exact ends_pure fun _ h => absurd h List.not_mem_nil
  | cons p doomed ih =>
    obtain ⟨hp, hdoomed⟩ := List.cons_subset.1 hdoomed
    have hremove : Ends (Host.remove p) w
        (fun _ w₁ => Reaches below tracked [] [p] w w₁ ∧ w₁.look below p = .absent)
        fun _ _ => True :=
      ends_remove hseparate hp (fun w₁ hreach hgone => ⟨hreach, hgone (hclear p hp)⟩)
        fun _ _ _ _ => trivial
    rw [removeEach]
    refine ends_bind ((hremove.and (ends_remove_plain below)).imp ?_ fun _ _ _ => trivial)
    rintro - w₁ ⟨⟨hreach, hgone⟩, hplain⟩
    have hseparate₁ : Separate w₁.workingDirectory tracked := hreach.workingDirectory ▸ hseparate
    refine ((ends_removeEach below hseparate₁ hdoomed).and
      (ih hseparate₁ hdoomed (hreach.clear hclear))).imp ?_ fun _ _ _ => trivial
    rintro - w₂ ⟨hreach₂, hrest⟩ q hq
    -- A path may be removed twice, and then nothing is there the second time.
    by_cases hqp : q = p
    · subst hqp
      refine ⟨?_, hplain⟩
      by_cases hagain : q ∈ doomed
      · exact (hrest q hagain).1
      · rw [hreach₂.same q hp hagain, hgone]
    · obtain ⟨hgone', hplain'⟩ := hrest q ((List.mem_cons.1 hq).resolve_left hqp)
      have hqd : q ∈ tracked := hdoomed ((List.mem_cons.1 hq).resolve_left hqp)
      refine ⟨hgone', ?_⟩
      rwa [hreach.same q hqd (List.mem_singleton.not.2 hqp)] at hplain'

end Removing

/-! ### Staging -/

section Places

variable (hseparate : Separate workingDirectory (touched paths))

include hseparate

/-- A file lies right in its directory. -/
theorem exists_location_eq_directory (hp : p ∈ paths) : ∃ step,
    Path.location workingDirectory p =
      Path.location workingDirectory (Path.directory p) ++ [step] := by
  have hapart := hseparate.apart (self_mem_touched hp) (stagedPath_mem_touched hp)
    stagedPath_ne_self.symm
  exact Path.exists_location_eq (by decide) (by decide) hapart.1

theorem ne_empty (hp : p ∈ paths) : p ≠ "" := by
  rintro rfl
  obtain ⟨step, h⟩ := exists_location_eq_directory hseparate hp
  have hdirectory : Path.directory "" = "." := Path.directory_of_step List.not_mem_nil rfl
  have hsame : Path.location workingDirectory "." = Path.location workingDirectory "" := by
    have hdot : Path.rawSteps "." = ["."] := Path.rawSteps_of_not_mem (by decide)
    have hnone : Path.rawSteps "" = [""] := Path.rawSteps_of_not_mem (by decide)
    rw [Path.location_eq_foldl, Path.location_eq_foldl, hdot, hnone]
    rfl
  -- The location of the empty path would have one step more than itself.
  rw [hdirectory, hsame] at h
  simp at h

/-- No place is on the way to the directory of a file. -/
theorem not_prefix_directory (hp : p ∈ paths) (hq : q ∈ touched paths) :
    ¬ Path.location workingDirectory q <+:
      Path.location workingDirectory (Path.directory p) := by
  intro hprefix
  obtain ⟨step, h⟩ := exists_location_eq_directory hseparate hp
  by_cases hne : q = p
  · rw [hne, h] at hprefix
    have hlength := hprefix.length_le
    rw [List.length_append, List.length_singleton] at hlength
    omega
  · refine (hseparate.apart hq (self_mem_touched hp) hne).1 ?_
    rw [h]
    exact hprefix.trans (List.prefix_append _ _)

end Places

section Staging

variable {α : Type} {below : Location} {w w' : World} {staged : List String}

/-- The failure does not report which places were put back. -/
def NoReport (e : Failure) : Prop :=
  ∀ path reason unrestored, e ≠ .problem (.installFailed path reason unrestored)

theorem noReport_of_raw {e : Failure} (h : Raw e) : NoReport e :=
  fun _ _ _ => h _

theorem stagedPaths_subset : paths.map stagedPath ⊆ touched paths := by
  intro x hx
  obtain ⟨p, hp, rfl⟩ := List.mem_map.1 hx
  exact stagedPath_mem_touched hp

/-- Unless a staged file could not be removed, all of them are gone, and the other paths beside the
    places are as they were. -/
def Swept (below : Location) (paths staged : List String) (lost : List Call) (w w' : World) :
    Prop :=
  (∀ p ∈ paths, .remove (stagedPath p) ∉ lost) → ∀ x ∈ paths.map stagedPath,
    w'.look below x = .absent ∨ x ∉ staged ∧ w'.look below x = w.look below x

theorem Swept.mono {staged' : List String} {lost : List Call}
    (h : Swept below paths staged' lost w w') (hsub : staged ⊆ staged') :
    Swept below paths staged lost w w' :=
  fun hnone x hx => (h hnone x hx).imp_right fun ⟨hnot, hsame⟩ =>
    ⟨fun hmem => hnot (hsub hmem), hsame⟩

/-- After a failure no more than staged files was changed, and they are removed. -/
theorem ends_abandonStaging {returns : α → World → Prop} {e : Failure} {lost : List Call}
    (hseparate : Separate w.workingDirectory (touched paths))
    (hclear : ∀ q ∈ touched paths, (w.look below q).Clear below)
    (hstaged : staged ⊆ paths.map stagedPath)
    (hreach : Reaches below (touched paths) lost [] w w') :
    Ends (abandonStaging staged e) w' returns (fun e' w'' => NoReport e' ∧
      ∃ lost', Reaches below (touched paths) lost' (paths.map stagedPath) w w'' ∧
        Swept below paths staged lost' w w'') := by
  have hseparate' : Separate w'.workingDirectory (touched paths) :=
    hreach.workingDirectory ▸ hseparate
  have htouched : staged ⊆ touched paths := List.Subset.trans hstaged stagedPaths_subset
  refine ends_bind (((ends_removeEach below hseparate' htouched).and
    (ends_removeEach_absent hseparate' htouched (hreach.clear hclear))).imp ?_ ?_)
  · rintro _ w'' ⟨hreach', hgone⟩
    refine ends_throw ⟨fun _ _ _ h => by simp at h, _, (hreach.trans hreach').mono hstaged,
      fun _ x hx => ?_⟩
    by_cases hmem : x ∈ staged
    · exact .inl (hgone x hmem).1
    · exact .inr ⟨hmem, (hreach.trans hreach').same x (stagedPaths_subset hx) hmem⟩
  · rintro e w'' ⟨⟨hraw, x, hx, hreach'⟩, -⟩
    refine ⟨noReport_of_raw hraw, _, (hreach.trans hreach').mono hstaged, fun hnone => ?_⟩
    obtain ⟨p, hp, rfl⟩ := List.mem_map.1 (hstaged hx)
    exact absurd (List.mem_append_right _ (List.mem_singleton_self _)) (hnone p hp)

/-- All files are staged, or nothing else was changed. -/
theorem ends_stage {files : List GeneratedFile}
    (hseparate : Separate w.workingDirectory (touched paths))
    (hclear : ∀ q ∈ touched paths, (w.look below q).Clear below)
    (hfiles : ∀ a ∈ files, a.path ∈ paths) (hnodup : (files.map (·.path)).Nodup)
    (hstaged : staged ⊆ paths.map stagedPath) :
    Ends (stage staged files) w
      (fun _ w' => Reaches below (touched paths) [] (files.map fun a => stagedPath a.path) w w' ∧
        ∀ a ∈ files, w'.look below (stagedPath a.path) = .ofFile below a.content)
      (fun e w' => NoReport e ∧
        ∃ lost, Reaches below (touched paths) lost (paths.map stagedPath) w w' ∧
          Swept below paths staged lost w w') := by
  induction files generalizing w staged with
  | nil => exact ends_pure ⟨.refl w, fun _ h => absurd h List.not_mem_nil⟩
  | cons a files ih =>
    have ha := hfiles a List.mem_cons_self
    obtain ⟨hnew, hnodup⟩ := List.nodup_cons.1 hnodup
    have hstaged' : staged ++ [stagedPath a.path] ⊆ paths.map stagedPath :=
      List.append_subset.2
        ⟨hstaged, List.cons_subset.2 ⟨List.mem_map_of_mem ha, List.nil_subset _⟩⟩
    rw [stage]
    refine ends_bind (ends_tryCatch (ends_makeDirectories
      (fun q hq => not_prefix_directory hseparate ha hq) (fun w₁ hreach₁ => ?_)
      fun e w₁ _ hreach₁ => ends_abandonStaging hseparate hclear hstaged hreach₁))
    have hclear₁ := hreach₁.clear hclear
    refine ends_bind (ends_tryCatch (ends_writeText (hreach₁.workingDirectory ▸ hseparate)
      (stagedPath_mem_touched ha) (hclear₁ _ (stagedPath_mem_touched ha))
      (fun w₂ hreach₂ hwritten => ?_)
      fun e w₂ _ hreach₂ => (ends_abandonStaging hseparate hclear hstaged'
        (hreach₁.trans hreach₂)).imp (fun _ _ => id) fun _ _ ⟨hnone, lost, hreach, hswept⟩ =>
          ⟨hnone, lost, hreach, hswept.mono (List.subset_append_left _ _)⟩))
    have hreach := hreach₁.trans hreach₂
    refine (ih (hreach.workingDirectory ▸ hseparate) (hreach.clear hclear)
      (fun b hb => hfiles b (List.mem_cons_of_mem a hb)) hnodup hstaged').imp ?_ ?_
    · rintro - w₃ ⟨hreach₃, hrest⟩
      refine ⟨hreach.trans hreach₃, fun b hb => ?_⟩
      -- The file just staged is not among the later ones.
      rcases List.mem_cons.1 hb with rfl | hb
      · rw [hreach₃.same _ (stagedPath_mem_touched ha), hwritten]
        intro hmem
        obtain ⟨c, hc, heq⟩ := List.mem_map.1 hmem
        exact hnew (List.mem_map.2 ⟨c, hc, stagedPath_injective heq⟩)
      · exact hrest b hb
    · rintro e w₃ ⟨hnone, lost, hreach₃, hswept⟩
      refine ⟨hnone, lost, (hreach.trans hreach₃).mono ?_, fun hlost x hx => ?_⟩
      · exact List.append_subset.2
          ⟨List.cons_subset.2 ⟨List.mem_map_of_mem ha, List.nil_subset _⟩, List.Subset.refl _⟩
      · refine (hswept hlost x hx).imp_right fun ⟨hnot, hsame⟩ => ?_
        obtain ⟨hnot, hother⟩ := not_or.1 (List.mem_append.not.1 hnot)
        rw [hsame]
        exact ⟨hnot, hreach.same x (stagedPaths_subset hx) hother⟩

end Staging

end NodeTagging.Installation
