import NodeTagging.Proofs.Leftovers
import NodeTagging.Proofs.Undisturbed

/-!
# An installation that nothing hinders

If no call is interrupted, an installation fails only where the disk refuses a call. Where the
directories on the ways to the files are there already, no place is a directory and nothing is
beside the places, the disk refuses none: the files can be staged (`succeeds_stage`), and what is in
their places can be moved aside. So such an installation succeeds (`succeeds_install`).
-/

namespace NodeTagging.Installation

open FileTree Sandbox

variable {workingDirectory : String} {paths : List String} {p : String} {t : FileTree}

/-! ### Staging without fail -/

section Ways

variable (hseparate : Separate workingDirectory (touched paths)) (hp : p ∈ paths)

include hseparate hp

/-- A file is staged right in its directory. -/
theorem exists_location_stagedPath_eq : ∃ step,
    Path.location workingDirectory (stagedPath p) =
      Path.location workingDirectory (Path.directory p) ++ [step] := by
  have hapart := hseparate.apart (self_mem_touched hp) (stagedPath_mem_touched hp)
    stagedPath_ne_self.symm
  exact Path.exists_location_append_eq (by decide) (by decide) hapart.1

theorem Led.node?_of_prefix (hled : Led workingDirectory p t) {q : Location}
    (hq : q <+: Path.location workingDirectory (Path.directory p)) :
    t.node? q = some .directory :=
  hled q ((mem_above_location_iff hseparate hp).2 hq)

/-- There is no file above a location in the directory. -/
theorem Led.isBlocked_eq_false (hled : Led workingDirectory p t) {place : Location}
    (habove : ∀ q ∈ above place, q <+: Path.location workingDirectory (Path.directory p)) :
    t.isBlocked place = false := by
  rw [isBlocked, List.any_eq_false]
  intro q hq
  rw [text?, hled.node?_of_prefix hseparate hp (habove q hq)]
  simp

/-- The directory of a file is there. -/
theorem Led.makeDirectories_eq_ok (hled : Led workingDirectory p t) :
    t.makeDirectories workingDirectory (Path.directory p) =
      .ok (t.storeDirectory (Path.location workingDirectory (Path.directory p))) := by
  have hblocked : t.isBlocked (Path.location workingDirectory (Path.directory p)) = false :=
    hled.isBlocked_eq_false hseparate hp fun q hq => (mem_above_iff.1 hq).1
  rw [makeDirectories, text?, hled.node?_of_prefix hseparate hp List.prefix_rfl]
  simp [hblocked]

/-- A file can be written beside another one if its directory is there. -/
theorem Led.writeText_eq_ok (hled : Led workingDirectory p t)
    (hplain : t.node? (Path.location workingDirectory (stagedPath p)) ≠ some .directory)
    (text : String) : t.writeText workingDirectory (stagedPath p) text =
      .ok (t.put (Path.location workingDirectory (stagedPath p)) (.file text)) := by
  obtain ⟨step, hlocation⟩ := exists_location_stagedPath_eq hseparate hp
  have hblocked : t.isBlocked (Path.location workingDirectory (stagedPath p)) = false := by
    refine hled.isBlocked_eq_false hseparate hp fun q hq => ?_
    rwa [hlocation, mem_above_append_singleton_iff] at hq
  have hdirectory : t.node? (Path.location workingDirectory (stagedPath p)).dropLast =
      some .directory := by
    rw [hlocation, List.dropLast_concat]
    exact hled.node?_of_prefix hseparate hp List.prefix_rfl
  rw [writeText]
  simp [hplain, hblocked, hdirectory]

end Ways

/-- Files can be staged if the directories on the ways to them are there, and no directory is where
    they are staged. -/
theorem succeeds_stage {staged : List String} {files : List GeneratedFile} {w : World}
    (hcalm : w.schedule = .calm) (hseparate : Separate w.workingDirectory (touched paths))
    (hfiles : ∀ a ∈ files, a.path ∈ paths) (hnodup : (files.map (·.path)).Nodup)
    (hled : ∀ a ∈ files, Led w.workingDirectory a.path w.tree)
    (hplain : ∀ a ∈ files, (w.look [] (stagedPath a.path)).here ≠ some .directory) :
    Succeeds (stage staged files) w := by
  induction files generalizing w staged with
  | nil => exact ends_pure trivial
  | cons a files ih =>
    obtain ⟨ha, hfiles⟩ := List.forall_mem_cons.1 hfiles
    obtain ⟨hnew, hnodup⟩ := List.nodup_cons.1 hnodup
    obtain ⟨hleda, hled⟩ := List.forall_mem_cons.1 hled
    obtain ⟨hplaina, hplain⟩ := List.forall_mem_cons.1 hplain
    have hmake : Ends (Host.makeDirectories (Path.directory a.path)) w
        (fun _ w₁ => (Framed w.workingDirectory paths w w₁ ∧
          Led w.workingDirectory a.path w₁.tree) ∧ Reaches [] (touched paths) [] [] w w₁)
        fun _ _ => False :=
      ((ends_makeDirectories_led hseparate rfl ha).and (ends_makeDirectories
      (fun q hq => not_prefix_directory hseparate ha hq) (fun _ hreach => hreach)
      fun _ _ _ _ => trivial)).of_succeeds
        (succeeds_update hcalm (hleda.makeDirectories_eq_ok hseparate ha))
    rw [stage]
    refine ends_bind (ends_tryCatch (hmake.imp ?_ fun _ _ => False.elim))
    rintro - w₁ ⟨⟨hframe₁, hleda₁⟩, hreach₁⟩
    have hfree : w₁.tree.node? (Path.location w.workingDirectory (stagedPath a.path)) ≠
        some .directory := by
      rwa [← hreach₁.same _ (stagedPath_mem_touched ha) List.not_mem_nil, World.look, view_here,
        hreach₁.workingDirectory] at hplaina
    have hwrites := hleda₁.writeText_eq_ok hseparate ha hfree a.content
    rw [← hreach₁.workingDirectory] at hwrites
    have hwrite : Ends (Host.writeText (stagedPath a.path) a.content) w₁
        (fun _ w₂ => Framed w.workingDirectory paths w₁ w₂ ∧
          Reaches [] (touched paths) [] [stagedPath a.path] w₁ w₂) fun _ _ => False :=
      ((framed_writeText (stagedPath_mem_touched ha) a.content w₁).and (ends_writeText
      (hreach₁.workingDirectory ▸ hseparate) (stagedPath_mem_touched ha) (clear_nil _)
      (fun _ hreach _ => hreach) fun _ _ _ _ => trivial)).of_succeeds
        (succeeds_update (hreach₁.schedule.trans hcalm) hwrites)
    refine ends_bind (ends_tryCatch (hwrite.imp ?_ fun _ _ => False.elim))
    rintro - w₂ ⟨hframe₂, hreach₂⟩
    have hreach := hreach₁.trans hreach₂
    refine ih (hreach.schedule.trans hcalm) (hreach.workingDirectory ▸ hseparate) hfiles hnodup
      (fun b hb => ?_) fun b hb => ?_
    · rw [hreach.workingDirectory]
      exact (trans_of _ hframe₁ hframe₂).led hseparate rfl (hfiles b hb) (hled b hb)
    · rw [hreach.same _ (stagedPath_mem_touched (hfiles b hb))]
      · exact hplain b hb
      · rw [List.nil_append, List.mem_singleton]
        exact fun heq => hnew (List.mem_map.2 ⟨b, hb, stagedPath_injective heq⟩)

/-- An installation succeeds if no call is interrupted, the directories on the ways are there, no
    place is a directory and nothing is beside the places. -/
theorem succeeds_install {files : List GeneratedFile} {w : World} (hcalm : w.schedule = .calm)
    (hseparate : Separate w.workingDirectory (touched (files.map (·.path))))
    (hled : ∀ a ∈ files, Led w.workingDirectory a.path w.tree)
    (hplain : ∀ a ∈ files,
      w.tree.node? (Path.location w.workingDirectory a.path) ≠ some .directory)
    (hfresh : ∀ a ∈ files, Fresh w.workingDirectory w.tree a.path) :
    Succeeds (install files) w := by
  have hfiles : ∀ a ∈ files, a.path ∈ files.map (·.path) := fun a ha => List.mem_map_of_mem ha
  have hclear : ∀ q ∈ touched (files.map (·.path)), (w.look [] q).Clear [] :=
    fun _ _ => clear_nil _
  have hstages : Succeeds (stage [] files) w := by
    refine succeeds_stage hcalm hseparate hfiles (nodup_paths hseparate) hled fun a ha => ?_
    rw [World.look, view_here, (hfresh a ha).1]
    simp
  rw [install, map_stagedPath]
  refine ends_bind (((ends_stage hseparate hclear hfiles (nodup_paths hseparate)
    (List.nil_subset _)).of_succeeds hstages).imp ?_ fun _ _ => False.elim)
  rintro - w₁ ⟨hreach₁, hstaged⟩
  rw [map_stagedPath] at hreach₁
  have hundisturbed : Undisturbed [] (files.map (·.path)) (w.look []) [] files w₁ :=
    { Midway.of_staged hseparate hclear hreach₁ hstaged with
      calm := hreach₁.schedule.trans hcalm
      sure := fun _ h => absurd h List.not_mem_nil
      plain := fun p hp => by
        obtain ⟨a, ha, rfl⟩ := List.mem_map.1 hp
        rw [World.look, view_here]
        exact hplain a ha }
  refine ends_bind (hundisturbed.ends_moveIntoPlace.imp (fun journal w₂ h₂ => ?_) ?_)
  · exact ends_bind (h₂.succeeds_removeBackups.imp (fun _ _ _ => ends_pure trivial) fun _ _ => id)
  · -- Nothing is where a file is to be moved aside.
    rintro e w₂ ⟨⟨p, hp, hblocked⟩, -⟩
    obtain ⟨a, ha, rfl⟩ := List.mem_map.1 hp
    rw [World.look, view_here, (hfresh a ha).2] at hblocked
    simp at hblocked

end NodeTagging.Installation
