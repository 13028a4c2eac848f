import NodeTagging.Proofs.Footprint

/-!
# What an installation leaves on the disk

An installation that returns leaves the disk as if every file had been stored at its place
(`storeAll`), and one that fails leaves it as it was, but for directories that were missing on the
ways to the files. Nothing is left beside the places either way (`install_leaves_nothing_else`).

The locations of a disk are of two kinds. What lies at or below the places and the paths beside them
is seen by the views of those paths (`ends_install_settled`), and elsewhere the footprint of an
installation says what may change (`ends_install_framed`).
-/

namespace NodeTagging

open FileTree

namespace Sandbox

variable {α : Type} {x : Sandbox α} {w : World}

/-- What holds for each of many reasons holds for all of them. -/
theorem ends_forall {ι : Type} {returns : ι → α → World → Prop} {fails : ι → Failure → World → Prop}
    (h : ∀ i, Ends x w (returns i) (fails i)) :
    Ends x w (fun a w' => ∀ i, returns i a w') fun e w' => ∀ i, fails i e w' := by
  simp only [Ends] at h ⊢
  generalize x.run.run w = ended at h ⊢
  obtain ⟨_ | _, w'⟩ := ended
  · exact h
  · exact h

end Sandbox

/-! ### Trees of files and directories -/

namespace FileTree

variable {t : FileTree} {place q : Location} {text : String}

theorem node?_store (h : place ≠ []) :
    (t.store place text).node? q = if q = place then some (.file text)
      else if t.node? q = none ∧ q ∈ above place then some .directory else t.node? q := by
  rw [store, node?_put h, node?_fill_eq]

/-- It is enough to look at the locations where something is. -/
theorem wellFormed_of_keys
    (h : ∀ place ∈ t.nodes.keys, t.node? place.dropLast = some .directory) : t.WellFormed := by
  intro place step hsome
  obtain ⟨node, hnode⟩ := Option.isSome_iff_exists.1 hsome
  rw [node?, if_neg (by simp)] at hnode
  simpa using h _ (Table.mem_keys_iff.2 ⟨node, hnode⟩)

/-- A tree stays well-formed when something is put in places where no directory is, as long as the
    directories on the ways there are there afterwards. -/
theorem WellFormed.of_led {t' : FileTree} (isPlace : Location → Prop) (h : t.WellFormed)
    (hplain : ∀ p, isPlace p → t.node? p ≠ some .directory)
    (hled : ∀ p, isPlace p → ∀ q ∈ above p, t'.node? q = some .directory)
    (hsame : ∀ q, t'.node? q = t.node? q ∨ ∃ p, isPlace p ∧ (q = p ∨ q ∈ above p)) :
    t'.WellFormed := by
  intro q step hsome
  by_cases hway : ∃ p, isPlace p ∧ q ∈ above p
  · obtain ⟨p, hp, hq⟩ := hway
    exact hled p hp q hq
  -- Neither the location nor what lies right in it is on a way.
  have hold : t'.node? (q ++ [step]) = t.node? (q ++ [step]) := by
    refine (hsame (q ++ [step])).resolve_right fun ⟨p, hp, hstep⟩ => hway ⟨p, hp, ?_⟩
    have hleads : q ++ [step] <+: p := by
      rcases hstep with rfl | habove
      · exact List.prefix_rfl
      · exact (mem_above_iff.1 habove).1
    refine mem_above_iff.2 ⟨(List.prefix_append q [step]).trans hleads, ?_⟩
    rintro rfl
    have hlength := hleads.length_le
    rw [List.length_append, List.length_singleton] at hlength
    omega
  rw [hold] at hsome
  have hdirectory := h q step hsome
  rcases hsame q with hq | ⟨p, hp, rfl | hq⟩
  · rw [hq, hdirectory]
  · exact absurd hdirectory (hplain q hp)
  · exact absurd ⟨p, hp, hq⟩ hway

end FileTree

namespace Installation

open Sandbox

variable {workingDirectory : String} {files : List GeneratedFile} {t : FileTree} {place : Location}

/-! ### Storing files -/

/-- The tree with every file stored at its place. -/
def storeAll (workingDirectory : String) (files : List GeneratedFile) (t : FileTree) : FileTree :=
  files.foldl (fun t a => t.store (Path.location workingDirectory a.path) a.content) t

/-- At another location is what was there, or a directory that was missing on the way to a file. -/
theorem node?_storeAll_of_forall_ne
    (hne : ∀ a ∈ files, Path.location workingDirectory a.path ≠ [])
    (hplace : ∀ a ∈ files, place ≠ Path.location workingDirectory a.path) :
    (storeAll workingDirectory files t).node? place =
      if t.node? place = none ∧ OnTheWay workingDirectory (files.map (·.path)) place then
        some .directory
      else t.node? place := by
  induction files generalizing t with
  | nil => simp [storeAll, OnTheWay]
  | cons a files ih =>
    obtain ⟨hnea, hne⟩ := List.forall_mem_cons.1 hne
    obtain ⟨hplacea, hplace⟩ := List.forall_mem_cons.1 hplace
    rw [storeAll, List.foldl_cons, ← storeAll, ih hne hplace, node?_store hnea, if_neg hplacea]
    by_cases hnone : t.node? place = none
    · by_cases hfirst : place ∈ above (Path.location workingDirectory a.path)
      · simp [OnTheWay, hnone, hfirst]
      · simp [OnTheWay, hnone, hfirst]
    · simp [hnone]

section Separate

variable (hseparate : Separate workingDirectory (touched (files.map (·.path))))

include hseparate

theorem location_ne_nil {p : String} (hp : p ∈ files.map (·.path)) :
    Path.location workingDirectory p ≠ [] :=
  (hseparate.apart (self_mem_touched hp) (stagedPath_mem_touched hp) stagedPath_ne_self.symm).ne_nil

theorem node?_storeAll_self {a : GeneratedFile} (ha : a ∈ files) :
    (storeAll workingDirectory files t).node? (Path.location workingDirectory a.path) =
      some (.file a.content) := by
  induction files generalizing t with
  | nil => exact absurd ha List.not_mem_nil
  | cons b files ih =>
    have hrest : Separate workingDirectory (touched (files.map (·.path))) :=
      (List.pairwise_append.1 hseparate).2.1
    rw [storeAll, List.foldl_cons, ← storeAll]
    rcases List.mem_cons.1 ha with rfl | ha
    · -- No later file is stored there.
      have hself : a.path ∈ (a :: files).map (·.path) := List.mem_map_of_mem List.mem_cons_self
      have hother : ∀ b ∈ files, Path.location workingDirectory a.path ≠
          Path.location workingDirectory b.path := by
        intro b hb
        refine (hseparate.apart (self_mem_touched hself)
          (self_mem_touched (List.mem_map_of_mem (List.mem_cons_of_mem a hb))) fun heq => ?_).ne
        exact (List.nodup_cons.1 (nodup_paths hseparate)).1 (List.mem_map.2 ⟨b, hb, heq.symm⟩)
      have hstored : (t.store (Path.location workingDirectory a.path) a.content).node?
          (Path.location workingDirectory a.path) = some (.file a.content) := by
        rw [node?_store (location_ne_nil hseparate hself), if_pos rfl]
      rw [node?_storeAll_of_forall_ne (fun b hb => location_ne_nil hrest (List.mem_map_of_mem hb))
        hother, hstored]
      simp
    · exact ih hrest ha

end Separate

/-! ### The places and the paths beside them -/

/-- The call removes something, or moves back what was moved aside. -/
def CleansUp : Call → Prop
  | .remove _ => True
  | .rename source target => source = asidePath target
  | _ => False

section Views

variable {below : Location} {w w' : World}

theorem not_rollbackFailed {lost : List Call} {p : String} (h : ∀ call ∈ lost, ¬ CleansUp call) :
    ¬ RollbackFailed lost p := by
  rintro (hrename | hremove)
  · exact h _ hrename rfl
  · exact h _ hremove trivial

/-- Nothing is beside a path. -/
def Bare (below : Location) (w : World) (path : String) : Prop :=
  w.look below (stagedPath path) = .absent ∧ w.look below (asidePath path) = .absent

/-- A file is in its place, nothing is beside it, and its place was no directory before. -/
def Settled (below : Location) (w w' : World) (a : GeneratedFile) : Prop :=
  w'.look below a.path = .ofFile below a.content ∧ Bare below w' a.path ∧
    (w.look below a.path).here ≠ some .directory

/-- When what was moved aside is removed, every file is settled. -/
theorem Midway.ends_removeBackups_settled {paths : List String} {journal : Journal}
    (h : Midway below paths (w.look below) journal [] w')
    (hbare : ∀ p ∈ paths, Bare below w p) (hcovered : paths ⊆ journal.map UndoStep.path) :
    Ends (removeEach journal.backups) w'
      (fun _ w'' => Reaches below (touched paths) [] journal.backups w' w'' ∧
        ∀ a : GeneratedFile, a.path ∈ paths → w'.look below a.path = .ofFile below a.content ∧
          w'.look below (stagedPath a.path) = .absent → Settled below w w'' a)
      (fun _ w'' => ∃ p ∈ paths, Reaches below (touched paths) [.remove (asidePath p)]
        journal.backups w' w'') := by
  have hjournal : ∀ step ∈ journal, step.path ∈ paths := fun step hstep => (h.ready step hstep).1
  refine ((ends_removeBackups below h.separate hjournal).and
    (ends_removeEach_absent h.separate (Journal.backups_subset hjournal) h.clear)).imp ?_ ?_
  · rintro - w'' ⟨⟨hreach, hsame⟩, hgone⟩
    refine ⟨hreach, fun a ha ⟨hplaced, hunstaged⟩ => ?_⟩
    have hstaged : w''.look below (stagedPath a.path) = .absent := by
      rw [hreach.same _ (stagedPath_mem_touched ha), hunstaged]
      intro hmem
      obtain ⟨p, -, heq⟩ := Journal.mem_backups_iff.1 hmem
      exact stagedPath_ne_asidePath heq
    -- Either the path for what is moved aside was used and emptied, or nothing was there ever.
    by_cases hmoved : UndoStep.restore a.path ∈ journal
    · obtain ⟨hempty, hplain⟩ := hgone _ (Journal.mem_backups_iff.2 ⟨a.path, hmoved, rfl⟩)
      have hready : w'.look below (asidePath a.path) = w.look below a.path :=
        (h.ready _ hmoved).2
      rw [hready] at hplain
      exact ⟨(hsame a.path ha).trans hplaced, ⟨hstaged, hempty⟩, hplain⟩
    · obtain ⟨step, hstep, hpath⟩ := List.mem_map.1 (hcovered ha)
      cases step with
      | restore path => exact absurd (hpath ▸ hstep) hmoved
      | discard path =>
        obtain rfl : path = a.path := hpath
        obtain ⟨habsent, haside⟩ := (h.ready _ hstep).2
        have hkept : asidePath a.path ∉ journal.backups := by
          intro hmem
          obtain ⟨p, hp, heq⟩ := Journal.mem_backups_iff.1 hmem
          exact hmoved (asidePath_injective heq ▸ hp)
        refine ⟨(hsame a.path ha).trans hplaced, ⟨hstaged, ?_⟩, ?_⟩
        · rw [hreach.same _ (asidePath_mem_touched ha) hkept, haside]
          exact (hbare _ ha).2
        · simp [habsent, View.absent]
  · exact fun _ _ h => h.1.1

/-- An installation settles every file or, if every call has its effect that cleans up, leaves all
    views as they were. -/
theorem ends_install_settled
    (hseparate : Separate w.workingDirectory (touched (files.map (·.path))))
    (hclear : ∀ q ∈ touched (files.map (·.path)), (w.look below q).Clear below)
    (hbare : ∀ p ∈ files.map (·.path), Bare below w p) :
    Ends (install files) w
      (fun _ w' => w'.workingDirectory = w.workingDirectory ∧ w'.schedule = w.schedule ∧
        ∀ a ∈ files, Settled below w w' a)
      (fun _ w' => w'.workingDirectory = w.workingDirectory ∧
        ∃ lost, w'.failed = w.failed ++ lost ∧ ((∀ call ∈ lost, ¬ CleansUp call) →
          ∀ q ∈ touched (files.map (·.path)), w'.look below q = w.look below q)) := by
  have hfiles : ∀ a ∈ files, a.path ∈ files.map (·.path) := fun a ha => List.mem_map_of_mem ha
  have htouched {w' : World} (hsame : ∀ p ∈ files.map (·.path), w'.look below p = w.look below p)
      (hbare' : ∀ p ∈ files.map (·.path), Bare below w' p) :
      ∀ q ∈ touched (files.map (·.path)), w'.look below q = w.look below q := by
    intro q hq
    obtain ⟨p, hp, hmem⟩ := List.mem_flatMap.1 hq
    simp only [siblings, List.mem_cons, List.not_mem_nil, or_false] at hmem
    rcases hmem with rfl | rfl | rfl
    · exact hsame q hp
    · exact (hbare' p hp).1.trans (hbare p hp).1.symm
    · exact (hbare' p hp).2.trans (hbare p hp).2.symm
  rw [install, map_stagedPath]
  refine ends_bind ((ends_stage hseparate hclear hfiles (nodup_paths hseparate)
    (List.nil_subset _)).imp ?_ ?_)
  · rintro - w₁ ⟨hreach₁, hstaged⟩
    rw [map_stagedPath] at hreach₁
    refine ends_bind ((Midway.of_staged hseparate hclear hreach₁ hstaged).ends_moveIntoPlace.imp
      ?_ ?_)
    · rintro journal w₂ ⟨h₂, hcovered, hreach₂, hplaced⟩
      have hreach := hreach₁.trans hreach₂
      refine ends_bind ((h₂.ends_removeBackups_settled hbare hcovered).imp ?_ ?_)
      · rintro - w₃ ⟨hreach₃, hsettled⟩
        exact ends_pure ⟨(hreach.trans hreach₃).workingDirectory, (hreach.trans hreach₃).schedule,
          fun a ha => hsettled a (hfiles a ha) (hplaced a ha)⟩
      · rintro e w₃ ⟨p, -, hreach₃⟩
        refine ⟨(hreach.trans hreach₃).workingDirectory, _, (hreach.trans hreach₃).failed,
          fun hclean => ?_⟩
        exact absurd trivial (hclean _ (List.mem_singleton_self _))
    · rintro e w₂ ⟨lost, changed, hreach₂, hback, hcleared⟩
      have hreach := hreach₁.trans hreach₂
      refine ⟨hreach.workingDirectory, lost, hreach.failed, fun hclean => ?_⟩
      have hcleared := hcleared fun p hp =>
        ⟨not_rollbackFailed hclean, fun hmem => hclean _ hmem trivial⟩
      refine htouched (fun p hp => (hcleared p hp).1.self) fun p hp => ⟨(hcleared p hp).2, ?_⟩
      exact (hcleared p hp).1.aside.elim id fun hsame => hsame.trans (hbare p hp).2
  · rintro e w₁ ⟨-, lost, hreach, hswept⟩
    refine ⟨hreach.workingDirectory, lost, hreach.failed, fun hclean => ?_⟩
    have hswept := hswept fun p hp hmem => hclean _ hmem trivial
    have hkept (p : String) (hp : p ∈ files.map (·.path)) : w₁.look below p = w.look below p :=
      hreach.same p (self_mem_touched hp) (not_mem_stagedPaths hseparate hp)
    refine htouched hkept fun p hp => ⟨?_, ?_⟩
    · exact (hswept _ (List.mem_map_of_mem hp)).elim id fun hsame => hsame.2.trans (hbare p hp).1
    · rw [hreach.same _ (asidePath_mem_touched hp) asidePath_not_mem_stagedPaths]
      exact (hbare p hp).2

end Views

/-! ### The whole disk -/

/-- Nothing is beside a path. -/
def Fresh (workingDirectory : String) (t : FileTree) (path : String) : Prop :=
  t.node? (Path.location workingDirectory (stagedPath path)) = none ∧
    t.node? (Path.location workingDirectory (asidePath path)) = none

instance (path : String) : Decidable (Fresh workingDirectory t path) :=
  inferInstanceAs (Decidable (_ ∧ _))

section Disk

variable {w w' : World} {below : Location} {p q : String}

theorem Fresh.bare (h : Fresh w.workingDirectory w.tree p) (hwell : w.tree.WellFormed)
    (below : Location) : Bare below w p :=
  ⟨view_eq_absent h.1 (clear_of_wellFormed hwell below _),
    view_eq_absent h.2 (clear_of_wellFormed hwell below _)⟩

theorem Bare.fresh (h : Bare below w' p) (hdirectory : w'.workingDirectory = w.workingDirectory) :
    Fresh w.workingDirectory w'.tree p := by
  have hnone {x : String} (hx : w'.look below x = .absent) :
      w'.tree.node? (Path.location w.workingDirectory x) = none := by
    rw [← hdirectory, ← view_here below, ← World.look, hx, View.absent]
  exact ⟨hnone h.1, hnone h.2⟩

/-- A location that a file is not stored at holds the same, if a tracked path leads to it. -/
theorem node?_storeAll_below
    (hseparate : Separate workingDirectory (touched (files.map (·.path))))
    (hq : q ∈ touched (files.map (·.path))) (hleads : Path.location workingDirectory q <+: place)
    (hplace : ∀ a ∈ files, place ≠ Path.location workingDirectory a.path) :
    (storeAll workingDirectory files t).node? place = t.node? place := by
  have hne : ∀ a ∈ files, Path.location workingDirectory a.path ≠ [] :=
    fun a ha => location_ne_nil hseparate (List.mem_map_of_mem ha)
  rw [node?_storeAll_of_forall_ne hne hplace, if_neg]
  rintro ⟨-, p, hp, habove⟩
  exact outside_of_mem_above hseparate hp habove q hq hleads

/-- An installation that returns has stored every file at its place. -/
theorem node?_eq_storeAll (hwell : w.tree.WellFormed)
    (hseparate : Separate w.workingDirectory (touched (files.map (·.path))))
    (hfresh : ∀ a ∈ files, Fresh w.workingDirectory w.tree a.path)
    (hdirectory : w'.workingDirectory = w.workingDirectory)
    (hframe : Framed w.workingDirectory (files.map (·.path)) w w')
    (hled : ∀ a ∈ files, Led w.workingDirectory a.path w'.tree)
    (hsettled : ∀ below, ∀ a ∈ files, Settled below w w' a) (place : Location) :
    w'.tree.node? place = (storeAll w.workingDirectory files w.tree).node? place := by
  have hnode {below : Location} {x : String} {v : View} (hlook : w'.look below x = v) :
      w'.tree.node? (Path.location w.workingDirectory x ++ below) = v.below := by
    rw [← hdirectory, ← view_below, ← World.look, hlook]
  by_cases houtside : Outside w.workingDirectory (files.map (·.path)) place
  · have hplace : ∀ a ∈ files, place ≠ Path.location w.workingDirectory a.path := by
      rintro a ha rfl
      exact houtside a.path (self_mem_touched (List.mem_map_of_mem ha)) List.prefix_rfl
    rw [node?_storeAll_of_forall_ne
      (fun a ha => location_ne_nil hseparate (List.mem_map_of_mem ha)) hplace]
    rcases (hframe rfl).2 place houtside with hsame | ⟨hway, hnone, hmade⟩
    · rw [hsame, if_neg]
      rintro ⟨hnone, p, hp, habove⟩
      obtain ⟨a, ha, rfl⟩ := List.mem_map.1 hp
      simp [← hsame, hled a ha place habove] at hnone
    · rw [hmade, if_pos ⟨hnone, hway⟩]
  · rw [Outside] at houtside
    push Not at houtside
    obtain ⟨x, hx, below, rfl⟩ := houtside
    by_cases hplace : ∀ a ∈ files, Path.location w.workingDirectory x ++ below ≠
        Path.location w.workingDirectory a.path
    · -- Nothing is there, neither before nor afterwards.
      rw [node?_storeAll_below hseparate hx (List.prefix_append _ _) hplace]
      obtain ⟨p, hp, hmem⟩ := List.mem_flatMap.1 hx
      obtain ⟨a, ha, rfl⟩ := List.mem_map.1 hp
      obtain ⟨hfile, hbare, hplain⟩ := hsettled below a ha
      have hbefore := (hfresh a ha).bare hwell below
      simp only [siblings, List.mem_cons, List.not_mem_nil, or_false] at hmem
      rcases hmem with rfl | rfl | rfl
      · have hnil : below ≠ [] := by
          rintro rfl
          exact hplace a ha (List.append_nil _)
        rw [World.look, view_here] at hplain
        rw [hnode hfile, (clear_of_wellFormed hwell below _).node?_eq_none hplain hnil]
        exact if_neg hnil
      · rw [hnode hbare.1, ← view_below, ← World.look, hbefore.1]
      · rw [hnode hbare.2, ← view_below, ← World.look, hbefore.2]
    · push Not at hplace
      obtain ⟨a, ha, hplace⟩ := hplace
      have hfile := hnode (hsettled [] a ha).1
      rw [List.append_nil] at hfile
      rw [hplace, node?_storeAll_self hseparate ha, hfile]
      rfl

/-- An installation that fails, and cleans up, has made at most directories on the ways. -/
theorem leavesAt_of_look_eq
    (hdirectory : w'.workingDirectory = w.workingDirectory)
    (hframe : Framed w.workingDirectory (files.map (·.path)) w w')
    (hsame : ∀ below, ∀ q ∈ touched (files.map (·.path)), w'.look below q = w.look below q)
    (place : Location) :
    LeavesAt (OnTheWay w.workingDirectory (files.map (·.path))) w.tree w'.tree place := by
  by_cases houtside : Outside w.workingDirectory (files.map (·.path)) place
  · exact (hframe rfl).2 place houtside
  · rw [Outside] at houtside
    push Not at houtside
    obtain ⟨x, hx, below, rfl⟩ := houtside
    have hlook := hsame below x hx
    rw [World.look, World.look, hdirectory] at hlook
    left
    rw [← view_below, ← view_below, hlook]

/-- A disk on which files have been installed: they are stored, and nothing is beside them. -/
structure Stored (workingDirectory : String) (files : List GeneratedFile) (t t' : FileTree) :
    Prop where
  /-- Every location is as if the files had been stored. -/
  node?_eq : ∀ place, t'.node? place = (storeAll workingDirectory files t).node? place
  /-- Nothing is beside the files. -/
  fresh : ∀ a ∈ files, Fresh workingDirectory t' a.path
  /-- The directories on the ways are there. -/
  led : ∀ a ∈ files, Led workingDirectory a.path t'
  /-- No place was a directory. -/
  plain : ∀ a ∈ files,
    t.node? (Path.location workingDirectory a.path) ≠ some .directory

theorem bare_of_fresh (hwell : w.tree.WellFormed)
    (hfresh : ∀ a ∈ files, Fresh w.workingDirectory w.tree a.path) (below : Location) :
    ∀ p ∈ files.map (·.path), Bare below w p := by
  intro p hp
  obtain ⟨a, ha, rfl⟩ := List.mem_map.1 hp
  exact (hfresh a ha).bare hwell below

theorem ends_install_stored (hwell : w.tree.WellFormed)
    (hseparate : Separate w.workingDirectory (touched (files.map (·.path))))
    (hfresh : ∀ a ∈ files, Fresh w.workingDirectory w.tree a.path) :
    Ends (install files) w
      (fun _ w' => w'.workingDirectory = w.workingDirectory ∧ w'.schedule = w.schedule ∧
        Stored w.workingDirectory files w.tree w'.tree)
      fun _ _ => True := by
  have hviews := ends_forall fun below => ends_install_settled hseparate
    (fun _ _ => clear_of_wellFormed hwell below _) (bare_of_fresh hwell hfresh below)
  refine (hviews.and (ends_install_framed hseparate)).imp ?_ fun _ _ _ => trivial
  rintro places w' ⟨hsettled, hframe, hled⟩
  obtain ⟨hdirectory, hschedule, hsettled₀⟩ := hsettled []
  refine ⟨hdirectory, hschedule, ?_, fun a ha => ?_, hled, fun a ha => ?_⟩
  · exact node?_eq_storeAll hwell hseparate hfresh hdirectory hframe hled
      fun below => (hsettled below).2.2
  · exact (hsettled₀ a ha).2.1.fresh hdirectory
  · have hplain := (hsettled₀ a ha).2.2
    rwa [World.look, view_here] at hplain

/-- An installation changes nothing but what it is for, whichever of its calls have no effect. If it
    returns, the disk is as if every file had been stored at its place, with the directories that
    were missing on the way. If it fails, and no call failed that removes something or moves back
    what was moved aside, then the disk is as it was but for directories that were missing. Either
    way nothing is left beside the places. -/
theorem install_leaves_nothing_else (files : List GeneratedFile) (w : World)
    (hwell : w.tree.WellFormed)
    (hseparate : Separate w.workingDirectory (touched (files.map (·.path))))
    (hfresh : ∀ a ∈ files, Fresh w.workingDirectory w.tree a.path) :
    Ends (install files) w
      (fun _ w' =>
        (∀ place, w'.tree.node? place =
          (storeAll w.workingDirectory files w.tree).node? place) ∧
        ∀ a ∈ files, Fresh w.workingDirectory w'.tree a.path)
      (fun _ w' => ∃ lost, w'.failed = w.failed ++ lost ∧ ((∀ call ∈ lost, ¬ CleansUp call) →
        (∀ place, LeavesAt (OnTheWay w.workingDirectory (files.map (·.path))) w.tree w'.tree
          place) ∧
        ∀ a ∈ files, Fresh w.workingDirectory w'.tree a.path)) := by
  have hbare := bare_of_fresh hwell hfresh
  have hviews := ends_forall fun below => ends_install_settled hseparate
    (fun _ _ => clear_of_wellFormed hwell below _) (hbare below)
  refine ((ends_install_stored hwell hseparate hfresh).and
    (hviews.and (ends_install_framed hseparate))).imp ?_ ?_
  · rintro places w' ⟨⟨-, -, hstored⟩, -⟩
    exact ⟨hstored.node?_eq, hstored.fresh⟩
  · rintro e w' ⟨-, hsame, hframe⟩
    obtain ⟨hdirectory, lost, hlost, -⟩ := hsame []
    refine ⟨lost, hlost, fun hclean => ?_⟩
    -- The calls that failed are the same for all locations below.
    have hlook (below : Location) :
        ∀ q ∈ touched (files.map (·.path)), w'.look below q = w.look below q := by
      obtain ⟨-, lost', hlost', hkept⟩ := hsame below
      obtain rfl : lost' = lost := List.append_cancel_left (hlost'.symm.trans hlost)
      exact hkept hclean
    refine ⟨leavesAt_of_look_eq hdirectory hframe hlook, fun a ha => ?_⟩
    have hp : a.path ∈ files.map (·.path) := List.mem_map_of_mem ha
    have hbare' : Bare [] w' a.path := by
      rw [Bare, hlook [] _ (stagedPath_mem_touched hp), hlook [] _ (asidePath_mem_touched hp)]
      exact hbare [] _ hp
    exact hbare'.fresh hdirectory

end Disk

namespace Sample

-- Irreducible, so that a run on this host is evaluated only where it is asked for.
/-- A host with an earlier version of the first file, on which the second one cannot be moved into
    place. -/
@[irreducible] def refusingHost : World where
  tree := FileTree.empty.store ["work", "out", "markers.rs"] "old markers"
  workingDirectory := "/work"
  schedule _ call :=
    if call = .rename "out/dispatcher.rs.tmp" "out/dispatcher.rs" then some (.error "interrupted")
    else none

theorem wellFormed_refusingHost : refusingHost.tree.WellFormed := by
  exact wellFormed_of_keys (by decide +kernel)

theorem separate_refusingHost :
    Separate refusingHost.workingDirectory (touched (Sample.files.map (·.path))) := by
  decide +kernel

theorem fresh_refusingHost :
    ∀ a ∈ Sample.files, Fresh refusingHost.workingDirectory refusingHost.tree a.path := by
  decide +kernel

theorem ended_refusingHost :
    ((install Sample.files : Sandbox (List String)).run.run refusingHost).1 =
        .error (.problem (.installFailed "out/dispatcher.rs" "interrupted" [])) ∧
      ((install Sample.files : Sandbox (List String)).run.run refusingHost).2.failed =
        refusingHost.failed ++ [.rename "out/dispatcher.rs.tmp" "out/dispatcher.rs"] := by
  decide +kernel

end Sample

/-- When the second file cannot be moved into place, the first one is moved back, and the disk is as
    it was. -/
theorem install_leaves_nothing_else_when_refused :
    Sample.refusingHost.tree.WellFormed ∧
      Separate Sample.refusingHost.workingDirectory (touched (Sample.files.map (·.path))) ∧
      (∀ a ∈ Sample.files,
        Fresh Sample.refusingHost.workingDirectory Sample.refusingHost.tree a.path) ∧
      ∀ place,
        LeavesAt (OnTheWay Sample.refusingHost.workingDirectory (Sample.files.map (·.path)))
          Sample.refusingHost.tree
          ((install Sample.files : Sandbox (List String)).run.run Sample.refusingHost).2.tree
          place := by
  obtain ⟨herror, hfailed⟩ := Sample.ended_refusingHost
  refine ⟨Sample.wellFormed_refusingHost, Sample.separate_refusingHost,
    Sample.fresh_refusingHost, ?_⟩
  obtain ⟨lost, hlost, hended⟩ := (install_leaves_nothing_else Sample.files Sample.refusingHost
    Sample.wellFormed_refusingHost Sample.separate_refusingHost
    Sample.fresh_refusingHost).fails_of_run herror
  rw [hfailed] at hlost
  obtain rfl := List.append_cancel_left hlost
  exact (hended (by simp [CleansUp, asidePath])).1

end Installation

end NodeTagging
