import NodeTagging.Proofs.Outcome
import NodeTagging.Installation

/-!
# How an installation fails

Where a call of an installation fails, the failure is caught: the installation cleans up and reports
that the files could not be written. Only the calls that clean up are not guarded themselves. So
whenever an installation ends early, it either tells the user that writing failed, or a file beside
a place could not be removed, and the failure of that call is all that is told
(`install_reports_write_failures`). This holds of all files, on every disk and for every schedule.

* `tries_perform`: a call fails with a failure of its own, and is then recorded;
* `Blames`: what is told of a failure if the files at some paths are to be removed;
* `ends_stage_blames`, `ends_moveIntoPlace_blames`: what each phase tells of a failure;
* `cleaning_up_hides_write_failure`: with a directory where a file is to be staged, it is the
  failure to clean up that is told.
-/

namespace NodeTagging

/-- The kind of the problem that a run ends with, if that is why it ends. -/
def Failure.kind? : Failure → Option Diagnostic.Kind
  | problem p => some p.diagnostic.kind
  | _ => none

namespace Sandbox

theorem Raw.kind? {e : Failure} (h : Raw e) : e.kind? = none := by
  cases e with
  | problem p => exact absurd rfl (h p)
  | file _ => rfl
  | interrupted _ => rfl

/-- Every call has its effect, up to one that fails, by a failure that is not a problem of the
    program. -/
def Tries {α : Type} (calls : List Call) (x : Sandbox α) : Prop :=
  ∀ w, Ends x w (fun _ w' => w'.failed = w.failed)
    fun e w' => e.kind? = none ∧ ∃ call ∈ calls, w'.failed = w.failed ++ [call]

theorem tries_pure {α : Type} {calls : List Call} (a : α) : Tries calls (pure a) :=
  fun _ => ends_pure rfl

theorem tries_perform {α : Type} {call : Call}
    {effect : World → Except FileError (α × FileTree)} : Tries [call] (perform call effect) :=
  fun _ => ends_perform (fun _ _ _ _ _ hnone => hnone) fun _ _ hraw _ _ _ hlost =>
    ⟨hraw.kind?, call, List.mem_singleton_self call, hlost⟩

theorem tries_query {α : Type} {call : Call} {look : World → Except FileError α} :
    Tries [call] (query call look) :=
  tries_perform

theorem Tries.mono {α : Type} {calls calls' : List Call} {x : Sandbox α} (h : Tries calls x)
    (hsub : calls ⊆ calls') : Tries calls' x :=
  fun w => (h w).imp (fun _ _ hnone => hnone) fun _ _ ⟨hkind, call, hcall, hlost⟩ =>
    ⟨hkind, call, hsub hcall, hlost⟩

theorem tries_bind {α β : Type} {calls : List Call} {x : Sandbox α} {f : α → Sandbox β}
    (hx : Tries calls x) (hf : ∀ a, Tries calls (f a)) : Tries calls (x >>= f) := by
  intro w
  refine ends_bind ((hx w).imp (fun a w₁ hnone => ?_) fun _ _ h => h)
  refine (hf a w₁).imp (fun _ _ hrest => hrest.trans hnone) ?_
  rintro e w₂ ⟨hkind, call, hcall, hlost⟩
  exact ⟨hkind, call, hcall, by rw [hlost, hnone]⟩

section Calls

variable (path : String)

theorem tries_isPresent : Tries [.isPresent path] (Host.isPresent path : Sandbox Bool) :=
  tries_query

theorem tries_makeDirectories :
    Tries [.makeDirectories path] (Host.makeDirectories path : Sandbox Unit) :=
  tries_perform

theorem tries_writeText (text : String) :
    Tries [.writeText path] (Host.writeText path text : Sandbox Unit) :=
  tries_perform

theorem tries_rename (target : String) :
    Tries [.rename path target] (Host.rename path target : Sandbox Unit) :=
  tries_perform

theorem tries_remove : Tries [.remove path] (Host.remove path : Sandbox Unit) :=
  tries_perform

end Calls

end Sandbox

namespace Installation

open Sandbox

/-! ### What is told of a failure -/

/-- The failure tells that the files could not be written; or else it is that of the call which
    failed last, and which was to remove one of the given paths. -/
def Blames (doomed : List String) (w : World) (e : Failure) (w' : World) : Prop :=
  ∃ lost, w'.failed = w.failed ++ lost ∧
    (e.kind? = some .failedWrite ∨
      e.kind? = none ∧ ∃ path ∈ doomed, lost.getLast? = some (.remove path))

namespace Blames

variable {doomed doomed' : List String} {w w' w'' : World} {e : Failure}

theorem mono (h : Blames doomed w e w') (hsub : doomed ⊆ doomed') : Blames doomed' w e w' := by
  obtain ⟨lost, hlost, hkind⟩ := h
  exact ⟨lost, hlost, hkind.imp_right fun ⟨hnone, path, hpath, hlast⟩ =>
    ⟨hnone, path, hsub hpath, hlast⟩⟩

/-- It does not matter which calls failed before. -/
theorem after {before : List Call} (h : Blames doomed w' e w'')
    (hbefore : w'.failed = w.failed ++ before) : Blames doomed w e w'' := by
  obtain ⟨lost, hlost, hkind⟩ := h
  refine ⟨before ++ lost, by rw [hlost, hbefore, List.append_assoc], ?_⟩
  refine hkind.imp_right fun ⟨hnone, path, hpath, hlast⟩ => ⟨hnone, path, hpath, ?_⟩
  rw [List.getLast?_append, hlast, Option.some_or]

theorem of_failed_eq (h : Blames doomed w' e w'') (hnone : w'.failed = w.failed) :
    Blames doomed w e w'' :=
  h.after (hnone.trans (List.append_nil _).symm)

theorem of_remove {path : String} (hpath : path ∈ doomed) (hkind : e.kind? = none)
    (hlost : w'.failed = w.failed ++ [.remove path]) : Blames doomed w e w' :=
  ⟨[.remove path], hlost, .inr ⟨hkind, path, hpath, rfl⟩⟩

theorem of_failedWrite {lost : List Call} (hkind : e.kind? = some .failedWrite)
    (hlost : w'.failed = w.failed ++ lost) : Blames doomed w e w' :=
  ⟨lost, hlost, .inl hkind⟩

end Blames

/-! ### Cleaning up -/

theorem tries_removeEach (doomed : List String) :
    Tries (doomed.map .remove) (removeEach doomed : Sandbox Unit) := by
  induction doomed with
  | nil => exact tries_pure ()
  | cons path doomed ih =>
    exact tries_bind ((tries_remove path).mono (by simp)) fun _ => ih.mono (by simp)

theorem ends_removeEach_blames (doomed : List String) (w : World) :
    Ends (removeEach doomed) w (fun _ w' => w'.failed = w.failed) (Blames doomed w) := by
  refine (tries_removeEach doomed w).imp (fun _ _ hnone => hnone) ?_
  rintro e w' ⟨hkind, call, hcall, hlost⟩
  obtain ⟨path, hpath, rfl⟩ := List.mem_map.1 hcall
  exact .of_remove hpath hkind hlost

/-- A journal is undone to its end, whichever of its steps fail. -/
theorem ends_undo_lost (journal : Journal) (w : World) :
    Ends (undo journal) w (fun _ w' => ∃ lost, w'.failed = w.failed ++ lost) fun _ _ => False := by
  induction journal generalizing w with
  | nil => exact ends_pure ⟨[], (List.append_nil _).symm⟩
  | cons step earlier ih =>
    have hperform : ∃ call, Tries [call] (step.perform : Sandbox Unit) := by
      cases step with
      | restore path => exact ⟨_, tries_rename (asidePath path) path⟩
      | discard path => exact ⟨_, tries_remove path⟩
    obtain ⟨call, hperform⟩ := hperform
    have hstep : Ends (tryCatch (do step.perform; pure []) fun e => pure [(step.path, e.reason)] :
        Sandbox (List (String × String))) w (fun _ w₁ => ∃ lost, w₁.failed = w.failed ++ lost)
        fun _ _ => False := by
      refine ends_tryCatch ((tries_bind hperform (fun _ => tries_pure []) w).imp ?_ ?_)
      · exact fun _ w₁ hnone => ⟨[], by rw [hnone, List.append_nil]⟩
      · rintro e w₁ ⟨-, lost, -, hlost⟩
        exact ends_pure ⟨[lost], hlost⟩
    rw [undo]
    refine ends_bind (hstep.imp (fun failed w₁ ⟨lost, hlost⟩ => ?_) fun _ _ h => h.elim)
    refine ends_bind ((ih w₁).imp (fun others w₂ ⟨lost', hlost'⟩ => ?_) fun _ _ h => h.elim)
    exact ends_pure ⟨lost ++ lost', by rw [hlost', hlost, List.append_assoc]⟩

/-! ### Staging -/

theorem ends_abandonStaging_blames {α : Type} (staged : List String) (e : Failure) (w : World) :
    Ends (abandonStaging staged e : Sandbox α) w (fun _ _ => False) (Blames staged w) := by
  refine ends_bind ((ends_removeEach_blames staged w).imp (fun _ w₁ hnone => ?_) fun _ _ h => h)
  exact ends_throw (.of_failedWrite rfl (hnone.trans (List.append_nil _).symm))

/-- A call that is guarded, and after whose failure it is cleaned up. -/
theorem ends_guarded {α : Type} {calls : List Call} {x : Sandbox α} {doomed : List String}
    {handle : Failure → Sandbox α} (hx : Tries calls x)
    (hhandle : ∀ e w, Ends (handle e) w (fun _ _ => False) (Blames doomed w)) (w : World) :
    Ends (tryCatch x handle) w (fun _ w' => w'.failed = w.failed) (Blames doomed w) := by
  refine ends_tryCatch ((hx w).imp (fun _ _ hnone => hnone) ?_)
  rintro e w₁ ⟨-, call, -, hlost⟩
  exact (hhandle e w₁).imp (fun _ _ h => h.elim) fun _ _ h => h.after hlost

theorem ends_stage_blames (staged : List String) (files : List GeneratedFile) (w : World) :
    Ends (stage staged files) w (fun _ w' => w'.failed = w.failed)
      (Blames (staged ++ files.map fun a => stagedPath a.path) w) := by
  induction files generalizing staged w with
  | nil => exact ends_pure rfl
  | cons a rest ih =>
    rw [stage]
    have hmake := ends_guarded (tries_makeDirectories (Path.directory a.path))
      (ends_abandonStaging_blames staged) w
    refine ends_bind (hmake.imp (fun _ w₁ hmade => ?_) fun _ _ h => h.mono (by simp))
    have hwrite := ends_guarded (tries_writeText (stagedPath a.path) a.content)
      (ends_abandonStaging_blames (staged ++ [stagedPath a.path])) w₁
    refine ends_bind (hwrite.imp (fun _ w₂ hwritten => ?_)
      fun _ _ h => (h.of_failed_eq hmade).mono (by simp))
    refine (ih (staged ++ [stagedPath a.path]) w₂).imp
      (fun _ _ hrest => (hrest.trans hwritten).trans hmade) fun e w₃ h => ?_
    rw [List.append_assoc, List.singleton_append] at h
    exact h.of_failed_eq (hwritten.trans hmade)

/-! ### Moving into place -/

theorem ends_abandonInstall_blames {α : Type} (staged : List String) (journal : Journal)
    (path : String) (e : Failure) (w : World) :
    Ends (abandonInstall staged journal path e : Sandbox α) w (fun _ _ => False)
      (Blames staged w) := by
  refine ends_bind ((ends_undo_lost journal w).imp (fun unrestored w₁ ⟨lost, hlost⟩ => ?_)
    fun _ _ h => h.elim)
  refine ends_bind ((ends_removeEach_blames staged w₁).imp (fun _ w₂ hnone => ?_)
    fun _ _ h => h.after hlost)
  exact ends_throw (.of_failedWrite rfl (hnone.trans hlost))

theorem tries_setAside (path : String) :
    Tries [.isPresent path, .rename path (asidePath path)] (setAside path : Sandbox Bool) := by
  refine tries_bind ((tries_isPresent path).mono (by simp)) fun present => ?_
  cases present with
  | true =>
    exact tries_bind ((tries_rename path (asidePath path)).mono (by simp)) fun _ => tries_pure true
  | false => exact tries_pure false

/-- What is moved aside is moved beside its place. -/
theorem ends_moveIntoPlace_blames (staged : List String) (journal : Journal)
    (files : List GeneratedFile) (w : World) :
    Ends (moveIntoPlace staged journal files) w
      (fun journal' w' => w'.failed = w.failed ∧
        journal'.backups ⊆ journal.backups ++ files.map fun a => asidePath a.path)
      (Blames staged w) := by
  induction files generalizing journal w with
  | nil => exact ends_pure ⟨rfl, by simp⟩
  | cons a rest ih =>
    rw [moveIntoPlace]
    have haside := ends_guarded (tries_setAside a.path)
      (ends_abandonInstall_blames staged journal a.path) w
    refine ends_bind (haside.imp (fun replaced w₁ haside => ?_) fun _ _ h => h)
    have hmove := ends_guarded (tries_rename (stagedPath a.path) a.path)
      (ends_abandonInstall_blames staged (if replaced then .restore a.path :: journal else journal)
        a.path) w₁
    refine ends_bind (hmove.imp (fun _ w₂ hmoved => ?_) fun _ _ h => h.of_failed_eq haside)
    refine (ih _ w₂).imp ?_ fun _ _ h => h.of_failed_eq (hmoved.trans haside)
    rintro journal' w₃ ⟨hrest, hbackups⟩
    refine ⟨(hrest.trans hmoved).trans haside, List.Subset.trans hbackups ?_⟩
    cases replaced with
    | true => simp [Journal.backups]
    | false => simp [Journal.backups]

/-! ### Installing -/

/-- The paths beside the places of files. -/
def sidePaths (files : List GeneratedFile) : List String :=
  files.map (fun a => stagedPath a.path) ++ files.map fun a => asidePath a.path

/-- Whenever an installation ends early, the user is told that the files could not be written,
    unless the last call that failed was to remove a file beside a place. -/
theorem install_reports_write_failures (files : List GeneratedFile) (w : World) :
    Ends (install files) w (fun places _ => places = files.map (·.path)) fun e w' =>
      ∃ lost, w'.failed = w.failed ++ lost ∧
        (e.kind? = some .failedWrite ∨
          e.kind? = none ∧ ∃ path ∈ sidePaths files, lost.getLast? = some (.remove path)) := by
  refine ends_bind ((ends_stage_blames [] files w).imp (fun _ w₁ hstaged => ?_)
    fun _ _ h => h.mono (by simp [sidePaths]))
  have hmove := ends_moveIntoPlace_blames (files.map fun a => stagedPath a.path) [] files w₁
  refine ends_bind (hmove.imp ?_ fun _ _ h => (h.of_failed_eq hstaged).mono (by simp [sidePaths]))
  rintro journal w₂ ⟨hmoved, hbackups⟩
  refine ends_bind ((ends_removeEach_blames journal.backups w₂).imp (fun _ _ _ => ends_pure rfl)
    fun e w₃ h => (h.of_failed_eq (hmoved.trans hstaged)).mono (List.Subset.trans hbackups ?_))
  simp [sidePaths, Journal.backups]

namespace Sample

/-- A file whose staged version has a directory in its place. -/
def obstructed : GeneratedFile := ⟨.markers, "out.rs", "new"⟩

/-- A host without interruptions, with a directory where the file is to be staged. -/
@[irreducible] def obstructingHost : World where
  tree := FileTree.empty.storeDirectory ["work", "out.rs.tmp"]
  workingDirectory := "/work"

end Sample

/-- A directory where a file is to be staged can neither be written nor removed as a file. That it
    cannot be removed is what is told, and not that the files could not be written. -/
theorem cleaning_up_hides_write_failure :
    ((install [Sample.obstructed] : Sandbox (List String)).run.run Sample.obstructingHost).1 =
        .error (.file (.removesDirectory "out.rs.tmp")) ∧
      (Failure.file (.removesDirectory "out.rs.tmp")).kind? ≠ some .failedWrite := by
  decide +kernel

end Installation

end NodeTagging
