import NodeTagging.Proofs.Looking

/-!
# Having an engine write the dump

Engines are started in order, each once, up to the first that succeeds. Besides the directories that
lead to the dump, what changes on the disk is what the started engines write (`Tried`, `Exported`).
-/

namespace NodeTagging

open FileTree Sandbox

/-- The disk after a program of the script has ended that was to write to a place. -/
def ScriptedRun.after (run : ScriptedRun) (place : Location) (t : FileTree) : FileTree :=
  match run.writes? with
  | some text => t.store place text
  | none => t

/-- How a program of the script ends. -/
def ScriptedRun.outcome (run : ScriptedRun) : CommandOutcome :=
  ⟨run.status?, run.error?⟩

/-! ### Engines in order -/

/-- The first `n` of the given engines were started, and wrote what they are scripted to write. -/
structure Tried (schema : String) (engines : List String) (n : Nat) (w w' : World) : Prop
    extends Made Call.Looks w w' where
  /-- There are so many engines. -/
  le_length : n ≤ engines.length
  /-- The engines were asked for the dump. -/
  started : w'.started = w.started ++ (engines.take n).map fun command =>
    ⟨command, Problem.exportArguments schema, Engine.exportTimeout⟩
  /-- The rest of the script. -/
  script : w'.script = w.script.drop n
  /-- What they wrote. -/
  tree : w'.tree = (w.script.take n).foldl
    (fun t run => run.after (Path.location w.workingDirectory schema) t) w.tree

namespace Tried

variable {schema command : String} {engines others : List String} {n : Nat}
  {w w' w'' : World}

theorem of_looked (h : Looked w w') : Tried schema engines 0 w w' where
  toMade := h.toMade
  le_length := Nat.zero_le _
  started := by simp [h.started]
  script := by simp [h.script]
  tree := by simp [h.tree]

/-- One engine more was tried before the others. -/
theorem cons (h : Tried schema [command] 1 w w') (h' : Tried schema others n w' w'') :
    Tried schema (command :: others) (n + 1) w w'' where
  toMade := h.toMade.trans h'.toMade
  le_length := Nat.succ_le_succ h'.le_length
  started := by
    rw [h'.started, h.started]
    simp
  script := by
    rw [h'.script, h.script, List.drop_drop, Nat.add_comm]
  tree := by
    rw [h'.tree, h.tree, h.script, h.workingDirectory, Nat.add_comm n 1, List.take_add,
      List.foldl_append]

/-- Looks at the disk make no difference. -/
theorem looked_right (h : Tried schema engines n w w') (h' : Looked w' w'') :
    Tried schema engines n w w'' where
  toMade := h.toMade.trans h'.toMade
  le_length := h.le_length
  started := h'.started.trans h.started
  script := h'.script.trans h.script
  tree := h'.tree.trans h.tree

end Tried

theorem ends_runCommand (schema command : String) (w : World) :
    Ends (Host.runCommand command (Problem.exportArguments schema) Engine.exportTimeout :
        Sandbox CommandOutcome) w
      (fun _ w' => Tried schema [command] 1 w w') fun _ _ => False := by
  have hrun : (Host.runCommand command (Problem.exportArguments schema) Engine.exportTimeout :
      Sandbox CommandOutcome).run.run w =
        start command (Problem.exportArguments schema) Engine.exportTimeout w := rfl
  have hlast : (Problem.exportArguments schema).getLast? = some schema := rfl
  rw [Ends, hrun, start]
  cases hscript : w.script with
  | nil =>
    exact
      { Made.refl w with
        le_length := Nat.le_refl _
        started := rfl
        script := by simp [hscript]
        tree := by simp [hscript] }
  | cons run script =>
    refine
      { Made.refl w with
        le_length := Nat.le_refl _
        started := rfl
        script := by simp [hscript]
        tree := ?_ }
    rw [hscript, List.take_succ_cons, List.take_zero, List.foldl_cons, List.foldl_nil,
      ScriptedRun.after, hlast]
    cases run.writes? with
    | none => rfl
    | some text => rfl

/-- An engine counts as successful if the program that is started for it does. -/
theorem ends_runCommand_isSuccess (schema command : String) (w : World) :
    Ends (Host.runCommand command (Problem.exportArguments schema) Engine.exportTimeout :
        Sandbox CommandOutcome) w
      (fun outcome _ => outcome.isSuccess = w.script.head?.any (·.outcome.isSuccess))
      fun _ _ => False := by
  have hrun : (Host.runCommand command (Problem.exportArguments schema) Engine.exportTimeout :
      Sandbox CommandOutcome).run.run w =
        start command (Problem.exportArguments schema) Engine.exportTimeout w := rfl
  rw [Ends, hrun, start]
  cases w.script with
  | nil => rfl
  | cons run script => rfl

theorem ends_isPresent_value (path : String) (w : World) :
    Ends (Host.isPresent path) w
      (fun present _ => present = w.tree.isPresent w.workingDirectory path) fun _ _ => True :=
  ends_query (fun _ _ h _ _ _ _ => (Except.ok.inj h).symm) fun _ _ _ _ _ _ _ => trivial

theorem ends_hasExported (schema : String) (outcome : CommandOutcome) (w : World) :
    Ends (Engine.hasExported schema outcome) w
      (fun exported w' => Looked w w' ∧
        exported = (outcome.isSuccess && w.tree.isPresent w.workingDirectory schema))
      fun _ w' => Looked w w' := by
  have hlooked := (reads_hasExported (List.mem_singleton_self schema) outcome).looked w
  have hvalue : Ends (Engine.hasExported schema outcome) w
      (fun exported _ =>
        exported = (outcome.isSuccess && w.tree.isPresent w.workingDirectory schema))
      fun _ _ => True := by
    rw [Engine.hasExported]
    cases outcome.isSuccess with
    | true => exact ends_isPresent_value schema w
    | false => exact ends_pure rfl
  exact (hlooked.and hvalue).imp (fun _ _ h => h) fun _ _ h => h.1

/-- An engine is started. If it has exported the dump, its command is given; if not, the other
    engines are tried. Looks at the disk and lines that are printed make no difference. -/
theorem ends_tryCommands_cons {schema command : String} {verbose : Bool}
    {attempts : List (String × String)} {others : List String} {w : World}
    {returns : String → World → Prop} {fails : Failure → World → Prop}
    (h : ∀ w₁, Tried schema [command] 1 w w₁ → ∀ exported,
      exported = (w.script.head?.any (·.outcome.isSuccess) &&
        w₁.tree.isPresent w₁.workingDirectory schema) → ∀ w₂, Looked w₁ w₂ →
      (exported = true → returns command w₂) ∧
        (exported = false → ∀ attempts,
          Ends (Engine.tryCommands schema verbose attempts others) w₂ returns fails))
    (hfails : ∀ e w₁ w₂, Tried schema [command] 1 w w₁ → Looked w₁ w₂ → fails e w₂) :
    Ends (Engine.tryCommands schema verbose attempts (command :: others)) w returns fails := by
  rw [Engine.tryCommands]
  refine ends_bind (((ends_runCommand schema command w).and
    (ends_runCommand_isSuccess schema command w)).imp ?_ fun _ _ h => h.1.elim)
  rintro outcome w₁ ⟨htried, houtcome⟩
  refine ends_bind ((ends_hasExported schema outcome w₁).imp ?_ fun e w₂ => hfails e w₁ w₂ htried)
  rintro exported w₂ ⟨hlooked, hexported⟩
  rw [houtcome] at hexported
  have hnext := h w₁ htried exported hexported
  cases exported with
  | true =>
    cases verbose with
    | true =>
      exact (looked_print .log _).ends_bind hlooked
        (fun _ w₃ hprinted => ends_pure ((hnext w₃ hprinted).1 rfl))
        fun e w₃ => hfails e w₁ w₃ htried
    | false => exact ends_pure ((hnext w₂ hlooked).1 rfl)
  | false =>
    cases verbose with
    | true =>
      exact (looked_print .warn _).ends_bind hlooked
        (fun _ w₃ hprinted => (hnext w₃ hprinted).2 rfl _) fun e w₃ => hfails e w₁ w₃ htried
    | false => exact (hnext w₂ hlooked).2 rfl _

/-- Engines are tried up to the first that succeeds. -/
theorem ends_tryCommands (schema : String) (verbose : Bool) (attempts : List (String × String))
    (commands : List String) (w : World) :
    Ends (Engine.tryCommands schema verbose attempts commands : Sandbox String) w
      (fun _ w' => ∃ n, Tried schema commands n w w')
      fun _ w' => ∃ n, Tried schema commands n w w' := by
  induction commands generalizing attempts w with
  | nil => exact ends_throw ⟨0, .of_looked (.refl w)⟩
  | cons command others ih =>
    have hstop {w₁ w₂ : World} (htried : Tried schema [command] 1 w w₁) (hlooked : Looked w₁ w₂) :
        ∃ n, Tried schema (command :: others) n w w₂ :=
      ⟨1, htried.cons (.of_looked hlooked)⟩
    have hnext {w₁ w₂ w₃ : World} (htried : Tried schema [command] 1 w w₁)
        (hlooked : Looked w₁ w₂) (hothers : ∃ n, Tried schema others n w₂ w₃) :
        ∃ n, Tried schema (command :: others) n w w₃ := by
      obtain ⟨n, hothers⟩ := hothers
      exact ⟨n + 1, (htried.looked_right hlooked).cons hothers⟩
    refine ends_tryCommands_cons (fun w₁ htried exported _ w₂ hlooked =>
      ⟨fun _ => hstop htried hlooked, fun _ attempts => ?_⟩) fun _ _ _ => hstop
    exact (ih attempts w₂).imp (fun _ _ => hnext htried hlooked) fun _ _ => hnext htried hlooked

/-! ### The dump -/

/-- What an export does: if the directories that lead to the dump can be made, some of the engines
    are started, in order, and the disk changes by what they write. -/
structure Exported (schema : String) (engines : List String) (w w' : World) : Prop
    extends Made (fun call => call.Looks ∨ call = .makeDirectories (Path.directory schema)) w w'
    where
  /-- The disk and the engines. -/
  effect : (w'.tree = w.tree ∧ w'.started = w.started) ∨
    ∃ t n, w.tree.makeDirectories w.workingDirectory (Path.directory schema) = .ok t ∧
      n ≤ engines.length ∧
      w'.started = w.started ++ (engines.take n).map (fun command =>
        ⟨command, Problem.exportArguments schema, Engine.exportTimeout⟩) ∧
      w'.tree = (w.script.take n).foldl
        (fun t run => run.after (Path.location w.workingDirectory schema) t) t

namespace Exported

variable {schema : String} {engines : List String} {w w' w'' : World}

theorem looked_left (h : Looked w w') (h' : Exported schema engines w' w'') :
    Exported schema engines w w'' where
  toMade := (h.toMade.imp fun _ => .inl).trans h'.toMade
  effect := by
    have heffect := h'.effect
    rwa [h.tree, h.started, h.script, h.workingDirectory] at heffect

theorem looked_right (h : Exported schema engines w w') (h' : Looked w' w'') :
    Exported schema engines w w'' where
  toMade := h.toMade.trans (h'.toMade.imp fun _ => .inl)
  effect := by
    rw [h'.tree, h'.started]
    exact h.effect

end Exported

theorem ends_exportDump (schema : String) (verbose : Bool) (engines : List String) (w : World) :
    Ends (Engine.exportDump schema verbose engines : Sandbox String) w
      (fun _ w' => Exported schema engines w w') fun _ w' => Exported schema engines w w' := by
  have hmake : Ends (Host.makeDirectories (Path.directory schema) : Sandbox Unit) w
      (fun _ w₁ => w.tree.makeDirectories w.workingDirectory (Path.directory schema) = .ok w₁.tree)
      fun _ w₁ => w₁.tree = w.tree :=
    ends_update (fun _ h _ _ _ => h) fun _ _ _ htree _ _ _ => htree
  rw [Engine.exportDump]
  refine ends_bind ((hmake.and ends_update_recorded).imp ?_ ?_)
  · rintro - w₁ ⟨hcreated, hmade, hstarted, hscript⟩
    have hexported {w₂ : World} (htried : ∃ n, Tried schema engines n w₁ w₂) :
        Exported schema engines w w₂ := by
      obtain ⟨n, htried⟩ := htried
      refine ⟨(hmade.imp fun _ => .inr).trans (htried.toMade.imp fun _ => .inl),
        .inr ⟨w₁.tree, n, hcreated, htried.le_length, ?_, ?_⟩⟩
      · rw [htried.started, hstarted]
      · rw [htried.tree, hscript, hmade.workingDirectory]
    exact (ends_tryCommands schema verbose [] engines w₁).imp (fun _ _ => hexported)
      fun _ _ => hexported
  · rintro e w₁ ⟨htree, hmade, hstarted, -⟩
    exact ⟨hmade.imp fun _ => .inr, .inl ⟨htree, hstarted⟩⟩

/-- The dump is written only if that is asked for. -/
theorem ends_acquireDump (schema : String) (wanted verbose : Bool) (engines : List String)
    (w : World) :
    Ends (Engine.acquireDump schema wanted verbose engines : Sandbox (Option String)) w
      (fun _ w' => w' = w ∨ wanted = true ∧ Exported schema engines w w')
      fun _ w' => w' = w ∨ wanted = true ∧ Exported schema engines w w' := by
  cases wanted with
  | false => exact ends_pure (.inl rfl)
  | true =>
    rw [Engine.acquireDump, if_pos rfl, map_eq_pure_bind]
    exact ends_bind ((ends_exportDump schema verbose engines w).imp
      (fun _ _ h => ends_pure (.inr ⟨rfl, h⟩)) fun _ _ h => .inr ⟨rfl, h⟩)

end NodeTagging
