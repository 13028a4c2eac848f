import NodeTagging.Proofs.Exporting
import NodeTagging.Proofs.Places

/-!
# What a run leaves alone before it installs anything

Until the generated files are installed, a run looks at the disk, and has an engine write the dump.
So the view of every tracked path that lies apart from the dump stays the same (`Looked.spared`,
`Exported.spared`).

A computation *spares* the tracked paths if it changes no view of them, however it ends (`Spares`).
-/

namespace NodeTagging

open FileTree

/-! ### The dump -/

theorem FileTree.view_store {t : FileTree} {below place q : Location}
    (h : Location.Apart place q) (text : String) :
    (t.store place text).view below q = t.view below q := by
  -- Nothing that lies in the tracked place is the dump or on the way to it.
  have hsame : ∀ p, q <+: p → ¬ place <+: p → (t.store place text).node? p = t.node? p := by
    intro p hp hplace
    have hne : p ≠ place := by
      rintro rfl
      exact hplace List.prefix_rfl
    have habove : p ∉ above place := by
      intro hmem
      obtain ⟨n, -, rfl⟩ := List.mem_map.1 hmem
      exact h.2 (hp.trans (List.take_prefix n place))
    rw [store, node?_put h.ne_nil, if_neg hne, node?_fill habove]
  rw [view, view, hsame q List.prefix_rfl h.1,
    hsame (q ++ below) (List.prefix_append q below) (h.not_prefix_append below)]

theorem view_foldl_after {below place q : Location} (h : Location.Apart place q)
    (runs : List ScriptedRun) (t : FileTree) :
    (runs.foldl (fun t run => run.after place t) t).view below q = t.view below q := by
  induction runs generalizing t with
  | nil => rfl
  | cons run runs ih =>
    rw [List.foldl_cons, ih, ScriptedRun.after]
    cases run.writes? with
    | some text => exact view_store h text
    | none => rfl

/-! ### Computations that spare paths -/

/-- One host comes from another by calls that changed the view of no tracked path. -/
def Spared (below : Location) (tracked : List String) (w w' : World) : Prop :=
  ∃ lost, Reaches below tracked lost [] w w'

namespace Spared

variable {below : Location} {tracked : List String} {w w' w'' : World}

theorem refl (w : World) : Spared below tracked w w :=
  ⟨[], .refl w⟩

theorem trans (h : Spared below tracked w w') (h' : Spared below tracked w' w'') :
    Spared below tracked w w'' := by
  obtain ⟨lost, hreach⟩ := h
  obtain ⟨lost', hreach'⟩ := h'
  exact ⟨lost ++ lost', hreach.trans hreach'⟩

theorem workingDirectory (h : Spared below tracked w w') :
    w'.workingDirectory = w.workingDirectory := by
  obtain ⟨lost, hreach⟩ := h
  exact hreach.workingDirectory

theorem schedule (h : Spared below tracked w w') : w'.schedule = w.schedule := by
  obtain ⟨lost, hreach⟩ := h
  exact hreach.schedule

theorem look (h : Spared below tracked w w') {q : String} (hq : q ∈ tracked) :
    w'.look below q = w.look below q := by
  obtain ⟨lost, hreach⟩ := h
  exact hreach.same q hq List.not_mem_nil

end Spared

/-- To look at the disk changes no view. -/
theorem Looked.spared {below : Location} {tracked : List String} {w w' : World}
    (h : Looked w w') : Spared below tracked w w' := by
  obtain ⟨lost, hlost⟩ := h.failed
  exact ⟨lost, .of_tree_eq h.tree h.workingDirectory h.schedule hlost⟩

/-- An export changes no view of a path apart from the dump, as the directories that it makes lead
    to the dump. -/
theorem Exported.spared {below : Location} {tracked : List String} {w w' : World} {schema : String}
    {engines : List String} (h : Exported schema engines w w')
    (hapart : ∀ q ∈ tracked, Location.Apart (Path.location w.workingDirectory schema)
      (Path.location w.workingDirectory q))
    (hdirectory : Path.location w.workingDirectory (Path.directory schema) <+:
      Path.location w.workingDirectory schema) :
    Spared below tracked w w' := by
  obtain ⟨lost, hlost⟩ := h.failed
  refine ⟨lost, ?_⟩
  rcases h.effect with ⟨htree, -⟩ | ⟨t, n, hmade, -, -, htree⟩
  · exact .of_tree_eq htree h.workingDirectory h.schedule hlost
  · refine .of_look_eq h.workingDirectory h.schedule hlost fun q hq => ?_
    have hlead : ¬ Path.location w.workingDirectory q <+:
        Path.location w.workingDirectory (Path.directory schema) :=
      fun habove => (hapart q hq).2 (habove.trans hdirectory)
    rw [World.look, World.look, h.workingDirectory, htree, view_foldl_after (hapart q hq),
      view_makeDirectories hmade hlead]

namespace Sandbox

variable {α β : Type} {workingDirectory : String} {below : Location} {tracked : List String}

/-- The computation changes no view of a tracked path, however it ends. -/
def Spares (workingDirectory : String) (below : Location) (tracked : List String)
    (x : Sandbox α) : Prop :=
  ∀ w : World, w.workingDirectory = workingDirectory →
    Ends x w (fun _ w' => Spared below tracked w w') fun _ w' => Spared below tracked w w'

theorem Keeps.spares {x : Sandbox α} (h : Keeps Looked x) :
    Spares workingDirectory below tracked x :=
  fun w _ => (h w).imp (fun _ _ => Looked.spared) fun _ _ => Looked.spared

/-- What holds after a computation that spares the tracked paths, with all that came before. -/
theorem Spares.ends_bind {x : Sandbox α} {f : α → Sandbox β} {w₀ w : World}
    {returns : β → World → Prop} {fails : Failure → World → Prop}
    (hx : Spares w₀.workingDirectory below tracked x) (hbefore : Spared below tracked w₀ w)
    (hnext : ∀ a w', x.run.run w = (.ok a, w') → Spared below tracked w₀ w' →
      Ends (f a) w' returns fails)
    (hfails : ∀ e w', Spared below tracked w₀ w' → fails e w') :
    Ends (x >>= f) w returns fails := by
  refine Sandbox.ends_bind (((hx w hbefore.workingDirectory).with_run).imp ?_ ?_)
  · exact fun a w' h => hnext a w' h.1 (hbefore.trans h.2)
  · exact fun e w' h => hfails e w' (hbefore.trans h.2)

/-- The same for a step that is taken only sometimes. -/
theorem Spares.ends_optional {taken : Bool} {x : Sandbox Unit} {f : Unit → Sandbox β}
    {w₀ w : World} {returns : β → World → Prop} {fails : Failure → World → Prop}
    (hx : Spares w₀.workingDirectory below tracked x) (hbefore : Spared below tracked w₀ w)
    (hnext : ∀ w', Spared below tracked w₀ w' → Ends (f ()) w' returns fails)
    (hfails : ∀ e w', Spared below tracked w₀ w' → fails e w') :
    Ends (if taken then x >>= f else f ()) w returns fails := by
  cases taken with
  | true => exact hx.ends_bind hbefore (fun _ w' _ => hnext w') hfails
  | false => exact hnext w hbefore

/-- An engine writes the dump and makes the directories that lead to it. -/
theorem spares_acquireDump {schema : String}
    (hapart : ∀ q ∈ tracked, Location.Apart (Path.location workingDirectory schema)
      (Path.location workingDirectory q)) (wanted verbose : Bool) (engines : List String)
    (hdirectory : Path.location workingDirectory (Path.directory schema) <+:
      Path.location workingDirectory schema) :
    Spares workingDirectory below tracked
      (Engine.acquireDump schema wanted verbose engines) := by
  rintro w rfl
  have hspared {w' : World} (h : w' = w ∨ wanted = true ∧ Exported schema engines w w') :
      Spared below tracked w w' := by
    rcases h with rfl | ⟨-, hexported⟩
    · exact .refl w'
    · exact hexported.spared hapart hdirectory
  exact (ends_acquireDump schema wanted verbose engines w).imp (fun _ _ => hspared)
    fun _ _ => hspared

end Sandbox

end NodeTagging
