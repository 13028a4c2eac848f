import Mathlib.Data.List.Basic
import Mathlib.Data.List.Pairwise
import Mathlib.Order.Defs.Unbundled
import NodeTagging.Host.Sandbox
import NodeTagging.Proofs.Views

/-!
# How computations on the host in memory end

A computation ends by returning a value or by failing, and either way on a changed host. `Ends`
says what holds then; it goes along the ways in which computations are put together. Of the host
only four things are followed: its working directory and its schedule, which stay the same, the
calls that had no effect, and the views of some *tracked* paths, which lead to places that lie
apart (`Reaches`).

For each call there is a rule that says how the views of the tracked paths change if the call has
its effect. If it does not, they are all the same, and the call is recorded.

What holds of all hosts that a computation goes through is told more simply: it *keeps* a relation
of hosts if the host that it ends in is related to the one that it is run on (`Keeps`).
-/

namespace NodeTagging

open FileTree

/-! ### Ends -/

namespace Sandbox

variable {α β : Type}

/-- What holds of the value, or of the failure, and of the host in which a computation ends. -/
def Ends (x : Sandbox α) (w : World) (returns : α → World → Prop)
    (fails : Failure → World → Prop) : Prop :=
  match x.run.run w with
  | (.ok a, w') => returns a w'
  | (.error e, w') => fails e w'

variable {x : Sandbox α} {w : World} {returns returns' : α → World → Prop}
  {fails fails' : Failure → World → Prop}

theorem Ends.imp (h : Ends x w returns fails) (hreturns : ∀ a w', returns a w' → returns' a w')
    (hfails : ∀ e w', fails e w' → fails' e w') : Ends x w returns' fails' := by
  rw [Ends] at h ⊢
  split at h
  · exact hreturns _ _ h
  · exact hfails _ _ h

theorem Ends.and (h : Ends x w returns fails) (h' : Ends x w returns' fails') :
    Ends x w (fun a w' => returns a w' ∧ returns' a w') fun e w' => fails e w' ∧ fails' e w' := by
  rw [Ends] at h h' ⊢
  generalize x.run.run w = ended at h h' ⊢
  obtain ⟨_ | _, w'⟩ := ended
  · exact ⟨h, h'⟩
  · exact ⟨h, h'⟩

/-- Of a computation nothing is known. -/
theorem ends_of_forall (hreturns : ∀ a w', returns a w') (hfails : ∀ e w', fails e w') :
    Ends x w returns fails := by
  rw [Ends]
  split
  · exact hreturns _ _
  · exact hfails _ _

theorem Ends.fails_of_run (h : Ends x w returns fails) {e : Failure}
    (he : (x.run.run w).1 = .error e) : fails e (x.run.run w).2 := by
  rw [Ends] at h
  rcases hrun : x.run.run w with ⟨_ | _, w'⟩
  · rw [hrun] at h he
    cases he
    exact h
  · rw [hrun] at he
    cases he

theorem Ends.returns_of_run (h : Ends x w returns fails) {a : α}
    (ha : (x.run.run w).1 = .ok a) : returns a (x.run.run w).2 := by
  rw [Ends] at h
  rcases hrun : x.run.run w with ⟨_ | _, w'⟩
  · rw [hrun] at ha
    cases ha
  · rw [hrun] at h ha
    cases ha
    exact h

/-- The value is the one that the computation was run for. -/
theorem Ends.with_run (h : Ends x w returns fails) :
    Ends x w (fun a w' => x.run.run w = (.ok a, w') ∧ returns a w')
      fun e w' => x.run.run w = (.error e, w') ∧ fails e w' := by
  rw [Ends] at h ⊢
  generalize x.run.run w = ended at h ⊢
  obtain ⟨_ | _, w'⟩ := ended
  · exact ⟨rfl, h⟩
  · exact ⟨rfl, h⟩

theorem ends_pure {a : α} (h : returns a w) : Ends (pure a : Sandbox α) w returns fails :=
  h

theorem ends_throw {e : Failure} (h : fails e w) : Ends (throw e : Sandbox α) w returns fails :=
  h

/-- A computation goes on with the value of the one before, or fails as that one did. -/
theorem run_bind (x : Sandbox α) (f : α → Sandbox β) (w : World) :
    (x >>= f).run.run w =
      match x.run.run w with
      | (.ok a, w') => (f a).run.run w'
      | (.error e, w') => (.error e, w') := by
  rw [ExceptT.run_bind, StateT.run_bind]
  rcases x.run.run w with ⟨_ | _, _⟩ <;> rfl

theorem run_bind_eq_ok_iff {x : Sandbox α} {f : α → Sandbox β} {w w' : World} {b : β} :
    (x >>= f).run.run w = (.ok b, w') ↔
      ∃ a w₁, x.run.run w = (.ok a, w₁) ∧ (f a).run.run w₁ = (.ok b, w') := by
  rw [run_bind]
  constructor
  · intro h
    rcases hx : x.run.run w with ⟨_ | a, w₁⟩
    · rw [hx] at h
      cases h
    · rw [hx] at h
      exact ⟨a, w₁, rfl, h⟩
  · rintro ⟨a, w₁, hx, hf⟩
    rw [hx]
    exact hf

theorem ends_bind {f : α → Sandbox β} {returns : β → World → Prop}
    (h : Ends x w (fun a w' => Ends (f a) w' returns fails) fails) :
    Ends (x >>= f) w returns fails := by
  rw [Ends] at h ⊢
  rw [run_bind]
  rcases hx : x.run.run w with ⟨e | a, w'⟩
  · rw [hx] at h
    exact h
  · rw [hx] at h
    exact h

/-- A failure is handled on the host that it leaves. -/
theorem run_tryCatch (x : Sandbox α) (handle : Failure → Sandbox α) (w : World) :
    (tryCatch x handle : Sandbox α).run.run w =
      match x.run.run w with
      | (.ok a, w') => (.ok a, w')
      | (.error e, w') => (handle e).run.run w' := by
  rw [ExceptT.run_tryCatch, StateT.run_bind]
  rcases x.run.run w with ⟨_ | _, _⟩ <;> rfl

theorem ends_tryCatch {handle : Failure → Sandbox α}
    (h : Ends x w returns fun e w' => Ends (handle e) w' returns fails) :
    Ends (tryCatch x handle) w returns fails := by
  rw [Ends] at h ⊢
  rw [run_tryCatch]
  rcases hx : x.run.run w with ⟨e | a, w'⟩
  · rw [hx] at h
    exact h
  · rw [hx] at h
    exact h

theorem ends_orProblem {result : Except Problem α} (hok : ∀ a, result = .ok a → returns a w)
    (herror : ∀ problem, result = .error problem → fails (.problem problem) w) :
    Ends (orProblem result) w returns fails := by
  cases result with
  | ok a => exact ends_pure (hok a rfl)
  | error problem => exact ends_throw (herror problem rfl)

/-- The failure is not a problem that the program found. -/
def Raw (e : Failure) : Prop :=
  ∀ problem, e ≠ .problem problem

/-- A call either has its effect, or it fails, is recorded as failed and changes nothing. -/
theorem ends_perform {call : Call} {effect : World → Except FileError (α × FileTree)}
    (hok : ∀ a w', effect w = .ok (a, w'.tree) → w'.workingDirectory = w.workingDirectory →
      w'.schedule = w.schedule → w'.failed = w.failed → returns a w')
    (hfailed : ∀ e w', Raw e → w'.tree = w.tree → w'.workingDirectory = w.workingDirectory →
      w'.schedule = w.schedule → w'.failed = w.failed ++ [call] → fails e w') :
    Ends (perform call effect) w returns fails := by
  have hrun : (perform call effect).run.run w = perform call effect w := rfl
  rw [Ends, hrun, perform]
  -- Interrupted, refused or performed.
  cases hschedule : w.schedule w.calls call with
  | some interruption => exact hfailed _ _ (fun _ h => by simp at h) rfl rfl rfl rfl
  | none =>
    cases heffect : effect w with
    | error e => exact hfailed _ _ (fun _ h => by simp at h) rfl rfl rfl rfl
    | ok result => exact hok _ _ heffect rfl rfl rfl

/-- A call that looks at the tree. -/
theorem ends_query {call : Call} {look : World → Except FileError α}
    (hok : ∀ a w', look w = .ok a → w'.tree = w.tree → w'.workingDirectory = w.workingDirectory →
      w'.schedule = w.schedule → w'.failed = w.failed → returns a w')
    (hfailed : ∀ e w', Raw e → w'.tree = w.tree → w'.workingDirectory = w.workingDirectory →
      w'.schedule = w.schedule → w'.failed = w.failed ++ [call] → fails e w') :
    Ends (query call look) w returns fails := by
  refine ends_perform (fun a w' h => ?_) hfailed
  cases hlook : look w with
  | error e => simp [hlook, Except.map] at h
  | ok a' =>
    rw [hlook] at h
    obtain ⟨rfl, htree⟩ := Prod.mk.inj (Except.ok.inj h)
    exact hok a' w' hlook htree.symm

/-- A call that changes the tree. -/
theorem ends_update {call : Call} {change : World → Except FileError FileTree}
    {returns : Unit → World → Prop}
    (hok : ∀ w', change w = .ok w'.tree → w'.workingDirectory = w.workingDirectory →
      w'.schedule = w.schedule → w'.failed = w.failed → returns () w')
    (hfailed : ∀ e w', Raw e → w'.tree = w.tree → w'.workingDirectory = w.workingDirectory →
      w'.schedule = w.schedule → w'.failed = w.failed ++ [call] → fails e w') :
    Ends (update call change) w returns fails := by
  refine ends_perform (fun _ w' h => hok w' ?_) hfailed
  cases hchange : change w with
  | error e => simp [hchange, Except.map] at h
  | ok tree =>
    rw [hchange] at h
    exact congrArg Except.ok (congrArg Prod.snd (Except.ok.inj h))

/-! ### Relations that are kept -/

/-- The host that the computation ends in is related to the one that it is run on. -/
def Keeps (R : World → World → Prop) (x : Sandbox α) : Prop :=
  ∀ w, Ends x w (fun _ => R w) fun _ => R w

theorem Keeps.run {R : World → World → Prop} (h : Keeps R x) (w : World) :
    R w (x.run.run w).2 := by
  have hends := h w
  rw [Ends] at hends
  rcases hx : x.run.run w with ⟨_ | _, w'⟩
  · rwa [hx] at hends
  · rwa [hx] at hends

section Preorder

variable {R : World → World → Prop} [IsPreorder World R]

theorem keeps_pure (a : α) : Keeps R (pure a : Sandbox α) :=
  fun w => ends_pure (refl_of R w)

theorem keeps_throw (e : Failure) : Keeps R (throw e : Sandbox α) :=
  fun w => ends_throw (refl_of R w)

/-- What holds after a computation that keeps a relation, with all that came before. -/
theorem Keeps.ends_bind {f : α → Sandbox β} {w₀ : World} {returns : β → World → Prop}
    (hx : Keeps R x) (hbefore : R w₀ w) (hnext : ∀ a w', R w₀ w' → Ends (f a) w' returns fails)
    (hfails : ∀ e w', R w₀ w' → fails e w') : Ends (x >>= f) w returns fails :=
  Sandbox.ends_bind ((hx w).imp (fun a w' h => hnext a w' (trans_of R hbefore h))
    fun e w' h => hfails e w' (trans_of R hbefore h))

theorem keeps_bind {f : α → Sandbox β} (hx : Keeps R x) (hf : ∀ a, Keeps R (f a)) :
    Keeps R (x >>= f) :=
  fun w => hx.ends_bind (refl_of R w)
    (fun a w' h => (hf a w').imp (fun _ _ => trans_of R h) fun _ _ => trans_of R h) fun _ _ h => h

theorem keeps_tryCatch {handle : Failure → Sandbox α} (hx : Keeps R x)
    (hhandle : ∀ e, Keeps R (handle e)) : Keeps R (tryCatch x handle) :=
  fun w => ends_tryCatch ((hx w).imp (fun _ _ h => h) fun e w' h =>
    (hhandle e w').imp (fun _ _ => trans_of R h) fun _ _ => trans_of R h)

end Preorder

end Sandbox

/-! ### Tracked paths -/

/-- The view of a path. -/
def World.look (w : World) (below : Location) (path : String) : View :=
  w.tree.view below (Path.location w.workingDirectory path)

theorem World.look_eq_absent {w : World} {below : Location} {path : String}
    (h : (w.look below path).here = none) (hclear : (w.look below path).Clear below) :
    w.look below path = .absent := by
  rw [look, view_here] at h
  exact view_eq_absent h hclear

/-- If a path has the same view, then the same is at its place. -/
theorem World.node?_eq_of_look_eq {w w' : World} {below : Location} {path : String}
    (hdirectory : w'.workingDirectory = w.workingDirectory)
    (h : w'.look below path = w.look below path) :
    w'.tree.node? (Path.location w.workingDirectory path) =
      w.tree.node? (Path.location w.workingDirectory path) := by
  rw [look, look, hdirectory] at h
  rw [← view_here below, ← view_here below, h]

/-- Any two of the tracked paths lead to places that lie apart. -/
def Separate (workingDirectory : String) (tracked : List String) : Prop :=
  tracked.Pairwise fun p q =>
    Location.Apart (Path.location workingDirectory p) (Path.location workingDirectory q)

instance (workingDirectory : String) (tracked : List String) :
    Decidable (Separate workingDirectory tracked) :=
  inferInstanceAs (Decidable (List.Pairwise _ _))

theorem Separate.of_cons {workingDirectory p : String} {tracked : List String}
    (h : Separate workingDirectory (p :: tracked)) : Separate workingDirectory tracked :=
  (List.pairwise_cons.1 h).2

/-- One host comes from another by calls of which those in `lost` had no effect, and which changed
    the views of no tracked paths but those in `changed`. -/
structure Reaches (below : Location) (tracked : List String) (lost : List Call)
    (changed : List String) (w w' : World) : Prop where
  /-- The working directory is the same. -/
  workingDirectory : w'.workingDirectory = w.workingDirectory
  /-- The schedule is the same. -/
  schedule : w'.schedule = w.schedule
  /-- The calls without effect are recorded. -/
  failed : w'.failed = w.failed ++ lost
  /-- The other views are the same. -/
  same : ∀ q ∈ tracked, q ∉ changed → w'.look below q = w.look below q
  /-- Still nothing lies below a file. -/
  clear : (∀ q ∈ tracked, (w.look below q).Clear below) →
    ∀ q ∈ tracked, (w'.look below q).Clear below

namespace Reaches

variable {below : Location} {tracked changed changed' : List String} {lost lost' : List Call}
  {w w' w'' : World}

theorem refl (w : World) : Reaches below tracked [] [] w w where
  workingDirectory := rfl
  schedule := rfl
  failed := (List.append_nil _).symm
  same _ _ _ := rfl
  clear h := h

theorem trans (h : Reaches below tracked lost changed w w')
    (h' : Reaches below tracked lost' changed' w' w'') :
    Reaches below tracked (lost ++ lost') (changed ++ changed') w w'' where
  workingDirectory := h'.workingDirectory.trans h.workingDirectory
  schedule := h'.schedule.trans h.schedule
  failed := by rw [h'.failed, h.failed, List.append_assoc]
  same q hq hchanged := by
    rw [List.mem_append, not_or] at hchanged
    rw [h'.same q hq hchanged.2, h.same q hq hchanged.1]
  clear hclear := h'.clear (h.clear hclear)

theorem mono (h : Reaches below tracked lost changed w w') (hsub : changed ⊆ changed') :
    Reaches below tracked lost changed' w w' where
  workingDirectory := h.workingDirectory
  schedule := h.schedule
  failed := h.failed
  same q hq hchanged := h.same q hq fun hmem => hchanged (hsub hmem)
  clear := h.clear

end Reaches

/-! ### Calls on tracked paths -/

theorem Separate.apart {workingDirectory : String} {tracked : List String}
    (h : Separate workingDirectory tracked) {p q : String} (hp : p ∈ tracked) (hq : q ∈ tracked)
    (hne : p ≠ q) :
    Location.Apart (Path.location workingDirectory p) (Path.location workingDirectory q) :=
  have : Std.Symm fun p q => Location.Apart (Path.location workingDirectory p)
      (Path.location workingDirectory q) := ⟨fun _ _ h => h.symm⟩
  List.Pairwise.forall h hp hq hne

section Calls

variable {below : Location} {tracked : List String} {w w' : World} {path source target : String}
  {fails : Failure → World → Prop}

/-- Calls that leave the views of all tracked paths as they are. -/
theorem Reaches.of_look_eq {lost : List Call}
    (hdirectory : w'.workingDirectory = w.workingDirectory) (hschedule : w'.schedule = w.schedule)
    (hfailed : w'.failed = w.failed ++ lost)
    (hlook : ∀ q ∈ tracked, w'.look below q = w.look below q) :
    Reaches below tracked lost [] w w' where
  workingDirectory := hdirectory
  schedule := hschedule
  failed := hfailed
  same q hq _ := hlook q hq
  clear hclear q hq := (hlook q hq).symm ▸ hclear q hq

/-- A call that leaves the tree as it is changes no view. -/
theorem Reaches.of_tree_eq {lost : List Call} (htree : w'.tree = w.tree)
    (hdirectory : w'.workingDirectory = w.workingDirectory) (hschedule : w'.schedule = w.schedule)
    (hfailed : w'.failed = w.failed ++ lost) : Reaches below tracked lost [] w w' :=
  .of_look_eq hdirectory hschedule hfailed fun q _ => by
    rw [World.look, World.look, htree, hdirectory]

/-- A call that changes the views of some paths, and leaves them clear. -/
theorem Reaches.of_effect {changed : List String}
    (hdirectory : w'.workingDirectory = w.workingDirectory) (hschedule : w'.schedule = w.schedule)
    (hfailed : w'.failed = w.failed)
    (hsame : ∀ q ∈ tracked, q ∉ changed → w'.look below q = w.look below q)
    (hclear : (∀ q ∈ tracked, (w.look below q).Clear below) →
      ∀ q ∈ changed, (w'.look below q).Clear below) :
    Reaches below tracked [] changed w w' where
  workingDirectory := hdirectory
  schedule := hschedule
  failed := by rw [hfailed, List.append_nil]
  same := hsame
  clear h q hq := by
    by_cases hchanged : q ∈ changed
    · exact hclear h q hchanged
    · rw [hsame q hq hchanged]
      exact h q hq

theorem ends_isPresent {returns : Bool → World → Prop} (hpath : path ≠ "")
    (hok : ∀ w', Reaches below tracked [] [] w w' → returns (w.look below path).here.isSome w')
    (hfailed : ∀ e w', Sandbox.Raw e → Reaches below tracked [.isPresent path] [] w w' →
      fails e w') :
    Sandbox.Ends (Host.isPresent path) w returns fails := by
  refine Sandbox.ends_query (fun present w' h htree hdirectory hschedule hnone => ?_)
    fun e w' hraw htree hdirectory hschedule hlost =>
      hfailed e w' hraw (.of_tree_eq htree hdirectory hschedule hlost)
  have hsome : present = (w.look below path).here.isSome := by
    rw [← Except.ok.inj h, FileTree.isPresent, decide_eq_true hpath, Bool.true_and]
    rfl
  rw [hsome]
  exact hok w' (.of_tree_eq htree hdirectory hschedule (by rw [hnone, List.append_nil]))

theorem ends_makeDirectories {returns : Unit → World → Prop}
    (hlead : ∀ q ∈ tracked, ¬ Path.location w.workingDirectory q <+:
      Path.location w.workingDirectory path)
    (hok : ∀ w', Reaches below tracked [] [] w w' → returns () w')
    (hfailed : ∀ e w', Sandbox.Raw e → Reaches below tracked [.makeDirectories path] [] w w' →
      fails e w') :
    Sandbox.Ends (Host.makeDirectories path) w returns fails := by
  refine Sandbox.ends_update (fun w' h hdirectory hschedule hnone => hok w' ?_)
    fun e w' hraw htree hdirectory hschedule hlost =>
      hfailed e w' hraw (.of_tree_eq htree hdirectory hschedule hlost)
  refine .of_effect hdirectory hschedule hnone (fun q hq _ => ?_)
    fun _ q hq => absurd hq List.not_mem_nil
  rw [World.look, World.look, hdirectory]
  exact view_makeDirectories h (hlead q hq)

theorem ends_writeText {text : String} {returns : Unit → World → Prop}
    (hseparate : Separate w.workingDirectory tracked) (hpath : path ∈ tracked)
    (hclear : (w.look below path).Clear below)
    (hok : ∀ w', Reaches below tracked [] [path] w w' → w'.look below path = .ofFile below text →
      returns () w')
    (hfailed : ∀ e w', Sandbox.Raw e → Reaches below tracked [.writeText path] [] w w' →
      fails e w') :
    Sandbox.Ends (Host.writeText path text) w returns fails := by
  refine Sandbox.ends_update (fun w' h hdirectory hschedule hnone => ?_)
    fun e w' hraw htree hdirectory hschedule hlost =>
      hfailed e w' hraw (.of_tree_eq htree hdirectory hschedule hlost)
  have hwritten : w'.look below path = .ofFile below text := by
    rw [World.look, hdirectory]
    exact view_writeText h hclear
  refine hok w' (.of_effect hdirectory hschedule hnone (fun q hq hchanged => ?_)
    fun _ q hq => ?_) hwritten
  · rw [World.look, World.look, hdirectory]
    exact view_writeText_of_apart h
      (hseparate.apart hpath hq fun heq => hchanged (heq ▸ List.mem_singleton_self _))
  · rw [List.mem_singleton.1 hq, hwritten]
    exact clear_ofFile

theorem ends_rename {returns : Unit → World → Prop}
    (hseparate : Separate w.workingDirectory tracked) (hsource : source ∈ tracked)
    (htarget : target ∈ tracked) (hne : source ≠ target)
    (hclear : ∀ q ∈ tracked, (w.look below q).Clear below)
    (hok : ∀ w', Reaches below tracked [] [source, target] w w' →
      w'.look below target = w.look below source → w'.look below source = .absent →
      returns () w')
    (hfailed : ∀ e w', Sandbox.Raw e → Reaches below tracked [.rename source target] [] w w' →
      fails e w') :
    Sandbox.Ends (Host.rename source target) w returns fails := by
  refine Sandbox.ends_update (fun w' h hdirectory hschedule hnone => ?_)
    fun e w' hraw htree hdirectory hschedule hlost =>
      hfailed e w' hraw (.of_tree_eq htree hdirectory hschedule hlost)
  have hapart := hseparate.apart hsource htarget hne
  obtain ⟨hmoved, hgone⟩ := view_rename h hapart (hclear target htarget)
  have hmoved : w'.look below target = w.look below source := by
    rw [World.look, hdirectory]
    exact hmoved
  have hgone : w'.look below source = .absent := by
    rw [World.look, hdirectory]
    exact hgone
  refine hok w' (.of_effect hdirectory hschedule hnone (fun q hq hchanged => ?_)
    fun _ q hq => ?_) hmoved hgone
  · rw [World.look, World.look, hdirectory]
    have hnot : q ≠ source ∧ q ≠ target := by simpa using hchanged
    exact view_rename_of_apart h hapart (hseparate.apart hsource hq hnot.1.symm)
      (hseparate.apart htarget hq hnot.2.symm)
  · rcases List.mem_pair.1 hq with rfl | rfl
    · rw [hgone]
      exact clear_absent
    · rw [hmoved]
      exact hclear source hsource

theorem ends_remove {returns : Unit → World → Prop}
    (hseparate : Separate w.workingDirectory tracked) (hpath : path ∈ tracked)
    (hok : ∀ w', Reaches below tracked [] [path] w w' →
      ((w.look below path).Clear below → w'.look below path = .absent) → returns () w')
    (hfailed : ∀ e w', Sandbox.Raw e → Reaches below tracked [.remove path] [] w w' →
      fails e w') :
    Sandbox.Ends (Host.remove path) w returns fails := by
  refine Sandbox.ends_update (fun w' h hdirectory hschedule hnone => ?_)
    fun e w' hraw htree hdirectory hschedule hlost =>
      hfailed e w' hraw (.of_tree_eq htree hdirectory hschedule hlost)
  have hgone : (w.look below path).Clear below → w'.look below path = .absent := by
    intro hclear
    rw [World.look, hdirectory]
    exact view_remove h hclear
  refine hok w' (.of_effect hdirectory hschedule hnone (fun q hq hchanged => ?_)
    fun hclear q hq => ?_) hgone
  · rw [World.look, World.look, hdirectory]
    exact view_remove_of_apart h
      (hseparate.apart hpath hq fun heq => hchanged (heq ▸ List.mem_singleton_self _))
  · rw [List.mem_singleton.1 hq, hgone (hclear path hpath)]
    exact clear_absent

/-- What is removed is no directory. -/
theorem ends_remove_plain (below : Location) :
    Sandbox.Ends (Host.remove path) w
      (fun _ _ => (w.look below path).here ≠ some .directory) fun _ _ => True := by
  refine Sandbox.ends_update (fun w' h _ _ _ => ?_) fun _ _ _ _ _ _ _ => trivial
  rw [World.look, view_here]
  exact (remove_eq_ok h).1

end Calls

end NodeTagging
