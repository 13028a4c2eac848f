import NodeTagging.Proofs.Exporting
import NodeTagging.Proofs.Leftovers

/-!
# Where an exported dump comes from

An engine is taken to have exported the dump if it reports success and something is at the path of
the dump then. That it wrote something is not looked at. So the dump that the classes are read from
is that of the engine whose command is given, if that engine wrote one; if it did not, it is what an
engine wrote that failed before, or what was there before all of them (`exported_dump_origin`).

* `text?_foldl_after`: engines leave what the last one that wrote has written;
* `Chosen`, `ends_tryCommands_chosen`: the engine whose command is given, and those before it;
* `leftover_is_taken_for_export`: a dump that was there before is taken for that of an engine that
  wrote none.
-/

namespace NodeTagging

open FileTree Sandbox

/-! ### What engines leave at a place -/

namespace FileTree

variable {t t' : FileTree} {place q : Location} {text : String}

theorem text?_store (h : place ≠ []) : (t.store place text).text? place = some text := by
  rw [text?, node?_store h, if_pos rfl]

/-- Where directories are made, no file appears or goes. -/
theorem text?_of_makeDirectories {workingDirectory path : String}
    (h : t.makeDirectories workingDirectory path = .ok t') : t'.text? q = t.text? q := by
  rw [(makeDirectories_eq_ok h).1, text?, text?, node?_storeDirectory]
  by_cases hnone : t.node? q = none ∧ q <+: Path.location workingDirectory path
  · rw [if_pos hnone, hnone.1]
  · rw [if_neg hnone]

/-- What runs leave at a place is what the last one that wrote has written, or else what was there
    before. -/
theorem text?_foldl_after (hplace : place ≠ []) (runs : List ScriptedRun) :
    (runs.foldl (fun t run => run.after place t) t).text? place =
      (runs.filterMap (·.writes?)).getLast?.or (t.text? place) := by
  induction runs generalizing t with
  | nil => rfl
  | cons run runs ih =>
    rw [List.foldl_cons, ih, ScriptedRun.after, List.filterMap_cons]
    cases run.writes? with
    | none => rfl
    | some text =>
      rw [text?_store hplace, List.getLast?_cons]
      cases (runs.filterMap (·.writes?)).getLast? with
      | none => rfl
      | some last => rfl

/-- After a run that wrote, something is at the place. -/
theorem isPresent_after {workingDirectory path : String} {run : ScriptedRun} (hpath : path ≠ "")
    (hwrites : run.writes? ≠ none) :
    (run.after (Path.location workingDirectory path) t).isPresent workingDirectory path = true := by
  obtain ⟨text, htext⟩ := Option.ne_none_iff_exists'.1 hwrites
  rw [ScriptedRun.after, htext, isPresent, decide_eq_true hpath, Bool.true_and]
  by_cases hplace : Path.location workingDirectory path = []
  · rw [hplace]
    rfl
  · rw [node?_store hplace, if_pos rfl]
    rfl

end FileTree

/-! ### The engine whose command is given -/

/-- After the first `n` engines one more was started, which counts as successful. -/
structure Chosen (schema : String) (engines : List String) (n : Nat) (run : ScriptedRun)
    (command : String) (w w' : World) : Prop
    extends Tried schema engines (n + 1) w w' where
  /-- The command is that of the engine. -/
  asked : engines[n]? = some command
  /-- This is how it ran. -/
  ran : w.script[n]? = some run
  /-- It reports success. -/
  isSuccess : run.outcome.isSuccess = true
  /-- Something is at the path then. -/
  isPresent : w'.tree.isPresent w.workingDirectory schema = true
  /-- Those before it that wrote have failed. -/
  earlier : ∀ other ∈ w.script.take n, other.writes? ≠ none → other.outcome.isSuccess = false

namespace Chosen

variable {schema command first : String} {engines others : List String} {n : Nat}
  {run : ScriptedRun} {w w₁ w₂ w' : World}

/-- The first engine exports the dump. -/
theorem of_first (h : Tried schema [command] 1 w w₁) (hlooked : Looked w₁ w')
    (hexported : (w.script.head?.any (·.outcome.isSuccess) &&
      w₁.tree.isPresent w₁.workingDirectory schema) = true) :
    ∃ run, Chosen schema (command :: others) 0 run command w w' := by
  rw [Bool.and_eq_true, h.workingDirectory] at hexported
  obtain ⟨hsuccess, hpresent⟩ := hexported
  obtain ⟨run, hrun, hrunSuccess⟩ := (Option.any_eq_true _ _).1 hsuccess
  exact ⟨run,
    { h.cons (.of_looked hlooked) with
      asked := rfl
      ran := by rw [← List.head?_eq_getElem?, hrun]
      isSuccess := hrunSuccess
      isPresent := by rw [hlooked.tree, hpresent]
      earlier := fun _ hother => absurd hother List.not_mem_nil }⟩

/-- The first engine does not export the dump, and one of the others does. -/
theorem cons (h : Tried schema [first] 1 w w₁) (hlooked : Looked w₁ w₂)
    (hexported : (w.script.head?.any (·.outcome.isSuccess) &&
      w₁.tree.isPresent w₁.workingDirectory schema) = false)
    (h' : Chosen schema others n run command w₂ w') :
    Chosen schema (first :: others) (n + 1) run command w w' where
  toTried := (h.looked_right hlooked).cons h'.toTried
  asked := h'.asked
  ran := by
    have hrun := h'.ran
    rwa [hlooked.script, h.script, List.getElem?_drop, Nat.add_comm] at hrun
  isSuccess := h'.isSuccess
  isPresent := by rw [← h.workingDirectory, ← hlooked.workingDirectory, h'.isPresent]
  earlier other hother hwrites := by
    have hrest := h'.earlier other
    have htree := h.tree
    rw [hlooked.script, h.script] at hrest
    have hpath : schema ≠ "" := by
      have hpresent := h'.isPresent
      rw [FileTree.isPresent, Bool.and_eq_true, decide_eq_true_iff] at hpresent
      exact hpresent.1
    rw [h.workingDirectory] at hexported
    cases hscript : w.script with
    | nil => simp [hscript] at hother
    | cons run₀ script =>
      rw [hscript] at hother hrest htree hexported
      rcases List.mem_cons.1 hother with rfl | hother
      · -- Had it succeeded, what it wrote would have been found.
        have hpresent : w₁.tree.isPresent w.workingDirectory schema = true := by
          rw [htree]
          exact isPresent_after hpath hwrites
        rw [hpresent, Bool.and_true] at hexported
        exact hexported
      · exact hrest hother hwrites

end Chosen

theorem ends_tryCommands_chosen (schema : String) (verbose : Bool)
    (attempts : List (String × String)) (engines : List String) (w : World) :
    Ends (Engine.tryCommands schema verbose attempts engines : Sandbox String) w
      (fun command w' => ∃ n run, Chosen schema engines n run command w w') fun _ _ => True := by
  induction engines generalizing attempts w with
  | nil => exact ends_throw trivial
  | cons first others ih =>
    refine ends_tryCommands_cons (fun w₁ htried exported hexported w₂ hlooked => ⟨?_, ?_⟩)
      fun _ _ _ _ _ => trivial
    · intro htrue
      exact ⟨0, Chosen.of_first htried hlooked (hexported.symm.trans htrue)⟩
    · intro hfalse attempts
      refine (ih attempts w₂).imp ?_ fun _ _ h => h
      rintro command w₃ ⟨n, run, hchosen⟩
      exact ⟨n + 1, run, .cons htried hlooked (hexported.symm.trans hfalse) hchosen⟩

/-! ### The dump that is read -/

/-- Where the text of a dump comes from, given what was there before, the runs before the one whose
    engine is taken for the exporter, and that run. -/
inductive DumpOrigin (before : Option String) (earlier : List ScriptedRun) (run : ScriptedRun)
    (text : String) : Prop where
  /-- The engine has written it. -/
  | written (h : run.writes? = some text)
  /-- The engine wrote nothing, but one before it did, which failed. -/
  | leftByFailed (hnone : run.writes? = none) (other : ScriptedRun) (hother : other ∈ earlier)
      (hfailed : other.outcome.isSuccess = false) (h : other.writes? = some text)
  /-- No engine wrote anything, and it was there before. -/
  | leftFromBefore (hnone : ∀ other ∈ earlier ++ [run], other.writes? = none)
      (h : before = some text)

/-- The last of some runs that wrote, or what was there before. -/
theorem DumpOrigin.of_getLast? {before : Option String} {earlier : List ScriptedRun}
    {run : ScriptedRun} {text : String}
    (hfailed : ∀ other ∈ earlier, other.writes? ≠ none → other.outcome.isSuccess = false)
    (h : (((earlier ++ [run]).filterMap (·.writes?)).getLast?.or before) = some text) :
    DumpOrigin before earlier run text := by
  rw [List.filterMap_append, List.getLast?_append, List.filterMap_cons, List.filterMap_nil] at h
  cases hrun : run.writes? with
  | some written =>
    rw [hrun] at h
    exact .written (hrun.trans h)
  | none =>
    rw [hrun, List.getLast?_nil, Option.none_or] at h
    cases hlast : (earlier.filterMap (·.writes?)).getLast? with
    | some left =>
      rw [hlast, Option.some_or] at h
      obtain ⟨other, hother, hwrites⟩ := List.mem_filterMap.1 (List.mem_of_getLast? hlast)
      exact .leftByFailed hrun other hother (hfailed other hother (by simp [hwrites]))
        (hwrites.trans h)
    | none =>
      rw [hlast, Option.none_or] at h
      refine .leftFromBefore (fun other hother => ?_) h
      rcases List.mem_append.1 hother with hother | hother
      · exact List.filterMap_eq_nil_iff.1 (List.getLast?_eq_none_iff.1 hlast) other hother
      · rw [List.mem_singleton.1 hother, hrun]

/-- The classes are those of the text of the file at the path. -/
theorem ends_loadGraph (path : String) (w : World) :
    Ends (Engine.loadGraph path) w
      (fun graph _ => ∃ text entries,
        w.tree.text? (Path.location w.workingDirectory path) = some text ∧
          Inheritance.readDump path text = .ok entries ∧ graph = .ofEntries entries)
      fun _ _ => True := by
  have hpresent : Ends (Host.isPresent path : Sandbox Bool) w (fun _ w₁ => Looked w w₁)
      fun _ _ => True :=
    ((reads_isPresent (List.mem_singleton_self path)).looked w).imp (fun _ _ h => h)
      fun _ _ _ => trivial
  refine ends_bind (hpresent.imp (fun present w₁ hlooked => ?_) fun _ _ _ => trivial)
  cases present with
  | false => exact ends_throw trivial
  | true =>
    refine ends_bind (ends_query (fun text w₂ hread _ _ _ _ => ?_) fun _ _ _ _ _ _ _ => trivial)
    refine ends_bind (ends_orProblem (fun entries hentries => ends_pure ?_) fun _ _ => trivial)
    refine ⟨text, entries, ?_, hentries, rfl⟩
    rw [hlooked.tree, hlooked.workingDirectory, FileTree.readText] at hread
    rw [FileTree.text?]
    split at hread
    next text' hnode => rw [hnode, Except.ok.inj hread]
    next => cases hread
    next => cases hread

/-- Whenever a dump is asked for and a command is given, it is that of an engine that was started
    and reports success. The classes that are read afterwards are those of the dump that this engine
    wrote, or if it wrote none, that an engine before it wrote, which failed, or that was there
    before. -/
theorem exported_dump_origin (schema : String) (verbose : Bool) (engines : List String)
    (w : World) :
    Ends (Engine.acquireDump schema true verbose engines : Sandbox (Option String)) w
      (fun exporter? w' => ∃ n command run,
        exporter? = some command ∧ engines[n]? = some command ∧ w.script[n]? = some run ∧
          run.outcome.isSuccess = true ∧
          (∀ text, w'.tree.text? (Path.location w.workingDirectory schema) = some text →
            DumpOrigin (w.tree.text? (Path.location w.workingDirectory schema)) (w.script.take n)
              run text) ∧
          Ends (Engine.loadGraph schema) w'
            (fun graph _ => ∃ text entries,
              w'.tree.text? (Path.location w.workingDirectory schema) = some text ∧
                Inheritance.readDump schema text = .ok entries ∧ graph = .ofEntries entries)
            fun _ _ => True)
      fun _ _ => True := by
  have hmake : Ends (Host.makeDirectories (Path.directory schema) : Sandbox Unit) w
      (fun _ w₁ => w.tree.makeDirectories w.workingDirectory (Path.directory schema) = .ok w₁.tree)
      fun _ _ => True :=
    ends_update (fun _ h _ _ _ => h) fun _ _ _ _ _ _ _ => trivial
  rw [Engine.acquireDump, if_pos rfl, map_eq_pure_bind, Engine.exportDump, bind_assoc]
  refine ends_bind ((hmake.and ends_update_recorded).imp ?_ fun _ _ _ => trivial)
  rintro - w₁ ⟨hmade, hsame, -, hscript⟩
  refine ends_bind ((ends_tryCommands_chosen schema verbose [] engines w₁).imp ?_
    fun _ _ _ => trivial)
  rintro command w' ⟨n, run, hchosen⟩
  have hdirectory : w'.workingDirectory = w.workingDirectory :=
    hchosen.workingDirectory.trans hsame.workingDirectory
  have hrun : w.script[n]? = some run := hscript ▸ hchosen.ran
  refine ends_pure ⟨n, command, run, rfl, hchosen.asked, hrun, hchosen.isSuccess,
    fun text htext => ?_, ?_⟩
  · -- At the top there is a directory, and no text.
    have hplace : Path.location w.workingDirectory schema ≠ [] := by
      intro htop
      rw [htop] at htext
      cases htext
    have htake : w.script.take (n + 1) = w.script.take n ++ [run] := by
      rw [List.take_add_one, hrun]
      rfl
    have hfailed := hchosen.earlier
    have htree := hchosen.tree
    rw [hscript, hsame.workingDirectory, htake] at htree
    rw [hscript] at hfailed
    rw [htree, text?_foldl_after hplace, text?_of_makeDirectories hmade] at htext
    exact .of_getLast? hfailed htext
  · rw [← hdirectory]
    exact ends_loadGraph schema w'

namespace Sample

/-- An engine that reports success and writes nothing, and a dump that is there before. -/
@[irreducible] def hostWithDump : World where
  tree := FileTree.empty.store ["work", "api.json"] "\x7b\"classes\":[]\x7d"
  workingDirectory := "/work"
  script := [{ status? := some 0 }]

end Sample

/-- The command is given of an engine that wrote nothing, and the dump is the one that was there. -/
theorem leftover_is_taken_for_export :
    Sample.hostWithDump.script = [{ status? := some 0 }] ∧
      ((Engine.acquireDump "api.json" true false ["godot"] : Sandbox (Option String)).run.run
          Sample.hostWithDump).1 = .ok (some "godot") ∧
      ((Engine.acquireDump "api.json" true false ["godot"] : Sandbox (Option String)).run.run
          Sample.hostWithDump).2.tree.text? ["work", "api.json"] =
        Sample.hostWithDump.tree.text? ["work", "api.json"] ∧
      Sample.hostWithDump.tree.text? ["work", "api.json"] = some "\x7b\"classes\":[]\x7d" := by
  decide +kernel

end NodeTagging
