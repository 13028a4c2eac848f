import Mathlib.Data.List.Induction
import NodeTagging.Host.FileTree

/-!
# What file operations change

A *view* of a place is what is at it and at one location below it. For places that lie apart the
operations on a file tree are those on a simple store of views: writing a file sets a view, removing
one empties it, and moving takes a view from one place to another. All other views stay the same.

* `view_writeText`, `view_rename`, `view_remove`: the views that an operation changes;
* `view_writeText_of_apart`, `view_rename_of_apart`, `view_remove_of_apart`,
  `view_makeDirectories`: those that it does not;
* `clear_of_wellFormed`: in a tree of files and directories nothing lies below a file.

The location below is arbitrary but fixed. That it may be the place itself makes the statements hold
of trees that are not well-formed too.
-/

namespace NodeTagging

/-- Neither of two locations lies in the other. -/
def Location.Apart (p q : Location) : Prop :=
  ¬ p <+: q ∧ ¬ q <+: p

namespace Location.Apart

instance (p q : Location) : Decidable (Apart p q) :=
  inferInstanceAs (Decidable (_ ∧ _))

variable {p q : Location}

theorem symm (h : Apart p q) : Apart q p :=
  ⟨h.2, h.1⟩

theorem ne (h : Apart p q) : p ≠ q := by
  rintro rfl
  exact h.1 List.prefix_rfl

theorem ne_nil (h : Apart p q) : p ≠ [] := by
  rintro rfl
  exact h.1 List.nil_prefix

theorem not_prefix_append (h : Apart p q) (below : Location) : ¬ p <+: q ++ below := by
  intro hp
  rcases List.prefix_or_prefix_of_prefix hp (List.prefix_append q below) with hpq | hqp
  · exact h.1 hpq
  · exact h.2 hqp

end Location.Apart

theorem Table.get?_cons {α β : Type} [DecidableEq α] {entries : List (α × β)} {k : α} {v : β}
    (nodup : (((k, v) :: entries).map Prod.fst).Nodup) (k' : α) :
    (⟨(k, v) :: entries, nodup⟩ : Table α β).get? k' =
      if k' = k then some v else (⟨entries, (List.nodup_cons.1 nodup).2⟩ : Table α β).get? k' := by
  rw [get?, get?, List.lookup_cons]
  by_cases h : k' = k
  · simp [h]
  · simp [h, beq_false_of_ne h]

namespace FileTree

variable {t t' : FileTree} {place q source target : Location} {node : FileNode}

/-! ### Nodes -/

theorem node?_put (h : place ≠ []) :
    (t.put place node).node? q = if q = place then some node else t.node? q := by
  rw [put, if_neg h, node?, node?, Table.get?_insert]
  by_cases hq : q = []
  · subst hq
    simp [Ne.symm h]
  · simp [hq]

theorem node?_fill {places : List Location} (h : q ∉ places) :
    (t.fill places).node? q = t.node? q := by
  induction places generalizing t with
  | nil => rfl
  | cons p places ih =>
    obtain ⟨hp, hplaces⟩ := not_or.1 (List.mem_cons.not.1 h)
    rw [fill, List.foldl_cons]
    refine (ih hplaces).trans ?_
    split
    · rfl
    · by_cases hne : p = []
      · rw [put, if_pos hne]
      · rw [node?_put hne, if_neg hp]

theorem node?_prune (h : place ≠ []) :
    (t.prune place).node? q = if place <+: q then none else t.node? q := by
  rw [prune, node?, node?, Table.get?_filterKeys]
  by_cases hq : q = []
  · subst hq
    simp [h]
  · by_cases hp : place <+: q
    · simp [hq, hp, List.isPrefixOf_iff_prefix.2 hp]
    · have hfalse : place.isPrefixOf q = false :=
        Bool.eq_false_iff.2 fun htrue => hp (List.isPrefixOf_iff_prefix.1 htrue)
      simp [hq, hp, hfalse]

/-- Putting moved entries at their new places: what is below the target afterwards. -/
theorem node?_foldl_put (h : target ≠ []) {moved : Table Location FileNode}
    (hsource : ∀ e ∈ moved.entries, source <+: e.1) (below : Location) :
    (moved.entries.foldl (fun t e => t.put (target ++ e.1.drop source.length) e.2) t).node?
        (target ++ below) =
      (moved.get? (source ++ below)).or (t.node? (target ++ below)) := by
  obtain ⟨entries, nodup⟩ := moved
  induction entries generalizing t with
  | nil => rfl
  | cons e entries ih =>
    obtain ⟨place, node⟩ := e
    obtain ⟨hnew, hnodup⟩ := List.nodup_cons.1 nodup
    obtain ⟨rest, rfl⟩ := hsource _ List.mem_cons_self
    have hothers := ih (t := t.put (target ++ rest) node) hnodup fun e he =>
      hsource e (List.mem_cons_of_mem _ he)
    rw [List.foldl_cons, List.drop_left]
    refine hothers.trans ?_
    rw [node?_put (by simp [h]), Table.get?_cons]
    by_cases hbelow : below = rest
    · -- No later entry is at the place of this one.
      have hnone : (⟨entries, hnodup⟩ : Table Location FileNode).get? (source ++ rest) = none :=
        Table.get?_eq_none_iff.2 hnew
      simp [hbelow, hnone]
    · simp [hbelow]

/-- Putting moved entries at their new places changes nothing elsewhere. -/
theorem node?_foldl_put_of_not_prefix (h : ¬ target <+: q)
    (entries : List (Location × FileNode)) :
    (entries.foldl (fun t e => t.put (target ++ e.1.drop source.length) e.2) t).node? q =
      t.node? q := by
  have htarget : target ≠ [] := by
    rintro rfl
    exact h List.nil_prefix
  induction entries generalizing t with
  | nil => rfl
  | cons e entries ih =>
    rw [List.foldl_cons, ih, node?_put (by simp [htarget]), if_neg]
    rintro rfl
    exact h (List.prefix_append _ _)

/-- Moving takes everything at and below the source to the target. -/
theorem node?_move (h : Location.Apart source target) (below : Location) :
    (t.move source target).node? (target ++ below) =
      (t.node? (source ++ below)).or (t.node? (target ++ below)) := by
  have hlookup : (t.nodes.filterKeys fun p => source.isPrefixOf p).get? (source ++ below) =
      t.node? (source ++ below) := by
    rw [Table.get?_filterKeys, if_pos (List.isPrefixOf_iff_prefix.2 (List.prefix_append _ _)),
      node?, if_neg (by simp [h.ne_nil])]
  have hsource : ∀ e ∈ (t.nodes.filterKeys fun p => source.isPrefixOf p).entries,
      source <+: e.1 :=
    fun e he => List.isPrefixOf_iff_prefix.1 (List.mem_filter.1 he).2
  have hmoved := node?_foldl_put (t := t.prune source) h.symm.ne_nil hsource below
  rw [hlookup, node?_prune h.ne_nil, if_neg (h.not_prefix_append below)] at hmoved
  exact hmoved

theorem node?_move_of_not_below (h : Location.Apart source target) (hq : ¬ target <+: q) :
    (t.move source target).node? q = if source <+: q then none else t.node? q := by
  rw [move, node?_foldl_put_of_not_prefix hq, node?_prune h.ne_nil]

/-! ### Views -/

/-- What is at a place and at one location below it. -/
structure View where
  /-- What is at the place. -/
  here : Option FileNode
  /-- What is at the location below. -/
  below : Option FileNode
deriving DecidableEq, Repr

/-- The view of a place where nothing is. -/
def View.absent : View := ⟨none, none⟩

/-- The view of a place with a file. The location below may be the place itself. -/
def View.ofFile (below : Location) (text : String) : View where
  here := some (.file text)
  below := if below = [] then some (.file text) else none

/-- The view of a place. -/
def view (below : Location) (t : FileTree) (place : Location) : View :=
  ⟨t.node? place, t.node? (place ++ below)⟩

@[simp] theorem view_here (below : Location) (t : FileTree) (place : Location) :
    (t.view below place).here = t.node? place := by
  rw [view]

@[simp] theorem view_below (below : Location) (t : FileTree) (place : Location) :
    (t.view below place).below = t.node? (place ++ below) := by
  rw [view]

/-- Nothing lies below the place of a view unless it is a directory. -/
def View.Clear (below : Location) (v : View) : Prop :=
  v.here ≠ some .directory → below ≠ [] → v.below = none

theorem View.Clear.node?_eq_none {below : Location} (h : (t.view below place).Clear below)
    (hplace : t.node? place ≠ some .directory) (hbelow : below ≠ []) :
    t.node? (place ++ below) = none := by
  rw [Clear, view_here, view_below] at h
  exact h hplace hbelow

/-- Whatever lies in something lies in a directory. -/
def WellFormed (t : FileTree) : Prop :=
  ∀ (place : Location) (step : String), (t.node? (place ++ [step])).isSome →
    t.node? place = some .directory

theorem clear_nil (v : View) : v.Clear [] :=
  fun _ hne => absurd rfl hne

theorem clear_of_wellFormed (h : t.WellFormed) (below : Location) (place : Location) :
    (t.view below place).Clear below := by
  intro hplace hbelow
  rw [view_here] at hplace
  rw [view_below]
  induction below using List.reverseRecOn with
  | nil => exact absurd rfl hbelow
  | append_singleton below step ih =>
    -- The location before the last step is a directory, and lies below the place or is the place.
    refine Option.not_isSome_iff_eq_none.1 fun hsome => ?_
    rw [← List.append_assoc] at hsome
    have hdirectory := h (place ++ below) step hsome
    by_cases hnil : below = []
    · rw [hnil, List.append_nil] at hdirectory
      exact hplace hdirectory
    · rw [ih hnil] at hdirectory
      simp at hdirectory

variable {below : Location} {workingDirectory path text sourcePath targetPath : String}

theorem clear_absent : View.absent.Clear below :=
  fun _ _ => rfl

theorem clear_ofFile : (View.ofFile below text).Clear below :=
  fun _ hne => if_neg hne

/-- Where nothing is, nothing lies below. -/
theorem view_eq_absent (h : t.node? place = none) (hclear : (t.view below place).Clear below) :
    t.view below place = .absent := by
  by_cases hnil : below = []
  · rw [view, hnil, List.append_nil, h]
    rfl
  · rw [view, h, hclear.node?_eq_none (by simp [h]) hnil]
    rfl

theorem view_eq_of_apart (h : Location.Apart place q)
    (hsame : ∀ p, ¬ place <+: p → t'.node? p = t.node? p) : t'.view below q = t.view below q := by
  rw [view, view, hsame q h.1, hsame (q ++ below) (h.not_prefix_append below)]

/-! ### Operations -/

/-- Making directories changes no view of a place that they do not lead to. -/
theorem view_makeDirectories (h : t.makeDirectories workingDirectory path = .ok t')
    (hq : ¬ q <+: Path.location workingDirectory path) : t'.view below q = t.view below q := by
  have hsame : ∀ p, q <+: p → t'.node? p = t.node? p := by
    intro p hp
    rw [makeDirectories] at h
    split at h
    · simp at h
    · split at h
      · simp at h
      · rw [← Except.ok.inj h, storeDirectory, node?_fill]
        intro hmem
        -- All directories that are made are on the way to the path.
        rcases List.mem_append.1 hmem with habove | hplace
        · obtain ⟨n, -, rfl⟩ := List.mem_map.1 habove
          exact hq (hp.trans (List.take_prefix n _))
        · rw [List.mem_singleton.1 hplace] at hp
          exact hq hp
  rw [view, view, hsame q List.prefix_rfl, hsame (q ++ below) (List.prefix_append q below)]

/-- A file that is written is what its place holds, and only there something has changed. -/
theorem node?_writeText (h : t.writeText workingDirectory path text = .ok t') (q : Location) :
    t.node? (Path.location workingDirectory path) ≠ some .directory ∧
      t'.node? q = if q = Path.location workingDirectory path then some (.file text)
        else t.node? q := by
  rw [writeText] at h
  split at h
  · simp at h
  · next hdirectory =>
    refine ⟨hdirectory, ?_⟩
    split at h
    · simp at h
    · split at h
      · simp at h
      · have hne : Path.location workingDirectory path ≠ [] := by
          intro hnil
          rw [hnil] at hdirectory
          exact hdirectory rfl
        rw [← Except.ok.inj h, node?_put hne]

theorem view_writeText (h : t.writeText workingDirectory path text = .ok t')
    (hclear : (t.view below (Path.location workingDirectory path)).Clear below) :
    t'.view below (Path.location workingDirectory path) = .ofFile below text := by
  rw [view, View.ofFile, (node?_writeText h _).2, (node?_writeText h _).2, if_pos rfl]
  by_cases hnil : below = []
  · simp [hnil]
  · rw [if_neg (by simp [hnil]), if_neg hnil, hclear.node?_eq_none (node?_writeText h []).1 hnil]

theorem view_writeText_of_apart (h : t.writeText workingDirectory path text = .ok t')
    (hq : Location.Apart (Path.location workingDirectory path) q) :
    t'.view below q = t.view below q := by
  refine view_eq_of_apart hq fun p hp => ?_
  rw [(node?_writeText h p).2, if_neg]
  rintro rfl
  exact hp List.prefix_rfl

/-- What a move takes: there is something at the source, and it fits what is at the target. -/
theorem rename_eq_ok (h : t.rename workingDirectory sourcePath targetPath = .ok t') :
    t' = t.move (Path.location workingDirectory sourcePath)
        (Path.location workingDirectory targetPath) ∧
      (t.node? (Path.location workingDirectory sourcePath)).isSome ∧
      (t.node? (Path.location workingDirectory targetPath) = some .directory →
        t.hasEntries (Path.location workingDirectory targetPath) = false) := by
  rw [rename] at h
  simp only at h
  split at h
  · simp at h
  · simp at h
  · simp at h
  · next hsource hother =>
    refine ⟨(Except.ok.inj h).symm, by simp [hsource], fun hdirectory => ?_⟩
    exact (hother hdirectory).elim
  · next hsource _ =>
    split at h
    · simp at h
    · next hentries =>
      exact ⟨(Except.ok.inj h).symm, by simp [hsource], fun _ => by simpa using hentries⟩
  · next hsource htarget =>
    exact ⟨(Except.ok.inj h).symm, by simp [hsource], fun hdirectory => by
      simp [htarget] at hdirectory⟩

theorem node?_append_of_hasEntries (h : t.hasEntries place = false) (hne : below ≠ []) :
    t.node? (place ++ below) = none := by
  rw [node?, if_neg (by simp [hne])]
  refine Table.get?_eq_none_iff.2 fun hkey => ?_
  rw [hasEntries, List.any_eq_false] at h
  have hinside : place.isPrefixOf (place ++ below) = true :=
    List.isPrefixOf_iff_prefix.2 (List.prefix_append _ _)
  simpa [hinside, hne] using h (place ++ below) hkey

/-- A move takes the view of its source to its target. -/
theorem view_rename (h : t.rename workingDirectory sourcePath targetPath = .ok t')
    (hapart : Location.Apart (Path.location workingDirectory sourcePath)
      (Path.location workingDirectory targetPath))
    (hclear : (t.view below (Path.location workingDirectory targetPath)).Clear below) :
    t'.view below (Path.location workingDirectory targetPath) =
        t.view below (Path.location workingDirectory sourcePath) ∧
      t'.view below (Path.location workingDirectory sourcePath) = .absent := by
  obtain ⟨rfl, hsource, hentries⟩ := rename_eq_ok h
  -- What is moved meets nothing: the target is a file, an empty directory or nothing.
  have htarget : below ≠ [] →
      t.node? (Path.location workingDirectory targetPath ++ below) = none := by
    intro hne
    by_cases hdirectory :
        t.node? (Path.location workingDirectory targetPath) = some .directory
    · exact node?_append_of_hasEntries (hentries hdirectory) hne
    · exact hclear.node?_eq_none hdirectory hne
  have hhere := node?_move (t := t) hapart []
  rw [List.append_nil, List.append_nil, Option.or_of_isSome hsource] at hhere
  have hbelow := node?_move (t := t) hapart below
  constructor
  · rw [view, view, hhere, hbelow]
    by_cases hnil : below = []
    · rw [hnil, List.append_nil, List.append_nil, Option.or_of_isSome hsource]
    · rw [htarget hnil, Option.or_none]
  · rw [view, node?_move_of_not_below hapart hapart.2,
      node?_move_of_not_below hapart (hapart.symm.not_prefix_append below), if_pos List.prefix_rfl,
      if_pos (List.prefix_append _ _)]
    rfl

theorem view_rename_of_apart (h : t.rename workingDirectory sourcePath targetPath = .ok t')
    (hapart : Location.Apart (Path.location workingDirectory sourcePath)
      (Path.location workingDirectory targetPath))
    (hsource : Location.Apart (Path.location workingDirectory sourcePath) q)
    (htarget : Location.Apart (Path.location workingDirectory targetPath) q) :
    t'.view below q = t.view below q := by
  obtain ⟨rfl, -, -⟩ := rename_eq_ok h
  rw [view, view, node?_move_of_not_below hapart htarget.1, if_neg hsource.1,
    node?_move_of_not_below hapart (htarget.not_prefix_append below),
    if_neg (hsource.not_prefix_append below)]

/-- A removal takes a file away, or finds nothing. -/
theorem remove_eq_ok (h : t.remove workingDirectory path = .ok t') :
    t.node? (Path.location workingDirectory path) ≠ some .directory ∧
      (t' = t.prune (Path.location workingDirectory path) ∨
        t' = t ∧ t.node? (Path.location workingDirectory path) = none) := by
  rw [remove] at h
  split at h
  · simp at h
  · next hfile => exact ⟨by simp [hfile], .inl (Except.ok.inj h).symm⟩
  · next hnone =>
    split at h
    · simp at h
    · exact ⟨by simp [hnone], .inr ⟨(Except.ok.inj h).symm, hnone⟩⟩

theorem view_remove (h : t.remove workingDirectory path = .ok t')
    (hclear : (t.view below (Path.location workingDirectory path)).Clear below) :
    t'.view below (Path.location workingDirectory path) = .absent := by
  obtain ⟨hdirectory, rfl | ⟨rfl, hnone⟩⟩ := remove_eq_ok h
  · have hne : Path.location workingDirectory path ≠ [] := by
      intro hnil
      rw [hnil] at hdirectory
      exact hdirectory rfl
    rw [view, node?_prune hne, node?_prune hne, if_pos List.prefix_rfl,
      if_pos (List.prefix_append _ _)]
    rfl
  · exact view_eq_absent hnone hclear

theorem view_remove_of_apart (h : t.remove workingDirectory path = .ok t')
    (hq : Location.Apart (Path.location workingDirectory path) q) :
    t'.view below q = t.view below q := by
  obtain ⟨-, rfl | ⟨rfl, -⟩⟩ := remove_eq_ok h
  · exact view_eq_of_apart hq fun p hp => by rw [node?_prune hq.ne_nil, if_neg hp]
  · rfl

end FileTree

end NodeTagging
