import NodeTagging.Proofs.Agreement
import NodeTagging.Proofs.Rooted

/-!
# Tag lists

The tag list of a type name is the list of the classes whose markers the name receives. Of a member
it is the root followed by the members of its lineage, outermost first; of any other name it is the
root alone. So the tag lists are ordered as the members are below one another: they grow by one
class from a member to the next one below it, and one begins with another exactly if the member of
the other is above (`tag_lists_follow_ancestors`).

* `Rooted.resolve_eq_append`: the tag list of a member is that of the nearest member above it and
  then the member;
* `Rooted.resolve_prefix_iff`: proper beginnings are those of ancestors.
-/

namespace NodeTagging

open Hierarchy

namespace Taxonomy

/-- The members of a lineage, outermost first. -/
def membersAlong (t : Taxonomy) (c : String) : List String :=
  ((lineage t.parentOf c).filter fun a => a ∈ t.members).reverse

variable {t : Taxonomy} {a b c : String}

theorem mem_membersAlong_iff :
    a ∈ t.membersAlong c ↔ a ∈ t.members ∧ a ∈ lineage t.parentOf c := by
  rw [membersAlong, List.mem_reverse, List.mem_filter, decide_eq_true_eq, and_comm]

/-- The members of the lineage of a member of a lineage come first. -/
theorem prefix_membersAlong (hc : Grounded t.parentOf c) (ha : a ∈ lineage t.parentOf c) :
    t.membersAlong a <+: t.membersAlong c :=
  List.reverse_prefix.2 ((hc.lineage_suffix ha).filter _)

theorem membersAlong_of_mem (hc : c ∈ t.members) :
    t.membersAlong c =
      ((ancestors t.parentOf c).filter fun a => a ∈ t.members).reverse ++ [c] := by
  rw [membersAlong, lineage, List.filter_cons_of_pos (by simpa using hc), List.reverse_cons]

/-- The members of the lineage of a member are those of the lineage of the nearest member above it,
    and the member. -/
theorem membersAlong_eq_append (hgrounded : Grounded t.parentOf c) (hc : c ∈ t.members) :
    t.membersAlong c =
      (((ancestors t.parentOf c).find? fun a => a ∈ t.members).map t.membersAlong).getD [] ++
        [c] := by
  rw [membersAlong_of_mem hc]
  congr 1
  cases hnear : (ancestors t.parentOf c).find? fun a => a ∈ t.members with
  | none =>
    rw [List.filter_eq_nil_iff.2 (List.find?_eq_none.1 hnear)]
    rfl
  | some near =>
    -- No member is passed before the nearest one, whose lineage is all that is left of the chain.
    obtain ⟨hmember, front, above, hchain, hfront⟩ := List.find?_eq_some_iff_append.1 hnear
    have habove : ancestors t.parentOf near = above :=
      (hgrounded.of_append (c :: front) (congrArg (c :: ·) hchain)).ancestors_eq
    have hnone : (front.filter fun a => a ∈ t.members) = [] :=
      List.filter_eq_nil_iff.2 fun a ha => by simpa using hfront a ha
    rw [hchain, List.filter_append, hnone, List.nil_append, Option.map_some, Option.getD_some,
      membersAlong, lineage, habove]

/-- A name that is not that of a member receives the marker of the root alone. -/
theorem resolve_of_not_mem (h : c ∉ t.members) :
    (NameTable.ofTaxonomy t).resolve c = [t.root] := by
  rw [NameTable.resolve, find?_arms, if_neg h]
  split
  · rfl
  · rfl

namespace Rooted

variable (rooted : t.Rooted)

include rooted

/-- The tag list of a member is the root and then the members of its lineage. -/
theorem resolve_eq_membersAlong (hc : c ∈ t.members) :
    (NameTable.ofTaxonomy t).resolve c = t.root :: t.membersAlong c := by
  have htagged : t.taggedAncestors c =
      ((ancestors t.parentOf c).filter fun a => a ∈ t.members).reverse := by
    rw [taggedAncestors]
    congr 2
    funext a
    exact Bool.eq_iff_iff.2 ((rooted.isTagged_iff a).trans decide_eq_true_iff.symm)
  rw [resolve_of_mem rooted.root_not_mem hc, htagged, membersAlong_of_mem hc]

/-- The tag list of a member is that of the nearest member above it, or of the root if there is
    none, and then the member. -/
theorem resolve_eq_append (hc : c ∈ t.members) :
    (NameTable.ofTaxonomy t).resolve c =
      (NameTable.ofTaxonomy t).resolve
        (((ancestors t.parentOf c).find? fun a => a ∈ t.members).getD t.root) ++ [c] := by
  rw [rooted.resolve_eq_membersAlong hc, membersAlong_eq_append (rooted.grounded c hc) hc]
  cases hnear : (ancestors t.parentOf c).find? fun a => a ∈ t.members with
  | none => exact congrArg (· ++ [c]) resolve_root.symm
  | some near =>
    have hmember : near ∈ t.members := by simpa using List.find?_some hnear
    exact congrArg (· ++ [c]) (rooted.resolve_eq_membersAlong hmember).symm

/-- In the tag list of a member, every class is above all later ones. -/
theorem pairwise_resolve (hc : c ∈ t.members) :
    ((NameTable.ofTaxonomy t).resolve c).Pairwise fun a b => a ∈ ancestors t.parentOf b := by
  rw [rooted.resolve_eq_membersAlong hc, List.pairwise_cons]
  refine ⟨fun b hb => rooted.root_above b (mem_membersAlong_iff.1 hb).1, ?_⟩
  exact List.pairwise_reverse.2 ((rooted.grounded c hc).pairwise.filter _)

theorem nodup_resolve (hc : c ∈ t.members) : ((NameTable.ofTaxonomy t).resolve c).Nodup := by
  rw [rooted.resolve_eq_membersAlong hc, List.nodup_cons]
  refine ⟨fun h => rooted.root_not_mem (mem_membersAlong_iff.1 h).1, ?_⟩
  exact (List.reverse_perm _).nodup_iff.2 ((rooted.grounded c hc).nodup_lineage.filter _)

/-- The tag list of a member is a proper beginning of that of another exactly if the one is above
    the other. -/
theorem resolve_prefix_iff (ha : a ∈ t.members) (hb : b ∈ t.members) :
    ((NameTable.ofTaxonomy t).resolve a <+: (NameTable.ofTaxonomy t).resolve b ∧
        (NameTable.ofTaxonomy t).resolve a ≠ (NameTable.ofTaxonomy t).resolve b) ↔
      a ∈ ancestors t.parentOf b := by
  have hgrounded := rooted.grounded b hb
  rw [rooted.resolve_eq_membersAlong ha, rooted.resolve_eq_membersAlong hb,
    List.cons_prefix_cons, and_iff_right rfl, ne_eq, List.cons.injEq, and_iff_right rfl]
  constructor
  · rintro ⟨hbegins, hne⟩
    -- A member is in its own list, so that it is in every list that begins with it.
    have hmem : a ∈ t.membersAlong b :=
      hbegins.subset (mem_membersAlong_iff.2 ⟨ha, mem_lineage_self _ a⟩)
    refine (mem_lineage_iff.1 (mem_membersAlong_iff.1 hmem).2).resolve_left fun heq => ?_
    exact hne (congrArg t.membersAlong heq)
  · intro habove
    have hlineage : a ∈ lineage t.parentOf b := mem_lineage_iff.2 (.inr habove)
    refine ⟨prefix_membersAlong hgrounded hlineage, fun heq => ?_⟩
    have hmem : b ∈ t.membersAlong a :=
      heq ▸ mem_membersAlong_iff.2 ⟨hb, mem_lineage_self _ b⟩
    obtain rfl := hgrounded.lineage_antisymm hlineage (mem_membersAlong_iff.1 hmem).2
    exact hgrounded.not_mem_self habove

end Rooted

end Taxonomy

/-! ### Of every dump -/

/-- The tag list of a member is that of the nearest member above it, or of the root if there is
    none, followed by the member. It holds no class twice, begins with the root, and goes on with
    the member and the members above it, each before those below it. Of two members, the list of one
    is a proper beginning of that of the other exactly if the one is above the other. The list of
    any name that is not a member's is the root alone. -/
theorem tag_lists_follow_ancestors {graph : Inheritance} {rules : TaxonomyRules} {t : Taxonomy}
    (built : Taxonomy.build graph rules = .ok t) :
    let tags := (NameTable.ofTaxonomy t).resolve
    (∀ c ∈ t.members,
      tags c = tags (((ancestors t.parentOf c).find? fun a => a ∈ t.members).getD t.root) ++ [c] ∧
      (tags c).Nodup ∧
      (∃ others, tags c = t.root :: others ∧
        ∀ a, a ∈ others ↔ a = c ∨ a ∈ t.members ∧ a ∈ ancestors t.parentOf c) ∧
      (tags c).Pairwise fun a b => a ∈ ancestors t.parentOf b) ∧
    (∀ a ∈ t.members, ∀ b ∈ t.members,
      tags a <+: tags b ∧ tags a ≠ tags b ↔ a ∈ ancestors t.parentOf b) ∧
    (∀ name, name ∉ t.members → tags name = [t.root]) := by
  intro tags
  have rooted := Taxonomy.rooted_of_build built
  refine ⟨fun c hc => ⟨rooted.resolve_eq_append hc, rooted.nodup_resolve hc, ?_,
    rooted.pairwise_resolve hc⟩, fun a ha b hb => rooted.resolve_prefix_iff ha hb,
    fun name hname => Taxonomy.resolve_of_not_mem hname⟩
  refine ⟨t.membersAlong c, rooted.resolve_eq_membersAlong hc, fun a => ?_⟩
  rw [Taxonomy.mem_membersAlong_iff, mem_lineage_iff]
  constructor
  · rintro ⟨ha, rfl | habove⟩
    · exact .inl rfl
    · exact .inr ⟨ha, habove⟩
  · rintro (rfl | ⟨ha, habove⟩)
    · exact ⟨hc, .inl rfl⟩
    · exact ⟨ha, .inr habove⟩

/-- A sprite has its tags from the canvas items, past a class between them that is excluded. -/
theorem tag_lists_follow_ancestors_past_excluded :
    Taxonomy.build (.ofEntries Sample.dump) Sample.config.taxonomy = .ok Sample.taxonomy ∧
      "Sprite2D" ∈ Sample.taxonomy.members ∧ "CanvasItem" ∈ Sample.taxonomy.members ∧
      "Node2D" ∉ Sample.taxonomy.members ∧
      (NameTable.ofTaxonomy Sample.taxonomy).resolve "Sprite2D" =
        (NameTable.ofTaxonomy Sample.taxonomy).resolve "CanvasItem" ++ ["Sprite2D"] ∧
      "CanvasItem" ∈ ancestors Sample.taxonomy.parentOf "Sprite2D" ∧
      (NameTable.ofTaxonomy Sample.taxonomy).resolve "Node2D" = ["Node"] := by
  have hlists := tag_lists_follow_ancestors Sample.build_dump
  have hsprite : "Sprite2D" ∈ Sample.taxonomy.members := by decide +kernel
  have hcanvas : "CanvasItem" ∈ Sample.taxonomy.members := by decide +kernel
  have hexcluded : "Node2D" ∉ Sample.taxonomy.members := by decide +kernel
  have hnearest : ((ancestors Sample.taxonomy.parentOf "Sprite2D").find?
      fun a => a ∈ Sample.taxonomy.members).getD Sample.taxonomy.root = "CanvasItem" := by
    decide +kernel
  have happend := (hlists.1 "Sprite2D" hsprite).1
  rw [hnearest] at happend
  refine ⟨Sample.build_dump, hsprite, hcanvas, hexcluded, happend, ?_,
    hlists.2.2 "Node2D" hexcluded⟩
  refine (hlists.2.1 "CanvasItem" hcanvas "Sprite2D" hsprite).1 ?_
  rw [happend]
  exact ⟨List.prefix_append _ _, by simp⟩

end NodeTagging
