import Vanguard.Zone.FindLoaded

namespace Vanguard.Zone

open Library ZoneMap

variable {T : Type} [DomainTree T NameNode]

/-- The lookup takes no wrong wildcard. -/
def LookupFaithful (m : ZoneMap) (origin : Name) (deepest : Option Name) (name : Name)
    (typ : RRType) : Prop :=
  (m.topmostCut origin name).isSome = true ∨ m.Existing name ∨ m.closestEncloser name = none ∨
  ∃ encloser node, m.closestEncloser name = some encloser ∧ deepest = some node ∧
    -- an empty non-terminal at the right wildcard asks for an answer without data
    ((m.Existing encloser.wildcard ∧ ¬m.HasData encloser.wildcard) ∧ node ≠ encloser ∧
        m.HasData node.wildcard ∧ m node.wildcard typ = none ∧ m node.wildcard .cname = none ∨
      ¬(m.Existing encloser.wildcard ∧ ¬m.HasData encloser.wildcard) ∧
        (node = encloser ∨ ¬m.HasData node.wildcard))

open Classical in
/-- The two wildcards answer alike exactly when the lookup is faithful. -/
theorem wildcard_answers_iff {m : ZoneMap} {node encloser name : Name} (typ : RRType)
    (hdata : m.HasData encloser.wildcard → node = encloser) :
    (if m.HasData node.wildcard then m.answerAt node.wildcard typ name
      else Answer.negative .nxDomain) =
        (if m.Existing encloser.wildcard then m.answerAt encloser.wildcard typ name
          else .negative .nxDomain) ↔
      ((m.Existing encloser.wildcard ∧ ¬m.HasData encloser.wildcard) ∧ node ≠ encloser ∧
          m.HasData node.wildcard ∧ m node.wildcard typ = none ∧ m node.wildcard .cname = none ∨
        ¬(m.Existing encloser.wildcard ∧ ¬m.HasData encloser.wildcard) ∧
          (node = encloser ∨ ¬m.HasData node.wildcard)) := by
  by_cases hexists : m.Existing encloser.wildcard
  · by_cases hown : m.HasData encloser.wildcard
    · obtain rfl := hdata hown
      simp [hexists, hown]
    · rw [if_pos hexists, answerAt_of_not_hasData hown]
      by_cases hnode : m.HasData node.wildcard
      · have hne : node ≠ encloser := fun heq => hown (heq ▸ hnode)
        rw [if_pos hnode, answerAt_eq_nxRRset]
        simp [hexists, hown, hnode, hne]
      · simp [hexists, hown, hnode, Answer.negative]
  · rw [if_neg hexists]
    by_cases hnode : m.HasData node.wildcard
    · have hne : node ≠ encloser := fun heq => hexists (heq ▸ hnode.existing)
      simp [hexists, hnode, hne, answerAt_ne_nxDomain]
    · simp [hexists, hnode]

variable [LawfulDomainTree T NameNode]

theorem MemoryZone.Loaded.find_eq_lookup_iff_of_no_node {h : Objects} {z : MemoryZone T}
    (hz : z.Loaded h) {name : Name} (hin : z.origin <:+ name) (typ : RRType)
    (hcut : (properSuffixes name).find? ((z.content h).isCut z.origin) = none)
    (hnode : node z.domains name = none) :
    (∃ ctx, z.find name typ .default = .ok ctx ∧
      ctx.result.view h = (z.content h).lookup z.origin name typ) ↔
    LookupFaithful (z.content h) z.origin (deepestNode z.domains name) name typ := by
  obtain ⟨deepest, hdeepest⟩ : ∃ deepest, deepestNode z.domains name = some deepest := by
    by_contra hnone
    have hall := longestSuffix_eq_none.mp (Option.eq_none_iff_forall_ne_some.mpr fun d hd =>
      hnone ⟨d, hd⟩)
    simpa [hz.apex] using hall z.origin hin
  have hne : deepest ≠ name := by
    rintro rfl
    simpa [hnode] using (longestSuffix_eq_some.mp hdeepest).2.1
  have hempty : ¬(z.content h).HasData name := by simp [hz.hasData_iff, dataAt, hnode]
  have hself : (z.content h).isCut z.origin name ≠ true := fun hself =>
    hempty (hasData_of_isCut hself)
  have htop : (z.content h).topmostCut z.origin name = none := by
    simp [ZoneMap.topmostCut, List.find?_append, hcut, hself]
  obtain ⟨ctx, hfind, hview⟩ := hz.view_findPartial deepest typ hin hnode
  rw [← hz.find_of_deepestNode typ hcut hdeepest hne] at hfind
  have hleft : (∃ ctx, z.find name typ .default = .ok ctx ∧
      ctx.result.view h = (z.content h).lookup z.origin name typ) ↔
      ctx.result.view h = (z.content h).lookup z.origin name typ := by
    simp [hfind]
  rw [hleft, hview]
  simp only [ZoneMap.lookup, htop]
  by_cases hexists : (z.content h).Existing name
  · rw [if_pos hexists, if_pos hexists, answerAt_of_not_hasData hempty]
    exact iff_of_true rfl (.inr (.inl hexists))
  · rw [if_neg hexists, if_neg hexists]
    cases hencloser : (z.content h).closestEncloser name with
    | none =>
      have hwild : ¬(z.content h).HasData deepest.wildcard := fun hdata =>
        closestEncloser_eq_none.mp hencloser z.origin hin (hz.existing_origin hdata.existing)
      rw [if_neg hwild]
      exact iff_of_true rfl (.inr (.inr (.inl hencloser)))
    | some encloser =>
      obtain ⟨_, hown⟩ := hz.deepestNode_facts hdeepest hencloser
      simp only
      rw [wildcard_answers_iff typ hown]
      simp [LookupFaithful, htop, hexists, hencloser, hdeepest]

/-- A lookup gives the answer of the algorithm exactly when it takes no wrong wildcard. -/
theorem find_eq_lookup_iff {h : Objects} {origin : Name} {ps : List Ptr}
    (hps : ∀ p ∈ ps, p < h.rrsets.next) {s : ZoneState T}
    (hrun : run ZoneState.step ⟨h, newMemoryZone origin, []⟩ (ps.map .add) = .ok s)
    {name : Name} (hin : origin <:+ name) (typ : RRType) :
    (∃ ctx, s.zone.find name typ .default = .ok ctx ∧
      ctx.result.view s.objects = (s.zone.content s.objects).lookup origin name typ) ↔
    LookupFaithful (s.zone.content s.objects) origin (deepestNode s.zone.domains name)
      name typ := by
  obtain ⟨hz, rfl⟩ := loaded_of_run hps hrun
  cases hcut : (properSuffixes name).find? ((s.zone.content s.objects).isCut s.zone.origin) with
  | some cut =>
    have htop : (s.zone.content s.objects).topmostCut s.zone.origin name = some cut := by
      simp [ZoneMap.topmostCut, List.find?_append, hcut]
    obtain ⟨ctx, hfind, hview⟩ := hz.find_below_cut typ hcut
    refine iff_of_true ⟨ctx, hfind, ?_⟩ (.inl (by simp [htop]))
    simp only [hview, ZoneMap.lookup, htop]
  | none =>
    by_cases hnode : (node s.zone.domains name).isSome = true
    · have hview := hz.view_findExact typ hin hcut hnode
      refine iff_of_true ⟨_, hz.find_of_node typ hcut hnode, hview⟩ ?_
      by_cases hempty : (s.zone.content s.objects).Existing s.zone.origin
      · exact .inr (.inl (hz.existing_of_node hnode hempty))
      · refine .inr (.inr (.inl (closestEncloser_eq_none.mpr fun k _ hk => ?_)))
        exact hempty (hz.existing_origin hk)
    · exact hz.find_eq_lookup_iff_of_no_node hin typ hcut (by simpa using hnode)

/-- The objects of a zone with a wildcard and a name below an empty non-terminal. -/
def wildcardObjects : Objects := .ofLists
  [⟨["example"], .soa, .internet, 300, [0]⟩, ⟨["example"], .ns, .internet, 300, [1]⟩,
    ⟨["*", "example"], .a, .internet, 300, [2]⟩, ⟨["a", "b", "example"], .a, .internet, 300, [3]⟩]
  [.soa ⟨["ns", "example"], ["root", "example"], 1, 7200, 3600, 86400, 300⟩,
    .ns ["ns", "example"], .a [1, 1, 1, 1], .a [2, 2, 2, 2]]

def wildcardZone : MemoryZone (ReferenceTree NameNode) :=
  match run ZoneState.step ⟨wildcardObjects, newMemoryZone ["example"], []⟩
      ([0, 1, 2, 3].map .add) with
  | .ok s => s.zone
  | .error _ => newMemoryZone ["example"]

/-- The empty non-terminal has no node and is answered as the algorithm says. -/
theorem wildcardZone_lookup_nonTerminal :
    run ZoneState.step ⟨wildcardObjects, newMemoryZone ["example"], []⟩ ([0, 1, 2, 3].map .add) =
      .ok ⟨wildcardObjects, wildcardZone, [none, none, none, none]⟩ ∧
    ∃ ctx, wildcardZone.find ["b", "example"] .a .default = .ok ctx ∧
      ctx.result.view wildcardObjects =
        (wildcardZone.content wildcardObjects).lookup ["example"] ["b", "example"] .a := by
  have hrun : run ZoneState.step ⟨wildcardObjects, newMemoryZone ["example"], []⟩
      ([0, 1, 2, 3].map .add) = .ok ⟨wildcardObjects, wildcardZone, [none, none, none, none]⟩ := rfl
  have hexists : (wildcardZone.content wildcardObjects).Existing ["b", "example"] :=
    ⟨["a", "b", "example"], by decide, .a, by decide⟩
  exact ⟨hrun, (find_eq_lookup_iff (by decide) hrun (by decide) .a).mpr (.inr (.inl hexists))⟩

theorem wildcardZone_hasData {n : Name}
    (hdata : (wildcardZone.content wildcardObjects).HasData n) :
    n ∈ ([["example"], ["*", "example"], ["a", "b", "example"]] : List Name) := by
  obtain ⟨entry, hmem, hsome, rfl⟩ := node_of_hasData hdata
  have hnames : ∀ entry ∈ wildcardZone.domains.nodes, entry.2.data.isSome = true →
      entry.1 ∈ ([["example"], ["*", "example"], ["a", "b", "example"]] : List Name) := by
    decide
  exact hnames entry hmem hsome

/-- A name that is to be denied is answered from the wildcard below the origin. -/
theorem wildcardZone_lookup_wrong_wildcard :
    run ZoneState.step ⟨wildcardObjects, newMemoryZone ["example"], []⟩ ([0, 1, 2, 3].map .add) =
      .ok ⟨wildcardObjects, wildcardZone, [none, none, none, none]⟩ ∧
    (∃ ctx, wildcardZone.find ["c", "b", "example"] .a .default = .ok ctx ∧
      ctx.result.view wildcardObjects =
        ⟨.success, some (["c", "b", "example"], .a, ⟨300, [.a [1, 1, 1, 1]]⟩)⟩) ∧
    (wildcardZone.content wildcardObjects).lookup ["example"] ["c", "b", "example"] .a =
      .negative .nxDomain := by
  have hno {n : Name} (hn : ∀ k ∈ ([["example"], ["*", "example"], ["a", "b", "example"]] :
      List Name), ¬n <:+ k) : ¬(wildcardZone.content wildcardObjects).Existing n := by
    rintro ⟨k, hk, hdata⟩
    exact hn k (wildcardZone_hasData hdata) hk
  have hencloser : (wildcardZone.content wildcardObjects).closestEncloser ["c", "b", "example"] =
      some ["b", "example"] := by
    refine closestEncloser_eq_some.mpr
      ⟨by decide, ⟨["a", "b", "example"], by decide, .a, by decide⟩, fun k hk hexists => ?_⟩
    rcases List.suffix_cons_iff.mp hk with rfl | hk
    · exact absurd hexists (hno (by decide))
    · exact hk
  refine ⟨rfl, ⟨_, rfl, by decide⟩, ?_⟩
  have htop : (wildcardZone.content wildcardObjects).topmostCut ["example"] ["c", "b", "example"] =
      none := by
    decide
  simp only [ZoneMap.lookup, htop, hencloser]
  rw [if_neg (hno (by decide)), if_neg (hno (by decide))]

end Vanguard.Zone
