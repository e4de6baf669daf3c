import Vanguard.Zone.Find
import Vanguard.Zone.Loaded
import Vanguard.Zone.ZoneMap

namespace Vanguard.Zone

open Library

/-- An answer as a client sees it: its kind, and an RRset as owner, type and entry. -/
structure Answer where
  typ : ResultType
  rrset : Option (Name × RRType × Entry)
  deriving DecidableEq, Repr

def Answer.negative (typ : ResultType) : Answer := ⟨typ, none⟩

namespace ZoneMap

section

variable (m : ZoneMap)

def HasData (n : Name) : Prop := ∃ t, (m n t).isSome = true

def Existing (n : Name) : Prop := ∃ k, n <:+ k ∧ m.HasData k

def isCut (origin n : Name) : Bool := n ≠ origin && (m n .ns).isSome

def topmostCut (origin name : Name) : Option Name :=
  (properSuffixes name ++ [name]).find? (m.isCut origin)

open Classical in
noncomputable def closestEncloser (name : Name) : Option Name :=
  longestSuffix (fun n => decide (m.Existing n)) name

/-- The entry of the type, else the CNAME, else no data, shown under an owner. -/
def answerAt (n : Name) (typ : RRType) (owner : Name) : Answer :=
  match m n typ with
  | some e => ⟨.success, some (owner, typ, e)⟩
  | none =>
    match m n .cname with
    | some e => ⟨.cname, some (owner, .cname, e)⟩
    | none => .negative .nxRRset

open Classical in
noncomputable def lookup (origin name : Name) (typ : RRType) : Answer :=
  match m.topmostCut origin name with
  | some cut => ⟨.delegation, (m cut .ns).map fun e => (cut, .ns, e)⟩
  | none =>
    if m.Existing name then m.answerAt name typ name
    else
      match m.closestEncloser name with
      | none => .negative .nxDomain
      | some encloser =>
        if m.Existing encloser.wildcard then m.answerAt encloser.wildcard typ name
        else .negative .nxDomain

end

variable {m : ZoneMap} {n : Name}

theorem HasData.existing (hdata : m.HasData n) : m.Existing n := ⟨n, List.suffix_rfl, hdata⟩

theorem closestEncloser_eq_some {name e : Name} : m.closestEncloser name = some e ↔
    e <:+ name ∧ m.Existing e ∧ ∀ k, k <:+ name → m.Existing k → k <:+ e := by
  simp [closestEncloser, longestSuffix_eq_some]

theorem closestEncloser_eq_none {name : Name} : m.closestEncloser name = none ↔
    ∀ k, k <:+ name → ¬m.Existing k := by
  simp [closestEncloser, longestSuffix_eq_none]

theorem answerAt_of_not_hasData (hdata : ¬m.HasData n) (typ : RRType) (owner : Name) :
    m.answerAt n typ owner = .negative .nxRRset := by
  have hnone (t : RRType) : m n t = none := by
    by_contra hsome
    exact hdata ⟨t, by simpa [Option.isSome_iff_ne_none] using hsome⟩
  simp [answerAt, hnone]

theorem answerAt_eq_nxRRset {typ : RRType} {owner : Name} :
    m.answerAt n typ owner = .negative .nxRRset ↔ m n typ = none ∧ m n .cname = none := by
  unfold answerAt
  cases htyp : m n typ with
  | some e => simp [Answer.negative]
  | none => cases hcname : m n .cname <;> simp [Answer.negative]

theorem answerAt_ne_nxDomain (typ : RRType) (owner : Name) :
    m.answerAt n typ owner ≠ .negative .nxDomain := by
  unfold answerAt
  cases m n typ with
  | some e => simp [Answer.negative]
  | none => cases m n .cname <;> simp [Answer.negative]

theorem hasData_of_isCut {origin : Name} (hcut : m.isCut origin n = true) : m.HasData n := by
  simp only [isCut, Bool.and_eq_true] at hcut
  exact ⟨.ns, hcut.2⟩

end ZoneMap

open List Option

variable {T : Type} [DomainTree T NameNode]

def FindResult.view (h : Objects) (r : FindResult) : Answer :=
  ⟨r.typ, r.rrset.map fun found =>
    ((found.value h).name, (found.value h).typ, .ofRRset (found.value h))⟩

def deepestNode (t : T) (name : Name) : Option Name :=
  longestSuffix (fun n => (node t n).isSome) name

theorem search_of_deepestNode [LawfulDomainTree T NameNode] {t : T} {name deepest : Name}
    (hdeepest : deepestNode t name = some deepest) (hne : deepest ≠ name) :
    search t name = (deepest, .partialMatch) := by
  have hlongest : longestSuffix (fun n => (node t n).isSome) name = some deepest := hdeepest
  rw [search_eq, hlongest]
  simp [hne]

section walk

variable {path : List (Name × Node NameNode)}

theorem walk_of_no_flag (hpath : path.find? (fun entry => entry.2.callback) = none)
    (state : FindState) : walk zoneCutCallback path state = .ok (none, state) := by
  induction path with
  | nil => rfl
  | cons entry path ih =>
    obtain ⟨n, nd⟩ := entry
    simp only [find?_eq_none, mem_cons, forall_eq_or_imp, Bool.not_eq_true] at hpath
    have hrest := ih (by simpa [find?_eq_none] using hpath.2)
    simp [walk, hpath.1, hrest]

theorem walk_of_flag {n : Name} {nd : Node NameNode} {nameNode : NameNode} {ns : Option Ptr}
    (hpath : path.find? (fun entry => entry.2.callback) = some (n, nd))
    (hdata : nd.data = some nameNode) (hns : nameNode.lookup .ns = some ns) :
    walk zoneCutCallback path ⟨none, none, .default⟩ =
      .ok (some n, ⟨some nameNode, ns, .default⟩) := by
  induction path with
  | nil => cases hpath
  | cons entry path ih =>
    obtain ⟨m, nd'⟩ := entry
    cases hflag : nd'.callback with
    | true =>
      simp only [find?_cons, hflag, Option.some.injEq, Prod.mk.injEq] at hpath
      obtain ⟨rfl, rfl⟩ := hpath
      have hstop : (FindOption.default != FindOption.glueOk) = true := by decide
      simp [walk, hflag, zoneCutCallback, hdata, hns, hstop]
    | false =>
      simp only [find?_cons, hflag] at hpath
      simpa [walk, hflag] using ih hpath

theorem find?_pathTo (t : T) (names : List Name) :
    (names.filterMap fun n => (node t n).map fun nd => (n, nd)).find?
        (fun entry => entry.2.callback) =
      (names.find? (callbackAt t)).bind fun n => (node t n).map fun nd => (n, nd) := by
  induction names with
  | nil => rfl
  | cons n names ih =>
    cases hnode : node t n with
    | none =>
      have hflag : callbackAt t n = false := by simp [callbackAt, hnode]
      simp [hnode, hflag, ih]
    | some nd =>
      have hflag : callbackAt t n = nd.callback := by simp [callbackAt, hnode]
      cases hcallback : nd.callback with
      | true => simp [hnode, hflag, hcallback]
      | false => simp [hnode, hflag, hcallback, ih]

end walk

namespace MemoryZone

variable {h : Objects} {z : MemoryZone T}

/-- The node has no RRset of the type, or one that the content shows. -/
def Shows (h : Objects) (z : MemoryZone T) (n : Name) (nameNode : NameNode) (t : RRType) : Prop :=
  (nameNode.lookup t = none ∧ z.content h n t = none) ∨
    ∃ p, nameNode.lookup t = some (some p) ∧ z.content h n t = some (.ofRRset (h.value p)) ∧
      (h.value p).name = n ∧ (h.value p).typ = t

theorem lookup_content {n : Name} {nameNode : NameNode}
    (hdata : dataAt z.domains n = some nameNode) {t : RRType} (hnil : z.slots n t ≠ some none)
    (hkeyed : ∀ p, z.slots n t = some (some p) → (h.value p).name = n ∧ (h.value p).typ = t) :
    z.Shows h n nameNode t := by
  have hslots : z.slots n t = nameNode.lookup t := by simp [slots, hdata]
  rw [Shows, ← hslots]
  rcases eq_none_or_of_ne_nil hnil with hslot | ⟨p, hslot⟩
  · exact .inl ⟨hslot, by simp [content, hslot]⟩
  · exact .inr ⟨p, hslot, by simp [content, entryAt, hslot], hkeyed p hslot⟩

namespace Loaded

variable (hz : z.Loaded h)

include hz

theorem hasData_iff (n : Name) : (z.content h).HasData n ↔ (dataAt z.domains n).isSome = true := by
  constructor
  · rintro ⟨t, hentry⟩
    refine isSome_dataAt_of_slots (t := t) ?_
    cases hslot : z.slots n t with
    | none => simp [content, hslot] at hentry
    | some slot => rfl
  · intro hsome
    obtain ⟨t, ht⟩ := hz.typed n hsome
    refine ⟨t, ?_⟩
    rcases eq_none_or_of_ne_nil (hz.stored n t) with hslot | ⟨p, hslot⟩
    · simp [hslot] at ht
    · simp [content, entryAt, hslot]

theorem callbackAt_eq : callbackAt z.domains = (z.content h).isCut z.origin := by
  funext n
  rw [Bool.eq_iff_iff, hz.cuts n]
  simp only [ZoneMap.isCut, Bool.and_eq_true, decide_eq_true_eq]
  refine and_congr_right fun _ => ?_
  rcases eq_none_or_of_ne_nil (hz.stored n .ns) with hslot | ⟨p, hslot⟩
  · simp [content, hslot]
  · simp [content, entryAt, hslot]

theorem markAt_iff (n : Name) : markAt z.domains n = true ↔ (z.content h).HasData n.wildcard := by
  rw [hz.marks n, hz.hasData_iff]

variable {nameNode : NameNode} {n : Name}

section

variable (hdata : dataAt z.domains n = some nameNode)

include hdata

theorem content_eq (t : RRType) : z.Shows h n nameNode t :=
  lookup_content hdata (hz.stored n t) (hz.keyed n t)

theorem view_answers (typ : RRType) (name : Name) :
    (answerFrom nameNode typ).view h = (z.content h).answerAt n typ n ∧
      ∃ result, synthesizeFrom nameNode typ name = .ok result ∧
        result.view h = (z.content h).answerAt n typ name := by
  unfold answerFrom synthesizeFrom ZoneMap.answerAt
  rcases hz.content_eq hdata typ with ⟨hlookup, hentry⟩ | ⟨p, hlookup, hentry, hname, htyp⟩
  · rcases hz.content_eq hdata .cname with ⟨hlookup', hentry'⟩ | ⟨p, hlookup', hentry', hname, htyp⟩
    · simp [hlookup, hentry, hlookup', hentry', FindResult.view, Answer.negative]
    · simp [hlookup, hentry, hlookup', hentry', FindResult.view, Found.value, hname, htyp,
        Entry.ofRRset]
  · simp [hlookup, hentry, FindResult.view, Found.value, hname, htyp, Entry.ofRRset]

end

theorem existing_of_node (hnode : (node z.domains n).isSome = true)
    (horigin : (z.content h).Existing z.origin) : (z.content h).Existing n := by
  rcases hz.nodes n hnode with rfl | ⟨k, hk, hdata⟩
  · exact horigin
  · exact ⟨k, hk, (hz.hasData_iff k).mpr hdata⟩

theorem existing_origin (hn : (z.content h).Existing n) : (z.content h).Existing z.origin := by
  obtain ⟨k, _, hdata⟩ := hn
  obtain ⟨t, ht⟩ := hz.typed k ((hz.hasData_iff k).mp hdata)
  exact ⟨k, hz.inZone k t ht, hdata⟩

theorem hasNodeBelow_iff (hin : z.origin <:+ n) (hempty : ¬(z.content h).HasData n) :
    HasNodeBelow z.domains n ↔ (z.content h).Existing n := by
  constructor
  · rintro ⟨k, hne, hk, hnode⟩
    rcases hz.nodes k hnode with rfl | ⟨j, hj, hdata⟩
    · exact absurd (suffix_antisymm hin hk) hne
    · exact ⟨j, hk.trans hj, (hz.hasData_iff j).mpr hdata⟩
  · rintro ⟨k, hk, hdata⟩
    obtain ⟨nodeData, hnodeData⟩ := isSome_iff_exists.mp ((hz.hasData_iff k).mp hdata)
    exact ⟨k, fun heq => hempty (heq ▸ hdata), hk, isSome_node_of_dataAt hnodeData⟩

theorem walk_of_uncut {name : Name}
    (hcut : (properSuffixes name).find? ((z.content h).isCut z.origin) = none) (state : FindState) :
    walk zoneCutCallback (pathTo z.domains name) state = .ok (none, state) := by
  refine walk_of_no_flag ?_ state
  rw [pathTo, find?_pathTo, hz.callbackAt_eq, hcut]
  rfl

variable [LawfulDomainTree T NameNode]

theorem find_below_cut {name cut : Name} (typ : RRType)
    (hcut : (properSuffixes name).find? ((z.content h).isCut z.origin) = some cut) :
    ∃ ctx, z.find name typ .default = .ok ctx ∧
      ctx.result.view h = ⟨.delegation, (z.content h cut .ns).map fun e => (cut, .ns, e)⟩ := by
  have hflag : callbackAt z.domains cut = true := by
    rw [hz.callbackAt_eq]
    exact find?_some hcut
  obtain ⟨nd, hnode⟩ : ∃ nd, node z.domains cut = some nd := by
    cases hnode : node z.domains cut with
    | none => simp [callbackAt, hnode] at hflag
    | some nd => exact ⟨nd, rfl⟩
  obtain ⟨_, hsome⟩ := (hz.cuts cut).mp hflag
  obtain ⟨nameNode, hdata⟩ := isSome_iff_exists.mp (isSome_dataAt_of_slots hsome)
  rcases hz.content_eq hdata .ns with ⟨hlookup, _⟩ | ⟨p, hlookup, hentry, hname, htyp⟩
  · simp [slots, hdata, hlookup] at hsome
  have hpath : (pathTo z.domains name).find? (fun entry => entry.2.callback) = some (cut, nd) := by
    rw [pathTo, find?_pathTo, hz.callbackAt_eq, hcut]
    simp [hnode]
  have hwalk := walk_of_flag hpath (by simpa [dataAt, hnode] using hdata) hlookup
  refine ⟨⟨⟨.delegation, some (.stored p)⟩, some nameNode⟩, ?_, ?_⟩
  · simp [find, searchExt_eq, hwalk, findPartial]
  · simp [FindResult.view, Found.value, hentry, hname, htyp]

variable {name : Name}

section

variable (typ : RRType)
  (hcut : (properSuffixes name).find? ((z.content h).isCut z.origin) = none)

include hcut

theorem find_of_node (hnode : (node z.domains name).isSome = true) :
    z.find name typ .default = .ok (z.findExact name typ) := by
  have hexact := (search_exactMatch_iff z.domains name).mpr hnode
  simp only [find, searchExt_eq, hz.walk_of_uncut hcut, hexact]

theorem find_of_deepestNode {deepest : Name}
    (hdeepest : deepestNode z.domains name = some deepest) (hne : deepest ≠ name) :
    z.find name typ .default =
      z.findPartial name typ ⟨deepest, .partialMatch, superDomain z.domains name⟩
        ⟨none, none, .default⟩ := by
  simp only [find, searchExt_eq, hz.walk_of_uncut hcut, search_of_deepestNode hdeepest hne]

end

theorem view_findExact (typ : RRType) (hin : z.origin <:+ name)
    (hcut : (properSuffixes name).find? ((z.content h).isCut z.origin) = none)
    (hnode : (node z.domains name).isSome = true) :
    (z.findExact name typ).result.view h = (z.content h).lookup z.origin name typ := by
  have hself : (z.content h).topmostCut z.origin name =
      if (z.content h).isCut z.origin name then some name else none := by
    simp only [ZoneMap.topmostCut, find?_append, hcut, none_or, find?_singleton]
  cases hdata : dataAt z.domains name with
  | none =>
    have hempty : ¬(z.content h).HasData name := by simp [hz.hasData_iff, hdata]
    have hno : (z.content h).isCut z.origin name ≠ true := fun hcut' =>
      hempty (ZoneMap.hasData_of_isCut hcut')
    have hbelow := hz.hasNodeBelow_iff hin hempty
    rw [← isNodeNonTerminal_iff] at hbelow
    simp only [findExact, hdata, ZoneMap.lookup, hself, if_neg hno]
    by_cases hexists : (z.content h).Existing name
    · rw [if_pos hexists, if_pos (hbelow.mpr hexists), ZoneMap.answerAt_of_not_hasData hempty]
      rfl
    · have hnone : (z.content h).closestEncloser name = none := by
        refine ZoneMap.closestEncloser_eq_none.mpr fun k hk hexistsk => hexists ?_
        exact hz.existing_of_node hnode (hz.existing_origin hexistsk)
      rw [if_neg hexists, if_neg (fun hnt => hexists (hbelow.mp hnt)), hnone]
      rfl
  | some nameNode =>
    have hexists : (z.content h).Existing name :=
      ((hz.hasData_iff name).mpr (by simp [hdata])).existing
    have hview := (hz.view_answers hdata typ name).1
    simp only [findExact, hdata, ZoneMap.lookup, hself, if_pos hexists]
    rw [← hz.callbackAt_eq]
    by_cases hflag : callbackAt z.domains name = true
    · obtain ⟨hname, hsome⟩ := (hz.cuts name).mp hflag
      rcases hz.content_eq hdata .ns with ⟨hlookup, _⟩ | ⟨p, hlookup, hentry, hpname, hptyp⟩
      · simp [slots, hdata, hlookup] at hsome
      · simp [hflag, hname, hlookup, hentry, FindResult.view, Found.value, hpname, hptyp]
    · simpa [hflag] using hview

open Classical in
theorem view_findPartial (deepest : Name) (typ : RRType) (hin : z.origin <:+ name)
    (hnode : node z.domains name = none) :
    ∃ ctx, z.findPartial name typ ⟨deepest, .partialMatch, superDomain z.domains name⟩
        ⟨none, none, .default⟩ = .ok ctx ∧
      ctx.result.view h =
        if (z.content h).Existing name then .negative .nxRRset
        else if (z.content h).HasData deepest.wildcard then
          (z.content h).answerAt deepest.wildcard typ name
        else .negative .nxDomain := by
  have hempty : ¬(z.content h).HasData name := by simp [hz.hasData_iff, dataAt, hnode]
  have hsuper : superDomain z.domains name = true ↔ (z.content h).Existing name :=
    (superDomain_iff z.domains name hnode).trans (hz.hasNodeBelow_iff hin hempty)
  simp only [findPartial]
  by_cases hexists : (z.content h).Existing name
  · rw [if_pos (hsuper.mpr hexists), if_pos hexists]
    exact ⟨_, rfl, rfl⟩
  · rw [if_neg (fun hs => hexists (hsuper.mp hs)), if_neg hexists]
    by_cases hwild : (z.content h).HasData deepest.wildcard
    · obtain ⟨nameNode, hdata⟩ := isSome_iff_exists.mp ((hz.hasData_iff _).mp hwild)
      obtain ⟨m, hsearch⟩ := search_of_dataAt hdata
      obtain ⟨result, hsynthesis, hview⟩ := (hz.view_answers hdata typ name).2
      rw [if_pos ((hz.markAt_iff deepest).mpr hwild), if_pos hwild]
      exact ⟨⟨result, none⟩, by simp only [hsearch, hdata, hsynthesis], hview⟩
    · rw [if_neg (fun hmark => hwild ((hz.markAt_iff deepest).mp hmark)), if_neg hwild]
      exact ⟨_, rfl, rfl⟩

omit [LawfulDomainTree T NameNode] in
theorem deepestNode_facts {name deepest encloser : Name}
    (hdeepest : deepestNode z.domains name = some deepest)
    (hencloser : (z.content h).closestEncloser name = some encloser) :
    deepest <:+ encloser ∧
      ((z.content h).HasData encloser.wildcard → deepest = encloser) := by
  obtain ⟨hsuffix, hnode, hlongest⟩ := longestSuffix_eq_some.mp hdeepest
  obtain ⟨hesuffix, heexists, hemax⟩ := ZoneMap.closestEncloser_eq_some.mp hencloser
  have hle := hemax deepest hsuffix (hz.existing_of_node hnode (hz.existing_origin heexists))
  refine ⟨hle, fun hdata => suffix_antisymm hle ?_⟩
  exact hlongest encloser hesuffix (isSome_node_of_markAt ((hz.markAt_iff encloser).mpr hdata))

end Loaded

end MemoryZone

theorem node_of_hasData {z : MemoryZone (ReferenceTree NameNode)} {h : Objects} {n : Name}
    (hdata : (z.content h).HasData n) :
    ∃ entry ∈ z.domains.nodes, entry.2.data.isSome = true ∧ entry.1 = n := by
  obtain ⟨t, hentry⟩ := hdata
  cases hnode : dataAt z.domains n with
  | none => simp [MemoryZone.content, MemoryZone.slots, hnode] at hentry
  | some nodeData =>
    obtain ⟨nd, hmem, hnd⟩ := ReferenceTree.mem_nodes_of_dataAt hnode
    exact ⟨(n, nd), hmem, by simp [hnd], rfl⟩

end Vanguard.Zone
