import Vanguard.Zone.Find
import Vanguard.Zone.FindLoaded
import Vanguard.Zone.Refinement

namespace Vanguard.Zone

open Library List Option

def Found.view (h : Objects) (found : Found) : Name × RRType × Entry :=
  ((found.value h).name, (found.value h).typ, .ofRRset (found.value h))

def addressTypes : List RRType := [.a, .aaaa]

variable {T : Type} [DomainTree T NameNode]

namespace MemoryZone

section

variable (z : MemoryZone T) (name : Name)

def CutsReadable : Prop :=
  ∀ n ∈ properSuffixes name, callbackAt z.domains n = true → (z.slots n .ns).isSome = true

def BelowFlag : Prop :=
  ∃ n ∈ properSuffixes name, callbackAt z.domains n = true

def Delegates : Prop :=
  callbackAt z.domains name = true ∧ ¬(name = z.origin ∧ z.originNode = .attached) ∧
    (z.slots name .ns).isSome = true

open Classical in
noncomputable def usedWildcard : Option Name :=
  if (node z.domains name).isSome = true ∨ z.BelowFlag name ∨ HasNodeBelow z.domains name then none
  else ((deepestNode z.domains name).filter fun n => markAt z.domains n).map Name.wildcard

end

/-- The stored addresses, unless it is a cut or an alias, and the A RRset of the wildcard. -/
def given (h : Objects) (z : MemoryZone T) (name : Name) : Set (Name × RRType × Entry) :=
  {y | y.1 = name ∧
    (y.2.1 ∈ addressTypes ∧ z.content h name y.2.1 = some y.2.2 ∧ ¬z.Delegates name ∧
        ((z.content h name .a).isSome = true ∨ (z.content h name .cname).isSome = false) ∨
      y.2.1 = .a ∧ ((z.usedWildcard name).bind fun w => z.content h w .a) = some y.2.2)}

end MemoryZone

section walk

variable {path : List (Name × Node NameNode)} {nd : Node NameNode} {state : FindState}

theorem zoneCutCallback_readable (hglue : state.option = .glueOk)
    (hns : (nd.data.bind (AList.lookup .ns)).isSome = true) :
    ∃ state', zoneCutCallback nd state = .ok (false, state') ∧ state'.option = .glueOk ∧
      state'.zonecut.isSome = true := by
  obtain ⟨ns, hbind⟩ := isSome_iff_exists.mp hns
  obtain ⟨nameNode, hdata, hlookup⟩ := bind_eq_some_iff.mp hbind
  cases hzonecut : state.zonecut with
  | some zonecut =>
    exact ⟨state, by simp [zoneCutCallback, hdata, hlookup, hzonecut], hglue, by simp [hzonecut]⟩
  | none =>
    exact ⟨⟨some nameNode, ns, .glueOk⟩,
      by simp [zoneCutCallback, hdata, hlookup, hzonecut, hglue], rfl, rfl⟩

theorem zoneCutCallback_unreadable (hns : ¬(nd.data.bind (AList.lookup .ns)).isSome = true) :
    ∃ e, zoneCutCallback nd state = .error e := by
  cases hdata : nd.data with
  | none => exact ⟨.nilNodeData, by simp [zoneCutCallback, hdata]⟩
  | some nameNode =>
    have hlookup : nameNode.lookup .ns = none := by simpa [hdata] using hns
    exact ⟨.noNsAtZoneCut, by simp [zoneCutCallback, hdata, hlookup]⟩

def ReadablePath (path : List (Name × Node NameNode)) : Prop :=
  ∀ entry ∈ path, entry.2.callback = true → (entry.2.data.bind (AList.lookup .ns)).isSome = true

theorem walk_glueOk (hpath : ReadablePath path) (state : FindState) (hglue : state.option = .glueOk) :
    ∃ state', walk zoneCutCallback path state = .ok (none, state') ∧ state'.option = .glueOk ∧
      (state'.zonecut.isSome = true ↔
        state.zonecut.isSome = true ∨ ∃ entry ∈ path, entry.2.callback = true) := by
  induction path generalizing state with
  | nil => exact ⟨state, rfl, hglue, by simp⟩
  | cons entry path ih =>
    obtain ⟨n, nd⟩ := entry
    have hrest := ih fun e he => hpath e (mem_cons_of_mem _ he)
    cases hflag : nd.callback with
    | false =>
      obtain ⟨state', hwalk, hglue', hcut⟩ := hrest state hglue
      exact ⟨state', by simpa [walk, hflag] using hwalk, hglue', by simp [hcut, hflag]⟩
    | true =>
      obtain ⟨mid, hmid, hglue', hcut⟩ :=
        zoneCutCallback_readable hglue (hpath (n, nd) mem_cons_self hflag)
      obtain ⟨state', hwalk, hglue'', hcut'⟩ := hrest mid hglue'
      exact ⟨state', by simpa [walk, hflag, hmid] using hwalk, hglue'', by simp [hcut', hcut, hflag]⟩

theorem walk_glueOk_error (hpath : ¬ReadablePath path) (state : FindState)
    (hglue : state.option = .glueOk) : ∃ e, walk zoneCutCallback path state = .error e := by
  induction path generalizing state with
  | nil => simp [ReadablePath] at hpath
  | cons entry path ih =>
    obtain ⟨n, nd⟩ := entry
    rw [ReadablePath, forall_mem_cons, ← ReadablePath] at hpath
    cases hflag : nd.callback with
    | false =>
      have hrest := ih (by simpa [hflag] using hpath) state hglue
      simpa [walk, hflag] using hrest
    | true =>
      by_cases hns : (nd.data.bind (AList.lookup .ns)).isSome = true
      · obtain ⟨mid, hmid, hglue', -⟩ := zoneCutCallback_readable hglue hns
        have hrest := ih (by simpa [hflag, hns] using hpath) mid hglue'
        simpa [walk, hflag, hmid] using hrest
      · obtain ⟨e, he⟩ : ∃ e, zoneCutCallback nd state = .error e := zoneCutCallback_unreadable hns
        exact ⟨e, by simp [walk, hflag, he]⟩

end walk

namespace MemoryZone

variable {h : Objects} {z : MemoryZone T} {name : Name}

theorem mem_pathTo {t : T} {entry : Name × Node NameNode} :
    entry ∈ pathTo t name ↔ entry.1 ∈ properSuffixes name ∧ node t entry.1 = some entry.2 := by
  simp only [pathTo, mem_filterMap, map_eq_some_iff]
  constructor
  · rintro ⟨n, hn, nd, hnode, rfl⟩
    exact ⟨hn, hnode⟩
  · rintro ⟨hn, hnode⟩
    exact ⟨entry.1, hn, entry.2, hnode, rfl⟩

theorem callbackAt_eq_true {t : T} {n : Name} :
    callbackAt t n = true ↔ ∃ nd, node t n = some nd ∧ nd.callback = true := by
  cases hnode : node t n <;> simp [callbackAt, hnode]

theorem cutsReadable_iff : z.CutsReadable name ↔ ReadablePath (pathTo z.domains name) := by
  simp only [CutsReadable, ReadablePath, callbackAt_eq_true, Prod.forall, mem_pathTo]
  refine forall_congr' fun n => ?_
  constructor
  · intro hcuts nd hentry hflag
    simpa [slots, dataAt, hentry.2] using hcuts hentry.1 ⟨nd, hentry.2, hflag⟩
  · rintro hpath hn ⟨nd, hnode, hflag⟩
    simpa [slots, dataAt, hnode] using hpath nd ⟨hn, hnode⟩ hflag

theorem belowFlag_iff : z.BelowFlag name ↔
    ∃ entry ∈ pathTo z.domains name, entry.2.callback = true := by
  simp [BelowFlag, callbackAt_eq_true, mem_pathTo, and_assoc]

theorem find?_callback_of_not_belowFlag (hflag : ¬z.BelowFlag name) :
    (pathTo z.domains name).find? (fun entry => entry.2.callback) = none :=
  find?_eq_none.mpr fun entry hentry hcallback =>
    hflag (belowFlag_iff.mpr ⟨entry, hentry, hcallback⟩)

theorem exists_deepestNode_of_flag (hflag : z.BelowFlag name) :
    ∃ deepest, deepestNode z.domains name = some deepest := by
  obtain ⟨n, hn, hcallback⟩ := hflag
  cases hdeepest : deepestNode z.domains name with
  | some deepest => exact ⟨deepest, rfl⟩
  | none =>
    have hnone := longestSuffix_eq_none.mp hdeepest n (mem_properSuffixes.mp hn).1
    simp only [isSome_eq_false_iff, isNone_iff_eq_none] at hnone
    simp [callbackAt, hnone] at hcallback

theorem Filed.content_eq (hz : z.Filed h) {n : Name} {nameNode : NameNode}
    (hdata : dataAt z.domains n = some nameNode) {t : RRType} (hsoa : t ≠ .soa) (hns : t ≠ .ns) :
    z.Shows h n nameNode t :=
  lookup_content hdata (fun hslot => (hz.nil n t hslot).elim hsoa hns) (hz.keyed n t)

variable [LawfulDomainTree T NameNode]

theorem find_glueOk_error (hcuts : ¬z.CutsReadable name) (typ : RRType) :
    ∃ e, z.find name typ .glueOk = .error e := by
  obtain ⟨e, hwalk⟩ := walk_glueOk_error (fun hpath => hcuts (cutsReadable_iff.mpr hpath))
    ⟨none, none, .glueOk⟩ rfl
  exact ⟨e, by simp [find, searchExt_eq, hwalk]⟩

theorem find_glueOk_of_node (hcuts : z.CutsReadable name)
    (hnode : (node z.domains name).isSome = true) (typ : RRType) :
    z.find name typ .glueOk = .ok (z.findExact name typ) := by
  obtain ⟨state, hwalk, -, -⟩ := walk_glueOk (cutsReadable_iff.mp hcuts) ⟨none, none, .glueOk⟩ rfl
  have hexact := (search_exactMatch_iff z.domains name).mpr hnode
  simp only [find, searchExt_eq, hwalk, hexact]

variable {deepest : Name}

theorem search_of_no_node {t : T} (hnode : node t name = none)
    (hdeepest : deepestNode t name = some deepest) : search t name = (deepest, .partialMatch) := by
  refine search_of_deepestNode hdeepest ?_
  rintro rfl
  simpa [hnode] using (longestSuffix_eq_some.mp hdeepest).2.1

theorem find_glueOk_of_flag (hcuts : z.CutsReadable name) (hnode : node z.domains name = none)
    (hflag : z.BelowFlag name) (typ : RRType) :
    ∃ ctx, z.find name typ .glueOk = .ok ctx ∧ ctx.result.typ = .delegation := by
  obtain ⟨state, hwalk, -, hcut⟩ :=
    walk_glueOk (cutsReadable_iff.mp hcuts) ⟨none, none, .glueOk⟩ rfl
  obtain ⟨zonecut, hzonecut⟩ := isSome_iff_exists.mp (hcut.mpr (.inr (belowFlag_iff.mp hflag)))
  obtain ⟨deepest, hdeepest⟩ := exists_deepestNode_of_flag hflag
  refine ⟨⟨⟨.delegation, state.rrset.map Found.stored⟩, some zonecut⟩, ?_, rfl⟩
  simp only [find, searchExt_eq, hwalk, search_of_no_node hnode hdeepest, findPartial, hzonecut]

theorem find_glueOk_of_deepestNode (hnode : node z.domains name = none) (hflag : ¬z.BelowFlag name)
    (hdeepest : deepestNode z.domains name = some deepest) (typ : RRType) :
    z.find name typ .glueOk =
      z.findPartial name typ ⟨deepest, .partialMatch, superDomain z.domains name⟩
        ⟨none, none, .glueOk⟩ := by
  simp only [find, searchExt_eq, walk_of_no_flag (find?_callback_of_not_belowFlag hflag),
    search_of_no_node hnode hdeepest]

theorem find_glueOk_of_no_node (hdeepest : deepestNode z.domains name = none) (typ : RRType) :
    z.find name typ .glueOk = .ok (.negative .nxDomain) := by
  have hflag : ¬z.BelowFlag name := fun hflag => by
    obtain ⟨deepest, hsome⟩ := exists_deepestNode_of_flag hflag
    simp [hdeepest] at hsome
  have hlongest : longestSuffix (fun n => (node z.domains n).isSome) name = none := hdeepest
  simp only [find, searchExt_eq, walk_of_no_flag (find?_callback_of_not_belowFlag hflag), search_eq,
    hlongest]

theorem getAdditioanlAddrs_of_node (hz : z.Filed h) (hcuts : z.CutsReadable name)
    (hnode : (node z.domains name).isSome = true) :
    ∃ l, z.getAdditioanlAddrs name = .ok l ∧ ∀ x, x ∈ l.map (Option.map (Found.view h)) ↔
      ∃ t ∈ addressTypes, ∃ e, x = some (name, t, e) ∧ z.content h name t = some e ∧
        ¬z.Delegates name ∧
        ((z.content h name .a).isSome = true ∨ (z.content h name .cname).isSome = false) := by
  simp only [getAdditioanlAddrs, find_glueOk_of_node hcuts hnode, addressTypes, mem_cons,
    not_mem_nil, or_false, exists_eq_or_imp, exists_eq_left]
  cases hdata : dataAt z.domains name with
  | none =>
    have hnone (t : RRType) : z.content h name t = none := by simp [content, slots, hdata]
    refine ⟨[], ?_, by simp [hnone]⟩
    simp only [findExact, hdata, FinderCtx.negative]
    split_ifs <;> rfl
  | some nameNode =>
    have hcut : z.Delegates name ↔ callbackAt z.domains name = true ∧
        ¬(name = z.origin ∧ z.originNode = .attached) ∧ (nameNode.lookup .ns).isSome = true := by
      simp [Delegates, slots, hdata]
    by_cases hdelegates : z.Delegates name
    · refine ⟨[], ?_, by simp [hdelegates]⟩
      simp only [findExact, hdata, if_pos (hcut.mp hdelegates)]
    · simp only [findExact, hdata, if_neg (mt hcut.mpr hdelegates), bind_some, answerFrom]
      clear hcut
      rcases hz.content_eq hdata (t := .aaaa) (by decide) (by decide) with
        ⟨hlookup₆, hentry₆⟩ | ⟨p₆, hlookup₆, hentry₆, hname₆, htyp₆⟩
      all_goals
        rcases hz.content_eq hdata (t := .a) (by decide) (by decide) with
          ⟨hlookup, hentry⟩ | ⟨p, hlookup, hentry, hname, htyp⟩
        · rcases hz.content_eq hdata (t := .cname) (by decide) (by decide) with
            ⟨hlookup', hentry'⟩ | ⟨p', hlookup', hentry', -⟩
          · -- only the AAAA RRset is given
            simp only [hlookup, hlookup', hlookup₆]
            refine ⟨_, rfl, fun x => ?_⟩
            simp [Found.view, Found.value, *]
          · -- the CNAME ends the lookup
            simp only [hlookup, hlookup']
            exact ⟨[], rfl, by simp [hentry, hentry']⟩
        · -- both are given
          simp only [hlookup, hlookup₆]
          refine ⟨_, rfl, fun x => ?_⟩
          simp [Found.view, Found.value, *]

theorem getAdditioanlAddrs_of_mark (hz : z.Filed h) (hnode : node z.domains name = none)
    (hflag : ¬z.BelowFlag name) (hbelow : ¬HasNodeBelow z.domains name)
    (hdeepest : deepestNode z.domains name = some deepest) (hmark : markAt z.domains deepest = true)
    :
    (dataAt z.domains deepest.wildcard = none ∧ ∃ e, z.getAdditioanlAddrs name = .error e) ∨
      (dataAt z.domains deepest.wildcard).isSome = true ∧
        ∃ l, z.getAdditioanlAddrs name = .ok l ∧ ∀ x, x ∈ l.map (Option.map (Found.view h)) ↔
          ∃ e, x = some (name, .a, e) ∧ z.content h deepest.wildcard .a = some e := by
  simp only [getAdditioanlAddrs, find_glueOk_of_deepestNode hnode hflag hdeepest, findPartial,
    superDomain_iff z.domains name hnode, hbelow, hmark, if_true, if_false]
  cases hdata : dataAt z.domains deepest.wildcard with
  | none =>
    refine .inl ⟨rfl, ?_⟩
    rcases search z.domains deepest.wildcard with ⟨m, _ | _ | _⟩
    all_goals exact ⟨_, rfl⟩
  | some nameNode =>
    refine .inr ⟨rfl, ?_⟩
    obtain ⟨m, hsearch⟩ := search_of_dataAt hdata
    simp only [hsearch, synthesizeFrom]
    rcases hz.content_eq hdata (t := .a) (by decide) (by decide) with
      ⟨hlookup, hentry⟩ | ⟨p, hlookup, hentry, hname, htyp⟩
    · rcases hz.content_eq hdata (t := .cname) (by decide) (by decide) with
        ⟨hlookup', -⟩ | ⟨p', hlookup', -⟩
      all_goals
        simp only [hlookup, hlookup']
        exact ⟨[], rfl, by simp [hentry]⟩
    · simp only [hlookup]
      refine ⟨_, rfl, fun x => ?_⟩
      simp [Found.view, Found.value, hentry, htyp, Entry.ofRRset]

theorem getAdditioanlAddrs_of_unused (hcuts : z.CutsReadable name)
    (hnode : node z.domains name = none) (hused : z.usedWildcard name = none) :
    z.getAdditioanlAddrs name = .ok [] := by
  by_cases hflag : z.BelowFlag name
  · obtain ⟨ctx, hfind, htyp⟩ := find_glueOk_of_flag hcuts hnode hflag .a
    simp only [getAdditioanlAddrs, hfind, htyp]
  · cases hdeepest : deepestNode z.domains name with
    | none => simp only [getAdditioanlAddrs, find_glueOk_of_no_node hdeepest, FinderCtx.negative]
    | some deepest =>
      have hsuper := superDomain_iff z.domains name hnode
      simp only [getAdditioanlAddrs, find_glueOk_of_deepestNode hnode hflag hdeepest, findPartial]
      by_cases hbelow : HasNodeBelow z.domains name
      · simp [hsuper.mpr hbelow, FinderCtx.negative]
      · have hmark : markAt z.domains deepest = false := by
          simpa [usedWildcard, hnode, hflag, hbelow, hdeepest] using hused
        simp [hsuper, hbelow, hmark, FinderCtx.negative]

theorem getAdditioanlAddrs_of_no_node (hz : z.Filed h) (hcuts : z.CutsReadable name)
    (hnode : node z.domains name = none) :
    ((∃ w ∈ z.usedWildcard name, dataAt z.domains w = none) ∧
        ∃ e, z.getAdditioanlAddrs name = .error e) ∨
      (∀ w ∈ z.usedWildcard name, (dataAt z.domains w).isSome = true) ∧
        ∃ l, z.getAdditioanlAddrs name = .ok l ∧ ∀ x, x ∈ l.map (Option.map (Found.view h)) ↔
          ∃ e, x = some (name, .a, e) ∧
            ((z.usedWildcard name).bind fun w => z.content h w .a) = some e := by
  cases hused : z.usedWildcard name with
  | none => exact .inr ⟨by simp, [], getAdditioanlAddrs_of_unused hcuts hnode hused, by simp⟩
  | some w =>
    unfold usedWildcard at hused
    split at hused
    · cases hused
    · next hnot =>
      obtain ⟨deepest, hfilter, rfl⟩ := map_eq_some_iff.mp hused
      obtain ⟨hdeepest, hmark⟩ := filter_eq_some_iff.mp hfilter
      simp only [not_or] at hnot
      simpa using getAdditioanlAddrs_of_mark hz hnode hnot.2.1 hnot.2.2 hdeepest hmark

theorem getAdditioanlAddrs_returns_iff (hz : z.Filed h) :
    (∃ l, z.getAdditioanlAddrs name = .ok l) ↔
      z.CutsReadable name ∧ ∀ w ∈ z.usedWildcard name, (dataAt z.domains w).isSome = true := by
  by_cases hcuts : z.CutsReadable name
  · cases hnode : node z.domains name with
    | some nd =>
      obtain ⟨l, hok, -⟩ := getAdditioanlAddrs_of_node hz hcuts (by simp [hnode])
      exact iff_of_true ⟨l, hok⟩ ⟨hcuts, by simp [usedWildcard, hnode]⟩
    | none =>
      rcases getAdditioanlAddrs_of_no_node hz hcuts hnode with
        ⟨⟨w, hw, hdata⟩, e, herror⟩ | ⟨hmarked, l, hok, -⟩
      · refine iff_of_false (by simp [herror]) fun hall => ?_
        simpa [hdata] using hall.2 w hw
      · exact iff_of_true ⟨l, hok⟩ ⟨hcuts, hmarked⟩
  · obtain ⟨e, hfind⟩ := find_glueOk_error hcuts .a
    exact iff_of_false (by simp [getAdditioanlAddrs, hfind]) fun hall => hcuts hall.1

theorem mem_getAdditioanlAddrs (hz : z.Filed h) {l : List (Option Found)}
    (hok : z.getAdditioanlAddrs name = .ok l) (x : Option (Name × RRType × Entry)) :
    x ∈ l.map (Option.map (Found.view h)) ↔ ∃ y ∈ z.given h name, x = some y := by
  have hgiven : (∃ y ∈ z.given h name, x = some y) ↔
      (∃ t ∈ addressTypes, ∃ e, x = some (name, t, e) ∧ z.content h name t = some e ∧
        ¬z.Delegates name ∧
        ((z.content h name .a).isSome = true ∨ (z.content h name .cname).isSome = false)) ∨
      ∃ e, x = some (name, .a, e) ∧
        ((z.usedWildcard name).bind fun w => z.content h w .a) = some e := by
    constructor
    · rintro ⟨⟨n, t, e⟩, ⟨rfl, hstored | ⟨rfl, hused⟩⟩, rfl⟩
      · exact .inl ⟨t, hstored.1, e, rfl, hstored.2⟩
      · exact .inr ⟨e, rfl, hused⟩
    · rintro (⟨t, ht, e, rfl, hstored⟩ | ⟨e, rfl, hused⟩)
      · exact ⟨_, ⟨rfl, .inl ⟨ht, hstored⟩⟩, rfl⟩
      · exact ⟨_, ⟨rfl, .inr ⟨rfl, hused⟩⟩, rfl⟩
  rw [hgiven]
  obtain ⟨hcuts, -⟩ := (getAdditioanlAddrs_returns_iff hz).mp ⟨l, hok⟩
  cases hnode : node z.domains name with
  | some nd =>
    obtain ⟨l', hok', hmem⟩ := getAdditioanlAddrs_of_node hz hcuts (by simp [hnode])
    cases hok.symm.trans hok'
    rw [hmem]
    simp [usedWildcard, hnode]
  | none =>
    have hnone (t : RRType) : z.content h name t = none := by
      simp [content, slots, dataAt, hnode]
    rcases getAdditioanlAddrs_of_no_node hz hcuts hnode with ⟨-, e, herror⟩ | ⟨-, l', hok', hmem⟩
    · cases hok.symm.trans herror
    · cases hok.symm.trans hok'
      rw [hmem]
      simp [hnone]

end MemoryZone

end Vanguard.Zone
