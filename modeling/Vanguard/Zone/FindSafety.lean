import Vanguard.Zone.Flags
import Vanguard.Zone.Find
import Vanguard.Zone.ReferenceTree

namespace Vanguard.Zone

open Library Option

variable {T : Type} [DomainTree T NameNode]

inductive ZoneCall where
  | change (op : ZoneOp)
  | clone
  deriving DecidableEq, Repr

def ZoneState.stepCall (s : ZoneState T) : ZoneCall → Except Panic (ZoneState T)
  | .change op => s.step op
  | .clone => .ok { s with zone := s.zone.clone }

/-- The call takes the NS RRset from a node away from the apex, and the node stays. -/
def ZoneCall.Strands (s : ZoneState T) : ZoneCall → Prop
  | .change op => op.Strands s.objects s.zone
  | .clone => False

theorem walk_zoneCutCallback {path : List (Name × Node NameNode)}
    (hpath : ∀ entry ∈ path, entry.2.callback = true →
      ∃ nameNode : NameNode, entry.2.data = some nameNode ∧ (nameNode.lookup .ns).isSome = true)
    (state : FindState) : ∃ r, walk zoneCutCallback path state = .ok r := by
  induction path generalizing state with
  | nil => exact ⟨_, rfl⟩
  | cons entry path ih =>
    obtain ⟨n, nd⟩ := entry
    have hrest := ih fun e he => hpath e (List.mem_cons_of_mem _ he)
    simp only [walk]
    split
    · next hflag =>
      obtain ⟨nameNode, hdata, hns⟩ := hpath (n, nd) List.mem_cons_self hflag
      obtain ⟨ns, hlookup⟩ := isSome_iff_exists.mp hns
      have hcallback : ∃ stop state', zoneCutCallback nd state = .ok (stop, state') := by
        simp only [zoneCutCallback]
        rw [show nd.data = some nameNode from hdata]
        simp only [hlookup]
        split <;> exact ⟨_, _, rfl⟩
      obtain ⟨stop, state', hcallback⟩ := hcallback
      cases stop with
      | true => exact ⟨_, by simp only [hcallback]; rfl⟩
      | false => simpa only [hcallback] using hrest state'
    · exact hrest state

theorem synthesizeFrom_error {nameNode : NameNode} {typ : RRType} {name : Name} {e : Panic}
    (herror : synthesizeFrom nameNode typ name = .error e) : e = .nilRRset := by
  unfold synthesizeFrom at herror
  split at herror
  · cases herror
  · cases herror
    rfl
  · split at herror
    · cases herror
    · cases herror
      rfl
    · cases herror

namespace MemoryZone

variable [LawfulDomainTree T NameNode] {z : MemoryZone T}

theorem FlagsInStep.searchExt_total (hz : z.FlagsInStep) (name : Name) (state : FindState) :
    ∃ r, searchExt z.domains name zoneCutCallback state = .ok r := by
  have hwalk : ∃ r, walk zoneCutCallback (pathTo z.domains name) state = .ok r := by
    refine walk_zoneCutCallback ?_ state
    rintro ⟨m, nd⟩ hmem hflag
    obtain ⟨m', _, hnode⟩ := List.mem_filterMap.mp hmem
    obtain ⟨nd', hnd', heq⟩ := map_eq_some_iff.mp hnode
    obtain ⟨rfl, rfl⟩ := Prod.mk.inj heq
    obtain ⟨_, p, hslot⟩ := hz.1 m' (by simpa [callbackAt, hnd'] using hflag)
    obtain ⟨nameNode, hdata, hlookup⟩ := bind_eq_some_iff.mp hslot
    exact ⟨nameNode, by simpa [dataAt, hnd'] using hdata, by simp [hlookup]⟩
  obtain ⟨⟨stopped, state'⟩, hwalk⟩ := hwalk
  rw [searchExt_eq, hwalk]
  cases stopped <;> exact ⟨_, rfl⟩

/-- With the flags in step only the wildcard at the apex can panic. -/
theorem FlagsInStep.find_error (hz : z.FlagsInStep) {name : Name} {typ : RRType}
    {option : FindOption} {e : Panic} (herror : z.find name typ option = .error e) :
    e = .nilRRset := by
  obtain ⟨⟨out, state⟩, hsearch⟩ := hz.searchExt_total name ⟨none, none, option⟩
  simp only [find, hsearch] at herror
  cases hresult : out.result with
  | notFound | exactMatch => simp [hresult] at herror
  | partialMatch =>
    simp only [hresult, findPartial] at herror
    cases hcut : state.zonecut with
    | some zonecut => simp [hcut] at herror
    | none =>
      simp only [hcut] at herror
      split at herror
      · cases herror
      · split at herror
        · next hmark =>
          have hdata := (hz.2 out.node).mp hmark
          obtain ⟨nameNode, hnameNode⟩ := isSome_iff_exists.mp hdata
          obtain ⟨m, hfound⟩ := search_of_dataAt hnameNode
          simp only [hfound, hnameNode] at herror
          cases hsynthesis : synthesizeFrom nameNode typ name with
          | ok result => simp [hsynthesis] at herror
          | error e' =>
            simp only [hsynthesis, Except.error.injEq] at herror
            exact herror ▸ synthesizeFrom_error hsynthesis
        · cases herror

def FindSafe (z : MemoryZone T) : Prop :=
  ∀ name typ option, z.find name typ option ≠ .error .noNsAtZoneCut ∧
    z.find name typ option ≠ .error .wildcardNotCorrectMarked ∧
    z.find name typ option ≠ .error .nilNodeData

theorem FlagsInStep.findSafe (hz : z.FlagsInStep) : z.FindSafe := by
  refine fun name typ option => ⟨fun herror => ?_, fun herror => ?_, fun herror => ?_⟩
  all_goals cases hz.find_error herror

structure InStep (z : MemoryZone T) : Prop where
  cuts : z.CutsInStep
  marks : z.MarksInStep
  nil : z.NilAtApexOnly

theorem InStep.newMemoryZone (origin : Name) :
    (newMemoryZone origin : MemoryZone T).InStep := by
  refine ⟨fun n => ?_, fun n => ?_, fun n t hslot => ?_⟩
  · simp [Zone.newMemoryZone, newWithDomains, slots]
  · simp [Zone.newMemoryZone, newWithDomains]
  · simp [Zone.newMemoryZone, newWithDomains, slots] at hslot

theorem InStep.clone (hz : z.InStep) : z.clone.InStep := by
  have hid : (NameNode.clone : NameNode → NameNode) = id := rfl
  refine ⟨fun n => ?_, fun n => ?_, fun n t hslot => ?_⟩
  · simpa [MemoryZone.clone, newWithDomains, slots, dataAt_clone, hid] using hz.cuts n
  · simpa [MemoryZone.clone, newWithDomains, dataAt_clone, hid] using hz.marks n
  · exact hz.nil n t (by simpa using hslot)

end MemoryZone

variable [LawfulDomainTree T NameNode]

theorem inStep_stepCall {s s' : ZoneState T} {c : ZoneCall} (hs : s.zone.InStep)
    (hsafe : ¬c.Strands s) (hstep : s.stepCall c = .ok s') : s'.zone.InStep := by
  cases c with
  | clone =>
    cases hstep
    exact hs.clone
  | change op =>
    obtain ⟨o, hok, rfl⟩ := ZoneState.step_eq_ok.mp hstep
    exact ⟨hs.cuts.perform hsafe hok, hs.marks.perform hok, hs.nil.perform hok⟩

theorem exists_stepCall_of_strands {s : ZoneState T} {c : ZoneCall} (hs : s.zone.InStep)
    (hstrands : c.Strands s) : ∃ s', s.stepCall c = .ok s' ∧ ¬s'.zone.FlagsInStep := by
  cases c with
  | clone => exact hstrands.elim
  | change op =>
    obtain ⟨o, hok, hflags⟩ := MemoryZone.not_flagsInStep_of_strands hs.cuts hstrands
    exact ⟨_, ZoneState.step_eq_ok.mpr ⟨o, hok, rfl⟩, hflags⟩

theorem along_not_strands {s : ZoneState T} {calls : List ZoneCall} (hs : s.zone.InStep)
    (hflags : ∀ s', Reached ZoneState.stepCall s calls s' → s'.zone.FlagsInStep) :
    Along ZoneState.stepCall (fun s c => ¬c.Strands s) s calls := by
  induction calls generalizing s with
  | nil => trivial
  | cons c calls ih =>
    have hsafe : ¬c.Strands s := by
      intro hstrands
      obtain ⟨s', hstep, hnot⟩ := exists_stepCall_of_strands hs hstrands
      exact hnot (hflags s' (Reached.cons hstep (Reached.start s' calls)))
    refine ⟨hsafe, fun s' hstep => ih (inStep_stepCall hs hsafe hstep) fun s'' hreached => ?_⟩
    exact hflags s'' (Reached.cons hstep hreached)

/-- Lookups are safe exactly when no call takes the NS RRset from a node that stays. -/
theorem flagsInStep_iff_along (h : Objects) (origin : Name) (calls : List ZoneCall) :
    (∀ s, Reached ZoneState.stepCall (⟨h, newMemoryZone origin, []⟩ : ZoneState T) calls s →
      s.zone.FlagsInStep ∧ s.zone.FindSafe) ↔
    Along ZoneState.stepCall (fun s c => ¬c.Strands s)
      (⟨h, newMemoryZone origin, []⟩ : ZoneState T) calls := by
  have hnew : (⟨h, newMemoryZone origin, []⟩ : ZoneState T).zone.InStep :=
    MemoryZone.InStep.newMemoryZone origin
  refine ⟨fun hall => along_not_strands hnew fun s hreached => (hall s hreached).1, ?_⟩
  intro halong s hreached
  have hs : s.zone.InStep := reached_induction (fun s => s.zone.InStep)
    (fun _ _ _ hs hsafe hstep => inStep_stepCall hs hsafe hstep) halong hnew hreached
  have hflags := MemoryZone.flagsInStep_of hs.cuts hs.marks hs.nil
  exact ⟨hflags, hflags.findSafe⟩

def delegationObjects : Objects := .ofLists
  [⟨["example"], .soa, .internet, 300, [0]⟩, ⟨["example"], .ns, .internet, 300, [1]⟩,
    ⟨["b", "example"], .ns, .internet, 300, [2]⟩, ⟨["b", "example"], .a, .internet, 300, [3]⟩]
  [.soa ⟨["ns", "example"], ["root", "example"], 1, 7200, 3600, 86400, 300⟩,
    .ns ["ns", "example"], .ns ["ns", "b", "example"], .a [1, 1, 1, 1]]

/-- Loading the zone with the delegation, cloning it and deleting the A RRset strands no flag. -/
theorem delegation_flagsInStep :
    Along ZoneState.stepCall (fun s c => ¬c.Strands s)
      (⟨delegationObjects, newMemoryZone ["example"], []⟩ : ZoneState (ReferenceTree NameNode))
      [.change (.add 0), .change (.add 1), .change (.add 2), .change (.add 3), .clone,
        .change (.deleteRRset 3)] ∧
    ∀ s, Reached ZoneState.stepCall
        (⟨delegationObjects, newMemoryZone ["example"], []⟩ : ZoneState (ReferenceTree NameNode))
        [.change (.add 0), .change (.add 1), .change (.add 2), .change (.add 3), .clone,
          .change (.deleteRRset 3)] s →
      s.zone.FlagsInStep ∧ s.zone.FindSafe := by
  have halong : Along ZoneState.stepCall (fun s c => ¬c.Strands s)
      (⟨delegationObjects, newMemoryZone ["example"], []⟩ : ZoneState (ReferenceTree NameNode))
      [.change (.add 0), .change (.add 1), .change (.add 2), .change (.add 3), .clone,
        .change (.deleteRRset 3)] := by
    refine ⟨id, ?_⟩
    rintro _ ⟨⟩
    refine ⟨id, ?_⟩
    rintro _ ⟨⟩
    refine ⟨id, ?_⟩
    rintro _ ⟨⟩
    refine ⟨id, ?_⟩
    rintro _ ⟨⟩
    refine ⟨id, ?_⟩
    rintro _ ⟨⟩
    refine ⟨fun hstrands => absurd hstrands.2.2.1 (by decide), fun _ _ => trivial⟩
  exact ⟨halong, (flagsInStep_iff_along delegationObjects ["example"] _).mpr halong⟩

/-- Without its NS RRset the node keeps its flag, and the next lookup below panics. -/
theorem delegation_flags_out_of_step :
    ∃ s, run ZoneState.stepCall
        (⟨delegationObjects, newMemoryZone ["example"], []⟩ : ZoneState (ReferenceTree NameNode))
        [.change (.add 0), .change (.add 1), .change (.add 2), .change (.add 3),
          .change (.deleteRRset 2)] = .ok s ∧
      callbackAt s.zone.domains ["b", "example"] = true ∧
      s.zone.slots ["b", "example"] .ns = none ∧
      s.zone.find ["x", "b", "example"] .a .default = .error .noNsAtZoneCut :=
  ⟨_, rfl, by decide, by decide, by decide⟩

end Vanguard.Zone
