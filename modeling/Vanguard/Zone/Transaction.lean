import Vanguard.Zone.Apex
import Mathlib.Data.List.Rotate

namespace Vanguard.Zone

open Library List Option

variable {T : Type} [DomainTree T NameNode]

namespace MemoryZone

def Refers (h : Objects) (z : MemoryZone T) (p : Ptr) : Prop :=
  ∃ n t q, z.slots n t = some (some q) ∧ p ∈ (h.rrsets.load q).rdatas

/-- The rdata object whose serial `increaseSerialNumber` increases. -/
def serialRdata (h : Objects) (z : MemoryZone T) : Option Ptr :=
  match z.originData with
  | none => none
  | some node =>
    match (node.lookup .soa).getD none with
    | none => none
    | some soa =>
      match (h.rrsets.load soa).rdatas with
      | [p] => some p
      | _ => none

variable {z : MemoryZone T} {h h' : Objects}

theorem increaseSerialNumber_eq_ok (hok : z.increaseSerialNumber h = .ok h') :
    ∃ p soa, z.serialRdata h = some p ∧ h.rdatas.load p = .soa soa ∧
      h' = { h with rdatas := h.rdatas.write p (.soa { soa with serial := soa.serial + 1 }) } := by
  unfold increaseSerialNumber at hok
  split at hok
  · cases hok
  · next node hnode =>
    split at hok
    · cases hok
    · next soa hsoa =>
      split at hok
      · next p hrdatas =>
        split at hok
        · next rdata hload =>
          cases hok
          exact ⟨p, rdata, by simp only [serialRdata, hnode, hsoa, hrdatas], hload, rfl⟩
        · cases hok
      · cases hok

def Agrees (z : MemoryZone T) (h h' : Objects) : Prop :=
  ∀ n t q, z.slots n t = some (some q) → h'.rrsets.load q = h.rrsets.load q ∧
    ∀ p ∈ (h.rrsets.load q).rdatas, h'.rdatas.load p = h.rdatas.load p

theorem Agrees.refl (z : MemoryZone T) (h : Objects) : z.Agrees h h :=
  fun _ _ _ _ => ⟨rfl, fun _ _ => rfl⟩

theorem Agrees.trans {h h' h'' : Objects} (h₁ : z.Agrees h h') (h₂ : z.Agrees h' h'') :
    z.Agrees h h'' := by
  intro n t q hslot
  obtain ⟨hload, hrdatas⟩ := h₁ n t q hslot
  obtain ⟨hload', hrdatas'⟩ := h₂ n t q hslot
  exact ⟨hload'.trans hload, fun p hp => (hrdatas' p (hload ▸ hp)).trans (hrdatas p hp)⟩

theorem Agrees.of_extends (hz : z.Allocated h) (hext : h.Extends h') : z.Agrees h h' := by
  intro n t q hslot
  exact ⟨hext.rrsets.load_eq q (hz n t q hslot), fun p _ => by rw [hext.rdatas]⟩

theorem Agrees.of_write {p : Ptr} (hp : ¬z.Refers h p) (rdata : Rdata) :
    z.Agrees h { h with rdatas := h.rdatas.write p rdata } := by
  intro n t q hslot
  refine ⟨rfl, fun p' hp' => Heap.load_write_of_ne ?_ rdata⟩
  rintro rfl
  exact hp ⟨n, t, q, hslot, hp'⟩

theorem Agrees.value_eq (hagree : z.Agrees h h') {n : Name} {t : RRType} {q : Ptr}
    (hslot : z.slots n t = some (some q)) : h'.value q = h.value q := by
  obtain ⟨hload, hrdatas⟩ := hagree n t q hslot
  simp only [Objects.value, RRset.map, hload, RRset.mk.injEq, true_and]
  exact map_congr_left hrdatas

end MemoryZone

def Found.ptr : Found → Ptr
  | .stored p => p
  | .synthesis p _ => p

theorem zoneCutCallback_eq_ok {nd : Node NameNode} {state state' : FindState} {stop : Bool}
    (hok : zoneCutCallback nd state = .ok (stop, state')) :
    (stop = false ∧ state' = state) ∨ ∃ nameNode : NameNode,
      nd.data = some nameNode ∧ nameNode.lookup .ns = some state'.rrset := by
  unfold zoneCutCallback at hok
  split at hok
  · cases hok
  · next nameNode hdata =>
    split at hok
    · cases hok
    · next ns hns =>
      split at hok
      · cases hok
        exact .inl ⟨rfl, rfl⟩
      · cases hok
        exact .inr ⟨nameNode, hdata, hns⟩

theorem walk_rrset {path : List (Name × Node NameNode)} {state state' : FindState}
    {stopped : Option Name} {p : Ptr}
    (hwalk : walk zoneCutCallback path state = .ok (stopped, state'))
    (hrrset : state'.rrset = some p) :
    state.rrset = some p ∨ ∃ entry ∈ path, ∃ nameNode : NameNode,
      entry.2.data = some nameNode ∧ nameNode.lookup .ns = some (some p) := by
  induction path generalizing state with
  | nil =>
    cases hwalk
    exact .inl hrrset
  | cons entry path ih =>
    obtain ⟨n, nd⟩ := entry
    have hlater {s : FindState} (hrest : walk zoneCutCallback path s = .ok (stopped, state')) :
        s.rrset = some p ∨ ∃ entry ∈ (n, nd) :: path, ∃ nameNode : NameNode,
          entry.2.data = some nameNode ∧ nameNode.lookup .ns = some (some p) := by
      refine (ih hrest).imp_right ?_
      rintro ⟨e, he, hns⟩
      exact ⟨e, mem_cons_of_mem _ he, hns⟩
    simp only [walk] at hwalk
    split at hwalk
    · split at hwalk
      · next hcallback =>
        cases hwalk
        rcases zoneCutCallback_eq_ok hcallback with ⟨hstop, _⟩ | ⟨nameNode, hdata, hns⟩
        · cases hstop
        · exact .inr ⟨(n, nd), mem_cons_self, nameNode, hdata, hrrset ▸ hns⟩
      · next hcallback =>
        rcases zoneCutCallback_eq_ok hcallback with ⟨_, rfl⟩ | ⟨nameNode, hdata, hns⟩
        · exact hlater hwalk
        · refine .inr ((hlater hwalk).elim (fun hp => ?_) id)
          exact ⟨(n, nd), mem_cons_self, nameNode, hdata, hp ▸ hns⟩
      · cases hwalk
    · exact hlater hwalk

theorem answerFrom_stored {nameNode : NameNode} {typ : RRType} {found : Found}
    (hfound : (answerFrom nameNode typ).rrset = some found) :
    ∃ t, nameNode.lookup t = some (some found.ptr) := by
  unfold answerFrom at hfound
  split at hfound
  · next rrset hlookup =>
    obtain ⟨p, rfl, rfl⟩ := map_eq_some_iff.mp hfound
    exact ⟨typ, hlookup⟩
  · split at hfound
    · next cname hlookup =>
      obtain ⟨p, rfl, rfl⟩ := map_eq_some_iff.mp hfound
      exact ⟨.cname, hlookup⟩
    · cases hfound

theorem synthesizeFrom_stored {nameNode : NameNode} {typ : RRType} {name : Name}
    {result : FindResult} {found : Found} (hok : synthesizeFrom nameNode typ name = .ok result)
    (hfound : result.rrset = some found) : ∃ t, nameNode.lookup t = some (some found.ptr) := by
  unfold synthesizeFrom at hok
  split at hok
  · next rrset hlookup =>
    cases hok
    cases hfound
    exact ⟨typ, hlookup⟩
  · cases hok
  · split at hok
    · next cname hlookup =>
      cases hok
      cases hfound
      exact ⟨.cname, hlookup⟩
    · cases hok
    · cases hok
      cases hfound

namespace MemoryZone

variable {z : MemoryZone T} {name : Name} {typ : RRType} {ctx : FinderCtx} {found : Found}

theorem findExact_stored (hfound : (z.findExact name typ).result.rrset = some found) :
    ∃ n t, z.slots n t = some (some found.ptr) := by
  unfold findExact at hfound
  split at hfound
  · cases hfound
  · next nameNode hdata =>
    have hslots (t : RRType) : nameNode.lookup t = z.slots name t := by simp [slots, hdata]
    split at hfound
    · next hcut =>
      obtain ⟨ns, hns⟩ := isSome_iff_exists.mp hcut.2.2
      simp only [hns, getD_some] at hfound
      obtain ⟨p, rfl, rfl⟩ := map_eq_some_iff.mp hfound
      exact ⟨name, .ns, (hslots .ns).symm.trans hns⟩
    · obtain ⟨t, hlookup⟩ := answerFrom_stored hfound
      exact ⟨name, t, (hslots t).symm.trans hlookup⟩

theorem findPartial_stored {out : SearchOut} {state : FindState}
    (hok : z.findPartial name typ out state = .ok ctx)
    (hcut : ∀ p, state.rrset = some p → ∃ n t, z.slots n t = some (some p))
    (hfound : ctx.result.rrset = some found) : ∃ n t, z.slots n t = some (some found.ptr) := by
  unfold findPartial at hok
  split at hok
  · cases hok
    obtain ⟨p, hp, rfl⟩ := map_eq_some_iff.mp hfound
    exact hcut p hp
  · split at hok
    · cases hok
      cases hfound
    · split at hok
      · split at hok
        · split at hok
          · cases hok
          · next nameNode hdata =>
            split at hok
            · cases hok
            · next result hsynthesis =>
              cases hok
              obtain ⟨t, hlookup⟩ := synthesizeFrom_stored hsynthesis hfound
              exact ⟨out.node.wildcard, t, by simpa [slots, hdata] using hlookup⟩
        · cases hok
      · cases hok
        cases hfound

variable [LawfulDomainTree T NameNode]

theorem find_stored {option : FindOption} (hok : z.find name typ option = .ok ctx)
    (hfound : ctx.result.rrset = some found) : ∃ n t, z.slots n t = some (some found.ptr) := by
  have hcut {stopped : Option Name} {state : FindState}
      (hwalk : walk zoneCutCallback (pathTo z.domains name) ⟨none, none, option⟩ =
        .ok (stopped, state)) (p : Ptr) (hp : state.rrset = some p) :
      ∃ n t, z.slots n t = some (some p) := by
    rcases walk_rrset hwalk hp with hnone | ⟨⟨m, nd⟩, hmem, nameNode, hdata, hlookup⟩
    · cases hnone
    · obtain ⟨m', _, hnode⟩ := mem_filterMap.mp hmem
      obtain ⟨nd', hnd', heq⟩ := map_eq_some_iff.mp hnode
      obtain ⟨rfl, rfl⟩ := Prod.mk.inj heq
      have hdata' : dataAt z.domains m' = some nameNode := by simpa [dataAt, hnd'] using hdata
      exact ⟨m', .ns, by simp [slots, hdata', hlookup]⟩
  unfold find at hok
  split at hok
  · cases hok
  · next out state hsearch =>
    split at hok
    · refine findPartial_stored hok (fun p hp => ?_) hfound
      rw [searchExt_eq] at hsearch
      split at hsearch
      · next hwalk =>
        cases hsearch
        exact hcut hwalk p hp
      · next hwalk =>
        cases hsearch
        exact hcut hwalk p hp
      · cases hsearch
    · cases hok
      cases hfound
    · cases hok
      exact findExact_stored hfound

end MemoryZone

section finds

variable {rotate : List Ptr → List Ptr} {dz dz' : DynamicZone T} {h h' : Objects}

theorem Found.rotateRdata_agrees (hrotate : ∀ l, (rotate l).Perm l) {z : MemoryZone T}
    (hagree : z.Agrees h h') {found : Found} {n : Name} {t : RRType}
    (hslot : z.slots n t = some (some found.ptr)) :
    z.Agrees (found.rotateRdata rotate h).1 (found.rotateRdata rotate h').1 ∧
      (found.rotateRdata rotate h').2 = (found.rotateRdata rotate h).2 := by
  obtain ⟨hload, hrdatas⟩ := hagree n t found.ptr hslot
  cases found with
  | synthesis p name =>
    refine ⟨hagree, ?_⟩
    simp only [ptr] at hload hrdatas
    simp only [rotateRdata, RRset.map, hload, RRset.mk.injEq, true_and]
    exact map_congr_left fun q hq => hrdatas q ((hrotate _).mem_iff.mp hq)
  | stored p =>
    simp only [ptr] at hload hrdatas
    have hstep : z.Agrees (rotateRdata rotate h (.stored p)).1
        (rotateRdata rotate h' (.stored p)).1 := by
      intro m k q hq
      simp only [rotateRdata, hload]
      by_cases hqp : q = p
      · subst hqp
        simp only [Heap.load_write_self, true_and]
        exact fun q' hq' => hrdatas q' ((hrotate _).mem_iff.mp hq')
      · rw [Heap.load_write_of_ne hqp, Heap.load_write_of_ne hqp]
        exact hagree m k q hq
    exact ⟨hstep, hstep.value_eq hslot⟩

theorem answers_of_agrees [LawfulDomainTree T NameNode] (hrotate : ∀ l, (rotate l).Perm l)
    (hzone : dz'.memoryZone = dz.memoryZone) (hagree : dz.memoryZone.Agrees h h')
    (qs : List Query) : dz'.answers rotate h' qs = dz.answers rotate h qs := by
  induction qs generalizing h h' with
  | nil => rfl
  | cons q qs ih =>
    simp only [DynamicZone.answers, DynamicZone.find, hzone]
    by_cases hempty : dz.memoryZone.isEmpty = true
    · simp only [hempty, if_true, ih hagree]
    · simp only [hempty]
      cases hfind : dz.memoryZone.find q.name q.typ q.option with
      | error e => simp [ih hagree]
      | ok ctx =>
        cases hfound : ctx.result.rrset with
        | none => simp [hfound, ih hagree]
        | some found =>
          obtain ⟨n, t, hslot⟩ := MemoryZone.find_stored hfind hfound
          obtain ⟨hagree', hvalue⟩ := Found.rotateRdata_agrees hrotate hagree hslot
          simp [hfound, hvalue, ih hagree']

end finds

variable [LawfulDomainTree T NameNode]

theorem agrees_stepTx {z : MemoryZone T} {s s' : ZoneState T} {c : TxCall}
    (hz : z.Allocated s.objects)
    (hunshared : c = .increaseSerialNumber → ∀ p, s.zone.serialRdata s.objects = some p →
      ¬z.Refers s.objects p)
    (hstep : s.stepTx c = .ok s') : z.Agrees s.objects s'.objects ∧ z.Allocated s'.objects := by
  cases c with
  | change op =>
    obtain ⟨o, hok, rfl⟩ := ZoneState.step_eq_ok.mp hstep
    have hext := MemoryZone.perform_extends hok
    exact ⟨.of_extends hz hext, fun n t q hslot =>
      (hz n t q hslot).trans_le hext.rrsets.next_le⟩
  | increaseSerialNumber =>
    simp only [ZoneState.stepTx] at hstep
    split at hstep
    · next objects hok =>
      cases hstep
      obtain ⟨p, soa, hp, _, rfl⟩ := MemoryZone.increaseSerialNumber_eq_ok hok
      exact ⟨.of_write (hunshared rfl p hp) _, hz⟩
    · cases hstep

/-- A failed transaction is invisible if each serial it increases is an object of its own. -/
theorem failed_transaction_invisible {rotate : List Ptr → List Ptr}
    (hrotate : ∀ l, (rotate l).Perm l) {h : Objects} {dz : DynamicZone T}
    (halloc : dz.memoryZone.Allocated h) {calls : List TxCall} {s : ZoneState T}
    (hunshared : Along ZoneState.stepTx (fun s c => c = .increaseSerialNumber →
      ∀ p, s.zone.serialRdata s.objects = some p → ¬dz.memoryZone.Refers s.objects p)
      ⟨h, dz.begin.2, []⟩ calls)
    (hrun : run ZoneState.stepTx ⟨h, dz.begin.2, []⟩ calls = .ok s) {ending : Ending}
    (hend : ending = .commit → (dz.begin.1.commit s.zone).2 ≠ none) (qs : List Query) :
    (dz.begin.1.finish s.zone ending).1.answers rotate s.objects qs = dz.answers rotate h qs := by
  let Inv (s : ZoneState T) : Prop :=
    dz.memoryZone.Agrees h s.objects ∧ dz.memoryZone.Allocated s.objects
  have hs : Inv s := by
    refine run_induction Inv ?_ hunshared ⟨.refl _ _, halloc⟩ hrun
    rintro s c s' ⟨hagree, hz⟩ hunshared hstep
    obtain ⟨hagree', hz'⟩ := agrees_stepTx hz hunshared hstep
    exact ⟨hagree.trans hagree', hz'⟩
  have hzone : (dz.begin.1.finish s.zone ending).1.memoryZone = dz.memoryZone :=
    DynamicZone.memoryZone_finish hend
  exact answers_of_agrees hrotate hzone hs.1 qs

def soaQuery : Query := ⟨["example"], .soa, .default⟩

def soaAnswer (serial : UInt32) : Except Panic FindAnswer :=
  .ok ⟨.success, some ⟨["example"], .soa, .internet, 300,
    [.soa ⟨["ns", "example"], ["root", "example"], serial, 7200, 3600, 86400, 300⟩]⟩⟩

/-- A transaction that puts a newer SOA in place, increases its serial and is rolled back. -/
theorem example_rollBack_invisible :
    ∃ s, run ZoneState.stepTx ⟨exampleObjects, exampleDynamicZone.begin.2, []⟩
        [.change (.add 5), .increaseSerialNumber, .change (.add 2)] = .ok s ∧
      (exampleDynamicZone.begin.1.finish s.zone .rollBack).1.answers (·.rotate 1) s.objects
          [soaQuery] =
        exampleDynamicZone.answers (·.rotate 1) exampleObjects [soaQuery] := by
  have hrefers : ¬exampleDynamicZone.memoryZone.Refers exampleObjects 4 := by
    rintro ⟨n, t, q, hslot, hmem⟩
    have hstored : ∀ entry ∈ exampleZone.domains.nodes, ∀ nodeData ∈ entry.2.data,
        ∀ x ∈ nodeData.entries, ∀ q ∈ x.2, 4 ∉ (exampleObjects.rrsets.load q).rdatas := by
      decide
    obtain ⟨entry, hentry, nodeData, hdata, hx⟩ := mem_slots_referenceTree hslot
    exact hstored entry hentry nodeData hdata _ hx q rfl hmem
  have hunshared : Along ZoneState.stepTx (fun s c => c = .increaseSerialNumber →
      ∀ p, s.zone.serialRdata s.objects = some p →
        ¬exampleDynamicZone.memoryZone.Refers s.objects p)
      ⟨exampleObjects, exampleDynamicZone.begin.2, []⟩
      [.change (.add 5), .increaseSerialNumber, .change (.add 2)] := by
    refine ⟨nofun, ?_⟩
    rintro _ ⟨⟩
    refine ⟨fun _ p hp => ?_, ?_⟩
    · cases hp
      exact hrefers
    · exact fun _ _ => ⟨nofun, fun _ _ => trivial⟩
  have hend (tmp : MemoryZone (ReferenceTree NameNode)) : Ending.rollBack = .commit →
      (exampleDynamicZone.begin.1.commit tmp).2 ≠ none := nofun
  exact ⟨_, rfl, failed_transaction_invisible (fun l => rotate_perm l 1)
    exampleZone_wellFormed.allocated hunshared rfl (hend _) [soaQuery]⟩

/-- A rolled back increase of the serial shows in the next answer. -/
theorem example_rollBack_visible :
    exampleDynamicZone.answers (·.rotate 1) exampleObjects [soaQuery] = [soaAnswer 1] ∧
    ∃ s, run ZoneState.stepTx ⟨exampleObjects, exampleDynamicZone.begin.2, []⟩
        [.increaseSerialNumber] = .ok s ∧
      (exampleDynamicZone.begin.1.finish s.zone .rollBack).1.answers (·.rotate 1) s.objects
        [soaQuery] = [soaAnswer 2] :=
  ⟨by decide, _, rfl, by decide⟩

end Vanguard.Zone
