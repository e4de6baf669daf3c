import Vanguard.Auth.Loader
import Vanguard.Zone.Overlay

namespace Vanguard.Auth

open Library Zone List
open Xfr (AnswerRRset Intact)

variable {T : Type} [DomainTree T NameNode] [LawfulDomainTree T NameNode]

namespace Loader

variable {masters : List (Master AnswerRRset)} {h : Objects} {origin : Name}

section

variable (masters : List (Master AnswerRRset)) (origin : Name) (l : Loader T)

structure Loading (newMemZone : MemoryZone T) : Prop where
  zone_eq : l.zone.memoryZone = newMemoryZone origin
  length_eq : l.senders.length = l.master + 1
  fed : ∃ master received sender, masters[l.master]? = some master ∧
    l.senders[l.master]? = some sender ∧ Built origin received l.objects newMemZone ∧
    Fed received (doAXFR typeOf master) sender

def Served : Prop :=
  ∃ master ∈ masters, ∃ stream, doAXFR typeOf master = (stream, none) ∧
    Built origin stream l.objects l.zone.memoryZone ∧ l.zone.memoryZone.validate = none

def InPhase : LoaderPhase T → Prop
  | .loading newMemZone => Loading masters origin l newMemZone
  | .returned => l.zone.memoryZone = newMemoryZone origin ∨ Served masters origin l

end

/-- The invariant of `loadZoneFromMaster`. -/
structure Inv (masters : List (Master AnswerRRset)) (h : Objects) (origin : Name)
    (l : Loader T) : Prop where
  ext : h.Extends l.objects
  inPhase : InPhase masters origin l l.phase

variable {l : Loader T}

theorem Inv.iterate {i : ℕ} (hext : h.Extends l.objects)
    (hzone : l.zone.memoryZone = newMemoryZone origin) (hlength : l.senders.length = i) :
    Inv masters h origin (l.iterate masters i) := by
  unfold Loader.iterate
  split_ifs with hi
  · refine ⟨hext, hzone, by simp [hlength], ?_⟩
    refine ⟨masters[i], [], .spawned, getElem?_eq_getElem hi, ?_, ?_, .spawned rfl⟩
    · simp [← hlength]
    · have horigin : l.zone.memoryZone.origin = origin := by
        rw [hzone]
        rfl
      rw [horigin]
      exact .newMemoryZone _ origin
  · exact ⟨hext, .inl hzone⟩

theorem Inv.enter (masters : List (Master AnswerRRset)) (h : Objects) (origin : Name) :
    Inv masters h origin (enter masters h origin : Loader T) :=
  .iterate (Objects.Extends.refl h) rfl rfl

omit [LawfulDomainTree T NameNode] in
theorem Inv.setSender (hl : Inv masters h origin l) {i : ℕ} {sender sender' : Sender}
    (hsender : l.senders[i]? = some sender)
    (hfed : ∀ master received, masters[l.master]? = some master → i = l.master →
      Fed received (doAXFR typeOf master) sender → Fed received (doAXFR typeOf master) sender') :
    Inv masters h origin (l.setSender i sender') := by
  refine ⟨hl.ext, ?_⟩
  have hphase := hl.inPhase
  change InPhase masters origin (l.setSender i sender') l.phase
  cases hl' : l.phase with
  | returned =>
    rw [hl'] at hphase
    exact hphase
  | loading newMemZone =>
    rw [hl'] at hphase
    obtain ⟨master, received, current, hmaster, hcurrent, hbuilt, hreceived⟩ := hphase.fed
    refine ⟨hphase.zone_eq, by simpa [Loader.setSender] using hphase.length_eq, ?_⟩
    by_cases hi : i = l.master
    · subst hi
      cases hsender.symm.trans hcurrent
      refine ⟨master, received, sender', hmaster, ?_, hbuilt,
        hfed master received hmaster rfl hreceived⟩
      exact getElem?_set_self (List.getElem?_eq_some_iff.mp hsender).1
    · refine ⟨master, received, current, hmaster, ?_, hbuilt, hreceived⟩
      exact (getElem?_set_ne hi).trans hcurrent

section

variable {l l' : Loader T} (hparsed : ∀ master ∈ masters, master.Parsed h)

include hparsed

theorem Inv.receive {newMemZone : MemoryZone T} {rrset : AnswerRRset} {rrsets : List AnswerRRset}
    {err : Option AxfrError} (hext : h.Extends l.objects)
    (hload : Loading masters origin l newMemZone)
    (hsender : l.senders[l.master]? = some (.sending (rrset :: rrsets) err))
    (hadd : (l.setSender l.master (.sending rrsets err)).add masters newMemZone rrset = .ok l') :
    Inv masters h origin l' := by
  obtain ⟨master, received, sender, hmaster, hcurrent, hbuilt, hfed⟩ := hload.fed
  cases hsender.symm.trans hcurrent
  cases hfed with | sending hplan =>
  have hlength : (l.setSender l.master (.sending rrsets err)).senders.length = l.master + 1 := by
    simpa [Loader.setSender] using hload.length_eq
  have hmem : rrset ∈ (doAXFR typeOf master).1 := by simp [hplan]
  obtain ⟨answer, hanswer, hrrset⟩ := mem_of_mem_doAXFR hmem
  obtain ⟨hwf, hvalue⟩ := hparsed master (mem_of_getElem? hmaster) answer hanswer rrset hrrset
  obtain ⟨o, hok, hcases⟩ := add_eq_ok hadd
  have hperform : newMemZone.perform l.objects (.add rrset.ptr) = .ok o := hok
  have hext' : h.Extends o.objects := hext.trans (MemoryZone.perform_extends hperform)
  rcases hcases with ⟨herr, rfl⟩ | ⟨-, rfl⟩
  · refine ⟨hext', hload.zone_eq, hlength, master, received ++ [rrset], _, hmaster,
      getElem?_set_self (by simp [hload.length_eq]), ?_, .sending (by simp [hplan])⟩
    exact hbuilt.addRRset (hwf.mono hext) (hvalue.trans (hext.value_eq hwf.1).symm) hok herr
  · exact .iterate hext' hload.zone_eq hlength

theorem Inv.step (hl : Inv masters h origin l) {event : LoadEvent}
    (hstep : l.step masters event = .ok l') : Inv masters h origin l' := by
  have hphase := hl.inPhase
  cases step_eq_ok_iff.mp hstep with
  | start hsender hmaster =>
    refine hl.setSender hsender fun master' received hmaster' _ hfed => ?_
    cases hmaster.symm.trans hmaster'
    cases hfed with | spawned hreceived =>
    exact .sending (by simp [hreceived])
  | receive hloading hsender hadd =>
    rw [hloading] at hphase
    exact .receive hparsed hl.ext hphase hsender hadd
  | finished hsender =>
    refine hl.setSender hsender fun master received _ _ hfed => ?_
    cases hfed with | sending hplan =>
    exact .closing (by simpa using hplan)
  | failed hsender => exact hl.setSender hsender fun _ _ _ _ _ => .aborting
  | abort hloading hsender =>
    rw [hloading] at hphase
    exact .iterate hl.ext hphase.zone_eq (by simpa [Loader.setSender] using hphase.length_eq)
  | close hsender =>
    refine hl.setSender hsender fun master received _ _ hfed => ?_
    cases hfed with | closing hplan =>
    exact .closed hplan
  | installed hloading hsender hvalid =>
    -- The goroutine has closed the channel, so everything was received.
    rw [hloading] at hphase
    obtain ⟨master, received, sender, hmaster, hcurrent, hbuilt, hfed⟩ := hphase.fed
    cases hsender.symm.trans hcurrent
    cases hfed with | closed hplan =>
    have hmem : master ∈ masters := mem_of_getElem? hmaster
    exact ⟨hl.ext, .inr ⟨master, hmem, received, hplan, hbuilt, hvalid⟩⟩
  | invalid hloading hsender hinvalid =>
    rw [hloading] at hphase
    exact .iterate hl.ext hphase.zone_eq hphase.length_eq

end

omit [LawfulDomainTree T NameNode] in
theorem Inv.served (hl : Inv masters h origin l) :
    l.zone.memoryZone = newMemoryZone origin ∨ Served masters origin l := by
  have hphase := hl.inPhase
  cases hl' : l.phase with
  | returned =>
    rw [hl'] at hphase
    exact hphase
  | loading newMemZone =>
    rw [hl'] at hphase
    exact .inl hphase.zone_eq

end Loader

variable {rs : List (RRset Rdata)}

theorem covered_empty_iff {origin : Name} {soa : RRset Rdata} :
    Covered origin (fun _ _ => none) soa rs ↔ ∀ r ∈ rs, ¬(r.typ = .ns ∧ r.name.isWildCard = true) :=
  ⟨Covered.noWildcardCut, fun hcut => ⟨hcut, fun _ => ⟨nofun, nofun, nofun⟩⟩⟩

theorem MadeOf.records_eq_iff {origin : Name} {soa : RRset Rdata} {m : ZoneMap}
    (hm : MadeOf origin (soa :: rs) m) (hzone : WholeZone origin soa rs) :
    m.records = recordsOf (soa :: rs) ↔ ∀ r ∈ rs, ¬(r.typ = .ns ∧ r.name.isWildCard = true) := by
  have hempty : ZoneMap.Legal fun _ _ => none :=
    ⟨fun _ _ hsome => absurd hsome (by simp), fun _ _ => rfl⟩
  rw [hm.eq_foldl]
  exact (overlay_iff hempty hzone).trans covered_empty_iff

/-- The zone is empty, or the complete answer of one master without the NS RRsets of wildcards,
however the goroutines are interleaved. -/
theorem loadZoneFromMaster_complete {masters : List (Master AnswerRRset)} {h : Objects}
    {origin : Name} (hparsed : ∀ master ∈ masters, master.Parsed h) {events : List LoadEvent}
    {l : Loader T} (hreached : Reached (Loader.step masters) (.enter masters h origin) events l) :
    l.zone.memoryZone = newMemoryZone origin ∨
    ∃ master ∈ masters, ∃ stream, doAXFR typeOf master = (stream, none) ∧
      WholeStream typeOf master.reads stream ∧
      MadeOf origin (stream.map AnswerRRset.value) (l.zone.memoryZone.content l.objects) ∧
      ∀ soa rs, stream.map AnswerRRset.value = soa :: rs → WholeZone origin soa rs →
        ((l.zone.memoryZone.content l.objects).records = recordsOf (soa :: rs) ↔
          ∀ r ∈ rs, ¬(r.typ = .ns ∧ r.name.isWildCard = true)) := by
  have hinv : Loader.Inv masters h origin l :=
    reached_induction (P := fun _ _ => True) (Loader.Inv masters h origin)
      (fun _ _ _ hl _ hstep => hl.step hparsed hstep) (along_of_forall (fun _ _ => trivial) _ _)
      (.enter masters h origin) hreached
  refine hinv.served.imp_right ?_
  rintro ⟨master, hmaster, stream, hstream, hbuilt, -⟩
  refine ⟨master, hmaster, stream, hstream, doAXFR_complete hstream, hbuilt.content, ?_⟩
  exact fun soa rs hvalues hzone => (hvalues ▸ hbuilt.content).records_eq_iff hzone

/-- The SOA and NS RRsets of a zone, and an NS RRset of a wildcard. -/
def loaderObjects : Objects := .ofLists
  [⟨["example"], .soa, .internet, 300, [0]⟩, ⟨["example"], .ns, .internet, 300, [1]⟩,
    ⟨["*", "example"], .ns, .internet, 300, [1]⟩]
  [.soa ⟨["ns", "example"], ["root", "example"], 1, 7200, 3600, 86400, 300⟩, .ns ["ns", "example"]]

def loaderMaster (ptrs : List Ptr) : Master AnswerRRset :=
  ⟨true, true, [.message (ptrs.map fun p => ⟨p, loaderObjects.value p⟩)]⟩

theorem loaderMaster_parsed {ptrs : List Ptr}
    (hptrs : ∀ p ∈ ptrs, (ZoneOp.add p).WellFormed loaderObjects) :
    (loaderMaster ptrs).Parsed loaderObjects := by
  intro rrsets hrrsets rrset hrrset
  obtain rfl := Read.message.inj (mem_singleton.mp hrrsets)
  obtain ⟨p, hp, rfl⟩ := mem_map.mp hrrset
  exact ⟨hptrs p hp, rfl⟩

def loadedBy (masters : List (Master AnswerRRset)) (events : List LoadEvent) :
    Loader (ReferenceTree NameNode) :=
  match run (Loader.step masters) (.enter masters loaderObjects ["example"]) events with
  | .ok l => l
  | .error _ => .enter masters loaderObjects ["example"]

def exampleMasters : List (Master AnswerRRset) := [loaderMaster [0, 1], loaderMaster [0, 1, 0]]

/-- The first transfer fails after two RRsets, and the load from the second master is
successful. -/
def exampleLoad : List LoadEvent :=
  [.start 0, .receive, .receive, .finish 0, .abort 0, .start 1, .receive, .close 0, .receive,
    .finish 1, .close 1, .receiveClosed]

/-- The zone is loaded, and made of the answer of a master whose transfer was successful. -/
theorem example_second_master_loaded :
    (loadedBy exampleMasters exampleLoad).zone.memoryZone.validate = none ∧
    ∃ master ∈ exampleMasters, ∃ stream, doAXFR typeOf master = (stream, none) ∧
      MadeOf ["example"] (stream.map AnswerRRset.value)
        ((loadedBy exampleMasters exampleLoad).zone.memoryZone.content
          (loadedBy exampleMasters exampleLoad).objects) := by
  have hparsed : ∀ master ∈ exampleMasters, master.Parsed loaderObjects := by
    intro master hmaster
    rcases mem_pair.mp hmaster with rfl | rfl
    · exact loaderMaster_parsed (by decide)
    · exact loaderMaster_parsed (by decide)
  have hrun : run (Loader.step exampleMasters) (.enter exampleMasters loaderObjects ["example"])
      exampleLoad = .ok (loadedBy exampleMasters exampleLoad) := rfl
  have hvalid : (loadedBy exampleMasters exampleLoad).zone.memoryZone.validate = none := rfl
  refine ⟨hvalid, ?_⟩
  rcases loadZoneFromMaster_complete hparsed ⟨exampleLoad, prefix_rfl, hrun⟩ with
    hempty | ⟨master, hmaster, stream, hstream, -, hmade, -⟩
  · rw [hempty] at hvalid
    cases hvalid
  · exact ⟨master, hmaster, stream, hstream, hmade⟩

def exampleWildcardLoad : List LoadEvent :=
  [.start 0, .receive, .receive, .receive, .finish 0, .close 0, .receiveClosed]

/-- The zone of a master is installed without the NS RRset of a wildcard. -/
theorem example_wildcard_ns_left_out :
    ∃ l : Loader (ReferenceTree NameNode), Reached (Loader.step [loaderMaster [0, 1, 2, 0]])
        (.enter [loaderMaster [0, 1, 2, 0]] loaderObjects ["example"]) exampleWildcardLoad l ∧
      l.phase = .returned ∧ l.zone.memoryZone.validate = none ∧
      ∀ master ∈ [loaderMaster [0, 1, 2, 0]], ∀ stream, doAXFR typeOf master = (stream, none) →
        (l.zone.memoryZone.content l.objects).records ≠
          recordsOf (stream.map AnswerRRset.value) := by
  refine ⟨loadedBy [loaderMaster [0, 1, 2, 0]] exampleWildcardLoad,
    ⟨exampleWildcardLoad, prefix_rfl, rfl⟩, rfl, rfl,
    fun master hmaster stream hstream hrecords => ?_⟩
  obtain rfl := mem_singleton.mp hmaster
  have hvalues : stream.map AnswerRRset.value = [0, 1, 2].map loaderObjects.value := by
    have hsent : (doAXFR typeOf (loaderMaster [0, 1, 2, 0])).1 = stream := congrArg Prod.fst hstream
    rw [← hsent]
    rfl
  have hmem : (⟨["*", "example"], .ns, 300, .ns ["ns", "example"]⟩ : Record) ∈
      recordsOf (stream.map AnswerRRset.value) :=
    ⟨loaderObjects.value 2, by simp [hvalues], rfl, rfl, rfl, by decide⟩
  obtain ⟨e, he, -⟩ := hrecords.symm ▸ hmem
  have hnone : (loadedBy [loaderMaster [0, 1, 2, 0]] exampleWildcardLoad).zone.memoryZone.content
      (loadedBy [loaderMaster [0, 1, 2, 0]] exampleWildcardLoad).objects ["*", "example"] .ns =
        none := rfl
  exact nomatch he.symm.trans hnone

end Vanguard.Auth
