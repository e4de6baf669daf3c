import Vanguard.Library.Threads
import Vanguard.Xfr.Runner
import Vanguard.Zone.Refinement

namespace Vanguard.Xfr

open Library Zone Auth List

variable {T Z : Type} (ds : AuthDataSource T Z)

def XFRRunner.busy (s : XFRRunner) : List (String × Name) := s.pending ++ s.running ds

def Justified (s : XFRRunner) : Prop :=
  ∀ view, ∀ name ∈ s.inFlightIXFR view, (view, name) ∈ s.busy ds

variable {ds} {s : XFRRunner}

theorem mem_update {inFlight : String → List Name} {view view' : String} {names : List Name}
    {name : Name} : name ∈ Function.update inFlight view names view' ↔
      if view' = view then name ∈ names else name ∈ inFlight view' := by
  rw [Function.update_apply]
  split <;> rfl

theorem mem_removeZoneFromTransfer {inFlight : String → List Name} {view : String}
    (hnodup : (inFlight view).Nodup) (name : Name) (view' : String) (name' : Name) :
    name' ∈ removeZoneFromTransfer inFlight view name view' ↔
      name' ∈ inFlight view' ∧ (view', name') ≠ (view, name) := by
  rw [removeZoneFromTransfer, mem_update]
  split
  · next heq => simp [heq, hnodup.mem_erase_iff, and_comm]
  · next hne => simp [hne]

/-- A notification that is going to be looked at. -/
def XFRRunner.marked (s : XFRRunner) (view ip : String) (soa : RRset Rdata) (z : Ptr) : XFRRunner :=
  ⟨Function.update s.inFlightIXFR view (s.inFlightIXFR view ++ [soa.name]),
    s.handlers ++ [⟨view, soa, ip, z⟩], s.transfers⟩

theorem busy_marked (view ip : String) (soa : RRset Rdata) (z : Ptr) :
    ((s.marked view ip soa z).busy ds).Perm ((view, soa.name) :: s.busy ds) := by
  simp only [XFRRunner.marked, XFRRunner.busy, XFRRunner.pending, XFRRunner.running,
    map_append, map_cons, map_nil, append_assoc, singleton_append]
  exact perm_middle

theorem Justified.mark (h : Justified ds s) (view ip : String) (soa : RRset Rdata) (z : Ptr) :
    Justified ds (s.marked view ip soa z) := by
  intro view' name hname
  rw [(busy_marked view ip soa z).mem_iff]
  rw [XFRRunner.marked, mem_update] at hname
  split at hname
  · next heq =>
    subst heq
    rcases mem_append.mp hname with hmem | hlast
    · exact mem_cons_of_mem _ (h _ _ hmem)
    · rw [mem_singleton.mp hlast]
      exact mem_cons_self
  · exact mem_cons_of_mem _ (h _ _ hname)

variable (ds) in
/-- A zone that is marked as being transferred while nothing is going to transfer it. -/
def XFRRunner.Stranded (s : XFRRunner) (view : String) (name : Name) : Prop :=
  name ∈ s.inFlightIXFR view ∧ (view, name) ∉ s.busy ds

theorem XFRRunner.Stranded.mark {view' : String} {name : Name} (h : s.Stranded ds view' name)
    {view : String} {soa : RRset Rdata} (hnew : soa.name ∉ s.inFlightIXFR view) (ip : String)
    (z : Ptr) : (s.marked view ip soa z).Stranded ds view' name := by
  refine ⟨?_, fun hmem => ?_⟩
  · rw [XFRRunner.marked, mem_update]
    split
    · next heq => exact mem_append_left _ (heq ▸ h.1)
    · exact h.1
  · rcases mem_cons.mp ((busy_marked view ip soa z).mem_iff.mp hmem) with heq | hold
    · cases heq
      exact hnew h.1
    · exact h.2 hold

theorem Handler.checks_of_passes {h : Handler} (hpasses : h.Passes ds) :
    ∃ t, h.checks ds = some t ∧ t.view = h.view ∧ t.zone = h.targetZone := by
  obtain ⟨hsoa, hslave, hmaster⟩ := hpasses
  unfold Handler.checks
  cases hrdatas : h.soa.rdatas with
  | nil => simp [hrdatas] at hsoa
  | cons rdata rdatas =>
    rw [hrdatas] at hsoa
    cases rdata with
    | soa soa =>
      exact ⟨⟨h.view, h.targetZone, soa.serial, h.ip ++ ":53"⟩, by simp [hslave, hmaster], rfl, rfl⟩
    | _ => simp [Rdata.isSoa] at hsoa

theorem Handler.checks_of_not_passes {h : Handler} (hfails : ¬h.Passes ds) :
    h.checks ds = none := by
  unfold Handler.checks
  unfold Handler.Passes at hfails
  split
  · next hrdatas => simp_all [Rdata.isSoa]
  · rfl

theorem busy_check_fails {i : ℕ} {handler : Handler} (hi : s.handlers[i]? = some handler)
    (hfails : ¬handler.Passes ds) :
    (s.busy ds).Perm ((handler.view, handler.soa.name) :: XFRRunner.busy ds { s with
      handlers := s.handlers.eraseIdx i
      transfers := s.transfers ++ (handler.checks ds).toList }) := by
  have hperm := (perm_eraseIdx hi).map fun h : Handler => (h.view, h.soa.name)
  simp only [XFRRunner.busy, XFRRunner.pending, XFRRunner.running,
    Handler.checks_of_not_passes hfails, Option.toList_none, append_nil]
  exact hperm.symm.append_right _

theorem busy_finish {i : ℕ} {t : Transfer} (hi : s.transfers[i]? = some t) :
    (s.busy ds).Perm ((t.view, t.name ds) :: XFRRunner.busy ds { s with
      inFlightIXFR := removeZoneFromTransfer s.inFlightIXFR t.view (t.name ds)
      transfers := s.transfers.eraseIdx i }) := by
  have hperm := (perm_eraseIdx hi).map fun t : Transfer => (t.view, t.name ds)
  simp only [XFRRunner.busy, XFRRunner.pending, XFRRunner.running]
  exact (hperm.symm.append_left _).trans perm_middle

variable [NameTree Z Ptr]

variable (ds) in
def Filed : Prop := ∀ view name z, ds.getZone view name = .exactMatch z →
  (ds.zones.load z).zone.memoryZone.origin = name

variable (ds) in
structure Inv (s : XFRRunner) : Prop where
  nodup : (s.busy ds).Nodup
  marked : ∀ p ∈ s.busy ds, p.2 ∈ s.inFlightIXFR p.1
  once : ∀ view, (s.inFlightIXFR view).Nodup
  found : ∀ h ∈ s.handlers, ds.getZone h.view h.soa.name = .exactMatch h.targetZone

theorem Inv.newXFRRunner : Inv ds newXFRRunner := ⟨nodup_nil, nofun, fun _ => nodup_nil, nofun⟩

theorem handleNotify_cases (ds : AuthDataSource T Z) (n : Notify) (s : XFRRunner) :
    handleNotify ds n s = s ∨
      ∃ soa z, n.answers = [soa] ∧ ds.getZone n.view soa.name = .exactMatch z ∧
        soa.name ∉ s.inFlightIXFR n.view ∧
        handleNotify ds n s = s.marked n.view n.ip soa z := by
  unfold handleNotify
  split
  · next soa hanswers =>
    split
    · exact .inl rfl
    · split
      · next z hzone =>
        unfold addZoneToTransfer
        by_cases hmarked : soa.name ∈ s.inFlightIXFR n.view
        · simp [hmarked]
        · exact .inr ⟨soa, z, hanswers, hzone, hmarked, by simp [hmarked, XFRRunner.marked]⟩
      · exact .inl rfl
  · exact .inl rfl

theorem Inv.mark (h : Inv ds s) {view ip : String} {soa : RRset Rdata} {z : Ptr}
    (hzone : ds.getZone view soa.name = .exactMatch z)
    (hnew : soa.name ∉ s.inFlightIXFR view) : Inv ds (s.marked view ip soa z) := by
  have hbusy : ((s.marked view ip soa z).busy ds).Perm _ := busy_marked view ip soa z
  have hfresh : (view, soa.name) ∉ s.busy ds := fun hmem => hnew (h.marked _ hmem)
  refine ⟨hbusy.nodup_iff.mpr (nodup_cons.mpr ⟨hfresh, h.nodup⟩), fun p hp => ?_,
    (Function.forall_update_iff _ fun _ => List.Nodup).mpr ⟨?_, fun view' _ => h.once view'⟩,
    forall_mem_append.mpr ⟨h.found, forall_mem_singleton.mpr hzone⟩⟩
  · rw [XFRRunner.marked, mem_update]
    rcases mem_cons.mp (hbusy.mem_iff.mp hp) with rfl | hold
    · simp
    · split
      · next heq => exact mem_append_left _ (heq ▸ h.marked p hold)
      · exact h.marked p hold
  · exact List.Nodup.append (h.once _) (nodup_singleton _) (by simpa using hnew)

section

variable (hfiled : Filed ds)

include hfiled

theorem busy_check_passes (h : Inv ds s) {i : ℕ} {handler : Handler}
    (hi : s.handlers[i]? = some handler) (hpasses : handler.Passes ds) :
    (XFRRunner.busy ds { s with
      handlers := s.handlers.eraseIdx i
      transfers := s.transfers ++ (handler.checks ds).toList }).Perm (s.busy ds) := by
  obtain ⟨t, ht, hview, hzone⟩ := Handler.checks_of_passes hpasses
  have hname : t.name ds = handler.soa.name := by
    rw [Transfer.name, hzone]
    exact hfiled _ _ _ (h.found handler (mem_of_getElem? hi))
  have hperm := (perm_eraseIdx hi).map fun h : Handler => (h.view, h.soa.name)
  simp only [XFRRunner.busy, XFRRunner.pending, XFRRunner.running, ht, Option.toList_some,
    map_append, map_cons, map_nil, hview, hname]
  rw [← append_assoc]
  exact perm_append_singleton _ _ |>.trans (hperm.append_right _)

theorem Inv.step_spec {s' : XFRRunner} {e : Event} (h : Inv ds s) (hstep : s.step ds e = .ok s') :
    Inv ds s' ∧ (∀ view name, s.Stranded ds view name → s'.Stranded ds view name) ∧
      (Justified ds s → (Justified ds s' ↔ Accepts ds s e)) := by
  cases e with
  | notify n =>
    cases hstep
    rcases handleNotify_cases ds n s with hsame | ⟨soa, z, -, hzone, hnew, heq⟩
    · rw [hsame]
      exact ⟨h, fun _ _ => id, fun hj => iff_of_true hj trivial⟩
    · rw [heq]
      exact ⟨h.mark hzone hnew, fun _ _ hs => hs.mark hnew _ _,
        fun hj => iff_of_true (hj.mark _ _ _ _) trivial⟩
  | check i =>
    simp only [XFRRunner.step] at hstep
    split at hstep
    · cases hstep
    · next handler hi =>
      cases hstep
      have hfound : ∀ h' ∈ s.handlers.eraseIdx i,
          ds.getZone h'.view h'.soa.name = .exactMatch h'.targetZone :=
        fun h' hh => h.found h' (mem_of_mem_eraseIdx hh)
      by_cases hpasses : handler.Passes ds
      · have hbusy := busy_check_passes hfiled h hi hpasses
        refine ⟨⟨hbusy.nodup_iff.mpr h.nodup, fun p hp => h.marked p (hbusy.mem_iff.mp hp),
          h.once, hfound⟩, fun view name hs => ⟨hs.1, fun hmem => hs.2 (hbusy.mem_iff.mp hmem)⟩,
          fun hj => ⟨fun _ h' hh => ?_, fun _ view name hname => ?_⟩⟩
        · cases hi.symm.trans hh
          exact hpasses
        · exact hbusy.mem_iff.mpr (hj view name hname)
      · have hbusy := busy_check_fails hi hpasses
        have hnodup := nodup_cons.mp (hbusy.nodup_iff.mp h.nodup)
        obtain ⟨hhandler, hless⟩ := cons_subset.mp hbusy.symm.subset
        refine ⟨⟨hnodup.2, fun p hp => h.marked p (hless hp), h.once, hfound⟩,
          fun view name hs => ⟨hs.1, fun hmem => hs.2 (hless hmem)⟩,
          fun _ => ⟨fun hjust => ?_, fun haccepts => ?_⟩⟩
        · -- The zone of the handler stays marked, and nothing stands for it any more.
          exact absurd (hjust _ _ (h.marked _ hhandler)) hnodup.1
        · exact absurd (haccepts handler hi) hpasses
  | finish i =>
    simp only [XFRRunner.step] at hstep
    split at hstep
    · cases hstep
    · next t hi =>
      cases hstep
      have hbusy : (s.busy ds).Perm _ := busy_finish hi
      have hnodup := nodup_cons.mp (hbusy.nodup_iff.mp h.nodup)
      obtain ⟨htransfer, hless⟩ := cons_subset.mp hbusy.symm.subset
      have hmem (view : String) (name : Name) := mem_removeZoneFromTransfer (h.once t.view)
        (t.name ds) view name
      refine ⟨⟨hnodup.2, fun p hp => ?_, ?_, h.found⟩, fun view name hs => ⟨?_, fun hp => ?_⟩,
        fun hj => iff_of_true (fun view name hname => ?_) trivial⟩
      · refine (hmem p.1 p.2).mpr ⟨h.marked p (hless hp), ?_⟩
        exact fun heq => hnodup.1 (heq ▸ hp)
      · exact (Function.forall_update_iff _ fun _ => List.Nodup).mpr
          ⟨(h.once _).erase _, fun view _ => h.once view⟩
      · exact (hmem view name).mpr ⟨hs.1, fun heq => hs.2 (heq ▸ htransfer)⟩
      · exact hs.2 (hless hp)
      · obtain ⟨hold, hne⟩ := (hmem view name).mp hname
        exact (mem_cons.mp (hbusy.mem_iff.mp (hj view name hold))).resolve_left hne

theorem Inv.step {s' : XFRRunner} {e : Event} (h : Inv ds s) (hj : Justified ds s)
    (hstep : s.step ds e = .ok s') : Inv ds s' ∧ (Justified ds s' ↔ Accepts ds s e) :=
  (h.step_spec hfiled hstep).imp_right fun hspec => hspec.2 hj

theorem inv_of_reached {events : List Event}
    (hreached : Reached (XFRRunner.step ds) newXFRRunner events s) : Inv ds s :=
  reached_invariant (Inv ds) (fun _ _ _ h hstep => (h.step_spec hfiled hstep).1) .newXFRRunner
    hreached

theorem NotLockedOut.of_justified (h : Inv ds s) (hj : Justified ds s) : NotLockedOut ds s where
  marked view name hname := (mem_append.mp (hj view name hname)).symm
  once := (nodup_append.mp h.nodup).2.1
  starts n name hrun hpend hmaster := by
    obtain ⟨soa, rdata, rdatas, z, hanswers, htyp, rfl, hrdatas, hzone, hslave, hmem⟩ := hmaster
    have hunmarked : soa.name ∉ s.inFlightIXFR n.view := fun hmarked =>
      (mem_append.mp (hj _ _ hmarked)).elim hpend hrun
    have hpasses : (⟨n.view, soa, n.ip, z⟩ : Handler).Passes ds :=
      ⟨by simp [hrdatas, Rdata.isSoa], hslave, hmem⟩
    obtain ⟨t, ht, hview, htarget⟩ := Handler.checks_of_passes hpasses
    have hname : t.name ds = soa.name := by
      rw [Transfer.name, htarget]
      exact hfiled _ _ _ hzone
    have hnotify : handleNotify ds n s = s.marked n.view n.ip soa z := by
      simp [handleNotify, hanswers, htyp, hzone, addZoneToTransfer, hunmarked, XFRRunner.marked]
    have hlast : (s.marked n.view n.ip soa z).handlers[s.handlers.length]? =
        some ⟨n.view, soa, n.ip, z⟩ := by simp [XFRRunner.marked]
    refine ⟨_, _, congrArg Except.ok hnotify, by rw [XFRRunner.step, hlast], ?_⟩
    simp [XFRRunner.running, ht, hview, hname]

theorem notLockedOut_iff (h : Inv ds s) : NotLockedOut ds s ↔ Justified ds s :=
  ⟨fun hnot view name hname => mem_append.mpr (hnot.marked view name hname).symm,
    NotLockedOut.of_justified hfiled h⟩

end

/-- Whatever is notified, a zone is transferred by one goroutine at a time, and is marked then. -/
theorem transfers_exclusive (hfiled : Filed ds) {events : List Event}
    (hreached : Reached (XFRRunner.step ds) newXFRRunner events s) :
    (s.pending ++ s.running ds).Nodup ∧
      ∀ view name, (view, name) ∈ s.running ds → name ∈ s.inFlightIXFR view := by
  have hinv : Inv ds s := inv_of_reached hfiled hreached
  exact ⟨hinv.nodup, fun view name hrun => hinv.marked _ (mem_append_right _ hrun)⟩

/-- A zone that is locked out is never transferred again. -/
theorem lockout_permanent (hfiled : Filed ds) {events later : List Event} {s' : XFRRunner}
    {view : String} {name : Name}
    (hreached : Reached (XFRRunner.step ds) newXFRRunner events s)
    (hmarked : name ∈ s.inFlightIXFR view) (hpending : (view, name) ∉ s.pending)
    (hrunning : (view, name) ∉ s.running ds)
    (hlater : Reached (XFRRunner.step ds) s later s') :
    name ∈ s'.inFlightIXFR view ∧ (view, name) ∉ s'.running ds := by
  have hstranded : s.Stranded ds view name :=
    ⟨hmarked, fun hmem => (mem_append.mp hmem).elim hpending hrunning⟩
  have hrun := reached_invariant (fun x => Inv ds x ∧ x.Stranded ds view name)
    (fun _ _ _ h hstep => ((h.1.step_spec hfiled hstep).imp_right fun hspec => hspec.1 _ _ h.2))
    ⟨inv_of_reached hfiled hreached, hstranded⟩ hlater
  exact ⟨hrun.2.1, fun hmem => hrun.2.2 (mem_append_right _ hmem)⟩

/-- No zone is locked out exactly if every handler passes its checks. -/
theorem notify_notLockedOut_iff (hfiled : Filed ds) (events : List Event) :
    (∀ s, Reached (XFRRunner.step ds) newXFRRunner events s → NotLockedOut ds s) ↔
      Along (XFRRunner.step ds) (Accepts ds) newXFRRunner events := by
  refine reached_iff_along (Inv ds) (NotLockedOut ds) ?_ ?_ events Inv.newXFRRunner
    ((notLockedOut_iff hfiled Inv.newXFRRunner).mpr nofun)
  · intro s e s' hinv hgood hstep
    obtain ⟨hinv', hiff⟩ := hinv.step hfiled ((notLockedOut_iff hfiled hinv).mp hgood) hstep
    exact ⟨hinv', (notLockedOut_iff hfiled hinv').trans hiff⟩
  · intro s e err _ _ hstep
    cases e with
    | notify n => cases hstep
    | finish i => trivial
    | check i =>
      cases hi : s.handlers[i]? with
      | none => simp [Accepts, hi]
      | some h => simp [XFRRunner.step, hi] at hstep

def exampleSlave : AuthDataSource (ReferenceTree NameNode) (NameTable Ptr) where
  viewZones view := if view = "default" then some ⟨[(["example"], 0)]⟩ else none
  zones := ⟨fun _ => ⟨⟨exampleZone, false⟩, ["10.0.0.1:53"], []⟩, 1⟩

def exampleNotify (ip : String) : Event :=
  .notify ⟨"default", ip, [⟨["example"], .soa, .internet, 300,
    [.soa ⟨["ns", "example"], ["root", "example"], 2, 7200, 3600, 86400, 300⟩]⟩]⟩

theorem exampleSlave_filed : Filed exampleSlave := by
  intro view name z hzone
  unfold AuthDataSource.getZone exampleSlave at hzone
  dsimp only at hzone
  split at hzone
  · cases hzone
  · next zones hzones =>
    split at hzones
    · cases hzones
      have hget : NameTable.find ⟨[(["example"], 0)]⟩ name = some z :=
        NameTree.search_eq_exactMatch.mp hzone
      by_contra hname
      have hbeq : (name == ["example"]) = false := beq_eq_false_iff_ne.mpr (Ne.symm hname)
      simp [NameTable.find, lookup_cons, hbeq] at hget
    · cases hzones

/-- Two notifications, the second during the transfer, and a third one after it. -/
theorem example_master_notLockedOut :
    ∃ s, Reached (XFRRunner.step exampleSlave) newXFRRunner
      [exampleNotify "10.0.0.1", .check 0, exampleNotify "10.0.0.1", .finish 0,
        exampleNotify "10.0.0.1", .check 0] s ∧ NotLockedOut exampleSlave s := by
  obtain ⟨s, hrun⟩ : ∃ s, run (XFRRunner.step exampleSlave) newXFRRunner
      [exampleNotify "10.0.0.1", .check 0, exampleNotify "10.0.0.1", .finish 0,
        exampleNotify "10.0.0.1", .check 0] = .ok s := ⟨_, rfl⟩
  have hreached := (⟨_, prefix_rfl, hrun⟩ : Reached _ _ _ s)
  exact ⟨s, hreached, (notify_notLockedOut_iff exampleSlave_filed _).mpr (by decide) s hreached⟩

theorem example_one_transfer :
    ∃ s, Reached (XFRRunner.step exampleSlave) newXFRRunner
      [exampleNotify "10.0.0.1", .check 0, exampleNotify "10.0.0.1"] s ∧
      s.running exampleSlave = [("default", ["example"])] ∧
      (s.pending ++ s.running exampleSlave).Nodup := by
  have hreached : Reached (XFRRunner.step exampleSlave) newXFRRunner
      [exampleNotify "10.0.0.1", .check 0, exampleNotify "10.0.0.1"] _ := ⟨_, prefix_rfl, rfl⟩
  exact ⟨_, hreached, by decide, (transfers_exclusive exampleSlave_filed hreached).1⟩

/-- One notification from somebody else, and the master is not heard again. -/
theorem example_never_transferred :
    ∃ s, Reached (XFRRunner.step exampleSlave) newXFRRunner
      [exampleNotify "10.0.0.9", .check 0] s ∧
      ∀ later s', Reached (XFRRunner.step exampleSlave) s later s' →
        ("default", ["example"]) ∉ s'.running exampleSlave := by
  have hreached : Reached (XFRRunner.step exampleSlave) newXFRRunner
      [exampleNotify "10.0.0.9", .check 0] _ := ⟨_, prefix_rfl, rfl⟩
  exact ⟨_, hreached, fun later s' hlater => (lockout_permanent exampleSlave_filed hreached
    (by decide) (by decide) (by decide) hlater).2⟩

/-- A notification from somebody else leaves the mark, and the next transfer does not start. -/
theorem example_zone_locked_out :
    ∃ s, run (XFRRunner.step exampleSlave) newXFRRunner
        [exampleNotify "10.0.0.9", .check 0, exampleNotify "10.0.0.1"] = .ok s ∧
      s.inFlightIXFR "default" = [["example"]] ∧ s.handlers = [] ∧ s.transfers = [] ∧
      ¬NotLockedOut exampleSlave s := by
  refine ⟨_, rfl, by decide, by decide, by decide, fun hnot => ?_⟩
  have hmarked := hnot.marked "default" ["example"]
  revert hmarked
  decide

end Vanguard.Xfr
