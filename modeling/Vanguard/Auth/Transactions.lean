import Vanguard.Auth.LockRelease
import Vanguard.Zone.Working

namespace Vanguard

open Library List Zone.MemoryZone

namespace Zone.MemoryZone

/-- A zone that answers queries has passed the check of `Commit`, or it was never loaded. -/
def Served {T : Type} [DomainTree T NameNode] (z : MemoryZone T) : Prop :=
  z.validate = none ∨ ∀ n t, z.slots n t = none

end Zone.MemoryZone

namespace Auth

open Zone

variable {T Z : Type} [DomainTree T NameNode] [NameTree Z Ptr]

def Progress.Takes (s : Progress T) (p : Ptr) : Prop :=
  s.Readable p ∧ s.tmp.Takes s.objects (updateOp p (s.objects.rrsets.load p))

instance (s : Progress T) (p : Ptr) : Decidable (s.Takes p) := inferInstanceAs (Decidable (_ ∧ _))

/-- The working copy takes every RRset in turn, and can then be committed. -/
structure Transacts (h : Objects) (dz : DynamicZone T) (rrsets : List Ptr) : Prop where
  calls : Along updateRRset Progress.Takes ⟨h, dz.begin.2, false, false⟩ rrsets
  valid : ∀ s, run updateRRset ⟨h, dz.begin.2, false, false⟩ rrsets = .ok s →
    s.hasRRModified = true → s.tmp.validate = none

def updateOps (h : Objects) (rrsets : List Ptr) : List MapOp :=
  rrsets.map fun p => (updateOp p (h.rrsets.load p)).value h

/-- There is no SOA and the calls make a difference to the map. -/
def Alters (h : Objects) (dz : DynamicZone T) (rrsets : List Ptr) : Prop :=
  (∃ p ∈ rrsets, (h.rrsets.load p).typ = .soa) →
    (updateOps h rrsets).foldl (fun m op => op.apply dz.memoryZone.origin m)
      (dz.memoryZone.content h) ≠ dz.memoryZone.content h

variable [LawfulDomainTree T NameNode]

theorem updateRRset_stops_iff (s : Progress T) (p : Ptr) :
    (∀ stop, updateRRset s p = .error stop → ¬True) ↔ s.Takes p := by
  rw [Progress.Takes, Progress.Readable, ← perform_returns_iff]
  cases hperform : s.tmp.perform s.objects (updateOp p (s.objects.rrsets.load p)) with
  | error e => simp [updateRRset, hperform]
  | ok o =>
    rw [← perform_passed_iff hperform, Passed]
    rcases herr : o.err with _ | err
    · simp [updateRRset, hperform, herr]
    · cases err <;> simp [updateRRset, hperform, herr]

variable {rrsets : List Ptr}

theorem updateZone_err_iff {h : Objects} {dz : DynamicZone T} {u : Updated T}
    (hok : updateZone h dz rrsets = .ok u) : u.err = none ↔ Transacts h dz rrsets := by
  have hcalls := run_stops_iff_along updateRRset_stops_iff
    (⟨h, dz.begin.2, false, false⟩ : Progress T) rrsets
  have hvalid {s : Progress T}
      (hrun : run updateRRset ⟨h, dz.begin.2, false, false⟩ rrsets = .ok s) :
      Transacts h dz rrsets ↔ (s.hasRRModified = true → s.tmp.validate = none) := by
    refine ⟨fun ht => ht.valid s hrun, fun hvalid => ⟨hcalls.mp fun stop hstop => ?_, ?_⟩⟩
    · cases hrun.symm.trans hstop
    · intro s' hs'
      cases hrun.symm.trans hs'
      exact hvalid
  cases updateZone_effect hok with
  | refused hrun =>
    exact iff_of_false (by simp) fun ht => hcalls.mpr ht.calls _ hrun trivial
  | idle hrun hmodified => simp [hvalid hrun, hmodified]
  | @committed s objects hrun hmodified hserial =>
    rw [hvalid hrun]
    cases hcheck : s.tmp.validate with
    | none => simp [DynamicZone.commit, hcheck]
    | some err => simp [DynamicZone.commit, hcheck, hmodified]

structure Kept (s s' : Progress T) : Prop where
  extend : s.objects.Extends s'.objects
  allocated : s'.tmp.Allocated s'.objects
  closed : s'.objects.Closed
  origin : s'.tmp.origin = s.tmp.origin
  valid : s.tmp.validate = none → s'.tmp.validate = none
  soa : s'.explicitUpdateSOA = false → s'.tmp.content s'.objects s.tmp.origin .soa =
    s.tmp.content s.objects s.tmp.origin .soa

theorem updateOp_ne_deleteRRset {p q : Ptr} {r : RRset Ptr} (hcls : r.cls ≠ .any) :
    updateOp p r ≠ .deleteRRset q := by
  unfold updateOp
  split_ifs <;> simp_all

theorem Kept.round {s mid s' : Progress T} {p : Ptr} (hkept : Kept s mid)
    (hp : p < s.objects.rrsets.next) (hcls : (s.objects.rrsets.load p).cls ≠ .any)
    (hstep : updateRRset mid p = .ok s') : Kept s s' := by
  obtain ⟨o, hok, hcase⟩ := updateRRset_eq_ok hstep
  have hload := hkept.extend.rrsets.load_eq p hp
  have hop := allocated_updateOp (hp.trans_le hkept.extend.rrsets.next_le)
    (mid.objects.rrsets.load p)
  have hext := hkept.extend.trans (perform_extends hok)
  have halloc := perform_allocated hkept.allocated hop hok
  have hclosed := perform_closed hkept.closed hkept.allocated hop hok
  have horigin := (perform_origin hok).trans hkept.origin
  have hvalid (hstart : s.tmp.validate = none) : o.zone.validate = none := by
    refine perform_validate (hkept.valid hstart) (fun q => ?_) hok
    exact updateOp_ne_deleteRRset (hload ▸ hcls)
  rcases hcase with ⟨-, rfl⟩ | ⟨herr, rfl⟩
  · refine ⟨hext, halloc, hclosed, horigin, hvalid, fun hexplicit => ?_⟩
    obtain ⟨hbefore, htyp⟩ : mid.explicitUpdateSOA = false ∧
        (mid.objects.rrsets.load p).typ ≠ .soa := by simpa using hexplicit
    rw [← hkept.soa hbefore, ← hkept.origin]
    refine content_soa_perform hkept.allocated hok fun q hq hsoa => ?_
    obtain ⟨rfl, -⟩ := updateOp_eq_add hq
    exact htyp hsoa.2
  · refine ⟨hext, halloc, hclosed, horigin, hvalid, fun hexplicit => ?_⟩
    rw [content_perform_of_err hok herr]
    exact hkept.soa hexplicit

theorem updateRRset_eq_err {s : Progress T} {p : Ptr} {objects : Objects} {err : ZoneError}
    (hstep : updateRRset s p = .error (.err objects err)) : objects = s.objects := by
  unfold updateRRset at hstep
  dsimp only at hstep
  split at hstep
  · cases hstep
  · next o hok =>
    split at hstep
    · cases hstep
    · cases hstep
    · next herr =>
      cases hstep
      exact (perform_of_err hok herr).1

def Listed (h : Objects) (rrsets : List Ptr) : Prop :=
  ∀ p ∈ rrsets, p < h.rrsets.next ∧ (h.rrsets.load p).cls ≠ .any

theorem Kept.reached {s s' : Progress T} (hlist : Listed s.objects rrsets)
    (hz : s.tmp.Allocated s.objects) (hclosed : s.objects.Closed)
    (hreached : Reached updateRRset s rrsets s') : Kept s s' := by
  have halong : Along updateRRset (fun _ p => True ∧ p ∈ rrsets) s rrsets :=
    (along_of_forall (fun _ _ => trivial) s rrsets).and_mem (List.Subset.refl rrsets)
  refine reached_induction (Kept s) ?_ halong ⟨.refl _, hz, hclosed, rfl, id, fun _ => rfl⟩ hreached
  intro mid p next hkept hp hstep
  exact hkept.round (hlist p hp.2).1 (hlist p hp.2).2 hstep

section

variable {h : Objects} {dz : DynamicZone T} {rrsets : List Ptr} {u : Updated T}

theorem Kept.of_begin {s : Progress T} (hlist : Listed h rrsets) (hz : dz.memoryZone.Allocated h)
    (hclosed : h.Closed)
    (hreached : Reached updateRRset ⟨h, dz.begin.2, false, false⟩ rrsets s) :
    Kept ⟨h, dz.begin.2, false, false⟩ s := by
  refine Kept.reached hlist (fun n t p hslot => hz n t p ?_) hclosed hreached
  rwa [← slots_clone dz.memoryZone]

theorem Kept.validate {s : Progress T} (hserved : dz.memoryZone.Served)
    (hkept : Kept ⟨h, dz.begin.2, false, false⟩ s) (hexplicit : s.explicitUpdateSOA = false)
    {objects : Objects} (hincrease : s.tmp.increaseSerialNumber s.objects = .ok objects) :
    s.tmp.validate = none := by
  rcases hserved with hvalid | hempty
  · refine hkept.valid ?_
    have hslots : dz.begin.2.slots = dz.memoryZone.slots := slots_clone _
    obtain ⟨_, hsoa, hns⟩ := validate_eq_none_iff.mp hvalid
    rw [validate_eq_none_iff, hslots]
    exact ⟨rfl, hsoa, hns⟩
  · -- A zone that was never loaded has no serial to increase.
    obtain ⟨serial, hserial, -⟩ := serial_increaseSerialNumber hincrease
    have hnone : s.tmp.content s.objects dz.memoryZone.origin .soa = none := by
      refine (hkept.soa hexplicit).trans ?_
      rw [content_begin, MemoryZone.content, hempty]
      rfl
    have horigin : s.tmp.origin = dz.memoryZone.origin := hkept.origin
    rw [MemoryZone.serial, horigin, hnone] at hserial
    cases hserial

variable (hserved : dz.memoryZone.Served) (hz : dz.memoryZone.Allocated h) (hclosed : h.Closed)
  (hlist : Listed h rrsets) (hok : updateZone h dz rrsets = .ok u)

include hserved hz hclosed hlist hok

theorem updateZone_of_err (herr : u.err ≠ none) :
    u.zone.memoryZone = dz.memoryZone ∧ h.Extends u.objects ∧ u.objects.Closed := by
  cases updateZone_effect hok with
  | @refused objects err hrun =>
    obtain ⟨s, p, hreached, -, hstop⟩ := run_eq_error hrun
    have hkept := Kept.of_begin hlist hz hclosed hreached
    obtain rfl := updateRRset_eq_err hstop
    exact ⟨rfl, hkept.extend, hkept.closed⟩
  | idle hrun hmodified => exact absurd rfl herr
  | @committed s objects hrun hmodified hserial =>
    have hkept := Kept.of_begin hlist hz hclosed ⟨rrsets, prefix_refl _, hrun⟩
    cases hvalid : s.tmp.validate with
    | none => simp [DynamicZone.commit, hvalid] at herr
    | some err =>
      cases hexplicit : s.explicitUpdateSOA with
      | true =>
        rw [if_pos hexplicit] at hserial
        rw [hserial]
        refine ⟨?_, hkept.extend, hkept.closed⟩
        simp [DynamicZone.commit, hvalid, DynamicZone.begin]
      | false =>
        rw [if_neg (by simp [hexplicit])] at hserial
        have hnone := hkept.validate hserved hexplicit hserial
        rw [hvalid] at hnone
        cases hnone

theorem updateZone_sound :
    u.objects.Closed ∧ h.rrsets.next ≤ u.objects.rrsets.next ∧
      u.zone.memoryZone.Allocated u.objects ∧ u.zone.memoryZone.Served := by
  by_cases herr : u.err = none
  · cases updateZone_effect hok with
    | refused hrun => cases herr
    | @idle s hrun hmodified =>
      have hkept := Kept.of_begin hlist hz hclosed ⟨rrsets, prefix_refl _, hrun⟩
      have hnext : h.rrsets.next ≤ s.objects.rrsets.next := hkept.extend.rrsets.next_le
      exact ⟨hkept.closed, hnext, hz.mono hnext, hserved⟩
    | @committed s objects hrun hmodified hserial =>
      have hkept := Kept.of_begin hlist hz hclosed ⟨rrsets, prefix_refl _, hrun⟩
      have hnext : h.rrsets.next ≤ s.objects.rrsets.next := hkept.extend.rrsets.next_le
      have hcommit : (dz.begin.1.commit s.tmp).2 = none := by simpa using herr
      obtain ⟨hvalid, hinstalled⟩ := DynamicZone.commit_of_none hcommit
      rw [hinstalled]
      split at hserial
      · rw [hserial]
        exact ⟨hkept.closed, hnext, hkept.allocated, .inl hvalid⟩
      · -- The serial is written to an rdata that exists.
        obtain ⟨p, soa, -, -, rfl⟩ := increaseSerialNumber_eq_ok hserial
        exact ⟨hkept.closed, hnext, hkept.allocated, .inl hvalid⟩
  · obtain ⟨hzone, hext, hclosed'⟩ := updateZone_of_err hserved hz hclosed hlist hok herr
    rw [hzone]
    exact ⟨hclosed', hext.rrsets.next_le, hz.mono hext.rrsets.next_le, hserved⟩

end

theorem run_deletions {s s' : Progress T} (hlist : Listed s.objects rrsets)
    (hz : s.tmp.Allocated s.objects)
    (hdelete : ∀ p ∈ rrsets, (s.objects.rrsets.load p).cls ≠ .internet)
    (hrun : run updateRRset s rrsets = .ok s') :
    s'.tmp.content s'.objects = (updateOps s.objects rrsets).foldl
        (fun m op => op.apply s.tmp.origin m) (s.tmp.content s.objects) ∧
      s'.explicitUpdateSOA = (s.explicitUpdateSOA ||
        rrsets.any fun p => (s.objects.rrsets.load p).typ = .soa) ∧
      s'.hasRRModified = (s.hasRRModified || !rrsets.isEmpty) := by
  induction rrsets generalizing s with
  | nil =>
    cases hrun
    simp [updateOps]
  | cons p rrsets ih =>
    obtain ⟨mid, hstep, hrest⟩ := run_cons_ok.mp hrun
    obtain ⟨o, hok, hcase⟩ := updateRRset_eq_ok hstep
    have hp := hlist p mem_cons_self
    have hext := perform_extends hok
    rcases hcase with ⟨herr, rfl⟩ | ⟨herr, rfl⟩
    · have hload (q : Ptr) (hq : q ∈ rrsets) : o.objects.rrsets.load q = s.objects.rrsets.load q :=
        hext.rrsets.load_eq q (hlist q (mem_cons_of_mem _ hq)).1
      have hlist' : Listed o.objects rrsets := fun q hq => by
        obtain ⟨hlt, hcls⟩ := hlist q (mem_cons_of_mem _ hq)
        exact ⟨hlt.trans_le hext.rrsets.next_le, hload q hq ▸ hcls⟩
      have hops : updateOps o.objects rrsets = updateOps s.objects rrsets := by
        refine map_congr_left fun q hq => ?_
        rw [hload q hq]
        exact ZoneOp.value_of_extends hext (allocated_updateOp (hlist q (mem_cons_of_mem _ hq)).1 _)
      obtain ⟨hcontent, hexplicit, hmodified⟩ := ih hlist'
        (perform_allocated hz (allocated_updateOp hp.1 _) hok)
        (fun q hq => hload q hq ▸ hdelete q (mem_cons_of_mem _ hq)) hrest
      have hany : (rrsets.any fun q => (o.objects.rrsets.load q).typ = .soa) =
          rrsets.any fun q => (s.objects.rrsets.load q).typ = .soa := by
        rw [Bool.eq_iff_iff, any_eq_true, any_eq_true]
        exact exists_congr fun q => and_congr_right fun hq => by rw [hload q hq]
      refine ⟨?_, ?_, by simp [hmodified]⟩
      · rw [hcontent, hops, perform_origin hok, content_perform_of_ok hz hok herr]
        rfl
      · rw [hexplicit, hany]
        simp [Bool.or_assoc]
    · obtain ⟨q, hop, -⟩ := perform_noEffectiveUpdate hok herr
      exact absurd (updateOp_eq_add hop).2 (hdelete p mem_cons_self)

theorem updateZone_deletions {h : Objects} {dz : DynamicZone T} {u : Updated T}
    (hz : dz.memoryZone.Allocated h) (hclosed : h.Closed) (hlist : Listed h rrsets)
    (hdelete : ∀ p ∈ rrsets, (h.rrsets.load p).cls ≠ .internet) (hne : rrsets ≠ [])
    (hok : updateZone h dz rrsets = .ok u) (herr : u.err = none) :
    (Alters h dz rrsets → u.zone.memoryZone.content u.objects ≠ dz.memoryZone.content h) ∧
      (¬Alters h dz rrsets →
        u.zone.memoryZone.content u.objects = dz.memoryZone.content h ∧ h.Extends u.objects) := by
  have hz' : dz.begin.2.Allocated h := fun n t p hslot => hz n t p (by
    rwa [← slots_clone dz.memoryZone])
  cases updateZone_effect hok with
  | refused hrun => cases herr
  | idle hrun hmodified =>
    obtain ⟨-, -, hmod⟩ := run_deletions hlist hz' hdelete hrun
    simp [hmod, hne] at hmodified
  | @committed s objects hrun hmodified hserial =>
    have hkept := Kept.of_begin hlist hz hclosed ⟨rrsets, prefix_refl _, hrun⟩
    obtain ⟨hcontent, hexplicit, -⟩ := run_deletions hlist hz' hdelete hrun
    have hsoa : s.explicitUpdateSOA = true ↔ ∃ p ∈ rrsets, (h.rrsets.load p).typ = .soa := by
      simp [hexplicit]
    have hcommit : (dz.begin.1.commit s.tmp).2 = none := by simpa using herr
    rw [(DynamicZone.commit_of_none hcommit).2]
    by_cases hflag : s.explicitUpdateSOA = true
    · rw [if_pos hflag] at hserial
      rw [hserial]
      rw [content_begin] at hcontent
      have halters : Alters h dz rrsets ↔
          s.tmp.content s.objects ≠ dz.memoryZone.content h := by
        rw [hcontent]
        exact ⟨fun ha => ha (hsoa.mp hflag), fun hchange _ => hchange⟩
      rw [halters, not_not]
      exact ⟨id, fun hsame => ⟨hsame, hkept.extend⟩⟩
    · rw [if_neg hflag] at hserial
      have halters : Alters h dz rrsets := fun hlisted => absurd (hsoa.mpr hlisted) hflag
      refine ⟨fun _ hsame => ?_, fun hnot => absurd halters hnot⟩
      -- The serial is one more than it was.
      obtain ⟨serial, hbefore, hafter⟩ := serial_increaseSerialNumber hserial
      have horigin : s.tmp.origin = dz.memoryZone.origin := hkept.origin
      have hold : s.tmp.content s.objects dz.memoryZone.origin .soa =
          dz.memoryZone.content h dz.memoryZone.origin .soa := by
        refine (hkept.soa (by simpa using hflag)).trans ?_
        rw [content_begin]
        rfl
      rw [MemoryZone.serial, horigin, hold] at hbefore
      rw [MemoryZone.serial, horigin, hsame, hbefore] at hafter
      have heq : serial = serial + 1 := Option.some.inj hafter
      have hgt := serialGt_add_one serial
      rw [← heq] at hgt
      simp [SerialGt] at hgt

end Auth

end Vanguard
