import Vanguard.K8s.Controller
import Vanguard.Zone.Working

namespace Vanguard

open Library List Zone.MemoryZone

namespace Objects

theorem allocValue_spec {h : Objects} (hclosed : h.Closed) (r : RRset Rdata) :
    (h.allocValue r).1.Closed ∧ h.Grows (h.allocValue r).1 ∧
      (h.allocValue r).2 < (h.allocValue r).1.rrsets.next ∧
      (h.allocValue r).1.value (h.allocValue r).2 = r := by
  obtain ⟨hext, hload, hlt⟩ := h.rdatas.allocAll_spec r.rdatas
  have hmade : ({ h with rdatas := (h.rdatas.allocAll r.rdatas).1 } : Objects).Closed :=
    fun p hp q hq => (hclosed p hp q hq).trans_le hext.next_le
  refine ⟨hmade.allocRRset hlt, ⟨Heap.extends_alloc _ _, hext⟩, ?_, ?_⟩
  · simp [allocValue]
  · simp only [allocValue, value_allocRRset, RRset.map, hload]

end Objects

namespace K8s

open Zone

/-- The types the controller never touches are SOA and NS, and an RRset is put where it belongs. -/
structure Call.Regular (c : Call) : Prop where
  soa : c.typ ≠ .soa
  ns : c.typ ≠ .ns
  owner : ∀ r ∈ c.rrset, r.name = c.name ∧ r.typ = c.typ

section

variable {typ : RRType} (hsoa : typ ≠ .soa) (hns : typ ≠ .ns) (zone : ZoneKind) (name : Name)

include hsoa hns

theorem Call.regular_put (rdatas : List Rdata) : (Call.put zone name typ rdatas).Regular := by
  refine ⟨hsoa, hns, fun r hr => ?_⟩
  cases hr
  exact ⟨rfl, rfl⟩

theorem Call.regular_drop : (Call.drop zone name typ).Regular :=
  ⟨hsoa, hns, by simp [Call.drop]⟩

end

def Free (m : ZoneMap) (name : Name) (typ : RRType) : Prop :=
  (typ ≠ .cname → m name .cname = none) ∧ (typ = .cname → ∀ t ≠ .cname, m name t = none)

open Classical in
section

variable (origin : Name) (m : ZoneMap) (c : Call)

noncomputable def Call.entry : Option Entry :=
  if origin <:+ c.name then
    if Free m c.name c.typ then c.rrset.map .ofRRset else none
  else m c.name c.typ

noncomputable def Call.apply : ZoneMap :=
  m.set c.name c.typ (c.entry origin m)

@[simp] theorem Call.apply_self :
    c.apply origin m c.name c.typ = c.entry origin m := if_pos ⟨rfl, rfl⟩

end

theorem Call.apply_of_ne {origin : Name} {m : ZoneMap} {c : Call} {n : Name} {t : RRType}
    (hne : ¬(n = c.name ∧ t = c.typ)) : c.apply origin m n t = m n t := if_neg hne

section zone

variable {origin : Name} {m : ZoneMap}

theorem withdraw_eq {r : RRset Rdata} (hsoa : r.typ ≠ .soa) (hns : r.typ ≠ .ns) :
    m.withdraw origin r = if origin <:+ r.name then m.set r.name r.typ none else m := by
  have hreleases : m.Releases origin r ↔ origin <:+ r.name := by
    simp [ZoneMap.Releases, hsoa, hns]
  unfold ZoneMap.withdraw
  by_cases hin : origin <:+ r.name
  · rw [if_pos (hreleases.mpr hin), if_pos hin]
    rfl
  · rw [if_neg (hreleases.not.mpr hin), if_neg hin]

theorem set_set (n : Name) (t : RRType) (e e' : Option Entry) :
    (m.set n t e).set n t e' = m.set n t e' := by
  funext n' t'
  unfold ZoneMap.set
  split <;> simp_all

theorem set_apply_self (n : Name) (t : RRType) (e : Option Entry) : m.set n t e n t = e :=
  if_pos ⟨rfl, rfl⟩

theorem free_set_none {name : Name} {typ : RRType} :
    Free (m.set name typ none) name typ ↔ Free m name typ := by
  have hother {t : RRType} (ht : t ≠ typ) : m.set name typ none name t = m name t :=
    if_neg fun heq => ht heq.2
  unfold Free
  refine and_congr (imp_congr_right fun htyp => ?_) (imp_congr_right fun htyp => ?_)
  · rw [hother (Ne.symm htyp)]
  · refine forall₂_congr fun t ht => ?_
    rw [hother (by rwa [htyp])]

theorem offer_withdraw {r : RRset Rdata} (hsoa : r.typ ≠ .soa) (hns : r.typ ≠ .ns) (k : ZoneKind) :
    (m.withdraw origin r).offer origin r = Call.apply origin m ⟨k, r.name, r.typ, some r⟩ := by
  unfold Call.apply Call.entry
  rw [withdraw_eq hsoa hns]
  by_cases hin : origin <:+ r.name
  · rw [if_pos hin, if_pos hin]
    have haccepts : (m.set r.name r.typ none).Accepts origin r ↔ Free m r.name r.typ := by
      rw [← free_set_none]
      simp [ZoneMap.Accepts, Free, hns, hin]
    unfold ZoneMap.offer
    by_cases hfree : Free m r.name r.typ
    · rw [if_pos (haccepts.mpr hfree), if_pos hfree, MapOp.apply, set_apply_self, set_set]
      rfl
    · rw [if_neg (haccepts.not.mpr hfree), if_neg hfree]
  · rw [if_neg hin, if_neg hin, ZoneMap.set_self]
    have hrefused : ¬m.Accepts origin r := fun haccepts => hin (by simpa using haccepts.2.1)
    rw [ZoneMap.offer, if_neg hrefused]

end zone

variable {T : Type} [DomainTree T NameNode]

theorem commit_of_updatable {h : Objects} {dz : DynamicZone T} {tmp : MemoryZone T}
    (htmp : tmp.Updatable h) : (dz.commit tmp).1 = ⟨tmp, false⟩ := by
  rw [DynamicZone.commit, htmp.wellFormed.validate_eq_none_iff.mpr htmp.apex]

variable [LawfulDomainTree T NameNode]

theorem step_spec {s : ZoneState T} (hs : s.zone.Updatable s.objects) (hclosed : s.objects.Closed)
    {p : Ptr} (hp : p < s.objects.rrsets.next) (hsoa : (s.objects.value p).typ ≠ .soa)
    (hns : (s.objects.value p).typ ≠ .ns) {op : ZoneOp} (hop : op = .deleteRRset p ∨ op = .add p) :
    ∃ s', s.step op = .ok s' ∧ s'.zone.Updatable s'.objects ∧ s'.objects.Closed ∧
      s.objects.Extends s'.objects ∧ s'.zone.origin = s.zone.origin ∧
      s'.zone.content s'.objects =
        if op = .add p then (s.zone.content s.objects).offer s.zone.origin (s.objects.value p)
        else (s.zone.content s.objects).withdraw s.zone.origin (s.objects.value p) := by
  have hwf : op.WellFormed s.objects := by
    rcases hop with rfl | rfl
    · exact ⟨hp, trivial⟩
    · exact ⟨hp, fun htyp => absurd htyp hsoa⟩
  have htarget {t : RRType} (ht : (s.objects.value p).typ ≠ t) :
      ¬(op.value s.objects).Targets s.zone.origin t := by
    rcases hop with rfl | rfl
    · exact fun htargets => ht htargets.2
    · exact fun htargets => ht htargets.2
  obtain ⟨o, hok⟩ := perform_total hs.wellFormed hs.apex hwf
  refine ⟨_, ZoneState.step_eq_ok.mpr ⟨o, hok, rfl⟩,
    hs.perform hwf hok (htarget hsoa) (htarget hns),
    perform_closed hclosed hs.wellFormed.allocated hwf.1 hok,
    perform_extends hok, perform_origin hok, ?_⟩
  rcases hop with rfl | rfl
  · rw [if_neg (by simp)]
    exact content_deleteRRset_eq hs.wellFormed hok
  · rw [if_pos rfl]
    exact content_addRRset_eq hs.wellFormed hs.filled hok

theorem replaceRRset_spec {h : Objects} {dz : DynamicZone T} (hclosed : h.Closed)
    (hz : dz.memoryZone.Updatable h) {c : Call} (hc : c.Regular) :
    ∃ h' dz', replaceRRset h dz c.name c.typ c.rrset = .ok (h', dz') ∧ h'.Closed ∧ h.Grows h' ∧
      dz'.memoryZone.Updatable h' ∧ dz'.memoryZone.origin = dz.memoryZone.origin ∧
      dz'.locked = false ∧
      dz'.memoryZone.content h' = c.apply dz.memoryZone.origin (dz.memoryZone.content h) := by
  -- The first call of every transaction is the deletion, on new objects.
  have hdelete {r : RRset Rdata} (hsoa : r.typ ≠ .soa) (hns : r.typ ≠ .ns) :
      ∃ s, ZoneState.step ⟨(h.allocValue r).1, dz.begin.2, []⟩ (.deleteRRset (h.allocValue r).2) =
          .ok s ∧ s.zone.Updatable s.objects ∧ s.objects.Closed ∧ h.Grows s.objects ∧
        s.zone.origin = dz.memoryZone.origin ∧ (h.allocValue r).2 < s.objects.rrsets.next ∧
        s.objects.value (h.allocValue r).2 = r ∧
        s.zone.content s.objects =
          (dz.memoryZone.content h).withdraw dz.memoryZone.origin r := by
    obtain ⟨hclosed', hgrows, hp, hvalue⟩ := Objects.allocValue_spec hclosed r
    have hagrees := MemoryZone.Agrees.of_grows hz.wellFormed.allocated hclosed hgrows
    have htyp : ((h.allocValue r).1.value (h.allocValue r).2).typ = r.typ := congrArg _ hvalue
    obtain ⟨s, hstep, hs, hsclosed, hext, horigin, hcontent⟩ :=
      step_spec (s := ⟨(h.allocValue r).1, dz.begin.2, []⟩) (hz.of_grows hclosed hgrows).clone
        hclosed' hp (htyp.trans_ne hsoa) (htyp.trans_ne hns) (.inl rfl)
    have hbegun : dz.begin.2.content (h.allocValue r).1 = dz.memoryZone.content h :=
      (content_clone _ _).trans hagrees.content_eq
    refine ⟨s, hstep, hs, hsclosed, hgrows.trans ⟨hext.rrsets, hext.rdatas ▸ .refl _⟩, horigin,
      hp.trans_le hext.rrsets.next_le, (hext.value_eq hp).trans hvalue, ?_⟩
    rw [hcontent, if_neg (by simp), hbegun, hvalue]
    rfl
  obtain ⟨k, name, typ, rrset⟩ := c
  cases rrset with
  | none =>
    obtain ⟨s, hstep, hs, hsclosed, hgrows, horigin, -, -, hcontent⟩ :=
      hdelete (r := ⟨name, typ, ⟨0⟩, 0, []⟩) hc.soa hc.ns
    refine ⟨s.objects, ⟨s.zone, false⟩, ?_, hsclosed, hgrows, hs, horigin, rfl, ?_⟩
    · simp only [replaceRRset, run, hstep, commit_of_updatable hs]
    · rw [hcontent, withdraw_eq hc.soa hc.ns]
      unfold Call.apply Call.entry
      by_cases hin : dz.memoryZone.origin <:+ name
      · simp [hin]
      · simp [hin, ZoneMap.set_self]
  | some r =>
    obtain ⟨rfl, rfl⟩ := hc.owner r rfl
    obtain ⟨mid, hmid, hmidz, hmidclosed, hgrows, horigin, hp, hvalue, hcontent⟩ :=
      hdelete (r := r) hc.soa hc.ns
    obtain ⟨s, hstep, hs, hsclosed, hext, horigin', hcontent'⟩ :=
      step_spec hmidz hmidclosed hp (hvalue ▸ hc.soa) (hvalue ▸ hc.ns) (.inr rfl)
    refine ⟨s.objects, ⟨s.zone, false⟩, ?_, hsclosed,
      hgrows.trans ⟨hext.rrsets, hext.rdatas ▸ .refl _⟩, hs, horigin'.trans horigin, rfl, ?_⟩
    · simp only [replaceRRset, run, hmid, hstep, commit_of_updatable hs]
    · rw [hcontent', if_pos rfl, hcontent, horigin, hvalue, offer_withdraw hc.soa hc.ns k]

namespace Auth

def map (a : Auth T) (k : ZoneKind) : ZoneMap := (a.zone k).memoryZone.content a.objects

def origin (a : Auth T) (k : ZoneKind) : Name := (a.zone k).memoryZone.origin

/-- The zones are such that `replaceRRset` returns and is committed. -/
structure Sound (a : Auth T) : Prop where
  closed : a.objects.Closed
  updatable : ∀ k, (a.zone k).memoryZone.Updatable a.objects
  unlocked : ∀ k, (a.zone k).locked = false

omit [DomainTree T NameNode] [LawfulDomainTree T NameNode] in
theorem zone_setZone (a : Auth T) (dz : DynamicZone T) (k k' : ZoneKind) :
    (a.setZone dz k).zone k' = if k' = k then dz else a.zone k' := by
  cases k <;> cases k' <;> rfl

end Auth

noncomputable def Call.effect (origin : ZoneKind → Name) (maps : ZoneKind → ZoneMap) (c : Call) :
    ZoneKind → ZoneMap :=
  Function.update maps c.zone (c.apply (origin c.zone) (maps c.zone))

namespace Auth

theorem replace_spec {a : Auth T} (ha : a.Sound) {c : Call} (hc : c.Regular) :
    Returns (a.replace c) fun a' =>
      a'.Sound ∧ a'.origin = a.origin ∧ a'.map = c.effect a.origin a.map := by
  obtain ⟨h, dz, hok, hclosed, hgrows, hz, horigin, hlock, hcontent⟩ :=
    replaceRRset_spec ha.closed (ha.updatable c.zone) hc
  have hzone (k : ZoneKind) : (({ a.setZone dz c.zone with objects := h } : Auth T)).zone k =
      if k = c.zone then dz else a.zone k := by
    rw [← zone_setZone]
    cases k <;> rfl
  refine ⟨{ a.setZone dz c.zone with objects := h }, by simp only [replace, hok],
    ⟨hclosed, fun k => ?_, fun k => ?_⟩, funext fun k => ?_, funext fun k => ?_⟩
  · rw [hzone]
    split
    · exact hz
    · exact (ha.updatable k).of_grows ha.closed hgrows
  · rw [hzone]
    split
    · exact hlock
    · exact ha.unlocked k
  · rw [origin, hzone]
    split
    · next heq => exact heq ▸ horigin
    · rfl
  · rw [map, hzone, Call.effect]
    split
    · next heq =>
      rw [heq, Function.update_self]
      exact hcontent
    · next hne =>
      rw [Function.update_of_ne hne]
      exact (MemoryZone.Agrees.of_grows (ha.updatable k).wellFormed.allocated ha.closed
        hgrows).content_eq

theorem run_replace_spec {a : Auth T} (ha : a.Sound) {calls : List Call}
    (hcalls : ∀ c ∈ calls, c.Regular) :
    Returns (run replace a calls) fun a' =>
      a'.Sound ∧ a'.origin = a.origin ∧ a'.map = calls.foldl (Call.effect a.origin) a.map := by
  induction calls generalizing a with
  | nil => exact returns_ok ⟨ha, rfl, rfl⟩
  | cons c calls ih =>
    obtain ⟨mid, hmid, hmidsound, horigin, hmap⟩ := replace_spec ha (hcalls c mem_cons_self)
    obtain ⟨a', hrun, hsound, horigin', hmap'⟩ :=
      ih hmidsound fun c' hc' => hcalls c' (mem_cons_of_mem _ hc')
    refine ⟨a', run_cons_ok.mpr ⟨mid, hmid, hrun⟩, hsound, horigin'.trans horigin, ?_⟩
    rw [hmap', horigin, hmap, foldl_cons]

end Auth

theorem foldl_effect_of_ne {origin : ZoneKind → Name} {k : ZoneKind} {n : Name} {t : RRType}
    {calls : List Call} (hcalls : ∀ c ∈ calls, ¬(c.zone = k ∧ c.name = n ∧ c.typ = t))
    (maps : ZoneKind → ZoneMap) :
    calls.foldl (Call.effect origin) maps k n t = maps k n t := by
  induction calls generalizing maps with
  | nil => rfl
  | cons c calls ih =>
    rw [foldl_cons, ih fun c' hc' => hcalls c' (mem_cons_of_mem _ hc')]
    have hne := hcalls c mem_cons_self
    unfold Call.effect
    by_cases hk : k = c.zone
    · subst hk
      rw [Function.update_self]
      exact Call.apply_of_ne fun heq => hne ⟨rfl, heq.1.symm, heq.2.symm⟩
    · rw [Function.update_of_ne hk]

end K8s

end Vanguard
