import Vanguard.Auth.Serial

namespace Vanguard.Auth

open Library Zone

variable {T Z : Type} [DomainTree T NameNode] [NameTree Z Ptr]

def Progress.Readable (s : Progress T) (p : Ptr) : Prop :=
  s.tmp.Readable s.objects (updateOp p (s.objects.rrsets.load p))

instance (s : Progress T) (p : Ptr) : Decidable (s.Readable p) :=
  inferInstanceAs (Decidable (MemoryZone.Readable _ _ _))

def Progress.IncreasesSerial (s : Progress T) : Prop :=
  s.hasRRModified = true ∧ s.explicitUpdateSOA = false

instance (s : Progress T) : Decidable s.IncreasesSerial := inferInstanceAs (Decidable (_ ∧ _))

/-- Before each RRset the working copy has what the call reads, and in the end a SOA if it is
needed. -/
structure Updatable (h : Objects) (dz : DynamicZone T) (rrsets : List Ptr) : Prop where
  calls : Along updateRRset Progress.Readable ⟨h, dz.begin.2, false, false⟩ rrsets
  serial : ∀ s, run updateRRset ⟨h, dz.begin.2, false, false⟩ rrsets = .ok s →
    s.IncreasesSerial → s.tmp.SoaReadable s.objects

instance (h : Objects) (dz : DynamicZone T) (rrsets : List Ptr) :
    Decidable (Updatable h dz rrsets) :=
  match hrun : run updateRRset ⟨h, dz.begin.2, false, false⟩ rrsets with
  | .error _ =>
    decidable_of_iff (Along updateRRset Progress.Readable ⟨h, dz.begin.2, false, false⟩ rrsets)
      ⟨fun hcalls => ⟨hcalls, by simp [hrun]⟩, fun hu => hu.calls⟩
  | .ok s =>
    decidable_of_iff
      (Along updateRRset Progress.Readable ⟨h, dz.begin.2, false, false⟩ rrsets ∧
        (s.IncreasesSerial → s.tmp.SoaReadable s.objects))
      ⟨fun hboth => ⟨hboth.1, by simpa [hrun] using hboth.2⟩,
        fun hu => ⟨hu.calls, hu.serial s hrun⟩⟩

variable [LawfulDomainTree T NameNode]

theorem updateRRset_panics_iff (s : Progress T) (p : Ptr) :
    (∀ stop, updateRRset s p = .error stop → ¬∃ e, stop = .panic e) ↔ s.Readable p := by
  rw [Progress.Readable, ← MemoryZone.perform_returns_iff]
  cases hperform : s.tmp.perform s.objects (updateOp p (s.objects.rrsets.load p)) with
  | error e => simp [updateRRset, hperform]
  | ok o =>
    refine iff_of_true ?_ ⟨o, rfl⟩
    rintro stop hstop ⟨e, rfl⟩
    simp only [updateRRset, hperform] at hstop
    split at hstop <;> cases hstop

theorem updateZone_returns_iff (h : Objects) (dz : DynamicZone T) (rrsets : List Ptr) :
    (∃ u, updateZone h dz rrsets = .ok u ∧ u.zone.locked = false) ↔ Updatable h dz rrsets := by
  have hcalls := run_stops_iff_along updateRRset_panics_iff
    (⟨h, dz.begin.2, false, false⟩ : Progress T) rrsets
  cases hrun : run updateRRset ⟨h, dz.begin.2, false, false⟩ rrsets with
  | error stop =>
    cases stop with
    | panic e =>
      refine iff_of_false ?_ fun hu => hcalls.mpr hu.calls (.panic e) hrun ⟨e, rfl⟩
      rintro ⟨u, hok, -⟩
      simp [updateZone, hrun] at hok
    | err objects err =>
      refine iff_of_true ⟨⟨objects, dz.begin.1.rollBack, some (.zone err)⟩, ?_, rfl⟩ ⟨?_, ?_⟩
      · simp [updateZone, hrun]
      · refine hcalls.mp fun stop hstop => ?_
        obtain rfl := Except.error.inj (hrun.symm.trans hstop)
        rintro ⟨e, he⟩
        cases he
      · intro s hs
        cases hrun.symm.trans hs
  | ok s =>
    have halong : Along updateRRset Progress.Readable ⟨h, dz.begin.2, false, false⟩ rrsets := by
      refine hcalls.mp fun stop hstop => ?_
      cases hrun.symm.trans hstop
    have hserial : Updatable h dz rrsets ↔ (s.IncreasesSerial → s.tmp.SoaReadable s.objects) := by
      refine ⟨fun hu => hu.serial s hrun, fun hread => ⟨halong, fun s' hs' => ?_⟩⟩
      cases hrun.symm.trans hs'
      exact hread
    rw [hserial, ← MemoryZone.increaseSerialNumber_returns_iff, Progress.IncreasesSerial]
    cases hmodified : s.hasRRModified with
    | false =>
      refine iff_of_true ⟨⟨s.objects, dz.begin.1.rollBack, none⟩, ?_, rfl⟩ (by simp)
      simp [updateZone, hrun, hmodified]
    | true =>
      cases hexplicit : s.explicitUpdateSOA with
      | true =>
        refine iff_of_true ⟨⟨s.objects, (dz.begin.1.commit s.tmp).1,
          (dz.begin.1.commit s.tmp).2.map .zone⟩, ?_, DynamicZone.locked_commit _ _⟩ (by simp)
        simp [updateZone, hrun, hmodified, hexplicit]
      | false =>
        cases hincrease : s.tmp.increaseSerialNumber s.objects with
        | error e => simp [updateZone, hrun, hmodified, hexplicit, hincrease]
        | ok objects =>
          refine iff_of_true ⟨⟨objects, (dz.begin.1.commit s.tmp).1,
            (dz.begin.1.commit s.tmp).2.map .zone⟩, ?_, DynamicZone.locked_commit _ _⟩
            fun _ => ⟨objects, rfl⟩
          simp [updateZone, hrun, hmodified, hexplicit, hincrease]

/-- The RRsets of the small zone, an address, and the deletion of the NS RRset of the apex. -/
def updateObjects : Objects := .ofLists
  [⟨["example"], .soa, .internet, 300, [0]⟩, ⟨["example"], .ns, .internet, 300, [1]⟩,
    ⟨["www", "example"], .a, .internet, 300, [2]⟩, ⟨["example"], .ns, .any, 0, []⟩]
  [.soa ⟨["ns", "example"], ["root", "example"], 1, 7200, 3600, 86400, 300⟩,
    .ns ["ns", "example"], .a [1, 1, 1, 1]]

def unloadedDataSource : AuthDataSource (ReferenceTree NameNode) (NameTable Ptr) where
  viewZones view := if view = "default" then some ⟨[(["example"], 0)]⟩ else none
  zones := ⟨fun _ => ⟨⟨newMemoryZone ["example"], false⟩, [], []⟩, 1⟩

end Vanguard.Auth
