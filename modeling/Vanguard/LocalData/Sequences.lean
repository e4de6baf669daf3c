import Vanguard.LocalData.Lines

/-!
# The RRsets of a redirection over its life

The RRsets of a `LocalRRset` keep pairwise distinct types, so the loop of `deleteRRset`, which moves
RRsets down in the slice it ranges over, changes at most one and stays in bounds.
-/

namespace Vanguard.LocalData

open List

inductive RRsetCall where
  /-- `addRRset`, whose error the caller may look at or not. -/
  | add (new : RRset Rdata)
  | delete (gone : RRset Rdata)
  deriving DecidableEq, Repr

def RRsetCall.perform (rrsets : List (RRset Rdata)) : RRsetCall → Option (List (RRset Rdata))
  | .add new => some (addRRset new rrsets).1
  | .delete gone => deleteRRset rrsets gone

def RRsetCall.OneRdata : RRsetCall → Prop
  | .add new => ∃ d, new.rdatas = [d]
  | .delete _ => True

structure OnePerType (rrsets : List (RRset Rdata)) : Prop where
  types : UniqueTypes rrsets
  rdatas : ∀ r ∈ rrsets, r.rdatas ≠ []

def rdataSets (rrsets : List (RRset Rdata)) : List (RRType × List Rdata) :=
  rrsets.map fun r => (r.typ, r.rdatas)

variable {rrsets : List (RRset Rdata)} {new gone : RRset Rdata} {d : Rdata}

theorem OnePerType.addRRset (h : OnePerType rrsets) (hnew : new.rdatas = [d]) :
    OnePerType (addRRset new rrsets).1 :=
  ⟨h.types.addRRset new, rdatas_addRRset_ne_nil (by simp [hnew]) h.rdatas⟩

theorem OnePerType.dropRRset (h : OnePerType rrsets) (gone : RRset Rdata) :
    OnePerType (dropRRset rrsets gone) := by
  obtain ⟨htypes, hrdatas⟩ := foldl_dropRRset [gone] h.types h.rdatas
  exact ⟨htypes, hrdatas⟩

theorem OnePerType.foldlM_perform (h : OnePerType rrsets) (calls : List RRsetCall)
    (hcalls : ∀ call ∈ calls, call.OneRdata) :
    ∃ rrsets', calls.foldlM RRsetCall.perform rrsets = some rrsets' ∧ OnePerType rrsets' := by
  induction calls generalizing rrsets with
  | nil => exact ⟨rrsets, rfl, h⟩
  | cons call calls ih =>
    obtain ⟨hcall, hrest⟩ := forall_mem_cons.mp hcalls
    rw [foldlM_cons]
    cases call with
    | add new =>
      obtain ⟨d, hnew⟩ := hcall
      exact ih (h.addRRset hnew) hrest
    | delete gone =>
      rw [RRsetCall.perform, deleteRRset_eq h.types]
      exact ih (h.dropRRset gone) hrest

theorem filter_dropRRset (rrsets : List (RRset Rdata)) (gone : RRset Rdata) :
    (dropRRset rrsets gone).filter (fun r => r.typ ≠ gone.typ) =
      rrsets.filter fun r => r.typ ≠ gone.typ := by
  induction rrsets with
  | nil => rfl
  | cons r rrsets ih =>
    unfold dropRRset at ih ⊢
    rw [filterMap_cons, dropRdatas]
    by_cases htyp : r.typ = gone.typ
    · rw [if_pos htyp, filter_cons_of_neg (by simpa using htyp), ← ih]
      split_ifs
      · rfl
      · exact filter_cons_of_neg (by simpa using htyp)
    · rw [if_neg htyp, filter_cons_of_pos (by simpa using htyp), ih]
      exact (filter_cons_of_pos (by simpa using htyp)).symm

/-- The rdata goes to the end of its RRset, and from there it is taken away again. -/
theorem rdataSets_drop_add (h : OnePerType rrsets) (hnew : new.rdatas = [d])
    (hfresh : ∀ r ∈ rrsets, r.typ = new.typ → d ∉ r.rdatas) (htyp : gone.typ = new.typ)
    (hgone : gone.rdatas = [d]) : (addRRset new rrsets).2 = true ∧
      rdataSets (dropRRset (addRRset new rrsets).1 gone) = rdataSets rrsets := by
  induction rrsets with
  | nil => simp [addRRset, dropRRset, dropRdatas, htyp, hnew, hgone]
  | cons old rrsets ih =>
    obtain ⟨hne, hunique⟩ := nodup_cons.mp h.types
    obtain ⟨hold, hrdatas⟩ := forall_mem_cons.mp h.rdatas
    obtain ⟨hd, hfresh⟩ := forall_mem_cons.mp hfresh
    by_cases heq : old.typ = new.typ
    · have hothers : dropRRset rrsets gone = rrsets := dropRRset_of_ne fun r hr hrtyp =>
        hne (mem_map.mpr ⟨r, hr, hrtyp.trans (htyp.trans heq.symm)⟩)
      rw [addRRset_cons_of_eq heq, hnew, addRdatas_singleton, if_neg (hd heq)]
      have herase : (old.rdatas ++ [d]).erase d = old.rdatas := by
        rw [erase_append_right _ (hd heq)]
        simp
      unfold dropRRset at hothers ⊢
      simp [dropRdatas, rdataSets, heq, htyp, hgone, herase, hold, hothers]
    · obtain ⟨hok, hsets⟩ := ih ⟨hunique, hrdatas⟩ hfresh
      rw [addRRset_cons_of_ne heq]
      unfold dropRRset at hsets ⊢
      simpa [dropRdatas, rdataSets, heq, htyp, hok] using hsets

end Vanguard.LocalData
