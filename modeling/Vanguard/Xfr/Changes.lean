import Vanguard.Zone.Records

namespace Vanguard.Xfr

open Library Zone List

inductive Change where
  | delete (r : RRset Rdata)
  | add (r : RRset Rdata)
  deriving DecidableEq, Repr

def Change.rrset : Change → RRset Rdata
  | .delete r => r
  | .add r => r

def Change.edit (records : Set Record) : Change → Set Record
  | .delete r =>
    {x | x ∈ records ∧ ¬(x.name = r.name ∧ x.typ = r.typ ∧ x.rdata ∈ r.rdatas)}
  | .add r => {x | x ∈ records ∨ x ∈ recordsOf [r]}

def Change.op : Change → MapOp
  | .delete r => .deleteRr r
  | .add r => .add r

/-- A deletion lists all rdatas, and an addition is accepted, under its ttl and beside no CNAME. -/
def Change.Faithful (origin : Name) (m : ZoneMap) : Change → Prop
  | .delete r => r.name.isSubDomain origin = true ∧ ∀ e, m r.name r.typ = some e →
      ¬(r.name = origin ∧ r.typ = .ns) ∧ ∀ x ∈ e.rdatas, x ∈ r.rdatas
  | .add r => m.Accepts origin r ∧ ∀ e, m r.name r.typ = some e →
      e.ttl = r.ttl ∧ (r.typ = .cname → ∀ x ∈ e.rdatas, x ∈ r.rdatas)

def FaithfulAlong (origin : Name) : ZoneMap → List Change → Prop
  | _, [] => True
  | m, c :: cs => c.Faithful origin m ∧ FaithfulAlong origin (c.op.apply origin m) cs

section

variable {origin : Name} {m : ZoneMap}

theorem mem_records_set {n : Name} {t : RRType} {e : Option Entry} {x : Record} :
    x ∈ (m.set n t e).records ↔
      if x.name = n ∧ x.typ = t then ∃ e', e = some e' ∧ x.ttl = e'.ttl ∧ x.rdata ∈ e'.rdatas
      else x ∈ m.records := by
  show (∃ e', m.set n t e x.name x.typ = some e' ∧ _) ↔ _
  unfold ZoneMap.set
  split
  · rfl
  · rfl

variable {r : RRset Rdata}

theorem apply_delete (hfaithful : (Change.delete r).Faithful origin m) :
    (Change.delete r).op.apply origin m = m.set r.name r.typ none := by
  have hnone : (m r.name r.typ).bind (·.remove r.rdatas) = none := by
    cases hentry : m r.name r.typ with
    | none => rfl
    | some e =>
      have hall := (hfaithful.2 e hentry).2
      have hleft : difference e.rdatas r.rdatas = [] := filter_eq_nil_iff.mpr fun x hx => by
        simpa using hall x hx
      simp [Entry.remove, hleft]
  show m.set r.name r.typ ((m r.name r.typ).bind (·.remove r.rdatas)) = _
  rw [hnone]

theorem withdraw_of_faithful (hsoa : r.typ ≠ .soa) (hns : (m origin .ns).isSome = true)
    (hfaithful : (Change.delete r).Faithful origin m) :
    m.withdraw origin r = (Change.delete r).op.apply origin m := by
  have hreleases : m.Releases origin r := by
    refine ⟨hfaithful.1, fun hapex => hsoa hapex.2, fun hname htyp => ?_⟩
    obtain ⟨e, he⟩ := Option.isSome_iff_exists.mp hns
    exact absurd ⟨hname, htyp⟩ (hfaithful.2 e (by rw [hname, htyp, he])).1
  rw [ZoneMap.withdraw, if_pos hreleases, apply_delete hfaithful]
  rfl

theorem Change.Faithful.set_soa {c : Change} (hfaithful : c.Faithful origin m)
    (hsoa : c.rrset.typ ≠ .soa) (hsome : (m origin .soa).isSome = true) (e : Entry) :
    c.Faithful origin (m.set origin .soa (some e)) := by
  have hentry : m.set origin .soa (some e) c.rrset.name c.rrset.typ = m c.rrset.name c.rrset.typ :=
    if_neg fun heq => hsoa heq.2
  cases c with
  | delete r => exact ⟨hfaithful.1, fun e' he' => hfaithful.2 e' (hentry.symm.trans he')⟩
  | add r =>
    obtain ⟨⟨hcut, hin, hother, hcname⟩, hold⟩ := hfaithful
    refine ⟨⟨hcut, hin, fun htyp => ?_, fun htyp t ht => ?_⟩, fun e' he' =>
      hold e' (hentry.symm.trans he')⟩
    · rw [ZoneMap.set, if_neg fun heq => absurd heq.2 (by decide)]
      exact hother htyp
    · rw [ZoneMap.set, if_neg]
      · exact hcname htyp t ht
      · rintro ⟨hname, rfl⟩
        rw [← hname, hcname htyp .soa ht] at hsome
        cases hsome

theorem records_apply {c : Change} (hsoa : c.rrset.typ ≠ .soa) (hfaithful : c.Faithful origin m) :
    (c.op.apply origin m).records = c.edit m.records := by
  ext x
  cases c with
  | delete r =>
    rw [apply_delete hfaithful, mem_records_set]
    split
    · next hkey =>
      refine iff_of_false (by simp) ?_
      rintro ⟨⟨e, hentry, -, hx⟩, hkept⟩
      rw [hkey.1, hkey.2] at hentry
      exact hkept ⟨hkey.1, hkey.2, (hfaithful.2 e hentry).2 _ hx⟩
    · next hkey => exact ⟨fun hx => ⟨hx, fun hlisted => hkey ⟨hlisted.1, hlisted.2.1⟩⟩, And.left⟩
  | add r =>
    have hadd : (Change.add r).op.apply origin m =
        m.set r.name r.typ (some (Entry.add (m r.name r.typ) r)) := rfl
    have hedit : x ∈ (Change.add r).edit m.records ↔ x ∈ m.records ∨
        x.name = r.name ∧ x.typ = r.typ ∧ x.ttl = r.ttl ∧ x.rdata ∈ r.rdatas := by
      refine or_congr_right ?_
      show (∃ r' ∈ [r], x.name = r'.name ∧ x.typ = r'.typ ∧ x.ttl = r'.ttl ∧
        x.rdata ∈ r'.rdatas) ↔ _
      simp
    rw [hadd, mem_records_set, hedit]
    split
    · next hkey =>
      have hold : x ∈ m.records ↔
          ∃ e, m r.name r.typ = some e ∧ x.ttl = e.ttl ∧ x.rdata ∈ e.rdatas := by
        rw [← hkey.1, ← hkey.2]
        rfl
      rw [hold]
      cases hentry : m r.name r.typ with
      | none => simp [Entry.add, hkey.1, hkey.2]
      | some e =>
        obtain ⟨httl, hcname⟩ := hfaithful.2 e hentry
        have hsoa' : r.typ ≠ .soa := hsoa
        by_cases htyp : r.typ = .cname
        · have hne : RRType.cname ≠ .soa := by decide
          simp only [Entry.add, htyp, hne, if_true, if_false, Entry.ofRRset_ttl,
            Entry.ofRRset_rdatas, Option.some.injEq, exists_eq_left', hkey, true_and, httl]
          refine ⟨.inr, ?_⟩
          rintro (⟨hx, hmem⟩ | hx)
          · exact ⟨hx, hcname htyp _ hmem⟩
          · exact hx
        · simp only [Entry.add, htyp, hsoa', if_false, mem_union, Option.some.injEq,
            exists_eq_left', hkey, true_and, httl, and_or_left]
    · next hkey => exact ⟨.inl, fun hx => hx.elim id fun hx => absurd ⟨hx.1, hx.2.1⟩ hkey⟩

theorem records_foldl_apply {cs : List Change} (hsoa : ∀ c ∈ cs, c.rrset.typ ≠ .soa)
    (hfaithful : FaithfulAlong origin m cs) :
    (cs.foldl (fun m c => c.op.apply origin m) m).records = cs.foldl Change.edit m.records := by
  induction cs generalizing m with
  | nil => rfl
  | cons c cs ih =>
    rw [foldl_cons, foldl_cons, ← records_apply (hsoa c mem_cons_self) hfaithful.1]
    exact ih (fun c' hc' => hsoa c' (mem_cons_of_mem _ hc')) hfaithful.2

end

end Vanguard.Xfr
