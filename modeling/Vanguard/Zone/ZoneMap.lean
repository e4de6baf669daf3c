import Vanguard.Zone.MemoryZone

namespace Vanguard.Zone

structure Entry where
  ttl : UInt32
  rdatas : List Rdata
  deriving DecidableEq, Repr

@[simps] def Entry.ofRRset (r : RRset Rdata) : Entry := ⟨r.ttl, r.rdatas⟩

abbrev ZoneMap := Name → RRType → Option Entry

def ZoneMap.set (m : ZoneMap) (n : Name) (t : RRType) (e : Option Entry) : ZoneMap :=
  fun n' t' => if n' = n ∧ t' = t then e else m n' t'

theorem ZoneMap.set_self (m : ZoneMap) (n : Name) (t : RRType) : m.set n t (m n t) = m := by
  funext n' t'
  unfold set
  split
  · next heq => rw [heq.1, heq.2]
  · rfl

def union (old new : List Rdata) : List Rdata :=
  new.foldl (fun acc r => if r ∈ acc then acc else acc ++ [r]) old

@[simp] theorem mem_union {r : Rdata} {old new : List Rdata} :
    r ∈ union old new ↔ r ∈ old ∨ r ∈ new := by
  unfold union
  induction new generalizing old with
  | nil => simp
  | cons x new ih =>
    rw [List.foldl_cons, ih]
    split <;> grind

def difference (old listed : List Rdata) : List Rdata := old.filter (· ∉ listed)

def newer (old new : List Rdata) : Bool :=
  match old.head?, new.head? with
  | some (.soa a), some (.soa b) => a.serial < b.serial
  | _, _ => false

def Entry.add : Option Entry → RRset Rdata → Entry
  | none, r => .ofRRset r
  | some e, r =>
    if r.typ = .soa then if newer e.rdatas r.rdatas then .ofRRset r else e
    else if r.typ = .cname then .ofRRset r
    else ⟨r.ttl, union e.rdatas r.rdatas⟩

def Entry.remove (e : Entry) (listed : List Rdata) : Option Entry :=
  if difference e.rdatas listed = [] then none
  else some { e with rdatas := difference e.rdatas listed }

inductive MapOp where
  | add (r : RRset Rdata)
  | deleteRRset (n : Name) (t : RRType)
  | deleteRr (r : RRset Rdata)
  | deleteDomain (n : Name)
  deriving DecidableEq, Repr

def MapOp.apply (origin : Name) (m : ZoneMap) : MapOp → ZoneMap
  | .add r => m.set r.name r.typ (some (Entry.add (m r.name r.typ) r))
  | .deleteRRset n t => m.set n t none
  | .deleteRr r => m.set r.name r.typ ((m r.name r.typ).bind (·.remove r.rdatas))
  | .deleteDomain n => fun n' t =>
    if n' = n then if n = origin ∧ (t = .soa ∨ t = .ns) then m n' t else none else m n' t

theorem Entry.add_rdatas_ne_nil {old : Option Entry} {r : RRset Rdata}
    (hold : ∀ e, old = some e → e.rdatas ≠ [])
    (hr : r.rdatas ≠ [] ∨ old.isSome = true ∧ r.typ ≠ .cname) : (Entry.add old r).rdatas ≠ [] := by
  cases old with
  | none => exact hr.resolve_right (by simp)
  | some e =>
    have he := hold e rfl
    simp only [Entry.add]
    split_ifs with hsoa hnewer hcname
    · intro hnil
      simp [newer, show r.rdatas = [] from hnil] at hnewer
    · exact he
    · exact hr.resolve_right fun hother => hother.2 hcname
    · obtain ⟨x, hx⟩ := List.exists_mem_of_ne_nil _ he
      exact List.ne_nil_of_mem (mem_union.mpr (.inl hx))

/-- No operation leaves an entry without rdata, unless it adds one. -/
theorem MapOp.rdatas_apply {origin : Name} {m : ZoneMap} {op : MapOp} {n : Name} {t : RRType}
    (hm : ∀ e, m n t = some e → e.rdatas ≠ [])
    (hadd : ∀ r, op = .add r → r.name = n → r.typ = t →
      r.rdatas ≠ [] ∨ (m n t).isSome = true ∧ r.typ ≠ .cname)
    {e : Entry} (hentry : op.apply origin m n t = some e) : e.rdatas ≠ [] := by
  cases op with
  | add r =>
    simp only [MapOp.apply, ZoneMap.set] at hentry
    split at hentry
    · next heq =>
      obtain ⟨rfl, rfl⟩ := heq
      cases hentry
      exact Entry.add_rdatas_ne_nil hm (hadd r rfl rfl rfl)
    · exact hm e hentry
  | deleteRRset n' t' =>
    simp only [MapOp.apply, ZoneMap.set] at hentry
    split at hentry
    · cases hentry
    · exact hm e hentry
  | deleteRr r =>
    simp only [MapOp.apply, ZoneMap.set] at hentry
    split at hentry
    · obtain ⟨old, _, hremove⟩ := Option.bind_eq_some_iff.mp hentry
      unfold Entry.remove at hremove
      split at hremove
      · cases hremove
      · next hne => exact Option.some.inj hremove ▸ hne
    · exact hm e hentry
  | deleteDomain n' =>
    simp only [MapOp.apply] at hentry
    split at hentry
    · split at hentry
      · exact hm e hentry
      · cases hentry
    · exact hm e hentry

def MapOp.Targets (n : Name) (t : RRType) : MapOp → Prop
  | .add r => r.name = n ∧ r.typ = t
  | .deleteRRset n' t' => n' = n ∧ t' = t
  | .deleteRr r => r.name = n ∧ r.typ = t
  | .deleteDomain n' => n' = n

theorem MapOp.apply_of_not_targets (origin : Name) (m : ZoneMap) {op : MapOp} {n : Name}
    {t : RRType} (htarget : ¬op.Targets n t) : op.apply origin m n t = m n t := by
  cases op with
  | add r => exact if_neg fun heq => htarget ⟨heq.1.symm, heq.2.symm⟩
  | deleteRRset n' t' | deleteRr r => exact if_neg fun heq => htarget ⟨heq.1.symm, heq.2.symm⟩
  | deleteDomain n' => exact if_neg fun heq => htarget heq.symm

def ZoneMap.replay (origin : Name) (m : ZoneMap) (log : List (MapOp × Option ZoneError)) :
    ZoneMap :=
  log.foldl (fun m entry => if entry.2.isSome then m else entry.1.apply origin m) m

theorem ZoneMap.replay_of_not_targets (origin : Name) {n : Name} {t : RRType}
    (log : List (MapOp × Option ZoneError)) (hlog : ∀ entry ∈ log, ¬entry.1.Targets n t)
    (m : ZoneMap) : m.replay origin log n t = m n t := by
  induction log generalizing m with
  | nil => rfl
  | cons entry log ih =>
    have hstep : (if entry.2.isSome then m else entry.1.apply origin m) n t = m n t := by
      split
      · rfl
      · exact MapOp.apply_of_not_targets origin m (hlog entry List.mem_cons_self)
    rw [← hstep]
    exact ih (fun e he => hlog e (List.mem_cons_of_mem _ he)) _

end Vanguard.Zone
