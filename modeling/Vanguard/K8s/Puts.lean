import Vanguard.K8s.PodRecords

namespace Vanguard.K8s

open Library Zone List

structure Call.Puts (c : Call) : Prop where
  regular : c.Regular
  some : c.rrset.isSome = true
  typ : c.typ ≠ .cname

theorem Call.puts_put {typ : RRType} (htyp : typ ≠ .soa ∧ typ ≠ .ns ∧ typ ≠ .cname)
    (zone : ZoneKind) (name : Name) (rdatas : List Rdata) : (Call.put zone name typ rdatas).Puts :=
  ⟨Call.regular_put htyp.1 htyp.2.1 zone name rdatas, rfl, htyp.2.2⟩

def Call.putAt (n : Name) (t : RRType) (c : Call) : Option Entry :=
  if c.zone = .service ∧ c.name = n ∧ c.typ = t then c.rrset.map .ofRRset else none

theorem foldl_effect_of_puts {origins : ZoneKind → Name} {maps : ZoneKind → ZoneMap}
    {calls : List Call} (hcalls : ∀ c ∈ calls, c.Puts) {n : Name} (hin : origins .service <:+ n)
    (hfree : maps .service n .cname = none) {t : RRType} (ht : t ≠ .cname) :
    calls.foldl (Call.effect origins) maps .service n t =
      (calls.filterMap (Call.putAt n t)).getLast?.or (maps .service n t) := by
  induction calls using List.reverseRecOn with
  | nil => rfl
  | append_singleton calls c ih =>
    have hbefore : ∀ c ∈ calls, c.Puts := fun c' hc' => hcalls c' (mem_append_left _ hc')
    have hc := hcalls c (by simp)
    rw [foldl_append, foldl_cons, foldl_nil, filterMap_append]
    by_cases hat : c.zone = .service ∧ c.name = n ∧ c.typ = t
    · obtain ⟨k, name, typ, rrset⟩ := c
      obtain ⟨rfl, rfl, rfl⟩ := hat
      obtain ⟨r, rfl⟩ := Option.isSome_iff_exists.mp hc.some
      -- The calls before leave it free of aliases, since none of them puts one.
      have halias : calls.foldl (Call.effect origins) maps .service name .cname = none :=
        (foldl_effect_of_ne (fun c' hc' heq => (hbefore c' hc').typ heq.2.2) maps).trans hfree
      have hentry : Call.effect origins (calls.foldl (Call.effect origins) maps)
          ⟨.service, name, typ, some r⟩ .service name typ = some (.ofRRset r) := by
        rw [Call.effect, Function.update_self, Call.apply_self _ _ ⟨.service, name, typ, some r⟩]
        simp [Call.entry, hin, Free, ht, halias]
      rw [hentry]
      simp [Call.putAt]
    · have hput : c.putAt n t = none := if_neg hat
      rw [filterMap_cons_none hput, filterMap_nil, append_nil, ← ih hbefore]
      have honly : ∀ c' ∈ [c], ¬(c'.zone = .service ∧ c'.name = n ∧ c'.typ = t) :=
        fun c' hc' => mem_singleton.mp hc' ▸ hat
      exact foldl_effect_of_ne honly _

/-- The calls put these A and SRV RRsets at the names of the service zone, and delete nothing. -/
structure Writes (addresses services : Name → List Entry) (calls : List Call) : Prop where
  puts : ∀ c ∈ calls, c.Puts
  addresses : ∀ n, calls.filterMap (Call.putAt n .a) = addresses n
  services : ∀ n, calls.filterMap (Call.putAt n .srv) = services n

theorem Writes.nil : Writes (fun _ => []) (fun _ => []) [] := ⟨by simp, by simp, by simp⟩

theorem Writes.append {as as' srvs srvs' : Name → List Entry} {calls calls' : List Call}
    (hcalls : Writes as srvs calls) (hcalls' : Writes as' srvs' calls') :
    Writes (fun n => as n ++ as' n) (fun n => srvs n ++ srvs' n) (calls ++ calls') := by
  refine ⟨fun c hc => ?_, fun n => ?_, fun n => ?_⟩
  · rcases mem_append.mp hc with hc | hc
    · exact hcalls.puts c hc
    · exact hcalls'.puts c hc
  · rw [filterMap_append, hcalls.addresses, hcalls'.addresses]
  · rw [filterMap_append, hcalls.services, hcalls'.services]

theorem writes_collect {α : Type} {f : α → Calls} {xs : List α} {as srvs : α → Name → List Entry}
    (hf : ∀ x ∈ xs, Returns (f x) (Writes (as x) (srvs x))) :
    Returns (collect f xs)
      (Writes (fun n => xs.flatMap (as · n)) (fun n => xs.flatMap (srvs · n))) :=
  collect_induction (P := fun x => Writes (as x) (srvs x))
    (Q := fun xs => Writes (fun n => xs.flatMap (as · n)) (fun n => xs.flatMap (srvs · n)))
    Writes.nil (fun _ _ _ _ hfirst hrest => hfirst.append hrest) hf

theorem flatMap_nil_right {α β : Type} (xs : List α) : (xs.flatMap fun _ => ([] : List β)) = [] :=
  flatMap_eq_nil_iff.mpr fun _ _ => rfl

theorem writes_collect_nil {α : Type} {f : α → Calls} {xs : List α}
    (hf : ∀ x ∈ xs, Returns (f x) (Writes (fun _ => []) fun _ => [])) :
    Returns (collect f xs) (Writes (fun _ => []) fun _ => []) := by
  have hloop := writes_collect hf
  simpa only [flatMap_nil_right] using hloop

theorem writes_put (typ : RRType) (htyp : typ ≠ .soa ∧ typ ≠ .ns ∧ typ ≠ .cname)
    (zone : ZoneKind) (n : Name) (rdatas : List Rdata) :
    Writes (fun n' => if zone = .service ∧ n = n' ∧ typ = .a then [⟨defaultTTL, rdatas⟩] else [])
      (fun n' => if zone = .service ∧ n = n' ∧ typ = .srv then [⟨defaultTTL, rdatas⟩] else [])
      [.put zone n typ rdatas] := by
  have hput (n' : Name) (t : RRType) : [Call.put zone n typ rdatas].filterMap (Call.putAt n' t) =
      if zone = .service ∧ n = n' ∧ typ = t then [⟨defaultTTL, rdatas⟩] else [] := by
    simp only [filterMap_cons, filterMap_nil, Call.putAt, Call.put]
    split_ifs <;> rfl
  exact ⟨by simpa using Call.puts_put htyp zone n rdatas, (hput · .a), (hput · .srv)⟩

theorem writes_putPtr {g : Texts} {ip : String} (hip : ∃ rn, getReverseName g ip = .ok rn)
    (n : Name) : Returns (putPtr g .podReverse ip n) (Writes (fun _ => []) fun _ => []) := by
  obtain ⟨rn, hrn⟩ := hip
  unfold putPtr
  rw [hrn]
  cases rn with
  | none => exact returns_ok Writes.nil
  | some rn =>
    exact returns_ok (by
      simpa using writes_put .ptr (by decide) .podReverse rn [.other .ptr (g.ptr n)])

end Vanguard.K8s
