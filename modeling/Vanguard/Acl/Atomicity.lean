import Vanguard.Acl.Manager
import Mathlib.Tactic.SplitIfs

namespace Vanguard.Access

section acl

variable {T S Tm Interval : Type} [NetRadixTree T] [LawfulNetRadixTree T]

theorem searchBest_addNetworks {tree tree' : T} {ips : List String}
    (hok : addNetworks tree ips = .ok tree') (ip : List UInt8) :
    NetRadixTree.searchBest tree' ip = (NetRadixTree.searchBest tree ip ||
      ips.any fun network => NetRadixTree.covers (T := T) network ip) := by
  induction ips generalizing tree with
  | nil =>
    cases hok
    simp
  | cons network ips ih =>
    unfold addNetworks at hok
    split at hok
    · cases hok
    · next mid hadd =>
      rw [ih hok, LawfulNetRadixTree.searchBest_add tree mid network hadd ip, List.any_cons,
        Bool.or_assoc]

theorem include_newAcl {schedules : Schedules Interval S Tm} {now : Tm} {ips : List String}
    {acl : Acl T S} (hok : newAcl schedules now ips [] [] = .ok acl) (ip : List UInt8) :
    acl.include ip = ips.any fun network => NetRadixTree.covers (T := T) network ip := by
  unfold newAcl at hok
  split at hok
  · cases hok
  · next tree htree =>
    simp only [scheduleOf, List.isEmpty_nil, if_true, Acl.checkValid, Option.isNone_none,
      Bool.and_self] at hok
    cases hok
    rw [Acl.include, if_pos rfl, searchBest_addNetworks htree, LawfulNetRadixTree.searchBest_new,
      Bool.false_or]

end acl

theorem toLower_toLower (name : String) : toLower (toLower name) = toLower name := by
  have hchar (c : Char) : c.toLower.toLower = c.toLower := by
    unfold Char.toLower
    grind
  simp [toLower, Function.comp_def, hchar]

theorem isReadOnly_of_valid {name : String} (hvalid : checkNameValid name = none) :
    isReadOnly name = false := by
  unfold checkNameValid at hvalid
  split_ifs at hvalid with _ hreadOnly
  rw [isReadOnly, ← toLower_toLower]
  simpa [isReadOnly] using hreadOnly

namespace AclManager

variable {T S Tm Interval : Type} [NetRadixTree T] {m m' : AclManager T S} {name : String}

theorem find_update_of_ne (acls : String → Option (Acl T S)) (slot : Option (Acl T S)) {n : String}
    (hne : n ≠ name) (ip : List UInt8) :
    find ⟨Function.update acls name slot⟩ n ip = find ⟨acls⟩ n ip := by
  simp [find, hne]

theorem find_of_writable (hname : isReadOnly name = false) (ip : List UInt8) :
    m.find name ip = (m.acls name).any fun acl => acl.include ip := by
  have hany : toLower name ≠ "any" ∧ toLower name ≠ "none" := by
    constructor <;> intro heq <;> simp [isReadOnly, heq] at hname
  unfold find
  rw [if_neg hany.1, if_neg hany.2]
  cases m.acls name <;> rfl

variable {schedules : Schedules Interval S Tm} {now : Tm} {networks : List String}
  {e : Cache.HttpError}

theorem eq_of_add_error (herror : m.add schedules now name networks = (m', some e)) : m' = m := by
  unfold add at herror
  split at herror
  · cases herror
    rfl
  · cases herror

theorem update_of_some (hsome : (m.acls name).isSome = true) :
    m.update schedules now name networks =
      add schedules now ⟨Function.update m.acls name none⟩ name networks := by
  simp [update, remove, hsome]

theorem update_of_none (hnone : m.acls name = none) :
    m.update schedules now name networks = (m, some errNonExistAcl) := by
  simp [update, remove, hnone]

theorem eq_of_addAcl_error (herror : m.addAcl schedules now name networks = (m', some e)) :
    m' = m := by
  unfold addAcl at herror
  split at herror
  · cases herror
    rfl
  · split_ifs at herror
    · cases herror
      rfl
    · exact eq_of_add_error herror

theorem updateAcl_error_cases (herror : m.updateAcl schedules now name networks = (m', some e)) :
    (m' = m ∧ (isReadOnly name = true ∨ ∀ ip, m.find name ip = false)) ∨
      (isReadOnly name = false ∧ m' = ⟨Function.update m.acls name none⟩) := by
  unfold updateAcl at herror
  split_ifs at herror with hreadOnly
  · cases herror
    exact .inl ⟨rfl, .inl hreadOnly⟩
  · have hname : isReadOnly name = false := by simpa using hreadOnly
    cases hacl : m.acls name with
    | none =>
      rw [update_of_none hacl] at herror
      cases herror
      refine .inl ⟨rfl, .inr fun ip => ?_⟩
      rw [find_of_writable hname, hacl]
      rfl
    | some acl =>
      rw [update_of_some (by rw [hacl]; rfl)] at herror
      exact .inr ⟨hname, eq_of_add_error herror⟩

theorem find_of_updateAcl_error_iff
    (herror : m.updateAcl schedules now name networks = (m', some e)) :
    (∀ n ip, m'.find n ip = m.find n ip) ↔
      (isReadOnly name = true ∨ ∀ ip, m.find name ip = false) := by
  obtain ⟨rfl, hsafe⟩ | ⟨hname, rfl⟩ := updateAcl_error_cases herror
  · exact iff_of_true (fun n ip => rfl) hsafe
  · have hgone (ip : List UInt8) : find ⟨Function.update m.acls name none⟩ name ip = false := by
      rw [find_of_writable hname]
      simp
    rw [or_iff_right (by simp [hname])]
    constructor
    · intro hsame ip
      rw [← hsame, hgone]
    · intro hnobody n ip
      by_cases hn : n = name
      · rw [hn, hgone, hnobody]
      · exact find_update_of_ne m.acls none hn ip

/-- The networks that the commands give to the lists, none if an update fails. -/
def networksAfter (lists : String → List String) (failed : Bool) : AclCommand → String → List String
  | .addAcl name networks => if failed then lists else Function.update lists name networks
  | .deleteAcl name => if failed then lists else Function.update lists name []
  | .updateAcl name networks => Function.update lists name (if failed then [] else networks)

/-- The manager and the networks of its lists. -/
def step (schedules : Schedules Interval S Tm) (s : AclManager T S × (String → List String))
    (c : Tm × AclCommand) : AclManager T S × (String → List String) :=
  let (m, e) := s.1.handleCmd schedules c.1 c.2
  (m, networksAfter s.2 e.isSome c.2)

def Follows (m : AclManager T S) (lists : String → List String) : Prop :=
  ∀ n ip, isReadOnly n = false →
    m.find n ip = (lists n).any fun network => NetRadixTree.covers (T := T) network ip

variable {lists : String → List String}

theorem Follows.update (h : m.Follows lists)
    (hself : isReadOnly name = false → ∀ ip,
      m'.find name ip = networks.any fun network => NetRadixTree.covers (T := T) network ip)
    (hothers : ∀ n ip, n ≠ name → m'.find n ip = m.find n ip) :
    m'.Follows (Function.update lists name networks) := by
  intro n ip hn
  by_cases heq : n = name
  · subst heq
    rw [Function.update_self, hself hn ip]
  · rw [Function.update_of_ne heq, hothers n ip heq, h n ip hn]

theorem Follows.removed (h : m.Follows lists) (name : String) :
    Follows ⟨Function.update m.acls name none⟩ (Function.update lists name []) :=
  h.update (fun hname ip => by simp [find_of_writable hname])
    fun _ ip hne => find_update_of_ne m.acls none hne ip

variable [LawfulNetRadixTree T]

def Replaced (m m' : AclManager T S) (name : String) (networks : List String) : Prop :=
  (∀ ip, m'.find name ip = networks.any fun network => NetRadixTree.covers (T := T) network ip) ∧
    ∀ n ip, n ≠ name → m'.find n ip = m.find n ip

theorem replaced_of_add (hname : isReadOnly name = false)
    (hok : m.add schedules now name networks = (m', none)) : Replaced m m' name networks := by
  unfold add at hok
  split at hok
  · cases hok
  · next acl hacl =>
    cases hok
    refine ⟨fun ip => ?_, fun n ip hne => find_update_of_ne m.acls _ hne ip⟩
    rw [find_of_writable hname]
    simp only [Function.update_self, Option.any_some]
    exact include_newAcl hacl ip

theorem replaced_of_addAcl (hok : m.addAcl schedules now name networks = (m', none)) :
    Replaced m m' name networks := by
  unfold addAcl at hok
  split at hok
  · cases hok
  · next hvalid =>
    split_ifs at hok
    · cases hok
    · exact replaced_of_add (isReadOnly_of_valid hvalid) hok

theorem replaced_of_updateAcl (hok : m.updateAcl schedules now name networks = (m', none)) :
    Replaced m m' name networks := by
  unfold updateAcl at hok
  split_ifs at hok with hreadOnly
  · cases hok
  · cases hacl : m.acls name with
    | none =>
      rw [update_of_none hacl] at hok
      cases hok
    | some acl =>
      rw [update_of_some (by rw [hacl]; rfl)] at hok
      obtain ⟨hself, hothers⟩ := replaced_of_add (by simpa using hreadOnly) hok
      refine ⟨hself, fun n ip hne => ?_⟩
      rw [hothers n ip hne, find_update_of_ne m.acls none hne]

/-- When the commands on ACLs leave what is found as it was if they fail. -/
theorem commands_atomic_iff (schedules : Schedules Interval S Tm) (now : Tm) (m : AclManager T S)
    (name : String) (networks : List String) (m' : AclManager T S) :
    (m.addAcl schedules now name networks = (m', none) → Replaced m m' name networks) ∧
    (∀ e, m.addAcl schedules now name networks = (m', some e) →
      ∀ n ip, m'.find n ip = m.find n ip) ∧
    (m.updateAcl schedules now name networks = (m', none) → Replaced m m' name networks) ∧
    ∀ e, m.updateAcl schedules now name networks = (m', some e) →
      ((∀ n ip, m'.find n ip = m.find n ip) ↔
        (isReadOnly name = true ∨ ∀ ip, m.find name ip = false)) := by
  refine ⟨replaced_of_addAcl, ?_, replaced_of_updateAcl, fun e => find_of_updateAcl_error_iff⟩
  intro e herror n ip
  rw [eq_of_addAcl_error herror]

theorem Follows.step {s : AclManager T S × (String → List String)} (h : s.1.Follows s.2)
    (c : Tm × AclCommand) :
    (AclManager.step schedules s c).1.Follows (AclManager.step schedules s c).2 := by
  obtain ⟨now, cmd⟩ := c
  simp only [AclManager.step]
  cases hcmd : s.1.handleCmd schedules now cmd with
  | mk m' failed =>
    cases cmd with
    | addAcl name networks =>
      cases failed with
      | none =>
        have hreplaced := replaced_of_addAcl hcmd
        exact h.update (fun _ => hreplaced.1) hreplaced.2
      | some e => exact eq_of_addAcl_error hcmd ▸ h
    | updateAcl name networks =>
      cases failed with
      | none =>
        have hreplaced := replaced_of_updateAcl hcmd
        exact h.update (fun _ => hreplaced.1) hreplaced.2
      | some e =>
        obtain ⟨rfl, hmissing⟩ | ⟨-, rfl⟩ := updateAcl_error_cases hcmd
        · exact h.update (fun hname => hmissing.resolve_left (by simp [hname])) fun _ _ _ => rfl
        · exact h.removed name
    | deleteAcl name =>
      simp only [handleCmd, deleteAcl, remove] at hcmd
      split_ifs at hcmd
      all_goals cases hcmd
      exacts [h, h.removed name, h]

/-- Whatever the commands, a list has the networks it was given last. -/
theorem commands_refine_lists (schedules : Schedules Interval S Tm)
    (commands : List (Tm × AclCommand)) {n : String} (hn : isReadOnly n = false)
    (ip : List UInt8) :
    let s := commands.foldl (step (T := T) schedules) (⟨fun _ => none⟩, fun _ => [])
    s.1.find n ip = (s.2 n).any fun network => NetRadixTree.covers (T := T) network ip := by
  suffices h : ∀ s : AclManager T S × (String → List String), s.1.Follows s.2 →
      (commands.foldl (step schedules) s).1.Follows (commands.foldl (step schedules) s).2 from
    h _ (fun n ip hn => find_of_writable hn ip) n ip hn
  induction commands with
  | nil => exact fun s hs => hs
  | cons c commands ih => exact fun s hs => ih _ (hs.step c)

end AclManager

/-! ### A small tree -/

def parseNetwork : String → Option (List UInt8)
  | "1.1.1.1" => some [1, 1, 1, 1]
  | "10.0.0.0/8" => some [10]
  | _ => none

instance : NetRadixTree (List (List UInt8)) where
  newNetRadixTree := []
  add t network :=
    match parseNetwork network with
    | none => .error "invalid CIDR address"
    | some bytes => .ok (bytes :: t)
  searchBest t ip := t.any fun bytes => bytes.isPrefixOf ip
  covers network ip := (parseNetwork network).any fun bytes => bytes.isPrefixOf ip

instance : LawfulNetRadixTree (List (List UInt8)) where
  searchBest_new _ := rfl
  searchBest_add t t' network hadd ip := by
    cases hparse : parseNetwork network with
    | none =>
      simp only [NetRadixTree.add, hparse] at hadd
      cases hadd
    | some bytes =>
      simp only [NetRadixTree.add, hparse] at hadd
      cases hadd
      simp [NetRadixTree.searchBest, NetRadixTree.covers, hparse, Bool.or_comm]

def noSchedules : Schedules Unit Unit Unit := ⟨fun _ => .ok (), fun _ _ => true⟩

namespace AclManager

def office : AclManager (List (List UInt8)) Unit :=
  (addAcl noSchedules () ⟨fun _ => none⟩ "office" ["1.1.1.1"]).1

theorem example_lists_followed :
    let s := [((), AclCommand.addAcl "office" ["1.1.1.1"]), ((), .updateAcl "office" ["10.0.0"]),
      ((), .addAcl "office" ["10.0.0.0/8"])].foldl (step (T := List (List UInt8)) noSchedules)
        (⟨fun _ => none⟩, fun _ => [])
    s.2 "office" = ["10.0.0.0/8"] ∧ s.1.find "office" [10, 1, 1, 1] = true :=
  ⟨by decide, (commands_refine_lists noSchedules _ (by decide) _).trans (by decide)⟩

/-- `office` gets another network, and the update of an unknown ACL changes nothing. -/
theorem example_valid_update :
    Replaced office (updateAcl noSchedules () office "office" ["10.0.0.0/8"]).1
      "office" ["10.0.0.0/8"] ∧
    ∀ n ip, (updateAcl noSchedules () office "home" ["10.0.0"]).1.find n ip = office.find n ip := by
  constructor
  · exact (commands_atomic_iff noSchedules () office "office" ["10.0.0.0/8"] _).2.2.1
      (Prod.ext rfl rfl)
  · exact ((commands_atomic_iff noSchedules () office "home" ["10.0.0"] _).2.2.2 errNonExistAcl
      (Prod.ext rfl rfl)).mpr (.inr fun ip => rfl)

/-- The update with a text that is no network leaves nobody in `office`. -/
theorem example_invalid_update :
    (updateAcl noSchedules () office "office" ["10.0.0"]).2.isSome = true ∧
    office.find "office" [1, 1, 1, 1] = true ∧
    (updateAcl noSchedules () office "office" ["10.0.0"]).1.find "office" [1, 1, 1, 1] = false := by
  decide

end AclManager

end Vanguard.Access
