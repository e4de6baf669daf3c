import Mathlib.Data.List.Basic

namespace Vanguard.Library

open List

variable {ε α β : Type}

def Returns (x : Except ε α) (P : α → Prop) : Prop := ∃ a, x = .ok a ∧ P a

theorem returns_ok {P : α → Prop} {a : α} (ha : P a) : Returns (.ok a : Except ε α) P :=
  ⟨a, rfl, ha⟩

theorem Returns.imp {x : Except ε α} {P Q : α → Prop} (hx : Returns x P) (hPQ : ∀ a, P a → Q a) :
    Returns x Q := by
  obtain ⟨a, ha, hP⟩ := hx
  exact ⟨a, ha, hPQ a hP⟩

variable {f : α → Except ε β}

theorem Returns.bind {x : Except ε α} {P : α → Prop} {Q : β → Prop} (hx : Returns x P)
    (hf : ∀ a, P a → Returns (f a) Q) : Returns (x >>= f) Q := by
  obtain ⟨a, rfl, ha⟩ := hx
  exact hf a ha

def collect (f : α → Except ε (List β)) : List α → Except ε (List β)
  | [] => .ok []
  | a :: as => do
    let first ← f a
    let rest ← collect f as
    .ok (first ++ rest)

theorem collect_induction {f : α → Except ε (List β)} {P : α → List β → Prop}
    {Q : List α → List β → Prop} (hnil : Q [] [])
    (hcons : ∀ a as first rest, P a first → Q as rest → Q (a :: as) (first ++ rest)) {as : List α}
    (hf : ∀ a ∈ as, Returns (f a) (P a)) : Returns (collect f as) (Q as) := by
  induction as with
  | nil => exact returns_ok hnil
  | cons a as ih =>
    refine (hf a mem_cons_self).bind fun first hfirst => ?_
    refine (ih fun a' ha' => hf a' (mem_cons_of_mem _ ha')).bind fun rest hrest => ?_
    exact returns_ok (hcons a as first rest hfirst hrest)

theorem returns_collect {f : α → Except ε (List β)} {as : List α} {P : β → Prop}
    (hf : ∀ a ∈ as, Returns (f a) fun bs => ∀ b ∈ bs, P b) :
    Returns (collect f as) fun bs => ∀ b ∈ bs, P b := by
  refine collect_induction (Q := fun _ bs => ∀ b ∈ bs, P b) (by simp) ?_ hf
  exact fun _ _ _ _ hfirst hrest => forall_mem_append.mpr ⟨hfirst, hrest⟩

theorem mapM_eq_ok {g : α → β} {l : List α} (hf : ∀ a ∈ l, f a = .ok (g a)) :
    l.mapM f = .ok (l.map g) := by
  induction l with
  | nil => rfl
  | cons a l ih =>
    rw [mapM_cons, hf a mem_cons_self, ih fun b hb => hf b (mem_cons_of_mem a hb)]
    rfl

theorem mem_of_mapM_eq_ok {l : List α} {bs : List β} {b : β} (hok : l.mapM f = .ok bs)
    (hb : b ∈ bs) : ∃ a ∈ l, f a = .ok b := by
  induction l generalizing bs with
  | nil =>
    cases hok
    simp at hb
  | cons a l ih =>
    rw [mapM_cons] at hok
    cases hfirst : f a with
    | error e =>
      rw [hfirst] at hok
      cases hok
    | ok first =>
      cases hrest : l.mapM f with
      | error e =>
        rw [hfirst, hrest] at hok
        cases hok
      | ok rest =>
        rw [hfirst, hrest] at hok
        cases hok
        rcases mem_cons.mp hb with rfl | hb
        · exact ⟨a, mem_cons_self, hfirst⟩
        · obtain ⟨a', ha', hfa⟩ := ih hrest hb
          exact ⟨a', mem_cons_of_mem a ha', hfa⟩

end Vanguard.Library
