import Vanguard.Dns64.Converter
import Vanguard.Library.Returns

/-!
# The converters of the views

The command that sets the converters of a view refuses a text that is not one; loading the
configuration drops the error and stores nil.
-/

namespace Vanguard.Dns64

open Library List
open Cache (HttpError)

/-- What ends `synthesisAAAAFromA` early. -/
inductive Panic where
  | typeAssertion
  | nilDereference
  | indexOutOfRange
  deriving DecidableEq, Repr

abbrev Converters := String → Option (List (Option Dns64Converter))

section code

variable (parseIP : String → Option IP)

def reloadConfig (conf : List (String × List String)) : Converters :=
  conf.foldl
    (fun converters dns64conf =>
      let viewConverters :=
        dns64conf.2.map fun preAndPostfix => (converterFromString parseIP preAndPostfix).toOption
      if 0 < viewConverters.length then
        Function.update converters dns64conf.1 (some viewConverters)
      else converters)
    fun _ => none

def updateDns64 (d : Converters) (view : String) (preAndPostfixes : List String) :
    Converters × Option HttpError :=
  match preAndPostfixes.mapM (converterFromString parseIP) with
  | .error e => (d, some e)
  | .ok converters =>
    (Function.update d view
      (if 0 < converters.length then some (converters.map some) else none), none)

inductive Call where
  | reloadConfig (conf : List (String × List String))
  | putDns64 (view : String) (preAndPostfixes : List String)

def call (d : Converters) : Call → Converters
  | .reloadConfig conf => reloadConfig parseIP conf
  | .putDns64 view preAndPostfixes => (updateDns64 parseIP d view preAndPostfixes).1

def converters (calls : List Call) : Converters := calls.foldl (call parseIP) fun _ => none

/-- `convert.synthesisAddr(rdata.(*g53.A).Host)`. -/
def synthesisRdata (convert : Option Dns64Converter) (rdata : Rdata) : Except Panic Rdata :=
  match Cache.hostOfA rdata with
  | none => .error .typeAssertion
  | some host =>
    match convert with
    | none => .error .nilDereference
    | some c =>
      match c.synthesisAddr host with
      | none => .error .indexOutOfRange
      | some v6 => .ok (.aaaa v6)

def synthesisAAAAFromA (converters : List (Option Dns64Converter)) (a : RRset Rdata) :
    Except Panic (RRset Rdata) := do
  let rdatas ← converters.mapM fun convert => a.rdatas.mapM (synthesisRdata convert)
  return { a with typ := .aaaa, rdatas := rdatas.flatten }

end code

variable {parseIP : String → Option IP}

def Read (parseIP : String → Option IP) (c : Option Dns64Converter) : Prop :=
  ∃ c', c = some c' ∧ ∃ s, converterFromString parseIP s = .ok c'

def AllRead (parseIP : String → Option IP) (d : Converters) : Prop :=
  ∀ view cs, d view = some cs → ∀ c ∈ cs, Read parseIP c

theorem AllRead.update {d : Converters} (h : AllRead parseIP d) {view : String}
    {cs : Option (List (Option Dns64Converter))} (hcs : ∀ l, cs = some l → ∀ c ∈ l, Read parseIP c) :
    AllRead parseIP (Function.update d view cs) := by
  intro view' l hl
  by_cases hview : view' = view
  · subst hview
    exact hcs l (by simpa using hl)
  · exact h view' l (by simpa [hview] using hl)

theorem allRead_reloadConfig {conf : List (String × List String)}
    (hconf : ∀ entry ∈ conf, ∀ s ∈ entry.2, ∃ c, converterFromString parseIP s = .ok c) :
    AllRead parseIP (reloadConfig parseIP conf) := by
  refine List.foldlRecOn conf _ (motive := AllRead parseIP) (by simp [AllRead]) ?_
  intro d hd entry hentry
  dsimp only
  split_ifs
  · refine hd.update fun l hl c hc => ?_
    cases hl
    obtain ⟨s, hs, rfl⟩ := mem_map.mp hc
    obtain ⟨c', hc'⟩ := hconf entry hentry s hs
    exact ⟨c', by rw [hc']; rfl, s, hc'⟩
  · exact hd

theorem AllRead.updateDns64 {d : Converters} (h : AllRead parseIP d) (view : String)
    (preAndPostfixes : List String) :
    AllRead parseIP (Dns64.updateDns64 parseIP d view preAndPostfixes).1 := by
  rw [Dns64.updateDns64]
  cases hread : preAndPostfixes.mapM (converterFromString parseIP) with
  | error e => exact h
  | ok cs =>
    refine h.update fun l hl c hc => ?_
    split_ifs at hl
    cases hl
    obtain ⟨c', hc', rfl⟩ := mem_map.mp hc
    obtain ⟨s, -, hs⟩ := mem_of_mapM_eq_ok hread hc'
    exact ⟨c', rfl, s, hs⟩

theorem exists_map_eq {α β : Type} {f : α → β} {P : α → Prop} {l : List β}
    (h : ∀ b ∈ l, ∃ a, b = f a ∧ P a) : ∃ l' : List α, l = l'.map f ∧ ∀ a ∈ l', P a := by
  induction l with
  | nil => exact ⟨[], rfl, by simp⟩
  | cons b l ih =>
    obtain ⟨a, rfl, ha⟩ := h b mem_cons_self
    obtain ⟨l', rfl, hl'⟩ := ih fun c hc => h c (mem_cons_of_mem _ hc)
    exact ⟨a :: l', rfl, forall_mem_cons.mpr ⟨ha, hl'⟩⟩

theorem synthesisAAAAFromA_eq {l : List Dns64Converter}
    (hl : ∀ c ∈ l, ∃ s, converterFromString parseIP s = .ok c) {a : RRset Rdata}
    (ha : ∀ rdata ∈ a.rdatas, ∃ host : List UInt8, rdata = .a host ∧ host.length = 4) :
    ∃ r, synthesisAAAAFromA (l.map some) a = .ok r ∧
      Cache.synthesisAAAAFromA (l.map Dns64Converter.forQueries) a = .ok r := by
  obtain ⟨hosts, hrdatas, hlen⟩ := exists_map_eq ha
  have hround (c : Dns64Converter) (hc : c ∈ l) :
      a.rdatas.mapM (synthesisRdata (some c)) =
        .ok (hosts.map fun host => .aaaa (c.forQueries.synthesisAddr host)) := by
    obtain ⟨s, hs⟩ := hl c hc
    obtain ⟨hbytes, hsuffix⟩ := of_converterFromString hs
    rw [hrdatas, mapM_map]
    refine mapM_eq_ok fun host hhost => ?_
    simp [synthesisRdata, Cache.hostOfA, synthesisAddr_eq hbytes (hlen host hhost) hsuffix,
      forQueries_eq hbytes (hlen host hhost) hsuffix]
  have hhosts : a.rdatas.mapM Cache.hostOfA = some hosts := by
    rw [hrdatas, mapM_map]
    exact mapM_pure.trans (congrArg some (map_id hosts))
  refine ⟨{ a with typ := .aaaa, rdatas := l.flatMap (fun c =>
    hosts.map (fun host => .aaaa (c.forQueries.synthesisAddr host))) }, ?_, ?_⟩
  · have hrounds := mapM_eq_ok hround
    rw [synthesisAAAAFromA, mapM_map]
    exact congrArg (· >>= _) hrounds
  · rw [Cache.synthesisAAAAFromA, hhosts]
    simp [flatMap_map]

/-- With a valid configuration all views have converters, and a failed command changes none. -/
theorem converters_validated {calls : List Call}
    (hconf : ∀ conf, .reloadConfig conf ∈ calls → ∀ entry ∈ conf, ∀ s ∈ entry.2,
      ∃ c, converterFromString parseIP s = .ok c) :
    AllRead parseIP (converters parseIP calls) ∧
      (∀ view cs, converters parseIP calls view = some cs → ∀ a : RRset Rdata,
        (∀ rdata ∈ a.rdatas, ∃ host : List UInt8, rdata = .a host ∧ host.length = 4) →
        ∃ r, synthesisAAAAFromA cs a = .ok r) ∧
      ∀ d view preAndPostfixes e, (updateDns64 parseIP d view preAndPostfixes).2 = some e →
        (updateDns64 parseIP d view preAndPostfixes).1 = d := by
  have hread : AllRead parseIP (converters parseIP calls) := by
    refine List.foldlRecOn calls _ (motive := AllRead parseIP) (by simp [AllRead]) ?_
    intro d hd c hc
    cases c with
    | reloadConfig conf => exact allRead_reloadConfig (hconf conf hc)
    | putDns64 view preAndPostfixes => exact hd.updateDns64 view preAndPostfixes
  refine ⟨hread, fun view cs hcs a ha => ?_, fun d view preAndPostfixes e he => ?_⟩
  · obtain ⟨l, rfl, hl⟩ := exists_map_eq (hread view cs hcs)
    obtain ⟨r, hr, -⟩ := synthesisAAAAFromA_eq hl ha
    exact ⟨r, hr⟩
  · rw [updateDns64] at he ⊢
    cases hmap : preAndPostfixes.mapM (converterFromString parseIP) with
    | error e' => rfl
    | ok cs => simp [hmap] at he

/-- A configuration and a command with texts that can be read. -/
theorem example_converters_read :
    AllRead exampleParseIP (converters exampleParseIP
      [.reloadConfig [("v", ["2001::/96"])], .putDns64 "w" ["2001::/40 ::1"]]) :=
  (converters_validated fun conf hconf entry hentry s hs => by
    obtain rfl : conf = [("v", ["2001::/96"])] := by simpa using hconf
    obtain rfl : entry = ("v", ["2001::/96"]) := by simpa using hentry
    obtain rfl : s = "2001::/96" := by simpa using hs
    exact ⟨_, rfl⟩).1

/-- A netmask of 33 bits is refused by the command and stored as nil by the configuration. -/
theorem example_nil_converter :
    (updateDns64 exampleParseIP (fun _ => none) "v" ["2001::/33"]).2 = some errInvalidDns64Prefix ∧
      converters exampleParseIP [.reloadConfig [("v", ["2001::/33"])]] "v" = some [none] ∧
      synthesisAAAAFromA [none] ⟨["www"], .a, .internet, 60, [.a [192, 0, 2, 1]]⟩ =
        .error .nilDereference :=
  ⟨rfl, rfl, rfl⟩

end Vanguard.Dns64
