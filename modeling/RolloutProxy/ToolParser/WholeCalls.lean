/-
  File:      RolloutProxy/ToolParser/WholeCalls.lean
  Subject:   NO PARTIAL CALL from Qwen's markup: when every parameter opener of a function body
             became one entry of the arguments.

  * Behind the first section the verdict of `_split_sections` is enough: an opener there is the
    head of a section, lies in its name or in its value (`opener_cases`).
  * In front of the first section nothing is checked, a name may hold an opener, and a second value
    for a key takes the place of the first. `qwen_calls_whole_iff`: a call is whole exactly where
    none of the three happens.
-/
import RolloutProxy.ToolParser.PythonJson
import RolloutProxy.ToolParser.Sections
import Mathlib.Data.List.Pairwise

namespace RolloutProxy.ToolParser

open Reasoning

/-! ## 1. Openers in a text of sections -/

section Openers

variable {head close text : List Char}

theorem isMarker_parameter : IsMarker parameterMarker := ⟨rfl, by decide, by decide, by decide⟩
theorem isMarker_function : IsMarker functionMarker := ⟨rfl, by decide, by decide, by decide⟩

/-- An opener starts with `<`. -/
theorem IsMarker.at_open (hhead : IsMarker head) {k : Nat} (h : head <+: text.drop k) :
    text[k]? = some '<' := by
  have hzero : head[0]? = some '<' := by rw [← List.head?_eq_getElem?]; exact hhead.head
  exact getElem_marker h hzero

/-- Behind the head of a marker there is no second `<`. -/
theorem not_open_inside {marker : List Char} (htail : '<' ∉ marker.tail) {k j : Nat}
    (hat : marker <+: text.drop k) (hj : j + 1 < marker.length)
    (hopen : text[k + (j + 1)]? = some '<') : False := by
  have hcut : marker[j + 1]? = some (marker[j + 1]) := List.getElem?_eq_getElem _
  have hsame := getElem_marker hat hcut
  rw [hopen] at hsame
  refine htail (List.mem_of_getElem? (i := j) ?_)
  rw [List.getElem?_tail, hcut, ← Option.some.inj hsame]

/-- **Where an opener lies in a section**: at its head, in its name or in its body. -/
theorem opener_cases (hhead : IsMarker head) (hclose : '<' ∉ close.tail)
    (hapart : ¬ head <+: close ∧ ¬ close <+: head) {s : SectionAt}
    (hs : s.Complete head close text) {k : Nat} (hk : head <+: text.drop k) (hle : s.start ≤ k)
    (hlt : k < s.stop + close.length) :
    k = s.start ∨ (s.start + head.length ≤ k ∧ k < s.nameEnd) ∨ (s.nameEnd < k ∧ k < s.stop) := by
  have hopen := hhead.at_open hk
  obtain ⟨hname, hend, -⟩ := find_some hs.named
  obtain ⟨hbody, hstop, -⟩ := find_some hs.closed
  rcases Nat.eq_or_lt_of_le hle with heq | hgt
  · exact .inl heq.symm
  rcases Nat.lt_or_ge k (s.start + head.length) with hin | hout
  · obtain ⟨j, hj⟩ : ∃ j, k = s.start + (j + 1) := ⟨k - s.start - 1, by omega⟩
    exact (not_open_inside hhead.tail hs.opener (by omega) (hj ▸ hopen)).elim
  rcases Nat.lt_trichotomy k s.nameEnd with hbefore | heq | hbehind
  · exact .inr (.inl ⟨hout, hbefore⟩)
  · have hgt := getElem_marker (j := 0) hend rfl
    rw [Nat.add_zero, ← heq, hopen] at hgt
    exact absurd (Option.some.inj hgt) (by decide)
  rcases Nat.lt_trichotomy k s.stop with hbefore | heq | hafter
  · exact .inr (.inr ⟨hbehind, hbefore⟩)
  · subst heq
    rcases List.prefix_or_prefix_of_prefix hk hstop with h | h
    · exact absurd h hapart.1
    · exact absurd h hapart.2
  · obtain ⟨j, hj⟩ : ∃ j, k = s.stop + (j + 1) := ⟨k - s.stop - 1, by omega⟩
    exact (not_open_inside hclose hstop (by omega) (hj ▸ hopen)).elim

/-- Blank text holds no opener. -/
theorem not_open_blank (hhead : IsMarker head) {a b k : Nat}
    (hblank : (region text a b).all isSpace = true) (hk : head <+: text.drop k) (hle : a ≤ k)
    (hlt : k < b) : False := by
  have hmem := getElem_region hle hlt (hhead.at_open hk)
  exact absurd (List.all_eq_true.mp hblank _ hmem) (by decide)

/-- Sections lie behind each other. -/
theorem Scanned.sections {pos : Nat} {l : List SectionAt} (h : Scanned head close text pos l) :
    (∀ s ∈ l, pos ≤ s.start ∧ s.Complete head close text) ∧
      l.Pairwise fun s s' => s.stop + close.length ≤ s'.start := by
  induction h with
  | done => exact ⟨nofun, .nil⟩
  | @next pos s rest hs hpos _ _ ih =>
      have hbehind : pos ≤ s.stop + close.length := by
        have := (find_some hs.named).1
        have := (find_some hs.closed).1
        omega
      refine ⟨?_, List.pairwise_cons.mpr ⟨fun s' hs' => (ih.1 s' hs').1, ih.2⟩⟩
      rw [List.forall_mem_cons]
      exact ⟨⟨hpos, hs⟩, fun s' hs' => ⟨hbehind.trans (ih.1 s' hs').1, (ih.1 s' hs').2⟩⟩

/-- Two sections of a scan do not overlap. -/
theorem sections_apart {l : List SectionAt}
    (h : l.Pairwise fun s s' => s.stop + close.length ≤ s'.start) {s s' : SectionAt} (hs : s ∈ l)
    (hs' : s' ∈ l) (hne : s ≠ s') :
    s.stop + close.length ≤ s'.start ∨ s'.stop + close.length ≤ s.start := by
  let Apart (a b : SectionAt) : Prop :=
    a.stop + close.length ≤ b.start ∨ b.stop + close.length ≤ a.start
  have hsymm : Std.Symm Apart := ⟨fun _ _ hab => hab.symm⟩
  have hapart : l.Pairwise Apart := h.imp fun hle => .inl hle
  exact hapart.forall hs hs' hne

/-- Where the gaps are blank, every opener lies in a section. -/
theorem opener_in_section (hhead : IsMarker head) {gap : Nat} {l : List SectionAt}
    (h : Scanned head close text gap l) (hgaps : gapsBlank close text gap l = true) {k : Nat}
    (hk : head <+: text.drop k) (hle : gap ≤ k) :
    ∃ s ∈ l, s.start ≤ k ∧ k < s.stop + close.length := by
  induction h with
  | @done pos =>
      have hmem : '<' ∈ text.drop pos := by
        have hopen := hhead.at_open hk
        refine List.mem_of_getElem? (i := k - pos) ?_
        rw [List.getElem?_drop, Nat.add_sub_cancel' hle, hopen]
      exact absurd (List.all_eq_true.mp hgaps _ hmem) (by decide)
  | @next gap s rest hs hpos _ _ ih =>
      unfold gapsBlank at hgaps
      rw [Bool.and_eq_true] at hgaps
      rcases Nat.lt_or_ge k s.start with hbefore | hge
      · exact (not_open_blank hhead hgaps.1 hk hle hbefore).elim
      rcases Nat.lt_or_ge k (s.stop + close.length) with hin | hbehind
      · exact ⟨s, List.mem_cons_self, hge, hin⟩
      · obtain ⟨s', hs', hlie⟩ := ih hgaps.2 hbehind
        exact ⟨s', List.mem_cons_of_mem _ hs', hlie⟩

/-- An opener in a name is spelled there as a whole. -/
theorem opener_in_name (hhead : IsMarker head) {s : SectionAt} (hs : s.Complete head close text)
    {k : Nat} (hk : head <+: text.drop k) (hle : s.start + head.length ≤ k) (hlt : k < s.nameEnd) :
    head <:+: s.rawName head text := by
  obtain ⟨-, hend, -⟩ := find_some hs.named
  have hfit : k + head.length ≤ s.nameEnd := by
    by_contra hover
    obtain ⟨c, hcut⟩ : ∃ c, head[s.nameEnd - k]? = some c :=
      ⟨_, List.getElem?_eq_getElem (by omega)⟩
    have hsame := getElem_marker hk hcut
    have hgt : text[s.nameEnd]? = some '>' := getElem_marker (j := 0) hend rfl
    rw [Nat.add_sub_cancel' hlt.le, hgt] at hsame
    exact hhead.noClose (Option.some.inj hsame ▸ List.mem_of_getElem? hcut)
  have hat : head <+: (s.rawName head text).drop (k - (s.start + head.length)) := by
    unfold SectionAt.rawName region
    rw [List.drop_drop, Nat.add_sub_cancel' hle, List.drop_take]
    exact List.prefix_take_iff.mpr ⟨hk, by omega⟩
  exact hat.isInfix.trans (List.drop_suffix _ _).isInfix

/-- What is spelled in a name stands in the text. -/
theorem name_opener {s : SectionAt} {marker : List Char} (hne : marker ≠ [])
    (h : marker <:+: s.rawName head text) :
    ∃ k, s.start + head.length ≤ k ∧ k < s.nameEnd ∧ marker <+: text.drop k := by
  obtain ⟨a, b, hab⟩ := h
  have hat : marker <+: (s.rawName head text).drop a.length := by
    rw [← hab, List.append_assoc, List.drop_left]
    exact List.prefix_append _ _
  unfold SectionAt.rawName region at hat
  rw [List.drop_drop, List.drop_take] at hat
  obtain ⟨hpre, hlen⟩ := List.prefix_take_iff.mp hat
  have := List.length_pos_iff.mpr hne
  exact ⟨s.start + head.length + a.length, by omega, by omega, hpre⟩

end Openers

/-! ## 2. One entry for each section -/

/-- The entry of a section: its key, and what its value decodes to. -/
def EntryOf (lib : JsonLib) (declared : List Char → Option String) (e : String × Json)
    (p : List Char × List Char) : Prop :=
  e.1 = String.ofList p.1 ∧ coerce lib (trimNewlines p.2) (declared p.1) = .ok e.2

section Arguments

variable {lib : JsonLib} {declared : List Char → Option String}

theorem qwenArguments_nodup : ∀ {params : List (List Char × List Char)} {d arguments : Fields},
    qwenArguments lib declared d params = .ok arguments → (d.map Prod.fst).Nodup →
      (arguments.map Prod.fst).Nodup
  | [], d, arguments, h, hd => by
      cases h
      exact hd
  | (key, value) :: rest, d, arguments, h, hd => by
      unfold qwenArguments at h
      obtain ⟨v, -, h⟩ := bind_ok h
      exact qwenArguments_nodup h (set_nodup hd)

/-- New keys are entered one behind the other. -/
theorem qwenArguments_new : ∀ {params : List (List Char × List Char)} {d arguments : Fields},
    qwenArguments lib declared d params = .ok arguments →
      (d.map Prod.fst ++ params.map fun p => String.ofList p.1).Nodup →
        ∃ entries, arguments = d ++ entries ∧ List.Forall₂ (EntryOf lib declared) entries params
  | [], d, arguments, h, _ => by
      cases h
      exact ⟨[], (List.append_nil d).symm, .nil⟩
  | (key, value) :: rest, d, arguments, h, hd => by
      unfold qwenArguments at h
      obtain ⟨v, hv, h⟩ := bind_ok h
      have hnew : String.ofList key ∉ d.map Prod.fst := fun hm =>
        (List.nodup_append.mp hd).2.2 _ hm _ List.mem_cons_self rfl
      rw [set_of_new d v hnew] at h
      obtain ⟨entries, rfl, hentries⟩ := qwenArguments_new h (by
        rw [List.map_append, List.append_assoc]
        exact hd)
      exact ⟨(String.ofList key, v) :: entries, List.append_assoc _ _ _, .cons ⟨rfl, hv⟩ hentries⟩

/-- **Every section has its entry** exactly where no key is given twice. -/
theorem qwenArguments_entries {params : List (List Char × List Char)} {arguments : Fields}
    (h : qwenArguments lib declared [] params = .ok arguments) :
    List.Forall₂ (EntryOf lib declared) arguments params ↔ (params.map Prod.fst).Nodup := by
  constructor
  · intro hentries
    have hkeys : arguments.map Prod.fst = (params.map Prod.fst).map String.ofList := by
      rw [List.map_map]
      refine List.forall₂_eq_eq_eq ▸ ?_
      rw [List.forall₂_map_left_iff, List.forall₂_map_right_iff]
      exact hentries.imp fun _ _ he => he.1
    have hnodup := qwenArguments_nodup h List.nodup_nil
    rw [hkeys] at hnodup
    exact hnodup.of_map _
  · intro hnodup
    obtain ⟨entries, rfl, hentries⟩ := qwenArguments_new h (by
      have hkeys : (params.map fun p => String.ofList p.1) =
          (params.map Prod.fst).map String.ofList := by
        rw [List.map_map]
        rfl
      rw [List.map_nil, List.nil_append, hkeys]
      exact hnodup.map fun _ _ he => String.ofList_injective he)
    exact hentries

end Arguments

/-! ## 3. Whole calls -/

section Calls

variable (lib : JsonLib) (types : Dict String (Dict String String))

/-- The parameters of a function body. -/
abbrev Parameters (body : List Char) (l : List SectionAt) : Prop :=
  Scanned parameterMarker parameterClose body 0 l

/-- An opener of the body is that of a parameter, or lies in the value of one. -/
def OpenersTaken (body : List Char) (l : List SectionAt) : Prop :=
  ∀ k, parameterMarker <+: body.drop k → ∃ s ∈ l, k = s.start ∨ (s.nameEnd < k ∧ k < s.stop)

/-- The call of a function, its parameters and its decoded arguments. -/
structure Emitted (f : List Char × List Char) (l : List SectionAt) (arguments : Fields)
    (c : ParsedCall) : Prop where
  parameters : Parameters f.2 l
  name : c.name = f.1
  decoded : qwenArguments lib (declaredType types f.1) []
    (l.map (SectionAt.content parameterMarker f.2)) = .ok arguments
  encoded : lib.dumps (.obj arguments) = .ok c.arguments

/-- A call that lost nothing of its function: each opener outside the values is that of a parameter,
    and each parameter has its own entry. -/
def Whole (f : List Char × List Char) (c : ParsedCall) : Prop :=
  ∃ l arguments, Emitted lib types f l arguments c ∧ OpenersTaken f.2 l ∧
    List.Forall₂ (EntryOf lib (declaredType types f.1)) arguments
      (l.map (SectionAt.content parameterMarker f.2))

/-- A body whose parameters come first, under names that spell no opener and no key twice. -/
def Sound (body : List Char) : Prop :=
  ∃ l, Parameters body l ∧
    (∀ s ∈ l.head?, ∀ k < s.start, ¬ parameterMarker <+: body.drop k) ∧
    (∀ s ∈ l, ¬ parameterMarker <:+: s.rawName parameterMarker body) ∧
    ((l.map (SectionAt.content parameterMarker body)).map Prod.fst).Nodup

/-- What the code checks of a body. -/
def Accepted (body : List Char) (l : List SectionAt) : Prop :=
  wellSpaced parameterClose body l = true ∧ (l = [] → body.all isSpace = true)

/-- In a body the code accepts, the openers are taken exactly where none is in front and none is in
    a name. -/
theorem openersTaken_iff {body : List Char} {l : List SectionAt} (hl : Parameters body l)
    (hok : Accepted body l) :
    OpenersTaken body l ↔
      (∀ s ∈ l.head?, ∀ k < s.start, ¬ parameterMarker <+: body.drop k) ∧
        ∀ s ∈ l, ¬ parameterMarker <:+: s.rawName parameterMarker body := by
  obtain ⟨hcomplete, hapart⟩ := hl.sections
  constructor
  · refine fun htaken => ⟨fun s hs k hk hopen => ?_, fun s hs hname => ?_⟩
    · obtain ⟨rest, rfl⟩ : ∃ rest, l = s :: rest := by
        cases l with
        | nil => cases hs
        | cons s' rest =>
            cases hs
            exact ⟨rest, rfl⟩
      obtain ⟨s', hs', hcase⟩ := htaken k hopen
      have hbehind : s.start ≤ s'.start := by
        have := (find_some (hcomplete s List.mem_cons_self).2.named).1
        have := (find_some (hcomplete s List.mem_cons_self).2.closed).1
        rcases List.mem_cons.mp hs' with rfl | hs'
        · exact le_rfl
        · have := (List.pairwise_cons.mp hapart).1 s' hs'
          omega
      have := (find_some (hcomplete s' hs').2.named).1
      omega
    · obtain ⟨k, hlow, hhigh, hopen⟩ := name_opener (by decide) hname
      obtain ⟨s', hs', hcase⟩ := htaken k hopen
      -- the name and the value of one section, or of two apart
      have hends : ∀ t ∈ l, t.start + parameterMarker.length ≤ t.nameEnd ∧ t.nameEnd + 1 ≤ t.stop :=
        fun t ht => ⟨(find_some (hcomplete t ht).2.named).1, (find_some (hcomplete t ht).2.closed).1⟩
      have h₁ := hends s hs
      have h₂ := hends s' hs'
      have hmarker : 0 < parameterMarker.length := by decide
      by_cases heq : s = s'
      · subst heq
        omega
      · rcases sections_apart hapart hs hs' heq with h | h <;> omega
  · rintro ⟨hfront, hnames⟩ k hopen
    cases hl with
    | done =>
        have hblank := hok.2 rfl
        have hmem := List.mem_of_getElem? (isMarker_parameter.at_open hopen)
        exact absurd (List.all_eq_true.mp hblank _ hmem) (by decide)
    | @next _ s rest _ _ _ hrest =>
        rcases Nat.lt_or_ge k s.start with hbefore | hge
        · exact absurd hopen (hfront s rfl k hbefore)
        obtain ⟨t, ht, hlow, hhigh⟩ : ∃ t ∈ s :: rest, t.start ≤ k ∧
            k < t.stop + parameterClose.length := by
          rcases Nat.lt_or_ge k (s.stop + parameterClose.length) with hin | hbehind
          · exact ⟨s, List.mem_cons_self, hge, hin⟩
          · obtain ⟨t, ht, hlie⟩ := opener_in_section isMarker_parameter hrest hok.1 hopen hbehind
            exact ⟨t, List.mem_cons_of_mem _ ht, hlie⟩
        have htc := (hcomplete t ht).2
        rcases opener_cases isMarker_parameter (by decide) (by decide) htc hopen hlow hhigh with
          hstart | ⟨hname, hname'⟩ | hvalue
        · exact ⟨t, ht, .inl hstart⟩
        · exact absurd (opener_in_name isMarker_parameter htc hopen hname hname') (hnames t ht)
        · exact ⟨t, ht, .inr hvalue⟩

/-- **One call is whole exactly where its body is sound.** -/
theorem whole_iff {f : List Char × List Char} {c : ParsedCall} {l : List SectionAt}
    {arguments : Fields} (h : Emitted lib types f l arguments c) (hok : Accepted f.2 l) :
    Whole lib types f c ↔ Sound f.2 := by
  constructor
  · rintro ⟨l', arguments', h', htaken, hentries⟩
    have hl := h.parameters.unique h'.parameters
    subst hl
    obtain ⟨hfront, hnames⟩ := (openersTaken_iff h.parameters hok).mp htaken
    exact ⟨l, h.parameters, hfront, hnames, (qwenArguments_entries h'.decoded).mp hentries⟩
  · rintro ⟨l', hl', hfront, hnames, hnodup⟩
    have hl := h.parameters.unique hl'
    subst hl
    exact ⟨l, arguments, h, (openersTaken_iff h.parameters hok).mpr ⟨hfront, hnames⟩,
      (qwenArguments_entries h.decoded).mpr hnodup⟩

/-- The calls of a block that is accepted. -/
theorem qwenCalls_emitted : ∀ {functions : List (List Char × List Char)} {calls : List ParsedCall},
    qwenCalls lib types functions = .ok (some calls) →
      List.Forall₂ (fun f c => ∃ l arguments, Emitted lib types f l arguments c ∧ Accepted f.2 l)
        functions calls
  | [], calls, h => by
      cases h
      exact .nil
  | (name, body) :: rest, calls, h => by
      obtain ⟨l, hl⟩ := exists_scanned isMarker_parameter
        (show parameterClose ≠ [] by decide) body
      unfold qwenCalls at h
      simp only [splitSections_scanned isMarker_parameter (by decide) hl] at h
      split at h
      · cases h
      · next hok =>
        rw [Bool.or_eq_true, not_or, Bool.not_eq_true', Bool.not_eq_false, Bool.and_eq_true,
          not_and, List.isEmpty_map, List.isEmpty_iff, Bool.not_eq_true', Bool.not_eq_false] at hok
        obtain ⟨arguments, hargs, h⟩ := bind_ok h
        obtain ⟨text, htext, h⟩ := bind_ok h
        obtain ⟨others, hothers, h⟩ := bind_ok h
        cases others with
        | none => cases h
        | some others =>
            cases h
            exact .cons ⟨l, arguments, ⟨hl, rfl, hargs, htext⟩, hok⟩ (qwenCalls_emitted hothers)

theorem qwenBlock_emitted {block : List Char} {calls : List ParsedCall}
    (h : qwenBlock lib types block = .ok (some calls)) :
    List.Forall₂ (fun f c => ∃ l arguments, Emitted lib types f l arguments c ∧ Accepted f.2 l)
      (splitSections block functionMarker functionClose).1 calls := by
  unfold qwenBlock at h
  simp only at h
  split at h
  · cases h
  · exact qwenCalls_emitted lib types h

/-- **No partial call, exactly**: the calls of a block are whole exactly where every function body
    has its parameters first, under names that spell no opener and no key twice. -/
theorem qwen_calls_whole_iff {block : List Char} {calls : List ParsedCall}
    (h : qwenBlock lib types block = .ok (some calls)) :
    List.Forall₂ (Whole lib types) (splitSections block functionMarker functionClose).1 calls ↔
      ∀ f ∈ (splitSections block functionMarker functionClose).1, Sound f.2 := by
  have hemitted := qwenBlock_emitted lib types h
  clear h
  generalize (splitSections block functionMarker functionClose).1 = functions at hemitted ⊢
  induction hemitted with
  | nil => simp
  | cons hc _ ih =>
      obtain ⟨l, arguments, hc, hok⟩ := hc
      rw [List.forall₂_cons, List.forall_mem_cons]
      exact and_congr (whole_iff lib types hc hok) ih

end Calls

/-- A function `run` with a value for `path`, behind a broken opener. -/
def brokenFront : List Char :=
  "<function=run><parameter=bad\n<parameter=path>\nx\n</parameter></function>".toList

/-- A function with a text and a list of lines, and one without parameters. -/
def editBlock : List Char :=
  ("<function=edit>\n<parameter=path>\na b\n</parameter>\n<parameter=lines>\n[1, 2]\n</parameter>\n"
    ++ "</function>\n<function=list></function>").toList

def editTypes : Dict String (Dict String String) :=
  Dict.empty.set "edit" ((Dict.empty.set "path" "string").set "lines" "array")

/-- The calls of that block. -/
def editCalls : List ParsedCall :=
  [⟨"edit".toList, dumps exactRepr (.obj [("path", .str "a b"), ("lines", .arr [.int 1, .int 2])])⟩,
    ⟨"list".toList, dumps exactRepr (.obj [])⟩]

theorem qwen_calls_whole_edit :
    List.Forall₂ (Whole (pythonJson exactRepr) editTypes)
        (splitSections editBlock functionMarker functionClose).1 editCalls ↔
      ∀ f ∈ (splitSections editBlock functionMarker functionClose).1, Sound f.2 :=
  qwen_calls_whole_iff (pythonJson exactRepr) editTypes (by decide +kernel)

/-- **A parameter goes missing in silence**: the opener in front of the first section is dropped,
    and the call is sent without it. -/
theorem qwen_call_partial :
    ¬ ∀ (lib : JsonLib) (types : Dict String (Dict String String)) (block : List Char)
      (calls : List ParsedCall), qwenBlock lib types block = .ok (some calls) →
        List.Forall₂ (Whole lib types) (splitSections block functionMarker functionClose).1
          calls := by
  intro hall
  have hrun : qwenBlock textJson ∅ brokenFront =
      .ok (some [⟨"run".toList, encodedText "path".toList ['x']⟩]) := by decide +kernel
  have hbody : (splitSections brokenFront functionMarker functionClose).1 =
      [("run".toList, "<parameter=bad\n<parameter=path>\nx\n</parameter>".toList)] := by
    decide +kernel
  have hwhole := hall _ _ _ _ hrun
  rw [hbody] at hwhole
  obtain ⟨l, arguments, hc, htaken, -⟩ := (List.forall₂_cons.mp hwhole).1
  -- the opener at the start of the body would be that of a section, but its name has two lines
  obtain ⟨s, hs, hstart | hvalue⟩ := htaken 0 (by decide +kernel)
  · have hcomplete := (hc.parameters.sections.1 s hs).2
    have hname : find ['>'] "<parameter=bad\n<parameter=path>\nx\n</parameter>".toList
        (s.start + parameterMarker.length) = some 30 := by
      rw [← hstart]
      decide +kernel
    have hend : s.nameEnd = 30 := Option.some.inj (hcomplete.named.symm.trans hname)
    have hline := hcomplete.line
    rw [SectionAt.rawName, hend, ← hstart] at hline
    exact hline (by decide +kernel)
  · omega

end RolloutProxy.ToolParser
