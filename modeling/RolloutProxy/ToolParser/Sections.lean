/-
  File:      RolloutProxy/ToolParser/Sections.lean
  Subject:   THE SECTIONS OF A TEXT: what `_split_sections` finds, said without its cursors.

  * A section stands where an opener has a name of one line and a close ahead (`Complete`).
  * The scan takes the first section at or behind its position, and goes on behind its close
    (`Scanned`); what it skips, up to a line break in a name or over a blank name, stands nowhere
    complete (`FirstOpener.broken`, `FirstOpener.blank`).
  * `splitSections_scanned`: the sections are exactly these, and the text is well formed where what
    lies between and behind them is blank.
-/
import RolloutProxy.ToolParser.Argument

namespace RolloutProxy.ToolParser

open Reasoning

/-! ## 1. Sections of a text -/

/-- An opener or a close: one `<` at its head, no `>` and no line break inside. -/
structure IsMarker (marker : List Char) : Prop where
  head : marker.head? = some '<'
  tail : '<' ∉ marker.tail
  noClose : '>' ∉ marker
  line : '\n' ∉ marker

/-- Where a section lies: its opener, the `>` of its name, its close. -/
structure SectionAt where
  start : Nat
  nameEnd : Nat
  stop : Nat
  deriving DecidableEq

section Sections

variable (head close text : List Char)

namespace SectionAt

/-- The name as it is spelled. -/
def rawName (s : SectionAt) : List Char := region text (s.start + head.length) s.nameEnd

/-- The name and the body. -/
def content (s : SectionAt) : List Char × List Char :=
  (stripChars (s.rawName head text), region text (s.nameEnd + 1) s.stop)

/-- An opener with a name of one line, and a close ahead. -/
structure Complete (s : SectionAt) : Prop where
  opener : head <+: text.drop s.start
  named : find ['>'] text (s.start + head.length) = some s.nameEnd
  line : '\n' ∉ s.rawName head text
  spelled : (s.rawName head text).all isSpace = false
  closed : find close text (s.nameEnd + 1) = some s.stop

end SectionAt

/-- The sections a scan finds from a position on. -/
inductive Scanned : Nat → List SectionAt → Prop where
  | done {pos : Nat} (h : ∀ s : SectionAt, pos ≤ s.start → ¬ s.Complete head close text) :
      Scanned pos []
  | next {pos : Nat} {s : SectionAt} {rest : List SectionAt} (hs : s.Complete head close text)
      (hpos : pos ≤ s.start)
      (hfirst : ∀ s' : SectionAt, pos ≤ s'.start → s'.start < s.start →
        ¬ s'.Complete head close text)
      (h : Scanned (s.stop + close.length) rest) : Scanned pos (s :: rest)

/-- What lies between sections and behind them is blank. -/
def gapsBlank : Nat → List SectionAt → Bool
  | gap, [] => (text.drop gap).all isSpace
  | gap, s :: rest =>
    (region text gap s.start).all isSpace && gapsBlank (s.stop + close.length) rest

/-- What lies in front of the first section does not count. -/
def wellSpaced : List SectionAt → Bool
  | [] => true
  | s :: rest => gapsBlank close text (s.stop + close.length) rest

end Sections

section Scan

variable {head close text : List Char}

/-- A section is the only one at its opener. -/
theorem SectionAt.Complete.unique {s s' : SectionAt} (h : s.Complete head close text)
    (h' : s'.Complete head close text) (hstart : s.start = s'.start) : s = s' := by
  have hname : s.nameEnd = s'.nameEnd := by
    have := h.named.symm.trans (hstart ▸ h'.named)
    exact Option.some.inj this
  have hstop : s.stop = s'.stop := by
    have := h.closed.symm.trans (hname ▸ h'.closed)
    exact Option.some.inj this
  cases s
  cases s'
  simp_all

/-- A scan finds one list of sections. -/
theorem Scanned.unique {pos : Nat} {l l' : List SectionAt} (h : Scanned head close text pos l)
    (h' : Scanned head close text pos l') : l = l' := by
  induction h generalizing l' with
  | done hnone =>
      cases h' with
      | done => rfl
      | next hs hpos _ _ => exact absurd hs (hnone _ hpos)
  | @next pos s rest hs hpos hfirst _ ih =>
      cases h' with
      | done hnone => exact absurd hs (hnone _ hpos)
      | @next _ s' rest' hs' hpos' hfirst' h' =>
          have hstart : s.start = s'.start := by
            rcases Nat.lt_trichotomy s.start s'.start with hlt | heq | hgt
            · exact absurd hs (hfirst' _ hpos hlt)
            · exact heq
            · exact absurd hs' (hfirst _ hpos' hgt)
          have heq := hs.unique hs' hstart
          subst heq
          rw [ih h']

/-- What is skipped is not complete. -/
theorem Scanned.skip {pos pos' : Nat} {l : List SectionAt} (hle : pos ≤ pos')
    (hskip : ∀ s : SectionAt, pos ≤ s.start → s.start < pos' → ¬ s.Complete head close text)
    (h : Scanned head close text pos' l) : Scanned head close text pos l := by
  cases h with
  | done hnone =>
      refine .done fun s hs => ?_
      rcases Nat.lt_or_ge s.start pos' with hlt | hge
      · exact hskip s hs hlt
      · exact hnone s hge
  | next hs hpos hfirst h =>
      refine .next hs (hle.trans hpos) (fun s' hs' hlt => ?_) h
      rcases Nat.lt_or_ge s'.start pos' with hlt' | hge
      · exact hskip s' hs' hlt'
      · exact hfirst s' hge hlt

/-! ## 2. The scan finds them -/

/-- A name end that was found before is the first one behind the cursor, or lies behind. -/
def Sections.Cached (text : List Char) (s : Sections) : Prop :=
  ∀ e, s.nameEnd = some e → ∃ n ≤ s.pos, find ['>'] text n = some e

theorem Sections.findNameEnd_eq {s : Sections} (h : s.Cached text) {nameStart : Nat}
    (hle : s.pos ≤ nameStart) : s.findNameEnd text nameStart = find ['>'] text nameStart := by
  unfold Sections.findNameEnd
  split
  · next e he =>
    obtain ⟨n, hn, hfind⟩ := h e he
    obtain ⟨hlow, hat, hfirst⟩ := find_some hfind
    split
    · rfl
    · next hlt =>
      exact (find_eq (by decide) (not_lt.mp hlt) hat fun k hk hk' => hfirst k (by omega) hk').symm
  · rfl

/-- The text at an occurrence of a marker. -/
theorem getElem_marker {marker : List Char} {k j : Nat} {c : Char} (h : marker <+: text.drop k)
    (hj : marker[j]? = some c) : text[k + j]? = some c := by
  obtain ⟨rest, hrest⟩ := h
  have hlt : j < marker.length := (List.getElem?_eq_some_iff.mp hj).1
  rw [← List.getElem?_drop, ← hrest, List.getElem?_append_left hlt, hj]

theorem getElem_region {a b k : Nat} {c : Char} (ha : a ≤ k) (hb : k < b) (h : text[k]? = some c) :
    c ∈ region text a b := by
  refine List.mem_of_getElem? (i := k - a) ?_
  unfold region
  rw [List.getElem?_drop, Nat.add_sub_cancel' ha, List.getElem?_take_of_lt hb, h]

/-- One character at a position. -/
theorem prefix_of_getElem? {l : List Char} {k : Nat} {c : Char} (h : l[k]? = some c) :
    [c] <+: l.drop k := by
  rw [← List.head?_drop] at h
  cases hl : l.drop k with
  | nil => rw [hl] at h; cases h
  | cons d rest =>
      rw [hl] at h
      cases h
      exact ⟨rest, rfl⟩

theorem IsMarker.ne_nil (h : IsMarker head) : head ≠ [] := by
  rintro rfl
  cases h.head

/-- The first opener from a position on, and the `>` behind it. -/
structure FirstOpener (head text : List Char) (pos start nameEnd : Nat) : Prop where
  opener : head <+: text.drop start
  first : ∀ k, pos ≤ k → k < start → ¬ head <+: text.drop k
  named : find ['>'] text (start + head.length) = some nameEnd

namespace FirstOpener

variable {pos start nameEnd : Nat} {s : SectionAt}

theorem start_le (h : FirstOpener head text pos start nameEnd) (hs : s.Complete head close text)
    (hpos : pos ≤ s.start) : start ≤ s.start := by
  by_contra hlt
  exact h.first _ hpos (not_le.mp hlt) hs.opener

/-- A name that starts behind this one ends no earlier. -/
theorem nameEnd_le (h : FirstOpener head text pos start nameEnd)
    (hs : s.Complete head close text) (hpos : pos ≤ s.start) : nameEnd ≤ s.nameEnd := by
  obtain ⟨-, -, hbefore⟩ := find_some h.named
  obtain ⟨hle, hin, -⟩ := find_some hs.named
  have hge := h.start_le hs hpos
  by_contra hlt
  exact hbefore _ (by omega) (not_le.mp hlt) hin

/-- **A name that a line break breaks** is skipped up to the break: every name that starts in front
    of it has it in its line. -/
theorem broken (hhead : IsMarker head) (h : FirstOpener head text pos start nameEnd) {newline : Nat}
    (hget : text[newline]? = some '\n') (hlt : newline < nameEnd) (hpos : pos ≤ s.start)
    (hless : s.start < newline + 1) : ¬ s.Complete head close text := by
  intro hs
  obtain ⟨hbehind, hend, hbefore⟩ := find_some h.named
  have hge := h.start_le hs hpos
  have hfit : s.start + head.length ≤ newline := by
    by_contra hover
    obtain ⟨c, hcut⟩ : ∃ c, head[newline - s.start]? = some c :=
      ⟨_, List.getElem?_eq_getElem (by omega)⟩
    have hsame := getElem_marker hs.opener hcut
    rw [Nat.add_sub_cancel' (by omega), hget] at hsame
    exact hhead.line (Option.some.inj hsame ▸ List.mem_of_getElem? hcut)
  have hsameEnd : find ['>'] text (s.start + head.length) = some nameEnd :=
    find_eq (by decide) (by omega) hend fun k hk hk' => hbefore k (by omega) hk'
  have he : s.nameEnd = nameEnd := Option.some.inj (hs.named.symm.trans hsameEnd)
  exact hs.line (getElem_region hfit (by omega) hget)

/-- **A blank name** is skipped up to its `>`: no opener starts in it. -/
theorem blank (hhead : IsMarker head) (h : FirstOpener head text pos start nameEnd)
    (hblank : (region text (start + head.length) nameEnd).all isSpace = true)
    (hpos : pos ≤ s.start) (hless : s.start < nameEnd + 1) : ¬ s.Complete head close text := by
  intro hs
  have hzero : head[0]? = some '<' := by
    rw [← List.head?_eq_getElem?]
    exact hhead.head
  have hangle : text[s.start]? = some '<' := getElem_marker hs.opener hzero
  rcases Nat.eq_or_lt_of_le (h.start_le hs hpos) with heq | hgt
  · -- the opener itself: its name is not spelled
    have he : s.nameEnd = nameEnd := Option.some.inj (hs.named.symm.trans (heq ▸ h.named))
    have hspelled := hs.spelled
    rw [SectionAt.rawName, he, ← heq, hblank] at hspelled
    cases hspelled
  · rcases Nat.lt_or_ge s.start (start + head.length) with hin | hout
    · -- inside the opener there is no other `<`
      obtain ⟨j, hj⟩ : ∃ j, s.start = start + (j + 1) := ⟨s.start - start - 1, by omega⟩
      obtain ⟨c, hcut⟩ : ∃ c, head[j + 1]? = some c :=
        ⟨_, List.getElem?_eq_getElem (by omega)⟩
      have hsame := getElem_marker h.opener hcut
      rw [← hj, hangle] at hsame
      refine hhead.tail (List.mem_of_getElem? (i := j) ?_)
      rw [List.getElem?_tail, hcut, ← Option.some.inj hsame]
    · rcases Nat.lt_or_ge s.start nameEnd with hlt | hlast
      · have hspace := List.all_eq_true.mp hblank _ (getElem_region hout hlt hangle)
        revert hspace
        decide
      · have heq : s.start = nameEnd := by omega
        obtain ⟨-, ⟨rest, hrest⟩, -⟩ := find_some h.named
        have hgt : text[nameEnd]? = some '>' := by
          rw [← List.head?_drop, ← hrest]
          rfl
        rw [← heq, hangle] at hgt
        exact absurd (Option.some.inj hgt) (by decide)

/-- A name of one line, with a close ahead. -/
theorem complete (h : FirstOpener head text pos start nameEnd) {stop : Nat}
    (hline : findIn ['\n'] text (start + head.length) nameEnd = none)
    (hspelled : (region text (start + head.length) nameEnd).all isSpace = false)
    (hstop : find close text (nameEnd + 1) = some stop) :
    SectionAt.Complete head close text ⟨start, nameEnd, stop⟩ := by
  refine ⟨h.opener, h.named, fun hm => ?_, hspelled, hstop⟩
  obtain ⟨k, hk⟩ := List.mem_iff_getElem?.mp hm
  unfold SectionAt.rawName region at hk
  rw [List.getElem?_drop] at hk
  exact find_none (by decide) hline (start + head.length + k) (Nat.le_add_right _ _)
    (prefix_of_getElem? hk)

end FirstOpener

/-- The line break that is found in a name. -/
theorem findIn_newline {a b newline : Nat} (h : findIn ['\n'] text a b = some newline) :
    text[newline]? = some '\n' ∧ newline < b := by
  obtain ⟨-, ⟨rest, hrest⟩, -⟩ := find_some h
  have hread : (text.take b)[newline]? = some '\n' := by
    rw [← List.head?_drop, ← hrest]
    rfl
  have hlt : newline < b := by
    by_contra hge
    rw [List.getElem?_eq_none (by rw [List.length_take]; omega)] at hread
    cases hread
  rw [List.getElem?_take_of_lt hlt] at hread
  exact ⟨hread, hlt⟩

/-- The verdict on the gaps from a state of the scan on. -/
def Sections.verdict (close text : List Char) (s : Sections) (l : List SectionAt) : Bool :=
  if s.sections.isEmpty then wellSpaced close text l else gapsBlank close text s.gapFrom l

/-- A state whose scan is at its end. -/
theorem verdict_nil (s : Sections) :
    (s.wellFormed && !(!s.sections.isEmpty && !(text.drop s.gapFrom).all isSpace)) =
      (s.wellFormed && s.verdict close text []) := by
  unfold Sections.verdict
  cases s.sections.isEmpty <;> simp [wellSpaced, gapsBlank]

/-- **The scan finds the sections of the text.** -/
theorem sectionsFrom_scanned (hhead : IsMarker head) (hclose : close ≠ []) :
    ∀ (fuel : Nat) (s : Sections), text.length + 1 ≤ s.pos + fuel → s.Cached text →
      ∃ l, Scanned head close text s.pos l ∧
        (sectionsFrom head close text fuel s).sections =
          s.sections ++ l.map (SectionAt.content head text) ∧
        ((sectionsFrom head close text fuel s).wellFormed &&
          !(!(sectionsFrom head close text fuel s).sections.isEmpty &&
            !(text.drop (sectionsFrom head close text fuel s).gapFrom).all isSpace)) =
          (s.wellFormed && s.verdict close text l)
  | 0, s, hfuel, _ => by
      refine ⟨[], .done fun s' hs' hc => ?_, (List.append_nil _).symm, verdict_nil s⟩
      have := length_le_of_at hhead.ne_nil hc.opener
      omega
  | fuel + 1, s, hfuel, hcache => by
      unfold sectionsFrom
      cases hstart : find head text s.pos with
      | none =>
          exact ⟨[], .done fun s' hs' hc => find_none hhead.ne_nil hstart _ hs' hc.opener,
            (List.append_nil _).symm, verdict_nil s⟩
      | some start =>
      obtain ⟨hlow, hat, hnone⟩ := find_some hstart
      simp only [s.findNameEnd_eq hcache (show s.pos ≤ start + head.length by omega)]
      cases hname : find ['>'] text (start + head.length) with
      | none =>
          -- without a `>` behind the first opener there is none behind a later one
          refine ⟨[], .done fun s' hs' hc => ?_, (List.append_nil _).symm, verdict_nil s⟩
          have hge : start ≤ s'.start := by
            by_contra hlt
            exact hnone _ hs' (not_le.mp hlt) hc.opener
          obtain ⟨hle, hin, -⟩ := find_some hc.named
          exact find_none (by decide) hname _ (by omega) hin
      | some e =>
      have hfirst : FirstOpener head text s.pos start e := ⟨hat, hnone, hname⟩
      obtain ⟨hbehind, -, -⟩ := find_some hname
      simp only
      cases hline : findIn ['\n'] text (start + head.length) e with
      | some newline =>
          obtain ⟨hin, -, -⟩ := find_some hline
          obtain ⟨hget, hlt⟩ := findIn_newline hline
          obtain ⟨l, hl, hsections, hverdict⟩ := sectionsFrom_scanned hhead hclose fuel
            { s with pos := newline + 1, nameEnd := some e } (by simp only; omega)
            (fun e' he' => by cases he'; exact ⟨_, by simp only; omega, hname⟩)
          exact ⟨l, hl.skip (show s.pos ≤ newline + 1 by omega)
            fun _ hpos hless => hfirst.broken hhead hget hlt hpos hless, hsections, hverdict⟩
      | none =>
      simp only
      split
      · next hblank =>
        obtain ⟨l, hl, hsections, hverdict⟩ := sectionsFrom_scanned hhead hclose fuel
          { s with pos := e + 1, nameEnd := some e } (by simp only; omega)
          (fun e' he' => by cases he'; exact ⟨_, by simp only; omega, hname⟩)
        exact ⟨l, hl.skip (show s.pos ≤ e + 1 by omega)
          fun _ hpos hless => hfirst.blank hhead hblank hpos hless, hsections, hverdict⟩
      · next hspelled =>
        cases hstop : find close text (e + 1) with
        | none =>
            refine ⟨[], .done fun s' hs' hc => ?_, (List.append_nil _).symm, verdict_nil s⟩
            obtain ⟨hle, hin, -⟩ := find_some hc.closed
            have := hfirst.nameEnd_le hc hs'
            exact find_none hclose hstop _ (by omega) hin
        | some stop =>
            obtain ⟨hafter, -, -⟩ := find_some hstop
            have hpiece := hfirst.complete hline (Bool.not_eq_true _ ▸ hspelled) hstop
            obtain ⟨l, hl, hsections, hverdict⟩ := sectionsFrom_scanned hhead hclose fuel
              { sections := s.sections ++ [(stripChars (region text (start + head.length) e),
                  region text (e + 1) stop)]
                wellFormed := s.wellFormed &&
                  !(!s.sections.isEmpty && !(region text s.gapFrom start).all isSpace)
                gapFrom := stop + close.length
                pos := stop + close.length
                nameEnd := some e } (by simp only; omega)
              (fun e' he' => by cases he'; exact ⟨_, by simp only; omega, hname⟩)
            refine ⟨⟨start, e, stop⟩ :: l, .next hpiece hlow
              (fun s' hs' hlt hc => absurd (hfirst.start_le hc hs') (not_le.mpr hlt)) hl, ?_, ?_⟩
            · rw [hsections, List.append_assoc]
              rfl
            · rw [hverdict]
              have hnot : (s.sections ++ [(stripChars (region text (start + head.length) e),
                  region text (e + 1) stop)]).isEmpty = false := by simp
              simp only [Sections.verdict, hnot, wellSpaced, gapsBlank]
              cases s.sections.isEmpty <;> simp [Bool.and_assoc]

/-- **What `_split_sections` returns**: the sections of the text, and whether the gaps are blank. -/
theorem splitSections_scanned (hhead : IsMarker head) (hclose : close ≠ []) {l : List SectionAt}
    (h : Scanned head close text 0 l) :
    splitSections text head close =
      (l.map (SectionAt.content head text), wellSpaced close text l) := by
  obtain ⟨l', hl', hsections, hverdict⟩ := sectionsFrom_scanned hhead hclose (text.length + 1)
    ⟨[], true, 0, 0, none⟩ (Nat.le_add_left _ _) nofun
  have heq := h.unique hl'
  subst heq
  exact Prod.ext hsections hverdict

theorem exists_scanned (hhead : IsMarker head) (hclose : close ≠ []) (text : List Char) :
    ∃ l, Scanned head close text 0 l := by
  obtain ⟨l, hl, -⟩ := sectionsFrom_scanned hhead hclose (text.length + 1)
    ⟨[], true, 0, 0, none⟩ (Nat.le_add_left _ _) nofun
  exact ⟨l, hl⟩

end Scan

end RolloutProxy.ToolParser
