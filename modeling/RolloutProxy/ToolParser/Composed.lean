/-
  File:      RolloutProxy/ToolParser/Composed.lean
  Subject:   TEXTS PUT TOGETHER FROM PARTS, and what the parsers find in them: the sections of a text
             of sections, the blocks of a text of blocks.

  * `splitSections_placed`: sections with blank gaps are split as they were joined; what follows
    them counts as stranded unless it is blank.
  * `parse_chunks`: blocks that each hold one call are parsed one by one, and what lies between
    them is the content.
-/
import RolloutProxy.ToolParser.Sections

namespace RolloutProxy.ToolParser

open Reasoning

/-! ## 1. Texts of sections -/

/-- The part between two cuts. -/
theorem region_middle {text : List Char} (a b c : List Char) (h : text = a ++ b ++ c) :
    region text a.length (a.length + b.length) = b := by
  unfold region
  rw [h, ← List.length_append, List.take_left, List.drop_left]

/-- A name that a section can have. -/
structure SpelledName (name : List Char) : Prop where
  noClose : '>' ∉ name
  line : '\n' ∉ name
  spelled : name.all isSpace = false

/-- A section behind a gap. -/
structure SectionPiece where
  gap : List Char
  name : List Char
  body : List Char

section Pieces

variable (head close : List Char)

/-- A section with its markers. -/
def sectionText (name body : List Char) : List Char := sectionHead head name ++ body ++ close

namespace SectionPiece

def text (p : SectionPiece) : List Char := p.gap ++ sectionText head close p.name p.body

/-- What `_split_sections` returns of it. -/
def content (p : SectionPiece) : List Char × List Char := (stripChars p.name, p.body)

/-- The section ends at its own close, behind a blank gap. -/
structure Sound (p : SectionPiece) : Prop where
  blank : p.gap.all isSpace = true
  name : SpelledName p.name
  body : SkipsTo close p.body

end SectionPiece

variable {head close}

/-- A section where it was put. -/
theorem complete_placed {text pre name body rest : List Char} (hclose : close ≠ [])
    (hname : SpelledName name) (hbody : SkipsTo close body)
    (htext : text = pre ++ sectionText head close name body ++ rest) :
    ∃ s : SectionAt, s.Complete head close text ∧ s.start = pre.length ∧
      s.stop + close.length = (pre ++ sectionText head close name body).length ∧
      s.content head text = (stripChars name, body) := by
  have hlen : (pre ++ sectionHead head name).length =
      pre.length + head.length + name.length + 1 := by
    simp only [sectionHead, List.length_append, List.length_singleton]
    omega
  have hraw : region text (pre.length + head.length) (pre.length + head.length + name.length) =
      name := by
    have := region_middle (pre ++ head) name (['>'] ++ body ++ close ++ rest)
      (htext.trans (by simp only [sectionText, sectionHead, List.append_assoc]))
    rw [List.length_append] at this
    exact this
  have hnamed : find ['>'] text (pre.length + head.length) =
      some (pre.length + head.length + name.length) := by
    have := find_skips (pre ++ head) (body ++ close ++ rest) (by decide)
      (.of_skips (skips_of_notMem (t := []) hname.noClose))
    rw [List.length_append] at this
    rw [← this, htext]
    simp only [sectionText, sectionHead, List.append_assoc]
  have hclosed : find close text (pre.length + head.length + name.length + 1) =
      some (pre.length + head.length + name.length + 1 + body.length) := by
    have := find_skips (pre ++ sectionHead head name) rest hclose hbody
    rw [hlen] at this
    rw [← this, htext]
    simp only [sectionText, List.append_assoc]
  have hbodyEq : region text (pre.length + head.length + name.length + 1)
      (pre.length + head.length + name.length + 1 + body.length) = body := by
    have := region_middle (pre ++ sectionHead head name) body (close ++ rest)
      (htext.trans (by simp only [sectionText, List.append_assoc]))
    rw [hlen] at this
    exact this
  refine ⟨⟨pre.length, pre.length + head.length + name.length,
    pre.length + head.length + name.length + 1 + body.length⟩, ⟨?_, hnamed, ?_, ?_, hclosed⟩, rfl,
    ?_, ?_⟩
  · rw [htext, List.append_assoc, List.drop_left]
    simp only [sectionText, sectionHead, List.append_assoc]
    exact List.prefix_append _ _
  · rw [SectionAt.rawName, hraw]
    exact hname.line
  · rw [SectionAt.rawName, hraw]
    exact hname.spelled
  · rw [sectionText, ← List.append_assoc, ← List.append_assoc, List.length_append,
      List.length_append, hlen]
  · exact Prod.ext (congrArg stripChars hraw) hbodyEq

/-- The sections of a text of sections; the induction goes on behind the first one. -/
theorem scanned_placed (hhead : IsMarker head) (hclose : close ≠ []) {text tail : List Char}
    (htail : '>' ∉ tail) : ∀ (pieces : List SectionPiece) (pre : List Char),
      (∀ p ∈ pieces, p.Sound close) →
        text = pre ++ pieces.flatMap (SectionPiece.text head close) ++ tail →
        ∃ l, Scanned head close text pre.length l ∧
          l.map (SectionAt.content head text) = pieces.map SectionPiece.content ∧
          gapsBlank close text pre.length l = tail.all isSpace ∧
          wellSpaced close text l = (pieces.isEmpty || tail.all isSpace)
  | [], pre, _, htext => by
      rw [List.flatMap_nil, List.append_nil] at htext
      refine ⟨[], .done fun s hs hc => ?_, rfl, ?_, rfl⟩
      · obtain ⟨hle, hend, -⟩ := find_some hc.named
        have hmem : text[s.nameEnd]? = some '>' := getElem_marker (j := 0) hend rfl
        rw [htext, List.getElem?_append_right (by omega)] at hmem
        exact htail (List.mem_of_getElem? hmem)
      · unfold gapsBlank
        rw [htext, List.drop_left]
  | p :: pieces, pre, hp, htext => by
      obtain ⟨hsound, hrest⟩ := List.forall_mem_cons.mp hp
      have hsplit : text = (pre ++ p.gap) ++ sectionText head close p.name p.body ++
          (pieces.flatMap (SectionPiece.text head close) ++ tail) := by
        rw [htext]
        simp only [List.flatMap_cons, SectionPiece.text, List.append_assoc]
      obtain ⟨s, hs, hstart, hstop, hcontent⟩ :=
        complete_placed hclose hsound.name hsound.body hsplit
      obtain ⟨l, hl, hmap, hgaps, -⟩ := scanned_placed hhead hclose htail pieces
        (pre ++ p.gap ++ sectionText head close p.name p.body) hrest
        (hsplit.trans (by simp only [List.append_assoc]))
      rw [← hstop] at hl hgaps
      have hgap : region text pre.length s.start = p.gap := by
        have := region_middle pre p.gap (sectionText head close p.name p.body ++
          (pieces.flatMap (SectionPiece.text head close) ++ tail))
          (hsplit.trans (by simp only [List.append_assoc]))
        rw [← List.length_append, ← hstart] at this
        exact this
      have hfirst : ∀ s' : SectionAt, pre.length ≤ s'.start → s'.start < s.start →
          ¬ s'.Complete head close text := fun s' hle hlt hc => by
        have hopen : text[s'.start]? = some '<' :=
          getElem_marker hc.opener (by rw [← List.head?_eq_getElem?]; exact hhead.head)
        have hmem := getElem_region hle hlt hopen
        rw [hgap] at hmem
        exact absurd (List.all_eq_true.mp hsound.blank _ hmem) (by decide)
      refine ⟨s :: l, .next hs ?_ hfirst hl, ?_, ?_, ?_⟩
      · rw [hstart, List.length_append]
        exact Nat.le_add_right _ _
      · rw [List.map_cons, List.map_cons, hcontent, hmap]
        rfl
      · rw [gapsBlank, hgap, hsound.blank, Bool.true_and, hgaps]
      · rw [wellSpaced, hgaps]
        rfl

/-- **Sections are split as they were joined**, in front of a tail that ends no name. -/
theorem splitSections_placed (hhead : IsMarker head) (hclose : close ≠ []) {pieces : List SectionPiece}
    {tail : List Char} (hp : ∀ p ∈ pieces, p.Sound close) (htail : '>' ∉ tail) :
    splitSections (pieces.flatMap (SectionPiece.text head close) ++ tail) head close =
      (pieces.map SectionPiece.content, pieces.isEmpty || tail.all isSpace) := by
  obtain ⟨l, hl, hmap, -, hspaced⟩ := scanned_placed hhead hclose htail pieces [] hp rfl
  rw [List.nil_append] at hl hmap hspaced
  rw [splitSections_scanned hhead hclose hl, hmap, hspaced]

/-- The first section, whatever follows it. -/
theorem splitSections_first (hhead : IsMarker head) (hclose : close ≠ []) {name body : List Char}
    (hname : SpelledName name) (hbody : SkipsTo close body) (rest : List Char) :
    ∃ others ok, splitSections (sectionText head close name body ++ rest) head close =
      ((stripChars name, body) :: others, ok) := by
  have htext : sectionText head close name body ++ rest =
      [] ++ sectionText head close name body ++ rest := rfl
  obtain ⟨s, hs, hstart, -, hcontent⟩ := complete_placed hclose hname hbody htext
  obtain ⟨l, hl⟩ := exists_scanned hhead hclose (sectionText head close name body ++ rest)
  rw [splitSections_scanned hhead hclose hl]
  cases hl with
  | done hnone => exact absurd hs (hnone s (Nat.zero_le _))
  | @next _ s' l' hs' _ hfirst _ =>
      have heq : s' = s := by
        refine hs'.unique hs ?_
        by_contra hne
        exact hfirst s (Nat.zero_le _) (by rw [hstart] at hne ⊢; simp at hne ⊢; omega) hs
      subst heq
      exact ⟨_, _, by rw [List.map_cons, hcontent]⟩

/-- Behind the first `>` of a text nothing closes. -/
def NoneCloses (close text : List Char) : Prop :=
  ∀ l m, text = l ++ '>' :: m → ¬ close <:+: m

theorem NoneCloses.of_isInfix {text part : List Char} (h : NoneCloses close text)
    (hpart : part <:+: text) : NoneCloses close part := by
  rintro l m rfl hclose
  obtain ⟨a, b, rfl⟩ := hpart
  refine h (a ++ l) (m ++ b) (by simp) (hclose.trans ?_)
  exact (List.prefix_append m b).isInfix

/-- A text without `>` has none to close behind. -/
theorem noneCloses_of_notMem {text : List Char} (h : '>' ∉ text) : NoneCloses close text := by
  rintro l m rfl
  simp at h

/-- Where nothing closes behind the first name there is no section. -/
theorem splitSections_unclosed (hhead : IsMarker head) (hclose : close ≠ []) {text : List Char}
    (h : NoneCloses close text) : splitSections text head close = ([], true) := by
  have hdone : Scanned head close text 0 [] := .done fun s _ hc => by
    obtain ⟨-, hend, -⟩ := find_some hc.named
    obtain ⟨hle, hat, -⟩ := find_some hc.closed
    obtain ⟨m, hm⟩ := hend
    refine h (text.take s.nameEnd) m ?_ ?_
    · rw [← List.singleton_append, hm, List.take_append_drop]
    · have hm' : text.drop (s.nameEnd + 1) = m := by
        rw [← List.drop_drop, ← hm]
        rfl
      rw [show s.stop = s.nameEnd + 1 + (s.stop - (s.nameEnd + 1)) by omega, ← List.drop_drop,
        hm'] at hat
      exact hat.isInfix.trans (List.drop_suffix _ _).isInfix
  rw [splitSections_scanned hhead hclose hdone]
  rfl

end Pieces

/-! ## 2. Texts of blocks -/

/-- A block with its markers, behind a gap. -/
def chunkText (gap body : List Char) : List Char := gap ++ toolOpen ++ body ++ toolClose

section Chunks

variable {text : List Char}

/-- A block where it was put. -/
theorem nextBlock_chunk {pre gap body rest : List Char} (hgap : SkipsTo toolOpen gap)
    (hbody : SkipsTo toolClose body) (htext : text = pre ++ chunkText gap body ++ rest) :
    ∃ b : Block, nextBlock text pre.length = some b ∧ b.start = (pre ++ gap).length ∧
      b.stop + toolClose.length = (pre ++ chunkText gap body).length ∧
      region text b.bodyStart b.stop = body := by
  have hopen : find toolOpen text pre.length = some (pre.length + gap.length) := by
    have := find_skips pre (body ++ toolClose ++ rest) (by decide) hgap
    rw [← this, htext]
    simp only [chunkText, List.append_assoc]
  have hlen : (pre ++ gap ++ toolOpen).length = pre.length + gap.length + toolOpen.length := by
    simp only [List.length_append]
  have hclose : find toolClose text (pre.length + gap.length + toolOpen.length) =
      some (pre.length + gap.length + toolOpen.length + body.length) := by
    have := find_skips (pre ++ gap ++ toolOpen) rest (by decide) hbody
    rw [hlen] at this
    rw [← this, htext]
    simp only [chunkText, List.append_assoc]
  refine ⟨⟨pre.length + gap.length, pre.length + gap.length + toolOpen.length,
    pre.length + gap.length + toolOpen.length + body.length⟩, ?_, List.length_append.symm, ?_, ?_⟩
  · unfold nextBlock
    simp only [hopen, hclose]
  · simp only [chunkText, List.length_append]
    omega
  · have := region_middle (pre ++ gap ++ toolOpen) body (toolClose ++ rest)
      (htext.trans (by simp only [chunkText, List.append_assoc]))
    rw [hlen] at this
    exact this

variable {α : Type} {parseBlock : BlockParser} {gap body : α → List Char}
  {call : α → Except JsonError ParsedCall}

/-- What makes a block stand where it was put, and hold one call. -/
structure HoldsOne (parseBlock : BlockParser) (gap body : List Char)
    (call : Except JsonError ParsedCall) : Prop where
  opener : SkipsTo toolOpen gap
  closer : SkipsTo toolClose body
  parsed : parseBlock (stripChars body) = call.map fun c => some [c]

/-- A block that holds one call is parsed at once. -/
theorem HoldsOne.retrying {gap body : List Char} {call : Except JsonError ParsedCall}
    (h : HoldsOne parseBlock gap body call) {b : Block}
    (hb : region text b.bodyStart b.stop = body) :
    parseRetrying parseBlock text b = call.map fun c => (b, some [c]) := by
  unfold parseRetrying Block.body
  rw [hb, h.parsed]
  cases call with
  | error e => rfl
  | ok c => rfl

/-- The loop over the blocks of a text, by induction on them. -/
theorem parseFrom_chunks {tail : List Char} (htail : ¬ toolOpen <:+: tail) :
    ∀ (items : List α) (pre : List Char) (fuel : Nat), items.length ≤ fuel →
      (∀ a ∈ items, HoldsOne parseBlock (gap a) (body a) (call a)) →
      text = pre ++ (items.flatMap fun a => chunkText (gap a) (body a)) ++ tail →
        parseFrom parseBlock text fuel pre.length pre.length =
          (items.mapM call).map fun calls => (items.flatMap gap ++ tail, calls)
  | [], pre, fuel, _, _, htext => by
      rw [List.flatMap_nil, List.append_nil] at htext
      have hnone : find toolOpen text pre.length = none := by
        refine find_eq_none fun k hk hp => htail ?_
        rw [htext, show k = pre.length + (k - pre.length) by omega, ← List.drop_drop,
          List.drop_left] at hp
        exact hp.isInfix.trans (List.drop_suffix _ _).isInfix
      have hrest : text.drop pre.length = tail := by rw [htext, List.drop_left]
      cases fuel with
      | zero => simp [parseFrom, hrest, pure, Except.pure]
      | succ fuel =>
          unfold parseFrom nextBlock
          simp [hnone, hrest, pure, Except.pure]
  | a :: items, pre, fuel, hfuel, hitems, htext => by
      obtain ⟨ha, hrest⟩ := List.forall_mem_cons.mp hitems
      obtain ⟨fuel, rfl⟩ : ∃ n, fuel = n + 1 := ⟨fuel - 1, by rw [List.length_cons] at hfuel; omega⟩
      have hsplit : text = pre ++ chunkText (gap a) (body a) ++
          ((items.flatMap fun a => chunkText (gap a) (body a)) ++ tail) := by
        rw [htext]
        simp only [List.flatMap_cons, List.append_assoc]
      obtain ⟨b, hb, hstart, hstop, hbody⟩ := nextBlock_chunk ha.opener ha.closer hsplit
      have hnext := parseFrom_chunks htail items (pre ++ chunkText (gap a) (body a)) fuel
        (by rw [List.length_cons] at hfuel; omega) hrest
        (hsplit.trans (by simp only [List.append_assoc]))
      have hgap : region text pre.length b.start = gap a := by
        have := region_middle pre (gap a) (toolOpen ++ body a ++ toolClose ++
          ((items.flatMap fun a => chunkText (gap a) (body a)) ++ tail))
          (hsplit.trans (by simp only [chunkText, List.append_assoc]))
        rw [← List.length_append, ← hstart] at this
        exact this
      unfold parseFrom
      simp only [hb, ha.retrying hbody]
      rw [List.mapM_cons]
      cases hcall : call a with
      | error e => rfl
      | ok c =>
          simp only [map_ok_eq, ok_bind]
          rw [hstop, hnext, hgap]
          cases items.mapM call with
          | error e => rfl
          | ok calls =>
              simp only [map_ok_eq, ok_bind, List.flatMap_cons, List.append_assoc]
              rfl

/-- A text of blocks is longer than their number. -/
theorem chunks_length (gap body : α → List Char) (items : List α) :
    items.length ≤ (items.flatMap fun a => chunkText (gap a) (body a)).length := by
  induction items with
  | nil => exact le_rfl
  | cons a items ih =>
      have htool : toolOpen.length = 11 := rfl
      rw [List.flatMap_cons, List.length_append, List.length_cons, chunkText]
      simp only [List.length_append]
      omega

/-- **Blocks of one call each** are parsed one by one; what lies between them is the content. -/
theorem parse_chunks {tail : List Char} (htail : ¬ toolOpen <:+: tail) {items : List α}
    (hitems : ∀ a ∈ items, HoldsOne parseBlock (gap a) (body a) (call a)) :
    parse parseBlock ((items.flatMap fun a => chunkText (gap a) (body a)) ++ tail) =
      (items.mapM call).map fun calls => (stripChars (items.flatMap gap ++ tail), calls) := by
  have hlen : items.length ≤
      ((items.flatMap fun a => chunkText (gap a) (body a)) ++ tail).length := by
    rw [List.length_append]
    exact (chunks_length gap body items).trans (Nat.le_add_right _ _)
  have hfrom := parseFrom_chunks htail items [] _ hlen hitems rfl
  rw [List.length_nil, List.nil_append] at hfrom
  unfold parse
  rw [hfrom]
  cases items.mapM call with
  | error e => rfl
  | ok calls => rfl

/-- The blocks of a text lead on to those behind. -/
theorem blocksFrom_chunks (rest : List Char) {b : Block} :
    ∀ (items : List α) (pre : List Char) (fuel : Nat),
      (∀ a ∈ items, SkipsTo toolOpen (gap a) ∧ SkipsTo toolClose (body a)) →
      text = pre ++ (items.flatMap fun a => chunkText (gap a) (body a)) ++ rest →
      b ∈ blocksFrom text fuel
          (pre ++ items.flatMap fun a => chunkText (gap a) (body a)).length →
        b ∈ blocksFrom text (items.length + fuel) pre.length
  | [], pre, fuel, _, _, hb => by
      rw [List.flatMap_nil, List.append_nil] at hb
      rw [List.length_nil, Nat.zero_add]
      exact hb
  | a :: items, pre, fuel, hitems, htext, hb => by
      obtain ⟨ha, hrest⟩ := List.forall_mem_cons.mp hitems
      have hsplit : text = pre ++ chunkText (gap a) (body a) ++
          ((items.flatMap fun a => chunkText (gap a) (body a)) ++ rest) := by
        rw [htext]
        simp only [List.flatMap_cons, List.append_assoc]
      obtain ⟨b₀, hb₀, -, hstop, -⟩ := nextBlock_chunk ha.1 ha.2 hsplit
      have hnext := blocksFrom_chunks rest items (pre ++ chunkText (gap a) (body a)) fuel hrest
        (hsplit.trans (by simp only [List.append_assoc]))
        (by
          rw [List.flatMap_cons, ← List.append_assoc] at hb
          exact hb)
      rw [List.length_cons, show items.length + 1 + fuel = items.length + fuel + 1 by omega]
      unfold blocksFrom
      rw [hb₀]
      simp only [hstop]
      exact List.mem_cons_of_mem _ hnext

end Chunks

end RolloutProxy.ToolParser
