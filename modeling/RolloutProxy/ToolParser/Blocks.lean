/-
  File:      RolloutProxy/ToolParser/Blocks.lean
  Subject:   THE BLOCKS OF A TEXT, whatever a dialect makes of them: `parse` visits the same blocks
             whichever of them hold calls (`blocks`).

  * `parse_returns`: it returns where every visited block can be parsed;
  * `parse_visible`: a block without a call stays in the content as it was sampled.
-/
import RolloutProxy.ToolParser.Dialects

namespace RolloutProxy.ToolParser

open Reasoning (region region_split drop_split)

/-! ## 1. Cut texts -/

/-- What starts and ends with a character that is no whitespace survives `strip`. -/
theorem infix_stripChars {x l : List Char} (hne : x ≠ []) (hhead : isSpace (x.head hne) = false)
    (hlast : isSpace (x.getLast hne) = false) (h : x <:+: l) : x <:+: stripChars l := by
  have hdrop : ∀ {y k : List Char} (hy : y ≠ []), isSpace (y.head hy) = false → y <:+: k →
      y <:+: k.dropWhile isSpace := by
    intro y k hy hh hi
    induction k with
    | nil => exact hi
    | cons c k ih =>
        rw [List.dropWhile_cons]
        split
        · next hc =>
          refine ih ?_
          rcases List.infix_cons_iff.mp hi with hp | hs
          · obtain ⟨c', y', rfl⟩ := List.exists_cons_of_ne_nil hy
            have hcc : c' = c := (List.cons_prefix_cons.mp hp).1
            rw [List.head_cons, hcc, hc] at hh
            cases hh
          · exact hs
        · exact hi
  unfold stripChars
  rw [← List.reverse_infix, List.reverse_reverse]
  refine hdrop (by simpa using hne) (by rw [List.head_reverse]; exact hlast) ?_
  rw [List.reverse_infix]
  exact hdrop hne hhead h

/-! ## 2. Blocks -/

/-- The blocks `parse` visits from a position on. -/
def blocksFrom (text : List Char) : Nat → Nat → List Block
  | 0, _ => []
  | fuel + 1, pos =>
    match nextBlock text pos with
    | none => []
    | some b => b :: blocksFrom text fuel (b.stop + Reasoning.toolClose.length)

/-- The blocks of a text. -/
def blocks (text : List Char) : List Block := blocksFrom text text.length 0

/-- A block with its markers. -/
def Block.markup (text : List Char) (b : Block) : List Char :=
  region text b.start (b.stop + Reasoning.toolClose.length)

/-- A block lies in the text: opener, body, closer. -/
theorem nextBlock_some {text : List Char} {pos : Nat} {b : Block}
    (h : nextBlock text pos = some b) :
    pos ≤ b.start ∧ b.bodyStart = b.start + Reasoning.toolOpen.length ∧ b.bodyStart ≤ b.stop ∧
      Reasoning.toolOpen <+: text.drop b.start ∧ Reasoning.toolClose <+: text.drop b.stop := by
  unfold nextBlock at h
  split at h
  · cases h
  · next start hstart =>
    split at h
    · cases h
    · next stop hstop =>
      cases h
      obtain ⟨h₁, h₂, -⟩ := find_some hstart
      obtain ⟨h₃, h₄, -⟩ := find_some hstop
      exact ⟨h₁, rfl, h₃, h₂, h₄⟩

variable {parseBlock : BlockParser} {text : List Char}

/-- The block that is parsed is the outer one or the one inside. -/
theorem parseRetrying_block {b b' : Block} {calls : Option (List ParsedCall)}
    (h : parseRetrying parseBlock text b = .ok (b', calls)) : b' = b ∨ b.inner text = some b' := by
  unfold parseRetrying at h
  obtain ⟨r, -, h⟩ := bind_ok h
  split at h
  · split at h
    · next i hi =>
      obtain ⟨r', -, h⟩ := bind_ok h
      cases h
      exact .inr hi
    · cases h
      exact .inl rfl
  · cases h
    exact .inl rfl

theorem inner_stop {b i : Block} (h : b.inner text = some i) :
    i.stop = b.stop ∧ b.bodyStart ≤ i.start ∧ i.start < b.stop := by
  unfold Block.inner at h
  obtain ⟨j, hj, rfl⟩ := Option.map_eq_some_iff.mp h
  obtain ⟨hle, hlt, -⟩ := rfind_some hj
  exact ⟨rfl, hle, hlt⟩

theorem parseRetrying_stop {b b' : Block} {calls : Option (List ParsedCall)}
    (h : parseRetrying parseBlock text b = .ok (b', calls)) : b'.stop = b.stop := by
  rcases parseRetrying_block h with rfl | hi
  · rfl
  · exact (inner_stop hi).1

/-! ## 3. When `parse` returns -/

theorem parseFrom_returns : ∀ (fuel last pos : Nat),
    Returns (parseFrom parseBlock text fuel last pos) ↔
      ∀ b ∈ blocksFrom text fuel pos, Returns (parseRetrying parseBlock text b)
  | 0, last, pos => by simp [parseFrom, blocksFrom]
  | fuel + 1, last, pos => by
      unfold parseFrom blocksFrom
      cases hb : nextBlock text pos with
      | none => simp
      | some b =>
        rw [List.forall_mem_cons]
        refine returns_bind_and fun r hr => ?_
        -- both ways of going on visit the same blocks
        rw [← parseRetrying_stop hr]
        split
        · rw [returns_bind_left fun _ => returns_pure _]
          exact parseFrom_returns fuel _ _
        · exact parseFrom_returns fuel _ _

/-- **`parse` returns where every block can be parsed.** -/
theorem parse_returns : Returns (parse parseBlock text) ↔
    ∀ b ∈ blocks text, Returns (parseRetrying parseBlock text b) := by
  unfold parse
  rw [returns_bind_left fun _ => returns_pure _]
  exact parseFrom_returns _ _ _

/-- A block can be parsed where its body can, and the inner one where it is tried. -/
theorem parseRetrying_returns {b : Block} : Returns (parseRetrying parseBlock text b) ↔
    Returns (parseBlock (b.body text)) ∧
      (parseBlock (b.body text) = .ok (some []) → ∀ i, b.inner text = some i →
        Returns (parseBlock (i.body text))) := by
  unfold parseRetrying
  rw [returns_bind]
  constructor
  · rintro ⟨r, hr, hrest⟩
    refine ⟨⟨r, hr⟩, fun he i hi => ?_⟩
    rw [hr] at he
    cases he
    simp only [hi] at hrest
    exact (returns_bind_left fun _ => returns_pure _).mp hrest
  · rintro ⟨⟨r, hr⟩, hrest⟩
    refine ⟨r, hr, ?_⟩
    split
    · split
      · next i hi => exact (returns_bind_left fun _ => returns_pure _).mpr (hrest hr i hi)
      · exact returns_pure _
    · exact returns_pure _

/-! ## 4. What stays visible -/

/-- What lies between the last consumed block and the cursor leads the content. -/
theorem parseFrom_leads : ∀ {fuel last pos : Nat} {r : List Char × List ParsedCall}, last ≤ pos →
    parseFrom parseBlock text fuel last pos = .ok r → region text last pos <+: r.1
  | 0, last, pos, r, hle, h => by
      cases h
      rw [drop_split hle]
      exact List.prefix_append _ _
  | fuel + 1, last, pos, r, hle, h => by
      unfold parseFrom at h
      split at h
      · cases h
        rw [drop_split hle]
        exact List.prefix_append _ _
      · next b hb =>
        obtain ⟨hpos, hbody, hstop, -, -⟩ := nextBlock_some hb
        obtain ⟨⟨b', calls⟩, hr, h⟩ := bind_ok h
        have hend := parseRetrying_stop hr
        split at h
        · obtain ⟨rest, -, h⟩ := bind_ok h
          cases h
          have hstart : pos ≤ b'.start := by
            rcases parseRetrying_block hr with rfl | hi
            · exact hpos
            · have := (inner_stop hi).2.1
              omega
          simp only
          rw [region_split hle hstart, List.append_assoc]
          exact List.prefix_append _ _
        · have hnext := parseFrom_leads (by simp only [hend]; omega) h
          rw [region_split hle (show pos ≤ b'.stop + Reasoning.toolClose.length by omega)] at hnext
          exact (List.prefix_append _ _).trans hnext

/-- The block held no call. -/
def Block.Empty (parseBlock : BlockParser) (text : List Char) (b : Block) : Prop :=
  ∃ b', parseRetrying parseBlock text b = .ok (b', none) ∨
    parseRetrying parseBlock text b = .ok (b', some [])

theorem parseFrom_visible : ∀ {fuel last pos : Nat} {r : List Char × List ParsedCall} {b : Block},
    last ≤ pos → parseFrom parseBlock text fuel last pos = .ok r → b ∈ blocksFrom text fuel pos →
      b.Empty parseBlock text → b.markup text <:+: r.1
  | 0, _, _, _, _, _, _, hb, _ => by cases hb
  | fuel + 1, last, pos, r, b, hle, h, hb, hempty => by
      unfold parseFrom at h
      unfold blocksFrom at hb
      split at h
      · next hn =>
        rw [hn] at hb
        cases hb
      · next b₀ hb₀ =>
        rw [hb₀] at hb
        obtain ⟨hpos, hbody, hstop, -, -⟩ := nextBlock_some hb₀
        obtain ⟨⟨b', calls⟩, hr, h⟩ := bind_ok h
        have hend := parseRetrying_stop hr
        simp only [hend] at h
        rcases List.mem_cons.mp hb with rfl | hb
        · -- the block itself: nothing of it is consumed
          have hnot : ∀ call rest, calls ≠ some (call :: rest) := by
            rintro call rest rfl
            obtain ⟨b'', he | he⟩ := hempty <;> rw [hr] at he <;> cases he
          have hnext : parseFrom parseBlock text fuel last
              (b.stop + Reasoning.toolClose.length) = .ok r := by
            cases calls with
            | none => exact h
            | some l =>
                cases l with
                | nil => exact h
                | cons call rest => exact absurd rfl (hnot call rest)
          have hlead := parseFrom_leads (by omega) hnext
          rw [region_split (show last ≤ b.start by omega)
            (show b.start ≤ b.stop + Reasoning.toolClose.length by omega)] at hlead
          exact (List.suffix_append _ _).isInfix.trans hlead.isInfix
        · split at h
          · obtain ⟨rest, hrest, h⟩ := bind_ok h
            cases h
            exact (parseFrom_visible le_rfl hrest hb hempty).trans
              (List.suffix_append _ _).isInfix
          · exact parseFrom_visible (by omega) h hb hempty

/-- A block of a list stands in the text. -/
theorem blocksFrom_stand : ∀ {fuel pos : Nat} {b : Block}, b ∈ blocksFrom text fuel pos →
    b.bodyStart = b.start + Reasoning.toolOpen.length ∧ b.bodyStart ≤ b.stop ∧
      Reasoning.toolOpen <+: text.drop b.start ∧ Reasoning.toolClose <+: text.drop b.stop
  | 0, _, _, hb => by cases hb
  | fuel + 1, pos, b, hb => by
      unfold blocksFrom at hb
      split at hb
      · cases hb
      · next b₀ hb₀ =>
        rcases List.mem_cons.mp hb with rfl | hb
        · exact (nextBlock_some hb₀).2
        · exact blocksFrom_stand hb

/-- A block starts and ends with its markers. -/
theorem markup_eq {b : Block} (hle : b.start + Reasoning.toolOpen.length ≤ b.stop)
    (hopen : Reasoning.toolOpen <+: text.drop b.start)
    (hclose : Reasoning.toolClose <+: text.drop b.stop) :
    b.markup text = Reasoning.toolOpen ++ region text (b.start + Reasoning.toolOpen.length) b.stop ++
      Reasoning.toolClose := by
  have hat : ∀ {pat : List Char} {i : Nat}, pat <+: text.drop i →
      region text i (i + pat.length) = pat := by
    intro pat i hp
    unfold region
    rw [List.drop_take, Nat.add_sub_cancel_left]
    exact (List.prefix_iff_eq_take.mp hp).symm
  unfold Block.markup
  rw [region_split (show b.start ≤ b.stop by omega) (Nat.le_add_right _ _), hat hclose,
    region_split (Nat.le_add_right _ _) hle, hat hopen]

/-- **A block without a call stays visible** as it was sampled. -/
theorem parse_visible {r : List Char × List ParsedCall} {b : Block}
    (h : parse parseBlock text = .ok r) (hb : b ∈ blocks text) (hempty : b.Empty parseBlock text) :
    b.markup text <:+: r.1 := by
  unfold parse at h
  obtain ⟨raw, hraw, h⟩ := bind_ok h
  cases h
  have hin := parseFrom_visible le_rfl hraw hb hempty
  obtain ⟨hbody, hle, hopen, hclose⟩ := blocksFrom_stand hb
  have heq := markup_eq (by omega) hopen hclose
  have hne : b.markup text ≠ [] := by
    rw [heq]
    exact List.append_ne_nil_of_right_ne_nil _ (by decide)
  refine infix_stripChars hne ?_ ?_ hin
  · have hhead : (b.markup text).head? = some '<' := by rw [heq]; rfl
    rw [(List.head_eq_iff_head?_eq_some hne).mpr hhead]
    decide
  · have hlast : (b.markup text).getLast? = some '>' := by
      rw [heq, List.getLast?_append]
      rfl
    rw [(List.getLast_eq_iff_getLast?_eq_some hne).mpr hlast]
    decide

end RolloutProxy.ToolParser
