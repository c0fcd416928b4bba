/-
  File:      RolloutProxy/ToolParser/Extraction.lean
  Subject:   WHAT `BaseToolParser.parse` TAKES OUT OF A TEXT, for every block parser that returns:
             intervals of the text from an opener to its close, and nothing else.

  * The blocks the loop visits do not depend on the parser (`blocks`), and a visited block is kept
    or taken as a whole, from its own opener or from the one inside it (`taken`).
  * The loop over any monad (`parseIn`) is the loop of the model; run in the monad that records the
    bodies it hands to the parser, it counts them.
-/
import RolloutProxy.ToolParser.Blocks
import RolloutProxy.Reasoning.Front
import Mathlib.Data.List.Perm.Subperm

namespace RolloutProxy.ToolParser

open Reasoning

/-! ## 1. The loop over a monad -/

section Generic

variable {m : Type → Type} [Monad m] (parseBlock : List Char → m (Option (List ParsedCall)))
  (text : List Char)

def parseRetryingIn (b : Block) : m (Block × Option (List ParsedCall)) := do
  match ← parseBlock (b.body text) with
  | some [] =>
    match b.inner text with
    | some i => return (i, ← parseBlock (i.body text))
    | none => return (b, some [])
  | r => return (b, r)

def parseFromIn : Nat → Nat → Nat → m (List Char × List ParsedCall)
  | 0, last, _ => return (text.drop last, [])
  | fuel + 1, last, pos =>
    match nextBlock text pos with
    | none => return (text.drop last, [])
    | some b => do
      let r ← parseRetryingIn parseBlock text b
      let stop := r.1.stop + toolClose.length
      match r.2 with
      | some (call :: calls) =>
        let rest ← parseFromIn fuel stop stop
        return (region text last r.1.start ++ rest.1, call :: calls ++ rest.2)
      | _ => parseFromIn fuel last stop

/-- `BaseToolParser.parse` with a block parser that has the effects of `m`. -/
def parseIn : m (List Char × List ParsedCall) := do
  let r ← parseFromIn parseBlock text text.length 0 0
  return (stripChars r.1, r.2)

end Generic

/-- With exceptions it is the loop of the model. -/
theorem parseIn_except (parseBlock : BlockParser) (text : List Char) :
    parseIn parseBlock text = parse parseBlock text := by
  have hfrom : ∀ fuel last pos, parseFromIn parseBlock text fuel last pos =
      parseFrom parseBlock text fuel last pos := by
    intro fuel
    induction fuel with
    | zero => intro last pos; rfl
    | succ fuel ih =>
        intro last pos
        unfold parseFromIn parseFrom
        cases nextBlock text pos with
        | none => rfl
        | some b =>
            simp only [ih]
            rfl
  unfold parseIn parse
  rw [hfrom]

/-! ## 2. What a block parser without effects makes of a block -/

section Pure

variable (parseBlock : List Char → Option (List ParsedCall)) (text : List Char)

/-- The block that was parsed last, and what it held. -/
def retried (b : Block) : Block × Option (List ParsedCall) :=
  match parseBlock (b.body text), b.inner text with
  | some [], some i => (i, parseBlock (i.body text))
  | r, _ => (b, r)

/-- The bodies handed to the parser for one block. -/
def attempts (b : Block) : List (List Char) :=
  match parseBlock (b.body text), b.inner text with
  | some [], some i => [b.body text, i.body text]
  | _, _ => [b.body text]

/-- The block that is taken out, where it held calls. -/
def takenBlock (b : Block) : Option Block :=
  match (retried parseBlock text b).2 with
  | some (_ :: _) => some (retried parseBlock text b).1
  | _ => none

/-- The calls of a block. -/
def callsOf (b : Block) : List ParsedCall := (parseBlock (b.body text)).getD []

/-- A text without the blocks of a list, from position `pos` on. -/
def without : Nat → List Block → List Char
  | pos, [] => text.drop pos
  | pos, b :: rest => region text pos b.start ++ without (b.stop + toolClose.length) rest

/-- A parser that records the bodies it is given. -/
def recorded (block : List Char) : StateM (List (List Char)) (Option (List ParsedCall)) :=
  fun log => (parseBlock block, log ++ [block])

variable {parseBlock text}

theorem parseRetrying_pure (b : Block) : parseRetrying (fun block => .ok (parseBlock block)) text b =
    .ok (retried parseBlock text b) := by
  unfold parseRetrying retried
  rw [ok_bind]
  rcases parseBlock (b.body text) with _ | (_ | ⟨call, calls⟩)
  · rfl
  · cases b.inner text <;> rfl
  · rfl

/-- The steps of a program with a state, one after the other. -/
theorem stateM_bind {σ α β : Type} (x : StateM σ α) (f : α → StateM σ β) (s : σ) :
    (x >>= f) s = f (x s).1 (x s).2 := rfl

theorem stateM_pure {σ α : Type} (a : α) (s : σ) : (pure a : StateM σ α) s = (a, s) := rfl

theorem parseRetrying_recorded (b : Block) (log : List (List Char)) :
    parseRetryingIn (recorded parseBlock) text b log =
      (retried parseBlock text b, log ++ attempts parseBlock text b) := by
  unfold parseRetryingIn retried attempts
  rw [stateM_bind]
  simp only [recorded]
  rcases parseBlock (b.body text) with _ | (_ | ⟨call, calls⟩)
  · rfl
  · cases b.inner text with
    | none => rfl
    | some i =>
        refine Prod.ext rfl ?_
        show log ++ [b.body text] ++ [i.body text] = log ++ [b.body text, i.body text]
        rw [List.append_assoc]
        rfl
  · rfl

/-- What was parsed last is what the taken block holds. -/
theorem retried_calls (b : Block) :
    (retried parseBlock text b).2 = parseBlock ((retried parseBlock text b).1.body text) := by
  unfold retried
  split <;> rfl

/-- A taken block holds calls, and ends with the block it was visited as. -/
theorem takenBlock_some {b b' : Block} (h : takenBlock parseBlock text b = some b') :
    (b' = b ∨ b.inner text = some b') ∧
      ∃ call calls, parseBlock (b'.body text) = some (call :: calls) := by
  unfold takenBlock at h
  split at h
  · next call calls hc =>
    cases h
    refine ⟨parseRetrying_block (parseRetrying_pure b), call, calls, ?_⟩
    exact (retried_calls b).symm.trans hc
  · cases h

/-! ## 3. The run -/

/-- The blocks that are taken out, in order. -/
def takenFrom (parseBlock : List Char → Option (List ParsedCall)) (text : List Char)
    (fuel pos : Nat) : List Block :=
  (blocksFrom text fuel pos).filterMap (takenBlock parseBlock text)

/-- One visited block, kept or taken. -/
theorem takenFrom_step {fuel pos : Nat} {b : Block} (hb : nextBlock text pos = some b) :
    takenFrom parseBlock text (fuel + 1) pos =
      (takenBlock parseBlock text b).toList ++
        takenFrom parseBlock text fuel (b.stop + toolClose.length) := by
  unfold takenFrom
  rw [blocksFrom, hb]
  simp only [List.filterMap_cons]
  cases takenBlock parseBlock text b <;> rfl

theorem retried_stop (b : Block) : (retried parseBlock text b).1.stop = b.stop :=
  parseRetrying_stop (parseRetrying_pure b)

/-- **The loop conserves the text**: it takes the blocks that hold calls, and keeps what is around
    them. -/
theorem parseFrom_pure : ∀ (fuel last pos : Nat),
    parseFrom (fun block => .ok (parseBlock block)) text fuel last pos =
      .ok (without text last (takenFrom parseBlock text fuel pos),
        (takenFrom parseBlock text fuel pos).flatMap (callsOf parseBlock text))
  | 0, last, pos => rfl
  | fuel + 1, last, pos => by
      unfold parseFrom
      cases hb : nextBlock text pos with
      | none =>
          unfold takenFrom blocksFrom
          rw [hb]
          rfl
      | some b =>
          have hstop : (retried parseBlock text b).1.stop = b.stop := retried_stop b
          have hcalls : (retried parseBlock text b).2 =
              parseBlock ((retried parseBlock text b).1.body text) := retried_calls b
          rw [takenFrom_step hb]
          simp only [parseRetrying_pure, ok_bind, hstop]
          unfold takenBlock
          rcases hr : (retried parseBlock text b).2 with _ | (_ | ⟨call, calls⟩)
          · exact parseFrom_pure fuel last _
          · exact parseFrom_pure fuel last _
          · have hof : callsOf parseBlock text (retried parseBlock text b).1 = call :: calls := by
              unfold callsOf
              rw [← hcalls, hr]
              rfl
            simp only [parseFrom_pure fuel, ok_bind, Option.toList_some, List.singleton_append,
              List.flatMap_cons, hof, without, hstop]
            rfl

/-- The bodies it hands to the block parser are the attempts on the blocks it visits. -/
theorem parseFrom_recorded : ∀ (fuel last pos : Nat) (log : List (List Char)),
    parseFromIn (recorded parseBlock) text fuel last pos log =
      ((without text last (takenFrom parseBlock text fuel pos),
        (takenFrom parseBlock text fuel pos).flatMap (callsOf parseBlock text)),
        log ++ (blocksFrom text fuel pos).flatMap (attempts parseBlock text))
  | 0, last, pos, log => by simp [parseFromIn, takenFrom, blocksFrom, without, stateM_pure]
  | fuel + 1, last, pos, log => by
      unfold parseFromIn
      cases hb : nextBlock text pos with
      | none =>
          unfold takenFrom blocksFrom
          simp [hb, without, stateM_pure]
      | some b =>
          have hstop : (retried parseBlock text b).1.stop = b.stop := retried_stop b
          have hcalls : (retried parseBlock text b).2 =
              parseBlock ((retried parseBlock text b).1.body text) := retried_calls b
          have hlog : (blocksFrom text (fuel + 1) pos).flatMap (attempts parseBlock text) =
              attempts parseBlock text b ++
                (blocksFrom text fuel (b.stop + toolClose.length)).flatMap
                  (attempts parseBlock text) := by
            rw [blocksFrom, hb]
            exact List.flatMap_cons
          rw [takenFrom_step hb, hlog]
          simp only [stateM_bind, parseRetrying_recorded, hstop, ← List.append_assoc]
          unfold takenBlock
          rcases hr : (retried parseBlock text b).2 with _ | (_ | ⟨call, calls⟩)
          · exact parseFrom_recorded fuel last _ _
          · exact parseFrom_recorded fuel last _ _
          · have hof : callsOf parseBlock text (retried parseBlock text b).1 = call :: calls := by
              unfold callsOf
              rw [← hcalls, hr]
              rfl
            simp only [stateM_bind, parseFrom_recorded fuel, stateM_pure, Option.toList_some,
              List.singleton_append, List.flatMap_cons, hof, without, hstop]

/-! ## 4. The intervals -/

/-- An interval of the text from an opener to the first close behind it. -/
structure Block.Interval (text : List Char) (b : Block) : Prop where
  opener : toolOpen <+: text.drop b.start
  body : b.bodyStart = b.start + toolOpen.length
  close : find toolClose text b.start = some b.stop

/-- No close starts inside an opener. -/
theorem find_close {i stop : Nat} (hopen : toolOpen <+: text.drop i)
    (h : find toolClose text (i + toolOpen.length) = some stop) :
    find toolClose text i = some stop := by
  obtain ⟨hle, hat, hfirst⟩ := find_some h
  refine find_eq (by decide) ((Nat.le_add_right _ _).trans hle) hat fun k hk hlt hp => ?_
  rcases Nat.lt_or_ge k (i + toolOpen.length) with hin | hge
  · obtain ⟨rest, hrest⟩ := hopen
    rw [show k = i + (k - i) by omega, ← List.drop_drop, ← hrest] at hp
    have hskip : Skips toolClose toolOpen :=
      .tag rfl (by decide) fun rest => by simp [toolClose, toolOpen]
    exact hskip rest _ (by omega) hp
  · exact hfirst k hge hlt hp

theorem nextBlock_interval {pos : Nat} {b : Block} (h : nextBlock text pos = some b) :
    b.Interval text := by
  unfold nextBlock at h
  split at h
  · cases h
  · next start hstart =>
    split at h
    · cases h
    · next stop hstop =>
      cases h
      have hopen := (find_some hstart).2.1
      exact ⟨hopen, rfl, find_close hopen hstop⟩

/-- The block of an inner opener ends at the same close, the first one behind it. -/
theorem inner_interval {b i : Block} (hb : b.Interval text) (h : b.inner text = some i) :
    i.Interval text := by
  obtain ⟨hstop, hlow, -⟩ := inner_stop h
  unfold Block.inner at h
  obtain ⟨j, hj, rfl⟩ := Option.map_eq_some_iff.mp h
  obtain ⟨hle, hlt, hat⟩ := rfind_some hj
  have hopen : toolOpen <+: text.drop j := hat.trans (drop_le_drop (List.take_prefix _ _) _)
  obtain ⟨-, hclose, hfirst⟩ := find_some hb.close
  have hbody := hb.body
  refine ⟨hopen, rfl, find_eq (by decide) (by simp only at hlow ⊢; omega) hclose fun k hk hlt => ?_⟩
  exact hfirst k (by simp only at hlow hk; omega) hlt

theorem blocksFrom_interval : ∀ {fuel pos : Nat} {b : Block}, b ∈ blocksFrom text fuel pos →
    pos ≤ b.start ∧ b.Interval text
  | 0, _, _, hb => by cases hb
  | fuel + 1, pos, b, hb => by
      unfold blocksFrom at hb
      split at hb
      · cases hb
      · next b₀ hb₀ =>
        obtain ⟨hpos, hbody, hstop, -, -⟩ := nextBlock_some hb₀
        rcases List.mem_cons.mp hb with rfl | hb
        · exact ⟨hpos, nextBlock_interval hb₀⟩
        · obtain ⟨hle, hint⟩ := blocksFrom_interval hb
          exact ⟨by omega, hint⟩

/-- The visited blocks follow one another. -/
theorem blocksFrom_pairwise : ∀ (fuel pos : Nat),
    (blocksFrom text fuel pos).Pairwise fun a b => a.stop + toolClose.length ≤ b.start
  | 0, _ => List.Pairwise.nil
  | fuel + 1, pos => by
      unfold blocksFrom
      split
      · exact List.Pairwise.nil
      · exact List.Pairwise.cons (fun b hb => (blocksFrom_interval hb).1) (blocksFrom_pairwise fuel _)

theorem Block.Interval.le {b : Block} (h : b.Interval text) :
    b.bodyStart ≤ b.stop ∧ b.stop + toolClose.length ≤ text.length := by
  obtain ⟨hle, hat, -⟩ := find_some h.close
  refine ⟨?_, length_le_of_at (by decide) hat⟩
  rw [h.body]
  by_contra hlt
  obtain ⟨rest, hrest⟩ := h.opener
  rw [show b.stop = b.start + (b.stop - b.start) by omega, ← List.drop_drop, ← hrest] at hat
  have hskip : Skips toolClose toolOpen :=
    .tag rfl (by decide) fun rest => by simp [toolClose, toolOpen]
  exact hskip rest _ (by omega) hat

/-- The length of the text is fuel enough: the loop ends by itself. -/
theorem blocksFrom_fuel : ∀ (fuel fuel' pos : Nat), text.length ≤ pos + fuel →
    text.length ≤ pos + fuel' → blocksFrom text fuel pos = blocksFrom text fuel' pos := by
  have hend : ∀ {pos : Nat} {b : Block}, text.length ≤ pos → nextBlock text pos ≠ some b := by
    intro pos b hpos hb
    have hint := nextBlock_interval hb
    have hlow := (nextBlock_some hb).1
    have hle := hint.le
    have hbody := hint.body
    have htool : toolClose.length = 12 := rfl
    omega
  intro fuel
  induction fuel with
  | zero =>
      intro fuel' pos h _
      cases fuel' with
      | zero => rfl
      | succ fuel' =>
          rw [blocksFrom, blocksFrom]
          cases hb : nextBlock text pos with
          | none => rfl
          | some b => exact absurd hb (hend (by omega))
  | succ fuel ih =>
      intro fuel' pos h h'
      cases fuel' with
      | zero =>
          rw [blocksFrom, blocksFrom]
          cases hb : nextBlock text pos with
          | none => rfl
          | some b => exact absurd hb (hend (by omega))
      | succ fuel' =>
          rw [blocksFrom, blocksFrom]
          cases hb : nextBlock text pos with
          | none => rfl
          | some b =>
              have hlow := (nextBlock_some hb).1
              have hle := (nextBlock_interval hb).le
              have hbody := (nextBlock_interval hb).body
              have htool : toolClose.length = 12 := rfl
              simp only
              rw [ih fuel' (b.stop + toolClose.length) (by omega) (by omega)]

/-- The close markers of a text. -/
def closers (text : List Char) : List Nat :=
  (List.range text.length).filter fun k => toolClose.isPrefixOf (text.drop k)

/-- Every visited block has a close marker of its own. -/
theorem blocks_closers (text : List Char) :
    ((blocks text).map Block.stop).Pairwise (· < ·) ∧ (blocks text).length ≤ (closers text).length := by
  have hincreasing : ((blocks text).map Block.stop).Pairwise (· < ·) := by
    rw [List.pairwise_map]
    refine (blocksFrom_pairwise text.length 0).imp_of_mem fun _ hb hab => ?_
    have hle := (blocksFrom_interval hb).2.le
    have hbody := (blocksFrom_interval hb).2.body
    have htool : toolClose.length = 12 := rfl
    omega
  refine ⟨hincreasing, ?_⟩
  have hsub : (blocks text).map Block.stop ⊆ closers text := by
    intro k hk
    obtain ⟨b, hb, rfl⟩ := List.mem_map.mp hk
    have hint := (blocksFrom_interval hb).2
    obtain ⟨-, hat, -⟩ := find_some hint.close
    have hle := hint.le
    have htool : toolClose.length = 12 := rfl
    exact List.mem_filter.mpr ⟨List.mem_range.mpr (by omega), List.isPrefixOf_iff_prefix.mpr hat⟩
  have hnodup : ((blocks text).map Block.stop).Nodup := hincreasing.imp fun h => Nat.ne_of_lt h
  have hlen := (List.subperm_of_subset hnodup hsub).length_le
  rwa [List.length_map] at hlen

/-- A block costs one attempt, and a second one only where the first found nothing. -/
theorem attempts_length (parseBlock : List Char → Option (List ParsedCall)) (text : List Char)
    (b : Block) :
    (attempts parseBlock text b).length ≤ 2 ∧
      (1 < (attempts parseBlock text b).length → parseBlock (b.body text) = some []) := by
  unfold attempts
  split
  · next h _ => exact ⟨le_rfl, fun _ => h⟩
  · exact ⟨Nat.le_succ 1, fun h => absurd h (Nat.lt_irrefl 1)⟩

/-- What `parse` takes out of a text. -/
def taken (parseBlock : List Char → Option (List ParsedCall)) (text : List Char) : List Block :=
  takenFrom parseBlock text text.length 0

theorem taken_interval {parseBlock : List Char → Option (List ParsedCall)} {b : Block}
    (h : b ∈ taken parseBlock text) :
    b.Interval text ∧ ∃ call calls, parseBlock (b.body text) = some (call :: calls) := by
  obtain ⟨b₀, hb₀, hb⟩ := List.mem_filterMap.mp h
  obtain ⟨hwhich, hcalls⟩ := takenBlock_some hb
  have hint := (blocksFrom_interval hb₀).2
  refine ⟨?_, hcalls⟩
  rcases hwhich with rfl | hi
  · exact hint
  · exact inner_interval hint hi

theorem taken_pairwise (parseBlock : List Char → Option (List ParsedCall)) (text : List Char) :
    (taken parseBlock text).Pairwise fun a b => a.stop + toolClose.length ≤ b.start := by
  -- what is taken lies in the block that was visited
  have hwithin : ∀ {c c' : Block}, c ∈ blocksFrom text text.length 0 →
      takenBlock parseBlock text c = some c' → c'.stop = c.stop ∧ c.start ≤ c'.start := by
    intro c c' hc h
    rcases (takenBlock_some h).1 with rfl | hi
    · exact ⟨rfl, le_rfl⟩
    · obtain ⟨hstop, hlow, -⟩ := inner_stop hi
      have hbody := (blocksFrom_interval hc).2.body
      exact ⟨hstop, by omega⟩
  refine List.pairwise_filterMap.mpr ((blocksFrom_pairwise text.length 0).imp_of_mem ?_)
  intro a b hma hmb hab a' ha b' hb
  have ha' := (hwithin hma ha).1
  have hb' := (hwithin hmb hb).2
  omega

/-- **Block extraction conserves the text and does bounded work.** -/
theorem parse_conserves (parseBlock : List Char → Option (List ParsedCall)) (text : List Char) :
    (taken parseBlock text).Pairwise (fun a b => a.stop + toolClose.length ≤ b.start) ∧
    (∀ b ∈ taken parseBlock text, b.Interval text ∧
      ∃ call calls, parseBlock (b.body text) = some (call :: calls)) ∧
    parse (fun block => .ok (parseBlock block)) text =
      .ok (stripChars (without text 0 (taken parseBlock text)),
        (taken parseBlock text).flatMap (callsOf parseBlock text)) ∧
    (∀ more, parseFrom (fun block => .ok (parseBlock block)) text (text.length + more) 0 0 =
      parseFrom (fun block => .ok (parseBlock block)) text text.length 0 0) ∧
    parseIn (recorded parseBlock) text [] =
      ((stripChars (without text 0 (taken parseBlock text)),
        (taken parseBlock text).flatMap (callsOf parseBlock text)),
        (blocks text).flatMap (attempts parseBlock text)) ∧
    ((blocks text).map Block.stop).Pairwise (· < ·) ∧
    (∀ b ∈ blocks text, b.Interval text ∧ (attempts parseBlock text b).length ≤ 2 ∧
      (1 < (attempts parseBlock text b).length → parseBlock (b.body text) = some [])) ∧
    ((blocks text).flatMap (attempts parseBlock text)).length ≤ 2 * (closers text).length := by
  obtain ⟨hincreasing, hcount⟩ := blocks_closers text
  refine ⟨taken_pairwise parseBlock text, fun b hb => taken_interval hb, ?_, fun more => ?_, ?_,
    hincreasing, fun b hb => ⟨(blocksFrom_interval hb).2, attempts_length parseBlock text b⟩, ?_⟩
  · unfold parse
    rw [parseFrom_pure]
    rfl
  · rw [parseFrom_pure, parseFrom_pure]
    unfold takenFrom
    rw [blocksFrom_fuel (text.length + more) text.length 0 (by omega) (by omega)]
  · unfold parseIn
    rw [stateM_bind, parseFrom_recorded, List.nil_append]
    rfl
  · have hbound : ∀ l : List Block, (l.flatMap (attempts parseBlock text)).length ≤ 2 * l.length := by
      intro l
      induction l with
      | nil => exact le_rfl
      | cons b l ih =>
          have hb := (attempts_length parseBlock text b).1
          rw [List.flatMap_cons, List.length_append, List.length_cons]
          omega
    exact (hbound (blocks text)).trans (Nat.mul_le_mul_left 2 hcount)

end Pure

end RolloutProxy.ToolParser
