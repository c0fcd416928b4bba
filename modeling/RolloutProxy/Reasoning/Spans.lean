/-
  File:      RolloutProxy/Reasoning/Spans.lean
  Subject:   THE SCANNER ON ANY TEXT: it ends, and what it yields is well formed.

  * `reaches_end`: the turns of the loop come to an end, and the markers are those of the run.
  * `quotedSpanEnds_ahead`: every quoted span starts at a delimiter and ends behind it, in the text.
  * `SpansOf`: the spans of reasoning lie in the text, one behind the other.
  * `Cut`: what is left of a text without its spans and newlines directly behind them.
-/
import RolloutProxy.Reasoning.Mentions

namespace RolloutProxy.Reasoning

/-! ## 1. The loop ends -/

section Loop

variable {isAlnum : Char → Bool} {text : List Char} {ends : Dict Nat Nat}

namespace Scan

/-- **The loop ends**: a run to a turn that is none, with the markers of the run. -/
theorem reaches_end : ∀ (fuel : Nat) (s : Scan), text.length ≤ s.pos + fuel →
    ∃ s', Reaches isAlnum text ends s (markersFrom isAlnum text ends fuel s) s' ∧
      s'.step isAlnum text ends = none
  | 0, s, h => by
      refine ⟨s, .here s, ?_⟩
      unfold step
      rw [if_pos (by omega)]
  | fuel + 1, s, h => by
      unfold markersFrom
      cases hs : s.step isAlnum text ends with
      | none => exact ⟨s, .here s, hs⟩
      | some p =>
        have hpos := step_pos hs
        obtain ⟨s', hrun, hend⟩ := reaches_end fuel p.1 (by omega)
        exact ⟨s', .turn hs hrun, hend⟩

/-- A marker is the tag it stands for. -/
theorem step_tag {s s' : Scan} {m : Marker} (h : s.step isAlnum text ends = some (s', some m)) :
    region text m.start m.stop = if m.opens then thinkOpen else thinkClose := by
  unfold step at h
  split at h
  · cases h
  · simp only at h
    split at h
    · split at h <;> cases h
    · next start marker hs =>
      obtain ⟨-, hp, hlim, hlen⟩ := searchToken_stop hs
      have hmarker : region text start (start + marker.length) = marker := by
        have htext : marker <+: text.drop start :=
          hp.trans (drop_le_drop (List.take_prefix _ _) _)
        unfold region
        rw [List.drop_take, Nat.add_sub_cancel_left]
        exact (List.prefix_iff_eq_take.mp htext).symm
      simp only [Option.some.injEq] at h
      rcases onMarker_yields h with ⟨rfl, -, rfl⟩ | ⟨rfl, -, rfl⟩ <;> exact hmarker

theorem markersFrom_tags : ∀ (fuel : Nat) (s : Scan), ∀ m ∈ markersFrom isAlnum text ends fuel s,
    region text m.start m.stop = if m.opens then thinkOpen else thinkClose
  | 0, _, m, hm => by cases hm
  | fuel + 1, s, m, hm => by
      unfold markersFrom at hm
      split at hm
      · cases hm
      · next s' o hs =>
        rcases List.mem_append.mp hm with hm | hm
        · cases o with
          | none => cases hm
          | some m' =>
            rw [Option.toList_some, List.mem_singleton] at hm
            subst hm
            exact step_tag hs
        · exact markersFrom_tags fuel s' m hm

end Scan

/-- Think tags of the text, one behind the other. -/
structure ThinkTags (text : List Char) (ms : List Marker) : Prop where
  bounds : ∀ m ∈ ms, m.start < m.stop ∧ m.stop ≤ text.length
  tag : ∀ m ∈ ms, region text m.start m.stop = if m.opens then thinkOpen else thinkClose
  order : ms.Pairwise fun m m' => m.stop ≤ m'.start

theorem Ordered.bounds {len : Nat} : ∀ {ms : List Marker} {pos : Nat}, Ordered len pos ms →
    (∀ m ∈ ms, m.start < m.stop ∧ m.stop ≤ len) ∧ ms.Pairwise fun m m' => m.stop ≤ m'.start
  | [], _, _ => ⟨nofun, .nil⟩
  | m :: ms, _, ⟨_, h₂, h₃, h₄⟩ => by
      obtain ⟨hall, hpair⟩ := h₄.bounds
      exact ⟨List.forall_mem_cons.mpr ⟨⟨by omega, h₃⟩, hall⟩,
        List.pairwise_cons.mpr ⟨h₄.ahead, hpair⟩⟩

theorem markers_tags (s : Scan) : ThinkTags text (s.markers isAlnum text ends) where
  bounds := (Scan.markers_ordered s).bounds.1
  tag := Scan.markersFrom_tags _ s
  order := (Scan.markers_ordered s).bounds.2

end Loop

/-! ## 2. Quoted spans lie ahead of their delimiters -/

/-- A delimiter starts here: a quote, or the first of a run of backticks or tildes. -/
def StartsDelimiter (text : List Char) (i : Nat) : Prop :=
  ∃ c, text[i]? = some c ∧ (isQuote c = true ∨
    (c = '`' ∨ c = '~') ∧ (i = 0 ∨ text[i - 1]? ≠ some c))

/-- A span from a delimiter to a position behind it. -/
def Delimits (text : List Char) (start stop : Nat) : Prop :=
  StartsDelimiter text start ∧ start < stop ∧ stop ≤ text.length

section Entries

variable {E : Nat → Nat → Prop}

/-- Every entry of the table is of a kind. -/
def Entries (E : Nat → Nat → Prop) (ends : Dict Nat Nat) : Prop :=
  ∀ start stop, ends.get? start = some stop → E start stop

theorem Entries.set {ends : Dict Nat Nat} (h : Entries E ends) {start stop : Nat}
    (he : E start stop) : Entries E (ends.set start stop) := by
  intro s e hs
  rw [Dict.get?_set] at hs
  split at hs
  · next heq =>
    cases hs
    exact heq ▸ he
  · exact h s e hs

theorem Entries.setAll {stop : Nat} : ∀ {starts : List Nat} {ends : Dict Nat Nat},
    Entries E ends → (∀ s ∈ starts, E s stop) → Entries E (setAll ends stop starts)
  | [], _, h, _ => h
  | _ :: _, _, h, hs => (h.set (List.forall_mem_cons.mp hs).1).setAll (List.forall_mem_cons.mp hs).2

theorem Entries.setDefaults {stop : Nat} : ∀ {openers : List Nat} {ends : Dict Nat Nat},
    Entries E ends → (∀ s ∈ openers, E s stop) → Entries E (setDefaults ends stop openers)
  | [], _, h, _ => h
  | o :: openers, ends, h, hs => by
      obtain ⟨ho, hs⟩ := List.forall_mem_cons.mp hs
      have hrest : Entries E (if ends.contains o then ends else ends.set o stop) := by
        split
        · exact h
        · exact h.set ho
      exact hrest.setDefaults hs

/-- A code span goes from a run to a later one. -/
theorem codeSpans_entries : ∀ {runs : List (Nat × Nat)} {ends previous : Dict Nat Nat},
    Entries E ends → (∀ size s, previous.get? size = some s → ∀ p ∈ runs, E s (p.1 + p.2)) →
      runs.Pairwise (fun p q => E p.1 (q.1 + q.2)) → Entries E (codeSpans ends previous runs)
  | [], _, _, h, _, _ => h
  | (start, size) :: rest, ends, previous, h, hprev, hpair => by
      obtain ⟨hfirst, hrest⟩ := List.pairwise_cons.mp hpair
      unfold codeSpans
      refine codeSpans_entries ?_ (fun n s hs p hp => ?_) hrest
      · cases hp : previous.get? size with
        | none => exact h
        | some opener => exact h.set (hprev size opener hp _ List.mem_cons_self)
      · rw [Dict.get?_set] at hs
        split at hs
        · cases hs
          exact hfirst p hp
        · exact hprev n s hs p (List.mem_cons_of_mem _ hp)

/-- A fenced example goes from a fence to a later one. -/
theorem fencedExamples_entries : ∀ {fences : List Fence} {ends : Dict Nat Nat}
    {pending : List (Char × Nat × Nat)}, Entries E ends →
      (∀ c ∈ pending, ∀ f ∈ fences, E c.2.2 (f.start + f.length + f.ownInfo.length)) →
        fences.Pairwise (fun f g => E f.start (g.start + g.length + g.ownInfo.length)) →
          Entries E (fencedExamples ends pending fences)
  | [], _, _, h, _, _ => h
  | f :: rest, ends, pending, h, hpend, hpair => by
      obtain ⟨hfirst, hrest⟩ := List.pairwise_cons.mp hpair
      unfold fencedExamples
      split
      · exact fencedExamples_entries h
          (fun c hc g hg => hpend c hc g (List.mem_cons_of_mem _ hg)) hrest
      · refine fencedExamples_entries ?_ (fun c hc g hg => ?_) hrest
        · split
          · refine h.setAll fun s hs => ?_
            obtain ⟨c, hc, rfl⟩ := List.mem_map.mp hs
            exact hpend c (List.mem_of_mem_filter hc) f List.mem_cons_self
          · exact h
        · rcases List.mem_append.mp hc with hc | hc
          · refine hpend c ?_ g (List.mem_cons_of_mem _ hg)
            split at hc
            · exact List.mem_of_mem_filter hc
            · exact hc
          · rw [List.mem_singleton.mp hc]
            exact hfirst g hg

/-- The openers that wait for a quote. -/
theorem awaitClosers_get (start : Nat) : ∀ (closers : List Char) (pending : Dict Char (List Nat))
    (c : Char) (s : Nat), s ∈ ((awaitClosers pending start closers).get? c).getD [] →
      s = start ∨ s ∈ (pending.get? c).getD []
  | [], _, _, _, h => .inr h
  | d :: closers, pending, c, s, h => by
      rcases awaitClosers_get start closers _ c s h with hs | hs
      · exact .inl hs
      · rw [Dict.get?_set] at hs
        split at hs
        · next he =>
          rcases List.mem_append.mp hs with hs | hs
          · exact .inr (he ▸ hs)
          · exact .inl (List.mem_singleton.mp hs)
        · exact .inr hs

/-- A quotation goes from a quote to a later one. -/
theorem quotations_entries (isAlnum : Char → Bool) {text : List Char} :
    ∀ {quotes : List (Nat × Char)} {ends : Dict Nat Nat} {pending : Dict Char (List Nat)},
      Entries E ends → (∀ c, ∀ s ∈ (pending.get? c).getD [], ∀ q ∈ quotes, E s (q.1 + 1)) →
        quotes.Pairwise (fun p q => E p.1 (q.1 + 1)) →
          Entries E (quotations isAlnum text ends pending quotes)
  | [], _, _, h, _, _ => h
  | (start, quote) :: rest, ends, pending, h, hpend, hpair => by
      obtain ⟨hfirst, hrest⟩ := List.pairwise_cons.mp hpair
      unfold quotations
      split
      · exact quotations_entries isAlnum h
          (fun c s hs q hq => hpend c s hs q (List.mem_cons_of_mem _ hq)) hrest
      · refine quotations_entries isAlnum
          (h.setDefaults fun s hs => hpend quote s hs _ List.mem_cons_self) (fun c s hs q hq => ?_) hrest
        rcases awaitClosers_get start _ _ c s hs with rfl | hs
        · exact hfirst q hq
        · refine hpend c s ?_ q (List.mem_cons_of_mem _ hq)
          rw [Dict.get?_erase] at hs
          split at hs
          · cases hs
          · exact hs

end Entries

section Positions

variable {text : List Char}

/-- The runs of backticks: where they start, and one behind the other. -/
theorem backtickRuns_order : ∀ (l : List Char) (i : Nat) (start : Option Nat), text.drop i = l →
    i ≤ text.length →
    (∀ s, start = some s → s < i ∧ text[s]? = some '`' ∧ (s = 0 ∨ text[s - 1]? ≠ some '`')) →
    (start = none → i = 0 ∨ text[i - 1]? ≠ some '`') →
      (∀ p ∈ backtickRuns i start l, start.getD i ≤ p.1 ∧ StartsDelimiter text p.1 ∧ 0 < p.2 ∧
        p.1 + p.2 ≤ text.length) ∧
      (backtickRuns i start l).Pairwise fun p q => p.1 < q.1
  | [], i, none, _, _, _, _ => ⟨nofun, .nil⟩
  | [], i, some s, _, hi, hs, _ => by
      obtain ⟨hlt, hc, hfresh⟩ := hs s rfl
      refine ⟨fun p hp => ?_, List.pairwise_singleton _ _⟩
      rw [backtickRuns, List.mem_singleton] at hp
      subst hp
      exact ⟨le_rfl, ⟨'`', hc, .inr ⟨.inl rfl, hfresh⟩⟩, by simp only; omega, by simp only; omega⟩
  | c :: l, i, start, hl, hi, hs, hnone => by
      have hdrop : text.drop (i + 1) = l := by
        rw [← List.drop_drop, hl, List.drop_one, List.tail_cons]
      have hget : text[i]? = some c := by
        rw [← List.head?_drop, hl, List.head?_cons]
      have hlt : i + 1 ≤ text.length := (List.getElem?_eq_some_iff.mp hget).1
      -- a run goes on with a backtick, and is yielded in front of anything else
      unfold backtickRuns
      split
      · next hc =>
        subst hc
        have hstart : ∀ s, some (start.getD i) = some s → s < i + 1 ∧ text[s]? = some '`' ∧
            (s = 0 ∨ text[s - 1]? ≠ some '`') := fun s he => by
          cases he
          cases start with
          | none => exact ⟨Nat.lt_succ_self i, hget, hnone rfl⟩
          | some s =>
            obtain ⟨h₁, h₂⟩ := hs s rfl
            exact ⟨Nat.lt_succ_of_lt h₁, h₂⟩
        exact backtickRuns_order l (i + 1) _ hdrop hlt hstart fun hn => by cases hn
      · next hc =>
        have hfresh : i + 1 = 0 ∨ text[i + 1 - 1]? ≠ some '`' := .inr (by
          rw [Nat.add_sub_cancel, hget]
          exact fun he => hc (Option.some.inj he))
        obtain ⟨hall, hpair⟩ :=
          backtickRuns_order l (i + 1) none hdrop hlt (fun _ hn => by cases hn) fun _ => hfresh
        cases start with
        | none =>
          refine ⟨fun p hp => ?_, hpair⟩
          obtain ⟨h₁, h₂⟩ := hall p hp
          exact ⟨(Nat.le_succ i).trans h₁, h₂⟩
        | some s =>
          obtain ⟨hsi, hsc, hsf⟩ := hs s rfl
          refine ⟨List.forall_mem_cons.mpr ⟨⟨le_rfl, ⟨'`', hsc, .inr ⟨.inl rfl, hsf⟩⟩, by
            simp only; omega, by simp only; omega⟩, fun p hp => ?_⟩,
            List.pairwise_cons.mpr ⟨fun p hp => ?_, hpair⟩⟩
          · obtain ⟨h₁, h₂⟩ := hall p hp
            exact ⟨hsi.le.trans ((Nat.le_succ i).trans h₁), h₂⟩
          · have h₁ := (hall p hp).1
            exact hsi.trans h₁

/-- What a text up to a position ends in stands in front of the position. -/
theorem suffix_last {t : List Char} {i : Nat} {c : Char} (h : t.isSuffixOf (text.take i) = true)
    (hc : t.getLast? = some c) {d : Char} (hd : text[i - 1]? = some d) : i = 0 ∨ d = c := by
  rcases Nat.eq_zero_or_pos i with hi | hi
  · exact .inl hi
  · right
    have hlen := (List.getElem?_eq_some_iff.mp hd).1
    have hlast : (text.take i).getLast? = some d := by
      rw [List.getLast?_eq_getElem?, List.length_take, Nat.min_eq_left (by omega),
        List.getElem?_take_of_lt (by omega), hd]
    obtain ⟨a, ha⟩ := List.isSuffixOf_iff_suffix.mp h
    rw [← ha, List.getLast?_append, hc] at hlast
    exact (Option.some.inj hlast).symm

/-- In front of a fence comes none of its characters. -/
theorem fenceAt_fresh {i : Nat} {f : Fence} (h : fenceAt text i = some f) :
    i ≤ f.start ∧ f.start < f.stop ∧ (f.start = 0 ∨ text[f.start - 1]? ≠ some f.char) := by
  unfold fenceAt at h
  split at h
  · next hmay =>
    simp only at h
    have hspaces : ∀ x ∈ (text.drop i).takeWhile (· == ' '), x = ' ' :=
      (takeWhile_replicates (c := ' ') _).2
    have htake := List.takeWhile_prefix (· == ' ') (l := text.drop i)
    generalize (text.drop i).takeWhile (· == ' ') = spaces at h hspaces htake
    split at h
    · cases h
    · next c l hl =>
      split at h
      · next hrun =>
        cases h
        simp only [Bool.and_eq_true, Bool.or_eq_true, beq_iff_eq, decide_eq_true_eq] at hrun
        refine ⟨Nat.le_add_right _ _, by simp only; omega, ?_⟩
        simp only
        rcases Nat.eq_zero_or_pos spaces.length with hzero | hpos
        · rw [hzero, Nat.add_zero]
          by_contra hcon
          rw [not_or, Decidable.not_not] at hcon
          unfold fenceMayStart at hmay
          simp only [Bool.or_eq_true, beq_iff_eq] at hmay
          have hother : c ≠ '\n' ∧ c ≠ '>' := by
            rcases hrun.1.2 with rfl | rfl <;> decide
          rcases hmay with ((hi | hnl) | hopen) | hclose
          · exact hcon.1 hi
          · rw [hnl] at hcon
            exact hother.1 (Option.some.inj hcon.2).symm
          · exact (suffix_last hopen (c := '>') rfl hcon.2).elim hcon.1 hother.2
          · exact (suffix_last hclose (c := '>') rfl hcon.2).elim hcon.1 hother.2
        · right
          intro hc
          have hspace : text[i + spaces.length - 1]? = some ' ' := by
            obtain ⟨u, hu⟩ := htake
            rw [show i + spaces.length - 1 = i + (spaces.length - 1) by omega, ← List.getElem?_drop,
              ← hu, List.getElem?_append_left (by omega),
              List.getElem?_eq_getElem (by omega), hspaces _ (List.getElem_mem _)]
          rw [hspace] at hc
          have hne : c ≠ ' ' := by rcases hrun.1.2 with rfl | rfl <;> decide
          exact hne (Option.some.inj hc).symm
      · cases h
  · cases h

theorem fencesFrom_order : ∀ (fuel i : Nat),
    (∀ f ∈ fencesFrom text fuel i, i ≤ f.start ∧
      (f.start = 0 ∨ text[f.start - 1]? ≠ some f.char)) ∧
      (fencesFrom text fuel i).Pairwise fun f g => f.start < g.start
  | 0, _ => ⟨nofun, .nil⟩
  | fuel + 1, i => by
      unfold fencesFrom
      split
      · next f hf =>
        obtain ⟨hle, hstop, hfresh⟩ := fenceAt_fresh hf
        obtain ⟨hall, hpair⟩ := fencesFrom_order fuel f.stop
        refine ⟨List.forall_mem_cons.mpr ⟨⟨hle, hfresh⟩, fun g hg => ?_⟩,
          List.pairwise_cons.mpr ⟨fun g hg => hstop.trans_le (hall g hg).1, hpair⟩⟩
        exact ⟨hle.trans (hstop.le.trans (hall g hg).1), (hall g hg).2⟩
      · obtain ⟨hall, hpair⟩ := fencesFrom_order fuel (i + 1)
        exact ⟨fun g hg => ⟨(Nat.le_succ i).trans (hall g hg).1, (hall g hg).2⟩, hpair⟩

theorem proseQuotes_order : ∀ (l : List Char) (i : Nat),
    (∀ p ∈ proseQuotes i l, i ≤ p.1) ∧ (proseQuotes i l).Pairwise fun p q => p.1 < q.1 := by
  intro l i
  induction i, l using proseQuotes.induct with
  | case1 i => exact ⟨fun _ hn => (by cases hn), .nil⟩
  | case2 i d l ih =>
    rw [proseQuotes]
    exact ⟨fun p hp => (Nat.le_add_right i 2).trans (ih.1 p hp), ih.2⟩
  | case3 i c l hne hq ih =>
    rw [proseQuotes, if_pos hq]
    · exact ⟨List.forall_mem_cons.mpr ⟨le_rfl, fun p hp => (Nat.le_succ i).trans (ih.1 p hp)⟩,
        List.pairwise_cons.mpr ⟨fun p hp => ih.1 p hp, ih.2⟩⟩
    · exact hne
  | case4 i c l hne hq ih =>
    rw [proseQuotes, if_neg hq]
    · exact ⟨fun p hp => (Nat.le_succ i).trans (ih.1 p hp), ih.2⟩
    · exact hne

/-- A fence with its info string lies in the text. -/
theorem fence_inside {fuel i : Nat} {f : Fence} (hf : f ∈ fencesFrom text fuel i) :
    StartsDelimiter text f.start ∧ f.start + f.length + f.ownInfo.length ≤ text.length := by
  obtain ⟨hchar, hrun, hstand⟩ := fencesFrom_run fuel i f hf
  have hfresh := ((fencesFrom_order fuel i).1 f hf).2
  have hget : text[f.start]? = some f.char := by
    obtain ⟨u, hu⟩ := hstand
    rw [← List.head?_drop, ← hu, show f.length = f.length - 1 + 1 by omega, List.replicate_succ]
    rfl
  have hown : f.ownInfo.length ≤ f.info.length :=
    ((splitHead_le thinkClose _).trans (splitHead_le thinkOpen _)).length_le
  have hinfo := (fencesFrom_occurs fuel i f hf).info.length_le
  have hlen := hstand.length_le
  rw [List.length_drop] at hinfo hlen
  rw [List.length_replicate] at hlen
  exact ⟨⟨f.char, hget, .inr ⟨hchar, hfresh⟩⟩, by omega⟩

/-- **Every quoted span lies ahead of its delimiter**, in the text. -/
theorem quotedSpanEnds_ahead (isAlnum : Char → Bool) :
    Entries (Delimits text) (quotedSpanEnds isAlnum text) := by
  have hempty : Entries (Delimits text) ∅ := fun s e h => by simp at h
  unfold quotedSpanEnds
  refine quotations_entries isAlnum (fencedExamples_entries (codeSpans_entries hempty
    (fun n s h => by simp at h) ?_) (fun _ hn => by cases hn) ?_) (fun c s h => by simp at h) ?_
  · obtain ⟨hall, hpair⟩ := backtickRuns_order text 0 none List.drop_zero (Nat.zero_le _)
      (fun _ hn => by cases hn) fun _ => .inl rfl
    refine hpair.imp_of_mem fun {p q} hp hq hlt => ?_
    obtain ⟨-, -, hpos, hlen⟩ := hall q hq
    exact ⟨(hall p hp).2.1, by omega, hlen⟩
  · refine (fencesFrom_order _ 0).2.imp_of_mem fun {f g} hf hg hlt => ?_
    exact ⟨(fence_inside hf).1, by omega, (fence_inside hg).2⟩
  · refine (proseQuotes_order text 0).2.imp_of_mem fun {p q} hp hq hlt => ?_
    obtain ⟨hpc, hpq⟩ := proseQuotes_occur text 0 List.drop_zero p hp
    obtain ⟨hqc, -⟩ := proseQuotes_occur text 0 List.drop_zero q hq
    exact ⟨⟨p.2, hpc, .inl hpq⟩, by omega, (List.getElem?_eq_some_iff.mp hqc).1⟩

end Positions

/-! ## 3. Spans of reasoning -/

/-- The end of the body: the closing marker, or the end of what is not closed. -/
def Span.bodyEnd (s : Span) : Nat := s.close.getD s.stop

/-- Spans in a text of length `len` from a position on, one behind the other. -/
def Chain (len : Nat) : Nat → List Span → Prop
  | _, [] => True
  | low, s :: rest => low ≤ s.start ∧ s.start ≤ s.body ∧ s.body ≤ s.bodyEnd ∧ s.bodyEnd ≤ s.stop ∧
      s.stop ≤ len ∧ Chain len s.stop rest

/-- Spans in the text, in order and disjoint. -/
structure SpansOf (text : List Char) (spans : List Span) : Prop where
  within : ∀ s ∈ spans, s.start ≤ s.body ∧ s.body ≤ s.bodyEnd ∧ s.bodyEnd ≤ s.stop ∧
    s.stop ≤ text.length
  order : spans.Pairwise fun s s' => s.stop ≤ s'.start

theorem Chain.mono {len : Nat} : ∀ {spans : List Span} {low low' : Nat}, low' ≤ low →
    Chain len low spans → Chain len low' spans
  | [], _, _, _, _ => trivial
  | _ :: _, _, _, hle, ⟨h₁, h₂⟩ => ⟨hle.trans h₁, h₂⟩

theorem Chain.ahead {len : Nat} : ∀ {spans : List Span} {low : Nat}, Chain len low spans →
    ∀ s ∈ spans, low ≤ s.start
  | [], _, _, _, hs => by cases hs
  | s :: rest, low, ⟨h₁, h₂, h₃, h₄, _, h₆⟩, s', hs' => by
      rcases List.mem_cons.mp hs' with rfl | hs'
      · exact h₁
      · exact (h₁.trans (h₂.trans (h₃.trans h₄))).trans (h₆.ahead s' hs')

theorem Chain.spansOf {text : List Char} : ∀ {spans : List Span} {low : Nat},
    Chain text.length low spans → SpansOf text spans
  | [], _, _ => ⟨nofun, .nil⟩
  | _ :: _, _, ⟨_, h₂, h₃, h₄, h₅, h₆⟩ =>
    ⟨List.forall_mem_cons.mpr ⟨⟨h₂, h₃, h₄, h₅⟩, h₆.spansOf.within⟩,
      List.pairwise_cons.mpr ⟨h₆.ahead, h₆.spansOf.order⟩⟩

/-- The text from `pos` on without the spans: each goes with some newlines directly behind it. -/
inductive Cut (text : List Char) : Nat → List Span → List Char → Prop where
  | rest (pos : Nat) : Cut text pos [] (text.drop pos)
  | span {pos n : Nat} {s : Span} {spans : List Span} {out : List Char} (hle : pos ≤ s.start)
      (hnewlines : region text s.stop (s.stop + n) = List.replicate n '\n')
      (hrest : Cut text (s.stop + n) spans out) :
      Cut text pos (s :: spans) (region text pos s.start ++ out)

section Spans

variable {text : List Char}

/-- What the loop over the markers yields, with no span open and with one. -/
theorem spansFrom_chain : ∀ (ms : List Marker) (body : Nat),
    (∀ {low : Nat}, Ordered text.length low ms →
      Chain text.length low (spansFrom text none body false ms)) ∧
    (∀ {low start : Nat}, start ≤ body → body ≤ low → low ≤ text.length →
      Ordered text.length low ms →
        Chain text.length start (spansFrom text (some start) body false ms))
  | [], body => by
      refine ⟨fun _ => trivial, fun hstart hbody hlow _ => ?_⟩
      exact ⟨le_rfl, hstart, hbody.trans hlow, le_rfl, le_rfl, trivial⟩
  | m :: ms, body => by
      obtain ⟨hclosed, -⟩ := spansFrom_chain ms body
      obtain ⟨hfresh, -⟩ := spansFrom_chain ms 0
      obtain ⟨-, hopen⟩ := spansFrom_chain ms m.stop
      constructor
      · rintro low ⟨h₁, h₂, h₃, h₄⟩
        unfold spansFrom
        split
        · simp only [Bool.false_and, Bool.false_eq_true, if_false]
          exact (hopen (by omega) le_rfl h₃ h₄).mono h₁
        · simp only [Option.isSome_none, Bool.or_false, Bool.false_eq_true, if_false]
          exact hclosed (h₄.mono (by omega))
      · rintro low start hstart hbody hlow ⟨h₁, h₂, h₃, h₄⟩
        unfold spansFrom
        split
        · exact hopen (by omega) le_rfl h₃ h₄
        · simp only [Option.isSome_some, Bool.true_or, if_true, Option.getD_some]
          exact ⟨le_rfl, hstart, hbody.trans h₁, by simp only [Span.bodyEnd, Option.getD_some]; omega,
            h₃, hfresh h₄⟩

/-- Behind the first span every span starts at its opener. -/
theorem spansFrom_tagged : ∀ (ms : List Marker) (body : Nat),
    (∀ m ∈ ms, text[m.start]? = some '<') →
      (∀ s ∈ spansFrom text none body false ms, text[s.start]? = some '<') ∧
      (∀ {start : Nat}, text[start]? = some '<' →
        ∀ s ∈ spansFrom text (some start) body false ms, text[s.start]? = some '<') ∧
      (∀ {start : Nat}, ∀ s ∈ (spansFrom text (some start) body false ms).tail,
        text[s.start]? = some '<')
  | [], body, _ => by
      refine ⟨nofun, fun hstart s hs => ?_, nofun⟩
      rw [spansFrom, List.mem_singleton] at hs
      rw [hs]
      exact hstart
  | m :: ms, body, h => by
      obtain ⟨hm, hms⟩ := List.forall_mem_cons.mp h
      obtain ⟨hclosed, -, -⟩ := spansFrom_tagged ms body hms
      obtain ⟨hfresh, -, -⟩ := spansFrom_tagged ms 0 hms
      obtain ⟨-, hopen, htail⟩ := spansFrom_tagged ms m.stop hms
      unfold spansFrom
      split
      · simp only [Bool.false_and, Bool.false_eq_true, if_false]
        exact ⟨hopen hm, hopen, htail⟩
      · simp only [Option.isSome_none, Option.isSome_some, Bool.or_false,
          Bool.false_eq_true, if_false, if_true, Option.getD_some, List.tail_cons]
        exact ⟨hclosed, fun hstart => List.forall_mem_cons.mpr ⟨hstart, hfresh⟩, hfresh⟩

theorem takeWhile_newlines (l : List Char) : l.take (l.takeWhile (· == '\n')).length =
    List.replicate (l.takeWhile (· == '\n')).length '\n' := by
  rw [← List.prefix_iff_eq_take.mp (List.takeWhile_prefix _)]
  exact List.eq_replicate_of_mem (takeWhile_replicates l).2

/-- What goes with a span are newlines directly behind it. -/
theorem afterSpan_newlines (text : List Char) (s : Span) : ∃ n, afterSpan text s = s.stop + n ∧
    region text s.stop (s.stop + n) = List.replicate n '\n' := by
  unfold afterSpan region
  simp only [List.drop_take, Nat.add_sub_cancel_left]
  split
  · exact ⟨_, rfl, takeWhile_newlines _⟩
  · split
    · next h =>
      refine ⟨2, rfl, ?_⟩
      exact (List.prefix_iff_eq_take.mp (List.isPrefixOf_iff_prefix.mp h)).symm
    · exact ⟨0, rfl, by simp⟩

/-- **The visible text is a cut of the text.** -/
theorem visible_cut : ∀ {spans : List Span} {low pos : Nat}, Chain text.length low spans →
    (∀ s, spans.head? = some s → pos ≤ s.start) →
      (∀ s ∈ spans.tail, text[s.start]? = some '<') → Cut text pos spans (visible text pos spans)
  | [], _, pos, _, _, _ => .rest pos
  | s :: rest, _, pos, ⟨_, _, _, _, _, hrest⟩, hpos, htags => by
      obtain ⟨n, hn, hnewlines⟩ := afterSpan_newlines text s
      unfold visible
      rw [hn]
      refine .span (hpos s rfl) hnewlines (visible_cut hrest (fun s' hs' => ?_)
        fun s' hs' => htags s' (List.mem_of_mem_tail hs'))
      -- an opener is no newline
      have hmem : s' ∈ rest := List.mem_of_head? hs'
      have hahead := hrest.ahead s' hmem
      by_contra hlt
      have hopener := htags s' hmem
      have hnewline : (region text s.stop (s.stop + n))[s'.start - s.stop]? = some '<' := by
        unfold region
        rw [List.getElem?_drop, Nat.add_sub_cancel' hahead, List.getElem?_take_of_lt (by omega)]
        exact hopener
      rw [hnewlines, List.getElem?_replicate] at hnewline
      split at hnewline
      · exact absurd hnewline (by decide)
      · cases hnewline

/-- The spans of a whole text. -/
theorem thinkSpans_chain {ms : List Marker} (hms : Ordered text.length 0 ms)
    (htags : ∀ m ∈ ms, text[m.start]? = some '<') :
    Chain text.length 0 (spansFrom text none 0 true ms) ∧
      ∀ s ∈ (spansFrom text none 0 true ms).tail, text[s.start]? = some '<' := by
  cases ms with
  | nil => exact ⟨trivial, nofun⟩
  | cons m ms =>
    obtain ⟨h₁, h₂, h₃, h₄⟩ := hms
    obtain ⟨-, hmtags⟩ := List.forall_mem_cons.mp htags
    unfold spansFrom
    split
    · refine ⟨((spansFrom_chain ms m.stop).2 ?_ le_rfl h₃ h₄).mono (Nat.zero_le _),
        (spansFrom_tagged ms m.stop hmtags).2.2⟩
      dsimp only
      split <;> omega
    · simp only [Bool.or_true, if_true, List.tail_cons]
      refine ⟨⟨le_rfl, le_rfl, Nat.zero_le _, ?_, h₃, (spansFrom_chain ms 0).1 h₄⟩,
        (spansFrom_tagged ms 0 hmtags).1⟩
      simp only [Span.bodyEnd, Option.getD_some]
      omega

end Spans

/-! ## 4. The scanner on any text -/

/-- **The scanner ends with well-formed spans**, and what it strips are these spans and newlines
    behind them. -/
theorem scanner_spans (isAlnum : Char → Bool) (text : List Char) :
    (∀ (ends : Dict Nat Nat) (s s' : Scan) (m : Option Marker),
      s.step isAlnum text ends = some (s', m) → s.pos < s'.pos) ∧
    (∃ s', Scan.Reaches isAlnum text (quotedSpanEnds isAlnum text) .initial
      (reasoningMarkers isAlnum text) s' ∧
        s'.step isAlnum text (quotedSpanEnds isAlnum text) = none) ∧
    ThinkTags text (reasoningMarkers isAlnum text) ∧
    Entries (Delimits text) (quotedSpanEnds isAlnum text) ∧
    SpansOf text (thinkSpans isAlnum text) ∧
    Cut text 0 (thinkSpans isAlnum text) (stripReasoning isAlnum text) := by
  have hordered : Ordered text.length 0 (reasoningMarkers isAlnum text) :=
    Scan.markers_ordered .initial
  have htags : ∀ m ∈ reasoningMarkers isAlnum text, text[m.start]? = some '<' := fun m hm => by
    have hstand := (Scan.markersFrom_stand _ _ m hm).2
    rcases hstand with ⟨-, u, hu⟩ | ⟨-, u, hu⟩ <;> rw [← List.head?_drop, ← hu] <;> rfl
  obtain ⟨hchain, htail⟩ := thinkSpans_chain hordered htags
  exact ⟨fun _ _ _ _ h => Scan.step_pos h, Scan.reaches_end _ _ (Nat.le_add_left _ _),
    markers_tags _, quotedSpanEnds_ahead isAlnum, hchain.spansOf,
    visible_cut hchain (fun _ _ => Nat.zero_le _) htail⟩

end RolloutProxy.Reasoning
