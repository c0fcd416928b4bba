/-
  File:      RolloutProxy/JsonRead.lean
  Subject:   WHAT `json.loads` RETURNS: values that `json.dumps` can write again.

  * A double is an integer of at most 53 bits at a power of two of at least -1074; rounding leaves
    it as it is (`nearestDouble_idem`).
  * So a value that was read has doubles for floats, integers of a length that is converted, and no
    key twice (`loads_writable`).
  * `exactRepr` spells every double out; it is no shortest repr, but reads back like one.
-/
import RolloutProxy.JsonText
import Mathlib.Algebra.Order.Field.Power
import Mathlib.Data.Rat.Floor
import Mathlib.Tactic.FieldSimp
import Mathlib.Tactic.Linarith
import Mathlib.Tactic.Positivity
import Mathlib.Tactic.NormNum

namespace RolloutProxy

/-! ## 1. Doubles -/

theorem scale_eq (q : Rat) (e : Int) : scale q e = q * (2 : Rat) ^ e := by
  unfold scale
  split
  · next h =>
    obtain ⟨n, rfl⟩ := Int.eq_ofNat_of_zero_le h
    rw [Int.toNat_natCast, zpow_natCast]
  · next h =>
    obtain ⟨n, hn⟩ := Int.eq_ofNat_of_zero_le (show 0 ≤ -e by omega)
    rw [hn, Int.toNat_natCast, show e = -(n : Int) by omega, zpow_neg, zpow_natCast, div_eq_mul_inv]

/-- The exponent of the leading bit of a positive number. -/
def leadingBit (a : Rat) : Int :=
  let k : Int := a.num.natAbs.log2 - a.den.log2
  if scale 1 k ≤ a then k else k - 1

/-- The exponent of the last bit a double keeps of it. -/
def lastBit (a : Rat) : Int := max (leadingBit a - 52) (-1074)

/-- An integer nearest to `m`, ties to even. -/
def roundHalf (m : Rat) : Int :=
  let low := m.num / m.den
  let frac := m - low
  if 1 < 2 * frac ∨ (2 * frac = 1 ∧ low % 2 = 1) then low + 1 else low

/-- The magnitude of the double nearest to a positive number, without bound. -/
def magnitude (a : Rat) : Rat := scale (roundHalf (scale a (-lastBit a))) (lastBit a)

theorem nearestDouble_of_ne {q : Rat} (h : q ≠ 0) :
    nearestDouble q = if 2 ^ 1024 ≤ magnitude |q| then .inf (q < 0)
      else .finite (if q < 0 then -magnitude |q| else magnitude |q|) := by
  have habs : (if q < 0 then -q else q) = |q| := by
    split
    · next hneg => exact (abs_of_neg hneg).symm
    · next hpos => exact (abs_of_nonneg (not_lt.mp hpos)).symm
  unfold nearestDouble
  rw [habs]
  simp only
  rw [if_neg (abs_ne_zero.mpr h)]
  rfl

theorem leadingBit_spec {a : Rat} (h : 0 < a) :
    (2 : Rat) ^ leadingBit a ≤ a ∧ a < (2 : Rat) ^ (leadingBit a + 1) := by
  have hnum : a.num.natAbs ≠ 0 := Int.natAbs_ne_zero.mpr (Rat.num_ne_zero.mpr h.ne')
  have hden : a.den ≠ 0 := a.den_nz
  have ha : a = (a.num.natAbs : Rat) / a.den := by
    have hcast : ((a.num.natAbs : Int) : Rat) = a.num :=
      congrArg _ (Int.natAbs_of_nonneg (Rat.num_pos.mpr h).le)
    rw [← Int.cast_natCast, hcast, Rat.num_div_den]
  have hbits : ∀ {n : Nat}, n ≠ 0 →
      (2 : Rat) ^ (n.log2 : Int) ≤ n ∧ (n : Rat) < (2 : Rat) ^ ((n.log2 : Int) + 1) := by
    intro n hn
    refine ⟨?_, ?_⟩
    · rw [zpow_natCast]
      exact_mod_cast Nat.log2_self_le hn
    · rw [show ((n.log2 : Int) + 1) = ((n.log2 + 1 : Nat) : Int) by omega, zpow_natCast]
      exact_mod_cast Nat.lt_log2_self
  obtain ⟨hn, hn'⟩ := hbits hnum
  obtain ⟨hd, hd'⟩ := hbits hden
  have hdpos : (0 : Rat) < a.den := by exact_mod_cast Nat.pos_of_ne_zero hden
  -- the difference of the logarithms is off by at most one
  have hlow : (2 : Rat) ^ ((a.num.natAbs.log2 : Int) - a.den.log2 - 1) < a := by
    conv_rhs => rw [ha]
    rw [lt_div_iff₀ hdpos]
    calc (2 : Rat) ^ ((a.num.natAbs.log2 : Int) - a.den.log2 - 1) * a.den
        < 2 ^ ((a.num.natAbs.log2 : Int) - a.den.log2 - 1) * 2 ^ ((a.den.log2 : Int) + 1) :=
          mul_lt_mul_of_pos_left hd' (by positivity)
      _ = 2 ^ (a.num.natAbs.log2 : Int) := by
          rw [← zpow_add₀ (by norm_num)]
          congr 1
          omega
      _ ≤ a.num.natAbs := hn
  have hhigh : a < (2 : Rat) ^ ((a.num.natAbs.log2 : Int) - a.den.log2 + 1) := by
    conv_lhs => rw [ha]
    rw [div_lt_iff₀ hdpos]
    calc (a.num.natAbs : Rat) < 2 ^ ((a.num.natAbs.log2 : Int) + 1) := hn'
      _ = 2 ^ ((a.num.natAbs.log2 : Int) - a.den.log2 + 1) * 2 ^ (a.den.log2 : Int) := by
          rw [← zpow_add₀ (by norm_num)]
          congr 1
          omega
      _ ≤ 2 ^ ((a.num.natAbs.log2 : Int) - a.den.log2 + 1) * a.den :=
          mul_le_mul_of_nonneg_left hd (by positivity)
  unfold leadingBit
  simp only [scale_eq, one_mul]
  split
  · next hle => exact ⟨hle, hhigh⟩
  · next hlt =>
    refine ⟨hlow.le, ?_⟩
    rw [sub_add_cancel]
    exact not_le.mp hlt

theorem roundHalf_intCast (n : Int) : roundHalf n = n := by
  unfold roundHalf
  simp

theorem roundHalf_bounds {m : Rat} {n : Int} (h : 0 ≤ m) (hm : m < n) :
    0 ≤ roundHalf m ∧ roundHalf m ≤ n := by
  have hfloor : m.num / m.den = ⌊m⌋ := Rat.floor_def'.symm
  have hzero : 0 ≤ ⌊m⌋ := Int.floor_nonneg.mpr h
  have hlt : ⌊m⌋ < n := Int.floor_lt.mpr hm
  unfold roundHalf
  rw [hfloor]
  simp only
  split <;> omega

/-- A magnitude that a double can have. -/
def OnGrid (x : Rat) : Prop := ∃ n e : Int, 0 ≤ n ∧ n ≤ 2 ^ 53 ∧ -1074 ≤ e ∧ x = n * (2 : Rat) ^ e

theorem magnitude_onGrid {a : Rat} (h : 0 < a) : OnGrid (magnitude a) := by
  have hscaled : scale a (-lastBit a) < ((2 ^ 53 : Int) : Rat) := by
    rw [scale_eq]
    have hpos : (0 : Rat) < 2 ^ (-lastBit a) := by positivity
    calc a * 2 ^ (-lastBit a) < 2 ^ (leadingBit a + 1) * 2 ^ (-lastBit a) :=
          mul_lt_mul_of_pos_right (leadingBit_spec h).2 hpos
      _ = 2 ^ (leadingBit a + 1 - lastBit a) := by
          rw [← zpow_add₀ (by norm_num)]
          rfl
      _ ≤ 2 ^ (53 : Int) := by
          refine zpow_le_zpow_right₀ (by norm_num) ?_
          unfold lastBit
          omega
      _ = ((2 ^ 53 : Int) : Rat) := by norm_num
  have hnonneg : 0 ≤ scale a (-lastBit a) := by
    rw [scale_eq]
    positivity
  obtain ⟨hlow, hhigh⟩ := roundHalf_bounds hnonneg hscaled
  exact ⟨_, lastBit a, hlow, hhigh, le_max_right _ _, scale_eq _ _⟩

/-- **Rounding leaves a double as it is.** -/
theorem magnitude_of_onGrid {a : Rat} (h : 0 < a) (hgrid : OnGrid a) : magnitude a = a := by
  obtain ⟨n, e, -, hn, he, ha⟩ := hgrid
  have hle : lastBit a ≤ e ∨ n = 2 ^ 53 ∧ lastBit a ≤ e + 1 := by
    have hbound : (2 : Rat) ^ leadingBit a ≤ n * 2 ^ e := ha ▸ (leadingBit_spec h).1
    have hstep : ∀ {j : Int}, (n : Rat) < 2 ^ j → leadingBit a < j + e := fun {j} hj => by
      have hlt : (2 : Rat) ^ leadingBit a < 2 ^ (j + e) := by
        rw [zpow_add₀ (by norm_num)]
        exact hbound.trans_lt (mul_lt_mul_of_pos_right hj (by positivity))
      exact (zpow_lt_zpow_iff_right₀ (by norm_num)).mp hlt
    unfold lastBit
    rcases lt_or_eq_of_le hn with hlt | heq
    · have := hstep (j := 53) (by exact_mod_cast hlt)
      left
      omega
    · have := hstep (j := 54) (by rw [heq]; norm_num)
      right
      omega
  -- at the last bit the number is an integer
  obtain ⟨m, hm⟩ : ∃ m : Int, scale a (-lastBit a) = m := by
    generalize lastBit a = b at hle
    have hshift : scale a (-b) = n * 2 ^ (e - b) := by
      rw [scale_eq, ha, mul_assoc, ← zpow_add₀ (by norm_num), ← sub_eq_add_neg]
    have hsplit : b ≤ e → scale a (-b) = ((n * 2 ^ (e - b).toNat : Int) : Rat) := fun hbe => by
      obtain ⟨d, hd⟩ := Int.eq_ofNat_of_zero_le (show 0 ≤ e - b by omega)
      rw [hshift, hd, Int.toNat_natCast, zpow_natCast]
      push_cast
      rfl
    rcases hle with hle | ⟨heq, hle⟩
    · exact ⟨_, hsplit hle⟩
    · rcases lt_or_ge e b with hlt | hge
      · refine ⟨2 ^ 52, ?_⟩
        rw [hshift, heq, show e - b = -1 by omega]
        norm_num
      · exact ⟨_, hsplit hge⟩
  unfold magnitude
  rw [hm, roundHalf_intCast, scale_eq, ← hm, scale_eq, mul_assoc, ← zpow_add₀ (by norm_num),
    neg_add_cancel, zpow_zero, mul_one]

/-- The magnitude of a double. -/
theorem nearestDouble_finite {q x : Rat} (h : nearestDouble q = .finite x) :
    OnGrid |x| ∧ |x| < 2 ^ 1024 := by
  by_cases hq : q = 0
  · subst hq
    have hx : x = 0 := by
      cases h
      rfl
    subst hx
    exact ⟨⟨0, 0, le_rfl, by norm_num, by norm_num, by simp⟩, by norm_num⟩
  · rw [nearestDouble_of_ne hq] at h
    split at h
    · cases h
    · next hlt =>
      have hgrid := magnitude_onGrid (abs_pos.mpr hq)
      have hnonneg : 0 ≤ magnitude |q| := by
        obtain ⟨n, e, hn, -, -, heq⟩ := hgrid
        rw [heq]
        have : (0 : Rat) ≤ n := by exact_mod_cast hn
        positivity
      have habs : |x| = magnitude |q| := by
        cases h
        split
        · rw [abs_neg, abs_of_nonneg hnonneg]
        · exact abs_of_nonneg hnonneg
      rw [habs]
      exact ⟨hgrid, not_le.mp hlt⟩

theorem nearestDouble_of_onGrid {x : Rat} (hgrid : OnGrid |x|) (hlt : |x| < 2 ^ 1024) :
    nearestDouble x = .finite x := by
  by_cases hx : x = 0
  · subst hx
    rfl
  · rw [nearestDouble_of_ne hx, magnitude_of_onGrid (abs_pos.mpr hx) hgrid, if_neg (not_le.mpr hlt)]
    split
    · next hneg => rw [abs_of_neg hneg, neg_neg]
    · next hpos => rw [abs_of_nonneg (not_lt.mp hpos)]

/-- **The nearest double is a double.** -/
theorem nearestDouble_idem {q x : Rat} (h : nearestDouble q = .finite x) :
    nearestDouble x = .finite x :=
  nearestDouble_of_onGrid (nearestDouble_finite h).1 (nearestDouble_finite h).2

/-! ## 2. Values that were read -/

/-- Digits are worth less than the power of ten of their number. -/
theorem ofDigitChars_lt : ∀ {ds : List Char}, (∀ c ∈ ds, c.isDigit = true) →
    Nat.ofDigitChars 10 ds 0 < 10 ^ ds.length
  | [], _ => by decide
  | c :: ds, h => by
      obtain ⟨hc, hds⟩ := List.forall_mem_cons.mp h
      have hdigit : c.toNat - '0'.toNat ≤ 9 := by
        have : c.toNat ≤ 57 := by
          simp only [Char.isDigit, Bool.and_eq_true, decide_eq_true_eq] at hc
          exact hc.2
        show c.toNat - 48 ≤ 9
        omega
      rw [Nat.ofDigitChars_cons, Nat.ofDigitChars_eq_ofDigitChars_zero, List.length_cons, pow_succ]
      have := ofDigitChars_lt hds
      have hmul : 10 ^ ds.length * (10 * 0 + (c.toNat - '0'.toNat)) ≤ 10 ^ ds.length * 9 :=
        Nat.mul_le_mul_left _ (by omega)
      omega

theorem mem_takeWhile {α : Type} {p : α → Bool} {l : List α} {a : α} (h : a ∈ l.takeWhile p) :
    p a = true := List.mem_takeWhile_imp h

/-- A number that was read can be written. -/
theorem numberOf_writable {l : List Char} {v : Json} (h : numberOf l = some v) : Writable v := by
  unfold numberOf at h
  simp only at h
  generalize (l.head? == some '-') = negative at h
  generalize (if negative = true then l.drop 1 else l) = m at h
  split at h
  · cases h
  · next hform =>
    split at h
    · split at h
      · cases h
      · next hlimit =>
        cases h
        -- the value has no more digits than were spelled
        generalize hw : List.takeWhile Char.isDigit _ = whole at hform hlimit ⊢
        have hdigits : ∀ c ∈ whole, c.isDigit = true := fun c hc => mem_takeWhile (hw ▸ hc)
        have hlen : 0 < whole.length := by
          cases whole with
          | nil => simp at hform
          | cons c whole => exact Nat.succ_pos _
        have hshort := (Nat.length_toDigits_le_iff (show 1 < 10 by decide) hlen).mpr
          (ofDigitChars_lt hdigits)
        unfold Writable
        split <;> simpa using hshort.trans (not_lt.mp hlimit)
    · cases h
      cases hx : nearestDouble _ with
      | finite q =>
          unfold Writable
          exact nearestDouble_idem hx
      | inf negative => trivial
      | nan => trivial

theorem writableFields_iff : ∀ {fields : List (String × Json)},
    WritableFields fields ↔ ∀ e ∈ fields, Writable e.2
  | [] => by simp [WritableFields]
  | (k, v) :: fields => by
      rw [WritableFields, List.forall_mem_cons, writableFields_iff]

theorem finiteFields_iff : ∀ {fields : List (String × Json)},
    finiteFields fields = true ↔ ∀ e ∈ fields, finiteNumbers e.2 = true
  | [] => by simp [finiteFields]
  | (k, v) :: fields => by
      rw [finiteFields, List.forall_mem_cons, Bool.and_eq_true, finiteFields_iff]

/-- What an assignment leaves in a dictionary. -/
theorem mem_set : ∀ {d : Fields} {key : String} {v : Json} {e : String × Json},
    e ∈ Fields.set d key v → e ∈ d ∨ e = (key, v)
  | [], key, v, e, h => .inr (List.mem_singleton.mp h)
  | (k, w) :: d, key, v, e, h => by
      unfold Fields.set at h
      split at h
      · next heq =>
        rcases List.mem_cons.mp h with rfl | h
        · exact .inr (heq ▸ rfl)
        · exact .inl (List.mem_cons_of_mem _ h)
      · rcases List.mem_cons.mp h with rfl | h
        · exact .inl List.mem_cons_self
        · exact (mem_set h).imp (List.mem_cons_of_mem _) id

/-- An assignment of a writable value. -/
theorem set_writable {d : Fields} {key : String} {v : Json} (hd : Writable (.obj d))
    (hv : Writable v) : Writable (.obj (Fields.set d key v)) := by
  rw [Writable, writableFields_iff] at hd ⊢
  refine ⟨set_nodup hd.1, fun e he => ?_⟩
  rcases mem_set he with he | rfl
  · exact hd.2 e he
  · exact hv

theorem pairsDict_writable {fields : List (String × Json)} (h : WritableFields fields) :
    Writable (.obj (pairsDict fields)) := by
  have hfrom : ∀ (fields : List (String × Json)) (d : Fields), WritableFields fields →
      Writable (.obj d) → Writable (.obj (fields.foldl (fun d e => Fields.set d e.1 e.2) d)) := by
    intro fields
    induction fields with
    | nil => exact fun d _ hd => hd
    | cons e fields ih =>
        obtain ⟨k, v⟩ := e
        exact fun d hf hd => ih _ hf.2 (set_writable hd hf.1)
  exact hfrom fields [] h ⟨List.nodup_nil, trivial⟩

theorem readScalar_writable {l rest : List Char} {v : Json} (h : readScalar l = some (v, rest)) :
    Writable v := by
  unfold readScalar at h
  split at h
  · cases h
    trivial
  · split at h
    · cases h
      trivial
    · split at h
      · cases h
        trivial
      · obtain ⟨n, hn, heq⟩ := Option.map_eq_some_iff.mp h
        cases heq
        exact numberOf_writable hn

/-- What the four readers return, by induction on the fuel. -/
theorem read_writable : ∀ fuel : Nat,
    (∀ {l rest : List Char} {v : Json}, readValue fuel l = some (v, rest) → Writable v) ∧
    (∀ {l rest : List Char} {items : List Json},
      readItems fuel l = some (items, rest) → WritableItems items) ∧
    (∀ {l rest : List Char} {e : String × Json},
      readField fuel l = some (e, rest) → Writable e.2) ∧
    ∀ {l rest : List Char} {fields : List (String × Json)},
      readFields fuel l = some (fields, rest) → WritableFields fields
  | 0 => by
      refine ⟨fun h => ?_, fun h => ?_, fun h => ?_, fun h => ?_⟩
      · rw [readValue] at h
        cases h
      · rw [readItems] at h
        cases h
      · rw [readField] at h
        cases h
      · rw [readFields] at h
        cases h
  | fuel + 1 => by
      -- what a reader returns is made of what the readers behind it return
      obtain ⟨hvalue, hitems, hfield, hfields⟩ := read_writable fuel
      refine ⟨fun {l rest v} h => ?_, fun {l rest items} h => ?_, fun {l rest e} h => ?_,
        fun {l rest fields} h => ?_⟩
      · unfold readValue at h
        split at h
        · cases h
        · split at h
          · obtain ⟨r, -, heq⟩ := Option.map_eq_some_iff.mp h
            cases heq
            trivial
          · split at h
            · split at h
              · cases h
                trivial
              · obtain ⟨a, ha, h⟩ := Option.bind_eq_some_iff.mp h
                obtain ⟨b, hb, h⟩ := Option.bind_eq_some_iff.mp h
                cases h
                exact ⟨hvalue ha, hitems hb⟩
            · split at h
              · split at h
                · cases h
                  exact ⟨List.nodup_nil, trivial⟩
                · obtain ⟨a, ha, h⟩ := Option.bind_eq_some_iff.mp h
                  obtain ⟨b, hb, h⟩ := Option.bind_eq_some_iff.mp h
                  cases h
                  exact pairsDict_writable ⟨hfield ha, hfields hb⟩
              · exact readScalar_writable h
      · unfold readItems at h
        split at h
        · cases h
          trivial
        · obtain ⟨a, ha, h⟩ := Option.bind_eq_some_iff.mp h
          obtain ⟨b, hb, h⟩ := Option.bind_eq_some_iff.mp h
          cases h
          exact ⟨hvalue ha, hitems hb⟩
        · cases h
      · unfold readField at h
        split at h
        · obtain ⟨k, -, h⟩ := Option.bind_eq_some_iff.mp h
          split at h
          · obtain ⟨a, ha, h⟩ := Option.bind_eq_some_iff.mp h
            cases h
            exact hvalue ha
          · cases h
        · cases h
      · unfold readFields at h
        split at h
        · cases h
          trivial
        · obtain ⟨a, ha, h⟩ := Option.bind_eq_some_iff.mp h
          obtain ⟨b, hb, h⟩ := Option.bind_eq_some_iff.mp h
          cases h
          exact ⟨hfield ha, hfields hb⟩
        · cases h

/-- **What `json.loads` returns can be written again.** -/
theorem loads_writable {text : List Char} {v : Json} (h : loads text = some v) : Writable v := by
  unfold loads at h
  split at h
  · next w rest hread =>
    split at h
    · cases h
      exact (read_writable _).1 hread
    · cases h
  · cases h

/-! ## 3. A spelling of every double -/

/-- `e-1074` -/
def exactExponent : List Char := ['e', '-', '1', '0', '7', '4']

/-- A double as an integer times a power of ten. -/
def exactRepr (q : Rat) : List Char := intText (q * 10 ^ 1074).num ++ exactExponent

/-- An integer with that exponent. -/
theorem numberOf_exact {ds : List Char} (hdigits : ∀ c ∈ ds, c.isDigit = true) (hne : ds ≠ [])
    (hlead : (ds.head? == some '0' && ds.length != 1) = false) (negative : Bool) :
    numberOf ((if negative then '-' :: ds else ds) ++ exactExponent) =
      some (.float (nearestDouble ((if negative then -((Nat.ofDigitChars 10 ds 0 : Nat) : Rat)
        else ((Nat.ofDigitChars 10 ds 0 : Nat) : Rat)) / 10 ^ 1074))) := by
  have htake : (ds ++ exactExponent).takeWhile Char.isDigit = ds := by
    rw [List.takeWhile_append_of_pos hdigits]
    exact List.append_nil ds
  have hdrop : (ds ++ exactExponent).dropWhile Char.isDigit = exactExponent := by
    rw [List.dropWhile_append_of_pos hdigits]
    rfl
  have hsign : ((ds ++ exactExponent).head? == some '-') = false := by
    obtain ⟨d, ds', rfl⟩ := List.exists_cons_of_ne_nil hne
    have hd := hdigits d List.mem_cons_self
    rw [List.cons_append, List.head?_cons, beq_eq_false_iff_ne]
    rintro h
    cases h
    exact absurd hd (by decide)
  have hempty : ds.isEmpty = false := List.isEmpty_eq_false_iff.mpr hne
  have hfraction : fractionOf exactExponent = ([], exactExponent) := rfl
  have hexponent : exponentOf exactExponent = (some (-1074), []) := by decide
  unfold numberOf
  cases negative with
  | true =>
      simp only [if_true, List.cons_append, List.head?_cons, beq_self_eq_true,
        List.drop_succ_cons, List.drop_zero, htake, hdrop, hfraction, hexponent, hempty, hlead,
        List.isEmpty_nil, Option.isNone_some, Bool.not_true, Bool.or_self, Bool.false_eq_true,
        if_false, Bool.and_false, List.append_nil, Option.getD_some, List.length_nil]
      rfl
  | false =>
      simp only [Bool.false_eq_true, if_false, hsign, htake, hdrop, hfraction, hexponent, hempty,
        hlead, List.isEmpty_nil, Option.isNone_some, Bool.not_true, Bool.or_self, Bool.and_false,
        List.append_nil, Option.getD_some, List.length_nil]
      rfl

/-- A double is a whole number of the last digit. -/
theorem onGrid_decimal {x : Rat} (h : OnGrid x) : ∃ z : Int, x * 10 ^ 1074 = z := by
  obtain ⟨n, e, -, -, he, rfl⟩ := h
  obtain ⟨d, hd⟩ := Int.eq_ofNat_of_zero_le (show 0 ≤ e + (1074 : Nat) by omega)
  have hten : (10 : Rat) ^ 1074 = 2 ^ ((1074 : Nat) : Int) * 5 ^ 1074 := by
    rw [zpow_natCast, ← mul_pow]
    congr 1
    norm_num
  refine ⟨n * 2 ^ d * 5 ^ 1074, ?_⟩
  calc (n : Rat) * (2 : Rat) ^ e * (10 : Rat) ^ 1074
      = n * ((2 : Rat) ^ e * (2 : Rat) ^ ((1074 : Nat) : Int)) * (5 : Rat) ^ 1074 := by
        rw [hten]
        simp only [mul_assoc]
    _ = n * (2 : Rat) ^ d * (5 : Rat) ^ 1074 := by
        rw [← zpow_add₀ (by norm_num), hd, zpow_natCast]
    _ = ((n * 2 ^ d * 5 ^ 1074 : Int) : Rat) := by
        simp only [Int.cast_mul, Int.cast_pow, Int.cast_ofNat]

/-- **The exact spelling reads back.** -/
theorem exactRepr_reads : ReprReads exactRepr := by
  intro q hq
  obtain ⟨z, hz⟩ : ∃ z : Int, q * 10 ^ 1074 = z := by
    obtain ⟨z, hz⟩ := onGrid_decimal (nearestDouble_finite hq).1
    rcases abs_choice q with h | h
    · exact ⟨z, h ▸ hz⟩
    · refine ⟨-z, ?_⟩
      rw [Int.cast_neg, ← hz, h, neg_mul, neg_neg]
  have hdigits : ∀ c ∈ Nat.toDigits 10 z.natAbs, c.isDigit = true := fun c hc =>
    Nat.isDigit_of_mem_toDigits (by decide) le_rfl hc
  have hread := numberOf_exact hdigits Nat.toDigits_ne_nil (toDigits_lead z.natAbs) (decide (z < 0))
  have htext : intText z = if decide (z < 0) = true then '-' :: Nat.toDigits 10 z.natAbs
      else Nat.toDigits 10 z.natAbs := by
    simp only [intText, decide_eq_true_eq]
  have hvalue : (if decide (z < 0) = true then -((z.natAbs : Nat) : Rat) else ((z.natAbs : Nat) : Rat)) =
      z := by
    rw [← Int.cast_natCast]
    by_cases hn : z < 0
    · rw [if_pos (by simpa using hn), ← Int.cast_neg, show -(z.natAbs : Int) = z by omega]
    · rw [if_neg (by simpa using hn), show (z.natAbs : Int) = z by omega]
  rw [Nat.ofDigitChars_toDigits (by decide) le_rfl, ← htext, hvalue, ← hz,
    mul_div_cancel_right₀ q (by positivity), hq] at hread
  unfold exactRepr
  rw [hz, Rat.num_intCast]
  refine ⟨hread, fun c hc => ?_⟩
  rcases List.mem_append.mp hc with hc | hc
  · exact (numberOf_intText z).1 c hc
  · exact List.all_eq_true.mp (show exactExponent.all isNumberChar = true by decide) c hc

end RolloutProxy
