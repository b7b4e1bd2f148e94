/-
Timestamps as texts.

A `Printable` timestamp has a year of four digits, a date of the calendar, a time of
the day and an offset below a day.  It is written as RFC 3339 has it and read back as
it was (`parse?_render`).  Every timestamp that is read is printable
(`printable_of_parse?`), and so is that of a clock in those years
(`printable_ofUnix`).
-/
import FleetMesh.Proofs.Json.Codec
import FleetMesh.Proofs.Timestamp.Calendar

namespace FleetMesh
namespace Timestamp

/-- What RFC 3339 can write. -/
structure Printable (t : Timestamp) : Prop where
  year : t.year ≤ 9999
  date : IsDate t.year t.month t.day
  hour : t.hour ≤ 23
  minute : t.minute ≤ 59
  second : t.second ≤ 59
  nanosecond : t.nanosecond < 1000000000
  offset : t.offset.natAbs ≤ 23 * 60 + 59

/-- A date of the calendar and a time of the day. -/
structure Civil (t : Timestamp) : Prop where
  date : IsDate t.year t.month t.day
  hour : t.hour ≤ 23
  minute : t.minute ≤ 59
  second : t.second ≤ 59
  nanosecond : t.nanosecond < 1000000000

theorem printable_iff {t : Timestamp} : t.Printable ↔ t.Civil ∧ t.isWritable = true := by
  rw [isWritable, Bool.and_eq_true, decide_eq_true_eq, decide_eq_true_eq]
  constructor
  · intro h
    exact ⟨⟨h.date, h.hour, h.minute, h.second, h.nanosecond⟩, h.year, Nat.lt_succ_of_le h.offset⟩
  · rintro ⟨h, hyear, hoffset⟩
    exact ⟨hyear, h.date, h.hour, h.minute, h.second, h.nanosecond, Nat.le_of_lt_succ hoffset⟩

/-! ## Digits -/

theorem isDigit_digit {d : Nat} (h : d < 10) :
    (Char.ofNat ('0'.toNat + d)).isDigit = true ∧
      (Char.ofNat ('0'.toNat + d)).toNat - '0'.toNat = d := by
  have hall : ∀ d < 10, (Char.ofNat ('0'.toNat + d)).isDigit = true ∧
      (Char.ofNat ('0'.toNat + d)).toNat - '0'.toNat = d := by decide
  exact hall d h

theorem digits_cons {w : Nat} {c : Char} (hc : c.isDigit = true) (cs : List Char) :
    digits (w + 1) (c :: cs)
      = (digits w cs).map (fun (n, rest) => ((c.toNat - '0'.toNat) * Nat.pow 10 w + n, rest)) :=
  if_pos hc

/-- One digit more at the end. -/
theorem digits_concat {w n d : Nat} (hd : d < 10) {cs rest : List Char}
    (h : digits w cs = some (n, Char.ofNat ('0'.toNat + d) :: rest)) :
    digits (w + 1) cs = some (10 * n + d, rest) := by
  obtain ⟨hdigit, hvalue⟩ := isDigit_digit hd
  induction w generalizing n cs with
  | zero =>
    obtain ⟨rfl, rfl⟩ := Prod.mk.inj (Option.some.inj h)
    rw [digits_cons hdigit, digits, hvalue]
    simp
  | succ w ih =>
    cases cs with
    | nil => cases h
    | cons c cs =>
      rw [digits] at h
      split at h
      · rename_i hc
        obtain ⟨⟨m, more⟩, hmore, hpair⟩ := Option.map_eq_some_iff.mp h
        obtain ⟨rfl, rfl⟩ := Prod.mk.inj hpair
        rw [digits_cons hc, ih hmore]
        simp only [Option.map_some, Nat.pow_eq, Nat.pow_succ]
        congr 2
        ring
      · cases h

theorem digits_padded (w n : Nat) (rest : List Char) :
    digits w (padded w n ++ rest) = some (n % 10 ^ w, rest) := by
  induction w generalizing n rest with
  | zero => simp [digits, padded, Nat.mod_one]
  | succ w ih =>
    have hd : n % 10 < 10 := Nat.mod_lt _ (by decide)
    rw [padded, List.append_assoc, List.singleton_append,
      digits_concat hd (ih (n / 10) (Char.ofNat ('0'.toNat + n % 10) :: rest))]
    rw [Nat.pow_succ, Nat.mul_comm (10 ^ w), Nat.mod_mul]
    congr 2
    omega

theorem digits_two {n : Nat} (hn : n < 100) (rest : List Char) :
    digits 2 (padded 2 n ++ rest) = some (n, rest) := by
  rw [digits_padded, Nat.mod_eq_of_lt (show n < 10 ^ 2 from hn)]

theorem isDigit_of_mem_padded {w n : Nat} {c : Char} (h : c ∈ padded w n) : c.isDigit = true := by
  induction w generalizing n with
  | zero => exact absurd h List.not_mem_nil
  | succ w ih =>
    rw [padded, List.mem_append, List.mem_singleton] at h
    rcases h with h | rfl
    · exact ih h
    · exact (isDigit_digit (Nat.mod_lt n (by decide))).1

theorem length_padded (w n : Nat) : (padded w n).length = w := by
  induction w generalizing n with
  | zero => rfl
  | succ w ih => rw [padded, List.length_append, ih, List.length_singleton]

/-! ## Fractions of a second -/

theorem padded_eq_stripped (n : Nat) :
    ∃ k, padded 9 n =
      ((padded 9 n).reverse.dropWhile (· == '0')).reverse ++ List.replicate k '0' := by
  refine ⟨((padded 9 n).reverse.takeWhile (· == '0')).length, ?_⟩
  have hzeros : (padded 9 n).reverse.takeWhile (· == '0')
      = List.replicate ((padded 9 n).reverse.takeWhile (· == '0')).length '0' :=
    List.eq_replicate_of_mem fun c hc => by
      have hall := List.all_takeWhile (p := fun c => c == '0') (l := (padded 9 n).reverse)
      exact beq_iff_eq.mp (List.all_eq_true.mp hall c hc)
  have hsplit :=
    List.takeWhile_append_dropWhile (p := fun c => c == '0') (l := (padded 9 n).reverse)
  have hreverse := congrArg List.reverse hsplit
  rw [List.reverse_reverse, List.reverse_append, hzeros, List.reverse_replicate] at hreverse
  simpa using hreverse.symm

/-- What cannot continue a fraction. -/
def Follows (rest : List Char) : Prop := ∀ c ∈ rest.head?, c.isDigit = false ∧ c ≠ '.'

theorem span_digits {ds rest : List Char} (hds : ∀ c ∈ ds, c.isDigit = true)
    (hrest : Follows rest) :
    (ds ++ rest).takeWhile Char.isDigit = ds ∧ (ds ++ rest).dropWhile Char.isDigit = rest := by
  have hstop : rest.takeWhile Char.isDigit = [] ∧ rest.dropWhile Char.isDigit = rest := by
    cases rest with
    | nil => exact ⟨rfl, rfl⟩
    | cons c rest =>
      have hc := (hrest c rfl).1
      simp [hc]
  rw [List.takeWhile_append_of_pos hds, List.dropWhile_append_of_pos hds, hstop.1, hstop.2,
    List.append_nil]
  exact ⟨rfl, rfl⟩

theorem fraction_fractionChars {n : Nat} (hn : n < 1000000000) {rest : List Char}
    (hrest : Follows rest) : fraction (fractionChars n ++ rest) = some (n, rest) := by
  rw [fractionChars]
  split
  · rename_i hzero
    subst hzero
    rw [List.nil_append]
    cases rest with
    | nil => rfl
    | cons c rest =>
      rw [fraction]
      rintro more h
      exact (hrest c rfl).2 (List.cons.inj h).1
  · rename_i hne
    obtain ⟨k, hk⟩ := padded_eq_stripped n
    obtain ⟨ds, hds⟩ : ∃ ds, ds = ((padded 9 n).reverse.dropWhile (· == '0')).reverse := ⟨_, rfl⟩
    rw [← hds] at hk ⊢
    have hlength : ds.length + k = 9 := by
      rw [← length_padded 9 n, hk, List.length_append, List.length_replicate]
    have hdigits : ∀ c ∈ ds, c.isDigit = true := fun c hc =>
      isDigit_of_mem_padded (w := 9) (n := n) (hk ▸ List.mem_append_left _ hc)
    have hback : digits 9 (padded 9 n) = some (n, []) := by
      have h := digits_padded 9 n []
      rwa [List.append_nil, Nat.mod_eq_of_lt (show n < 10 ^ 9 from hn)] at h
    have hsome : ds ≠ [] := by
      intro hnil
      rw [hk, hnil, List.nil_append, show k = 9 by simpa [hnil] using hlength] at hback
      exact hne (Prod.mk.inj (Option.some.inj hback)).1.symm
    have hnine : (ds ++ List.replicate 9 '0').take 9 = padded 9 n := by
      rw [List.take_append, List.take_of_length_le (by omega), List.take_replicate, hk]
      congr 2
      omega
    obtain ⟨htake, hdrop⟩ := span_digits hdigits hrest
    rw [List.cons_append, fraction, htake, hdrop]
    simp only [if_neg hsome, hnine, hback, Option.map_some]

/-! ## Offsets -/

theorem follows_offsetChars (offset : Int) : Follows (offsetChars offset) := by
  intro c hc
  rw [offsetChars] at hc
  split at hc
  · obtain rfl := Option.some.inj hc
    decide
  · obtain rfl := Option.some.inj hc
    split <;> decide

theorem offset?_hours {hours minutes : Nat} (hh : hours ≤ 23) (hm : minutes ≤ 59) (sign : Char) :
    offset? (sign :: padded 2 hours ++ ':' :: padded 2 minutes) =
      if sign = '+' then some ((hours * 60 + minutes : Nat) : Int)
      else if sign = '-' then some (-((hours * 60 + minutes : Nat) : Int))
      else none := by
  have hhours := digits_two (show hours < 100 by omega) (':' :: padded 2 minutes)
  have hminutes := digits_two (show minutes < 100 by omega) []
  rw [List.append_nil] at hminutes
  have hbounds : ¬ (([] : List Char) ≠ [] ∨ 23 < hours ∨ 59 < minutes) := by
    rintro (h | h | h)
    · exact h rfl
    · omega
    · omega
  have hcons : ∀ c rest, offset? (sign :: c :: rest) = (digits 2 (c :: rest)).bind fun hours =>
      (one (· == ':') hours.2).bind fun rest => (digits 2 rest).bind fun minutes =>
        if minutes.2 ≠ [] ∨ 23 < hours.1 ∨ 59 < minutes.1 then none
        else if sign = '+' then some ((hours.1 * 60 + minutes.1 : Nat) : Int)
        else if sign = '-' then some (-((hours.1 * 60 + minutes.1 : Nat) : Int))
        else none := fun _ _ => rfl
  obtain ⟨c, rest, hpadded⟩ : ∃ c rest, padded 2 hours ++ ':' :: padded 2 minutes = c :: rest :=
    ⟨_, _, rfl⟩
  rw [List.cons_append, hpadded, hcons, ← hpadded, hhours, Option.bind_some]
  simp only [one, beq_self_eq_true, if_true, Option.bind_some, hminutes, if_neg hbounds]

theorem offset?_offsetChars {offset : Int} (h : offset.natAbs ≤ 23 * 60 + 59) :
    offset? (offsetChars offset) = some offset := by
  rw [offsetChars]
  split
  · rename_i hzero
    subst hzero
    rfl
  · rw [offset?_hours (by omega) (by omega)]
    have hback : offset.natAbs / 60 * 60 + offset.natAbs % 60 = offset.natAbs := by omega
    by_cases hneg : offset < 0
    · rw [if_pos hneg, if_neg (by decide), if_pos rfl, hback]
      congr 1
      omega
    · rw [if_neg hneg, if_pos rfl, hback]
      congr 1
      omega

/-! ## Whole timestamps -/

theorem one_eq {p : Char → Bool} {c : Char} (h : p c = true) (rest : List Char) :
    one p (c :: rest) = some rest := if_pos h

theorem chars_eq (t : Timestamp) :
    t.chars = padded 4 t.year ++ ('-' :: (padded 2 t.month ++ ('-' :: (padded 2 t.day ++ ('T' ::
      (padded 2 t.hour ++ (':' :: (padded 2 t.minute ++ (':' :: (padded 2 t.second ++
        (fractionChars t.nanosecond ++ offsetChars t.offset))))))))))) := by
  rw [chars]
  simp only [List.append_assoc, List.cons_append]

/-- A step of a reader that succeeds. -/
theorem bind_some_of_eq {α β : Type} {x : Option α} {a : α} {f : α → Option β} {b : β}
    (hx : x = some a) (hf : f a = some b) : (x >>= f) = some b := by
  rw [hx]
  exact hf

/-- A printable timestamp is read back as it was. -/
theorem parse?_render {t : Timestamp} (h : t.Printable) : parse? t.render = some t := by
  obtain ⟨hm1, hm12, hd1, hdlast⟩ := h.date
  have hlength : monthLength t.year t.month ≤ 31 := by
    rw [monthLength]
    split <;> split <;> omega
  have hyear : t.year % 10 ^ 4 = t.year :=
    Nat.mod_eq_of_lt (Nat.lt_of_le_of_lt h.year (by decide))
  have hdate : ¬ (t.month = 0 ∨ 12 < t.month ∨ t.day = 0 ∨ monthLength t.year t.month < t.day) := by
    omega
  have hhour := h.hour
  have hminute := h.minute
  have hsecond := h.second
  have htime : ¬ (23 < t.hour ∨ 59 < t.minute ∨ 60 < t.second) := by omega
  have hleap : ¬ t.second = 60 := by omega
  rw [render, parse?, String.toList_ofList, chars_eq]
  refine bind_some_of_eq ((digits_padded 4 t.year _).trans (by rw [hyear])) ?_
  refine bind_some_of_eq (one_eq rfl _) ?_
  refine bind_some_of_eq (digits_two (by omega) _) ?_
  refine bind_some_of_eq (one_eq rfl _) ?_
  refine bind_some_of_eq (digits_two (by omega) _) ?_
  refine bind_some_of_eq (one_eq rfl _) ?_
  refine bind_some_of_eq (digits_two (by omega) _) ?_
  refine bind_some_of_eq (one_eq rfl _) ?_
  refine bind_some_of_eq (digits_two (by omega) _) ?_
  refine bind_some_of_eq (one_eq rfl _) ?_
  refine bind_some_of_eq (digits_two (by omega) _) ?_
  refine bind_some_of_eq (fraction_fractionChars h.nanosecond (follows_offsetChars _)) ?_
  refine bind_some_of_eq (offset?_offsetChars h.offset) ?_
  rw [if_neg hdate, if_neg htime, if_neg hleap]

/-! ## What is read can be written -/

theorem digits_lt {w n : Nat} {cs rest : List Char} (h : digits w cs = some (n, rest)) :
    n < 10 ^ w := by
  induction w generalizing n cs with
  | zero =>
    obtain ⟨rfl, -⟩ := Prod.mk.inj (Option.some.inj h)
    exact Nat.one_pos
  | succ w ih =>
    cases cs with
    | nil => cases h
    | cons c cs =>
      rw [digits] at h
      split at h
      · rename_i hc
        obtain ⟨⟨m, more⟩, hmore, hpair⟩ := Option.map_eq_some_iff.mp h
        obtain ⟨rfl, rfl⟩ := Prod.mk.inj hpair
        have hdigit : c.toNat - '0'.toNat ≤ 9 := by
          have hbounds := Char.isDigit_iff_toNat.mp hc
          have hzero : '0'.toNat = 48 := rfl
          have hnine : '9'.toNat = 57 := rfl
          omega
        have hlead := Nat.mul_le_mul_right (10 ^ w) hdigit
        have hm := ih hmore
        rw [Nat.pow_succ]
        simp only [Nat.pow_eq]
        omega
      · cases h

theorem fraction_lt {n : Nat} {cs rest : List Char} (h : fraction cs = some (n, rest)) :
    n < 1000000000 := by
  rw [fraction.eq_def] at h
  split at h
  · simp only at h
    split at h
    · cases h
    · obtain ⟨⟨m, more⟩, hmore, hpair⟩ := Option.map_eq_some_iff.mp h
      obtain ⟨rfl, -⟩ := Prod.mk.inj hpair
      exact digits_lt hmore
  · obtain ⟨rfl, -⟩ := Prod.mk.inj (Option.some.inj h)
    decide

theorem offset?_le {cs : List Char} {offset : Int} (h : offset? cs = some offset) :
    offset.natAbs ≤ 23 * 60 + 59 := by
  rw [offset?.eq_def] at h
  split at h
  · split at h
    · obtain rfl := Option.some.inj h
      decide
    · cases h
  · obtain ⟨⟨hours, more⟩, -, h⟩ := Option.bind_eq_some_iff.mp h
    obtain ⟨rest, -, h⟩ := Option.bind_eq_some_iff.mp h
    obtain ⟨⟨minutes, last⟩, -, h⟩ := Option.bind_eq_some_iff.mp h
    simp only at h
    split at h
    · cases h
    · rename_i hbounds
      split at h
      · obtain rfl := Option.some.inj h
        omega
      · split at h
        · obtain rfl := Option.some.inj h
          omega
        · cases h
  · cases h

theorem printable_of_parse? {s : String} {t : Timestamp} (h : parse? s = some t) : t.Printable := by
  rw [parse?] at h
  obtain ⟨⟨year, cs⟩, hyear, h⟩ := Option.bind_eq_some_iff.mp h
  obtain ⟨cs, -, h⟩ := Option.bind_eq_some_iff.mp h
  obtain ⟨⟨month, cs⟩, -, h⟩ := Option.bind_eq_some_iff.mp h
  obtain ⟨cs, -, h⟩ := Option.bind_eq_some_iff.mp h
  obtain ⟨⟨day, cs⟩, -, h⟩ := Option.bind_eq_some_iff.mp h
  obtain ⟨cs, -, h⟩ := Option.bind_eq_some_iff.mp h
  obtain ⟨⟨hour, cs⟩, -, h⟩ := Option.bind_eq_some_iff.mp h
  obtain ⟨cs, -, h⟩ := Option.bind_eq_some_iff.mp h
  obtain ⟨⟨minute, cs⟩, -, h⟩ := Option.bind_eq_some_iff.mp h
  obtain ⟨cs, -, h⟩ := Option.bind_eq_some_iff.mp h
  obtain ⟨⟨second, cs⟩, -, h⟩ := Option.bind_eq_some_iff.mp h
  obtain ⟨⟨nanosecond, cs⟩, hnanosecond, h⟩ := Option.bind_eq_some_iff.mp h
  obtain ⟨offset, hoffset, h⟩ := Option.bind_eq_some_iff.mp h
  have hyear : year ≤ 9999 := Nat.le_of_lt_succ (digits_lt hyear)
  have hnanosecond := fraction_lt hnanosecond
  have hoffset := offset?_le hoffset
  simp only at h
  split at h
  · cases h
  rename_i hbounds
  have hdate : IsDate year month day := by
    rw [IsDate]
    omega
  split at h
  · cases h
  rename_i htime
  have hhour : hour ≤ 23 := by omega
  have hminute : minute ≤ 59 := by omega
  split at h
  · -- a leap second is the last instant before it
    split at h
    · obtain rfl := Option.some.inj h
      exact ⟨hyear, hdate, hhour, hminute, Nat.le_refl 59, Nat.le_refl 1000000000, hoffset⟩
    · cases h
  · obtain rfl := Option.some.inj h
    have hsecond : second ≤ 59 := by omega
    exact ⟨hyear, hdate, hhour, hminute, hsecond, hnanosecond, hoffset⟩

/-- The seconds since the start of 1970 whose year is written with four digits. -/
def InYears (now : Int) : Prop := -62167219200 ≤ now ∧ now ≤ 253402300799

instance (now : Int) : Decidable (InYears now) := inferInstanceAs (Decidable (_ ∧ _))

theorem printable_ofUnix {now : Int} (h : InYears now) : (ofUnix now).Printable := by
  obtain ⟨hlow, hhigh⟩ := h
  have hdays : -719528 ≤ now / 86400 ∧ now / 86400 ≤ 2932896 := by omega
  obtain ⟨hyear0, hyear9999⟩ := dateOf_year hdays
  have hdate := dateOf_isDate (now / 86400)
  have hback : ((dateOf (now / 86400)).1.toNat : Int) = (dateOf (now / 86400)).1 :=
    Int.toNat_of_nonneg hyear0
  refine ⟨?_, ?_, ?_, ?_, ?_, Nat.le_of_ble_eq_true rfl, Nat.zero_le _⟩
  · show (dateOf (now / 86400)).1.toNat ≤ 9999
    omega
  · show IsDate ((dateOf (now / 86400)).1.toNat : Int) _ _
    rw [hback]
    exact hdate
  · show (now % 86400).toNat / 3600 ≤ 23
    omega
  · show (now % 86400).toNat / 60 % 60 ≤ 59
    omega
  · show (now % 86400).toNat % 60 ≤ 59
    omega

theorem read_string (source : Json.Source) (s : String) :
    codec.read source (.string s) = match parse? s with
      | some t => .ok t
      | none => .error Json.DecodeError.invalidDate := rfl

theorem keeps {t : Timestamp} (h : t.Printable) : codec.Keeps t := fun source => by
  have hdoc : Json.Doc.ofValue (codec.write t) = .string t.render := rfl
  rw [hdoc, read_string, parse?_render h]

theorem printable_of_read {source : Json.Source} {d : Json.Doc} {t : Timestamp}
    (h : codec.read source d = .ok t) : t.Printable := by
  cases d with
  | string s =>
    rw [read_string] at h
    cases hs : parse? s with
    | none =>
      rw [hs] at h
      cases h
    | some u =>
      rw [hs] at h
      obtain rfl := Except.ok.inj h
      exact printable_of_parse? hs
  | _ => exact absurd h (Json.refuse_ne_ok _ _ _)

end Timestamp
end FleetMesh
