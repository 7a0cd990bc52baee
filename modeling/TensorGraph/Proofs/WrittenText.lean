import Mathlib.Data.List.DropRight
import Mathlib.Data.List.Induction
import TensorGraph.Text.Blank
import TensorGraph.Text.Numeral

/-!
# Blanks, pieces and numerals of texts

A text with blanks around it is trimmed to the text (`Padded`, `trim_of_padded`), and every text is
its trimmed form with blanks around it (`padded_trim`). Cutting at a character and trimming the
pieces does not see blanks around the whole (`map_trim_splitOn_of_padded`). A number is read off
exactly the texts that write it, with zeros and a plus sign in front of its digits or without
(`Writes`, `readNumeral?_eq_some_iff`).
-/

namespace TensorGraph.Text

/-! ## Trimming -/

/-- The text has no characters but blanks. -/
def Blank (cs : List Char) : Prop :=
  ∀ c ∈ cs, isBlank c = true

instance : DecidablePred Blank := fun cs =>
  decidable_of_iff (cs.all isBlank = true) List.all_eq_true

/-- The second text is the first one with blanks around it. -/
def Padded (core text : List Char) : Prop :=
  ∃ before after, Blank before ∧ Blank after ∧ text = before ++ core ++ after

/-- The text neither begins nor ends with a blank. -/
structure Bare (cs : List Char) : Prop where
  head : ∀ c, cs.head? = some c → isBlank c = false
  last : ∀ c, cs.getLast? = some c → isBlank c = false

section Ends

variable {p : Char → Bool} {cs : List Char}

theorem dropEndWhile_eq_rdropWhile : dropEndWhile p cs = cs.rdropWhile p := rfl

theorem dropWhile_of_forall_not (h : ∀ c ∈ cs, p c = false) : cs.dropWhile p = cs := by
  cases cs with
  | nil => rfl
  | cons c rest => exact List.dropWhile_cons_of_neg (by simp [h c])

theorem dropEndWhile_of_forall_not (h : ∀ c ∈ cs, p c = false) : dropEndWhile p cs = cs := by
  rw [dropEndWhile, dropWhile_of_forall_not (by simpa using h), List.reverse_reverse]

theorem dropEndWhile_append_of_forall {after : List Char} (h : ∀ c ∈ after, p c = true) :
    dropEndWhile p (cs ++ after) = dropEndWhile p cs := by
  rw [dropEndWhile, List.reverse_append, List.dropWhile_append_of_pos (by simpa using h),
    dropEndWhile]

/-- Dropping stops at the first character that is not dropped. -/
theorem dropWhile_append_cons {c : Char} (hc : p c = false) (after : List Char) :
    (cs ++ c :: after).dropWhile p = cs.dropWhile p ++ c :: after := by
  rw [List.dropWhile_append, List.dropWhile_cons_of_neg (by simp [hc])]
  split_ifs with hempty
  · rw [List.isEmpty_iff.1 hempty, List.nil_append]
  · rfl

theorem dropEndWhile_append_cons {c : Char} (hc : p c = false) (after : List Char) :
    dropEndWhile p (cs ++ c :: after) = cs ++ c :: dropEndWhile p after := by
  have hback : (cs ++ c :: after).reverse = after.reverse ++ c :: cs.reverse := by simp
  rw [dropEndWhile, hback, dropWhile_append_cons hc, dropEndWhile]
  simp

end Ends

section Trim

variable {cs core text before after : List Char}

theorem trim_append_left (h : Blank before) : trim (before ++ cs) = trim cs := by
  rw [trim, List.dropWhile_append_of_pos h, trim]

theorem trim_append_right (h : Blank after) : trim (cs ++ after) = trim cs := by
  rw [trim, List.dropWhile_append, trim]
  split_ifs with hempty
  · rw [List.isEmpty_iff.1 hempty, List.dropWhile_eq_nil_iff.2 h]
  · exact dropEndWhile_append_of_forall h

theorem trim_append_cons {c : Char} (hc : isBlank c = false) :
    trim (before ++ c :: after) = before.dropWhile isBlank ++ c :: dropEndWhile isBlank after := by
  rw [trim, dropWhile_append_cons hc, dropEndWhile_append_cons hc]

theorem trim_of_padded (h : Padded core text) : trim text = trim core := by
  obtain ⟨before, after, hbefore, hafter, rfl⟩ := h
  rw [trim_append_right hafter, trim_append_left hbefore]

theorem padded_dropWhile (cs : List Char) : Padded (cs.dropWhile isBlank) cs :=
  ⟨cs.takeWhile isBlank, [], fun _ hc => List.mem_takeWhile_imp hc,
    fun _ hc => absurd hc List.not_mem_nil, by simp⟩

theorem padded_trim (cs : List Char) : Padded (trim cs) cs := by
  refine ⟨cs.takeWhile isBlank, (cs.dropWhile isBlank).rtakeWhile isBlank,
    fun _ hc => List.mem_takeWhile_imp hc, fun _ hc => List.mem_rtakeWhile_imp hc, ?_⟩
  rw [trim, dropEndWhile_eq_rdropWhile, List.append_assoc, List.rdropWhile_append_rtakeWhile,
    List.takeWhile_append_dropWhile]

theorem trim_of_bare (h : Bare cs) : trim cs = cs := by
  have hfront : cs.dropWhile isBlank = cs := by
    cases cs with
    | nil => rfl
    | cons c rest => exact List.dropWhile_cons_of_neg (by simp [h.head c rfl])
  rw [trim, hfront, dropEndWhile_eq_rdropWhile, List.rdropWhile_eq_self_iff]
  intro hne hblank
  rw [h.last _ (List.getLast?_eq_some_getLast hne)] at hblank
  cases hblank

theorem bare_trim (cs : List Char) : Bare (trim cs) := by
  refine ⟨fun c hc => ?_, fun c hc => ?_⟩
  · rw [trim] at hc
    cases hfront : cs.dropWhile isBlank with
    | nil => simp [hfront, dropEndWhile] at hc
    | cons d rest =>
      have hd : isBlank d = false := by
        have hnot := List.head?_dropWhile_not isBlank cs
        simpa [hfront] using hnot
      have hkeep := @dropEndWhile_append_cons isBlank [] d hd rest
      rw [List.nil_append, List.nil_append] at hkeep
      rw [hfront, hkeep, List.head?_cons, Option.some.injEq] at hc
      exact hc ▸ hd
  · have hne : trim cs ≠ [] := by
      rintro hnil
      simp [hnil] at hc
    rw [List.getLast?_eq_some_getLast hne, Option.some.injEq] at hc
    have hlast : ¬isBlank ((trim cs).getLast hne) :=
      List.rdropWhile_last_not isBlank (cs.dropWhile isBlank) hne
    exact hc ▸ Bool.eq_false_iff.2 hlast

theorem trim_trim (cs : List Char) : trim (trim cs) = trim cs :=
  trim_of_bare (bare_trim cs)

theorem trim_eq_nil_iff : trim cs = [] ↔ Blank cs := by
  constructor
  · intro h
    obtain ⟨before, after, hbefore, hafter, hcs⟩ := padded_trim cs
    rw [h, List.append_nil] at hcs
    rw [hcs]
    exact fun c hc => (List.mem_append.1 hc).elim (hbefore c) (hafter c)
  · intro h
    rw [trim, List.dropWhile_eq_nil_iff.2 h]
    rfl

end Trim

/-! ## Pieces -/

theorem pieces_eq_splitOn (c : Char) (cs : List Char) : pieces (· == c) cs = cs.splitOn c := by
  induction cs with
  | nil => rfl
  | cons d rest ih =>
    rw [pieces, List.splitOn_cons_eq_if_modifyHead, ih]
    split_ifs
    · rfl
    · cases h : rest.splitOn c with
      | nil => exact absurd h (List.splitOn_ne_nil c rest)
      | cons piece others => rfl

variable {c : Char}

/-- Blanks in front belong to the first piece. -/
theorem map_trim_splitOn_append_left (hc : isBlank c = false) {before : List Char}
    (h : Blank before) (cs : List Char) :
    ((before ++ cs).splitOn c).map trim = (cs.splitOn c).map trim := by
  induction before with
  | nil => rfl
  | cons b before ih =>
    have hb : isBlank b = true := h b (by simp)
    have hne : (b == c) = false := by
      simp only [beq_eq_false_iff_ne, ne_eq]
      rintro rfl
      simp [hb] at hc
    rw [List.cons_append, List.splitOn_cons_eq_if_modifyHead, hne, if_neg Bool.false_ne_true,
      ← ih fun d hd => h d (List.mem_cons_of_mem b hd)]
    cases (before ++ cs).splitOn c with
    | nil => rfl
    | cons piece others =>
      have hblank : Blank [b] := by simpa [Blank] using hb
      have htrim : trim (b :: piece) = trim piece := trim_append_left hblank
      simp [htrim]

/-- What follows without a cut belongs to the last piece. -/
theorem exists_splitOn_append_right {after : List Char} (h : c ∉ after) (cs : List Char) :
    ∃ init last, cs.splitOn c = init ++ [last] ∧
      (cs ++ after).splitOn c = init ++ [last ++ after] := by
  induction cs with
  | nil => exact ⟨[], [], rfl, by simpa using List.splitOn_eq_singleton h⟩
  | cons d rest ih =>
    obtain ⟨init, last, hrest, happend⟩ := ih
    rw [List.cons_append, List.splitOn_cons_eq_if_modifyHead, List.splitOn_cons_eq_if_modifyHead,
      hrest, happend]
    split_ifs
    · exact ⟨[] :: init, last, rfl, rfl⟩
    · cases init with
      | nil => exact ⟨[], d :: last, rfl, rfl⟩
      | cons piece init => exact ⟨(d :: piece) :: init, last, rfl, rfl⟩

theorem map_trim_splitOn_of_padded (hc : isBlank c = false) {core text : List Char}
    (h : Padded core text) :
    (text.splitOn c).map trim = (core.splitOn c).map trim := by
  obtain ⟨before, after, hbefore, hafter, rfl⟩ := h
  have hnot : c ∉ after := fun hmem => by simp [hafter c hmem] at hc
  obtain ⟨init, last, hsplit, hsplit'⟩ := exists_splitOn_append_right hnot (before ++ core)
  rw [← map_trim_splitOn_append_left hc hbefore core, hsplit', hsplit, List.map_append,
    List.map_append, List.map_singleton, List.map_singleton, trim_append_right hafter]

/-! ## Cutting at the last of a character -/

theorem cutLast_eq_some_iff {cs stem suffix : List Char} :
    cutLast c cs = some (stem, suffix) ↔ cs = stem ++ c :: suffix ∧ c ∉ suffix := by
  constructor
  · intro h
    have hcut : cs.reverse.takeWhile (· != c) ++ cs.reverse.dropWhile (· != c) = cs.reverse :=
      List.takeWhile_append_dropWhile
    unfold cutLast at h
    cases hdrop : cs.reverse.dropWhile (· != c) with
    | nil => simp [hdrop] at h
    | cons d back =>
      obtain ⟨rfl, rfl⟩ : back.reverse = stem ∧
        (cs.reverse.takeWhile (· != c)).reverse = suffix := by
        simpa [hdrop] using h
      obtain rfl : d = c := by
        have hnot := List.head?_dropWhile_not (· != c) cs.reverse
        simpa [hdrop] using hnot
      refine ⟨?_, fun hmem => ?_⟩
      · rw [hdrop] at hcut
        simpa using (congrArg List.reverse hcut).symm
      · simpa using List.mem_takeWhile_imp (p := (· != d)) (List.mem_reverse.1 hmem)
  · rintro ⟨rfl, h⟩
    have hall : ∀ d ∈ suffix.reverse, (d != c) = true := fun d hd => by
      simpa using ne_of_mem_of_not_mem (List.mem_reverse.1 hd) h
    have hback : (stem ++ c :: suffix).reverse = suffix.reverse ++ c :: stem.reverse := by simp
    simp only [cutLast, hback]
    rw [List.dropWhile_append_of_pos hall, List.dropWhile_cons_of_neg (by simp),
      List.takeWhile_append_of_pos hall, List.takeWhile_cons_of_neg (by simp)]
    simp

/-! ## Numerals -/

/-- The text writes the number in decimal digits, with any zeros in front and at most one plus sign
before them. -/
def Writes (n : Nat) (cs : List Char) : Prop :=
  ∃ sign zeros, (sign = [] ∨ sign = ['+']) ∧
    cs = sign ++ List.replicate zeros '0' ++ (toString n).toList

theorem writes_toString (n : Nat) : Writes n (toString n).toList :=
  ⟨[], 0, Or.inl rfl, rfl⟩

theorem digitsValue_concat (cs : List Char) (c : Char) :
    digitsValue (cs ++ [c]) = 10 * digitsValue cs + digitValue c := by
  simp [digitsValue, List.foldl_append]

theorem digitsValue_replicate_append (zeros : Nat) (cs : List Char) :
    digitsValue (List.replicate zeros '0' ++ cs) = digitsValue cs := by
  induction zeros with
  | zero => rfl
  | succ zeros ih => exact ih

/-- A digit is the one that its value has. -/
theorem toDigits_digitValue (h : c.isDigit = true) :
    digitValue c < 10 ∧ Nat.toDigits 10 (digitValue c) = [c] := by
  obtain ⟨hlow, hhigh⟩ := Char.isDigit_iff_toNat.1 h
  have hzero : '0'.toNat = 48 := rfl
  have hnine : '9'.toNat = 57 := rfl
  have hlt : digitValue c < 10 := by
    rw [digitValue]
    omega
  have hchar : (digitValue c).digitChar = c := by
    rw [← Char.toNat_inj, Nat.toNat_digitChar_of_lt_ten hlt, digitValue]
    omega
  exact ⟨hlt, by rw [Nat.toDigits_of_lt_base hlt, hchar]⟩

/-- Digits are zeros and then the digits that their value has. -/
theorem exists_eq_replicate_append_toDigits {cs : List Char} (hne : cs ≠ [])
    (h : ∀ c ∈ cs, c.isDigit = true) :
    ∃ zeros, cs = List.replicate zeros '0' ++ Nat.toDigits 10 (digitsValue cs) := by
  induction cs using List.reverseRecOn with
  | nil => exact absurd rfl hne
  | append_singleton cs c ih =>
    obtain ⟨hlt, hdigit⟩ := toDigits_digitValue (h c (by simp))
    rw [digitsValue_concat]
    by_cases hnil : cs = []
    · subst hnil
      exact ⟨0, by simpa [digitsValue] using hdigit.symm⟩
    · obtain ⟨zeros, hzeros⟩ := ih hnil fun d hd => h d (by simp [hd])
      rcases Nat.eq_zero_or_pos (digitsValue cs) with hvalue | hvalue
      · -- Only zeros were read so far, and the last of them is no longer the digit of a value.
        rw [hvalue, Nat.toDigits_zero, ← List.replicate_one, List.replicate_append_replicate]
          at hzeros
        exact ⟨zeros + 1, by rw [hvalue, Nat.mul_zero, Nat.zero_add, hdigit, ← hzeros]⟩
      · refine ⟨zeros, ?_⟩
        rw [← Nat.toDigits_append_toDigits (by decide) hvalue hlt, hdigit, ← List.append_assoc,
          ← hzeros]

theorem isDigit_of_mem_zeros_append {zeros n : Nat}
    (h : c ∈ List.replicate zeros '0' ++ Nat.toDigits 10 n) :
    c.isDigit = true := by
  rcases List.mem_append.1 h with hc | hc
  · rw [List.eq_of_mem_replicate hc]
    rfl
  · exact Nat.isDigit_of_mem_toDigits (by decide) (by decide) hc

theorem readDigits?_eq_some_iff {n bound : Nat} {cs : List Char} : readDigits? bound cs = some n ↔
    n ≤ bound ∧ ∃ zeros, cs = List.replicate zeros '0' ++ Nat.toDigits 10 n := by
  constructor
  · intro h
    simp only [readDigits?, Bool.or_eq_true, List.isEmpty_iff, Bool.not_eq_true'] at h
    split_ifs at h with hbad hle
    obtain rfl := Option.some.inj h
    rw [not_or, Bool.not_eq_false, List.all_eq_true] at hbad
    exact ⟨hle, exists_eq_replicate_append_toDigits hbad.1 hbad.2⟩
  · rintro ⟨hle, zeros, rfl⟩
    have hdigits : (List.replicate zeros '0' ++ Nat.toDigits 10 n).all Char.isDigit = true :=
      List.all_eq_true.2 fun c hc => isDigit_of_mem_zeros_append hc
    have hvalue : digitsValue (List.replicate zeros '0' ++ Nat.toDigits 10 n) = n :=
      (digitsValue_replicate_append zeros _).trans Nat.ofDigitChars_ten_toDigits
    simp [readDigits?, hdigits, hvalue, hle]

/-- Only a plus sign is not read as part of the digits. -/
theorem readNumeral?_of_head_ne {cs : List Char} (h : cs.head? ≠ some '+') (bound : Nat) :
    readNumeral? bound cs = readDigits? bound cs := by
  unfold readNumeral?
  split
  · simp at h
  · rfl

/-- What is read as a number is what writes it. -/
theorem readNumeral?_eq_some_iff {n bound : Nat} {cs : List Char} :
    readNumeral? bound cs = some n ↔ n ≤ bound ∧ Writes n cs := by
  have hlist : (toString n).toList = Nat.toDigits 10 n := Nat.toList_repr
  simp only [Writes, hlist]
  by_cases hhead : cs.head? = some '+'
  · obtain ⟨ds, rfl⟩ := List.head?_eq_some_iff.1 hhead
    rw [show readNumeral? bound ('+' :: ds) = readDigits? bound ds from rfl,
      readDigits?_eq_some_iff]
    refine and_congr_right fun _ => ⟨?_, ?_⟩
    · rintro ⟨zeros, rfl⟩
      exact ⟨['+'], zeros, Or.inr rfl, rfl⟩
    · rintro ⟨sign, zeros, rfl | rfl, h⟩
      · -- A plus sign is no digit.
        have hplus : '+' ∈ List.replicate zeros '0' ++ Nat.toDigits 10 n := by
          rw [← List.nil_append (List.replicate zeros '0'), ← h]
          simp
        exact absurd (isDigit_of_mem_zeros_append hplus) (by decide)
      · exact ⟨zeros, (List.cons.inj h).2⟩
  · rw [readNumeral?_of_head_ne hhead, readDigits?_eq_some_iff]
    refine and_congr_right fun _ => ⟨?_, ?_⟩
    · rintro ⟨zeros, h⟩
      exact ⟨[], zeros, Or.inl rfl, h⟩
    · rintro ⟨sign, zeros, rfl | rfl, rfl⟩
      · exact ⟨zeros, rfl⟩
      · simp at hhead

theorem readNumeral?_toString {n bound : Nat} (h : n ≤ bound) :
    readNumeral? bound (toString n).toList = some n :=
  readNumeral?_eq_some_iff.2 ⟨h, writes_toString n⟩

theorem le_of_readNumeral? {n bound : Nat} {cs : List Char} (h : readNumeral? bound cs = some n) :
    n ≤ bound :=
  (readNumeral?_eq_some_iff.1 h).1

/-- No way to write a number has an underscore. -/
theorem Writes.not_mem_underscore {n : Nat} {cs : List Char} (h : Writes n cs) : '_' ∉ cs := by
  obtain ⟨sign, zeros, hsign, rfl⟩ := h
  intro hmem
  rw [List.append_assoc] at hmem
  rcases List.mem_append.1 hmem with hmem | hmem
  · rcases hsign with rfl | rfl <;> simp at hmem
  · exact absurd (isDigit_of_mem_zeros_append (Nat.toList_repr ▸ hmem)) (by decide)

end TensorGraph.Text
