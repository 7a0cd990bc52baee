import Mathlib.Data.List.Forall2
import TensorGraph.Proofs.WrittenText
import TensorGraph.Shape.Spec

/-!
# Written shapes and what is read from them

A shape is written as its entries in words, divided by commas (`InputSpec.Writes`). Every way of
writing a shape with valid entries is read back as the shape (`InputSpec.parse_of_writes`), what is
read has valid entries only (`InputSpec.valid_of_parse`) and is read from its JSON form as well
(`InputSpec.ofJson_json`), and a comma with nothing but blanks before it is refused
(`InputSpec.parse_of_blank_entry`).
-/

namespace TensorGraph

/-! ## Reading a list of entries -/

section Entries

variable {α β ε : Type} {f : α → Except ε β}

theorem Except.mapM_map_eq_ok {g : β → α} {ys : List β} (h : ∀ y ∈ ys, f (g y) = .ok y) :
    (ys.map g).mapM f = .ok ys := by
  induction ys with
  | nil => rfl
  | cons y ys ih =>
    rw [List.map_cons, List.mapM_cons, h y (by simp),
      ih fun z hz => h z (List.mem_cons_of_mem y hz)]
    rfl

theorem Except.exists_of_mem_mapM {xs : List α} {ys : List β} (h : xs.mapM f = .ok ys) {y : β}
    (hy : y ∈ ys) :
    ∃ x ∈ xs, f x = .ok y := by
  induction xs generalizing ys with
  | nil =>
    cases h
    cases hy
  | cons x xs ih =>
    rw [List.mapM_cons] at h
    cases hx : f x with
    | error e => simp [hx, bind, Except.bind] at h
    | ok z =>
      cases hxs : xs.mapM f with
      | error e => simp [hx, hxs, bind, Except.bind] at h
      | ok zs =>
        have hcons : z :: zs = ys := by
          simpa [hx, hxs, bind, Except.bind, pure, Except.pure] using h
        rcases List.mem_cons.1 (hcons ▸ hy) with rfl | hmem
        · exact ⟨x, by simp, hx⟩
        · obtain ⟨x', hx', hfx'⟩ := ih hxs hmem
          exact ⟨x', List.mem_cons_of_mem x hx', hfx'⟩

/-- One refused entry is enough; the failure is that of the first. -/
theorem Except.exists_mapM_eq_error {P : ε → Prop} (hf : ∀ x e, f x = .error e → P e) {xs : List α}
    (hbad : ∃ x ∈ xs, ∃ e, f x = .error e) : ∃ e, xs.mapM f = .error e ∧ P e := by
  induction xs with
  | nil =>
    obtain ⟨x, hx, -⟩ := hbad
    cases hx
  | cons x xs ih =>
    rw [List.mapM_cons]
    cases hx : f x with
    | error e => exact ⟨e, rfl, hf x e hx⟩
    | ok y =>
      have hrest : ∃ x' ∈ xs, ∃ e, f x' = .error e := by
        obtain ⟨x', hmem, e, he⟩ := hbad
        rcases List.mem_cons.1 hmem with rfl | hmem
        · rw [hx] at he
          cases he
        · exact ⟨x', hmem, e, he⟩
      obtain ⟨e, he, hP⟩ := ih hrest
      exact ⟨e, by rw [he]; rfl, hP⟩

end Entries

/-! ## Entries -/

/-- Is the character a letter of the alphabet, of either case? -/
def IsLetter (c : Char) : Prop :=
  ('A' ≤ c ∧ c ≤ 'Z') ∨ ('a' ≤ c ∧ c ≤ 'z')

/-- A letter or an underscore, and after it letters, digits and underscores. -/
def IsIdentifier (name : String) : Prop :=
  ∃ c cs, name.toList = c :: cs ∧ (IsLetter c ∨ c = '_') ∧ ∀ d ∈ cs, IsLetter d ∨
    ('0' ≤ d ∧ d ≤ '9') ∨ d = '_'

theorem isLetter_iff {c : Char} :
    IsLetter c ↔ (65 ≤ c.toNat ∧ c.toNat ≤ 90) ∨ (97 ≤ c.toNat ∧ c.toNat ≤ 122) :=
  Iff.rfl

theorem isAlpha_iff {c : Char} : c.isAlpha = true ↔ IsLetter c := by
  have hupper : c.isUpper = true ↔ 'A' ≤ c ∧ c ≤ 'Z' := decide_eq_true_iff
  have hlower : c.isLower = true ↔ 'a' ≤ c ∧ c ≤ 'z' :=
    Bool.and_eq_true_iff.trans (and_congr decide_eq_true_iff decide_eq_true_iff)
  exact Bool.or_eq_true_iff.trans (or_congr hupper hlower)

theorem isAlphanum_iff {c : Char} : c.isAlphanum = true ↔ IsLetter c ∨ ('0' ≤ c ∧ c ≤ '9') := by
  rw [Char.isAlphanum, Bool.or_eq_true, isAlpha_iff]
  simp [Char.isDigit, Char.le_def]

theorem isSymbolName_iff {name : String} : isSymbolName name.toList = true ↔ IsIdentifier name := by
  unfold IsIdentifier
  cases name.toList with
  | nil => simp [isSymbolName]
  | cons c cs => simp [isSymbolName, isAlpha_iff, isAlphanum_iff, or_assoc]

namespace DimSpec

/-- The length fits a 64-bit word, the name is an identifier. -/
def Valid : DimSpec → Prop
  | .fixed n => n < Nat.pow 2 64
  | .symbol name => IsIdentifier name

/-- An entry as JSON: a number or a text. -/
def json : DimSpec → Json
  | .fixed n => .nat n
  | .symbol name => .str name

variable {d : DimSpec}

theorem ofJson_json (h : d.Valid) : ofJson d.json = .ok d := by
  cases d with
  | fixed n => simp [ofJson, json, Json.nat]
  | symbol name => simp [ofJson, json, isSymbolName_iff.2 h]

/-- The characters of an entry in words lie between the digit zero and the letter z: blanks, commas
and parentheses do not. -/
theorem toNat_of_mem_text (h : d.Valid) {c : Char} (hc : c ∈ d.text.toList) :
    48 ≤ c.toNat ∧ c.toNat ≤ 122 := by
  have hword : IsLetter c ∨ ('0' ≤ c ∧ c ≤ '9') ∨ c = '_' := by
    cases d with
    | fixed n =>
      have hdigit : c.isDigit = true :=
        Nat.isDigit_of_mem_toDigits (by decide) (by decide) (Nat.toList_repr ▸ hc)
      exact .inr (.inl (by simpa [Char.isDigit, Char.le_def] using hdigit))
    | symbol name =>
      obtain ⟨first, rest, hname, hfirst, hrest⟩ := h
      rw [text, hname] at hc
      rcases List.mem_cons.1 hc with rfl | hmem
      · exact hfirst.imp_right .inr
      · exact hrest c hmem
  rw [isLetter_iff] at hword
  rcases hword with hletter | hdigit | rfl
  · omega
  · exact ⟨hdigit.1, le_trans hdigit.2 (by decide)⟩
  · decide

theorem not_isBlank_of_mem_text (h : d.Valid) {c : Char} (hc : c ∈ d.text.toList) :
    Text.isBlank c = false := by
  obtain ⟨hlow, hhigh⟩ := toNat_of_mem_text h hc
  simp only [Text.isBlank, Bool.or_eq_false_iff, Bool.and_eq_false_iff, decide_eq_false_iff_not,
    beq_eq_false_iff_ne]
  omega

theorem bare_text (h : d.Valid) : Text.Bare d.text.toList :=
  ⟨fun _ hc => not_isBlank_of_mem_text h (List.mem_of_head? hc),
    fun _ hc => not_isBlank_of_mem_text h (List.mem_of_getLast? hc)⟩

theorem toList_text_ne_nil (h : d.Valid) : d.text.toList ≠ [] := by
  cases d with
  | fixed n => exact Nat.toList_repr ▸ Nat.toDigits_ne_nil
  | symbol name =>
    obtain ⟨first, rest, hname, -⟩ := h
    simp [text, hname]

theorem readNumeral?_symbolName {name : String} (h : IsIdentifier name) (bound : Nat) :
    Text.readNumeral? bound name.toList = none := by
  obtain ⟨first, rest, hname, hfirst, -⟩ := h
  have hplus : name.toList.head? ≠ some '+' := by
    rw [hname, List.head?_cons]
    rintro ⟨⟩
    rcases hfirst with hfirst | hfirst
    · exact absurd (isAlpha_iff.2 hfirst) (by decide)
    · exact absurd hfirst (by decide)
  have hdigit : first.isDigit = false := by
    rcases hfirst with hletter | rfl
    · have hhigh : ¬first.toNat ≤ 57 := by
        rw [isLetter_iff] at hletter
        omega
      exact Bool.eq_false_iff.2 fun hdigit =>
        hhigh (of_decide_eq_true (Bool.and_eq_true_iff.1 hdigit).2)
    · decide
  rw [Text.readNumeral?_of_head_ne hplus, hname]
  simp [Text.readDigits?, hdigit]

theorem parse_text (h : d.Valid) : parse d.text.toList = .ok d := by
  rw [parse, Text.trim_of_bare (bare_text h)]
  cases d with
  | fixed n =>
    have hread : Text.readNumeral? Text.wordMax (fixed n).text.toList = some n :=
      Text.readNumeral?_toString (Nat.le_of_lt_succ h)
    simp only [hread]
  | symbol name => simp [text, readNumeral?_symbolName h, isSymbolName_iff.2 h]

theorem valid_of_parse {cs : List Char} (h : parse cs = .ok d) : d.Valid := by
  simp only [parse] at h
  split at h
  · next n hn =>
    cases h
    exact Nat.lt_succ_of_le (Text.le_of_readNumeral? hn)
  · split_ifs at h with hname
    cases h
    exact isSymbolName_iff.1 (by rwa [String.toList_ofList])

theorem kind_of_parse_eq_error {cs : List Char} {e : Failure} (h : parse cs = .error e) :
    e.kind = .malformedInputSpec := by
  simp only [parse] at h
  split at h
  · cases h
  · split_ifs at h
    cases h
    rfl

end DimSpec

namespace InputSpec

/-! ## One entry after the other -/

/-- Read one entry of the written shape `text`. -/
def readEntry (text : String) (entry : List Char) : Except Failure DimSpec :=
  if (Text.trim entry).isEmpty then
    .error (.malformedSpec ("shape '" ++ Text.trimmed text ++ "' has an empty entry"))
  else DimSpec.parse entry

theorem parse_eq (text : String) (dtype : DType) :
    parse text dtype = if body text.toList = [] then .ok ⟨[], dtype⟩
      else (((dropComma (body text.toList)).splitOn ',').mapM (readEntry text)).map
        (⟨·, dtype⟩) := by
  have hfold : parse text dtype = if (body text.toList).isEmpty then .ok ⟨[], dtype⟩ else do
      let shape ← (Text.pieces (· == ',') (dropComma (body text.toList))).mapM (readEntry text)
      return ⟨shape, dtype⟩ := rfl
  rw [hfold, Text.pieces_eq_splitOn]
  simp only [List.isEmpty_iff]
  split_ifs
  · rfl
  · cases ((dropComma (body text.toList)).splitOn ',').mapM (readEntry text) <;> rfl

variable {text : String}

theorem readEntry_trim (entry : List Char) :
    readEntry text (Text.trim entry) = readEntry text entry := by
  rw [readEntry, readEntry, DimSpec.parse, DimSpec.parse, Text.trim_trim]

theorem kind_of_readEntry_eq_error {entry : List Char} {e : Failure}
    (h : readEntry text entry = .error e) :
    e.kind = .malformedInputSpec := by
  unfold readEntry at h
  split_ifs at h
  · cases h
    rfl
  · exact DimSpec.kind_of_parse_eq_error h

theorem valid_of_readEntry {entry : List Char} {d : DimSpec} (h : readEntry text entry = .ok d) :
    d.Valid := by
  unfold readEntry at h
  split_ifs at h
  exact DimSpec.valid_of_parse h

theorem readEntry_text {d : DimSpec} (h : d.Valid) : readEntry text d.text.toList = .ok d := by
  rw [readEntry, Text.trim_of_bare (DimSpec.bare_text h),
    if_neg (by simpa using DimSpec.toList_text_ne_nil h), DimSpec.parse_text h]

/-! ## Ways of writing a shape -/

/-- The text writes the shape: its entries in words, with blanks around each, divided by commas. A
comma may stand after the last entry, and parentheses and blanks around the whole. -/
def Writes (shape : List DimSpec) (text : List Char) : Prop :=
  ∃ entries comma inner,
    List.Forall₂ Text.Padded (shape.map fun d => d.text.toList) entries ∧
    (comma = [] ∨ comma = [','] ∧ shape ≠ []) ∧
    Text.Padded ([','].intercalate entries ++ comma) inner ∧
    (text = inner ∨ Text.Padded ('(' :: inner ++ [')']) text)

/-- A shape in words is the plainest way of writing it. -/
theorem writes_text (spec : InputSpec) : Writes spec.shape spec.text.toList := by
  have hplain : ∀ cs, Text.Padded cs cs := fun cs => ⟨[], [], by decide, by decide, by simp⟩
  refine ⟨_, [], spec.text.toList, List.forall₂_same.2 fun cs _ => hplain cs, .inl rfl, ?_,
    .inl rfl⟩
  have hwords : spec.text.toList = [','].intercalate (spec.shape.map fun d => d.text.toList) := by
    rw [InputSpec.text, String.toList_intercalate, List.map_map]
    rfl
  rw [hwords, List.append_nil]
  exact hplain _

/-- Parentheses around a text without parentheses are no part of it. -/
theorem body_of_enclosed {inner text : List Char} (hparens : ∀ c ∈ inner, c ≠ '(' ∧ c ≠ ')')
    (h : text = inner ∨ Text.Padded ('(' :: inner ++ [')']) text) :
    body text = Text.trim inner := by
  have hopening : ∀ c ∈ inner, (c == '(') = false := fun c hc => by simpa using (hparens c hc).1
  have hclosing : ∀ c ∈ inner, (c == ')') = false := fun c hc => by simpa using (hparens c hc).2
  rcases h with rfl | h
  · have hsub : Text.trim text ⊆ text := by
      obtain ⟨before, after, -, -, htext⟩ := Text.padded_trim text
      intro c hc
      rw [htext]
      simp [hc]
    rw [body, Text.dropWhile_of_forall_not fun c hc => hopening c (hsub hc),
      Text.dropEndWhile_of_forall_not fun c hc => hclosing c (hsub hc), Text.trim_trim]
  · have hbare : Text.Bare ('(' :: inner ++ [')']) := by
      constructor
      · rintro c ⟨⟩
        decide
      · intro c hc
        rw [List.getLast?_concat, Option.some.injEq] at hc
        subst hc
        decide
    have hfront : (inner ++ [')']).dropWhile (· == '(') = inner ++ [')'] :=
      Text.dropWhile_of_forall_not fun c hc => by
        rcases List.mem_append.1 hc with hc | hc
        · exact hopening c hc
        · rw [List.mem_singleton.1 hc]
          decide
    rw [body, Text.trim_of_padded h, Text.trim_of_bare hbare, List.cons_append,
      List.dropWhile_cons_of_pos (by decide), hfront, Text.dropEndWhile_append_of_forall (by simp),
      Text.dropEndWhile_of_forall_not hclosing]

theorem dropComma_concat (cs : List Char) (c : Char) :
    dropComma (cs ++ [c]) = if c = ',' then cs else cs ++ [c] := by
  simp [dropComma]

/-- Without a comma at its end a text whose pieces are not blank keeps all of them, and with one as
well. -/
theorem map_trim_splitOn_dropComma {joined comma : List Char} (hcomma : comma = [] ∨ comma = [','])
    (hpieces : ∀ piece ∈ joined.splitOn ',', Text.trim piece ≠ []) :
    ((dropComma (Text.trim (joined ++ comma))).splitOn ',').map Text.trim =
      (joined.splitOn ',').map Text.trim := by
  rcases hcomma with rfl | rfl
  · obtain ⟨before, after, -, hafter, hjoined⟩ := Text.padded_trim joined
    have hlast : (Text.trim joined).getLast? ≠ some ',' := by
      intro hlast
      obtain ⟨front, hfront⟩ := List.getLast?_eq_some_iff.1 hlast
      have hsplit : joined.splitOn ',' = (before ++ front).splitOn ',' ++ after.splitOn ',' := by
        rw [← List.splitOn_append_cons_self, hjoined, hfront]
        simp
      have hnot : ',' ∉ after := fun hmem => absurd (hafter ',' hmem) (by decide)
      refine hpieces after ?_ (Text.trim_eq_nil_iff.2 hafter)
      rw [hsplit, List.splitOn_eq_singleton hnot]
      simp
    rw [List.append_nil, dropComma, if_neg (by simpa using hlast)]
    exact (Text.map_trim_splitOn_of_padded (by decide) (Text.padded_trim joined)).symm
  · have htrim : Text.trim (joined ++ [',']) = joined.dropWhile Text.isBlank ++ [','] :=
      Text.trim_append_cons (by decide)
    rw [htrim, dropComma_concat, if_pos rfl]
    exact (Text.map_trim_splitOn_of_padded (by decide) (Text.padded_dropWhile joined)).symm

theorem mem_intercalate {entries : List (List Char)} {sep c : Char}
    (h : c ∈ [sep].intercalate entries) :
    c = sep ∨ ∃ entry ∈ entries, c ∈ entry := by
  induction entries with
  | nil => cases h
  | cons entry entries ih =>
    by_cases hnil : entries = []
    · subst hnil
      exact .inr ⟨entry, by simp, by simpa using h⟩
    · rw [List.intercalate_cons_of_ne_nil hnil, List.mem_append, List.mem_append,
        List.mem_singleton] at h
      rcases h with (h | h) | h
      · exact .inr ⟨entry, by simp, h⟩
      · exact .inl h
      · refine (ih h).imp_right ?_
        rintro ⟨other, hother, hc⟩
        exact ⟨other, List.mem_cons_of_mem entry hother, hc⟩

theorem mapM_readEntry_map_trim (text : String) (entries : List (List Char)) :
    (entries.map Text.trim).mapM (readEntry text) = entries.mapM (readEntry text) := by
  rw [List.mapM_map]
  exact congrArg (entries.mapM ·) (funext fun entry => readEntry_trim entry)

section Padded

variable {shape : List DimSpec} {entries : List (List Char)}
  (hentries : List.Forall₂ Text.Padded (shape.map fun d => d.text.toList) entries)

include hentries

theorem exists_of_mem_padded {entry : List Char} (hentry : entry ∈ entries) :
    ∃ d ∈ shape, Text.Padded d.text.toList entry := by
  rw [List.forall₂_map_left_iff] at hentries
  induction hentries with
  | nil => cases hentry
  | @cons d padded shape entries hpadded _ ih =>
    rcases List.mem_cons.1 hentry with rfl | hmem
    · exact ⟨d, by simp, hpadded⟩
    · obtain ⟨other, hother, hentry⟩ := ih hmem
      exact ⟨other, List.mem_cons_of_mem d hother, hentry⟩

variable (hvalid : ∀ d ∈ shape, d.Valid)

include hvalid

theorem map_trim_padded : entries.map Text.trim = shape.map fun d => d.text.toList := by
  rw [List.forall₂_map_left_iff] at hentries
  induction hentries with
  | nil => rfl
  | @cons d padded shape entries hpadded _ ih =>
    rw [List.map_cons, List.map_cons,
      ih fun other hother => hvalid other (List.mem_cons_of_mem d hother),
      Text.trim_of_padded hpadded, Text.trim_of_bare (DimSpec.bare_text (hvalid d (by simp)))]

theorem blank_or_word_of_mem_padded {entry : List Char} (hentry : entry ∈ entries) {c : Char}
    (hc : c ∈ entry) :
    Text.isBlank c = true ∨ 48 ≤ c.toNat ∧ c.toNat ≤ 122 := by
  obtain ⟨d, hd, before, after, hbefore, hafter, rfl⟩ := exists_of_mem_padded hentries hentry
  rw [List.mem_append, List.mem_append] at hc
  rcases hc with (hc | hc) | hc
  · exact .inl (hbefore c hc)
  · exact .inr (DimSpec.toNat_of_mem_text (hvalid d hd) hc)
  · exact .inl (hafter c hc)

/-- No entry has a comma inside. -/
theorem splitOn_intercalate_padded (hne : entries ≠ []) :
    ([','].intercalate entries).splitOn ',' = entries := by
  refine List.splitOn_intercalate ',' (fun entry hentry hc => ?_) hne
  rcases blank_or_word_of_mem_padded hentries hvalid hentry hc with hblank | hword
  · exact absurd hblank (by decide)
  · exact absurd hword (by decide)

theorem trim_ne_nil_of_mem_padded {entry : List Char} (hentry : entry ∈ entries) :
    Text.trim entry ≠ [] := by
  have hmem := List.mem_map_of_mem (f := Text.trim) hentry
  rw [map_trim_padded hentries hvalid, List.mem_map] at hmem
  obtain ⟨d, hd, htext⟩ := hmem
  exact htext ▸ DimSpec.toList_text_ne_nil (hvalid d hd)

/-- No parenthesis stands inside a written shape. -/
theorem ne_parens_of_mem_padded {comma inner : List Char} (hcomma : comma = [] ∨ comma = [','])
    (hinner : Text.Padded ([','].intercalate entries ++ comma) inner) {c : Char} (hc : c ∈ inner) :
    c ≠ '(' ∧ c ≠ ')' := by
  have hkind : c = ',' ∨ Text.isBlank c = true ∨ 48 ≤ c.toNat ∧ c.toNat ≤ 122 := by
    obtain ⟨before, after, hbefore, hafter, rfl⟩ := hinner
    rw [List.mem_append, List.mem_append, List.mem_append] at hc
    rcases hc with (hc | hc | hc) | hc
    · exact .inr (.inl (hbefore c hc))
    · rcases mem_intercalate hc with rfl | ⟨entry, hentry, hc⟩
      · exact .inl rfl
      · exact .inr (blank_or_word_of_mem_padded hentries hvalid hentry hc)
    · rcases hcomma with rfl | rfl
      · cases hc
      · exact .inl (List.mem_singleton.1 hc)
    · exact .inr (.inl (hafter c hc))
  constructor <;> rintro rfl <;> revert hkind <;> decide

end Padded

theorem parse_of_writes {shape : List DimSpec} (hvalid : ∀ d ∈ shape, d.Valid)
    (h : Writes shape text.toList) (dtype : DType) : parse text dtype = .ok ⟨shape, dtype⟩ := by
  obtain ⟨entries, comma, inner, hentries, hcomma, hinner, htext⟩ := h
  have hcomma' : comma = [] ∨ comma = [','] := hcomma.imp_right And.left
  have hbody : body text.toList = Text.trim ([','].intercalate entries ++ comma) := by
    rw [body_of_enclosed (fun c hc => ne_parens_of_mem_padded hentries hvalid hcomma' hinner hc)
      htext, Text.trim_of_padded hinner]
  rw [parse_eq, hbody]
  by_cases hshape : shape = []
  · subst hshape
    cases hentries
    rcases hcomma with rfl | ⟨-, hne⟩
    · rfl
    · exact absurd rfl hne
  · have hne : entries ≠ [] := fun hnil => hshape (by simpa [hnil] using hentries)
    have hsplit := splitOn_intercalate_padded hentries hvalid hne
    have hpieces : ∀ piece ∈ ([','].intercalate entries).splitOn ',', Text.trim piece ≠ [] :=
      fun piece hpiece =>
      trim_ne_nil_of_mem_padded hentries hvalid (hsplit ▸ hpiece)
    have hnonblank : Text.trim ([','].intercalate entries ++ comma) ≠ [] := fun hnil => by
      have hblank : Text.Blank ([','].intercalate entries) := fun c hc =>
        Text.trim_eq_nil_iff.1 hnil c (List.mem_append_left comma hc)
      have hnot : ',' ∉ [','].intercalate entries :=
        fun hmem => absurd (hblank ',' hmem) (by decide)
      exact hpieces _ (by simp [List.splitOn_eq_singleton hnot]) (Text.trim_eq_nil_iff.2 hblank)
    rw [if_neg hnonblank, ← mapM_readEntry_map_trim, map_trim_splitOn_dropComma hcomma' hpieces,
      hsplit, map_trim_padded hentries hvalid, Except.mapM_map_eq_ok fun d hd =>
        readEntry_text (hvalid d hd)]
    rfl

/-! ## Blank entries -/

/-- The text is the other one between parentheses, with blanks outside them. There may be any number
of parentheses on either side. -/
def Encloses (text inner : List Char) : Prop :=
  ∃ before opening closing after, Text.Blank before ∧ (∀ c ∈ opening, c = '(') ∧
    (∀ c ∈ closing, c = ')') ∧
    Text.Blank after ∧ text = before ++ opening ++ inner ++ closing ++ after

/-- What stands before a comma loses its blanks and parentheses at the start, what stands after it
those at the end. -/
theorem body_append_comma (front back : List Char) :
    body (front ++ ',' :: back) = ((front.dropWhile Text.isBlank).dropWhile (· == '(')).dropWhile
      Text.isBlank ++ ',' :: Text.dropEndWhile Text.isBlank
        (Text.dropEndWhile (· == ')') (Text.dropEndWhile Text.isBlank back)) := by
  rw [body, Text.trim_append_cons (by decide), Text.dropWhile_append_cons (by decide),
    Text.dropEndWhile_append_cons (by decide), Text.trim_append_cons (by decide)]

theorem dropComma_append_comma (front back : List Char) :
    dropComma (front ++ ',' :: back) = front ++ if back = [] then []
      else ',' :: dropComma back := by
  cases back using List.reverseRecOn with
  | nil => simp [dropComma]
  | append_singleton back c =>
    have hassoc : front ++ ',' :: (back ++ [c]) = (front ++ ',' :: back) ++ [c] := by simp
    rw [if_neg (by simp), hassoc, dropComma_concat, dropComma_concat]
    split_ifs
    · rfl
    · rw [hassoc]

/-- A blank entry before a comma is a piece of its own, also when the comma at the end is
dropped. -/
theorem mem_splitOn_dropComma {entry : List Char} (hblank : Text.Blank entry)
    (front back : List Char) :
    entry ∈ (dropComma (entry ++ ',' :: back)).splitOn ',' ∧
      entry ∈ (dropComma (front ++ ',' :: (entry ++ ',' :: back))).splitOn ',' := by
  have hnot : ',' ∉ entry := fun hmem => absurd (hblank ',' hmem) (by decide)
  have hfirst : entry ∈ (dropComma (entry ++ ',' :: back)).splitOn ',' := by
    rw [dropComma_append_comma]
    split_ifs
    · simp [List.splitOn_eq_singleton hnot]
    · rw [List.splitOn_append_cons_self, List.splitOn_eq_singleton hnot]
      simp
  refine ⟨hfirst, ?_⟩
  rw [dropComma_append_comma, if_neg (by simp), List.splitOn_append_cons_self]
  exact List.mem_append_right _ hfirst

/-- A piece that is not the last has a comma after it, and before it the start or a comma. -/
theorem exists_of_mem_dropLast_splitOn {cs entry : List Char}
    (h : entry ∈ (cs.splitOn ',').dropLast) :
    ∃ back, cs = entry ++ ',' :: back ∨ ∃ front, cs = front ++ ',' :: (entry ++ ',' :: back) := by
  have hjoin : [','].intercalate (cs.splitOn ',') = cs := List.intercalate_splitOn ','
  have hsplit := List.dropLast_append_getLast (List.splitOn_ne_nil ',' cs)
  rw [← hjoin, ← hsplit]
  generalize (cs.splitOn ',').dropLast = init at h
  generalize (cs.splitOn ',').getLast _ = last
  clear hjoin hsplit
  induction init with
  | nil => cases h
  | cons piece init ih =>
    rw [List.cons_append, List.intercalate_cons_of_ne_nil (by simp)]
    rcases List.mem_cons.1 h with rfl | hmem
    · exact ⟨[','].intercalate (init ++ [last]), .inl (by simp)⟩
    · obtain ⟨back, hfirst | ⟨front, hlater⟩⟩ := ih hmem
      · exact ⟨back, .inr ⟨piece, by simp [hfirst]⟩⟩
      · exact ⟨back, .inr ⟨piece ++ ',' :: front, by simp [hlater]⟩⟩

/-- A blank entry that follows the opening parentheses goes with them. -/
theorem dropWhile_opening {before opening entry : List Char} (hbefore : Text.Blank before)
    (hopening : ∀ c ∈ opening, c = '(') (hblank : Text.Blank entry) :
    (((before ++ (opening ++ entry)).dropWhile Text.isBlank).dropWhile (· == '(')).dropWhile
      Text.isBlank = [] := by
  rw [List.dropWhile_append_of_pos hbefore, List.dropWhile_eq_nil_iff]
  cases opening with
  | nil =>
    intro c hc
    rw [List.nil_append, List.dropWhile_eq_nil_iff.2 hblank] at hc
    cases hc
  | cons c opening =>
    have hc : ¬Text.isBlank c = true := by
      rw [hopening c (by simp)]
      decide
    rw [List.cons_append, List.dropWhile_cons_of_neg hc, ← List.cons_append,
      List.dropWhile_append_of_pos fun d hd => by simpa using hopening d hd]
    exact fun d hd => hblank d (List.dropWhile_subset _ hd)

/-- A blank entry between the parentheses is a blank piece of what is read. -/
theorem exists_blank_mem_splitOn {text inner : List Char} (henc : Encloses text inner)
    (hblank : ∃ entry ∈ (inner.splitOn ',').dropLast, Text.Blank entry) :
    body text ≠ [] ∧ ∃ entry ∈ (dropComma (body text)).splitOn ',', Text.Blank entry := by
  obtain ⟨before, opening, closing, after, hbefore, hopening, -, -, rfl⟩ := henc
  obtain ⟨entry, hentry, hblank⟩ := hblank
  obtain ⟨back, rfl | ⟨front, rfl⟩⟩ := exists_of_mem_dropLast_splitOn hentry
  · have hassoc : before ++ opening ++ (entry ++ ',' :: back) ++ closing ++ after =
        (before ++ (opening ++ entry)) ++ ',' :: (back ++ closing ++ after) := by simp
    have hnil : Text.Blank [] := by decide
    rw [hassoc, body_append_comma, dropWhile_opening hbefore hopening hblank]
    exact ⟨by simp, [], (mem_splitOn_dropComma hnil [] _).1, hnil⟩
  · have hassoc :
        before ++ opening ++ (front ++ ',' :: (entry ++ ',' :: back)) ++ closing ++ after =
          (before ++ opening ++ front) ++ ',' :: (entry ++ ',' :: (back ++ closing ++ after)) := by
      simp
    rw [hassoc, body_append_comma, Text.dropEndWhile_append_cons (by decide),
      Text.dropEndWhile_append_cons (by decide), Text.dropEndWhile_append_cons (by decide)]
    exact ⟨by simp, entry, (mem_splitOn_dropComma hblank _ _).2, hblank⟩

theorem parse_of_blank_entry {inner : List Char} (henc : Encloses text.toList inner)
    (hblank : ∃ entry ∈ (inner.splitOn ',').dropLast, Text.Blank entry) (dtype : DType) :
    ∃ e, parse text dtype = .error e ∧ e.kind = .malformedInputSpec := by
  obtain ⟨hbody, entry, hentry, hblank⟩ := exists_blank_mem_splitOn henc hblank
  have hbad : ∃ e, readEntry text entry = .error e :=
    ⟨_, if_pos (by rw [Text.trim_eq_nil_iff.2 hblank, List.isEmpty_nil])⟩
  obtain ⟨e, he, hkind⟩ :=
    Except.exists_mapM_eq_error (f := readEntry text) (P := (·.kind = .malformedInputSpec))
      (fun _ _ => kind_of_readEntry_eq_error) ⟨entry, hentry, hbad⟩
  refine ⟨e, ?_, hkind⟩
  rw [parse_eq, if_neg hbody, he]
  rfl

/-! ## Texts and JSON -/

variable {dtype : DType} {spec : InputSpec}

theorem valid_of_parse (h : parse text dtype = .ok spec) :
    spec.dtype = dtype ∧ ∀ d ∈ spec.shape, d.Valid := by
  rw [parse_eq] at h
  split_ifs at h
  · cases h
    exact ⟨rfl, fun d hd => by cases hd⟩
  · cases hread : ((dropComma (body text.toList)).splitOn ',').mapM (readEntry text) with
    | error e =>
      rw [hread] at h
      cases h
    | ok shape =>
      rw [hread] at h
      cases h
      refine ⟨rfl, fun d hd => ?_⟩
      obtain ⟨entry, -, hentry⟩ := Except.exists_of_mem_mapM hread hd
      exact valid_of_readEntry hentry

theorem ofJson_json (hvalid : ∀ d ∈ spec.shape, d.Valid) :
    ofJson (.arr (spec.shape.map DimSpec.json)) spec.dtype = .ok spec := by
  have hread : (spec.shape.map DimSpec.json).mapM DimSpec.ofJson = .ok spec.shape :=
    Except.mapM_map_eq_ok fun d hd => DimSpec.ofJson_json (hvalid d hd)
  rw [ofJson, hread]
  rfl

/-- Texts, JSON and words agree on shapes. What is read from a text is valid and is read from its
JSON form as well; a valid shape is read from every way of writing it, its words among them; an
entry with nothing but blanks before its comma is refused. The last piece is what follows the last
comma, and may be blank. -/
theorem parse_agrees (dtype : DType) :
    (∀ text spec, parse text dtype = .ok spec → spec.dtype = dtype ∧ (∀ d ∈ spec.shape, d.Valid) ∧
      ofJson (.arr (spec.shape.map DimSpec.json)) dtype = .ok spec) ∧
    (∀ shape, Writes shape (InputSpec.text ⟨shape, dtype⟩).toList) ∧
    (∀ text shape, (∀ d ∈ shape, d.Valid) → Writes shape text.toList →
      parse text dtype = .ok ⟨shape, dtype⟩) ∧
    ∀ text inner, Encloses text.toList inner →
      (∃ entry ∈ (inner.splitOn ',').dropLast, Text.Blank entry) →
      ∃ e, parse text dtype = .error e ∧ e.kind = .malformedInputSpec := by
  refine ⟨fun text spec h => ?_, fun shape => writes_text ⟨shape, dtype⟩,
    fun text shape hvalid h => parse_of_writes hvalid h dtype,
    fun text inner henc hblank => parse_of_blank_entry henc hblank dtype⟩
  obtain ⟨rfl, hvalid⟩ := valid_of_parse h
  exact ⟨rfl, hvalid, ofJson_json hvalid⟩

/-- A symbol and the largest length, with blanks, a comma at the end and parentheses. -/
theorem parse_agrees_padded :
    parse " ( _B1\t, 18446744073709551615 , ) " .f32 =
      .ok ⟨[.symbol "_B1", .fixed 18446744073709551615], .f32⟩ ∧
    parse "_B1,18446744073709551615" .f32 =
      .ok ⟨[.symbol "_B1", .fixed 18446744073709551615], .f32⟩ ∧
    ofJson (.arr [.str "_B1", .nat 18446744073709551615]) .f32 =
      .ok ⟨[.symbol "_B1", .fixed 18446744073709551615], .f32⟩ ∧
    ∃ e, parse "((B, ,4))" .f32 = .error e ∧ e.kind = .malformedInputSpec := by
  obtain ⟨hread, hwords, hwrite, hblank⟩ := parse_agrees .f32
  have hvalid : ∀ d ∈ [DimSpec.symbol "_B1", .fixed 18446744073709551615], d.Valid := by
    intro d hd
    simp only [List.mem_cons, List.not_mem_nil, or_false] at hd
    rcases hd with rfl | rfl
    · exact isSymbolName_iff.1 (by decide)
    · change 18446744073709551615 < Nat.pow 2 64
      decide
  have hparse := hwrite " ( _B1\t, 18446744073709551615 , ) " _ hvalid
    ⟨[[' ', '_', 'B', '1', '\t'], " 18446744073709551615 ".toList], [','],
      " _B1\t, 18446744073709551615 , ".toList,
      .cons ⟨[' '], ['\t'], by decide, by decide,
        by decide⟩ (.cons ⟨[' '], [' '], by decide, by decide, by decide⟩ .nil), .inr ⟨rfl, by
          decide⟩, ⟨[], [' '], by decide, by decide, by decide⟩, .inr ⟨[' '], [' '], by
            decide, by decide, by decide⟩⟩
  exact ⟨hparse, hwrite _ _ hvalid (hwords _), (hread _ _ hparse).2.2,
    hblank "((B, ,4))" "B, ,4".toList ⟨[], ['(', '('], [')', ')'], [], by decide, by simp, by simp,
      by decide, by decide⟩ ⟨[' '], by decide, by decide⟩⟩

end InputSpec

end TensorGraph
