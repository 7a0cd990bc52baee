import Mathlib.Data.List.Nodup
import TensorGraph.Builder.Level
import TensorGraph.Proofs.Scope

/-!
# Local names of functions

`Level.toFunction` gives every name of a level a local name : inputs, parameters and outputs are
numbered by their places, and the other outputs of nodes in the order in which they occur. Here this
renaming is shown to be one to one (`Renaming.Injective`), and a function to be its level with every
name replaced by its local name (`Level.localizes_functionWith`).
-/

namespace TensorGraph

/-! ## Texts of local names -/

theorem takeWhile_isDigit_numbered (base : String) (n : Nat) :
    (numbered base n).toList.reverse.takeWhile Char.isDigit = (Nat.toDigits 10 n).reverse := by
  have hdigits : ∀ c ∈ (Nat.toDigits 10 n).reverse, c.isDigit = true := fun c hc =>
    Nat.isDigit_of_mem_toDigits (by decide) (by decide) (List.mem_reverse.1 hc)
  have hlist : (numbered base n).toList.reverse = (Nat.toDigits 10 n).reverse ++ '_' ::
      base.toList.reverse := by
    simp [numbered, String.toList_append, Nat.toList_repr]
  rw [hlist, List.takeWhile_append_of_pos hdigits]
  simp

/-- The number behind a base can be read off, whatever the base is. -/
theorem eq_of_numbered_eq {base base' : String} {m n : Nat}
    (h : numbered base m = numbered base' n) : m = n := by
  have hdigits : Nat.toDigits 10 m = Nat.toDigits 10 n := by
    rw [← List.reverse_inj, ← takeWhile_isDigit_numbered base m, h, takeWhile_isDigit_numbered]
  rw [← Nat.ofDigitChars_ten_toDigits (n := m), hdigits, Nat.ofDigitChars_ten_toDigits]

namespace LocalName

/-- The letter that a local name begins with. -/
def initial : LocalName → Char
  | .input _ => 'i'
  | .param _ => 'p'
  | .output _ => 'o'
  | .temporary _ => 't'

theorem head?_text (n : LocalName) : n.text.toList.head? = some n.initial := by
  cases n <;> simp [text, numbered, initial]

/-- Different local names have different texts. -/
theorem text_injective {m n : LocalName} (h : m.text = n.text) : m = n := by
  have hi : m.initial = n.initial := by
    have := head?_text m
    rw [h, head?_text] at this
    exact (Option.some.inj this).symm
  cases m <;> cases n <;> simp [initial] at hi
  all_goals exact congrArg _ (eq_of_numbered_eq h)

end LocalName

/-! ## Renamings -/

namespace Renaming

/-- Different names have different local names. -/
def Injective (r : Renaming) : Prop :=
  ∀ x y n, r.lookup x = some n → r.lookup y = some n → x = y

/-- Temporary names are numbered below `next`. -/
def Below (r : Renaming) (next : Nat) : Prop :=
  ∀ x i, r.lookup x = some (.temporary i) → i < next

/-- A renaming keeps the local names of another. -/
def Extends (r r' : Renaming) : Prop :=
  ∀ x n, r.lookup x = some n → r'.lookup x = some n

variable {r r' r'' : Renaming} {x y : String} {m n : LocalName} {next : Nat}

theorem Extends.trans (h : r.Extends r') (h' : r'.Extends r'') : r.Extends r'' :=
  fun x n hx => h' x n (h x n hx)

theorem Extends.isSome (h : r.Extends r') (hx : (r.lookup x).isSome) : (r'.lookup x).isSome := by
  obtain ⟨n, hn⟩ := Option.isSome_iff_exists.1 hx
  rw [h x n hn]
  rfl

theorem apply_of_lookup (h : r.lookup x = some n) : r.apply x = n.text := by
  simp [apply, h]

theorem Extends.apply_eq (h : r.Extends r') (hx : (r.lookup x).isSome) :
    r'.apply x = r.apply x := by
  obtain ⟨n, hn⟩ := Option.isSome_iff_exists.1 hx
  rw [apply_of_lookup hn, apply_of_lookup (h x n hn)]

/-- On names that have local names, a one-to-one renaming is one to one also as a renaming of
texts. -/
theorem Injective.eq_of_apply_eq (hinj : r.Injective) (hx : (r.lookup x).isSome)
    (hy : (r.lookup y).isSome) (h : r.apply x = r.apply y) : x = y := by
  obtain ⟨m, hm⟩ := Option.isSome_iff_exists.1 hx
  obtain ⟨n, hn⟩ := Option.isSome_iff_exists.1 hy
  rw [apply_of_lookup hm, apply_of_lookup hn] at h
  obtain rfl := LocalName.text_injective h
  exact hinj x y m hm hn

theorem lookup_set (r : Renaming) (x y : String) (n : LocalName) :
    (r.set x n).lookup y = if y = x then some n else r.lookup y := by
  by_cases h : y = x
  · rw [if_pos h, h]
    exact Keyed.lookup_set_self x n r
  · rw [if_neg h]
    exact Keyed.lookup_set_of_ne h n r

theorem extends_set_of_lookup_eq_none (h : r.lookup x = none) (n : LocalName) :
    r.Extends (r.set x n) := by
  intro y m hy
  have hne : y ≠ x := by
    rintro rfl
    simp [h] at hy
  rw [lookup_set, if_neg hne, hy]

/-- A new local name keeps a renaming one to one. -/
theorem Injective.set (hinj : r.Injective) (hnew : ∀ y, r.lookup y ≠ some n) :
    (r.set x n).Injective := by
  intro y z m hy hz
  rw [lookup_set] at hy hz
  split at hy <;> split at hz
  · next hyx hzx => rw [hyx, hzx]
  · next hyx hzx => exact absurd (hz.trans hy.symm) (hnew z)
  · next hyx hzx => exact absurd (hy.trans hz.symm) (hnew y)
  · exact hinj y z m hy hz

/-! ### Temporary names -/

theorem addTemporaries_spec (names : List String) :
    ∀ {r : Renaming} {next : Nat}, r.Injective → r.Below next →
      r.Extends (r.addTemporaries next names).1 ∧ (r.addTemporaries next names).1.Injective ∧
        (r.addTemporaries next names).1.Below (r.addTemporaries next names).2 ∧
        ∀ x ∈ names, ((r.addTemporaries next names).1.lookup x).isSome := by
  induction names with
  | nil => exact fun hinj hbelow => ⟨fun _ _ => id, hinj, hbelow, by simp⟩
  | cons name rest ih =>
    intro r next hinj hbelow
    rw [addTemporaries]
    cases hname : r.lookup name with
    | some n =>
      obtain ⟨hext, hinj', hbelow', hsome⟩ := ih hinj hbelow
      refine ⟨hext, hinj', hbelow', fun x hx => ?_⟩
      rcases List.mem_cons.1 hx with rfl | hx
      · exact hext.isSome (by simp [hname])
      · exact hsome x hx
    | none =>
      have hnew : ∀ y, r.lookup y ≠ some (.temporary next) :=
        fun y hy => Nat.lt_irrefl _ (hbelow y next hy)
      have hbelow₁ : (r.set name (.temporary next)).Below (next + 1) := by
        intro x i hx
        rw [lookup_set] at hx
        split at hx
        · cases hx
          exact Nat.lt_succ_self _
        · exact Nat.lt_succ_of_lt (hbelow x i hx)
      obtain ⟨hext, hinj', hbelow', hsome⟩ := ih (hinj.set hnew) hbelow₁
      refine ⟨(extends_set_of_lookup_eq_none hname _).trans hext, hinj', hbelow', fun x hx => ?_⟩
      rcases List.mem_cons.1 hx with rfl | hx
      · exact hext.isSome (by simp [lookup_set])
      · exact hsome x hx

/-! ### Numbered names -/

/-- Where a numbered name comes from. -/
theorem setAll_cases {f : Nat → LocalName} (names : List String) {r : Renaming} {k : Nat}
    {x : String} {n : LocalName}
    (h : ((names.zipIdx k).foldl (fun r p => r.set p.1 (f p.2)) r).lookup x = some n) :
    r.lookup x = some n ∨ ∃ i, k ≤ i ∧ n = f i := by
  induction names generalizing r k with
  | nil => exact Or.inl h
  | cons name rest ih =>
    rw [List.zipIdx_cons, List.foldl_cons] at h
    rcases ih h with h | ⟨i, hi, rfl⟩
    · rw [lookup_set] at h
      split at h
      · exact Or.inr ⟨k, Nat.le_refl k, (Option.some.inj h).symm⟩
      · exact Or.inl h
    · exact Or.inr ⟨i, Nat.le_of_succ_le hi, rfl⟩

theorem lookup_setAll_of_not_mem {f : Nat → LocalName} (names : List String) {r : Renaming}
    {k : Nat} {x : String} (hx : x ∉ names) :
    ((names.zipIdx k).foldl (fun r p => r.set p.1 (f p.2)) r).lookup x = r.lookup x := by
  induction names generalizing r k with
  | nil => rfl
  | cons name rest ih =>
    rw [List.mem_cons, not_or] at hx
    rw [List.zipIdx_cons, List.foldl_cons, ih hx.2, lookup_set, if_neg hx.1]

theorem lookup_setAll {f : Nat → LocalName} (names : List String) (hnodup : names.Nodup)
    {r : Renaming} {k i : Nat} {x : String} (hx : names[i]? = some x) :
    ((names.zipIdx k).foldl (fun r p => r.set p.1 (f p.2)) r).lookup x = some (f (k + i)) := by
  induction names generalizing r k i with
  | nil => simp at hx
  | cons name rest ih =>
    rw [List.nodup_cons] at hnodup
    rw [List.zipIdx_cons, List.foldl_cons]
    cases i with
    | zero =>
      obtain rfl : name = x := by simpa using hx
      rw [lookup_setAll_of_not_mem rest hnodup.1, lookup_set, if_pos rfl, Nat.add_zero]
    | succ i =>
      rw [ih hnodup.2 (by simpa using hx), Nat.add_right_comm, Nat.add_assoc]

theorem injective_setAll {f : Nat → LocalName} (hf : Function.Injective f) (names : List String)
    {r : Renaming} {k : Nat} (hinj : r.Injective) (hnew : ∀ x i, k ≤ i → r.lookup x ≠ some (f i)) :
    ((names.zipIdx k).foldl (fun r p => r.set p.1 (f p.2)) r).Injective := by
  induction names generalizing r k with
  | nil => exact hinj
  | cons name rest ih =>
    rw [List.zipIdx_cons, List.foldl_cons]
    refine ih (hinj.set fun y => hnew y k (Nat.le_refl k)) fun x i hi hx => ?_
    rw [lookup_set] at hx
    split at hx
    · have := hf (Option.some.inj hx)
      omega
    · exact hnew x i (Nat.le_of_succ_le hi) hx

theorem extends_setNew (r : Renaming) (x : String) (n : LocalName) : r.Extends (r.setNew x n) := by
  unfold setNew
  cases h : r.lookup x with
  | some m => exact fun _ _ => id
  | none => exact extends_set_of_lookup_eq_none h n

theorem isSome_lookup_setNew (r : Renaming) (x : String) (n : LocalName) :
    ((r.setNew x n).lookup x).isSome := by
  unfold setNew
  cases h : r.lookup x with
  | some m => simp [h]
  | none => simp [lookup_set]

theorem setNew_cases (h : (r.setNew x n).lookup y = some m) : r.lookup y = some m ∨ m = n := by
  unfold setNew at h
  split at h
  · exact Or.inl h
  · rw [lookup_set] at h
    split at h
    · exact Or.inr (Option.some.inj h).symm
    · exact Or.inl h

theorem Injective.setNew (hinj : r.Injective) (hnew : ∀ y, r.lookup y ≠ some n) :
    (r.setNew x n).Injective := by
  unfold Renaming.setNew
  split
  · exact hinj
  · exact hinj.set hnew

theorem setAllNew_spec {f : Nat → LocalName} (hf : Function.Injective f) (names : List String)
    {r : Renaming} {k : Nat} (hinj : r.Injective) (hnew : ∀ x i, k ≤ i → r.lookup x ≠ some (f i)) :
    let r' := (names.zipIdx k).foldl (fun r p => r.setNew p.1 (f p.2)) r
    r.Extends r' ∧ r'.Injective ∧ (∀ x ∈ names, (r'.lookup x).isSome) ∧
      ∀ x n, r'.lookup x = some n → r.lookup x = some n ∨ ∃ i, n = f i := by
  induction names generalizing r k with
  | nil => exact ⟨fun _ _ => id, hinj, by simp, fun _ _ => Or.inl⟩
  | cons name rest ih =>
    rw [List.zipIdx_cons, List.foldl_cons]
    have hnew' : ∀ x i, k + 1 ≤ i → (r.setNew name (f k)).lookup x ≠ some (f i) := by
      intro x i hi hx
      rcases setNew_cases hx with hx | hx
      · exact hnew x i (Nat.le_of_succ_le hi) hx
      · have := hf hx
        omega
    obtain ⟨hext, hinj', hsome, hcases⟩ := ih (hinj.setNew fun y => hnew y k (Nat.le_refl k)) hnew'
    refine ⟨(extends_setNew r name _).trans hext, hinj', fun x hx => ?_, fun x n hx => ?_⟩
    · rcases List.mem_cons.1 hx with rfl | hx
      · exact hext.isSome (isSome_lookup_setNew r x _)
      · exact hsome x hx
    · rcases hcases x n hx with hx | hx
      · exact (setNew_cases hx).imp_right fun h => ⟨k, h⟩
      · exact Or.inr hx

end Renaming

/-! ### Nodes -/

/-- A node at a place of a function, with local names. -/
def Node.localized (r : Renaming) (n : Node) (index : Nat) : Node :=
  { n with name := numbered n.opType index, inputs := n.inputs.map r.apply,
           outputs := n.outputs.map r.apply }

namespace Renaming

/-- Renaming nodes only adds local names, one to one, and gives one to every output. -/
theorem renameNodes_names (nodes : List Node) :
    ∀ {r : Renaming} {next index : Nat}, r.Injective → r.Below next →
      let final := (r.renameNodes next index nodes).1
    r.Extends final ∧ final.Injective ∧ ∀ x ∈ nodes.flatMap Node.outputs,
    (final.lookup x).isSome := by
  induction nodes with
  | nil => exact fun hinj _ => ⟨fun _ _ => id, hinj, by simp⟩
  | cons n rest ih =>
    intro r next index hinj hbelow
    obtain ⟨hext₁, hinj₁, hbelow₁, hsome₁⟩ := addTemporaries_spec n.outputs hinj hbelow
    obtain ⟨hext, hinj', hsome⟩ := @ih _ _ (index + 1) hinj₁ hbelow₁
    refine ⟨hext₁.trans hext, hinj', fun x hx => ?_⟩
    rw [List.flatMap_cons, List.mem_append] at hx
    rcases hx with hx | hx
    · exact hext.isSome (hsome₁ x hx)
    · exact hsome x hx

/-- Every node gets its local names from the renaming in the end. -/
theorem renameNodes_spec (nodes : List Node) :
    ∀ {r : Renaming} {next index : Nat} {defined : List String},
      r.Injective → r.Below next → ReadsFrom defined nodes → (∀ x ∈ defined, (r.lookup x).isSome) →
      let final := (r.renameNodes next index nodes).1
    r.Extends final ∧ final.Injective ∧
    (∀ x ∈ nodes.flatMap Node.outputs, (final.lookup x).isSome) ∧
      (r.renameNodes next index nodes).2 = (nodes.zipIdx index).map fun p =>
        p.1.localized final p.2 := by
  induction nodes with
  | nil => exact fun hinj _ _ _ => ⟨fun _ _ => id, hinj, by simp, rfl⟩
  | cons n rest ih =>
    intro r next index defined hinj hbelow hreads hdefined
    obtain ⟨hext₀, hinj₀, hsome₀⟩ := @renameNodes_names (n :: rest) r next index hinj hbelow
    obtain ⟨hext₁, hinj₁, hbelow₁, hsome₁⟩ := addTemporaries_spec n.outputs hinj hbelow
    have hdefined₁ : ∀ x ∈ defined ++ n.outputs,
        ((r.addTemporaries next n.outputs).1.lookup x).isSome := by
      intro x hx
      rcases List.mem_append.1 hx with hx | hx
      · exact hext₁.isSome (hdefined x hx)
      · exact hsome₁ x hx
    obtain ⟨hext, -, -, hnodes⟩ := @ih _ _ (index + 1) _ hinj₁ hbelow₁ hreads.2 hdefined₁
    have heq : ∀ {x : String}, x ∈ defined ++ n.outputs →
        (r.addTemporaries next n.outputs).1.apply x =
          ((r.addTemporaries next n.outputs).1.renameNodes (r.addTemporaries next n.outputs).2
            (index + 1) rest).1.apply
            x :=
      fun hx => (hext.apply_eq (hdefined₁ _ hx)).symm
    refine ⟨hext₀, hinj₀, hsome₀, ?_⟩
    rw [List.zipIdx_cons, List.map_cons]
    simp only [renameNodes, hnodes, List.cons.injEq, and_true, Node.localized, Node.mk.injEq,
      true_and]
    exact ⟨List.map_congr_left fun x hx => heq (List.mem_append_left _ (hreads.1 x hx)),
      List.map_congr_left fun x hx => heq (List.mem_append_right _ hx)⟩

end Renaming

/-! ## Functions of levels -/

namespace Level

variable {l : Level} {params : List String}

/-- The local names of inputs and parameters count their places. -/
theorem interfaceNames_spec (hnodup : (l.inputs ++ params).Nodup) :
    (l.interfaceNames params).Injective ∧ (l.interfaceNames params).Below 0 ∧
      (∀ i x, l.inputs[i]? = some x → (l.interfaceNames params).lookup x = some (.input i)) ∧
      (∀ i x, params[i]? = some x → (l.interfaceNames params).lookup x = some (.param i)) ∧
      ∀ x ∈ l.outputs, ((l.interfaceNames params).lookup x).isSome := by
  obtain ⟨hinputs, hparams, hdisjoint⟩ := List.nodup_append.1 hnodup
  set r₁ : Renaming := Renaming.setAll [] .input l.inputs with hr₁
  set r₂ : Renaming := r₁.setAll .param params with hr₂
  have hcases₁ : ∀ x n, r₁.lookup x = some n → ∃ i, n = .input i := by
    intro x n hx
    rcases Renaming.setAll_cases l.inputs hx with hx | ⟨i, -, rfl⟩
    · simp at hx
    · exact ⟨i, rfl⟩
  have hcases₂ : ∀ x n, r₂.lookup x = some n → ∃ i, n = .input i ∨ n = .param i := by
    intro x n hx
    rcases Renaming.setAll_cases params hx with hx | ⟨i, -, rfl⟩
    · obtain ⟨i, hi⟩ := hcases₁ x n hx
      exact ⟨i, Or.inl hi⟩
    · exact ⟨i, Or.inr rfl⟩
  have hinj₁ : r₁.Injective :=
    Renaming.injective_setAll (fun _ _ h => LocalName.input.inj h) l.inputs
      (fun x y n h => by simp at h) fun x i _ h => by simp at h
  have hinj₂ : r₂.Injective := by
    refine Renaming.injective_setAll (fun _ _ h => LocalName.param.inj h) params hinj₁
      fun x i _ hx => ?_
    obtain ⟨j, hj⟩ := hcases₁ x _ hx
    cases hj
  obtain ⟨hext, hinj, hsome, hcases⟩ := Renaming.setAllNew_spec (f := .output) (k := 0)
    (fun _ _ h => LocalName.output.inj h) l.outputs hinj₂ fun x i _ hx => by
      obtain ⟨j, hj | hj⟩ := hcases₂ x _ hx <;> cases hj
  refine ⟨hinj, fun x i hx => ?_, fun i x hx => hext x _ ?_, fun i x hx => hext x _ ?_, hsome⟩
  · rcases hcases x _ hx with hx | ⟨j, hj⟩
    · obtain ⟨j, hj | hj⟩ := hcases₂ x _ hx <;> cases hj
    · cases hj
  · have hx' : x ∉ params := fun h => hdisjoint x (List.mem_of_getElem? hx) x h rfl
    have := Renaming.lookup_setAll (f := .input) l.inputs hinputs (r := []) (k := 0) hx
    rw [Nat.zero_add] at this
    rw [hr₂, Renaming.setAll, Renaming.lookup_setAll_of_not_mem params hx']
    exact this
  · have := Renaming.lookup_setAll (f := .param) params hparams (r := r₁) (k := 0) hx
    rwa [Nat.zero_add] at this

theorem isSome_interfaceNames (hnodup : (l.inputs ++ params).Nodup) {x : String}
    (hx : x ∈ l.inputs ++ params) :
    ((l.interfaceNames params).lookup x).isSome := by
  obtain ⟨-, -, hinput, hparam, -⟩ := interfaceNames_spec hnodup
  rcases List.mem_append.1 hx with hx | hx
  · obtain ⟨i, hi⟩ := List.mem_iff_getElem?.1 hx
    simp [hinput i x hi]
  · obtain ⟨i, hi⟩ := List.mem_iff_getElem?.1 hx
    simp [hparam i x hi]

/-- The local names of all names of a level. -/
def localNames (l : Level) (params : List String) : Renaming :=
  ((l.interfaceNames params).renameNodes 0 0 l.nodes).1

theorem localNames_names (hnodup : (l.inputs ++ params).Nodup) :
    (l.interfaceNames params).Extends (l.localNames params) ∧ (l.localNames params).Injective := by
  obtain ⟨hinj, hbelow, -⟩ := interfaceNames_spec hnodup
  obtain ⟨hext, hinj', -⟩ := @Renaming.renameNodes_names l.nodes _ 0 0 hinj hbelow
  exact ⟨hext, hinj'⟩

theorem localNames_spec (hnodup : (l.inputs ++ params).Nodup)
    (hreads : ReadsFrom (l.inputs ++ params) l.nodes) :
    (l.interfaceNames params).Extends (l.localNames params) ∧ (l.localNames params).Injective ∧
      (∀ x ∈ l.nodes.flatMap Node.outputs, ((l.localNames params).lookup x).isSome) ∧
      ((l.interfaceNames params).renameNodes 0 0 l.nodes).2 =
        l.nodes.zipIdx.map fun p => p.1.localized (l.localNames params) p.2 := by
  obtain ⟨hinj, hbelow, -⟩ := interfaceNames_spec hnodup
  exact @Renaming.renameNodes_spec l.nodes _ 0 0 _ hinj hbelow hreads fun x hx =>
    isSome_interfaceNames hnodup hx

/-- The function that a level with these records of parameters becomes. -/
def functionWith (l : Level) (name : String) (params : List String)
    (records : List (LocalName × ValueRecord)) :
    Function :=
  { name
    domain := functionDomain
    inputs := (List.range l.inputs.length).map (LocalName.text ∘ .input) ++
      (List.range params.length).map (LocalName.text ∘ .param)
    paramCount := params.length
    outputs := l.outputs.map (l.localNames params).apply
    nodes := ((l.interfaceNames params).renameNodes 0 0 l.nodes).2
    records :=
      ((records ++ l.renamedRecords (l.localNames params)).mergeSort fun a b => a.1.le b.1).map
        Prod.snd }

theorem toFunction_eq_ok {name : String} {table : InitializerTable} {f : Function} :
    l.toFunction name params table = .ok f ↔ (∀ o ∈ l.outputs, (l.record? o).isSome) ∧
      ∃ records, paramRecords table 0 params = .ok records ∧
        f = l.functionWith name params records := by
  unfold toFunction
  cases hfind : l.outputs.find? fun o => (l.record? o).isNone with
  | some o =>
    have hnone := List.find?_some hfind
    simp only [bind, Except.bind, throw, throwThe, MonadExceptOf.throw, reduceCtorEq, false_iff,
      not_and]
    intro hall
    rw [Option.isNone_iff_eq_none] at hnone
    have := hall o (List.mem_of_find?_eq_some hfind)
    simp [hnone] at this
  | none =>
    have hall : ∀ o ∈ l.outputs, (l.record? o).isSome := by
      intro o ho
      have := List.find?_eq_none.1 hfind o ho
      simpa [Option.isSome_iff_ne_none] using this
    cases hrec : paramRecords table 0 params with
    | error e => simp [bind, Except.bind]
    | ok records =>
      simp only [bind, Except.bind, pure, Except.pure, Except.ok.injEq, functionWith, localNames]
      constructor
      · exact fun h => ⟨hall, records, rfl, h.symm⟩
      · rintro ⟨-, _, rfl, rfl⟩
        rfl

theorem map_range_eq_map {α β : Type} {f : α → β} {g : Nat → β} {xs : List α}
    (h : ∀ i x, xs[i]? = some x → f x = g i) : (List.range xs.length).map g = xs.map f := by
  refine List.ext_getElem? fun i => ?_
  rw [List.getElem?_map, List.getElem?_map]
  cases hx : xs[i]? with
  | none =>
    rw [List.getElem?_eq_none_iff] at hx
    rw [List.getElem?_eq_none_iff.2 (by simpa using hx)]
    rfl
  | some x =>
    have hi := List.getElem?_eq_some_iff.1 hx
    rw [List.getElem?_range hi.1, Option.map_some, Option.map_some, h i x hx]

/-- The inputs of a function are the local names of the inputs and of the parameters. -/
theorem inputs_functionWith (hnodup : (l.inputs ++ params).Nodup) (name : String)
    (records : List (LocalName × ValueRecord)) :
    (l.functionWith name params records).inputs =
      l.inputs.map (l.localNames params).apply ++ params.map (l.localNames params).apply := by
  obtain ⟨-, -, hinput, hparam, -⟩ := interfaceNames_spec hnodup
  obtain ⟨hext, -⟩ := localNames_names hnodup
  exact congrArg₂ (· ++ ·)
    (map_range_eq_map fun i x hx => Renaming.apply_of_lookup (hext _ _ (hinput i x hx)))
    (map_range_eq_map fun i x hx => Renaming.apply_of_lookup (hext _ _ (hparam i x hx)))

/-- A function is a level with all names replaced by local names. -/
structure Localizes (l : Level) (params : List String) (f : Function) (r : Renaming) : Prop where
  injective : r.Injective
  named : ∀ x ∈ l.inputs ++ params ++ l.nodes.flatMap Node.outputs ++ l.outputs, (r.lookup x).isSome
  inputs : f.inputs = (l.inputs ++ params).map r.apply
  outputs : f.outputs = l.outputs.map r.apply
  nodes : f.nodes = l.nodes.zipIdx.map fun p => p.1.localized r p.2

/-- The nodes of a function are numbered, so their names differ. -/
theorem Localizes.nodup_names {f : Function} {r : Renaming} (h : l.Localizes params f r) :
    (f.nodes.map Node.name).Nodup := by
  have hnames : f.nodes.map Node.name = l.nodes.zipIdx.map fun p => numbered p.1.opType p.2 := by
    rw [h.nodes, List.map_map]
    rfl
  rw [hnames, List.nodup_iff_getElem?_ne_getElem?]
  intro i j hij hj heq
  simp only [List.length_map, List.length_zipIdx] at hj
  simp only [List.getElem?_map, List.getElem?_zipIdx, List.getElem?_eq_getElem hj,
    List.getElem?_eq_getElem (Nat.lt_trans hij hj), Option.map_some, Option.some.injEq] at heq
  have := eq_of_numbered_eq heq
  omega

theorem readsFrom_localized {r : Renaming} {nodes : List Node} {defined : List String} {k : Nat}
    (h : ReadsFrom defined nodes) :
    ReadsFrom (defined.map r.apply) ((nodes.zipIdx k).map fun p => p.1.localized r p.2) := by
  induction nodes generalizing defined k with
  | nil => trivial
  | cons n rest ih =>
    rw [List.zipIdx_cons, List.map_cons]
    refine ⟨fun x hx => ?_, ?_⟩
    · obtain ⟨y, hy, rfl⟩ := List.mem_map.1 hx
      exact List.mem_map_of_mem (h.1 y hy)
    · have := @ih _ (k + 1) h.2
      rwa [List.map_append] at this

theorem flatMap_outputs_localized {r : Renaming} {nodes : List Node} {k : Nat} :
    ((nodes.zipIdx k).map fun p => p.1.localized r p.2).flatMap Node.outputs =
      (nodes.flatMap Node.outputs).map r.apply := by
  induction nodes generalizing k with
  | nil => rfl
  | cons n rest ih =>
    rw [List.zipIdx_cons, List.map_cons, List.flatMap_cons, ih, List.flatMap_cons, List.map_append]
    rfl

theorem localizes_functionWith (hnodup : (l.inputs ++ params).Nodup)
    (hreads : ReadsFrom (l.inputs ++ params) l.nodes) (name : String)
    (records : List (LocalName × ValueRecord)) :
    l.Localizes params (l.functionWith name params records) (l.localNames params) := by
  obtain ⟨-, -, -, -, houtput⟩ := interfaceNames_spec hnodup
  obtain ⟨hext, hinj, hsome, hnodes⟩ := localNames_spec hnodup hreads
  refine ⟨hinj, fun x hx => ?_, ?_, rfl, hnodes⟩
  · rcases List.mem_append.1 hx with hx | hx
    · rcases List.mem_append.1 hx with hx | hx
      · exact hext.isSome (isSome_interfaceNames hnodup hx)
      · exact hsome x hx
    · exact hext.isSome (houtput x hx)
  · rw [List.map_append]
    exact inputs_functionWith hnodup name records

/-! ### Records of functions -/

theorem mem_of_lookup {r : Renaming} {x : String} {n : LocalName} (h : r.lookup x = some n) :
    (x, n) ∈ r := by
  obtain ⟨before, after, rfl, -⟩ := List.lookup_eq_some_iff.1 h
  simp

theorem isSome_record?_of_mem {f : Function} {s : ValueRecord} (h : s ∈ f.records) :
    (f.record? s.name).isSome := by
  rw [Function.record?, findRecord?, List.find?_isSome]
  exact ⟨s, h, by simp⟩

/-- A name with a record and a local name has a record in the function. -/
theorem isSome_record?_functionWith (l : Level) (name : String) (params : List String)
    (records : List (LocalName × ValueRecord)) {x : String}
    (hx : ((l.localNames params).lookup x).isSome) (hrec : (l.record? x).isSome) :
    ((l.functionWith name params records).record? ((l.localNames params).apply x)).isSome := by
  obtain ⟨n, hn⟩ := Option.isSome_iff_exists.1 hx
  obtain ⟨s, hs⟩ := Option.isSome_iff_exists.1 hrec
  have hmem : s.renamed n.text ∈ (l.functionWith name params records).records := by
    simp only [functionWith, List.mem_map, List.mem_mergeSort, List.mem_append, renamedRecords,
      List.mem_filterMap]
    exact ⟨(n, s.renamed n.text), Or.inr ⟨(x, n), mem_of_lookup hn, by simp [hs]⟩, rfl⟩
  rw [Renaming.apply_of_lookup hn]
  exact isSome_record?_of_mem hmem

theorem paramRecords_cons_eq_ok {table : InitializerTable} {k : Nat} {param : String}
    {rest : List String} {records : List (LocalName × ValueRecord)} :
    paramRecords table k (param :: rest) = .ok records ↔ ∃ tensor others,
      table.get? param = some tensor ∧
      paramRecords table (k + 1) rest = .ok others ∧
      records = (.param k, ⟨(LocalName.param k).text, tensor.dims.map .fixed, tensor.dtype,
        .declared⟩) :: others := by
  rw [paramRecords]
  cases table.get? param with
  | none => simp
  | some tensor =>
    cases paramRecords table (k + 1) rest with
    | error e => simp [bind, Except.bind]
    | ok others => simp [bind, Except.bind, pure, Except.pure, eq_comm]

/-- The records of parameters are numbered by their places, and say what the constants are. -/
theorem mem_paramRecords {table : InitializerTable} {k i : Nat} {x : String}
    {records : List (LocalName × ValueRecord)} (h : paramRecords table k params = .ok records)
    (hx : params[i]? = some x) : ∃ tensor, table.get? x = some tensor ∧ (LocalName.param (k + i),
      (⟨(LocalName.param (k + i)).text, tensor.dims.map .fixed, tensor.dtype, .declared⟩ :
        ValueRecord)) ∈ records := by
  induction params generalizing k i records with
  | nil => simp at hx
  | cons param rest ih =>
    obtain ⟨tensor, others, hget, hrest, rfl⟩ := paramRecords_cons_eq_ok.1 h
    cases i with
    | zero =>
      obtain rfl : param = x := by simpa using hx
      exact ⟨tensor, hget, List.mem_cons_self⟩
    | succ i =>
      obtain ⟨tensor', hget', hmem⟩ := ih hrest (by simpa using hx)
      rw [Nat.add_right_comm, Nat.add_assoc] at hmem
      exact ⟨tensor', hget', List.mem_cons_of_mem _ hmem⟩

/-- Every parameter has a record in the function. -/
theorem isSome_record?_param (hnodup : (l.inputs ++ params).Nodup)
    (hreads : ReadsFrom (l.inputs ++ params) l.nodes) {table : InitializerTable} (name : String)
    {records : List (LocalName × ValueRecord)} (h : paramRecords table 0 params = .ok records)
    {x : String} (hx : x ∈ params) :
    ((l.functionWith name params records).record? ((l.localNames params).apply x)).isSome := by
  obtain ⟨i, hi⟩ := List.mem_iff_getElem?.1 hx
  obtain ⟨-, -, -, hparam, -⟩ := interfaceNames_spec hnodup
  obtain ⟨hext, -⟩ := localNames_spec hnodup hreads
  rw [Renaming.apply_of_lookup (hext _ _ (hparam i x hi))]
  obtain ⟨tensor, -, hmem⟩ := mem_paramRecords h hi
  rw [Nat.zero_add] at hmem
  refine isSome_record?_of_mem (s := ⟨(LocalName.param i).text, tensor.dims.map .fixed,
    tensor.dtype, .declared⟩) ?_
  simp only [functionWith, List.mem_map, List.mem_mergeSort, List.mem_append]
  exact ⟨_, Or.inl hmem, rfl⟩

end Level

end TensorGraph
