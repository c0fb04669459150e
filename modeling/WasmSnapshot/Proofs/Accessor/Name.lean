import WasmSnapshot.Accessor.Basic
import WasmSnapshot.Proofs.Text.Decimal

/-! Names of accessors. A grammar says what the labels are, and names are read by it: those of the
grammar under the symbol, and no others. The name of an accessor is read as that accessor, so two
accessors never share a name, and a name tells the index that it was made of. -/

namespace WasmSnapshot

namespace Accessor

open Decimal (Numeral)

/-- The labels and the accessors that they name. An index may be written with leading zeros, and is
a number of 32 bits. -/
inductive Spells : String → Accessor → Prop
  | memory : Spells "memory" memory
  | table : Spells "table" table
  | function {digits : String} {index : UInt32} (h : Numeral digits.toList index.toNat) :
      Spells ("func_" ++ digits) (function index)
  | i32Getter {digits : String} {global : UInt32} (h : Numeral digits.toList global.toNat) :
      Spells ("global_getter_i32_" ++ digits) (i32Getter global)
  | i32Setter {digits : String} {global : UInt32} (h : Numeral digits.toList global.toNat) :
      Spells ("global_setter_i32_" ++ digits) (i32Setter global)
  | i64GetterHigh {digits : String} {global : UInt32} (h : Numeral digits.toList global.toNat) :
      Spells ("global_getter_i64_" ++ digits ++ "_high") (i64GetterHigh global)
  | i64GetterLow {digits : String} {global : UInt32} (h : Numeral digits.toList global.toNat) :
      Spells ("global_getter_i64_" ++ digits ++ "_low") (i64GetterLow global)
  | i64Setter {digits : String} {global : UInt32} (h : Numeral digits.toList global.toNat) :
      Spells ("global_setter_i64_" ++ digits) (i64Setter global)

theorem index?_eq_some_iff {digits : List Char} {index : UInt32} :
    index? digits = some index ↔ Numeral digits index.toNat := by
  rw [← Decimal.read?_eq_some_iff, index?]
  cases Decimal.read? digits with
  | none => simp
  | some n =>
    simp only [Option.some.injEq]
    constructor
    · intro h
      split at h
      · next hlt =>
        cases h
        exact (UInt32.toNat_ofNat_of_lt' hlt).symm
      · cases h
    · rintro rfl
      rw [if_pos index.toNat_lt, UInt32.ofNat_toNat]

namespace IndexedForm

variable {form other : IndexedForm} {digits label : List Char} {index : UInt32}
  {accessor : Accessor}

/-- The label with the given digits in it. -/
def text (form : IndexedForm) (digits : List Char) : List Char :=
  form.before.toList ++ (digits ++ form.after.toList)

theorem between?_eq_some_iff : between? form.before.toList form.after.toList label = some digits ↔
    label = form.text digits := by
  simp only [between?, Option.bind_eq_bind, Option.bind_eq_some_iff,
    List.isPrefixOf?_eq_some_iff_append_eq, List.isSuffixOf?_eq_some_iff_append_eq]
  constructor
  · rintro ⟨rest, rfl, rfl⟩
    rfl
  · rintro rfl
    exact ⟨_, rfl, rfl⟩

theorem read?_eq_some_iff : form.read? label = some accessor ↔ ∃ digits index,
    Numeral digits index.toNat ∧ label = form.text digits ∧ form.accessor index = accessor := by
  simp only [read?, Option.bind_eq_bind, Option.bind_eq_some_iff, between?_eq_some_iff,
    Option.map_eq_map, Option.map_eq_some_iff, index?_eq_some_iff]
  constructor
  · rintro ⟨digits, hlabel, index, hindex, haccessor⟩
    exact ⟨digits, index, hindex, hlabel, haccessor⟩
  · rintro ⟨digits, index, hindex, hlabel, haccessor⟩
    exact ⟨digits, hlabel, index, hindex, haccessor⟩

/-- A label of another form, which begins differently. -/
theorem read?_eq_none (digits : List Char)
    (h : ∀ rest, form.before.toList.isPrefixOf? (other.before.toList ++ rest) = none) :
    form.read? (other.text digits) = none := by
  simp [read?, between?, text, h]

end IndexedForm

/-- The two halves have labels that end differently. -/
theorem read?_i64GetterLowForm (digits : List Char) :
    i64GetterHighForm.read? (i64GetterLowForm.text digits) = none := by
  have hprefix : i64GetterHighForm.before.toList.isPrefixOf? (i64GetterLowForm.text digits) =
      some (digits ++ i64GetterLowForm.after.toList) :=
    List.isPrefixOf?_eq_some_iff_append_eq.2 rfl
  have hsuffix (front : List Char) :
      i64GetterHighForm.after.toList.isSuffixOf? (front ++ i64GetterLowForm.after.toList) =
        none := by
    rw [List.isSuffixOf?, List.reverse_append]
    rfl
  simp only [IndexedForm.read?, between?, hprefix, Option.bind_eq_bind, Option.bind_some, hsuffix]
  rfl

theorem text_ne_items {form : IndexedForm} (hmem : form ∈ indexedForms) (digits : List Char) :
    form.text digits ≠ "memory".toList ∧ form.text digits ≠ "table".toList := by
  simp only [indexedForms, List.mem_cons, List.not_mem_nil, or_false] at hmem
  rcases hmem with rfl | rfl | rfl | rfl | rfl | rfl <;> exact ⟨by rintro ⟨⟩, by rintro ⟨⟩⟩

/-- A label of a form that no earlier form reads. -/
theorem ofLabel?_of_form {after : List IndexedForm} {form : IndexedForm} {digits : List Char}
    {index : UInt32} (before : List IndexedForm) (hforms : indexedForms = before ++ form :: after)
    (hdigits : Numeral digits index.toNat)
    (h : ∀ other ∈ before, other.read? (form.text digits) = none) :
    ofLabel? (form.text digits) = some (form.accessor index) := by
  obtain ⟨hmemory, htable⟩ := text_ne_items (show form ∈ indexedForms by simp [hforms]) digits
  have hbefore : before.findSome? (·.read? (form.text digits)) = none := by
    simpa [List.findSome?_eq_none_iff] using h
  have hread : form.read? (form.text digits) = some (form.accessor index) :=
    IndexedForm.read?_eq_some_iff.2 ⟨digits, index, hdigits, rfl, rfl⟩
  rw [ofLabel?, if_neg hmemory, if_neg htable, hforms, List.findSome?_append, hbefore,
    Option.none_or, List.findSome?_cons, hread]

/-- The forms are told apart by their first characters, but for the two getters of halves, which
are by their last. -/
theorem ofLabel?_of_spells {label : String} {accessor : Accessor} (h : Spells label accessor) :
    ofLabel? label.toList = some accessor := by
  cases h with
  | memory => rw [ofLabel?, if_pos rfl]
  | table => rw [ofLabel?, if_neg (by decide), if_pos rfl]
  | @function digits index h =>
    have hlabel : ("func_" ++ digits).toList = functionForm.text digits.toList := by
      simp [IndexedForm.text, functionForm]
    rw [hlabel]
    exact ofLabel?_of_form [] (show _ = [] ++ functionForm :: _ from rfl) h (List.forall_mem_nil _)
  | @i32Getter digits global h =>
    have hlabel : ("global_getter_i32_" ++ digits).toList = i32GetterForm.text digits.toList := by
      simp [IndexedForm.text, i32GetterForm]
    rw [hlabel]
    refine ofLabel?_of_form [functionForm] rfl h fun other hother => ?_
    rw [List.mem_singleton] at hother
    subst hother
    exact IndexedForm.read?_eq_none _ fun _ => rfl
  | @i32Setter digits global h =>
    have hlabel : ("global_setter_i32_" ++ digits).toList = i32SetterForm.text digits.toList := by
      simp [IndexedForm.text, i32SetterForm]
    rw [hlabel]
    refine ofLabel?_of_form [functionForm, i32GetterForm] rfl h
      fun other hother => IndexedForm.read?_eq_none _ fun _ => ?_
    simp only [List.mem_cons, List.not_mem_nil, or_false] at hother
    rcases hother with rfl | rfl <;> rfl
  | @i64GetterHigh digits global h =>
    have hlabel : ("global_getter_i64_" ++ digits ++ "_high").toList =
        i64GetterHighForm.text digits.toList := by
      simp [IndexedForm.text, i64GetterHighForm]
    rw [hlabel]
    refine ofLabel?_of_form [functionForm, i32GetterForm, i32SetterForm] rfl h
      fun other hother => IndexedForm.read?_eq_none _ fun _ => ?_
    simp only [List.mem_cons, List.not_mem_nil, or_false] at hother
    rcases hother with rfl | rfl | rfl <;> rfl
  | @i64GetterLow digits global h =>
    have hlabel : ("global_getter_i64_" ++ digits ++ "_low").toList =
        i64GetterLowForm.text digits.toList := by
      simp [IndexedForm.text, i64GetterLowForm]
    rw [hlabel]
    refine ofLabel?_of_form
      [functionForm, i32GetterForm, i32SetterForm, i64GetterHighForm] rfl h fun other hother => ?_
    simp only [List.mem_cons, List.not_mem_nil, or_false] at hother
    rcases hother with rfl | rfl | rfl | rfl
    · exact IndexedForm.read?_eq_none _ fun _ => rfl
    · exact IndexedForm.read?_eq_none _ fun _ => rfl
    · exact IndexedForm.read?_eq_none _ fun _ => rfl
    · exact read?_i64GetterLowForm _
  | @i64Setter digits global h =>
    have hlabel : ("global_setter_i64_" ++ digits).toList = i64SetterForm.text digits.toList := by
      simp [IndexedForm.text, i64SetterForm]
    rw [hlabel]
    refine ofLabel?_of_form [functionForm, i32GetterForm, i32SetterForm,
      i64GetterHighForm, i64GetterLowForm] rfl h
      fun other hother => IndexedForm.read?_eq_none _ fun _ => ?_
    simp only [List.mem_cons, List.not_mem_nil, or_false] at hother
    rcases hother with rfl | rfl | rfl | rfl | rfl <;> rfl

theorem spells_of_form (form : IndexedForm) (hmem : form ∈ indexedForms) {digits : String}
    {index : UInt32} (h : Numeral digits.toList index.toNat) :
    Spells (form.before ++ digits ++ form.after) (form.accessor index) := by
  simp only [indexedForms, List.mem_cons, List.not_mem_nil, or_false] at hmem
  rcases hmem with rfl | rfl | rfl | rfl | rfl | rfl
  · rw [show functionForm.after = "" from rfl, String.append_empty]
    exact .function h
  · rw [show i32GetterForm.after = "" from rfl, String.append_empty]
    exact .i32Getter h
  · rw [show i32SetterForm.after = "" from rfl, String.append_empty]
    exact .i32Setter h
  · exact .i64GetterHigh h
  · exact .i64GetterLow h
  · rw [show i64SetterForm.after = "" from rfl, String.append_empty]
    exact .i64Setter h

theorem spells_of_ofLabel? {label : String} {accessor : Accessor}
    (h : ofLabel? label.toList = some accessor) : Spells label accessor := by
  unfold ofLabel? at h
  split at h
  · next hmemory =>
    cases h
    rw [String.toList_inj.1 hmemory]
    exact .memory
  · split at h
    · next htable =>
      cases h
      rw [String.toList_inj.1 htable]
      exact .table
    · obtain ⟨form, hform, hread⟩ := List.exists_of_findSome?_eq_some h
      obtain ⟨digits, index, hdigits, hlabel, rfl⟩ := IndexedForm.read?_eq_some_iff.1 hread
      have hspelled : label = form.before ++ String.ofList digits ++ form.after := by
        rw [← String.toList_inj, hlabel]
        simp [IndexedForm.text]
      rw [hspelled]
      exact spells_of_form _ hform (by rwa [String.toList_ofList])

/-- The labels that are read are those of the grammar. -/
theorem ofLabel?_eq_some_iff {label : String} {accessor : Accessor} :
    ofLabel? label.toList = some accessor ↔ Spells label accessor :=
  ⟨spells_of_ofLabel?, ofLabel?_of_spells⟩

theorem spells_label (accessor : Accessor) : Spells accessor.label accessor := by
  have hdigits (index : UInt32) :
      Numeral (String.ofList (Decimal.digits index.toNat)).toList index.toNat := by
    rw [String.toList_ofList, ← Decimal.read?_eq_some_iff, Decimal.read?_digits]
  cases accessor with
  | memory => exact .memory
  | table => exact .table
  | function index =>
    exact spells_of_form functionForm (by simp [indexedForms]) (hdigits _)
  | i32Getter global =>
    exact spells_of_form i32GetterForm (by simp [indexedForms]) (hdigits _)
  | i32Setter global =>
    exact spells_of_form i32SetterForm (by simp [indexedForms]) (hdigits _)
  | i64GetterHigh global =>
    exact spells_of_form i64GetterHighForm (by simp [indexedForms]) (hdigits _)
  | i64GetterLow global =>
    exact spells_of_form i64GetterLowForm (by simp [indexedForms]) (hdigits _)
  | i64Setter global =>
    exact spells_of_form i64SetterForm (by simp [indexedForms]) (hdigits _)

theorem ofExportName?_eq_some_iff {symbol name : String} {accessor : Accessor} :
    ofExportName? symbol name = some accessor ↔
      ∃ label, name = symbol ++ label ∧ Spells label accessor := by
  have hsplit (label : List Char) : symbol.toList.isPrefixOf? name.toList = some label ↔
      name = symbol ++ String.ofList label := by
    rw [List.isPrefixOf?_eq_some_iff_append_eq, ← String.toList_inj, String.toList_append,
      String.toList_ofList]
    exact eq_comm
  constructor
  · intro h
    unfold ofExportName? at h
    split at h
    · next label hprefix =>
      refine ⟨String.ofList label, (hsplit label).1 hprefix, ?_⟩
      rwa [← ofLabel?_eq_some_iff, String.toList_ofList]
    · cases h
  · rintro ⟨label, hname, hlabel⟩
    have hprefix : symbol.toList.isPrefixOf? name.toList = some label.toList := by
      rw [hsplit, String.ofList_toList, hname]
    rw [ofExportName?, hprefix]
    exact ofLabel?_eq_some_iff.2 hlabel

/-- The name of an accessor is read as that accessor. -/
theorem ofExportName?_exportName (symbol : String) (accessor : Accessor) :
    ofExportName? symbol (accessor.exportName symbol) = some accessor :=
  ofExportName?_eq_some_iff.2 ⟨accessor.label, rfl, spells_label accessor⟩

theorem exportName_injective {symbol : String} {a b : Accessor}
    (h : a.exportName symbol = b.exportName symbol) : a = b := by
  have ha := ofExportName?_exportName symbol a
  rw [h, ofExportName?_exportName] at ha
  exact (Option.some.inj ha).symm

/-- The names that are read as those of accessors are the ones that the grammar gives, of all texts
whatever, and each as the accessor that it gives. The name of every accessor is one of them. -/
theorem names_read (symbol : String) :
    (∀ name accessor, ofExportName? symbol name = some accessor ↔
      ∃ label, name = symbol ++ label ∧ Spells label accessor) ∧
    (∀ name, ofExportName? symbol name = none ↔
      ∀ label accessor, name = symbol ++ label → ¬Spells label accessor) ∧
    ∀ accessor, ofExportName? symbol (accessor.exportName symbol) = some accessor := by
  refine ⟨fun _ _ => ofExportName?_eq_some_iff, ?_, ofExportName?_exportName symbol⟩
  intro name
  rw [Option.eq_none_iff_forall_ne_some]
  constructor
  · intro hnone label accessor hname hlabel
    exact hnone accessor (ofExportName?_eq_some_iff.2 ⟨label, hname, hlabel⟩)
  · intro hnot accessor hread
    obtain ⟨label, hname, hlabel⟩ := ofExportName?_eq_some_iff.1 hread
    exact hnot label accessor hname hlabel

example : ofExportName? "_" "_func_007" = some (function 7) := by decide +kernel

example : ofExportName? "_" "_func_4294967296" = none := by decide +kernel

end Accessor

end WasmSnapshot
