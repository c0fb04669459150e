import WasmSnapshot.Proofs.Accessor.Exposed

/-! Symbols keep accessors apart. A label is known by its first two letters, and nowhere else in a
label do two such letters stand next to each other; so no label ends in another one, and a name is
that of an accessor under one symbol at most. -/

namespace WasmSnapshot

namespace Accessor

/-- The first two letters of labels. -/
def heads : List (Char × Char) := [('m', 'e'), ('t', 'a'), ('f', 'u'), ('g', 'l')]

/-- Whether a text begins as labels do. -/
def opens : List Char → Bool
  | [] => false
  | c :: rest => heads.any fun head => c = head.1 && rest.head? = some head.2

/-- Nowhere in a text does a label begin. -/
def quiet : List Char → Bool
  | [] => true
  | c :: rest => !opens (c :: rest) && quiet rest

theorem opens_of_quiet {front text : List Char} (h : quiet (front ++ text) = true) :
    opens text = false := by
  induction front with
  | nil =>
    cases text with
    | nil => rfl
    | cons c rest =>
      simp only [List.nil_append, quiet, Bool.and_eq_true, Bool.not_eq_true'] at h
      exact h.1
  | cons c front ih =>
    simp only [List.cons_append, quiet, Bool.and_eq_true] at h
    exact ih h.2

theorem opens_of_isDigit {c : Char} (h : Decimal.isDigit c = true) (rest : List Char) :
    opens (c :: rest) = false := by
  have hne : ∀ letter ∈ heads.map (·.1), c ≠ letter := by
    rintro letter hletter rfl
    have hall : (heads.map (·.1)).all (fun letter => !Decimal.isDigit letter) = true := rfl
    have hnot := List.all_eq_true.1 hall _ hletter
    rw [h] at hnot
    cases hnot
  simp only [heads, List.map_cons, List.map_nil, List.forall_mem_cons] at hne
  simp [opens, heads, hne]

theorem quiet_digits {digits text : List Char} (h : digits.all Decimal.isDigit = true) :
    quiet (digits ++ text) = quiet text := by
  induction digits with
  | nil => rfl
  | cons c digits ih =>
    rw [List.all_cons, Bool.and_eq_true] at h
    rw [List.cons_append, quiet, opens_of_isDigit h.1, ih h.2]
    rfl

/-- A label begins as labels do, and nowhere later does one. -/
theorem opens_of_ofLabel? {label : List Char} {accessor : Accessor}
    (h : ofLabel? label = some accessor) : opens label = true ∧ quiet label.tail = true := by
  unfold ofLabel? at h
  split at h
  · next hmemory =>
    rw [hmemory]
    decide
  · split at h
    · next htable =>
      rw [htable]
      decide
    · obtain ⟨form, hform, hread⟩ := List.exists_of_findSome?_eq_some h
      obtain ⟨digits, index, hdigits, rfl, -⟩ := IndexedForm.read?_eq_some_iff.1 hread
      have hquiet : quiet (digits ++ form.after.toList) = quiet form.after.toList :=
        quiet_digits hdigits.row.2.1
      unfold IndexedForm.text
      generalize digits ++ form.after.toList = rest at hquiet ⊢
      simp only [indexedForms, List.mem_cons, List.not_mem_nil, or_false] at hform
      rcases hform with rfl | rfl | rfl | rfl | rfl | rfl <;> exact ⟨rfl, hquiet⟩

/-- No label ends in another one. -/
theorem eq_nil_of_ofLabel? {front label : List Char} {long short : Accessor}
    (hlong : ofLabel? (front ++ label) = some long) (hshort : ofLabel? label = some short) :
    front = [] := by
  cases front with
  | nil => rfl
  | cons c front =>
    have hquiet := (opens_of_ofLabel? hlong).2
    have hopens := (opens_of_ofLabel? hshort).1
    rw [List.cons_append, List.tail_cons] at hquiet
    rw [opens_of_quiet hquiet] at hopens
    cases hopens

/-- A name is that of an accessor under one symbol at most. -/
theorem symbol_unique {symbol other name : String} {a b : Accessor}
    (ha : ofExportName? symbol name = some a) (hb : ofExportName? other name = some b) :
    symbol = other := by
  obtain ⟨label, rfl, hlabel⟩ := ofExportName?_eq_some_iff.1 ha
  obtain ⟨label', hname, hlabel'⟩ := ofExportName?_eq_some_iff.1 hb
  have hread := ofLabel?_of_spells hlabel
  have hread' := ofLabel?_of_spells hlabel'
  have hsplit : symbol.toList ++ label.toList = other.toList ++ label'.toList := by
    rw [← String.toList_append, hname, String.toList_append]
  apply String.toList_inj.1
  rcases List.append_eq_append_iff.1 hsplit with ⟨front, hother, hfront⟩ | ⟨front, hsymbol, hfront⟩
  · rw [hfront] at hread
    rw [hother, eq_nil_of_ofLabel? hread hread', List.append_nil]
  · rw [hfront] at hread'
    rw [hsymbol, eq_nil_of_ofLabel? hread' hread, List.append_nil]

theorem ofExportName?_of_ne {symbol other : String} (hne : other ≠ symbol) (accessor : Accessor) :
    ofExportName? other (accessor.exportName symbol) = none := by
  cases hread : ofExportName? other (accessor.exportName symbol) with
  | none => rfl
  | some a => exact absurd (symbol_unique hread (ofExportName?_exportName symbol accessor)) hne

end Accessor

/-- What a module without items of any kind declares. -/
def Declarations.empty : Declarations where
  types := []
  imports := []
  functions := []
  globals := []
  bodies := []
  tables := []
  memories := 0
  exports := []

/-- What of a module that was given accessors under `symbol` is seen under another symbol: nothing. -/
def Declarations.seenUnder (original : Declarations) (symbol other : String) : Declarations :=
  if other = symbol then original else .empty

variable {selection : Selection} {symbol other : String} {bytes : Bytes} {sections : List Section}
  {original m : Declarations} {inst : Instance} {store : Store}

/-- Where no accessor is found, as much is exposed as of a module without items. -/
theorem Instance.exposes_empty (h : AccessorExports.ofInstance other inst = {}) :
    inst.Exposes selection other .empty store where
  memory := by
    rw [h, Selection.memory?, Selection.exposesMemory]
    cases selection.memory <;> rfl
  table := by
    rw [h, Selection.table?, Selection.exposesTable]
    cases selection.table <;> rfl
  mem_functions := by
    intro index address
    rw [h]
    constructor
    · intro hmem
      cases hmem
    · rintro ⟨-, hlt, -⟩
      exact absurd hlt (Nat.not_lt_zero _)
  sound hmem := by
    rw [h] at hmem
    cases hmem
  complete hexposed := by cases hexposed
  ownFunction_injective := by
    rintro index other address ⟨-, hlt, -⟩
    exact absurd hlt (Nat.not_lt_zero _)
  ownFunction_found _ hlt := absurd hlt (Nat.not_lt_zero _)
  memory_found hexposes := by
    rw [Selection.exposesMemory] at hexposes
    simp [Declarations.empty] at hexposes
  table_found hexposes := by
    rw [Selection.exposesTable] at hexposes
    simp [Declarations.empty] at hexposes
  index_lt hexposed := by cases hexposed
  global_found hexposed := by cases hexposed
  global_injective hexposed := by cases hexposed

/-- The accessors that a module was given under one symbol are none under another one. -/
theorem Prepared.ofInstance_eq_empty (h : Prepared selection symbol bytes sections original m)
    (hof : inst.Of m store) (hne : other ≠ symbol)
    (hnames : ∀ e ∈ original.exports, Accessor.ofExportName? other e.name = none) :
    AccessorExports.ofInstance other inst = {} := by
  obtain ⟨out, hout, hm⟩ := h.instrumented
  obtain ⟨outline, additions, spliced, hmade⟩ :=
    made_of_instrument h.framed.read h.framed.ordered hout
  rw [Declarations.ofBytes?_of_readModule hmade.read] at hm
  have hequipped := hmade.equipped h.framed h.decoded hm
  apply AccessorExports.foldl_add_of_none
  intro entry hentry
  rw [hof.exports] at hentry
  obtain ⟨e, he, hresolved⟩ := List.mem_filterMap.1 hentry
  obtain ⟨item, -, rfl⟩ := Option.map_eq_some_iff.1 hresolved
  rw [hequipped.exports, List.mem_append, List.mem_append] at he
  rcases he with he | he | he
  · exact hnames e he
  · obtain ⟨accessor, hname, -⟩ := Additions.mem_itemExports he
    show Accessor.ofExportName? other e.name = none
    rw [hname]
    exact Accessor.ofExportName?_of_ne hne accessor
  · obtain ⟨position, function, -, rfl⟩ := Additions.mem_functionExports.1 he
    exact Accessor.ofExportName?_of_ne hne function.accessor

/-- What an instance exposes under a symbol, be it the one of its accessors or another. -/
theorem Prepared.exposes_under (h : Prepared selection symbol bytes sections original m)
    (hnames : ∀ e ∈ original.exports, Accessor.ofExportName? other e.name = none)
    (hof : inst.Of m store) :
    inst.Exposes selection other (original.seenUnder symbol other) store := by
  unfold Declarations.seenUnder
  split
  · next heq =>
    rw [heq]
    exact h.exposes hof
  · next hne => exact Instance.exposes_empty (h.ofInstance_eq_empty hof hne hnames)

end WasmSnapshot
