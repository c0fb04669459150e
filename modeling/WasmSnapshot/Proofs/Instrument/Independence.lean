import Mathlib.Data.List.Forall2
import WasmSnapshot.Proofs.Instrument.AnyOrder
import WasmSnapshot.Proofs.Instrument.Basic

/-! What instrumenting a file takes from the selection and from the symbol. Of a selection only its
choice of memory, table and the globals that can be exposed counts; of a symbol, only that names begin
with it. Two runs are compared step by step: they fail at the same step, or go on with results that
differ in the names of exports alone. -/

namespace WasmSnapshot

/-- Two runs that fail with the same error, or whose results are related. -/
inductive Except.Related {ε α β : Type} (r : α → β → Prop) : Except ε α → Except ε β → Prop
  | error (e : ε) : Related r (.error e) (.error e)
  | ok {a : α} {b : β} (h : r a b) : Related r (.ok a) (.ok b)

namespace Except.Related

variable {ε α β γ δ : Type}

theorem refl {r : α → α → Prop} (h : ∀ a, r a a) (x : Except ε α) : Related r x x := by
  cases x with
  | error e => exact .error e
  | ok a => exact .ok (h a)

/-- Related runs go on to related runs. -/
theorem bind {r : α → β → Prop} {r' : γ → δ → Prop} {x : Except ε α} {y : Except ε β}
    {f : α → Except ε γ} {g : β → Except ε δ} (h : Related r x y)
    (hnext : ∀ a b, x = .ok a → y = .ok b → r a b → Related r' (f a) (g b)) :
    Related r' (x >>= f) (y >>= g) := by
  cases h with
  | error e => exact .error e
  | ok h => exact hnext _ _ rfl rfl h

/-- The same run goes on to related runs. -/
theorem bind_same {r : γ → δ → Prop} {x : Except ε α} {f : α → Except ε γ} {g : α → Except ε δ}
    (hnext : ∀ a, x = .ok a → Related r (f a) (g a)) : Related r (x >>= f) (x >>= g) := by
  cases x with
  | error e => exact .error e
  | ok a => exact hnext a rfl

/-- What each step keeps related, two runs over a list do. -/
theorem foldlM {r : α → β → Prop} {f : α → γ → Except ε α} {g : β → γ → Except ε β}
    (hstep : ∀ a b value, r a b → Related r (f a value) (g b value)) {values : List γ} {a : α} {b : β}
    (h : r a b) : Related r (values.foldlM f a) (values.foldlM g b) := by
  induction values generalizing a b with
  | nil => exact .ok h
  | cons value values ih =>
    rw [List.foldlM_cons, List.foldlM_cons]
    exact (hstep a b value h).bind fun _ _ _ _ hnext => ih hnext

end Except.Related

/-! ### Selections -/

/-- Two selections choose the same of a module with these globals. They may differ at globals that
are never exposed. -/
structure Selection.Agrees (selection other : Selection) (defines : OwnGlobal → Prop) : Prop where
  memory : selection.memory = other.memory
  table : selection.table = other.table
  globals : ∀ own, defines own → own.type.isMutable = true →
    (IntType.ofValueType? own.type.value).isSome = true →
    selection.selectsGlobal own.index = other.selectsGlobal own.index

namespace Additions

variable {selection other : Selection} {symbol : String} {outline : Outline}

theorem exposedGlobals_congr (h : selection.Agrees other (· ∈ outline.globals)) :
    exposedGlobals selection outline = exposedGlobals other outline := by
  refine List.filterMap_congr fun own hown => ?_
  cases hmutable : own.type.isMutable with
  | false => rfl
  | true =>
    cases htype : IntType.ofValueType? own.type.value with
    | none => simp
    | some type => rw [h.globals own hown hmutable (by rw [htype]; rfl)]

theorem ofOutline_congr (h : selection.Agrees other (· ∈ outline.globals)) :
    ofOutline selection symbol outline = ofOutline other symbol outline := by
  rw [ofOutline, ofOutline, ofItems_eq, ofItems_eq, accessorFunctions, accessorFunctions,
    signaturesFor, signaturesFor, itemExports, itemExports, exposedGlobals_congr h, h.memory, h.table]

end Additions

theorem instrument_congr {selection other : Selection} {symbol : String} {bytes : Bytes}
    (h : ∀ sections, Section.readModule bytes = .ok sections →
      selection.Agrees other (Section.Defines sections)) :
    instrument selection symbol bytes = instrument other symbol bytes := by
  unfold instrument
  cases hread : Section.readModule bytes with
  | error e => rfl
  | ok sections =>
    cases houtline : Outline.ofSections sections with
    | error e => simp [houtline, bind, Except.bind]
    | ok outline =>
      have hagrees : selection.Agrees other (· ∈ outline.globals) := {
        memory := (h sections hread).memory
        table := (h sections hread).table
        globals := fun own hown =>
          (h sections hread).globals own ((Outline.mem_globals_iff houtline own).1 hown) }
      simp only [houtline, Additions.ofOutline_congr hagrees, bind, Except.bind]

/-! ### Symbols -/

/-- Two exports of the same item, whose names differ in nothing but the symbol they begin with. -/
structure Export.SameUnder (symbol other : String) (e e' : Export) : Prop where
  kind : e.kind = e'.kind
  index : e.index = e'.index
  name : ∃ label, e.name = symbol ++ label ∧ e'.name = other ++ label

/-- Additions of the same entries under two symbols. -/
structure Additions.SameUnder (symbol other : String) (additions additions' : Additions) : Prop where
  named : additions.symbol = symbol
  named' : additions'.symbol = other
  firstType : additions.firstType = additions'.firstType
  nextFunction : additions.nextFunction = additions'.nextFunction
  signatures : additions.signatures = additions'.signatures
  functions : additions.functions = additions'.functions
  code : additions.code = additions'.code
  exports : List.Forall₂ (Export.SameUnder symbol other) additions.exports.toList
    additions'.exports.toList

namespace Additions

variable {selection : Selection} {symbol other : String} {outline : Outline}
  {additions additions' : Additions}

theorem sameUnder_exportName (accessor : Accessor) (kind : ExternKind) (index : UInt32) :
    Export.SameUnder symbol other ⟨accessor.exportName symbol, kind, index⟩
      ⟨accessor.exportName other, kind, index⟩ :=
  ⟨rfl, rfl, accessor.label, rfl, rfl⟩

theorem sameUnder_itemExports : List.Forall₂ (Export.SameUnder symbol other)
    (itemExports selection symbol outline) (itemExports selection other outline) := by
  have hmap (accessor : UInt32 → Accessor) (kind : ExternKind) (indices : List UInt32) :
      List.Forall₂ (Export.SameUnder symbol other)
        (indices.map fun index => ⟨(accessor index).exportName symbol, kind, index⟩)
        (indices.map fun index => ⟨(accessor index).exportName other, kind, index⟩) := by
    rw [List.forall₂_map_left_iff, List.forall₂_map_right_iff, List.forall₂_same]
    exact fun index _ => sameUnder_exportName (accessor index) kind index
  exact List.rel_append (List.rel_append (hmap (fun _ => .memory) _ _) (hmap (fun _ => .table) _ _))
    (hmap .function _ _)

theorem sameUnder_ofItems : SameUnder symbol other (ofItems selection symbol outline)
    (ofItems selection other outline) := by
  rw [ofItems_eq, ofItems_eq]
  exact {
    named := rfl
    named' := rfl
    firstType := rfl
    nextFunction := rfl
    signatures := rfl
    functions := rfl
    code := rfl
    exports := sameUnder_itemExports }

/-- A function is added to both, or to neither. -/
theorem SameUnder.addFunction (h : SameUnder symbol other additions additions')
    (function : AccessorFunction) : Except.Related (SameUnder symbol other)
      (additions.addFunction function) (additions'.addFunction function) := by
  simp only [Additions.addFunction, addExport, h.nextFunction, h.firstType, h.functions, h.code]
  split
  · exact .error _
  · split
    · exact .error _
    · refine .ok {
        named := h.named
        named' := h.named'
        firstType := rfl
        nextFunction := rfl
        signatures := h.signatures
        functions := rfl
        code := rfl
        exports := ?_ }
      simp only [h.named, h.named', Array.toList_push]
      exact List.rel_append h.exports (.cons (sameUnder_exportName _ _ _) .nil)

theorem sameUnder_ofOutline : Except.Related (SameUnder symbol other)
    (ofOutline selection symbol outline) (ofOutline selection other outline) := by
  unfold ofOutline
  split
  · exact Except.Related.foldlM (fun _ _ function h => h.addFunction function) sameUnder_ofItems
  · exact .error _

end Additions

/-! ### Splicing -/

/-- Outputs that differ in nothing but the entries at the end of their first section of exports. -/
def Section.SameBut (added added' : Bytes) (spliced spliced' : List Section) : Prop :=
  spliced = spliced' ∨ ∃ before contents after, (∀ s ∈ before, s.id ≠ SectionKind.exports.id) ∧
    spliced = before ++ ⟨SectionKind.exports.id, contents ++ added⟩ :: after ∧
    spliced' = before ++ ⟨SectionKind.exports.id, contents ++ added'⟩ :: after

theorem Section.SameBut.append_left {added added' : Bytes} {spliced spliced' : List Section}
    (h : SameBut added added' spliced spliced') (before : List Section)
    (hbefore : ∀ s ∈ before, s.id ≠ SectionKind.exports.id) :
    SameBut added added' (before ++ spliced) (before ++ spliced') := by
  rcases h with rfl | ⟨front, contents, after, hfront, rfl, rfl⟩
  · exact .inl rfl
  · refine .inr ⟨before ++ front, contents, after, ?_, by simp, by simp⟩
    exact List.forall_mem_append.2 ⟨hbefore, hfront⟩

namespace Pending

variable {pending : Pending} {entries new : Entries} {present : SectionKind → Bool}
  {sections : List Section}

/-- Pending entries, with others in place of the exports. -/
def withExports (new : Entries) (pending : Pending) : Pending :=
  pending.map fun entry => (entry.1, if entry.1 = .exports then new else entry.2)

theorem targets_withExports : targets (withExports new pending) = pending.targets := by
  simp [targets, withExports]

theorem filter_withExports (p : SectionKind → Bool) :
    ((withExports new pending).filter fun e => p e.1) =
      withExports new (pending.filter fun e => p e.1) := List.filter_map

theorem lookup_withExports (kind : SectionKind) : (withExports new pending).lookup kind =
    (pending.lookup kind).map fun waiting => if kind = .exports then new else waiting := by
  induction pending with
  | nil => rfl
  | cons entry pending ih =>
    obtain ⟨target, waiting⟩ := entry
    by_cases htarget : kind = target
    · subst htarget
      simp [withExports]
    · rw [lookup_cons_ne htarget, ← ih]
      exact lookup_cons_ne htarget _

theorem withExports_of_lookup_none (new : Entries) (h : pending.lookup .exports = none) :
    withExports new pending = pending := by
  refine (List.map_congr_left fun entry hentry => ?_).trans (List.map_id _)
  have hne : entry.1 ≠ .exports := fun heq => lookup_eq_none.1 h (heq ▸ List.mem_map_of_mem hentry)
  rw [if_neg hne]
  rfl

theorem id_newSections_ne (h : pending.lookup .exports = none) :
    ∀ s ∈ newSections pending, s.id ≠ SectionKind.exports.id := by
  intro s hs heq
  obtain ⟨entry, hentry, rfl⟩ := List.mem_map.1 hs
  exact lookup_eq_none.1 h (SectionKind.id_injective heq ▸ List.mem_map_of_mem hentry)

/-- A new section of exports differs in its entries alone. -/
theorem sameBut_newSections (hnodup : pending.targets.Nodup)
    (hlookup : pending.lookup .exports = some entries) (hcount : entries.count = new.count)
    (rest : List Section) : Section.SameBut entries.bytes new.bytes
      (newSections pending ++ rest) (newSections (withExports new pending) ++ rest) := by
  induction pending with
  | nil => cases hlookup
  | cons entry pending ih =>
    obtain ⟨target, waiting⟩ := entry
    obtain ⟨hnot, hnodup⟩ := List.nodup_cons.1 hnodup
    by_cases htarget : SectionKind.exports = target
    · subst htarget
      rw [List.lookup_cons_self, Option.some.injEq] at hlookup
      subst hlookup
      have hsame := withExports_of_lookup_none new (lookup_eq_none.2 hnot)
      refine .inr ⟨[], Leb128.encode waiting.count.toNat, newSections pending ++ rest,
        List.forall_mem_nil _, rfl, ?_⟩
      rw [withExports] at hsame
      rw [withExports, List.map_cons, hsame, hcount]
      rfl
    · rw [lookup_cons_ne htarget] at hlookup
      have hrest := (ih hnodup hlookup).append_left (newSections [(target, waiting)]) (by
        rw [newSections, List.map_singleton, List.forall_mem_singleton]
        exact fun heq => htarget (SectionKind.id_injective heq).symm)
      simpa [newSections, withExports, Ne.symm htarget] using hrest

/-- A section of exports that receives entries differs in these alone. -/
theorem related_placed (hcount : entries.count = new.count) (s : Section) :
    Except.Related (fun placed placed' => ∃ contents,
        placed = [⟨s.id, contents ++ entries.bytes⟩] ∧ placed' = [⟨s.id, contents ++ new.bytes⟩])
      (Entries.placed .exports (some entries) [s]) (Entries.placed .exports (some new) [s]) := by
  rw [Entries.placed, Entries.placed, Entries.appendTo, Entries.appendTo, hcount]
  split
  · exact .error _
  · split
    · exact .ok ⟨_, rfl, rfl⟩
    · exact .error _

/-- Whatever waits as exports, if their number is the same, splicing gives sections that differ in
them alone. -/
theorem related_splice (hnodup : pending.targets.Nodup)
    (hlookup : pending.lookup .exports = some entries) (hcount : entries.count = new.count) :
    Except.Related (Section.SameBut entries.bytes new.bytes) (splice present pending sections)
      (splice present (withExports new pending) sections) := by
  induction sections generalizing pending with
  | nil =>
    have hsame := sameBut_newSections hnodup hlookup hcount []
    rw [List.append_nil, List.append_nil] at hsame
    exact .ok hsame
  | cons s sections ih =>
    cases hkind : s.kind? with
    | none =>
      rw [splice, splice, hkind]
      refine (ih hnodup hlookup).bind fun _ _ _ _ hsame => .ok ?_
      refine hsame.append_left [s] (List.forall_mem_singleton.2 ?_)
      exact Section.kind?_eq_none_iff.1 hkind .exports
    | some here =>
      have hid : s.id = here.id := Section.kind?_eq_some_iff.1 hkind
      have hnodup' : (targets (withExports new pending)).Nodup := by
        rw [targets_withExports]
        exact hnodup
      rw [splice_cons_eq hnodup hkind, splice_cons_eq hnodup' hkind,
        filter_withExports (isDue present here), filter_withExports (!isDue present here ·),
        filter_withExports (· != here)]
      have hdue := lookup_filter (isDue present here) .exports pending
      have hwaiting := lookup_filter (!isDue present here ·) .exports pending
      have hnodue : (targets (pending.filter fun e => isDue present here e.1)).Nodup :=
        hnodup.sublist (List.filter_sublist.map _)
      have hnowait : (targets (pending.filter fun e => !isDue present here e.1)).Nodup :=
        hnodup.sublist (List.filter_sublist.map _)
      generalize (pending.filter fun e => isDue present here e.1) = due at hdue hnodue ⊢
      generalize (pending.filter fun e => !isDue present here e.1) = waiting at hwaiting hnowait ⊢
      cases hbefore : isDue present here .exports with
      | true =>
        -- The section of exports is made here, and what goes on is the same.
        rw [hbefore, if_pos rfl, hlookup] at hdue
        rw [hbefore, if_neg (by decide)] at hwaiting
        have hrest : (waiting.filter fun e => e.1 != here).lookup .exports = none := by
          rw [lookup_filter (· != here), hwaiting, ite_self]
        rw [withExports_of_lookup_none new hwaiting, withExports_of_lookup_none new hrest]
        refine .bind_same fun placed _ => .bind_same fun others _ => ?_
        exact .ok (sameBut_newSections hnodue hdue hcount _)
      | false =>
        rw [hbefore, if_neg (by decide)] at hdue
        rw [hbefore, Bool.not_false, if_pos rfl, hlookup] at hwaiting
        rw [withExports_of_lookup_none new hdue]
        by_cases hhere : here = .exports
        · -- This is the section that receives the exports.
          subst hhere
          have hrest : (waiting.filter fun e => e.1 != SectionKind.exports).lookup .exports = none :=
            lookup_without_self .exports waiting
          rw [withExports_of_lookup_none new hrest, lookup_withExports, hwaiting, Option.map_some,
            if_pos rfl]
          refine (related_placed hcount s).bind ?_
          rintro _ _ - - ⟨contents, rfl, rfl⟩
          refine .bind_same fun others _ => ?_
          have hhere : Section.SameBut entries.bytes new.bytes
              (⟨s.id, contents ++ entries.bytes⟩ :: others)
              (⟨s.id, contents ++ new.bytes⟩ :: others) := by
            rw [hid]
            exact .inr ⟨[], contents, others, List.forall_mem_nil _, rfl, rfl⟩
          exact .ok (hhere.append_left _ (id_newSections_ne hdue))
        · simp only [lookup_withExports, if_neg hhere, Option.map_id']
          have hrest : (waiting.filter fun e => e.1 != here).lookup .exports = some entries :=
            (lookup_without_ne (Ne.symm hhere) waiting).trans hwaiting
          have hnorest : (targets (waiting.filter fun e => e.1 != here)).Nodup :=
            hnowait.sublist (List.filter_sublist.map _)
          refine .bind_same fun placed hplaced => ?_
          obtain ⟨contents, rfl⟩ := Entries.placed_singleton hplaced
          refine (ih hnorest hrest).bind fun _ _ _ _ hsame => .ok ?_
          refine (hsame.append_left _ ?_).append_left _ (id_newSections_ne hdue)
          rw [List.forall_mem_singleton, hid]
          exact fun heq => hhere (SectionKind.id_injective heq)

end Pending

namespace Additions

variable {symbol other : String} {additions additions' : Additions}

theorem SameUnder.length_exports (h : SameUnder symbol other additions additions') :
    additions.exports.toList.length = additions'.exports.toList.length := h.exports.length_eq

/-- The entries are the same but for those of the exports, of which there are as many. -/
theorem SameUnder.entries_eq (h : SameUnder symbol other additions additions') (kind : SectionKind) :
    additions'.entries kind =
      if kind = .exports then additions'.entries .exports else additions.entries kind := by
  cases kind <;> simp [entries, h.signatures, h.functions, h.code]

theorem SameUnder.count_exports (h : SameUnder symbol other additions additions') :
    (additions.entries .exports).count = (additions'.entries .exports).count := by
  rw [entries, entries, Entries.ofList, Entries.ofList, h.length_exports]

theorem SameUnder.pending_eq (h : SameUnder symbol other additions additions') :
    additions'.pending = Pending.withExports (additions'.entries .exports) additions.pending := by
  have hempty (kind : SectionKind) :
      (additions'.entries kind).isEmpty = (additions.entries kind).isEmpty := by
    rw [h.entries_eq kind]
    split
    · next heq => rw [heq, Entries.isEmpty, Entries.isEmpty, h.count_exports]
    · rfl
  rw [pending, pending, Pending.withExports, List.filter_map, List.filter_map, List.map_map]
  simp only [Function.comp_def, hempty, ← h.entries_eq]

/-- Both are spliced into the sections, or neither can be. -/
theorem SameUnder.splice (h : SameUnder symbol other additions additions')
    (present : SectionKind → Bool) (sections : List Section) : Except.Related
      (Section.SameBut (additions.exports.toList.flatMap Export.encode)
        (additions'.exports.toList.flatMap Export.encode))
      (additions.pending.splice present sections) (additions'.pending.splice present sections) := by
  rw [h.pending_eq]
  cases hlookup : additions.pending.lookup .exports with
  | none =>
    rw [Pending.withExports_of_lookup_none _ hlookup]
    exact .refl (fun _ => .inl rfl) _
  | some entries =>
    have hentries : entries = additions.entries .exports := by
      rw [lookup_pending, if_pos (by decide), Module.someEntries] at hlookup
      split at hlookup
      · cases hlookup
      · exact (Option.some.inj hlookup).symm
    subst hentries
    exact Pending.related_splice additions.targets_nodup hlookup h.count_exports

end Additions

/-- Two outputs for one file under two symbols. -/
structure Instrumented.SameUnder (symbol other : String) (out out' : Instrumented) : Prop where
  exports : List.Forall₂ (Export.SameUnder symbol other) out.exports out'.exports
  sections : ∃ spliced spliced', Section.readModule out.bytes = .ok spliced ∧
    Section.readModule out'.bytes = .ok spliced' ∧
    Section.SameBut (out.exports.flatMap Export.encode) (out'.exports.flatMap Export.encode)
      spliced spliced'

section

variable {selection : Selection} {symbol other : String} {bytes : Bytes}

theorem related_instrument (hfits : instrument selection symbol bytes ≠ .error .sectionTooLong)
    (hfits' : instrument selection other bytes ≠ .error .sectionTooLong) :
    Except.Related (Instrumented.SameUnder symbol other) (instrument selection symbol bytes)
      (instrument selection other bytes) := by
  unfold instrument
  refine .bind_same fun sections hread => .bind_same fun outline houtline => ?_
  refine Additions.sameUnder_ofOutline.bind fun additions additions' hadditions hadditions' hsame => ?_
  refine (hsame.splice _ _).bind fun spliced spliced' hsplice hsplice' hbut => ?_
  rw [instrument_of_splice hread houtline hadditions hsplice] at hfits
  rw [instrument_of_splice hread houtline hadditions' hsplice'] at hfits'
  have hfit : spliced.all Section.fits = true := by
    apply Decidable.byContradiction
    exact fun hnot => hfits (if_neg hnot)
  have hfit' : spliced'.all Section.fits = true := by
    apply Decidable.byContradiction
    exact fun hnot => hfits' (if_neg hnot)
  rw [if_pos hfit, if_pos hfit']
  exact .ok {
    exports := hsame.exports
    sections := ⟨spliced, spliced', Additions.read_of_splice hread houtline hsplice hfit,
      Additions.read_of_splice hread houtline hsplice' hfit', hbut⟩ }

end

/-- Two selections that agree where they are asked have the same effect, and another symbol changes
only the names that begin with it. -/
theorem instrument_independent {selection selection' : Selection} {symbol symbol' : String}
    {bytes : Bytes} (hagrees : ∀ sections, Section.readModule bytes = .ok sections →
      selection.Agrees selection' (Section.Defines sections)) :
    (symbol = symbol' → instrument selection symbol bytes = instrument selection' symbol' bytes) ∧
    (instrument selection symbol bytes ≠ .error .sectionTooLong →
      instrument selection' symbol' bytes ≠ .error .sectionTooLong →
      Except.Related (Instrumented.SameUnder symbol symbol') (instrument selection symbol bytes)
        (instrument selection' symbol' bytes)) := by
  constructor
  · rintro rfl
    exact instrument_congr hagrees
  · intro hfits hfits'
    rw [← instrument_congr hagrees] at hfits' ⊢
    exact related_instrument hfits hfits'

/-- A module with an export of its own, an imported global, a constant, an integer, a float and a
long integer. -/
def mixedSections : List Section := [
  ⟨2, [1, 1, 0x6d, 1, 0x67, 3, 0x7f, 1]⟩,
  ⟨5, [1, 0, 1]⟩,
  ⟨6, [4, 0x7f, 0, 0x41, 5, 0x0b, 0x7f, 1, 0x41, 6, 0x0b, 0x7d, 1, 0x43, 0, 0, 0, 0, 0x0b,
    0x7e, 1, 0x42, 7, 0x0b]⟩,
  ⟨7, [1, 1, 0x78, 2, 0]⟩]

theorem instrument_independent_mixed : ∃ out out',
    instrument { globals := [true, true, false] } "_" (Section.encodeModule mixedSections) = .ok out ∧
    instrument { globals := [false, false, false, false, true, false] } "state"
      (Section.encodeModule mixedSections) = .ok out' ∧
    Instrumented.SameUnder "_" "state" out out' := by
  have hread : Section.readModule (Section.encodeModule mixedSections) = .ok mixedSections :=
    Section.readModule_encodeModule (by decide)
  have hasked : (Outline.ofSections mixedSections).toOption.any (·.globals.all fun own =>
      !own.type.isMutable || (IntType.ofValueType? own.type.value).isNone ||
        Selection.selectsGlobal { globals := [true, true, false] } own.index ==
          Selection.selectsGlobal { globals := [false, false, false, false, true, false] }
            own.index) = true := by decide +kernel
  have hagrees : ∀ sections, Section.readModule (Section.encodeModule mixedSections) = .ok sections →
      Selection.Agrees { globals := [true, true, false] }
        { globals := [false, false, false, false, true, false] } (Section.Defines sections) := by
    intro sections hsections
    cases hread.symm.trans hsections
    refine ⟨rfl, rfl, fun own hown hmutable htype => ?_⟩
    cases houtline : Outline.ofSections mixedSections with
    | error e =>
      rw [houtline] at hasked
      cases hasked
    | ok outline =>
      rw [houtline] at hasked
      have hown := List.all_eq_true.1 hasked own ((Outline.mem_globals_iff houtline own).2 hown)
      rw [hmutable, ← Option.not_isSome, htype] at hown
      exact eq_of_beq hown
  obtain ⟨out, hout⟩ := Except.exists_of_isOk (x := instrument { globals := [true, true, false] }
    "_" (Section.encodeModule mixedSections)) (by decide +kernel)
  have hrelated : Except.Related (Instrumented.SameUnder "_" "state")
      (instrument { globals := [true, true, false] } "_" (Section.encodeModule mixedSections))
      (instrument { globals := [false, false, false, false, true, false] } "state"
        (Section.encodeModule mixedSections)) :=
    (instrument_independent hagrees).2 (by rw [hout]; exact nofun) (by decide +kernel)
  rw [hout] at hrelated
  generalize instrument { globals := [false, false, false, false, true, false] } "state"
    (Section.encodeModule mixedSections) = result at hrelated ⊢
  cases hrelated with
  | ok h => exact ⟨out, _, hout, rfl, h⟩

end WasmSnapshot
