import WasmSnapshot.Instrument.Basic
import WasmSnapshot.Proofs.Instrument.Outline

/-! Additions as they are made, one push after the other. A push adds signatures, an export of what the
module holds already, or an accessor function. Whatever the order of pushes, a function takes the next
place among the type indices, among the bodies and among the indices of functions, and the next place
of all among the exports. -/

namespace WasmSnapshot

/-- A step in which additions are made. -/
inductive Push where
  | signatures (added : List Signature)
  /-- An export of the item with an index that the module holds already. -/
  | item (accessor : Accessor) (kind : ExternKind) (index : UInt32)
  | function (f : AccessorFunction)
  deriving DecidableEq, Repr

namespace Push

/-- Additions after a push. -/
def apply (additions : Additions) : Push → Except InstrumentError Additions
  | .signatures added => .ok (additions.addSignatures added)
  | .item accessor kind index => .ok (additions.addExport accessor kind index)
  | .function f => additions.addFunction f

/-- The signatures that are added. -/
def newSignatures : Push → List Signature
  | .signatures added => added
  | _ => []

/-- The function that is added, if it is one. -/
def function? : Push → Option AccessorFunction
  | .function f => some f
  | _ => none

/-- Whether an export is added. -/
def exports : Push → Bool
  | .signatures _ => false
  | .item .. | .function _ => true

/-- All functions that are added. -/
def functionsOf (pushes : List Push) : List AccessorFunction := pushes.filterMap function?

/-- All exports that are added, if the first function gets the index `next`. -/
def recordsOf (symbol : String) (next : UInt32) : List Push → List Export
  | [] => []
  | .signatures _ :: pushes => recordsOf symbol next pushes
  | .item accessor kind index :: pushes =>
    ⟨accessor.exportName symbol, kind, index⟩ :: recordsOf symbol next pushes
  | .function f :: pushes =>
    ⟨f.accessor.exportName symbol, .func, next⟩ :: recordsOf symbol (next + 1) pushes

@[simp] theorem functionsOf_nil : functionsOf [] = [] := rfl

@[simp] theorem functionsOf_signatures (added : List Signature) (pushes : List Push) :
    functionsOf (.signatures added :: pushes) = functionsOf pushes := rfl

@[simp] theorem functionsOf_item (accessor : Accessor) (kind : ExternKind) (index : UInt32)
    (pushes : List Push) : functionsOf (.item accessor kind index :: pushes) = functionsOf pushes :=
  rfl

@[simp] theorem functionsOf_function (f : AccessorFunction) (pushes : List Push) :
    functionsOf (.function f :: pushes) = f :: functionsOf pushes := rfl

theorem functionsOf_append (before after : List Push) :
    functionsOf (before ++ after) = functionsOf before ++ functionsOf after :=
  List.filterMap_append

theorem recordsOf_append (symbol : String) (next : UInt32) (before after : List Push) :
    recordsOf symbol next (before ++ after) = recordsOf symbol next before ++
      recordsOf symbol (next + UInt32.ofNat (functionsOf before).length) after := by
  induction before generalizing next with
  | nil => simp [recordsOf]
  | cons push before ih =>
    cases push with
    | signatures added => exact ih next
    | item accessor kind index => exact congrArg (List.cons _) (ih next)
    | function f =>
      have hnext := ih (next + 1)
      rw [UInt32.add_one_add_ofNat] at hnext
      exact congrArg (List.cons _) hnext

theorem functionsOf_map_function (functions : List AccessorFunction) :
    functionsOf (functions.map .function) = functions := by
  rw [functionsOf, List.filterMap_map]
  exact List.filterMap_some

theorem flatMap_newSignatures_map_function (functions : List AccessorFunction) :
    (functions.map Push.function).flatMap newSignatures = [] := by
  rw [List.flatMap_map]
  exact List.flatMap_eq_nil_iff.2 fun _ _ => rfl

theorem length_recordsOf (symbol : String) (next : UInt32) (pushes : List Push) :
    (recordsOf symbol next pushes).length = pushes.countP exports := by
  induction pushes generalizing next with
  | nil => rfl
  | cons push pushes ih => cases push <;> simp [recordsOf, exports, List.countP_cons, ih]

theorem length_functionsOf_le (pushes : List Push) :
    (functionsOf pushes).length ≤ pushes.countP exports := by
  induction pushes with
  | nil => exact Nat.le_refl _
  | cons push pushes ih =>
    cases push <;> simp only [functionsOf_signatures, functionsOf_item, functionsOf_function,
      List.length_cons, List.countP_cons, exports, if_true] <;> omega

/-- Where a function is found among all functions that are added. -/
theorem getElem?_functionsOf (before : List Push) (f : AccessorFunction) (after : List Push) :
    (functionsOf (before ++ .function f :: after))[(functionsOf before).length]? = some f := by
  rw [functionsOf_append, functionsOf_function, List.getElem?_append_right (Nat.le_refl _),
    Nat.sub_self, List.getElem?_cons_zero]

/-- Where the export of a function is found, and the index that it tells. -/
theorem getElem?_recordsOf (symbol : String) (next : UInt32) (before : List Push)
    (f : AccessorFunction) (after : List Push) :
    (recordsOf symbol next (before ++ .function f :: after))[before.countP exports]? =
      some ⟨f.accessor.exportName symbol, .func,
        next + UInt32.ofNat (functionsOf before).length⟩ := by
  rw [recordsOf_append, ← length_recordsOf symbol next, recordsOf,
    List.getElem?_append_right (Nat.le_refl _), Nat.sub_self, List.getElem?_cons_zero]

end Push

namespace Additions

variable {start middle result additions left : Additions} {pushes before after : List Push}

/-- Nothing is added yet, to a module with these numbers of types and functions. -/
def empty (symbol : String) (typeCount functionCount : UInt32) : Additions where
  symbol
  firstType := typeCount
  nextFunction := functionCount

/-- A step of adding functions. -/
theorem addFunction_eq_ok {function : AccessorFunction} {result : Additions}
    (h : additions.addFunction function = .ok result) :
    additions.nextFunction.toNat + 1 < 2 ^ 32 ∧
    additions.firstType.toNat + function.signature.offset.toNat < 2 ^ 32 ∧
    result = { additions with
      nextFunction := additions.nextFunction + 1
      functions := additions.functions.push (additions.firstType + function.signature.offset)
      code := additions.code.push function.code
      exports := additions.exports.push
        ⟨function.accessor.exportName additions.symbol, .func, additions.nextFunction⟩ } := by
  unfold addFunction at h
  simp only at h
  split at h
  · cases h
  · split at h
    · cases h
    · next hindex htype =>
      cases h
      exact ⟨Nat.lt_of_not_le hindex, Nat.lt_of_not_le htype, rfl⟩

/-- What was added by pushes, and the room that there was for it. -/
structure After (start : Additions) (pushes : List Push) (result : Additions) : Prop where
  indices_lt : start.nextFunction.toNat + (Push.functionsOf pushes).length < 2 ^ 32
  types_lt : ∀ f ∈ Push.functionsOf pushes,
    start.firstType.toNat + f.signature.offset.toNat < 2 ^ 32
  eq : result = { start with
    nextFunction := start.nextFunction + UInt32.ofNat (Push.functionsOf pushes).length
    signatures := start.signatures ++ (pushes.flatMap Push.newSignatures).toArray
    functions := start.functions ++
      ((Push.functionsOf pushes).map fun f => start.firstType + f.signature.offset).toArray
    code := start.code ++ ((Push.functionsOf pushes).map (·.code)).toArray
    exports := start.exports ++
      (Push.recordsOf start.symbol start.nextFunction pushes).toArray }

theorem After.nil (additions : Additions) : After additions [] additions where
  indices_lt := additions.nextFunction.toNat_lt
  types_lt := nofun
  eq := by simp [Push.recordsOf]

/-- A push, whatever was pushed before it. -/
theorem after_of_apply {push : Push} (h : push.apply start = .ok result) :
    After start [push] result := by
  cases push with
  | signatures added =>
    cases h
    exact ⟨start.nextFunction.toNat_lt, nofun,
      by simp [addSignatures, Push.newSignatures, Push.recordsOf]⟩
  | item accessor kind index =>
    cases h
    exact ⟨start.nextFunction.toNat_lt, nofun,
      by simp [addExport, Push.newSignatures, Push.recordsOf]⟩
  | function f =>
    obtain ⟨hindex, htype, rfl⟩ := addFunction_eq_ok h
    exact ⟨hindex, List.forall_mem_singleton.2 htype,
      by simp [Push.newSignatures, Push.recordsOf]⟩

theorem After.trans (h : After start before middle) (h' : After middle after result) :
    After start (before ++ after) result := by
  obtain ⟨hindices, htypes, rfl⟩ := h
  obtain ⟨hindices', htypes', rfl⟩ := h'
  -- The index that the later pushes begin with has not wrapped.
  have hnext : (start.nextFunction + UInt32.ofNat (Push.functionsOf before).length).toNat =
      start.nextFunction.toNat + (Push.functionsOf before).length := by
    rw [UInt32.toNat_add, UInt32.toNat_ofNat']
    omega
  simp only [hnext] at hindices'
  refine ⟨?_, ?_, ?_⟩
  · rw [Push.functionsOf_append, List.length_append]
    omega
  · rw [Push.functionsOf_append, List.forall_mem_append]
    exact ⟨htypes, htypes'⟩
  · simp [Push.functionsOf_append, Push.recordsOf_append, UInt32.ofNat_add, UInt32.add_assoc]

/-- All pushes of a run that succeeds. -/
theorem after_of_foldlM (h : pushes.foldlM Push.apply start = .ok result) :
    After start pushes result := by
  induction pushes generalizing start with
  | nil =>
    cases h
    exact .nil _
  | cons push pushes ih =>
    rw [List.foldlM_cons] at h
    obtain ⟨next, hnext, h⟩ := Except.bind_eq_ok h
    exact (after_of_apply hnext).trans (ih h)

/-! ### In place -/

/-- Adds a function in place: whether it is refused, and the additions that are there afterwards in
either case. An index is taken for the function before its type is known to have one. -/
def placeFunction (additions : Additions) (f : AccessorFunction) :
    Except InstrumentError Unit × Additions :=
  let index := additions.nextFunction
  if UInt32.size ≤ index.toNat + 1 then (.error (.tooManyEntries .functions), additions)
  else
    let advanced := { additions with nextFunction := index + 1 }
    let offset := f.signature.offset
    if UInt32.size ≤ advanced.firstType.toNat + offset.toNat then
      (.error (.tooManyEntries .types), advanced)
    else
      let typed := { advanced with functions := advanced.functions.push (advanced.firstType + offset) }
      let coded := { typed with code := typed.code.push f.code }
      (.ok (), coded.addExport f.accessor .func index)

theorem placeFunction_ok_iff {f : AccessorFunction} :
    additions.placeFunction f = (.ok (), result) ↔ additions.addFunction f = .ok result := by
  unfold placeFunction addFunction
  simp only
  split
  · simp
  · split <;> simp

/-- A function that is refused leaves all lists as they are. -/
theorem placeFunction_eq_error {f : AccessorFunction} {e : InstrumentError}
    (h : additions.placeFunction f = (.error e, left)) : additions.addFunction f = .error e ∧
      left = { additions with nextFunction := left.nextFunction } := by
  unfold placeFunction at h
  unfold addFunction
  simp only at h ⊢
  split at h
  · next hindex =>
    cases h
    exact ⟨if_pos hindex, rfl⟩
  · next hindex =>
    split at h
    · next htype =>
      cases h
      rw [if_neg hindex, if_pos htype]
      exact ⟨rfl, rfl⟩
    · cases h

end Additions

end WasmSnapshot
